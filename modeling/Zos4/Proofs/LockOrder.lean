import Zos4.Provision.Locks
import Zos4.Provision.Reference

/-!
# Which lock request wins

A lock job decides by the state its snapshot was made with, so a request made
while another one is pending comes with a state that is out of date, and the
provisioner refuses it. What the last job makes of a deployment can be read
off the state it is taken up in: `lockedState` says where each workload ends,
and the last request wins exactly for the workloads that are in the wanted
state already, or whose snapshot is in the state the action needs.
-/

namespace Zos4.Provision

open Zos4.Interaction Prog

section

variable [Zosbase] {σ μ : Type} [Storage σ]

/-- The state a workload ends in once a lock job has gone through `items`. -/
def lockedState (lock : Bool) (items : List WorkloadWithID) (f : Recorded)
    (k : DeploymentKey) (n : Name) : Option ResultState :=
  (f k n).map fun cur =>
    if cur.result.state.isOkay = true ∧ ∃ wl ∈ items, wl.id.key = k ∧
      wl.id.name = n ∧ wl.workload.result.state = required lock
    then desired lock else cur.result.state

omit [Zosbase] in
/-- One step of the job does not change where a workload ends. -/
theorem LockStep.lockedState {lock : Bool} {wl : WorkloadWithID}
    {items : List WorkloadWithID} {f f' : Recorded} (h : LockStep lock wl f f')
    (k : DeploymentKey) (n : Name) :
    lockedState lock items f' k n = lockedState lock (wl :: items) f k n := by
  cases h with
  | acts result hacts hstate hdata =>
      obtain ⟨hokay, hneeds⟩ := hacts
      obtain ⟨cur, hcur, hok⟩ := okayAt_iff.mp hokay
      simp only [Provision.lockedState]
      by_cases hkn : k = wl.id.key ∧ n = wl.id.name
      · rw [if_pos hkn]
        obtain ⟨rfl, rfl⟩ := hkn
        have hwl : wl ∈ wl :: items := List.mem_cons_self
        rw [hcur, Option.map_some, Option.map_some,
          if_pos (c := cur.result.state.isOkay = true ∧ _)
            ⟨hok, wl, hwl, rfl, rfl, hneeds⟩,
          Workload.withResults_result, hstate, ite_self]
      · rw [if_neg hkn]
        refine Option.map_congr fun cur' _ => ?_
        have hother : ¬ (wl.id.key = k ∧ wl.id.name = n ∧
            wl.workload.result.state = required lock) :=
          fun h => hkn ⟨h.1.symm, h.2.1.symm⟩
        simp only [List.mem_cons, exists_eq_or_imp, hother, false_or]
  | keeps hno =>
      simp only [Provision.lockedState]
      refine Option.map_congr fun cur hcur => ?_
      by_cases hok : cur.result.state.isOkay = true
      · have hother : ¬ (wl.id.key = k ∧ wl.id.name = n ∧
            wl.workload.result.state = required lock) := by
          rintro ⟨rfl, rfl, hneeds⟩
          exact hno ⟨okayAt_iff.mpr ⟨cur, hcur, hok⟩, hneeds⟩
        simp only [List.mem_cons, exists_eq_or_imp, hother, false_or]
      · rw [if_neg fun h => hok h.1, if_neg fun h => hok h.1]

omit [Zosbase] in
/-- A workload in use stays in use. -/
theorem LockStep.okayAt {lock : Bool} {wl : WorkloadWithID} {f f' : Recorded}
    (h : LockStep lock wl f f') (k : DeploymentKey) (n : Name) :
    okayAt f' k n = okayAt f k n := by
  cases h with
  | acts result hacts hstate hdata =>
      by_cases hkn : k = wl.id.key ∧ n = wl.id.name
      · rw [hkn.1, hkn.2, hacts.1, Provision.okayAt, if_pos ⟨rfl, rfl⟩,
          Option.any_some, Workload.withResults_result, hstate, desired_isOkay]
      · rw [Provision.okayAt, Provision.okayAt, if_neg hkn]
  | keeps hno => rfl

/-- Where the workloads end once a lock has gone through `items`, wherever
nobody else touches the recorded workloads. -/
theorem lockLoop_states {e : NativeEngine μ} {D : Discipline engineSig (World σ μ)}
    {managers : WorkloadType → Option (Manager μ)}
    (hprov : e.provisioner = mapProvisioner managers)
    (heffect : LocksTakeEffect managers e.order) (hD : D.handle = exec e)
    (hrely : ∀ t t', D.rely t t' → t'.view.workload = t.view.workload)
    {lock : Bool} {items : List WorkloadWithID}
    (hitems : ∀ wl ∈ items, wl.workload.type ∈ e.order ∧
      wl.id.name = wl.workload.name)
    (hallow : ∀ op t, op.writes = false → op.isWork = true → D.allow op t)
    (hrecord : ∀ wl ∈ items, ∀ result t,
      okayAt t.view.workload wl.id.key wl.id.name = true →
      result.state = desired lock →
      D.allow (.storageTransaction wl.id.key (wl.workload.withResults result)) t)
    (w : World σ μ) :
    (items.forM fun wl => logged (lockWorkload wl lock)).Safe D
      (fun _ t => ∀ k n, (t.view.workload k n).map (·.result.state) =
        lockedState lock items w.view.workload k n) w := by
  refine (Safe.forM (fun left t => (∀ wl ∈ left, wl ∈ items) ∧ ∀ k n,
    lockedState lock left t.view.workload k n =
      lockedState lock items w.view.workload k n) ?_ ?_).mono ?_
  · rintro wl left t _ ⟨hleft, hends⟩
    have hwl := hleft wl List.mem_cons_self
    obtain ⟨htype, hname⟩ := hitems wl hwl
    refine safe_logged ((lockWorkload_step hprov heffect hD hrely htype hname
      hallow fun result t' hsame hacts hstate _ =>
        hrecord wl hwl result t' (hsame ▸ hacts.1) hstate).mono ?_)
    intro _ t' _ hstep
    refine ⟨fun wl' h => hleft wl' (List.mem_cons_of_mem _ h), fun k n => ?_⟩
    rw [hstep.lockedState, hends]
  · intro t ht _
    refine ⟨fun _ h => h, fun k n => ?_⟩
    rw [hrely w t ht]
  · intro _ t _ h k n
    rw [← h.2 k n, lockedState]
    simp

/-! ## The protocol -/

/-- A job `Pause` or `Resume` queues for the deployment. -/
def LockJob (k : DeploymentKey) (job : EngineJob) : Prop :=
  ∃ lock target, Snapshot k target ∧ job = lockJob lock target

/-- Nobody but the worker touches the workloads, and the worker only overwrites
workloads in use by workloads in use. -/
def locking (r : ContractEventHandler μ) (k : DeploymentKey) (f₀ : Recorded) :
    Protocol r σ where
  inv w := (∀ n, okayAt w.view.workload k n = okayAt f₀ k n) ∧
    Queued (LockJob k) w
  workerRely w w' := w'.view.workload = w.view.workload
  routineRely _ _ := True
  assume _ _ _ := True
  allow _ op w := op.jobs = [] ∧ (op.writes = true →
    ∃ key wl, op = .storageTransaction key wl ∧
      okayAt w.view.workload key wl.name = true ∧
      wl.result.state.isOkay = true)
  routineAllow op _ := op.isApi = true ∧ op.creates = false ∧
    ∀ job ∈ op.jobs, LockJob k job
  post _ := True
  worker_refl := sameWorkloads_refl
  worker_trans := @sameWorkloads_trans _ _ _ _
  routine_refl _ := trivial
  routine_trans _ _ := trivial

variable {r : ContractEventHandler μ} {k : DeploymentKey} {f₀ : Recorded}

omit [Zosbase] in
/-- Overwriting a workload in use by one in use. -/
theorem okayAt_transaction {v : StoreView} {key : DeploymentKey} {wl : Workload}
    (h : okayAt v.workload key wl.name = true)
    (hok : wl.result.state.isOkay = true) (n : Name) :
    okayAt (v.transaction key wl).workload k n = okayAt v.workload k n := by
  simp only [okayAt, StoreView.transaction_workload] at h ⊢
  split
  · next hkn =>
      rw [hkn.1, hkn.2, h, Option.any_some, hok]
  · rfl

/-- Where the workloads of the deployment end once its job is done. -/
theorem processJob_locks [GoRuntime]
    {managers : WorkloadType → Option (Manager μ)}
    (hprov : r.engine.provisioner = mapProvisioner managers)
    (heffect : LocksTakeEffect managers r.engine.order) (lock : Bool)
    (target : Deployment) (job : Option EngineJob) (w : World σ μ) :
    (processJob r.engine (lockJob lock target)).Safe
      ((locking r k f₀).worker job)
      (fun _ t => ∀ n, (t.view.workload k n).map (·.result.state) =
        lockedState lock (lockItems r.engine lock target) w.view.workload k n)
      w := by
  let items := lockItems r.engine lock target
  let ends (t : World σ μ) : Prop := ∀ n,
    (t.view.workload k n).map (·.result.state) =
      lockedState lock items w.view.workload k n
  have hitems : ∀ wl ∈ items, wl.workload.type ∈ r.engine.order ∧
      wl.id.name = wl.workload.name := by
    intro wl hwl
    obtain ⟨_, _, htype, rfl⟩ := mem_lockItems.mp hwl
    exact ⟨htype, rfl⟩
  have hloop : (items.forM fun wl => logged (lockWorkload wl lock)).Safe
      ((locking r k f₀).worker job) (fun _ => ends) w := by
    refine (lockLoop_states hprov heffect rfl (fun _ _ h => h) hitems ?_ ?_ w).mono
      fun _ t _ h => h k
    · intro op t' hw hwork
      exact ⟨Op.jobs_of_isWork hwork, fun h => by rw [hw] at h; cases h⟩
    · intro wl hwl result t' hokay hstate
      refine ⟨rfl, fun _ => ⟨_, _, rfl, ?_, ?_⟩⟩
      · rw [Workload.withResults_name, ← (hitems wl hwl).2]
        exact hokay
      · rw [Workload.withResults_result, hstate]
        exact desired_isOkay lock
  rw [processJob_lock]
  refine hloop.bind fun _ t _ hends => ?_
  refine (finishJob_makes target false).keeps (fun op t => exec_possible op t)
    ?_ ?_ hends
  · intro t t' hends ht n
    rw [show t'.view.workload = t.view.workload from ht]
    exact hends n
  · rintro op t (rfl | rfl) _ hends
    · exact ⟨⟨rfl, fun h => nomatch h⟩, by
        rw [Protocol.worker_handle]
        intro n
        rw [exec_view t rfl]
        exact hends n⟩
    · exact ⟨⟨rfl, fun h => nomatch h⟩, hends⟩

/-! ## Runs of lock requests -/

/-- Only `Pause` and `Resume` of the one deployment are requested. -/
def locksOnly (k : DeploymentKey) : Action μ → Bool
  | .spawn (.request (.pause twin id)) | .spawn (.request (.resume twin id)) =>
      k = ⟨twin, id⟩
  | .routine _ | .take | .work | .outside _ _ _ => true
  | .spawn _ | .restart | .clear _ | .reboot _ => false

/-- The same as a condition on the steps of a run. -/
abbrev LocksOnly (k : DeploymentKey) (_ : Sys σ μ) (a : Action μ) : Prop :=
  locksOnly k a = true

omit [Zosbase] [Storage σ] in
theorem LocksOnly.continues [Zosbase] {s : Sys σ μ} {a : Action μ}
    (h : LocksOnly k s a) : a.continues := by
  cases a <;> trivial

omit [Storage σ] in
/-- A permitted request is queued, creates nothing and queues a lock job. -/
theorem LocksOnly.spawn {s : Sys σ μ} {routine : Routine}
    (h : LocksOnly k s (.spawn routine)) :
    ∃ req, routine = .request req ∧ req.queued = true ∧ req.creates = false ∧
      ∀ job, req.Queues job → LockJob k job := by
  rcases routine with req | _
  · cases req with
    | pause twin id =>
        obtain rfl := of_decide_eq_true h
        refine ⟨_, rfl, rfl, rfl, ?_⟩
        rintro job ⟨dl, hdl, rfl⟩
        exact ⟨true, dl, hdl, rfl⟩
    | resume twin id =>
        obtain rfl := of_decide_eq_true h
        refine ⟨_, rfl, rfl, rfl, ?_⟩
        rintro job ⟨dl, hdl, rfl⟩
        exact ⟨false, dl, hdl, rfl⟩
    | _ => cases h
  · cases h

/-- A call that overwrites workloads in use by such, or writes nothing. -/
theorem okayAt_call {w : World σ μ} {e : NativeEngine μ} {op : Op}
    (h : op.writes = true → ∃ key wl, op = .storageTransaction key wl ∧
      okayAt w.view.workload key wl.name = true ∧
      wl.result.state.isOkay = true) (n : Name) :
    okayAt (exec e op w).2.view.workload k n = okayAt w.view.workload k n := by
  cases hw : op.writes with
  | false => rw [exec_view w hw]
  | true =>
      obtain ⟨key, wl, rfl, hcur, hok⟩ := h hw
      rcases (exec_storageTransaction (e := e) w key wl).cases with
        ⟨s, hv, hres, _⟩ | ⟨err, hres, _⟩
      · rw [hres, World.view_mk, hv, okayAt_transaction hcur hok]
      · rw [hres]

theorem locking_sound [GoRuntime]
    {managers : WorkloadType → Option (Manager μ)}
    (hprov : r.engine.provisioner = mapProvisioner managers)
    (heffect : LocksTakeEffect managers r.engine.order) :
    (locking r k f₀ : Protocol r σ).Sound (LocksOnly k) where
  spawn s routine _ h := by
    obtain ⟨req, rfl, hqueued, hcreates, hjobs⟩ := h.spawn
    refine (invoke_makes (e := r.engine) hqueued).safe
      (fun op t => exec_possible op t) fun op t hop _ => ?_
    exact ⟨hop.api, hop.quiet hcreates,
      fun job hjob => hjobs job (hop.jobs job hjob)⟩
  routine op w hi hop := by
    have hsame : (exec r.engine op w).2.view.workload = w.view.workload :=
      exec_api_workload hop.1 hop.2.1
    refine ⟨⟨fun n => ?_, hi.2.call hop.2.2⟩, hsame, trivial⟩
    rw [hsame]
    exact hi.1 n
  assume _ _ _ _ _ _ := trivial
  work job op w hi _ hop := by
    refine ⟨⟨fun n => ?_, Queued.call hi.2 ?_⟩, trivial⟩
    · rw [okayAt_call hop.2]
      exact hi.1 n
    · rw [hop.1]
      exact fun _ h => nomatch h
  take s job rest hholds _ hq := by
    obtain ⟨lock, target, _, rfl⟩ := hholds.inv.2 job (by rw [hq]; simp)
    exact (processJob_locks hprov heffect lock target _ s.world).mono
      fun _ _ _ _ => trivial
  outside s clock chain gateway hi _ := ⟨hi, rfl, trivial⟩
  restart s _ h := nomatch h
  clear s _ _ h := nomatch h
  reboot s rest _ h := nomatch h

/-- The last lock request won: every workload that was in use at the start is in
the state it asked for. -/
def LastLockWon (lock : Bool) (k : DeploymentKey) (v₀ v : StoreView) : Prop :=
  ∀ n, okayAt v₀.workload k n = true →
    (v.workload k n).map (·.result.state) = some (desired lock)

/-- Every workload in use is in the wanted state already, or was in the state
the action needs when its snapshot was made. -/
def InStep (e : NativeEngine μ) (lock : Bool) (k : DeploymentKey)
    (target : Deployment) (v : StoreView) : Prop :=
  ∀ n, okayAt v.workload k n = true →
    (v.workload k n).map (·.result.state) = some (desired lock) ∨
      ∃ wl ∈ target.workloads, wl.name = n ∧ wl.type ∈ e.order ∧
        wl.result.state = required lock

omit [Zosbase] in
theorem lockedState_eq_desired {lock : Bool} {target : Deployment}
    {e : NativeEngine μ} (hkey : target.key = k) {f : Recorded} {n : Name}
    (hok : okayAt f k n = true) :
    lockedState lock (lockItems e lock target) f k n = some (desired lock) ↔
      (f k n).map (·.result.state) = some (desired lock) ∨
        ∃ wl ∈ target.workloads, wl.name = n ∧ wl.type ∈ e.order ∧
          wl.result.state = required lock := by
  have hitems : (∃ wl ∈ lockItems e lock target, wl.id.key = k ∧
      wl.id.name = n ∧ wl.workload.result.state = required lock) ↔
      ∃ wl ∈ target.workloads, wl.name = n ∧ wl.type ∈ e.order ∧
        wl.result.state = required lock := by
    constructor
    · rintro ⟨item, hitem, _, hname, hneeds⟩
      obtain ⟨wl, hwl, htype, rfl⟩ := mem_lockItems.mp hitem
      exact ⟨wl, hwl, hname, htype, hneeds⟩
    · rintro ⟨wl, hwl, hname, htype, hneeds⟩
      exact ⟨_, mem_lockItems.mpr ⟨wl, hwl, htype, rfl⟩, hkey, hname, hneeds⟩
  rw [← hitems]
  rw [okayAt] at hok
  cases hcur : f k n with
  | none => rw [hcur] at hok; cases hok
  | some cur =>
      rw [hcur, Option.any_some] at hok
      rw [lockedState, hcur, Option.map_some, Option.map_some]
      split
      · next h => exact ⟨fun _ => .inr h.2, fun _ => rfl⟩
      · next h =>
          constructor
          · exact .inl
          · rintro (hstate | hin)
            · exact hstate
            · exact absurd ⟨hok, hin⟩ h

/-- In a run of lock requests the last one wins exactly if the worker took its
job up in step. -/
theorem last_lock_wins_iff [GoRuntime]
    {managers : WorkloadType → Option (Manager μ)}
    (hprov : r.engine.provisioner = mapProvisioner managers)
    (heffect : LocksTakeEffect managers r.engine.order) {s₀ s : Sys σ μ}
    (hfresh : s₀.Fresh) (hrun : Run r (LocksOnly k) s₀ s)
    (hdrained : s.Drained) {lock : Bool} {target : Deployment}
    (hlast : (accepted s.log).getLast? = some (lockJob lock target)) :
    ∃ s₁ s₁' rest, Run r (LocksOnly k) s₀ s₁ ∧
      s₁.step r .take = some s₁' ∧
      s₁.world.queue = lockJob lock target :: rest ∧
      Run r (fun s a => LocksOnly k s a ∧ a ≠ .take) s₁' s ∧
      (LastLockWon lock k s₀.world.view s.world.view ↔
        InStep r.engine lock k target s₁.world.view) := by
  have hholds : (locking r k s₀.world.view.workload).Holds s₀ :=
    hfresh.holds ⟨fun _ => rfl, .of_empty hfresh.queue⟩ fun _ _ => trivial
  obtain ⟨s₁, s₁', rest, hbefore, htake, hq, hafter, hinv, hpost⟩ :=
    hrun.last_job (fun w t => ∀ n, (t.view.workload k n).map (·.result.state) =
        lockedState lock (lockItems r.engine lock target) w.view.workload k n)
      (locking_sound hprov heffect) (fun _ _ h => h.continues) hfresh hholds
      hdrained hlast
      fun w _ _ => processJob_locks hprov heffect lock target _ w
  refine ⟨s₁, s₁', rest, hbefore, htake, hq, hafter, ?_⟩
  have hkey : target.key = k := by
    obtain ⟨lock', target', hsnap, hjob⟩ :=
      hinv.2 _ (by rw [hq]; exact List.mem_cons_self)
    rw [(lockJob_inj hjob).2]
    exact hsnap.key
  refine forall_congr' fun n => ?_
  rw [← hinv.1 n]
  refine forall_congr' fun hok => ?_
  rw [hpost n]
  exact lockedState_eq_desired hkey hok

end

/-! ## A pause and a resume at once

Both are requested before the worker takes up the first. The resume comes with
a snapshot in state ok, and a workload in state ok cannot be resumed. -/

namespace PauseThenResume

open Reference

def stored : Deployment := deployment 0 1 [workload 0 "a" "d"]

def start : Sys MapStore Unit :=
  idle (world (store [stored]) [⟨1, 2, "a"⟩] [] ⟨[(2, contract stored)], []⟩)

def actions : List (Action Unit) :=
  [.spawn (.request (.pause 1 2)), .routine 0, .routine 0, .routine 0,
    .spawn (.request (.resume 1 2)), .routine 1, .routine 1, .routine 1,
    .take, .work, .work, .work, .work, .take, .work, .work, .work]

def finish : Sys MapStore Unit :=
  (start.follow handler (fun _ => locksOnly stored.key) actions).get
    (by decide +kernel)

theorem run : Run handler (LocksOnly stored.key) start finish :=
  Run.of_follow (fun _ _ h => h) actions (Option.some_get _).symm

theorem drained : finish.Drained :=
  ⟨Sys.idle_of_isIdle (by decide +kernel), by decide +kernel⟩

theorem both_accepted :
    accepted finish.log = [lockJob true stored, lockJob false stored] := by
  decide +kernel

theorem takes_effect :
    LocksTakeEffect (fun _ => some manager) handler.engine.order :=
  fun _ _ => ⟨manager, rfl, fun _ h => nomatch h⟩

end PauseThenResume

theorem last_lock_wins_iff_pause_resume :
    ∃ s₁ s₁' rest, Run Reference.handler
        (LocksOnly PauseThenResume.stored.key) PauseThenResume.start s₁ ∧
      s₁.step Reference.handler .take = some s₁' ∧
      s₁.world.queue = lockJob false PauseThenResume.stored :: rest ∧
      Run Reference.handler
        (fun s a => LocksOnly PauseThenResume.stored.key s a ∧ a ≠ .take) s₁'
        PauseThenResume.finish ∧
      (LastLockWon false PauseThenResume.stored.key
          PauseThenResume.start.world.view PauseThenResume.finish.world.view ↔
        InStep Reference.handler.engine false PauseThenResume.stored.key
          PauseThenResume.stored s₁.world.view) :=
  last_lock_wins_iff rfl PauseThenResume.takes_effect
    (Reference.idle_fresh rfl) PauseThenResume.run PauseThenResume.drained
    (by rw [PauseThenResume.both_accepted]; rfl)

/-- A pause and then a resume, both accepted, leave a running workload paused. -/
theorem queued_resume_is_lost :
    ∃ s : Sys MapStore Unit,
      Run Reference.handler (LocksOnly PauseThenResume.stored.key)
        PauseThenResume.start s ∧ s.Drained ∧
      accepted s.log = [lockJob true PauseThenResume.stored,
        lockJob false PauseThenResume.stored] ∧
      ¬ LastLockWon false PauseThenResume.stored.key
        PauseThenResume.start.world.view s.world.view := by
  refine ⟨PauseThenResume.finish, PauseThenResume.run, PauseThenResume.drained,
    PauseThenResume.both_accepted, fun hwon => ?_⟩
  have hstate := hwon "a" (by decide +kernel)
  exact absurd hstate (by decide +kernel)

end Zos4.Provision
