import Zos4.Provision.Locks
import Zos4.Provision.Reference

/-!
# Updates and lock jobs in one queue

A lock job writes a whole snapshot back, so an update that was processed since
the snapshot was made is undone by it. The invariant that would say otherwise
is about history: `lastWritten` reads the log and says what every workload was
last recorded as by an update or a provision job, leaving state, error text and
time out of it. It holds over every run in which the worker finds the snapshots
of lock jobs fresh when it takes them up, for all they are going to write.

Between the worker's calls nothing else touches a workload, so freshness at the
moment a job is taken up is enough, and only a lock job needs it: what an
update writes is by definition the last thing written.
-/

namespace Zos4.Provision

open Zos4.Interaction Prog

section

variable [Zosbase] {σ μ : Type} [Storage σ]

/-- What a lock change must not touch: the definition of a workload and the data
of its result. -/
structure Core where
  definition : Workload
  data : RawMessage
  deriving DecidableEq, Repr

def core (wl : Workload) : Core := ⟨Workload.definition wl, wl.result.data⟩

abbrev Cores := DeploymentKey → Name → Option Core

def Cores.set (f : Cores) (k : DeploymentKey) (n : Name) (c : Option Core) :
    Cores :=
  fun k' n' => if k' = k ∧ n' = n then c else f k' n'

/-- The recorded cores. -/
def cores (w : World σ μ) : Cores := fun k n => (w.view.workload k n).map core

/-- The jobs that are to change what a workload is. -/
def EngineJob.defines : EngineJob → Bool
  | .opProvision _ | .opUpdate _ _ | .opProvisionNoValidation _ => true
  | .opDeprovision _ _ | .opPause _ | .opResume _ => false

def Who.defines : Who → Bool
  | .worker (some job) => job.defines
  | .worker none | .routine => false

/-- What a call that went through leaves a workload written as. -/
def written : (op : Op) → op.Ret → Cores → Cores
  | .storageTransaction key wl, none, f => f.set key wl.name (some (core wl))
  | .storageAdd key wl, none, f =>
      f.set key wl.name (some (core (wl.withResults (Result.initial 0))))
  | .storageRemove key n, none, f => f.set key n none
  | _, _, f => f

/-- Only the calls of a job that defines workloads count. -/
def touch (ev : Event) (f : Cores) : Cores :=
  if ev.who.defines then written ev.op ev.ret f else f

/-- What every workload was last written as by a job that defines it, or as it
was at the start. -/
def lastWritten (f : Cores) (log : List Event) : Cores := log.foldr touch f

/-! ## What a call writes -/

omit [Zosbase] in
theorem core_withResults (wl : Workload) (result : Result) :
    core (wl.withResults result) = ⟨Workload.definition wl, result.data⟩ := rfl

variable {e : NativeEngine μ}

theorem cores_of_view {w w' : World σ μ}
    (h : w'.view.workload = w.view.workload) : cores w' = cores w := by
  funext k n
  rw [cores, cores, h]

/-- What a call of a workload operation writes is what it is read as. -/
theorem cores_written {w : World σ μ} {op : Op}
    (hop : op.isWork = true ∨ op.writes = false) :
    cores (exec e op w).2 = written op (exec e op w).1 (cores w) := by
  cases op with
  | storageTransaction key wl =>
      rcases (exec_storageTransaction (e := e) w key wl).cases with
        ⟨s, hv, hres, _⟩ | ⟨err, hres, _⟩
      · rw [hres]
        funext k n
        rw [cores, World.view_mk, hv, StoreView.transaction_workload, written,
          Cores.set]
        split <;> rfl
      · rw [hres]; rfl
  | storageAdd key wl =>
      rcases (exec_storageAdd (e := e) w key wl).cases with
        ⟨s, hv, hres, _⟩ | ⟨err, hres, _⟩
      · rw [hres]
        funext k n
        rw [cores, World.view_mk, hv, StoreView.add_workload, written, Cores.set]
        split <;> rfl
      · rw [hres]; rfl
  | storageRemove key n =>
      rcases (exec_storageRemove (e := e) w key n).cases with
        ⟨s, hv, hres, _⟩ | ⟨err, hres, _⟩
      · rw [hres]
        funext k m
        rw [cores, World.view_mk, hv, StoreView.remove_workload, written,
          Cores.set]
        split <;> rfl
      · rw [hres]; rfl
  | storageCreate | storageUpdate | storageDelete | storageError =>
      rcases hop with hop | hop <;> cases hop
  | _ => exact cores_of_view (by rw [exec_view w rfl])

/-- A call that keeps the core of whatever it overwrites. -/
def KeepsCore (op : Op) (w : World σ μ) : Prop :=
  op.writes = true → ∃ key wl, op = .storageTransaction key wl ∧
    ∃ cur, w.view.workload key wl.name = some cur ∧ core cur = core wl

theorem KeepsCore.cores {op : Op} {w : World σ μ} (h : KeepsCore op w) :
    cores (exec e op w).2 = cores w := by
  cases hw : op.writes with
  | false => exact cores_of_view (by rw [exec_view w hw])
  | true =>
      obtain ⟨key, wl, rfl, cur, hcur, hcore⟩ := h hw
      rcases (exec_storageTransaction (e := e) w key wl).cases with
        ⟨s, hv, hres, _⟩ | ⟨err, hres, _⟩
      · rw [hres]
        funext k n
        rw [Provision.cores, World.view_mk, hv, StoreView.transaction_workload]
        split
        · next hkn =>
            rw [hkn.1, hkn.2, Provision.cores, hcur, Option.map_some,
              Option.map_some, hcore]
        · rfl
      · rw [hres]

/-- It makes no difference to the account, whoever makes it. -/
theorem KeepsCore.written {op : Op} {w : World σ μ} (h : KeepsCore op w)
    (ret : op.Ret) :
    written op ret (Provision.cores w) = Provision.cores w := by
  cases hw : op.writes with
  | false => cases op <;> first | rfl | cases hw
  | true =>
      obtain ⟨key, wl, rfl, cur, hcur, hcore⟩ := h hw
      cases ret with
      | some err => rfl
      | none =>
          funext k n
          rw [Provision.written, Cores.set]
          split
          · next hkn =>
              rw [hkn.1, hkn.2, Provision.cores, hcur, Option.map_some, hcore]
          · rfl

/-! ## The protocol -/

/-- Updates and lock requests. -/
def UpdateOrLock (job : EngineJob) : Prop :=
  (∃ u, UpdateJob u job) ∨ ∃ lock target, job = lockJob lock target

/-- What the worker may call for a job: an update does its work, anything else
keeps the cores. -/
def definesOrKeeps (job : Option EngineJob) (op : Op) (w : World σ μ) : Prop :=
  match job with
  | some (.opUpdate target _) =>
      op.isWork = true ∨ op.writes = false ∨
        ∃ err, op = .storageError target.key err
  | _ => KeepsCore op w

def lockUpdates (r : ContractEventHandler μ) : Protocol r σ where
  inv := Queued UpdateOrLock
  workerRely w w' := w'.view.workload = w.view.workload
  routineRely _ _ := True
  assume _ _ _ := True
  allow job op w := op.jobs = [] ∧ definesOrKeeps job op w
  routineAllow op _ := op.isApi = true ∧ op.creates = false ∧
    ∀ job ∈ op.jobs, UpdateOrLock job
  post _ := True
  worker_refl := sameWorkloads_refl
  worker_trans := @sameWorkloads_trans _ _ _ _
  routine_refl _ := trivial
  routine_trans _ _ := trivial

/-- Of every workload a lock job is going to write, its snapshot has the
definition and the data that are recorded. -/
def FreshLock (e : NativeEngine μ) (lock : Bool) (target : Deployment)
    (f : Recorded) : Prop :=
  ∀ wl ∈ target.workloads, wl.type ∈ e.order →
    Acts lock (target.withID wl) f →
      (f target.key wl.name).map core = some (core wl)

instance (lock : Bool) (target : Deployment) (f : Recorded) :
    Decidable (FreshLock e lock target f) :=
  inferInstanceAs (Decidable (∀ wl ∈ _, _ → _ → _))

omit [Zosbase] in
/-- What a fresh job writes on account of one workload leaves it fresh for the
others. -/
theorem FreshLock.step {lock : Bool} {target : Deployment} {f f' : Recorded}
    (h : FreshLock e lock target f) {w₀ : Workload}
    (hw₀ : w₀ ∈ target.workloads) (htype₀ : w₀.type ∈ e.order)
    (hstep : LockStep lock (target.withID w₀) f f') :
    FreshLock e lock target f' := by
  intro wl hwl htype hacts
  cases hstep with
  | keeps hno => exact h wl hwl htype hacts
  | acts result hacts₀ hstate hdata =>
      show (if target.key = target.key ∧ wl.name = w₀.name then
        some (w₀.withResults result) else f target.key wl.name).map core = _
      by_cases hn : wl.name = w₀.name
      · -- both snapshots agree with what was recorded under the name
        have hacts' : Acts lock (target.withID wl) f := by
          refine ⟨?_, hacts.2⟩
          show okayAt f target.key wl.name = true
          rw [hn]
          exact hacts₀.1
        have h₁ := h wl hwl htype hacts'
        rw [hn, h w₀ hw₀ htype₀ hacts₀] at h₁
        rw [if_pos ⟨rfl, hn⟩, Option.map_some, core_withResults, hdata, ← h₁]
        rfl
      · have hother : ¬ (target.key = target.key ∧ wl.name = w₀.name) :=
          fun h => hn h.2
        rw [if_neg hother]
        refine h wl hwl htype ⟨?_, hacts.2⟩
        have hokay : ((if target.key = target.key ∧ wl.name = w₀.name then
            some (w₀.withResults result) else f target.key wl.name).any
              fun w => w.result.state.isOkay) = true := hacts.1
        rw [if_neg hother] at hokay
        exact hokay

variable {r : ContractEventHandler μ}

/-- A lock job taken up with a fresh snapshot keeps every core. -/
theorem processJob_keepsCore [GoRuntime]
    {managers : WorkloadType → Option (Manager μ)}
    (hprov : r.engine.provisioner = mapProvisioner managers)
    (heffect : LocksTakeEffect managers r.engine.order) {lock : Bool}
    {target : Deployment} {w : World σ μ}
    (hfresh : FreshLock r.engine lock target w.view.workload) :
    (processJob r.engine (lockJob lock target)).Safe
      ((lockUpdates r).worker (some (lockJob lock target)))
      (fun _ _ => True) w := by
  let items := lockItems r.engine lock target
  have hallow : ∀ (op : Op) (t : World σ μ), op.jobs = [] → KeepsCore op t →
      ((lockUpdates r).worker (some (lockJob lock target))).allow op t := by
    intro op t hj hkeep
    refine ⟨hj, ?_⟩
    cases lock <;> exact hkeep
  have hloop : (items.forM fun wl => logged (lockWorkload wl lock)).Safe
      ((lockUpdates r).worker (some (lockJob lock target)))
      (fun _ _ => True) w := by
    refine (Safe.forM (fun left t => (∀ wl ∈ left, wl ∈ items) ∧
      FreshLock r.engine lock target t.view.workload) ?_ ?_).mono
        fun _ _ _ _ => trivial
    · rintro wl left t _ ⟨hleft, hfresh⟩
      obtain ⟨w₀, hw₀, htype, rfl⟩ :=
        mem_lockItems.mp (hleft wl List.mem_cons_self)
      refine safe_logged ((lockWorkload_step hprov heffect rfl
        (fun _ _ h => h) htype rfl ?_ ?_).mono ?_)
      · intro op t' hw hwork
        exact hallow op t' (Op.jobs_of_isWork hwork)
          fun h => by rw [hw] at h; cases h
      · intro result t' hsame hacts _ hdata
        refine hallow _ t' rfl fun _ => ⟨_, _, rfl, ?_⟩
        obtain ⟨cur, hcur, _⟩ := okayAt_iff.mp hacts.1
        have hcore := hfresh w₀ hw₀ htype hacts
        refine ⟨cur, ?_, ?_⟩
        · rw [hsame]
          exact hcur
        · rw [show t.view.workload target.key w₀.name = some cur from hcur,
            Option.map_some] at hcore
          rw [Option.some.inj hcore, core_withResults, hdata]
          rfl
      · intro _ t' _ hstep
        exact ⟨fun wl h => hleft wl (List.mem_cons_of_mem _ h),
          hfresh.step hw₀ htype hstep⟩
    · intro t ht _
      refine ⟨fun _ h => h, ?_⟩
      rw [show t.view.workload = w.view.workload from ht]
      exact hfresh
  rw [processJob_lock]
  refine hloop.bind fun _ t _ _ => ?_
  refine (finishJob_makes target false).safe (fun op t => exec_possible op t) ?_
  rintro op t (rfl | rfl) _
  · exact hallow _ t rfl fun h => nomatch h
  · exact hallow _ t rfl fun h => nomatch h

/-! ## Runs -/

/-- Updates, pauses and resumes are requested, and the jobs of the updates pass
validation. -/
def updatesAndLocks (s : Sys σ μ) : Action μ → Bool
  | .spawn (.request (.update _)) | .spawn (.request (.pause _ _))
  | .spawn (.request (.resume _ _)) => true
  | .routine _ | .take | .outside _ _ _ => true
  | .work => !s.refusing
  | .spawn _ | .restart | .clear _ | .reboot _ => false

/-- The job the worker is about to take up is no lock job, or a fresh one. -/
def takesFresh (e : NativeEngine μ) (s : Sys σ μ) : Bool :=
  match s.world.queue with
  | .opPause target :: _ => FreshLock e true target s.world.view.workload
  | .opResume target :: _ => FreshLock e false target s.world.view.workload
  | _ => true

/-- A run of updates and lock requests in which every lock job is fresh when it
is taken up. -/
def FreshLocks (e : NativeEngine μ) (s : Sys σ μ) (a : Action μ) : Prop :=
  updatesAndLocks s a = true ∧ (a = .take → takesFresh e s = true)

instance (e : NativeEngine μ) (s : Sys σ μ) (a : Action μ) :
    Decidable (FreshLocks e s a) :=
  match a with
  | .take => decidable_of_iff (takesFresh e s = true)
      ⟨fun h => ⟨rfl, fun _ => h⟩, fun h => h.2 rfl⟩
  | .spawn _ | .routine _ | .work | .outside _ _ _ | .restart | .clear _ | .reboot _ =>
      decidable_of_iff (updatesAndLocks s _ = true)
        ⟨fun h => ⟨h, fun h => nomatch h⟩, And.left⟩

theorem freshLock_of_takes {s : Sys σ μ} {lock : Bool} {target : Deployment}
    {rest : List EngineJob} (h : takesFresh e s = true)
    (hq : s.world.queue = lockJob lock target :: rest) :
    FreshLock e lock target s.world.view.workload := by
  rw [takesFresh, hq] at h
  cases lock <;> exact of_decide_eq_true h

omit [Storage σ] in
theorem updatesAndLocks_spawn {s : Sys σ μ} {routine : Routine}
    (h : updatesAndLocks s (.spawn routine) = true) :
    ∃ req, routine = .request req ∧ req.queued = true ∧ req.creates = false ∧
      ∀ job, req.Queues job → UpdateOrLock job := by
  rcases routine with req | _
  · cases req with
    | update u => exact ⟨_, rfl, rfl, rfl, fun job hjob => .inl ⟨u, hjob⟩⟩
    | pause twin id =>
        refine ⟨_, rfl, rfl, rfl, ?_⟩
        rintro job ⟨dl, _, rfl⟩
        exact .inr ⟨true, dl, rfl⟩
    | resume twin id =>
        refine ⟨_, rfl, rfl, rfl, ?_⟩
        rintro job ⟨dl, _, rfl⟩
        exact .inr ⟨false, dl, rfl⟩
    | _ => cases h
  · cases h

variable [GoRuntime] {managers : WorkloadType → Option (Manager μ)}

theorem lockUpdates_sound (hprov : r.engine.provisioner = mapProvisioner managers)
    (heffect : LocksTakeEffect managers r.engine.order) :
    (lockUpdates r : Protocol r σ).Sound (FreshLocks r.engine) where
  spawn s routine _ h := by
    obtain ⟨req, rfl, hqueued, hcreates, hjobs⟩ := updatesAndLocks_spawn h.1
    refine (invoke_makes (e := r.engine) hqueued).safe
      (fun op t => exec_possible op t) fun op t hop _ => ?_
    exact ⟨hop.api, hop.quiet hcreates,
      fun job hjob => hjobs job (hop.jobs job hjob)⟩
  routine op w hi hop :=
    ⟨hi.call hop.2.2, exec_api_workload hop.1 hop.2.1, trivial⟩
  assume _ _ _ _ _ _ := trivial
  work job op w hi _ hop :=
    ⟨hi.call (by rw [hop.1]; exact fun _ h => nomatch h), trivial⟩
  take s job rest hholds hok hq := by
    rcases hholds.inv job (by rw [hq]; simp) with
      ⟨u, source, ops, _, _, rfl⟩ | ⟨lock, target, rfl⟩
    · refine (processJob_makes _).safe (fun op t => exec_possible op t)
        fun op t hop _ => ⟨hop.jobs, ?_⟩
      cases hop with
      | work _ hop => exact .inl (Op.isWork_of_on hop)
      | delete h => cases h
      | refuse err => exact .inr (.inr ⟨err, rfl⟩)
      | _ => exact .inr (.inl rfl)
    · exact processJob_keepsCore hprov heffect
        (freshLock_of_takes (hok.2 rfl) hq)
  outside s clock chain gateway hi _ := ⟨hi, rfl, trivial⟩
  restart s _ h := nomatch h.1
  clear s _ _ h := nomatch h.1
  reboot s rest _ h := nomatch h.1

/-- One step keeps the account. -/
theorem cores_step {s s' : Sys σ μ} {a : Action μ} {f : Cores}
    (hholds : (lockUpdates r).Holds s) (hok : updatesAndLocks s a = true)
    (hs : s.step r a = some s') (h : cores s.world = lastWritten f s.log) :
    cores s'.world = lastWritten f s'.log := by
  cases a with
  | spawn routine => obtain rfl := step_spawn hs; exact h
  | take => obtain ⟨_, _, _, _, rfl⟩ := step_take hs; exact h
  | outside clock chain gateway => obtain rfl := step_outside hs; exact h
  | restart => cases hok
  | clear rerunAll => cases hok
  | reboot rest => cases hok
  | routine i =>
      obtain ⟨op, k, hi, rfl⟩ := step_routine hs
      have hop := hholds.routine_allowed hi
      rw [show cores (exec r.engine op s.world).2 = cores s.world from
        cores_of_view (exec_api_workload hop.1 hop.2.1), h]
      rfl
  | work =>
      obtain ⟨op, k, hw, rfl⟩ := step_work hs
      have hop : definesOrKeeps s.job op s.world := (hholds.allowed hw trivial).2
      show cores (exec r.engine op s.world).2 =
        touch ⟨.worker s.job, op, _⟩ (lastWritten f s.log)
      rw [← h]
      by_cases hupdate : ∃ target source, s.job = some (.opUpdate target source)
      · obtain ⟨target, source, hjob⟩ := hupdate
        rw [hjob] at hop ⊢
        show cores (exec r.engine op s.world).2 = written op _ (cores s.world)
        refine cores_written ?_
        rcases hop with hop | hop | ⟨err, rfl⟩
        · exact .inl hop
        · exact .inr hop
        · rw [updatesAndLocks, Sys.refusing, hw] at hok
          cases hok
      · have hkeep : KeepsCore op s.world := by
          rw [definesOrKeeps] at hop
          · exact hop
          · exact fun target source hjob => hupdate ⟨target, source, hjob⟩
        rw [hkeep.cores, touch, hkeep.written, ite_self]

/-- In every run whose lock jobs are fresh when they are taken up, each workload
is recorded as an update last wrote it. -/
theorem stored_eq_lastWritten
    (hprov : r.engine.provisioner = mapProvisioner managers)
    (heffect : LocksTakeEffect managers r.engine.order) {s₀ s : Sys σ μ}
    (hfresh : s₀.Fresh) (hrun : Run r (FreshLocks r.engine) s₀ s) :
    ∀ k n, (s.world.view.workload k n).map core =
      lastWritten (cores s₀.world) s.log k n := by
  have hsound : (lockUpdates r : Protocol r σ).Sound (FreshLocks r.engine) :=
    lockUpdates_sound hprov heffect
  have hstart : (lockUpdates r).Holds s₀ ∧
      cores s₀.world = lastWritten (cores s₀.world) s₀.log := by
    refine ⟨hfresh.holds (.of_empty hfresh.queue) fun _ _ => trivial, ?_⟩
    rw [hfresh.log]
    rfl
  have hend : (lockUpdates r).Holds s ∧
      cores s.world = lastWritten (cores s₀.world) s.log := by
    have hstep : ∀ (t : Sys σ μ) a t', ((lockUpdates r).Holds t ∧
        cores t.world = lastWritten (cores s₀.world) t.log) →
        FreshLocks r.engine t a → t.step r a = some t' →
        (lockUpdates r).Holds t' ∧
          cores t'.world = lastWritten (cores s₀.world) t'.log := by
      rintro t a t' ⟨hholds, hcores⟩ hok hs
      exact ⟨hsound.step hholds hok hs, cores_step hholds hok.1 hs hcores⟩
    exact hrun.invariant hstep hstart
  exact fun k n => congrFun (congrFun hend.2 k) n

end

/-! ## A pause behind an update

`Pause` reads the deployment while the update of its workload is pending, so
its job comes with the old definition. -/

namespace PauseBehindUpdate

open Reference

def stored : Deployment := deployment 0 1 [workload 0 "a" "d"]

def updated : Deployment := deployment 1 1 [workload 1 "a" "e"]

def start : Sys MapStore Unit :=
  idle (world (store [stored]) [⟨1, 2, "a"⟩] [] ⟨[(2, contract updated)], []⟩)

def requestUpdate : List (Action Unit) :=
  .spawn (.request (.update updated)) :: List.replicate 4 (.routine 0)

def requestPause : List (Action Unit) :=
  .spawn (.request (.pause 1 2)) :: List.replicate 3 (.routine 1)

def processUpdate : List (Action Unit) := .take :: List.replicate 5 .work

def processPause : List (Action Unit) := .take :: List.replicate 4 .work

/-- The pause is requested once the update is done. -/
def after : Sys MapStore Unit :=
  (start.follow handler (fun s a => FreshLocks engine s a)
    (requestUpdate ++ processUpdate ++ requestPause ++ processPause)).get
      (by decide +kernel)

theorem run_after : Run handler (FreshLocks engine) start after :=
  Run.of_follow (fun _ _ h => of_decide_eq_true h) _ (Option.some_get _).symm

/-- The pause is requested while the update is pending. -/
def behind : Sys MapStore Unit :=
  (start.follow handler updatesAndLocks
    (requestUpdate ++ requestPause ++ processUpdate ++ processPause)).get
      (by decide +kernel)

theorem run_behind :
    Run handler (fun s a => updatesAndLocks s a = true) start behind :=
  Run.of_follow (fun _ _ h => h) _ (Option.some_get _).symm

theorem takes_effect : LocksTakeEffect (fun _ => some manager) engine.order :=
  fun _ _ => ⟨manager, rfl, fun _ h => nomatch h⟩

end PauseBehindUpdate

theorem stored_eq_lastWritten_after :
    (PauseBehindUpdate.after.world.view.workload PauseBehindUpdate.stored.key "a").map
        core =
      lastWritten (cores PauseBehindUpdate.start.world) PauseBehindUpdate.after.log
        PauseBehindUpdate.stored.key "a" :=
  stored_eq_lastWritten rfl PauseBehindUpdate.takes_effect
    (Reference.idle_fresh rfl) PauseBehindUpdate.run_after _ _

/-- A pause that is requested behind an update undoes it. -/
theorem pause_undoes_update :
    ∃ s : Sys MapStore Unit,
      Run Reference.handler (fun s a => updatesAndLocks s a = true)
        PauseBehindUpdate.start s ∧ s.Drained ∧
      (s.world.view.workload PauseBehindUpdate.stored.key "a").map core ≠
        lastWritten (cores PauseBehindUpdate.start.world) s.log
          PauseBehindUpdate.stored.key "a" :=
  ⟨PauseBehindUpdate.behind, PauseBehindUpdate.run_behind,
    ⟨Sys.idle_of_isIdle (by decide +kernel), by decide +kernel⟩,
    by decide +kernel⟩

end Zos4.Provision
