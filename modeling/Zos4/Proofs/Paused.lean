import Zos4.Provision.Admission
import Zos4.Provision.Reference
import Zos4.Provision.Stages

/-!
# What keeps a workload paused

Only `lockWorkload` looks whether a workload is paused. `installWorkload`
passes over a workload that is deleted or in error and provisions any other
one, `updateWorkload` passes over none, and both record whatever the manager
answers. A paused workload stays paused where the manager has nothing to do,
since then the recorded result is kept; where it succeeds, at the latest after
a reboot, the workload is recorded as ok again.

So the result is about one job, from the moment the worker takes it up: as
long as no call on a workload that was paused at that moment is answered with
state ok, none of them is recorded as ok. The routines may do what they like
meanwhile, since they record no workload as used.
-/

namespace Zos4.Provision

open Zos4.Interaction Prog

section

variable [Zosbase] {σ μ : Type} [Storage σ]

/-! ## The claim and its condition -/

/-- The state a workload is recorded in. -/
def World.stateOf (w : World σ μ) (id : WorkloadID) : Option ResultState :=
  (w.view.workload id.key id.name).map (·.result.state)

/-- The answer of a manager that succeeds. -/
def isOk (ans : Result × Option GoError) : Bool :=
  ans.2.isNone && ans.1.state == .ok

/-- The call is on the workload, and is answered with state ok. -/
def Op.restores (e : NativeEngine μ) (id : WorkloadID) (w : World σ μ) : Op → Bool
  | .provision wl => wl.id == id && isOk (e.provisioner.provision w.clock wl w.node).1
  | .update wl => wl.id == id && isOk (e.provisioner.update w.clock wl w.node).1
  | .pause wl => wl.id == id && isOk (e.provisioner.pause w.clock wl w.node).1
  | _ => false

/-- No other job is taken up, and the worker makes no call that is answered with
state ok on a workload that was paused in `w`. -/
def LeavesPaused (e : NativeEngine μ) (w : World σ μ) (s : Sys σ μ)
    (a : Action μ) : Prop :=
  a ≠ .take ∧ (a = .work → ∀ op k, s.worker = .call op k →
    ∀ id, w.stateOf id = some .paused → op.restores e id s.world = false)

/-! ## The protocol of one job -/

/-- Of the workloads in `paused` none is recorded as ok. -/
def pausing (r : ContractEventHandler μ) (paused : WorkloadID → Prop) :
    Protocol r σ where
  inv w := ∀ id, paused id → w.stateOf id ≠ some .ok
  workerRely _ _ := True
  routineRely _ _ := True
  assume _ op w := ∀ id, paused id → op.restores r.engine id w = false
  allow _ op _ := ∀ key wl, op = .storageTransaction key wl →
    wl.result.state = .ok → ∀ id, paused id → ¬ (id.key = key ∧ id.name = wl.name)
  routineAllow op _ := op.isIdleWrite
  post _ := True
  worker_refl _ := trivial
  worker_trans _ _ := trivial
  routine_refl _ := trivial
  routine_trans _ _ := trivial

variable {r : ContractEventHandler μ} {paused : WorkloadID → Prop}
  {job : Option EngineJob} {w : World σ μ} {wl : WorkloadWithID}

theorem pausing_call {op : Op} (h : (pausing r paused).inv w)
    (hop : ∀ key wl, op = .storageTransaction key wl → wl.result.state = .ok →
      ∀ id, paused id → ¬ (id.key = key ∧ id.name = wl.name)) :
    (pausing r paused).inv (exec r.engine op w).2 := by
  intro id hid hok
  obtain ⟨wl, hwl, hstate⟩ := Option.map_eq_some_iff.mp hok
  rcases exec_okay_of hwl (by rw [hstate]; rfl) with hbefore | ⟨rfl, hname⟩
  · exact h id hid (Option.map_eq_some_iff.mpr ⟨wl, hbefore, hstate⟩)
  · exact hop _ wl rfl hstate id hid ⟨rfl, hname.symm⟩

/-- Other calls record nothing. -/
theorem pausing_allow {op : Op} (h : ∀ key wl, op ≠ .storageTransaction key wl)
    (t : World σ μ) : ((pausing r paused).worker job).allow op t :=
  fun key wl htx => absurd htx (h key wl)

/-- Recording a result that is not ok for a paused workload. -/
theorem pausing_transaction (hname : wl.id.name = wl.workload.name)
    {result : Result} (h : paused wl.id → result.state ≠ .ok) :
    (storageTransaction wl.id.key (wl.workload.withResults result)).Safe
      ((pausing r paused).worker job) (fun _ _ => True) w := by
  intro t _ _ _
  refine ⟨fun key wl' htx hok id hid => ?_, fun _ _ _ => trivial⟩
  obtain ⟨rfl, rfl⟩ := Op.storageTransaction.inj htx
  rintro ⟨hkey, hname'⟩
  obtain rfl := WorkloadID.eq_of_key hkey (hname'.trans hname.symm)
  exact h hid hok

omit [Zosbase] in
theorem state_of_not_restores {id : WorkloadID} {ans : Result × Option GoError}
    (h : (id == id && isOk ans) = false) (hnil : ans.2 = none) :
    ans.1.state ≠ .ok := by
  intro hok
  rw [beq_self_eq_true, Bool.true_and, isOk, hnil, hok] at h
  cases h

theorem provisionWorkload_pausing (hname : wl.id.name = wl.workload.name) :
    (provisionWorkload wl).Safe ((pausing r paused).worker job)
      (fun _ _ => True) w := by
  rw [provisionWorkload, safe_perform_bind]
  intro t _ _ hassume
  refine ⟨pausing_allow (by simp) _, ?_⟩
  rw [Protocol.worker_handle, exec_provision]
  have hkept : paused wl.id →
      (r.engine.provisioner.provision t.clock wl t.node).1.2 = none →
      (r.engine.provisioner.provision t.clock wl t.node).1.1.state ≠ .ok :=
    fun hid => state_of_not_restores (hassume wl.id hid)
  rcases hans : (r.engine.provisioner.provision t.clock wl t.node).1 with
    ⟨result, err⟩
  rw [hans] at hkept
  cases err with
  | none => exact pausing_transaction hname fun hid => hkept hid rfl
  | some err =>
      dsimp only
      split
      · exact fun _ _ _ => trivial
      · rw [safe_perform_bind]
        intro t' _ _ _
        refine ⟨pausing_allow (by simp) _, pausing_transaction hname fun _ => ?_⟩
        simp

theorem installWorkload_pausing (hname : wl.id.name = wl.workload.name) :
    (installWorkload wl).Safe ((pausing r paused).worker job)
      (fun _ _ => True) w := by
  rw [installWorkload, safe_perform_bind]
  intro t _ _ _
  refine ⟨pausing_allow (by simp) _, ?_⟩
  cases ((pausing r paused).worker job).handle
      (.storageCurrent wl.id.key wl.id.name) t with
  | mk current t' =>
      cases current with
      | ok current =>
          dsimp only
          split
          · exact fun _ _ _ => trivial
          · exact provisionWorkload_pausing hname
      | error err =>
          dsimp only
          split
          · rw [safe_perform_bind]
            intro t₁ _ _ _
            refine ⟨pausing_allow (by simp) _, ?_⟩
            cases ((pausing r paused).worker job).handle
                (.storageAdd wl.id.key wl.workload) t₁ with
            | mk ans t₂ =>
                cases ans with
                | some err => exact fun _ _ _ => trivial
                | none => exact provisionWorkload_pausing hname
          · exact fun _ _ _ => trivial

/-- A manager with nothing to do keeps what is recorded. -/
theorem recordUpdate_pausing (hname : wl.id.name = wl.workload.name)
    {ans : Result × Option GoError}
    (h : paused wl.id → ans.2 = none → ans.1.state ≠ .ok) :
    (recordUpdate wl ans).Safe ((pausing r paused).worker job)
      (fun _ _ => True) w := by
  obtain ⟨result, err⟩ := ans
  cases err with
  | none => exact pausing_transaction hname fun hid => h hid rfl
  | some err =>
      rw [recordUpdate]
      split
      · rw [safe_perform_bind]
        intro t _ hinv _
        refine ⟨pausing_allow (by simp) _, ?_⟩
        rw [Protocol.worker_handle]
        rcases exec_storageCurrent (e := r.engine) t wl.id.key wl.id.name with
          ⟨current, hres, hcurrent⟩ | ⟨err, hres, _⟩
        · rw [hres]
          refine pausing_transaction hname fun hid hok => hinv wl.id hid ?_
          exact Option.map_eq_some_iff.mpr ⟨current, hcurrent, hok⟩
        · rw [hres]
          exact fun _ _ _ => trivial
      · exact fun _ _ _ => trivial

theorem updateWorkload_pausing (hname : wl.id.name = wl.workload.name) :
    (updateWorkload r.engine wl).Safe ((pausing r paused).worker job)
      (fun _ _ => True) w := by
  rw [updateWorkload]
  split
  · rw [safe_perform_bind]
    intro t _ _ hassume
    refine ⟨pausing_allow (by simp) _, recordUpdate_pausing hname fun hid => ?_⟩
    exact state_of_not_restores (hassume wl.id hid)
  · exact recordUpdate_pausing hname fun _ h => by simp at h

theorem pause_pausing (hname : wl.id.name = wl.workload.name) :
    (lockWorkload wl true).Safe ((pausing r paused).worker job)
      (fun _ _ => True) w := by
  rw [lockWorkload, safe_perform_bind]
  intro t _ _ _
  refine ⟨pausing_allow (by simp) _, ?_⟩
  cases ((pausing r paused).worker job).handle
      (.storageCurrent wl.id.key wl.id.name) t with
  | mk current t' =>
      cases current with
      | error err => exact fun _ _ _ => trivial
      | ok current =>
          dsimp only
          split
          · exact fun _ _ _ => trivial
          · rw [provisionerLock, safe_perform_bind]
            intro t₁ _ _ hassume
            refine ⟨pausing_allow (by simp) _, ?_⟩
            have hkept : paused wl.id →
                (r.engine.provisioner.pause t₁.clock wl t₁.node).1.2 = none →
                (r.engine.provisioner.pause t₁.clock wl t₁.node).1.1.state ≠ .ok :=
              fun hid => state_of_not_restores (hassume wl.id hid)
            rw [Protocol.worker_handle, exec_pause]
            rcases hans : (r.engine.provisioner.pause t₁.clock wl t₁.node).1 with
              ⟨result, err⟩
            rw [hans] at hkept
            cases err with
            | none => exact pausing_transaction hname fun hid => hkept hid rfl
            | some err =>
                dsimp only
                split <;> exact fun _ _ _ => trivial

/-! ## One job -/

omit [Zosbase] [Storage σ] in
theorem pausing_of_idle {op : Op} (h : op.isIdleWrite) {key : DeploymentKey}
    {wl : Workload} (htx : op = .storageTransaction key wl)
    (hok : wl.result.state = .ok) (id : WorkloadID) (_ : paused id) :
    ¬ (id.key = key ∧ id.name = wl.name) := by
  have hidle := h key wl htx
  rw [hok] at hidle
  cases hidle

/-- A program that records no workload as used. -/
theorem idle_pausing {α : Type} {p : EngineM α} (hp : Makes p Op.isIdleWrite) :
    p.Safe ((pausing r paused).worker job) (fun _ _ => True) w :=
  hp.safe (fun op t => exec_possible op t) fun _ _ hop _ _ _ => pausing_of_idle hop

theorem loop_pausing {α : Type} {l : List α} {f : α → EngineM (Option GoError)}
    (hf : ∀ x ∈ l, ∀ w : World σ μ, (f x).Safe ((pausing r paused).worker job)
      (fun _ _ => True) w) :
    (l.forM fun x => logged (f x)).Safe ((pausing r paused).worker job)
      (fun _ _ => True) w := by
  refine (Safe.forM (fun left _ => ∀ x ∈ left, x ∈ l) ?_ ?_).mono
    fun _ _ _ _ => trivial
  · intro x xs t _ hleft
    exact (safe_logged (hf x (hleft x List.mem_cons_self) t)).mono
      fun _ _ _ _ y hy => hleft y (List.mem_cons_of_mem x hy)
  · exact fun _ _ _ x hx => hx

variable [GoRuntime]

/-- What any job but a resume does to the workloads. -/
theorem EngineJob.body_pausing (hlaw : LawfulUpgrade) {j : EngineJob}
    (haccepted : UpdatesAccepted j) (hresume : ∀ target, j ≠ .opResume target) :
    (j.body r.engine).Safe ((pausing r paused).worker job) (fun _ _ => True) w := by
  have hname : ∀ wl ∈ j.items r.engine, wl.id.name = wl.workload.name :=
    fun wl hwl => (EngineJob.mem_items hlaw haccepted hwl).2
  cases j with
  | opProvision target | opProvisionNoValidation target =>
      exact loop_pausing fun wl hwl _ => installWorkload_pausing (hname wl hwl)
  | opDeprovision target message =>
      refine idle_pausing (within_mono (uninstallDeployment_makes target message) ?_)
      rintro op (⟨_, hop⟩ | rfl)
      · exact Op.isIdleWrite_of_removal hop
      · exact Op.isIdleWrite_of_ne (by simp)
  | opPause target => exact loop_pausing fun wl hwl _ => pause_pausing (hname wl hwl)
  | opResume target => exact absurd rfl (hresume target)
  | opUpdate target source =>
      rw [EngineJob.body]
      split
      · exact fun _ _ _ => trivial
      · next ops hup =>
          refine loop_pausing fun op hop t => ?_
          have hwl : op.wlID.id.name = op.wlID.workload.name := by
            refine hname op.wlID ?_
            simp only [EngineJob.items, hup]
            exact List.mem_map_of_mem hop
          rw [applyOperation]
          split
          · exact idle_pausing (within_mono (uninstallWorkload_makes _ _)
              fun _ h => Op.isIdleWrite_of_removal h.2)
          · exact installWorkload_pausing hwl
          · exact updateWorkload_pausing hwl

theorem processJob_pausing (hlaw : LawfulUpgrade) {j : EngineJob}
    (haccepted : UpdatesAccepted j) (hresume : ∀ target, j ≠ .opResume target) :
    (processJob r.engine j).Safe ((pausing r paused).worker job)
      (fun _ _ => True) w := by
  have hrun : ∀ t : World σ μ, (runJob r.engine j).Safe
      ((pausing r paused).worker job) (fun _ _ => True) t := by
    intro t
    rw [runJob_eq]
    refine (EngineJob.body_pausing hlaw haccepted hresume).bind fun _ _ _ _ => ?_
    refine idle_pausing (within_mono (finishJob_makes _ _) ?_)
    rintro op (rfl | rfl) <;> exact Op.isIdleWrite_of_ne (by simp)
  rw [processJob]
  split
  · exact hrun w
  · refine Safe.bind (Q := fun _ _ => True) ?_ fun ans t _ _ => ?_
    · refine idle_pausing (within_mono (validate_makes _ _) ?_)
      rintro op (rfl | rfl) <;> exact Op.isIdleWrite_of_ne (by simp)
    · cases ans with
      | none => exact hrun t
      | some err =>
          refine idle_pausing ?_
          exact within_perform_bind (Op.isIdleWrite_of_ne (by simp))
            fun _ _ => within_perform_bind
              (Op.isIdleWrite_of_ne (by simp)) fun _ _ => trivial

/-! ## Runs -/

omit [GoRuntime] in
theorem pausing_start {paused : WorkloadID → Prop} {rerunAll : Bool} {w : World σ μ}
    {log : List Event} (hinv : (pausing r paused).inv (Sys.start r rerunAll w log).world) :
    (pausing r paused).Holds (Sys.start r rerunAll w log) := by
  refine ⟨hinv, idle_pausing ?_, fun _ hp => nomatch hp⟩
  refine within_mono (startup_makes (e := { r.engine with rerunAll := rerunAll })) ?_
  rintro op hop
  refine Op.isIdleWrite_of_ne fun key wl => ?_
  rintro rfl
  cases hop

theorem pausing_sound (w₁ : World σ μ) :
    (pausing r fun id => w₁.stateOf id = some .paused : Protocol r σ).Sound
      (LeavesPaused r.engine w₁) where
  spawn s routine _ _ :=
    (routine_calls (r := r) routine).safe (fun op t => exec_possible op t)
      fun _ _ h _ => h.idle
  routine op w hi hop :=
    ⟨pausing_call hi fun _ _ htx hok => pausing_of_idle hop htx hok,
      trivial, trivial⟩
  assume s op k _ hok hw := hok.2 rfl op k hw
  work job op w hi _ hop := ⟨pausing_call hi hop, trivial⟩
  take s job rest _ hok _ := absurd rfl hok.1
  outside s clock chain gateway hi _ := ⟨hi, trivial, trivial⟩
  restart s hholds _ :=
    ⟨hholds.inv, fun _ _ _ => trivial, fun _ hp => nomatch hp⟩
  clear s rerunAll hholds _ := by
    refine pausing_start ?_
    rw [Sys.start_cleared]
    exact hholds.inv
  reboot s rest hholds _ := pausing_start hholds.inv

/-- Processing a job other than a resume records no paused workload as ok, as
long as no call on such a workload is answered with state ok. -/
theorem paused_stays_paused (hlaw : LawfulUpgrade) {s₀ s s₁ s₂ : Sys σ μ}
    (hfresh : s₀.Fresh) (hrun : Run r (fun _ _ => True) s₀ s)
    (htake : s.step r .take = some s₁)
    (hresume : ∀ target, s₁.job ≠ some (.opResume target))
    (hafter : Run r (LeavesPaused r.engine s.world) s₁ s₂) :
    ∀ id, s.world.stateOf id = some .paused → s₂.world.stateOf id ≠ some .ok := by
  have hst : s.Staged r.engine := hrun.staged hfresh.staged
  obtain ⟨_, job, rest, hq, rfl⟩ := step_take htake
  have hholds : (pausing r fun id => s.world.stateOf id = some .paused).Holds
      { s with job := some job, worker := processJob r.engine job } := by
    refine ⟨fun id hid hok => ?_, ?_, fun p hp => ?_⟩
    · rw [hid] at hok
      cases hok
    · refine processJob_pausing hlaw (hst.jobs job ?_) fun target heq => ?_
      · rw [hq]
        exact List.mem_cons_self
      · exact hresume target (congrArg some heq)
    · exact (hst.routines p hp).safe (fun op t => exec_possible op t)
        fun _ _ h _ => h.idle
  exact ((pausing_sound s.world).run hafter hholds).inv

end

/-! ## A node where it happens -/

namespace PausedWorkload

open Reference

def wl : Workload := ⟨0, "a", .zlogs, "d", "", "", ⟨0, .paused, "", "d"⟩⟩

def dl : Deployment := deployment 0 1 [wl]

def a : WorkloadID := ⟨1, 2, "a"⟩

/-- The workload is paused. -/
def start : Sys MapStore Unit :=
  idle (world (store [dl]) [a] [] ⟨[(2, contract dl)], []⟩)

def anything (_ : Sys MapStore Unit) (_ : Action Unit) : Bool := true

/-- No call is answered with state ok, on whatever workload. -/
def leaves (s : Sys MapStore Unit) : Action Unit → Bool
  | .take => false
  | .work =>
      match s.worker with
      | .call (.provision wl) _ =>
          !isOk (engine.provisioner.provision s.world.clock wl s.world.node).1
      | .call (.update wl) _ =>
          !isOk (engine.provisioner.update s.world.clock wl s.world.node).1
      | .call (.pause wl) _ =>
          !isOk (engine.provisioner.pause s.world.clock wl s.world.node).1
      | _ => true
  | _ => true

theorem leaves_sound {w : World MapStore Unit} (s : Sys MapStore Unit)
    (a : Action Unit) (h : leaves s a = true) : LeavesPaused engine w s a := by
  refine ⟨?_, ?_⟩
  · rintro rfl
    cases h
  · rintro rfl op k hw id _
    simp only [leaves, hw] at h
    cases op with
    | provision wl | update wl | pause wl =>
        simp only [Bool.not_eq_true'] at h
        rw [Op.restores, h, Bool.and_false]
    | _ => rfl

/-- The deployment is to be paused once more. -/
def again : Sys MapStore Unit :=
  (start.follow handler anything
    (.spawn (.request (.pause 1 2)) :: List.replicate 3 (.routine 0))).get
    (by decide +kernel)

def againTaken : Sys MapStore Unit :=
  (again.step handler .take).get (by decide +kernel)

def againDone : Sys MapStore Unit :=
  (againTaken.follow handler leaves (List.replicate 3 .work)).get
    (by decide +kernel)

/-- The node reboots, and the worker has queued what it found. -/
def booted : Sys MapStore Unit :=
  (start.follow handler anything (.reboot () :: List.replicate 4 .work)).get
    (by decide +kernel)

def bootedTaken : Sys MapStore Unit :=
  (booted.step handler .take).get (by decide +kernel)

/-- The worker by itself. -/
def working (_ : Sys MapStore Unit) : Action Unit → Bool
  | .work => true
  | _ => false

def bootedDone : Sys MapStore Unit :=
  (bootedTaken.follow handler working (List.replicate 6 .work)).get
    (by decide +kernel)

end PausedWorkload

theorem paused_stays_paused_again :
    PausedWorkload.againDone.world.stateOf ⟨1, 2, "a"⟩ ≠ some .ok := by
  have htake : PausedWorkload.again.step Reference.handler .take =
      some PausedWorkload.againTaken := (Option.some_get _).symm
  have hjob : PausedWorkload.againTaken.job =
      some (.opPause PausedWorkload.dl) := by decide +kernel
  refine paused_stays_paused Reference.lawful_upgrade (Reference.idle_fresh rfl)
    (Run.of_follow (fun _ _ _ => trivial) _ (Option.some_get _).symm) htake
    (fun target heq => ?_)
    (Run.of_follow PausedWorkload.leaves_sound _ (Option.some_get _).symm)
    ⟨1, 2, "a"⟩ (by decide +kernel)
  rw [hjob] at heq
  cases heq

/-- A job other than a resume, the re-provision after a reboot, takes a workload
from paused to ok. -/
theorem boot_unpauses :
    ∃ s s₁ s₂ : Sys MapStore Unit,
      Run Reference.handler (fun _ _ => True) PausedWorkload.start s ∧
      s.world.stateOf PausedWorkload.a = some .paused ∧
      s.step Reference.handler .take = some s₁ ∧
      s₁.job = some (.opProvisionNoValidation PausedWorkload.dl) ∧
      Run Reference.handler (fun s a => PausedWorkload.working s a = true) s₁ s₂ ∧
      s₂.Idle ∧ s₂.world.stateOf PausedWorkload.a = some .ok :=
  ⟨PausedWorkload.booted, PausedWorkload.bootedTaken, PausedWorkload.bootedDone,
    Run.of_follow (fun _ _ _ => trivial) _ (Option.some_get _).symm,
    by decide +kernel, (Option.some_get _).symm, by decide +kernel,
    Run.of_follow (fun _ _ h => h) _ (Option.some_get _).symm,
    Sys.idle_of_isIdle (by decide +kernel), by decide +kernel⟩

end Zos4.Provision
