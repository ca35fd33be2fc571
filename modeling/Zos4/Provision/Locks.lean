import Zos4.Provision.Worker

/-!
# Pausing and resuming

`lockWorkload` looks at the recorded workload to decide whether to act, hands
the provisioner the snapshot the request was made with, and the provisioner
looks at the state of that. `Acts` is when the two agree, and `LockStep` is all
a lock job does to the recorded workloads on account of one workload: if it
acts, the snapshot is what is recorded afterwards, under its own data and in
the state the action leads to; otherwise nothing is.
-/

namespace Zos4.Provision

open Zos4.Interaction Prog

/-- The state an action needs, and the one it leads to. -/
def required : Bool → ResultState
  | true => .ok
  | false => .paused

def desired : Bool → ResultState
  | true => .paused
  | false => .ok

theorem desired_isOkay (lock : Bool) : (desired lock).isOkay = true := by
  cases lock <;> rfl

/-- Pausing a pauser's workload pauses it and resuming one starts it again, and
every type in `types` has a manager. -/
def LocksTakeEffect [Zosbase] {μ : Type}
    (managers : WorkloadType → Option (Manager μ)) (types : List WorkloadType) :
    Prop :=
  ∀ typ ∈ types, ∃ manager, managers typ = some manager ∧
    ∀ pauser, manager.pauser = some pauser → ∀ wl node,
      (∃ err, (pauser.pause wl node).1 = some err ∧
        err.asResponse = some .paused) ∧
      ∀ err, (pauser.resume wl node).1 = some err → err.asResponse = some .ok

section

variable [Zosbase] {σ μ : Type} [Storage σ]

/-- What the two protocols about locks leave alone between the worker's calls. -/
theorem sameWorkloads_refl (w : World σ μ) : w.view.workload = w.view.workload :=
  rfl

theorem sameWorkloads_trans {w w' w'' : World σ μ}
    (h : w'.view.workload = w.view.workload) (h' : w''.view.workload = w'.view.workload) :
    w''.view.workload = w.view.workload :=
  h'.trans h

/-! ## The answer of the provisioner -/

/-- The call behind `provisionerLock`. -/
def lockOp (lock : Bool) (wl : WorkloadWithID) : Op :=
  match lock with
  | true => .pause wl
  | false => .resume wl

def lockAnswer (e : NativeEngine μ) (lock : Bool) (now : Timestamp)
    (wl : WorkloadWithID) (node : Node μ) : (Result × Option GoError) × μ :=
  match lock with
  | true => e.provisioner.pause now wl node
  | false => e.provisioner.resume now wl node

/-- Running `provisionerLock` and going on. -/
theorem safe_provisionerLock {e : NativeEngine μ}
    {D : Discipline engineSig (World σ μ)} (hD : D.handle = exec e) {α : Type}
    {Q : α → World σ μ → Prop} {lock : Bool} {wl : WorkloadWithID}
    {f : Result × Option GoError → EngineM α} {w : World σ μ} :
    (provisionerLock lock wl >>= f).Safe D Q w ↔
      ∀ t, D.rely w t → D.inv t → D.assume (lockOp lock wl) t →
        D.allow (lockOp lock wl) t ∧
          (f (lockAnswer e lock t.clock wl t.node).1).Safe D Q
            { t with node := { t.node with
              rest := (lockAnswer e lock t.clock wl t.node).2 } } := by
  cases lock with
  | true =>
      rw [provisionerLock, safe_perform_bind, hD]
      exact Iff.rfl
  | false =>
      rw [provisionerLock, safe_perform_bind, hD]
      exact Iff.rfl

omit [Storage σ] in
theorem setState_data (now : Timestamp) (result : Result) (err : Option GoError) :
    (setState now result err).data = result.data := by
  cases err <;> rfl

section

variable {managers : WorkloadType → Option (Manager μ)} {needs : ResultState}
  {refusal : String} {default : GoError}
  {action : Pauser μ → WorkloadWithID → Node μ → Option GoError × μ}
  {wl : WorkloadWithID} {now : Timestamp} {node : Node μ}

/-- In the state it needs, an action that leads to `target` gives the snapshot's
own result but for its time, state and error text. -/
theorem setLock_ok {manager : Manager μ} {target : ResultState}
    (hstate : wl.workload.result.state = needs)
    (hmanager : managers wl.workload.type = some manager)
    (hdefault : default.asResponse = some target)
    (haction : ∀ pauser, manager.pauser = some pauser →
      (setState now wl.workload.result (action pauser wl node).1).state =
        target) :
    ∃ result, (MapProvisioner.setLock managers needs refusal default action now
        wl node).1 = (result, none) ∧
      result.state = target ∧ result.data = wl.workload.result.data := by
  rw [MapProvisioner.setLock, if_neg (not_not.mpr hstate), hmanager]
  dsimp only
  cases hp : manager.pauser with
  | none =>
      refine ⟨_, rfl, ?_, setState_data now _ _⟩
      rw [setState, hdefault]
      rfl
  | some pauser => exact ⟨_, rfl, haction pauser hp, setState_data now _ _⟩

theorem setLock_refused (hstate : wl.workload.result.state ≠ needs) :
    (MapProvisioner.setLock managers needs refusal default action now wl
      node).1 = (wl.workload.result, some (.text refusal)) := by
  rw [MapProvisioner.setLock, if_pos hstate]

end

/-- In the state the action needs, the result is the snapshot's own but for its
time, state and error text; in any other state the action is refused. -/
theorem lockAnswer_spec {e : NativeEngine μ}
    {managers : WorkloadType → Option (Manager μ)}
    (hprov : e.provisioner = mapProvisioner managers)
    (heffect : LocksTakeEffect managers e.order) {lock : Bool}
    {wl : WorkloadWithID} (htype : wl.workload.type ∈ e.order) (now : Timestamp)
    (node : Node μ) :
    (wl.workload.result.state = required lock ∧
      ∃ result, (lockAnswer e lock now wl node).1 = (result, none) ∧
        result.state = desired lock ∧ result.data = wl.workload.result.data) ∨
    (wl.workload.result.state ≠ required lock ∧
      ∃ result err, (lockAnswer e lock now wl node).1 = (result, some err) ∧
        err.is .noActionNeeded = false) := by
  obtain ⟨manager, hmanager, hpauser⟩ := heffect _ htype
  by_cases hs : wl.workload.result.state = required lock
  · refine .inl ⟨hs, ?_⟩
    cases lock with
    | true =>
        rw [lockAnswer, hprov]
        refine setLock_ok hs hmanager rfl fun pauser hp => ?_
        obtain ⟨err, herr, hpaused⟩ := (hpauser pauser hp wl node).1
        rw [herr, setState, hpaused]
        rfl
    | false =>
        rw [lockAnswer, hprov]
        refine setLock_ok hs hmanager rfl fun pauser hp => ?_
        cases herr : (pauser.resume wl node).1 with
        | none => rfl
        | some err =>
            rw [setState, (hpauser pauser hp wl node).2 err herr]
            rfl
  · refine .inr ⟨hs, ?_⟩
    cases lock with
    | true =>
        rw [lockAnswer, hprov]
        exact ⟨_, _, setLock_refused hs, rfl⟩
    | false =>
        rw [lockAnswer, hprov]
        exact ⟨_, _, setLock_refused hs, rfl⟩

/-! ## One workload -/

/-- The recorded workloads. -/
abbrev Recorded := DeploymentKey → Name → Option Workload

/-- The recorded workload is in use. -/
def okayAt (f : Recorded) (k : DeploymentKey) (n : Name) : Bool :=
  (f k n).any (·.result.state.isOkay)

omit [Zosbase] in
theorem okayAt_iff {f : Recorded} {k : DeploymentKey} {n : Name} :
    okayAt f k n = true ↔
      ∃ cur, f k n = some cur ∧ cur.result.state.isOkay = true := by
  rw [okayAt]
  cases f k n with
  | none => simp
  | some cur => simp

/-- The job acts: the recorded workload is in use, and the snapshot is in the
state the action needs. -/
def Acts (lock : Bool) (wl : WorkloadWithID) (f : Recorded) : Prop :=
  okayAt f wl.id.key wl.id.name = true ∧
    wl.workload.result.state = required lock

instance (lock : Bool) (wl : WorkloadWithID) (f : Recorded) :
    Decidable (Acts lock wl f) := inferInstanceAs (Decidable (_ ∧ _))

/-- What a lock job does to the recorded workloads on account of one. -/
inductive LockStep (lock : Bool) (wl : WorkloadWithID) (f : Recorded) :
    Recorded → Prop
  | acts (result : Result) (h : Acts lock wl f)
      (hstate : result.state = desired lock)
      (hdata : result.data = wl.workload.result.data) :
      LockStep lock wl f fun k n =>
        if k = wl.id.key ∧ n = wl.id.name then
          some (wl.workload.withResults result)
        else f k n
  | keeps (h : ¬ Acts lock wl f) : LockStep lock wl f f

variable {e : NativeEngine μ} {D : Discipline engineSig (World σ μ)}

/-- `lockWorkload`, wherever nobody else touches the recorded workloads. -/
theorem lockWorkload_step {managers : WorkloadType → Option (Manager μ)}
    (hprov : e.provisioner = mapProvisioner managers)
    (heffect : LocksTakeEffect managers e.order) (hD : D.handle = exec e)
    (hrely : ∀ t t', D.rely t t' → t'.view.workload = t.view.workload)
    {lock : Bool} {wl : WorkloadWithID} {w : World σ μ}
    (htype : wl.workload.type ∈ e.order) (hname : wl.id.name = wl.workload.name)
    (hallow : ∀ op t, op.writes = false → op.isWork = true → D.allow op t)
    (hrecord : ∀ result t, t.view.workload = w.view.workload →
      Acts lock wl w.view.workload → result.state = desired lock →
      result.data = wl.workload.result.data →
      D.allow (.storageTransaction wl.id.key
        (wl.workload.withResults result)) t) :
    (lockWorkload wl lock).Safe D
      (fun _ t => LockStep lock wl w.view.workload t.view.workload) w := by
  have hkeep : ∀ {t : World σ μ} (ans : Option GoError),
      t.view.workload = w.view.workload → ¬ Acts lock wl w.view.workload →
      (pure ans : EngineM _).Safe D
        (fun _ t => LockStep lock wl w.view.workload t.view.workload) t := by
    intro t ans ht hno t' ht' _
    rw [hrely t t' ht', ht]
    exact .keeps hno
  rw [lockWorkload, safe_perform_bind]
  intro t ht _ _
  refine ⟨hallow _ _ rfl rfl, ?_⟩
  have hsame := hrely w t ht
  rw [hD]
  rcases exec_storageCurrent (e := e) t wl.id.key wl.id.name with
    ⟨cur, hres, hcur⟩ | ⟨err, hres, hnone, _⟩
  · rw [hres]
    dsimp only
    rw [hsame] at hcur
    split
    · next hok =>
        refine hkeep none hsame ?_
        rintro ⟨hacts, _⟩
        rw [okayAt, hcur, Option.any_some] at hacts
        rw [hacts] at hok
        cases hok
    · next hok =>
        rw [safe_provisionerLock hD]
        intro t₁ ht₁ _ _
        refine ⟨hallow _ _ (by cases lock <;> rfl) (by cases lock <;> rfl), ?_⟩
        have hsame₁ := (hrely t t₁ ht₁).trans hsame
        rcases lockAnswer_spec hprov heffect htype t₁.clock t₁.node with
          ⟨hstate, result, hans, hdes, hdata⟩ | ⟨hstate, result, err, hans, herr⟩
        · rw [hans]
          dsimp only
          have hacts : Acts lock wl w.view.workload :=
            ⟨okayAt_iff.mpr ⟨cur, hcur, by simpa using hok⟩, hstate⟩
          rw [← bind_pure (storageTransaction _ _), safe_perform_bind]
          intro t₂ ht₂ _ _
          have hsame₂ : t₂.view.workload = w.view.workload :=
            (hrely _ t₂ ht₂).trans hsame₁
          refine ⟨hrecord result t₂ hsame₂ hacts hdes hdata, ?_⟩
          rw [hD]
          rcases (exec_storageTransaction (e := e) t₂ wl.id.key
            (wl.workload.withResults result)).cases with
            ⟨s, hv, hres, _⟩ | ⟨err, _, hno⟩
          · rw [hres]
            intro t' ht' _
            have hview : t'.view.workload = (Storage.view s).workload :=
              hrely _ t' ht'
            have hput : (t₂.view.transaction wl.id.key
                (wl.workload.withResults result)).workload = fun k n =>
                if k = wl.id.key ∧ n = wl.id.name then
                  some (wl.workload.withResults result)
                else w.view.workload k n := by
              funext k n
              rw [StoreView.transaction_workload, Workload.withResults_name,
                ← hname, hsame₂]
            rw [hview, hv, hput]
            exact .acts result hacts hdes hdata
          · refine absurd hno ?_
            rw [Workload.withResults_name, ← hname, hsame₂, hcur]
            simp
        · rw [hans]
          dsimp only
          rw [herr]
          exact hkeep _ hsame₁ fun h => hstate h.2
  · rw [hres]
    refine hkeep _ hsame ?_
    rintro ⟨hacts, _⟩
    rw [okayAt, ← hsame, hnone] at hacts
    cases hacts

/-! ## One job -/

/-- The job `Pause` or `Resume` queues. -/
def lockJob (lock : Bool) (target : Deployment) : EngineJob :=
  match lock with
  | true => .opPause target
  | false => .opResume target

/-- The workloads a lock job goes through, in its order. -/
def lockItems (e : NativeEngine μ) (lock : Bool) (target : Deployment) :
    List WorkloadWithID :=
  match lock with
  | true => inOrder target e.order.reverse
  | false => inOrder target e.order

omit [Zosbase] in
theorem mem_lockItems {lock : Bool} {target : Deployment} {wl : WorkloadWithID} :
    wl ∈ lockItems e lock target ↔
      ∃ w ∈ target.workloads, w.type ∈ e.order ∧ wl = target.withID w := by
  cases lock with
  | true => rw [lockItems, mem_inOrder]; simp only [List.mem_reverse]
  | false => exact mem_inOrder

theorem processJob_lock [GoRuntime] (lock : Bool) (target : Deployment) :
    processJob e (lockJob lock target) =
      ((lockItems e lock target).forM fun wl =>
        logged (lockWorkload wl lock)) >>=
          fun _ => finishJob e target false := by
  cases lock <;> rfl

omit [Zosbase] in
theorem lockJob_inj {lock lock' : Bool} {target target' : Deployment}
    (h : lockJob lock target = lockJob lock' target') :
    lock = lock' ∧ target = target' := by
  cases lock <;> cases lock' <;> simp_all [lockJob]

end

end Zos4.Provision
