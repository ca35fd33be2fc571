import Zos4.Provision.Interleaving

/-!
# The calls behind a request

Which calls a request can come to make, and which jobs it can queue, whatever
the store and the services answer. Everything a proof about runs has to know
about the text of `Provision`, `Update`, `Pause`, `Resume`, `Deprovision`,
`CreateOrUpdate` and of the contract sync is here.
-/

namespace Zos4.Provision

open Zos4.Interaction Prog

variable [Zosbase] {σ μ : Type} [Storage σ] {e : NativeEngine μ}

/-- The calls of a program, as long as they are answered as they can be. -/
abbrev Makes {α : Type} (p : EngineM α) (A : Op → Prop) : Prop :=
  Prog.Within Op.Possible A p

theorem logged_makes {A : Op → Prop} {op : EngineM (Option GoError)}
    (h : Makes op A) : Makes (logged op) A :=
  within_bind h fun _ => trivial

/-! ## Requests -/

/-- The requests that leave the work to the worker: all but one. -/
def Request.queued : Request → Bool
  | .decommissionCached _ _ => false
  | _ => true

/-- The requests that can create a deployment. -/
def Request.creates : Request → Bool
  | .provision _ | .createOrUpdate _ _ false => true
  | _ => false

/-- A deployment as it was read from the store, at some time. -/
structure Snapshot (key : DeploymentKey) (dl : Deployment) : Prop where
  key : dl.key = key
  nodup : dl.names.Nodup

/-- An update job as `Update` queues it. -/
def UpdateJob (u : Deployment) (job : EngineJob) : Prop :=
  ∃ source ops, Snapshot u.key source ∧ Zosbase.upgrade source u = .ok ops ∧
    job = .opUpdate u source

/-- The jobs a request can come to queue. -/
def Request.Queues : Request → EngineJob → Prop
  | .provision dl, job => dl.version = 0 ∧ job = .opProvision dl
  | .update u, job => UpdateJob u job
  | .pause twin id, job => ∃ dl, Snapshot ⟨twin, id⟩ dl ∧ job = .opPause dl
  | .resume twin id, job => ∃ dl, Snapshot ⟨twin, id⟩ dl ∧ job = .opResume dl
  | .deprovision twin id reason, job =>
      ∃ dl, Snapshot ⟨twin, id⟩ dl ∧ job = .opDeprovision dl reason
  | .createOrUpdate twin dl isUpdate, job => dl.twinID = twin ∧
      if isUpdate then UpdateJob dl job
      else dl.version = 0 ∧ job = .opProvision dl
  | .decommissionCached _ _, _ => False

/-- An update job in the queue came from an accepted update. -/
def UpdatesAccepted (job : EngineJob) : Prop :=
  ∀ target source, job = .opUpdate target source → UpdateJob target job

theorem Request.updatesAccepted {req : Request} {job : EngineJob}
    (h : req.Queues job) : UpdatesAccepted job := by
  rintro target source rfl
  cases req with
  | provision dl => cases h.2
  | update u =>
      obtain ⟨source', ops, hsnap, hup, hjob⟩ := h
      obtain ⟨rfl, rfl⟩ := EngineJob.opUpdate.inj hjob
      exact ⟨source, ops, hsnap, hup, rfl⟩
  | pause twin id => obtain ⟨_, _, hjob⟩ := h; cases hjob
  | resume twin id => obtain ⟨_, _, hjob⟩ := h; cases hjob
  | deprovision twin id reason => obtain ⟨_, _, hjob⟩ := h; cases hjob
  | createOrUpdate twin dl isUpdate =>
      obtain ⟨_, h⟩ := h
      split at h
      · obtain ⟨source', ops, hsnap, hup, hjob⟩ := h
        obtain ⟨rfl, rfl⟩ := EngineJob.opUpdate.inj hjob
        exact ⟨source, ops, hsnap, hup, rfl⟩
      · cases h.2
  | decommissionCached id reason => cases h

/-- What a call puts on the queue. -/
def Op.jobs : Op → List EngineJob
  | .enqueue job => [job]
  | _ => []

/-- The calls a request can come to make, if it goes through the queue. -/
structure Request.Calls (req : Request) (op : Op) : Prop where
  api : op.isApi = true
  creates : op.creates = true → req.creates = true
  jobs : ∀ job ∈ op.jobs, req.Queues job
  enters : ∀ req', op = .invoke req' → req' = req

/-- A request that creates nothing makes no call that does. -/
theorem Request.Calls.quiet {req : Request} {op : Op} (h : req.Calls op)
    (hreq : req.creates = false) : op.creates = false := by
  cases hc : op.creates with
  | false => rfl
  | true => rw [h.creates hc] at hreq; cases hreq

/-- The calls every request can make: those that only read, and the update of
a header. -/
def Op.isShared : Op → Bool
  | .storageGet _ | .storageUpdate _ _ | .storageCapacity | .verify _
  | .isTwinVerified _ | .getContract _ | .getNodeContracts _ => true
  | _ => false

theorem Request.calls_shared {req : Request} {op : Op}
    (h : op.isShared = true) : req.Calls op := by
  cases op with
  | storageGet | storageUpdate | storageCapacity | verify | isTwinVerified
  | getContract | getNodeContracts =>
      exact ⟨rfl, (fun h => nomatch h), List.forall_mem_nil _,
        fun _ h => by cases h⟩
  | _ => cases h

theorem Request.calls_enqueue {req : Request} {job : EngineJob}
    (h : req.Queues job) : req.Calls (.enqueue job) :=
  ⟨rfl, fun h' => (nomatch h'), List.forall_mem_singleton.mpr h,
    fun _ h => by cases h⟩

theorem schedule_makes {req : Request} {key : DeploymentKey}
    {job : Deployment → EngineJob}
    (h : ∀ dl, Snapshot key dl → req.Queues (job dl)) :
    Makes (schedule key job) req.Calls := by
  refine within_perform_bind (Request.calls_shared rfl)
    fun ans hans => ?_
  cases ans with
  | error err => trivial
  | ok dl =>
      exact within_perform (Request.calls_enqueue (h dl ⟨hans.1, hans.2⟩))

theorem provision_makes {req : Request} {dl : Deployment}
    (hc : req.creates = true)
    (h : dl.version = 0 → req.Queues (.opProvision dl)) :
    Makes (provision dl) req.Calls := by
  rw [provision]
  split
  · trivial
  · next hv =>
      refine within_perform_bind ⟨rfl, fun _ => hc, List.forall_mem_nil _,
        fun _ h => by cases h⟩ fun ans _ => ?_
      cases ans with
      | some err => trivial
      | none =>
          exact within_perform (Request.calls_enqueue (h (not_not.mp hv)))

theorem update_makes {req : Request} {u : Deployment}
    (h : ∀ job, UpdateJob u job → req.Queues job) :
    Makes (update e u) req.Calls := by
  refine within_perform_bind (Request.calls_shared rfl)
    fun ans hans => ?_
  cases ans with
  | error err => trivial
  | ok dl =>
      dsimp only
      split
      · trivial
      · next ops hops =>
          split
          · trivial
          · refine within_perform_bind (Request.calls_shared rfl)
              fun ans _ => ?_
            cases ans with
            | some err => trivial
            | none =>
                refine within_perform (Request.calls_enqueue (h _ ?_))
                exact ⟨dl, ops, ⟨hans.1, hans.2⟩, hops, rfl⟩

theorem checkVerified_makes {req : Request} {twin : TwinID} :
    Makes (checkVerified twin) req.Calls := by
  refine within_perform_bind (Request.calls_shared rfl)
    fun ans _ => ?_
  rcases ans with _ | (_ | _) <;> trivial

theorem retry_makes {A : Op → Prop} {op : EngineM (Option GoError)}
    (h : Makes op A) : ∀ n, Makes (retry n op) A
  | 0 => h
  | n + 1 => within_bind h fun ans => by
      cases ans with
      | none => trivial
      | some err => exact retry_makes h n

theorem createOrUpdate_makes {req : Request} {twin : TwinID} {dl : Deployment}
    {isUpdate : Bool}
    (hp : dl.twinID = twin → isUpdate = false → Makes (provision dl) req.Calls)
    (hu : dl.twinID = twin → isUpdate = true → Makes (update e dl) req.Calls) :
    Makes (createOrUpdate e twin dl isUpdate) req.Calls := by
  rw [createOrUpdate]
  split
  · trivial
  · split
    · trivial
    · next ht =>
        rw [not_not] at ht
        refine within_bind (retry_makes checkVerified_makes 5) fun ans => ?_
        cases ans with
        | some err => trivial
        | none =>
            refine within_perform_bind (Request.calls_shared rfl)
              fun ans _ => ?_
            cases ans with
            | some err => trivial
            | none =>
                cases isUpdate with
                | true => exact hu ht rfl
                | false => exact hp ht rfl

/-- A request that goes through the queue makes only its own calls. -/
theorem invoke_makes {req : Request} (hq : req.queued = true) :
    Makes (invoke e req) req.Calls := by
  refine within_perform_bind ⟨rfl, (fun h => nomatch h), List.forall_mem_nil _,
    fun _ h => (Op.invoke.inj h).symm⟩ fun _ _ => ?_
  cases req with
  | provision dl => exact provision_makes rfl fun hv => ⟨hv, rfl⟩
  | update u => exact update_makes fun _ h => h
  | pause twin id => exact schedule_makes fun dl h => ⟨dl, h, rfl⟩
  | resume twin id => exact schedule_makes fun dl h => ⟨dl, h, rfl⟩
  | deprovision twin id reason => exact schedule_makes fun dl h => ⟨dl, h, rfl⟩
  | createOrUpdate twin dl isUpdate =>
      refine createOrUpdate_makes (fun ht h => ?_) (fun ht h => ?_) <;> subst h
      · exact provision_makes rfl fun hv => ⟨ht, hv, rfl⟩
      · exact update_makes fun _ h => ⟨ht, h⟩
  | decommissionCached id reason => cases hq

/-! ## The request that does not go through the queue -/

/-- The calls made on behalf of a workload, each about that workload. -/
def Op.on (wl : WorkloadWithID) : Op → Prop
  | .storageCurrent key n | .storageRemove key n =>
      key = wl.id.key ∧ n = wl.id.name
  | .storageAdd key w => key = wl.id.key ∧ w = wl.workload
  | .storageTransaction key w =>
      key = wl.id.key ∧ ∃ result, w = wl.workload.withResults result
  | .provision wl' | .deprovision wl' | .pause wl' | .resume wl'
  | .update wl' => wl' = wl
  | .now => True
  | _ => False

/-- The calls that take a workload of a deployment down. -/
def Op.isRemoval : Op → Bool
  | .storageCurrent _ _ | .deprovision _ | .now | .storageRemove _ _ => true
  | .storageTransaction _ wl =>
      wl.result.state == .deleted || wl.result.state == .error
  | _ => false

theorem uninstallWorkload_makes (wl : WorkloadWithID) (reason : String) :
    Makes (uninstallWorkload wl reason) fun op =>
      op.on wl ∧ op.isRemoval = true := by
  refine within_perform_bind ⟨⟨rfl, rfl⟩, rfl⟩ fun ans _ => ?_
  cases ans with
  | error err => dsimp only; split <;> trivial
  | ok current =>
      refine within_perform_bind ⟨rfl, rfl⟩ fun err _ =>
        within_perform_bind ⟨trivial, rfl⟩ fun now _ =>
          within_perform_bind ⟨⟨rfl, _, rfl⟩, ?_⟩ fun ans _ => ?_
      · cases err <;> rfl
      · cases ans with
        | some err => trivial
        | none =>
            dsimp only
            split
            · exact within_perform ⟨⟨rfl, rfl⟩, rfl⟩
            · trivial

theorem decommissionCached_makes (id : WorkloadID) (reason : String) :
    Makes (decommissionCached id reason) fun op =>
      (∃ wl, op.on ⟨wl, id⟩) ∧ op.isRemoval = true := by
  refine within_perform_bind ⟨⟨⟨0, "", .zlogs, "", "", "", Result.zero⟩, rfl,
    rfl⟩, rfl⟩ fun ans _ => ?_
  cases ans with
  | error err => trivial
  | ok wl =>
      dsimp only
      split
      · trivial
      · exact within_mono (uninstallWorkload_makes _ _)
          fun _ h => ⟨⟨wl, h.1⟩, h.2⟩

/-! ## Starting -/

/-- What runs after a process start only reads and queues. -/
def Op.isStartup : Op → Bool
  | .storageTwins | .storageByTwin _ | .storageGet _
  | .enqueue (.opProvisionNoValidation _) => true
  | _ => false

theorem startup_makes {e : NativeEngine μ} :
    Makes (startup e) fun op => op.isStartup = true := by
  rw [startup]
  split
  · refine logged_makes (within_perform_bind rfl fun twins _ => ?_)
    cases twins with
    | error err => trivial
    | ok twins =>
        refine within_bind (within_forM fun twin _ => ?_) fun _ => trivial
        refine within_perform_bind rfl fun ids _ => ?_
        cases ids with
        | error err => trivial
        | ok ids =>
            refine within_forM fun id _ => within_perform_bind rfl fun dl _ => ?_
            cases dl with
            | error err => trivial
            | ok dl =>
                dsimp only
                split
                · trivial
                · exact logged_makes (within_perform rfl)
  · trivial

theorem startup_accepted {op : Op} (h : op.isStartup = true) :
    ∀ job ∈ op.jobs, UpdatesAccepted job := by
  cases op with
  | enqueue job =>
      refine List.forall_mem_singleton.mpr ?_
      rintro target source rfl
      cases h
  | _ => exact List.forall_mem_nil _

/-! ## Routines -/

variable [GoRuntime]

/-- The requests a contract sync makes. -/
def Request.ofSync : Request → Bool
  | .deprovision _ _ _ | .pause _ _ | .resume _ _ => true
  | _ => false

omit [Zosbase] [GoRuntime] in
theorem Request.creates_of_ofSync {req : Request} (h : req.ofSync = true) :
    req.creates = false := by
  cases req <;> first | rfl | cases h

/-- Every call of a contract sync is one of a request it makes. -/
theorem sync_makes (r : ContractEventHandler μ) :
    Makes (sync r) fun op => ∃ req : Request, req.ofSync = true ∧
      req.Calls op := by
  have hinvoke : ∀ req : Request, req.queued = true → req.ofSync = true →
      Makes (logged (invoke r.engine req)) fun op => ∃ req : Request,
        req.ofSync = true ∧ req.Calls op :=
    fun req hq hreq => logged_makes
      (within_mono (invoke_makes hq) fun op h => ⟨req, hreq, h⟩)
  have hask : ∀ op : Op, op.isShared = true →
      ∃ req : Request, req.ofSync = true ∧ req.Calls op :=
    fun op h => ⟨.pause 0 0, rfl, Request.calls_shared h⟩
  refine within_bind ?_ fun active => ?_
  · refine within_perform_bind (hask _ rfl) fun ans _ => ?_
    cases ans <;> trivial
  · cases active with
    | error err => trivial
    | ok active =>
        refine within_perform_bind (hask _ rfl) fun onchain _ => ?_
        cases onchain with
        | error err => trivial
        | ok onchain =>
            refine within_bind (within_forM fun x _ => ?_) fun _ =>
              within_bind (within_forM fun x _ => ?_) fun _ => trivial
            · exact hinvoke _ rfl rfl
            · refine within_perform_bind (hask _ rfl) fun ans _ => ?_
              cases ans with
              | error err => trivial
              | ok contract =>
                  dsimp only
                  split
                  · trivial
                  · split <;> exact hinvoke _ rfl rfl

/-- The routines that leave the work to the worker. -/
def Routine.queued : Routine → Bool
  | .request req => req.queued
  | .sync => true

/-- The requests behind a routine. -/
def Routine.Requests : Routine → Request → Prop
  | .request req, req' => req' = req
  | .sync, req' => req'.ofSync = true

/-- Every call of a routine is one of a request behind it. -/
theorem routine_makes {r : ContractEventHandler μ} {routine : Routine}
    (hq : routine.queued = true) :
    Makes (routine.prog r) fun op =>
      ∃ req, routine.Requests req ∧ req.Calls op := by
  cases routine with
  | request req => exact within_mono (invoke_makes hq) fun op h => ⟨req, rfl, h⟩
  | sync => exact sync_makes r

/-- The routines that create no deployment. -/
def Routine.creates : Routine → Bool
  | .request req => req.creates
  | .sync => false

theorem routine_quiet {r : ContractEventHandler μ} {routine : Routine}
    (hq : routine.queued = true) (h : routine.creates = false) :
    Makes (routine.prog r) fun op => op.isApi = true ∧ op.creates = false := by
  refine within_mono (routine_makes hq) ?_
  rintro op ⟨req, hreq, hop⟩
  refine ⟨hop.api, hop.quiet ?_⟩
  cases routine with
  | request req' =>
      obtain rfl := hreq
      exact h
  | sync => exact Request.creates_of_ofSync hreq

/-- The one request that does not go through the queue takes one workload
down. -/
theorem routine_removes {r : ContractEventHandler μ} {routine : Routine}
    (hq : routine.queued = false) :
    Makes (routine.prog r) fun op => (∃ req, op = .invoke req) ∨
      ∃ wl, op.on wl ∧ op.isRemoval = true := by
  rcases routine with req | _
  · cases req with
    | decommissionCached id reason =>
        refine within_perform_bind (.inl ⟨_, rfl⟩) fun _ _ =>
          within_mono (decommissionCached_makes id reason) ?_
        rintro op ⟨⟨wl, hon⟩, hop⟩
        exact .inr ⟨_, hon, hop⟩
    | _ => cases hq
  · cases hq

/-- A call that records no workload as used. -/
def Op.isIdleWrite (op : Op) : Prop :=
  ∀ key wl, op = .storageTransaction key wl → wl.result.state.isOkay = false

omit [Zosbase] [GoRuntime] in
/-- A call that records no result. -/
theorem Op.isIdleWrite_of_ne {op : Op}
    (h : ∀ key wl, op ≠ .storageTransaction key wl) : op.isIdleWrite :=
  fun key wl hop => absurd hop (h key wl)

omit [Zosbase] [GoRuntime] in
theorem Op.isIdleWrite_of_removal {op : Op} (h : op.isRemoval = true) :
    op.isIdleWrite := by
  rintro key wl rfl
  simp only [Op.isRemoval, Bool.or_eq_true, beq_iff_eq] at h
  rcases h with h | h <;> rw [h] <;> rfl

/-- The calls by which a workload comes to be. -/
def Op.brings : Op → Bool
  | .provision _ | .storageAdd _ _ => true
  | _ => false

/-- What no routine does: record a workload as used, bring one about, take a job
off the queue, or queue an update that was not accepted. -/
structure Op.OfRoutine (op : Op) : Prop where
  idle : op.isIdleWrite
  brings : op.brings = false
  keeps : ¬ op = .dequeue
  jobs : ∀ job ∈ op.jobs, UpdatesAccepted job

theorem routine_calls {r : ContractEventHandler μ} (routine : Routine) :
    Makes (routine.prog r) Op.OfRoutine := by
  cases hq : routine.queued with
  | true =>
      refine within_mono (routine_makes hq) ?_
      rintro op ⟨req, _, hop⟩
      have hapi := hop.api
      refine ⟨?_, ?_, ?_, fun job hjob => Request.updatesAccepted (hop.jobs job hjob)⟩
      · rintro key wl rfl
        cases hapi
      · cases op <;> first | rfl | cases hapi
      · rintro rfl
        cases hapi
  | false =>
      refine within_mono (routine_removes hq) ?_
      rintro op (⟨req, rfl⟩ | ⟨wl, hon, hop⟩)
      · exact ⟨fun _ _ h => (nomatch h), rfl, (nomatch ·), List.forall_mem_nil _⟩
      · refine ⟨Op.isIdleWrite_of_removal hop, ?_, ?_, ?_⟩
        · cases op <;> first | rfl | cases hop
        · rintro rfl
          exact hon
        · cases op <;> first | exact List.forall_mem_nil _ | cases hop

/-- No routine takes a job off the queue. -/
theorem routine_no_dequeue {r : ContractEventHandler μ} (routine : Routine) :
    Makes (routine.prog r) fun op => ¬ op = .dequeue :=
  within_mono (routine_calls routine) fun _ h => h.keeps

end Zos4.Provision
