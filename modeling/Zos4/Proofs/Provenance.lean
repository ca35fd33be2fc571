import Zos4.Provision.Audit
import Zos4.Provision.Reference

/-!
# What is recorded of a workload its manager said

Results come to a node in the deployments that are sent to it, the jobs in the queue carry
results that were read some time ago, and pausing a workload rewrites the result it is
given. Still the store tells of a workload only what its manager did: a workload is in use
there only if a call about it came back with that result, and the data of a result is what
`Provision` or `Update` of that very workload gave (`results_are_managers`).

A call accounts for the results it brings along, `Op.Accounts`. Only pausing and resuming
hand a result on, so of the queued jobs it is those two that have to carry data that was
given.
-/

namespace Zos4.Provision

open Zos4.Interaction Prog

section

variable [Zosbase] {σ μ : Type} [Storage σ]

/-! ## What the log shows -/

/-- What a call came back with, if it was one that makes a result of a workload. -/
def Event.answer : Event → Option (WorkloadID × Result × Option GoError)
  | ⟨_, .provision wl, res⟩ | ⟨_, .update wl, res⟩ | ⟨_, .pause wl, res⟩
  | ⟨_, .resume wl, res⟩ => some (wl.id, res)
  | _ => none

/-- The data, if it was `Provision` or `Update`. -/
def Event.data : Event → Option (WorkloadID × RawMessage)
  | ⟨_, .provision wl, res⟩ | ⟨_, .update wl, res⟩ => some (wl.id, res.1.data)
  | _ => none

def Answered (log : List Event) (id : WorkloadID) (result : Result) : Prop :=
  ∃ ev ∈ log, ev.answer = some (id, result, none)

/-- The data is empty, or the workload's manager gave it. -/
def Given (log : List Event) (id : WorkloadID) (data : RawMessage) : Prop :=
  data = "" ∨ ∃ ev ∈ log, ev.data = some (id, data)

structure Reported (log : List Event) (id : WorkloadID) (result : Result) : Prop where
  data : Given log id result.data
  inUse : result.state.isOkay = true → Answered log id result

variable {log log' : List Event} {id : WorkloadID}

theorem Answered.grow {result : Result} (h : Answered log id result) (hlog : log ⊆ log') :
    Answered log' id result := by
  obtain ⟨ev, hev, hanswer⟩ := h
  exact ⟨ev, hlog hev, hanswer⟩

theorem Given.grow {data : RawMessage} (h : Given log id data) (hlog : log ⊆ log') :
    Given log' id data := by
  rcases h with hempty | ⟨ev, hev, hdata⟩
  · exact .inl hempty
  · exact .inr ⟨ev, hlog hev, hdata⟩

theorem Reported.grow {result : Result} (h : Reported log id result) (hlog : log ⊆ log') :
    Reported log' id result :=
  ⟨h.data.grow hlog, fun hokay => (h.inUse hokay).grow hlog⟩

/-- A result without data of a workload that is not in use. -/
theorem Reported.blank {result : Result} (hdata : result.data = "")
    (hstate : result.state.isOkay = false) : Reported log id result := by
  refine ⟨.inl hdata, fun hokay => ?_⟩
  rw [hstate] at hokay
  cases hokay

def workloadID (key : DeploymentKey) (n : Name) : WorkloadID :=
  ⟨key.twin, key.contract, n⟩

omit [Zosbase] in
theorem workloadID_eq {wl : WorkloadWithID} (h : wl.id.name = wl.workload.name) :
    workloadID wl.id.key wl.workload.name = wl.id :=
  WorkloadID.eq_of_key rfl h.symm

/-- The workloads whose results a job hands on. -/
def EngineJob.locks : EngineJob → List Workload
  | .opPause target | .opResume target => target.workloads
  | _ => []

/-- The results a call brings along are accounted for. -/
def Op.Accounts (log : List Event) : Op → Prop
  | .storageTransaction key wl => Reported log (workloadID key wl.name) wl.result
  | .pause wl | .resume wl => Given log wl.id wl.workload.result.data
  | .enqueue job => ∀ wl ∈ job.locks, Given log (job.target.withID wl).id wl.result.data
  | _ => True

/-- What an answer tells of results. -/
def Op.Reports (log : List Event) : (op : Op) → op.Ret → Prop
  | .storageGet _, .ok dl => ∀ wl ∈ dl.workloads, Reported log (dl.withID wl).id wl.result
  | .storageCurrent key n, .ok wl => wl.name = n ∧ Reported log (workloadID key n) wl.result
  | .provision wl, res | .update wl, res =>
      Given log wl.id res.1.data ∧ (res.2 = none → Answered log wl.id res.1)
  | .pause wl, res | .resume wl, res =>
      res.1.data = wl.workload.result.data ∧ (res.2 = none → Answered log wl.id res.1)
  | _, _ => True

def reports : Audit where
  fits := Op.Accounts
  fits_grow := by
    intro log log' op hle h
    cases op with
    | storageTransaction _ _ | pause _ | resume _ => exact h.grow hle
    | enqueue _ => exact fun wl hwl => (h wl hwl).grow hle
    | _ => trivial
  tells := Op.Reports

/-! ## What is kept of the node -/

structure AllReported (w : World σ μ) (log : List Event) : Prop where
  stored : ∀ k n wl, w.view.workload k n = some wl → Reported log (workloadID k n) wl.result
  queued : ∀ job ∈ w.queue, ∀ wl ∈ job.locks,
    Given log (job.target.withID wl).id wl.result.data

variable {e : NativeEngine μ} {w : World σ μ}

/-- Where a recorded result comes from, after a call. -/
theorem exec_reported {op : Op} {k : DeploymentKey} {n : Name} {wl : Workload}
    (h : (exec e op w).2.view.workload k n = some wl)
    (hstored : ∀ k n wl, w.view.workload k n = some wl →
      Reported log (workloadID k n) wl.result)
    (hop : op.Accounts log) : Reported log (workloadID k n) wl.result := by
  rcases exec_record h with hold | ⟨rfl, rfl⟩ | ⟨_, result, rfl, hdata, hstate, _⟩
  · exact hstored k n wl hold
  · exact hop
  · exact .blank hdata hstate

/-- The map provisioner keeps the data when it pauses or resumes, also when it refuses. -/
theorem MapProvisioner.setLock_data {managers : WorkloadType → Option (Manager μ)}
    {required : ResultState} {refusal : String} {default : GoError}
    {action : Pauser μ → WorkloadWithID → Node μ → Option GoError × μ} {now : Timestamp}
    {wl : WorkloadWithID} {node : Node μ} :
    (setLock managers required refusal default action now wl node).1.1.data =
      wl.workload.result.data := by
  have hset : ∀ err, (setState now wl.workload.result err).data =
      wl.workload.result.data := by
    intro err
    cases err <;> rfl
  rw [setLock]
  split
  · rfl
  · cases managers wl.workload.type with
    | none => rfl
    | some manager =>
        dsimp only
        cases manager.pauser with
        | none => exact hset _
        | some mgr => exact hset _

/-- The node's provisioner is a map provisioner. -/
def NativeEngine.Mapped (e : NativeEngine μ) : Prop :=
  ∃ managers, e.provisioner = mapProvisioner managers

/-- What is read is what is stored, and an answer is in the log. -/
theorem exec_reports (hmapped : e.Mapped)
    (hstored : ∀ k n wl, w.view.workload k n = some wl →
      Reported log (workloadID k n) wl.result)
    (who : Who) (op : Op) :
    op.Reports (⟨who, op, (exec e op w).1⟩ :: log) (exec e op w).1 := by
  obtain ⟨managers, hmanagers⟩ := hmapped
  have hgrow : log ⊆ ⟨who, op, (exec e op w).1⟩ :: log := List.subset_cons_self _ _
  have hhere : (⟨who, op, (exec e op w).1⟩ : Event) ∈ ⟨who, op, (exec e op w).1⟩ :: log :=
    List.mem_cons_self
  cases op with
  | storageGet key =>
      generalize hlog : (⟨who, .storageGet key, (exec e (.storageGet key) w).1⟩ : Event) ::
        log = log' at hgrow
      cases h : (exec e (.storageGet key) w).1 with
      | error err => trivial
      | ok dl =>
          intro wl hwl
          obtain ⟨hkey, _, _, hworkloads⟩ := Storage.get_ok h
          have hreported := hstored key wl.name wl ((hworkloads wl).mp hwl)
          rw [← hkey] at hreported
          exact hreported.grow hgrow
  | storageCurrent key n =>
      generalize hlog : (⟨who, .storageCurrent key n,
        (exec e (.storageCurrent key n) w).1⟩ : Event) :: log = log' at hgrow
      cases h : (exec e (.storageCurrent key n) w).1 with
      | error err => trivial
      | ok wl =>
          have hwl := Storage.current_ok h
          exact ⟨(Storage.workload_wf _ _ _ _ hwl).1, (hstored key n wl hwl).grow hgrow⟩
  | provision wl =>
      refine ⟨.inr ⟨_, hhere, rfl⟩, fun hnone => ⟨_, hhere, ?_⟩⟩
      rw [← hnone]
      rfl
  | update wl =>
      refine ⟨.inr ⟨_, hhere, rfl⟩, fun hnone => ⟨_, hhere, ?_⟩⟩
      rw [← hnone]
      rfl
  | pause wl =>
      refine ⟨?_, fun hnone => ⟨_, hhere, ?_⟩⟩
      · rw [exec_pause, hmanagers]
        exact MapProvisioner.setLock_data
      · rw [← hnone]
        rfl
  | resume wl =>
      refine ⟨?_, fun hnone => ⟨_, hhere, ?_⟩⟩
      · show (e.provisioner.resume w.clock wl w.node).1.1.data = _
        rw [hmanagers]
        exact MapProvisioner.setLock_data
      · rw [← hnone]
        rfl
  | _ => trivial

/-- A call that accounts for its results leaves everything accounted for. -/
theorem AllReported.call (h : AllReported w log) {op : Op} (hop : op.Accounts log) (who : Who) :
    AllReported (exec e op w).2 (⟨who, op, (exec e op w).1⟩ :: log) := by
  have hgrow : log ⊆ ⟨who, op, (exec e op w).1⟩ :: log := List.subset_cons_self _ _
  refine ⟨fun k n wl hwl => (exec_reported hwl h.stored hop).grow hgrow, ?_⟩
  intro job hjob wl hwl
  rcases mem_exec_queue hjob with hqueued | rfl
  · exact (h.queued job hqueued wl hwl).grow hgrow
  · exact (hop wl hwl).grow hgrow

/-! ## One workload -/

variable {wl : WorkloadWithID}

/-- A result is recorded under the workload's own id. -/
theorem record_founded (hname : wl.id.name = wl.workload.name) {result : Result}
    (h : Reported log wl.id result) :
    reports.Founded (storageTransaction wl.id.key (wl.workload.withResults result)) log := by
  refine knows_perform ?_ fun _ _ _ _ => trivial
  show Reported log (workloadID wl.id.key wl.workload.name) result
  rw [workloadID_eq hname]
  exact h

theorem uninstallWorkload_founded (hname : wl.id.name = wl.workload.name) (reason : String) :
    reports.Founded (uninstallWorkload wl reason) log := by
  refine knows_perform_bind trivial fun ans _ _ _ => ?_
  cases ans with
  | error err =>
      dsimp only
      split <;> trivial
  | ok current =>
      refine knows_perform_bind trivial fun err _ _ _ =>
        knows_perform_bind trivial fun now _ _ _ => ?_
      have hblank : ∀ log, Reported log wl.id (uninstallResult reason now err) := by
        intro log
        cases err with
        | none => exact .blank rfl rfl
        | some err => exact .blank rfl rfl
      refine Knows.bind (record_founded hname (hblank _)) fun ans _ _ _ => ?_
      cases ans with
      | some err => trivial
      | none =>
          dsimp only
          split
          · exact knows_perform trivial fun _ _ _ _ => trivial
          · trivial

theorem provisionWorkload_founded (hname : wl.id.name = wl.workload.name) :
    reports.Founded (provisionWorkload wl) log := by
  refine knows_perform_bind trivial fun res later _ hres => ?_
  obtain ⟨result, err⟩ := res
  obtain ⟨hdata, hanswered⟩ := hres.2
  cases err with
  | none => exact record_founded hname ⟨hdata, fun _ => hanswered rfl⟩
  | some err =>
      dsimp only
      split
      · trivial
      · -- what is recorded of a failure is an error, with the data there was
        refine knows_perform_bind trivial fun now latest hle _ => ?_
        refine record_founded hname ⟨hdata.grow hle, fun hokay => ?_⟩
        cases hokay

theorem installWorkload_founded (hname : wl.id.name = wl.workload.name) :
    reports.Founded (installWorkload wl) log := by
  refine knows_perform_bind trivial fun ans _ _ _ => ?_
  cases ans with
  | ok current =>
      dsimp only
      split
      · trivial
      · exact provisionWorkload_founded hname
  | error err =>
      dsimp only
      split
      · refine knows_perform_bind trivial fun ans _ _ _ => ?_
        cases ans with
        | some err => trivial
        | none => exact provisionWorkload_founded hname
      · trivial

theorem recordUpdate_founded (hname : wl.id.name = wl.workload.name)
    {res : Result × Option GoError} (h : res.2 = none → Reported log wl.id res.1) :
    reports.Founded (recordUpdate wl res) log := by
  obtain ⟨result, err⟩ := res
  cases err with
  | none => exact record_founded hname (h rfl)
  | some err =>
      rw [recordUpdate]
      split
      · refine knows_perform_bind trivial fun ans later _ hans => ?_
        cases ans with
        | error err => trivial
        | ok current => exact record_founded hname hans.2.2
      · trivial

theorem updateWorkload_founded (hname : wl.id.name = wl.workload.name) :
    reports.Founded (updateWorkload e wl) log := by
  rw [updateWorkload]
  split
  · refine knows_perform_bind trivial fun res later _ hres => ?_
    obtain ⟨hdata, hanswered⟩ := hres.2
    exact recordUpdate_founded hname fun hnone => ⟨hdata, fun _ => hanswered hnone⟩
  · exact recordUpdate_founded hname fun hnone => absurd hnone (Option.some_ne_none _)

/-- A workload is paused or resumed with the data it was read with. -/
theorem lockWorkload_founded (hname : wl.id.name = wl.workload.name)
    (hdata : Given log wl.id wl.workload.result.data) (lock : Bool) :
    reports.Founded (lockWorkload wl lock) log := by
  refine knows_perform_bind trivial fun ans later hle _ => ?_
  cases ans with
  | error err => trivial
  | ok current =>
      dsimp only
      split
      · trivial
      · have hlock : (provisionerLock lock wl).Knows reports.growth (fun res log =>
            res.1.data = wl.workload.result.data ∧
              (res.2 = none → Answered log wl.id res.1)) later := by
          cases lock with
          | true => exact knows_perform (hdata.grow hle) fun _ _ _ hres => hres.2
          | false => exact knows_perform (hdata.grow hle) fun _ _ _ hres => hres.2
        refine hlock.bind fun res latest hle' hres => ?_
        obtain ⟨result, err⟩ := res
        obtain ⟨hsame, hanswered⟩ := hres
        cases err with
        | none =>
            refine record_founded hname ⟨?_, fun _ => hanswered rfl⟩
            rw [show result.data = wl.workload.result.data from hsame]
            exact hdata.grow (List.Subset.trans hle hle')
        | some err =>
            dsimp only
            split <;> trivial

/-! ## Jobs and requests -/

section

variable [GoRuntime]

/-- The operations of an upgrade are named as their workloads. -/
def UpgradeNamesOwn : Prop :=
  ∀ source target ops, Zosbase.upgrade source target = .ok ops → ∀ op ∈ ops,
    op.wlID.id.name = op.wlID.workload.name

theorem body_founded (hnames : UpgradeNamesOwn) {job : EngineJob}
    (h : ∀ wl ∈ job.locks, Given log (job.target.withID wl).id wl.result.data) :
    reports.Founded (job.body e) log := by
  cases job with
  | opProvision target | opProvisionNoValidation target =>
      refine knows_forM fun wl hwl _ _ => Audit.Founded.logged ?_
      obtain ⟨_, _, _, rfl⟩ := mem_installOrder.mp hwl
      exact installWorkload_founded rfl
  | opDeprovision target message =>
      refine Knows.bind (knows_foldlM fun errors wl hwl _ _ => ?_) fun errors _ _ _ => ?_
      · obtain ⟨_, _, _, rfl⟩ := mem_inOrder.mp hwl
        refine Knows.bind (uninstallWorkload_founded rfl message) fun ans _ _ _ => ?_
        cases ans <;> trivial
      · split
        · trivial
        · exact Audit.Founded.logged (knows_perform trivial fun _ _ _ _ => trivial)
  | opPause target | opResume target =>
      refine knows_forM fun wl hwl _ hle => Audit.Founded.logged ?_
      obtain ⟨w, hw, _, rfl⟩ := mem_inOrder.mp hwl
      exact lockWorkload_founded rfl ((h w hw).grow hle) _
  | opUpdate target source =>
      rw [EngineJob.body]
      split
      · trivial
      · next ops hops =>
          refine knows_forM fun op hop _ _ => Audit.Founded.logged ?_
          have hname := hnames source target ops hops op
            ((List.perm_insertionSort _ ops).mem_iff.mp hop)
          rw [applyOperation]
          split
          · exact uninstallWorkload_founded hname _
          · exact installWorkload_founded hname
          · exact updateWorkload_founded hname

theorem processJob_accounted (hnames : UpgradeNamesOwn) {job : EngineJob}
    (h : ∀ wl ∈ job.locks, Given log (job.target.withID wl).id wl.result.data) :
    reports.Founded (processJob e job) log := by
  have hrun : ∀ later, log ⊆ later → reports.Founded (runJob e job) later := by
    intro later hle
    rw [runJob_eq]
    refine Knows.bind (body_founded hnames fun wl hwl => (h wl hwl).grow hle) fun _ _ _ _ => ?_
    refine Audit.Founded.of_makes (finishJob_makes _ _) fun op hop => ?_
    rcases hop with rfl | rfl <;> trivial
  rw [processJob]
  split
  · exact hrun log (List.Subset.refl log)
  · next noValidation _ =>
      have hvalidate : reports.Founded (validate e job.target noValidation) log := by
        refine Audit.Founded.of_makes (validate_makes _ _) fun op hop => ?_
        rcases hop with rfl | rfl <;> trivial
      refine Knows.bind hvalidate fun ans later hle _ => ?_
      cases ans with
      | none => exact hrun later hle
      | some err =>
          exact knows_perform_bind trivial fun _ _ _ _ =>
            knows_perform_bind trivial fun _ _ _ _ => trivial

omit [GoRuntime] in
/-- Nothing that a request makes anew carries a result on. -/
theorem Request.Calls.accounts {req : Request} {op : Op} (h : req.Calls op)
    (hlocks : ∀ job, req.Queues job → job.locks = []) : op.Accounts log := by
  cases op with
  | enqueue job =>
      have hnone := hlocks job (h.jobs job (List.mem_singleton_self job))
      show ∀ wl ∈ job.locks, _
      rw [hnone]
      exact List.forall_mem_nil _
  | storageTransaction key wl => cases h.api
  | pause wl => cases h.api
  | resume wl => cases h.api
  | _ => trivial

omit [GoRuntime] in
/-- A job about what is stored carries what was reported. -/
theorem schedule_accounted {key : DeploymentKey} {job : Deployment → EngineJob}
    (hlocks : ∀ dl, (job dl).target = dl ∧ (job dl).locks ⊆ dl.workloads) :
    reports.Founded (schedule key job) log := by
  refine knows_perform_bind trivial fun ans later _ hans => ?_
  cases ans with
  | error err => trivial
  | ok dl =>
      refine knows_perform (fun wl hwl => ?_) fun _ _ _ _ => trivial
      obtain ⟨htarget, hsubset⟩ := hlocks dl
      rw [htarget]
      exact (hans.2 wl (hsubset hwl)).data

omit [GoRuntime] in
theorem invoke_accounted (req : Request) : reports.Founded (invoke e req) log := by
  have hcalls : ∀ (hq : req.queued = true) (_ : ∀ job, req.Queues job → job.locks = []),
      reports.Founded (invoke e req) log := fun hq hlocks =>
    Audit.Founded.of_makes (invoke_makes hq) fun _ hop => hop.accounts hlocks
  cases req with
  | provision dl =>
      refine hcalls rfl fun job hjob => ?_
      obtain ⟨_, rfl⟩ := hjob
      rfl
  | update dl =>
      refine hcalls rfl fun job hjob => ?_
      obtain ⟨_, _, _, _, rfl⟩ := hjob
      rfl
  | createOrUpdate twin dl isUpdate =>
      refine hcalls rfl fun job hjob => ?_
      obtain ⟨_, hjob⟩ := hjob
      split at hjob
      · obtain ⟨_, _, _, _, rfl⟩ := hjob
        rfl
      · obtain ⟨_, rfl⟩ := hjob
        rfl
  | pause twin id | resume twin id =>
      exact knows_perform_bind trivial fun _ _ _ _ =>
        schedule_accounted fun _ => ⟨rfl, List.Subset.refl _⟩
  | deprovision twin id reason =>
      exact knows_perform_bind trivial fun _ _ _ _ =>
        schedule_accounted fun _ => ⟨rfl, List.nil_subset _⟩
  | decommissionCached id reason =>
      refine knows_perform_bind trivial fun _ _ _ _ =>
        knows_perform_bind trivial fun ans later _ hans => ?_
      cases ans with
      | error err => trivial
      | ok wl =>
          dsimp only
          split
          · trivial
          · exact uninstallWorkload_founded hans.2.1.symm _

/-! ## Over a run -/

variable {r : ContractEventHandler μ}

theorem reports_sound (hnames : UpgradeNamesOwn) (hmapped : r.engine.Mapped) :
    reports.Sound r (AllReported (σ := σ)) fun _ _ => True where
  call h hop who := ⟨h.call hop who, exec_reports hmapped h.stored who _⟩
  outside h hstore hqueue := by
    refine ⟨fun k n wl hwl => h.stored k n wl ?_, fun job hjob => h.queued job (hqueue hjob)⟩
    rw [World.view, ← hstore]
    exact hwl
  routine := by
    intro s routine _
    cases routine with
    | request req => exact invoke_accounted req
    | sync =>
        refine Audit.Founded.sync r (fun op hop => ?_) fun req _ => invoke_accounted req
        cases op with
        | storageTransaction key wl => cases hop
        | pause wl => cases hop
        | resume wl => cases hop
        | enqueue job => cases hop
        | _ => trivial
  job h hjob := processJob_accounted hnames (h.queued _ hjob)
  startup := by
    intro log rerunAll
    refine Audit.Founded.of_makes startup_makes fun op hop => ?_
    cases op with
    | storageTransaction key wl => cases hop
    | pause wl => cases hop
    | resume wl => cases hop
    | enqueue job =>
        cases job with
        | opPause target => cases hop
        | opResume target => cases hop
        | _ => exact List.forall_mem_nil _
    | _ => trivial

theorem Run.reported (hnames : UpgradeNamesOwn) (hmapped : r.engine.Mapped)
    {ok : Sys σ μ → Action μ → Prop} {s₀ s : Sys σ μ} (hfresh : s₀.Fresh)
    (hempty : ∀ k n, s₀.world.view.workload k n = none) (hrun : Run r ok s₀ s) :
    reports.Holds AllReported s := by
  refine (reports_sound hnames hmapped).run (hrun.mono fun _ _ _ => trivial)
    (.of_fresh hfresh ⟨fun k n wl hwl => ?_, ?_⟩)
  · rw [hempty] at hwl
    cases hwl
  · rw [hfresh.queue]
    exact List.forall_mem_nil _

/-- Over requests, syncs, the worker, restarts and reboots in any order, whatever results
the deployments that are sent carry: a workload is recorded in use only with a result that
a call about that workload came back with, and the data that is recorded of a workload is
empty or what `Provision` or `Update` of it gave. -/
theorem results_are_managers (hnames : UpgradeNamesOwn) (hmapped : r.engine.Mapped)
    {s₀ s : Sys σ μ} (hfresh : s₀.Fresh)
    (hempty : ∀ k n, s₀.world.view.workload k n = none)
    (hrun : Run r (fun _ _ => True) s₀ s) {k : DeploymentKey} {n : Name} {wl : Workload}
    (hwl : s.world.view.workload k n = some wl) :
    (wl.result.data = "" ∨
      ∃ ev ∈ s.log, ev.data = some (⟨k.twin, k.contract, n⟩, wl.result.data)) ∧
    (wl.result.state = .ok ∨ wl.result.state = .paused →
      ∃ ev ∈ s.log, ev.answer = some (⟨k.twin, k.contract, n⟩, wl.result, none)) := by
  have h := hrun.reported hnames hmapped hfresh hempty
  have hreported := h.world.stored k n wl hwl
  refine ⟨hreported.data, fun hstate => hreported.inUse ?_⟩
  rcases hstate with hok | hpaused
  · rw [hok]
    rfl
  · rw [hpaused]
    rfl

end

end

/-! ## A deployment that is sent with a result -/

namespace ForgedResult

open Reference

theorem upgrade_names_own : UpgradeNamesOwn := by
  intro source target ops h op hop
  change Reference.upgrade source target = .ok ops at h
  rw [Reference.upgrade] at h
  split at h
  · cases h
  · split at h
    · cases h
    · split at h
      · cases h
      · obtain rfl := Except.ok.inj h
        simp only [removed, added, changed, List.mem_append, List.mem_map] at hop
        rcases hop with (⟨_, _, rfl⟩ | ⟨_, _, rfl⟩) | ⟨_, _, rfl⟩ <;> rfl

def sent : Deployment :=
  deployment 0 1 [⟨0, "a", .zlogs, "d", "", "", ⟨7, .paused, "", "forged"⟩⟩]

def start : Sys MapStore Unit :=
  idle (world (store []) [] [] ⟨[(2, contract sent)], []⟩)

/-- It is provisioned and paused. -/
def paused : Sys MapStore Unit :=
  (start.follow handler (fun _ _ => true)
    (.spawn (.request (.provision sent)) :: List.replicate 3 (.routine 0) ++
      .take :: List.replicate 6 .work ++
      .spawn (.request (.pause 1 2)) :: List.replicate 3 (.routine 1) ++
      .take :: List.replicate 4 .work)).get (by decide +kernel)

def recorded : Workload :=
  (paused.world.view.workload ⟨1, 2⟩ "a").get (by decide +kernel)

end ForgedResult

theorem results_are_managers_forged :
    (ForgedResult.recorded.result.state = .paused ∧
      ForgedResult.recorded.result.data = "d") ∧
    (ForgedResult.recorded.result.data = "" ∨
      ∃ ev ∈ ForgedResult.paused.log,
        ev.data = some (⟨1, 2, "a"⟩, ForgedResult.recorded.result.data)) ∧
    (ForgedResult.recorded.result.state = .ok ∨
        ForgedResult.recorded.result.state = .paused →
      ∃ ev ∈ ForgedResult.paused.log,
        ev.answer = some (⟨1, 2, "a"⟩, ForgedResult.recorded.result, none)) :=
  ⟨by decide +kernel, results_are_managers ForgedResult.upgrade_names_own ⟨_, rfl⟩
    (Reference.idle_fresh rfl) (fun _ _ => rfl)
    (Run.of_follow (fun _ _ _ => trivial) _ (Option.some_get _).symm)
    (Option.some_get _).symm⟩

end Zos4.Provision
