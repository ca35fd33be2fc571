import Zos4.Provision.Locks
import Zos4.Provision.Passes
import Zos4.Provision.Reference
import Zos4.Provision.Stages

/-!
# What a sync reclaims

The contract of a workload is gone, and a sync comes by. Until the queue is
empty, nothing can install the workload any more: a job that would is turned
away, since its contract cannot be read. What takes it down is the first
`Deprovision` of its deployment in the queue, and that one job settles the
matter. It removes the workload if the store has it recorded and the job's
snapshot names it, and in the end it deletes the deployment, after which no job
finds a record to go by.

That job may be in the queue already. If it is not, the sync queues one for the
deployment it has listed for the contract. So what is left behind are workloads
the store does not know of, workloads of deployments that the listing passes
over, and those that a pending `Deprovision` was made without.
-/

namespace Zos4.Provision

open Zos4.Interaction Prog

section

variable [Zosbase] {σ μ : Type} [Storage σ] {e : NativeEngine μ}

/-! ## One workload -/

/-- What removing one workload comes to: a recorded one is gone afterwards, and
one that is not recorded is left as it is. It fails for a deployment only that
is not stored. -/
theorem uninstallWorkload_alone
    (hdep : ∀ wl node, (e.provisioner.deprovision wl node).1 = none)
    {wl : WorkloadWithID} (hname : wl.id.name = wl.workload.name) (reason : String)
    (w : World σ μ) :
    (uninstallWorkload wl reason).Safe (.alone (exec e)) (fun ans t =>
      (ans = none ∨ t.view.header wl.id.key = none) ∧
        (w.view.header wl.id.key = none → t.view.header wl.id.key = none) ∧
        ¬ t.Records wl.id ∧ (t.node.installed wl.id = true ↔
          w.node.installed wl.id = true ∧ ¬ w.Records wl.id)) w := by
  rw [uninstallWorkload, safe_perform_bind]
  rintro _ rfl _ _
  refine ⟨trivial, ?_⟩
  rw [Discipline.alone_handle]
  rcases exec_storageCurrent (e := e) w wl.id.key wl.id.name with
    ⟨cur, hres, hcur⟩ | ⟨err, hres, hnone, hexists⟩
  · rw [hres]
    dsimp only
    rw [safe_perform_bind]
    rintro _ rfl _ _
    refine ⟨trivial, ?_⟩
    rw [Discipline.alone_handle, exec_deprovision, hdep]
    dsimp only
    rw [safe_perform_bind]
    rintro _ rfl _ _
    refine ⟨trivial, ?_⟩
    rw [Discipline.alone_handle, exec_now]
    dsimp only
    rw [safe_perform_bind]
    intro t ht _ _
    refine ⟨trivial, ?_⟩
    have hview : t.view = w.view := ht ▸ rfl
    have hdown : t.node.installed wl.id = false := by
      subst ht
      simp [Node.afterDeprovision, Node.uninstall]
    rw [Discipline.alone_handle]
    rcases (exec_storageTransaction (e := e) t wl.id.key (wl.workload.withResults
      (uninstallResult reason w.clock none))).cases with
      ⟨s, hv, hres, _⟩ | ⟨_, _, hno⟩
    · rw [hres]
      dsimp only
      rw [if_pos (uninstallResult_state _ _), ← bind_pure (storageRemove _ _),
        safe_perform_bind]
      rintro _ rfl _ _
      refine ⟨trivial, ?_⟩
      rw [Discipline.alone_handle]
      rcases (exec_storageRemove (e := e) { t with store := s } wl.id.key
        wl.id.name).cases with ⟨s', hv', hres, _⟩ | ⟨_, _, hno⟩
      · rw [hres]
        rintro _ rfl _
        refine ⟨.inl rfl, fun hnone => absurd hnone (World.view_header hcur), ?_, ?_⟩
        · rw [World.Records, World.view_mk, hv', StoreView.remove_workload,
            if_pos ⟨rfl, rfl⟩]
          exact not_not.mpr rfl
        · have hrec : w.Records wl.id := by rw [World.Records, hcur]; simp
          simp [hdown, hrec]
      · rw [World.view_mk, hv, StoreView.transaction_header, hview] at hno
        exact absurd hno (World.view_header hcur)
    · refine absurd hno ?_
      rw [Workload.withResults_name, ← hname, hview, hcur]
      simp
  · rw [hres]
    have hno : ¬ w.Records wl.id := fun h => h hnone
    have hend : ∀ ans : Option GoError, ans = none ∨ w.view.header wl.id.key = none →
        (pure ans : EngineM _).Safe (.alone (exec e)) (fun ans t =>
          (ans = none ∨ t.view.header wl.id.key = none) ∧
            (w.view.header wl.id.key = none → t.view.header wl.id.key = none) ∧
            ¬ t.Records wl.id ∧ (t.node.installed wl.id = true ↔
              w.node.installed wl.id = true ∧ ¬ w.Records wl.id)) w := by
      rintro ans hans _ rfl _
      exact ⟨hans, id, hno, fun h => ⟨h, hno⟩, And.left⟩
    dsimp only
    split
    · exact hend none (.inl rfl)
    · next hnot =>
        refine hend _ (.inr ?_)
        by_contra hheader
        exact hnot (hexists.mpr hheader)

/-! ## One deployment -/

/-- The workload is installed, and removing the workloads of the list leaves it
so. -/
def Stays (wls : List WorkloadWithID) (id : WorkloadID) (w : World σ μ) : Prop :=
  w.node.installed id = true ∧ ¬ (w.Records id ∧ ∃ wl ∈ wls, wl.id = id)

theorem uninstallWorkload_stays
    (hdep : ∀ wl node, (e.provisioner.deprovision wl node).1 = none)
    {wl : WorkloadWithID} (hname : wl.id.name = wl.workload.name) (reason : String)
    (wls : List WorkloadWithID) (id : WorkloadID) (w : World σ μ) :
    Stays wls id ((uninstallWorkload wl reason).run (exec e) w).2 ↔
      Stays (wl :: wls) id w := by
  by_cases hid : wl.id = id
  · subst hid
    obtain ⟨_, _, hno, hinstalled⟩ := safe_alone.mp
      (uninstallWorkload_alone hdep hname reason w)
    simp only [Stays, hinstalled, hno, false_and, not_false_iff, and_true,
      List.mem_cons, exists_eq_or_imp, true_or, and_true]
  · have hsame : Untouched id w ((uninstallWorkload wl reason).run (exec e) w).2 :=
      run_untouched (within_mono (uninstallWorkload_makes wl reason) fun op hop =>
        Op.not_touches_of_on hop.1 hid hname) w
    simp only [Stays, hsame.installed, hsame.records, List.mem_cons,
      exists_eq_or_imp, hid, false_or]

/-- After a deprovision nothing is recorded of the deployment, and of its
workloads those stay installed that it did not name or find recorded. -/
theorem uninstallDeployment_stays
    (hdep : ∀ wl node, (e.provisioner.deprovision wl node).1 = none)
    (dl : Deployment) (reason : String) (w : World σ μ) {id : WorkloadID}
    (hkey : id.key = dl.key) :
    ¬ ((uninstallDeployment e dl reason).run (exec e) w).2.Records id ∧
      (((uninstallDeployment e dl reason).run (exec e) w).2.node.installed id = true ↔
        Stays (inOrder dl e.order.reverse) id w) := by
  let items := inOrder dl e.order.reverse
  have hitems : ∀ wl ∈ items, wl.id.key = dl.key ∧
      wl.id.name = wl.workload.name := by
    intro wl hwl
    obtain ⟨_, _, _, rfl⟩ := mem_inOrder.mp hwl
    exact ⟨rfl, rfl⟩
  have hgone : ∀ t : World σ μ, t.view.header dl.key = none → ¬ t.Records id := by
    intro t hnone hrec
    rw [← hkey] at hnone
    exact hrec (World.workload_of_header_none hnone _)
  let I (errors : Bool) (left : List WorkloadWithID) (t : World σ μ) : Prop :=
    (∀ wl ∈ left, wl ∈ items) ∧ (Stays left id t ↔ Stays items id w) ∧
      (errors = true → t.view.header dl.key = none)
  have hend : ∀ errors t, I errors [] t →
      ¬ ((if errors then pure () else logged (storageDelete dl.key) :
        EngineM Unit).run (exec e) t).2.Records id ∧
      (((if errors then pure () else logged (storageDelete dl.key) :
        EngineM Unit).run (exec e) t).2.node.installed id = true ↔
        Stays items id w) := by
    rintro errors t ⟨-, hstays, herrors⟩
    have hinstalled : t.node.installed id = true ↔ Stays items id w := by
      rw [← hstays]
      simp [Stays]
    cases errors with
    | true => exact ⟨hgone t (herrors rfl), hinstalled⟩
    | false =>
        rw [if_neg (by simp), run_logged, run_perform]
        refine ⟨?_, by rw [exec_installed t rfl]; exact hinstalled⟩
        rcases (exec_storageDelete (e := e) t dl.key).cases with
          ⟨s, hv, hres, _⟩ | ⟨_, hres, hnone⟩
        · rw [hres, World.Records, World.view_mk, hv, StoreView.delete_workload,
            if_pos hkey]
          exact not_not.mpr rfl
        · rw [hres]
          exact hgone t hnone
  rw [uninstallDeployment, run_bind]
  refine hend _ _ (run_foldlM I ?_ ⟨fun _ h => h, Iff.rfl, by simp⟩)
  -- the loop goes on with one workload less
  rintro errors wl left t ⟨hleft, hstays, herrors⟩
  obtain ⟨hwlkey, hname⟩ := hitems wl (hleft wl List.mem_cons_self)
  obtain ⟨hans, hkeep, -⟩ := safe_alone.mp
    (uninstallWorkload_alone hdep hname reason t)
  rw [hwlkey] at hans hkeep
  rw [run_bind]
  refine ⟨fun wl' h => hleft wl' (List.mem_cons_of_mem _ h), ?_⟩
  have hstep := uninstallWorkload_stays hdep hname reason left id t
  cases hres : ((uninstallWorkload wl reason).run (exec e) t).1 with
  | some err =>
      exact ⟨hstep.trans hstays, fun _ => hans.resolve_left (by simp [hres])⟩
  | none => exact ⟨hstep.trans hstays, fun h => hkeep (herrors h)⟩

/-! ## The jobs of a deployment without a contract -/

/-- The snapshot of the first `Deprovision` of the deployment. -/
def firstDeprovision (k : DeploymentKey) (jobs : List EngineJob) :
    Option Deployment :=
  jobs.findSome? fun
    | .opDeprovision dl _ => if dl.key = k then some dl else none
    | _ => none

/-- The deployment names the workload, and the engine handles its type. -/
def Covers (e : NativeEngine μ) (dl : Deployment) (id : WorkloadID) : Prop :=
  ∃ wl ∈ dl.workloads, wl.name = id.name ∧ wl.type ∈ e.order

/-- The workload is installed, and the jobs leave it so. -/
def Remains (e : NativeEngine μ) (id : WorkloadID) (jobs : List EngineJob)
    (w : World σ μ) : Prop :=
  w.node.installed id = true ∧ ¬ (w.Records id ∧ ∃ dl,
    firstDeprovision id.key jobs = some dl ∧ Covers e dl id)

omit [Zosbase] in
theorem firstDeprovision_cons {k : DeploymentKey} {job : EngineJob}
    {rest : List EngineJob} (h : job.removes = true → job.target.key ≠ k) :
    firstDeprovision k (job :: rest) = firstDeprovision k rest := by
  cases job with
  | opDeprovision dl message =>
      have hne : dl.key ≠ k := h rfl
      simp only [firstDeprovision, List.findSome?_cons, if_neg hne]
  | _ => rfl

omit [Zosbase] in
theorem firstDeprovision_head {dl : Deployment} {message : String}
    {rest : List EngineJob} :
    firstDeprovision dl.key (.opDeprovision dl message :: rest) = some dl := by
  simp only [firstDeprovision, List.findSome?_cons, if_true]

omit [Zosbase] in
theorem mem_items_covers {dl : Deployment} {id : WorkloadID} (hkey : id.key = dl.key) :
    (∃ wl ∈ inOrder dl e.order.reverse, wl.id = id) ↔ Covers e dl id := by
  constructor
  · rintro ⟨item, hitem, rfl⟩
    obtain ⟨wl, hwl, htype, rfl⟩ := mem_inOrder.mp hitem
    exact ⟨wl, hwl, rfl, List.mem_reverse.mp htype⟩
  · rintro ⟨wl, hwl, hname, htype⟩
    refine ⟨dl.withID wl, mem_inOrder.mpr ⟨wl, hwl, List.mem_reverse.mpr htype, rfl⟩,
      ?_⟩
    exact WorkloadID.eq_of_key hkey.symm hname

/-- A job is turned away if its contract cannot be read. -/
theorem validate_refuses {target : Deployment} {noValidation : Bool} {w : World σ μ}
    {err : SubstrateError}
    (hdead : w.gateway.getContract target.contractID = .error err) :
    ∃ refusal, (validate e target noValidation).run (exec e) w =
      (some refusal, w) := by
  rw [validate]
  split
  · exact ⟨_, rfl⟩
  · refine ⟨err.err.wrap "failed to get deployment contract", ?_⟩
    rw [run_bind, run_perform, exec_getContract, hdead]
    rfl

variable [GoRuntime]

/-- Of a workload whose contract is gone, every job but a `Deprovision` of its own
deployment makes nothing. -/
theorem process_untouched (hlaw : LawfulUpgrade) {job : EngineJob}
    (haccepted : UpdatesAccepted job) {w : World σ μ} {id : WorkloadID}
    {err : SubstrateError} (hdead : w.gateway.getContract id.deployment = .error err)
    (h : job.removes = true → job.target.key ≠ id.key) :
    Untouched id w (process e job w) := by
  by_cases hkey : job.target.key = id.key
  · have hlock : ∀ lock target, Untouched id w (process e (lockJob lock target) w) := by
      intro lock target
      rw [process, processJob_lock]
      refine run_untouched (within_bind (within_forM fun wl _ => logged_makes
        (within_mono (lockWorkload_makes wl lock) ?_)) fun _ =>
          within_mono (finishJob_makes _ _) ?_) w
      · rintro op (rfl | rfl | rfl | ⟨result, rfl⟩) <;> exact Op.not_touches rfl
      · rintro op (rfl | rfl) <;> exact Op.not_touches rfl
    have hrefused : ∀ noValidation, job.validation = some noValidation →
        Untouched id w (process e job w) := by
      intro noValidation hval
      have hid : job.target.contractID = id.deployment :=
        congrArg DeploymentKey.contract hkey
      rw [← hid] at hdead
      obtain ⟨refusal, hrun⟩ : ∃ refusal, (validate e job.target noValidation).run
          (exec e) w = (some refusal, w) := validate_refuses hdead
      rw [process, processJob, hval]
      dsimp only
      rw [run_bind, hrun]
      have hend : Makes (do
          let _ ← storageError job.target.key refusal
          let _ ← dequeue
          pure ()) fun op => ¬ op.Touches id :=
        within_perform_bind (Op.not_touches rfl) fun _ _ =>
          within_perform_bind (Op.not_touches rfl) fun _ _ => trivial
      exact run_untouched hend w
    cases job with
    | opDeprovision target message => exact absurd hkey (h rfl)
    | opPause target => exact hlock true target
    | opResume target => exact hlock false target
    | _ => exact hrefused _ rfl
  · refine run_untouched (within_mono (processJob_makes job) ?_) w
    intro op hop
    cases hop with
    | work hwl hon =>
        obtain ⟨hwlkey, hname⟩ := EngineJob.mem_items hlaw haccepted hwl
        refine Op.not_touches_of_on hon (fun hid => hkey ?_) hname
        rw [← hwlkey, hid]
    | delete hremoves =>
        rintro (hdrops | hrevives | ⟨_, hop, _⟩)
        · exact hkey hdrops.symm
        · exact hrevives
        · cases hop
    | _ => exact Op.not_touches rfl

theorem process_remains (hlaw : LawfulUpgrade)
    (hdep : ∀ wl node, (e.provisioner.deprovision wl node).1 = none)
    {job : EngineJob} (haccepted : UpdatesAccepted job) {rest : List EngineJob}
    {w : World σ μ} {id : WorkloadID} {err : SubstrateError}
    (hdead : w.gateway.getContract id.deployment = .error err) :
    Remains e id rest (process e job w) ↔ Remains e id (job :: rest) w := by
  by_cases h : job.removes = true → job.target.key ≠ id.key
  · have hsame := process_untouched (e := e) hlaw haccepted hdead h
    rw [Remains, Remains, firstDeprovision_cons h, hsame.installed, hsame.records]
  · simp only [not_forall, not_not] at h
    obtain ⟨hremoves, hkey⟩ := h
    cases job with
    | opDeprovision dl message =>
        obtain ⟨hgone, hstays⟩ := uninstallDeployment_stays hdep dl message w
          (show id.key = dl.key from hkey.symm)
        have hfirst : firstDeprovision id.key (.opDeprovision dl message :: rest) =
            some dl := by
          rw [← show dl.key = id.key from hkey]
          exact firstDeprovision_head
        have hprocess : process e (.opDeprovision dl message) w =
            { ((uninstallDeployment e dl message).run (exec e) w).2 with
              queue := ((uninstallDeployment e dl message).run
                (exec e) w).2.queue.tail } := by
          rw [process, processJob]
          show ((uninstallDeployment e dl message >>= fun _ =>
            finishJob e dl true).run (exec e) w).2 = _
          rw [run_bind, run_finishJob]
        have hcovers := mem_items_covers (e := e) (show id.key = dl.key from hkey.symm)
        rw [Stays, hcovers] at hstays
        rw [Remains, Remains, hfirst, hprocess]
        simp only [Option.some.injEq, exists_eq_left']
        rw [← hstays]
        exact and_iff_left (not_and_of_not_left _ hgone)
    | _ => cases hremoves

/-- Of a workload whose contract is gone, whether it is still installed when the
queue is drained can be told from the start. -/
theorem drain_remains (hlaw : LawfulUpgrade)
    (hdep : ∀ wl node, (e.provisioner.deprovision wl node).1 = none)
    {w : World σ μ} (haccepted : Queued UpdatesAccepted w) {id : WorkloadID}
    {err : SubstrateError} (hdead : w.gateway.getContract id.deployment = .error err) :
    (drain e w).node.installed id = true ↔ Remains e id w.queue w := by
  have hend := drain_induction (e := e) (w := w) (I := fun jobs t =>
    t.gateway = w.gateway ∧ (∀ job ∈ jobs, UpdatesAccepted job) ∧
      (Remains e id jobs t ↔ Remains e id w.queue w)) ?_
    ⟨rfl, haccepted, Iff.rfl⟩
  · rw [← hend.2.2]
    refine ⟨fun h => ⟨h, ?_⟩, And.left⟩
    rintro ⟨_, _, hfirst, _⟩
    cases hfirst
  · rintro job rest t _ ⟨hgateway, hjobs, hremains⟩
    refine ⟨(run_outside _ t).2.1.trans hgateway,
      fun job' h => hjobs job' (List.mem_cons_of_mem _ h), ?_⟩
    rw [← hgateway] at hdead
    exact (process_remains hlaw hdep (hjobs job List.mem_cons_self) hdead).trans
      hremains

/-! ## What the sync queues -/

/-- The deployment the sync has listed for the contract, if it is this one. -/
def listed (deployments : List Deployment) (k : DeploymentKey) : Option Deployment :=
  ((byContract deployments).lookup k.contract).filter fun dl => dl.key = k

omit [Zosbase] [Storage σ] [GoRuntime] in
theorem firstDeprovision_append (k : DeploymentKey) (jobs jobs' : List EngineJob) :
    firstDeprovision k (jobs ++ jobs') =
      (firstDeprovision k jobs).or (firstDeprovision k jobs') := by
  rw [firstDeprovision, List.findSome?_append]
  rfl

omit [Zosbase] [Storage σ] [GoRuntime] in
theorem firstDeprovision_eq_none {k : DeploymentKey} {jobs : List EngineJob}
    (h : ∀ job ∈ jobs, job.removes = true → job.target.key ≠ k) :
    firstDeprovision k jobs = none := by
  induction jobs with
  | nil => rfl
  | cons job rest ih =>
      rw [firstDeprovision_cons (h job List.mem_cons_self)]
      exact ih fun job' h' => h job' (List.mem_cons_of_mem _ h')

omit [Zosbase] [GoRuntime] in
theorem firstDeprovision_missing {store : σ} {deployments : List Deployment}
    (hcapacity : Storage.capacity store = .ok deployments) {entries : DeploymentMap}
    (hkeyed : entries.Keyed) (hlisted : ∀ entry ∈ entries, entry.2 ∈ deployments)
    (k : DeploymentKey) :
    firstDeprovision k (entries.flatMap (missingJobs store)) =
      (entries.lookup k.contract).filter fun dl => dl.key = k := by
  induction entries with
  | nil => rfl
  | cons entry entries ih =>
      obtain ⟨id, dl⟩ := entry
      obtain rfl : id = dl.contractID := hkeyed.ids _ List.mem_cons_self
      have hnodup := List.nodup_cons.mp hkeyed.nodup
      have hrest : DeploymentMap.Keyed entries :=
        ⟨hnodup.2, fun x hx => hkeyed.ids x (List.mem_cons_of_mem _ hx)⟩
      have ih := ih hrest fun x hx => hlisted x (List.mem_cons_of_mem _ hx)
      have hget : Storage.get store ⟨dl.twinID, dl.contractID⟩ = .ok dl :=
        ((Storage.capacity_ok hcapacity dl).mp (hlisted _ List.mem_cons_self)).1
      have hjobs : missingJobs store (dl.contractID, dl) =
          [.opDeprovision dl "contract not active on chain"] := by
        rw [missingJobs, scheduled, hget]
      rw [List.flatMap_cons, hjobs, List.singleton_append, List.lookup_cons]
      by_cases hid : k.contract = dl.contractID
      · have hnone : entries.lookup k.contract = none := by
          cases hlook : entries.lookup k.contract with
          | none => rfl
          | some dl' =>
              have hmem : (k.contract, dl') ∈ entries := hrest.mem_iff.mpr hlook
              exact absurd (List.mem_map.mpr ⟨_, hmem, hid⟩) hnodup.1
        rw [hnone] at ih
        rw [beq_iff_eq.mpr hid]
        by_cases hkey : dl.key = k
        · subst hkey
          exact firstDeprovision_head.trans (Option.filter_some_pos (by simp)).symm
        · have hother : (EngineJob.opDeprovision dl
              "contract not active on chain").target.key ≠ k := hkey
          rw [firstDeprovision_cons fun _ => hother, ih]
          exact (Option.filter_some_neg (by simpa using hkey)).symm
      · rw [beq_eq_false_iff_ne.mpr hid, firstDeprovision_cons, ih]
        rintro - rfl
        exact hid rfl

omit [GoRuntime] in
theorem mem_runningJobs {store : σ} {g : Gateway} {entry : ContractID × Deployment}
    {job : EngineJob} (h : job ∈ runningJobs g store entry) :
    ∃ lock dl, job = lockJob lock dl := by
  rw [runningJobs] at h
  split at h
  · cases h
  · next contract _ =>
      split at h
      · cases h
      · rw [scheduled] at h
        split at h
        · cases h
        · next dl _ =>
            obtain rfl := List.mem_singleton.mp h
            refine ⟨contract.isGracePeriod, dl, ?_⟩
            cases contract.isGracePeriod <;> rfl

/-- Of a deployment whose contract is not listed on the chain, a sync queues the
one `Deprovision` it takes to remove what it has listed itself. -/
theorem firstDeprovision_syncQueue {store : σ} {g : Gateway}
    {deployments : List Deployment} {onchain : List ContractID} {k : DeploymentKey}
    (hcapacity : Storage.capacity store = .ok deployments)
    (hgone : k.contract ∉ onchain) :
    firstDeprovision k (syncQueue g store (syncMaps deployments onchain)) =
      listed deployments k := by
  let missing := GoRuntime.rangeMap (syncMaps deployments onchain).1
  have hperm : missing.Perm (syncMaps deployments onchain).1 :=
    GoRuntime.rangeMap_perm _
  have hkeyed : DeploymentMap.Keyed missing :=
    (apart_start deployments).foldl.active.perm hperm
  have hmem : ∀ entry, entry ∈ missing ↔
      entry ∈ byContract deployments ∧ entry.1 ∉ onchain :=
    fun _ => hperm.mem_iff.trans mem_unmatched
  have hlock : ∀ job ∈ (GoRuntime.rangeMap (syncMaps deployments onchain).2).flatMap
      (runningJobs g store), job.removes = true → job.target.key ≠ k := by
    intro job hjob
    obtain ⟨entry, _, hjob⟩ := List.mem_flatMap.mp hjob
    intro hremoves
    obtain ⟨lock, dl, rfl⟩ := mem_runningJobs hjob
    cases lock <;> cases hremoves
  have hlookup : missing.lookup k.contract =
      (byContract deployments).lookup k.contract := by
    refine Option.ext fun dl => ?_
    have h := hmem (k.contract, dl)
    rw [hkeyed.mem_iff, (byContract_keyed deployments).mem_iff] at h
    exact h.trans (and_iff_left hgone)
  rw [syncQueue, firstDeprovision_append, firstDeprovision_eq_none hlock,
    Option.or_none, firstDeprovision_missing hcapacity hkeyed, hlookup]
  · rfl
  · exact fun entry hentry => (mem_byContract ((hmem entry).mp hentry).1).1

theorem syncQueue_accepted {store : σ} {g : Gateway}
    {maps : DeploymentMap × DeploymentMap} {job : EngineJob}
    (h : job ∈ syncQueue g store maps) : UpdatesAccepted job := by
  rintro target source rfl
  rcases List.mem_append.mp h with h | h
  · obtain ⟨entry, _, h⟩ := List.mem_flatMap.mp h
    rw [missingJobs, scheduled] at h
    split at h
    · cases h
    · cases List.mem_singleton.mp h
  · obtain ⟨entry, _, h⟩ := List.mem_flatMap.mp h
    obtain ⟨lock, dl, hjob⟩ := mem_runningJobs h
    cases lock <;> cases hjob

/-! ## A pass of the sync -/

variable {r : ContractEventHandler μ}

/-- A sync has made all its calls in a row. -/
def Sys.synced (s : Sys σ μ) (r : ContractEventHandler μ) : Sys σ μ :=
  { s with world := ((sync r).run (exec r.engine) s.world).2 }

/-- The worker has finished what it is at. -/
def Sys.settled (s : Sys σ μ) (r : ContractEventHandler μ) : World σ μ :=
  (s.worker.run (exec r.engine) s.world).2

/-- The store has the workload recorded, and the first `Deprovision` of its
deployment names it: the first one that is pending or, if none is, that of the
deployment listed for the contract. -/
def Reclaimable (e : NativeEngine μ) (deployments : List Deployment)
    (id : WorkloadID) (w : World σ μ) : Prop :=
  w.Records id ∧ ∃ dl, (firstDeprovision id.key w.queue).or
    (listed deployments id.key) = some dl ∧ Covers e dl id

/-- Where the worker gets to does not depend on the jobs that were queued behind
its own in the meantime. -/
theorem settled_queued {s : Sys σ μ} (hordered : s.Ordered)
    (hstaged : s.Staged r.engine) (jobs : List EngineJob) :
    ∃ (t : World σ μ) (rest more : List EngineJob),
      (∀ job ∈ rest, job ∈ s.world.queue) ∧
      (∀ job ∈ more, ∃ dl, job = .opProvisionNoValidation dl) ∧
      s.settled r = { t with queue := rest ++ more } ∧
      (s.worker.run (exec r.engine) (s.world.queued jobs)).2 =
        { t with queue := rest ++ jobs ++ more } := by
  obtain ⟨pre, rest, hpre, hqueue⟩ : ∃ pre rest,
      ((Makes s.worker fun op => ¬ op = .dequeue) ∧ pre = [] ∨
        DequeuesOnce s.worker ∧ ∃ job, pre = [job]) ∧
      s.world.queue = pre ++ rest := by
    rcases hordered.worker with hno | ⟨honce, job, rest, _, hq⟩
    · exact ⟨[], s.world.queue, .inl ⟨hno, rfl⟩, rfl⟩
    · exact ⟨[job], rest, .inr ⟨honce, job, rfl⟩, hq⟩
  obtain ⟨_, t, more, hmore, hrun⟩ := run_requeue (e := r.engine) hstaged.queues hpre
    s.world
  refine ⟨t, rest, more, fun job hjob => ?_, hmore, ?_, ?_⟩
  · rw [hqueue]
    exact List.mem_append_right pre hjob
  · have h := hrun rest
    rw [← hqueue] at h
    exact congrArg Prod.snd h
  · rw [World.queued, hqueue, List.append_assoc, hrun]

/-- After a sync and once the queue is drained, no workload is left whose
contract does not exist any more, exactly if every one that the worker leaves is
reclaimable. -/
theorem sync_reclaims_iff (hlaw : LawfulUpgrade)
    (hdep : ∀ wl node, (r.engine.provisioner.deprovision wl node).1 = none)
    {s₀ s s' : Sys σ μ} (hfresh : s₀.Fresh) (hrun : Run r (fun _ _ => True) s₀ s)
    (htruth : s.world.gateway.Truthful s.world.chain)
    {deployments : List Deployment} {onchain : List ContractID}
    (hcapacity : Storage.capacity s.world.store = .ok deployments)
    (hlist : s.world.gateway.getNodeContracts r.node.toUInt32 = .ok onchain)
    (hexist : ∀ id ∈ onchain, s.world.chain.alive id = true)
    (hpass : Run r (fun _ a => a.ofWorker) (s.synced r) s')
    (hdrained : s'.Drained) :
    (∀ id, s'.world.node.installed id = true →
        s.world.chain.alive id.deployment = true) ↔
      ∀ id, (s.settled r).node.installed id = true →
        s.world.chain.alive id.deployment = false →
        Reclaimable r.engine deployments id (s.settled r) := by
  let jobs := syncQueue s.world.gateway s.world.store
    (syncMaps deployments onchain)
  have hstaged := hrun.staged hfresh.staged
  obtain ⟨t, rest, more, hrest, hmore, hsettled, hsynced⟩ := settled_queued (r := r)
    (hrun.ordered hfresh.ordered) hstaged jobs
  have hend : s'.world = drain r.engine { t with queue := rest ++ jobs ++ more } := by
    rw [hpass.completed hdrained, Sys.completed, ← hsynced, Sys.synced,
      run_sync hcapacity hlist]
  have hgateway : t.gateway = s.world.gateway := by
    have h := (run_outside (e := r.engine) s.worker s.world).2.1
    rw [show (s.worker.run (exec r.engine) s.world).2 = _ from hsettled] at h
    exact h
  have haccepted : Queued UpdatesAccepted
      ({ t with queue := rest ++ jobs ++ more } : World σ μ) := by
    intro job hjob
    rcases List.mem_append.mp hjob with hjob | hjob
    · rcases List.mem_append.mp hjob with hjob | hjob
      · exact hstaged.jobs job (hrest job hjob)
      · exact syncQueue_accepted hjob
    · obtain ⟨dl, rfl⟩ := hmore job hjob
      simp [UpdatesAccepted]
  have hdead : ∀ id : ContractID, s.world.chain.alive id = false →
      ∃ err, t.gateway.getContract id = .error err := by
    intro id halive
    rw [hgateway]
    cases hget : s.world.gateway.getContract id with
    | error err => exact ⟨err, rfl⟩
    | ok contract =>
        rw [(htruth.exists_of_ok _ _ hget).2] at halive
        cases halive
  have hleft : ∀ id, s.world.chain.alive id.deployment = false →
      (s'.world.node.installed id = true ↔ t.node.installed id = true ∧
        ¬ Reclaimable r.engine deployments id (s.settled r)) := by
    intro id halive
    obtain ⟨err, herr⟩ := hdead _ halive
    have hgone : id.key.contract ∉ onchain := by
      intro hmem
      rw [show s.world.chain.alive id.deployment = true from hexist _ hmem] at halive
      cases halive
    have hnone : firstDeprovision id.key more = none := by
      refine firstDeprovision_eq_none fun job hjob hremoves => ?_
      obtain ⟨dl, rfl⟩ := hmore job hjob
      cases hremoves
    rw [hend, drain_remains hlaw hdep haccepted herr, Remains, Reclaimable, hsettled,
      firstDeprovision_append, firstDeprovision_append, firstDeprovision_append,
      hnone, Option.or_none, Option.or_none,
      firstDeprovision_syncQueue hcapacity hgone]
    exact Iff.rfl
  rw [hsettled] at hleft ⊢
  refine forall_congr' fun id => ?_
  cases halive : s.world.chain.alive id.deployment with
  | true => simp
  | false =>
      rw [hleft id halive]
      simp only [Bool.false_eq_true, imp_false, not_and, not_not, forall_const]

end

/-! ## After a refused update

A deployment is in use, an update of it that its contract is not about is
refused, and the contract is cancelled. -/

namespace Refused

open Reference

def created : Deployment :=
  deployment 0 1 [⟨0, "a", .zlogs, "d", "", "", Result.initial 0⟩]

def updated : Deployment :=
  deployment 1 1 [⟨1, "a", .zlogs, "e", "", "", Result.initial 0⟩]

def a : WorkloadID := ⟨1, 2, "a"⟩

def ledger (cancelled : List ContractID) : Ledger := ⟨[(2, contract created)], cancelled⟩

def start : Sys MapStore Unit := idle (world (store []) [] [] (ledger []))

def deploy : List (Action Unit) :=
  .spawn (.request (.createOrUpdate 1 created false)) ::
    List.replicate 5 (.routine 0) ++ .take :: List.replicate 6 .work

def refuse : List (Action Unit) :=
  .spawn (.request (.update updated)) :: List.replicate 4 (.routine 1) ++
    .take :: List.replicate 4 .work

/-- The contract is cancelled, and no event tells the node. -/
def cancel (s : Sys MapStore Unit) : Sys MapStore Unit :=
  { s with world :=
    { s.world with
      clock := 0, chain := (ledger [2]).chain, gateway := (ledger [2]).gateway } }

def deployed : Sys MapStore Unit :=
  (start.follow handler (fun _ _ => true) deploy).get (by decide +kernel)

def refused : Sys MapStore Unit :=
  (start.follow handler (fun _ _ => true) (deploy ++ refuse)).get
    (by decide +kernel)

theorem run_cancel {s : Sys MapStore Unit}
    (h : Run handler (fun _ _ => True) start s) :
    Run handler (fun _ _ => True) start (cancel s) :=
  h.tail (a := .outside 0 (ledger [2]).chain (ledger [2]).gateway) trivial rfl

theorem run_deployed : Run handler (fun _ _ => True) start deployed :=
  Run.of_follow (fun _ _ _ => trivial) _ (Option.some_get _).symm

theorem run_refused : Run handler (fun _ _ => True) start refused :=
  Run.of_follow (fun _ _ _ => trivial) _ (Option.some_get _).symm

def worker (_ : Sys MapStore Unit) : Action Unit → Bool
  | .take | .work => true
  | _ => false

theorem worker_sound {s : Sys MapStore Unit} {a : Action Unit}
    (h : worker s a = true) : a.ofWorker := by
  cases a with
  | take | work => trivial
  | _ => cases h

def reclaimed : Sys MapStore Unit :=
  (((cancel deployed).synced handler).follow handler worker
    (.take :: List.replicate 7 .work)).get (by decide +kernel)

/-- The deployment as the sync lists it. -/
def stored : Deployment := deployment 0 1 [workload 0 "a" "d"]

end Refused

theorem sync_reclaims_iff_cancelled :
    (∀ id, Refused.reclaimed.world.node.installed id = true →
        (Refused.cancel Refused.deployed).world.chain.alive id.deployment = true) ↔
      ∀ id, ((Refused.cancel Refused.deployed).settled
          Reference.handler).node.installed id = true →
        (Refused.cancel Refused.deployed).world.chain.alive id.deployment = false →
        Reclaimable Reference.engine [Refused.stored] id
          ((Refused.cancel Refused.deployed).settled Reference.handler) :=
  sync_reclaims_iff Reference.lawful_upgrade (fun _ _ => rfl)
    (Reference.idle_fresh rfl) (Refused.run_cancel Refused.run_deployed)
    (Reference.Ledger.truthful _) (by decide +kernel) (by decide +kernel)
    (List.forall_mem_nil _)
    (Run.of_follow (fun _ _ h => Refused.worker_sound h) _ (Option.some_get _).symm)
    ⟨Sys.idle_of_isIdle (by decide +kernel), by decide +kernel⟩

/-- The workload of a deployment whose update was refused stays installed: the
sync does not see the deployment any more. -/
theorem sync_leaves_refused :
    ∃ s₀ s : Sys MapStore Unit, s₀.Fresh ∧ s₀.world.store = Reference.store [] ∧
      (∀ id, s₀.world.node.installed id = false) ∧
      Run Reference.handler (fun _ _ => True) s₀ s ∧ s.Drained ∧
      s.world.gateway.Truthful s.world.chain ∧
      Storage.capacity s.world.store = .ok [] ∧
      s.world.gateway.getNodeContracts Reference.handler.node.toUInt32 = .ok [] ∧
      (s.synced Reference.handler).Drained ∧
      (s.synced Reference.handler).world.node.installed Refused.a = true ∧
      s.world.chain.alive Refused.a.deployment = false :=
  ⟨Refused.start, Refused.cancel Refused.refused, Reference.idle_fresh rfl, rfl,
    fun _ => rfl, Refused.run_cancel Refused.run_refused,
    ⟨Sys.idle_of_isIdle (by decide +kernel), by decide +kernel⟩,
    Reference.Ledger.truthful _, by decide +kernel, by decide +kernel,
    ⟨Sys.idle_of_isIdle (by decide +kernel), by decide +kernel⟩,
    by decide +kernel, by decide +kernel⟩

end Zos4.Provision
