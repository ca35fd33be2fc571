import Mathlib.Algebra.BigOperators.Group.List.Basic
import Zos4.Provision.Locks
import Zos4.Provisiond.CapacitySetter

/-!
# What a deployment takes up

The sum the setter sends is over the workloads in use, and the order they are read
in does not matter. So it is a matter of which workloads of a deployment are in
use, and `exec_sameUse` says which calls leave that alone. The rest of the module
is what the programs of the node do about it: a job comes to its callback or to
its refusal and writes nothing afterwards, and a request that has made a
deployment queues a job for it in its next call.
-/

namespace Zos4.Provisiond

open Zos4.Interaction Prog Zos4.Provision

section

variable [Zosbase] {σ μ : Type} [Storage σ] {e : NativeEngine μ}

/-! ## The workloads in use -/

/-- The sum of `Capacity()` over the workloads in use. -/
def usage (cap : Workload → Capacity) (dl : Deployment) : ContractResources :=
  let used := (dl.workloads.filter (·.result.state.isOkay)).map cap
  ⟨dl.contractID, ⟨(used.map (·.hru)).sum, (used.map (·.sru)).sum,
    (used.map (·.cru)).sum, (used.map (·.mru)).sum⟩⟩

omit [Zosbase] in
theorem totalCapacity_eq {capacity : Workload → Except GoError Capacity}
    {cap : Workload → Capacity} (hcap : ∀ wl, capacity wl = .ok (cap wl))
    (workloads : List Workload) :
    totalCapacity capacity workloads =
      ((workloads.filter (·.result.state.isOkay)).map cap).foldl Capacity.add
        Capacity.zero := by
  rw [totalCapacity]
  generalize Capacity.zero = total
  induction workloads generalizing total with
  | nil => rfl
  | cons wl workloads ih =>
      rw [List.foldl_cons, ih, List.filter_cons]
      split
      · rw [hcap, List.map_cons, List.foldl_cons]
      · rfl

omit [Zosbase] in
theorem foldl_capacity (caps : List Capacity) (total : Capacity) :
    caps.foldl Capacity.add total =
      ⟨total.cru + (caps.map (·.cru)).sum, total.sru + (caps.map (·.sru)).sum,
        total.hru + (caps.map (·.hru)).sum, total.mru + (caps.map (·.mru)).sum⟩ := by
  induction caps generalizing total with
  | nil => simp
  | cons cap caps ih =>
      rw [List.foldl_cons, ih, Capacity.add]
      simp only [List.map_cons, List.sum_cons, add_assoc]

omit [Zosbase] in
theorem contractResources_eq {capacity : Workload → Except GoError Capacity}
    {cap : Workload → Capacity} (hcap : ∀ wl, capacity wl = .ok (cap wl))
    (dl : Deployment) : contractResources capacity dl = usage cap dl := by
  rw [contractResources, totalCapacity_eq hcap, foldl_capacity, usage]
  simp [Capacity.zero]

/-- The deployment has the same workloads in use, if it is stored. -/
structure SameUse (k : DeploymentKey) (w w' : World σ μ) : Prop where
  stored : w'.view.header k ≠ none → w.view.header k ≠ none
  used : ∀ n wl, wl.result.state.isOkay = true →
    (w'.view.workload k n = some wl ↔ w.view.workload k n = some wl)

theorem SameUse.of_view {k : DeploymentKey} {w w' : World σ μ}
    (h : w'.view = w.view) : SameUse k w w' := by
  refine ⟨fun hk => ?_, fun n wl _ => ?_⟩
  · rwa [h] at hk
  · rw [h]

theorem SameUse.of_eq {k : DeploymentKey} {w w' : World σ μ}
    (hheader : w'.view.header k ≠ none → w.view.header k ≠ none)
    (hworkload : ∀ n, w'.view.workload k n = w.view.workload k n) : SameUse k w w' := by
  refine ⟨hheader, fun n wl _ => ?_⟩
  rw [hworkload]

/-- What is read of it takes up the same, in whatever order it is read. -/
theorem SameUse.usage {k : DeploymentKey} {w w' : World σ μ} {dl dl' : Deployment}
    (h : SameUse k w w') (cap : Workload → Capacity)
    (hdl : Storage.get w.store k = .ok dl) (hdl' : Storage.get w'.store k = .ok dl') :
    usage cap dl' = usage cap dl := by
  obtain ⟨rfl, _, hnodup, hmem⟩ := Storage.get_ok hdl
  obtain ⟨hkey, _, hnodup', hmem'⟩ := Storage.get_ok hdl'
  have hperm : (dl'.workloads.filter (·.result.state.isOkay)).Perm
      (dl.workloads.filter (·.result.state.isOkay)) := by
    refine (List.perm_ext_iff_of_nodup ((hnodup'.of_map _).filter _)
      ((hnodup.of_map _).filter _)).mpr fun wl => ?_
    rw [List.mem_filter, List.mem_filter, hmem, hmem']
    exact and_congr_left fun hok => h.used wl.name wl hok
  have hsum : ∀ f : Capacity → UInt64,
      (((dl'.workloads.filter (·.result.state.isOkay)).map cap).map f).sum =
        (((dl.workloads.filter (·.result.state.isOkay)).map cap).map f).sum :=
    fun f => ((hperm.map cap).map f).sum_eq
  have hid : dl'.contractID = dl.contractID := congrArg DeploymentKey.contract hkey
  simp only [Provisiond.usage, hsum, hid]

/-- The calls that change which workloads of the deployment are in use, or whether
it is stored. -/
def Alters (w : World σ μ) (k : DeploymentKey) : Op → Prop
  | .storageCreate dl => dl.key = k
  | .storageTransaction key wl => key = k ∧
      (wl.result.state.isOkay = true ∨ okayAt w.view.workload k wl.name = true)
  | .storageRemove key n => key = k ∧ okayAt w.view.workload k n = true
  | .storageDelete key | .storageError key _ => key = k
  | _ => False

theorem writes_of_alters {w : World σ μ} {k : DeploymentKey} {op : Op}
    (h : Alters w k op) : op.writes = true := by
  cases op <;> first | rfl | exact h.elim

theorem exec_sameUse {w : World σ μ} {k : DeploymentKey} {op : Op}
    (h : ¬ Alters w k op) : SameUse k w (exec e op w).2 := by
  have hrewrites := exec_rewrites (e := e) op w
  generalize hv : (exec e op w).2.view = v at hrewrites
  cases hrewrites with
  | kept => exact .of_view hv
  | @create dl =>
      have hkey : k ≠ dl.key := fun hkey => h hkey.symm
      refine .of_eq (fun hk => ?_) fun n => ?_
      · rwa [hv, StoreView.create_header, if_neg hkey] at hk
      · rw [hv, StoreView.create_workload_of_ne hkey]
  | update hthere =>
      refine .of_eq (fun hk => ?_) fun n => ?_
      · rw [hv, StoreView.update_header] at hk
        split at hk
        · next hkey => rw [hkey]; exact hthere
        · exact hk
      · rw [hv, StoreView.update_workload]
  | add hnew =>
      refine ⟨fun hk => ?_, fun n wl hok => ?_⟩
      · rwa [hv, StoreView.add_header] at hk
      · rw [hv, StoreView.add_workload]
        split
        · next hkn =>
            -- the new workload is not in use, and there was none
            rw [hkn.1, hkn.2, hnew.2, Option.some.injEq]
            refine iff_of_false ?_ (by simp)
            rintro rfl
            cases hok
        · rfl
  | transaction =>
      refine ⟨fun hk => ?_, fun n wl hok => ?_⟩
      · rwa [hv, StoreView.transaction_header] at hk
      · rw [hv, StoreView.transaction_workload]
        split
        · next hkn =>
            -- neither the record nor the one before it is in use
            obtain ⟨rfl, rfl⟩ := hkn
            refine iff_of_false ?_ fun hwl => ?_
            · rintro hwl
              obtain rfl := Option.some.inj hwl
              exact h ⟨rfl, .inl hok⟩
            · exact h ⟨rfl, .inr (okayAt_iff.mpr ⟨wl, hwl, hok⟩)⟩
        · rfl
  | remove =>
      refine ⟨fun hk => ?_, fun n wl hok => ?_⟩
      · rwa [hv, StoreView.remove_header] at hk
      · rw [hv, StoreView.remove_workload]
        split
        · next hkn =>
            obtain ⟨rfl, rfl⟩ := hkn
            refine iff_of_false (by simp) fun hwl => ?_
            exact h ⟨rfl, okayAt_iff.mpr ⟨wl, hwl, hok⟩⟩
        · rfl
  | @delete key =>
      have hkey : k ≠ key := fun hkey => h hkey.symm
      refine .of_eq (fun hk => ?_) fun n => ?_
      · rwa [hv, StoreView.delete_header, if_neg hkey] at hk
      · rw [hv, StoreView.delete_workload, if_neg hkey]
  | @error key err =>
      have hkey : k ≠ key := fun hkey => h hkey.symm
      refine .of_eq (fun hk => ?_) fun n => ?_
      · rwa [hv, StoreView.error_header] at hk
      · rw [hv, StoreView.error_workload, if_neg hkey]

/-! ## What the programs do -/

/-- The callback of a job, or its refusal. -/
def Ends (job : EngineJob) (op : Op) : Prop :=
  op = .callback job.target.twinID job.target.contractID job.removes ∨
    ∃ err, op = .storageError job.target.key err

abbrev WritesNothing (p : EngineM Unit) : Prop := Makes p fun op => op.writes = false

/-- The program comes to the callback of the job, or to its refusal, and writes
nothing after that. -/
abbrev Reports (job : EngineJob) (p : EngineM Unit) : Prop :=
  p.Closes Op.Possible (Ends job) fun op : Op => op.writes = false

variable [GoRuntime]

theorem body_not_ends (job : EngineJob) :
    Makes (job.body e) fun op => ¬ Ends job op := by
  refine within_mono (EngineJob.body_makes job) ?_
  rintro op (⟨wl, _, hop⟩ | ⟨_, rfl⟩) (h | ⟨err, h⟩)
  · rw [h] at hop
    exact hop
  · rw [h] at hop
    exact hop
  · cases h
  · cases h

theorem runJob_reports (hcallback : e.callback = true) (job : EngineJob) :
    Reports job (runJob e job) := by
  rw [runJob_eq]
  refine closes_bind (body_not_ends job) fun _ => .inr ⟨?_, fun _ _ => ?_⟩
  · rintro (h | ⟨err, h⟩) <;> cases h
  · rw [safeCallback, if_pos hcallback]
    exact closes_perform_bind (.inl rfl) fun _ _ => trivial

theorem processJob_reports (hcallback : e.callback = true) (job : EngineJob) :
    Reports job (processJob e job) := by
  rw [processJob]
  split
  · exact runJob_reports hcallback job
  · refine closes_bind (within_mono (validate_makes _ _) ?_) fun ans => ?_
    · rintro op (rfl | rfl) (h | ⟨err, h⟩) <;> cases h
    · cases ans with
      | none => exact runJob_reports hcallback job
      | some err =>
          exact closes_perform_bind (.inr ⟨err, rfl⟩) fun _ _ =>
            within_perform_bind rfl fun _ _ => trivial

/-- The next call queues a job that makes the deployment. -/
def Enqueues (key : DeploymentKey) (p : EngineM (Option GoError)) : Prop :=
  ∃ job cont, p = .call (.enqueue job) cont ∧ job.target.key = key ∧
    job.removes = false

/-- After the call, a deployment it has made is queued at once. -/
def Enrols : (op : Op) → (op.Ret → EngineM (Option GoError)) → Prop
  | .storageCreate dl, cont => Enqueues dl.key (cont none)
  | _, _ => True

def Enrolling : EngineM (Option GoError) → Prop
  | .ret _ => True
  | .call op cont => Enrols op cont ∧ ∀ r, op.Possible r → Enrolling (cont r)

omit [GoRuntime] in
theorem enrols_of_quiet {op : Op} {cont : op.Ret → EngineM (Option GoError)}
    (h : op.creates = false) : Enrols op cont := by
  cases op with
  | storageCreate dl => cases h
  | _ => trivial

omit [GoRuntime] in
theorem enrolling_of_quiet {p : EngineM (Option GoError)}
    (h : Makes p fun op => op.creates = false) : Enrolling p := by
  induction p with
  | ret a => trivial
  | call op cont ih =>
      exact ⟨enrols_of_quiet h.1, fun ans hans => ih ans (h.2 ans hans)⟩

omit [GoRuntime] in
theorem enrolling_bind {α : Type} {p : EngineM α}
    {f : α → EngineM (Option GoError)} (hp : Makes p fun op => op.creates = false)
    (hf : ∀ a, Enrolling (f a)) : Enrolling (p >>= f) := by
  induction p with
  | ret a => exact hf a
  | call op cont ih =>
      exact ⟨enrols_of_quiet hp.1, fun ans hans => ih ans (hp.2 ans hans)⟩

omit [GoRuntime] in
theorem provision_enrolling (dl : Deployment) : Enrolling (provision dl) := by
  rw [provision]
  split
  · trivial
  · refine ⟨⟨.opProvision dl, _, rfl, rfl, rfl⟩, fun ans _ => ?_⟩
    cases ans with
    | some err => trivial
    | none => exact enrolling_of_quiet (within_perform rfl)

omit [GoRuntime] in
theorem createOrUpdate_enrolling (twin : TwinID) (dl : Deployment) :
    Enrolling (createOrUpdate e twin dl false) := by
  have hverified : Makes (retry 5 (checkVerified twin)) fun op => op.creates = false := by
    have hcalls : Makes (checkVerified twin) (Request.Calls (.pause 0 0)) :=
      checkVerified_makes
    exact within_mono (retry_makes hcalls 5) fun op hop => hop.quiet rfl
  rw [createOrUpdate]
  split
  · trivial
  · split
    · trivial
    · refine enrolling_bind hverified fun ans => ?_
      cases ans with
      | some err => trivial
      | none =>
          refine ⟨trivial, fun ans _ => ?_⟩
          cases ans with
          | some err => trivial
          | none => exact provision_enrolling dl

theorem routine_enrolling {r : ContractEventHandler μ} (routine : Routine) :
    Enrolling (routine.prog r) := by
  cases hq : routine.queued with
  | false =>
      refine enrolling_of_quiet (within_mono (routine_removes hq) ?_)
      rintro op (⟨req, rfl⟩ | ⟨wl, hon, _⟩)
      · rfl
      · cases op <;> first | rfl | exact hon.elim
  | true =>
      cases hc : routine.creates with
      | false =>
          exact enrolling_of_quiet
            (within_mono (routine_quiet hq hc) fun _ hop => hop.2)
      | true =>
          rcases routine with req | _
          · cases req with
            | provision dl => exact ⟨trivial, fun _ _ => provision_enrolling dl⟩
            | createOrUpdate twin dl isUpdate =>
                cases isUpdate with
                | true => cases hc
                | false => exact ⟨trivial, fun _ _ => createOrUpdate_enrolling twin dl⟩
            | _ => cases hc
          · cases hc

end

end Zos4.Provisiond
