import Zos4.Provision.Audit
import Zos4.Provision.Reference

/-!
# What a node deploys was signed for

A deployment comes to a node in `CreateOrUpdate`, which has the signature verified and the
twin looked up in the verification service. What is provisioned is something else: jobs
out of a queue, snapshots of the store, and after a reboot whatever the store holds.

`Signed` says of a workload that a deployment of the same twin and contract has it, and
that this deployment was verified at some time in the log. That a deployment was verified
stays so, and makes an `Audit`: a call is founded, `Op.Fits`, if what it brings along is
signed, and an answer of the store shows signed workloads, because every recorded workload
is signed (`AllSigned`). So is every queued one, and no manager is ever
asked for anything else (`deploys_signed`).
-/

namespace Zos4.Provision

open Zos4.Interaction Prog

section

variable [Zosbase] {σ μ : Type} [Storage σ]

/-! ## What the log shows -/

/-- The signatures of the deployment were found right, and its twin was found verified. -/
def Vouched (log : List Event) (dl : Deployment) : Prop :=
  (∃ who, (⟨who, .verify dl, none⟩ : Event) ∈ log) ∧
    ∃ who, (⟨who, .isTwinVerified dl.twinID, .ok true⟩ : Event) ∈ log

/-- The workload is one of a deployment that was vouched for. Its result is not. -/
def Signed (log : List Event) (key : DeploymentKey) (wl : Workload) : Prop :=
  ∃ dl, Vouched log dl ∧ dl.key = key ∧
    ∃ w ∈ dl.workloads, Workload.definition w = Workload.definition wl

theorem Signed.grow {log log' : List Event} {key : DeploymentKey} {wl : Workload}
    (h : Signed log key wl) (hlog : log ⊆ log') : Signed log' key wl := by
  obtain ⟨dl, ⟨⟨who, hverified⟩, who', htwin⟩, hkey, hwl⟩ := h
  exact ⟨dl, ⟨⟨who, hlog hverified⟩, who', hlog htwin⟩, hkey, hwl⟩

theorem Signed.of_definition {log : List Event} {key : DeploymentKey} {wl wl' : Workload}
    (h : Signed log key wl) (heq : Workload.definition wl = Workload.definition wl') :
    Signed log key wl' := by
  obtain ⟨dl, hvouched, hkey, w, hw, hdef⟩ := h
  exact ⟨dl, hvouched, hkey, w, hw, hdef.trans heq⟩

/-- The workloads a job carries: those of its target, and of its source. -/
def EngineJob.carried : EngineJob → List Workload
  | .opUpdate target source => target.workloads ++ source.workloads
  | job => job.target.workloads

/-- What a call brings along is signed. -/
def Op.Fits (log : List Event) : Op → Prop
  | .storageCreate dl => ∀ wl ∈ dl.workloads, Signed log dl.key wl
  | .storageAdd key wl | .storageTransaction key wl => Signed log key wl
  | .provision wl | .deprovision wl | .pause wl | .resume wl | .update wl =>
      Signed log wl.id.key wl.workload
  | .enqueue job => ∀ wl ∈ job.carried, Signed log job.target.key wl
  | _ => True

/-- What an answer shows. -/
def Op.Shows (log : List Event) : (op : Op) → op.Ret → Prop
  | .storageGet key, .ok dl => ∀ wl ∈ dl.workloads, Signed log key wl
  | .storageCurrent key _, .ok wl => Signed log key wl
  | .verify dl, none => ∃ who, (⟨who, .verify dl, none⟩ : Event) ∈ log
  | .isTwinVerified twin, .ok true =>
      ∃ who, (⟨who, .isTwinVerified twin, .ok true⟩ : Event) ∈ log
  | _, _ => True

def verified : Audit where
  fits := Op.Fits
  fits_grow := by
    intro log log' op hle h
    cases op with
    | storageCreate _ | enqueue _ => exact fun wl hwl => (h wl hwl).grow hle
    | storageAdd _ _ | storageTransaction _ _ | provision _ | deprovision _ | pause _
    | resume _ | update _ => exact h.grow hle
    | _ => trivial
  tells := Op.Shows

/-! ## What is kept of the node -/

structure AllSigned (w : World σ μ) (log : List Event) : Prop where
  stored : ∀ k n wl, w.view.workload k n = some wl → Signed log k wl
  queued : ∀ job ∈ w.queue, ∀ wl ∈ job.carried, Signed log job.target.key wl

variable {e : NativeEngine μ} {w : World σ μ} {log : List Event}

/-- Where a record comes from, after a call. -/
theorem exec_stored {op : Op} {k : DeploymentKey} {n : Name} {wl : Workload}
    (h : (exec e op w).2.view.workload k n = some wl)
    (hstored : ∀ k n wl, w.view.workload k n = some wl → Signed log k wl)
    (hop : op.Fits log) : Signed log k wl := by
  have hbrings : ∀ wl', op.Brings k wl' → Signed log k wl' := by
    intro wl' hbrings
    cases op with
    | storageCreate dl => exact hbrings.1 ▸ hop wl' hbrings.2
    | storageAdd key wl =>
        obtain ⟨rfl, rfl⟩ := hbrings
        exact hop
    | _ => cases hbrings
  rcases exec_record h with hold | ⟨rfl, _⟩ | ⟨wl', _, rfl, _, _, hold | hnew⟩
  · exact hstored k n wl hold
  · exact hop
  · exact (hstored k n wl' hold).of_definition rfl
  · exact (hbrings wl' hnew).of_definition rfl

/-- What is read is what is stored, and a verification is in the log. -/
theorem exec_shows (hstored : ∀ k n wl, w.view.workload k n = some wl → Signed log k wl)
    (who : Who) (op : Op) :
    op.Shows (⟨who, op, (exec e op w).1⟩ :: log) (exec e op w).1 := by
  have hgrow : log ⊆ ⟨who, op, (exec e op w).1⟩ :: log := List.subset_cons_self _ _
  have hhere : (⟨who, op, (exec e op w).1⟩ : Event) ∈ ⟨who, op, (exec e op w).1⟩ :: log :=
    List.mem_cons_self
  generalize hlog : (⟨who, op, (exec e op w).1⟩ : Event) :: log = log' at hgrow hhere ⊢
  cases op with
  | storageGet key =>
      cases h : (exec e (.storageGet key) w).1 with
      | error err => trivial
      | ok dl =>
          intro wl hwl
          obtain ⟨_, _, _, hworkloads⟩ := Storage.get_ok h
          exact (hstored key wl.name wl ((hworkloads wl).mp hwl)).grow hgrow
  | storageCurrent key n =>
      cases h : (exec e (.storageCurrent key n) w).1 with
      | error err => trivial
      | ok wl => exact (hstored key n wl (Storage.current_ok h)).grow hgrow
  | verify dl =>
      cases h : (exec e (.verify dl) w).1 with
      | none => exact ⟨who, h ▸ hhere⟩
      | some err => trivial
  | isTwinVerified twin =>
      cases h : (exec e (.isTwinVerified twin) w).1 with
      | error err => trivial
      | ok yes =>
          cases yes with
          | false => trivial
          | true => exact ⟨who, h ▸ hhere⟩
  | _ => trivial

/-- A call that fits leaves everything signed. -/
theorem AllSigned.call (h : AllSigned w log) {op : Op} (hop : op.Fits log) (who : Who) :
    AllSigned (exec e op w).2 (⟨who, op, (exec e op w).1⟩ :: log) := by
  have hgrow : log ⊆ ⟨who, op, (exec e op w).1⟩ :: log := List.subset_cons_self _ _
  refine ⟨fun k n wl hwl => (exec_stored hwl h.stored hop).grow hgrow, ?_⟩
  intro job hjob wl hwl
  rcases mem_exec_queue hjob with hqueued | rfl
  · exact (h.queued job hqueued wl hwl).grow hgrow
  · exact (hop wl hwl).grow hgrow

/-! ## The programs -/

theorem Op.fits_of_on {wl : WorkloadWithID} (h : Signed log wl.id.key wl.workload)
    {op : Op} (hop : op.on wl) : op.Fits log := by
  cases op with
  | storageAdd key w =>
      obtain ⟨rfl, rfl⟩ := hop
      exact h
  | storageTransaction key w =>
      obtain ⟨rfl, result, rfl⟩ := hop
      exact h.of_definition rfl
  | provision wl' | deprovision wl' | pause wl' | resume wl' | update wl' =>
      cases hop
      exact h
  | storageCreate dl => exact hop.elim
  | enqueue job => exact hop.elim
  | _ => trivial

theorem retry_knows {Q : Option GoError → List Event → Prop} {op : EngineM (Option GoError)}
    (hop : ∀ later, log ⊆ later → op.Knows verified.growth Q later) (n : Nat) :
    (retry n op).Knows verified.growth Q log := by
  induction n generalizing log with
  | zero => exact hop log (List.Subset.refl log)
  | succ n ih =>
      refine (hop log (List.Subset.refl log)).bind fun err later hle hQ => ?_
      cases err with
      | none => exact hQ
      | some err => exact ih fun latest hle' => hop latest (List.Subset.trans hle hle')

/-- A twin found verified is in the log. -/
theorem checkVerified_knows (twin : TwinID) :
    (checkVerified twin).Knows verified.growth (fun err now => err = none →
      ∃ who, (⟨who, .isTwinVerified twin, .ok true⟩ : Event) ∈ now) log := by
  refine knows_perform_bind trivial fun ans later _ hans => ?_
  cases ans with
  | error err => exact fun h => absurd h (Option.some_ne_none _)
  | ok yes =>
      cases yes with
      | false => exact fun h => absurd h (Option.some_ne_none _)
      | true => exact fun _ => hans.2

theorem provision_founded {dl : Deployment} (h : Vouched log dl) :
    verified.Founded (provision dl) log := by
  have hsigned : ∀ wl ∈ dl.workloads, Signed log dl.key wl :=
    fun wl hwl => ⟨dl, h, rfl, wl, hwl, rfl⟩
  rw [provision]
  split
  · trivial
  · refine knows_perform_bind hsigned fun err later hle _ => ?_
    cases err with
    | some err => trivial
    | none =>
        refine knows_perform (fun wl hwl => ?_) fun _ _ _ _ => trivial
        exact (hsigned wl hwl).grow hle

theorem update_founded {dl : Deployment} (h : Vouched log dl) :
    verified.Founded (update e dl) log := by
  refine knows_perform_bind trivial fun ans later hle hans => ?_
  cases ans with
  | error err => trivial
  | ok current =>
      dsimp only
      split
      · trivial
      · split
        · trivial
        · refine knows_perform_bind trivial fun err latest hle' _ => ?_
          cases err with
          | some err => trivial
          | none =>
              -- the job carries what was sent and what was read
              refine knows_perform (fun wl hwl => ?_) fun _ _ _ _ => trivial
              rcases List.mem_append.mp hwl with hwl | hwl
              · have hsigned : Signed log dl.key wl := ⟨dl, h, rfl, wl, hwl, rfl⟩
                exact hsigned.grow (List.Subset.trans hle hle')
              · exact (hans.2 wl hwl).grow hle'

theorem createOrUpdate_founded (twin : TwinID) (dl : Deployment) (isUpdate : Bool) :
    verified.Founded (createOrUpdate e twin dl isUpdate) log := by
  rw [createOrUpdate]
  split
  · trivial
  · split
    · trivial
    · next htwin =>
        rw [not_not] at htwin
        refine (retry_knows (fun _ _ => checkVerified_knows twin) 5).bind ?_
        intro err known _ hknown
        cases err with
        | some err => trivial
        | none =>
            refine knows_perform_bind trivial fun ans later hle hans => ?_
            cases ans with
            | some err => trivial
            | none =>
                obtain ⟨who, hverified⟩ := hknown rfl
                have hvouched : Vouched later dl :=
                  ⟨hans.2, who, htwin ▸ hle hverified⟩
                dsimp only
                split
                · exact update_founded hvouched
                · exact provision_founded hvouched

theorem schedule_founded {key : DeploymentKey} {job : Deployment → EngineJob}
    (hcarried : ∀ dl, (job dl).carried = dl.workloads ∧ (job dl).target = dl) :
    verified.Founded (schedule key job) log := by
  refine knows_perform_bind trivial fun ans later _ hans => ?_
  cases ans with
  | error err => trivial
  | ok dl =>
      refine knows_perform (fun wl hwl => ?_) fun _ _ _ _ => trivial
      rw [(hcarried dl).1] at hwl
      rw [(hcarried dl).2, hans.1.1]
      exact hans.2 wl hwl

theorem decommissionCached_founded (id : WorkloadID) (reason : String) :
    verified.Founded (decommissionCached id reason) log := by
  refine knows_perform_bind trivial fun ans later _ hans => ?_
  cases ans with
  | error err => trivial
  | ok wl =>
      dsimp only
      split
      · trivial
      · have hread : Signed later id.key wl := hans.2
        exact Audit.Founded.of_makes (uninstallWorkload_makes ⟨wl, id⟩ _)
          fun op hop => Op.fits_of_on hread hop.1

/-- A request comes through the API: `Provision` and `Update` are called by
`CreateOrUpdate` alone. -/
def Request.ThroughApi : Request → Prop
  | .provision _ | .update _ => False
  | _ => True

theorem invoke_founded {req : Request} (h : req.ThroughApi) :
    verified.Founded (invoke e req) log := by
  refine knows_perform_bind trivial fun _ later _ _ => ?_
  cases req with
  | provision dl => exact h.elim
  | update dl => exact h.elim
  | pause twin id | resume twin id | deprovision twin id reason =>
      exact schedule_founded fun _ => ⟨rfl, rfl⟩
  | createOrUpdate twin dl isUpdate => exact createOrUpdate_founded twin dl isUpdate
  | decommissionCached id reason => exact decommissionCached_founded id reason

theorem sync_founded [GoRuntime] (r : ContractEventHandler μ) :
    verified.Founded (sync r) log := by
  refine Audit.Founded.sync r (fun op hop => ?_) fun req hreq => invoke_founded ?_
  · cases op with
    | enqueue job => cases hop
    | storageCreate _ | storageAdd _ _ | storageTransaction _ _ | provision _
    | deprovision _ | pause _ | resume _ | update _ => cases hop
    | _ => trivial
  · cases req with
    | provision dl => cases hreq
    | update dl => cases hreq
    | _ => trivial

/-- A start queues what it has just read. -/
theorem Boots.founded {α : Type} {fresh : Option Deployment} {p : EngineM α}
    (h : Boots fresh p)
    (hfresh : ∀ dl, fresh = some dl → ∀ wl ∈ dl.workloads, Signed log dl.key wl) :
    verified.Founded p log := by
  induction p generalizing fresh log with
  | ret a => trivial
  | call op k ih =>
      obtain ⟨⟨hop, hjobs⟩, hk⟩ := h
      refine ⟨?_, fun r later _ hr => ih r (hk r hr.1) fun dl hread => ?_⟩
      · cases op with
        | enqueue job =>
            obtain ⟨dl, hdl, rfl⟩ := hjobs job (List.mem_singleton_self job)
            exact hfresh dl hdl
        | storageCreate dl => cases hop
        | storageAdd key wl => cases hop
        | storageTransaction key wl => cases hop
        | provision wl | deprovision wl | pause wl | resume wl | update wl => cases hop
        | _ => trivial
      · cases op with
        | storageGet key =>
            cases r with
            | error err => cases hread
            | ok dl' =>
                cases hread
                exact hr.1.1 ▸ hr.2
        | _ => cases hread

/-- The operations of an upgrade are about what the two deployments hold. -/
def UpgradeListsOwn : Prop :=
  ∀ source target ops, Zosbase.upgrade source target = .ok ops → ∀ op ∈ ops,
    op.wlID.id.key = target.key ∧
      op.wlID.workload ∈ target.workloads ++ source.workloads

section

variable [GoRuntime]

/-- A job works on what it carries. -/
theorem EngineJob.carried_of_items (hown : UpgradeListsOwn) {job : EngineJob}
    {wl : WorkloadWithID} (hwl : wl ∈ job.items e) :
    wl.id.key = job.target.key ∧ wl.workload ∈ job.carried := by
  cases job with
  | opProvision target | opProvisionNoValidation target =>
      obtain ⟨w, hw, _, rfl⟩ := mem_installOrder.mp hwl
      exact ⟨rfl, hw⟩
  | opDeprovision target message | opPause target | opResume target =>
      obtain ⟨w, hw, _, rfl⟩ := mem_inOrder.mp hwl
      exact ⟨rfl, hw⟩
  | opUpdate target source =>
      rw [EngineJob.items] at hwl
      split at hwl
      · cases hwl
      · next ops hup =>
          obtain ⟨op, hop, rfl⟩ := List.mem_map.mp hwl
          exact hown source target ops hup op
            ((List.perm_insertionSort _ ops).mem_iff.mp hop)

theorem processJob_founded (hown : UpgradeListsOwn) {job : EngineJob}
    (h : ∀ wl ∈ job.carried, Signed log job.target.key wl) :
    verified.Founded (processJob e job) log := by
  refine Audit.Founded.of_makes (processJob_makes job) fun op hop => ?_
  cases hop with
  | work hwl hop =>
      obtain ⟨hkey, hcarried⟩ := EngineJob.carried_of_items hown hwl
      exact Op.fits_of_on (hkey ▸ h _ hcarried) hop
  | _ => trivial

/-! ## Over a run -/

/-- Requests come through the API. -/
def ThroughApi (_ : Sys σ μ) : Action μ → Prop
  | .spawn (.request req) => req.ThroughApi
  | _ => True

variable {r : ContractEventHandler μ}

theorem verified_sound (hown : UpgradeListsOwn) :
    verified.Sound r (AllSigned (σ := σ)) ThroughApi where
  call h hop who := ⟨h.call hop who, exec_shows h.stored who _⟩
  outside h hstore hqueue := by
    refine ⟨fun k n wl hwl => h.stored k n wl ?_, fun job hjob => h.queued job (hqueue hjob)⟩
    rw [World.view, ← hstore]
    exact hwl
  routine := by
    intro s routine hok
    cases routine with
    | request req => exact invoke_founded hok
    | sync => exact sync_founded r
  job h hjob := processJob_founded hown (h.queued _ hjob)
  startup := (startup_boots _).founded fun dl hdl => absurd hdl.symm (Option.some_ne_none dl)

theorem Run.signed (hown : UpgradeListsOwn) {s₀ s : Sys σ μ} (hfresh : s₀.Fresh)
    (hempty : ∀ k n, s₀.world.view.workload k n = none) (hrun : Run r ThroughApi s₀ s) :
    verified.Holds AllSigned s := by
  refine (verified_sound hown).run hrun (.of_fresh hfresh ⟨fun k n wl hwl => ?_, ?_⟩)
  · rw [hempty] at hwl
    cases hwl
  · rw [hfresh.queue]
    exact List.forall_mem_nil _

/-- The workload a manager is asked about. -/
def Op.managed : Op → Option WorkloadWithID
  | .provision wl | .deprovision wl | .pause wl | .resume wl | .update wl => some wl
  | _ => none

/-- However requests, the contract syncs, the worker, restarts and reboots interleave, a
manager is asked only about workloads that a verified twin had signed, for that twin and
that contract, before it is asked; and the node records no others. -/
theorem deploys_signed (hown : UpgradeListsOwn) {s₀ s : Sys σ μ} (hfresh : s₀.Fresh)
    (hempty : ∀ k n, s₀.world.view.workload k n = none) (hrun : Run r ThroughApi s₀ s) :
    (∀ ev before wl, ev :: before <:+ s.log → ev.op.managed = some wl →
      Signed before wl.id.key wl.workload) ∧
    ∀ k n wl, s.world.view.workload k n = some wl → Signed s.log k wl := by
  have h := hrun.signed hown hfresh hempty
  refine ⟨fun ev before wl hsuffix hwl => ?_, h.world.stored⟩
  have hfits : ev.op.Fits before := h.calls ev before hsuffix
  generalize ev.op = op at hfits hwl
  cases op with
  | provision wl' | deprovision wl' | pause wl' | resume wl' | update wl' =>
      cases hwl
      exact hfits
  | _ => cases hwl

end

end

/-! ## A deployment before and after a reboot -/

namespace SignedDeployment

open Reference

theorem upgrade_lists_own : UpgradeListsOwn := by
  intro source target ops h op hop
  change Reference.upgrade source target = .ok ops at h
  rw [Reference.upgrade] at h
  split at h
  · cases h
  · split at h
    · cases h
    · next hkey =>
        rw [not_not] at hkey
        split at h
        · cases h
        · obtain rfl := Except.ok.inj h
          have hmem : ∀ {dl : Deployment} {p : Workload → Bool} {wl : Workload},
              wl ∈ dl.workloads.filter p → wl ∈ dl.workloads :=
            fun hwl => (List.mem_filter.mp hwl).1
          simp only [removed, added, changed, List.mem_append, List.mem_map] at hop
          rcases hop with (⟨wl, hwl, rfl⟩ | ⟨wl, hwl, rfl⟩) | ⟨wl, hwl, rfl⟩
          · exact ⟨hkey.symm, List.mem_append_right _ (hmem hwl)⟩
          · exact ⟨rfl, List.mem_append_left _ (hmem hwl)⟩
          · exact ⟨rfl, List.mem_append_left _ (hmem hwl)⟩

def sent : Deployment :=
  deployment 0 1 [⟨0, "a", .zlogs, "d", "", "", Result.initial 0⟩]

def start : Sys MapStore Unit :=
  idle (world (store []) [] [] ⟨[(2, contract sent)], []⟩)

def onNode : Action Unit → Bool
  | .spawn (.request (.createOrUpdate _ _ _)) | .routine _ | .take | .work
  | .reboot _ => true
  | _ => false

/-- The deployment is sent and provisioned; the node reboots and provisions it again. -/
def rebooted : Sys MapStore Unit :=
  (start.follow handler (fun _ a => onNode a)
    (.spawn (.request (.createOrUpdate 1 sent false)) ::
      List.replicate 5 (.routine 0) ++ .take :: List.replicate 6 .work ++
      .reboot () :: List.replicate 4 .work ++ .take :: List.replicate 6 .work)).get
    (by decide +kernel)

theorem through_api {s : Sys MapStore Unit} {a : Action Unit} (h : onNode a = true) :
    ThroughApi s a := by
  cases a with
  | spawn routine =>
      cases routine with
      | sync => trivial
      | request req =>
          cases req with
          | provision dl => cases h
          | update dl => cases h
          | _ => trivial
  | _ => trivial

end SignedDeployment

theorem deploys_signed_rebooted :
    (SignedDeployment.rebooted.log.filter fun ev => ev.op.managed.isSome).length = 2 ∧
    (∀ ev before wl, ev :: before <:+ SignedDeployment.rebooted.log →
      ev.op.managed = some wl → Signed before wl.id.key wl.workload) ∧
    ∀ k n wl, SignedDeployment.rebooted.world.view.workload k n = some wl →
      Signed SignedDeployment.rebooted.log k wl :=
  ⟨by decide +kernel, deploys_signed SignedDeployment.upgrade_lists_own
    (Reference.idle_fresh rfl) (fun _ _ => rfl)
    (Run.of_follow (fun _ _ => SignedDeployment.through_api) _ (Option.some_get _).symm)⟩

end Zos4.Provision
