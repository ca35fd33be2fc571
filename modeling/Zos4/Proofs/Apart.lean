import Zos4.Proofs.Replay

/-!
# Deployments apart

The worker goes through one queue for all deployments. Still, what becomes of a deployment
is a matter of its own slots, its own jobs and its own contract: a job leaves the slots of
other deployments alone (`effect_other`) and makes of each slot of its own something that
only depends on that slot (`effect_congr`), whether it is carried out or refused. So the
jobs of the others can be left out of the queue (`drain_effects`), and two nodes that agree
on a deployment come to agree on it again, whatever else they are asked for
(`deployments_apart`).
-/

namespace Zos4.Provision

open Zos4.Interaction Prog

section

variable [Zosbase] [GoRuntime] {σ μ : Type} [Storage σ] {e : NativeEngine μ} {m : Manner}
  {g g' : Gateway} {job : EngineJob} {x y : WorkloadID → Slot} {id : WorkloadID}

/-! ## What a job comes to -/

/-- What `validate` finds, given what the gateway answers. -/
def validation (e : NativeEngine μ) (g : Gateway) (dl : Deployment) (noValidation : Bool) :
    Option GoError :=
  if !e.registrarGateway then some (.text "substrate is not configured in engine")
  else
    match g.getContract dl.contractID, g.getNodeRentContract e.nodeID.toUInt32 with
    | .error subErr, _ => some (subErr.err.wrap "failed to get deployment contract")
    | .ok contract, rent =>
        if !contract.isNodeContract then
          some (.text "invalid contract type, expecting node contract")
        else
          match rent with
          | .error subErr =>
              if !subErr.isNotFound then some (.text "failed to check node rent state")
              else if noValidation then none else validateContract e dl contract
          | .ok _ => if noValidation then none else validateContract e dl contract

omit [GoRuntime] in
theorem run_validate (dl : Deployment) (noValidation : Bool) (w : World σ μ) :
    (validate e dl noValidation).run (exec e) w =
      (validation e w.gateway dl noValidation, w) := by
  rw [validate, validation]
  split
  · rfl
  · rw [run_bind, run_perform, exec_getContract]
    cases w.gateway.getContract dl.contractID with
    | error subErr => rfl
    | ok contract =>
        dsimp only
        split
        · rfl
        · rw [run_bind, run_perform, exec_getNodeRentContract]
          cases w.gateway.getNodeRentContract e.nodeID.toUInt32 with
          | error subErr => dsimp only; split <;> (try split) <;> rfl
          | ok rent => dsimp only; split <;> rfl

/-- Why a job is refused, if it is. -/
def EngineJob.refusal (e : NativeEngine μ) (g : Gateway) (job : EngineJob) :
    Option GoError :=
  match job.validation with
  | none => none
  | some noValidation => Provision.validation e g job.target noValidation

/-- The error of a refused job is recorded with every workload of its deployment. -/
def failedSlots (key : DeploymentKey) (err : GoError) (x : WorkloadID → Slot)
    (id : WorkloadID) : Slot :=
  if id.key = key then
    { x id with record := (x id).record.map (·.withResults (Result.failed 0 err.error)) }
  else x id

def EngineJob.effect (e : NativeEngine μ) (m : Manner) (g : Gateway) (job : EngineJob)
    (x : WorkloadID → Slot) : WorkloadID → Slot :=
  match job.refusal e g with
  | none => job.outcome e m x
  | some err => failedSlots job.target.key err x

omit [GoRuntime] in
theorem error_slots (key : DeploymentKey) (err : GoError) (w : World σ μ) :
    (exec e (.storageError key err) w).2.slots = failedSlots key err w.slots := by
  funext id
  rw [failedSlots]
  rcases (exec_storageError (e := e) (k := key) w err).cases with
    ⟨s, hv, hres, _⟩ | ⟨_, hres, hno⟩
  · rw [hres]
    by_cases hkey : id.key = key
    · subst hkey
      simp [World.slots, hv, StoreView.error_workload, Result.failed, untimedResult,
        Function.comp_def, untimed]
      rfl
    · simp [World.slots, hv, StoreView.error_workload, hkey]
  · rw [hres]
    by_cases hkey : id.key = key
    · subst hkey
      have hrecord : (w.slots id).record = none :=
        record_of_not_stored (by simp [World.slots, hno])
      rw [if_pos rfl, hrecord]
      exact Slot.ext rfl hrecord rfl
    · rw [if_neg hkey]

/-- Carried out or refused, a job makes of the slots what `effect` says. -/
theorem process_effect (hlaw : LawfulUpgrade) (hs : Steady e m) (hjob : Enqueued job)
    {w : World σ μ} {head : EngineJob} {jobs : List EngineJob} (hq : w.queue = head :: jobs) :
    (process e job w).slots = job.effect e m w.gateway w.slots := by
  rw [EngineJob.effect]
  cases hrefusal : job.refusal e w.gateway with
  | none =>
      refine process_slots hlaw hs hjob (fun noValidation hval w' hg => ?_) hq
      rw [EngineJob.refusal, hval] at hrefusal
      rw [run_validate, hg]
      exact hrefusal
  | some err =>
      rw [EngineJob.refusal] at hrefusal
      rw [process, processJob]
      cases hval : job.validation with
      | none =>
          rw [hval] at hrefusal
          cases hrefusal
      | some noValidation =>
          rw [hval] at hrefusal
          dsimp only at hrefusal ⊢
          rw [run_bind, run_validate, hrefusal]
          dsimp only
          rw [run_bind, run_perform, run_bind, run_perform, run_pure]
          refine Eq.trans (slots_of_eq ?_ ?_) (error_slots (e := e) job.target.key err w)
          · exact exec_view _ rfl
          · exact exec_installed _ rfl

/-- A job leaves the slots of other deployments alone. -/
theorem effect_other (hlaw : LawfulUpgrade) (hjob : Enqueued job)
    (hkey : id.key ≠ job.target.key) : job.effect e m g x id = x id := by
  have hsettled : job.settled e m x id = x id := by
    rw [EngineJob.settled, Interaction.settled]
    have hnone : (job.tasks e).find? (fun t => t.id = id) = none := by
      refine List.find?_eq_none.mpr fun t ht => ?_
      rw [decide_eq_true_iff]
      intro hid
      rw [← hid] at hkey
      exact hkey (tasks_named hlaw hjob ht).1
    rw [hnone]
  rw [EngineJob.effect]
  cases job.refusal e g with
  | none =>
      dsimp only
      rw [EngineJob.outcome]
      split
      · rw [wiped, if_neg hkey, hsettled]
      · exact hsettled
  | some err => exact if_neg hkey

/-- What a job makes of a slot depends on nothing but that slot. -/
theorem effect_congr (hrefusal : job.refusal e g = job.refusal e g') (h : x id = y id) :
    job.effect e m g x id = job.effect e m g' y id := by
  have hsettled : job.settled e m x id = job.settled e m y id := settled_congr h
  rw [EngineJob.effect, EngineJob.effect, ← hrefusal]
  cases job.refusal e g with
  | none =>
      dsimp only
      rw [EngineJob.outcome, EngineJob.outcome]
      split
      · rw [wiped, wiped, hsettled]
      · exact hsettled
  | some err =>
      dsimp only
      rw [failedSlots, failedSlots, h]

/-! ## A queue -/

/-- What jobs make of the slots one after another. -/
def effects (e : NativeEngine μ) (m : Manner) (g : Gateway) (jobs : List EngineJob)
    (x : WorkloadID → Slot) : WorkloadID → Slot :=
  jobs.foldl (fun x job => job.effect e m g x) x

theorem effects_congr {jobs : List EngineJob}
    (hrefusal : ∀ job ∈ jobs, job.refusal e g = job.refusal e g') (h : x id = y id) :
    effects e m g jobs x id = effects e m g' jobs y id := by
  induction jobs generalizing x y with
  | nil => exact h
  | cons job jobs ih =>
      exact ih (fun job hjob => hrefusal job (List.mem_cons_of_mem _ hjob))
        (effect_congr (hrefusal job List.mem_cons_self) h)

/-- The jobs of a deployment. -/
def jobsOf (key : DeploymentKey) (jobs : List EngineJob) : List EngineJob :=
  jobs.filter fun job => job.target.key = key

/-- The worker makes of a deployment what its own jobs make of it, the others left out. -/
theorem drain_effects (hlaw : LawfulUpgrade) (hs : Steady e m) {w : World σ μ}
    (hjobs : ∀ job ∈ w.queue, Enqueued job) (id : WorkloadID) :
    (drain e w).slots id = effects e m w.gateway (jobsOf id.key w.queue) w.slots id := by
  suffices hend : (drain e w).gateway = w.gateway ∧
      (∀ job ∈ ([] : List EngineJob), Enqueued job) ∧
      effects e m w.gateway (jobsOf id.key []) (drain e w).slots id =
        effects e m w.gateway (jobsOf id.key w.queue) w.slots id from hend.2.2
  refine drain_induction (I := fun jobs t => t.gateway = w.gateway ∧
    (∀ job ∈ jobs, Enqueued job) ∧
    effects e m w.gateway (jobsOf id.key jobs) t.slots id =
      effects e m w.gateway (jobsOf id.key w.queue) w.slots id) ?_ ⟨rfl, hjobs, rfl⟩
  intro job rest t hq h
  obtain ⟨hgateway, henqueued, hsame⟩ := h
  obtain ⟨hjob, hrest⟩ := List.forall_mem_cons.mp henqueued
  refine ⟨(run_outside _ t).2.1.trans hgateway, hrest, ?_⟩
  rw [process_effect hlaw hs hjob hq, hgateway, ← hsame]
  by_cases hkey : job.target.key = id.key
  · rw [jobsOf, jobsOf, List.filter_cons_of_pos (by simpa using hkey)]
    rfl
  · rw [jobsOf, jobsOf, List.filter_cons_of_neg (by simpa using hkey)]
    exact effects_congr (fun _ _ => rfl) (effect_other hlaw hjob (Ne.symm hkey))

omit [GoRuntime] in
/-- A job is judged by its own contract. -/
theorem refusal_congr
    (hcontract : g.getContract job.target.contractID = g'.getContract job.target.contractID)
    (hrent : g.getNodeRentContract e.nodeID.toUInt32 =
      g'.getNodeRentContract e.nodeID.toUInt32) :
    job.refusal e g = job.refusal e g' := by
  rw [EngineJob.refusal, EngineJob.refusal]
  split
  · rfl
  · rw [Provision.validation, Provision.validation, hcontract, hrent]

/-- All there is to the deployment's workloads is the same, up to time. -/
def AgreeOn (key : DeploymentKey) (w w' : World σ μ) : Prop :=
  ∀ id : WorkloadID, id.key = key → w.slots id = w'.slots id

variable {r : ContractEventHandler μ}

/-- Two nodes that agree on a deployment, its jobs and its contract agree on it again when
their workers are through, whatever they have to do for other deployments. -/
theorem deployments_apart (hlaw : LawfulUpgrade) (hs : Steady r.engine m)
    {s s' t t' : Sys σ μ} {k : DeploymentKey} (hidle : s.Idle) (hidle' : t.Idle)
    (hjobs : ∀ job ∈ s.world.queue, Enqueued job)
    (hjobs' : ∀ job ∈ t.world.queue, Enqueued job)
    (hslots : AgreeOn k s.world t.world)
    (hqueue : jobsOf k s.world.queue = jobsOf k t.world.queue)
    (hcontract : s.world.gateway.getContract k.contract =
      t.world.gateway.getContract k.contract)
    (hrent : ∀ node, s.world.gateway.getNodeRentContract node =
      t.world.gateway.getNodeRentContract node)
    (hrun : Run r (fun _ a => a.ofWorker) s s') (hdrained : s'.Drained)
    (hrun' : Run r (fun _ a => a.ofWorker) t t') (hdrained' : t'.Drained) :
    AgreeOn k s'.world t'.world := by
  intro id hid
  rw [hrun.completed hdrained, hrun'.completed hdrained', Sys.completed_of_idle hidle,
    Sys.completed_of_idle hidle', drain_effects hlaw hs hjobs, drain_effects hlaw hs hjobs',
    hid, hqueue]
  refine effects_congr (fun job hjob => refusal_congr ?_ (hrent _)) (hslots id hid)
  have hkey : job.target.key = k := by simpa using (List.mem_filter.mp hjob).2
  have hcontractID : job.target.contractID = k.contract := congrArg DeploymentKey.contract hkey
  rw [hcontractID]
  exact hcontract

end

namespace TwoQueues

open Reference InterruptedJob

/-- A job of another deployment. -/
def other : EngineJob := .opProvisionNoValidation { target with contractID := 3 }

def ofWorker (_ : Sys MapStore Unit) : Action Unit → Bool
  | .take | .work => true
  | _ => false

theorem ofWorker_ofWorker (s : Sys MapStore Unit) (a : Action Unit)
    (h : ofWorker s a = true) : a.ofWorker := by
  cases a with
  | take => trivial
  | work => trivial
  | _ => cases h

/-- The other deployment's job comes first, and is refused. -/
def shared : Sys MapStore Unit := idle { pending with queue := [other, job] }

def sharedDone : Sys MapStore Unit :=
  (shared.follow handler ofWorker (.take :: List.replicate 3 .work ++
    .take :: List.replicate 6 .work)).get (by decide +kernel)

def alone : Sys MapStore Unit := idle pending

def aloneDone : Sys MapStore Unit :=
  (alone.follow handler ofWorker (.take :: List.replicate 6 .work)).get (by decide +kernel)

end TwoQueues

open TwoQueues in
theorem deployments_apart_two_queues :
    AgreeOn ⟨1, 2⟩ sharedDone.world aloneDone.world := by
  have hjob : Enqueued InterruptedJob.job := .inl ⟨.provision InterruptedJob.target, rfl, rfl⟩
  have hshared : ∀ job ∈ shared.world.queue, Enqueued job :=
    List.forall_mem_cons.mpr ⟨.inr ⟨_, rfl⟩, List.forall_mem_singleton.mpr hjob⟩
  have halone : ∀ job ∈ alone.world.queue, Enqueued job := List.forall_mem_singleton.mpr hjob
  have hrun : Run Reference.handler (fun _ a => a.ofWorker) shared sharedDone :=
    Run.of_follow ofWorker_ofWorker _ (Option.some_get _).symm
  have hrun' : Run Reference.handler (fun _ a => a.ofWorker) alone aloneDone :=
    Run.of_follow ofWorker_ofWorker _ (Option.some_get _).symm
  exact deployments_apart Reference.lawful_upgrade InterruptedJob.steady ⟨(), rfl⟩ ⟨(), rfl⟩
    hshared halone (fun _ _ => rfl) (by decide +kernel) rfl (fun _ => rfl)
    hrun ⟨Sys.idle_of_isIdle (by decide +kernel), by decide +kernel⟩
    hrun' ⟨Sys.idle_of_isIdle (by decide +kernel), by decide +kernel⟩

end Zos4.Provision
