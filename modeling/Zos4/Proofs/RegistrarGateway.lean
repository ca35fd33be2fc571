import Zos4.Provision.Reference
import Zos4.Provision.Worker

/-!
# The engine on the registrar gateway

Where the gateway once asked a chain about contracts it now answers with the zero value
of what it returns, and without an error: a contract that is no node contract, and a node
without contracts. The worker believes it. Every job that would bring a workload about is
refused when its contract is validated, so that a node on this gateway can only take
workloads down, whatever is asked of it (`nothing_provisioned`).
-/

namespace Zos4.Provision

open Zos4.Interaction Prog

section

variable [Zosbase] {σ μ : Type} [Storage σ] [GoRuntime] {e : NativeEngine μ}
  {r : ContractEventHandler μ}

/-- The zero of `substrate.Contract`. -/
def Contract.zero (deploymentHash : Zosbase.Hash) : Contract where
  twinID := 0
  isNodeContract := false
  node := 0
  deploymentHash := deploymentHash
  isGracePeriod := false

/-- The methods of `registrar_gateway.go` that the engine and the sync call. What the
twins are asked for is not among them. -/
structure Gateway.OfRegistrar (g : Gateway) : Prop where
  getContract : ∃ hash, ∀ id, g.getContract id = .ok (.zero hash)
  getNodeRentContract : ∀ node, g.getNodeRentContract node = .ok 0
  getNodeContracts : ∀ node, g.getNodeContracts node = .ok []

/-- The calls by which a workload comes about or becomes another. -/
def Op.builds : Op → Bool
  | .provision _ | .update _ => true
  | _ => false

/-! ## The calls of each side -/

omit [Zosbase] [GoRuntime] in
theorem Op.builds_of_removal {op : Op} (h : op.isRemoval = true) : op.builds = false := by
  cases op <;> first | rfl | cases h

theorem routine_builds_nothing (routine : Routine) :
    Makes (routine.prog r) fun op => op.builds = false := by
  cases hq : routine.queued with
  | true =>
      refine within_mono (routine_makes hq) fun op hop => ?_
      obtain ⟨req, _, hcalls⟩ := hop
      have hapi := hcalls.api
      cases op <;> first | rfl | cases hapi
  | false =>
      refine within_mono (routine_removes hq) fun op hop => ?_
      rcases hop with ⟨req, rfl⟩ | ⟨wl, _, hremoval⟩
      · rfl
      · exact Op.builds_of_removal hremoval

omit [GoRuntime] in
theorem startup_builds_nothing : Makes (startup e) fun op => op.builds = false :=
  within_mono startup_makes fun op hop => by cases op <;> first | rfl | cases hop

theorem body_builds_nothing {job : EngineJob} (h : job.validation = none) :
    Makes (runJob e job) fun op => op.builds = false := by
  have hfinish : ∀ dl delete, Makes (finishJob e dl delete) fun op => op.builds = false :=
    fun dl delete => within_mono (finishJob_makes dl delete) fun op hop => by
      rcases hop with rfl | rfl <;> rfl
  have hlock : ∀ (wls : List WorkloadWithID) (lock : Bool),
      Makes (wls.forM fun wl => logged (lockWorkload wl lock)) fun op => op.builds = false := by
    intro wls lock
    refine within_forM fun wl _ => logged_makes (within_mono (lockWorkload_makes wl lock) ?_)
    intro op hop
    rcases hop with rfl | rfl | rfl | ⟨_, rfl⟩ <;> rfl
  cases job with
  | opProvision | opProvisionNoValidation | opUpdate => cases h
  | opDeprovision target message =>
      refine within_bind (within_mono (uninstallDeployment_makes target message) ?_)
        fun _ => hfinish target true
      intro op hop
      rcases hop with ⟨_, hremoval⟩ | rfl
      · exact Op.builds_of_removal hremoval
      · rfl
  | opPause target => exact within_bind (hlock _ true) fun _ => hfinish target false
  | opResume target => exact within_bind (hlock _ false) fun _ => hfinish target false

/-! ## Runs -/

/-- Nobody builds anything as long as the gateway is the registrar's. -/
def barren (r : ContractEventHandler μ) : Protocol r σ where
  inv w := w.gateway.OfRegistrar
  workerRely _ _ := True
  routineRely _ _ := True
  assume _ _ _ := True
  allow _ op _ := op.builds = false
  routineAllow op _ := op.builds = false
  post _ := True
  worker_refl _ := trivial
  worker_trans _ _ := trivial
  routine_refl _ := trivial
  routine_trans _ _ := trivial

omit [GoRuntime] in
/-- No contract passes, whichever question about it is the last. -/
theorem validate_fails (dl : Deployment) (noValidation : Bool) (job : Option EngineJob)
    (w : World σ μ) :
    (validate r.engine dl noValidation).Safe ((barren r).worker job)
      (fun ans _ => ans ≠ none) w := by
  rw [validate]
  split
  · exact fun _ _ _ => Option.some_ne_none _
  · refine safe_perform_bind.mpr fun w' _ hinv _ => ⟨rfl, ?_⟩
    obtain ⟨hash, hcontract⟩ := hinv.getContract
    rw [Protocol.worker_handle, exec_getContract]
    simp only [hcontract]
    exact fun _ _ _ => Option.some_ne_none _

theorem processJob_builds_nothing (job : EngineJob) (w : World σ μ) :
    (processJob r.engine job).Safe ((barren r).worker (some job)) (fun _ _ => True) w := by
  rw [processJob]
  split
  · next hval =>
      exact (body_builds_nothing hval).safe (fun op t => exec_possible op t) fun _ _ h _ => h
  · next noValidation hval =>
      refine (validate_fails job.target noValidation _ w).bind fun ans t _ hans => ?_
      cases ans with
      | none => exact absurd rfl hans
      | some err => exact fun _ _ _ _ => ⟨rfl, fun _ _ _ _ => ⟨rfl, fun _ _ _ => trivial⟩⟩

/-- Whatever else becomes of the outside, the gateway stays the registrar's. -/
def OnRegistrar (_ : Sys σ μ) : Action μ → Prop
  | .outside _ _ gateway => gateway.OfRegistrar
  | _ => True

omit [GoRuntime] in
theorem barren_start {rerunAll : Bool} {w : World σ μ} {log : List Event}
    (hinv : (barren r).inv (Sys.start r rerunAll w log).world) :
    (barren r).Holds (Sys.start r rerunAll w log) := by
  refine ⟨hinv, ?_, fun _ hp => nomatch hp⟩
  exact (startup_builds_nothing (e := { r.engine with rerunAll := rerunAll })).safe
    (fun op t => exec_possible (e := r.engine) op t) fun _ _ h _ => h

theorem barren_sound : (barren r : Protocol r σ).Sound OnRegistrar where
  spawn s routine _ _ :=
    (routine_builds_nothing routine).safe (fun op t => exec_possible op t) fun _ _ h _ => h
  routine op w hi _ := by
    refine ⟨?_, trivial, trivial⟩
    show (exec r.engine op w).2.gateway.OfRegistrar
    rw [(exec_outside w op).2.1]
    exact hi
  assume _ _ _ _ _ _ := trivial
  work job op w hi _ _ := by
    refine ⟨?_, trivial⟩
    show (exec r.engine op w).2.gateway.OfRegistrar
    rw [(exec_outside w op).2.1]
    exact hi
  take s job _ _ _ _ := processJob_builds_nothing job s.world
  outside _ _ _ _ _ hok := ⟨hok, trivial, trivial⟩
  restart s hholds _ := ⟨hholds.inv, fun _ _ _ => trivial, fun _ hp => nomatch hp⟩
  clear s rerunAll hholds _ := by
    refine barren_start ?_
    rw [Sys.start_cleared]
    exact hholds.inv
  reboot s rest hholds _ := barren_start hholds.inv

/-- What has been so over a run. -/
structure Barren (r : ContractEventHandler μ) (s₀ s : Sys σ μ) : Prop where
  holds : (barren r : Protocol r σ).Holds s
  log : ∀ ev ∈ s.log, ev.op.builds = false
  installed : ∀ id, s.world.node.installed id = true → s₀.world.node.installed id = true

omit [GoRuntime] in
/-- A call that builds nothing installs nothing. -/
theorem Barren.call {s₀ s s' : Sys σ μ} (h : Barren r s₀ s) {op : Op}
    {who : Who} {ret : op.Ret} (hop : op.builds = false)
    (hholds : (barren r : Protocol r σ).Holds s')
    (hworld : s'.world = (exec r.engine op s.world).2)
    (hlog : s'.log = ⟨who, op, ret⟩ :: s.log) : Barren r s₀ s' := by
  refine ⟨hholds, ?_, fun id hid => ?_⟩
  · rw [hlog]
    exact List.forall_mem_cons.mpr ⟨hop, h.log⟩
  · rw [hworld] at hid
    rcases exec_installed_of hid with hbefore | ⟨wl, rfl, _⟩
    · exact h.installed id hbefore
    · cases hop

theorem Barren.step {s₀ s s' : Sys σ μ} {a : Action μ} (h : Barren r s₀ s)
    (hok : OnRegistrar s a) (hs : s.step r a = some s') : Barren r s₀ s' := by
  have hholds := barren_sound.step h.holds hok hs
  cases a with
  | spawn routine =>
      obtain rfl := step_spawn hs
      exact ⟨hholds, h.log, h.installed⟩
  | routine i =>
      obtain ⟨op, k, hi, rfl⟩ := step_routine hs
      exact h.call (h.holds.routine_allowed hi) hholds rfl rfl
  | take =>
      obtain ⟨_, _, _, _, rfl⟩ := step_take hs
      exact ⟨hholds, h.log, h.installed⟩
  | work =>
      obtain ⟨op, k, hw, rfl⟩ := step_work hs
      exact h.call (h.holds.allowed hw trivial) hholds rfl rfl
  | outside clock chain gateway =>
      obtain rfl := step_outside hs
      exact ⟨hholds, h.log, h.installed⟩
  | restart =>
      obtain rfl := step_restart hs
      exact ⟨hholds, h.log, h.installed⟩
  | clear rerunAll =>
      obtain rfl := step_clear hs
      refine ⟨hholds, h.log, fun id hid => h.installed id ?_⟩
      rw [Sys.start_cleared] at hid
      exact hid
  | reboot rest =>
      obtain rfl := step_reboot hs
      exact ⟨hholds, h.log, fun _ hid => nomatch hid⟩

/-- On the registrar gateway no workload is ever provisioned or updated, by anyone: what is
installed was so from the start. -/
theorem nothing_provisioned {s₀ s : Sys σ μ} (hfresh : s₀.Fresh)
    (hgateway : s₀.world.gateway.OfRegistrar) (hrun : Run r OnRegistrar s₀ s) :
    (∀ ev ∈ s.log, ev.op.builds = false) ∧
      ∀ id, s.world.node.installed id = true → s₀.world.node.installed id = true := by
  have hstart : Barren r s₀ s₀ := by
    refine ⟨hfresh.holds hgateway fun _ _ => trivial, ?_, fun _ hid => hid⟩
    rw [hfresh.log]
    exact List.forall_mem_nil _
  have h := hrun.invariant (fun _ _ _ h hok hs => Barren.step h hok hs) hstart
  exact ⟨h.log, h.installed⟩

end

namespace Unasked

open Reference

def dl : Deployment := deployment 0 1 [workload 0 "a" "d"]

/-- A contract waits for the deployment, and the gateway does not ask. -/
def start : Sys MapStore Unit :=
  idle { world (store []) [] [] ⟨[(2, contract dl)], []⟩ with
    gateway :=
      { getContract := fun _ => .ok (.zero dl)
        getNodeRentContract := fun _ => .ok 0
        getNodeContracts := fun _ => .ok []
        verify := fun _ => none
        isTwinVerified := fun _ => .ok true } }

def undisturbed (_ : Sys MapStore Unit) : Action Unit → Bool
  | .outside _ _ _ => false
  | _ => true

theorem undisturbed_onRegistrar (s : Sys MapStore Unit) (a : Action Unit)
    (h : undisturbed s a = true) : OnRegistrar s a := by
  cases a with
  | outside => cases h
  | _ => trivial

/-- The deployment has been created, and the worker has come to its job. -/
def refused : Sys MapStore Unit :=
  (start.follow handler undisturbed
    (.spawn (.request (.provision dl)) :: List.replicate 3 (.routine 0) ++
      .take :: List.replicate 3 .work)).get (by decide +kernel)

end Unasked

open Unasked in
theorem nothing_provisioned_refused :
    (∀ ev ∈ refused.log, ev.op.builds = false) ∧
      ∀ id, refused.world.node.installed id = true → start.world.node.installed id = true :=
  nothing_provisioned (r := Reference.handler) (Reference.idle_fresh rfl)
    ⟨⟨_, fun _ => rfl⟩, fun _ => rfl, fun _ => rfl⟩
    (Run.of_follow undisturbed_onRegistrar _ (Option.some_get _).symm)

end Zos4.Provision
