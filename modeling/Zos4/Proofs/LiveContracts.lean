import Zos4.Provision.Passes
import Zos4.Provision.Reference

/-!
# The contract sync and live contracts

`sync` reads the deployments in use first and the contracts of the node after
that. Contracts are created all the time, but a deployment in use has one that
existed before the first read, so a live one is on the list of the second. What
is not on the list has ended, and stays ended however long the sync takes to
get to it.

The argument needs the contract of every deployment in use to be one of this
node's. A job is turned away for a contract of another node only while its
`noValidation` is not set. After a reboot it is, and the deployment that is
provisioned again may never have been validated: `boot` goes by the recorded
states, and `init` is an active one. So for the jobs of a reboot it is assumed.
-/

namespace Zos4.Provision

open Zos4.Interaction Prog

section

variable [Zosbase] {σ μ : Type} [Storage σ] {r : ContractEventHandler μ}

/-- The contract is the node's own, assumed of the jobs of a reboot. -/
def onOwnNode (node : UInt32) : Admission where
  good c k := c.OnNode node k.contract
  assumed job := ∃ target, job = .opProvisionNoValidation target
  truth c g := g.Truthful c
  stable := Chain.OnNode.evolve

instance (node : UInt32) (job : EngineJob) :
    Decidable ((onOwnNode node).assumed job) :=
  match job with
  | .opProvisionNoValidation target => isTrue ⟨target, rfl⟩
  | .opProvision _ | .opDeprovision _ _ | .opUpdate _ _ | .opPause _
  | .opResume _ => isFalse fun ⟨_, h⟩ => nomatch h

instance (node : UInt32) (c : Chain) (k : DeploymentKey) :
    Decidable ((onOwnNode node).good c k) :=
  inferInstanceAs (Decidable (c.OnNode node k.contract))

/-- A job that is validated in full has a contract of this node. -/
theorem validate_onNode (dl : Deployment) (job : Option EngineJob)
    (w : World σ μ) :
    (validate r.engine dl false).Safe
      (((onOwnNode r.engine.nodeID.toUInt32).protocol r).worker job)
      (fun ans t => ans = none →
        t.chain.OnNode r.engine.nodeID.toUInt32 dl.contractID) w := by
  have hrefused : ∀ (err : GoError) (t : World σ μ),
      (pure (some err) : EngineM _).Safe
        (((onOwnNode r.engine.nodeID.toUInt32).protocol r).worker job)
        (fun ans t => ans = none →
          t.chain.OnNode r.engine.nodeID.toUInt32 dl.contractID) t :=
    fun _ _ _ _ _ h => by cases h
  rw [validate]
  split
  · exact hrefused _ _
  · rw [safe_perform_bind]
    intro t _ hi _
    refine ⟨⟨Admission.allows_of_idle (Op.isIdleWrite_of_ne (by simp)),
      List.forall_mem_nil _⟩, ?_⟩
    rw [Protocol.worker_handle, exec_getContract]
    cases hget : t.gateway.getContract dl.contractID with
    | error subErr => exact hrefused _ _
    | ok contract =>
        have hid := (hi.truth.exists_of_ok _ _ hget).1
        dsimp only
        split
        · exact hrefused _ _
        · next hkind =>
            -- past the checks on the contract, its node is this one
            have hpassed : validateContract r.engine dl contract = none →
                t.chain.OnNode r.engine.nodeID.toUInt32 dl.contractID := by
              intro hnone
              rw [validateContract] at hnone
              split at hnone
              · cases hnone
              · next hnode =>
                  exact ⟨contract, hid, by simpa using hkind, not_not.mp hnode⟩
            rw [safe_perform_bind]
            intro t₁ ht₁ _ _
            refine ⟨⟨Admission.allows_of_idle (Op.isIdleWrite_of_ne (by simp)),
              List.forall_mem_nil _⟩, ?_⟩
            rw [Protocol.worker_handle, exec_getNodeRentContract]
            have hend : (pure (validateContract r.engine dl contract) :
                EngineM _).Safe
                (((onOwnNode r.engine.nodeID.toUInt32).protocol r).worker job)
                (fun ans t => ans = none →
                  t.chain.OnNode r.engine.nodeID.toUInt32 dl.contractID) t₁ :=
              fun t₂ ht₂ _ hnone =>
                ((hpassed hnone).evolve ht₁).evolve ht₂
            cases t₁.gateway.getNodeRentContract r.engine.nodeID.toUInt32 with
            | error subErr =>
                dsimp only
                split
                · exact hrefused _ _
                · rw [if_neg (by simp)]
                  exact hend
            | ok rent =>
                dsimp only
                rw [if_neg (by simp)]
                exact hend

theorem onOwnNode_vouches :
    (onOwnNode r.engine.nodeID.toUInt32).Vouches r σ := by
  intro job noValidation hval hassumed w
  have hfull : noValidation = false := by
    cases job with
    | opProvisionNoValidation target => exact absurd ⟨target, rfl⟩ hassumed
    | opProvision | opUpdate => exact (Option.some.inj hval).symm
    | opDeprovision | opPause | opResume => cases hval
  rw [hfull]
  exact validate_onNode job.target (some job) w

/-! ## A sync from its start to its end -/

variable [GoRuntime]

/-- `Deprovision` is entered for contracts that have ended. -/
def sparesLive (op : Op) (w : World σ μ) : Prop :=
  ∀ twin id reason, op = .invoke (.deprovision twin id reason) →
    w.chain.Ended id

omit [Storage σ] [GoRuntime] in
/-- Bringing a lock state in line removes nothing. -/
theorem syncRunning_makes (entry : ContractID × Deployment) :
    Makes (syncRunning r entry) fun op => ∀ twin id reason,
      ¬ op = Op.invoke (.deprovision twin id reason) := by
  have hlock : ∀ req : Request, req.queued = true →
      (∀ twin id reason, ¬ req = .deprovision twin id reason) →
      Makes (logged (invoke r.engine req)) fun op =>
        ∀ twin id reason, ¬ op = Op.invoke (.deprovision twin id reason) := by
    intro req hq hreq
    refine logged_makes (within_mono (invoke_makes hq) ?_)
    intro op hop twin id reason h
    exact hreq _ _ _ (hop.enters _ h).symm
  refine within_perform_bind (by simp) fun ans _ => ?_
  cases ans with
  | error err => trivial
  | ok contract =>
      dsimp only
      split
      · trivial
      · split
        · exact hlock (.pause _ _) rfl (by simp)
        · exact hlock (.resume _ _) rfl (by simp)

theorem sync_sparesLive (hnode : r.node = r.engine.nodeID) (w : World σ μ) :
    (sync r).Safe
      (((onOwnNode r.engine.nodeID.toUInt32).protocol r).watched sparesLive)
      (fun _ _ => True) w := by
  let node := r.engine.nodeID.toUInt32
  let D := ((onOwnNode node).protocol r : Protocol r σ).watched sparesLive
  have hcurrent : current.Safe D (fun ans t => ∀ active, ans = .ok active →
      ∀ entry ∈ active, t.chain.OnNode node entry.1) w := by
    rw [current, safe_perform_bind]
    intro t _ hi _
    refine ⟨fun _ _ _ h => (by cases h), ?_⟩
    rw [Protocol.watched_handle, exec_storageCapacity]
    cases hcap : Storage.capacity t.store with
    | error err => exact fun _ _ _ _ h => by cases h
    | ok deployments =>
        intro t' ht' _ active hactive entry hentry
        obtain rfl := Except.ok.inj hactive
        obtain ⟨hdl, hid⟩ := mem_byContract hentry
        have hgood := hi.good _ ((Storage.capacity_ok hcap _).mp hdl).2
        rw [hid]
        exact Chain.OnNode.evolve hgood ht'
  rw [sync]
  refine hcurrent.bind fun active t _ hactive => ?_
  cases active with
  | error err => exact fun _ _ _ => trivial
  | ok active =>
      dsimp only
      rw [safe_perform_bind]
      intro t₁ ht₁ hi₁ _
      refine ⟨fun _ _ _ h => (by cases h), ?_⟩
      rw [Protocol.watched_handle, exec_getNodeContracts]
      cases hlist : t₁.gateway.getNodeContracts r.node.toUInt32 with
      | error err => exact fun _ _ _ => trivial
      | ok onchain =>
          dsimp only
          let maps := onchain.foldl matchContract (active, [])
          have hended : ∀ entry ∈ GoRuntime.rangeMap maps.1,
              t₁.chain.Ended entry.1 := by
            intro entry hentry
            obtain ⟨hmem, hnot⟩ := mem_unmatched.mp
              ((GoRuntime.rangeMap_perm maps.1).mem_iff.mp hentry)
            have hon : t₁.chain.OnNode node entry.1 :=
              (hactive active rfl entry hmem).evolve ht₁
            refine ⟨?_, ?_⟩
            · obtain ⟨contract, hid, _⟩ := hon
              simp [hid]
            · cases halive : t₁.chain.alive entry.1 with
              | false => rfl
              | true =>
                  rw [hnode] at hlist
                  exact absurd (hi₁.truth.listed _ _ hlist _ hon halive) hnot
          refine Safe.bind (Safe.forM (fun left t =>
            ∀ entry ∈ left, t.chain.Ended entry.1) ?_ ?_) fun _ t _ _ => ?_
          · -- one call of `Deprovision`: only its own entry is looked at
            intro entry left t _ hI
            have hstable : ∀ t t' : World σ μ,
                (∀ entry' ∈ entry :: left, t.chain.Ended entry'.1) →
                D.rely t t' →
                ∀ entry' ∈ entry :: left, t'.chain.Ended entry'.1 :=
              fun t t' h ht entry' hmem => (h entry' hmem).evolve ht
            refine safe_logged (((invoke_makes rfl).keeps
              (fun op t => exec_possible op t) hstable ?_ hI).mono
                fun _ _ _ h entry' hmem =>
                  h entry' (List.mem_cons_of_mem _ hmem))
            intro op t hop _ h
            refine ⟨fun twin id reason hinvoke => ?_, ?_⟩
            · obtain ⟨_, rfl, _⟩ :=
                Request.deprovision.inj (hop.enters _ hinvoke)
              exact h entry List.mem_cons_self
            · rw [Protocol.watched_handle, (exec_outside t op).1]
              exact h
          · exact fun t ht _ entry hentry => (hended entry hentry).evolve ht
          · refine Safe.bind (Q := fun _ _ => True) ?_ fun _ _ _ _ _ _ _ => trivial
            exact (within_forM fun entry _ => syncRunning_makes entry).safe
              (fun op t => exec_possible op t)
              fun op t hop _ twin id reason h => absurd h (hop twin id reason)

/-- In every run in which the jobs of a reboot that pass validation are for
contracts of this node, a sync enters `Deprovision` for contracts only that do
not exist any more. -/
theorem sync_spares_live (hlaw : LawfulUpgrade)
    (hnode : r.node = r.engine.nodeID) {s₀ s₁ s₁' s : Sys σ μ}
    (hfresh : s₀.Fresh) (hstart : ∀ k, ¬ s₀.world.view.HasOkay k)
    (htruth : s₀.world.gateway.Truthful s₀.world.chain)
    (hbefore : Run r (onOwnNode r.engine.nodeID.toUInt32).Permits s₀ s₁)
    (hspawn : s₁.step r (.spawn .sync) = some s₁')
    (hafter : Run r (fun s a =>
      (onOwnNode r.engine.nodeID.toUInt32).Permits s a ∧ a.continues) s₁' s)
    {twin : TwinID} {id : ContractID} {reason : String}
    {k : Unit → EngineM (Option GoError)}
    (hcall : s.routines[s₁.routines.length]? =
      some (.call (.invoke (.deprovision twin id reason)) k)) :
    s.world.chain.alive id = false := by
  have hsound := Admission.sound (σ := σ) hlaw (onOwnNode_vouches (r := r))
  have hholds₁ := Admission.run hlaw onOwnNode_vouches hfresh
    (fun k hk => absurd hk (hstart k)) htruth hbefore
  have hholds₁' := hsound.step (a := .spawn .sync) hholds₁ trivial hspawn
  have hworld : s₁'.world = s₁.world := by rw [step_spawn hspawn]
  have hspawned : s₁'.routines[s₁.routines.length]? = some (sync r) := by
    rw [step_spawn hspawn]
    simp [Routine.prog]
  obtain ⟨p, hp, hsafe⟩ := hsound.run_watched hafter hholds₁' hspawned
    (sync_sparesLive hnode s₁'.world)
  obtain rfl := Option.some.inj (hp.symm.trans hcall)
  have hholds := hsound.run (hafter.mono fun _ _ h => h.1) hholds₁'
  exact ((hsafe s.world (.refl _) hholds.inv trivial).1 twin id reason rfl).2

end

/-! ## A reboot before the first validation

The contract is with node 7. The deployment is created and its job queued, and
before the worker gets to it the node reboots: the job is dropped, and the one
`boot` queues instead is not asked about its node. -/

namespace RebootBeforeValidation

open Reference

def created : Deployment :=
  deployment 0 1 [⟨0, "a", .zlogs, "d", "", "", Result.initial 0⟩]

def ledger (node : UInt32) (cancelled : List ContractID) : Ledger :=
  ⟨[(2, { contract created with node := node })], cancelled⟩

def start (node : UInt32) : Sys MapStore Unit :=
  idle (world (store []) [] [] (ledger node []))

def create : List (Action Unit) :=
  .spawn (.request (.createOrUpdate 1 created false)) ::
    List.replicate 5 (.routine 0)

/-- The list of the node's contracts is read, and the sync is about to go through
what is left. -/
def readAll (i : Nat) : List (Action Unit) := [.routine i, .routine i]

/-- Anything the node does, while the outside keeps still. -/
def onNode : Action Unit → Bool
  | .outside _ _ _ => false
  | _ => true

def rebooted : Sys MapStore Unit :=
  ((start 7).follow handler (fun _ a => onNode a)
    (create ++ .reboot () :: List.replicate 4 .work ++
      .take :: List.replicate 6 .work)).get (by decide +kernel)

def syncing : Sys MapStore Unit :=
  (rebooted.follow handler (fun _ a => onNode a)
    (.spawn .sync :: readAll 0)).get (by decide +kernel)

theorem run_syncing : Run handler (fun _ a => onNode a = true) (start 7) syncing :=
  (Run.of_follow (fun _ _ h => h) _ (Option.some_get _).symm).trans
    (Run.of_follow (fun _ _ h => h) _ (Option.some_get _).symm)

/-- Nothing but what a run may always do, the process going on. -/
def going (s : Sys MapStore Unit) (a : Action Unit) : Bool :=
  (onOwnNode 1).permits s a &&
    match a with
    | .restart | .clear _ | .reboot _ => false
    | _ => true

/-- The same deployment with a contract of this node, in use. -/
def deployed : Sys MapStore Unit :=
  ((start 1).follow handler going
    (create ++ .take :: List.replicate 6 .work)).get (by decide +kernel)

/-- Its contract is cancelled. -/
def cancelled : Sys MapStore Unit :=
  { deployed with world :=
    { deployed.world with
      clock := 0, chain := (ledger 1 [2]).chain,
      gateway := (ledger 1 [2]).gateway } }

def spawned : Sys MapStore Unit :=
  { cancelled with routines := cancelled.routines ++ [sync handler] }

def removing : Sys MapStore Unit :=
  (spawned.follow handler going (readAll 1)).get (by decide +kernel)

theorem going_sound {s : Sys MapStore Unit} {a : Action Unit}
    (h : going s a = true) : (onOwnNode 1).Permits s a ∧ a.continues := by
  obtain ⟨hpermits, hcont⟩ := Bool.and_eq_true_iff.mp h
  exact ⟨Admission.permits_sound hpermits, by cases a <;> trivial⟩

theorem chain_deployed : deployed.world.chain = (ledger 1 []).chain := rfl

theorem run_cancelled :
    Run handler (onOwnNode 1).Permits (start 1) cancelled := by
  have hdeployed : Run handler (onOwnNode 1).Permits (start 1) deployed :=
    Run.of_follow (fun _ _ h => (going_sound h).1) _ (Option.some_get _).symm
  have hcancel : (onOwnNode 1).Permits deployed
      (.outside 0 (ledger 1 [2]).chain (ledger 1 [2]).gateway) := by
    refine ⟨?_, (ledger 1 [2]).truthful⟩
    rw [chain_deployed]
    exact Ledger.evolves rfl rfl rfl [2]
  exact hdeployed.tail hcancel rfl

theorem run_removing : Run handler
    (fun s a => (onOwnNode 1).Permits s a ∧ a.continues) spawned removing :=
  Run.of_follow (fun _ _ => going_sound) _ (Option.some_get _).symm

/-- The contract routine `i` is about to have deprovisioned. -/
def deprovisions (s : Sys MapStore Unit) (i : Nat) : Option ContractID :=
  match s.routines[i]? with
  | some (.call (.invoke (.deprovision _ id _)) _) => some id
  | _ => none

theorem call_of_deprovisions {s : Sys MapStore Unit} {i : Nat} {id : ContractID}
    (h : deprovisions s i = some id) : ∃ twin reason k,
      s.routines[i]? = some (.call (.invoke (.deprovision twin id reason)) k) := by
  rw [deprovisions] at h
  split at h
  · next twin id' reason k hi =>
      obtain rfl := Option.some.inj h
      exact ⟨twin, reason, k, hi⟩
  · cases h

end RebootBeforeValidation

theorem sync_spares_live_removing :
    RebootBeforeValidation.removing.world.chain.alive 2 = false := by
  have hcalls : RebootBeforeValidation.deprovisions
      RebootBeforeValidation.removing 1 = some 2 := by decide +kernel
  obtain ⟨twin, reason, k, hcall⟩ :=
    RebootBeforeValidation.call_of_deprovisions hcalls
  have hfresh : (RebootBeforeValidation.start 1).Fresh :=
    Reference.idle_fresh rfl
  exact sync_spares_live (r := Reference.handler)
    Reference.lawful_upgrade rfl hfresh
    (fun _ ⟨_, _, h, _⟩ => nomatch h)
    (RebootBeforeValidation.ledger 1 []).truthful
    RebootBeforeValidation.run_cancelled rfl RebootBeforeValidation.run_removing
    hcall

/-- After a reboot at the wrong time a sync is about to deprovision a deployment
whose contract is live, on another node. -/
theorem sync_removes_live :
    ∃ s : Sys MapStore Unit,
      Run Reference.handler
        (fun _ a => RebootBeforeValidation.onNode a = true)
        (RebootBeforeValidation.start 7) s ∧
      s.world.gateway.Truthful s.world.chain ∧
      s.world.chain.alive 2 = true ∧
      ∃ twin reason k, s.routines[0]? =
        some (.call (.invoke (.deprovision twin 2 reason)) k) := by
  refine ⟨RebootBeforeValidation.syncing, RebootBeforeValidation.run_syncing,
    (RebootBeforeValidation.ledger 7 []).truthful, by decide +kernel,
    RebootBeforeValidation.call_of_deprovisions (by decide +kernel)⟩

end Zos4.Provision
