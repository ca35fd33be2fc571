import Zos4.Provision.Reference

/-!
# One deployment in use to a contract

Everything that goes by contract id alone, the contract sync and the usage
reports among it, counts on a contract having one deployment, that of the twin
who owns it. Nothing in the engine says so directly. `CreateOrUpdate` compares
the twin with the sender, the store keeps twins apart, `validate` looks the
contract up and compares node and hash, and the owner of the contract is the
one field nobody looks at.

So ownership is assumed of every job that passes validation, and then it does
hold of every deployment in use, and with it uniqueness.
-/

namespace Zos4.Provision

open Zos4.Interaction Prog

section

variable [Zosbase] {σ μ : Type} [Storage σ]

/-- Ownership, assumed of every job that is validated. -/
def ownership : Admission where
  good := Chain.Owns
  assumed job := job.validation.isSome = true
  truth _ _ := True
  stable := Chain.Owns.evolve

instance (job : EngineJob) : Decidable (ownership.assumed job) :=
  inferInstanceAs (Decidable (_ = true))

instance (c : Chain) (k : DeploymentKey) : Decidable (ownership.good c k) :=
  inferInstanceAs (Decidable (c.Owns k))

variable [GoRuntime] {r : ContractEventHandler μ}

omit [GoRuntime] in
/-- A contract has one owner. -/
theorem Chain.Owns.unique {c : Chain} {k k' : DeploymentKey} (h : c.Owns k)
    (h' : c.Owns k') (hid : k.contract = k'.contract) : k = k' := by
  obtain ⟨contract, hk, htwin⟩ := h
  obtain ⟨contract', hk', htwin'⟩ := h'
  rw [hid, hk'] at hk
  obtain rfl := Option.some.inj hk
  obtain ⟨twin, id⟩ := k
  obtain ⟨twin', id'⟩ := k'
  obtain rfl : id = id' := hid
  obtain rfl : twin = twin' := htwin.symm.trans htwin'
  rfl

/-- In every run in which the jobs that pass validation are the contract
owner's, so is every deployment in use, and there is one to a contract. -/
theorem one_deployment_in_use (hlaw : LawfulUpgrade) {s₀ s : Sys σ μ}
    (hfresh : s₀.Fresh)
    (hstart : ∀ k, s₀.world.view.HasOkay k → s₀.world.chain.Owns k)
    (hrun : Run r ownership.Permits s₀ s) :
    (∀ k, s.world.view.HasOkay k → s.world.chain.Owns k) ∧
      ∀ k k', s.world.view.HasOkay k → s.world.view.HasOkay k' →
        k.contract = k'.contract → k = k' := by
  have hvouch : ownership.Vouches r σ := by
    intro job noValidation hval hassumed
    refine absurd ?_ hassumed
    show job.validation.isSome = true
    rw [hval]
    rfl
  have hgood : ∀ k, s.world.view.HasOkay k → s.world.chain.Owns k :=
    (Admission.run hlaw hvouch hfresh hstart trivial hrun).inv.good
  exact ⟨hgood, fun k k' hk hk' hid => (hgood k hk).unique (hgood k' hk') hid⟩

end

/-! ## Somebody else's deployment

Twin 1 owns contract 2 and runs a deployment under it. Then it writes the hash of
twin 2's deployment into the contract, and twin 2 sends that one. -/

namespace ForeignDeployment

open Reference

def fresh (twin : TwinID) : Deployment :=
  deployment 0 twin [⟨0, "a", .zlogs, "d", "", "", Result.initial 0⟩]

/-- Contract 2 of twin 1, with the hash of some deployment. -/
def ledger (dl : Deployment) : Ledger :=
  ⟨[(2, { contract dl with twinID := 1 })], []⟩

/-- Anybody may call `CreateOrUpdate`. -/
def onNode : Action Unit → Bool
  | .spawn (.request (.createOrUpdate _ _ _)) | .routine _ | .take | .work => true
  | _ => false

/-- And the chain moves as chains do, under a truthful gateway. -/
def Permitted (s : Sys MapStore Unit) (a : Action Unit) : Prop :=
  onNode a = true ∨ ∃ clock chain gateway, a = .outside clock chain gateway ∧
    s.world.chain.Evolves chain ∧ gateway.Truthful chain

def start : Sys MapStore Unit := idle (world (store []) [] [] (ledger (fresh 1)))

/-- Twin `twin` has its deployment provisioned. -/
def deploy (i : Nat) (twin : TwinID) : List (Action Unit) :=
  .spawn (.request (.createOrUpdate twin (fresh twin) false)) ::
    List.replicate 5 (.routine i) ++ .take :: List.replicate 6 .work

def first : Sys MapStore Unit :=
  (start.follow handler (fun s a => onNode a && ownership.permits s a)
    (deploy 0 1)).get (by decide +kernel)

def changed : Sys MapStore Unit :=
  { first with world :=
    { first.world with
      clock := 0, chain := (ledger (fresh 2)).chain,
      gateway := (ledger (fresh 2)).gateway } }

def second : Sys MapStore Unit :=
  (changed.follow handler (fun _ a => onNode a) (deploy 1 2)).get
    (by decide +kernel)

theorem run_first : Run handler ownership.Permits start first :=
  Run.of_follow (fun _ _ h => Admission.permits_sound
    (Bool.and_eq_true_iff.mp h).2) _ (Option.some_get _).symm

theorem chain_first : first.world.chain = (ledger (fresh 1)).chain := rfl

theorem run_second : Run handler Permitted start second := by
  have hfirst : Run handler Permitted start first :=
    Run.of_follow (fun s a (h : (onNode a && ownership.permits s a) = true) =>
      .inl (Bool.and_eq_true_iff.mp h).1) _ (Option.some_get _).symm
  have hchange : Permitted first
      (.outside 0 (ledger (fresh 2)).chain (ledger (fresh 2)).gateway) := by
    refine .inr ⟨_, _, _, rfl, ?_, (ledger (fresh 2)).truthful⟩
    rw [chain_first]
    refine Ledger.evolves ?_ ?_ ?_ [] <;> rfl
  have hsecond : Run handler Permitted changed second :=
    Run.of_follow (fun _ _ => .inl) _ (Option.some_get _).symm
  exact (hfirst.tail hchange rfl).trans hsecond

end ForeignDeployment

theorem one_deployment_in_use_first :
    (∀ k, ForeignDeployment.first.world.view.HasOkay k →
        ForeignDeployment.first.world.chain.Owns k) ∧
      ∀ k k', ForeignDeployment.first.world.view.HasOkay k →
        ForeignDeployment.first.world.view.HasOkay k' →
        k.contract = k'.contract → k = k' :=
  one_deployment_in_use Reference.lawful_upgrade (Reference.idle_fresh rfl)
    (fun _ ⟨_, _, h, _⟩ => nomatch h) ForeignDeployment.run_first

/-- Two deployments come to be in use under one contract, one of them not its
owner's, though the hash tells all deployments apart. -/
theorem two_deployments_in_use :
    Function.Injective (Zosbase.challengeHash) ∧
    ∃ s : Sys MapStore Unit,
      Run Reference.handler ForeignDeployment.Permitted ForeignDeployment.start
        s ∧
      s.world.view.HasOkay ⟨1, 2⟩ ∧ s.world.view.HasOkay ⟨2, 2⟩ ∧
      s.world.chain.Owns ⟨1, 2⟩ ∧ ¬ s.world.chain.Owns ⟨2, 2⟩ := by
  refine ⟨fun _ _ h => Except.ok.inj h, ForeignDeployment.second,
    ForeignDeployment.run_second, ?_, ?_, by decide +kernel, by decide +kernel⟩
  · exact ⟨"a", Reference.workload 0 "a" "d", by decide +kernel, rfl⟩
  · exact ⟨"a", Reference.workload 0 "a" "d", by decide +kernel, rfl⟩

end Zos4.Provision
