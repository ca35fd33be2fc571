import Zos4.Provision.Engine

/-!
# The contract event handler

`events.go`: the pass that compares the deployments running on the node with
the contracts on the chain. Go's maps are association lists with one entry per
key; where the code ranges over one, the order is `GoRuntime`'s.
-/

namespace Zos4.Provision

open Zos4.Interaction Prog

variable [Zosbase] [GoRuntime] {μ : Type}

/-- A Go map from contract ids to deployments. -/
abbrev DeploymentMap := List (ContractID × Deployment)

def DeploymentMap.erase (m : DeploymentMap) (id : ContractID) : DeploymentMap :=
  m.filter fun entry => entry.1 ≠ id

def DeploymentMap.set (m : DeploymentMap) (id : ContractID) (dl : Deployment) :
    DeploymentMap := (id, dl) :: DeploymentMap.erase m id

structure ContractEventHandler (μ : Type) where
  node : UInt64
  engine : NativeEngine μ

abbrev storageCapacity : EngineM (Except GoError (List Deployment)) :=
  ask .storageCapacity
abbrev getNodeContracts (node : UInt32) :
    EngineM (Except GoError (List ContractID)) := ask (.getNodeContracts node)

/-- The deployments of `Capacity()`, by contract; a later one replaces an
earlier one with the same contract. -/
def byContract (deployments : List Deployment) : DeploymentMap :=
  deployments.foldl (fun m dl => DeploymentMap.set m dl.contractID dl) []

def current : EngineM (Except GoError DeploymentMap) := do
  match ← storageCapacity with
  | .error err => pure (.error err)
  | .ok deployments => pure (.ok (byContract deployments))

/-- One step of the loop over the contracts of the node: what is left in
`active`, and what has moved to `running`. -/
def matchContract (maps : DeploymentMap × DeploymentMap) (contract : ContractID) :
    DeploymentMap × DeploymentMap :=
  (DeploymentMap.erase maps.1 contract,
    match maps.1.lookup contract with
    | some dl => DeploymentMap.set maps.2 dl.contractID dl
    | none => maps.2)

def isLocked (dl : Deployment) : Bool :=
  dl.workloads.any fun wl => wl.result.state == .paused

/-- A deployment without a contract. -/
def syncMissing (r : ContractEventHandler μ) (entry : ContractID × Deployment) :
    EngineM Unit :=
  logged (invoke r.engine
    (.deprovision entry.2.twinID entry.1 "contract not active on chain"))

/-- A deployment whose contract exists: bring its lock state in line. -/
def syncRunning (r : ContractEventHandler μ) (entry : ContractID × Deployment) :
    EngineM Unit := do
  match ← getContract entry.1 with
  | .error _ => pure ()
  | .ok contract =>
      let locked := contract.isGracePeriod
      if locked == isLocked entry.2 then pure ()
      else if locked then
        logged (invoke r.engine (.pause entry.2.twinID entry.2.contractID))
      else
        logged (invoke r.engine (.resume entry.2.twinID entry.2.contractID))

def sync (r : ContractEventHandler μ) : EngineM (Option GoError) := do
  match ← current with
  | .error err =>
      pure (some (err.wrap "failed to get current active contracts"))
  | .ok active =>
      match ← getNodeContracts r.node.toUInt32 with
      | .error err =>
          pure (some (err.wrap "failed to get active node contracts"))
      | .ok onchain => do
          let maps := onchain.foldl matchContract (active, [])
          (GoRuntime.rangeMap maps.1).forM (syncMissing r)
          (GoRuntime.rangeMap maps.2).forM (syncRunning r)
          pure none

end Zos4.Provision
