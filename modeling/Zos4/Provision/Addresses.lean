import Zos4.Provision.Storage

/-!
# The addresses in use

`ListPublicIPs`, `ListPrivateIPs` and the `List` it goes through. They only read the
store, so they are functions of what is in it. What they decode is zosbase's: the result
of a public IP and the network interfaces of a machine, `Addressing`.
-/

namespace Zos4.Provision

/-- A network interface of a machine. -/
structure MachineInterface where
  network : Name
  ip : String
  deriving DecidableEq

class Addressing where
  /-- The result of a public IP: the text of its IP, if it has one. -/
  publicIP : Result → Except GoError (Option String)
  /-- The data of a machine: its network interfaces. -/
  interfaces : Workload → Except GoError (List MachineInterface)

variable [Addressing] {σ : Type} [Storage σ]

/-- One turn of the innermost loop of `ListPublicIPs`. -/
def addPublicIP (ips : List String) (workload : WorkloadWithID) :
    Except GoError (List String) :=
  if workload.workload.result.state ≠ .ok then .ok ips
  else
    match Addressing.publicIP workload.workload.result with
    | .error err => .error err
    | .ok none => .ok ips
    | .ok (some ip) => .ok (ips ++ [ip])

/-- The loop over the workloads of a deployment. -/
def addDeploymentIPs (store : σ) (twin : TwinID) (ips : List String) (id : ContractID) :
    Except GoError (List String) := do
  let deployment ← (Storage.get store ⟨twin, id⟩).mapError (·.wrap "failed to load deployment")
  (deployment.byType [.publicIPv4, .publicIP]).foldlM addPublicIP ips

/-- The loop over the deployments of a twin. -/
def addTwinIPs (store : σ) (ips : List String) (twin : TwinID) :
    Except GoError (List String) := do
  let deploymentsIDs ← (Storage.byTwin store twin).mapError
    (·.wrap "failed to list twin deployment")
  deploymentsIDs.foldlM (addDeploymentIPs store twin) ips

def listPublicIPs (store : σ) : Except GoError (List String) := do
  let twins ← (Storage.twins store).mapError (·.wrap "failed to list twins")
  twins.foldlM (addTwinIPs store) []

/-- One turn of the loop of `List`. -/
def addDeployment (store : σ) (twin : TwinID) (deployments : List Deployment)
    (id : ContractID) : Except GoError (List Deployment) := do
  let deployment ← Storage.get store ⟨twin, id⟩
  if !deployment.isActive then pure deployments else pure (deployments ++ [deployment])

/-- `List`: the active deployments of a twin. -/
def list (store : σ) (twin : TwinID) : Except GoError (List Deployment) := do
  let deploymentIDs ← Storage.byTwin store twin
  deploymentIDs.foldlM (addDeployment store twin) []

/-- One turn of the loop over the machines in `ListPrivateIPs`. -/
def addPrivateIPs (network : Name) (ips : List String) (vm : WorkloadWithID) :
    Except GoError (List String) :=
  if vm.workload.result.state = .deleted ∨ vm.workload.result.state = .error then .ok ips
  else
    match Addressing.interfaces vm.workload with
    | .error err => .error err
    | .ok interfaces => .ok (ips ++ (interfaces.filter (·.network = network)).map (·.ip))

def listPrivateIPs (store : σ) (twin : TwinID) (network : Name) :
    Except GoError (List String) := do
  let deployments ← list store twin
  deployments.foldlM (fun ips deployment =>
    (deployment.byType [.zmachine]).foldlM (addPrivateIPs network) ips) []

end Zos4.Provision
