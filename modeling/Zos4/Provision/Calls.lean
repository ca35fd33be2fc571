import Zos4.Interaction.Prog
import Zos4.Provision.Storage
import Zos4.Provision.Provisioner

/-!
# The calls of the engine and what answers them

Everything `engine.go` and `events.go` do to the outside is one of the calls
of `Op`: a method of the store or of the provisioner, an operation of the job
queue, a question to the registrar gateway, a look at the clock. `World` is
what those calls act on, and `exec` is one call.

Two fields of the world need a word. `gateway` is what the registrar gateway
answers at the moment, as a table; nothing forces the table to be right.
`chain` is what is true, every contract ever created with its cancellation
marked, and no code reads it: it is there so that a result can say that the
gateway is truthful, or that a contract still exists.
-/

namespace Zos4.Provision

open Zos4.Interaction

variable [Zosbase]

/-- The engine's API: what a caller may ask for. -/
inductive Request where
  | provision (deployment : Deployment)
  | update (update : Deployment)
  | pause (twin : TwinID) (id : ContractID)
  | resume (twin : TwinID) (id : ContractID)
  | deprovision (twin : TwinID) (id : ContractID) (reason : String)
  | createOrUpdate (twin : TwinID) (deployment : Deployment) (update : Bool)
  | decommissionCached (id : WorkloadID) (reason : String)
  deriving DecidableEq

/-- `engineJob`. The operation decides which of the Go fields are filled in:
only an update has a source, only a deprovision has a message. -/
inductive EngineJob where
  | opProvision (target : Deployment)
  | opDeprovision (target : Deployment) (message : String)
  | opUpdate (target source : Deployment)
  | opProvisionNoValidation (target : Deployment)
  | opPause (target : Deployment)
  | opResume (target : Deployment)
  deriving DecidableEq

def EngineJob.target : EngineJob → Deployment
  | .opProvision target | .opDeprovision target _ | .opUpdate target _
  | .opProvisionNoValidation target | .opPause target | .opResume target => target

/-! ## Outside the node -/

/-- A contract, as `GetContract` reports it. -/
structure Contract where
  twinID : TwinID
  isNodeContract : Bool
  node : UInt32
  deploymentHash : Zosbase.Hash
  isGracePeriod : Bool

/-- The gateway's own error type. -/
structure SubstrateError where
  isNotFound : Bool
  err : GoError

/-- What the services outside the node answer at the moment. -/
structure Gateway where
  getContract : ContractID → Except SubstrateError Contract
  getNodeRentContract : UInt32 → Except SubstrateError UInt64
  getNodeContracts : UInt32 → Except GoError (List ContractID)
  verify : Deployment → Option GoError
  isTwinVerified : TwinID → Except GoError Bool

/-- What is true of the chain: every contract ever created, and which of them
still exist. -/
structure Chain where
  contract : ContractID → Option Contract
  alive : ContractID → Bool

/-! ## The calls -/

inductive Op where
  | storageCreate (deployment : Deployment)
  | storageGet (key : DeploymentKey)
  | storageUpdate (key : DeploymentKey) (fields : List Field)
  | storageCurrent (key : DeploymentKey) (name : Name)
  | storageAdd (key : DeploymentKey) (wl : Workload)
  | storageTransaction (key : DeploymentKey) (wl : Workload)
  | storageRemove (key : DeploymentKey) (name : Name)
  | storageDelete (key : DeploymentKey)
  | storageError (key : DeploymentKey) (err : GoError)
  | storageTwins
  | storageByTwin (twin : TwinID)
  | storageCapacity
  | provision (wl : WorkloadWithID)
  | deprovision (wl : WorkloadWithID)
  | pause (wl : WorkloadWithID)
  | resume (wl : WorkloadWithID)
  | update (wl : WorkloadWithID)
  | enqueue (job : EngineJob)
  | dequeue
  | getContract (id : ContractID)
  | getNodeRentContract (node : UInt32)
  | getNodeContracts (node : UInt32)
  | verify (deployment : Deployment)
  | isTwinVerified (twin : TwinID)
  | now
  /-- The registered callback. -/
  | callback (twin : TwinID) (contract : ContractID) (delete : Bool)
  /-- A method of the engine's API is entered. -/
  | invoke (request : Request)

abbrev Op.Ret : Op → Type
  | .storageGet _ => Except GoError Deployment
  | .storageCurrent _ _ => Except GoError Workload
  | .storageTwins => Except GoError (List TwinID)
  | .storageByTwin _ => Except GoError (List ContractID)
  | .storageCapacity => Except GoError (List Deployment)
  | .provision _ | .pause _ | .resume _ | .update _ => Result × Option GoError
  | .getContract _ => Except SubstrateError Contract
  | .getNodeRentContract _ => Except SubstrateError UInt64
  | .getNodeContracts _ => Except GoError (List ContractID)
  | .isTwinVerified _ => Except GoError Bool
  | .now => Timestamp
  | .callback _ _ _ | .invoke _ => Unit
  | _ => Option GoError

abbrev engineSig : Sig := ⟨Op, Op.Ret⟩

abbrev EngineM := Prog engineSig

/-- `NativeEngine`, the options applied. The store, the queue and the gateway
are part of the world; `registrarGateway` and `callback` say whether one was
given. -/
structure NativeEngine (μ : Type) where
  provisioner : Provisioner μ
  order : List WorkloadType
  typeIndex : WorkloadType → Int
  rerunAll : Bool
  nodeID : UInt64
  registrarGateway : Bool
  callback : Bool

structure World (σ μ : Type) where
  store : σ
  node : Node μ
  queue : List EngineJob
  clock : Timestamp
  chain : Chain
  gateway : Gateway

namespace Node

variable {μ : Type} (node : Node μ)

def install (id : WorkloadID) (rest : μ) : Node μ :=
  { installed := fun id' => if id' = id then true else node.installed id', rest }

def uninstall (id : WorkloadID) (rest : μ) : Node μ :=
  { installed := fun id' => if id' = id then false else node.installed id', rest }

/-- What a call of `Provision` leaves behind, given what it answered. -/
def afterProvision (id : WorkloadID) (res : Result × Option GoError) (rest : μ) :
    Node μ :=
  if res.2.isNone && res.1.state.isOkay then node.install id rest
  else { node with rest := rest }

/-- What a call of `Deprovision` leaves behind. -/
def afterDeprovision (id : WorkloadID) (err : Option GoError) (rest : μ) :
    Node μ :=
  if err.isNone then node.uninstall id rest else { node with rest := rest }

end Node

variable {σ μ : Type} [Storage σ]

namespace World

/-- The map the store stands for. -/
abbrev view (w : World σ μ) : StoreView := Storage.view w.store

/-- A writing method of the store: the error it answers, or the store after it. -/
def write (w : World σ μ) : Except GoError σ → Option GoError × World σ μ
  | .ok store => (none, { w with store := store })
  | .error err => (some err, w)

end World

/-- One call. -/
def exec (e : NativeEngine μ) : Handler engineSig (World σ μ)
  | .storageCreate dl, w => w.write (Storage.create w.store w.clock dl)
  | .storageGet key, w => (Storage.get w.store key, w)
  | .storageUpdate key fields, w => w.write (Storage.update w.store key fields)
  | .storageCurrent key name, w => (Storage.current w.store key name, w)
  | .storageAdd key wl, w => w.write (Storage.add w.store w.clock key wl)
  | .storageTransaction key wl, w => w.write (Storage.transaction w.store key wl)
  | .storageRemove key name, w => w.write (Storage.remove w.store key name)
  | .storageDelete key, w => w.write (Storage.delete w.store key)
  | .storageError key err, w =>
      w.write (Storage.error w.store w.clock key err.error)
  | .storageTwins, w => (Storage.twins w.store, w)
  | .storageByTwin twin, w => (Storage.byTwin w.store twin, w)
  | .storageCapacity, w => (Storage.capacity w.store, w)
  | .provision wl, w =>
      match e.provisioner.provision w.clock wl w.node with
      | (res, rest) =>
          (res, { w with node := w.node.afterProvision wl.id res rest })
  | .deprovision wl, w =>
      match e.provisioner.deprovision wl w.node with
      | (err, rest) =>
          (err, { w with node := w.node.afterDeprovision wl.id err rest })
  | .pause wl, w =>
      match e.provisioner.pause w.clock wl w.node with
      | (res, rest) => (res, { w with node := { w.node with rest := rest } })
  | .resume wl, w =>
      match e.provisioner.resume w.clock wl w.node with
      | (res, rest) => (res, { w with node := { w.node with rest := rest } })
  | .update wl, w =>
      match e.provisioner.update w.clock wl w.node with
      | (res, rest) => (res, { w with node := { w.node with rest := rest } })
  | .enqueue job, w => (none, { w with queue := w.queue ++ [job] })
  | .dequeue, w =>
      match w.queue with
      | [] => (some (.text "dque: queue is empty"), w)
      | _ :: rest => (none, { w with queue := rest })
  | .getContract id, w => (w.gateway.getContract id, w)
  | .getNodeRentContract node, w => (w.gateway.getNodeRentContract node, w)
  | .getNodeContracts node, w => (w.gateway.getNodeContracts node, w)
  | .verify dl, w => (w.gateway.verify dl, w)
  | .isTwinVerified twin, w => (w.gateway.isTwinVerified twin, w)
  | .now, w => (w.clock, w)
  | .callback _ _ _, w => ((), w)
  | .invoke _, w => ((), w)

end Zos4.Provision
