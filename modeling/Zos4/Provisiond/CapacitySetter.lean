import Mathlib.Data.UInt
import Zos4.Interaction.Steps
import Zos4.Provision.Stages

/-!
# The capacity setter

`cap.go`, and the node with a setter as the engine's callback. The callback puts
the id of a deployment on a channel and returns, or does nothing if it is told of
a deletion; a goroutine takes the ids off one by one, reads the deployment, and
sends the registrar what its workloads take up. What the node does in between is
anything `Sys.step` allows, so the deployment it reads is the one that is stored
by then.

`sent` keeps every set of resources the registrar took, newest first. The setter
sends without a context of its own and gives up on a set after four retries.
-/

namespace Zos4.Provisiond

open Zos4.Interaction Prog Zos4.Provision

/-! ## Capacity -/

/-- `gridtypes.Capacity`, without the addresses, which are not reported. -/
structure Capacity where
  cru : UInt64
  sru : UInt64
  hru : UInt64
  mru : UInt64
  deriving DecidableEq

def Capacity.zero : Capacity := ⟨0, 0, 0, 0⟩

def Capacity.add (total cap : Capacity) : Capacity :=
  ⟨total.cru + cap.cru, total.sru + cap.sru, total.hru + cap.hru,
    total.mru + cap.mru⟩

structure Resources where
  hru : UInt64
  sru : UInt64
  cru : UInt64
  mru : UInt64
  deriving DecidableEq

structure ContractResources where
  contractID : ContractID
  used : Resources
  deriving DecidableEq

/-- The loop of `setWithClient` over the workloads of a deployment. -/
def totalCapacity (capacity : Workload → Except GoError Capacity)
    (workloads : List Workload) : Capacity :=
  workloads.foldl (fun total wl =>
    if wl.result.state.isOkay then
      match capacity wl with
      | .error _ => total
      | .ok cap => total.add cap
    else total) Capacity.zero

/-- What `setWithClient` sends for a deployment. -/
def contractResources (capacity : Workload → Except GoError Capacity)
    (dl : Deployment) : ContractResources :=
  let total := totalCapacity capacity dl.workloads
  ⟨dl.contractID, ⟨total.hru, total.sru, total.cru, total.mru⟩⟩

/-! ## The setter -/

/-- What the setter's goroutine is at. -/
inductive Setter where
  | waiting
  /-- It has an id from the channel. -/
  | reading (id : DeploymentKey)
  /-- It is about to send, and can retry this many times. -/
  | sending (retries : Nat) (cap : ContractResources)
  deriving DecidableEq

/-- `make(chan DeploymentID, 215)`. -/
def channelSize : Nat := 215

def maxRetries : Nat := 4

/-- The node with its setter. -/
structure Metered [Zosbase] (σ μ : Type) where
  sys : Sys σ μ
  channel : List DeploymentKey
  setter : Setter
  sent : List ContractResources

namespace Metered

variable [Zosbase] {σ μ : Type}

/-- The setter has just been started; `sent` is what was sent before. -/
def start (sys : Sys σ μ) (sent : List ContractResources) : Metered σ μ where
  sys := sys
  channel := []
  setter := .waiting
  sent := sent

inductive Action (μ : Type) where
  | engine (a : Provision.Action μ)
  | receive
  | read
  /-- The registrar is told, and takes it or fails. -/
  | send (accepted : Bool)

/-- `Callback`: nothing on a deletion, and blocked while the channel is full. -/
def callback (channel : List DeploymentKey) (id : DeploymentKey) (delete : Bool) :
    Option (List DeploymentKey) :=
  if delete then some channel
  else if channel.length < channelSize then some (channel ++ [id])
  else none

/-- What the channel holds once the node has taken an action. -/
def listen (s : Metered σ μ) : Provision.Action μ → Option (List DeploymentKey)
  | .work =>
      match s.sys.worker with
      | .call (.callback twin contract delete) _ =>
          callback s.channel ⟨twin, contract⟩ delete
      | _ => some s.channel
  | _ => some s.channel

variable [GoRuntime] [Storage σ]

def step (r : ContractEventHandler μ) (capacity : Workload → Except GoError Capacity)
    (s : Metered σ μ) : Action μ → Option (Metered σ μ)
  | .engine a =>
      match s.sys.step r a, s.listen a with
      | some sys, some channel => some { s with sys := sys, channel := channel }
      | _, _ => none
  | .receive =>
      match s.setter, s.channel with
      | .waiting, id :: rest => some { s with setter := .reading id, channel := rest }
      | _, _ => none
  | .read =>
      match s.setter with
      | .reading id =>
          match Storage.get s.sys.world.store id with
          | .error _ => some { s with setter := .waiting }
          | .ok dl =>
              some { s with
                setter := .sending maxRetries (contractResources capacity dl) }
      | _ => none
  | .send accepted =>
      match s.setter with
      | .sending retries cap =>
          if accepted then some { s with setter := .waiting, sent := cap :: s.sent }
          else
            match retries with
            | 0 => some { s with setter := .waiting }
            | retries + 1 => some { s with setter := .sending retries cap }
      | _ => none

/-- The last set of resources the registrar took for a contract. -/
def lastSent (s : Metered σ μ) (id : ContractID) : Option ContractResources :=
  s.sent.find? (·.contractID == id)

/-- Nothing is left to do, for the node or for the setter. -/
structure Quiet (s : Metered σ μ) : Prop where
  drained : s.sys.Drained
  routines : ∀ p ∈ s.sys.routines, ∃ result, p = .ret result
  channel : s.channel = []
  setter : s.setter = .waiting

end Metered

end Zos4.Provisiond
