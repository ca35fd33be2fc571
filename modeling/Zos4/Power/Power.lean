import Zos4.Interaction.Trace

/-!
# Uptime reports and power management

`uptime.go` and `power.go`, function by function, as programs over the calls of
`Op`: the registrar gateway, zinit, the flags and the uptime of the host, and
`ether-wake`. The two loops that never end, `Uptime.Start` and
`PowerServer.events`, are goroutines and not programs, and so is the loop over the
stream of events in `recv`; they are in `Zos4.Power.Goroutines`.

Logging is left out, and the mutex of `SendNow`, which only keeps two reports
apart. A stub of the gateway panics where the message bus fails; a panic can come
at any call, and what becomes of it is a matter of the goroutine.
-/

namespace Zos4.Power

open Zos4.Interaction Prog

/-! ## The calls -/

/-- Go errors, as far as `errors.Is` tells them apart here. -/
inductive PowerError where
  /-- `zinit.ErrNotSupported`. -/
  | notSupported
  /-- `context.Canceled`. -/
  | canceled
  | text (msg : String)
  | wrap (cause : PowerError) (msg : String)
  deriving DecidableEq, Repr

/-- `errors.Is`. -/
def PowerError.is : PowerError → PowerError → Bool
  | .wrap cause _, target => cause.is target
  | err, target => err = target

/-- `substrate.Power`: what the node is meant to be. -/
structure PowerTarget where
  isUp : Bool
  isDown : Bool
  deriving DecidableEq, Repr

/-- `substrate.PowerState`: what the node has said it is. -/
structure PowerState where
  isUp : Bool
  isDown : Bool
  deriving DecidableEq, Repr

structure NodePower where
  state : PowerState
  target : PowerTarget
  deriving DecidableEq, Repr

structure Interface where
  name : String
  mac : String
  deriving DecidableEq, Repr

/-- What is read of a node of the farm. -/
structure Node where
  nodeID : UInt64
  interfaces : List Interface
  deriving DecidableEq, Repr

structure PowerTargetChangeEvent where
  farmID : UInt32
  nodeID : UInt32
  target : PowerTarget
  deriving DecidableEq, Repr

inductive Flag where
  | readonlyCache
  | limitedCache
  | notReachable
  deriving DecidableEq, Repr

inductive Op where
  | getPowerTarget
  | getNode (id : UInt64)
  | setNodePowerState (up : Bool)
  | updateNodeUptimeV2 (uptime : UInt64)
  | hostUptime
  | checkFlag (flag : Flag)
  | zinitShutdown
  | zinitReboot
  | etherWake (mac : String)
  /-- An event is read from the stream. -/
  | powerTargetChange
  deriving DecidableEq

abbrev Op.Ret : Op → Type
  | .getPowerTarget => Except PowerError NodePower
  | .getNode _ => Except PowerError Node
  | .setNodePowerState _ => Except PowerError String
  | .hostUptime => Except PowerError UInt64
  | .checkFlag _ => Bool
  | .powerTargetChange => PowerTargetChangeEvent
  | _ => Option PowerError

abbrev powerSig : Sig := ⟨Op, Op.Ret⟩

abbrev PowerM := Prog powerSig

abbrev ask (op : Op) : PowerM op.Ret := @perform powerSig op

abbrev checkFlag (flag : Flag) : PowerM Bool := ask (.checkFlag flag)

abbrev hostUptime : PowerM (Except PowerError UInt64) := ask .hostUptime

abbrev updateNodeUptimeV2 (uptime : UInt64) : PowerM (Option PowerError) :=
  ask (.updateNodeUptimeV2 uptime)

abbrev getPowerTarget : PowerM (Except PowerError NodePower) := ask .getPowerTarget

abbrev getNode (id : UInt64) : PowerM (Except PowerError Node) := ask (.getNode id)

abbrev putNodePowerState (up : Bool) : PowerM (Except PowerError String) :=
  ask (.setNodePowerState up)

abbrev zinitShutdown : PowerM (Option PowerError) := ask .zinitShutdown

abbrev zinitReboot : PowerM (Option PowerError) := ask .zinitReboot

abbrev etherWake (mac : String) : PowerM (Option PowerError) := ask (.etherWake mac)

/-! ## `uptime.go` -/

def isNodeHealthy : PowerM Bool := do
  let readonly ← checkFlag .readonlyCache
  let limited ← checkFlag .limitedCache
  -- a node that is not reachable counts as healthy for now
  let _ ← checkFlag .notReachable
  pure (!readonly && !limited)

def SendNow : PowerM (Option PowerError) := do
  let healthy ← isNodeHealthy
  if !healthy then pure none
  else
    match ← hostUptime with
    | .error err => pure (some (err.wrap "failed to get uptime"))
    | .ok uptime => updateNodeUptimeV2 uptime

/-! ## `power.go` -/

structure PowerServer where
  enabled : Bool
  farm : UInt32
  node : UInt32

namespace PowerServer

variable (p : PowerServer)

/-- `setNodePowerState`: the state is always up where power management is not
enabled, and only written if it is another one on the chain. -/
def setNodePowerState (up : Bool) : PowerM (Option PowerError) := do
  let up := !p.enabled || up
  match ← getPowerTarget with
  | .error err => pure (some (err.wrap "failed to check power state"))
  | .ok power =>
      if power.state.isUp = up then pure none
      else
        match ← putNodePowerState up with
        | .error err => pure (some err)
        | .ok _ => pure none

def shutdown : PowerM (Option PowerError) :=
  if !p.enabled then pure none
  else do
    let _ ← SendNow
    match ← zinitShutdown with
    | none => pure none
    | some err => if err.is .notSupported then zinitReboot else pure (some err)

def syncSelf : PowerM (Option PowerError) := do
  match ← getPowerTarget with
  | .error err => pure (some err)
  | .ok power =>
      if power.target.isUp then
        match ← p.setNodePowerState true with
        | some err => pure (some (err.wrap "failed to set state to up"))
        | none => pure none
      else
        match ← p.setNodePowerState false with
        | some err => pure (some (err.wrap "failed to set state to down"))
        | none =>
            match ← p.shutdown with
            | some err => pure (some (err.wrap "failed to issue shutdown"))
            | none => pure none

end PowerServer

/-- `powerUp`: the magic packet is sent ten times, whatever comes of it. -/
def powerUp (node : Node) : PowerM (Option PowerError) :=
  match node.interfaces.find? fun inf => inf.name = "zos" with
  | none => pure (some (.text ("can't find mac address of node '" ++
      toString node.nodeID ++ "'")))
  | some inf =>
      if inf.mac = "" then
        pure (some (.text ("can't find mac address of node '" ++
          toString node.nodeID ++ "'")))
      else do
        (List.replicate 10 inf.mac).forM fun mac => do
          let _ ← etherWake mac
          pure ()
        pure none

def PowerServer.event (p : PowerServer) (event : PowerTargetChangeEvent) :
    PowerM (Option PowerError) :=
  if event.farmID ≠ p.farm then pure none
  else do
    match ← getNode event.nodeID.toUInt64 with
    | .error err => pure (some err)
    | .ok node =>
        if event.nodeID = p.node ∧ event.target.isDown then
          match ← p.setNodePowerState false with
          | some err => pure (some (err.wrap "failed to set node power state to down"))
          | none => p.shutdown
        else if event.target.isDown then pure none
        else if event.target.isUp then powerUp node
        else pure none

end Zos4.Power
