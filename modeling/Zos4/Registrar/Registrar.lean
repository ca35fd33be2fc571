import Zos4.Interaction.Prog
import Zos4.Interaction.Steps

/-!
# The registrar

`registrar.go`: a goroutine that registers the node and then watches over the
registration, and the methods that hand out the ids it was registered with.

The goroutine is a state machine with a clock. `Phase` says where in `register`
it is, and `step` takes one action: time passes, something the goroutine waits
for happens, or a branch of the `select` is taken. The two timers of the `select`
are made when it is entered, so a watching goroutine carries their deadlines, and
while it waits time passes only as long as nothing is ready. Three fields of `Sys`
are there for what is said about runs: `last` and `since` are the times of the
last call of `register()` and of the start of what the loop is busy with, and
`prompted` is when the `select` last had an address update to read.

`NodeID` and `TwinID` are programs over the reads they make of the shared state,
each of which may find another state than the one before.
-/

namespace Zos4.Registrar

open Zos4.Interaction Prog

/-! ## The registration state -/

inductive RegistrationState where
  | failed
  | inProgress
  | done
  deriving DecidableEq, Repr

/-- `State`. -/
structure State where
  nodeID : UInt32
  twinID : UInt32
  state : RegistrationState
  msg : String
  deriving DecidableEq, Repr

def failedState (err : String) : State := ⟨0, 0, .failed, err⟩

def inProgressState : State := ⟨0, 0, .inProgress, ""⟩

def doneState (nodeID twinID : UInt32) : State := ⟨nodeID, twinID, .done, ""⟩

/-! ## The goroutine -/

/-- Durations are counted in nanoseconds, as `time.Duration` does. -/
def minute : Nat := 60 * 1000000000

def hour : Nat := 60 * minute

def monitorAccountEvery : Nat := 30 * minute

def updateNodeInfoInterval : Nat := 24 * hour

inductive Phase where
  | starting
  /-- Inside `register()`. -/
  | registering
  /-- Before the stream of address updates is there. -/
  | subscribing
  /-- In the `select`, whose timers fire at the times given. -/
  | watching (monitor interval : Nat)
  /-- Inside `reActivate`. -/
  | reactivating
  | stopped
  deriving DecidableEq, Repr

structure Sys where
  now : Nat
  state : State
  phase : Phase
  /-- The loop has been entered: `register()` does not go on to subscribe. -/
  looping : Bool
  /-- Address updates that have arrived and have not been read. -/
  updates : Nat
  cancelled : Bool
  last : Nat
  since : Nat
  /-- Before there was any update, when `register()` was first called. -/
  prompted : Nat
  deriving DecidableEq

def Sys.start : Sys where
  now := 0
  state := inProgressState
  phase := .starting
  looping := false
  updates := 0
  cancelled := false
  last := 0
  since := 0
  prompted := 0

inductive Action where
  | tick (d : Nat)
  /-- The two checks `register` begins with, and what they find. -/
  | check (limitedCache kvm : Bool)
  /-- An attempt to register the node fails, or succeeds. -/
  | failed (err : String)
  | registered (nodeID twinID : UInt64)
  /-- The retries end, which they do only if the context is cancelled. -/
  | gaveUp
  | subscribed (err : Option String)
  /-- The branches of the `select`. -/
  | done
  | monitor
  | interval
  | address
  /-- What `reActivate` returns is only logged. -/
  | reactivated (err : Option String)
  /-- Outside: an address update arrives, the context is cancelled. -/
  | addressUpdate
  | cancel
  deriving DecidableEq

namespace Sys

variable (s : Sys)

/-- The `select` is entered. -/
def watch : Sys :=
  { s with
    phase := .watching (s.now + monitorAccountEvery) (s.now + updateNodeInfoInterval)
    looping := true
    prompted := if 0 < s.updates then s.now else s.prompted }

/-- `register()` is called. -/
def register : Sys :=
  { s with phase := .registering, last := s.now, since := s.now }

/-- `register()` returns, to the loop or to what comes before it. -/
def proceed : Sys :=
  if s.looping then s.watch else { s with phase := .subscribing }

/-- An address update arrives. -/
def hear : Sys :=
  { s with
    updates := s.updates + 1
    prompted := match s.phase with
      | .watching _ _ => s.now
      | _ => s.prompted }

/-- Nothing the `select` waits for is ready until the time given. -/
def idleUntil (t : Nat) : Bool :=
  match s.phase with
  | .watching monitor interval =>
      t ≤ monitor && t ≤ interval && (t == s.now || (s.updates == 0 && !s.cancelled))
  | _ => true

end Sys

def step (s : Sys) : Action → Option Sys
  | .tick d =>
      if s.idleUntil (s.now + d) then some { s with now := s.now + d } else none
  | .check limitedCache kvm =>
      if s.phase = .starting then
        if limitedCache then
          some { s with state := failedState "no disks", phase := .stopped }
        else if !kvm then
          some { s with
            state := failedState
              "virtualization is not enabled. please enable in BIOS"
            phase := .stopped }
        else some { s.register with prompted := s.now }
      else none
  | .failed err =>
      if s.phase = .registering then some { s with state := failedState err } else none
  | .registered nodeID twinID =>
      if s.phase = .registering then
        some ({ s with state := doneState nodeID.toUInt32 twinID.toUInt32 } : Sys).proceed
      else none
  | .gaveUp =>
      if s.phase = .registering ∧ s.cancelled then some s.proceed else none
  | .subscribed err =>
      if s.phase = .subscribing then
        match err with
        | some _ => some { s with phase := .stopped }
        | none => some s.watch
      else none
  | .done =>
      match s.phase with
      | .watching _ _ => if s.cancelled then some s.watch else none
      | _ => none
  | .monitor =>
      match s.phase with
      | .watching monitor _ =>
          if monitor ≤ s.now then
            some { s with phase := .reactivating, since := s.now }
          else none
      | _ => none
  | .interval =>
      match s.phase with
      | .watching _ interval => if interval ≤ s.now then some s.register else none
      | _ => none
  | .address =>
      match s.phase with
      | .watching _ _ =>
          if 0 < s.updates then
            some ({ s with updates := s.updates - 1 } : Sys).register
          else none
      | _ => none
  | .reactivated _ => if s.phase = .reactivating then some s.watch else none
  -- the stream of them is there once the loop has been entered
  | .addressUpdate => if s.looping then some s.hear else none
  | .cancel => some { s with cancelled := true }

/-! ## The ids -/

/-- The errors `returnIfDone` answers with. -/
inductive IDError where
  | inProgress
  | failed (msg : String)
  deriving DecidableEq, Repr

/-- A read of the shared state: under the lock, or of a field without it. -/
inductive Read where
  | getState
  | state
  deriving DecidableEq

abbrev readSig : Sig := ⟨Read, fun _ => State⟩

abbrev getState : Prog readSig State := @perform readSig .getState

abbrev readState : Prog readSig State := @perform readSig .state

def returnIfDone (v : UInt32) : Prog readSig (Except IDError UInt32) := do
  let current ← readState
  if current.state = .failed then
    let current ← readState
    pure (.error (.failed current.msg))
  else
    let current ← readState
    if current.state = .done then pure (.ok v) else pure (.error .inProgress)

def NodeID : Prog readSig (Except IDError UInt32) := do
  let current ← getState
  returnIfDone current.nodeID

def TwinID : Prog readSig (Except IDError UInt32) := do
  let current ← getState
  returnIfDone current.twinID

end Zos4.Registrar
