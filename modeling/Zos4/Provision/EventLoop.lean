import Zos4.Interaction.Steps
import Zos4.Provision.Effects

/-!
# The event loop

`ContractEventHandler.Run`: a sync first, and then a loop that receives from the
two event channels and, once an hour, starts another sync that runs beside it.
What a channel holds is what the chain has sent and the loop has not received
yet.

The engine is not part of this system. A worker that takes jobs off the queue
is `engine`, which leaves any store behind, and what the store is then is for a
result to assume.
-/

namespace Zos4.Provision

open Zos4.Interaction Prog

variable [Zosbase] {σ μ : Type} [Storage σ]

structure ContractCancelledEvent where
  contract : ContractID
  twinId : TwinID
  deriving DecidableEq

structure ContractLockedEvent where
  contract : ContractID
  twinId : TwinID
  lock : Bool
  deriving DecidableEq

def handleCancelled (r : ContractEventHandler μ) (event : ContractCancelledEvent) :
    EngineM Unit :=
  logged (invoke r.engine (.deprovision event.twinId event.contract
    "contract canceled event received"))

def handleLocked (r : ContractEventHandler μ) (event : ContractLockedEvent) :
    EngineM Unit :=
  if event.lock then logged (invoke r.engine (.pause event.twinId event.contract))
  else logged (invoke r.engine (.resume event.twinId event.contract))

/-- Where `Run` is: in its first sync, or in the loop, in what is left of the
event it received last. -/
inductive Loop where
  | starting (p : EngineM (Option GoError))
  | cancelled (event : ContractCancelledEvent) (p : EngineM Unit)
  | locked (event : ContractLockedEvent) (p : EngineM Unit)

/-- `Run` is at its `select`. A first sync that failed has ended it. -/
def Loop.selects : Loop → Bool
  | .starting (.ret none) | .cancelled _ (.ret _) | .locked _ (.ret _) => true
  | _ => false

structure Listener (σ μ : Type) where
  world : World σ μ
  loop : Loop
  cancellation : List ContractCancelledEvent
  locking : List ContractLockedEvent
  /-- The syncs the ticker has started. -/
  syncs : List (EngineM (Option GoError))

namespace Listener

variable [GoRuntime]

/-- The process has just started. -/
def start (r : ContractEventHandler μ) (w : World σ μ) : Listener σ μ where
  world := w
  loop := .starting (sync r)
  cancellation := []
  locking := []
  syncs := []

inductive Action (σ : Type) where
  /-- The loop's goroutine makes its next call. -/
  | loop
  /-- Sync `i` makes its next call. -/
  | sync (i : Nat)
  | tick
  | receiveCancelled
  | receiveLocked
  /-- The chain moves, and sends its events. -/
  | outside (chain : Chain) (gateway : Gateway)
      (cancelled : List ContractCancelledEvent) (locked : List ContractLockedEvent)
  /-- The engine is done with the head of its queue. -/
  | engine (store : σ)

/-- The next call of the loop's goroutine. -/
def advanceLoop (e : NativeEngine μ) : Loop → World σ μ → Option (Loop × World σ μ)
  | .starting (.call op k), w =>
      some (.starting (k (exec e op w).1), (exec e op w).2)
  | .cancelled event (.call op k), w =>
      some (.cancelled event (k (exec e op w).1), (exec e op w).2)
  | .locked event (.call op k), w =>
      some (.locked event (k (exec e op w).1), (exec e op w).2)
  | _, _ => none

def step (r : ContractEventHandler μ) (s : Listener σ μ) :
    Action σ → Option (Listener σ μ)
  | .loop =>
      match advanceLoop r.engine s.loop s.world with
      | none => none
      | some (loop, w) => some { s with loop := loop, world := w }
  | .sync i =>
      match s.syncs[i]? with
      | some (.call op k) =>
          some { s with
            world := (exec r.engine op s.world).2
            syncs := s.syncs.set i (k (exec r.engine op s.world).1) }
      | _ => none
  | .tick =>
      if s.loop.selects then
        some { s with syncs := s.syncs ++ [Provision.sync r] }
      else none
  | .receiveCancelled =>
      match s.loop.selects, s.cancellation with
      | true, event :: rest =>
          some { s with
            loop := .cancelled event (handleCancelled r event)
            cancellation := rest }
      | _, _ => none
  | .receiveLocked =>
      match s.loop.selects, s.locking with
      | true, event :: rest =>
          some { s with
            loop := .locked event (handleLocked r event)
            locking := rest }
      | _, _ => none
  | .outside chain gateway cancelled locked =>
      some { s with
        world := { s.world with chain := chain, gateway := gateway }
        cancellation := s.cancellation ++ cancelled
        locking := s.locking ++ locked }
  | .engine store =>
      match s.world.queue with
      | [] => none
      | _ :: rest =>
          some { s with world := { s.world with store := store, queue := rest } }

/-- All events are handled, no sync is under way, and the queue is drained. -/
structure Quiet (s : Listener σ μ) : Prop where
  loop : s.loop.selects = true
  locking : s.locking = []
  syncs : ∀ p ∈ s.syncs, ∃ result, p = .ret result
  queue : s.world.queue = []

end Listener

end Zos4.Provision
