import Zos4.Interaction.Steps
import Zos4.Power.Power

/-!
# The goroutines of powerd

`Uptime.Start` reports the uptime for ever, `PowerServer.events` waits for the
first report and then follows the power target. Each is a state machine whose
states are the places it waits at and the programs it runs in between, and the two
share the mark. `Mark` itself is not part of the repository: `Done` returns when
the mark has been signalled, or when its context is cancelled.

The server has the context that a signal cancels, the reporter the one this is
derived from. A panic ends what the reporter is at and is retried; in the server
nobody recovers it, and the process is gone. `log` is every call with its answer,
the last one first.
-/

namespace Zos4.Power

open Zos4.Interaction Prog

inductive Thread where
  | reporter
  | server
  deriving DecidableEq, Repr

inductive ReporterPhase where
  | sending (p : PowerM (Option PowerError))
  /-- Until the next report is due. -/
  | resting
  /-- After an error, before the next try. -/
  | retrying
  | exited

inductive ServerPhase where
  /-- In `Mark.Done`. -/
  | marking
  | syncing (p : PowerM (Option PowerError))
  | connecting
  | streaming
  | handling (p : PowerM (Option PowerError))
  | sleeping
  | exited

/-- The calls of both threads, the last one first. -/
abbrev Log := List (Thread × Entry powerSig)

/-- What a thread has done. -/
def Log.own (log : Log) (t : Thread) : Interaction.History powerSig :=
  (log.filter fun entry => entry.1 = t).map (·.2)

structure Sys where
  mark : Bool
  cancelled : Bool
  stopped : Bool
  reporter : ReporterPhase
  server : ServerPhase
  log : Log

def Sys.start : Sys where
  mark := false
  cancelled := false
  stopped := false
  reporter := .sending SendNow
  server := .marking
  log := []

/-- The answer the environment has ready for each call. -/
abbrev Answers := (op : Op) → op.Ret

inductive Action where
  /-- The program of the thread makes its next call. -/
  | call (t : Thread) (ans : Answers)
  /-- Its next call panics. -/
  | panics (t : Thread)
  /-- It has returned. -/
  | returns (t : Thread)
  /-- A wait ends because its time is over, or because of the context. -/
  | timer (t : Thread)
  | done (t : Thread)
  | marked
  | connected (err : Option PowerError)
  | received (event : PowerTargetChangeEvent)
  | closed
  | cancel
  | stop

def step (p : PowerServer) (s : Sys) : Action → Option Sys
  | .call .reporter ans =>
      match s.reporter with
      | .sending (.call op k) =>
          some { s with
            reporter := .sending (k (ans op))
            log := (.reporter, ⟨op, ans op⟩) :: s.log }
      | _ => none
  | .call .server ans =>
      match s.server with
      | .syncing (.call op k) =>
          some { s with
            server := .syncing (k (ans op))
            log := (.server, ⟨op, ans op⟩) :: s.log }
      | .handling (.call op k) =>
          some { s with
            server := .handling (k (ans op))
            log := (.server, ⟨op, ans op⟩) :: s.log }
      | _ => none
  | .panics .reporter =>
      match s.reporter with
      | .sending (.call _ _) => some { s with reporter := .retrying }
      | _ => none
  | .panics .server =>
      match s.server with
      | .syncing (.call _ _) | .handling (.call _ _) =>
          some { s with reporter := .exited, server := .exited }
      | _ => none
  | .returns .reporter =>
      match s.reporter with
      | .sending (.ret none) => some { s with mark := true, reporter := .resting }
      | .sending (.ret (some err)) =>
          if err.is .canceled then some { s with reporter := .exited }
          else some { s with reporter := .retrying }
      | _ => none
  | .returns .server =>
      match s.server with
      | .syncing (.ret none) => some { s with server := .connecting }
      | .handling (.ret none) => some { s with server := .streaming }
      | .syncing (.ret (some _)) | .handling (.ret (some _)) =>
          some { s with server := .sleeping }
      | _ => none
  | .timer .reporter =>
      match s.reporter with
      | .resting | .retrying => some { s with reporter := .sending SendNow }
      | _ => none
  | .timer .server =>
      match s.server with
      | .sleeping => some { s with server := .syncing p.syncSelf }
      | _ => none
  | .done .reporter =>
      match s.reporter with
      | .resting => if s.stopped then some { s with reporter := .exited } else none
      | _ => none
  | .done .server =>
      match s.server with
      | .sleeping => if s.cancelled then some { s with server := .exited } else none
      | _ => none
  | .marked =>
      match s.server with
      | .marking =>
          if s.mark || s.cancelled then some { s with server := .syncing p.syncSelf }
          else none
      | _ => none
  | .connected err =>
      match s.server with
      | .connecting =>
          match err with
          | some _ => some { s with server := .sleeping }
          | none => some { s with server := .streaming }
      | _ => none
  | .received event =>
      match s.server with
      | .streaming =>
          some { s with
            server := .handling (p.event event)
            log := (.server, ⟨.powerTargetChange, event⟩) :: s.log }
      | _ => none
  | .closed =>
      match s.server with
      | .streaming => some { s with server := .sleeping }
      | _ => none
  | .cancel => some { s with cancelled := true }
  | .stop => some { s with cancelled := true, stopped := true }

/-! ## What an action can do -/

/-- The ways the reporter goes on, and what it adds to the log. -/
inductive ReporterMoves (s : Sys) : Action → Sys → Prop
  | call {op : Op} {k : op.Ret → PowerM (Option PowerError)} {ans : Answers} :
      s.reporter = .sending (.call op k) →
      ReporterMoves s (.call .reporter ans)
        { s with
          reporter := .sending (k (ans op))
          log := (.reporter, ⟨op, ans op⟩) :: s.log }
  | reported : s.reporter = .sending (.ret none) →
      ReporterMoves s (.returns .reporter) { s with mark := true, reporter := .resting }
  | send {a : Action} : ReporterMoves s a { s with reporter := .sending SendNow }
  | wait {a : Action} (phase : ReporterPhase) :
      phase = .resting ∨ phase = .retrying ∨ phase = .exited →
      ReporterMoves s a { s with reporter := phase }

/-- The programs of the server. -/
def ServerPhase.running (phase : ServerPhase) (q : PowerM (Option PowerError)) : Prop :=
  phase = .syncing q ∨ phase = .handling q

/-- The ways the server goes on. -/
inductive ServerMoves (p : PowerServer) (s : Sys) : Action → Sys → Prop
  | call {op : Op} {k : op.Ret → PowerM (Option PowerError)} {ans : Answers}
      (phase : ServerPhase) : s.server.running (.call op k) →
      phase.running (k (ans op)) →
      ServerMoves p s (.call .server ans)
        { s with server := phase, log := (.server, ⟨op, ans op⟩) :: s.log }
  | marked : s.server = .marking → s.mark = true ∨ s.cancelled = true →
      ServerMoves p s .marked { s with server := .syncing p.syncSelf }
  | sync {a : Action} : s.server ≠ .marking →
      ServerMoves p s a { s with server := .syncing p.syncSelf }
  | received {event : PowerTargetChangeEvent} : s.server = .streaming →
      ServerMoves p s (.received event)
        { s with
          server := .handling (p.event event)
          log := (.server, ⟨.powerTargetChange, event⟩) :: s.log }
  | wait {a : Action} (reporter : ReporterPhase) (phase : ServerPhase) :
      s.server ≠ .marking → phase ≠ .marking → (∀ q, ¬ phase.running q) →
      reporter = s.reporter ∨ reporter = .exited →
      ServerMoves p s a { s with reporter := reporter, server := phase }

/-- Every action is one of the reporter, one of the server, or cancels a context. -/
inductive Moves (p : PowerServer) (s : Sys) (a : Action) : Sys → Prop
  | reporter {s' : Sys} : ReporterMoves s a s' → Moves p s a s'
  | server {s' : Sys} : ServerMoves p s a s' → Moves p s a s'
  | cancel (cancelled stopped : Bool) :
      Moves p s a { s with cancelled := cancelled, stopped := stopped }

/-- The server goes on to a phase in which it runs no program. -/
theorem Moves.waits {p : PowerServer} {s : Sys} {a : Action} {phase : ServerPhase}
    (hbefore : s.server ≠ .marking)
    (hphase : phase = .connecting ∨ phase = .streaming ∨ phase = .sleeping ∨
      phase = .exited) : Moves p s a { s with server := phase } := by
  refine .server (.wait s.reporter phase hbefore ?_ ?_ (.inl rfl))
  · rcases hphase with rfl | rfl | rfl | rfl <;> simp
  · rcases hphase with rfl | rfl | rfl | rfl <;> simp [ServerPhase.running]

theorem moves_of_step {p : PowerServer} {s s' : Sys} {a : Action}
    (h : step p s a = some s') : Moves p s a s' := by
  cases a with
  | call t ans =>
      cases t with
      | reporter =>
          simp only [step] at h
          split at h
          · next hphase => cases h; exact .reporter (.call hphase)
          · cases h
      | server =>
          simp only [step] at h
          split at h
          · next hphase => cases h; exact .server (.call _ (.inl hphase) (.inl rfl))
          · next hphase => cases h; exact .server (.call _ (.inr hphase) (.inr rfl))
          · cases h
  | panics t =>
      cases t with
      | reporter =>
          simp only [step] at h
          split at h
          · cases h; exact .reporter (.wait _ (.inr (.inl rfl)))
          · cases h
      | server =>
          simp only [step] at h
          split at h
          · next hphase =>
              cases h
              exact .server (.wait .exited .exited (by simp [hphase]) (by simp)
                (by simp [ServerPhase.running]) (.inr rfl))
          · next hphase =>
              cases h
              exact .server (.wait .exited .exited (by simp [hphase]) (by simp)
                (by simp [ServerPhase.running]) (.inr rfl))
          · cases h
  | returns t =>
      cases t with
      | reporter =>
          simp only [step] at h
          split at h
          · next hphase => cases h; exact .reporter (.reported hphase)
          · split at h
            · cases h; exact .reporter (.wait _ (.inr (.inr rfl)))
            · cases h; exact .reporter (.wait _ (.inr (.inl rfl)))
          · cases h
      | server =>
          simp only [step] at h
          split at h
          all_goals first
            | cases h; done
            | (next hphase =>
                cases h
                exact .waits (by simp [hphase]) (by simp))
  | timer t =>
      cases t with
      | reporter =>
          simp only [step] at h
          split at h
          · cases h; exact .reporter .send
          · cases h; exact .reporter .send
          · cases h
      | server =>
          simp only [step] at h
          split at h
          · next hphase => cases h; exact .server (.sync (by simp [hphase]))
          · cases h
  | done t =>
      cases t with
      | reporter =>
          simp only [step] at h
          split at h
          · split at h
            · cases h; exact .reporter (.wait _ (.inr (.inr rfl)))
            · cases h
          · cases h
      | server =>
          simp only [step] at h
          split at h
          · next hphase =>
              split at h
              · cases h
                exact .waits (by simp [hphase]) (by simp)
              · cases h
          · cases h
  | marked =>
      simp only [step] at h
      split at h
      · next hphase =>
          split at h
          · next hmark =>
              cases h
              rw [Bool.or_eq_true] at hmark
              exact .server (.marked hphase hmark)
          · cases h
      · cases h
  | connected err =>
      simp only [step] at h
      split at h
      · next hphase =>
          cases err with
          | some err =>
              cases h
              exact .waits (by simp [hphase]) (by simp)
          | none =>
              cases h
              exact .waits (by simp [hphase]) (by simp)
      · cases h
  | received event =>
      simp only [step] at h
      split at h
      · next hphase => cases h; exact .server (.received hphase)
      · cases h
  | closed =>
      simp only [step] at h
      split at h
      · next hphase =>
          cases h
          exact .waits (by simp [hphase]) (by simp)
      · cases h
  | cancel => cases h; exact .cancel _ _
  | stop => cases h; exact .cancel _ _

end Zos4.Power
