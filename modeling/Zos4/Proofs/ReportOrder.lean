import Zos4.Interaction.Mutex
import Zos4.Power.Power

/-!
# The order of the reports

The reporter is not the only one to call `SendNow`: a node that is shut down reports once
more. Between the look at the uptime and the report that carries it the connection may take
its time, and without the mutex a report could be overtaken by one that looked later. With
it the uptimes reach the registrar in the order of time, whoever sends them, whichever
answers are lost and wherever a sender panics (`reports_in_order`).
-/

namespace Zos4.Power

open Zos4.Interaction Prog

/-- What `SendNow` does while it holds the mutex. -/
def report : PowerM (Option PowerError) := do
  match ← hostUptime with
  | .error err => pure (some (err.wrap "failed to get uptime"))
  | .ok uptime => updateNodeUptimeV2 uptime

theorem sendNow_eq : SendNow = (do
    let healthy ← isNodeHealthy
    if !healthy then pure none else report) := rfl

/-- The uptime of the host, and what the registrar has been told of it, the last report
first. -/
structure Reporting where
  uptime : UInt64
  reports : List UInt64

inductive Answered : (op : Op) → Reporting → op.Ret → Reporting → Prop
  | uptime {s : Reporting} : Answered .hostUptime s (.ok s.uptime) s
  | noUptime {s : Reporting} (err : PowerError) : Answered .hostUptime s (.error err) s
  /-- The report arrives, whether or not its sender hears of it. -/
  | arrived {s : Reporting} {uptime : UInt64} (answer : Option PowerError) :
      Answered (.updateNodeUptimeV2 uptime) s answer
        { s with reports := uptime :: s.reports }
  | refused {s : Reporting} {uptime : UInt64} (err : PowerError) :
      Answered (.updateNodeUptimeV2 uptime) s (some err) s

/-- The reports so far are in order, and none is ahead of time. -/
structure InOrder (s : Reporting) : Prop where
  sorted : s.reports.Pairwise (· ≥ ·)
  past : ∀ uptime ∈ s.reports, uptime ≤ s.uptime

/-- Time passes. -/
structure Passes (s s' : Reporting) : Prop where
  uptime : s.uptime ≤ s'.uptime
  reports : s'.reports = s.reports

def registrar : Service powerSig Reporting where
  reply := Answered
  others := Passes
  inv := InOrder
  refl _ := ⟨UInt64.le_refl _, rfl⟩
  trans h h' := ⟨UInt64.le_trans h.uptime h'.uptime, h'.reports.trans h.reports⟩

/-- A report that is not overtaken. -/
def Next : Op → Reporting → Prop
  | .updateNodeUptimeV2 uptime, s =>
      (∀ earlier ∈ s.reports, earlier ≤ uptime) ∧ uptime ≤ s.uptime
  | _, _ => True

theorem next_keeps : Client.Keeps registrar Next where
  reply op s r s' hinv hnext h := by
    cases h with
    | arrived answer =>
        refine ⟨List.pairwise_cons.mpr ⟨fun earlier h => hnext.1 earlier h, hinv.sorted⟩, ?_⟩
        exact List.forall_mem_cons.mpr ⟨hnext.2, hinv.past⟩
    | uptime => exact hinv
    | noUptime err => exact hinv
    | refused err => exact hinv
  others s s' hinv h := by
    refine ⟨?_, fun uptime hmem => ?_⟩
    · rw [h.reports]
      exact hinv.sorted
    · rw [h.reports] at hmem
      exact UInt64.le_trans (hinv.past uptime hmem) h.uptime

/-- While the mutex is held no report comes in, so all there are were there when the
uptime was looked at. -/
theorem report_served (s : Reporting) :
    report.Served registrar Next (fun _ _ => True) s := by
  refine served_perform_bind.mpr fun s₁ _ hinv => ⟨trivial, fun answer s₂ hlook => ?_⟩
  cases hlook with
  | noUptime err => exact fun _ _ _ => trivial
  | uptime =>
      intro s₂ hpasses _
      refine ⟨⟨fun earlier hmem => ?_, hpasses.uptime⟩, fun _ _ _ _ _ _ => trivial⟩
      rw [hpasses.reports] at hmem
      exact hinv.past earlier hmem

theorem reports_in_order {s : Reporting} {m : Mutex powerSig Reporting (Option PowerError)}
    (hnone : s.reports = []) (hrun : Mutex.Run registrar (· = report) (.start s) m) :
    m.state.reports.Pairwise (· ≥ ·) := by
  have hstart : InOrder s := by
    refine ⟨?_, ?_⟩
    · rw [hnone]
      exact .nil
    · rw [hnone]
      exact List.forall_mem_nil _
  have hserved : ∀ p, p = report → ∀ t, InOrder t →
      p.Served registrar Next (fun _ _ => True) t := by
    intro p hp t _
    rw [hp]
    exact report_served t
  exact (Mutex.run_holds next_keeps hserved (.start hstart) hrun).inv.sorted

namespace TwoSenders

abbrev Senders := Mutex powerSig Reporting (Option PowerError)

/-- The first sender has locked the mutex and the second waits for it. -/
def locked : Senders :=
  { ((Mutex.start ⟨60, []⟩ : Senders).goTo 0 (.waiting report)).goTo 1 (.waiting report)
      |>.goTo 0 (.inside report) with owner := some 0 }

/-- It looks at the uptime, and a minute goes by before it reports. -/
def looked : Senders :=
  { locked.goTo 0 (.inside (updateNodeUptimeV2 60)) with state := ⟨60, []⟩ }

def later : Senders := { looked with state := ⟨120, []⟩ }

def sent : Senders :=
  { later.goTo 0 (.inside (.ret none)) with state := ⟨120, [60]⟩ }

/-- Now the second is in its section. -/
def relocked : Senders :=
  { ({ sent.goTo 0 .outside with owner := none } : Senders).goTo 1 (.inside report) with
    owner := some 1 }

def relooked : Senders :=
  { relocked.goTo 1 (.inside (updateNodeUptimeV2 120)) with state := ⟨120, [60]⟩ }

def resent : Senders :=
  { relooked.goTo 1 (.inside (.ret none)) with state := ⟨120, [120, 60]⟩ }

theorem run : Mutex.Run registrar (· = report) (.start ⟨60, []⟩) resent := by
  have hlocked : Mutex.Run registrar (· = report) (.start ⟨60, []⟩) locked :=
    ((Relation.ReflTransGen.single (.lock rfl rfl)).tail (.lock rfl rfl)).tail
      (.locked rfl rfl)
  have hlooked : Mutex.Step registrar (· = report) locked looked :=
    @Mutex.Step.call _ _ _ _ _ locked 0 .hostUptime _ (.ok 60) _ rfl .uptime
  have hlater : Mutex.Step registrar (· = report) looked later := .others ⟨by decide, rfl⟩
  have hsent : Mutex.Step registrar (· = report) later sent :=
    @Mutex.Step.call _ _ _ _ _ later 0 (.updateNodeUptimeV2 60) _ none _ rfl
      (Answered.arrived none)
  have hrelocked : Mutex.Run registrar (· = report) sent relocked :=
    (Relation.ReflTransGen.single (.unlock rfl)).tail (.locked rfl rfl)
  have hrelooked : Mutex.Step registrar (· = report) relocked relooked :=
    @Mutex.Step.call _ _ _ _ _ relocked 1 .hostUptime _ (.ok 120) _ rfl .uptime
  have hresent : Mutex.Step registrar (· = report) relooked resent :=
    @Mutex.Step.call _ _ _ _ _ relooked 1 (.updateNodeUptimeV2 120) _ none _ rfl
      (Answered.arrived none)
  exact ((((hlocked.tail hlooked).tail hlater).tail hsent).trans hrelocked).tail hrelooked
    |>.tail hresent

end TwoSenders

theorem reports_in_order_two_senders : TwoSenders.resent.state.reports.Pairwise (· ≥ ·) :=
  reports_in_order rfl TwoSenders.run

end Zos4.Power
