import Zos4.Interaction.Safe
import Zos4.Proofs.Reports

/-!
# Consumption windows

A round of `Run` reads the time of the last report, reports what was consumed
from then until now, and stores now as the time of the last report, in whole
seconds. The next window starts at what is stored, so no window is ever left
out: storing never runs ahead of what was reported.

That no window is billed twice hangs on the two writes being done together. If
the process dies, or the database fails, between the report going on the queue
and its time being stored, the next window starts where the last one did. And
if now is not a whole second, the part of the last second that was billed
belongs to the next window again.

`Reporter.prompt` excludes exactly these: a report is enqueued at a whole
second only, and while the end of a billed window is not stored no call of
`Run` fails and the process does not die. The round is then `Safe` for a
discipline whose invariant (`Billed`) has both halves of the claim, whatever
the pushers do to the queue in the meantime.
-/

namespace Zos4.Provisiond

open Zos4.Interaction Prog
open Zos4.Provision (GoRuntime)

/-! ## Seconds -/

theorem timeUnix_unix_le (t : Time) : timeUnix (unix t) ≤ t := by
  have h : ∀ t : Int, t / 1000000000 * 1000000000 ≤ t := by omega
  exact h t

theorem timeUnix_unix {t : Time} (hwhole : t % second = 0) :
    timeUnix (unix t) = t := by
  have h : ∀ t : Int, t % 1000000000 = 0 → t / 1000000000 * 1000000000 = t := by
    omega
  exact h t hwhole

/-- A stored time is a whole second. -/
theorem le_timeUnix_unix {ts : Int} {t : Time} (hle : timeUnix ts ≤ t) :
    timeUnix ts ≤ timeUnix (unix t) := by
  have h : ∀ ts t : Int, ts * 1000000000 ≤ t →
      ts * 1000000000 ≤ t / 1000000000 * 1000000000 := by omega
  exact h ts t hle

/-! ## Windows -/

/-- From the first time stored, the windows cover everything before `t`. -/
def Ledger.CoveredTo (l : Ledger) (t : Time) : Prop :=
  ∀ first, l.first = some first → ∀ x, timeUnix first ≤ x → x < t →
    ∃ w ∈ l.windows, w.since ≤ x ∧ x < w.now

/-- No billed window reaches past `t`. -/
def Ledger.SettledAt (l : Ledger) (t : Time) : Prop :=
  ∀ w ∈ l.windows, w.billed = true → w.now ≤ t

/-- The stored time is past every billed window. -/
def Ledger.Settled (l : Ledger) : Prop :=
  ∀ ts, l.last = some ts → l.SettledAt (timeUnix ts)

/-- A billed window ends after the stored time. -/
def Ledger.unsettled (l : Ledger) : Bool :=
  match l.last with
  | none => false
  | some ts => l.windows.any fun w => w.billed && timeUnix ts < w.now

theorem Ledger.settled_of_not {l : Ledger} (h : l.unsettled ≠ true) : l.Settled := by
  intro ts hlast w hw hbilled
  by_contra hlt
  apply h
  simp only [Ledger.unsettled, hlast, List.any_eq_true, Bool.and_eq_true,
    decide_eq_true_eq]
  exact ⟨w, hw, hbilled, Int.not_le.1 hlt⟩

theorem Ledger.CoveredTo.mono {l : Ledger} {t t' : Time} (h : l.CoveredTo t)
    (hle : t' ≤ t) : l.CoveredTo t' :=
  fun first hfirst x hx hlt => h first hfirst x hx (Int.lt_of_lt_of_le hlt hle)

/-! ## The discipline -/

/-- The invariant. The last two are the claim: every window's end is covered
back to the first time stored, and the billed windows are disjoint. -/
structure Billed (l : Ledger) : Prop where
  first : l.first = none ↔ l.last = none
  windows : l.last = none → l.windows = []
  clock : ∀ ts, l.last = some ts → timeUnix ts ≤ l.clock
  stored : ∀ ts, l.last = some ts → l.CoveredTo (timeUnix ts)
  covered : ∀ w ∈ l.windows, l.CoveredTo w.now
  disjoint : (l.windows.filter (·.billed)).Pairwise fun w w' => w.now ≤ w'.since

/-- Only `Run` reports and stores; the clock goes forward. -/
structure Apart (l l' : Ledger) : Prop where
  last : l'.last = l.last
  windows : l'.windows = l.windows
  first : l'.first = l.first
  clock : l.clock ≤ l'.clock

theorem Apart.billed {l l' : Ledger} (h : Apart l l') (hb : Billed l) : Billed l' where
  first := by
    rw [h.first, h.last]
    exact hb.first
  windows hlast := by
    rw [h.windows]
    exact hb.windows (h.last ▸ hlast)
  clock ts hlast := Int.le_trans (hb.clock ts (h.last ▸ hlast)) h.clock
  stored ts hlast := by
    have hc := hb.stored ts (h.last ▸ hlast)
    simpa only [Ledger.CoveredTo, h.first, h.windows] using hc
  covered := by
    have hc := hb.covered
    simpa only [Ledger.CoveredTo, h.first, h.windows] using hc
  disjoint := by
    rw [h.windows]
    exact hb.disjoint

/-- What is asked of the outside when a call is made. -/
structure Prompt (op : ReporterOp) (l : Ledger) : Prop where
  whole : ∀ since now report, op = .enqueue since now report → l.fails = none →
    now % second = 0
  stores : l.unsettled = true → l.fails = none

/-- What `Run` owes in return. -/
def Owed : ReporterOp → Ledger → Prop
  | .counter ts, l =>
      timeUnix ts ≤ l.clock ∧ (l.last = none ∨ l.CoveredTo (timeUnix ts))
  | .enqueue since _ _, l =>
      (∃ ts, l.last = some ts ∧ since = timeUnix ts) ∧ l.SettledAt since
  | .nothing since _, l => ∃ ts, l.last = some ts ∧ since = timeUnix ts
  | _, _ => True

def billing : Discipline reporterSig Ledger where
  handle := act
  inv := Billed
  rely := Apart
  assume := Prompt
  allow := Owed
  refl _ := ⟨rfl, rfl, rfl, Int.le_refl _⟩
  trans h h' := ⟨h'.last.trans h.last, h'.windows.trans h.windows,
    h'.first.trans h.first, Int.le_trans h.clock h'.clock⟩

/-- A window is added. -/
theorem Ledger.CoveredTo.add {l : Ledger} {t : Time} (h : l.CoveredTo t) (w : Window)
    (queue : List Entry) (next : Nat) :
    Ledger.CoveredTo { l with
      queue := queue, next := next, windows := l.windows ++ [w] } t := by
  intro first hfirst x hx hlt
  obtain ⟨w', hw', hin⟩ := h first hfirst x hx hlt
  exact ⟨w', List.mem_append_left _ hw', hin⟩

/-- And one that starts where the others end covers up to its own end. -/
theorem Ledger.CoveredTo.extend {l : Ledger} {w : Window} (h : l.CoveredTo w.since)
    (queue : List Entry) (next : Nat) :
    Ledger.CoveredTo { l with
      queue := queue, next := next, windows := l.windows ++ [w] } w.now := by
  intro first hfirst x hx hlt
  by_cases hold : x < w.since
  · exact (h.add w queue next) first hfirst x hx hold
  · exact ⟨w, List.mem_append_right _ (List.mem_singleton_self w),
      Int.not_lt.1 hold, hlt⟩

/-- A window that starts at the stored time, added to the record. -/
theorem Billed.window {l : Ledger} (h : Billed l) {w : Window}
    (hsince : ∃ ts, l.last = some ts ∧ w.since = timeUnix ts)
    (hbilled : w.billed = true → l.SettledAt w.since) (queue : List Entry)
    (next : Nat) :
    Billed { l with queue := queue, next := next, windows := l.windows ++ [w] } := by
  obtain ⟨ts, hlast, hts⟩ := hsince
  constructor
  · exact h.first
  · intro hnone
    rw [hlast] at hnone
    cases hnone
  · exact h.clock
  · exact fun ts' hlast' => (h.stored ts' hlast').add w queue next
  · intro w' hw'
    rcases List.mem_append.1 hw' with hw' | hw'
    · exact (h.covered w' hw').add w queue next
    · rw [List.mem_singleton.1 hw']
      exact (hts ▸ h.stored ts hlast).extend queue next
  · show ((l.windows ++ [w]).filter (·.billed)).Pairwise _
    rw [List.filter_append, List.pairwise_append]
    refine ⟨h.disjoint, ?_, ?_⟩
    · exact List.Pairwise.sublist List.filter_sublist (List.pairwise_singleton _ _)
    · intro w₁ hw₁ w₂ hw₂
      rw [List.mem_filter] at hw₁ hw₂
      obtain rfl := List.mem_singleton.1 hw₂.1
      exact hbilled hw₂.2 w₁ hw₁.1 hw₁.2

/-- The time of a report, stored. -/
theorem Billed.store {l : Ledger} (h : Billed l) {ts : Int}
    (hclock : timeUnix ts ≤ l.clock)
    (hcovered : l.last = none ∨ l.CoveredTo (timeUnix ts)) :
    Billed { l with last := some ts, first := l.first.or (some ts) } := by
  have hfirst : l.first.or (some ts) = none ↔ some ts = none := by
    cases l.first <;> simp
  have hclock' : ∀ ts', some ts = some ts' → timeUnix ts' ≤ l.clock := by
    intro ts' hlast
    obtain rfl := Option.some.inj hlast
    exact hclock
  cases hlast : l.last with
  | none =>
      -- the first time stored: nothing was reported before it
      have hwindows := h.windows hlast
      refine ⟨hfirst, (fun hnone => nomatch hnone), hclock', ?_, ?_, h.disjoint⟩
      · intro ts' hts first hf x hx hlt
        obtain rfl := Option.some.inj hts
        simp only [h.first.2 hlast, Option.none_or, Option.some.injEq] at hf
        subst hf
        exact absurd hlt (Int.not_lt.2 hx)
      · intro w hw
        simp only [hwindows] at hw
        cases hw
  | some old =>
      have hkeep : ∀ t, l.CoveredTo t → Ledger.CoveredTo
          { l with last := some ts, first := l.first.or (some ts) } t := by
        intro t ht first hf x hx hlt
        cases hold : l.first with
        | none =>
            rw [h.first.1 hold] at hlast
            cases hlast
        | some first' =>
            simp only [hold, Option.some_or] at hf
            exact ht first (hold.trans hf) x hx hlt
      rw [hlast] at hcovered
      have hts := hcovered.resolve_left (by simp)
      refine ⟨hfirst, (fun hnone => nomatch hnone), hclock', ?_, ?_, h.disjoint⟩
      · intro ts' heq
        obtain rfl := Option.some.inj heq
        exact hkeep _ hts
      · exact fun w hw => hkeep _ (h.covered w hw)

theorem billing_handle (op : ReporterOp) (l : Ledger) :
    billing.handle op l = act op l := rfl

/-- A call `Run` may make keeps the invariant. -/
theorem billing_preserves : billing.Preserves := by
  intro op l hb _ howed
  have heffect := act_effect op l
  show Billed (act op l).2
  generalize (act op l).2 = l' at heffect
  cases heffect with
  | none => exact hb
  | counter ts => exact hb.store howed.1 howed.2
  | enqueue since now report => exact hb.window howed.1 (fun _ => howed.2) _ _
  | nothing since now =>
      have hsince : ∃ ts, l.last = some ts ∧ since = timeUnix ts := howed
      exact hb.window (w := ⟨since, now, false⟩) hsince nofun l.queue l.next
  | publish item => exact ⟨hb.first, hb.windows, hb.clock, hb.stored, hb.covered, hb.disjoint⟩
  | dequeue item rest h =>
      exact ⟨hb.first, hb.windows, hb.clock, hb.stored, hb.covered, hb.disjoint⟩

/-! ## The round -/

theorem Apart.settledAt {l l' : Ledger} (h : Apart l l') {t : Time}
    (hs : l.SettledAt t) : l'.SettledAt t := by
  unfold Ledger.SettledAt
  rw [h.windows]
  exact hs

theorem Apart.coveredTo {l l' : Ledger} (h : Apart l l') {t : Time}
    (hc : l.CoveredTo t) : l'.CoveredTo t := by
  unfold Ledger.CoveredTo
  rw [h.windows, h.first]
  exact hc

/-- `ts` can be stored as the time of the last report. -/
structure Ledger.Storable (l : Ledger) (ts : Int) : Prop where
  clock : timeUnix ts ≤ l.clock
  covered : l.last = none ∨ l.CoveredTo (timeUnix ts)
  settled : l.SettledAt (timeUnix ts)

theorem Apart.storable {l l' : Ledger} (h : Apart l l') {ts : Int}
    (hs : l.Storable ts) : l'.Storable ts where
  clock := Int.le_trans hs.clock h.clock
  covered := by
    rw [h.last]
    exact hs.covered.imp_right h.coveredTo
  settled := h.settledAt hs.settled

/-- Where a call of `setLastReportTime` leads, given that no call fails before
a billed window is settled. -/
def Stored (ts : Int) (res : Option GoError) (l : Ledger) : Prop :=
  l.Settled ∧ (res = none → l.last = some ts)

/-- A failing call, in the middle of a round: the windows are settled. -/
theorem settled_of_fails {op : ReporterOp} {l : Ledger} {err : GoError}
    (h : Prompt op l) (hf : l.fails = some err) : l.Settled := by
  apply Ledger.settled_of_not
  intro hunsettled
  rw [h.stores hunsettled] at hf
  cases hf

theorem Apart.settled {l l' : Ledger} (h : Apart l l') (hs : l.Settled) :
    l'.Settled := by
  intro ts hlast
  exact h.settledAt (hs ts (h.last ▸ hlast))

theorem setLastReportTime_safe {ts : Int} {l : Ledger}
    (h : ∀ l', Apart l l' → Billed l' → l'.Storable ts) :
    (setLastReportTime ts).Safe billing (Stored ts) l := by
  rw [setLastReportTime, safe_perform_bind]
  intro l₁ h₁ hb₁ hp₁
  refine ⟨trivial, ?_⟩
  rw [billing_handle, act]
  cases hf₁ : l₁.fails with
  | some err =>
      rw [Ledger.try_fails hf₁]
      intro l₂ h₂ _
      exact ⟨h₂.settled (settled_of_fails hp₁ hf₁), by simp⟩
  | none =>
      rw [Ledger.try_ok hf₁]
      dsimp only
      rw [safe_perform_bind]
      intro l₂ h₂ hb₂ hp₂
      have hs₂ := h₂.storable (h l₁ h₁ hb₁)
      refine ⟨⟨hs₂.clock, hs₂.covered⟩, ?_⟩
      rw [billing_handle, act]
      cases hf₂ : l₂.fails with
      | some err =>
          rw [Ledger.try_fails hf₂]
          intro l₃ h₃ _
          exact ⟨h₃.settled (settled_of_fails hp₂ hf₂), by simp⟩
      | none =>
          rw [Ledger.try_ok hf₂]
          intro l₃ h₃ _
          have hlast : l₃.last = some ts := h₃.last
          refine ⟨?_, fun _ => hlast⟩
          intro ts' hts'
          obtain rfl := Option.some.inj (hlast.symm.trans hts')
          have hsettled := hs₂.settled
          simp only [Ledger.SettledAt] at hsettled ⊢
          rw [h₃.windows]
          exact hsettled

section

variable [KeyParts] [GoRuntime]

/-- What is known in a round once it knows the time of the last report. -/
structure Ledger.Since (l : Ledger) (lastReport : Int) : Prop where
  last : l.last = some lastReport
  settled : l.Settled

omit [KeyParts] [GoRuntime] in
theorem Apart.since {l l' : Ledger} (h : Apart l l') {lastReport : Int}
    (hs : l.Since lastReport) : l'.Since lastReport where
  last := h.last.trans hs.last
  settled := h.settled hs.settled

/-- Where `report` leads: on success its end can be stored. -/
def Reported (res : Time × Option GoError) (l : Ledger) : Prop :=
  match res with
  | (_, some _) => l.Settled
  | (ts, none) => l.Storable (unix ts)

omit [KeyParts] [GoRuntime] in
/-- The window of a report, in the record. -/
theorem Ledger.Since.storable {l : Ledger} {lastReport : Int}
    (h : l.Since lastReport) (hb : Billed l) {now : Time} {billed : Bool}
    (hnow : timeUnix lastReport ≤ now) (hclock : now ≤ l.clock)
    (hwhole : billed = true → now % second = 0) (queue : List Entry) (next : Nat) :
    Ledger.Storable { l with
      queue := queue
      next := next
      windows := l.windows ++ [⟨timeUnix lastReport, now, billed⟩] } (unix now) := by
  have hstored := hb.stored lastReport h.last
  constructor
  · exact Int.le_trans (timeUnix_unix_le now) hclock
  · right
    refine Ledger.CoveredTo.mono ?_ (timeUnix_unix_le now)
    exact Ledger.CoveredTo.extend
      (w := ⟨timeUnix lastReport, now, billed⟩) hstored queue next
  · intro w hw hbilled
    rcases List.mem_append.1 hw with hw | hw
    · exact Int.le_trans (h.settled lastReport h.last w hw hbilled)
        (le_timeUnix_unix hnow)
    · obtain rfl := List.mem_singleton.1 hw
      exact Int.le_of_eq (timeUnix_unix (hwhole hbilled)).symm

omit [KeyParts] [GoRuntime] in
theorem push_safe {lastReport : Int} {now : Time} {rep : Report} {l : Ledger}
    (h : ∀ l', Apart l l' → Billed l' → l'.Since lastReport ∧
      timeUnix lastReport ≤ now ∧ now ≤ l'.clock) :
    (push (timeUnix lastReport) now rep).Safe billing
      (fun err => Reported (now, err)) l := by
  unfold push
  split
  · rw [safe_perform_bind]
    intro l₁ h₁ hb₁ hp₁
    obtain ⟨hsince, hnow, hclock⟩ := h l₁ h₁ hb₁
    refine ⟨⟨lastReport, hsince.last, rfl⟩, ?_⟩
    have hwhole : false = true → now % second = 0 := nofun
    intro l₂ h₂ _
    exact h₂.storable
      (hsince.storable hb₁ hnow hclock hwhole l₁.queue l₁.next)
  · rw [← bind_pure (invoke _), safe_perform_bind]
    intro l₁ h₁ hb₁ hp₁
    obtain ⟨hsince, hnow, hclock⟩ := h l₁ h₁ hb₁
    refine ⟨⟨⟨lastReport, hsince.last, rfl⟩, hsince.settled lastReport hsince.last⟩, ?_⟩
    rw [billing_handle, act]
    rcases Option.eq_none_or_eq_some l₁.fails with hf | ⟨err, hf⟩
    · rw [Ledger.try_ok hf]
      have hwhole : true = true → now % second = 0 :=
        fun _ => hp₁.whole _ _ _ rfl hf
      intro l₂ h₂ _
      exact h₂.storable (hsince.storable hb₁ hnow hclock hwhole _ _)
    · rw [Ledger.try_fails hf]
      intro l₂ h₂ _
      exact h₂.settled hsince.settled

theorem report_safe {lastReport : Int} {l : Ledger}
    (h : ∀ l', Apart l l' → Billed l' → l'.Since lastReport) :
    (report (timeUnix lastReport)).Safe billing Reported l := by
  rw [report, safe_perform_bind]
  intro l₁ h₁ hb₁ _
  refine ⟨trivial, ?_⟩
  rw [billing_handle, act, safe_perform_bind]
  intro l₂ h₂ hb₂ _
  refine ⟨trivial, ?_⟩
  rw [billing_handle, act]
  have hsince := h₂.since (h l₁ h₁ hb₁)
  cases hf : l₂.fails with
  | some err =>
      intro l₃ h₃ _
      exact h₃.settled hsince.settled
  | none =>
      dsimp only
      refine Safe.bind_stable (push_safe ?_) ?_
      · intro l₃ h₃ hb₃
        refine ⟨h₃.since hsince, ?_, Int.le_trans h₂.clock h₃.clock⟩
        exact hb₁.clock lastReport (h l₁ h₁ hb₁).last
      · intro err l₃ hrep
        exact hrep

theorem collect_safe {lastReport u : Int} {l : Ledger}
    (h : ∀ l', Apart l l' → Billed l' → l'.Since lastReport) :
    (collect lastReport u).Safe billing (fun _ l => l.Settled) l := by
  rw [collect, safe_perform_bind]
  intro l₁ h₁ hb₁ _
  refine ⟨trivial, ?_⟩
  rw [billing_handle, act]
  have hsince := h l₁ h₁ hb₁
  cases hc : l₁.cancelled with
  | true =>
      intro l₂ h₂ _
      exact h₂.settled hsince.settled
  | false =>
      refine Safe.bind_stable (report_safe fun l₂ h₂ _ => h₂.since hsince) ?_
      rintro ⟨ts, err⟩ l₂ hrep
      cases err with
      | some err => exact fun l₃ h₃ hb₃ => hrep l₃ h₃ hb₃
      | none =>
          refine (setLastReportTime_safe hrep).bind_stable ?_
          intro res l₃ hstored
          cases res <;> exact fun l₄ h₄ hb₄ => (hstored l₄ h₄ hb₄).1

omit [KeyParts] [GoRuntime] in
theorem getLastReportTime_safe {l : Ledger} {t : Time} (h : l.Settled)
    (hclock : t ≤ l.clock) :
    getLastReportTime.Safe billing (fun res l => l.Settled ∧ t ≤ l.clock ∧
      ∀ stored, res = .ok stored → l.last = stored) l := by
  rw [getLastReportTime, safe_perform_bind]
  intro l₁ h₁ hb₁ hp₁
  refine ⟨trivial, ?_⟩
  rw [billing_handle, act]
  have hsettled := h₁.settled h
  have hclock₁ := Int.le_trans hclock h₁.clock
  cases hf : l₁.fails with
  | some err =>
      intro l₂ h₂ _
      exact ⟨h₂.settled hsettled, Int.le_trans hclock₁ h₂.clock, by simp⟩
  | none =>
      intro l₂ h₂ _
      refine ⟨h₂.settled hsettled, Int.le_trans hclock₁ h₂.clock, ?_⟩
      intro stored heq
      exact h₂.last.trans (Except.ok.inj heq)

/-- A round that starts settled ends settled, whatever happens in between. -/
theorem round_safe {l : Ledger} (h : l.Settled) :
    round.Safe billing (fun _ l => l.Settled) l := by
  rw [round, safe_perform_bind]
  intro l₁ h₁ hb₁ _
  refine ⟨trivial, ?_⟩
  rw [billing_handle, act]
  dsimp only
  refine (getLastReportTime_safe (h₁.settled h) (Int.le_refl l₁.clock)).bind_stable ?_
  intro res l₂ hread
  cases res with
  | error err => exact fun l₃ h₃ hb₃ => (hread l₃ h₃ hb₃).1
  | ok stored =>
      cases stored with
      | some lastReport =>
          refine collect_safe fun l₃ h₃ hb₃ => ?_
          obtain ⟨hsettled, _, hlast⟩ := hread l₃ h₃ hb₃
          exact ⟨hlast _ rfl, hsettled⟩
      | none =>
          have hstorable : ∀ l', Apart l₂ l' → Billed l' →
              l'.Storable (unix l₁.clock) := by
            intro l' h' hb'
            obtain ⟨_, hclock, hlast⟩ := hread l' h' hb'
            refine ⟨Int.le_trans (timeUnix_unix_le _) hclock, .inl (hlast _ rfl), ?_⟩
            intro w hw
            rw [hb'.windows (hlast _ rfl)] at hw
            cases hw
          refine (setLastReportTime_safe hstorable).bind_stable ?_
          intro res l₃ hstored
          cases res with
          | some err => exact fun l₄ h₄ hb₄ => (hstored l₄ h₄ hb₄).1
          | none =>
              refine collect_safe fun l₄ h₄ hb₄ => ?_
              obtain ⟨hsettled, hlast⟩ := hstored l₄ h₄ hb₄
              exact ⟨hlast rfl, hsettled⟩

/-! ## The pushers -/

/-- The pushers report and store nothing. -/
def Sending : ReporterOp → Prop
  | .counter _ | .enqueue _ _ _ | .nothing _ _ => False
  | _ => True

omit [KeyParts] [GoRuntime] in
theorem pushOne_within : pushOne.Within (fun _ _ => True) Sending := by
  refine within_perform_bind trivial fun item _ => ?_
  cases item with
  | error err => trivial
  | ok item =>
      refine within_perform_bind trivial fun res _ => ?_
      cases res with
      | some err => trivial
      | none => exact within_perform trivial

omit [KeyParts] [GoRuntime] in
theorem Effect.apart {op : ReporterOp} {l l' : Ledger} (h : Effect l op l')
    (hop : Sending op) : Apart l l' := by
  cases h with
  | counter ts => exact hop.elim
  | enqueue since now report => exact hop.elim
  | nothing since now => exact hop.elim
  | none => exact ⟨rfl, rfl, rfl, Int.le_refl _⟩
  | publish item => exact ⟨rfl, rfl, rfl, Int.le_refl _⟩
  | dequeue item rest hq => exact ⟨rfl, rfl, rfl, Int.le_refl _⟩

/-! ## The reporter -/

/-- What is asked of an action: see the head of the file. -/
def Reporter.prompt (s : Reporter) : ReporterAction → Bool
  | .main =>
      (!s.ledger.unsettled || s.ledger.fails == none) &&
        match s.main with
        | .call (.enqueue _ now _) _ => s.ledger.fails != none || now % second == 0
        | _ => true
  | .crash => !s.ledger.unsettled
  | _ => true

structure Reporter.Billing (s : Reporter) : Prop where
  billed : Billed s.ledger
  main : s.main.Safe billing (fun _ l => l.Settled) s.ledger
  pushers : ∀ p ∈ s.pushers, p.prog.Within (fun _ _ => True) Sending

omit [KeyParts] [GoRuntime] in
theorem Reporter.prompt_call {s : Reporter} {op : ReporterOp}
    {k : op.Ret → ReporterM Round} (hmain : s.main = .call op k)
    (h : s.prompt .main = true) : Prompt op s.ledger := by
  simp only [Reporter.prompt, hmain, Bool.and_eq_true, Bool.or_eq_true,
    Bool.not_eq_true', beq_iff_eq] at h
  obtain ⟨hstores, hwhole⟩ := h
  constructor
  · intro since now report hop hfails
    subst hop
    simpa [hfails] using hwhole
  · intro hunsettled
    simpa [hunsettled] using hstores

theorem Reporter.Billing.startRun {l : Ledger} {pushers : List Pusher} {n : Nat}
    (hbilled : Billed l) (hsettled : l.Settled)
    (hpushers : ∀ p ∈ pushers, p.prog.Within (fun _ _ => True) Sending) :
    (startRun n l pushers).Billing where
  billed := hbilled
  main := round_safe hsettled
  pushers p hp := by
    rcases List.mem_append.1 hp with hp | hp
    · exact hpushers p hp
    · rw [List.mem_singleton.1 hp]
      exact pushOne_within

omit [KeyParts] [GoRuntime] in
/-- One call of a pusher leaves the windows alone. -/
theorem Pusher.step_apart {p p' : Pusher} {l l' : Ledger}
    (hp : p.prog.Within (fun _ _ => True) Sending) (hs : p.step l = some (p', l')) :
    p'.prog.Within (fun _ _ => True) Sending ∧ Apart l l' := by
  unfold Pusher.step at hs
  split at hs
  · cases hs
  · next k hprog =>
      rw [hprog, within_call] at hp
      split at hs
      · cases hs
      · have hsame : (act .peekBlock l).2 = l := rfl
        split at hs
        · next item l₁ hact =>
            simp only [Option.some.injEq, Prod.mk.injEq] at hs
            obtain ⟨rfl, rfl⟩ := hs
            rw [hact] at hsame
            obtain rfl : l₁ = l := hsame
            exact ⟨hp.2 _ trivial, billing.refl _⟩
        · next err l₁ hact =>
            simp only [Option.some.injEq, Prod.mk.injEq] at hs
            obtain ⟨rfl, rfl⟩ := hs
            rw [hact] at hsame
            obtain rfl : l₁ = l := hsame
            exact ⟨hp.2 _ trivial, billing.refl _⟩
  · next op k _ hprog =>
      rw [hprog, within_call] at hp
      simp only [Option.some.injEq, Prod.mk.injEq] at hs
      obtain ⟨rfl, rfl⟩ := hs
      exact ⟨hp.2 _ trivial, (act_effect op l).apart hp.1⟩

theorem Reporter.Billing.step {s s' : Reporter} {a : ReporterAction}
    (h : s.Billing) (hprompt : s.prompt a = true) (hs : s.step a = some s') :
    s'.Billing := by
  -- a round that has returned has left everything settled
  have hreturned : ∀ res, s.main = .ret res → s.ledger.Settled := by
    intro res hmain
    have hsafe := h.main
    rw [hmain] at hsafe
    exact hsafe s.ledger (billing.refl _) h.billed
  cases Reporter.moves_of_step hs with
  | @outside elapsed fails cancelled values =>
      have hapart : Apart s.ledger { s.ledger with
          clock := s.ledger.clock + elapsed
          fails := fails
          cancelled := cancelled
          values := values } :=
        ⟨rfl, rfl, rfl, Int.le_add_of_nonneg_right (Int.natCast_nonneg elapsed)⟩
      exact ⟨hapart.billed h.billed, h.main.interfere hapart, h.pushers⟩
  | main hmain =>
      have hcall := Reporter.prompt_call hmain hprompt
      have hsafe := h.main
      rw [hmain] at hsafe
      obtain ⟨howed, hrest⟩ := hsafe s.ledger (billing.refl _) h.billed hcall
      exact ⟨billing_preserves _ s.ledger h.billed hcall howed, hrest, h.pushers⟩
  | again hmain => exact ⟨h.billed, round_safe (hreturned _ hmain), h.pushers⟩
  | rerun hmain => exact .startRun h.billed (hreturned _ hmain) h.pushers
  | push hp hpush =>
      obtain ⟨hwithin, hapart⟩ :=
        Pusher.step_apart (h.pushers _ (List.mem_of_getElem? hp)) hpush
      refine ⟨hapart.billed h.billed, h.main.interfere hapart, ?_⟩
      intro q hq
      rcases List.mem_or_eq_of_mem_set hq with hq | rfl
      · exact h.pushers q hq
      · exact hwithin
  | pushAgain =>
      refine ⟨h.billed, h.main, ?_⟩
      intro q hq
      rcases List.mem_or_eq_of_mem_set hq with hq | rfl
      · exact h.pushers q hq
      · exact pushOne_within
  | crash =>
      have hsettled : s.ledger.Settled := by
        apply Ledger.settled_of_not
        simpa [Reporter.prompt] using hprompt
      exact .startRun h.billed hsettled (by simp)

/-- The windows of the reports enqueued are disjoint, in order, and from the
first time stored on the windows leave no gap before any of their ends. -/
def Ledger.BilledOnce (l : Ledger) : Prop :=
  ((l.windows.filter (·.billed)).Pairwise fun w w' => w.now ≤ w'.since) ∧
    ∀ first, l.first = some first → ∀ w ∈ l.windows, ∀ x, timeUnix first ≤ x →
      x < w.now → ∃ w' ∈ l.windows, w'.since ≤ x ∧ x < w'.now

/-- Consumption is billed once, in every run in which reports are enqueued at
whole seconds and their times are stored before anything fails. -/
theorem windows_billed_once (clock : Time) (s : Reporter)
    (hrun : Steps Reporter.step (fun s a => s.prompt a = true)
      (freshReporter clock) s) : s.ledger.BilledOnce := by
  have hbilling : s.Billing := by
    refine hrun.invariant (fun s a s' h hprompt hs => h.step hprompt hs) ?_
    refine .startRun ?_ nofun fun _ hp => nomatch hp
    exact ⟨Iff.rfl, fun _ => rfl, nofun, nofun, nofun, .nil⟩
  exact ⟨hbilling.billed.disjoint,
    fun first hfirst w hw => hbilling.billed.covered w hw first hfirst⟩

end

/-! ## A window billed twice -/

/-- Two rounds, one after the other. -/
def billedTwoHours : Reporter :=
  letI := oneContract
  (follow Reporter.step Reporter.prompt (firstRound ++ secondRound ++ [.main, .main])
    (freshReporter 0)).get (by decide +kernel)

/-- Two reports, for the first and the second hour. -/
theorem windows_billed_once_two_hours :
    billedTwoHours.ledger.BilledOnce ∧ billedTwoHours.ledger.windows =
      [⟨0, 3600000000000, true⟩, ⟨3600000000000, 7200000000000, true⟩] :=
  letI := oneContract
  ⟨windows_billed_once 0 billedTwoHours
    (Steps.of_follow (fun _ _ h => h) _ (Option.some_get _).symm), by decide +kernel⟩

/-- The process dies when the second report is on the queue, and another hour
passes before the next one is made. -/
def billedAgain : Reporter :=
  letI := oneContract
  (follow Reporter.step (fun _ _ => true)
    (firstRound ++ secondRound ++ [.crash, .main, .main, hourPasses] ++
      List.replicate 4 .main) (freshReporter 0)).get (by decide +kernel)

/-- The second hour is billed twice. -/
theorem hour_billed_twice :
    letI := oneContract
    ¬ ∀ clock s, Steps Reporter.step (fun _ _ => True) (freshReporter clock) s →
      s.ledger.BilledOnce := by
  intro h
  let := oneContract
  have hrun : Steps Reporter.step (fun _ _ => True) (freshReporter 0) billedAgain :=
    Steps.of_follow (fun _ _ _ => trivial) _ (Option.some_get _).symm
  have hdisjoint := (h 0 billedAgain hrun).1
  revert hdisjoint
  decide +kernel

end Zos4.Provisiond
