import Zos4.Proofs.PowerDown

/-!
# The first uptime report

The mark stands for "an uptime has been reported", and the server waits for it
before it looks at the power target. There are two ways around. `SendNow` returns
without an error where the node is not healthy, and the reporter signals the mark
all the same; and `Mark.Done` returns an error where its context has been cancelled,
and the server ignores it.

`ReportsFirst` rules out exactly these: when the reporter comes back from a health
check that failed, or the server from a wait that was cut short, an uptime has been
reported before. Under it the order holds in every state (`uptime_first`), and a step
against it leads to a state where it does not.
-/

namespace Zos4.Power

open Zos4.Interaction Prog

/-- An uptime has been reported. -/
def Reported (log : Log) : Prop :=
  ∃ t uptime, (t, (⟨.updateNodeUptimeV2 uptime, none⟩ : Entry powerSig)) ∈ log

theorem Reported.cons {log : Log} (h : Reported log) (entry : Thread × Entry powerSig) :
    Reported (entry :: log) := by
  obtain ⟨t, uptime, hmem⟩ := h
  exact ⟨t, uptime, List.mem_cons_of_mem entry hmem⟩

theorem mem_of_mem_own {log : Log} {t : Thread} {entry : Entry powerSig}
    (h : entry ∈ log.own t) : (t, entry) ∈ log := by
  simp only [Log.own, List.mem_map, List.mem_filter, decide_eq_true_eq] at h
  obtain ⟨⟨t', entry'⟩, ⟨hmem, rfl⟩, rfl⟩ := h
  exact hmem

/-- The mark is signalled, and the server makes a call, only after a report. -/
def Sys.UptimeFirst (s : Sys) : Prop :=
  (s.mark = true → Reported s.log) ∧
    ∀ recent entry past, s.log = recent ++ (.server, entry) :: past → Reported past

/-! ## What `SendNow` has done -/

/-- The last thing done is a health check, and the node was found not healthy. -/
def Unhealthy (past : Interaction.History powerSig) : Prop :=
  ∃ notReachable limited readonly rest,
    past = ⟨.checkFlag .notReachable, notReachable⟩ ::
      ⟨.checkFlag .limitedCache, limited⟩ ::
      ⟨.checkFlag .readonlyCache, readonly⟩ :: rest ∧
    (readonly = true ∨ limited = true)

/-- The last thing done is a report that went through. -/
def JustReported (past : Interaction.History powerSig) : Prop :=
  ∃ uptime rest, past = ⟨.updateNodeUptimeV2 uptime, none⟩ :: rest

theorem JustReported.reported {log : Log} {t : Thread}
    (h : JustReported (log.own t)) : Reported log := by
  obtain ⟨uptime, rest, hown⟩ := h
  exact ⟨t, uptime, mem_of_mem_own (hown ▸ List.mem_cons_self)⟩

/-- What is returned after which history. -/
def Outcome (err : Option PowerError) (past : Interaction.History powerSig) : Prop :=
  (err = none → JustReported past ∨ Unhealthy past) ∧ (Unhealthy past → err = none)

/-- An answer that is not the one to a flag was not given in a health check. -/
theorem not_unhealthy {past : Interaction.History powerSig} {entry : Entry powerSig}
    (h : ∀ flag, entry.1 ≠ .checkFlag flag) : ¬ Unhealthy (entry :: past) := by
  intro hunhealthy
  obtain ⟨notReachable, limited, readonly, rest, hpast, -⟩ := hunhealthy
  obtain ⟨rfl, -⟩ := List.cons.inj hpast
  exact h .notReachable rfl

abbrev Ends (q : PowerM (Option PowerError)) (past : Interaction.History powerSig) :
    Prop :=
  q.Traced (fun _ => True) (fun _ _ => True) Outcome past

theorem SendNow_ends (past : Interaction.History powerSig) : Ends SendNow past := by
  -- the three flags are read whatever they are
  refine ⟨trivial, fun readonly _ => ⟨trivial, fun limited _ => ⟨trivial, ?_⟩⟩⟩
  intro notReachable _
  show Ends (if (!(!readonly && !limited)) = true then pure none else _) _
  split
  · next hunhealthy =>
      have hunhealthy : Unhealthy (⟨.checkFlag .notReachable, notReachable⟩ ::
          ⟨.checkFlag .limitedCache, limited⟩ ::
          ⟨.checkFlag .readonlyCache, readonly⟩ :: past) := by
        refine ⟨notReachable, limited, readonly, past, rfl, ?_⟩
        cases readonly <;> simp_all
      exact ⟨fun _ => .inr hunhealthy, fun _ => rfl⟩
  · refine ⟨trivial, fun uptime _ => ?_⟩
    cases uptime with
    | error err => exact ⟨nofun, fun h => absurd h (not_unhealthy (by simp))⟩
    | ok uptime =>
        refine ⟨trivial, fun err _ => ?_⟩
        constructor
        · intro hnone
          have hnone : err = none := hnone
          subst hnone
          exact .inl ⟨uptime, _, rfl⟩
        · exact fun h => absurd h (not_unhealthy (by simp))

/-! ## The condition -/

/-- When the reporter returns from a failed health check, or `Mark.Done` returns, an
uptime has been reported before. -/
def ReportsFirst (s : Sys) : Action → Prop
  | .returns .reporter => Unhealthy (s.log.own .reporter) → Reported s.log
  | .marked => s.mark = true ∨ Reported s.log
  | _ => True

variable {p : PowerServer}

/-- The reporter is in a `SendNow`. -/
def Sys.Reporting (s : Sys) : Prop :=
  ∀ q, s.reporter = .sending q → Ends q (s.log.own .reporter)

theorem reporting_step {s s' : Sys} {a : Action} (hs : s.Reporting)
    (h : step p s a = some s') : s'.Reporting := by
  cases moves_of_step h with
  | cancel => exact hs
  | reporter hmoves =>
      cases hmoves with
      | call hphase =>
          intro q hq
          obtain rfl := ReporterPhase.sending.inj hq
          show Ends _ (Log.own (_ :: s.log) .reporter)
          rw [Log.own_cons_self]
          exact (hs _ hphase).2 _ trivial
      | reported => exact fun q hq => nomatch hq
      | send =>
          intro q hq
          obtain rfl := ReporterPhase.sending.inj hq
          exact SendNow_ends _
      | wait phase hphase =>
          intro q hq
          have hq : phase = .sending q := hq
          subst hq
          simp at hphase
  | server hmoves =>
      cases hmoves with
      | call | marked | sync | received => exact hs
      | wait reporter phase _ _ _ hreporter =>
          intro q hq
          have hq : reporter = .sending q := hq
          subst hq
          rcases hreporter with hreporter | hreporter
          · exact hs q hreporter.symm
          · cases hreporter

/-- What the order rests on: once the server is past the mark, there is a report. -/
structure Sys.Staged (s : Sys) : Prop where
  reporting : s.Reporting
  first : s.UptimeFirst
  past : s.server ≠ .marking → Reported s.log

/-- The server makes a call after a report. -/
theorem Sys.UptimeFirst.cons {s : Sys} (hs : s.UptimeFirst) (t : Thread)
    (entry : Entry powerSig) (ht : t = .server → Reported s.log) :
    ({ s with log := (t, entry) :: s.log } : Sys).UptimeFirst := by
  refine ⟨fun hmark => (hs.1 hmark).cons _, fun recent entry' past hsplit => ?_⟩
  cases recent with
  | nil =>
      obtain ⟨hentry, rfl⟩ := List.cons.inj hsplit
      exact ht (Prod.mk.inj hentry).1
  | cons first recent => exact hs.2 recent entry' past (List.cons.inj hsplit).2

theorem staged_step {s s' : Sys} {a : Action} (hs : s.Staged) (hok : ReportsFirst s a)
    (h : step p s a = some s') : s'.Staged := by
  refine ⟨reporting_step hs.reporting h, ?_, ?_⟩
  · cases moves_of_step h with
    | cancel => exact hs.first
    | reporter hmoves =>
        cases hmoves with
        | call => exact hs.first.cons .reporter _ nofun
        | reported hphase =>
            refine ⟨fun _ => ?_, hs.first.2⟩
            -- nothing has gone wrong, so this is a report or a failed health check
            rcases (hs.reporting _ hphase).1 rfl with hreport | hunhealthy
            · exact hreport.reported
            · exact hok hunhealthy
        | send | wait => exact hs.first
    | server hmoves =>
        cases hmoves with
        | call phase hphase =>
            refine hs.first.cons .server _ fun _ => hs.past ?_
            intro hmarking
            rw [hmarking] at hphase
            rcases hphase with hphase | hphase <;> cases hphase
        | received hphase => exact hs.first.cons .server _ fun _ => hs.past (by simp [hphase])
        | marked | sync | wait => exact hs.first
  · intro hpast
    cases moves_of_step h with
    | cancel => exact hs.past hpast
    | reporter hmoves =>
        cases hmoves with
        | call => exact (hs.past hpast).cons _
        | reported | send | wait => exact hs.past hpast
    | server hmoves =>
        cases hmoves with
        | call phase hphase =>
            refine (hs.past ?_).cons _
            intro hmarking
            rw [hmarking] at hphase
            rcases hphase with hphase | hphase <;> cases hphase
        | received hphase => exact (hs.past (by simp [hphase])).cons _
        | marked => exact hok.elim hs.first.1 fun hreported => hreported
        | sync hphase => exact hs.past hphase
        | wait reporter phase hphase => exact hs.past hphase

theorem staged_start : Sys.start.Staged := by
  refine ⟨fun q hq => ?_, ⟨nofun, fun recent _ _ hsplit => ?_⟩, fun h => absurd rfl h⟩
  · obtain rfl := ReporterPhase.sending.inj hq
    exact SendNow_ends []
  · cases recent <;> cases hsplit

/-! ## Against the condition -/

/-- A step against the condition breaks the order, at once or with the next call of the
server. -/
theorem broken_of_not_reportsFirst {s s' : Sys} {a : Action} (hs : s.Reporting)
    (h : step p s a = some s') (hnot : ¬ ReportsFirst s a) :
    ∃ s'', Steps (step p) (fun _ _ => True) s' s'' ∧ ¬ s''.UptimeFirst := by
  unfold ReportsFirst at hnot
  split at hnot
  · obtain ⟨hunhealthy, hunreported⟩ := Classical.not_imp.mp hnot
    simp only [step] at h
    split at h
    · cases h
      exact ⟨_, .refl _, fun hfirst => hunreported (hfirst.1 rfl)⟩
    · next err hphase => cases (hs _ hphase).2 hunhealthy
    · cases h
  · simp only [step] at h
    split at h
    · split at h
      · cases h
        -- the server reads the power target next
        refine ⟨_, .tail (a := .call .server downAnswers) (.refl _) trivial rfl, ?_⟩
        exact fun hfirst => hnot (.inr (hfirst.2 [] _ s.log rfl))
      · cases h
    · cases h
  · exact absurd trivial hnot

/-- Under the condition the mark is signalled and the server acts only after a report,
in every state; and a step of any run that is against it leads to where that fails. -/
theorem uptime_first (p : PowerServer) :
    (∀ s, Steps (step p) ReportsFirst .start s → s.UptimeFirst) ∧
      ∀ s a s', Steps (step p) (fun _ _ => True) .start s → step p s a = some s' →
        ¬ ReportsFirst s a →
        ∃ s'', Steps (step p) (fun _ _ => True) s' s'' ∧ ¬ s''.UptimeFirst := by
  constructor
  · intro s hrun
    have hs : s.Staged :=
      hrun.invariant (fun _ _ _ hs hok h => staged_step hs hok h) staged_start
    exact hs.first
  · intro s a s' hrun h hnot
    have hs : s.Reporting :=
      hrun.invariant (fun _ _ _ hs _ h => reporting_step hs h) staged_start.reporting
    exact broken_of_not_reportsFirst hs h hnot

/-! ## Runs -/

/-- A node with a cache that is read only, and otherwise as in `downAnswers`. -/
def readonlyAnswers : Answers
  | .checkFlag .readonlyCache => true
  | op => downAnswers op

/-- The health check of the first report fails. -/
def unhealthyRun : List Action :=
  List.replicate 3 (.call .reporter readonlyAnswers) ++ [.returns .reporter]

/-- The mark has been signalled. -/
def unhealthyEnd : Sys :=
  (follow (step ⟨true, 1, 7⟩) (fun _ _ => true) unhealthyRun .start).get (by decide +kernel)

/-- `Reported` as a test. -/
def reports (log : Log) : Bool :=
  log.any fun entry =>
    match entry with
    | (_, ⟨.updateNodeUptimeV2 _, none⟩) => true
    | _ => false

theorem reports_iff {log : Log} : reports log = true ↔ Reported log := by
  rw [reports, List.any_eq_true]
  constructor
  · intro h
    obtain ⟨entry, hmem, hentry⟩ := h
    split at hentry
    · next t uptime => exact ⟨t, uptime, hmem⟩
    · cases hentry
  · intro h
    obtain ⟨t, uptime, hmem⟩ := h
    exact ⟨_, hmem, rfl⟩

/-- Enough for `ReportsFirst`, as a test. -/
def reportsFirst (s : Sys) : Action → Bool
  | .returns .reporter | .marked => reports s.log
  | _ => true

theorem reportsFirst_sound {s : Sys} {a : Action} (h : reportsFirst s a = true) :
    ReportsFirst s a := by
  unfold reportsFirst at h
  split at h
  · exact fun _ => reports_iff.mp h
  · exact .inr (reports_iff.mp h)
  · next hreturns hmarked =>
      unfold ReportsFirst
      split
      · exact absurd rfl hreturns
      · exact absurd rfl hmarked
      · trivial

/-- The run that ends with the node turned off reports before that. -/
def reportedEnd : Sys :=
  (follow (step ⟨true, 1, 7⟩) reportsFirst downRun .start).get (by decide +kernel)

theorem uptime_first_reported :
    reportedEnd.UptimeFirst ∧ reportedEnd.mark = true ∧ reportedEnd.log.length = 13 :=
  ⟨(uptime_first ⟨true, 1, 7⟩).1 _
      (Steps.of_follow (fun _ _ => reportsFirst_sound) downRun (Option.some_get _).symm),
    by decide +kernel, by decide +kernel⟩

/-- The mark of a node that is not healthy is signalled without a report. -/
theorem marked_unhealthy :
    ¬ ∀ s, Steps (step ⟨true, 1, 7⟩) (fun _ _ => True) .start s → s.UptimeFirst := by
  intro h
  have hrun : Steps (step ⟨true, 1, 7⟩) (fun _ _ => True) .start unhealthyEnd :=
    Steps.of_follow (fun _ _ _ => trivial) _ (Option.some_get _).symm
  have hreported := reports_iff.mpr ((h _ hrun).1 (by decide +kernel))
  exact absurd hreported (by decide +kernel)

end Zos4.Power
