import Zos4.Provisiond.Reporter
import Zos4.Provision.Reference

/-!
# Reports on the queue are not dropped

`pushOne` peeks at the queue, sends what it saw and then removes the head, and
it takes for granted that the head is still what it saw. That is so as long as
one pusher is at work. But a `Run` that has returned leaves its pusher behind
inside `pushOne`, and the next `Run` starts another: both may peek at one
report, both send it, and the second removal takes the report after it, which
nobody has sent.

`Reporter.steady` is the condition that this does not happen, at the one call
where it matters: a pusher removes the head only while the head is the item it
has peeked. Under it the reports removed are reports sent, in every state of
every run, whatever fails, whenever `Run` is started again and however the
pushers interleave. The invariant says at which point of `pushOne` each pusher
is (`Pusher.Stage`), and that past the call to the registrar its item has been
sent.
-/

namespace Zos4.Provisiond

open Zos4.Interaction Prog
open Zos4.Provision (GoRuntime)

/-! ## The condition -/

/-- The pusher is about to remove the head of the queue. -/
def Pusher.removing (p : Pusher) : Bool :=
  match p.prog with
  | .call .dequeue _ => true
  | _ => false

/-- Where a pusher removes the head, it is the item it holds. -/
def Reporter.steady (s : Reporter) : ReporterAction → Bool
  | .push i =>
      match s.pushers[i]? with
      | none => true
      | some p => !p.removing || s.ledger.queue.head? == p.held
  | _ => true

/-! ## What the calls leave alone -/

/-- Nothing is ever unsent. -/
theorem Effect.sent {op : ReporterOp} {l l' : Ledger} (h : Effect l op l')
    {e : Entry} (he : e ∈ l.sent) : e ∈ l'.sent := by
  cases h with
  | publish item => exact List.mem_append_left _ he
  | _ => exact he

/-- Only the removal removes. -/
theorem Effect.removed {op : ReporterOp} {l l' : Ledger} (h : Effect l op l')
    (hop : op ≠ .dequeue) : l'.removed = l.removed := by
  cases h with
  | dequeue item rest hq => exact absurd rfl hop
  | _ => rfl

/-- `Run` itself takes nothing off the queue. -/
def Reporting (op : ReporterOp) : Prop := op ≠ .dequeue

section

variable [KeyParts] [GoRuntime] {R : (op : ReporterOp) → op.Ret → Prop}

omit [KeyParts] [GoRuntime] in
theorem setLastReportTime_within (ts : Int) :
    (setLastReportTime ts).Within R Reporting := by
  refine within_perform_bind nofun fun res _ => ?_
  cases res with
  | some err => trivial
  | none =>
      refine within_perform_bind nofun fun res _ => ?_
      cases res <;> trivial

theorem collect_within (lastReport u : Int) :
    (collect lastReport u).Within R Reporting := by
  refine within_perform_bind nofun fun cancelled _ => ?_
  cases cancelled with
  | true => trivial
  | false =>
      refine within_bind ?_ fun res => ?_
      · refine within_perform_bind nofun fun now _ => ?_
        refine within_perform_bind nofun fun values _ => ?_
        cases values with
        | error err => trivial
        | ok values =>
            refine within_bind ?_ fun _ => trivial
            unfold push
            split
            · exact within_perform_bind nofun fun _ _ => trivial
            · exact within_perform nofun
      · obtain ⟨ts, err⟩ := res
        cases err with
        | some err => trivial
        | none =>
            refine within_bind (setLastReportTime_within _) fun res => ?_
            cases res <;> trivial

theorem round_within : round.Within R Reporting := by
  refine within_perform_bind nofun fun now _ => ?_
  refine within_bind ?_ fun stored => ?_
  · refine within_perform_bind nofun fun stored _ => ?_
    cases stored <;> trivial
  · cases stored with
    | error err => trivial
    | ok stored =>
        cases stored with
        | some lastReport => exact collect_within _ _
        | none =>
            refine within_bind (setLastReportTime_within _) fun res => ?_
            cases res with
            | some err => trivial
            | none => exact collect_within _ _

end

/-! ## Where the pushers are -/

/-- The points of `pushOne`. Past the call to the registrar, the item held has
been sent. -/
inductive Pusher.Stage (l : Ledger) : Pusher → Prop
  | start (n : Nat) : Pusher.Stage l ⟨n, pushOne, none⟩
  | peeked (n : Nat) (item : Entry) : Pusher.Stage l ⟨n, publish item, some item⟩
  | reported (n : Nat) (item : Entry) (h : item ∈ l.sent) :
      Pusher.Stage l ⟨n, remove, some item⟩
  | returned (n : Nat) (res : Option GoError) (held : Option Entry) :
      Pusher.Stage l ⟨n, .ret res, held⟩

/-- The others only ever send more. -/
theorem Pusher.Stage.mono {l l' : Ledger} {p : Pusher} (h : p.Stage l)
    (hsent : ∀ e ∈ l.sent, e ∈ l'.sent) : p.Stage l' := by
  cases h with
  | start n => exact .start n
  | peeked n item => exact .peeked n item
  | reported n item hitem => exact .reported n item (hsent item hitem)
  | returned n res held => exact .returned n res held

/-- One call of a pusher leads to the next point, and what it takes off the
queue has been sent if it was the item held. -/
theorem Pusher.Stage.step {l l' : Ledger} {p p' : Pusher} (h : p.Stage l)
    (hs : p.step l = some (p', l'))
    (hsteady : p.removing = true → l.queue.head? = p.held)
    (hremoved : ∀ e ∈ l.removed, e ∈ l.sent) :
    p'.Stage l' ∧ (∀ e ∈ l.sent, e ∈ l'.sent) ∧ ∀ e ∈ l'.removed, e ∈ l'.sent := by
  cases h with
  | returned n res held => simp [Pusher.step] at hs
  | start n =>
      simp only [Pusher.step, pushOne, invoke, perform, call_bind, act] at hs
      split at hs
      · cases hs
      · cases hf : l.fails with
        | some err =>
            simp only [hf, Option.some.injEq, Prod.mk.injEq] at hs
            obtain ⟨rfl, rfl⟩ := hs
            exact ⟨.returned _ _ _, fun _ he => he, hremoved⟩
        | none =>
            cases hq : l.queue with
            | nil =>
                simp only [hf, hq, Option.some.injEq, Prod.mk.injEq] at hs
                obtain ⟨rfl, rfl⟩ := hs
                exact ⟨.returned _ _ _, fun _ he => he, hremoved⟩
            | cons item rest =>
                simp only [hf, hq, Option.some.injEq, Prod.mk.injEq] at hs
                obtain ⟨rfl, rfl⟩ := hs
                exact ⟨.peeked _ item, fun _ he => he, hremoved⟩
  | peeked n item =>
      simp only [Pusher.step, publish, invoke, perform, call_bind, act,
        Ledger.try] at hs
      cases hf : l.fails with
      | some err =>
          simp only [hf, Option.some.injEq, Prod.mk.injEq] at hs
          obtain ⟨rfl, rfl⟩ := hs
          exact ⟨.returned _ _ _, fun _ he => he, hremoved⟩
      | none =>
          simp only [hf, Option.some.injEq, Prod.mk.injEq] at hs
          obtain ⟨rfl, rfl⟩ := hs
          have hsent : ∀ e ∈ l.sent, e ∈ l.sent ++ [item] :=
            fun e he => List.mem_append_left _ he
          refine ⟨.reported _ item ?_, hsent, ?_⟩
          · exact List.mem_append_right _ (List.mem_singleton_self item)
          · intro e he
            exact hsent e (hremoved e he)
  | reported n item hitem =>
      have hhead : l.queue.head? = some item := hsteady rfl
      cases hq : l.queue with
      | nil =>
          rw [hq] at hhead
          cases hhead
      | cons head rest =>
          rw [hq] at hhead
          obtain rfl : head = item := Option.some.inj hhead
          simp only [Pusher.step, remove, invoke, perform, act, Ledger.try, hq] at hs
          cases hf : l.fails with
          | some err =>
              simp only [hf, Option.some.injEq, Prod.mk.injEq] at hs
              obtain ⟨rfl, rfl⟩ := hs
              exact ⟨.returned _ _ _, fun _ he => he, hremoved⟩
          | none =>
              simp only [hf, Option.some.injEq, Prod.mk.injEq] at hs
              obtain ⟨rfl, rfl⟩ := hs
              refine ⟨.returned _ _ _, fun _ he => he, ?_⟩
              intro e he
              rcases List.mem_append.1 he with he | he
              · exact hremoved e he
              · rw [List.mem_singleton.1 he]
                exact hitem

/-! ## The reporter -/

section

variable [KeyParts] [GoRuntime]

/-- `Run` takes nothing off the queue, every pusher is at a point of `pushOne`,
and what has been removed has been sent. -/
structure Reporter.Accounted (s : Reporter) : Prop where
  main : s.main.Within (fun _ _ => True) Reporting
  stages : ∀ p ∈ s.pushers, p.Stage s.ledger
  removed : ∀ e ∈ s.ledger.removed, e ∈ s.ledger.sent

theorem Reporter.Accounted.startRun {l : Ledger} {pushers : List Pusher} {n : Nat}
    (hstages : ∀ p ∈ pushers, p.Stage l) (hremoved : ∀ e ∈ l.removed, e ∈ l.sent) :
    (startRun n l pushers).Accounted where
  main := round_within
  stages p hp := by
    rcases List.mem_append.1 hp with hp | hp
    · exact hstages p hp
    · rw [List.mem_singleton.1 hp]
      exact .start n
  removed := hremoved

theorem Reporter.Accounted.step {s s' : Reporter} {a : ReporterAction}
    (h : s.Accounted) (hsteady : s.steady a = true) (hs : s.step a = some s') :
    s'.Accounted := by
  cases Reporter.moves_of_step hs with
  | outside =>
      refine ⟨h.main, fun p hp => ?_, h.removed⟩
      exact (h.stages p hp).mono fun _ he => he
  | @main op k hmain =>
      have hwithin := h.main
      rw [hmain, within_call] at hwithin
      have heffect := act_effect op s.ledger
      refine ⟨hwithin.2 _ trivial, fun p hp => ?_, fun e he => ?_⟩
      · exact (h.stages p hp).mono fun _ => heffect.sent
      · rw [heffect.removed hwithin.1] at he
        exact heffect.sent (h.removed e he)
  | again => exact ⟨round_within, h.stages, h.removed⟩
  | rerun => exact .startRun h.stages h.removed
  | @push i p p' l hp hpush =>
      have hhead : p.removing = true → s.ledger.queue.head? = p.held := by
        intro hr
        simpa [Reporter.steady, hp, hr] using hsteady
      obtain ⟨hstage, hsent, hremoved⟩ :=
        (h.stages p (List.mem_of_getElem? hp)).step hpush hhead h.removed
      refine ⟨h.main, fun q hq => ?_, hremoved⟩
      rcases List.mem_or_eq_of_mem_set hq with hq | rfl
      · exact (h.stages q hq).mono hsent
      · exact hstage
  | pushAgain =>
      refine ⟨h.main, fun q hq => ?_, h.removed⟩
      rcases List.mem_or_eq_of_mem_set hq with hq | rfl
      · exact h.stages q hq
      · exact .start _
  | crash => exact .startRun (fun _ hp => nomatch hp) h.removed

/-- As long as every removal takes the item its pusher holds, no report is
removed that was not sent. -/
theorem removed_reports_sent (clock : Time) (s : Reporter)
    (hrun : Steps Reporter.step (fun s a => s.steady a = true)
      (freshReporter clock) s) :
    ∀ e ∈ s.ledger.removed, e ∈ s.ledger.sent := by
  refine (hrun.invariant (I := Reporter.Accounted) ?_ ?_).removed
  · exact fun s a s' h hsteady hs => h.step hsteady hs
  · exact .startRun (fun _ hp => nomatch hp) (fun _ he => nomatch he)

end

/-! ## Two pushers at one report -/

/-- Keys that all belong to contract 5. -/
abbrev oneContract : KeyParts where
  parts _ := .ok 5

/-- An hour passes, and a workload has consumed 3. -/
def hourPasses : ReporterAction := .outside 3600000000000 none false [("7-5-vm", 3)]

/-- The first round of `Run`: a report is put on the queue. -/
def firstRound : List ReporterAction :=
  List.replicate 4 .main ++ hourPasses :: List.replicate 6 .main

/-- The second round, until its report is on the queue. -/
def secondRound : List ReporterAction :=
  [.again, .main, .main, hourPasses] ++ List.replicate 4 .main

def reportedOnce : Reporter :=
  letI := oneContract
  (follow Reporter.step Reporter.steady (firstRound ++ [.push 0, .push 0, .push 0])
    (freshReporter 0)).get (by decide +kernel)

/-- One pusher: its report is sent and removed. -/
theorem removed_reports_sent_once :
    (∀ e ∈ reportedOnce.ledger.removed, e ∈ reportedOnce.ledger.sent) ∧
      reportedOnce.ledger.removed ≠ [] :=
  letI := oneContract
  ⟨removed_reports_sent 0 reportedOnce
    (Steps.of_follow (fun _ _ h => h) _ (Option.some_get _).symm), by decide +kernel⟩

/-- The second round enqueues another report and fails to store its time. The
pusher of the failed `Run` has peeked by then, and the pusher of the next one
peeks at the same report. -/
def twoPushers : List ReporterAction :=
  firstRound ++ secondRound ++
    [.push 0, .outside 0 (some (.text "database not open")) false [], .main,
      .outside 0 none false [], .rerun, .push 1, .push 0, .push 1, .push 0, .push 1]

def droppedReport : Reporter :=
  letI := oneContract
  (follow Reporter.step (fun _ _ => true) twoPushers (freshReporter 0)).get
    (by decide +kernel)

/-- The second report is gone, and was never sent. -/
theorem unsent_report_removed :
    letI := oneContract
    ¬ ∀ clock s, Steps Reporter.step (fun _ _ => True) (freshReporter clock) s →
      ∀ e ∈ s.ledger.removed, e ∈ s.ledger.sent := by
  intro h
  let := oneContract
  have hrun : Steps Reporter.step (fun _ _ => True) (freshReporter 0) droppedReport :=
    Steps.of_follow (fun _ _ _ => trivial) _ (Option.some_get _).symm
  have hsent := h 0 droppedReport hrun
  revert hsent
  decide +kernel

end Zos4.Provisiond
