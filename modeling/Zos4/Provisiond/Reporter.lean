import Mathlib.Algebra.Group.Int.Defs
import Zos4.Interaction.Steps
import Zos4.Provision.Engine

/-!
# The consumption reporter

`reporter.go`: `Run` adds up what the workloads have consumed since the last
report, puts a report on a persistent queue and stores the time of it, once an
hour; a pusher takes the reports off the queue one by one and sends them. Both
are programs over the calls they make, and one round of `Run`'s loop is one
program, since nothing is carried from a round to the next except through the
store. Logging is left out, and so is the goroutine that collects metrics: what
it stores comes back as the answer of `counters`.

`Run` returns as soon as one of its calls fails, the caller starts it again,
and every start adds a pusher. The context of the `Run` that returned is
cancelled, but its pusher only looks at the context between two rounds. So the
system below has any number of pushers, each with the number of the `Run` that
started it.

Times are in nanoseconds since the epoch, as the clock of the node gives them;
the stored time of the last report is in seconds.
-/

namespace Zos4.Provisiond

open Zos4.Interaction Prog
open Zos4.Provision (GoRuntime)

/-! ## Time and numbers -/

abbrev Time := Int

def second : Int := 1000000000

/-- `every`, in seconds. -/
def every : Int := 60 * 60

/-- `Time.Unix()`. -/
def unix (t : Time) : Int := t / second

/-- `time.Unix(ts, 0)`. -/
def timeUnix (ts : Int) : Time := ts * second

/-- `Time.Sub`: durations are 64 bits wide, and the difference saturates. -/
def timeSub (a b : Time) : Int := max (-2 ^ 63) (min (2 ^ 63 - 1) (a - b))

/-- `types.U64` of a signed number. -/
def u64 (i : Int) : UInt64 := UInt64.ofNat (i % 2 ^ 64).toNat

/-- `types.U64` of a counter: the whole-number part. -/
def u64OfCounter (v : Rat) : UInt64 := u64 (v.num.tdiv v.den)

/-! ## Reports -/

structure NruConsumption where
  contractID : ContractID
  timestamp : UInt64
  window : UInt64
  nru : UInt64
  deriving DecidableEq, Repr

structure Report where
  consumption : List NruConsumption
  deriving DecidableEq, Repr

/-- A report on the queue. The number says which one it is; no code reads it. -/
structure Entry where
  seq : Nat
  report : Report
  deriving DecidableEq, Repr

/-- A window a report was made for, and whether it was put on the queue or
found to be zero. No code reads it either. -/
structure Window where
  since : Time
  now : Time
  billed : Bool
  deriving DecidableEq, Repr

/-- `WorkloadID.Parts`, as far as it is looked at: the contract. -/
class KeyParts where
  parts : String → Except GoError ContractID

def lastReportedKey : String := ".last-reported-ts"

/-! ## The calls -/

inductive ReporterOp where
  | now
  /-- `rrd.Last` of the last report time. -/
  | last
  | slot
  /-- `slot.Counter` of the last report time. -/
  | counter (ts : Int)
  | counters (since : Time)
  /-- The select `Run` waits in; whether the context is done. -/
  | wait (delay : Int)
  | enqueue (since now : Time) (report : Report)
  /-- Nothing to enqueue: the mark of a window that is zero. -/
  | nothing (since now : Time)
  | peekBlock
  | publish (item : Entry)
  | dequeue

abbrev ReporterOp.Ret : ReporterOp → Type
  | .now => Time
  | .last => Except GoError (Option Int)
  | .counters _ => Except GoError (List (String × Rat))
  | .wait _ => Bool
  | .nothing _ _ => Unit
  | .peekBlock => Except GoError Entry
  | .slot | .counter _ | .enqueue _ _ _ | .publish _ | .dequeue => Option GoError

abbrev reporterSig : Sig := ⟨ReporterOp, ReporterOp.Ret⟩

abbrev ReporterM := Prog reporterSig

abbrev invoke (op : ReporterOp) : ReporterM op.Ret := @perform reporterSig op

/-! ## The pusher -/

/-- The end of `pushOne`: the item has been reported. -/
def remove : ReporterM (Option GoError) := invoke .dequeue

/-- `pushOne` from the item it peeked. -/
def publish (item : Entry) : ReporterM (Option GoError) := do
  match ← invoke (.publish item) with
  | some err => pure (some (err.wrap "failed to publish consumption report"))
  -- only removed if the report is reported to the registrar
  | none => remove

def pushOne : ReporterM (Option GoError) := do
  match ← invoke .peekBlock with
  | .error err =>
      pure (some (err.wrap "failed to peek into capacity queue. #properlyfatal"))
  | .ok item => publish item

/-! ## One round of Run -/

def setLastReportTime (ts : Int) : ReporterM (Option GoError) := do
  match ← invoke .slot with
  | some err => pure (some (err.wrap "failed to create rrd slot"))
  | none =>
      match ← invoke (.counter ts) with
      | some err => pure (some (err.wrap "failed to set last report time"))
      | none => pure none

def getLastReportTime : ReporterM (Except GoError (Option Int)) := do
  match ← invoke .last with
  | .error err =>
      pure (.error (err.wrap "failed to get timestamp of last report"))
  | .ok stored => pure (.ok stored)

/-- Go's map of the reports, by contract. -/
abbrev ReportMap := List (ContractID × NruConsumption)

def ReportMap.set (m : ReportMap) (id : ContractID) (rep : NruConsumption) :
    ReportMap := (id, rep) :: m.filter fun entry => entry.1 ≠ id

section

variable [KeyParts]

/-- One counter, added to the report of its contract. -/
def addCounter (since now : Time) (reports : ReportMap) (counter : String × Rat) :
    ReportMap :=
  if counter.1 = lastReportedKey then reports
  else
    match KeyParts.parts counter.1 with
    | .error _ => reports
    | .ok deployment =>
        let rep := (reports.lookup deployment).getD
          { contractID := deployment
            timestamp := u64 (unix now)
            window := u64 ((timeSub now since).tdiv second)
            nru := 0 }
        reports.set deployment { rep with nru := rep.nru + u64OfCounter counter.2 }

variable [GoRuntime]

/-- The report of the counters, without the contracts that consumed nothing. -/
def reportOf (since now : Time) (values : List (String × Rat)) : Report where
  consumption :=
    (GoRuntime.rangeMap ((GoRuntime.rangeMap values).foldl (addCounter since now)
      [])).filterMap fun entry =>
        if entry.2.nru = 0 then none else some entry.2

end

def push (since now : Time) (report : Report) : ReporterM (Option GoError) :=
  if report.consumption = [] then do
    let _ ← invoke (.nothing since now)
    pure none
  else invoke (.enqueue since now report)

section

variable [KeyParts] [GoRuntime]

def report (since : Time) : ReporterM (Time × Option GoError) := do
  let now ← invoke .now
  match ← invoke (.counters since) with
  | .error err => pure (now, some (err.wrap "failed to get stored metrics from rrd"))
  | .ok values => do
      let err ← push since now (reportOf since now values)
      pure (now, err)

/-- How a round of the loop ends: with the next one, or with `Run` returning. -/
inductive Round where
  | again
  | done (err : Option GoError)
  deriving DecidableEq, Repr

/-- The rest of a round, once the last report time is known. -/
def collect (lastReport u : Int) : ReporterM Round := do
  match ← invoke (.wait (max 0 (lastReport + every - u))) with
  | true => pure (.done none)
  | false =>
      match ← report (timeUnix lastReport) with
      | (_, some err) =>
          pure (.done (some (err.wrap "failed to create consumption report")))
      | (ts, none) =>
          match ← setLastReportTime (unix ts) with
          | some err => pure (.done (some err))
          | none => pure .again

def round : ReporterM Round := do
  let now ← invoke .now
  let u := unix now
  match ← getLastReportTime with
  | .error err => pure (.done (some err))
  | .ok none =>
      -- no window to report: the first one starts now
      match ← setLastReportTime u with
      | some err => pure (.done (some err))
      | none => collect u u
  | .ok (some lastReport) => collect lastReport u

end

/-! ## What the calls act on -/

/-- The store and the queue, the clock, and what calls are answered at the
moment. The last five fields are a record of the run and are read by no code:
the number of the next entry, the windows reported so far and the first time
that was ever stored, the reports sent and the reports removed. -/
structure Ledger where
  clock : Time
  fails : Option GoError
  cancelled : Bool
  values : List (String × Rat)
  last : Option Int
  queue : List Entry
  next : Nat
  windows : List Window
  first : Option Int
  sent : List Entry
  removed : List Entry

/-- A call that fails has no effect. -/
def Ledger.try (l : Ledger) (l' : Ledger) : Option GoError × Ledger :=
  match l.fails with
  | some err => (some err, l)
  | none => (none, l')

def act : Handler reporterSig Ledger
  | .now, l => (l.clock, l)
  | .last, l => (match l.fails with
      | some err => .error err
      | none => .ok l.last, l)
  | .slot, l => l.try l
  | .counter ts, l =>
      l.try { l with last := some ts, first := l.first.or (some ts) }
  | .counters _, l => (match l.fails with
      | some err => .error err
      | none => .ok l.values, l)
  | .wait _, l => (l.cancelled, l)
  | .enqueue since now report, l =>
      l.try { l with
        queue := l.queue ++ [⟨l.next, report⟩]
        next := l.next + 1
        windows := l.windows ++ [⟨since, now, true⟩] }
  | .nothing since now, l =>
      ((), { l with windows := l.windows ++ [⟨since, now, false⟩] })
  | .peekBlock, l => (match l.fails, l.queue with
      | some err, _ => .error err
      | none, [] => .error (.text "empty")
      | none, item :: _ => .ok item, l)
  | .publish item, l => l.try { l with sent := l.sent ++ [item] }
  | .dequeue, l => match l.queue with
      | [] => (some (.text "empty"), l)
      | item :: rest =>
          l.try { l with queue := rest, removed := l.removed ++ [item] }

/-- What a call can do to the ledger. -/
inductive Effect (l : Ledger) : ReporterOp → Ledger → Prop
  | none (op : ReporterOp) : Effect l op l
  | counter (ts : Int) :
      Effect l (.counter ts) { l with last := some ts, first := l.first.or (some ts) }
  | enqueue (since now : Time) (report : Report) :
      Effect l (.enqueue since now report) { l with
        queue := l.queue ++ [⟨l.next, report⟩]
        next := l.next + 1
        windows := l.windows ++ [⟨since, now, true⟩] }
  | nothing (since now : Time) :
      Effect l (.nothing since now)
        { l with windows := l.windows ++ [⟨since, now, false⟩] }
  | publish (item : Entry) :
      Effect l (.publish item) { l with sent := l.sent ++ [item] }
  | dequeue (item : Entry) (rest : List Entry) (h : l.queue = item :: rest) :
      Effect l .dequeue { l with queue := rest, removed := l.removed ++ [item] }

theorem Ledger.try_fails {l : Ledger} {err : GoError} (h : l.fails = some err)
    (l' : Ledger) : l.try l' = (some err, l) := by
  simp only [Ledger.try, h]

theorem Ledger.try_ok {l : Ledger} (h : l.fails = none) (l' : Ledger) :
    l.try l' = (none, l') := by
  simp only [Ledger.try, h]

theorem Ledger.try_cases (l l' : Ledger) :
    (l.try l').2 = l ∨ (l.try l').2 = l' := by
  unfold Ledger.try
  split
  · exact .inl rfl
  · exact .inr rfl

theorem act_effect (op : ReporterOp) (l : Ledger) : Effect l op (act op l).2 := by
  cases op with
  | now => exact .none _
  | last => exact .none _
  | slot =>
      rcases l.try_cases l with h | h <;> simpa only [act, h] using Effect.none _
  | counter ts =>
      simp only [act]
      rcases l.try_cases { l with last := some ts, first := l.first.or (some ts) }
        with h | h
      · rw [h]; exact .none _
      · rw [h]; exact .counter ts
  | counters since => exact .none _
  | wait delay => exact .none _
  | enqueue since now report =>
      simp only [act]
      rcases l.try_cases { l with
        queue := l.queue ++ [⟨l.next, report⟩]
        next := l.next + 1
        windows := l.windows ++ [⟨since, now, true⟩] } with h | h
      · rw [h]; exact .none _
      · rw [h]; exact .enqueue since now report
  | nothing since now => exact .nothing since now
  | peekBlock => exact .none _
  | publish item =>
      simp only [act]
      rcases l.try_cases { l with sent := l.sent ++ [item] } with h | h
      · rw [h]; exact .none _
      · rw [h]; exact .publish item
  | dequeue =>
      cases hq : l.queue with
      | nil => simpa only [act, hq] using Effect.none _
      | cons item rest =>
          simp only [act, hq]
          rcases l.try_cases { l with queue := rest, removed := l.removed ++ [item] }
            with h | h
          · rw [h]; exact .none _
          · rw [h]; exact .dequeue item rest hq

/-! ## The reporter as a system -/

variable [KeyParts] [GoRuntime]

/-- A pusher: the number of its `Run`, what is left of its `pushOne`, and the
item it peeked. -/
structure Pusher where
  run : Nat
  prog : ReporterM (Option GoError)
  held : Option Entry

structure Reporter where
  ledger : Ledger
  /-- The number of the `Run` going on or returned last. -/
  run : Nat
  main : ReporterM Round
  pushers : List Pusher

inductive ReporterAction where
  /-- Time passes and the outside changes its answers. -/
  | outside (elapsed : Nat) (fails : Option GoError) (cancelled : Bool)
      (values : List (String × Rat))
  /-- `Run` makes its next call. -/
  | main
  /-- `Run` goes on to the next round. -/
  | again
  /-- `Run` has returned and is started again. -/
  | rerun
  /-- Pusher `i` makes its next call. -/
  | push (i : Nat)
  /-- Pusher `i` has left `pushOne` and enters it again. -/
  | pushAgain (i : Nat)
  /-- The process dies, and is started again. -/
  | crash

/-- `Run` number `n` is started. -/
def startRun (n : Nat) (l : Ledger) (pushers : List Pusher) : Reporter where
  ledger := l
  run := n
  main := round
  pushers := pushers ++ [⟨n, pushOne, none⟩]

/-- The first process, before anything was stored. -/
def freshReporter (clock : Time) : Reporter :=
  startRun 0
    { clock := clock, fails := none, cancelled := false, values := [], last := none,
      queue := [], next := 0, windows := [], first := none, sent := [],
      removed := [] } []

/-- Whether the context of `Run` number `n` is done: it has returned. -/
def Reporter.ended (s : Reporter) (n : Nat) : Bool :=
  n ≠ s.run ||
    match s.main with
    | .ret (.done _) => true
    | _ => false

/-- One call of a pusher. `PeekBlock` waits for an item. -/
def Pusher.step (p : Pusher) (l : Ledger) : Option (Pusher × Ledger) :=
  match p.prog with
  | .ret _ => none
  | .call .peekBlock k =>
      if l.fails = none ∧ l.queue = [] then none
      else
        match act .peekBlock l with
        | (.ok item, l') => some ({ p with prog := k (.ok item), held := some item }, l')
        | (.error err, l') => some ({ p with prog := k (.error err) }, l')
  | .call op k =>
      match act op l with
      | (r, l') => some ({ p with prog := k r }, l')

def Reporter.step (s : Reporter) : ReporterAction → Option Reporter
  | .outside elapsed fails cancelled values =>
      some { s with ledger := { s.ledger with
        clock := s.ledger.clock + elapsed
        fails := fails
        cancelled := cancelled
        values := values } }
  | .main =>
      match s.main with
      | .ret _ => none
      | .call op k =>
          match act op s.ledger with
          | (r, l) => some { s with ledger := l, main := k r }
  | .again =>
      match s.main with
      | .ret .again => some { s with main := round }
      | _ => none
  | .rerun =>
      match s.main with
      | .ret (.done _) => some (startRun (s.run + 1) s.ledger s.pushers)
      | _ => none
  | .push i =>
      match s.pushers[i]? with
      | none => none
      | some p =>
          match p.step s.ledger with
          | none => none
          | some (p', l) => some { s with ledger := l, pushers := s.pushers.set i p' }
  | .pushAgain i =>
      match s.pushers[i]? with
      | none => none
      | some p =>
          match p.prog with
          | .ret _ =>
              if s.ended p.run then none
              else some { s with
                pushers := s.pushers.set i ⟨p.run, pushOne, none⟩ }
          | _ => none
  | .crash => some (startRun (s.run + 1) s.ledger [])

/-- Every action, with what it needs and where it leads. -/
inductive Reporter.Moves (s : Reporter) : ReporterAction → Reporter → Prop
  | outside {elapsed : Nat} {fails : Option GoError} {cancelled : Bool}
      {values : List (String × Rat)} :
      Moves s (.outside elapsed fails cancelled values)
        { s with ledger := { s.ledger with
          clock := s.ledger.clock + elapsed
          fails := fails
          cancelled := cancelled
          values := values } }
  | main {op : ReporterOp} {k : op.Ret → ReporterM Round} : s.main = .call op k →
      Moves s .main
        { s with ledger := (act op s.ledger).2, main := k (act op s.ledger).1 }
  | again : s.main = .ret .again → Moves s .again { s with main := round }
  | rerun {err : Option GoError} : s.main = .ret (.done err) →
      Moves s .rerun (startRun (s.run + 1) s.ledger s.pushers)
  | push {i : Nat} {p p' : Pusher} {l : Ledger} : s.pushers[i]? = some p →
      p.step s.ledger = some (p', l) →
      Moves s (.push i) { s with ledger := l, pushers := s.pushers.set i p' }
  | pushAgain {i : Nat} {p : Pusher} {err : Option GoError} : s.pushers[i]? = some p →
      p.prog = .ret err → ¬ s.ended p.run →
      Moves s (.pushAgain i)
        { s with pushers := s.pushers.set i ⟨p.run, pushOne, none⟩ }
  | crash : Moves s .crash (startRun (s.run + 1) s.ledger [])

theorem Reporter.moves_of_step {s s' : Reporter} {a : ReporterAction}
    (h : s.step a = some s') : s.Moves a s' := by
  cases a with
  | outside elapsed fails cancelled values => cases h; exact .outside
  | main =>
      simp only [Reporter.step] at h
      split at h
      · cases h
      · next op k hmain => cases h; exact .main hmain
  | again =>
      simp only [Reporter.step] at h
      split at h
      · next hmain => cases h; exact .again hmain
      · cases h
  | rerun =>
      simp only [Reporter.step] at h
      split at h
      · next err hmain => cases h; exact .rerun hmain
      · cases h
  | push i =>
      simp only [Reporter.step] at h
      split at h
      · cases h
      · next p hp =>
          split at h
          · cases h
          · next p' l hpush => cases h; exact .push hp hpush
  | pushAgain i =>
      simp only [Reporter.step] at h
      split at h
      · cases h
      · next p hp =>
          split at h
          · next err hprog =>
              split at h
              · cases h
              · next hended => cases h; exact .pushAgain hp hprog hended
          · cases h
  | crash => cases h; exact .crash

end Zos4.Provisiond
