import Zos4.Provision.Locks
import Zos4.Provision.Reference

/-!
# Pause and resume

A call of `Pause` or `Resume` is refused outside the state it leaves, or the answer of
the manager becomes the state of the result. Whatever is called, in whatever order, the
data stays and a refusal changes nothing; and the state is the one the action leads to
whenever the manager has done it. The exception is a pauser that answers `Pause` with
nil: the result then is what any nil error makes of a result, `ok`
(`pauses_lawful_iff`).
-/

namespace Zos4.Provision

section

variable [Zosbase] {μ : Type}

/-! ## Calls -/

/-- A call of `Pause` or `Resume`, at some time, which finds the node as it is then. -/
structure LockCall (μ : Type) where
  lock : Bool
  now : Timestamp
  node : Node μ

/-- The workload with what came out of the last call. -/
def fed (wl : WorkloadWithID) (result : Result) : WorkloadWithID :=
  { wl with workload := wl.workload.withResults result }

def LockCall.answer (managers : WorkloadType → Option (Manager μ)) (wl : WorkloadWithID)
    (c : LockCall μ) (result : Result) : Result × Option GoError :=
  (match c.lock with
    | true => MapProvisioner.pause managers c.now (fed wl result) c.node
    | false => MapProvisioner.resume managers c.now (fed wl result) c.node).1

/-- What the manager's pauser answers, if it has one. -/
def LockCall.asked (m : Manager μ) (wl : WorkloadWithID) (c : LockCall μ) (result : Result) :
    Option (Option GoError) :=
  m.pauser.map fun mgr =>
    (match c.lock with
      | true => mgr.pause (fed wl result) c.node
      | false => mgr.resume (fed wl result) c.node).1

/-- Every call of a sequence, each fed the result of the one before. -/
def EveryCall (managers : WorkloadType → Option (Manager μ)) (wl : WorkloadWithID)
    (P : LockCall μ → Result → Prop) : List (LockCall μ) → Result → Prop
  | [], _ => True
  | c :: calls, result =>
      P c result ∧ EveryCall managers wl P calls (c.answer managers wl result).1

/-! ## The law -/

/-- What is asked of a call. The manager has done it if its pauser answers nil, or there
is none to ask. -/
structure LockCall.Lawful (managers : WorkloadType → Option (Manager μ)) (m : Manager μ)
    (wl : WorkloadWithID) (c : LockCall μ) (result : Result) : Prop where
  data : (c.answer managers wl result).1.data = result.data
  accepted : (c.answer managers wl result).2 = none ↔ result.state = required c.lock
  refused : (c.answer managers wl result).2 ≠ none → (c.answer managers wl result).1 = result
  done : result.state = required c.lock →
    c.asked m wl result = none ∨ c.asked m wl result = some none →
    (c.answer managers wl result).1.state = desired c.lock

/-- A pauser is asked to pause, and answers nil. -/
def LockCall.nilPause (m : Manager μ) (wl : WorkloadWithID) (c : LockCall μ)
    (result : Result) : Prop :=
  c.lock = true ∧ result.state = .ok ∧ c.asked m wl result = some none

variable {managers : WorkloadType → Option (Manager μ)} {m : Manager μ} {wl : WorkloadWithID}
  {c : LockCall μ} {result : Result}

theorem answer_refused (managers : WorkloadType → Option (Manager μ)) (wl : WorkloadWithID)
    (h : result.state ≠ required c.lock) :
    ∃ err, c.answer managers wl result = (result, some err) := by
  rw [LockCall.answer]
  cases hlock : c.lock with
  | true =>
      rw [hlock] at h
      exact ⟨_, setLock_refused h⟩
  | false =>
      rw [hlock] at h
      exact ⟨_, setLock_refused h⟩

/-- What `setState` is given, without a pauser. -/
def defaultResponse : Bool → GoError
  | true => pausedResponse
  | false => okResponse

/-- In the state it needs, an action makes of the result what its pauser answers, or the
default. -/
theorem setLock_accepted {needs : ResultState} {refusal : String} {default : GoError}
    {action : Pauser μ → WorkloadWithID → Node μ → Option GoError × μ} {now : Timestamp}
    {node : Node μ} (hm : managers wl.workload.type = some m)
    (h : wl.workload.result.state = needs) :
    (MapProvisioner.setLock managers needs refusal default action now wl node).1 =
      (setState now wl.workload.result
        ((m.pauser.map fun mgr => (action mgr wl node).1).getD (some default)), none) := by
  rw [MapProvisioner.setLock, if_neg (not_not.mpr h), hm]
  dsimp only
  cases m.pauser <;> rfl

theorem answer_accepted (hm : managers wl.workload.type = some m)
    (h : result.state = required c.lock) :
    c.answer managers wl result =
      (setState c.now result ((c.asked m wl result).getD (some (defaultResponse c.lock))),
        none) := by
  have hm : managers (fed wl result).workload.type = some m := hm
  rw [LockCall.answer, LockCall.asked]
  cases hlock : c.lock with
  | true =>
      rw [hlock] at h
      exact setLock_accepted hm h
  | false =>
      rw [hlock] at h
      exact setLock_accepted hm h

/-- One call. -/
theorem lawful_iff (hm : managers wl.workload.type = some m) :
    c.Lawful managers m wl result ↔ ¬ c.nilPause m wl result := by
  by_cases hstate : result.state = required c.lock
  · have hanswer := answer_accepted hm hstate
    constructor
    · intro h hnil
      obtain ⟨hlock, -, hasked⟩ := hnil
      have hdone := h.done hstate (.inr hasked)
      rw [hanswer, hasked, hlock] at hdone
      cases hdone
    · intro h
      refine ⟨?_, ?_, ?_, fun _ hasked => ?_⟩
      · rw [hanswer]
        exact setState_data _ _ _
      · rw [hanswer]
        exact iff_of_true rfl hstate
      · rw [hanswer]
        exact fun hne => absurd rfl hne
      · rw [hanswer]
        rcases hasked with hnone | hnil
        · rw [hnone]
          cases c.lock <;> rfl
        · rw [hnil]
          cases hlock : c.lock with
          | true =>
              rw [hlock] at hstate
              exact absurd ⟨hlock, hstate, hnil⟩ h
          | false => rfl
  · obtain ⟨err, hanswer⟩ := answer_refused managers wl hstate
    refine iff_of_true ⟨?_, ?_, ?_, fun h => absurd h hstate⟩ fun hnil => hstate ?_
    · rw [hanswer]
    · rw [hanswer]
      exact iff_of_false (Option.some_ne_none err) hstate
    · rw [hanswer]
      exact fun _ => rfl
    · rw [hnil.1]
      exact hnil.2.1

/-- Any sequence of calls is as it should be exactly when no pauser that is asked to
pause answers nil. -/
theorem pauses_lawful_iff (hm : managers wl.workload.type = some m)
    (calls : List (LockCall μ)) (result : Result) :
    EveryCall managers wl (LockCall.Lawful managers m wl) calls result ↔
      EveryCall managers wl (fun c result => ¬ c.nilPause m wl result) calls result := by
  induction calls generalizing result with
  | nil => exact Iff.rfl
  | cons c calls ih => exact and_congr (lawful_iff hm) (ih _)

end

/-! ## A manager that pauses -/

namespace Reference

def quietPauser : Pauser Unit where
  pause _ _ := (none, ())
  resume _ _ := (none, ())

def pausing : Manager Unit := { manager with pauser := some quietPauser }

def lockCall (lock : Bool) : LockCall Unit := ⟨lock, 7, ⟨fun _ => true, ()⟩⟩

def running : WorkloadWithID := ⟨workload 0 "a" "1", ⟨1, 1, "a"⟩⟩

def okResult : Result := ⟨0, .ok, "", "1"⟩

end Reference

open Reference in
theorem nil_pause_stays_ok :
    ¬ EveryCall (fun _ => some pausing) running
      (LockCall.Lawful (fun _ => some pausing) pausing running) [lockCall true] okResult := by
  intro h
  have hdone := h.1.done rfl (.inr rfl)
  exact absurd hdone (by decide)

open Reference in
theorem pauses_lawful_iff_default :
    EveryCall (fun _ => some manager) running
        (LockCall.Lawful (fun _ => some manager) manager running)
        [lockCall true, lockCall false] okResult ↔
      EveryCall (fun _ => some manager) running
        (fun c result => ¬ c.nilPause manager running result)
        [lockCall true, lockCall false] okResult :=
  pauses_lawful_iff rfl _ _

end Zos4.Provision
