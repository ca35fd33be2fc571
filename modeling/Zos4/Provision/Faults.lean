import Zos4.Provision.Effects

/-!
# Storage and queue calls that fail

`Storage` says why a method of the store refuses what it is asked for. A call can also
fail for a reason of its own, a full disk say, and then it has no effect. `Faults` says
which calls do: it sees how many calls there have been and what is called. `faulty` is
`exec` with these failures, and with a tally of the calls beside the world.

A failed look at a workload is not taken for a workload that is not there.
-/

namespace Zos4.Provision

open Zos4.Interaction Prog

section

variable [Zosbase]

/-- The answer that reports an error, where the call is one of the store or the
queue. -/
def Op.failure : (op : Op) → GoError → Option op.Ret
  | .storageGet _, err => some (.error err)
  | .storageCurrent _ _, err => some (.error err)
  | .storageTwins, err => some (.error err)
  | .storageByTwin _, err => some (.error err)
  | .storageCapacity, err => some (.error err)
  | .storageCreate _, err | .storageUpdate _ _, err | .storageAdd _ _, err
  | .storageTransaction _ _, err | .storageRemove _ _, err | .storageDelete _, err
  | .storageError _ _, err | .enqueue _, err | .dequeue, err => some (some err)
  | _, _ => none

structure Faults where
  fails : Nat → Op → Option GoError
  tells : ∀ n key name err, fails n (.storageCurrent key name) = some err →
    err.is .workloadNotExist = false

/-- Nothing fails. -/
def Faults.none : Faults where
  fails := fun _ _ => .none
  tells := nofun

/-- The answer of a call that fails. -/
def Faults.answer (faults : Faults) (n : Nat) (op : Op) : Option op.Ret :=
  (faults.fails n op).bind op.failure

end

/-- The calls made so far, and whether one of them failed. -/
structure Calls where
  made : Nat
  failed : Bool

namespace Calls

/-- Before the first call. -/
def start : Calls := ⟨0, false⟩

/-- One more call. -/
def next (c : Calls) : Calls := { c with made := c.made + 1 }

/-- One more call, and it fails. -/
def fail (c : Calls) : Calls := ⟨c.made + 1, true⟩

@[simp] theorem start_failed : start.failed = false := rfl

@[simp] theorem next_failed (c : Calls) : c.next.failed = c.failed := rfl

@[simp] theorem fail_failed (c : Calls) : c.fail.failed = true := rfl

end Calls

variable [Zosbase] {σ μ : Type} [Storage σ]

def faulty (e : NativeEngine μ) (faults : Faults) : Handler engineSig (Calls × World σ μ)
  | op, (c, w) =>
      match faults.answer c.made op with
      | some ans => (ans, (c.fail, w))
      | .none => ((exec e op w).1, (c.next, (exec e op w).2))

variable {e : NativeEngine μ} {faults : Faults}

/-- A call fails and has no effect, or it is carried out. -/
theorem faulty_cases (faults : Faults) (op : Op) (c : Calls) (w : World σ μ) :
    (∃ err ans, faults.fails c.made op = some err ∧ op.failure err = some ans ∧
      faulty e faults op (c, w) = (ans, (c.fail, w))) ∨
    (faults.answer c.made op = none ∧
      faulty e faults op (c, w) = ((exec e op w).1, (c.next, (exec e op w).2))) := by
  cases hans : faults.answer c.made op with
  | none => exact .inr ⟨rfl, by simp [faulty, hans]⟩
  | some ans =>
      obtain ⟨err, herr, hfailure⟩ := Option.bind_eq_some_iff.mp hans
      exact .inl ⟨err, ans, herr, hfailure, by simp [faulty, hans]⟩

/-- A call that fails. -/
theorem faulty_of_fails {op : Op} {c : Calls} {err : GoError} {ans : op.Ret}
    (hfails : faults.fails c.made op = some err) (hans : op.failure err = some ans)
    (w : World σ μ) : faulty e faults op (c, w) = (ans, (c.fail, w)) := by
  simp [faulty, Faults.answer, hfails, hans]

/-- A call that does not. -/
theorem faulty_of_runs {op : Op} {c : Calls} (hfails : faults.fails c.made op = none)
    (w : World σ μ) :
    faulty e faults op (c, w) = ((exec e op w).1, (c.next, (exec e op w).2)) := by
  simp [faulty, Faults.answer, hfails]

/-- A call that is none of the store or the queue is carried out. -/
theorem faulty_exec {op : Op} (h : ∀ err, op.failure err = none) (c : Calls)
    (w : World σ μ) :
    faulty e faults op (c, w) = ((exec e op w).1, (c.next, (exec e op w).2)) := by
  rcases faulty_cases (e := e) faults op c w with ⟨err, ans, _, hans, _⟩ | ⟨_, hexec⟩
  · rw [h err] at hans
    cases hans
  · exact hexec

end Zos4.Provision
