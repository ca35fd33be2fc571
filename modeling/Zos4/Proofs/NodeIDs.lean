import Zos4.Registrar.Registrar

/-!
# The ids that are handed out

`NodeID` copies the id under the lock and then looks at the registration state
without it, once to see whether it is failed and once to see whether it is done.
In between the goroutine may have gone on, so what vouches for the id need not be
the state it was copied from. `Change` is what the goroutine can set the state to,
and a schedule says which changes come before which read; `ids_real_iff` says for
every schedule when an id that is handed out is one that was registered.
-/

namespace Zos4.Registrar

open Zos4.Interaction Prog

/-- A call of `setState`. -/
inductive Change where
  | failed (err : String)
  | inProgress
  | done (nodeID twinID : UInt32)
  deriving DecidableEq, Repr

def Change.state : Change → State
  | .failed err => failedState err
  | .inProgress => inProgressState
  | .done nodeID twinID => doneState nodeID twinID

/-- What the goroutine has set the state to, the last change first. -/
abbrev History := List Change

def History.state : History → State
  | [] => inProgressState
  | change :: _ => change.state

/-- The changes that come before each read. -/
abbrev Schedule := Nat → List Change

/-- The reads made so far, and the changes. -/
structure Shared where
  reads : Nat
  history : History

/-- The changes before the next read have been made. -/
def Shared.next (sched : Schedule) (s : Shared) : Shared :=
  ⟨s.reads + 1, (sched s.reads).reverse ++ s.history⟩

/-- A read sees the last change. -/
def read (sched : Schedule) : Handler readSig Shared :=
  fun _ s => ((s.next sched).history.state, s.next sched)

/-- An id that was handed out is one of a `DoneState`, and a zero is not that of the copy
of a state that is in progress or failed. -/
def Real (id : State → UInt32) (copied : State) (history : History)
    (res : Except IDError UInt32) : Prop :=
  ∀ v, res = .ok v →
    (∃ change ∈ history, change.state.state = .done ∧ id change.state = v) ∧
      ¬ (v = 0 ∧ copied.state ≠ .done)

theorem History.done_mem {history : History} (h : history.state.state = .done) :
    ∃ change ∈ history, change.state = history.state := by
  cases history with
  | nil => cases h
  | cons change rest => exact ⟨change, List.mem_cons_self, rfl⟩

theorem History.ids_of_not_done {history : History} (h : history.state.state ≠ .done) :
    history.state.nodeID = 0 ∧ history.state.twinID = 0 := by
  cases history with
  | nil => exact ⟨rfl, rfl⟩
  | cons change rest =>
      cases change with
      | failed err => exact ⟨rfl, rfl⟩
      | inProgress => exact ⟨rfl, rfl⟩
      | done nodeID twinID => exact absurd rfl h

section

variable (sched : Schedule) (s : Shared)

/-- The copy is taken in the first of these, the state is looked at in the others. -/
def atCopy : Shared := s.next sched

def atFirstLook : Shared := (atCopy sched s).next sched

def atLastLook : Shared := (atFirstLook sched s).next sched

/-- The registration vouches for an id, whatever the id is. -/
def Vouches : Prop :=
  (atFirstLook sched s).history.state.state ≠ .failed ∧
    (atLastLook sched s).history.state.state = .done

theorem run_returnIfDone (v : UInt32) :
    (returnIfDone v).run (read sched) (atCopy sched s) =
      (if (atFirstLook sched s).history.state.state = .failed then
        .error (.failed (atLastLook sched s).history.state.msg)
      else if (atLastLook sched s).history.state.state = .done then .ok v
      else .error .inProgress, atLastLook sched s) := by
  rw [returnIfDone, run_bind, run_perform]
  show Prog.run (read sched) (if (atFirstLook sched s).history.state.state = .failed
    then _ else _) (atFirstLook sched s) = _
  split
  · rfl
  · rw [run_bind, run_perform]
    show Prog.run (read sched) (if (atLastLook sched s).history.state.state = .done
      then _ else _) (atLastLook sched s) = _
    split <;> rfl

theorem run_returnIfDone_snd (v : UInt32) :
    ((returnIfDone v).run (read sched) (atCopy sched s)).2 = atLastLook sched s := by
  rw [run_returnIfDone]

/-- What is handed out is the copy, if the registration vouches for it. -/
theorem returnIfDone_ok (v v' : UInt32) :
    ((returnIfDone v).run (read sched) (atCopy sched s)).1 = .ok v' ↔
      Vouches sched s ∧ v = v' := by
  rw [run_returnIfDone, Vouches]
  split
  · next h => simp [h]
  · next h =>
      split
      · next h' => simp [h, h']
      · next h' => simp [h']

theorem run_NodeID : NodeID.run (read sched) s =
    (returnIfDone (atCopy sched s).history.state.nodeID).run (read sched)
      (atCopy sched s) := by
  rw [NodeID, run_bind, run_perform]
  rfl

theorem run_TwinID : TwinID.run (read sched) s =
    (returnIfDone (atCopy sched s).history.state.twinID).run (read sched)
      (atCopy sched s) := by
  rw [TwinID, run_bind, run_perform]
  rfl

/-- A copy is only taken of what the history has. -/
theorem Shared.mem_next {change : Change} (h : change ∈ s.history) :
    change ∈ (s.next sched).history :=
  List.mem_append_right _ h

theorem mem_atLastLook {change : Change} (h : change ∈ (atCopy sched s).history) :
    change ∈ (atLastLook sched s).history :=
  Shared.mem_next sched _ (Shared.mem_next sched _ h)

/-- An id that is zero in every state but the done ones is handed out as it was
registered, unless the copy was taken of another state and the registration was done
by the time it was looked at. -/
theorem returnIfDone_real_iff (id : State → UInt32)
    (hzero : ∀ {history : History}, history.state.state ≠ .done → id history.state = 0) :
    Real id (atCopy sched s).history.state (atLastLook sched s).history
        ((returnIfDone (id (atCopy sched s).history.state)).run (read sched)
          (atCopy sched s)).1 ↔
      ((atCopy sched s).history.state.state = .done ∨ ¬ Vouches sched s) := by
  constructor
  · intro hreal
    by_cases hdone : (atCopy sched s).history.state.state = .done
    · exact .inl hdone
    · refine .inr fun hvouches => ?_
      obtain ⟨_, hown⟩ := hreal _ ((returnIfDone_ok sched s _ _).mpr ⟨hvouches, rfl⟩)
      exact hown ⟨hzero hdone, hdone⟩
  · intro h v hok
    obtain ⟨hvouches, rfl⟩ := (returnIfDone_ok sched s _ _).mp hok
    rcases h with hdone | hnot
    · obtain ⟨change, hmem, hchange⟩ := History.done_mem hdone
      refine ⟨⟨change, mem_atLastLook sched s hmem, ?_, ?_⟩, fun hzero => hzero.2 hdone⟩
      · rw [hchange, hdone]
      · rw [hchange]
    · exact absurd hvouches hnot

/-- The ids `NodeID` and `TwinID` hand out are ones that were registered, unless the
copy was taken before the registration was done and looked at afterwards. -/
theorem ids_real_iff :
    (Real State.nodeID (atCopy sched s).history.state (NodeID.run (read sched) s).2.history
        (NodeID.run (read sched) s).1 ↔
      ((atCopy sched s).history.state.state = .done ∨ ¬ Vouches sched s)) ∧
    (Real State.twinID (atCopy sched s).history.state (TwinID.run (read sched) s).2.history
        (TwinID.run (read sched) s).1 ↔
      ((atCopy sched s).history.state.state = .done ∨ ¬ Vouches sched s)) := by
  rw [run_NodeID, run_TwinID, run_returnIfDone_snd, run_returnIfDone_snd]
  constructor
  · exact returnIfDone_real_iff sched s _ fun h => (History.ids_of_not_done h).1
  · exact returnIfDone_real_iff sched s _ fun h => (History.ids_of_not_done h).2

end

/-- The registration is done right after the copy was taken: zero is handed out for
the id of the node, which is seven. -/
theorem zero_handed_out :
    ¬ ∀ (sched : Schedule) (s : Shared),
      Real State.nodeID (atCopy sched s).history.state (NodeID.run (read sched) s).2.history
        (NodeID.run (read sched) s).1 := by
  intro h
  obtain ⟨⟨change, hmem, _, hid⟩, _⟩ :=
    h (fun n => if n = 1 then [.done 7 9] else []) ⟨0, []⟩ 0 rfl
  have hmem : change ∈ [Change.done 7 9] := hmem
  obtain rfl := List.mem_singleton.mp hmem
  cases hid

end Zos4.Registrar
