import Mathlib.Data.List.Nodup
import Zos4.Files.Local
import Zos4.Proofs.LinkKept
import Zos4.UpdateWorker.Interval

/-!
# The networks do not get in each other's way

Whatever fails, how often an update is tried again and in which order the networks are
taken in each round, the link of a network is what its own updates make of it, and nothing
else in the hub changes (`networks_apart`): an update is an operation local to the place of
its link, and the places differ.
-/

namespace Zos4.UpdateWorker

open Zos4.Files

/-! ## One update -/

section

variable {calls : Calls} {path : Bytes}

theorem localAt_readlink : LocalAt path fun hub => (readlink calls path hub, hub) :=
  localAt_read (g := fun node hub => (readlink calls path fun _ => node, hub))
    fun _ => localAt_pure _

theorem localAt_remove : LocalAt path (remove calls path) := by
  refine ⟨fun node => ((remove calls path fun _ => node).1,
    (remove calls path fun _ => node).2 path), fun hub => ?_⟩
  unfold remove
  cases calls.remove with
  | some err => simp
  | none =>
      cases h : hub path with
      | none => simp [← h]
      | some node => simp [Tree.erase]

theorem localAt_symlink {target : Bytes} : LocalAt path (symlink calls target path) := by
  refine ⟨fun node => ((symlink calls target path fun _ => node).1,
    (symlink calls target path fun _ => node).2 path), fun hub => ?_⟩
  unfold symlink
  cases calls.symlink with
  | some err => simp
  | none =>
      cases h : hub path with
      | none => simp [Tree.put]
      | some node => simp [← h]

/-- What an update does once the link that was in the way is removed, or could not be. -/
def afterRemove (calls : Calls) (path link : Bytes) :
    Option WorkerError → Hub → Option WorkerError × Hub
  | some err, hub => (some err, hub)
  | none, hub => symlink calls link path hub

/-- And once the link is read. -/
def afterRead (calls : Calls) (current path link : Bytes) :
    Except WorkerError Bytes → Hub → Option WorkerError × Hub
  | .error err, hub =>
      if err = .notExist then symlink calls link path hub else (some err, hub)
  | .ok dst, hub =>
      if base dst = base current then (none, hub)
      else afterRemove calls path link (remove calls path hub).1 (remove calls path hub).2

theorem updateLink_eq {current link : Bytes} (hub : Hub) (h : calls.lstat = none) :
    updateLink calls current path link hub =
      afterRead calls current path link (readlink calls path hub) hub := by
  rw [updateLink, h]
  cases readlink calls path hub with
  | error err => rfl
  | ok dst =>
      rw [afterRead]
      dsimp only
      split
      · rfl
      · generalize remove calls path hub = removed
        obtain ⟨err, hub'⟩ := removed
        cases err <;> rfl

theorem localAt_updateLink {current link : Bytes} :
    LocalAt path (updateLink calls current path link) := by
  cases h : calls.lstat with
  | some err =>
      have heq : updateLink calls current path link = fun hub => (some err, hub) := by
        funext hub
        rw [updateLink, h]
      rw [heq]
      exact localAt_pure _
  | none =>
      have heq : updateLink calls current path link = fun hub =>
          afterRead calls current path link (readlink calls path hub) hub :=
        funext fun hub => updateLink_eq hub h
      rw [heq]
      refine localAt_readlink.bind (q := afterRead calls current path link) fun read => ?_
      cases read with
      | error err =>
          show LocalAt path fun hub =>
            if err = .notExist then symlink calls link path hub else (some err, hub)
          by_cases herr : err = .notExist
          · simp only [if_pos herr]
            exact localAt_symlink
          · simp only [if_neg herr]
            exact localAt_pure _
      | ok dst =>
          show LocalAt path fun hub => if base dst = base current then (none, hub)
            else afterRemove calls path link (remove calls path hub).1 (remove calls path hub).2
          by_cases hdst : base dst = base current
          · simp only [if_pos hdst]
            exact localAt_pure _
          · simp only [if_neg hdst]
            refine localAt_remove.bind (q := afterRemove calls path link) fun removed => ?_
            cases removed with
            | some err => exact localAt_pure _
            | none => exact localAt_symlink

end

/-! ## A turn and a round -/

namespace Worker

variable (w : Worker)

theorem zosLatest_inj {n n' : Network} (h : w.zosLatest n = w.zosLatest n') : n = n' :=
  (List.cons.inj (List.append_cancel_left h)).2

theorem localAt_updateZosVersion (network : Network) (version : Except WorkerError Bytes)
    (calls : Calls) :
    LocalAt (w.zosLatest network) (w.updateZosVersion network version calls) := by
  unfold updateZosVersion
  cases checkNetwork network with
  | some err => exact localAt_pure _
  | none =>
      cases version with
      | error err => exact localAt_pure _
      | ok version => exact localAt_updateLink

/-- What is done after an attempt. -/
def again (network : Network) (next : Attempt) (more : List Attempt) :
    Option WorkerError → Hub → Option WorkerError × Hub
  | none, hub => (none, hub)
  | some _, hub => w.retry network next more hub

theorem retry_cons (network : Network) (attempt next : Attempt) (more : List Attempt)
    (hub : Hub) : w.retry network attempt (next :: more) hub =
      w.again network next more
        (w.updateZosVersion network attempt.version attempt.calls hub).1
        (w.updateZosVersion network attempt.version attempt.calls hub).2 := by
  rw [retry]
  generalize w.updateZosVersion network attempt.version attempt.calls hub = tried
  obtain ⟨err, hub'⟩ := tried
  cases err <;> rfl

theorem localAt_retry (network : Network) (attempt : Attempt) (more : List Attempt) :
    LocalAt (w.zosLatest network) (w.retry network attempt more) := by
  induction more generalizing attempt with
  | nil => exact w.localAt_updateZosVersion network attempt.version attempt.calls
  | cons next more ih =>
      rw [funext (w.retry_cons network attempt next more)]
      have hattempt := w.localAt_updateZosVersion network attempt.version attempt.calls
      refine hattempt.bind (q := w.again network next more) fun err => ?_
      cases err with
      | none => exact localAt_pure _
      | some err => exact ih next

variable {w} {hub hub' : Hub} {n : Network}

theorem turn_other {t : NetworkTurn} {path : Bytes} (h : path ≠ w.zosLatest t.network) :
    w.turn hub t path = hub path := (w.localAt_retry t.network t.first t.more).other h

theorem turn_comm (s t : NetworkTurn) (h : s.network ≠ t.network) :
    w.turn (w.turn hub s) t = w.turn (w.turn hub t) s :=
  (w.localAt_retry s.network s.first s.more).comm
    (w.localAt_retry t.network t.first t.more) fun heq => h (w.zosLatest_inj heq)

/-- In a round the order of the networks does not matter. -/
theorem turns_perm {turns turns' : List NetworkTurn} (hperm : turns.Perm turns')
    (hnodup : (turns.map NetworkTurn.network).Nodup) :
    turns.foldl w.turn hub = turns'.foldl w.turn hub := by
  refine hperm.foldl_eq' (fun s hs t ht z => ?_) hub
  by_cases heq : s.network = t.network
  · rw [List.inj_on_of_nodup_map hnodup hs ht heq]
  · exact turn_comm s t heq

/-- And the link of a network depends on its own turn. -/
theorem turns_own {turns : List NetworkTurn} (heq : hub (w.zosLatest n) = hub' (w.zosLatest n)) :
    turns.foldl w.turn hub (w.zosLatest n) =
      (turns.filter fun t => t.network = n).foldl w.turn hub' (w.zosLatest n) := by
  induction turns generalizing hub hub' with
  | nil => exact heq
  | cons t turns ih =>
      rw [List.foldl_cons, List.filter_cons]
      by_cases ht : t.network = n
      · rw [if_pos (decide_eq_true ht), List.foldl_cons]
        refine ih ?_
        subst ht
        exact (w.localAt_retry t.network t.first t.more).self heq
      · rw [if_neg (by simpa using ht)]
        refine ih ?_
        rw [turn_other fun hpath => ht (w.zosLatest_inj hpath).symm, heq]

theorem turns_other {turns : List NetworkTurn} {path : Bytes}
    (h : ∀ t ∈ turns, path ≠ w.zosLatest t.network) :
    turns.foldl w.turn hub path = hub path := by
  induction turns generalizing hub with
  | nil => rfl
  | cons t turns ih =>
      rw [List.foldl_cons, ih fun s hs => h s (List.mem_cons_of_mem t hs)]
      exact turn_other (h t List.mem_cons_self)

/-! ## The loop -/

end Worker

/-- The turn of one network only. -/
def Round.own (r : Round) (n : Network) : Round where
  turns := r.turns.filter fun t => t.network = n
  nodup := r.nodup.sublist (List.filter_sublist.map _)

namespace Worker

variable {w : Worker}

/-- Rounds that differ in the order of their turns come to the same, what becomes of the
link of a network is what its own turns make of it, and nothing but these links changes. -/
theorem networks_apart (rounds rounds' : List Round) (hub : Hub)
    (hrounds : List.Forall₂ (fun r r' : Round => r.turns.Perm r'.turns) rounds rounds') :
    w.UpdateWithInterval rounds hub = w.UpdateWithInterval rounds' hub ∧
    (∀ n, w.UpdateWithInterval rounds hub (w.zosLatest n) =
      w.UpdateWithInterval (rounds.map fun r => r.own n) hub (w.zosLatest n)) ∧
    ∀ path, (∀ r ∈ rounds, ∀ t ∈ r.turns, path ≠ w.zosLatest t.network) →
      w.UpdateWithInterval rounds hub path = hub path := by
  refine ⟨?_, fun n => ?_, fun path hpath => ?_⟩
  · induction hrounds generalizing hub with
    | nil => rfl
    | @cons r r' rounds rounds' hr _ ih =>
        show w.UpdateWithInterval rounds (w.round hub r) =
          w.UpdateWithInterval rounds' (w.round hub r')
        rw [ih, show w.round hub r = w.round hub r' from turns_perm hr r.nodup]
  · have hown : ∀ (rounds : List Round) (hub hub' : Hub),
        hub (w.zosLatest n) = hub' (w.zosLatest n) →
        w.UpdateWithInterval rounds hub (w.zosLatest n) =
          w.UpdateWithInterval (rounds.map fun r => r.own n) hub' (w.zosLatest n) := by
      intro rounds
      induction rounds with
      | nil => exact fun _ _ heq => heq
      | cons r rounds ih => exact fun hub hub' heq => ih _ _ (turns_own heq)
    exact hown rounds hub hub rfl
  · clear hrounds
    induction rounds generalizing hub with
    | nil => rfl
    | cons r rounds ih =>
        show w.UpdateWithInterval rounds (w.round hub r) path = hub path
        rw [ih _ fun s hs => hpath s (List.mem_cons_of_mem r hs)]
        exact turns_other (hpath r List.mem_cons_self)

end Worker

/-- On a full disk the first attempt for the main network loses its link. -/
def mainTurn : NetworkTurn where
  network := MainNetwork
  first := ⟨.ok (bytes "v2"), noSpace⟩
  more := [⟨.ok (bytes "v2"), noErrors⟩]

def testTurn : NetworkTurn where
  network := TestNetwork
  first := ⟨.ok (bytes "v1"), noErrors⟩
  more := []

def mainFirst : Round where
  turns := [mainTurn, testTurn]
  nodup := by decide +kernel

def testFirst : Round where
  turns := [testTurn, mainTurn]
  nodup := by decide +kernel

theorem Worker.networks_apart_full_disk :
    sideBySide.UpdateWithInterval [mainFirst, testFirst] firstVersion =
      sideBySide.UpdateWithInterval [testFirst, testFirst] firstVersion ∧
    (∀ n, sideBySide.UpdateWithInterval [mainFirst, testFirst] firstVersion
        (sideBySide.zosLatest n) =
      sideBySide.UpdateWithInterval [mainFirst.own n, testFirst.own n] firstVersion
        (sideBySide.zosLatest n)) ∧
    ∀ path, (∀ r ∈ [mainFirst, testFirst], ∀ t ∈ r.turns,
        path ≠ sideBySide.zosLatest t.network) →
      sideBySide.UpdateWithInterval [mainFirst, testFirst] firstVersion path =
        firstVersion path :=
  Worker.networks_apart _ _ _ (.cons (.swap ..) (.cons (.refl _) .nil))

end Zos4.UpdateWorker
