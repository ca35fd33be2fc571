import Zos4.Identityd.Ssh

/-!
# What is in the file of the keys

Every attempt writes what it reads straight into the file, and what a failed one has
written stays. The file is made of the pieces of all attempts, in order, and the whole
lists are among them: so it is the concatenation of the whole lists exactly when the
other pieces are empty, by counting the bytes (`complete_keys_iff`).
-/

namespace Zos4.Identityd

open Zos4.Files

/-! ## One attempt -/

/-- What the attempt writes. -/
def Response.written : Response → Bytes
  | .failed _ => []
  | .answered status body _ => if status = 200 then body else []

/-- The whole list has been read. -/
def Response.complete : Response → Bool
  | .failed _ => false
  | .answered status _ err => status = 200 && err.isNone

/-- The attempt is followed by another one, if there is one left. -/
def Response.retried : Response → Bool
  | .failed _ => true
  | .answered status _ err => status ≠ 404 && !(status = 200 && err.isNone)

theorem Response.not_retried_of_complete {res : Response} (h : res.complete = true) :
    res.retried = false := by
  cases res with
  | failed err => cases h
  | answered status body err =>
      simp only [complete] at h
      simp [retried, h]

/-- An attempt adds to the file what it writes, and ends as its response says. -/
theorem fetchKey_cases (user : String) (res : Response) (file : Bytes) :
    (res.retried = true ∧ ∃ err, fetchKey user res file = (.retry err, file ++ res.written)) ∨
    (res.retried = false ∧ (fetchKey user res file = (.ok, file ++ res.written) ∨
      ∃ err, fetchKey user res file = (.permanent err, file ++ res.written))) := by
  cases res with
  | failed err => exact .inl ⟨rfl, _, by simp [fetchKey, Response.written]; rfl⟩
  | answered status body err =>
      by_cases h404 : status = 404
      · exact .inr ⟨by simp [Response.retried, h404], .inr
          ⟨_, by simp [fetchKey, h404, Response.written]; rfl⟩⟩
      · by_cases h200 : status = 200
        · cases err with
          | none =>
              exact .inr ⟨by simp [Response.retried, h200], .inl
                (by simp [fetchKey, h200, Response.written])⟩
          | some err =>
              exact .inl ⟨by simp [Response.retried, h200], err,
                by simp [fetchKey, h200, Response.written]⟩
        · exact .inl ⟨by simp [Response.retried, h404, h200], _,
            by simp [fetchKey, h404, h200, Response.written]; rfl⟩

/-! ## The attempts for a user -/

/-- The attempts that are made. -/
def attempts (get : Nat → Response) : Nat → Nat → List Response
  | 0, attempt => [get attempt]
  | retries + 1, attempt =>
      if (get attempt).retried then get attempt :: attempts get retries (attempt + 1)
      else [get attempt]

theorem retry_file (user : String) (get : Nat → Response) (retries attempt : Nat)
    (file : Bytes) : (retry user get retries attempt file).2 =
      file ++ (attempts get retries attempt).flatMap Response.written := by
  induction retries generalizing attempt file with
  | zero =>
      rw [retry, attempts, List.flatMap_singleton]
      rcases fetchKey_cases user (get attempt) file with ⟨-, err, heq⟩ | ⟨-, heq | ⟨err, heq⟩⟩
      · rw [heq]
      · rw [heq]
      · rw [heq]
  | succ retries ih =>
      rw [retry, attempts]
      rcases fetchKey_cases user (get attempt) file with
        ⟨hretried, err, heq⟩ | ⟨hretried, heq | ⟨err, heq⟩⟩
      · rw [heq, if_pos hretried, List.flatMap_cons]
        dsimp only
        rw [ih, List.append_assoc]
      · rw [heq, if_neg (by simp [hretried]), List.flatMap_singleton]
      · rw [heq, if_neg (by simp [hretried]), List.flatMap_singleton]

/-- The whole list of the user, if an attempt has come to it. -/
def wholeKeys (made : List Response) : Bytes :=
  match made.find? Response.complete with
  | some res => res.written
  | none => []

/-- The attempts that do not come to the whole list write nothing. -/
def Clean (made : List Response) : Prop :=
  ∀ res ∈ made, res.complete = false → res.written = []

/-- What the attempts write is the whole list if they are clean, and else is longer. -/
structure Adds (made : List Response) : Prop where
  clean : Clean made → made.flatMap Response.written = wholeKeys made
  longer : ¬ Clean made → (wholeKeys made).length < (made.flatMap Response.written).length

theorem Adds.length_le {made : List Response} (h : Adds made) :
    (wholeKeys made).length ≤ (made.flatMap Response.written).length := by
  by_cases hclean : Clean made
  · exact Nat.le_of_eq (congrArg List.length (h.clean hclean).symm)
  · exact Nat.le_of_lt (h.longer hclean)

theorem adds_singleton (res : Response) : Adds [res] := by
  cases hcomplete : res.complete with
  | true =>
      have hkeys : wholeKeys [res] = res.written := by simp [wholeKeys, hcomplete]
      constructor
      · intro _
        rw [hkeys, List.flatMap_singleton]
      · intro hdirty
        refine absurd (fun res' hres' hnot => ?_) hdirty
        obtain rfl := List.mem_singleton.mp hres'
        rw [hcomplete] at hnot
        cases hnot
  | false =>
      have hkeys : wholeKeys [res] = [] := by simp [wholeKeys, hcomplete]
      constructor
      · intro hclean
        rw [hkeys, List.flatMap_singleton]
        exact hclean res List.mem_cons_self hcomplete
      · intro hdirty
        rw [hkeys, List.flatMap_singleton]
        refine List.length_pos_iff.mpr fun hempty => hdirty fun res' hres' _ => ?_
        obtain rfl := List.mem_singleton.mp hres'
        exact hempty

/-- An attempt that fails, before others. -/
theorem adds_cons {res : Response} {made : List Response} (hcomplete : res.complete = false)
    (h : Adds made) : Adds (res :: made) := by
  have hkeys : wholeKeys (res :: made) = wholeKeys made := by
    rw [wholeKeys, wholeKeys, List.find?_cons_of_neg (by simp [hcomplete])]
  have hle := h.length_le
  constructor
  · intro hclean
    have hrest : Clean made := fun res' hres' => hclean res' (List.mem_cons_of_mem res hres')
    rw [hkeys, List.flatMap_cons, hclean res List.mem_cons_self hcomplete, h.clean hrest]
    rfl
  · intro hdirty
    rw [hkeys, List.flatMap_cons, List.length_append]
    by_cases hempty : res.written = []
    · have hrest : ¬ Clean made := by
        intro hclean
        refine hdirty fun res' hres' hnot => ?_
        rcases List.mem_cons.mp hres' with rfl | hmem
        · exact hempty
        · exact hclean res' hmem hnot
      have hlt := h.longer hrest
      omega
    · have hpos := List.length_pos_iff.mpr hempty
      omega

theorem adds_attempts (get : Nat → Response) (retries attempt : Nat) :
    Adds (attempts get retries attempt) := by
  induction retries generalizing attempt with
  | zero => exact adds_singleton (get attempt)
  | succ retries ih =>
      rw [attempts]
      split
      · next hretried =>
          refine adds_cons ?_ (ih (attempt + 1))
          cases hcomplete : (get attempt).complete with
          | false => rfl
          | true =>
              rw [Response.not_retried_of_complete hcomplete] at hretried
              cases hretried
      · exact adds_singleton (get attempt)

/-! ## All users -/

/-- The attempts for each user, in the order of the list. -/
def allAttempts (calls : Calls) : Nat → List String → List (List Response)
  | _, [] => []
  | i, user :: users =>
      attempts (fun attempt => calls.get i attempt (keysURL user)) 3 0 ::
        allAttempts calls (i + 1) users

theorem fetchKeys_file (calls : Calls) (users : List String) (i : Nat) (file : Bytes) :
    fetchKeys calls i users file =
      file ++ (allAttempts calls i users).flatMap fun made => made.flatMap Response.written := by
  induction users generalizing i file with
  | nil => exact (List.append_nil file).symm
  | cons user users ih =>
      rw [fetchKeys, ih, retry_file, allAttempts, List.flatMap_cons, List.append_assoc]

theorem adds_allAttempts (calls : Calls) (users : List String) (i : Nat) :
    ∀ made ∈ allAttempts calls i users, Adds made := by
  induction users generalizing i with
  | nil =>
      intro made hmade
      cases hmade
  | cons user users ih =>
      intro made hmade
      rcases List.mem_cons.mp hmade with rfl | hrest
      · exact adds_attempts _ 3 0
      · exact ih (i + 1) made hrest

theorem length_le_written {all : List (List Response)} (h : ∀ made ∈ all, Adds made) :
    (all.flatMap wholeKeys).length ≤
      (all.flatMap fun made => made.flatMap Response.written).length := by
  induction all with
  | nil => exact Nat.le_refl 0
  | cons made all ih =>
      have hmade := (h made List.mem_cons_self).length_le
      have hall := ih fun made' hmem => h made' (List.mem_cons_of_mem made hmem)
      rw [List.flatMap_cons, List.flatMap_cons, List.length_append, List.length_append]
      omega

/-- Pieces that are no shorter are the same put together exactly when each is. -/
theorem flatMap_adds_iff {all : List (List Response)} (h : ∀ made ∈ all, Adds made) :
    (all.flatMap fun made => made.flatMap Response.written) = all.flatMap wholeKeys ↔
      ∀ made ∈ all, Clean made := by
  induction all with
  | nil => exact iff_of_true rfl fun made hmade => by cases hmade
  | cons made all ih =>
      have hmade := h made List.mem_cons_self
      have hrest : ∀ made' ∈ all, Adds made' := fun made' hmem =>
        h made' (List.mem_cons_of_mem made hmem)
      rw [List.flatMap_cons, List.flatMap_cons, List.forall_mem_cons]
      by_cases hclean : Clean made
      · rw [hmade.clean hclean, List.append_cancel_left_eq, ih hrest, and_iff_right hclean]
      · refine iff_of_false (fun heq => ?_) fun hall => hclean hall.1
        have hlength := congrArg List.length heq
        have hlt := hmade.longer hclean
        have hle := length_le_written hrest
        rw [List.length_append, List.length_append] at hlength
        omega

/-! ## The file -/

/-- The file is gone when it is opened. -/
theorem remove_gone {calls : Calls} {fs : KeyFile}
    (h : (remove calls fs).1 = none ∨ (remove calls fs).1 = some .notExist) :
    (remove calls fs).2 = none := by
  unfold remove at h ⊢
  cases hcall : calls.remove with
  | some msg =>
      rw [hcall] at h
      rcases h with h | h <;> cases h
  | none => cases fs <;> rfl

/-- What is left without an error: an empty file, and the keys of all users. -/
theorem manageSSHKeys_nil {calls : Calls} {fs : KeyFile} (h : (manageSSHKeys calls fs).1 = none) :
    ∃ users, authorizedUsers calls = .ok users ∧
      (manageSSHKeys calls fs).2 = some (fetchKeys calls 0 users []) := by
  have hgone := @remove_gone calls fs
  rw [manageSSHKeys] at h ⊢
  generalize remove calls fs = removed at h hgone ⊢
  obtain ⟨err, fs'⟩ := removed
  dsimp only at h hgone ⊢
  split at h
  · next hremoved =>
      rw [if_pos hremoved]
      obtain rfl := hgone hremoved
      cases husers : authorizedUsers calls with
      | error err =>
          rw [husers] at h
          cases h
      | ok users =>
          refine ⟨users, rfl, ?_⟩
          rw [husers] at h
          cases hopen : calls.openFile with
          | some err =>
              rw [openFile, hopen] at h
              cases h
          | none =>
              rw [openFile, hopen]
              rfl
  · next hremoved =>
      cases err with
      | none => exact absurd (.inl rfl) hremoved
      | some err => cases h

/-- The file holds the whole lists and nothing else exactly when no attempt that failed
has written anything. -/
theorem complete_keys_iff (calls : Calls) (fs : KeyFile)
    (h : (manageSSHKeys calls fs).1 = none) :
    ∃ users, authorizedUsers calls = .ok users ∧
      ((manageSSHKeys calls fs).2 = some ((allAttempts calls 0 users).flatMap wholeKeys) ↔
        ∀ made ∈ allAttempts calls 0 users, Clean made) := by
  obtain ⟨users, husers, hfile⟩ := manageSSHKeys_nil h
  refine ⟨users, husers, ?_⟩
  rw [hfile, fetchKeys_file, List.nil_append, Option.some.injEq]
  exact flatMap_adds_iff (adds_allAttempts calls users 0)

/-! ## A connection that breaks -/

/-- The first attempt breaks off after the first bytes, the second one succeeds. -/
def brokenOnce (attempt : Nat) : Response :=
  if attempt = 0 then .answered 200 (bytes "ssh-ed") (some (.text "unexpected EOF"))
  else .answered 200 (bytes "ssh-ed25519 AAAA") none

def fetching (get : Nat → Nat → String → Response) : Calls where
  sshUser := none
  remove := none
  env := ⟨.dev, 1⟩
  config := .ok ["user"]
  testConfig := .ok []
  openFile := none
  get := get

def broken : Calls := fetching fun _ attempt _ => brokenOnce attempt

theorem broken_keys_stay : authorizedUsers broken = .ok ["user"] ∧
    (manageSSHKeys broken none).1 = none ∧
      (manageSSHKeys broken none).2 ≠
        some ((allAttempts broken 0 ["user"]).flatMap wholeKeys) :=
  ⟨rfl, rfl, by decide +kernel⟩

def unknown : Calls := fetching fun _ _ _ => .answered 404 [] none

theorem complete_keys_iff_refused :
    ∃ users, authorizedUsers unknown = .ok users ∧
      ((manageSSHKeys unknown none).2 =
          some ((allAttempts unknown 0 users).flatMap wholeKeys) ↔
        ∀ made ∈ allAttempts unknown 0 users, Clean made) :=
  complete_keys_iff _ none rfl

end Zos4.Identityd
