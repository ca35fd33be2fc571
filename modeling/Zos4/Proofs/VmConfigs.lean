import Zos4.Vmd.Migration

/-!
# What becomes of the configs

The walk stops at the first entry that fails, and what comes behind is not copied; a file
that is copied when it stops is there in part. The old directory is removed all the same.
So the configs are all kept exactly if each of them has been copied in full, or is left
over where the removal fails, or was in the volatile directory before (`configs_kept_iff`).
-/

namespace Zos4.Vmd

open Zos4.Files

/-! ## The walk -/

/-- The walk stops at the entry. -/
def EntryCalls.Stops (calls : EntryCalls) : Entry → Prop
  | .dir => calls.lstat ≠ none ∨ calls.readDirNames ≠ none
  | .file _ => calls.lstat ≠ none ∨ calls.openFile ≠ none ∨ calls.create ≠ none ∨
      calls.copy ≠ none

instance (calls : EntryCalls) : (entry : Entry) → Decidable (calls.Stops entry)
  | .dir => inferInstanceAs (Decidable (_ ∨ _))
  | .file _ => inferInstanceAs (Decidable (_ ∨ _ ∨ _ ∨ _))

/-- The file is made in the volatile directory. -/
def EntryCalls.Creates (calls : EntryCalls) : Prop :=
  calls.lstat = none ∧ calls.openFile = none ∧ calls.create = none

instance (calls : EntryCalls) : Decidable calls.Creates :=
  inferInstanceAs (Decidable (_ ∧ _ ∧ _))

/-- What is written into it. -/
def EntryCalls.written (calls : EntryCalls) (content : Bytes) : Bytes :=
  match calls.copy with
  | none => content
  | some (n, _) => content.take n

section

variable {calls : EntryCalls} {dst : Volatile} {name : String} {content : Bytes}

theorem copyFile_snd : (copyFile calls name content dst).2 =
    if calls.openFile = none ∧ calls.create = none then
      Function.update dst name (some (calls.written content))
    else dst := by
  unfold copyFile EntryCalls.written
  cases calls.openFile with
  | some err => simp
  | none =>
      cases calls.create with
      | some err => simp
      | none => cases calls.copy <;> simp

theorem copyFile_fst : (copyFile calls name content dst).1 = none ↔
    calls.openFile = none ∧ calls.create = none ∧ calls.copy = none := by
  unfold copyFile
  cases calls.openFile with
  | some err => simp
  | none =>
      cases calls.create with
      | some err => simp
      | none => cases calls.copy <;> simp

theorem walkFn_stops (name : String) (dst : Volatile) {node : Entry} (h : calls.Stops node) :
    ∃ err, (walkFn calls (name, node) (calls.info node) dst).1 = some (.err err) := by
  cases node with
  | dir =>
      have hinfo : ∃ err, calls.info .dir = some err := by
        refine Option.ne_none_iff_exists'.mp fun hnone => ?_
        rw [EntryCalls.info, Option.or_eq_none_iff] at hnone
        exact h.elim (fun h => h hnone.1) fun h => h hnone.2
      obtain ⟨err, hinfo⟩ := hinfo
      exact ⟨err, by simp [walkFn, hinfo]⟩
  | file content =>
      cases hlstat : calls.lstat with
      | some err => exact ⟨err, by simp [walkFn, EntryCalls.info, hlstat]⟩
      | none =>
          have hcopy : (copyFile calls name content dst).1 ≠ none := by
            rw [ne_eq, copyFile_fst]
            intro hcopy
            rcases h with h | h | h | h
            · exact h hlstat
            · exact h hcopy.1
            · exact h hcopy.2.1
            · exact h hcopy.2.2
          obtain ⟨err, herr⟩ := Option.ne_none_iff_exists'.mp hcopy
          exact ⟨err, by simp [walkFn, EntryCalls.info, hlstat, herr]⟩

theorem walkFn_goes_on (name : String) (dst : Volatile) {node : Entry}
    (h : ¬ calls.Stops node) (err : VmdError) :
    (walkFn calls (name, node) (calls.info node) dst).1 ≠ some (.err err) := by
  cases node with
  | dir =>
      simp only [EntryCalls.Stops, not_or, not_not] at h
      simp [walkFn, EntryCalls.info, h.1, h.2]
  | file content =>
      simp only [EntryCalls.Stops, not_or, not_not] at h
      have hcopy : (copyFile calls name content dst).1 = none := copyFile_fst.mpr h.2
      simp [walkFn, EntryCalls.info, h.1, hcopy]

/-- The walk stops at an entry with an error, and with nothing else. -/
theorem stops_iff (name : String) (dst : Volatile) (node : Entry) : calls.Stops node ↔
    ∃ err, (walkFn calls (name, node) (calls.info node) dst).1 = some (.err err) := by
  constructor
  · exact walkFn_stops name dst
  · intro ⟨err, herr⟩
    exact Decidable.of_not_not fun hgoes => walkFn_goes_on name dst hgoes err herr

end

section

variable {calls : String → EntryCalls} {entry : String × Entry} {dst : Volatile}
  {entries : List (String × Entry)} {name : String} {content : Bytes}

/-- The volatile directory after an entry. -/
def visited (calls : EntryCalls) (entry : String × Entry) (dst : Volatile) : Volatile :=
  (walkFn calls entry (calls.info entry.2) dst).2

theorem visited_other (h : name ≠ entry.1) : visited (calls entry.1) entry dst name = dst name := by
  unfold visited walkFn
  split
  · rfl
  · split
    · rfl
    · dsimp only
      rw [copyFile_snd]
      split
      · exact Function.update_of_ne h ..
      · rfl

theorem visited_file (calls : String → EntryCalls) (dst : Volatile) (name : String)
    (content : Bytes) : visited (calls name) (name, .file content) dst name =
    if (calls name).Creates then some ((calls name).written content) else dst name := by
  by_cases hcreates : (calls name).Creates
  · rw [if_pos hcreates]
    simp [visited, walkFn, EntryCalls.info, hcreates.1, copyFile_snd, hcreates.2]
  · rw [if_neg hcreates]
    cases hlstat : (calls name).lstat with
    | some err => simp [visited, walkFn, EntryCalls.info, hlstat]
    | none =>
        have hnot : ¬ ((calls name).openFile = none ∧ (calls name).create = none) :=
          fun h => hcreates ⟨hlstat, h⟩
        simp [visited, walkFn, EntryCalls.info, hlstat, copyFile_snd, hnot]

/-- It goes on behind the entry, or stops there. -/
theorem walk_cons : (walk calls (entry :: entries) dst).2 =
    if (calls entry.1).Stops entry.2 then visited (calls entry.1) entry dst
    else (walk calls entries (visited (calls entry.1) entry dst)).2 := by
  have hstops : (calls entry.1).Stops entry.2 ↔ _ := stops_iff entry.1 dst entry.2
  unfold visited
  rw [walk]
  split
  · next err _ hfn =>
      rw [hfn] at hstops ⊢
      rw [if_pos (hstops.mpr ⟨err, rfl⟩)]
  · next hfn =>
      rw [hfn] at hstops ⊢
      rw [if_neg (by simp [hstops])]
  · next hfn =>
      rw [hfn] at hstops ⊢
      rw [if_neg (by simp [hstops])]

/-- Whether the walk comes to what is behind these entries. -/
def Passes (calls : String → EntryCalls) (before : List (String × Entry)) : Prop :=
  ∀ entry ∈ before, ¬ (calls entry.1).Stops entry.2

instance (calls : String → EntryCalls) (before : List (String × Entry)) :
    Decidable (Passes calls before) :=
  inferInstanceAs (Decidable (∀ entry ∈ before, _))

theorem walk_other (h : name ∉ entries.map Prod.fst) :
    (walk calls entries dst).2 name = dst name := by
  induction entries generalizing dst with
  | nil => rfl
  | cons entry entries ih =>
      rw [List.map_cons, List.mem_cons, not_or] at h
      rw [walk_cons]
      split
      · exact visited_other h.1
      · rw [ih h.2, visited_other h.1]

/-- What there is in the place of a file when the walk is over. -/
theorem walk_file (calls : String → EntryCalls) (dst : Volatile)
    {before after : List (String × Entry)}
    (hnodup : ((before ++ (name, .file content) :: after).map Prod.fst).Nodup) :
    (walk calls (before ++ (name, .file content) :: after) dst).2 name =
      if Passes calls before ∧ (calls name).Creates then some ((calls name).written content)
      else dst name := by
  induction before generalizing dst with
  | nil =>
      have hafter : name ∉ after.map Prod.fst := (List.nodup_cons.mp hnodup).1
      have hpasses : Passes calls [] := fun entry h => by cases h
      simp only [List.nil_append, walk_cons, hpasses, true_and]
      rw [← visited_file calls dst name content]
      split
      · rfl
      · exact walk_other hafter
  | cons entry before ih =>
      obtain ⟨hentry, hnodup⟩ := List.nodup_cons.mp hnodup
      have hne : name ≠ entry.1 := by
        intro heq
        refine hentry (heq ▸ ?_)
        simp
      rw [List.cons_append, walk_cons]
      split
      · next hstops =>
          have hnot : ¬ Passes calls (entry :: before) := fun h => h entry List.mem_cons_self hstops
          rw [if_neg fun h => hnot h.1]
          exact visited_other hne
      · next hgoes =>
          have hpasses : Passes calls (entry :: before) ↔ Passes calls before := by
            rw [Passes, List.forall_mem_cons]
            exact and_iff_right hgoes
          rw [ih _ hnodup, visited_other hne]
          simp only [hpasses]

end

/-! ## The migration -/

/-- The removal fails and leaves the entry. -/
def Calls.Leaves (calls : Calls) (name : String) : Prop :=
  ∃ left, calls.removeAll = some left ∧ left name = true

/-- The file is complete in the volatile directory, as it has been written there, or as it
was there before. -/
def Arrives (calls : Calls) (dst : Volatile) (before : List (String × Entry)) (name : String)
    (content : Bytes) : Prop :=
  if calls.root = none ∧ Passes calls.entry before ∧ (calls.entry name).Creates then
    (calls.entry name).written content = content
  else dst name = some content

section

variable {calls : Calls} {src : Dir} {dst : Volatile} {name : String} {content : Bytes}

theorem mem_removeAll {entry : String × Entry} (h : entry ∈ src.entries) :
    entry ∈ removeAll calls src ↔ calls.Leaves entry.1 := by
  unfold removeAll Calls.Leaves
  cases calls.removeAll with
  | none => simp
  | some left => simp [h]

theorem copyDepth1_file {before after : List (String × Entry)}
    (hsrc : src.entries = before ++ (name, .file content) :: after) :
    (copyDepth1 calls src dst).2 name = some content ↔
      Arrives calls dst before name content := by
  unfold copyDepth1 Arrives
  cases calls.root with
  | some err => simp
  | none =>
      have hfile := walk_file calls.entry dst (hsrc ▸ src.nodup)
      simp only [hsrc, hfile, true_and]
      split
      · exact Option.some_inj
      · rfl

/-- If machines are running, the configs are all kept exactly if each of them is left in the
old directory, or arrives in the volatile one. -/
theorem configs_kept_iff {vms : List String} (hvms : calls.list = .ok vms)
    (hrunning : 0 < vms.length) :
    (∀ name content, (name, .file content) ∈ src.entries →
      (migrate calls src dst).2.2 name = some content ∨
        (name, .file content) ∈ (migrate calls src dst).2.1) ↔
      ∀ before name content after, src.entries = before ++ (name, .file content) :: after →
        calls.Leaves name ∨ Arrives calls dst before name content := by
  have hmigrate : migrate calls src dst =
      (none, removeAll calls src, (copyDepth1 calls src dst).2) := by
    rw [migrate, hvms]
    dsimp only
    rw [if_pos hrunning]
  rw [hmigrate]
  constructor
  · intro h before name content after hsrc
    have hmem : (name, .file content) ∈ src.entries := by simp [hsrc]
    rcases h name content hmem with hcopied | hleft
    · exact .inr ((copyDepth1_file hsrc).mp hcopied)
    · exact .inl ((mem_removeAll hmem).mp hleft)
  · intro h name content hmem
    obtain ⟨before, after, hsrc⟩ := List.append_of_mem hmem
    rcases h before name content after hsrc with hleft | harrives
    · exact .inr ((mem_removeAll hmem).mpr hleft)
    · exact .inl ((copyDepth1_file hsrc).mpr harrives)

end

/-! ## A machine whose config cannot be written -/

namespace NoSpace

def configs : Dir where
  entries := [("1-2-vm", .file [1, 2, 3]), ("1-3-vm", .file [4])]
  nodup := by decide

def noSpace : EntryCalls where
  lstat := none
  readDirNames := none
  openFile := none
  create := none
  copy := some (1, .text "no space left on device")

/-- Nothing fails but the copy of the first config. -/
def calls (removeAll : Option (String → Bool)) : Calls where
  list := .ok ["1-2-vm", "1-3-vm"]
  root := none
  entry name := if name = "1-2-vm" then noSpace else { noSpace with copy := none }
  removeAll := removeAll

theorem configs_kept_iff_left :
    (∀ name content, (name, .file content) ∈ configs.entries →
      (migrate (calls (some fun _ => true)) configs fun _ => none).2.2 name = some content ∨
        (name, .file content) ∈
          (migrate (calls (some fun _ => true)) configs fun _ => none).2.1) ↔
      ∀ before name content after,
        configs.entries = before ++ (name, .file content) :: after →
          (calls (some fun _ => true)).Leaves name ∨
            Arrives (calls (some fun _ => true)) (fun _ => none) before name content :=
  configs_kept_iff (show (calls (some fun _ => true)).list = _ from rfl) (by decide)

theorem configs_lost : ¬ ∀ (calls : Calls) (src : Dir) (dst : Volatile) (vms : List String),
    calls.list = .ok vms → 0 < vms.length → ∀ name content,
      (name, .file content) ∈ src.entries →
        (migrate calls src dst).2.2 name = some content ∨
          (name, .file content) ∈ (migrate calls src dst).2.1 := by
  intro h
  have hlost := h (calls none) configs (fun _ => none) _ rfl (by decide) "1-2-vm" [1, 2, 3]
    (by decide)
  exact absurd hlost (by decide)

end NoSpace

end Zos4.Vmd
