import Mathlib.Data.List.Induction
import Mathlib.Logic.Function.Basic
import Zos4.Files.Path

/-!
# Trees of files

What is found in a file system at each of its places: a directory, a file with its
content, a link with the target as it is written, something else, or nothing. The
calls that change it touch one place, and `rename` two.

A `Location` is a place below some directory, by the names that lead to it. Two
entries next to each other whose names differ in a suffix are `withSuffix` of one
another.
-/

namespace Zos4.Files

inductive Node (C : Type) where
  | dir
  | file (content : C)
  | link (target : Bytes)
  /-- A device, a pipe or a socket. -/
  | special
  deriving DecidableEq, Repr

def Node.isDir {C : Type} : Node C → Bool
  | .dir => true
  | _ => false

def Node.isLink {C : Type} : Node C → Bool
  | .link _ => true
  | _ => false

theorem Node.isDir_of_ne {C : Type} {node : Node C} (h : node ≠ .dir) :
    node.isDir = false := by
  cases node with
  | dir => exact absurd rfl h
  | file | link | special => rfl

abbrev Tree (K C : Type) := K → Option (Node C)

namespace Tree

variable {K C : Type} [DecidableEq K]

def empty : Tree K C := fun _ => none

def put (t : Tree K C) (k : K) (node : Node C) : Tree K C :=
  Function.update t k (some node)

def erase (t : Tree K C) (k : K) : Tree K C := Function.update t k none

/-- What was at the new place is gone. -/
def rename (t : Tree K C) (k k' : K) : Tree K C :=
  Function.update (t.erase k) k' (t k)

variable {t : Tree K C} {k k' l : K} {node : Node C}

@[simp] theorem put_self : t.put k node k = some node := Function.update_self ..

theorem put_of_ne (h : l ≠ k) : t.put k node l = t l := Function.update_of_ne h ..

@[simp] theorem erase_self : t.erase k k = none := Function.update_self ..

theorem erase_of_ne (h : l ≠ k) : t.erase k l = t l := Function.update_of_ne h ..

@[simp] theorem rename_to : t.rename k k' k' = t k := Function.update_self ..

theorem rename_from (h : k ≠ k') : t.rename k k' k = none :=
  (Function.update_of_ne h ..).trans erase_self

theorem rename_of_ne (h : l ≠ k) (h' : l ≠ k') : t.rename k k' l = t l :=
  (Function.update_of_ne h' ..).trans (erase_of_ne h)

end Tree

/-! ## Locations -/

abbrev Location := List Bytes

/-- The entry with more at the end of its name. -/
def withSuffix (p : Location) (suffix : Bytes) : Location :=
  p.dropLast ++ [p.getLastD [] ++ suffix]

theorem withSuffix_ne {suffix : Bytes} (h : suffix ≠ []) (p : Location) :
    withSuffix p suffix ≠ p := by
  intro heq
  cases p using List.reverseRecOn with
  | nil => simp [withSuffix] at heq
  | append_singleton p name =>
      simp [withSuffix] at heq
      exact h heq

namespace Tree

variable {C : Type} {t : Tree Location C} {p p' : Location}

/-- A directory is renamed: what is below it comes along. -/
def move (t : Tree Location C) (p p' : Location) : Tree Location C := fun l =>
  if p <+: l then none
  else if p' <+: l then (t (p ++ l.drop p'.length)).or (t l)
  else t l

/-- Nothing is below an empty directory. -/
def EmptyBelow (t : Tree Location C) (p : Location) : Prop := ∀ l, p <+: l → l ≠ p → t l = none

theorem move_of_empty {node : Node C} (hp : t p = some node) (hempty : t.EmptyBelow p)
    (hne : ¬ p <+: p') : t.move p p' = t.rename p p' := by
  have hpp' : p ≠ p' := fun heq => hne (heq ▸ List.prefix_refl p)
  funext l
  rw [move]
  by_cases hbelow : p <+: l
  · rw [if_pos hbelow]
    by_cases hl : l = p
    · rw [hl, rename_from hpp']
    · have hl' : l ≠ p' := fun heq => hne (heq ▸ hbelow)
      rw [rename_of_ne hl hl', hempty l hbelow hl]
  · rw [if_neg hbelow]
    have hl : l ≠ p := fun heq => hbelow (heq ▸ List.prefix_refl p)
    by_cases hnew : p' <+: l
    · rw [if_pos hnew]
      obtain ⟨rest, rfl⟩ := hnew
      rw [List.drop_left]
      cases rest with
      | nil =>
          rw [List.append_nil, List.append_nil, rename_to, hp]
          rfl
      | cons name rest =>
          rw [hempty (p ++ name :: rest) (List.prefix_append ..) (by simp),
            rename_of_ne hl (by simp)]
          rfl
    · rw [if_neg hnew, rename_of_ne hl (fun heq => hnew (heq ▸ List.prefix_refl p'))]

end Tree

end Zos4.Files
