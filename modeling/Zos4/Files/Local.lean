import Zos4.Files.Tree

/-!
# Operations on one place

An operation is local to a place of a tree if it looks at nothing else and changes nothing
else. Operations that are put together of such ones are, and two at different places
commute.
-/

namespace Zos4.Files

variable {K C α β : Type} [DecidableEq K] {k k' l : K}

/-- What it answers and what it leaves at the place is decided by what is there. -/
def LocalAt (k : K) (op : Tree K C → α × Tree K C) : Prop :=
  ∃ f : Option (Node C) → α × Option (Node C),
    ∀ t, op t = ((f (t k)).1, Function.update t k (f (t k)).2)

theorem localAt_pure (a : α) : LocalAt k fun t : Tree K C => (a, t) :=
  ⟨fun node => (a, node), fun t => by rw [Function.update_eq_self]⟩

/-- The place may be looked at first. -/
theorem localAt_read {g : Option (Node C) → Tree K C → α × Tree K C}
    (h : ∀ node, LocalAt k (g node)) : LocalAt k fun t => g (t k) t := by
  choose f hf using h
  exact ⟨fun node => f node node, fun t => hf (t k) t⟩

/-- One after the other, the second depending on what the first answers. -/
theorem LocalAt.bind {op : Tree K C → α × Tree K C} {q : α → Tree K C → β × Tree K C}
    (h : LocalAt k op) (hq : ∀ a, LocalAt k (q a)) :
    LocalAt k fun t => q (op t).1 (op t).2 := by
  obtain ⟨f, hf⟩ := h
  choose g hg using hq
  refine ⟨fun node => g (f node).1 (f node).2, fun t => ?_⟩
  show q (op t).1 (op t).2 = _
  rw [hf t, hg]
  simp

variable {op : Tree K C → α × Tree K C} {op' : Tree K C → β × Tree K C} {t : Tree K C}

theorem LocalAt.other (h : LocalAt k op) (hne : l ≠ k) : (op t).2 l = t l := by
  obtain ⟨f, hf⟩ := h
  rw [hf]
  exact Function.update_of_ne hne ..

/-- What is at the place afterwards depends on what was there. -/
theorem LocalAt.self (h : LocalAt k op) {t' : Tree K C} (heq : t k = t' k) :
    (op t).2 k = (op t').2 k := by
  obtain ⟨f, hf⟩ := h
  rw [hf t, hf t', heq]
  simp

theorem LocalAt.comm (h : LocalAt k op) (h' : LocalAt k' op') (hne : k ≠ k') :
    (op' (op t).2).2 = (op (op' t).2).2 := by
  obtain ⟨f, hf⟩ := h
  obtain ⟨g, hg⟩ := h'
  rw [hf t, hg t, hf, hg]
  simp only [Function.update_of_ne hne, Function.update_of_ne hne.symm]
  exact Function.update_comm hne _ _ t

end Zos4.Files
