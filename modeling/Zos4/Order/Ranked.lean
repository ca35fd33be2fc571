import Mathlib.Data.List.Sort

/-!
# Sorting by rank

A stable sort by a rank puts the list into groups, one for each rank, in the order of
the ranks and each in the order of the list (`insertionSort_ranked`). Whatever is
asked of a sorted list can be asked of its groups then: `pairwise_grouped` takes a
relation between elements of the same group back to the list that was sorted.
-/

namespace Zos4.Order

variable {α κ : Type}

/-! ## Groups -/

/-- The elements of each key, key by key. -/
def grouped [DecidableEq κ] (key : α → κ) (keys : List κ) (l : List α) : List α :=
  keys.flatMap fun k => l.filter fun a => key a = k

section

variable [DecidableEq κ] {key : α → κ} {keys : List κ} {l : List α}

@[simp] theorem grouped_nil : grouped key [] l = [] := rfl

@[simp] theorem grouped_empty : grouped key keys [] = [] := by
  simp [grouped]

theorem grouped_cons (k : κ) :
    grouped key (k :: keys) l = (l.filter fun a => key a = k) ++ grouped key keys l := rfl

theorem grouped_append (keys' : List κ) :
    grouped key (keys ++ keys') l = grouped key keys l ++ grouped key keys' l :=
  List.flatMap_append

theorem mem_grouped {a : α} : a ∈ grouped key keys l ↔ a ∈ l ∧ key a ∈ keys := by
  simp only [grouped, List.mem_flatMap, List.mem_filter, decide_eq_true_eq]
  constructor
  · intro h
    obtain ⟨k, hk, ha, rfl⟩ := h
    exact ⟨ha, hk⟩
  · intro h
    exact ⟨key a, h.2, h.1, rfl⟩

/-- An element of another key than these makes no difference. -/
theorem grouped_cons_of_not_mem {a : α} (h : key a ∉ keys) :
    grouped key keys (a :: l) = grouped key keys l := by
  induction keys with
  | nil => rfl
  | cons k keys ih =>
      rw [List.mem_cons, not_or] at h
      rw [grouped_cons, grouped_cons, ih h.2, List.filter_cons_of_neg (by simpa using h.1)]

theorem filter_grouped (p : α → Bool) :
    (grouped key keys l).filter p = grouped key keys (l.filter p) := by
  induction keys with
  | nil => rfl
  | cons k keys ih =>
      rw [grouped_cons, grouped_cons, List.filter_append, ih, List.filter_filter,
        List.filter_filter]
      simp only [Bool.and_comm]

theorem grouped_map {β : Type} (f : β → α) (l : List β) :
    grouped key keys (l.map f) = (grouped (fun b => key (f b)) keys l).map f := by
  rw [grouped, grouped, List.map_flatMap]
  simp only [List.filter_map]
  rfl

theorem grouped_perm (hkeys : keys.Nodup) (hl : ∀ a ∈ l, key a ∈ keys) :
    (grouped key keys l).Perm l := by
  induction keys generalizing l with
  | nil =>
      cases l with
      | nil => rfl
      | cons a l => exact absurd (hl a List.mem_cons_self) List.not_mem_nil
  | cons k keys ih =>
      obtain ⟨hk, hkeys⟩ := List.nodup_cons.mp hkeys
      have hothers : grouped key keys l =
          grouped key keys (l.filter fun a => !decide (key a = k)) := by
        refine List.flatMap_congr fun k' hk' => ?_
        rw [List.filter_filter]
        refine List.filter_congr fun a _ => ?_
        by_cases heq : key a = k'
        · have hne : k' ≠ k := fun hk'k => hk (hk'k ▸ hk')
          simp [heq, hne]
        · simp [heq]
      have hrest := ih (l := l.filter fun a => !decide (key a = k)) hkeys (by
        intro a ha
        have hne : key a ≠ k := by simpa using (List.mem_filter.mp ha).2
        exact (List.mem_cons.mp (hl a (List.mem_filter.mp ha).1)).resolve_left hne)
      rw [grouped_cons, hothers]
      exact (hrest.append_left _).trans (List.filter_append_perm _ l)

theorem pairwise_idxOf (hkeys : keys.Nodup) :
    keys.Pairwise fun k k' => keys.idxOf k < keys.idxOf k' := by
  rw [List.pairwise_iff_getElem]
  intro i j hi hj hij
  rw [hkeys.idxOf_getElem, hkeys.idxOf_getElem]
  exact hij

/-- The groups stand in the order of the keys. -/
theorem grouped_ordered (hkeys : keys.Nodup) :
    (grouped key keys l).Pairwise fun a b => keys.idxOf (key a) ≤ keys.idxOf (key b) := by
  rw [grouped, List.pairwise_flatMap]
  constructor
  · intro k _
    rw [List.pairwise_filter]
    refine List.pairwise_of_forall fun a b ha hb => ?_
    simp only [decide_eq_true_eq] at ha hb
    rw [ha, hb]
  · refine (pairwise_idxOf hkeys).imp fun {k k'} hlt a ha b hb => ?_
    simp only [List.mem_filter, decide_eq_true_eq] at ha hb
    rw [ha.2, hb.2]
    exact Nat.le_of_lt hlt

/-- Elements of the same key are related in the groups if they are in the list. -/
theorem pairwise_grouped {R : α → α → Prop} (hkeys : keys.Nodup)
    (hl : ∀ a ∈ l, key a ∈ keys) :
    (grouped key keys l).Pairwise (fun a b => key a = key b → R a b) ↔
      l.Pairwise fun a b => key a = key b → R a b := by
  rw [grouped, List.pairwise_flatMap]
  constructor
  · intro h
    obtain ⟨hin, -⟩ := h
    rw [List.pairwise_iff_forall_sublist]
    intro a b hab hkey
    have ha : key a ∈ keys := hl a (hab.subset (by simp))
    have hgroup := hin (key a) ha
    rw [List.pairwise_filter, List.pairwise_iff_forall_sublist] at hgroup
    exact hgroup hab (by simp) (by simpa using hkey.symm) hkey
  · intro h
    refine ⟨fun k _ => h.filter _, ?_⟩
    refine hkeys.imp fun {k k'} hne a ha b hb hkey => ?_
    simp only [List.mem_filter, decide_eq_true_eq] at ha hb
    exact absurd (ha.2.symm.trans (hkey.trans hb.2)) hne

end

/-! ## Sorting -/

section

variable {rank : α → Int} {ranks : List Int} {l : List α}

/-- The relation a sort by rank sorts by. -/
abbrev byRank (rank : α → Int) (a b : α) : Prop := rank a ≤ rank b

/-- What is smaller stays in front. -/
theorem orderedInsert_append {a : α} {front : List α} (h : ∀ b ∈ front, rank b < rank a)
    (rest : List α) :
    (front ++ rest).orderedInsert (byRank rank) a =
      front ++ rest.orderedInsert (byRank rank) a := by
  induction front with
  | nil => rfl
  | cons b front ih =>
      have hb : ¬ rank a ≤ rank b := by
        have := h b List.mem_cons_self
        omega
      rw [List.cons_append, List.orderedInsert_cons, if_neg hb,
        ih fun c hc => h c (List.mem_cons_of_mem b hc), List.cons_append]

/-- What is not smaller is put in front of. -/
theorem orderedInsert_le {a : α} (h : ∀ b ∈ l, rank a ≤ rank b) :
    l.orderedInsert (byRank rank) a = a :: l := by
  cases l with
  | nil => rfl
  | cons b l =>
      rw [List.orderedInsert_cons, if_pos (h b List.mem_cons_self)]

/-- One more element goes to the front of its group. -/
theorem orderedInsert_grouped (hranks : ranks.Pairwise (· < ·)) {a : α}
    (ha : rank a ∈ ranks) :
    (grouped rank ranks l).orderedInsert (byRank rank) a = grouped rank ranks (a :: l) := by
  induction ranks with
  | nil => cases ha
  | cons r ranks ih =>
      obtain ⟨hr, hranks⟩ := List.pairwise_cons.mp hranks
      rw [grouped_cons, grouped_cons]
      by_cases hra : rank a = r
      · have hnot : rank a ∉ ranks := by
          intro hmem
          have := hr _ hmem
          omega
        rw [grouped_cons_of_not_mem hnot, List.filter_cons_of_pos (by simpa using hra),
          List.cons_append]
        refine orderedInsert_le fun b hb => ?_
        rcases List.mem_append.mp hb with hb | hb
        · simp only [List.mem_filter, decide_eq_true_eq] at hb
          omega
        · have := hr _ (mem_grouped.mp hb).2
          omega
      · have hmem : rank a ∈ ranks := (List.mem_cons.mp ha).resolve_left hra
        have hlt := hr _ hmem
        rw [List.filter_cons_of_neg (by simpa using hra), ← ih hranks hmem]
        refine orderedInsert_append (fun b hb => ?_) _
        simp only [List.mem_filter, decide_eq_true_eq] at hb
        omega

theorem insertionSort_ranked (hranks : ranks.Pairwise (· < ·))
    (hl : ∀ a ∈ l, rank a ∈ ranks) :
    l.insertionSort (byRank rank) = grouped rank ranks l := by
  induction l with
  | nil => exact grouped_empty.symm
  | cons a l ih =>
      rw [List.insertionSort_cons, ih fun b hb => hl b (List.mem_cons_of_mem a hb)]
      exact orderedInsert_grouped hranks (hl a List.mem_cons_self)

end

end Zos4.Order
