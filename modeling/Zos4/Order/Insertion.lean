import Mathlib.Data.List.Sort

/-!
# Insertion sort by a comparison that is no order

The sort takes one element after the other and moves it in front of its predecessors as
long as it is less than the one next to it. A strict weak order is sorted by
(`insertionSortBy_sorted`).

Where the comparison is by a key that some elements have not, and is false of those, it is
none: an element without a key is never moved, and nothing is moved past it. The list is
sorted piece by piece between them (`insertionSortBy_wall`), so what comes out is
decreasing exactly when nothing larger stands behind such an element than in front of it
(`decreasing_insertionSortBy`).
-/

namespace Zos4.Order

variable {α κ : Type}

/-! ## The sort -/

section

/-- The predecessors come last to first. -/
def insertBack (less : α → α → Bool) (x : α) : List α → List α
  | [] => [x]
  | y :: ys => if less x y then y :: insertBack less x ys else x :: y :: ys

def insertionSortBy (less : α → α → Bool) (l : List α) : List α :=
  (l.foldl (fun sorted x => insertBack less x sorted) []).reverse

/-- Of any two in the list, and of three if two of them are apart. -/
structure StrictWeakOn (less : α → α → Bool) (l : List α) : Prop where
  asymm : ∀ a ∈ l, ∀ b ∈ l, less a b = true → less b a = false
  apart : ∀ a ∈ l, ∀ b ∈ l, ∀ c ∈ l, less a c = true → less a b = true ∨ less b c = true

variable {less : α → α → Bool} {x : α} {l : List α}

theorem insertBack_perm (less : α → α → Bool) (x : α) (l : List α) :
    (insertBack less x l).Perm (x :: l) := by
  induction l with
  | nil => rfl
  | cons y ys ih =>
      rw [insertBack]
      split
      · exact (ih.cons y).trans (List.Perm.swap x y ys)
      · rfl

theorem foldl_insertBack_perm (less : α → α → Bool) (l front : List α) :
    (l.foldl (fun sorted x => insertBack less x sorted) front).Perm (l ++ front) := by
  induction l generalizing front with
  | nil => rfl
  | cons x l ih =>
      have hx : (l ++ insertBack less x front).Perm (l ++ x :: front) :=
        (insertBack_perm less x front).append_left l
      exact (ih _).trans (hx.trans List.perm_middle)

theorem insertionSortBy_perm (less : α → α → Bool) (l : List α) :
    (insertionSortBy less l).Perm l := by
  have hfold := foldl_insertBack_perm less l []
  rw [List.append_nil] at hfold
  exact (List.reverse_perm _).trans hfold

theorem StrictWeakOn.perm {l' : List α} (h : StrictWeakOn less l) (hperm : l.Perm l') :
    StrictWeakOn less l' where
  asymm a ha b hb := h.asymm a (hperm.mem_iff.mpr ha) b (hperm.mem_iff.mpr hb)
  apart a ha b hb c hc :=
    h.apart a (hperm.mem_iff.mpr ha) b (hperm.mem_iff.mpr hb) c (hperm.mem_iff.mpr hc)

theorem StrictWeakOn.tail (h : StrictWeakOn less (x :: l)) : StrictWeakOn less l where
  asymm a ha b hb := h.asymm a (List.mem_cons_of_mem x ha) b (List.mem_cons_of_mem x hb)
  apart a ha b hb c hc := h.apart a (List.mem_cons_of_mem x ha) b (List.mem_cons_of_mem x hb) c
    (List.mem_cons_of_mem x hc)

/-- Sorted, last to first. -/
def SortedBack (less : α → α → Bool) (l : List α) : Prop :=
  l.Pairwise fun a b => less a b = false

theorem insertBack_sorted (h : StrictWeakOn less (x :: l)) (hl : SortedBack less l) :
    SortedBack less (insertBack less x l) := by
  induction l with
  | nil => exact List.pairwise_singleton _ x
  | cons y ys ih =>
      obtain ⟨hy, hys⟩ := List.pairwise_cons.mp hl
      have hx : x ∈ x :: y :: ys := List.mem_cons_self
      have hmem : y ∈ x :: y :: ys := List.mem_cons_of_mem x List.mem_cons_self
      rw [insertBack]
      split
      · next hless =>
          have hrest : StrictWeakOn less (x :: ys) := (h.perm (List.Perm.swap y x ys)).tail
          refine List.pairwise_cons.mpr ⟨fun z hz => ?_, ih hrest hys⟩
          cases List.mem_cons.mp ((insertBack_perm less x ys).mem_iff.mp hz) with
          | inl heq => exact heq ▸ h.asymm x hx y hmem hless
          | inr hz => exact hy z hz
      · next hless =>
          refine List.pairwise_cons.mpr ⟨fun z hz => ?_, hl⟩
          cases List.mem_cons.mp hz with
          | inl heq => simpa [heq] using hless
          | inr hz' =>
              -- if `x` were less than `z`, `y` would be apart from one of the two
              have happ := h.apart x hx y hmem z (List.mem_cons_of_mem x hz)
              simpa [hless, hy z hz'] using happ

theorem foldl_insertBack_sorted {front : List α} (h : StrictWeakOn less (l ++ front))
    (hfront : SortedBack less front) :
    SortedBack less (l.foldl (fun sorted x => insertBack less x sorted) front) := by
  induction l generalizing front with
  | nil => exact hfront
  | cons x l ih =>
      have hx : StrictWeakOn less (x :: front) := by
        refine ⟨fun a ha b hb => ?_, fun a ha b hb c hc => ?_⟩
        · exact h.asymm a (by simp at ha ⊢; tauto) b (by simp at hb ⊢; tauto)
        · exact h.apart a (by simp at ha ⊢; tauto) b (by simp at hb ⊢; tauto) c
            (by simp at hc ⊢; tauto)
      have hperm : (x :: l ++ front).Perm (l ++ insertBack less x front) :=
        List.perm_middle.symm.trans ((insertBack_perm less x front).symm.append_left l)
      exact ih (h.perm hperm) (insertBack_sorted hx hfront)

/-- A strict weak order is sorted by. -/
theorem insertionSortBy_sorted (h : StrictWeakOn less l) :
    (insertionSortBy less l).Pairwise fun a b => less b a = false := by
  rw [insertionSortBy, List.pairwise_reverse]
  refine foldl_insertBack_sorted ?_ List.Pairwise.nil
  rwa [List.append_nil]

/-! ## Walls -/

/-- Nothing is moved past an element that nothing is less than. -/
theorem insertBack_wall {w : α} (hw : less x w = false) (behind front : List α) :
    insertBack less x (behind ++ w :: front) = insertBack less x behind ++ w :: front := by
  induction behind with
  | nil =>
      show (if less x w = true then _ else _) = _
      rw [hw]
      rfl
  | cons y ys ih =>
      rw [List.cons_append, insertBack, insertBack]
      split
      · rw [ih]
        rfl
      · rfl

theorem foldl_insertBack_wall {w : α} (hw : ∀ x ∈ l, less x w = false)
    (behind front : List α) :
    l.foldl (fun sorted x => insertBack less x sorted) (behind ++ w :: front) =
      l.foldl (fun sorted x => insertBack less x sorted) behind ++ w :: front := by
  induction l generalizing behind with
  | nil => rfl
  | cons x l ih =>
      have hx : less x w = false := hw x List.mem_cons_self
      rw [List.foldl_cons, List.foldl_cons, insertBack_wall hx]
      exact ih (fun y hy => hw y (List.mem_cons_of_mem x hy)) _

/-- An element that is never less, and that nothing is less than, stays where it is. -/
theorem insertionSortBy_wall {w : α} {front behind : List α}
    (hfront : ∀ x ∈ front, less w x = false) (hbehind : ∀ x ∈ behind, less x w = false) :
    insertionSortBy less (front ++ w :: behind) =
      insertionSortBy less front ++ w :: insertionSortBy less behind := by
  have hstays : ∀ sorted : List α, (∀ x ∈ sorted, less w x = false) →
      insertBack less w sorted = w :: sorted := by
    intro sorted hsorted
    cases sorted with
    | nil => rfl
    | cons y ys => rw [insertBack, hsorted y List.mem_cons_self]; rfl
  have hw := hstays (front.foldl (fun sorted x => insertBack less x sorted) []) (by
    intro x hx
    have hmem := (foldl_insertBack_perm less front []).mem_iff.mp hx
    exact hfront x (by simpa using hmem))
  rw [insertionSortBy, List.foldl_append, List.foldl_cons, hw]
  have hrest := foldl_insertBack_wall hbehind []
    (front.foldl (fun sorted x => insertBack less x sorted) [])
  rw [List.nil_append] at hrest
  rw [hrest, List.reverse_append, List.reverse_cons, List.append_assoc]
  rfl

end

/-! ## Keys -/

section

variable [LinearOrder κ] {key : α → Option κ} {l : List α}

/-- The larger key comes first. Without a key nothing is less or larger. -/
def lessBy (key : α → Option κ) (a b : α) : Bool :=
  match key a, key b with
  | some ka, some kb => decide (kb < ka)
  | _, _ => false

/-- The elements that have keys, by their keys. -/
def Decreasing (key : α → Option κ) (l : List α) : Prop :=
  l.Pairwise fun a b => ∀ ka kb, key a = some ka → key b = some kb → kb ≤ ka

/-- Nothing behind an element without a key is larger than what is in front of it. -/
def NoneLargerBehind (key : α → Option κ) (l : List α) : Prop :=
  ∀ front w behind, l = front ++ w :: behind → key w = none →
    ∀ a ∈ front, ∀ b ∈ behind, ∀ ka kb, key a = some ka → key b = some kb → kb ≤ ka

/-- Every element has a key, or no two keys differ. -/
def Comparable (key : α → Option κ) (l : List α) : Prop :=
  ∀ w ∈ l, key w = none → ∀ a ∈ l, ∀ b ∈ l, ∀ ka kb, key a = some ka → key b = some kb →
    ka = kb

theorem lessBy_eq_true {a b : α} : lessBy key a b = true ↔
    ∃ ka kb, key a = some ka ∧ key b = some kb ∧ kb < ka := by
  unfold lessBy
  cases ha : key a <;> cases hb : key b <;> simp

theorem lessBy_none_left {a : α} (h : key a = none) (b : α) : lessBy key a b = false := by
  simp [lessBy, h]

theorem lessBy_none_right {b : α} (h : key b = none) (a : α) : lessBy key a b = false := by
  unfold lessBy
  rw [h]
  cases key a <;> rfl

theorem lessBy_eq_false {a b : α} : lessBy key b a = false ↔
    ∀ ka kb, key a = some ka → key b = some kb → kb ≤ ka := by
  rw [← Bool.not_eq_true, lessBy_eq_true]
  constructor
  · intro h ka kb ha hb
    exact not_lt.mp fun hlt => h ⟨kb, ka, hb, ha, hlt⟩
  · intro h hless
    obtain ⟨kb, ka, hb, ha, hlt⟩ := hless
    exact absurd hlt (not_lt.mpr (h ka kb ha hb))

theorem decreasing_iff : Decreasing key l ↔ l.Pairwise fun a b => lessBy key b a = false := by
  simp only [Decreasing, lessBy_eq_false]

/-- The comparison is a strict weak order exactly on the lists that are comparable. -/
theorem strictWeakOn_lessBy : StrictWeakOn (lessBy key) l ↔ Comparable key l := by
  constructor
  · intro h w hw hnone a ha b hb ka kb hka hkb
    -- the element without a key is apart from neither
    have happ : ∀ a ∈ l, ∀ b ∈ l, ∀ ka kb, key a = some ka → key b = some kb → ka ≤ kb := by
      intro a ha b hb ka kb hka hkb
      refine not_lt.mp fun hlt => ?_
      have hless : lessBy key a b = true := lessBy_eq_true.mpr ⟨ka, kb, hka, hkb, hlt⟩
      have := h.apart a ha w hw b hb hless
      simp [lessBy_none_left hnone, lessBy_none_right hnone] at this
    exact le_antisymm (happ a ha b hb ka kb hka hkb) (happ b hb a ha kb ka hkb hka)
  · intro h
    refine ⟨fun a _ b _ hless => ?_, fun a ha b hb c hc hless => ?_⟩
    · obtain ⟨ka, kb, hka, hkb, hlt⟩ := lessBy_eq_true.mp hless
      refine lessBy_eq_false.mpr fun ka' kb' hka' hkb' => ?_
      rw [hka] at hka'
      rw [hkb] at hkb'
      exact Option.some.inj hka' ▸ Option.some.inj hkb' ▸ hlt.le
    · obtain ⟨ka, kc, hka, hkc, hlt⟩ := lessBy_eq_true.mp hless
      cases hkb : key b with
      | none => exact absurd (h b hb hkb a ha c hc ka kc hka hkc) (ne_of_gt hlt)
      | some kb =>
          cases lt_or_ge kb ka with
          | inl hba => exact .inl (lessBy_eq_true.mpr ⟨ka, kb, hka, hkb, hba⟩)
          | inr hab => exact .inr (lessBy_eq_true.mpr ⟨kb, kc, hkb, hkc, hlt.trans_le hab⟩)

theorem insertionSortBy_wall_lessBy {w : α} (hw : key w = none) (front behind : List α) :
    insertionSortBy (lessBy key) (front ++ w :: behind) =
      insertionSortBy (lessBy key) front ++ w :: insertionSortBy (lessBy key) behind :=
  insertionSortBy_wall (fun x _ => lessBy_none_left hw x) fun x _ => lessBy_none_right hw x

theorem NoneLargerBehind.pieces {front behind : List α} {w : α}
    (h : NoneLargerBehind key (front ++ w :: behind)) :
    NoneLargerBehind key front ∧ NoneLargerBehind key behind := by
  constructor
  · intro p v q heq hv a ha b hb
    refine h p v (q ++ w :: behind) ?_ hv a ha b (List.mem_append_left _ hb)
    rw [heq, List.append_assoc]
    rfl
  · intro p v q heq hv a ha b hb
    refine h (front ++ w :: p) v q ?_ hv a ?_ b hb
    · rw [heq, List.append_assoc]
      rfl
    · exact List.mem_append_right front (List.mem_cons_of_mem w ha)

/-- Insertion sort by keys, some of which are missing. -/
theorem decreasing_insertionSortBy (l : List α) :
    Decreasing key (insertionSortBy (lessBy key) l) ↔ NoneLargerBehind key l := by
  constructor
  · intro h front w behind heq hw a ha b hb
    rw [heq, insertionSortBy_wall_lessBy hw, Decreasing, List.pairwise_append] at h
    exact h.2.2 a ((insertionSortBy_perm _ front).mem_iff.mpr ha) b
      (List.mem_cons_of_mem w ((insertionSortBy_perm _ behind).mem_iff.mpr hb))
  · -- a piece without a wall is sorted, and a wall makes two shorter pieces
    induction hlen : l.length using Nat.strongRecOn generalizing l with
    | _ n ih =>
        intro h
        by_cases hwall : ∃ w ∈ l, key w = none
        · obtain ⟨w, hmem, hw⟩ := hwall
          obtain ⟨front, behind, rfl⟩ := List.append_of_mem hmem
          have hshort : front.length < n ∧ behind.length < n := by
            rw [← hlen, List.length_append, List.length_cons]
            omega
          have hfront := ih _ hshort.1 front rfl h.pieces.1
          have hbehind := ih _ hshort.2 behind rfl h.pieces.2
          rw [insertionSortBy_wall_lessBy hw, Decreasing, List.pairwise_append,
            List.pairwise_cons]
          refine ⟨hfront, ⟨fun b _ ka kb hka => ?_, hbehind⟩, fun a ha b hb ka kb hka hkb => ?_⟩
          · cases hw.symm.trans hka
          · cases List.mem_cons.mp hb with
            | inl heq => cases (heq ▸ hw).symm.trans hkb
            | inr hb' =>
                exact h front w behind rfl hw a
                  ((insertionSortBy_perm _ front).mem_iff.mp ha) b
                  ((insertionSortBy_perm _ behind).mem_iff.mp hb') ka kb hka hkb
        · have hkeys : Comparable key l := fun w hmem hw => absurd ⟨w, hmem, hw⟩ hwall
          exact decreasing_iff.mpr (insertionSortBy_sorted (strictWeakOn_lessBy.mpr hkeys))

end

end Zos4.Order
