import Mathlib.Tactic.Tauto
import Zos4.Order.Insertion
import Zos4.Proofs.MountOrder

/-!
# Disks whose size is not known

`sortMountWorkloads` compares disks by size, and says of one whose data cannot be decoded
that it is not larger, nor the other. That is no strict weak order, which `sort.Slice` asks
for. All that is left is what `sort.Slice` does anyway: it reorders, and it sorts short
lists by insertion. A disk without a size keeps its place in these, and no other disk gets
past it. So disks are by size exactly when none of them is larger than one before such a
disk, and in longer lists when the sizes do not differ at all
(`sortMountWorkloads_decreasing_iff`).
-/

namespace Zos4.Provision

open Zos4.Order

/-! ## What `sort.Slice` does -/

section

theorem sortsSlices_iff [GoRuntime] : SortsSlices ↔
    ∀ (α : Type) (less : α → α → Bool) (l : List α), StrictWeakOn less l →
      (GoRuntime.sortSlice less l).Pairwise fun a b => less b a = false :=
  ⟨fun h α less l hless => h α less l hless.asymm hless.apart,
    fun h α less l hasymm happart => h α less l ⟨hasymm, happart⟩⟩

/-- Lists up to this length are sorted by insertion. -/
def InsertsUpTo [GoRuntime] (short : Nat) : Prop :=
  ∀ (α : Type) (less : α → α → Bool) (l : List α), l.length ≤ short →
    GoRuntime.sortSlice less l = insertionSortBy less l

variable {α : Type} {short : Nat}

open Classical in
/-- It sorts what it has to, and of what it need not, it leaves nothing sorted that two
elements can be told apart in. -/
noncomputable def contrarySort (short : Nat) (less : α → α → Bool) (l : List α) : List α :=
  if l.length ≤ short ∨ StrictWeakOn less l then insertionSortBy less l
  else if l.Pairwise fun a b => less b a = false then l.reverse
  else l

theorem contrarySort_perm (less : α → α → Bool) (l : List α) :
    (contrarySort short less l).Perm l := by
  rw [contrarySort]
  split
  · exact insertionSortBy_perm less l
  · split
    · exact List.reverse_perm l
    · rfl

/-- A long list with an element that has no key, and two that differ in theirs. -/
theorem contrarySort_unsorted {key : α → Option Nat} {l : List α} (hlen : ¬ l.length ≤ short)
    (h : ¬ Comparable key l) : ¬ Decreasing key (contrarySort short (lessBy key) l) := by
  have hnot : ¬ (l.length ≤ short ∨ StrictWeakOn (lessBy key) l) := by
    rw [strictWeakOn_lessBy]
    exact not_or.mpr ⟨hlen, h⟩
  rw [contrarySort, if_neg hnot, decreasing_iff]
  split
  · next hsorted =>
      intro hreversed
      rw [List.pairwise_reverse] at hreversed
      have hself : ∀ x ∈ l, lessBy key x x = false := fun x _ => lessBy_eq_false.mpr
        fun kx kx' hkx hkx' => (Option.some.inj (hkx.symm.trans hkx')).ge
      refine h fun w _ _ a ha b hb ka kb hka hkb => ?_
      -- neither of two is larger, in whichever order they stand
      have hsame := hreversed.forall_of_forall_of_flip hself hsorted
      have hab := lessBy_eq_false.mp (hsame hb ha) ka kb hka hkb
      have hba := lessBy_eq_false.mp (hsame ha hb) kb ka hkb hka
      exact Nat.le_antisymm hba hab
  · next hunsorted => exact hunsorted

/-- A runtime that does no more than it has to. -/
@[reducible] noncomputable def contrary (short : Nat) : GoRuntime where
  sortSlice := contrarySort short
  sortSlice_perm := contrarySort_perm
  rangeMap l := l
  rangeMap_perm l := List.Perm.refl l

theorem contrary_sorts : @SortsSlices (contrary short) := by
  intro α less l hasymm happart
  show (contrarySort short less l).Pairwise _
  rw [contrarySort, if_pos (Or.inr ⟨hasymm, happart⟩)]
  exact insertionSortBy_sorted ⟨hasymm, happart⟩

theorem contrary_inserts : @InsertsUpTo (contrary short) short := by
  intro α less l hlen
  show contrarySort short less l = _
  rw [contrarySort, if_pos (Or.inl hlen)]

end

/-! ## Sizes -/

section

variable [Zosbase]

/-- The size of a disk, if its data can be decoded. -/
def mountSize (wl : WorkloadWithID) : Option Nat :=
  (getMountSize wl.workload).toOption.map UInt64.toNat

theorem mountSize_eq_some {wl : WorkloadWithID} {n : Nat} :
    mountSize wl = some n ↔ ∃ size, getMountSize wl.workload = .ok size ∧ size.toNat = n := by
  unfold mountSize
  cases h : getMountSize wl.workload <;> simp [Except.toOption]

/-- The comparison is by the sizes there are. -/
theorem sortMountWorkloads_eq [GoRuntime] (wls : List WorkloadWithID) :
    sortMountWorkloads wls = GoRuntime.sortSlice (lessBy mountSize) wls := by
  rw [sortMountWorkloads]
  congr 1
  funext a b
  unfold lessBy mountSize
  cases ha : getMountSize a.workload with
  | error err => simp [Except.toOption]
  | ok sizeI =>
      cases hb : getMountSize b.workload with
      | error err => simp [Except.toOption]
      | ok sizeJ => simp [Except.toOption, UInt64.lt_iff_toNat_lt]

/-- Disks whose sizes are known are by size. -/
def BySize (wls : List WorkloadWithID) : Prop :=
  wls.Pairwise fun wl wl' => ∀ size size', getMountSize wl.workload = .ok size →
    getMountSize wl'.workload = .ok size' → size' ≤ size

theorem bySize_iff {wls : List WorkloadWithID} : BySize wls ↔ Decreasing mountSize wls := by
  unfold BySize Decreasing
  constructor
  · intro h
    refine h.imp fun {wl wl'} hle n n' hn hn' => ?_
    obtain ⟨size, hsize, rfl⟩ := mountSize_eq_some.mp hn
    obtain ⟨size', hsize', rfl⟩ := mountSize_eq_some.mp hn'
    exact UInt64.le_iff_toNat_le.mp (hle size size' hsize hsize')
  · intro h
    refine h.imp fun {wl wl'} hle size size' hsize hsize' => ?_
    have hn := mountSize_eq_some.mpr ⟨size, hsize, rfl⟩
    have hn' := mountSize_eq_some.mpr ⟨size', hsize', rfl⟩
    exact UInt64.le_iff_toNat_le.mpr (hle _ _ hn hn')

/-- A short list. -/
theorem bySize_short [GoRuntime] {short : Nat} (hinserts : InsertsUpTo short)
    {wls : List WorkloadWithID} (hlen : wls.length ≤ short) :
    BySize (sortMountWorkloads wls) ↔ NoneLargerBehind mountSize wls := by
  rw [bySize_iff, sortMountWorkloads_eq, hinserts _ _ _ hlen]
  exact decreasing_insertionSortBy wls

/-- A list of any length, where the comparison is what `sort.Slice` asks for. -/
theorem bySize_comparable [GoRuntime] (hsort : SortsSlices) {wls : List WorkloadWithID}
    (h : Comparable mountSize wls) : BySize (sortMountWorkloads wls) := by
  rw [bySize_iff, sortMountWorkloads_eq, decreasing_iff]
  exact sortsSlices_iff.mp hsort _ _ _ (strictWeakOn_lessBy.mpr h)

/-- No disk is larger than one that comes before it with a disk between them whose size is
not known. In a long list with such a disk, all sizes that are known are the same. -/
def SortedAnyway (short : Nat) (wls : List WorkloadWithID) : Prop :=
  if wls.length ≤ short then NoneLargerBehind mountSize wls else Comparable mountSize wls

/-- The mounts come out reordered and by size, whatever else a sort does, exactly if the
disks without a size are no obstacle. -/
theorem sortMountWorkloads_decreasing_iff (short : Nat) (wls : List WorkloadWithID) :
    (∀ [GoRuntime], SortsSlices → InsertsUpTo short →
      (sortMountWorkloads wls).Perm wls ∧ BySize (sortMountWorkloads wls)) ↔
    SortedAnyway short wls := by
  rw [SortedAnyway]
  constructor
  · intro h
    let _ : GoRuntime := contrary short
    have hsorted := (h contrary_sorts contrary_inserts).2
    split
    · next hlen => exact (bySize_short contrary_inserts hlen).mp hsorted
    · next hlen =>
        by_contra hcomparable
        rw [bySize_iff, sortMountWorkloads_eq] at hsorted
        exact contrarySort_unsorted hlen hcomparable hsorted
  · intro h _ hsort hinserts
    refine ⟨GoRuntime.sortSlice_perm _ wls, ?_⟩
    split at h
    · next hlen => exact (bySize_short hinserts hlen).mpr h
    · next hlen => exact bySize_comparable hsort h

end

/-! ## A disk between a small one and a large one -/

namespace Reference.Sizes

/-- The data of a disk is its size, or nothing that can be decoded. -/
scoped instance sizes : Zosbase :=
  { Reference.zosbase with
    workloadData := fun wl =>
      if wl.data = "10" then .ok (.zmount 10)
      else if wl.data = "30" then .ok (.zmount 30)
      else .error (.text "json: cannot unmarshal string") }

/-- Lists of any length are sorted by insertion. -/
scoped instance inserting : GoRuntime where
  sortSlice := insertionSortBy
  sortSlice_perm := insertionSortBy_perm
  rangeMap l := l
  rangeMap_perm l := List.Perm.refl l

def mount (name : Name) (data : RawMessage) : WorkloadWithID :=
  (deployment 0 1 []).withID
    { workload 0 name data with type := .zmount, result := Result.initial 0 }

def mounts : List WorkloadWithID := [mount "a" "10", mount "b" "large", mount "c" "30"]

theorem large_left_behind : ¬ ∀ wls : List WorkloadWithID,
    (∀ wl ∈ wls, isMount wl.workload.type) → SortsSlices → InsertsUpTo 12 →
      (sortMountWorkloads wls).Perm wls ∧ BySize (sortMountWorkloads wls) := by
  intro h
  have hsort : SortsSlices := sortsSlices_iff.mpr fun _ _ _ hless => insertionSortBy_sorted hless
  have hmounts : ∀ wl ∈ mounts, isMount wl.workload.type := by
    unfold isMount
    decide
  have hsorted := (h mounts hmounts hsort fun _ _ _ _ => rfl).2
  have hkept : sortMountWorkloads mounts = mounts := by decide
  rw [hkept] at hsorted
  have hlarge := (List.pairwise_cons.mp hsorted).1 (mount "c" "30") (by decide) 10 30 rfl rfl
  exact absurd hlarge (by decide)

end Reference.Sizes

end Zos4.Provision
