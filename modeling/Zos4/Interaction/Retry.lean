/-!
# Retrying

An operation is attempted again as long as it fails: a number of times (`retryTimes`), or
without an end. The second is followed for some attempts only (`retryFor`), and is `none`
if none of them is the last. An attempt may also stop everything, as one that panics does.

The attempts that are made again lead from one state to another (`Repeated`), and
`retryFor_eq_some` says where the last one is made.
-/

namespace Zos4.Interaction

inductive Attempt (ε α : Type) where
  | done (a : α)
  | again (err : ε)
  | stop (err : ε)
  deriving DecidableEq, Repr

variable {σ ε α : Type}

/-- What is returned, if the attempt is the last. -/
def Attempt.ended : Attempt ε α → Option (Except ε α)
  | .done a => some (.ok a)
  | .again _ => none
  | .stop err => some (.error err)

/-- What is returned, if nothing comes after it. -/
def Attempt.last : Attempt ε α → Except ε α
  | .done a => .ok a
  | .again err => .error err
  | .stop err => .error err

@[simp] theorem Attempt.ended_done (a : α) : (.done a : Attempt ε α).ended = some (.ok a) := rfl

@[simp] theorem Attempt.ended_again (err : ε) : (.again err : Attempt ε α).ended = none := rfl

@[simp] theorem Attempt.ended_stop (err : ε) :
    (.stop err : Attempt ε α).ended = some (.error err) := rfl

theorem Attempt.last_of_ended {x : Attempt ε α} {r : Except ε α} (h : x.ended = some r) :
    x.last = r := by
  cases x with
  | done a => exact Option.some.inj h
  | again err => cases h
  | stop err => exact Option.some.inj h

section

variable (op : Nat → σ → Attempt ε α × σ)

/-- With the retries that are left, from an attempt on. -/
def retryTimes : Nat → Nat → σ → Except ε α × σ
  | 0, i, s => ((op i s).1.last, (op i s).2)
  | retries + 1, i, s =>
      match (op i s).1.ended with
      | some r => (r, (op i s).2)
      | none => retryTimes retries (i + 1) (op i s).2

/-- With the attempts that are followed, from an attempt on. -/
def retryFor : Nat → Nat → σ → Option (Except ε α × σ)
  | 0, _, _ => none
  | fuel + 1, i, s =>
      match (op i s).1.ended with
      | some r => some (r, (op i s).2)
      | none => retryFor fuel (i + 1) (op i s).2

/-- From one attempt to another, all of them made again. -/
inductive Repeated : Nat → σ → Nat → σ → Prop where
  | refl {i : Nat} {s : σ} : Repeated i s i s
  | step {i j : Nat} {s s' : σ} (hagain : (op i s).1.ended = none)
      (hrest : Repeated (i + 1) (op i s).2 j s') : Repeated i s j s'

end

variable {op : Nat → σ → Attempt ε α × σ} {i j : Nat} {s s' : σ} {r : Except ε α}

theorem Repeated.le (h : Repeated op i s j s') : i ≤ j := by
  induction h with
  | refl => exact Nat.le_refl _
  | step _ _ ih => omega

/-- What is kept by an attempt that is made again. -/
theorem Repeated.keeps {I : Nat → σ → Prop} (h : Repeated op i s j s') (hI : I i s)
    (hstep : ∀ i s, I i s → (op i s).1.ended = none → I (i + 1) (op i s).2) : I j s' := by
  induction h with
  | refl => exact hI
  | step hagain _ ih => exact ih (hstep _ _ hI hagain)

/-- Where the last attempt is made. -/
theorem retryFor_eq_some {fuel : Nat} : retryFor op fuel i s = some (r, s') ↔
    ∃ j mid, j < i + fuel ∧ Repeated op i s j mid ∧ (op j mid).1.ended = some r ∧
      (op j mid).2 = s' := by
  induction fuel generalizing i s with
  | zero =>
      constructor
      · intro h
        cases h
      · intro h
        obtain ⟨j, mid, hj, hrepeated, -⟩ := h
        have := hrepeated.le
        omega
  | succ fuel ih =>
      rw [retryFor]
      cases hend : (op i s).1.ended with
      | some r' =>
          constructor
          · intro h
            cases h
            exact ⟨i, s, by omega, .refl, hend, rfl⟩
          · intro h
            obtain ⟨j, mid, -, hrepeated, hr, hs'⟩ := h
            cases hrepeated with
            | refl => rw [← hs', Option.some.inj (hend.symm.trans hr)]
            | step hagain _ => cases hend.symm.trans hagain
      | none =>
          dsimp only
          rw [ih]
          constructor
          · intro h
            obtain ⟨j, mid, hj, hrepeated, hr⟩ := h
            exact ⟨j, mid, by omega, .step hend hrepeated, hr⟩
          · intro h
            obtain ⟨j, mid, hj, hrepeated, hr, hs'⟩ := h
            cases hrepeated with
            | refl => cases hend.symm.trans hr
            | step _ hrest => exact ⟨j, mid, by omega, hrest, hr, hs'⟩

/-- More attempts make no difference. -/
theorem retryFor_mono {fuel fuel' : Nat} (hle : fuel ≤ fuel')
    (h : retryFor op fuel i s = some (r, s')) : retryFor op fuel' i s = some (r, s') := by
  obtain ⟨j, mid, hj, hrest⟩ := retryFor_eq_some.mp h
  exact retryFor_eq_some.mpr ⟨j, mid, by omega, hrest⟩

/-- It ends, if some attempt would be the last whatever has come before it. -/
theorem retryFor_ends (hij : i ≤ j) (h : ∀ s, (op j s).1.ended ≠ none) (s : σ) :
    ∃ fuel r s', retryFor op fuel i s = some (r, s') := by
  induction hn : j - i generalizing i s with
  | zero =>
      obtain rfl : i = j := by omega
      obtain ⟨r, hr⟩ := Option.ne_none_iff_exists'.mp (h s)
      exact ⟨1, r, (op i s).2, by simp [retryFor, hr]⟩
  | succ n ih =>
      cases hend : (op i s).1.ended with
      | some r => exact ⟨1, r, (op i s).2, by simp [retryFor, hend]⟩
      | none =>
          obtain ⟨fuel, r, s', hrest⟩ := ih (i := i + 1) (by omega) (op i s).2 (by omega)
          exact ⟨fuel + 1, r, s', by simp [retryFor, hend, hrest]⟩

/-- It ends with one of the attempts, before the last one only if that is not made again. -/
theorem retryTimes_spec (op : Nat → σ → Attempt ε α × σ) (retries i : Nat) (s : σ) :
    ∃ j mid, j ≤ i + retries ∧ Repeated op i s j mid ∧
      ((op j mid).1.ended = none → j = i + retries) ∧
      retryTimes op retries i s = ((op j mid).1.last, (op j mid).2) := by
  induction retries generalizing i s with
  | zero => exact ⟨i, s, by omega, .refl, fun _ => rfl, rfl⟩
  | succ retries ih =>
      rw [retryTimes]
      cases hend : (op i s).1.ended with
      | some r =>
          refine ⟨i, s, by omega, .refl, fun hnone => ?_, by rw [Attempt.last_of_ended hend]⟩
          cases hend.symm.trans hnone
      | none =>
          obtain ⟨j, mid, hj, hrepeated, hlast, hr⟩ := ih (i + 1) (op i s).2
          exact ⟨j, mid, by omega, .step hend hrepeated,
            fun hnone => by have := hlast hnone; omega, hr⟩

end Zos4.Interaction
