/-!
# Runs of a step function

A system that takes one action after another is a partial function, the state
an action leads to where it is possible at all. `Steps step ok s s'` says that
`s'` is reached from `s` by possible actions, each of them one `ok` permits in
the state it is taken in, so a condition on runs is a condition on single
actions. The induction is made once, in `Steps.invariant`.

`follow` carries out a list of actions, and is how a concrete run is shown to
be one.
-/

namespace Zos4.Interaction

variable {S A : Type} {step : S → A → Option S} {ok : S → A → Prop} {s s' s'' : S}

inductive Steps (step : S → A → Option S) (ok : S → A → Prop) : S → S → Prop
  | refl (s : S) : Steps step ok s s
  | tail {s s' s'' : S} {a : A} :
      Steps step ok s s' → ok s' a → step s' a = some s'' → Steps step ok s s''

/-- What every permitted action keeps holds wherever a run leads. -/
theorem Steps.invariant {I : S → Prop}
    (hstep : ∀ s a s', I s → ok s a → step s a = some s' → I s')
    (hrun : Steps step ok s s') (h : I s) : I s' := by
  induction hrun with
  | refl => exact h
  | tail _ hok hs ih => exact hstep _ _ _ ih hok hs

theorem Steps.trans (h : Steps step ok s s') (h' : Steps step ok s' s'') :
    Steps step ok s s'' := by
  induction h' with
  | refl => exact h
  | tail _ hok hs ih => exact .tail ih hok hs

/-- Carry the actions out in order, as long as they are permitted. -/
def follow (step : S → A → Option S) (permitted : S → A → Bool) :
    List A → S → Option S
  | [], s => some s
  | a :: as, s =>
      if permitted s a then
        match step s a with
        | none => none
        | some s' => follow step permitted as s'
      else none

theorem Steps.of_follow {permitted : S → A → Bool}
    (hok : ∀ s a, permitted s a = true → ok s a) :
    ∀ (as : List A) {s s' : S},
      follow step permitted as s = some s' → Steps step ok s s' := by
  intro as
  induction as with
  | nil =>
      intro s s' h
      obtain rfl := Option.some.inj h
      exact .refl s
  | cons a as ih =>
      intro s s' h
      simp only [follow] at h
      split at h
      · next hp =>
          split at h
          · cases h
          · next t ht => exact Steps.trans (.tail (.refl s) (hok s a hp) ht) (ih h)
      · cases h

end Zos4.Interaction
