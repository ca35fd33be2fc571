import Mathlib.Logic.Function.Basic
import Zos4.Interaction.Prog

/-!
# Programs that are cut short

A crash can come between any two calls, and what it leaves behind is whatever the
calls made so far have done. `Along h C Q` is a program logic for that. The crash
condition `C` holds at every point of a run, before the first call, after the last
and anywhere in between, and `Q` holds at the end. `C` also sees the call that was
made last and the state it was made in, so that it can single out one point.

The second half is about loops that are run again from the start. A task settles
one slot of the state, and a loop over tasks settles theirs. If tasks of the same
slot absorb each other, then neither the tasks done nor the one in progress matter
to what the whole loop comes to, as long as the one in progress could still settle
its slot as before.
-/

namespace Zos4.Interaction

namespace Prog

variable {F : Sig} {S α β : Type} {h : Handler F S}

/-- The call that was made last, and the state it was made in. -/
abbrev Last (F : Sig) (S : Type) := Option (F.Op × S)

def Along (h : Handler F S) (C : Last F S → S → Prop) (Q : α → S → Prop) :
    Prog F α → Last F S → S → Prop
  | .ret a, last, s => C last s ∧ Q a s
  | .call op k, last, s => C last s ∧ (k (h op s).1).Along h C Q (some (op, s)) (h op s).2

variable {C C' : Last F S → S → Prop} {Q Q' : α → S → Prop} {last : Last F S} {s : S}

theorem along_pure {a : α} :
    (pure a : Prog F α).Along h C Q last s ↔ C last s ∧ Q a s := Iff.rfl

theorem along_perform_bind {op : F.Op} {f : F.Ret op → Prog F α} :
    (perform op >>= f).Along h C Q last s ↔
      C last s ∧ (f (h op s).1).Along h C Q (some (op, s)) (h op s).2 := Iff.rfl

theorem Along.mono {p : Prog F α} (hp : p.Along h C Q last s)
    (hC : ∀ last t, C last t → C' last t) (hQ : ∀ a t, Q a t → Q' a t) :
    p.Along h C' Q' last s := by
  induction p generalizing last s with
  | ret a => exact ⟨hC _ _ hp.1, hQ a s hp.2⟩
  | call op k ih => exact ⟨hC _ _ hp.1, ih _ hp.2⟩

theorem Along.and {p : Prog F α} (hp : p.Along h C Q last s)
    (hp' : p.Along h C' Q' last s) :
    p.Along h (fun last t => C last t ∧ C' last t) (fun a t => Q a t ∧ Q' a t) last s := by
  induction p generalizing last s with
  | ret a => exact ⟨⟨hp.1, hp'.1⟩, hp.2, hp'.2⟩
  | call op k ih => exact ⟨⟨hp.1, hp'.1⟩, ih _ hp.2 hp'.2⟩

/-- The same for a program whose calls are known. -/
theorem Within.along {R : (op : F.Op) → F.Ret op → Prop} {A : F.Op → Prop}
    {p : Prog F α} (hp : p.Within R A) (hR : ∀ op t, R op (h op t).1)
    (hA : ∀ op last t, A op → C last t → C (some (op, t)) (h op t).2) (hC : C last s) :
    p.Along h C (fun a t => p.run h s = (a, t)) last s := by
  induction p generalizing last s with
  | ret a => exact ⟨hC, rfl⟩
  | call op k ih => exact ⟨hC, ih _ (hp.2 _ (hR op s)) (hA op last s hp.1 hC)⟩

/-- More may be known in the first part than all along. -/
theorem Along.bind_mono {p : Prog F α} {f : α → Prog F β} {Q' : β → S → Prop}
    (hp : p.Along h C Q last s) (hC : ∀ last t, C last t → C' last t)
    (hf : ∀ a last t, C last t → Q a t → (f a).Along h C' Q' last t) :
    (p >>= f).Along h C' Q' last s := by
  induction p generalizing last s with
  | ret a => exact hf a last s hp.1 hp.2
  | call op k ih => exact ⟨hC last s hp.1, ih _ hp.2⟩

theorem Along.bind {p : Prog F α} {f : α → Prog F β} {Q' : β → S → Prop}
    (hp : p.Along h C Q last s)
    (hf : ∀ a last t, C last t → Q a t → (f a).Along h C Q' last t) :
    (p >>= f).Along h C Q' last s :=
  hp.bind_mono (fun _ _ hC => hC) hf

/-- A loop over the items left, with an accumulator. -/
theorem along_foldlM (I : β → List α → S → Prop) {body : β → α → Prog F β}
    (hbody : ∀ b x xs last t, C last t → I b (x :: xs) t →
      (body b x).Along h C (fun b' => I b' xs) last t) :
    ∀ {l : List α} {b : β} {last : Last F S} {s : S}, C last s → I b l s →
      (l.foldlM body b).Along h C (fun b' => I b' []) last s := by
  intro l
  induction l with
  | nil => exact fun hC hI => ⟨hC, hI⟩
  | cons x xs ih =>
      intro b last s hC hI
      rw [List.foldlM_cons]
      exact (hbody b x xs last s hC hI).bind fun _ _ _ => ih

theorem along_forM (I : List α → S → Prop) {body : α → Prog F PUnit}
    (hbody : ∀ x xs last t, C last t → I (x :: xs) t →
      (body x).Along h C (fun _ => I xs) last t) :
    ∀ {l : List α} {last : Last F S} {s : S}, C last s → I l s →
      (l.forM body).Along h C (fun _ => I []) last s := by
  intro l
  induction l with
  | nil => exact fun hC hI => ⟨hC, hI⟩
  | cons x xs ih =>
      intro last s hC hI
      show (body x >>= fun _ => xs.forM body).Along h C _ last s
      exact (hbody x xs last s hC hI).bind fun _ _ _ => ih

/-- What a program that is not cut short ends in. -/
theorem Along.run {p : Prog F α} (hp : p.Along h C Q last s) :
    Q (p.run h s).1 (p.run h s).2 := by
  induction p generalizing last s with
  | ret a => exact hp.2
  | call op k ih => exact ih _ hp.2

/-- The last of a number of calls. -/
def lastOf (h : Handler F S) : Nat → Prog F α → Last F S → S → Last F S
  | 0, _, last, _ => last
  | _ + 1, .ret _, last, _ => last
  | n + 1, .call op k, _, s => lastOf h n (k (h op s).1) (some (op, s)) (h op s).2

/-- What is left behind by a number of calls. -/
theorem Along.steps {p : Prog F α} (hp : p.Along h C Q last s) (n : Nat) :
    C (lastOf h n p last s) (steps h n p s).2 := by
  induction n generalizing p last s with
  | zero =>
      rw [steps_zero]
      cases p with
      | ret a => exact hp.1
      | call op k => exact hp.1
  | succ n ih =>
      cases p with
      | ret a => exact hp.1
      | call op k => exact ih hp.2

end Prog

/-! ## Tasks that settle a slot each -/

section

variable {T I X : Type} [DecidableEq I] {id : T → I} {settle : T → X → X}

/-- What the slots come to: the first task of a slot settles it. -/
def settled (id : T → I) (settle : T → X → X) (tasks : List T) (x : I → X) (i : I) : X :=
  match tasks.find? (fun t => id t = i) with
  | none => x i
  | some t => settle t (x i)

/-- A task finds its slot settled after another. -/
def Absorbing (id : T → I) (settle : T → X → X) (tasks : List T) : Prop :=
  ∀ t ∈ tasks, ∀ t' ∈ tasks, id t = id t' → ∀ x, settle t' (settle t x) = settle t x

omit [DecidableEq I] in
/-- If every slot has one task, it is enough that it can be run twice. -/
theorem absorbing_of_inj {tasks : List T}
    (hinj : ∀ t ∈ tasks, ∀ t' ∈ tasks, id t = id t' → t = t')
    (htwice : ∀ t ∈ tasks, ∀ x, settle t (settle t x) = settle t x) :
    Absorbing id settle tasks := by
  intro t ht t' ht' hid x
  obtain rfl := hinj t ht t' ht' hid
  exact htwice t ht x

omit [DecidableEq I] in
theorem Absorbing.subset {tasks tasks' : List T} (h : Absorbing id settle tasks)
    (hsub : tasks' ⊆ tasks) : Absorbing id settle tasks' :=
  fun t ht t' ht' => h t (hsub ht) t' (hsub ht')

@[simp] theorem settled_nil (x : I → X) : settled id settle [] x = x := rfl

/-- One more task. -/
theorem settled_snoc {tasks : List T} {t : T}
    (habsorbs : Absorbing id settle (tasks ++ [t])) (x : I → X) :
    settled id settle (tasks ++ [t]) x =
      Function.update (settled id settle tasks x) (id t)
        (settle t (settled id settle tasks x (id t))) := by
  funext i
  rw [settled, List.find?_append]
  by_cases hi : i = id t
  · subst hi
    rw [Function.update_self, settled]
    cases hfind : tasks.find? (fun t' => id t' = id t) with
    | none => simp
    | some t' =>
        have hid : id t' = id t := by simpa using List.find?_some hfind
        exact (habsorbs t' (List.mem_append_left _ (List.mem_of_find?_eq_some hfind)) t
          (by simp) hid (x (id t))).symm
  · rw [Function.update_of_ne hi, settled]
    have hnone : [t].find? (fun t' => id t' = i) = none := by
      rw [List.find?_singleton, if_neg]
      simpa using fun h => hi h.symm
    rw [hnone, Option.or_none]

/-- The first task of a slot settles it, among the tasks done or among the rest. -/
theorem settled_append {tasks rest : List T} (x : I → X) (i : I) :
    settled id settle (tasks ++ rest) x i =
      match tasks.find? (fun t => id t = i) with
      | none => settled id settle rest x i
      | some t => settle t (x i) := by
  rw [settled, List.find?_append]
  cases tasks.find? fun t => id t = i with
  | none => rfl
  | some t => rfl

/-- Another slot's task does not see what a slot holds. -/
theorem settled_congr {tasks : List T} {x y : I → X} {i : I} (h : x i = y i) :
    settled id settle tasks x i = settled id settle tasks y i := by
  rw [settled, settled, h]

/-- A task whose slot is no other's can be done first. -/
theorem settled_cons {tasks : List T} {t : T} (h : id t ∉ tasks.map id) (x : I → X) :
    settled id settle (t :: tasks) x =
      settled id settle tasks (Function.update x (id t) (settle t (x (id t)))) := by
  funext i
  rw [settled, settled, List.find?_cons]
  by_cases hi : id t = i
  · subst hi
    have hnone : tasks.find? (fun t' => id t' = id t) = none := by
      rw [List.find?_eq_none]
      intro t' ht'
      simpa using fun hid : id t' = id t => h (hid ▸ List.mem_map_of_mem ht')
    rw [hnone]
    simp
  · simp only [hi, decide_false]
    rw [Function.update_of_ne (Ne.symm hi)]

/-- Tasks of different slots can be done in any order. -/
theorem settled_perm {tasks tasks' : List T} (hperm : tasks.Perm tasks')
    (hnodup : (tasks.map id).Nodup) (x : I → X) :
    settled id settle tasks x = settled id settle tasks' x := by
  induction hperm generalizing x with
  | nil => rfl
  | @cons t tasks tasks' hperm ih =>
      obtain ⟨hnot, hnodup⟩ := List.nodup_cons.mp hnodup
      have hnot' : id t ∉ tasks'.map id := fun hmem => hnot ((hperm.map id).mem_iff.mpr hmem)
      rw [settled_cons hnot, settled_cons hnot', ih hnodup]
  | swap t t' tasks =>
      obtain ⟨hboth, hnodup⟩ := List.nodup_cons.mp hnodup
      obtain ⟨hnot, -⟩ := List.nodup_cons.mp hnodup
      obtain ⟨hne, hnot'⟩ := not_or.mp (mt List.mem_cons.mpr hboth)
      have hboth' : id t ∉ (t' :: tasks).map id :=
        mt List.mem_cons.mp (not_or.mpr ⟨Ne.symm hne, hnot⟩)
      rw [settled_cons hboth, settled_cons hnot, settled_cons hboth', settled_cons hnot',
        Function.update_of_ne (Ne.symm hne), Function.update_of_ne hne, Function.update_comm hne]
  | trans hperm _ ih ih' =>
      exact (ih hnodup x).trans (ih' ((hperm.map id).nodup_iff.mp hnodup) x)

/-- The loop is run again after some tasks. -/
theorem settled_settled {tasks rest : List T}
    (habsorbs : Absorbing id settle (tasks ++ rest)) (x : I → X) :
    settled id settle (tasks ++ rest) (settled id settle tasks x) =
      settled id settle (tasks ++ rest) x := by
  funext i
  rw [settled_append, settled_append]
  cases hfind : tasks.find? (fun t => id t = i) with
  | none =>
      refine settled_congr ?_
      rw [settled, hfind]
  | some t =>
      have ht : t ∈ tasks ++ rest :=
        List.mem_append_left _ (List.mem_of_find?_eq_some hfind)
      dsimp only
      rw [settled, hfind]
      exact habsorbs t ht t ht rfl _

theorem settled_twice {tasks : List T} (habsorbs : Absorbing id settle tasks)
    (x : I → X) :
    settled id settle tasks (settled id settle tasks x) = settled id settle tasks x := by
  rw [← List.append_nil tasks] at habsorbs
  have h := settled_settled habsorbs x
  rwa [List.append_nil] at h

/-- The loop is run again after some tasks, and with the next one in progress, its
slot at `y`. What comes of it is the same, up to what the task makes of `y`. -/
theorem settled_again {tasks rest : List T} {t : T}
    (habsorbs : Absorbing id settle (tasks ++ t :: rest)) (x : I → X) {y : X}
    (hfixed : settle t (settled id settle tasks x (id t)) =
        settled id settle tasks x (id t) → y = settled id settle tasks x (id t)) :
    settled id settle (tasks ++ t :: rest)
        (Function.update (settled id settle tasks x) (id t) y) =
      Function.update (settled id settle (tasks ++ t :: rest) x) (id t) (settle t y) ∧
    settled id settle (tasks ++ t :: rest) x (id t) =
      settle t (settled id settle tasks x (id t)) := by
  have ht : t ∈ tasks ++ t :: rest := List.mem_append_right _ List.mem_cons_self
  have hdone : ∀ i t₀, tasks.find? (fun t => id t = i) = some t₀ →
      id t₀ = i ∧ t₀ ∈ tasks ++ t :: rest := by
    intro i t₀ hfind
    exact ⟨by simpa using List.find?_some hfind,
      List.mem_append_left _ (List.mem_of_find?_eq_some hfind)⟩
  constructor
  · funext i
    by_cases hi : i = id t
    · subst hi
      rw [Function.update_self, settled_append, Function.update_self]
      rw [settled] at hfixed
      cases hfind : tasks.find? (fun t' => id t' = id t) with
      | none => simp [settled]
      | some t₀ =>
          -- the slot is settled already, so the task leaves it alone
          obtain ⟨hid, hmem⟩ := hdone _ t₀ hfind
          rw [hfind] at hfixed
          dsimp only at hfixed ⊢
          rw [hfixed (habsorbs t₀ hmem t ht hid _), habsorbs t₀ hmem t₀ hmem rfl,
            habsorbs t₀ hmem t ht hid]
    · rw [Function.update_of_ne hi, settled_append, settled_append,
        Function.update_of_ne hi]
      cases hfind : tasks.find? (fun t' => id t' = i) with
      | none =>
          dsimp only
          rw [settled, settled, Function.update_of_ne hi, settled, hfind]
      | some t₀ =>
          obtain ⟨hid, hmem⟩ := hdone _ t₀ hfind
          dsimp only
          rw [settled, hfind]
          exact habsorbs t₀ hmem t₀ hmem rfl _
  · have hbefore : settled id settle tasks x (id t) =
        match tasks.find? (fun t' => id t' = id t) with
        | none => x (id t)
        | some t₀ => settle t₀ (x (id t)) := rfl
    rw [settled_append, hbefore]
    cases hfind : tasks.find? (fun t' => id t' = id t) with
    | none => simp [settled]
    | some t₀ =>
        obtain ⟨hid, hmem⟩ := hdone _ t₀ hfind
        exact (habsorbs t₀ hmem t ht hid _).symm

end

end Zos4.Interaction
