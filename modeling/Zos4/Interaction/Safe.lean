import Zos4.Interaction.Prog

/-!
# Programs under interference

Between two calls of a program the rest of the system may move the shared
state. A `Discipline` says how far: any step `rely` permits, as long as the
invariant `inv` survives it. `assume` is what is known of the environment at
the moment it answers a call, and `allow` is the obligation in return: the
calls the program may make, and the states it may make them in.

`Safe D Q p s` reads that through the tree. Started in `s`, whatever the
interference, `p` only makes allowed calls and returns only where `Q` holds.
Interference before the next call is built into the definition, so `Safe` is
closed under `rely` and every rule below threads it without a side condition
on the postcondition.

Nothing here asks an allowed call to keep the invariant. That is a fact about
one call, proved once for the discipline and used by whoever runs the threads
(`Discipline.Preserves`).
-/

namespace Zos4.Interaction

structure Discipline (F : Sig) (S : Type) where
  handle : Handler F S
  inv : S → Prop
  rely : S → S → Prop
  assume : F.Op → S → Prop
  allow : F.Op → S → Prop
  refl : ∀ s, rely s s
  trans : ∀ {a b c}, rely a b → rely b c → rely a c

namespace Prog

variable {F : Sig} {S α β : Type} {D : Discipline F S}

def Safe (D : Discipline F S) (Q : α → S → Prop) : Prog F α → S → Prop
  | .ret a, s => ∀ s', D.rely s s' → D.inv s' → Q a s'
  | .call op k, s => ∀ s', D.rely s s' → D.inv s' → D.assume op s' →
      D.allow op s' ∧
        (k (D.handle op s').1).Safe D Q (D.handle op s').2

variable {Q : α → S → Prop} {s s' : S}

theorem safe_perform_bind {op : F.Op} {f : F.Ret op → Prog F α} :
    (perform op >>= f).Safe D Q s ↔
      ∀ s', D.rely s s' → D.inv s' → D.assume op s' →
        D.allow op s' ∧
          (f (D.handle op s').1).Safe D Q (D.handle op s').2 := Iff.rfl

/-- A safe program stays safe while the others move. -/
theorem Safe.interfere {p : Prog F α} (h : p.Safe D Q s)
    (hr : D.rely s s') : p.Safe D Q s' := by
  cases p with
  | ret a => exact fun t ht => h t (D.trans hr ht)
  | call op k => exact fun t ht => h t (D.trans hr ht)

/-- To prove a program safe, let the interference before it happen first. -/
theorem Safe.intro {p : Prog F α}
    (h : ∀ s', D.rely s s' → D.inv s' → p.Safe D Q s') : p.Safe D Q s := by
  cases p with
  | ret a => exact fun t ht hi => h t ht hi t (D.refl t) hi
  | call op k => exact fun t ht hi => h t ht hi t (D.refl t) hi

theorem Safe.mono {p : Prog F α} {Q' : α → S → Prop} (h : p.Safe D Q s)
    (hQ : ∀ a t, D.inv t → Q a t → Q' a t) : p.Safe D Q' s := by
  induction p generalizing s with
  | ret a => exact fun t ht hi => hQ a t hi (h t ht hi)
  | call op k ih =>
      intro t ht hi ha
      obtain ⟨hallow, hk⟩ := h t ht hi ha
      exact ⟨hallow, ih _ hk⟩

/-- Sequencing, with the postcondition of the first part at hand in every
state the interference after it can lead to. -/
theorem Safe.bind_stable {p : Prog F α} {f : α → Prog F β} {Q' : β → S → Prop}
    (h : p.Safe D Q s)
    (hf : ∀ a t, (∀ t', D.rely t t' → D.inv t' → Q a t') →
      (f a).Safe D Q' t) :
    (p >>= f).Safe D Q' s := by
  induction p generalizing s with
  | ret a => exact hf a s h
  | call op k ih =>
      intro t ht hi ha
      obtain ⟨hallow, hk⟩ := h t ht hi ha
      exact ⟨hallow, ih _ hk⟩

theorem Safe.bind {p : Prog F α} {f : α → Prog F β} {Q' : β → S → Prop}
    (h : p.Safe D Q s) (hf : ∀ a t, D.inv t → Q a t → (f a).Safe D Q' t) :
    (p >>= f).Safe D Q' s :=
  h.bind_stable fun a _ hQ =>
    Safe.intro fun t ht hi => hf a t hi (hQ t ht hi)

/-- A loop whose body trades the invariant of the items left for the one of
the items left after it. -/
theorem Safe.forM (I : List α → S → Prop) {body : α → Prog F PUnit}
    (hbody : ∀ x xs t, D.inv t → I (x :: xs) t →
      (body x).Safe D (fun _ => I xs) t) :
    ∀ {l : List α} {s : S}, (∀ t, D.rely s t → D.inv t → I l t) →
      (l.forM body).Safe D (fun _ => I []) s := by
  intro l
  induction l with
  | nil => exact fun hl => hl
  | cons x xs ih =>
      intro s hl
      show (body x >>= fun _ => xs.forM body).Safe D _ s
      have hx : (body x).Safe D (fun _ => I xs) s :=
        Safe.intro fun t ht hi => hbody x xs t hi (hl t ht hi)
      exact hx.bind_stable fun _ _ hI => ih hI

/-- The same for a loop that carries an accumulator. -/
theorem Safe.foldlM (I : β → List α → S → Prop) {body : β → α → Prog F β}
    (hbody : ∀ b x xs t, D.inv t → I b (x :: xs) t →
      (body b x).Safe D (fun b' => I b' xs) t) :
    ∀ {l : List α} {b : β} {s : S},
      (∀ t, D.rely s t → D.inv t → I b l t) →
      (l.foldlM body b).Safe D (fun b' => I b' []) s := by
  intro l
  induction l with
  | nil => exact fun hl => hl
  | cons x xs ih =>
      intro b s hl
      rw [List.foldlM_cons]
      have hx : (body b x).Safe D (fun b' => I b' xs) s :=
        Safe.intro fun t ht hi => hbody b x xs t hi (hl t ht hi)
      exact hx.bind_stable fun _ _ hI => ih hI

/-- A program whose every call is allowed and keeps `I` needs no argument of its
own. -/
theorem Within.keeps {R : (op : F.Op) → F.Ret op → Prop} {A : F.Op → Prop}
    {p : Prog F α} (hp : p.Within R A) (hR : ∀ op t, R op (D.handle op t).1)
    {I : S → Prop} (hrely : ∀ t t', I t → D.rely t t' → I t')
    (hA : ∀ op t, A op → D.inv t → I t →
      D.allow op t ∧ I (D.handle op t).2) (hI : I s) :
    p.Safe D (fun _ => I) s := by
  induction p generalizing s with
  | ret a => exact fun t ht _ => hrely s t hI ht
  | call op k ih =>
      intro t ht hi _
      obtain ⟨hallow, hkeep⟩ := hA op t hp.1 hi (hrely s t hI ht)
      exact ⟨hallow, ih _ (hp.2 _ (hR op t)) hkeep⟩

/-- The same without anything to keep. -/
theorem Within.safe {R : (op : F.Op) → F.Ret op → Prop} {A : F.Op → Prop}
    {p : Prog F α} (hp : p.Within R A) (hR : ∀ op t, R op (D.handle op t).1)
    (hA : ∀ op t, A op → D.inv t → D.allow op t) :
    p.Safe D (fun _ _ => True) s :=
  hp.keeps hR (fun _ _ _ _ => trivial)
    (fun op t hop hi _ => ⟨hA op t hop hi, trivial⟩) trivial

end Prog

/-! ## Discharging the obligation -/

/-- One allowed call keeps the invariant. -/
def Discipline.Preserves {F : Sig} {S : Type} (D : Discipline F S) : Prop :=
  ∀ op s, D.inv s → D.assume op s → D.allow op s → D.inv (D.handle op s).2

/-! ## Without interference -/

/-- Nobody else acts, and nothing is forbidden. -/
def Discipline.alone {F : Sig} {S : Type} (h : Handler F S) : Discipline F S where
  handle := h
  inv _ := True
  rely := Eq
  assume _ _ := True
  allow _ _ := True
  refl _ := rfl
  trans := Eq.trans

@[simp] theorem Discipline.alone_handle {F : Sig} {S : Type} (h : Handler F S) :
    (Discipline.alone h).handle = h := rfl

namespace Prog

variable {F : Sig} {S α : Type} {h : Handler F S} {Q : α → S → Prop}

/-- What a program run alone ends in, by the rules for safe programs. -/
theorem safe_alone {p : Prog F α} {s : S} :
    p.Safe (.alone h) Q s ↔ Q (p.run h s).1 (p.run h s).2 := by
  induction p generalizing s with
  | ret a =>
      refine ⟨fun hs => hs s rfl trivial, ?_⟩
      rintro hQ _ rfl _
      exact hQ
  | call op k ih =>
      refine ⟨fun hs => (ih _).mp (hs s rfl trivial trivial).2, ?_⟩
      rintro hQ _ rfl _ _
      exact ⟨trivial, (ih _).mpr hQ⟩

theorem run_of_safe {p : Prog F α} {Q : S → Prop} {s : S}
    (hp : p.Safe (.alone h) (fun _ => Q) s) : Q (p.run h s).2 := safe_alone.mp hp

end Prog

end Zos4.Interaction
