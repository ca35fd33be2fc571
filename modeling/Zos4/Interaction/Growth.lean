import Zos4.Interaction.Prog

/-!
# Programs over knowledge that only grows

Where several parties act on one environment, a program does not know the state it calls
on, but what was once found out may stay so: a message was sent, a certificate was seen.
`Growth` is such knowledge, ordered by how much there is of it. A call is founded on what
is known, an answer adds to it, and between two calls others may have added more.

`Knows` is the program logic: every call is founded when it is made, whatever has become
known by then. It survives anything the others do (`Knows.grow`), which is what makes it
an invariant of a program in the middle of an interleaving.
-/

namespace Zos4.Interaction

structure Growth (F : Sig) (K : Type) where
  le : K → K → Prop
  refl : ∀ k, le k k
  trans : ∀ {k k' k''}, le k k' → le k' k'' → le k k''
  /-- What is known allows the call. -/
  founds : K → F.Op → Prop
  founds_grow : ∀ {k k' op}, le k k' → founds k op → founds k' op
  /-- What is known once the call was answered so. -/
  shows : K → (op : F.Op) → F.Ret op → Prop

namespace Prog

variable {F : Sig} {K α β : Type} {G : Growth F K} {Q : α → K → Prop} {now : K}

/-- Every call is founded on what is known by then, and `Q` is known in the end. -/
def Knows (G : Growth F K) (Q : α → K → Prop) : Prog F α → K → Prop
  | .ret a, now => Q a now
  | .call op f, now => G.founds now op ∧
      ∀ r later, G.le now later → G.shows later op r → (f r).Knows G Q later

@[simp] theorem knows_ret {a : α} :
    (Prog.ret a : Prog F α).Knows G Q now ↔ Q a now := Iff.rfl

@[simp] theorem knows_pure {a : α} :
    (pure a : Prog F α).Knows G Q now ↔ Q a now := Iff.rfl

theorem knows_perform_bind {op : F.Op} {f : F.Ret op → Prog F α}
    (hop : G.founds now op)
    (hf : ∀ r later, G.le now later → G.shows later op r → (f r).Knows G Q later) :
    (perform op >>= f).Knows G Q now := ⟨hop, hf⟩

theorem knows_perform {op : F.Op} {Q : F.Ret op → K → Prop} (hop : G.founds now op)
    (hQ : ∀ r later, G.le now later → G.shows later op r → Q r later) :
    (perform op : Prog F (F.Ret op)).Knows G Q now := ⟨hop, hQ⟩

/-- What the others find out in between does no harm. -/
theorem Knows.grow {later : K} {p : Prog F α} (hp : p.Knows G Q now) (hle : G.le now later)
    (hQ : ∀ a {k k'}, G.le k k' → Q a k → Q a k') : p.Knows G Q later := by
  cases p with
  | ret a => exact hQ a hle hp
  | call op f =>
      exact ⟨G.founds_grow hle hp.1,
        fun r latest hle' hr => hp.2 r latest (G.trans hle hle') hr⟩

theorem Knows.bind {Q' : β → K → Prop} {p : Prog F α} {f : α → Prog F β}
    (hp : p.Knows G Q now)
    (hf : ∀ a later, G.le now later → Q a later → (f a).Knows G Q' later) :
    (p >>= f).Knows G Q' now := by
  induction p generalizing now with
  | ret a => exact hf a now (G.refl now) hp
  | call op g ih =>
      refine ⟨hp.1, fun r later hle hr => ih r (hp.2 r later hle hr) ?_⟩
      exact fun a latest hle' ha => hf a latest (G.trans hle hle') ha

theorem knows_forM {l : List α} {body : α → Prog F PUnit}
    (hbody : ∀ x ∈ l, ∀ later, G.le now later → (body x).Knows G (fun _ _ => True) later) :
    (l.forM body).Knows G (fun _ _ => True) now := by
  induction l generalizing now with
  | nil => trivial
  | cons x xs ih =>
      refine (hbody x List.mem_cons_self now (G.refl now)).bind fun _ later hle _ => ?_
      refine ih fun y hy latest hle' => ?_
      exact hbody y (List.mem_cons_of_mem x hy) latest (G.trans hle hle')

theorem knows_foldlM {l : List α} {body : β → α → Prog F β} {b : β}
    (hbody : ∀ b, ∀ x ∈ l, ∀ later, G.le now later →
      (body b x).Knows G (fun _ _ => True) later) :
    (l.foldlM body b).Knows G (fun _ _ => True) now := by
  induction l generalizing b now with
  | nil => trivial
  | cons x xs ih =>
      refine (hbody b x List.mem_cons_self now (G.refl now)).bind fun b' later hle _ => ?_
      refine ih fun b'' y hy latest hle' => ?_
      exact hbody b'' y (List.mem_cons_of_mem x hy) latest (G.trans hle hle')

/-- A program whose calls are all founded to begin with. -/
theorem Within.knows {R : (op : F.Op) → F.Ret op → Prop} {A : F.Op → Prop}
    {p : Prog F α} (hp : p.Within R A) (hR : ∀ {k op r}, G.shows k op r → R op r)
    (hA : ∀ op, A op → G.founds now op) : p.Knows G (fun _ _ => True) now := by
  induction p generalizing now with
  | ret a => trivial
  | call op f ih =>
      refine ⟨hA op hp.1, fun r later hle hr => ?_⟩
      exact ih r (hp.2 r (hR hr)) fun op' hop' => G.founds_grow hle (hA op' hop')

end Prog

end Zos4.Interaction
