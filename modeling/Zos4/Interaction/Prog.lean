/-!
# Programs that call on an environment

A component that shares state with others is not a function of that state:
between two of its calls anything may happen to it. What the source text does
fix is the order of the calls, what each one is given and what is done with
the answer, and `Prog` is exactly that, a tree whose nodes are calls and whose
branches are the answers.

One tree serves every way of running it. `run` answers each call from a
handler until the program returns, `steps` stops after a number of calls,
which is what a crash leaves behind, and the interleaved semantics of a larger
system takes one call at a time. `Within` bounds the calls a program can come
to make, given the answers that are possible at all, and `Once` counts them.
-/

namespace Zos4.Interaction

/-- The calls a program may make and the type each one is answered in. -/
structure Sig where
  Op : Type
  Ret : Op → Type

inductive Prog (F : Sig) (α : Type) : Type where
  | ret (a : α) : Prog F α
  | call (op : F.Op) (k : F.Ret op → Prog F α) : Prog F α

/-- An environment that answers every call at once. -/
abbrev Handler (F : Sig) (S : Type) := (op : F.Op) → S → F.Ret op × S

namespace Prog

variable {F : Sig} {S α β : Type}

def bind : Prog F α → (α → Prog F β) → Prog F β
  | .ret a, f => f a
  | .call op k, f => .call op fun r => (k r).bind f

instance : Monad (Prog F) where
  pure := .ret
  bind := Prog.bind

/-- The program that makes one call and returns its answer. -/
def perform (op : F.Op) : Prog F (F.Ret op) := .call op .ret

@[simp] theorem ret_bind (a : α) (f : α → Prog F β) :
    (Prog.ret a : Prog F α) >>= f = f a := rfl

@[simp] theorem call_bind (op : F.Op) (k : F.Ret op → Prog F α)
    (f : α → Prog F β) :
    (Prog.call op k >>= f) = .call op fun r => k r >>= f := rfl

theorem perform_bind (op : F.Op) (f : F.Ret op → Prog F β) :
    perform op >>= f = .call op f := rfl

theorem bind_ret (p : Prog F α) : (p >>= Prog.ret) = p := by
  induction p with
  | ret a => rfl
  | call op k ih => exact congrArg (Prog.call op) (funext ih)

theorem bind_assoc' {γ : Type} (p : Prog F α) (f : α → Prog F β)
    (g : β → Prog F γ) : (p >>= f >>= g) = (p >>= fun a => f a >>= g) := by
  induction p with
  | ret a => rfl
  | call op k ih => exact congrArg (Prog.call op) (funext ih)

instance : LawfulMonad (Prog F) :=
  LawfulMonad.mk' (Prog F) bind_ret (fun _ _ => rfl) bind_assoc'

/-! ## Running a program alone -/

/-- Answer every call from the handler until the program returns. -/
def run (h : Handler F S) : Prog F α → S → α × S
  | .ret a, s => (a, s)
  | .call op k, s =>
      match h op s with
      | (r, s') => (k r).run h s'

@[simp] theorem run_ret (h : Handler F S) (a : α) (s : S) :
    (Prog.ret a : Prog F α).run h s = (a, s) := rfl

@[simp] theorem run_pure (h : Handler F S) (a : α) (s : S) :
    (pure a : Prog F α).run h s = (a, s) := rfl

@[simp] theorem run_call (h : Handler F S) (op : F.Op)
    (k : F.Ret op → Prog F α) (s : S) :
    (Prog.call op k).run h s = (k (h op s).1).run h (h op s).2 := rfl

@[simp] theorem run_perform (h : Handler F S) (op : F.Op) (s : S) :
    (perform op).run h s = h op s := rfl

@[simp] theorem run_bind (h : Handler F S) (p : Prog F α)
    (f : α → Prog F β) (s : S) :
    (p >>= f).run h s = (f (p.run h s).1).run h (p.run h s).2 := by
  induction p generalizing s with
  | ret a => rfl
  | call op k ih => exact ih _ _

/-- A loop, run alone, whose body trades what holds before an item for what
holds after it. -/
theorem run_foldlM {h : Handler F S} (I : β → List α → S → Prop)
    {body : β → α → Prog F β}
    (hbody : ∀ b x xs s, I b (x :: xs) s →
      I ((body b x).run h s).1 xs ((body b x).run h s).2) :
    ∀ {l : List α} {b : β} {s : S}, I b l s →
      I ((l.foldlM body b).run h s).1 [] ((l.foldlM body b).run h s).2 := by
  intro l
  induction l with
  | nil => exact fun hI => hI
  | cons x xs ih =>
      intro b s hI
      rw [List.foldlM_cons, run_bind]
      exact ih (hbody b x xs s hI)

/-- The calls made on the way, in order. -/
def calls (h : Handler F S) : Prog F α → S → List F.Op
  | .ret _, _ => []
  | .call op k, s => op :: (k (h op s).1).calls h (h op s).2

@[simp] theorem calls_ret (h : Handler F S) (a : α) (s : S) :
    (Prog.ret a : Prog F α).calls h s = [] := rfl

@[simp] theorem calls_pure (h : Handler F S) (a : α) (s : S) :
    (pure a : Prog F α).calls h s = [] := rfl

@[simp] theorem calls_perform (h : Handler F S) (op : F.Op) (s : S) :
    (perform op).calls h s = [op] := rfl

@[simp] theorem calls_bind (h : Handler F S) (p : Prog F α) (f : α → Prog F β) (s : S) :
    (p >>= f).calls h s = p.calls h s ++ (f (p.run h s).1).calls h (p.run h s).2 := by
  induction p generalizing s with
  | ret a => rfl
  | call op k ih => exact congrArg (op :: ·) (ih _ _)

/-- Make at most `n` calls: what is left of the program, and the state. -/
def steps (h : Handler F S) : Nat → Prog F α → S → Prog F α × S
  | 0, p, s => (p, s)
  | _ + 1, .ret a, s => (.ret a, s)
  | n + 1, .call op k, s =>
      match h op s with
      | (r, s') => steps h n (k r) s'

@[simp] theorem steps_zero (h : Handler F S) (p : Prog F α) (s : S) :
    steps h 0 p s = (p, s) := by
  cases p <;> rfl

@[simp] theorem steps_ret (h : Handler F S) (n : Nat) (a : α) (s : S) :
    steps h n (.ret a) s = (.ret a, s) := by
  cases n <;> rfl

@[simp] theorem steps_call (h : Handler F S) (n : Nat) (op : F.Op)
    (k : F.Ret op → Prog F α) (s : S) :
    steps h (n + 1) (.call op k) s = steps h n (k (h op s).1) (h op s).2 := rfl

/-- The program has returned. -/
def returned : Prog F α → Bool
  | .ret _ => true
  | .call _ _ => false

theorem all_returned {l : List (Prog F α)} (h : l.all returned = true) {p : Prog F α}
    (hp : p ∈ l) : ∃ a, p = .ret a := by
  have hret := List.all_eq_true.mp h p hp
  cases p with
  | ret a => exact ⟨a, rfl⟩
  | call op k => cases hret

/-! ## The calls a program can make -/

/-- As long as every call is answered as `R` allows, every call the program
comes to make is in `A`. -/
def Within (R : (op : F.Op) → F.Ret op → Prop) (A : F.Op → Prop) :
    Prog F α → Prop
  | .ret _ => True
  | .call op k => A op ∧ ∀ r, R op r → (k r).Within R A

section

variable {R : (op : F.Op) → F.Ret op → Prop} {A : F.Op → Prop}

@[simp] theorem within_ret (a : α) : (Prog.ret a : Prog F α).Within R A :=
  trivial

@[simp] theorem within_pure (a : α) : (pure a : Prog F α).Within R A := trivial

theorem within_call {op : F.Op} {k : F.Ret op → Prog F α} :
    (Prog.call op k).Within R A ↔ A op ∧ ∀ r, R op r → (k r).Within R A :=
  Iff.rfl

theorem within_perform {op : F.Op} (h : A op) : (perform op).Within R A :=
  ⟨h, fun _ _ => trivial⟩

theorem within_perform_bind {op : F.Op} {f : F.Ret op → Prog F α} (h : A op)
    (hf : ∀ r, R op r → (f r).Within R A) : (perform op >>= f).Within R A :=
  ⟨h, hf⟩

theorem within_bind {p : Prog F α} {f : α → Prog F β}
    (hp : p.Within R A) (hf : ∀ a, (f a).Within R A) :
    (p >>= f).Within R A := by
  induction p with
  | ret a => exact hf a
  | call op k ih => exact ⟨hp.1, fun r hr => ih r (hp.2 r hr)⟩

theorem within_mono {B : F.Op → Prop} {p : Prog F α} (hp : p.Within R A)
    (hAB : ∀ op, A op → B op) : p.Within R B := by
  induction p with
  | ret a => trivial
  | call op k ih => exact ⟨hAB op hp.1, fun r hr => ih r (hp.2 r hr)⟩

theorem within_and {B : F.Op → Prop} {p : Prog F α} (hp : p.Within R A)
    (hp' : p.Within R B) : p.Within R fun op => A op ∧ B op := by
  induction p with
  | ret a => trivial
  | call op k ih => exact ⟨⟨hp.1, hp'.1⟩, fun r hr => ih r (hp.2 r hr) (hp'.2 r hr)⟩

theorem within_forM {l : List α} {body : α → Prog F PUnit}
    (hbody : ∀ x ∈ l, (body x).Within R A) : (l.forM body).Within R A := by
  induction l with
  | nil => trivial
  | cons x xs ih =>
      exact within_bind (hbody x (by simp))
        fun _ => ih fun y hy => hbody y (by simp [hy])

theorem within_foldlM {l : List α} {body : β → α → Prog F β} {b : β}
    (hbody : ∀ b, ∀ x ∈ l, (body b x).Within R A) :
    (l.foldlM body b).Within R A := by
  induction l generalizing b with
  | nil => trivial
  | cons x xs ih =>
      exact within_bind (hbody b x (by simp))
        fun _ => ih fun b' y hy => hbody b' y (by simp [hy])

end

/-- Answered as `R` allows, the program makes exactly one call in `A` before
it returns. -/
def Once (R : (op : F.Op) → F.Ret op → Prop) (A : F.Op → Prop) :
    Prog F α → Prop
  | .ret _ => False
  | .call op k =>
      (A op ∧ ∀ r, R op r → (k r).Within R fun op => ¬ A op) ∨
        (¬ A op ∧ ∀ r, R op r → (k r).Once R A)

section

variable {R : (op : F.Op) → F.Ret op → Prop} {A : F.Op → Prop}

theorem once_perform_bind {op : F.Op} {f : F.Ret op → Prog F α} (h : A op)
    (hf : ∀ r, R op r → (f r).Within R fun op => ¬ A op) :
    (perform op >>= f).Once R A := .inl ⟨h, hf⟩

/-- The call is made by what comes after. -/
theorem once_bind {p : Prog F α} {f : α → Prog F β}
    (hp : p.Within R fun op => ¬ A op) (hf : ∀ a, (f a).Once R A) :
    (p >>= f).Once R A := by
  induction p with
  | ret a => exact hf a
  | call op k ih => exact .inr ⟨hp.1, fun r hr => ih r (hp.2 r hr)⟩

end

/-- Answered as `R` allows, the program comes to a call in `A`, and from there
on makes only calls in `B`. -/
def Closes (R : (op : F.Op) → F.Ret op → Prop) (A B : F.Op → Prop) :
    Prog F α → Prop
  | .ret _ => False
  | .call op k =>
      (A op ∧ ∀ r, R op r → (k r).Within R B) ∨
        (¬ A op ∧ ∀ r, R op r → (k r).Closes R A B)

section

variable {R : (op : F.Op) → F.Ret op → Prop} {A B : F.Op → Prop}

theorem closes_perform_bind {op : F.Op} {f : F.Ret op → Prog F α} (h : A op)
    (hf : ∀ r, R op r → (f r).Within R B) :
    (perform op >>= f).Closes R A B := .inl ⟨h, hf⟩

/-- The call is made by what comes after. -/
theorem closes_bind {p : Prog F α} {f : α → Prog F β}
    (hp : p.Within R fun op => ¬ A op) (hf : ∀ a, (f a).Closes R A B) :
    (p >>= f).Closes R A B := by
  induction p with
  | ret a => exact hf a
  | call op k ih => exact .inr ⟨hp.1, fun r hr => ih r (hp.2 r hr)⟩

end

end Prog

end Zos4.Interaction
