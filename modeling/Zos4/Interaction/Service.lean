import Mathlib.Logic.Relation
import Zos4.Interaction.Prog

/-!
# Programs that call on a service

A service outside is not a function: what it answers, and what it has done by then, is
known up to a relation. It may carry a call out and lose the answer, it may refuse, and
between two calls others move what it keeps. `Service` is such a relation, with what the
others may do and an invariant.

`Served` reads a program against a service: whatever the answers and whatever the others
do, each call is made where it is allowed and the program returns only where its
postcondition holds. `Client` is a process that goes through such programs one after
another and may die between any two calls, and `Client.run_holds` is the induction over
its runs.
-/

namespace Zos4.Interaction

structure Service (F : Sig) (S : Type) where
  reply : (op : F.Op) → S → F.Ret op → S → Prop
  others : S → S → Prop
  inv : S → Prop
  refl : ∀ s, others s s
  trans : ∀ {a b c}, others a b → others b c → others a c

namespace Prog

variable {F : Sig} {S α β : Type} {V : Service F S} {allow : F.Op → S → Prop}

def Served (V : Service F S) (allow : F.Op → S → Prop) (Q : α → S → Prop) :
    Prog F α → S → Prop
  | .ret a, s => ∀ s', V.others s s' → V.inv s' → Q a s'
  | .call op k, s => ∀ s', V.others s s' → V.inv s' →
      allow op s' ∧ ∀ r s'', V.reply op s' r s'' → (k r).Served V allow Q s''

variable {Q : α → S → Prop} {s s' : S}

theorem served_perform_bind {op : F.Op} {f : F.Ret op → Prog F α} :
    (perform op >>= f).Served V allow Q s ↔ ∀ s', V.others s s' → V.inv s' →
      allow op s' ∧ ∀ r s'', V.reply op s' r s'' → (f r).Served V allow Q s'' := Iff.rfl

/-- A program stays served while the others move. -/
theorem Served.interfere {p : Prog F α} (h : p.Served V allow Q s)
    (hothers : V.others s s') : p.Served V allow Q s' := by
  cases p with
  | ret a => exact fun t ht => h t (V.trans hothers ht)
  | call op k => exact fun t ht => h t (V.trans hothers ht)

theorem Served.mono {p : Prog F α} {allow' : F.Op → S → Prop} {Q' : α → S → Prop}
    (h : p.Served V allow Q s) (hallow : ∀ op t, V.inv t → allow op t → allow' op t)
    (hQ : ∀ a t, V.inv t → Q a t → Q' a t) : p.Served V allow' Q' s := by
  induction p generalizing s with
  | ret a => exact fun t ht hi => hQ a t hi (h t ht hi)
  | call op k ih =>
      intro t ht hi
      obtain ⟨hop, hk⟩ := h t ht hi
      exact ⟨hallow op t hi hop, fun r t' hr => ih r (hk r t' hr)⟩

/-- To prove a program served, let the others move first. -/
theorem Served.intro {p : Prog F α}
    (h : ∀ s', V.others s s' → V.inv s' → p.Served V allow Q s') :
    p.Served V allow Q s := by
  cases p with
  | ret a => exact fun t ht hi => h t ht hi t (V.refl t) hi
  | call op k => exact fun t ht hi => h t ht hi t (V.refl t) hi

theorem Served.bind {p : Prog F α} {f : α → Prog F β} {Q' : β → S → Prop}
    (h : p.Served V allow Q s)
    (hf : ∀ a t, V.inv t → Q a t → (f a).Served V allow Q' t) :
    (p >>= f).Served V allow Q' s := by
  induction p generalizing s with
  | ret a => exact Served.intro fun t ht hi => hf a t hi (h t ht hi)
  | call op k ih =>
      intro t ht hi
      obtain ⟨hop, hk⟩ := h t ht hi
      exact ⟨hop, fun r t' hr => ih r (hk r t' hr)⟩

end Prog

/-! ## A client -/

variable {F : Sig} {S α : Type}

/-- What the service keeps, and what is left of the program the process is in. -/
structure Client (F : Sig) (S α : Type) where
  state : S
  round : Option (Prog F α)

namespace Client

/-- The process enters a program, gets an answer, leaves the program or dies in it, or
the others move. -/
inductive Step (V : Service F S) (rounds : Prog F α → Prop) :
    Client F S α → Client F S α → Prop
  | start {c : Client F S α} {p : Prog F α} : rounds p → c.round = none →
      Step V rounds c { c with round := some p }
  | reply {c : Client F S α} {op : F.Op} {k : F.Ret op → Prog F α} {r : F.Ret op}
      {s : S} : c.round = some (.call op k) → V.reply op c.state r s →
      Step V rounds c ⟨s, some (k r)⟩
  | finish {c : Client F S α} {a : α} : c.round = some (.ret a) →
      Step V rounds c { c with round := none }
  | crash {c : Client F S α} : Step V rounds c { c with round := none }
  | others {c : Client F S α} {s : S} : V.others c.state s →
      Step V rounds c { c with state := s }

/-- Any number of steps. -/
abbrev Run (V : Service F S) (rounds : Prog F α → Prop) :
    Client F S α → Client F S α → Prop :=
  Relation.ReflTransGen (Step V rounds)

structure Holds (V : Service F S) (allow : F.Op → S → Prop) (Q : α → S → Prop)
    (c : Client F S α) : Prop where
  inv : V.inv c.state
  served : ∀ p, c.round = some p → p.Served V allow Q c.state

variable {V : Service F S} {allow : F.Op → S → Prop} {Q : α → S → Prop}
  {rounds : Prog F α → Prop} {c c' : Client F S α}

theorem Holds.idle {s : S} (h : V.inv s) : Holds V allow Q ⟨s, none⟩ :=
  ⟨h, fun _ hp => nomatch hp⟩

/-- What the program returns is what it was to establish. -/
theorem Holds.returned (h : Holds V allow Q c) {a : α} (hround : c.round = some (.ret a)) :
    Q a c.state := h.served _ hround c.state (V.refl _) h.inv

/-- Allowed calls and the others keep the invariant. -/
structure Keeps (V : Service F S) (allow : F.Op → S → Prop) : Prop where
  reply : ∀ op s r s', V.inv s → allow op s → V.reply op s r s' → V.inv s'
  others : ∀ s s', V.inv s → V.others s s' → V.inv s'

theorem step_holds (hkeeps : Keeps V allow)
    (hrounds : ∀ p, rounds p → ∀ s, V.inv s → p.Served V allow Q s)
    (h : Holds V allow Q c) (hstep : Step V rounds c c') : Holds V allow Q c' := by
  cases hstep with
  | start hp _ =>
      refine ⟨h.inv, fun p' hp' => ?_⟩
      obtain rfl := Option.some.inj hp'
      exact hrounds _ hp _ h.inv
  | @reply op k r s hround hreply =>
      obtain ⟨hop, hk⟩ := h.served _ hround c.state (V.refl _) h.inv
      refine ⟨hkeeps.reply op _ r s h.inv hop hreply, fun p' hp' => ?_⟩
      obtain rfl := Option.some.inj hp'
      exact hk r s hreply
  | finish _ => exact ⟨h.inv, fun _ hp => nomatch hp⟩
  | crash => exact ⟨h.inv, fun _ hp => nomatch hp⟩
  | others hothers =>
      exact ⟨hkeeps.others _ _ h.inv hothers, fun p hp => (h.served p hp).interfere hothers⟩

/-- Programs that are served wherever they are entered are so in every run. -/
theorem run_holds (hkeeps : Keeps V allow)
    (hrounds : ∀ p, rounds p → ∀ s, V.inv s → p.Served V allow Q s)
    (h : Holds V allow Q c) (hrun : Run V rounds c c') : Holds V allow Q c' := by
  induction hrun with
  | refl => exact h
  | tail _ hstep ih => exact step_holds hkeeps hrounds ih hstep

/-- A program run from a handler whose answers the service gives is a run to its end. -/
theorem run_of_handler {h : Handler F S} (hreply : ∀ op s, V.reply op s (h op s).1 (h op s).2)
    (p : Prog F α) (s : S) :
    Run V rounds ⟨s, some p⟩ ⟨(p.run h s).2, some (.ret (p.run h s).1)⟩ := by
  induction p generalizing s with
  | ret a => exact .refl
  | call op k ih => exact (ih _ _).head (.reply rfl (hreply op s))

end Client

end Zos4.Interaction
