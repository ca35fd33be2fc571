import Zos4.Interaction.Service

/-!
# Threads that take turns

Any number of threads enter a part of their program that a mutex guards. While one is in
its section it is the only one to call on the service, so that a section has to be read
against the service alone, as `Served` does, and not against the other sections. A section
may panic at any of its calls, and the deferred unlock lets the next one in.

`exclusive` is that no two threads are in a section, `run_holds` that the invariant of the
service holds throughout and every call is made where it is allowed.
-/

namespace Zos4.Interaction

variable {F : Sig} {S α : Type}

/-- Where a thread is, next to its section. -/
inductive Turn (F : Sig) (α : Type) where
  | outside
  | waiting (p : Prog F α)
  | inside (p : Prog F α)

structure Mutex (F : Sig) (S α : Type) where
  state : S
  owner : Option Nat
  turn : Nat → Turn F α

namespace Mutex

def goTo (m : Mutex F S α) (i : Nat) (turn : Turn F α) : Mutex F S α :=
  { m with turn := fun j => if j = i then turn else m.turn j }

inductive Step (V : Service F S) (sections : Prog F α → Prop) :
    Mutex F S α → Mutex F S α → Prop
  | lock {m : Mutex F S α} {i : Nat} {p : Prog F α} : sections p → m.turn i = .outside →
      Step V sections m (m.goTo i (.waiting p))
  | locked {m : Mutex F S α} {i : Nat} {p : Prog F α} : m.turn i = .waiting p →
      m.owner = none → Step V sections m { m.goTo i (.inside p) with owner := some i }
  | call {m : Mutex F S α} {i : Nat} {op : F.Op} {k : F.Ret op → Prog F α}
      {answer : F.Ret op} {s : S} : m.turn i = .inside (.call op k) →
      V.reply op m.state answer s →
      Step V sections m { m.goTo i (.inside (k answer)) with state := s }
  | unlock {m : Mutex F S α} {i : Nat} {a : α} : m.turn i = .inside (.ret a) →
      Step V sections m { m.goTo i .outside with owner := none }
  | panic {m : Mutex F S α} {i : Nat} {p : Prog F α} : m.turn i = .inside p →
      Step V sections m { m.goTo i .outside with owner := none }
  | others {m : Mutex F S α} {s : S} : V.others m.state s →
      Step V sections m { m with state := s }

abbrev Run (V : Service F S) (sections : Prog F α → Prop) :
    Mutex F S α → Mutex F S α → Prop :=
  Relation.ReflTransGen (Step V sections)

/-- The mutex is free and nobody is in a section. -/
def start (s : S) : Mutex F S α := ⟨s, none, fun _ => .outside⟩

structure Holds (V : Service F S) (allow : F.Op → S → Prop) (Q : α → S → Prop)
    (sections : Prog F α → Prop) (m : Mutex F S α) : Prop where
  inv : V.inv m.state
  waiting : ∀ i p, m.turn i = .waiting p → sections p
  owned : ∀ i p, m.turn i = .inside p → m.owner = some i
  served : ∀ i p, m.turn i = .inside p → p.Served V allow Q m.state

variable {V : Service F S} {allow : F.Op → S → Prop} {Q : α → S → Prop}
  {sections : Prog F α → Prop} {m m' : Mutex F S α} {i j : Nat} {p q : Prog F α}
  {turn : Turn F α}

/-- A turn after a move is the one moved to, or somebody else's. -/
theorem goTo_turn {turn' : Turn F α} (h : (m.goTo i turn).turn j = turn') :
    (j = i ∧ turn = turn') ∨ (j ≠ i ∧ m.turn j = turn') := by
  by_cases hij : j = i
  · exact .inl ⟨hij, (if_pos hij).symm.trans h⟩
  · exact .inr ⟨hij, (if_neg hij).symm.trans h⟩

theorem Holds.start {s : S} (h : V.inv s) :
    Holds V allow Q sections (Mutex.start s : Mutex F S α) where
  inv := h
  waiting _ _ h := nomatch h
  owned _ _ h := nomatch h
  served _ _ h := nomatch h

/-- No two threads are in a section. -/
theorem Holds.exclusive (h : Holds V allow Q sections m) (hi : m.turn i = .inside p)
    (hj : m.turn j = .inside q) : i = j :=
  Option.some.inj ((h.owned i p hi).symm.trans (h.owned j q hj))

/-- Nobody is left in a section once its owner has gone. -/
theorem Holds.left (h : Holds V allow Q sections m) (hi : m.turn i = .inside p) :
    Holds V allow Q sections { m.goTo i .outside with owner := none } := by
  have gone : ∀ j q, (m.goTo i .outside).turn j ≠ .inside q := by
    intro j q hj
    rcases goTo_turn hj with ⟨_, hout⟩ | ⟨hij, hj⟩
    · cases hout
    · exact hij (h.exclusive hj hi)
  refine ⟨h.inv, fun j q hj => ?_, fun j q hj => absurd hj (gone j q),
    fun j q hj => absurd hj (gone j q)⟩
  rcases goTo_turn hj with ⟨_, hout⟩ | ⟨_, hj⟩
  · cases hout
  · exact h.waiting j q hj

theorem step_holds (hkeeps : Client.Keeps V allow)
    (hsections : ∀ p, sections p → ∀ s, V.inv s → p.Served V allow Q s)
    (h : Holds V allow Q sections m) (hstep : Step V sections m m') :
    Holds V allow Q sections m' := by
  cases hstep with
  | @lock i p hp hi =>
      refine ⟨h.inv, fun j q hj => ?_, fun j q hj => ?_, fun j q hj => ?_⟩
      · rcases goTo_turn hj with ⟨_, hturn⟩ | ⟨_, hj⟩
        · cases hturn
          exact hp
        · exact h.waiting j q hj
      · rcases goTo_turn hj with ⟨_, hturn⟩ | ⟨_, hj⟩
        · cases hturn
        · exact h.owned j q hj
      · rcases goTo_turn hj with ⟨_, hturn⟩ | ⟨_, hj⟩
        · cases hturn
        · exact h.served j q hj
  | @locked i p hi hfree =>
      have alone : ∀ j q, m.turn j ≠ .inside q := fun j q hj =>
        nomatch hfree.symm.trans (h.owned j q hj)
      refine ⟨h.inv, fun j q hj => ?_, fun j q hj => ?_, fun j q hj => ?_⟩
      · rcases goTo_turn hj with ⟨_, hturn⟩ | ⟨_, hj⟩
        · cases hturn
        · exact h.waiting j q hj
      · rcases goTo_turn hj with ⟨rfl, _⟩ | ⟨_, hj⟩
        · rfl
        · exact absurd hj (alone j q)
      · rcases goTo_turn hj with ⟨_, hturn⟩ | ⟨_, hj⟩
        · cases hturn
          exact hsections p (h.waiting i p hi) m.state h.inv
        · exact absurd hj (alone j q)
  | @call i op k answer s hi hreply =>
      obtain ⟨hop, hk⟩ := h.served i _ hi m.state (V.refl _) h.inv
      refine ⟨hkeeps.reply op _ answer s h.inv hop hreply, fun j q hj => ?_,
        fun j q hj => ?_, fun j q hj => ?_⟩
      · rcases goTo_turn hj with ⟨_, hturn⟩ | ⟨_, hj⟩
        · cases hturn
        · exact h.waiting j q hj
      · rcases goTo_turn hj with ⟨rfl, _⟩ | ⟨_, hj⟩
        · exact h.owned j _ hi
        · exact h.owned j q hj
      · rcases goTo_turn hj with ⟨_, hturn⟩ | ⟨hij, hj⟩
        · cases hturn
          exact hk answer s hreply
        · exact absurd (h.exclusive hj hi) hij
  | unlock hi => exact h.left hi
  | panic hi => exact h.left hi
  | others hothers =>
      exact ⟨hkeeps.others _ _ h.inv hothers, h.waiting, h.owned,
        fun i p hi => (h.served i p hi).interfere hothers⟩

/-- Sections that are served wherever they are entered are so in every run. -/
theorem run_holds (hkeeps : Client.Keeps V allow)
    (hsections : ∀ p, sections p → ∀ s, V.inv s → p.Served V allow Q s)
    (h : Holds V allow Q sections m) (hrun : Run V sections m m') :
    Holds V allow Q sections m' := by
  induction hrun with
  | refl => exact h
  | tail _ hstep ih => exact step_holds hkeeps hsections ih hstep

end Mutex

end Zos4.Interaction
