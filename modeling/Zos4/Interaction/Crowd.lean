import Zos4.Interaction.Service

/-!
# Programs side by side

Any number of threads call on one service, each with a program of its own, and nothing but
a single call keeps them apart. What one of them does is interference to the rest, and if
the service allows for it (`Tolerates`), each program may be read by itself: `run_holds`.
-/

namespace Zos4.Interaction

variable {F : Sig} {S ι α : Type}

/-- The threads, each with what it was started for. -/
structure Crowd (F : Sig) (S ι α : Type) where
  state : S
  threads : List (ι × Prog F α)

namespace Crowd

/-- A thread is started, makes its next call or dies, or others move. -/
inductive Step (V : Service F S) (job : ι → Prog F α) :
    Crowd F S ι α → Crowd F S ι α → Prop
  | start {m : Crowd F S ι α} (i : ι) :
      Step V job m { m with threads := m.threads ++ [(i, job i)] }
  | call {m : Crowd F S ι α} {n : Nat} {i : ι} {op : F.Op} {k : F.Ret op → Prog F α}
      {r : F.Ret op} {s : S} : m.threads[n]? = some (i, .call op k) →
      V.reply op m.state r s → Step V job m ⟨s, m.threads.set n (i, k r)⟩
  | die {m : Crowd F S ι α} (n : Nat) :
      Step V job m { m with threads := m.threads.eraseIdx n }
  | others {m : Crowd F S ι α} {s : S} : V.others m.state s →
      Step V job m { m with state := s }

abbrev Run (V : Service F S) (job : ι → Prog F α) :
    Crowd F S ι α → Crowd F S ι α → Prop :=
  Relation.ReflTransGen (Step V job)

/-- What an allowed call does, the others may do. -/
def Tolerates (V : Service F S) (allow : F.Op → S → Prop) : Prop :=
  ∀ op s r s', V.inv s → allow op s → V.reply op s r s' → V.others s s'

structure Holds (V : Service F S) (allow : F.Op → S → Prop) (Q : ι → α → S → Prop)
    (m : Crowd F S ι α) : Prop where
  inv : V.inv m.state
  served : ∀ i p, (i, p) ∈ m.threads → p.Served V allow (Q i) m.state

variable {V : Service F S} {allow : F.Op → S → Prop} {Q : ι → α → S → Prop}
  {job : ι → Prog F α} {m m' : Crowd F S ι α}

/-- A thread that has returned has what it was to establish. -/
theorem Holds.returned (h : Holds V allow Q m) {i : ι} {a : α}
    (hmem : (i, .ret a) ∈ m.threads) : Q i a m.state :=
  h.served i _ hmem m.state (V.refl _) h.inv

theorem step_holds (hkeeps : Client.Keeps V allow) (htolerates : Tolerates V allow)
    (hjobs : ∀ i s, V.inv s → (job i).Served V allow (Q i) s)
    (h : Holds V allow Q m) (hstep : Step V job m m') : Holds V allow Q m' := by
  cases hstep with
  | start i =>
      refine ⟨h.inv, fun j p hp => ?_⟩
      rcases List.mem_append.mp hp with hp | hp
      · exact h.served j p hp
      · cases List.mem_singleton.mp hp
        exact hjobs i m.state h.inv
  | @call n i op k r s hn hreply =>
      have hcalling := h.served i _ (List.mem_of_getElem? hn)
      obtain ⟨hop, hk⟩ := hcalling m.state (V.refl _) h.inv
      refine ⟨hkeeps.reply op _ r s h.inv hop hreply, fun j p hp => ?_⟩
      rcases List.mem_or_eq_of_mem_set hp with hp | heq
      · exact (h.served j p hp).interfere (htolerates op _ r s h.inv hop hreply)
      · cases heq
        exact hk r s hreply
  | die n => exact ⟨h.inv, fun j p hp => h.served j p (List.mem_of_mem_eraseIdx hp)⟩
  | others hothers =>
      exact ⟨hkeeps.others _ _ h.inv hothers,
        fun j p hp => (h.served j p hp).interfere hothers⟩

/-- Programs that are served wherever they are started are so side by side. -/
theorem run_holds (hkeeps : Client.Keeps V allow) (htolerates : Tolerates V allow)
    (hjobs : ∀ i s, V.inv s → (job i).Served V allow (Q i) s)
    (h : Holds V allow Q m) (hrun : Run V job m m') : Holds V allow Q m' := by
  induction hrun with
  | refl => exact h
  | tail _ hstep ih => exact step_holds hkeeps htolerates hjobs ih hstep

end Crowd

end Zos4.Interaction
