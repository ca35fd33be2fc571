import Zos4.Interaction.Service
import Zos4.Interaction.Trace

/-!
# Calls that are programs

What is one call to a program may be a whole program below. `implement` puts the
programs in the place of the calls, and `Served.implement` carries what was shown of
the program with its calls over: it is enough that each of them does, as a program,
what the service says of it as a call.

`logged` keeps the calls that were made next to what a service keeps, in their order,
and `Made` is what such a log may hold of one program. With the two a call can be said
to do just what its program does (`Did`).
-/

namespace Zos4.Interaction

namespace Prog

variable {F G : Sig} {S α β : Type}

/-! ## Putting programs in the place of calls -/

def implement (impl : (op : F.Op) → Prog G (F.Ret op)) : Prog F α → Prog G α
  | .ret a => .ret a
  | .call op k => impl op >>= fun r => (k r).implement impl

variable {impl : (op : F.Op) → Prog G (F.Ret op)} {V : Service F S} {W : Service G S}
  {allow : F.Op → S → Prop} {allow' : G.Op → S → Prop} {Q : α → S → Prop} {s : S}

theorem Served.implement {p : Prog F α} (h : p.Served V allow Q s)
    (hothers : ∀ {a b}, W.others a b → V.others a b) (hinv : ∀ {a}, W.inv a → V.inv a)
    (himpl : ∀ op t, V.inv t → allow op t →
      (impl op).Served W allow' (fun r t' => V.reply op t r t') t) :
    (p.implement impl).Served W allow' Q s := by
  induction p generalizing s with
  | ret a => exact fun t ht hi => h t (hothers ht) (hinv hi)
  | call op k ih =>
      refine Served.intro fun t ht hi => ?_
      obtain ⟨hop, hk⟩ := h t (hothers ht) (hinv hi)
      exact (himpl op t (hinv hi) hop).bind fun r t' _ hr => ih r (hk r t' hr)

/-! ## What a log holds of a program -/

/-- The program has made these calls, with these answers, and has returned. -/
inductive Made : Prog F α → List (Entry F) → α → Prop
  | ret (a : α) : Made (.ret a) [] a
  | call {op : F.Op} {k : F.Ret op → Prog F α} {r : F.Ret op} {rest : List (Entry F)}
      {a : α} : Made (k r) rest a → Made (.call op k) (⟨op, r⟩ :: rest) a

theorem made_pure {a b : α} {entries : List (Entry F)}
    (h : Made (pure a : Prog F α) entries b) : entries = [] ∧ b = a := by
  cases h
  exact ⟨rfl, rfl⟩

theorem made_perform_bind {op : F.Op} {f : F.Ret op → Prog F α} {entries : List (Entry F)}
    {a : α} (h : Made (perform op >>= f) entries a) :
    ∃ r rest, entries = ⟨op, r⟩ :: rest ∧ Made (f r) rest a := by
  cases h with
  | call h => exact ⟨_, _, rfl, h⟩

theorem made_bind {p : Prog F α} {f : α → Prog F β} {entries : List (Entry F)} {b : β}
    (h : Made (p >>= f) entries b) :
    ∃ a first rest, entries = first ++ rest ∧ Made p first a ∧ Made (f a) rest b := by
  induction p generalizing entries with
  | ret a => exact ⟨a, [], entries, rfl, .ret a, h⟩
  | call op k ih =>
      obtain ⟨r, rest, rfl, hrest⟩ := made_perform_bind (f := fun r => k r >>= f) h
      obtain ⟨a, first, rest, rfl, hfirst, hrest⟩ := ih r hrest
      exact ⟨a, ⟨op, r⟩ :: first, rest, rfl, .call hfirst, hrest⟩

theorem Made.bind {p : Prog F α} {f : α → Prog F β} {first rest : List (Entry F)} {a : α}
    {b : β} (h : Made p first a) (hf : Made (f a) rest b) :
    Made (p >>= f) (first ++ rest) b := by
  induction h with
  | ret a => exact hf
  | call _ ih => exact .call (ih hf)

end Prog

/-! ## Services with a log -/

variable {F : Sig} {S α β : Type}

/-- What a service keeps, and the calls made to it. -/
abbrev Logged (F : Sig) (S : Type) := S × List (Entry F)

/-- Nobody else has a part in the log. -/
def Service.logged (V : Service F S) (inv : Logged F S → Prop) : Service F (Logged F S) where
  reply op s r s' := V.reply op s.1 r s'.1 ∧ s'.2 = s.2 ++ [⟨op, r⟩]
  others s s' := V.others s.1 s'.1 ∧ s'.2 = s.2
  inv := inv
  refl s := ⟨V.refl s.1, rfl⟩
  trans h h' := ⟨V.trans h.1 h'.1, h'.2.trans h.2⟩

/-- A handler that keeps a log. -/
def logging (h : Handler F S) : Handler F (Logged F S) :=
  fun op s => ((h op s.1).1, (h op s.1).2, s.2 ++ [⟨op, (h op s.1).1⟩])

/-- What is kept of a log has no part in the runs. -/
theorem Client.run_relog {V : Service F S} {inv inv' : Logged F S → Prop}
    {rounds : Prog F α → Prop} {c c' : Client F (Logged F S) α}
    (h : Client.Run (V.logged inv) rounds c c') : Client.Run (V.logged inv') rounds c c' := by
  refine Relation.ReflTransGen.mono (fun d d' hstep => ?_) _ _ h
  cases hstep with
  | start hp hround => exact .start hp hround
  | reply hround hreply => exact .reply hround hreply
  | finish hround => exact .finish hround
  | crash => exact .crash
  | others hothers => exact .others hothers

namespace Prog

/-- The program has run from its first call to its last, and nothing that is kept has
changed. -/
def Did (p : Prog F α) (s : Logged F S) (a : α) (t : Logged F S) : Prop :=
  t.1 = s.1 ∧ ∃ entries, t.2 = s.2 ++ entries ∧ Made p entries a

variable {V : Service F S} {inv : Logged F S → Prop} {allow : F.Op → Logged F S → Prop}
  {s : Logged F S}

theorem did_bind {p : Prog F α} {f : α → Prog F β}
    (h : p.Served (V.logged inv) allow (Did p s) s)
    (hf : ∀ a t, Did p s a t → (f a).Served (V.logged inv) allow (Did (f a) t) t) :
    (p >>= f).Served (V.logged inv) allow (Did (p >>= f) s) s := by
  refine h.bind fun a t _ ht => (hf a t ht).mono (fun _ _ _ h => h) ?_
  intro b u _ hu
  obtain ⟨hkept, first, hfirst, hp⟩ := ht
  obtain ⟨hkept', rest, hrest, hq⟩ := hu
  refine ⟨hkept'.trans hkept, first ++ rest, ?_, hp.bind hq⟩
  rw [hrest, hfirst, List.append_assoc]

/-! The rules below are for a program that nobody interferes with. -/

section

variable (halone : ∀ a b, V.others a b → b = a)

include halone

theorem alone {t : Logged F S} (h : (V.logged inv).others s t) : t = s :=
  Prod.ext (halone _ _ h.1) h.2

theorem did_pure (a : α) :
    (pure a : Prog F α).Served (V.logged inv) allow (Did (pure a) s) s := by
  intro t ht _
  rw [alone halone ht]
  exact ⟨rfl, [], (List.append_nil _).symm, .ret a⟩

theorem did_perform {op : F.Op} (hallow : inv s → allow op s)
    (hkept : ∀ r b, V.reply op s.1 r b → b = s.1) :
    (perform op).Served (V.logged inv) allow (Did (perform op) s) s := by
  intro t ht hi
  obtain rfl := alone halone ht
  refine ⟨hallow hi, fun r t' hr u hu _ => ?_⟩
  obtain rfl := alone halone hu
  exact ⟨hkept r _ hr.1, [⟨op, r⟩], hr.2, .call (.ret r)⟩

end

end Prog

end Zos4.Interaction
