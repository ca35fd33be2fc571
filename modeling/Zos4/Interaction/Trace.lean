import Zos4.Interaction.Prog

/-!
# Programs and the calls they have made

Where nothing is known of an environment but what it has answered so far, the
history of a program is the list of its calls with their answers. `Traced` is a
program logic over that list, the last call first: every call is allowed after what
came before it, and what the program returns goes with the whole history. `ok` is
what may be assumed of an answer.

`Allowed.of_split` is what comes of it: if each call was allowed when it was made, a
call found anywhere in a history is one that was allowed after the ones before it.
-/

namespace Zos4.Interaction

/-- A call and its answer. -/
abbrev Entry (F : Sig) := (op : F.Op) × F.Ret op

/-- The calls made so far, the last one first. -/
abbrev History (F : Sig) := List (Entry F)

namespace Prog

variable {F : Sig} {α β : Type}

def Traced (ok : Entry F → Prop) (allow : History F → F.Op → Prop)
    (Q : α → History F → Prop) : Prog F α → History F → Prop
  | .ret a, past => Q a past
  | .call op k, past =>
      allow past op ∧ ∀ r, ok ⟨op, r⟩ → (k r).Traced ok allow Q (⟨op, r⟩ :: past)

variable {ok : Entry F → Prop} {allow : History F → F.Op → Prop}
  {Q Q' : α → History F → Prop} {past : History F}

@[simp] theorem traced_ret {a : α} :
    (Prog.ret a : Prog F α).Traced ok allow Q past ↔ Q a past := Iff.rfl

@[simp] theorem traced_pure {a : α} :
    (pure a : Prog F α).Traced ok allow Q past ↔ Q a past := Iff.rfl

theorem traced_perform_bind {op : F.Op} {f : F.Ret op → Prog F α} :
    (perform op >>= f).Traced ok allow Q past ↔
      allow past op ∧ ∀ r, ok ⟨op, r⟩ → (f r).Traced ok allow Q (⟨op, r⟩ :: past) :=
  Iff.rfl

theorem Traced.mono {p : Prog F α} (hp : p.Traced ok allow Q past)
    (hQ : ∀ a past, Q a past → Q' a past) : p.Traced ok allow Q' past := by
  induction p generalizing past with
  | ret a => exact hQ a past hp
  | call op k ih => exact ⟨hp.1, fun r hr => ih r (hp.2 r hr)⟩

theorem Traced.bind {p : Prog F α} {f : α → Prog F β} {Q' : β → History F → Prop}
    (hp : p.Traced ok allow Q past)
    (hf : ∀ a past, Q a past → (f a).Traced ok allow Q' past) :
    (p >>= f).Traced ok allow Q' past := by
  induction p generalizing past with
  | ret a => exact hf a past hp
  | call op k ih => exact ⟨hp.1, fun r hr => ih r (hp.2 r hr)⟩

/-- A program whose calls are always allowed adds nothing but those calls. -/
theorem Within.traced {R : (op : F.Op) → F.Ret op → Prop} {A : F.Op → Prop}
    {p : Prog F α} (hp : p.Within R A) (hR : ∀ op r, R op r)
    (hallow : ∀ past op, A op → allow past op) :
    p.Traced ok allow
      (fun _ now => ∃ recent, now = recent ++ past ∧ ∀ entry ∈ recent, A entry.1) past := by
  induction p generalizing past with
  | ret a => exact ⟨[], rfl, List.forall_mem_nil _⟩
  | call op k ih =>
      refine ⟨hallow past op hp.1, fun r _ => (ih r (hp.2 r (hR op r))).mono ?_⟩
      rintro a now ⟨recent, rfl, hrecent⟩
      refine ⟨recent ++ [⟨op, r⟩], by simp, ?_⟩
      intro entry hentry
      rcases List.mem_append.mp hentry with hentry | hentry
      · exact hrecent entry hentry
      · obtain rfl := List.mem_singleton.mp hentry
        exact hp.1

end Prog

/-- Every call was allowed after the ones before it. -/
def Allowed {F : Sig} (allow : History F → F.Op → Prop) : History F → Prop
  | [] => True
  | entry :: past => allow past entry.1 ∧ Allowed allow past

theorem Allowed.of_split {F : Sig} {allow : History F → F.Op → Prop}
    {recent past : History F} {entry : Entry F}
    (h : Allowed allow (recent ++ entry :: past)) : allow past entry.1 := by
  induction recent with
  | nil => exact h.1
  | cons first rest ih => exact ih h.2

end Zos4.Interaction
