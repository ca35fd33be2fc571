import Zos4.Registrar.Records
import Zos4.Registrar.Registrar

/-!
# The goroutine and its calls

`Registrar.lean` has the goroutine with a registration as one action, `Register.lean` has
what a registration does. `Daemon` runs the two together: an attempt is entered while the
goroutine is inside `register()`, its calls are answered one at a time, and what it returns
is the action the goroutine takes. The process may be restarted at any time.
-/

namespace Zos4.Registrar

open Zos4.Interaction Prog

/-- The actions that are the end of a round. -/
def Action.returns : Action → Bool
  | .failed _ => true
  | .registered _ _ => true
  | .reactivated _ => true
  | _ => false

/-! ## What the goroutine says -/

@[simp] theorem Sys.register_state (s : Sys) : s.register.state = s.state := rfl

@[simp] theorem Sys.watch_state (s : Sys) : s.watch.state = s.state := rfl

@[simp] theorem Sys.proceed_state (s : Sys) : s.proceed.state = s.state := by
  rw [Sys.proceed]
  split <;> rfl

/-- Between two rounds the goroutine says what it said before, or that it failed. -/
theorem step_state {s s' : Sys} {a : Action} (ha : a.returns = false)
    (h : step s a = some s') : s'.state = s.state ∨ s'.state.state = .failed := by
  cases a with
  | check limitedCache kvm =>
      simp only [step] at h
      split at h
      · split at h
        · cases h; exact .inr rfl
        · split at h
          · cases h; exact .inr rfl
          · cases h; exact .inl rfl
      · cases h
  | failed err => cases ha
  | registered nodeID twinID => cases ha
  | reactivated err => cases ha
  | cancel => cases h; exact .inl rfl
  | tick d =>
      simp only [step, Option.ite_none_right_eq_some] at h
      obtain ⟨_, h⟩ := h
      cases h
      exact .inl rfl
  | addressUpdate =>
      simp only [step, Option.ite_none_right_eq_some] at h
      obtain ⟨_, h⟩ := h
      cases h
      exact .inl rfl
  | gaveUp =>
      simp only [step, Option.ite_none_right_eq_some] at h
      obtain ⟨_, h⟩ := h
      cases h
      exact .inl s.proceed_state
  | subscribed err =>
      simp only [step, Option.ite_none_right_eq_some] at h
      obtain ⟨_, h⟩ := h
      cases err with
      | none => cases h; exact .inl rfl
      | some err => cases h; exact .inl rfl
  | _ =>
      simp only [step] at h
      split at h
      · simp only [Option.ite_none_right_eq_some] at h
        obtain ⟨_, h⟩ := h
        cases h
        exact .inl rfl
      · cases h

theorem step_registered {s s' : Sys} {nodeID twinID : UInt64}
    (h : step s (.registered nodeID twinID) = some s') :
    s'.state = doneState nodeID.toUInt32 twinID.toUInt32 := by
  simp only [step, Option.ite_none_right_eq_some] at h
  obtain ⟨_, h⟩ := h
  cases h
  exact Sys.proceed_state _

theorem step_failed {s s' : Sys} {err : String} (h : step s (.failed err) = some s') :
    s'.state.state = .failed := by
  simp only [step, Option.ite_none_right_eq_some] at h
  obtain ⟨_, h⟩ := h
  cases h
  rfl

theorem step_reactivated {s s' : Sys} {err : Option String}
    (h : step s (.reactivated err) = some s') : s'.state = s.state := by
  simp only [step, Option.ite_none_right_eq_some] at h
  obtain ⟨_, h⟩ := h
  cases h
  rfl

/-! ## The two together -/

variable [Sdk]

/-- What a round of calls returns. -/
inductive Outcome where
  | registration (env : Env) (info : RegistrationInfo)
      (answer : Except String (UInt64 × UInt64))
  | reActivate (err : Option String)

def registering (env : Env) (info : RegistrationInfo) : RegisterM Outcome := do
  let answer ← registration env info
  pure (.registration env info answer)

def reactivating : RegisterM Outcome := do
  let err ← reActivate
  pure (.reActivate err)

inductive Round : RegisterM Outcome → Prop
  | registering (env : Env) (info : RegistrationInfo) : Round (registering env info)
  | reactivating : Round reactivating

structure Daemon where
  sys : Sys
  client : Client registerSig Records Outcome

/-- The process starts, with the registrar as it is. -/
def Daemon.start (s : Records) : Daemon := ⟨.start, ⟨s, none⟩⟩

namespace Daemon

inductive Step (spare : Prop) : Daemon → Daemon → Prop
  /-- The goroutine acts, and gives up only between two attempts. -/
  | act {d : Daemon} {a : Action} {sys : Sys} : a.returns = false →
      (a = .gaveUp → d.client.round = none) → step d.sys a = some sys →
      Step spare d { d with sys := sys }
  | register {d : Daemon} (env : Env) (info : RegistrationInfo) :
      d.sys.phase = .registering → d.client.round = none →
      Step spare d { d with client := ⟨d.client.state, some (registering env info)⟩ }
  | reActivate {d : Daemon} : d.sys.phase = .reactivating → d.client.round = none →
      Step spare d { d with client := ⟨d.client.state, some reactivating⟩ }
  | reply {d : Daemon} {op : Op} {k : op.Ret → RegisterM Outcome} {answer : op.Ret}
      {s : Records} : d.client.round = some (.call op k) →
      Answers op d.client.state answer s →
      Step spare d { d with client := ⟨s, some (k answer)⟩ }
  | registered {d : Daemon} {env : Env} {info : RegistrationInfo} {nodeID twinID : UInt64}
      {sys : Sys} :
      d.client.round = some (.ret (.registration env info (.ok (nodeID, twinID)))) →
      step d.sys (.registered nodeID twinID) = some sys →
      Step spare d ⟨sys, ⟨d.client.state, none⟩⟩
  | failed {d : Daemon} {env : Env} {info : RegistrationInfo} {err : String} {sys : Sys} :
      d.client.round = some (.ret (.registration env info (.error err))) →
      step d.sys (.failed err) = some sys → Step spare d ⟨sys, ⟨d.client.state, none⟩⟩
  | reactivated {d : Daemon} {err : Option String} {sys : Sys} :
      d.client.round = some (.ret (.reActivate err)) →
      step d.sys (.reactivated err) = some sys → Step spare d ⟨sys, ⟨d.client.state, none⟩⟩
  | others {d : Daemon} {s : Records} : Others spare d.client.state s →
      Step spare d { d with client := { d.client with state := s } }
  | restart {d : Daemon} : Step spare d (start d.client.state)

abbrev Run (spare : Prop) : Daemon → Daemon → Prop := Relation.ReflTransGen (Step spare)

variable {spare : Prop} {d d' : Daemon}

/-- What a step of the process is to the registrar. -/
theorem Step.client (h : Step spare d d') :
    d'.client = d.client ∨ Client.Step (registrar spare) Round d.client d'.client := by
  cases h with
  | act _ _ _ => exact .inl rfl
  | register env info _ hround => exact .inr (.start (.registering env info) hround)
  | reActivate _ hround => exact .inr (.start .reactivating hround)
  | reply hround hanswer => exact .inr (.reply hround hanswer)
  | registered hround _ => exact .inr (.finish hround)
  | failed hround _ => exact .inr (.finish hround)
  | reactivated hround _ => exact .inr (.finish hround)
  | others hothers => exact .inr (.others hothers)
  | restart => exact .inr .crash

/-- A round answered from a handler whose answers the registrar gives. -/
theorem run_of_handler {h : Handler registerSig Records}
    (hanswer : ∀ op s, Answers op s (h op s).1 (h op s).2) (sys : Sys)
    (p : RegisterM Outcome) (s : Records) :
    Run spare ⟨sys, ⟨s, some p⟩⟩ ⟨sys, ⟨(p.run h s).2, some (.ret (p.run h s).1)⟩⟩ := by
  induction p generalizing s with
  | ret a => exact .refl
  | call op k ih => exact (ih _ _).head (.reply rfl (hanswer op s))

end Daemon

end Zos4.Registrar
