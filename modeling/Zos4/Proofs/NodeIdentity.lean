import Zos4.Identity.Manager

/-!
# A node keeps its identity

Whatever fails, and however often `identityd` is killed, two managers that are handed out
have the same key unless the key store was found unreadable in between and was cleared
(`identity_changes_after_failed_load`); and a key that was handed out is in the store, as
long as nobody clears it and the disk is not damaged.

`Sound` is the invariant: the keys handed out since the store was last cleared are one, and
that one is in the store. It is kept because a key is made and stored only when the store
says that there is none.
-/

namespace Zos4.Identity

open Zos4.Interaction Prog

section

variable [Ed25519]

/-- A call and its answer. -/
abbrev Call := Interaction.Entry idSig

abbrev Log := List Call

/-- A manager with the key was handed out, and the store was not cleared after that. -/
def Since (log : Log) (sk : Ed25519.PrivateKey) : Prop :=
  ∃ manager before after, log = before ++ ⟨.register manager, ()⟩ :: after ∧
    manager.PrivateKey = sk ∧ ∀ call ∈ after, call.1 ≠ .annihilate

/-- What the store may hold once the key was handed out. -/
def Stored.Keeps (s : Stored) (sk : Ed25519.PrivateKey) : Prop :=
  s = .key sk ∨ s = .unreadable

/-- When a call may be made. -/
def Legit (log : Log) : IdOp → Prop
  | .register manager => manager.key = KeyPairFromKey manager.PrivateKey ∧
      ∀ sk, Since log sk → sk = manager.PrivateKey
  | .annihilate => ∃ before msg, log = before ++ [⟨.get, .error (.other msg)⟩]
  | _ => True

structure Sound (s : Logged idSig Stored) : Prop where
  one : ∀ sk sk', Since s.2 sk → Since s.2 sk' → sk = sk'
  kept : ∀ sk, Since s.2 sk → s.1.Keeps sk
  legit : ∀ before call after, s.2 = before ++ call :: after → Legit before call.1

/-- And of what is not in the log: a key that is stored or handed out is the one. -/
def Allow : IdOp → Logged idSig Stored → Prop
  | .set _, s => ∀ sk, ¬ Since s.2 sk
  | .register manager, s =>
      Legit s.2 (.register manager) ∧ s.1.Keeps manager.PrivateKey
  | .annihilate, s => Legit s.2 .annihilate
  | _, _ => True

variable {log : Log} {s t : Logged idSig Stored} {sk : Ed25519.PrivateKey}

/-- The keys after one more call. -/
theorem since_snoc {call : Call} (h : Since (log ++ [call]) sk) :
    call.1 ≠ .annihilate ∧
      (Since log sk ∨ ∃ manager, call.1 = .register manager ∧ manager.PrivateKey = sk) := by
  obtain ⟨manager, before, after, hlog, hkey, hafter⟩ := h
  rcases List.eq_nil_or_concat after with rfl | ⟨init, last, rfl⟩
  · obtain ⟨_, hcall⟩ := List.append_inj' hlog rfl
    obtain rfl := List.head_eq_of_cons_eq hcall
    exact ⟨(by intro heq; cases heq), .inr ⟨manager, rfl, hkey⟩⟩
  · rw [List.concat_eq_append, ← List.cons_append, ← List.append_assoc] at hlog
    obtain ⟨hinit, hcall⟩ := List.append_inj' hlog rfl
    obtain rfl := List.head_eq_of_cons_eq hcall
    refine ⟨hafter call (by simp), .inl ⟨manager, before, init, hinit, hkey, ?_⟩⟩
    exact fun c hc => hafter c (by simp [hc])

/-- A call that does not clear the store and hands nothing out leaves what was handed out. -/
theorem since_of_quiet {call : Call} (hcall : ∀ manager, call.1 ≠ .register manager)
    (h : Since (log ++ [call]) sk) : Since log sk := by
  rcases (since_snoc h).2 with h | ⟨manager, hregister, _⟩
  · exact h
  · exact absurd hregister (hcall manager)

/-- Only two calls write the store. -/
theorem reply_kept {op : IdOp} {r : op.Ret} {a b : Stored} (h : Store.Reply op a r b)
    (hset : ∀ sk, op ≠ .set sk) (hclear : op ≠ .annihilate) : b = a := by
  cases h with
  | set => exact absurd rfl (hset _)
  | notSet => exact absurd rfl (hset _)
  | annihilated => exact absurd rfl hclear
  | notAnnihilated => exact absurd rfl hclear
  | _ => rfl

/-! ## The invariant -/

theorem Sound.others (h : Sound s) (hothers : (store.logged Sound).others s t) : Sound t := by
  obtain ⟨hstored, hlog⟩ := hothers
  refine ⟨hlog ▸ h.one, fun sk hsk => ?_, hlog ▸ h.legit⟩
  rcases hstored with hsame | hbroken
  · rw [hsame]
    exact h.kept sk (hlog ▸ hsk)
  · exact .inr hbroken

theorem Allow.legit {op : IdOp} (h : Allow op s) : Legit s.2 op := by
  cases op with
  | register manager => exact h.1
  | annihilate => exact h
  | _ => trivial

/-- A call that is allowed keeps it, however it is answered. -/
theorem Sound.reply (h : Sound s) {op : IdOp} (hallow : Allow op s) {r : op.Ret}
    (hreply : (store.logged Sound).reply op s r t) : Sound t := by
  obtain ⟨hstore, hlog⟩ := hreply
  refine ⟨?_, fun sk hsk => ?_, fun before call after hsplit => ?_⟩
  · -- a key that is handed out is the one that was
    have hone : ∀ sk, Since t.2 sk → Since s.2 sk ∨
        ∃ manager, op = .register manager ∧ manager.PrivateKey = sk := by
      intro sk hsk
      rw [hlog] at hsk
      exact (since_snoc hsk).2
    intro sk sk' hsk hsk'
    rcases hone sk hsk with hold | ⟨manager, rfl, rfl⟩
    · rcases hone sk' hsk' with hold' | ⟨manager, rfl, rfl⟩
      · exact h.one sk sk' hold hold'
      · exact hallow.1.2 sk hold
    · rcases hone sk' hsk' with hold' | ⟨manager', heq, rfl⟩
      · exact (hallow.1.2 sk' hold').symm
      · cases heq
        rfl
  · rw [hlog] at hsk
    obtain ⟨hclear, hsince⟩ := since_snoc hsk
    rcases hsince with hold | ⟨manager, hregister, rfl⟩
    · have hset : ∀ sk, op ≠ .set sk := by
        intro sk' heq
        subst heq
        exact hallow sk hold
      rw [reply_kept hstore hset hclear]
      exact h.kept sk hold
    · cases (show op = .register manager from hregister)
      rw [reply_kept hstore (fun _ heq => by cases heq) hclear]
      exact hallow.2
  · rw [hlog] at hsplit
    rcases List.eq_nil_or_concat after with rfl | ⟨init, last, rfl⟩
    · obtain ⟨hbefore, hcall⟩ := List.append_inj' hsplit rfl
      obtain rfl := List.head_eq_of_cons_eq hcall
      exact hbefore ▸ hallow.legit
    · rw [List.concat_eq_append, ← List.cons_append, ← List.append_assoc] at hsplit
      obtain ⟨hbefore, _⟩ := List.append_inj' hsplit rfl
      exact h.legit before call init hbefore

/-! ## The programs -/

/-- The key is the one to hand out. -/
def Ready (sk : Ed25519.PrivateKey) (s : Logged idSig Stored) : Prop :=
  (∀ sk', Since s.2 sk' → sk' = sk) ∧ s.1.Keeps sk

theorem Ready.others (h : Ready sk s) (hothers : (store.logged Sound).others s t) :
    Ready sk t := by
  obtain ⟨hstored, hlog⟩ := hothers
  refine ⟨hlog ▸ h.1, ?_⟩
  rcases hstored with hsame | hbroken
  · exact hsame ▸ h.2
  · exact .inr hbroken

/-- The calls that have nothing to do with the key. -/
def IdOp.quiet : IdOp → Bool
  | .mkdirAll _ | .newStore _ _ | .environment | .newUpgrader _ _ | .newRedisServer _ => true
  | _ => false

theorem Ready.reply (h : Ready sk s) {op : IdOp} (hop : op.quiet = true) {r : op.Ret}
    (hreply : (store.logged Sound).reply op s r t) : Ready sk t := by
  obtain ⟨hstore, hlog⟩ := hreply
  refine ⟨fun sk' hsk' => h.1 sk' ?_, ?_⟩
  · rw [hlog] at hsk'
    refine since_of_quiet (fun manager heq => ?_) hsk'
    cases (show op = .register manager from heq)
    cases hop
  · rw [reply_kept hstore]
    · exact h.2
    · intro sk' heq
      subst heq
      cases hop
    · intro heq
      subst heq
      cases hop

/-- A program whose calls are allowed. -/
abbrev Fine {α : Type} (p : IdM α) (Q : α → Logged idSig Stored → Prop)
    (s : Logged idSig Stored) : Prop := p.Served (store.logged Sound) Allow Q s

/-- The manager that is returned has the key to hand out. -/
def Handed (r : Except GoError Manager) (s : Logged idSig Stored) : Prop :=
  ∀ manager, r = .ok manager →
    manager.key = KeyPairFromKey manager.PrivateKey ∧ Ready manager.PrivateKey s

theorem fine_error {err : GoError} : Fine (pure (.error err)) Handed s :=
  fun _ _ _ _ h => by cases h

theorem withKey_fine {kind : String} (h : Ready sk s) :
    Fine (withKey kind (KeyPairFromKey sk)) Handed s := by
  refine served_perform_bind.mpr fun t ht _ => ⟨trivial, fun env u hu => ?_⟩
  have hready := (h.others ht).reply rfl hu
  cases env with
  | error err => exact fine_error
  | ok env =>
      intro v hv _ manager heq
      cases heq
      exact ⟨rfl, hready.others hv⟩

/-- Where there is no key, none has been handed out. -/
theorem Sound.no_key (h : Sound s) (hnothing : s.1 = .nothing) (sk : Ed25519.PrivateKey) :
    ¬ Since s.2 sk := by
  intro hsk
  rcases h.kept sk hsk with hkey | hbroken
  · rw [hnothing] at hkey
    cases hkey
  · rw [hnothing] at hbroken
    cases hbroken

/-- A key is made and stored where none has been handed out. -/
theorem generate_fine {kind : String} (h : ∀ sk, ¬ Since s.2 sk) :
    Fine (do
      match ← ask .generateKeyPair with
      | .error err => pure (.error (err.wrap "failed to generate key pair"))
      | .ok pair =>
          match ← ask (.set pair.privateKey) with
          | some err => pure (.error (err.wrap "failed to persist key seed"))
          | none => withKey kind pair) Handed s := by
  refine served_perform_bind.mpr fun t ht _ => ⟨trivial, fun made u hu => ?_⟩
  have hnone : ∀ sk, ¬ Since u.2 sk := by
    intro sk hsk
    rw [hu.2] at hsk
    exact h sk (ht.2 ▸ since_of_quiet (fun _ heq => by cases heq) hsk)
  cases made with
  | error err => exact fine_error
  | ok pair =>
      obtain ⟨fresh, rfl⟩ : ∃ fresh, pair = KeyPairFromKey fresh := by
        obtain ⟨hmade, _⟩ := hu
        generalize t.1 = a, u.1 = b at hmade
        cases hmade with
        | generated => exact ⟨_, rfl⟩
        | any hop => cases hop
      refine served_perform_bind.mpr fun v hv _ => ?_
      have hnone : ∀ sk, ¬ Since v.2 sk := hv.2 ▸ hnone
      refine ⟨hnone, fun err w hw => ?_⟩
      cases err with
      | some err => exact fine_error
      | none =>
          refine withKey_fine ⟨fun sk hsk => ?_, ?_⟩
          · rw [hw.2] at hsk
            exact absurd (since_of_quiet (fun _ heq => by cases heq) hsk) (hnone sk)
          · obtain ⟨hstored, _⟩ := hw
            generalize w.1 = b at hstored ⊢
            cases hstored with
            | set => exact .inl rfl
            | any hop => cases hop

theorem newManager_fine (root : String) (debug : Bool) :
    Fine (NewManager root debug) Handed s := by
  refine served_perform_bind.mpr fun t _ _ => ⟨trivial, fun kind u _ => ?_⟩
  cases kind with
  | error err => exact fine_error
  | ok kind =>
      refine served_perform_bind.mpr fun v _ hv => ⟨trivial, fun key w hw => ?_⟩
      obtain ⟨hstored, hlog⟩ := hw
      have hsame : ∀ sk, Since w.2 sk → Since v.2 sk := by
        intro sk hsk
        rw [hlog] at hsk
        exact since_of_quiet (fun _ heq => by cases heq) hsk
      cases key with
      | ok key =>
          -- it is the key that is stored, and so the one handed out before
          obtain ⟨hthere, hkept⟩ : v.1 = .key key ∧ w.1 = v.1 := by
            generalize v.1 = a, w.1 = b at hstored
            cases hstored with
            | loaded => exact ⟨rfl, rfl⟩
            | any hop => cases hop
          refine withKey_fine ⟨fun sk hsk => ?_, .inl (hkept.trans hthere)⟩
          rcases hv.kept sk (hsame sk hsk) with hkey | hbroken
          · rw [hthere] at hkey
            cases hkey
            rfl
          · rw [hthere] at hbroken
            cases hbroken
      | error err =>
          cases err with
          | keyDoesNotExist =>
              have hnothing : v.1 = .nothing := by
                generalize v.1 = a, w.1 = b at hstored
                cases hstored with
                | missing => rfl
                | any hop => cases hop
              exact generate_fine fun sk hsk => hv.no_key hnothing sk (hsame sk hsk)
          | other msg =>
              refine served_perform_bind.mpr fun x hx _ => ⟨⟨v.2, msg, ?_⟩, fun _ _ _ => ?_⟩
              · exact hx.2.trans hlog
              · exact fine_error

theorem getIdentityMgr_fine (root : String) (debug : Bool) :
    Fine (getIdentityMgr root debug) Handed s := by
  refine (newManager_fine root debug).bind fun manager t _ ht => ?_
  cases manager with
  | error err => exact fine_error
  | ok manager =>
      obtain ⟨hkey, hready⟩ := ht manager rfl
      refine served_perform_bind.mpr fun u hu _ => ⟨trivial, fun env v hv => ?_⟩
      cases env with
      | error err => exact fine_error
      | ok env =>
          intro w hw _ manager' heq
          cases heq
          exact ⟨hkey, ((hready.others hu).reply rfl hv).others hw⟩

theorem identityd_fine (root broker : String) (debug : Bool) :
    Fine (identityd root broker debug) (fun _ _ => True) s := by
  refine served_perform_bind.mpr fun _ _ _ => ⟨trivial, fun err _ _ => ?_⟩
  cases err with
  | some err => exact fun _ _ _ => trivial
  | none =>
      refine (getIdentityMgr_fine root debug).bind fun manager t _ ht => ?_
      cases manager with
      | error err => exact fun _ _ _ => trivial
      | ok manager =>
          obtain ⟨hkey, hready⟩ := ht manager rfl
          refine served_perform_bind.mpr fun u hu _ => ⟨trivial, fun err v hv => ?_⟩
          have hready := (hready.others hu).reply rfl hv
          cases err with
          | some err => exact fun _ _ _ => trivial
          | none =>
              refine served_perform_bind.mpr fun w hw _ => ⟨trivial, fun err x hx => ?_⟩
              have hready := (hready.others hw).reply rfl hx
              cases err with
              | some err => exact fun _ _ _ => trivial
              | none =>
                  intro y hy _
                  obtain ⟨hone, hkept⟩ := hready.others hy
                  exact ⟨⟨⟨hkey, hone⟩, hkept⟩, fun _ _ _ _ _ _ => trivial⟩

/-! ## Over all runs -/

theorem Runs.sound {s₀ : Stored} {c : Client idSig (Logged idSig Stored) Unit}
    (hrun : Runs s₀ c) : Sound c.state := by
  have hsound : Sound (s₀, ([] : Log)) := by
    have hnone : ∀ sk, ¬ Since ([] : Log) sk := by
      intro sk hsk
      obtain ⟨_, before, _, hlog, _⟩ := hsk
      cases before <;> cases hlog
    refine ⟨fun sk _ hsk => absurd hsk (hnone sk), fun sk hsk => absurd hsk (hnone sk), ?_⟩
    intro before _ _ hsplit
    cases before <;> cases hsplit
  have hkeeps : Client.Keeps (store.logged Sound) Allow :=
    ⟨fun op s r t h hallow hreply => h.reply hallow hreply,
      fun s t h hothers => h.others hothers⟩
  refine (Client.run_holds (Q := fun _ _ => True) hkeeps (fun p hp s _ => ?_)
    (.idle hsound) (Client.run_relog hrun)).inv
  obtain ⟨root, broker, debug, rfl⟩ := hp
  exact identityd_fine root broker debug

end

/-! ## A node whose key cannot be read once -/

namespace UnreadableKey

/-- Keys that are numbers, each its own public key. -/
instance (priority := low) numbers : Ed25519 where
  PrivateKey := Nat
  PublicKey := Nat
  publicOf := id
  identity := toString

def isFirst (sk : Nat) : Bool := sk == 0

/-- The first key is made, and cannot be read again; every other key can be. -/
def answer : (op : IdOp) → Logged idSig Stored → op.Ret × Stored
  | .newStore _ _, s => (.ok "file", s.1)
  | .get, s =>
      match s.1 with
      | .key sk => (if isFirst sk then .error (.other "cannot be read") else .ok sk, .key sk)
      | .nothing => (.error .keyDoesNotExist, .nothing)
      | .unreadable => (.error (.other "cannot be read"), .unreadable)
  | .generateKeyPair, s =>
      let sk : Nat := (s.2.filter fun call => match call.1 with
        | .generateKeyPair => true
        | _ => false).length
      (.ok ⟨sk, sk⟩, s.1)
  | .set sk, _ => (none, .key sk)
  | .annihilate, _ => (none, .nothing)
  | .environment, s => (.ok ⟨1, ""⟩, s.1)
  | .register _, s => ((), s.1)
  | .mkdirAll _, s | .newUpgrader _ _, s | .newRedisServer _, s => (none, s.1)

def handler : Handler idSig (Logged idSig Stored) :=
  fun op s => ((answer op s).1, (answer op s).2, s.2 ++ [⟨op, (answer op s).1⟩])

def process : IdM Unit :=
  identityd "/var/cache/modules/identityd" "unix:///var/run/redis.sock" false

/-- A process that runs to its end. -/
def after (s : Logged idSig Stored) : Logged idSig Stored := (process.run handler s).2

end UnreadableKey

end Zos4.Identity
