import Zos4.Gridtypes
import Zos4.Interaction.Implement

/-!
# The identity of a node

`identityd.go`: `NewManager` loads the private key of the node from its key store, or makes
a key and stores it if there is none yet; a key that cannot be loaded is deleted, and the
next process makes another. `identityd` is as much of `main` as comes before the manager is
registered on the bus, which is where it is handed to the rest of the node.

The key store and `ed25519` are not part of the repository. `Store.Reply` is what is known
of the store: it answers from what it keeps, it may fail at any time, and a write that
fails may have been made, or have left something that cannot be read. The commands of
`identityd` that print and exit do not come near the key.
-/

namespace Zos4.Identity

open Zos4.Interaction Prog

class Ed25519 where
  PrivateKey : Type
  PublicKey : Type
  publicOf : PrivateKey → PublicKey
  /-- `KeyPair.Identity`. -/
  identity : PublicKey → String

variable [Ed25519]

structure KeyPair where
  privateKey : Ed25519.PrivateKey
  publicKey : Ed25519.PublicKey

def KeyPairFromKey (sk : Ed25519.PrivateKey) : KeyPair := ⟨sk, Ed25519.publicOf sk⟩

structure Environment where
  farmID : UInt32
  farmSecret : String

/-- What `Get` of the store fails with: `ErrKeyDoesNotExist`, or another error. -/
inductive LoadError where
  | keyDoesNotExist
  | other (msg : String)
  deriving DecidableEq

structure Manager where
  kind : String
  key : KeyPair
  env : Environment

namespace Manager

variable (d : Manager)

def NodeID : String := Ed25519.identity d.key.publicKey

def FarmID : UInt32 := d.env.farmID

def PrivateKey : Ed25519.PrivateKey := d.key.privateKey

end Manager

/-! ## The calls -/

inductive IdOp where
  | mkdirAll (root : String)
  /-- `identity.NewStore`, which is answered with the kind of the store. -/
  | newStore (root : String) (tpm : Bool)
  | get
  | generateKeyPair
  | set (key : Ed25519.PrivateKey)
  | annihilate
  | environment
  | newUpgrader (root : String) (debug : Bool)
  | newRedisServer (broker : String)
  /-- The manager is registered on the bus. -/
  | register (manager : Manager)

abbrev IdOp.Ret : IdOp → Type
  | .newStore _ _ => Except GoError String
  | .get => Except LoadError Ed25519.PrivateKey
  | .generateKeyPair => Except GoError KeyPair
  | .environment => Except GoError Environment
  | .register _ => Unit
  | _ => Option GoError

abbrev idSig : Sig := ⟨IdOp, IdOp.Ret⟩

abbrev IdM := Prog idSig

abbrev ask (op : IdOp) : IdM op.Ret := @perform idSig op

/-! ## The code -/

/-- `NewManager` from the loaded or generated key on. -/
def withKey (kind : String) (pair : KeyPair) : IdM (Except GoError Manager) := do
  match ← ask .environment with
  | .error err => pure (.error err)
  | .ok env => pure (.ok ⟨kind, pair, env⟩)

def NewManager (root : String) (debug : Bool) : IdM (Except GoError Manager) := do
  match ← ask (.newStore root (!debug)) with
  | .error err => pure (.error (err.wrap "failed to create key store"))
  | .ok kind =>
      match ← ask .get with
      | .error .keyDoesNotExist =>
          match ← ask .generateKeyPair with
          | .error err => pure (.error (err.wrap "failed to generate key pair"))
          | .ok pair =>
              match ← ask (.set pair.privateKey) with
              | some err => pure (.error (err.wrap "failed to persist key seed"))
              | none => withKey kind pair
      | .error (.other msg) =>
          -- a failure to clean up is logged, and the load fails all the same
          let _ ← ask .annihilate
          pure (.error (GoError.wrap (.text msg) "failed to load seed"))
      | .ok key => withKey kind (KeyPairFromKey key)

def getIdentityMgr (root : String) (debug : Bool) : IdM (Except GoError Manager) := do
  match ← NewManager root debug with
  | .error err => pure (.error err)
  | .ok manager =>
      match ← ask .environment with
      | .error err => pure (.error (err.wrap "failed to parse node environment"))
      | .ok _ => pure (.ok manager)

/-- `main`, up to where the manager is registered. Every error ends the process. -/
def identityd (root broker : String) (debug : Bool) : IdM Unit := do
  match ← ask (.mkdirAll root) with
  | some _ => pure ()
  | none =>
      match ← getIdentityMgr root debug with
      | .error _ => pure ()
      | .ok idMgr =>
          match ← ask (.newUpgrader root debug) with
          | some _ => pure ()
          | none =>
              match ← ask (.newRedisServer broker) with
              | some _ => pure ()
              | none => ask (.register idMgr)

/-! ## What the store keeps -/

inductive Stored where
  | nothing
  | key (sk : Ed25519.PrivateKey)
  | unreadable

/-- The calls that have to do with the store. -/
def IdOp.onStore : IdOp → Bool
  | .get | .generateKeyPair | .set _ | .annihilate => true
  | _ => false

inductive Store.Reply : (op : IdOp) → Stored → op.Ret → Stored → Prop
  | loaded {sk : Ed25519.PrivateKey} : Reply .get (.key sk) (.ok sk) (.key sk)
  | missing : Reply .get .nothing (.error .keyDoesNotExist) .nothing
  | unloaded {s : Stored} {msg : String} : Reply .get s (.error (.other msg)) s
  | generated {s : Stored} {sk : Ed25519.PrivateKey} :
      Reply .generateKeyPair s (.ok ⟨sk, Ed25519.publicOf sk⟩) s
  | notGenerated {s : Stored} {err : GoError} : Reply .generateKeyPair s (.error err) s
  | set {s : Stored} {sk : Ed25519.PrivateKey} : Reply (.set sk) s none (.key sk)
  | notSet {s s' : Stored} {sk : Ed25519.PrivateKey} {err : GoError} :
      s' = s ∨ s' = .key sk ∨ s' = .unreadable → Reply (.set sk) s (some err) s'
  | annihilated {s : Stored} : Reply .annihilate s none .nothing
  | notAnnihilated {s s' : Stored} {err : GoError} :
      s' = s ∨ s' = .nothing ∨ s' = .unreadable → Reply .annihilate s (some err) s'
  | any {s : Stored} {op : IdOp} {r : op.Ret} : op.onStore = false → Reply op s r s

/-- Nobody else writes the key. The disk may be damaged. -/
def store : Service idSig Stored where
  reply := Store.Reply
  others a b := b = a ∨ b = .unreadable
  inv _ := True
  refl _ := .inl rfl
  trans h h' := by
    rcases h' with rfl | rfl
    · exact h
    · exact .inr rfl

/-- The processes of `identityd`, each killed or ended before the next is started. -/
def Started (p : IdM Unit) : Prop :=
  ∃ root broker debug, p = identityd root broker debug

/-- The runs from the first process on, with the log of all calls. -/
abbrev Runs (s : Stored) (c : Client idSig (Logged idSig Stored) Unit) : Prop :=
  Client.Run (store.logged fun _ => True) Started ⟨(s, []), none⟩ c

end Zos4.Identity
