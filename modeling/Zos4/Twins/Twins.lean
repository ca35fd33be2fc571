import Zos4.Encoding.Base64
import Zos4.Gridtypes
import Zos4.Interaction.Crowd

/-!
# The keys of the twins

`auth.go`: the engine has the signatures of a deployment checked with the keys of the twins
that signed it, and gets these keys from the registrar, through a cache of `golang-lru`.
Requests are served side by side, so several look into one cache at a time. The admins of a
farm are the one twin the registrar names for it.

The cache is not part of the repository. `LruCache` is what is documented of it: it may
forget, and what it gives out under a key was put there under that key.
-/

namespace Zos4.Twins

open Zos4.Interaction Prog

abbrev Key := List UInt8

class LruCache where
  Cache : Type
  new : Cache
  get : Cache → UInt32 → Option Key × Cache
  add : Cache → UInt32 → Key → Cache
  /-- The cache has the entry. -/
  Has : Cache → UInt32 → Key → Prop
  new_has : ∀ {id key}, ¬ Has new id key
  get_found : ∀ {c id key}, (get c id).1 = some key → Has c id key
  get_has : ∀ {c id id' key}, Has (get c id).2 id' key → Has c id' key
  add_has : ∀ {c id key id' key'}, Has (add c id key) id' key' →
    (id' = id ∧ key' = key) ∨ Has c id' key'

variable [LruCache]

/-- `client.Account` and `client.Farm`, as far as they are read. -/
structure Account where
  publicKey : String
  deriving DecidableEq

structure Farm where
  twinID : UInt64
  deriving DecidableEq

/-! ## The calls -/

inductive TwinOp where
  | memGet (id : UInt32)
  | memAdd (id : UInt32) (key : Key)
  | getTwin (id : UInt64)
  | getFarm (id : UInt64)

abbrev TwinOp.Ret : TwinOp → Type
  | .memGet _ => Option Key
  | .memAdd _ _ => Unit
  | .getTwin _ => Except GoError Account
  | .getFarm _ => Except GoError Farm

abbrev twinSig : Sig := ⟨TwinOp, TwinOp.Ret⟩

abbrev TwinM := Prog twinSig

abbrev ask (op : TwinOp) : TwinM op.Ret := @perform twinSig op

/-! ## The code -/

/-- The error of `DecodeString`. Where in the text it is, is left out. -/
def corruptInput : GoError := .text "illegal base64 data"

def decodeString (s : String) : Except GoError Key :=
  match Base64.decode s with
  | some key => .ok key
  | none => .error corruptInput

namespace RegistrarTwins

def GetKey (id : UInt32) : TwinM (Except GoError Key) := do
  match ← ask (.memGet id) with
  | some value => pure (.ok value)
  | none =>
      match ← ask (.getTwin id.toUInt64) with
      | .error err =>
          pure (.error (err.wrap ("could not get user with id '" ++ toString id ++ "'")))
      | .ok user =>
          match decodeString user.publicKey with
          | .error err => pure (.error (err.wrap
              ("could decode public key for user with id '" ++ toString id ++ "'")))
          | .ok key => do
              ask (.memAdd id key)
              pure (.ok key)

end RegistrarTwins

structure RegistrarAdmins where
  twin : UInt32
  pk : Key

def NewRegistrarAdmins (farmID : UInt64) : TwinM (Except GoError RegistrarAdmins) := do
  match ← ask (.getFarm farmID) with
  | .error err => pure (.error (err.wrap "failed to get farm"))
  | .ok farm =>
      match ← ask (.getTwin farm.twinID) with
      | .error err => pure (.error err)
      | .ok twin =>
          match decodeString twin.publicKey with
          | .error err => pure (.error (err.wrap
              ("could decode public key for twin with farm id '" ++ toString farmID ++ "'")))
          | .ok key => pure (.ok ⟨farm.twinID.toUInt32, key⟩)

def RegistrarAdmins.GetKey (admins : RegistrarAdmins) (id : UInt32) : Except GoError Key :=
  if id ≠ admins.twin then
    .error (.text ("twin with id '" ++ toString id ++ "' is not an admin"))
  else .ok admins.pk

/-- What a caller is after: the key of a twin, or that of a twin as an admin of the farm. -/
inductive Lookup where
  | twin (id : UInt32)
  | admin (farmID : UInt64) (id : UInt32)

def Lookup.job : Lookup → TwinM (Except GoError Key)
  | .twin id => RegistrarTwins.GetKey id
  | .admin farmID id => do
      match ← NewRegistrarAdmins farmID with
      | .error err => pure (.error err)
      | .ok admins => pure (admins.GetKey id)

/-! ## What the registrar said -/

structure Known where
  mem : LruCache.Cache
  /-- The keys it gave for a twin, and the twins it named for a farm. -/
  keys : List (UInt64 × String)
  farms : List (UInt64 × UInt64)

/-- The registrar may answer as it likes, and differently every time. -/
inductive Answered : (op : TwinOp) → Known → op.Ret → Known → Prop
  | memGet {s : Known} (id : UInt32) : Answered (.memGet id) s (LruCache.get s.mem id).1
      { s with mem := (LruCache.get s.mem id).2 }
  | memAdd {s : Known} (id : UInt32) (key : Key) : Answered (.memAdd id key) s ()
      { s with mem := LruCache.add s.mem id key }
  | account {s : Known} {id : UInt64} (user : Account) : Answered (.getTwin id) s (.ok user)
      { s with keys := (id, user.publicKey) :: s.keys }
  | noAccount {s : Known} {id : UInt64} (err : GoError) :
      Answered (.getTwin id) s (.error err) s
  | farm {s : Known} {id : UInt64} (farm : Farm) : Answered (.getFarm id) s (.ok farm)
      { s with farms := (id, farm.twinID) :: s.farms }
  | noFarm {s : Known} {id : UInt64} (err : GoError) :
      Answered (.getFarm id) s (.error err) s

end Zos4.Twins
