import Zos4.Interaction.Implement
import Zos4.Upgrade.Upgrader

/-!
# The upgrader as a process

`Run` of `upgrade.go`, and `install` and `ensureRestarted` below it. `Upgrader.lean` has
`update` with `install` as one call; here the call is the program it stands for, with the
calls it makes on the hub, the caches, the file system and zinit. What `copyRecursive` and
`servicesFromStore` do to the files is in `Install.lean`, and here they are calls.

`Run` ends with an error, or after an update, or when its context is done. The loop has a
number of turns, after which it is: the context may be done in any of its waits. A wait
takes no time, and logging is left out.
-/

namespace Zos4.Upgrade

open Zos4.Interaction Prog

inductive BootMethod where
  | bootstrap
  | other
  deriving DecidableEq, Repr

/-- Where a flist is downloaded to: below the root of the upgrader, or below `/tmp`. -/
inductive Cache where
  | disk
  | inMemory
  deriving DecidableEq, Repr

/-- An error, and whether it is of those `install` tries again in memory for: `EROFS`,
`EPERM` and `EIO`. -/
structure FlistError where
  err : GoError
  inMemory : Bool
  deriving DecidableEq, Repr

def FlistError.wrap (err : FlistError) (msg : String) : FlistError :=
  { err with err := err.err.wrap msg }

/-- The calls. A store is named by the flist it is opened from. -/
inductive RunOp where
  | ask (op : Op)
  | detectBootMethod
  | isFirstBoot
  | markBooted
  | hubDownload (cache : Cache) (repo name : String)
  | newStore (cache : Cache) (repo name : String)
  | newInMemoryCache
  | clean
  | copyRecursive (cache : Cache) (repo name : String)
  | servicesFromStore (cache : Cache) (repo name : String)
  | closeStore
  | stopMultiple (service : List String)
  | forget (name : String)
  | monitor (name : String)
  | start (name : String)

abbrev RunOp.Ret : RunOp → Type
  | .ask op => op.Ret
  | .detectBootMethod => BootMethod
  | .isFirstBoot => Bool
  | .hubDownload _ _ _ | .newStore _ _ _ => Except FlistError Unit
  | .servicesFromStore _ _ _ => Except GoError (List String)
  | .clean | .closeStore => Unit
  | .markBooted | .newInMemoryCache | .copyRecursive _ _ _ => Option GoError
  | .stopMultiple _ | .forget _ | .monitor _ | .start _ => Option GoError

abbrev runSig : Sig := ⟨RunOp, RunOp.Ret⟩

abbrev RunM := Prog runSig

abbrev call (op : RunOp) : RunM op.Ret := @perform runSig op

/-! ## `install` -/

/-- `protected`: services that are never restarted. -/
def protectedServices : List String := ["identityd", "redis"]

def unprotected (service : List String) : List String :=
  service.filter fun e => !protectedServices.contains e

/-- The loop of `ensureRestarted`. Whatever fails is logged. -/
def restartAll : List String → RunM Unit
  | [] => pure ()
  | name :: rest => do
      let _ ← call (.forget name)
      let _ ← call (.monitor name)
      let _ ← call (.start name)
      restartAll rest

def ensureRestarted (service : List String) : RunM (Option GoError) :=
  let service := unprotected service
  if service = [] then pure none
  else do
    let _ ← call (.stopMultiple service)
    restartAll service
    pure none

def getFlist (cache : Cache) (repo name : String) : RunM (Except FlistError Unit) := do
  match ← call (.hubDownload cache repo name) with
  | .error err => pure (.error (err.wrap "failed to download flist"))
  | .ok _ =>
      match ← call (.newStore cache repo name) with
      | .error err => pure (.error (err.wrap "failed to load flist db"))
      | .ok _ => pure (.ok ())

/-- What `install` does with the store, up to the deferred calls. -/
def installStore (cache : Cache) (repo name : String) : RunM (Option GoError) := do
  match ← call (.copyRecursive cache repo name) with
  | some err => pure (some (err.wrap ("failed to install flist: " ++ repo ++ "/" ++ name)))
  | none =>
      match ← call (.servicesFromStore cache repo name) with
      | .error err => pure (some (err.wrap "failed to list services from flist"))
      | .ok services => ensureRestarted services

def notProcessed (repo name : String) (err : FlistError) : GoError :=
  err.err.wrap ("failed to process flist: " ++ repo ++ "/" ++ name)

/-- `install` with the cache in memory. -/
def installInMemory (repo name : String) : RunM (Option GoError) := do
  match ← call .newInMemoryCache with
  | some err => pure (some (err.wrap "failed to create in memory cache"))
  | none =>
      match ← getFlist .inMemory repo name with
      | .error err => do
          let _ ← call .clean
          pure (some (notProcessed repo name err))
      | .ok _ => do
          let err ← installStore .inMemory repo name
          let _ ← call .closeStore
          let _ ← call .clean
          pure err

def install (repo name : String) : RunM (Option GoError) := do
  match ← getFlist .disk repo name with
  | .error err =>
      if err.inMemory then installInMemory repo name
      else pure (some (notProcessed repo name err))
  | .ok _ => do
      let err ← installStore .disk repo name
      let _ ← call .closeStore
      pure err

/-- The calls of an update, with `install` as what it is. -/
def calls : (op : Op) → RunM op.Ret
  | .install _ repo name => install repo name
  | op => call (.ask op)

/-! ## `Run` -/

variable [HubClient]

/-- The binaries, on a node that was not booted from the hub. -/
def installOnce (u : Upgrader) : RunM (Option GoError) := do
  match ← remote.implement calls with
  | .error err => pure (some (err.wrap "failed to get remote tag"))
  | .ok remote =>
      match ← (updateTo u remote none).implement calls with
      | some err => pure (some (err.wrap "failed to run update"))
      | none => pure none

def mark : RunM (Option UpdateError) := do
  match ← call .markBooted with
  | some err => pure (some (.failed (err.wrap "failed to mark system as booted")))
  | none => pure none

def runOther (u : Upgrader) : RunM (Option UpdateError) := do
  match ← call .isFirstBoot with
  | false => mark
  | true =>
      match ← installOnce u with
      | some err => pure (some (.failed err))
      | none => mark

/-- An update that fails is tried again, and one that leaves the node as it is too. -/
def runBootstrap (u : Upgrader) : Nat → RunM (Option UpdateError)
  | 0 => pure none
  | turns + 1 => do
      match ← (update u).implement calls with
      | some .errRestartNeeded => pure (some .errRestartNeeded)
      | _ => runBootstrap u turns

def Run (u : Upgrader) (turns : Nat) : RunM (Option UpdateError) := do
  match ← call .detectBootMethod with
  | .other => runOther u
  | .bootstrap => runBootstrap u turns

/-! ## What the calls are answered -/

/-- What is kept of a node for the upgrader: the boot record, if it can be read, and the
mark of the first boot. -/
structure Machine where
  tag : Option TagLink
  booted : Bool
  deriving DecidableEq, Repr

/-- A node and the hub, when the node has booted. The boot method stays what it is, and what
is listed under a tag may change. -/
structure Site where
  method : BootMethod
  listing : String → String → List Symlink

/-- The calls whose answer is free: nothing that is kept goes with it. -/
def RunOp.free : RunOp → Bool
  | .ask .bootCurrent | .ask (.bootSet _) => false
  | .detectBootMethod | .isFirstBoot | .markBooted => false
  | _ => true

/-- A call that fails may have failed at any point: the boot record is the one before, the
new one or none that can be read, and the mark may be there. Of the other calls any answer
is possible. -/
inductive Site.Reply (site : Site) : (op : RunOp) → Machine → op.Ret → Machine → Prop
  | current {m : Machine} {tag : TagLink} : m.tag = some tag →
      Reply site (.ask .bootCurrent) m (tag, none) m
  | unread {m : Machine} {err : GoError} :
      Reply site (.ask .bootCurrent) m (⟨"", ""⟩, some err) m
  | set {m : Machine} {link : TagLink} :
      Reply site (.ask (.bootSet link)) m none { m with tag := some link }
  | notSet {m : Machine} {link : TagLink} {err : GoError} {tag : Option TagLink} :
      tag = m.tag ∨ tag = some link ∨ tag = none →
      Reply site (.ask (.bootSet link)) m (some err) { m with tag := tag }
  | method {m : Machine} : Reply site .detectBootMethod m site.method m
  | firstBoot {m : Machine} : Reply site .isFirstBoot m (!m.booted) m
  | marked {m : Machine} : Reply site .markBooted m none { m with booted := true }
  | notMarked {m : Machine} {err : GoError} {booted : Bool} :
      (m.booted = true → booted = true) →
      Reply site .markBooted m (some err) { m with booted := booted }
  | any {m : Machine} {op : RunOp} {r : op.Ret} : op.free = true → Reply site op m r m

/-- Nobody else moves the boot record or the mark. -/
def Site.service (site : Site) : Service runSig Machine where
  reply := site.Reply
  others a b := b = a
  inv _ := True
  refl _ := rfl
  trans h h' := h'.trans h

/-- The processes of an upgrader: each ends, or is killed, and is started again. -/
def Processes (u : Upgrader) (p : RunM (Option UpdateError)) : Prop :=
  ∃ turns, p = Run u turns

/-- The runs from the first process on, with the log of all calls. -/
abbrev Site.Runs (site : Site) (u : Upgrader) (m : Machine)
    (c : Client runSig (Logged runSig Machine) (Option UpdateError)) : Prop :=
  Client.Run (site.service.logged fun _ => True) (Processes u) ⟨(m, []), none⟩ c

end Zos4.Upgrade
