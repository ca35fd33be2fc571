import Zos4.Gridtypes
import Zos4.Interaction.Prog

/-!
# The upgrader

`update` and `updateTo` of `upgrade.go`, as programs over what they call on:
the boot record of the node, the hub, the registrar, and `install`, which is
one call here and whose answer nil means that the tree of the flist is on the
node. Logging and the context are left out, and so is the panic of
`MustGet`, after which nothing is done at all.

A package of a tag is a symlink, and `Destination` resolves it to a repo and a
name. The hub client is not part of the repository; its two resolutions are
parameters, and they return what Go returns, a pair and an error next to it,
since `updateTo` reads the name before it looks at the error.

The call `install` carries the package it is made for. The code passes the
repo and the name only; the package is there for the log of the run, in which
two packages with one destination would otherwise be the same.
-/

namespace Zos4.Upgrade

open Zos4.Interaction Prog

/-! ## The hub -/

structure TagLink where
  name : String
  target : String
  deriving DecidableEq, Repr

/-- A package of a tag. -/
structure Symlink where
  name : String
  target : String
  deriving DecidableEq, Repr

/-- A resolved link and the error it may have been resolved with. -/
structure Resolved where
  repo : String
  name : String
  err : Option GoError
  deriving DecidableEq, Repr

/-- What the hub client computes by itself. -/
class HubClient where
  tagDestination : TagLink → Resolved
  destination : Symlink → String → Resolved

/-! ## The node -/

inductive RunMode where
  | runningDev
  | other (mode : String)
  deriving DecidableEq, Repr

structure Environment where
  runningMode : RunMode
  farmID : UInt32

structure ZosVersion where
  version : String
  safeToUpgrade : Bool

/-- The kernel parameters the tag of the node depends on: the version of a
light node. -/
structure KernelParams where
  light : Option String

structure Upgrader where
  noZosUpgrade : Bool

/-- The error of `update`. `ErrRestartNeeded` is told apart by identity. -/
inductive UpdateError where
  | errRestartNeeded
  | failed (err : GoError)
  deriving DecidableEq, Repr

inductive Op where
  | bootCurrent
  | bootRunMode
  | bootSet (remote : TagLink)
  | kernelParams
  | hubFind (name : String)
  | hubListTag (repo tag : String)
  | environment
  | environmentConfig
  | getZosVersion
  | install (pkg : Symlink) (repo name : String)

abbrev Op.Ret : Op → Type
  | .bootCurrent => TagLink × Option GoError
  | .bootRunMode => String
  | .kernelParams => KernelParams
  | .hubFind _ => Except GoError (List TagLink)
  | .hubListTag _ _ => Except GoError (List Symlink)
  | .environment => Environment
  | .environmentConfig => Except GoError (List UInt32)
  | .getZosVersion => Except GoError ZosVersion
  | .bootSet _ | .install _ _ _ => Option GoError

abbrev upgradeSig : Sig := ⟨Op, Op.Ret⟩

abbrev UpgradeM := Prog upgradeSig

abbrev ask (op : Op) : UpgradeM op.Ret := @perform upgradeSig op

/-! ## The upgrade -/

def zosPackage : String := "zos.flist"

/-- `target[strings.LastIndex(target, "/")+1:]`. -/
def lastComponent (target : String) : String :=
  String.ofList (target.toList.reverse.takeWhile fun c => c != '/').reverse

variable [HubClient]

/-- The names of the packages of the current tag, as far as they resolve. -/
def curNames (repo : String) (curPkgs : List Symlink) : List String :=
  curPkgs.filterMap fun pkg =>
    let dest := HubClient.destination pkg repo
    if dest.err = none then some dest.name else none

def installFailed (dest : Resolved) (err : GoError) : GoError :=
  err.wrap ("failed to install package " ++ dest.repo ++ "/" ++ dest.name)

/-- The loop over the packages of the remote tag; it returns the packages that
are scheduled for later. -/
def installPackages (curPkgsNames : List String) (repo : String) :
    List Symlink → List (Symlink × Resolved) →
      UpgradeM (Except GoError (List (Symlink × Resolved)))
  | [], later => pure (.ok later)
  | pkg :: rest, later =>
      let dest := HubClient.destination pkg repo
      -- only the name is compared, whatever the error says
      if dest.name ∈ curPkgsNames then
        installPackages curPkgsNames repo rest later
      else if pkg.name = zosPackage then
        installPackages curPkgsNames repo rest (later ++ [(pkg, dest)])
      else
        match dest.err with
        | some err =>
            pure (.error (err.wrap ("failed to find target for package '" ++
              pkg.target ++ "'")))
        | none => do
            match ← ask (.install pkg dest.repo dest.name) with
            | some err => pure (.error (installFailed dest err))
            | none => installPackages curPkgsNames repo rest later

def installLater : List (Symlink × Resolved) → UpgradeM (Option GoError)
  | [] => pure none
  | (pkg, dest) :: rest => do
      match ← ask (.install pkg dest.repo dest.name) with
      | some err => pure (some (installFailed dest err))
      | none => installLater rest

/-- The names `updateTo` compares with: none when there is no current tag. -/
def curPkgsNames : Option TagLink → UpgradeM (Except GoError (List String))
  | none => pure (.ok [])
  | some current =>
      let dest := HubClient.tagDestination current
      match dest.err with
      | some err => pure (.error (err.wrap "failed to resolve current link"))
      | none => do
          match ← ask (.hubListTag dest.repo dest.name) with
          | .error err =>
              pure (.error (err.wrap ("failed to list tag " ++ dest.name)))
          | .ok curPkgs => pure (.ok (curNames dest.repo curPkgs))

def updateTo (u : Upgrader) (link : TagLink) (current : Option TagLink) :
    UpgradeM (Option GoError) :=
  let dest := HubClient.tagDestination link
  match dest.err with
  | some err => pure (some (err.wrap "failed to get destination tag"))
  | none => do
      match ← ask (.hubListTag dest.repo dest.name) with
      | .error err =>
          pure (some (err.wrap
            ("failed to list tag '" ++ dest.name ++ "' packages")))
      | .ok packages =>
          match ← curPkgsNames current with
          | .error err => pure (some err)
          | .ok names =>
              match ← installPackages names dest.repo packages [] with
              | .error err => pure (some err)
              | .ok later =>
                  if u.noZosUpgrade then pure none else installLater later

def matchName (mode : String) (params : KernelParams) : String :=
  match params.light with
  | some version => mode ++ "-" ++ version
  | none => mode

/-- What `remote` makes of the links the hub finds. -/
def single (name : String) : Except GoError (List TagLink) → Except GoError TagLink
  | .error err => .error err
  | .ok [link] => .ok link
  | .ok _ => .error (.text ("can't find taglink that matches '" ++ name ++ "'"))

/-- The tag the node is to run: the one tag link named after its run mode. -/
def remote : UpgradeM (Except GoError TagLink) := do
  let mode ← ask .bootRunMode
  let params ← ask .kernelParams
  let found ← ask (.hubFind (matchName mode params))
  pure (single (matchName mode params) found)

def getRolloutConfig : UpgradeM (Except GoError (ZosVersion × List UInt32)) := do
  let env ← ask .environment
  match ← ask .environmentConfig with
  | .error err => pure (.error (err.wrap "failed to get network config"))
  | .ok testFarms =>
      match env.runningMode with
      | .runningDev => pure (.ok (⟨"v0.0.0", true⟩, testFarms))
      | .other _ =>
          match ← ask .getZosVersion with
          | .error err =>
              pure (.error (err.wrap "failed to get zos version from registrar"))
          | .ok v => pure (.ok (v, testFarms))

/-- Whether the rollout lets this node move to the remote tag now. -/
def rolledOut (env : Environment) (v : ZosVersion) (testFarms : List UInt32)
    (remote : TagLink) : Bool :=
  (env.runningMode == .runningDev || lastComponent remote.target == v.version) &&
    (v.safeToUpgrade || testFarms.contains env.farmID)

def update (u : Upgrader) : UpgradeM (Option UpdateError) := do
  -- a failing read is only logged: the zero link is updated from
  let (current, _) ← ask .bootCurrent
  match ← remote with
  | .error err => pure (some (.failed (err.wrap "failed to get remote tag")))
  | .ok remote =>
      if remote.target = current.target then pure none
      else do
        let env ← ask .environment
        match ← getRolloutConfig with
        | .error err =>
            pure (some (.failed
              (err.wrap "failed to get rollout config and version")))
        | .ok (registrarVersion, testFarms) =>
            match rolledOut env registrarVersion testFarms remote with
            | false => pure none
            | true =>
                match ← updateTo u remote (some current) with
                | some err =>
                    pure (some (.failed (err.wrap
                      ("failed to update to new tag '" ++ remote.target ++ "'"))))
                | none =>
                    match ← ask (.bootSet remote) with
                    | some err => pure (some (.failed err))
                    | none => pure (some .errRestartNeeded)

/-! ## What the calls are answered -/

/-- An install or a move of the boot record, as the log of a run has it, with
whether it succeeded. -/
inductive Event where
  | installed (pkg : Symlink) (repo name : String) (ok : Bool)
  | set (remote : TagLink) (ok : Bool)
  deriving DecidableEq, Repr

/-- The node: the tag it runs, the destinations whose trees are on it, and the
log. -/
structure Node where
  tag : TagLink
  installed : List (String × String)
  log : List Event
  deriving DecidableEq, Repr

/-- Everything a run depends on. `install` says of every install in turn
whether it fails, and `bootSet` which tag a failing move leaves behind. -/
structure Surroundings where
  bootCurrent : Option (TagLink × GoError)
  bootRunMode : String
  kernelParams : KernelParams
  find : String → Except GoError (List TagLink)
  listTag : String → String → Except GoError (List Symlink)
  environment : Environment
  testFarms : Except GoError (List UInt32)
  zosVersion : Except GoError ZosVersion
  install : Nat → Option GoError
  bootSet : Option (GoError × TagLink)

def Node.tried (n : Node) (pkg : Symlink) (repo name : String) :
    Option GoError → Node
  | none =>
      { n with
        installed := (repo, name) :: n.installed
        log := n.log ++ [.installed pkg repo name true] }
  | some _ => { n with log := n.log ++ [.installed pkg repo name false] }

def answer (env : Surroundings) : Handler upgradeSig Node
  | .bootCurrent, n => ((match env.bootCurrent with
      | none => (n.tag, none)
      | some (link, err) => (link, some err)), n)
  | .bootRunMode, n => (env.bootRunMode, n)
  | .kernelParams, n => (env.kernelParams, n)
  | .hubFind name, n => (env.find name, n)
  | .hubListTag repo tag, n => (env.listTag repo tag, n)
  | .environment, n => (env.environment, n)
  | .environmentConfig, n => (env.testFarms, n)
  | .getZosVersion, n => (env.zosVersion, n)
  | .install pkg repo name, n =>
      (env.install n.log.length, n.tried pkg repo name (env.install n.log.length))
  | .bootSet remote, n => match env.bootSet with
      | none => (none, { n with tag := remote, log := n.log ++ [.set remote true] })
      | some (err, left) =>
          (some err, { n with tag := left, log := n.log ++ [.set remote false] })

end Zos4.Upgrade
