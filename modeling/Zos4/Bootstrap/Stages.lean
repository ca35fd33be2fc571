import Zos4.Bootstrap.Install

/-!
# The stages of a boot

`main.rs` with `config.rs` and `kparams.rs`: the bootstrap runs in two stages, each a process
of its own. The first puts the latest bootstrap in the place of the binary that runs, and
executes it with the number of the next stage; the second installs what the tag of the run
mode lists.

The run mode and the version come from the kernel command line, whose words are split by
the crate `shlex`. The flags are what `clap` makes of the arguments.
-/

namespace Zos4.Bootstrap

open Zos4.Files

/-! ## Kernel parameters -/

class Shlex where
  split : String → Option (List String)

section

variable [Shlex]

abbrev Params := String → Option (Option String)

/-- `splitn(2, '=')`, as a key and its value. -/
def keyValue (arg : String) : String × Option String :=
  let (key, rest) := arg.toList.span (· ≠ '=')
  (String.ofList key, match rest with
    | [] => none
    | _ :: value => some (String.ofList value))

/-- A later parameter takes the place of an earlier one. -/
def insertArg (map : Params) (arg : String) : Params :=
  Function.update map (keyValue arg).1 (some (keyValue arg).2)

def parse (line : Bytes) : Except BootError Params :=
  match String.fromUTF8? ⟨line.toArray⟩ with
  | none => .error (.text "invalid utf-8 sequence")
  | some text =>
      match Shlex.split text with
      | none => .error (.text "failed to parse kernel params")
      | some args => .ok (args.foldl insertArg fun _ => none)

/-- `params`, with what reading `/proc/cmdline` comes to. -/
def params (cmdline : Except BootError Bytes) : Except BootError Params :=
  cmdline.bind parse

def runmode (cmdline : Except BootError Bytes) : Except BootError RunMode := do
  let params ← params cmdline
  match params "runmode" with
  | some (some mode) =>
      if mode = "prod" ∨ mode = "production" then pure .prod
      else if mode = "dev" ∨ mode = "development" then pure .dev
      else if mode = "test" ∨ mode = "testing" then pure .test
      else if mode = "qa" then pure .qa
      else .error (.text ("unknown runmode: " ++ mode))
  | some none => .error (.text "missing runmode value")
  | none => pure .prod

def version (cmdline : Except BootError Bytes) : Except BootError Version := do
  let params ← params cmdline
  match params "version" with
  | some (some input) =>
      if input = "v3" then pure .v3
      else if input = "v3light" then pure .v3Light
      else if input = "v4" then pure .v4
      else .error (.text ("unknown version: " ++ input))
  | some none => pure .v3
  | none => pure .v3

/-! ## The configuration of a process -/

/-- One digit more, as `from_str` of `u32` reads them. -/
def readDigit (value : Nat) (c : Char) : Except String Nat :=
  if !c.isDigit then .error "invalid digit found in string"
  else
    let value := value * 10 + (c.toNat - '0'.toNat)
    if value < 4294967296 then .ok value
    else .error "number too large to fit in target type"

def parseU32 (s : String) : Except String Nat :=
  match s.toList with
  | [] => .error "cannot parse integer from empty string"
  | ['+'] => .error "invalid digit found in string"
  | '+' :: digits => digits.foldlM readDigit 0
  | digits => digits.foldlM readDigit 0

/-- The flags `-s` and `-d`. -/
structure Args where
  stage : String
  debug : Bool
  deriving DecidableEq, Repr

structure StageConfig extends Config where
  stage : Nat
  debug : Bool

/-- `Config::current`, with what the command line is read as, each time it is. -/
def current (cmdline : Nat → Except BootError Bytes) (args : Args) :
    Except BootError StageConfig :=
  match parseU32 args.stage with
  | .error err =>
      .error (.text ("invalid stage format expecting a positive integer: " ++ err))
  | .ok stage =>
      if stage = 0 then .error (.text "invalid stage value 0, stages starting from 1")
      else do
        let version ← if stage = 2 then version (cmdline 0) else pure .v3
        let runmode ← runmode (cmdline 1)
        pure ⟨⟨runmode, version⟩, stage, args.debug⟩

/-! ## The stages -/

structure ProcessCalls where
  /-- By the number of the read. -/
  cmdline : Nat → Except BootError Bytes
  update : UpdateCalls
  install : InstallCalls
  exec : Option BootError

def runStage (calls : ProcessCalls) (fuel : Nat) (bin : Location) (cfg : StageConfig)
    (w : World) : Option (Except Stop Unit × World) :=
  if cfg.stage = 1 then
    if cfg.debug then some (.ok (), w) else update calls.update fuel bin w
  else if cfg.stage = 2 then install calls.install fuel cfg.toConfig w
  else some (.error (.error (.text ("unknown stage '" ++ toString cfg.stage ++
    "' only 2 stage(s) are supported"))), w)

/-- How a process ends: with a code, or by the execution of the next one. -/
inductive Ended where
  | exit (code : Nat)
  | exec (args : Args)
  deriving DecidableEq, Repr

def exitOf : Stop → Ended
  | .error _ => .exit 1
  | .panic _ => .exit 101

/-- `app` and `main`. A binary that is neither a file nor a link cannot be executed. -/
def app (calls : ProcessCalls) (fuel : Nat) (bin : Location) (args : Args) (w : World) :
    Option (Ended × World) :=
  match current calls.cmdline args with
  | .error _ => some (.exit 1, w)
  | .ok cfg =>
      match runStage calls fuel bin cfg w with
      | none => none
      | some (.error stop, w) => some (exitOf stop, w)
      | some (.ok (), w) =>
          if cfg.stage + 1 ≤ 2 then
            match calls.exec, w.root bin with
            | none, some (.file _) | none, some (.link _) =>
                some (.exec ⟨toString (cfg.stage + 1), cfg.debug⟩, w)
            | _, _ => some (.exit 1, w)
          else some (.exit 0, w)

/-- A boot from a process on, with the processes that were run, the code the last one exits
with and what is left. -/
inductive Boots (calls : Nat → ProcessCalls) (fuel : Nat) (bin : Location) :
    Nat → Args → World → List Args → Nat → World → Prop
  | exit {i : Nat} {args : Args} {w w' : World} {code : Nat}
      (h : app (calls i) fuel bin args w = some (.exit code, w')) :
      Boots calls fuel bin i args w [args] code w'
  | exec {i : Nat} {args args' : Args} {w w' w'' : World} {ran : List Args} {code : Nat}
      (h : app (calls i) fuel bin args w = some (.exec args', w'))
      (hrest : Boots calls fuel bin (i + 1) args' w' ran code w'') :
      Boots calls fuel bin i args w (args :: ran) code w''

end

end Zos4.Bootstrap
