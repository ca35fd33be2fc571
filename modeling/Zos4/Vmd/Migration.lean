import Mathlib.Data.List.Nodup
import Zos4.Files.Path

/-!
# The configs of the virtual machines

`main.go` of `vmd`: the configs used to be in a directory that is kept over a reboot. If
there are machines that run when `vmd` starts, those of the old directory are copied to the
volatile one (`copyDepth1`), and the old directory is removed in any case (`migrate`).

Of both directories only what is at their top is looked at. `EntryCalls` is what the calls
for one entry of the old one come to.
-/

namespace Zos4.Vmd

open Zos4.Files

inductive VmdError where
  | notExist
  | text (msg : String)
  | wrap (cause : VmdError) (msg : String)
  deriving DecidableEq, Repr

/-- A directory, or a file with what is read from it. -/
inductive Entry where
  | dir
  | file (content : Bytes)
  deriving DecidableEq, Repr

/-- A directory that is listed, in the order it is walked in. -/
structure Dir where
  entries : List (String × Entry)
  nodup : (entries.map Prod.fst).Nodup

/-- The files of the volatile directory. -/
abbrev Volatile := String → Option Bytes

structure EntryCalls where
  lstat : Option VmdError
  /-- The names in it are read before it is skipped. -/
  readDirNames : Option VmdError
  openFile : Option VmdError
  create : Option VmdError
  /-- The bytes that are written, where it fails. -/
  copy : Option (Nat × VmdError)

structure Calls where
  /-- `List` of the module: the machines that run. -/
  list : Except VmdError (List String)
  /-- That the old directory cannot be found or listed. -/
  root : Option VmdError
  entry : String → EntryCalls
  /-- Where it fails, some entries may be left. -/
  removeAll : Option (String → Bool)

/-! ## `copyDepth1` -/

/-- `Create` empties the file. -/
def copyFile (calls : EntryCalls) (name : String) (content : Bytes) (dst : Volatile) :
    Option VmdError × Volatile :=
  match calls.openFile with
  | some err => (some err, dst)
  | none =>
      match calls.create with
      | some err => (some err, dst)
      | none =>
          match calls.copy with
          | some (n, err) => (some err, Function.update dst name (some (content.take n)))
          | none => (none, Function.update dst name (some content))

/-- What the function returns that is called with each entry. -/
inductive WalkError where
  | skipDir
  | err (err : VmdError)
  deriving DecidableEq, Repr

def walkFn (calls : EntryCalls) (entry : String × Entry) (err : Option VmdError)
    (dst : Volatile) : Option WalkError × Volatile :=
  match err with
  | some err => (some (.err err), dst)
  | none =>
      match entry.2 with
      | .dir => (some .skipDir, dst)
      | .file content =>
          let (err, dst) := copyFile calls entry.1 content dst
          (err.map .err, dst)

/-- The error an entry is called with. -/
def EntryCalls.info (calls : EntryCalls) : Entry → Option VmdError
  | .dir => calls.lstat.or calls.readDirNames
  | .file _ => calls.lstat

/-- `Walk`, of the entries at the top. -/
def walk (calls : String → EntryCalls) :
    List (String × Entry) → Volatile → Option VmdError × Volatile
  | [], dst => (none, dst)
  | entry :: entries, dst =>
      let entryCalls := calls entry.1
      match walkFn entryCalls entry (entryCalls.info entry.2) dst with
      | (some (.err err), dst) => (some err, dst)
      | (some .skipDir, dst) | (none, dst) => walk calls entries dst

def copyDepth1 (calls : Calls) (src : Dir) (dst : Volatile) : Option VmdError × Volatile :=
  match calls.root with
  | some err => (some err, dst)
  | none => walk calls.entry src.entries dst

/-! ## `action` -/

/-- What is left of the old directory. -/
def removeAll (calls : Calls) (src : Dir) : List (String × Entry) :=
  match calls.removeAll with
  | none => []
  | some left => src.entries.filter fun entry => left entry.1

/-- The part that moves the configs, with the error it returns, and the old directory and
the volatile one. That the copy has failed is only logged. -/
def migrate (calls : Calls) (src : Dir) (dst : Volatile) :
    Option VmdError × List (String × Entry) × Volatile :=
  match calls.list with
  | .error err => (some (err.wrap "failed to list running vms"), src.entries, dst)
  | .ok vms =>
      let dst := if vms.length > 0 then (copyDepth1 calls src dst).2 else dst
      (none, removeAll calls src, dst)

end Zos4.Vmd
