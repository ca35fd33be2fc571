import Zos4.Files.Tree

/-!
# The worker that publishes the versions

`update_worker.go`: for each network the worker reads the version that is set in
the registrar, and makes `dst/<network>` a link to `src/.tag-<version>`. The target
of the link is relative, as it is read from `dst`.

Of the file system, only what is at `dst/<network>` is read and changed. `Calls` is
what the other things come to: whether the tag is there, and which call fails. The
clients are not part of the repository, and the version is what one of them answers.
-/

namespace Zos4.UpdateWorker

open Zos4.Files

inductive WorkerError where
  | notExist
  | exist
  | invalid
  | text (msg : String)
  deriving DecidableEq, Repr

abbrev Network := Bytes

def MainNetwork : Network := bytes "production-v4"

def TestNetwork : Network := bytes "testing-v4"

def QANetwork : Network := bytes "qa-v4"

/-- The entries of the hub by their paths. -/
abbrev Hub := Tree Bytes Unit

/-- The errors of the calls, as far as the entry itself does not decide. -/
structure Calls where
  lstat : Option WorkerError
  readlink : Option WorkerError
  remove : Option WorkerError
  symlink : Option WorkerError
  deriving DecidableEq

def readlink (calls : Calls) (path : Bytes) (hub : Hub) : Except WorkerError Bytes :=
  match calls.readlink with
  | some err => .error err
  | none =>
      match hub path with
      | none => .error .notExist
      | some (.link target) => .ok target
      | some _ => .error .invalid

def remove (calls : Calls) (path : Bytes) (hub : Hub) : Option WorkerError × Hub :=
  match calls.remove with
  | some err => (some err, hub)
  | none =>
      match hub path with
      | none => (some .notExist, hub)
      | some _ => (none, hub.erase path)

def symlink (calls : Calls) (target path : Bytes) (hub : Hub) :
    Option WorkerError × Hub :=
  match calls.symlink with
  | some err => (some err, hub)
  | none =>
      match hub path with
      | none => (none, hub.put path (.link target))
      | some _ => (some .exist, hub)

structure Worker where
  src : AbsPath
  dst : AbsPath

/-- `NewWorker`, in the current directory. -/
def NewWorker (cwd : Except WorkerError AbsPath) (src dst : Bytes) :
    Except WorkerError Worker := do
  let src ← abs cwd src
  let dst ← abs cwd dst
  pure ⟨src, dst⟩

def checkNetwork (network : Network) : Option WorkerError :=
  if network ≠ MainNetwork ∧ network ≠ QANetwork ∧ network ≠ TestNetwork then
    some (.text "invalid network")
  else none

def updateLink (calls : Calls) (current latest link : Bytes) (hub : Hub) :
    Option WorkerError × Hub :=
  match calls.lstat with
  | some err => (some err, hub)
  | none =>
      match readlink calls latest hub with
      | .error err =>
          if err = .notExist then symlink calls link latest hub else (some err, hub)
      | .ok dst =>
          -- only the last names are compared
          if base dst = base current then (none, hub)
          else
            match remove calls latest hub with
            | (some err, hub) => (some err, hub)
            | (none, hub) => symlink calls link latest hub

namespace Worker

variable (w : Worker)

/-- The paths `src/.tag-<version>`, `dst/<network>`, and the first as seen from the
second. -/
def zosCurrent (version : Bytes) : Bytes := w.src.path ++ sep :: (bytes ".tag-" ++ version)

def zosLatest (network : Network) : Bytes := w.dst.path ++ sep :: network

def zosLink (version : Bytes) : Bytes :=
  rel w.dst.path w.src.path ++ sep :: (bytes ".tag-" ++ version)

/-- `updateZosVersion`, with what the registrar answers. -/
def updateZosVersion (network : Network) (version : Except WorkerError Bytes)
    (calls : Calls) (hub : Hub) : Option WorkerError × Hub :=
  match checkNetwork network with
  | some err => (some err, hub)
  | none =>
      match version with
      | .error err => (some err, hub)
      | .ok version =>
          updateLink calls (w.zosCurrent version) (w.zosLatest network)
            (w.zosLink version) hub

/-- One turn for one network. -/
structure Update where
  network : Network
  version : Except WorkerError Bytes
  calls : Calls

/-- What any number of updates leave, in any order; `UpdateWithInterval` retries them
and takes them by turns. -/
def run (updates : List Update) (hub : Hub) : Hub :=
  updates.foldl
    (fun hub u => (w.updateZosVersion u.network u.version u.calls hub).2) hub

end Worker

end Zos4.UpdateWorker
