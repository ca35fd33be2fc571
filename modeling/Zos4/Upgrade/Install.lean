import Zos4.Files.Lookup
import Zos4.Files.Names
import Zos4.Files.Package

/-!
# Installing a package

The part of `upgrade.go` that puts a package on the node: `copyFile`, which replaces
one file, `copyRecursive`, which goes through the whole package, and
`servicesFromStore`, which finds the services to restart. The modes of the entries
are left out, and so is `skip`, which no caller gives.

A package is what the flist store walks, with the entries by their names below the
root. Each entry is put at the path below the destination that has its names, wherever
the links that are in the target already lead on the way there.
-/

namespace Zos4.Upgrade

open Zos4.Files

abbrev Files := Tree Location Bytes

/-! ## `copyFile` -/

/-- What the calls of one `copyFile` come to: the error of each, as far as what is at
the place does not decide, and for the copy how many bytes were written before. The
last two are those of the deferred function. -/
structure CopyCalls where
  stat : Option FsError
  rename : Option FsError
  openFile : Option FsError
  checkAndGet : Option FsError
  copy : Option (Nat × FsError)
  removeOld : Option FsError
  restore : Option FsError
  deriving DecidableEq, Repr

/-- `os.Stat` finds that nothing is there, at the end of the links. An error of the call
itself is another one. -/
def isNotExist (call : Option FsError) (fs : Files) (dst : Location) : Bool :=
  call.isNone &&
    match fs.resolve dst with
    | .error err => err = .notExist
    | .ok place => (fs place).isNone

/-- `os.Rename`. A directory is renamed with what is below it, and nothing is renamed
to the place of a directory. -/
def rename (call : Option FsError) (fs : Files) (src dst : Location) : Except FsError Files :=
  match call with
  | some err => .error err
  | none =>
      match fs src, fs dst with
      | none, _ => .error .notExist
      | some _, some .dir => .error (.text "file exists")
      | some .dir, some _ => .error (.text "not a directory")
      | some .dir, none => .ok (fs.move src dst)
      | some _, _ => .ok (fs.rename src dst)

/-- Where `os.OpenFile` opens a file to write it, at the end of the links. -/
def openFile (call : Option FsError) (fs : Files) (dst : Location) : Except FsError Location :=
  match call with
  | some err => .error err
  | none =>
      match fs.resolve dst with
      | .error err => .error err
      | .ok place =>
          match fs place with
          | none | some (.file _) => .ok place
          | some _ => .error (.text "is not a file")

variable (calls : CopyCalls) (dst : Location) (content : Bytes)

/-- The statements after the rename: what is returned, and the variable `err` of the
function when it is. -/
def fill (fs : Files) : Option FsError × Option FsError × Files :=
  match openFile calls.openFile fs dst with
  | .error err => (some err, some err, fs)
  | .ok place =>
      let fs := fs.put place (.file [])
      match calls.checkAndGet with
      | some err => (some err, some err, fs)
      | none =>
          match calls.copy with
          -- the error of the copy is a variable of the `if`
          | some (n, err) => (some err, none, fs.put place (.file (content.take n)))
          | none => (none, none, fs.put place (.file content))

/-- The deferred function. Its own errors are logged. -/
def cleanUp (err : Option FsError) (dstOld : Location) (fs : Files) : Files :=
  match err with
  | none =>
      match calls.removeOld with
      | some _ => fs
      | none => fs.erase dstOld
  | some _ =>
      match rename calls.restore fs dstOld dst with
      | .error _ => fs
      | .ok fs => fs

def copyFile (fs : Files) : Option FsError × Files :=
  let isNew := isNotExist calls.stat fs dst
  if isNew then
    let (ret, _, fs) := fill calls dst content fs
    (ret, fs)
  else
    let dstOld := withSuffix dst (bytes ".old")
    match rename calls.rename fs dst dstOld with
    | .error err => (some err, fs)
    | .ok fs =>
        let (ret, err, fs) := fill calls dst content fs
        (ret, cleanUp calls dst err dstOld fs)

/-! ## `copyRecursive` -/

/-- The errors of what is done at one entry, as far as what is at the place does not
decide. -/
structure EntryCalls where
  mkdirAll : Option FsError
  remove : Option FsError
  symlink : Option FsError
  file : CopyCalls

/-- `os.MkdirAll`, where the directories above are there. -/
def mkdirAll (call : Option FsError) (fs : Files) (path : Location) : Except FsError Files :=
  match call with
  | some err => .error err
  | none =>
      match fs.place path with
      | .error err => .error err
      | .ok place =>
          match fs place with
          | none => .ok (fs.put place .dir)
          | some _ =>
              match fs.resolve place with
              | .error err => .error err
              | .ok dir =>
                  match fs dir with
                  | some .dir => .ok fs
                  | _ => .error (.text "not a directory")

theorem mkdirAll_ok {call : Option FsError} {fs fs' : Files} {path : Location}
    (h : mkdirAll call fs path = .ok fs') : ∃ place, fs.place path = .ok place ∧
      ((fs place = none ∧ fs' = fs.put place .dir) ∨
        (fs' = fs ∧ ∃ dir, fs.resolve place = .ok dir ∧ fs dir = some .dir)) := by
  unfold mkdirAll at h
  split at h
  · cases h
  · split at h
    · cases h
    · next place hplace =>
        refine ⟨place, hplace, ?_⟩
        split at h
        · next hnone =>
            cases h
            exact .inl ⟨hnone, rfl⟩
        · split at h
          · cases h
          · next dir hdir =>
              split at h
              · next hfound =>
                  cases h
                  exact .inr ⟨rfl, dir, hdir, hfound⟩
              · cases h

/-- `os.Remove`, where that there was nothing is no error. -/
def remove (call : Option FsError) (fs : Files) (dest : Location) : Except FsError Files :=
  match call with
  | some err => if err = .notExist then .ok fs else .error err
  | none => .ok (fs.erase dest)

/-- `os.Remove` and `os.Symlink`. -/
def relink (calls : EntryCalls) (fs : Files) (dest : Location) (target : Bytes) :
    Except FsError Files :=
  match remove calls.remove fs dest with
  | .error err => .error err
  | .ok fs =>
      match calls.symlink, fs dest with
      | some err, _ => .error err
      | none, none => .ok (fs.put dest (.link target))
      | none, some _ => .error (.text "file exists")

/-- The link is there, and nothing else has changed. -/
theorem relink_ok {calls : EntryCalls} {fs fs' : Files} {dest : Location} {target : Bytes}
    (h : relink calls fs dest target = .ok fs') : fs' = fs.put dest (.link target) := by
  unfold relink at h
  split at h
  · cases h
  · next removed hremoved =>
      have hput : removed.put dest (.link target) = fs.put dest (.link target) := by
        unfold remove at hremoved
        split at hremoved
        · split at hremoved
          · cases hremoved; rfl
          · cases hremoved
        · cases hremoved
          exact Function.update_idem ..
      split at h
      · cases h
      · cases h
        exact hput
      · cases h

/-- The path of an entry, from the root. -/
def destPath (destination : Bytes) (path : Location) : Location :=
  components (clean destination) ++ path

/-- What is done at one entry. The directories above it have been visited. -/
def copyEntry (destination : Bytes) (calls : Location → EntryCalls) (fs : Files)
    (entry : Location × Node Bytes) : Except FsError Files :=
  let (path, info) := entry
  let calls := calls path
  let dest := destPath destination path
  match info with
  | .dir => mkdirAll calls.mkdirAll fs dest
  | .file content =>
      match fs.place dest with
      | .error err => .error err
      | .ok dest =>
          match copyFile calls.file dest content fs with
          | (some err, _) => .error err
          | (none, fs) => .ok fs
  | .link linkTarget =>
      let target := if isAbs linkTarget then join destination linkTarget else linkTarget
      match fs.place dest with
      | .error err => .error err
      | .ok dest => relink calls fs dest target
  | .special => .ok fs

def copyRecursive (store : Package Bytes) (destination : Bytes)
    (calls : Location → EntryCalls) (fs : Files) : Except FsError Files :=
  store.entries.foldlM (copyEntry destination calls) fs

/-! ## `servicesFromStore` -/

def zinitPath : Location := [bytes "etc", bytes "zinit"]

/-- A store that has no such path is one without services; the walk of a store that is
open does not fail in another way. -/
def servicesFromStore (store : Package Bytes) : List Bytes :=
  match store.under zinitPath with
  | none => []
  | some found =>
      found.filterMap fun (path, info) =>
        if info.isDir then none
        else if path.dropLast ≠ zinitPath then none
        else
          let name := path.getLastD []
          if !hasSuffix name (bytes ".yaml") then none
          else some (trimSuffix name (bytes ".yaml"))

end Zos4.Upgrade
