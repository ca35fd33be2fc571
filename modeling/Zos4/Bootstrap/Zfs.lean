import Mathlib.Data.List.Infix
import Zos4.Files.Package

/-!
# Copying a mounted package

`Zfs::copy` of `zfs.rs`, which copies the package that is mounted into a directory. A
file is written under another name first, and then renamed. The entries come in the
order in which the system lists the directories, a directory before what is in it.

`System` is what a call comes to where the tree of the target does not decide: an error,
and where a path leads that goes through links. An entry is put where its path leads
(`place`): a directory of the package may be a link to one in the target. `Cut` says how
far an entry has come when one of its calls fails, and `copyPartly` is the copy with what
it leaves then.
-/

namespace Zos4.Bootstrap

open Zos4.Files

abbrev Files := Tree Location Bytes

inductive CopyError where
  | text (msg : String)
  deriving DecidableEq, Repr

/-- Where a path leads that goes through links. -/
inductive Through where
  | fails
  | outside
  | at (p : Location)
  deriving DecidableEq, Repr

structure System where
  error : Location → Option CopyError
  /-- The links followed to the end, also one at the last name. -/
  through : Files → Location → Through

/-- `PathBuf::push`. -/
def push (path other : Bytes) : Bytes :=
  if isAbs other then other
  else if path = [] ∨ path.getLast? = some sep then path ++ other
  else path ++ sep :: other

variable (sys : System)

/-- What there is on the way to the last name of a path. -/
def onTheWay (fs : Files) (path : Location) : List (Node Bytes) :=
  path.dropLast.inits.filterMap fs

/-- The place of the last name of a path. -/
def System.place (fs : Files) (path : Location) : Through :=
  if (onTheWay fs path).any Node.isLink then
    match sys.through fs path.dropLast with
    | .at dir => if fs dir = some .dir then .at (dir ++ [path.getLastD []]) else .fails
    | t => t
  else if path = [] ∨ ∀ dir ∈ path.dropLast.inits, fs dir = some .dir then .at path
  else .fails

/-- Where the bytes go that are written to a file that is opened at a place. -/
def System.opened (fs : Files) (dst : Location) : Through :=
  match fs dst with
  | none | some (.file _) => .at dst
  | some (.link _) =>
      match sys.through fs dst with
      | .at p =>
          match fs p with
          | some .dir => .fails
          | some .special => .outside
          | _ => .at p
      | t => t
  | some .special => .outside
  | some .dir => .fails

/-- The bytes are all there is in the file. -/
def writeTo (content : Bytes) (fs : Files) : Through → Option Files
  | .fails => none
  | .outside => some fs
  | .at p => some (fs.put p (.file content))

/-- `fs::copy` to a place in the target. -/
def copyTo (content : Bytes) (fs : Files) (dst : Location) : Except CopyError Files :=
  match writeTo content fs (sys.opened fs dst) with
  | some fs => .ok fs
  | none => .error (.text "failed to copy file")

/-- `create_dir_all`, where the directories above are there. -/
def create_dir_all (fs : Files) (dst : Location) : Except CopyError Files :=
  match fs dst with
  | none => .ok (fs.put dst .dir)
  | some .dir => .ok fs
  | some (.link _) =>
      match sys.through fs dst with
      | .outside => .ok fs
      | .at p =>
          if fs p = some .dir then .ok fs
          else .error (.text "failed to create directory")
      | .fails => .error (.text "failed to create directory")
  | some _ => .error (.text "failed to create directory")

/-- One entry, where nothing else goes wrong. -/
def copyOne (target : Bytes) (fs : Files) (dst : Location) :
    Node Bytes → Except CopyError Files
  | .dir => create_dir_all sys fs dst
  | .file content =>
      let tmp := withSuffix dst (bytes ".partial")
      match copyTo sys content fs tmp with
      | .error err => .error err
      | .ok fs =>
          match fs dst with
          | some .dir => .error (.text "failed to rename file")
          | _ => .ok (fs.rename tmp dst)
  | .link orig =>
      let orig := if !isAbs orig then orig else push (push [] target) orig
      match fs dst with
      | some .dir => .error (.text "failed to delete file")
      | _ => .ok ((fs.erase dst).put dst (.link orig))
  | .special => .ok fs

/-- One entry, at the place its path leads to. Out of the target there is nothing to
follow. -/
def copyEntry (target : Bytes) (fs : Files) (entry : Location × Node Bytes) :
    Except CopyError Files :=
  match sys.error entry.1 with
  | some err => .error err
  | none =>
      match sys.place fs entry.1 with
      | .at dst => copyOne sys target fs dst entry.2
      | .outside => .ok fs
      | .fails =>
          if entry.2 = .special then .ok fs
          else .error (.text "No such file or directory (os error 2)")

/-- `Zfs::copy`, of the entries in the order they are walked. -/
def copy (target : Bytes) (walked : List (Location × Node Bytes)) (fs : Files) :
    Except CopyError Files :=
  walked.foldlM (copyEntry sys target) fs

/-! ## What a copy leaves that fails -/

inductive Cut where
  | before
  /-- The bytes of the file that have been written. -/
  | written (n : Nat)
  /-- What was in the place of the link is gone. -/
  | removed
  deriving DecidableEq, Repr

/-- An entry that comes no further than this. -/
def leaveAt (cut : Cut) (fs : Files) (dst : Location) (node : Node Bytes) : Files :=
  match node, cut with
  | .file content, .written n =>
      (writeTo (content.take n) fs
        (sys.opened fs (withSuffix dst (bytes ".partial")))).getD fs
  | .link _, .removed =>
      match fs dst with
      | some .dir => fs
      | _ => fs.erase dst
  | _, _ => fs

/-- How far an entry comes that fails. If no call fails for another reason, it is the last
one, that puts it in its place. -/
def System.cut (cuts : Location → Cut) (entry : Location × Node Bytes) : Cut :=
  match sys.error entry.1, entry.2 with
  | some _, _ => cuts entry.1
  | none, .file content => .written content.length
  | none, _ => .before

/-- An entry that fails. -/
def leave (cuts : Location → Cut) (fs : Files) (entry : Location × Node Bytes) : Files :=
  match sys.place fs entry.1 with
  | .at dst => leaveAt sys (sys.cut cuts entry) fs dst entry.2
  | _ => fs

def copyPartly (target : Bytes) (cuts : Location → Cut) :
    List (Location × Node Bytes) → Files → Except CopyError Unit × Files
  | [], fs => (.ok (), fs)
  | entry :: walked, fs =>
      match copyEntry sys target fs entry with
      | .ok fs => copyPartly target cuts walked fs
      | .error err => (.error err, leave sys cuts fs entry)

/-! ## What the calls come to -/

variable {sys} {target : Bytes} {cuts : Location → Cut} {walked : List (Location × Node Bytes)}
  {fs fs' : Files} {dst path : Location} {content : Bytes} {entry : Location × Node Bytes}

variable (sys) in
/-- Without a link on the way, a path leads to itself, if anywhere. -/
theorem place_direct (h : ∀ dir, dir <+: path.dropLast → ∀ link, fs dir ≠ some (.link link)) :
    sys.place fs path = .at path ∨ sys.place fs path = .fails := by
  have hlinks : ¬ (onTheWay fs path).any Node.isLink = true := by
    intro hany
    obtain ⟨node, hnode, hlink⟩ := List.any_eq_true.mp hany
    obtain ⟨dir, hdir, hfound⟩ := List.mem_filterMap.mp hnode
    cases node with
    | link link => exact h dir ((List.mem_inits dir _).mp hdir) link hfound
    | dir | file | special => cases hlink
  rw [System.place, if_neg hlinks]
  split
  · exact .inl rfl
  · exact .inr rfl

theorem opened_free (h : fs dst = none) : sys.opened fs dst = .at dst := by
  rw [System.opened, h]

theorem copyTo_ok : copyTo sys content fs dst = .ok fs' ↔
    writeTo content fs (sys.opened fs dst) = some fs' := by
  rw [copyTo]
  split
  · next written hwritten => rw [hwritten, Except.ok.injEq, Option.some.injEq]
  · next hfails => rw [hfails]; constructor <;> intro h <;> cases h

theorem create_dir_all_ok (h : create_dir_all sys fs dst = .ok fs') :
    (fs dst = none ∧ fs' = fs.put dst .dir) ∨
      (fs' = fs ∧ (fs dst = some .dir ∨ ∃ target, fs dst = some (.link target))) := by
  unfold create_dir_all at h
  split at h
  · next hnone => exact .inl ⟨hnone, (Except.ok.inj h).symm⟩
  · next hdir => exact .inr ⟨(Except.ok.inj h).symm, .inl hdir⟩
  · next target hlink =>
      refine .inr ⟨?_, .inr ⟨target, hlink⟩⟩
      split at h
      · exact (Except.ok.inj h).symm
      · split at h
        · exact (Except.ok.inj h).symm
        · cases h
      · cases h
  · cases h

/-- A file is written under its other name, and renamed. -/
theorem copyOne_file (h : copyOne sys target fs dst (.file content) = .ok fs') :
    ∃ written, copyTo sys content fs (withSuffix dst (bytes ".partial")) = .ok written ∧
      fs' = written.rename (withSuffix dst (bytes ".partial")) dst := by
  unfold copyOne at h
  dsimp only at h
  split at h
  · cases h
  · next written hwritten =>
      split at h
      · cases h
      · exact ⟨written, hwritten, (Except.ok.inj h).symm⟩

/-- What there was is gone. -/
theorem copyOne_link {orig : Bytes} (h : copyOne sys target fs dst (.link orig) = .ok fs') :
    fs' = (fs.erase dst).put dst
      (.link (if !isAbs orig then orig else push (push [] target) orig)) := by
  unfold copyOne at h
  dsimp only at h
  split at h
  · cases h
  · exact (Except.ok.inj h).symm

/-- An entry is copied to its place, or there is nothing to be done in the target. -/
theorem copyEntry_ok (h : copyEntry sys target fs entry = .ok fs') :
    (∃ dst, sys.place fs entry.1 = .at dst ∧ copyOne sys target fs dst entry.2 = .ok fs') ∨
      (fs' = fs ∧ (sys.place fs entry.1 = .outside ∨ entry.2 = .special)) := by
  unfold copyEntry at h
  split at h
  · cases h
  · split at h
    · next dst hdst => exact .inl ⟨dst, hdst, h⟩
    · next houtside => exact .inr ⟨(Except.ok.inj h).symm, .inl houtside⟩
    · split at h
      · next hspecial => exact .inr ⟨(Except.ok.inj h).symm, .inr hspecial⟩
      · cases h

/-- Without a link on the way, it is its path. -/
theorem copyEntry_direct
    (hway : ∀ dir, dir <+: entry.1.dropLast → ∀ link, fs dir ≠ some (.link link))
    (h : copyEntry sys target fs entry = .ok fs') :
    copyOne sys target fs entry.1 entry.2 = .ok fs' := by
  rcases copyEntry_ok h with ⟨dst, hdst, hone⟩ | ⟨rfl, houtside | hspecial⟩
  · rcases place_direct sys hway with hplace | hplace
    · rw [hplace] at hdst
      rwa [Through.at.inj hdst]
    · cases hplace.symm.trans hdst
  · rcases place_direct sys hway with hplace | hplace <;>
      cases hplace.symm.trans houtside
  · rw [hspecial]
    rfl

/-! ## What is left of a copy -/

theorem copy_cons {entry : Location × Node Bytes} {next : Files}
    (h : copyEntry sys target fs entry = .ok next) :
    copy sys target (entry :: walked) fs = copy sys target walked next := by
  show (copyEntry sys target fs entry >>= fun fs => walked.foldlM (copyEntry sys target) fs) = _
  rw [h]
  rfl

/-- It does what the copy does that does not fail. -/
theorem copyPartly_ok :
    copyPartly sys target cuts walked fs = (.ok (), fs') ↔ copy sys target walked fs = .ok fs' := by
  induction walked generalizing fs with
  | nil =>
      show (Except.ok (), fs) = _ ↔ Except.ok fs = _
      simp
  | cons entry walked ih =>
      rw [copyPartly]
      cases h : copyEntry sys target fs entry with
      | ok next => rw [copy_cons h]; exact ih
      | error err =>
          show _ ↔ (copyEntry sys target fs entry >>= fun fs =>
            walked.foldlM (copyEntry sys target) fs) = _
          rw [h]
          constructor <;> intro hok <;> cases hok

end Zos4.Bootstrap
