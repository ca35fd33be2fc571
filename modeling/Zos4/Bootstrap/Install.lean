import Zos4.Bootstrap.WorkDir

/-!
# Installing packages

`bootstrap.rs`: a package is downloaded and mounted, its files are copied to the root, and
its services are started. `update_bootstrap` does that with the package of the bootstrap
binary, after it has renamed the binary that runs, and `install` with the packages of the
tag that belongs to the run mode; both do it in the work directory.

A download is retried without an end, so a function is followed for a number of attempts of
each download, and returns `none` if one of them is not over by then.
-/

namespace Zos4.Bootstrap

open Zos4.Files Zos4.Interaction

/-! ## A package -/

/-- A package that is mounted. Its entries are in the order they are walked in. -/
structure Mounted where
  tree : Package Bytes
  sys : System
  cuts : Location → Cut
  followed : Followed

structure PackageCalls where
  /-- By the attempt, as `mount`. -/
  download : Nat → DownloadCalls
  mount : Nat → Except BootError Mounted

def withContext {α : Type} (msg : String) : Except Stop α → Except Stop α
  | .error (.error err) => .error (.error (.context err msg))
  | r => r

def downloadOnce (flist : Flist) (calls : Nat → DownloadCalls) (i : Nat)
    (workdir : String → Option Bytes) : Attempt Stop Unit × (String → Option Bytes) :=
  let (r, file) := flist.download (calls i) (workdir flist.name)
  (attempt (withContext ("failed to download flist: " ++ flist.url) r),
    Function.update workdir flist.name file)

def mountOnce (flist : Flist) (mount : Nat → Except BootError Mounted) (i : Nat) (_ : Unit) :
    Attempt Stop Mounted × Unit :=
  (attempt (withContext ("failed to mount flist: " ++ flist.url) (unwind (mount i))), ())

/-- What is done with a package that is mounted. -/
def install_mounted (fs : Mounted) (root : Files) : Except Stop Unit × Files :=
  match copyPartly fs.sys (bytes "/") fs.cuts fs.tree.entries root with
  | (.error err, root) =>
      (.error (.error (.context (.copying err) "failed to copy files")), root)
  | (.ok (), root) =>
      match (run_all fs.tree fs.followed).2 with
      | .ok () => (.ok (), root)
      | .error err => (.error (.error (.reading err)), root)

def install_package (calls : PackageCalls) (fuel : Nat) (flist : Flist) (w : World) :
    Option (Except Stop Unit × World) :=
  match retryFor (downloadOnce flist calls.download) fuel 0 w.workdir with
  | none => none
  | some (.error stop, workdir) => some (.error stop, { w with workdir := workdir })
  | some (.ok (), workdir) =>
      match (retryTimes (mountOnce flist calls.mount) 10 0 ()).1 with
      | .error stop => some (.error stop, { w with workdir := workdir })
      | .ok fs =>
          let (r, root) := install_mounted fs w.root
          some (r, { workdir := workdir, root := root })

/-- With the calls of each package, by its place in the list. -/
def install_packages (calls : Nat → PackageCalls) (fuel : Nat) :
    Nat → List Flist → World → Option (Except Stop Unit × World)
  | _, [], w => some (.ok (), w)
  | i, package :: packages, w =>
      match install_package (calls i) fuel package w with
      | none => none
      | some (.error stop, w) => some (.error stop, w)
      | some (.ok (), w) => install_packages calls fuel (i + 1) packages w

/-! ## `install` -/

structure InstallCalls where
  /-- Those of the two repositories, the one that is listed and that of the tag. -/
  zos : RepoCalls
  client : RepoCalls
  workDir : WorkDirCalls
  writeTag : WriteCalls
  package : Nat → PackageCalls

def FLIST_TAG_FILE : Location := [bytes "tmp", bytes "tag.info"]

/-- The name of the tag link. -/
def listname (cfg : Config) : String :=
  let runmode := cfg.runmode.fmt
  match cfg.version with
  | .v3 => runmode
  | .v3Light => runmode ++ "-v3light"
  | .v4 => runmode ++ "-v4"

def find_tag (cfg : Config) (lists : List Flist) : Option Flist :=
  lists.find? fun list => list.kind = .tagLink ∧ list.name = listname cfg

/-- The tag link that is in force, if there is one. -/
def linked (calls : InstallCalls) (cfg : Config) : Except Stop (Option Flist) := do
  let repo ← unwind (Repo.new calls.zos "tf-zos")
  let lists ← unwind (repo.list calls.zos)
  pure (find_tag cfg lists)

/-- The packages that are to be installed. -/
def tagged (calls : InstallCalls) (tag : Flist) : Except Stop (List Flist) := do
  let (repo, tag) ← tag.tag_link
  let client ← unwind (Repo.new calls.client repo)
  match ← unwind (client.list_tag calls.client tag) with
  | none => .error (.error (.text "tag is not found"))
  | some packages => .ok packages

/-- What is done in the work directory. -/
def install_tag (calls : InstallCalls) (fuel : Nat) (tag : Option Flist) (w : World) :
    Option (Except Stop Unit × World) :=
  match tag with
  | none => some (.error (.error (.text "no tag found attached to this version")), w)
  | some tag =>
      match tag.write calls.writeTag FLIST_TAG_FILE w.root with
      | (.error err, root) => some (.error (.error err), { w with root := root })
      | (.ok (), root) =>
          match tagged calls tag with
          | .error stop => some (.error stop, { w with root := root })
          | .ok packages =>
              install_packages calls.package fuel 0 packages { w with root := root }

def install (calls : InstallCalls) (fuel : Nat) (cfg : Config) (w : World) :
    Option (Except Stop Unit × World) :=
  match linked calls cfg with
  | .error stop => some (.error stop, w)
  | .ok tag => runIn calls.workDir (install_tag calls fuel tag) w

/-! ## `update` -/

structure UpdateCalls where
  workDir : WorkDirCalls
  repo : RepoCalls
  rename : Option BootError
  package : PackageCalls

def BOOTSTAP_FLIST : String := "bootstrap-v4:latest.flist"

def getOnce (calls : RepoCalls) (repo : Repo) (i : Nat) (_ : Unit) : Attempt Stop Flist × Unit :=
  (attempt (unwind (repo.get calls i BOOTSTAP_FLIST)), ())

/-- `fs::rename` of a file that is no directory. -/
def fsRename (err : Option BootError) (src dst : Location) (fs : Files) : Except BootError Files :=
  match err with
  | some err => .error err
  | none =>
      match fs src, fs dst with
      | none, _ => .error (.text "No such file or directory (os error 2)")
      | some _, some .dir => .error (.text "Is a directory (os error 21)")
      | some _, _ => .ok (fs.rename src dst)

/-- `bin` is where the binary is that runs. -/
def update_bootstrap (calls : UpdateCalls) (fuel : Nat) (bin : Location) (w : World) :
    Option (Except Stop Unit × World) :=
  match Repo.new calls.repo "tf-autobuilder" with
  | .error err => some (.error (.error err), w)
  | .ok repo =>
      match retryFor (getOnce calls.repo repo) fuel 0 () with
      | none => none
      | some (.error stop, _) => some (.error stop, w)
      | some (.ok flist, _) =>
          match fsRename calls.rename bin (withSuffix bin (bytes ".bak")) w.root with
          | .error err => some (.error (.error err), w)
          | .ok root => install_package calls.package fuel flist { w with root := root }

def update (calls : UpdateCalls) (fuel : Nat) (bin : Location) (w : World) :
    Option (Except Stop Unit × World) :=
  runIn calls.workDir (update_bootstrap calls fuel bin) w

end Zos4.Bootstrap
