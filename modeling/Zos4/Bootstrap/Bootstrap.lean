import Zos4.Files.Names
import Zos4.Files.Package

/-!
# Starting the services of a package

`run_all` of `bootstrap.rs`: the services of the package that is mounted are those
`etc/zinit` has a file for, and zinit is asked to monitor each of them, whatever it
answers.

The directory is listed, and an entry taken for a file, through links. What the links
lead to is a matter of the system (`Followed`), and they may lead out of the package.
-/

namespace Zos4.Bootstrap

open Zos4.Files

inductive ReadError where
  | notFound
  | notADirectory
  | text (msg : String)
  deriving DecidableEq, Repr

/-- What there is behind the links on the way to `etc/zinit` and in it. -/
structure Followed where
  listing : Except ReadError (List Bytes)
  isFile : Bytes → Bool

/-- `read_dir` of the directory that these names lead to. -/
def readDir (fs : Package Bytes) (followed : Followed) (dir : Location) :
    List Bytes → Except ReadError (List Bytes)
  | [] =>
      match fs.find dir with
      | none => .error .notFound
      | some .dir => .ok (fs.children dir)
      | some (.link _) => followed.listing
      | some _ => .error .notADirectory
  | name :: names =>
      match fs.find dir with
      | none => .error .notFound
      | some .dir => readDir fs followed (dir ++ [name]) names
      | some (.link _) => followed.listing
      | some _ => .error .notADirectory

/-- `is_file` of an entry of `etc/zinit`. -/
def isFile (fs : Package Bytes) (followed : Followed) (path : Location) (name : Bytes) :
    Bool :=
  match fs.find (path ++ [name]) with
  | some (.file _) => true
  | some (.link _) | none => followed.isFile name
  | some _ => false

def cfg : Location := [bytes "etc", bytes "zinit"]

/-- The services that zinit is asked to monitor, and what is returned. -/
def run_all (fs : Package Bytes) (followed : Followed) :
    List Bytes × Except ReadError Unit :=
  match readDir fs followed [] cfg with
  | .error err => ([], if err = .notFound then .ok () else .error err)
  | .ok services =>
      (services.filterMap fun name =>
        if !isFile fs followed cfg name then none
        else if !isStr name then none
        else (rfind name (bytes ".yaml")).map fun idx => name.take idx,
      .ok ())

end Zos4.Bootstrap
