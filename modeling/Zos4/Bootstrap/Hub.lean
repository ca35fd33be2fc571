import Zos4.Bootstrap.Bootstrap
import Zos4.Bootstrap.Zfs
import Zos4.Interaction.Retry

/-!
# The flists of the hub

`hub.rs`: a repository on the hub lists its flists, and those of a tag, and each can be
downloaded into a file. What is not the answer of the program itself is left to the calls:
`RepoCalls` are those that one `Repo` makes, `DownloadCalls` those of one `download`.

A function that may panic returns a `Stop` where others return an error.
-/

namespace Zos4.Bootstrap

open Zos4.Files Zos4.Interaction

inductive BootError where
  | text (msg : String)
  | context (cause : BootError) (msg : String)
  | copying (err : CopyError)
  | reading (err : ReadError)
  deriving DecidableEq, Repr

inductive Stop where
  | error (err : BootError)
  | panic (msg : String)
  deriving DecidableEq, Repr

/-- `Result`, of a function that does not panic. -/
def unwind {α : Type} : Except BootError α → Except Stop α
  | .ok a => .ok a
  | .error err => .error (.error err)

/-- An attempt of a closure that is retried. -/
def attempt {α : Type} : Except Stop α → Attempt Stop α
  | .ok a => .done a
  | .error (.error err) => .again (.error err)
  | .error (.panic msg) => .stop (.panic msg)

/-! ## Answers -/

/-- The code and what is displayed after it. -/
structure Status where
  code : Nat
  reason : String
  deriving DecidableEq, Repr

def Status.isSuccess (status : Status) : Bool := 200 ≤ status.code ∧ status.code < 300

def Status.text (status : Status) : String := toString status.code ++ " " ++ status.reason

/-- What `get` comes to, with what the body is read as. -/
inductive Response (α : Type) where
  | failed (err : BootError)
  | answered (status : Status) (body : α)
  deriving DecidableEq

/-- What `json` comes to. -/
abbrev Json (α : Type) := Except BootError α

/-- The bytes up to where `copy` stops, and the error, if it is one that stops it. -/
structure Body where
  content : Bytes
  err : Option BootError
  deriving DecidableEq

/-! ## Repositories -/

inductive RunMode where
  | prod | test | dev | qa
  deriving DecidableEq, Repr

def RunMode.fmt : RunMode → String
  | .prod => "production"
  | .qa => "qa"
  | .test => "testing"
  | .dev => "development"

inductive Version where
  | v3 | v3Light | v4
  deriving DecidableEq, Repr

structure Config where
  runmode : RunMode
  version : Version
  deriving DecidableEq, Repr

inductive Kind where
  | regular | symlink | tag | tagLink
  deriving DecidableEq, Repr

/-- What is serialized of an `Flist`. -/
structure Info where
  kind : Kind
  name : String
  target : Option String
  deriving DecidableEq, Repr

/-- `url` is skipped when it is deserialized, and empty then. -/
structure Flist extends Info where
  url : String := ""
  deriving DecidableEq, Repr

structure RepoCalls where
  /-- `Config::current`. -/
  config : Except BootError Config
  /-- The `v4hub_url` of the configuration, by its URL and the attempt. -/
  zosConfig : String → Nat → Response (Json (List String))
  /-- By the number of the call of `get_working_hub` and the URL. -/
  health : Nat → String → Response Unit
  list : String → Response (Json (List Info))
  tags : String → Response (Json (List Info))
  /-- By the attempt and the URL. -/
  flist : Nat → String → Response (Json Info)

/-- The addresses of the hub, of which there is one. -/
abbrev Hubs := { hubs : List String // hubs ≠ [] }

def fallback : Hubs := ⟨["https://v4.hub.grid.tf"], by simp⟩

def config_filename : RunMode → String
  | .prod => "production.json"
  | .dev => "development.json"
  | .test => "testing.json"
  | .qa => "qa.json"

def config_url (runmode : RunMode) : String :=
  "https://github.com/threefoldtech/zos-config/raw/main/" ++ "/" ++ config_filename runmode

def get_hub_url (calls : RepoCalls) (runmode : RunMode) : Hubs :=
  let fetch (i : Nat) (_ : Unit) : Attempt String (Json (List String)) × Unit :=
    match calls.zosConfig (config_url runmode) i with
    | .answered status config =>
        (if status.isSuccess then .done config else .again "Retrying...", ())
    | .failed _ => (.again "Retrying...", ())
  match (retryTimes fetch 5 0 ()).1 with
  | .ok (.ok (hub :: hubs)) => ⟨hub :: hubs, by simp⟩
  | .ok (.ok []) | .ok (.error _) | .error _ => fallback

structure Repo where
  name : String
  hub : Hubs

def Repo.new (calls : RepoCalls) (name : String) : Except BootError Repo := do
  let config ← calls.config
  pure ⟨name, get_hub_url calls config.runmode⟩

def is_hub_working (health : String → Response Unit) (hub_url : String) : Bool :=
  match health (hub_url ++ "/api/flist") with
  | .answered status _ => status.isSuccess
  | .failed _ => false

def Repo.get_working_hub (repo : Repo) (health : String → Response Unit) : String :=
  (repo.hub.1.find? (is_hub_working health)).getD (repo.hub.1.head repo.hub.2)

def Repo.list (calls : RepoCalls) (repo : Repo) : Except BootError (List Flist) :=
  let url := repo.get_working_hub (calls.health 0) ++ "/api/flist/" ++ repo.name
  match calls.list url with
  | .failed err => .error err
  | .answered status info =>
      if status.code ≠ 200 then .error (.text ("failed to get flist info: " ++ status.text))
      else info.map fun info => info.mapIdx fun i flist =>
        { flist with
          url := repo.get_working_hub (calls.health (i + 1)) ++ "/" ++ repo.name ++ "/" ++
            flist.name }

/-- The URL of a flist of a tag, from its target, which is its full name. -/
def target_url (hub : String) (flist : Info) : Flist :=
  if flist.kind = .regular then { flist with }
  else
    match flist.target with
    | none => { flist with }
    | some target => { flist with url := hub ++ "/" ++ target }

def Repo.list_tag (calls : RepoCalls) (repo : Repo) (tag : String) :
    Except BootError (Option (List Flist)) :=
  let url := repo.get_working_hub (calls.health 0) ++ "/api/flist/" ++ repo.name ++ "/tags/" ++
    tag
  match calls.tags url with
  | .failed err => .error err
  | .answered status info =>
      if status.code = 200 then
        info.map fun info => some (info.mapIdx fun i flist =>
          target_url (repo.get_working_hub (calls.health (i + 1))) flist)
      else if status.code = 404 then .ok none
      else .error (.text ("failed to get flist info: " ++ status.text))

/-- With the attempt it is called in. -/
def Repo.get (calls : RepoCalls) (repo : Repo) (i : Nat) (flist : String) :
    Except BootError Flist :=
  let url := repo.get_working_hub (calls.health (2 * i)) ++ "/api/flist/" ++ repo.name ++ "/" ++
    flist ++ "/light"
  match calls.flist i url with
  | .failed err => .error err
  | .answered status info =>
      if status.code ≠ 200 then .error (.text ("failed to get flist info: " ++ status.text))
      else info.map fun info =>
        { info with
          url := repo.get_working_hub (calls.health (2 * i + 1)) ++ "/" ++ repo.name ++ "/" ++
            flist }

/-! ## Flists -/

def split (s : String) : List String := (s.toList.splitOn '/').map String.ofList

def Flist.tag_link (flist : Flist) : Except Stop (String × String) :=
  if flist.kind ≠ .tagLink then .error (.panic "invalid flist type must be a taglink")
  else
    match flist.target with
    | none => .error (.panic "called `Option::unwrap()` on a `None` value")
    | some target =>
        match split target with
        | [repo, tags, tag] =>
            if tags = "tags" then .ok (repo, tag)
            else .error (.panic "assertion `left == right` failed")
        | _ => .error (.panic "assertion `left == right` failed: link must be 3 parts")

structure DownloadCalls where
  /-- By the name of the file. -/
  openFile : String → Option BootError
  get : String → Response Body

/-- A file that is written from its beginning keeps what is behind. -/
def overwrite (content file : Bytes) : Bytes := content ++ file.drop content.length

/-- With the file it is downloaded to, if it is there. -/
def Flist.download (flist : Flist) (calls : DownloadCalls) (out : Option Bytes) :
    Except Stop Unit × Option Bytes :=
  match flist.kind with
  | .tag | .tagLink =>
      (.error (.panic "invalid flist type, must be regular or symlink"), out)
  | .regular | .symlink =>
      match calls.openFile flist.name with
      | some err => (.error (.error err), out)
      | none =>
          let file := out.getD []
          match calls.get flist.url with
          | .failed err => (.error (.error err), some file)
          | .answered status body =>
              if !status.isSuccess then
                (.error (.error (.text ("failed to download flist: " ++ status.text))),
                  some file)
              else
                (match body.err with
                  | none => .ok ()
                  | some err => .error (.error err),
                  some (overwrite body.content file))

structure WriteCalls where
  toVec : Flist → Except BootError Bytes
  create : Option BootError
  sys : System
  /-- The bytes that are written before, of one that fails. -/
  writeAll : Option (Nat × BootError)

/-- The info as json, in a file of the root. -/
def Flist.write (flist : Flist) (calls : WriteCalls) (out : Location) (fs : Files) :
    Except BootError Unit × Files :=
  match calls.toVec flist, calls.create with
  | .error err, _ | .ok _, some err => (.error err, fs)
  | .ok info, none =>
      let file :=
        match calls.sys.place fs out with
        | .at dst => calls.sys.opened fs dst
        | t => t
      match writeTo info fs file, calls.writeAll with
      | none, _ => (.error (.text "failed to open file"), fs)
      | some fs, none => (.ok (), fs)
      | some _, some (n, err) => (.error err, (writeTo (info.take n) fs file).getD fs)

end Zos4.Bootstrap
