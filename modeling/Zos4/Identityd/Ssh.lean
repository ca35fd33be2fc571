import Zos4.Files.Path

/-!
# The keys of the users that may log in

`ssh.go`: `manageSSHKeys` removes the file of the authorized keys, makes it anew and
writes the keys of one user after the other into it, as they come over the network. A
user's keys are asked for up to four times.

Of the file system, only the file is read and changed: its content, if it is there.
`Calls` is what the other things come to, and which call fails.
-/

namespace Zos4.Identityd

open Zos4.Files

inductive SshError where
  | notExist
  | text (msg : String)
  | wrap (cause : SshError) (msg : String)
  deriving DecidableEq, Repr

inductive RunningMode where
  | dev | qa | test | main
  deriving DecidableEq, Repr

abbrev FarmID := UInt32

def mainNetFarms : List FarmID := [1, 79, 77, 76, 3997]

structure Environment where
  runningMode : RunningMode
  farmID : FarmID

/-- What `http.Get` comes to, with the body up to where `io.Copy` stops: the bytes that
were written by then, and the error, if it is one that stops it. -/
inductive Response where
  | failed (err : SshError)
  | answered (status : Nat) (body : Bytes) (err : Option SshError)
  deriving DecidableEq

structure Calls where
  /-- `GetOne` of the kernel parameter `ssh-user`. -/
  sshUser : Option String
  /-- Another error than that there is no file. -/
  remove : Option String
  env : Environment
  config : Except SshError (List String)
  testConfig : Except SshError (List String)
  openFile : Option SshError
  /-- By the place of the user in the list, the attempt and the URL. -/
  get : Nat → Nat → String → Response

/-- The content of `authorized_keys`. -/
abbrev KeyFile := Option Bytes

def remove (calls : Calls) (fs : KeyFile) : Option SshError × KeyFile :=
  match calls.remove with
  | some msg => (some (.text msg), fs)
  | none =>
      match fs with
      | none => (some .notExist, none)
      | some _ => (none, none)

/-- `OpenFile` with `O_CREATE`: what is there stays. -/
def openFile (calls : Calls) (fs : KeyFile) : Except SshError Bytes :=
  match calls.openFile with
  | some err => .error err
  | none => .ok (fs.getD [])

/-! ## The keys of a user -/

/-- How an attempt ends. A permanent error is not retried. -/
inductive Fetched where
  | ok
  | permanent (err : SshError)
  | retry (err : SshError)
  deriving DecidableEq

def keysURL (user : String) : String := "https://github.com/" ++ user ++ ".keys"

/-- `fetchKey`, with the file it writes into. -/
def fetchKey (user : String) (res : Response) (file : Bytes) : Fetched × Bytes :=
  match res with
  | .failed err => (.retry (err.wrap "failed to fetch user keys"), file)
  | .answered status body err =>
      if status = 404 then
        (.permanent (.text ("failed to get user keys for user (" ++ user ++
          "): keys not found")), file)
      else if status ≠ 200 then
        (.retry (.text ("failed to get user keys for user (" ++ user ++
          ") with status code " ++ toString status)), file)
      else
        match err with
        | none => (.ok, file ++ body)
        | some err => (.retry err, file ++ body)

/-- `backoff.Retry` of `fetchKey`, from an attempt on: with the retries that are left. -/
def retry (user : String) (get : Nat → Response) : Nat → Nat → Bytes → Option SshError × Bytes
  | 0, attempt, file =>
      match fetchKey user (get attempt) file with
      | (.ok, file) => (none, file)
      | (.permanent err, file) => (some err, file)
      | (.retry err, file) => (some err, file)
  | retries + 1, attempt, file =>
      match fetchKey user (get attempt) file with
      | (.ok, file) => (none, file)
      | (.permanent err, file) => (some err, file)
      | (.retry _, file) => retry user get retries (attempt + 1) file

/-- The loop over the users, from a place on. An error is only logged. -/
def fetchKeys (calls : Calls) : Nat → List String → Bytes → Bytes
  | _, [], file => file
  | i, user :: users, file =>
      fetchKeys calls (i + 1) users
        (retry user (fun attempt => calls.get i attempt (keysURL user)) 3 0 file).2

/-! ## `manageSSHKeys` -/

def authorizedUsers (calls : Calls) : Except SshError (List String) := do
  let config ← calls.config
  let users ←
    if calls.env.runningMode = .main ∧ calls.env.farmID ∈ mainNetFarms ∧ config = [] then
      -- one of the managed farms, and no users in the main configuration
      calls.testConfig
    else .ok config
  match calls.sshUser with
  | some extraUser =>
      if calls.env.runningMode = .main then .ok users else .ok (users ++ [extraUser])
  | none => .ok users

def manageSSHKeys (calls : Calls) (fs : KeyFile) : Option SshError × KeyFile :=
  match remove calls fs with
  | (err, fs) =>
      if err = none ∨ err = some .notExist then
        match authorizedUsers calls with
        | .error err => (some err, fs)
        | .ok users =>
            match openFile calls fs with
            | .error err => (some (err.wrap "failed to open authorized_keys files"), fs)
            | .ok file => (none, some (fetchKeys calls 0 users file))
      else
        ((err.map (·.wrap "failed to deleted authorized_keys file")), fs)

end Zos4.Identityd
