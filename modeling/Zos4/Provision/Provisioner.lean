import Zos4.Gridtypes

/-!
# The map provisioner

`provisiner.go`: the provisioner that looks a workload's manager up by type
and turns what the manager says into a `Result`. A manager is a parameter. It
may answer anything, and what it answers may depend on the whole node, so
`Node` is everything behind the managers: the set of installed workloads,
which the results below talk about, and a rest of any type.

A provisioner answers with a result and an error at once, as the Go methods
do; `installWorkload` goes on with the result of a call that failed.
-/

namespace Zos4.Provision

variable [Zosbase]

/-- What the managers act on. A workload is installed from the moment its
manager's `Provision` succeeds until a `Deprovision` of it succeeds. -/
structure Node (μ : Type) where
  installed : WorkloadID → Bool
  rest : μ

/-- What a manager hands back: the bytes `json.Marshal` makes of its data, or
the marshalling error, and its error. -/
structure Reply where
  data : Except GoError RawMessage
  err : Option GoError

structure Pauser (μ : Type) where
  pause : WorkloadWithID → Node μ → Option GoError × μ
  resume : WorkloadWithID → Node μ → Option GoError × μ

/-- A type manager, with its optional updater and pauser. -/
structure Manager (μ : Type) where
  provision : WorkloadWithID → Node μ → Reply × μ
  deprovision : WorkloadWithID → Node μ → Option GoError × μ
  updater : Option (WorkloadWithID → Node μ → Reply × μ)
  pauser : Option (Pauser μ)

/-- `provision.Provisioner`, the interface the engine drives. -/
structure Provisioner (μ : Type) where
  provision : Timestamp → WorkloadWithID → Node μ → (Result × Option GoError) × μ
  deprovision : WorkloadWithID → Node μ → Option GoError × μ
  pause : Timestamp → WorkloadWithID → Node μ → (Result × Option GoError) × μ
  resume : Timestamp → WorkloadWithID → Node μ → (Result × Option GoError) × μ
  update : Timestamp → WorkloadWithID → Node μ → (Result × Option GoError) × μ
  canUpdate : WorkloadType → Bool

/-- `Ok()`, the response that is an error only by type. -/
def okResponse : GoError := .stateOnly .ok

/-- `Paused()`. -/
def pausedResponse : GoError := .response .paused (.text "paused")

/-- `setState`: fill in a result's time, state and error text. -/
def setState (now : Timestamp) (result : Result) : Option GoError → Result
  | none => { result with created := now, state := .ok, error := "" }
  | some err =>
      { result with
        created := now
        state := err.asResponse.getD .error
        error := err.error }

def Result.zero : Result := ⟨0, .unset, "", ""⟩

/-- The workload without its result. -/
def Workload.definition (wl : Workload) : Workload := wl.withResults Result.zero

/-- `buildResult`. -/
def buildResult (now : Timestamp) (reply : Reply) : Result × Option GoError :=
  let result := setState now Result.zero reply.err
  match reply.data with
  | .error err => (result, some (err.wrap "failed to encode result"))
  | .ok br => ({ result with data := br }, none)

def unknownType (wl : WorkloadWithID) : GoError :=
  .text ("unknown workload type '" ++ Zosbase.typeText wl.workload.type ++
    "' for reservation id '" ++ wl.id.string ++ "'")

namespace MapProvisioner

variable {μ : Type} (managers : WorkloadType → Option (Manager μ))

/-- The answer to a manager that reported `ErrNoActionNeeded`, or the result
built from what it said. -/
def answer (now : Timestamp) (reply : Reply) : Result × Option GoError :=
  match reply.err with
  | some err =>
      if err.is .noActionNeeded then (Result.zero, some err)
      else buildResult now reply
  | none => buildResult now reply

def provision (now : Timestamp) (wl : WorkloadWithID) (node : Node μ) :
    (Result × Option GoError) × μ :=
  match managers wl.workload.type with
  | none => ((Result.zero, some (unknownType wl)), node.rest)
  | some manager =>
      let (reply, rest) := manager.provision wl node
      (answer now reply, rest)

def deprovision (wl : WorkloadWithID) (node : Node μ) : Option GoError × μ :=
  match managers wl.workload.type with
  | none => (some (unknownType wl), node.rest)
  | some manager => manager.deprovision wl node

/-- The body `Pause` and `Resume` share. Each is refused outside the state it
leaves; a type without a pauser gets the default response, and the result the
caller passed in is kept up to its time, state and error text. -/
def setLock (required : ResultState) (refusal : String) (default : GoError)
    (action : Pauser μ → WorkloadWithID → Node μ → Option GoError × μ)
    (now : Timestamp) (wl : WorkloadWithID) (node : Node μ) :
    (Result × Option GoError) × μ :=
  if wl.workload.result.state ≠ required then
    ((wl.workload.result, some (.text refusal)), node.rest)
  else
    match managers wl.workload.type with
    | none => ((wl.workload.result, some (unknownType wl)), node.rest)
    | some manager =>
        match manager.pauser with
        | none => ((setState now wl.workload.result (some default), none), node.rest)
        | some mgr =>
            let (err, rest) := action mgr wl node
            ((setState now wl.workload.result err, none), rest)

def pause : Timestamp → WorkloadWithID → Node μ →
    (Result × Option GoError) × μ :=
  setLock managers .ok "can only pause workloads in ok state" pausedResponse
    Pauser.pause

def resume : Timestamp → WorkloadWithID → Node μ →
    (Result × Option GoError) × μ :=
  setLock managers .paused "can only resume workloads in paused state"
    okResponse Pauser.resume

def update (now : Timestamp) (wl : WorkloadWithID) (node : Node μ) :
    (Result × Option GoError) × μ :=
  match managers wl.workload.type with
  | none => ((Result.zero, some (unknownType wl)), node.rest)
  | some manager =>
      match manager.updater with
      | none =>
          ((Result.zero, some (.text ("workload type '" ++
            Zosbase.typeText wl.workload.type ++
            "' does not support updating"))), node.rest)
      | some updater =>
          let (reply, rest) := updater wl node
          (answer now reply, rest)

def canUpdate (typ : WorkloadType) : Bool :=
  match managers typ with
  | none => false
  | some manager => manager.updater.isSome

end MapProvisioner

/-- `NewMapProvisioner`. -/
def mapProvisioner {μ : Type} (managers : WorkloadType → Option (Manager μ)) :
    Provisioner μ where
  provision := MapProvisioner.provision managers
  deprovision := MapProvisioner.deprovision managers
  pause := MapProvisioner.pause managers
  resume := MapProvisioner.resume managers
  update := MapProvisioner.update managers
  canUpdate := MapProvisioner.canUpdate managers

end Zos4.Provision
