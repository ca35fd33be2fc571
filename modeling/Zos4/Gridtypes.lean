/-!
# The grid types the node works with

The records a deployment is made of, as far as the node reads them. They are
declared in the zosbase module the repository builds on; what is modelled here
is their fields and the small predicates the engine calls on them. Machine
integers keep their width: a version and a twin are 32 bits, a contract is 64.

Go's `error` values are modelled by `GoError`, which keeps exactly what the
code looks at: the sentinels it compares with `errors.Is`, the responses it
searches for with `errors.As`, and the text of `Error()`.
-/

namespace Zos4

abbrev Name := String
abbrev TwinID := UInt32
abbrev ContractID := UInt64
abbrev Timestamp := Int

/-- Raw JSON: never looked into by the engine. -/
abbrev RawMessage := String

/-- The workload types the node names, and whatever else is registered. -/
inductive WorkloadType where
  | zmount | volume | quantumSafeFS | networkLight | publicIPv4 | publicIP
  | zmachineLight | zmachine | zlogs
  | other (name : String)
  deriving DecidableEq, Repr

/-- The states of a result; `unset` is Go's zero value. -/
inductive ResultState where
  | unset | init | unchanged | error | ok | deleted | paused
  deriving DecidableEq, Repr

/-- `IsOkay`: the workload is in use, running or paused. -/
def ResultState.isOkay (s : ResultState) : Bool := s == .ok || s == .paused

structure Result where
  created : Timestamp
  state : ResultState
  error : String
  data : RawMessage
  deriving DecidableEq, Repr

structure Workload where
  version : UInt32
  name : Name
  type : WorkloadType
  data : RawMessage
  metadata : String
  description : String
  result : Result
  deriving DecidableEq, Repr

/-- `WithResults`: the same workload with another result. -/
def Workload.withResults (wl : Workload) (result : Result) : Workload :=
  { wl with result := result }

@[simp] theorem Workload.withResults_name (wl : Workload) (r : Result) :
    (wl.withResults r).name = wl.name := rfl

@[simp] theorem Workload.withResults_type (wl : Workload) (r : Result) :
    (wl.withResults r).type = wl.type := rfl

@[simp] theorem Workload.withResults_result (wl : Workload) (r : Result) :
    (wl.withResults r).result = r := rfl

/-- The key a deployment is stored under. -/
structure DeploymentKey where
  twin : TwinID
  contract : ContractID
  deriving DecidableEq, Repr

structure WorkloadID where
  twin : TwinID
  deployment : ContractID
  name : Name
  deriving DecidableEq, Repr

def WorkloadID.key (id : WorkloadID) : DeploymentKey := ⟨id.twin, id.deployment⟩

theorem WorkloadID.eq_of_key {id id' : WorkloadID} (hkey : id.key = id'.key)
    (hname : id.name = id'.name) : id = id' := by
  obtain ⟨twin, deployment, name⟩ := id
  obtain ⟨htwin, hdeployment⟩ := DeploymentKey.mk.inj hkey
  subst htwin hdeployment hname
  rfl

def WorkloadID.string (id : WorkloadID) : String :=
  toString id.twin.toNat ++ "-" ++ toString id.deployment.toNat ++ "-" ++ id.name

structure WorkloadWithID where
  workload : Workload
  id : WorkloadID
  deriving DecidableEq, Repr

/-- Who has to sign a deployment; compared and stored, never inspected. -/
structure SignatureRequirement where
  raw : RawMessage
  deriving DecidableEq, Repr

structure Deployment where
  version : UInt32
  twinID : TwinID
  contractID : ContractID
  metadata : String
  description : String
  expiration : Timestamp
  signatureRequirement : SignatureRequirement
  workloads : List Workload
  deriving DecidableEq, Repr

def Deployment.key (dl : Deployment) : DeploymentKey := ⟨dl.twinID, dl.contractID⟩

/-- The workload of a deployment together with its global id. -/
def Deployment.withID (dl : Deployment) (wl : Workload) : WorkloadWithID :=
  ⟨wl, ⟨dl.twinID, dl.contractID, wl.name⟩⟩

@[simp] theorem Deployment.withID_workload (dl : Deployment) (wl : Workload) :
    (dl.withID wl).workload = wl := rfl

@[simp] theorem Deployment.withID_key (dl : Deployment) (wl : Workload) :
    (dl.withID wl).id.key = dl.key := rfl

@[simp] theorem Deployment.withID_name (dl : Deployment) (wl : Workload) :
    (dl.withID wl).id.name = wl.name := rfl

/-- `ByType`: the workloads of the given types, in the order they are listed. -/
def Deployment.byType (dl : Deployment) (types : List WorkloadType) :
    List WorkloadWithID :=
  (dl.workloads.filter fun wl => types.contains wl.type).map dl.withID

theorem Deployment.mem_byType {dl : Deployment} {types : List WorkloadType}
    {wl : WorkloadWithID} :
    wl ∈ dl.byType types ↔
      ∃ w ∈ dl.workloads, w.type ∈ types ∧ wl = dl.withID w := by
  simp only [Deployment.byType, List.mem_map, List.mem_filter,
    List.contains_iff_mem]
  constructor
  · rintro ⟨w, ⟨hw, ht⟩, rfl⟩; exact ⟨w, hw, ht, rfl⟩
  · rintro ⟨w, hw, ht, rfl⟩; exact ⟨w, ⟨hw, ht⟩, rfl⟩

def Deployment.names (dl : Deployment) : List Name := dl.workloads.map (·.name)

theorem Deployment.mem_names {dl : Deployment} {n : Name} :
    n ∈ dl.names ↔ ∃ wl ∈ dl.workloads, wl.name = n := List.mem_map

/-- `IsActive`: some workload is neither deleted nor in error. -/
def Deployment.isActive (dl : Deployment) : Bool :=
  dl.workloads.any fun wl =>
    !(wl.result.state == .deleted || wl.result.state == .error)

/-- The operations an upgrade from one version of a deployment to the next is
made of. -/
inductive UpgradeOperation where
  | opRemove | opAdd | opUpdate
  deriving DecidableEq, Repr

structure UpgradeOp where
  wlID : WorkloadWithID
  op : UpgradeOperation
  deriving DecidableEq, Repr

/-! ## Errors -/

/-- The sentinel errors the code tests for. -/
inductive Sentinel where
  | noActionNeeded | workloadNotExist | deploymentNotExists
  | deploymentExists | workloadExists | invalidVersion
  | deploymentUpgradeValidationError
  deriving DecidableEq, Repr

/-- A non-nil Go error. `response` is the package's own error type, which
carries the state a workload ends in; its cause is absent in `Ok()`. -/
inductive GoError where
  | sentinel (s : Sentinel)
  | text (msg : String)
  | wrap (cause : GoError) (msg : String)
  | stateOnly (s : ResultState)
  | response (s : ResultState) (cause : GoError)
  deriving DecidableEq, Repr

/-- `errors.Is` against one of the sentinels. -/
def GoError.is (target : Sentinel) : GoError → Bool
  | .sentinel s => s == target
  | .text _ => false
  | .wrap cause _ => cause.is target
  | .stateOnly _ => false
  | .response _ cause => cause.is target

/-- `errors.As` against the package's response type: the state it carries. -/
def GoError.asResponse : GoError → Option ResultState
  | .sentinel _ => none
  | .text _ => none
  | .wrap cause _ => cause.asResponse
  | .stateOnly s => some s
  | .response s _ => some s

/-- What the data of a workload decodes to, as far as the engine looks: the
two mount types carry a size. -/
inductive WorkloadData where
  | zmount (size : UInt64)
  | volume (size : UInt64)
  | other

/-! ## What the zosbase module computes

The pure functions of zosbase the engine calls and whose source is not in this
repository. They are parameters of the whole model; what a result needs of one
is a hypothesis on it, named where it is used. -/

class Zosbase where
  /-- The texts of the sentinels and of the workload types. -/
  sentinelText : Sentinel → String
  typeText : WorkloadType → String
  /-- The hash a contract carries. The code compares hexadecimal texts, and two
  texts agree exactly when the hashes do. -/
  Hash : Type
  decEqHash : DecidableEq Hash
  challengeHash : Deployment → Except GoError Hash
  workloadData : Workload → Except GoError WorkloadData
  /-- `Deployment.Upgrade`: the operations from the first to the second. -/
  upgrade : Deployment → Deployment → Except GoError (List UpgradeOp)
  /-- `Deployment.Valid`. -/
  valid : Deployment → Option GoError

variable [Zosbase]

instance : DecidableEq Zosbase.Hash := Zosbase.decEqHash

/-- The text `Error()` gives. -/
def GoError.error : GoError → String
  | .sentinel s => Zosbase.sentinelText s
  | .text msg => msg
  | .wrap cause msg => msg ++ ": " ++ cause.error
  | .stateOnly _ => ""
  | .response _ cause => cause.error

/-- What `Upgrade` is documented to do: it insists on the next version, and
lists a removal for every name only the source has, an addition for every name
only the target has, an update for names in both whose version changed, each
name once and under the global id of the deployment, and nothing else. -/
structure UpgradeLaws (source target : Deployment) (ops : List UpgradeOp) :
    Prop where
  version : target.version = source.version + 1
  key : target.key = source.key
  ids : ∀ op ∈ ops, op.wlID.id.key = target.key ∧
    op.wlID.id.name = op.wlID.workload.name
  nodup : (ops.map fun op => op.wlID.id.name).Nodup
  remove : ∀ n, (∃ op ∈ ops, op.op = .opRemove ∧ op.wlID.id.name = n) ↔
    n ∈ source.names ∧ n ∉ target.names
  add : ∀ n, (∃ op ∈ ops, op.op = .opAdd ∧ op.wlID.id.name = n) ↔
    n ∈ target.names ∧ n ∉ source.names
  update : ∀ n, (∃ op ∈ ops, op.op = .opUpdate ∧ op.wlID.id.name = n) →
    n ∈ source.names ∧ n ∈ target.names

/-- `Upgrade` keeps the laws it is documented to keep, on any deployment with
one workload to a name. -/
def LawfulUpgrade : Prop :=
  ∀ source target ops, source.names.Nodup →
    Zosbase.upgrade source target = .ok ops → UpgradeLaws source target ops

end Zos4
