import Mathlib.Data.List.Sort
import Zos4.Provision.Calls

/-!
# The provision engine

`engine.go`, function by function, as programs over the calls of `Op`. Two
things of the Go text are left out everywhere: logging, and the context, whose
values only managers read. A method that returns `error` is a program that
returns `Option GoError`, `none` for nil.

Two pieces of the Go runtime are not functions of their arguments, the order a
map is ranged over and the order `sort.Slice` leaves equal elements in.
`GoRuntime` is any choice of the two.
-/

namespace Zos4.Provision

open Zos4.Interaction Prog

class GoRuntime where
  sortSlice : {α : Type} → (α → α → Bool) → List α → List α
  sortSlice_perm : ∀ {α : Type} (less : α → α → Bool) (l : List α),
    (sortSlice less l).Perm l
  rangeMap : {α : Type} → List α → List α
  rangeMap_perm : ∀ {α : Type} (l : List α), (rangeMap l).Perm l

variable [Zosbase] [GoRuntime] {μ : Type}

/-! ## The calls, typed -/

abbrev ask (op : Op) : EngineM op.Ret := @perform engineSig op

abbrev storageCreate (dl : Deployment) : EngineM (Option GoError) :=
  ask (.storageCreate dl)
abbrev storageGet (key : DeploymentKey) : EngineM (Except GoError Deployment) :=
  ask (.storageGet key)
abbrev storageUpdate (key : DeploymentKey) (fields : List Field) :
    EngineM (Option GoError) := ask (.storageUpdate key fields)
abbrev storageCurrent (key : DeploymentKey) (name : Name) :
    EngineM (Except GoError Workload) := ask (.storageCurrent key name)
abbrev storageAdd (key : DeploymentKey) (wl : Workload) :
    EngineM (Option GoError) := ask (.storageAdd key wl)
abbrev storageTransaction (key : DeploymentKey) (wl : Workload) :
    EngineM (Option GoError) := ask (.storageTransaction key wl)
abbrev storageRemove (key : DeploymentKey) (name : Name) :
    EngineM (Option GoError) := ask (.storageRemove key name)
abbrev storageDelete (key : DeploymentKey) : EngineM (Option GoError) :=
  ask (.storageDelete key)
abbrev storageError (key : DeploymentKey) (err : GoError) :
    EngineM (Option GoError) := ask (.storageError key err)
abbrev storageTwins : EngineM (Except GoError (List TwinID)) :=
  ask .storageTwins
abbrev storageByTwin (twin : TwinID) :
    EngineM (Except GoError (List ContractID)) := ask (.storageByTwin twin)
abbrev provisionerProvision (wl : WorkloadWithID) :
    EngineM (Result × Option GoError) := ask (.provision wl)
abbrev provisionerDeprovision (wl : WorkloadWithID) :
    EngineM (Option GoError) := ask (.deprovision wl)
abbrev provisionerUpdate (wl : WorkloadWithID) :
    EngineM (Result × Option GoError) := ask (.update wl)
abbrev enqueue (job : EngineJob) : EngineM (Option GoError) :=
  ask (.enqueue job)
abbrev dequeue : EngineM (Option GoError) := ask .dequeue
abbrev getContract (id : ContractID) :
    EngineM (Except SubstrateError Contract) := ask (.getContract id)
abbrev getNodeRentContract (node : UInt32) :
    EngineM (Except SubstrateError UInt64) := ask (.getNodeRentContract node)
abbrev verify (dl : Deployment) : EngineM (Option GoError) :=
  ask (.verify dl)
abbrev isTwinVerified (twin : TwinID) : EngineM (Except GoError Bool) :=
  ask (.isTwinVerified twin)
abbrev entered (request : Request) : EngineM Unit := ask (.invoke request)
abbrev callback (twin : TwinID) (contract : ContractID) (delete : Bool) :
    EngineM Unit := ask (.callback twin contract delete)
abbrev timeNow : EngineM Timestamp := ask .now

/-- `provisioner.Pause` or `provisioner.Resume`. -/
def provisionerLock (lock : Bool) (wl : WorkloadWithID) :
    EngineM (Result × Option GoError) :=
  match lock with
  | true => ask (.pause wl)
  | false => ask (.resume wl)

def lastTransaction (wl : WorkloadWithID) (err : GoError) : GoError :=
  err.wrap ("failed to get last transaction for '" ++ wl.id.string ++ "'")

/-! ## One workload -/

/-- The result `uninstallWorkload` records, given what `Deprovision` answered. -/
def uninstallResult (reason : String) (now : Timestamp) :
    Option GoError → Result
  | none => ⟨now, .deleted, reason, ""⟩
  | some err => ⟨now, .error, err.error, ""⟩

def uninstallWorkload (wl : WorkloadWithID) (reason : String) :
    EngineM (Option GoError) := do
  match ← storageCurrent wl.id.key wl.id.name with
  | .error err =>
      if err.is .workloadNotExist then pure none else pure (some err)
  | .ok _ =>
      let err ← provisionerDeprovision wl
      let now ← timeNow
      let result := uninstallResult reason now err
      match ← storageTransaction wl.id.key (wl.workload.withResults result) with
      | some err => pure (some err)
      | none =>
          if result.state = .deleted then storageRemove wl.id.key wl.id.name
          else pure none

/-- The second half of `installWorkload`: provision, and record the result
unless the manager had nothing to do. -/
def provisionWorkload (wl : WorkloadWithID) : EngineM (Option GoError) := do
  match ← provisionerProvision wl with
  | (result, none) =>
      storageTransaction wl.id.key (wl.workload.withResults result)
  | (result, some err) =>
      if err.is .noActionNeeded then pure none
      else
        let now ← timeNow
        storageTransaction wl.id.key (wl.workload.withResults
          { result with created := now, state := .error, error := err.error })

def installWorkload (wl : WorkloadWithID) : EngineM (Option GoError) := do
  match ← storageCurrent wl.id.key wl.id.name with
  | .error err =>
      if err.is .workloadNotExist then
        -- a workload an update adds: it was not part of the deployment so far
        match ← storageAdd wl.id.key wl.workload with
        | some err => pure (some (err.wrap "failed to add workload to storage"))
        | none => provisionWorkload wl
      else pure (some (lastTransaction wl err))
  | .ok current =>
      if current.result.state == .deleted || current.result.state == .error then
        pure none
      else provisionWorkload wl

/-- The second half of `updateWorkload`: record what the update answered. A
manager with nothing to do keeps the recorded result, under the new data. -/
def recordUpdate (wl : WorkloadWithID) :
    Result × Option GoError → EngineM (Option GoError)
  | (result, none) =>
      storageTransaction wl.id.key (wl.workload.withResults result)
  | (_, some err) =>
      if err.is .noActionNeeded then do
        match ← storageCurrent wl.id.key wl.id.name with
        | .error err => pure (some err)
        | .ok currentWl =>
            storageTransaction wl.id.key
              (wl.workload.withResults currentWl.result)
      else pure (some err)

def updateWorkload (e : NativeEngine μ) (wl : WorkloadWithID) :
    EngineM (Option GoError) :=
  if e.provisioner.canUpdate wl.workload.type then do
    let res ← provisionerUpdate wl
    recordUpdate wl res
  else
    recordUpdate wl
      (Result.zero, some (.text "can not update this workload type"))

def lockWorkload (wl : WorkloadWithID) (lock : Bool) :
    EngineM (Option GoError) := do
  match ← storageCurrent wl.id.key wl.id.name with
  | .error err => pure (some (lastTransaction wl err))
  | .ok current =>
      if !current.result.state.isOkay then pure none
      else
        match ← provisionerLock lock wl with
        | (result, none) =>
            storageTransaction wl.id.key (wl.workload.withResults result)
        | (_, some err) =>
            if err.is .noActionNeeded then pure none else pure (some err)

/-! ## One deployment -/

/-- The workloads of a deployment, type by type in the given order: the two
nested loops every deployment operation goes through. -/
def inOrder (dl : Deployment) (types : List WorkloadType) :
    List WorkloadWithID :=
  types.flatMap fun typ => dl.byType [typ]

def getMountSize (wl : Workload) : Except GoError UInt64 :=
  match Zosbase.workloadData wl with
  | .error err => .error err
  | .ok (.zmount size) => .ok size
  | .ok (.volume size) => .ok size
  | .ok .other =>
      .error (.text ("failed to get workload as zmount or volume '" ++
        wl.data ++ "'"))

def sortMountWorkloads (workloads : List WorkloadWithID) : List WorkloadWithID :=
  GoRuntime.sortSlice (fun a b =>
    match getMountSize a.workload, getMountSize b.workload with
    | .ok sizeI, .ok sizeJ => sizeJ < sizeI
    | _, _ => false) workloads

/-- The workloads of one type, in the order they are installed in. -/
def installOrder (dl : Deployment) (typ : WorkloadType) : List WorkloadWithID :=
  if typ = .zmount ∨ typ = .volume then sortMountWorkloads (dl.byType [typ])
  else dl.byType [typ]

/-- Run a workload operation whose error is only logged. -/
def logged (op : EngineM (Option GoError)) : EngineM Unit := do
  let _ ← op
  pure ()

def uninstallDeployment (e : NativeEngine μ) (dl : Deployment)
    (reason : String) : EngineM Unit := do
  let errors ← (inOrder dl e.order.reverse).foldlM (fun errors wl => do
    match ← uninstallWorkload wl reason with
    | some _ => pure true
    | none => pure errors) false
  if errors then pure () else logged (storageDelete dl.key)

def installDeployment (e : NativeEngine μ) (dl : Deployment) : EngineM Unit :=
  (e.order.flatMap fun typ => installOrder dl typ).forM fun wl =>
    logged (installWorkload wl)

def lockDeployment (e : NativeEngine μ) (dl : Deployment) : EngineM Unit :=
  (inOrder dl e.order.reverse).forM fun wl => logged (lockWorkload wl true)

def unlockDeployment (e : NativeEngine μ) (dl : Deployment) : EngineM Unit :=
  (inOrder dl e.order).forM fun wl => logged (lockWorkload wl false)

/-- The rank `sortOperations` sorts by: removals by negated type index. -/
def opMap (e : NativeEngine μ) (op : UpgradeOp) : Int :=
  if op.op = .opRemove then -e.typeIndex op.wlID.workload.type
  else e.typeIndex op.wlID.workload.type

/-- `sort.SliceStable` by that rank. -/
def sortOperations (e : NativeEngine μ) (ops : List UpgradeOp) :
    List UpgradeOp :=
  ops.insertionSort fun a b => opMap e a ≤ opMap e b

def applyOperation (e : NativeEngine μ) (op : UpgradeOp) :
    EngineM (Option GoError) :=
  match op.op with
  | .opRemove => uninstallWorkload op.wlID "deleted by an update"
  | .opAdd => installWorkload op.wlID
  | .opUpdate => updateWorkload e op.wlID

def updateDeployment (e : NativeEngine μ) (ops : List UpgradeOp) :
    EngineM Unit :=
  (sortOperations e ops).forM fun op => logged (applyOperation e op)

/-! ## The worker -/

/-- The checks of `validate` on a contract that was found, past the node
contract and the rent checks. -/
def validateContract (e : NativeEngine μ) (dl : Deployment)
    (contract : Contract) : Option GoError :=
  if contract.node ≠ e.nodeID.toUInt32 then
    some (.text "invalid node address in contract")
  else
    match Zosbase.challengeHash dl with
    | .error err => some (err.wrap "failed to compute deployment hash")
    | .ok hash =>
        if contract.deploymentHash ≠ hash then
          some (.text "contract hash does not match deployment hash")
        else none

def validate (e : NativeEngine μ) (dl : Deployment) (noValidation : Bool) :
    EngineM (Option GoError) :=
  if !e.registrarGateway then
    pure (some (.text "substrate is not configured in engine"))
  else do
    match ← getContract dl.contractID with
    | .error subErr =>
        pure (some (subErr.err.wrap "failed to get deployment contract"))
    | .ok contract =>
        if !contract.isNodeContract then
          pure (some (.text "invalid contract type, expecting node contract"))
        else
          match ← getNodeRentContract e.nodeID.toUInt32 with
          | .error subErr =>
              if !subErr.isNotFound then
                pure (some (.text "failed to check node rent state"))
              else if noValidation then pure none
              else pure (validateContract e dl contract)
          | .ok _ =>
              if noValidation then pure none
              else pure (validateContract e dl contract)

def safeCallback (e : NativeEngine μ) (dl : Deployment) (delete : Bool) :
    EngineM Unit :=
  if e.callback then callback dl.twinID dl.contractID delete
  else pure ()

/-- The end of the worker loop's body. -/
def finishJob (e : NativeEngine μ) (dl : Deployment) (delete : Bool) :
    EngineM Unit := do
  let _ ← dequeue
  safeCallback e dl delete

/-- What the worker loop does with a job that passed validation, or needs
none. -/
def runJob (e : NativeEngine μ) : EngineJob → EngineM Unit
  | .opProvision target => do
      installDeployment e target
      finishJob e target false
  | .opProvisionNoValidation target => do
      installDeployment e target
      finishJob e target false
  | .opDeprovision target message => do
      uninstallDeployment e target message
      finishJob e target true
  | .opPause target => do
      lockDeployment e target
      finishJob e target false
  | .opResume target => do
      unlockDeployment e target
      finishJob e target false
  | .opUpdate target source => do
      match Zosbase.upgrade source target with
      | .error _ => finishJob e target false
      | .ok update => do
          updateDeployment e update
          finishJob e target false

/-- Whether the worker validates the contract of a job first, and if so with
`noValidation` set or not. -/
def EngineJob.validation : EngineJob → Option Bool
  | .opProvision _ | .opUpdate _ _ => some false
  | .opProvisionNoValidation _ => some true
  | .opDeprovision _ _ | .opPause _ | .opResume _ => none

/-- The body of the worker loop, from the job `PeekBlock` handed out. -/
def processJob (e : NativeEngine μ) (job : EngineJob) : EngineM Unit :=
  match job.validation with
  | none => runJob e job
  | some noValidation => do
      match ← validate e job.target noValidation with
      | none => runJob e job
      | some err => do
          let _ ← storageError job.target.key err
          let _ ← dequeue
          pure ()

def bootDeployment (key : DeploymentKey) : EngineM Unit := do
  match ← storageGet key with
  | .error _ => pure ()
  | .ok dl =>
      if !dl.isActive then pure ()
      else logged (enqueue (.opProvisionNoValidation dl))

def bootTwin (twin : TwinID) : EngineM Unit := do
  match ← storageByTwin twin with
  | .error _ => pure ()
  | .ok ids => ids.forM fun id => bootDeployment ⟨twin, id⟩

def boot : EngineM (Option GoError) := do
  match ← storageTwins with
  | .error err => pure (some (err.wrap "failed to list twins"))
  | .ok twins => do
      twins.forM bootTwin
      pure none

/-- What `Run` does before it enters the worker loop. -/
def startup (e : NativeEngine μ) : EngineM Unit :=
  if e.rerunAll then logged boot else pure ()

/-! ## The API -/

def provision (deployment : Deployment) : EngineM (Option GoError) :=
  if deployment.version ≠ 0 then
    pure (some (GoError.wrap (.sentinel .invalidVersion)
      "expected version to be 0 on deployment creation"))
  else do
    match ← storageCreate deployment with
    | some err => pure (some err)
    | none => enqueue (.opProvision deployment)

/-- `Pause`, `Resume` and `Deprovision`: read the deployment and queue a job
about what was read. -/
def schedule (key : DeploymentKey) (job : Deployment → EngineJob) :
    EngineM (Option GoError) := do
  match ← storageGet key with
  | .error err => pure (some err)
  | .ok deployment => enqueue (job deployment)

def pause (twin : TwinID) (id : ContractID) : EngineM (Option GoError) :=
  schedule ⟨twin, id⟩ .opPause

def resume (twin : TwinID) (id : ContractID) : EngineM (Option GoError) :=
  schedule ⟨twin, id⟩ .opResume

def deprovision (twin : TwinID) (id : ContractID) (reason : String) :
    EngineM (Option GoError) :=
  schedule ⟨twin, id⟩ (.opDeprovision · reason)

/-- The header fields an accepted update overwrites. -/
def updateFields (deployment update : Deployment) : List Field :=
  [.versionField update.version,
    .signatureRequirementField update.signatureRequirement] ++
  (if deployment.description ≠ update.description then
    [.descriptionField update.description] else []) ++
  (if deployment.metadata ≠ update.metadata then
    [.metadataField update.metadata] else [])

def upgradeRefused (msg : String) : GoError :=
  GoError.wrap (.sentinel .deploymentUpgradeValidationError) msg

def update (e : NativeEngine μ) (update : Deployment) :
    EngineM (Option GoError) := do
  match ← storageGet update.key with
  | .error err => pure (some err)
  | .ok deployment =>
      match Zosbase.upgrade deployment update with
      | .error err => pure (some (upgradeRefused err.error))
      | .ok upgrades =>
          match upgrades.find? fun op => op.op == .opUpdate &&
              !e.provisioner.canUpdate op.wlID.workload.type with
          | some op =>
              pure (some (upgradeRefused ("workload '" ++
                Zosbase.typeText op.wlID.workload.type ++
                "' does not support upgrade")))
          | none =>
              match ← storageUpdate update.key
                  (updateFields deployment update) with
              | some err =>
                  pure (some (err.wrap "failed to update deployment data"))
              | none => enqueue (.opUpdate update deployment)

/-- `backoff.Retry` with a maximum number of retries. -/
def retry : Nat → EngineM (Option GoError) → EngineM (Option GoError)
  | 0, op => op
  | n + 1, op => do
      match ← op with
      | none => pure none
      | some _ => retry n op

def checkVerified (twin : TwinID) : EngineM (Option GoError) := do
  match ← isTwinVerified twin with
  | .error err => pure (some err)
  | .ok true => pure none
  | .ok false =>
      pure (some (.text ("user with twin id " ++ toString twin.toNat ++
        " is not verified")))

def createOrUpdate (e : NativeEngine μ) (twin : TwinID)
    (deployment : Deployment) (isUpdate : Bool) : EngineM (Option GoError) :=
  match Zosbase.valid deployment with
  | some err => pure (some err)
  | none =>
      if deployment.twinID ≠ twin then
        pure (some (.text ("twin id mismatch (deployment: " ++
          toString deployment.twinID.toNat ++ ", message: " ++
          toString twin.toNat ++ ")")))
      else do
        match ← retry 5 (checkVerified twin) with
        | some err => pure (some err)
        | none =>
            match ← verify deployment with
            | some err => pure (some err)
            | none =>
                if isUpdate then update e deployment else provision deployment

/-- `DecommissionCached`, from the parsed id on: the one request that does not
go through the queue. -/
def decommissionCached (id : WorkloadID) (reason : String) :
    EngineM (Option GoError) := do
  match ← storageCurrent id.key id.name with
  | .error err => pure (some err)
  | .ok wl =>
      if wl.result.state == .deleted || wl.result.state == .error then pure none
      else
        uninstallWorkload ⟨wl, id⟩
          ("workload decommissioned by system, reason: " ++ reason)

/-- A call of the engine's API, from the moment it is made. -/
def invoke (e : NativeEngine μ) (r : Request) :
    EngineM (Option GoError) := do
  let _ ← entered r
  match r with
  | .provision deployment => provision deployment
  | .update deployment => update e deployment
  | .pause twin id => pause twin id
  | .resume twin id => resume twin id
  | .deprovision twin id reason => deprovision twin id reason
  | .createOrUpdate twin deployment isUpdate =>
      createOrUpdate e twin deployment isUpdate
  | .decommissionCached id reason => decommissionCached id reason

end Zos4.Provision
