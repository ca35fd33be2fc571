import Mathlib.Data.List.Nodup
import Zos4.Gridtypes

/-!
# The deployment store, as the engine sees it

The store itself is zosbase's. The engine only calls the methods of
`provision.Storage`, so that is where the model stops too: `Storage σ` is the
interface over any type of stores, and `StoreView` is what a store stands for,
a map from deployments to their header and from workload names to the last
workload recorded under them. The fields of the class that are not methods say
how each method reads and writes that map. A store that is such a map is all
any result below assumes.

`Create` and `Add` record a workload with a fresh result in state `init`; a
method that fails leaves the store as it was, which is why it returns none.
-/

namespace Zos4.Provision

/-- The part of a deployment that is not a workload. -/
structure Header where
  version : UInt32
  metadata : String
  description : String
  expiration : Timestamp
  signatureRequirement : SignatureRequirement
  deriving DecidableEq, Repr

def header (dl : Deployment) : Header :=
  ⟨dl.version, dl.metadata, dl.description, dl.expiration,
    dl.signatureRequirement⟩

/-- The fields `storage.Update` can be told to overwrite. -/
inductive Field where
  | versionField (version : UInt32)
  | descriptionField (description : String)
  | metadataField (metadata : String)
  | signatureRequirementField (signatureRequirement : SignatureRequirement)
  deriving DecidableEq, Repr

def Field.set (h : Header) : Field → Header
  | .versionField v => { h with version := v }
  | .descriptionField d => { h with description := d }
  | .metadataField m => { h with metadata := m }
  | .signatureRequirementField r => { h with signatureRequirement := r }

/-- The result a workload is recorded with before it was ever installed. -/
def Result.initial (now : Timestamp) : Result := ⟨now, .init, "", ""⟩

/-- The result `storage.Error` gives every workload of a deployment. -/
def Result.failed (now : Timestamp) (msg : String) : Result :=
  ⟨now, .error, msg, ""⟩

/-- What a store holds. -/
@[ext] structure StoreView where
  header : DeploymentKey → Option Header
  workload : DeploymentKey → Name → Option Workload

namespace StoreView

variable (v : StoreView)

def setHeader (k : DeploymentKey) (h : Option Header) : StoreView :=
  { v with header := fun k' => if k' = k then h else v.header k' }

def setWorkload (k : DeploymentKey) (n : Name) (wl : Option Workload) :
    StoreView :=
  { v with workload := fun k' n' =>
      if k' = k ∧ n' = n then wl else v.workload k' n' }

def setWorkloads (k : DeploymentKey) (wls : Name → Option Workload) :
    StoreView :=
  { v with workload := fun k' n' => if k' = k then wls n' else v.workload k' n' }

def create (now : Timestamp) (dl : Deployment) : StoreView :=
  (v.setHeader dl.key (some (Provision.header dl))).setWorkloads dl.key fun n =>
    (dl.workloads.find? (·.name == n)).map
      (·.withResults (Result.initial now))

def update (k : DeploymentKey) (fields : List Field) : StoreView :=
  v.setHeader k ((v.header k).map fun h => fields.foldl Field.set h)

def add (now : Timestamp) (k : DeploymentKey) (wl : Workload) : StoreView :=
  v.setWorkload k wl.name (some (wl.withResults (Result.initial now)))

def transaction (k : DeploymentKey) (wl : Workload) : StoreView :=
  v.setWorkload k wl.name (some wl)

def remove (k : DeploymentKey) (n : Name) : StoreView :=
  v.setWorkload k n none

def delete (k : DeploymentKey) : StoreView :=
  (v.setHeader k none).setWorkloads k fun _ => none

def error (now : Timestamp) (k : DeploymentKey) (msg : String) : StoreView :=
  v.setWorkloads k fun n =>
    (v.workload k n).map (·.withResults (Result.failed now msg))

/-- Some workload of the deployment is in use. -/
def HasOkay (k : DeploymentKey) : Prop :=
  ∃ n wl, v.workload k n = some wl ∧ wl.result.state.isOkay = true

end StoreView

/-! ## Reading the map after a method -/

namespace StoreView

variable {v : StoreView} {k k' : DeploymentKey} {n n' : Name}

@[simp] theorem setHeader_workload (h : Option Header) :
    (v.setHeader k h).workload = v.workload := rfl

@[simp] theorem setWorkload_header (wl : Option Workload) :
    (v.setWorkload k n wl).header = v.header := rfl

@[simp] theorem setWorkloads_header (wls : Name → Option Workload) :
    (v.setWorkloads k wls).header = v.header := rfl

theorem setWorkloads_workload (wls : Name → Option Workload) :
    (v.setWorkloads k wls).workload k' n' =
      if k' = k then wls n' else v.workload k' n' := rfl

theorem transaction_workload (wl : Workload) :
    (v.transaction k wl).workload k' n' =
      if k' = k ∧ n' = wl.name then some wl else v.workload k' n' := rfl

theorem add_workload (now : Timestamp) (wl : Workload) :
    (v.add now k wl).workload k' n' =
      if k' = k ∧ n' = wl.name then
        some (wl.withResults (Result.initial now))
      else v.workload k' n' := rfl

theorem remove_workload :
    (v.remove k n).workload k' n' =
      if k' = k ∧ n' = n then none else v.workload k' n' := rfl

theorem delete_workload :
    (v.delete k).workload k' n' =
      if k' = k then none else v.workload k' n' := rfl

theorem error_workload (now : Timestamp) (msg : String) :
    (v.error now k msg).workload k' n' =
      if k' = k then (v.workload k n').map
        (·.withResults (Result.failed now msg))
      else v.workload k' n' := rfl

@[simp] theorem transaction_header (wl : Workload) :
    (v.transaction k wl).header = v.header := rfl

@[simp] theorem add_header (now : Timestamp) (wl : Workload) :
    (v.add now k wl).header = v.header := rfl

@[simp] theorem remove_header : (v.remove k n).header = v.header := rfl

@[simp] theorem error_header (now : Timestamp) (msg : String) :
    (v.error now k msg).header = v.header := rfl

theorem delete_header :
    (v.delete k).header k' = if k' = k then none else v.header k' := rfl

@[simp] theorem update_workload (fields : List Field) :
    (v.update k fields).workload = v.workload := rfl

theorem update_header (fields : List Field) :
    (v.update k fields).header k' =
      if k' = k then (v.header k).map fun h => fields.foldl Field.set h
      else v.header k' := rfl

/-- Whatever a created deployment holds is in state `init`. -/
theorem create_workload_init {now : Timestamp} {dl : Deployment} {wl : Workload}
    (h : (v.create now dl).workload dl.key n = some wl) :
    wl.result = Result.initial now := by
  simp only [create, setWorkloads_workload, if_pos, Option.map_eq_some_iff] at h
  obtain ⟨w, _, rfl⟩ := h
  rfl

theorem create_workload_of_ne {now : Timestamp} {dl : Deployment}
    (h : k' ≠ dl.key) :
    (v.create now dl).workload k' n' = v.workload k' n' := by
  simp only [create, setWorkloads_workload, if_neg h, setHeader_workload]

theorem create_header {now : Timestamp} {dl : Deployment} :
    (v.create now dl).header k' =
      if k' = dl.key then some (Provision.header dl) else v.header k' := rfl

end StoreView

/-! ## The interface -/

/-- `provision.Storage`, and the map it is documented to be. -/
class Storage (σ : Type) where
  create : σ → Timestamp → Deployment → Except GoError σ
  get : σ → DeploymentKey → Except GoError Deployment
  update : σ → DeploymentKey → List Field → Except GoError σ
  current : σ → DeploymentKey → Name → Except GoError Workload
  add : σ → Timestamp → DeploymentKey → Workload → Except GoError σ
  transaction : σ → DeploymentKey → Workload → Except GoError σ
  remove : σ → DeploymentKey → Name → Except GoError σ
  delete : σ → DeploymentKey → Except GoError σ
  error : σ → Timestamp → DeploymentKey → String → Except GoError σ
  twins : σ → Except GoError (List TwinID)
  byTwin : σ → TwinID → Except GoError (List ContractID)
  /-- The deployments `Capacity()` lists. -/
  capacity : σ → Except GoError (List Deployment)
  view : σ → StoreView
  workload_wf : ∀ s k n wl, (view s).workload k n = some wl →
    wl.name = n ∧ (view s).header k ≠ none
  create_ok : ∀ {s now dl s'}, create s now dl = .ok s' →
    (view s).header dl.key = none ∧ view s' = (view s).create now dl
  get_ok : ∀ {s k dl}, get s k = .ok dl →
    dl.key = k ∧ (view s).header k = some (header dl) ∧ dl.names.Nodup ∧
      ∀ wl, wl ∈ dl.workloads ↔ (view s).workload k wl.name = some wl
  get_error : ∀ {s k e}, get s k = .error e → (view s).header k = none
  update_ok : ∀ {s k fields s'}, update s k fields = .ok s' →
    (view s).header k ≠ none ∧ view s' = (view s).update k fields
  update_error : ∀ {s k fields e}, update s k fields = .error e →
    (view s).header k = none
  current_ok : ∀ {s k n wl}, current s k n = .ok wl →
    (view s).workload k n = some wl
  /-- A missing workload is told apart from a missing deployment. -/
  current_error : ∀ {s k n e}, current s k n = .error e →
    (view s).workload k n = none ∧
      (e.is .workloadNotExist = true ↔ (view s).header k ≠ none)
  add_ok : ∀ {s now k wl s'}, add s now k wl = .ok s' →
    ((view s).header k ≠ none ∧ (view s).workload k wl.name = none) ∧
      view s' = (view s).add now k wl
  add_error : ∀ {s now k wl e}, add s now k wl = .error e →
    (view s).header k = none ∨ (view s).workload k wl.name ≠ none
  transaction_ok : ∀ {s k wl s'}, transaction s k wl = .ok s' →
    (view s).workload k wl.name ≠ none ∧ view s' = (view s).transaction k wl
  transaction_error : ∀ {s k wl e}, transaction s k wl = .error e →
    (view s).workload k wl.name = none
  remove_ok : ∀ {s k n s'}, remove s k n = .ok s' →
    view s' = (view s).remove k n
  remove_error : ∀ {s k n e}, remove s k n = .error e → (view s).header k = none
  delete_ok : ∀ {s k s'}, delete s k = .ok s' → view s' = (view s).delete k
  delete_error : ∀ {s k e}, delete s k = .error e → (view s).header k = none
  error_ok : ∀ {s now k msg s'}, error s now k msg = .ok s' →
    view s' = (view s).error now k msg
  error_error : ∀ {s now k msg e}, error s now k msg = .error e →
    (view s).header k = none
  twins_ok : ∀ {s ts}, twins s = .ok ts → ∀ t,
    t ∈ ts ↔ ∃ c, (view s).header ⟨t, c⟩ ≠ none
  byTwin_ok : ∀ {s t ids}, byTwin s t = .ok ids → ∀ c,
    c ∈ ids ↔ (view s).header ⟨t, c⟩ ≠ none
  capacity_ok : ∀ {s dls}, capacity s = .ok dls → ∀ dl,
    dl ∈ dls ↔ get s dl.key = .ok dl ∧ (view s).HasOkay dl.key

/-- What is recorded of a deployment is what it is read with. -/
theorem Storage.recorded_iff {σ : Type} [Storage σ] {s : σ} {k : DeploymentKey}
    {dl : Deployment} (hget : Storage.get s k = .ok dl) {n : Name} {wl : Workload} :
    (Storage.view s).workload k n = some wl ↔ wl ∈ dl.workloads ∧ wl.name = n := by
  obtain ⟨-, -, -, hworkloads⟩ := Storage.get_ok hget
  constructor
  · intro hwl
    obtain ⟨rfl, -⟩ := Storage.workload_wf _ _ _ _ hwl
    exact ⟨(hworkloads wl).mpr hwl, rfl⟩
  · intro ⟨hmem, hname⟩
    rw [← hname]
    exact (hworkloads wl).mp hmem

end Zos4.Provision
