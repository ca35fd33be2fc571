import Mathlib.Tactic.SimpRw
import Zos4.Provision.System

/-!
# What each call does

One lemma per writing call, phrased on the map the store stands for, so that
no later proof opens `exec`, and `exec_rewrites`, which has them all. The calls that
write nothing are handled together by `Op.writes`, and `ApiFrame` is what every call
of the engine's API and of the contract sync can do to the rest of the world: they
append to the queue, overwrite headers and create deployments whose workloads are all
in state `init`, and touch nothing else.
-/

namespace Zos4.Provision

open Zos4.Interaction Prog

/-! ## Writing calls -/

variable [Zosbase] {σ μ : Type} [Storage σ] {e : NativeEngine μ}

theorem World.view_header {w : World σ μ} {k : DeploymentKey} {n : Name}
    {wl : Workload} (h : w.view.workload k n = some wl) :
    w.view.header k ≠ none :=
  (Storage.workload_wf _ _ _ _ h).2

@[simp] theorem World.view_mk (w : World σ μ) (s : σ) :
    World.view { w with store := s } = Storage.view s := rfl

/-- What a writing method of the store does to the world: `now` says what it
does to the map when it succeeds, `refused` why it may fail. -/
structure Wrote (w : World σ μ) (res : Option GoError × World σ μ)
    (now : StoreView) (cond refused : Prop) : Prop where
  ok : res.1 = none → cond ∧ ∃ s, res.2 = { w with store := s } ∧
    Storage.view s = now
  fails : ∀ err, res.1 = some err → refused ∧ res.2 = w

/-- A writing call went through, or was refused and changed nothing. -/
theorem Wrote.cases {w : World σ μ} {res : Option GoError × World σ μ}
    {now : StoreView} {cond refused : Prop} (h : Wrote w res now cond refused) :
    (∃ s, Storage.view s = now ∧ res = (none, { w with store := s }) ∧ cond) ∨
      ∃ err, res = (some err, w) ∧ refused := by
  cases hres : res.1 with
  | none =>
      obtain ⟨hcond, s, hs, hv⟩ := h.ok hres
      exact .inl ⟨s, hv, Prod.ext hres hs, hcond⟩
  | some err =>
      obtain ⟨hrefused, hw⟩ := h.fails err hres
      exact .inr ⟨err, Prod.ext hres hw, hrefused⟩

theorem wrote_of {w : World σ μ} {m : Except GoError σ} {now : StoreView}
    {cond refused : Prop}
    (hok : ∀ s, m = .ok s → cond ∧ Storage.view s = now)
    (herr : ∀ err, m = .error err → refused) :
    Wrote w (w.write m) now cond refused := by
  cases m with
  | ok s =>
      exact ⟨fun _ => ⟨(hok s rfl).1, s, rfl, (hok s rfl).2⟩,
        fun err h => absurd h (by simp [World.write])⟩
  | error err =>
      exact ⟨fun h => absurd h (by simp [World.write]),
        fun _ _ => ⟨herr err rfl, rfl⟩⟩

section

variable (w : World σ μ) (k : DeploymentKey) (wl : Workload)

theorem exec_storageCreate (dl : Deployment) :
    Wrote w (exec e (.storageCreate dl) w) (w.view.create w.clock dl)
      (w.view.header dl.key = none) True :=
  wrote_of (fun _ h => Storage.create_ok h) (fun _ _ => trivial)

theorem exec_storageUpdate (fields : List Field) :
    Wrote w (exec e (.storageUpdate k fields) w) (w.view.update k fields)
      (w.view.header k ≠ none) (w.view.header k = none) :=
  wrote_of (fun _ h => Storage.update_ok h) (fun _ h => Storage.update_error h)

theorem exec_storageAdd :
    Wrote w (exec e (.storageAdd k wl) w) (w.view.add w.clock k wl)
      (w.view.header k ≠ none ∧ w.view.workload k wl.name = none)
      (w.view.header k = none ∨ w.view.workload k wl.name ≠ none) :=
  wrote_of (fun _ h => Storage.add_ok h) (fun _ h => Storage.add_error h)

theorem exec_storageTransaction :
    Wrote w (exec e (.storageTransaction k wl) w) (w.view.transaction k wl)
      (w.view.workload k wl.name ≠ none) (w.view.workload k wl.name = none) :=
  wrote_of (fun _ h => Storage.transaction_ok h)
    (fun _ h => Storage.transaction_error h)

theorem exec_storageRemove (n : Name) :
    Wrote w (exec e (.storageRemove k n) w) (w.view.remove k n)
      True (w.view.header k = none) :=
  wrote_of (fun _ h => ⟨trivial, Storage.remove_ok h⟩)
    (fun _ h => Storage.remove_error h)

theorem exec_storageDelete :
    Wrote w (exec e (.storageDelete k) w) (w.view.delete k)
      True (w.view.header k = none) :=
  wrote_of (fun _ h => ⟨trivial, Storage.delete_ok h⟩)
    (fun _ h => Storage.delete_error h)

theorem exec_storageError (err : GoError) :
    Wrote w (exec e (.storageError k err) w)
      (w.view.error w.clock k err.error) True (w.view.header k = none) :=
  wrote_of (fun _ h => ⟨trivial, Storage.error_ok h⟩)
    (fun _ h => Storage.error_error h)

end

/-- What reading the last recorded workload tells. -/
theorem exec_storageCurrent (w : World σ μ) (k : DeploymentKey) (n : Name) :
    (∃ wl, exec e (.storageCurrent k n) w = (.ok wl, w) ∧
      w.view.workload k n = some wl) ∨
    ∃ err, exec e (.storageCurrent k n) w = (.error err, w) ∧
      w.view.workload k n = none ∧
      (err.is .workloadNotExist = true ↔ w.view.header k ≠ none) := by
  simp only [exec]
  cases h : Storage.current w.store k n with
  | ok wl => exact .inl ⟨wl, rfl, Storage.current_ok h⟩
  | error err => exact .inr ⟨err, rfl, Storage.current_error h⟩

/-! ## Calls of the provisioner -/

section

variable (w : World σ μ) (wl : WorkloadWithID)

theorem exec_provision : exec e (.provision wl) w =
    ((e.provisioner.provision w.clock wl w.node).1,
      { w with
        node := w.node.afterProvision wl.id
          (e.provisioner.provision w.clock wl w.node).1
          (e.provisioner.provision w.clock wl w.node).2 }) := rfl

theorem exec_pause : exec e (.pause wl) w =
    ((e.provisioner.pause w.clock wl w.node).1,
      { w with
        node := { w.node with
          rest := (e.provisioner.pause w.clock wl w.node).2 } }) := rfl

theorem exec_deprovision : exec e (.deprovision wl) w =
    ((e.provisioner.deprovision wl w.node).1,
      { w with
        node := w.node.afterDeprovision wl.id
          (e.provisioner.deprovision wl w.node).1
          (e.provisioner.deprovision wl w.node).2 }) := rfl

theorem exec_storageCapacity :
    exec e .storageCapacity w = (Storage.capacity w.store, w) := rfl

theorem exec_getContract (id : ContractID) :
    exec e (.getContract id) w = (w.gateway.getContract id, w) := rfl

theorem exec_getNodeRentContract (node : UInt32) :
    exec e (.getNodeRentContract node) w = (w.gateway.getNodeRentContract node, w) := rfl

theorem exec_getNodeContracts (node : UInt32) :
    exec e (.getNodeContracts node) w = (w.gateway.getNodeContracts node, w) := rfl

theorem exec_now : exec e .now w = (w.clock, w) := rfl

end

theorem uninstallResult_state (reason : String) (now : Timestamp) :
    (uninstallResult reason now none).state = .deleted := rfl

/-- The answers a call can get at all: what is read is the deployment that was
asked for, and holds one workload to a name. -/
def Op.Possible : (op : Op) → op.Ret → Prop
  | .storageGet key, .ok dl => dl.key = key ∧ dl.names.Nodup
  | _, _ => True

theorem exec_possible (op : Op) (w : World σ μ) : op.Possible (exec e op w).1 := by
  cases op with
  | storageGet key =>
      show Op.Possible (.storageGet key) (Storage.get w.store key)
      cases h : Storage.get w.store key with
      | error err => trivial
      | ok dl =>
          obtain ⟨hkey, _, hnodup, _⟩ := Storage.get_ok h
          exact ⟨hkey, hnodup⟩
  | _ => trivial

/-- An error that is only logged changes nothing. -/
theorem run_logged {S : Type} {h : Handler engineSig S} (op : EngineM (Option GoError))
    (s : S) : ((logged op).run h s).2 = (op.run h s).2 := by
  rw [logged, run_bind]
  rfl

/-! ## What a call leaves alone -/

/-- The calls that can change what the store holds. -/
def Op.writes : Op → Bool
  | .storageCreate _ | .storageUpdate _ _ | .storageAdd _ _
  | .storageTransaction _ _ | .storageRemove _ _ | .storageDelete _
  | .storageError _ _ => true
  | _ => false

/-- The calls that can change which workloads are installed. -/
def Op.installs : Op → Bool
  | .provision _ | .deprovision _ => true
  | _ => false

omit [Storage σ] in
theorem write_frame (w : World σ μ) (m : Except GoError σ) :
    (w.write m).2.node = w.node ∧ (w.write m).2.queue = w.queue ∧
      (w.write m).2.chain = w.chain ∧ (w.write m).2.gateway = w.gateway ∧
      (w.write m).2.clock = w.clock := by
  cases m <;> exact ⟨rfl, rfl, rfl, rfl, rfl⟩

theorem exec_store (w : World σ μ) {op : Op} (h : op.writes = false) :
    (exec e op w).2.store = w.store := by
  cases op <;> first
    | rfl
    | (simp only [exec]; split <;> rfl)
    | cases h

theorem exec_view (w : World σ μ) {op : Op} (h : op.writes = false) :
    (exec e op w).2.view = w.view := congrArg Storage.view (exec_store w h)

theorem exec_installed (w : World σ μ) {op : Op} (h : op.installs = false) :
    (exec e op w).2.node.installed = w.node.installed := by
  cases op <;> first
    | rfl
    | exact congrArg Node.installed (write_frame w _).1
    | (simp only [exec]; split <;> rfl)
    | cases h

theorem exec_outside (w : World σ μ) (op : Op) :
    (exec e op w).2.chain = w.chain ∧ (exec e op w).2.gateway = w.gateway ∧
      (exec e op w).2.clock = w.clock := by
  cases op <;> first
    | exact ⟨rfl, rfl, rfl⟩
    | exact (write_frame w _).2.2
    | (simp only [exec]; split <;> exact ⟨rfl, rfl, rfl⟩)

theorem exec_queue (w : World σ μ) {op : Op} (hd : op ≠ .dequeue)
    (he : ∀ job, op ≠ .enqueue job) : (exec e op w).2.queue = w.queue := by
  cases op <;> first
    | rfl
    | exact absurd rfl hd
    | exact absurd rfl (he _)
    | exact (write_frame w _).2.1

/-- What a call can leave in the store. -/
inductive World.Rewrites (w : World σ μ) : Op → StoreView → Prop
  | kept {op : Op} : w.Rewrites op w.view
  | create {dl : Deployment} : w.view.header dl.key = none →
      w.Rewrites (.storageCreate dl) (w.view.create w.clock dl)
  | update {k : DeploymentKey} {fields : List Field} : w.view.header k ≠ none →
      w.Rewrites (.storageUpdate k fields) (w.view.update k fields)
  | add {k : DeploymentKey} {wl : Workload} :
      w.view.header k ≠ none ∧ w.view.workload k wl.name = none →
      w.Rewrites (.storageAdd k wl) (w.view.add w.clock k wl)
  | transaction {k : DeploymentKey} {wl : Workload} : w.view.workload k wl.name ≠ none →
      w.Rewrites (.storageTransaction k wl) (w.view.transaction k wl)
  | remove {k : DeploymentKey} {n : Name} :
      w.Rewrites (.storageRemove k n) (w.view.remove k n)
  | delete {k : DeploymentKey} : w.Rewrites (.storageDelete k) (w.view.delete k)
  | error {k : DeploymentKey} {err : GoError} :
      w.Rewrites (.storageError k err) (w.view.error w.clock k err.error)

theorem Wrote.rewrites {w : World σ μ} {op : Op} {res : Option GoError × World σ μ}
    {now : StoreView} {cond refused : Prop} (h : Wrote w res now cond refused)
    (hok : cond → w.Rewrites op now) : w.Rewrites op res.2.view := by
  rcases h.cases with ⟨s, hv, hres, hcond⟩ | ⟨_, hres, _⟩
  · rw [hres, World.view_mk, hv]
    exact hok hcond
  · rw [hres]
    exact .kept

theorem exec_rewrites (op : Op) (w : World σ μ) :
    w.Rewrites op (exec e op w).2.view := by
  cases op with
  | storageCreate dl => exact (exec_storageCreate w dl).rewrites .create
  | storageUpdate key fields => exact (exec_storageUpdate w key fields).rewrites .update
  | storageAdd key wl => exact (exec_storageAdd w key wl).rewrites .add
  | storageTransaction key wl =>
      exact (exec_storageTransaction w key wl).rewrites .transaction
  | storageRemove key n => exact (exec_storageRemove w key n).rewrites fun _ => .remove
  | storageDelete key => exact (exec_storageDelete w key).rewrites fun _ => .delete
  | storageError key err => exact (exec_storageError w key err).rewrites fun _ => .error
  | _ =>
      rw [exec_view w rfl]
      exact .kept

/-- Only deleting the deployment takes its header away. -/
theorem exec_header_kept {w : World σ μ} {op : Op} {k : DeploymentKey}
    (h : w.view.header k ≠ none) (hop : op ≠ .storageDelete k) :
    (exec e op w).2.view.header k ≠ none := by
  have hrewrites := exec_rewrites (e := e) op w
  generalize (exec e op w).2.view = v at hrewrites ⊢
  cases hrewrites with
  | kept | add | transaction | remove | error => exact h
  | create =>
      rw [StoreView.create_header]
      split
      · simp
      · exact h
  | update hthere =>
      rw [StoreView.update_header]
      split
      · simpa using hthere
      · exact h
  | delete =>
      rw [StoreView.delete_header, if_neg]
      · exact h
      · rintro rfl
        exact hop rfl

/-- A workload is installed because it was, or because it has just been. -/
theorem exec_installed_of {w : World σ μ} {op : Op} {id : WorkloadID}
    (h : (exec e op w).2.node.installed id = true) :
    w.node.installed id = true ∨ ∃ wl, op = .provision wl ∧ wl.id = id := by
  by_cases hop : op.installs = false
  · rw [exec_installed w hop] at h
    exact .inl h
  · cases op with
    | provision wl =>
        rw [exec_provision] at h
        simp only [Node.afterProvision] at h
        split at h
        · simp only [Node.install] at h
          split at h
          · next hid => exact .inr ⟨wl, rfl, hid.symm⟩
          · exact .inl h
        · exact .inl h
    | deprovision wl =>
        rw [exec_deprovision] at h
        simp only [Node.afterDeprovision] at h
        split at h
        · simp only [Node.uninstall] at h
          split at h
          · cases h
          · exact .inl h
        · exact .inl h
    | _ => exact absurd rfl hop

/-- Something is recorded for the workload. -/
def World.Records (w : World σ μ) (id : WorkloadID) : Prop :=
  w.view.workload id.key id.name ≠ none

instance (w : World σ μ) (id : WorkloadID) : Decidable (w.Records id) :=
  inferInstanceAs (Decidable (_ ≠ _))

/-- The calls that can take a record away. -/
def Op.drops (id : WorkloadID) : Op → Prop
  | .storageRemove key n => id.key = key ∧ id.name = n
  | .storageDelete key => id.key = key
  | .storageCreate _ => True
  | _ => False

/-- Only removing a workload, or its deployment, takes its record away. -/
theorem exec_records_kept {w : World σ μ} {op : Op} {id : WorkloadID}
    (h : w.Records id) (hop : ¬ op.drops id) : (exec e op w).2.Records id := by
  unfold World.Records at h ⊢
  have hrewrites := exec_rewrites (e := e) op w
  generalize (exec e op w).2.view = v at hrewrites ⊢
  cases hrewrites with
  | kept | update => exact h
  | create => exact absurd trivial hop
  | add =>
      rw [StoreView.add_workload]
      split
      · simp
      · exact h
  | transaction =>
      rw [StoreView.transaction_workload]
      split
      · simp
      · exact h
  | remove =>
      rw [StoreView.remove_workload]
      split
      · next hkn => exact absurd hkn hop
      · exact h
  | error =>
      rw [StoreView.error_workload]
      split
      · next hkey => rw [← hkey]; simpa using h
      · exact h
  | delete =>
      rw [StoreView.delete_workload]
      split
      · next hkey => exact absurd hkey hop
      · exact h

/-- The call brings the workload back, or makes its record anew. -/
def Op.Revives (id : WorkloadID) : Op → Prop
  | .provision wl => wl.id = id
  | .storageAdd key wl => key = id.key ∧ wl.name = id.name
  | _ => False

/-- A record that is not there is made by no call but these. -/
theorem exec_absent {w : World σ μ} {op : Op} {id : WorkloadID} (h : ¬ w.Records id)
    (hcreate : ∀ dl, op = .storageCreate dl → dl.key = id.key → id.name ∉ dl.names)
    (hadd : ¬ op.Revives id) : ¬ (exec e op w).2.Records id := by
  unfold World.Records at h ⊢
  rw [not_not] at h ⊢
  have hrewrites := exec_rewrites (e := e) op w
  generalize (exec e op w).2.view = v at hrewrites ⊢
  cases hrewrites with
  | kept | update => exact h
  | @create dl =>
      by_cases hkey : dl.key = id.key
      · have hname := hcreate dl rfl hkey
        simp only [StoreView.create, StoreView.setWorkloads_workload, hkey, if_pos,
          Option.map_eq_none_iff, List.find?_eq_none]
        intro wl hwl heq
        exact hname (Deployment.mem_names.mpr ⟨wl, hwl, by simpa using heq⟩)
      · rw [StoreView.create_workload_of_ne (Ne.symm hkey)]
        exact h
  | add =>
      rw [StoreView.add_workload, if_neg]
      · exact h
      · exact fun hkn => hadd ⟨hkn.1.symm, hkn.2.symm⟩
  | transaction hthere =>
      rw [StoreView.transaction_workload]
      split
      · next hkn => rw [hkn.1, hkn.2] at h; exact absurd h hthere
      · exact h
  | remove =>
      rw [StoreView.remove_workload, h]
      split <;> rfl
  | error =>
      rw [StoreView.error_workload]
      split
      · next hkey => rw [← hkey, h]; rfl
      · exact h
  | delete =>
      rw [StoreView.delete_workload, h]
      split <;> rfl

/-- The calls that can change whether the workload is installed or recorded. -/
def Op.Touches (id : WorkloadID) (op : Op) : Prop :=
  op.drops id ∨ op.Revives id ∨ ∃ wl, op = .deprovision wl ∧ wl.id = id

/-- The calls that touch no workload at all. -/
def Op.isQuiet : Op → Bool
  | .provision _ | .deprovision _ | .storageCreate _ | .storageAdd _ _
  | .storageRemove _ _ | .storageDelete _ => false
  | _ => true

omit [Zosbase] [Storage σ] in
theorem Op.not_touches {id : WorkloadID} {op : Op} (h : op.isQuiet = true) :
    ¬ op.Touches id := by
  rintro (hdrops | hrevives | ⟨wl, rfl, _⟩)
  · cases op <;> first | exact hdrops | cases h
  · cases op <;> first | exact hrevives | cases h
  · cases h

/-- The workload is installed or not as before, and recorded or not as before. -/
structure Untouched (id : WorkloadID) (w w' : World σ μ) : Prop where
  installed : w'.node.installed id = w.node.installed id
  records : w'.Records id ↔ w.Records id

theorem Untouched.refl (id : WorkloadID) (w : World σ μ) : Untouched id w w :=
  ⟨rfl, Iff.rfl⟩

theorem Untouched.trans {id : WorkloadID} {w w' w'' : World σ μ}
    (h : Untouched id w w') (h' : Untouched id w' w'') : Untouched id w w'' :=
  ⟨h'.installed.trans h.installed, h'.records.trans h.records⟩

theorem exec_untouched {w : World σ μ} {op : Op} {id : WorkloadID}
    (h : ¬ op.Touches id) : Untouched id w (exec e op w).2 := by
  obtain ⟨hdrops, hrevives, hdeprovision⟩ : ¬ op.drops id ∧ ¬ op.Revives id ∧
      ¬ ∃ wl, op = .deprovision wl ∧ wl.id = id := by
    rw [← not_or, ← not_or]
    exact h
  constructor
  · cases op with
    | provision wl =>
        rw [exec_provision]
        simp only [Node.afterProvision]
        split
        · exact if_neg fun hid => hrevives hid.symm
        · rfl
    | deprovision wl =>
        rw [exec_deprovision]
        simp only [Node.afterDeprovision]
        split
        · exact if_neg fun hid => hdeprovision ⟨wl, rfl, hid.symm⟩
        · rfl
    | _ => rw [exec_installed w rfl]
  · refine ⟨fun hrec => ?_, fun hrec => exec_records_kept hrec hdrops⟩
    by_contra hno
    refine exec_absent hno ?_ hrevives hrec
    rintro dl rfl
    exact absurd trivial hdrops

/-! ## The API side -/

/-- The calls a routine can make. -/
def Op.isApi : Op → Bool
  | .invoke _ | .verify _ | .isTwinVerified _ | .storageGet _
  | .storageCreate _ | .storageUpdate _ _ | .storageCapacity | .enqueue _
  | .getContract _ | .getNodeContracts _ => true
  | _ => false

def Op.creates : Op → Bool
  | .storageCreate _ => true
  | _ => false

/-- Only creating the deployment brings its header in. -/
theorem exec_header_none {w : World σ μ} {op : Op} {k : DeploymentKey}
    (h : w.view.header k = none) (hop : op.creates = false) :
    (exec e op w).2.view.header k = none := by
  have hrewrites := exec_rewrites (e := e) op w
  generalize (exec e op w).2.view = v at hrewrites ⊢
  cases hrewrites with
  | kept | add | transaction | remove | error => exact h
  | create => cases hop
  | update =>
      rw [StoreView.update_header]
      split
      · next hk => rw [← hk, h, Option.map_none]
      · exact h
  | delete =>
      rw [StoreView.delete_header]
      split
      · rfl
      · exact h

/-- What the calls of the routines can do to the world, chain and clock
aside. -/
structure ApiFrame (w w' : World σ μ) : Prop where
  node : w'.node = w.node
  header : ∀ k, w.view.header k ≠ none → w'.view.header k ≠ none
  kept : ∀ k, w.view.header k ≠ none → ∀ n,
    w'.view.workload k n = w.view.workload k n
  fresh : ∀ k, w.view.header k = none → ∀ n wl,
    w'.view.workload k n = some wl → wl.result.state = .init
  queue : ∃ jobs, w'.queue = w.queue ++ jobs

theorem World.workload_of_header_none {w : World σ μ} {k : DeploymentKey}
    (h : w.view.header k = none) (n : Name) : w.view.workload k n = none := by
  cases hwl : w.view.workload k n with
  | none => rfl
  | some wl => exact absurd h (World.view_header hwl)

namespace ApiFrame

variable {w w' : World σ μ}

theorem refl (w : World σ μ) : ApiFrame w w where
  node := rfl
  header _ h := h
  kept _ _ _ := rfl
  fresh k h n wl hwl := by
    rw [World.workload_of_header_none h] at hwl
    cases hwl
  queue := ⟨[], by simp⟩

theorem of_eq (hn : w'.node = w.node) (hs : w'.store = w.store)
    (hq : ∃ jobs, w'.queue = w.queue ++ jobs) : ApiFrame w w' := by
  have hv : w'.view = w.view := congrArg Storage.view hs
  obtain ⟨_, _, _, hfresh, _⟩ := refl w
  refine ⟨hn, ?_, ?_, ?_, hq⟩
  · rw [hv]; exact fun _ h => h
  · rw [hv]; exact fun _ _ _ => rfl
  · rw [hv]; exact hfresh

/-- A recorded workload stays as it is. -/
theorem workload (h : ApiFrame w w') {k : DeploymentKey} {n : Name}
    {wl : Workload} (hwl : w.view.workload k n = some wl) :
    w'.view.workload k n = some wl := by
  rw [h.kept k (World.view_header hwl) n, hwl]

theorem records (h : ApiFrame w w') {id : WorkloadID} (hid : w.Records id) :
    w'.Records id := by
  cases hwl : w.view.workload id.key id.name with
  | none => exact absurd hwl hid
  | some wl => simp [World.Records, h.workload hwl]

/-- A workload in any state but `init` was there before, in that state. -/
theorem workload_of_not_init (h : ApiFrame w w') {k : DeploymentKey} {n : Name}
    {wl : Workload} (hwl : w'.view.workload k n = some wl)
    (hs : wl.result.state ≠ .init) : w.view.workload k n = some wl := by
  by_cases hk : w.view.header k = none
  · exact absurd (h.fresh k hk n wl hwl) hs
  · rw [← h.kept k hk n, hwl]

end ApiFrame

theorem exec_api {w : World σ μ} {e : NativeEngine μ} {op : Op}
    (h : op.isApi = true) : ApiFrame w (exec e op w).2 := by
  cases op with
  | storageCreate dl =>
      have hspec := exec_storageCreate (e := e) w dl
      cases hres : (exec e (.storageCreate dl) w).1 with
      | some err => rw [(hspec.fails err hres).2]; exact .refl w
      | none =>
          obtain ⟨hnone, s, hw, hv⟩ := hspec.ok hres
          have hview : (exec e (.storageCreate dl) w).2.view =
              w.view.create w.clock dl := by rw [hw]; exact hv
          rw [hw] at hview ⊢
          refine ⟨rfl, fun k hk => ?_, fun k hk n => ?_, fun k hk n wl hwl => ?_,
            [], by simp⟩
          · rw [hview, StoreView.create_header]
            split
            · simp
            · exact hk
          · rw [hview, StoreView.create_workload_of_ne]
            intro heq
            exact hk (heq ▸ hnone)
          · rw [hview] at hwl
            by_cases hkey : k = dl.key
            · subst hkey
              rw [StoreView.create_workload_init hwl]
              rfl
            · rw [StoreView.create_workload_of_ne hkey,
                World.workload_of_header_none hk] at hwl
              cases hwl
  | storageUpdate k fields =>
      have hspec := exec_storageUpdate (e := e) w k fields
      cases hres : (exec e (.storageUpdate k fields) w).1 with
      | some err => rw [(hspec.fails err hres).2]; exact .refl w
      | none =>
          obtain ⟨hsome, s, hw, hv⟩ := hspec.ok hres
          have hview : (exec e (.storageUpdate k fields) w).2.view =
              w.view.update k fields := by rw [hw]; exact hv
          rw [hw] at hview ⊢
          refine ⟨rfl, fun k' hk => ?_, fun k' hk n => ?_,
            fun k' hk n wl hwl => ?_, [], by simp⟩
          · rw [hview, StoreView.update_header]
            split
            · simpa using hsome
            · exact hk
          · rw [hview, StoreView.update_workload]
          · rw [hview, StoreView.update_workload,
              World.workload_of_header_none hk] at hwl
            cases hwl
  | enqueue job => exact .of_eq rfl rfl ⟨[job], rfl⟩
  | invoke | verify | isTwinVerified | storageGet | storageCapacity
  | getContract | getNodeContracts => exact .refl w
  | _ => simp [Op.isApi] at h

/-- Only `Create` adds workloads on the API side. -/
theorem exec_api_workload {w : World σ μ} {e : NativeEngine μ} {op : Op}
    (h : op.isApi = true) (hc : op.creates = false) :
    (exec e op w).2.view.workload = w.view.workload := by
  cases op with
  | storageUpdate k fields =>
      have hspec := exec_storageUpdate (e := e) w k fields
      cases hres : (exec e (.storageUpdate k fields) w).1 with
      | some err => rw [(hspec.fails err hres).2]
      | none =>
          obtain ⟨_, s, hw, hv⟩ := hspec.ok hres
          rw [hw]
          show (Storage.view s).workload = _
          rw [hv, StoreView.update_workload]
  | storageCreate dl => simp [Op.creates] at hc
  | enqueue | invoke | verify | isTwinVerified | storageGet | storageCapacity
  | getContract | getNodeContracts => rfl
  | _ => simp [Op.isApi] at h

end Zos4.Provision
