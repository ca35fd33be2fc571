import Zos4.Interaction.Crash
import Zos4.Provision.Drain
import Zos4.Provision.Locks

/-!
# A job as a list of tasks

A job goes through its workloads one by one, and what it does to one is a task: to
install it, to uninstall it, to update it, to lock or unlock it. A task acts on one
slot, what is recorded of a workload, whether its deployment is stored and whether
it is installed, and leaves the others alone. `Task.settle` is what it makes of the
slot where the managers do not fail, and `Passing` is what can be said of the slot
at every call the task makes: run again, the task still makes the same of it. There
is one exception, `Gap`: a workload has just been installed, and what is recorded of
it is not what the next call is about to record.
-/

namespace Zos4.Provision

open Zos4.Interaction Prog

/-! ## Up to time -/

def untimedResult (result : Result) : Result := { result with created := 0 }

def untimed (wl : Workload) : Workload := wl.withResults (untimedResult wl.result)

@[simp] theorem untimedResult_state (result : Result) :
    (untimedResult result).state = result.state := rfl

@[simp] theorem untimed_result (wl : Workload) :
    (untimed wl).result = untimedResult wl.result := rfl

@[simp] theorem untimed_withResults (wl : Workload) (result : Result) :
    untimed (wl.withResults result) = wl.withResults (untimedResult result) := rfl

/-- All there is to a workload, up to time. -/
@[ext] structure Slot where
  stored : Bool
  record : Option Workload
  installed : Bool

/-- What managers answer that do not fail and whose answers, up to time, are a matter
of what they are asked for. -/
structure Manner where
  provided : WorkloadWithID → Result
  locked : Bool → WorkloadWithID → Result × Option GoError
  updated : WorkloadWithID → Result × Option GoError

/-- What is recorded of a workload that has been installed. -/
def Manner.done (m : Manner) (wl : WorkloadWithID) : Workload :=
  wl.workload.withResults (m.provided wl)

inductive Task where
  | install (wl : WorkloadWithID)
  | uninstall (wl : WorkloadWithID) (reason : String)
  | update (wl : WorkloadWithID)
  | setLock (lock : Bool) (wl : WorkloadWithID)

def Task.wl : Task → WorkloadWithID
  | .install wl | .uninstall wl _ | .update wl | .setLock _ wl => wl

def Task.id (t : Task) : WorkloadID := t.wl.id

section

variable [Zosbase] {σ μ : Type} [Storage σ] {e : NativeEngine μ} {m : Manner}

def Task.prog (e : NativeEngine μ) : Task → EngineM (Option GoError)
  | .install wl => installWorkload wl
  | .uninstall wl reason => uninstallWorkload wl reason
  | .update wl => updateWorkload e wl
  | .setLock lock wl => lockWorkload wl lock

/-- What the slots of a world hold. -/
def World.slots (w : World σ μ) (id : WorkloadID) : Slot where
  stored := (w.view.header id.key).isSome
  record := (w.view.workload id.key id.name).map untimed
  installed := w.node.installed id

/-- The managers answer as `m` has it, and a workload that is installed needs no
action. -/
structure Steady (e : NativeEngine μ) (m : Manner) : Prop where
  again : ∀ now wl node, node.installed wl.id = true → ∃ result err,
    (e.provisioner.provision now wl node).1 = (result, some err) ∧
      err.is .noActionNeeded = true
  provision : ∀ now wl node, node.installed wl.id = false → ∃ result,
    (e.provisioner.provision now wl node).1 = (result, none) ∧
      untimedResult result = m.provided wl
  ok : ∀ wl, (m.provided wl).state = .ok
  deprovision : ∀ wl node, (e.provisioner.deprovision wl node).1 = none
  lock : ∀ lock now wl node, ∃ result,
    (lockAnswer e lock now wl node).1 = (result, (m.locked lock wl).2) ∧
      untimedResult result = (m.locked lock wl).1
  update : ∀ now wl node, ∃ result,
    (e.provisioner.update now wl node).1 = (result, (m.updated wl).2) ∧
      untimedResult result = (m.updated wl).1

/-! ## What a task makes of its slot -/

def Slot.provision (m : Manner) (wl : WorkloadWithID) (x : Slot) : Slot :=
  if x.installed then x else ⟨x.stored, some (m.done wl), true⟩

def Slot.put (x : Slot) (wl : WorkloadWithID) (result : Result) : Slot :=
  { x with record := some (wl.workload.withResults result) }

def Task.settle (e : NativeEngine μ) (m : Manner) : Task → Slot → Slot
  | .install wl, x =>
      match x.record with
      | none =>
          if x.stored then (x.put wl (Result.initial 0)).provision m wl else x
      | some cur =>
          if cur.result.state == .deleted || cur.result.state == .error then x
          else x.provision m wl
  | .uninstall _ _, x =>
      match x.record with
      | none => x
      | some _ => { x with record := none, installed := false }
  | .update wl, x =>
      match x.record with
      | none => x
      | some cur =>
          if e.provisioner.canUpdate wl.workload.type then
            match m.updated wl with
            | (result, none) => x.put wl result
            | (_, some err) =>
                if err.is .noActionNeeded then x.put wl cur.result else x
          else x
  | .setLock lock wl, x =>
      match x.record with
      | none => x
      | some cur =>
          if cur.result.state.isOkay then
            match m.locked lock wl with
            | (result, none) => x.put wl result
            | (_, some _) => x
          else x

omit [Zosbase] in
/-- What is recorded and installed is left alone. -/
theorem settle_install_installed {x : Slot} {cur : Workload} (wl : WorkloadWithID)
    (hrecord : x.record = some cur) (hinstalled : x.installed = true) :
    (Task.install wl).settle e m x = x := by
  rw [Task.settle, hrecord]
  dsimp only
  split
  · rfl
  · rw [Slot.provision, if_pos hinstalled]

omit [Zosbase] in
theorem settle_install_provision {x : Slot} (wl wl' : WorkloadWithID)
    (h : x.record ≠ none) :
    (Task.install wl').settle e m (x.provision m wl) = x.provision m wl := by
  obtain ⟨cur, hcur⟩ := Option.ne_none_iff_exists'.mp h
  rw [Slot.provision]
  split
  · next hinstalled => exact settle_install_installed wl' hcur hinstalled
  · exact settle_install_installed wl' rfl rfl

omit [Zosbase] in
/-- A workload has been installed for every task that installs it. -/
theorem install_absorbs (wl wl' : WorkloadWithID) (x : Slot) :
    (Task.install wl').settle e m ((Task.install wl).settle e m x) =
      (Task.install wl).settle e m x := by
  cases hrecord : x.record with
  | none =>
      cases hstored : x.stored with
      | false => simp [Task.settle, hrecord, hstored]
      | true =>
          have hput : (Task.install wl).settle e m x =
              (x.put wl (Result.initial 0)).provision m wl := by
            simp [Task.settle, hrecord, hstored]
          rw [hput]
          exact settle_install_provision wl wl' (Option.some_ne_none _)
  | some cur =>
      by_cases hdead : (cur.result.state == .deleted || cur.result.state == .error) = true
      · simp [Task.settle, hrecord, hdead]
      · have hprovision : (Task.install wl).settle e m x = x.provision m wl := by
          simp only [Task.settle, hrecord, hdead]
          rfl
        rw [hprovision]
        exact settle_install_provision wl wl' (by simp [hrecord])

omit [Zosbase] in
theorem uninstall_absorbs (wl wl' : WorkloadWithID) (reason reason' : String)
    (x : Slot) :
    (Task.uninstall wl' reason').settle e m ((Task.uninstall wl reason).settle e m x) =
      (Task.uninstall wl reason).settle e m x := by
  cases hrecord : x.record with
  | none => simp only [Task.settle, hrecord]
  | some cur => simp only [Task.settle, hrecord]

omit [Zosbase] in
/-- A task that has been done has nothing left to do. -/
theorem settle_twice (t : Task) (x : Slot) :
    t.settle e m (t.settle e m x) = t.settle e m x := by
  cases t with
  | install wl => exact install_absorbs wl wl x
  | uninstall wl reason => exact uninstall_absorbs wl wl reason reason x
  | update wl =>
      cases hrecord : x.record with
      | none => simp only [Task.settle, hrecord]
      | some cur =>
          by_cases hcan : e.provisioner.canUpdate wl.workload.type = true
          · rcases hans : m.updated wl with ⟨result, _ | err⟩
            · simp [Task.settle, hrecord, hcan, hans, Slot.put]
            · by_cases hneeded : err.is .noActionNeeded = true
              · simp [Task.settle, hrecord, hcan, hans, hneeded, Slot.put]
              · simp [Task.settle, hrecord, hcan, hans, hneeded]
          · simp [Task.settle, hrecord, hcan]
  | setLock lock wl =>
      cases hrecord : x.record with
      | none => simp only [Task.settle, hrecord]
      | some cur =>
          by_cases hok : cur.result.state.isOkay = true
          · rcases hans : m.locked lock wl with ⟨result, _ | err⟩
            · simp [Task.settle, hrecord, hok, hans, Slot.put]
            · simp [Task.settle, hrecord, hok, hans]
          · simp [Task.settle, hrecord, hok]

omit [Zosbase] in
/-- No task stores a deployment or deletes one. -/
theorem settle_stored (t : Task) (x : Slot) : (t.settle e m x).stored = x.stored := by
  have hprovision : ∀ (wl : WorkloadWithID) (x : Slot),
      (x.provision m wl).stored = x.stored := by
    intro wl x
    rw [Slot.provision]
    split <;> rfl
  cases t with
  | install wl =>
      rw [Task.settle]
      split
      · split
        · exact hprovision wl _
        · rfl
      · split
        · rfl
        · exact hprovision wl x
  | uninstall wl reason => rw [Task.settle]; split <;> rfl
  | update wl =>
      rw [Task.settle]
      split
      · rfl
      · split
        · split
          · rfl
          · split <;> rfl
        · rfl
  | setLock lock wl =>
      rw [Task.settle]
      split
      · rfl
      · split
        · split <;> rfl
        · rfl

/-! ## What a call makes of the slots -/

variable {w w' : World σ μ} {wl : WorkloadWithID}

theorem slots_of_eq (hview : w'.view = w.view)
    (hnode : w'.node.installed = w.node.installed) : w'.slots = w.slots := by
  funext id
  rw [World.slots, World.slots, hview, hnode]

theorem slots_recorded {id : WorkloadID} {record : Option Workload}
    (hheader : w'.view.header = w.view.header)
    (hworkload : ∀ k n, w'.view.workload k n =
      if k = id.key ∧ n = id.name then record else w.view.workload k n)
    (hnode : w'.node.installed = w.node.installed) :
    w'.slots = Function.update w.slots id
      { w.slots id with record := record.map untimed } := by
  funext id'
  by_cases hid : id' = id
  · subst hid
    rw [Function.update_self, World.slots, World.slots, hheader, hworkload, hnode,
      if_pos ⟨rfl, rfl⟩]
  · rw [Function.update_of_ne hid, World.slots, World.slots, hheader, hworkload, hnode,
      if_neg fun h => hid (WorkloadID.eq_of_key h.1 h.2)]

theorem record_eq_none {id : WorkloadID} :
    (w.slots id).record = none ↔ w.view.workload id.key id.name = none :=
  Option.map_eq_none_iff

theorem stored_iff {id : WorkloadID} :
    (w.slots id).stored = true ↔ w.view.header id.key ≠ none :=
  Option.isSome_iff_ne_none

/-- Recording a result goes through if there is a record. -/
theorem transaction_slots (hname : wl.id.name = wl.workload.name) (result : Result)
    (hrecord : (w.slots wl.id).record ≠ none) :
    (exec e (.storageTransaction wl.id.key (wl.workload.withResults result)) w).2.slots =
      Function.update w.slots wl.id ((w.slots wl.id).put wl (untimedResult result)) := by
  rw [Ne, record_eq_none] at hrecord
  rcases (exec_storageTransaction (e := e) w wl.id.key
      (wl.workload.withResults result)).cases with
    ⟨s, hv, hres, _⟩ | ⟨_, _, hno⟩
  · rw [hres]
    have hworkload : ∀ k n, ({ w with store := s } : World σ μ).view.workload k n =
        if k = wl.id.key ∧ n = wl.id.name then some (wl.workload.withResults result)
        else w.view.workload k n := by
      intro k n
      rw [World.view_mk, hv, StoreView.transaction_workload, Workload.withResults_name,
        ← hname]
    have hheader : ({ w with store := s } : World σ μ).view.header = w.view.header := by
      rw [World.view_mk, hv, StoreView.transaction_header]
    exact slots_recorded hheader hworkload rfl
  · rw [Workload.withResults_name, ← hname] at hno
    exact absurd hno hrecord

theorem transaction_answer (hname : wl.id.name = wl.workload.name) (result : Result)
    (hrecord : (w.slots wl.id).record ≠ none) :
    (exec e (.storageTransaction wl.id.key (wl.workload.withResults result)) w).1 =
      none := by
  rw [Ne, record_eq_none] at hrecord
  rcases (exec_storageTransaction (e := e) w wl.id.key
      (wl.workload.withResults result)).cases with
    ⟨s, _, hres, _⟩ | ⟨_, _, hno⟩
  · rw [hres]
  · rw [Workload.withResults_name, ← hname] at hno
    exact absurd hno hrecord

theorem transaction_refused (hname : wl.id.name = wl.workload.name) (result : Result)
    (hrecord : (w.slots wl.id).record = none) :
    (exec e (.storageTransaction wl.id.key (wl.workload.withResults result)) w).2 = w := by
  rw [record_eq_none] at hrecord
  rcases (exec_storageTransaction (e := e) w wl.id.key
      (wl.workload.withResults result)).cases with
    ⟨_, _, _, hthere⟩ | ⟨_, hres, _⟩
  · rw [Workload.withResults_name, ← hname] at hthere
    exact absurd hrecord hthere
  · rw [hres]

/-- A workload is added to a deployment that is stored without it. -/
theorem add_slots (hname : wl.id.name = wl.workload.name)
    (hrecord : (w.slots wl.id).record = none) (hstored : (w.slots wl.id).stored = true) :
    (exec e (.storageAdd wl.id.key wl.workload) w).1 = none ∧
      (exec e (.storageAdd wl.id.key wl.workload) w).2.slots =
        Function.update w.slots wl.id ((w.slots wl.id).put wl (Result.initial 0)) := by
  rw [record_eq_none] at hrecord
  rw [stored_iff] at hstored
  rcases (exec_storageAdd (e := e) w wl.id.key wl.workload).cases with
    ⟨s, hv, hres, _⟩ | ⟨_, _, hno | hno⟩
  · rw [hres]
    have hworkload : ∀ k n, ({ w with store := s } : World σ μ).view.workload k n =
        if k = wl.id.key ∧ n = wl.id.name then
          some (wl.workload.withResults (Result.initial w.clock))
        else w.view.workload k n := by
      intro k n
      rw [World.view_mk, hv, StoreView.add_workload, ← hname]
    have hheader : ({ w with store := s } : World σ μ).view.header = w.view.header := by
      rw [World.view_mk, hv, StoreView.add_header]
    exact ⟨rfl, slots_recorded hheader hworkload rfl⟩
  · exact absurd hno hstored
  · rw [← hname] at hno
    exact absurd hrecord hno

theorem remove_slots {id : WorkloadID} (hstored : (w.slots id).stored = true) :
    (exec e (.storageRemove id.key id.name) w).1 = none ∧
      (exec e (.storageRemove id.key id.name) w).2.slots =
        Function.update w.slots id { w.slots id with record := none } := by
  rw [stored_iff] at hstored
  rcases (exec_storageRemove (e := e) w id.key id.name).cases with
    ⟨s, hv, hres, _⟩ | ⟨_, _, hno⟩
  · rw [hres]
    have hworkload : ∀ k n, ({ w with store := s } : World σ μ).view.workload k n =
        if k = id.key ∧ n = id.name then none else w.view.workload k n := by
      intro k n
      rw [World.view_mk, hv, StoreView.remove_workload]
    have hheader : ({ w with store := s } : World σ μ).view.header = w.view.header := by
      rw [World.view_mk, hv, StoreView.remove_header]
    exact ⟨rfl, slots_recorded hheader hworkload rfl⟩
  · exact absurd hno hstored

theorem stored_of_record {id : WorkloadID} (h : (w.slots id).record ≠ none) :
    (w.slots id).stored = true := by
  rw [Ne, record_eq_none] at h
  obtain ⟨cur, hcur⟩ := Option.ne_none_iff_exists'.mp h
  exact stored_iff.mpr (World.view_header (w := w) hcur)

theorem provision_slots (hs : Steady e m) (hnot : (w.slots wl.id).installed = false) :
    ∃ result, (exec e (.provision wl) w).1 = (result, none) ∧
      untimedResult result = m.provided wl ∧
      (exec e (.provision wl) w).2.slots =
        Function.update w.slots wl.id { w.slots wl.id with installed := true } := by
  obtain ⟨result, hans, hresult⟩ := hs.provision w.clock wl w.node hnot
  refine ⟨result, hans, hresult, ?_⟩
  have hok : result.state = .ok := by
    rw [← untimedResult_state, hresult]
    exact hs.ok wl
  funext id
  rw [exec_provision, hans]
  by_cases hid : id = wl.id
  · subst hid
    rw [Function.update_self]
    simp [World.slots, Node.afterProvision, hok, ResultState.isOkay, Node.install]
  · rw [Function.update_of_ne hid]
    simp [World.slots, Node.afterProvision, hok, ResultState.isOkay, Node.install, hid]

theorem provision_again (hs : Steady e m) (hinstalled : (w.slots wl.id).installed = true) :
    (∃ result err, (exec e (.provision wl) w).1 = (result, some err) ∧
      err.is .noActionNeeded = true) ∧ (exec e (.provision wl) w).2.slots = w.slots := by
  obtain ⟨result, err, hans, herr⟩ := hs.again w.clock wl w.node hinstalled
  refine ⟨⟨result, err, hans, herr⟩, ?_⟩
  rw [exec_provision, hans]
  exact slots_of_eq rfl rfl

theorem deprovision_slots (hs : Steady e m) (w : World σ μ) (wl : WorkloadWithID) :
    (exec e (.deprovision wl) w).1 = none ∧ (exec e (.deprovision wl) w).2.slots =
      Function.update w.slots wl.id { w.slots wl.id with installed := false } := by
  have hans := hs.deprovision wl w.node
  refine ⟨hans, ?_⟩
  funext id
  rw [exec_deprovision, hans]
  by_cases hid : id = wl.id
  · subst hid
    rw [Function.update_self]
    simp [World.slots, Node.afterDeprovision, Node.uninstall]
  · rw [Function.update_of_ne hid]
    simp [World.slots, Node.afterDeprovision, Node.uninstall, hid]

/-! ## What can be said at every call of a task -/

/-- A workload has just been installed, and what is recorded of it is not what the
next call records. -/
def Gap (m : Manner) : Last engineSig (World σ μ) → Prop
  | some (.provision wl, w) =>
      (w.slots wl.id).installed = false ∧ (w.slots wl.id).record ≠ some (m.done wl)
  | _ => False

/-- The task has its slot at `y`, and can settle it as before. -/
structure Passing (e : NativeEngine μ) (m : Manner) (t : Task) (w : World σ μ)
    (last : Last engineSig (World σ μ)) (s : World σ μ) (y : Slot) : Prop where
  slots : s.slots = Function.update w.slots t.id y
  fixed : t.settle e m (w.slots t.id) = w.slots t.id → y = w.slots t.id
  settle : ¬ Gap m last → t.settle e m y = t.settle e m (w.slots t.id)
  gap : Gap m last → (t.settle e m y).record ≠ (t.settle e m (w.slots t.id)).record

def Passes (e : NativeEngine μ) (m : Manner) (t : Task) (w : World σ μ)
    (last : Last engineSig (World σ μ)) (s : World σ μ) : Prop :=
  ∃ y, Passing e m t w last s y

/-- What a task leaves behind. -/
def Done (e : NativeEngine μ) (m : Manner) (t : Task) (w s : World σ μ) : Prop :=
  s.slots = Function.update w.slots t.id (t.settle e m (w.slots t.id))

variable {t : Task} {s : World σ μ} {last : Last engineSig (World σ μ)}

theorem Passes.before (hslots : s.slots = w.slots) (hgap : ¬ Gap m last) :
    Passes e m t w last s := by
  refine ⟨w.slots t.id, ?_, fun _ => rfl, fun _ => rfl, fun h => absurd h hgap⟩
  rw [Function.update_eq_self, hslots]

theorem Passes.after (hdone : Done e m t w s) (hgap : ¬ Gap m last) :
    Passes e m t w last s :=
  ⟨_, hdone, fun h => h, fun _ => settle_twice t _, fun h => absurd h hgap⟩

theorem done_of_fixed (hfixed : t.settle e m (w.slots t.id) = w.slots t.id)
    (hslots : s.slots = w.slots) : Done e m t w s := by
  rw [Done, hfixed, Function.update_eq_self, hslots]

/-- A task that ends here, having nothing to do. -/
theorem along_fixed {α : Type} {a : α} {Q : α → World σ μ → Prop}
    (hfixed : t.settle e m (w.slots t.id) = w.slots t.id) (hslots : s.slots = w.slots)
    (hgap : ¬ Gap m last) (hQ : Done e m t w s → Q a s) :
    (pure a : EngineM α).Along (exec e) (Passes e m t w) Q last s :=
  along_pure.mpr ⟨.before hslots hgap, hQ (done_of_fixed hfixed hslots)⟩

/-! ## Installing -/

/-- Where `provisionWorkload` has the slot that was at `x`. -/
inductive Provisioning (m : Manner) (wl : WorkloadWithID) (x : Slot)
    (last : Last engineSig (World σ μ)) : Slot → Prop
  | start (hgap : ¬ Gap m last) : Provisioning m wl x last x
  | installed (hnot : x.installed = false)
      (hgap : Gap m last ↔ x.record ≠ some (m.done wl)) :
      Provisioning m wl x last { x with installed := true }
  | recorded (hgap : ¬ Gap m last) : Provisioning m wl x last (x.provision m wl)

theorem provisionWorkload_along (hs : Steady e m) (hname : wl.id.name = wl.workload.name)
    (hrecord : (w.slots wl.id).record ≠ none) (hgap : ¬ Gap m last) :
    (provisionWorkload wl).Along (exec e)
      (fun last s => ∃ y, s.slots = Function.update w.slots wl.id y ∧
        Provisioning m wl (w.slots wl.id) last y)
      (fun _ s => s.slots =
        Function.update w.slots wl.id ((w.slots wl.id).provision m wl)) last w := by
  have hstart : w.slots = Function.update w.slots wl.id (w.slots wl.id) :=
    (Function.update_eq_self _ _).symm
  rw [provisionWorkload, along_perform_bind]
  refine ⟨⟨_, hstart, .start hgap⟩, ?_⟩
  cases hinstalled : (w.slots wl.id).installed with
  | false =>
      obtain ⟨result, hans, hresult, hslots⟩ := provision_slots hs hinstalled
      rw [hans]
      dsimp only
      have hthere : ((exec e (.provision wl) w).2.slots wl.id).record ≠ none := by
        rw [hslots, Function.update_self]
        exact hrecord
      have hdone : (exec e (.storageTransaction wl.id.key (wl.workload.withResults result))
          (exec e (.provision wl) w).2).2.slots =
          Function.update w.slots wl.id ((w.slots wl.id).provision m wl) := by
        rw [transaction_slots hname result hthere, hslots, Function.update_self,
          Function.update_idem, hresult, Slot.provision, hinstalled]
        rfl
      have hgap' : Gap m (some (.provision wl, w)) ↔
          (w.slots wl.id).record ≠ some (m.done wl) :=
        ⟨And.right, fun hne => ⟨hinstalled, hne⟩⟩
      rw [← bind_pure (storageTransaction _ _), along_perform_bind, along_pure]
      exact ⟨⟨_, hslots, .installed hinstalled hgap'⟩, ⟨_, hdone, .recorded id⟩, hdone⟩
  | true =>
      obtain ⟨⟨result, err, hans, herr⟩, hslots⟩ := provision_again hs hinstalled
      rw [hans]
      dsimp only
      rw [if_pos herr]
      have hnothing : (w.slots wl.id).provision m wl = w.slots wl.id :=
        if_pos hinstalled
      have hagain : ¬ Gap m (some (.provision wl, w)) := by
        intro hgap
        rw [Gap, hinstalled] at hgap
        cases hgap.1
      rw [along_pure, hnothing]
      exact ⟨⟨_, hslots.trans hstart, .start hagain⟩, hslots.trans hstart⟩

omit [Zosbase] in
theorem provision_installed (wl : WorkloadWithID) (x : Slot) :
    (x.provision m wl).installed = true := by
  rw [Slot.provision]
  split
  · next hinstalled => exact hinstalled
  · rfl

omit [Zosbase] in
theorem provision_record {x : Slot} (wl : WorkloadWithID) (h : x.record ≠ none) :
    (x.provision m wl).record ≠ none := by
  rw [Slot.provision]
  split
  · exact h
  · exact Option.some_ne_none _

/-- Provisioning settles the slot of a task that has come to it. -/
theorem passes_provisioning {x y : Slot}
    (hsettle : (Task.install wl).settle e m (w.slots wl.id) = x.provision m wl)
    (hagain : (Task.install wl).settle e m x = x.provision m wl)
    (hrecord : x.record ≠ none) (hx : x = w.slots wl.id ∨ (w.slots wl.id).record = none)
    (hslots : s.slots = Function.update w.slots wl.id y)
    (hy : Provisioning m wl x last y) : Passes e m (.install wl) w last s := by
  have hfixed : (Task.install wl).settle e m (w.slots wl.id) = w.slots wl.id →
      x = w.slots wl.id ∧ x.installed = true := by
    intro hfixed
    rcases hx with rfl | hnone
    · refine ⟨rfl, ?_⟩
      rw [← hfixed, hsettle]
      exact provision_installed wl _
    · rw [← hfixed, hsettle] at hnone
      exact absurd hnone (provision_record wl hrecord)
  refine ⟨y, hslots, fun h => ?_, fun hgap => ?_, fun hgap => ?_⟩
  · obtain ⟨rfl, hinstalled⟩ := hfixed h
    cases hy with
    | start => rfl
    | installed hnot => rw [hinstalled] at hnot; cases hnot
    | recorded => exact if_pos hinstalled
  · rw [Task.id, Task.wl, hsettle]
    cases hy with
    | start => exact hagain
    | installed hnot hiff =>
        -- what is recorded is what would be
        have hsame : x.record = some (m.done wl) := not_not.mp (mt hiff.mpr hgap)
        rw [settle_install_installed (x := { x with installed := true }) wl hsame rfl,
          Slot.provision, hnot, ← hsame]
        rfl
    | recorded => exact settle_install_provision wl wl hrecord
  · rw [Task.id, Task.wl, hsettle]
    cases hy with
    | start hnot => exact absurd hgap hnot
    | recorded hnot => exact absurd hgap hnot
    | installed hnot hiff =>
        obtain ⟨cur, hcur⟩ := Option.ne_none_iff_exists'.mp hrecord
        rw [settle_install_installed (x := { x with installed := true }) wl hcur rfl,
          Slot.provision, hnot]
        exact hiff.mp hgap

theorem installWorkload_along (hs : Steady e m) (hname : wl.id.name = wl.workload.name)
    (hgap : ¬ Gap m last) :
    (installWorkload wl).Along (exec e) (Passes e m (.install wl) w)
      (fun _ => Done e m (.install wl) w) last w := by
  rw [installWorkload, along_perform_bind]
  refine ⟨.before rfl hgap, ?_⟩
  have hread : ¬ Gap m (some (.storageCurrent wl.id.key wl.id.name, w)) := id
  rcases exec_storageCurrent (e := e) w wl.id.key wl.id.name with
    ⟨cur, hres, hcur⟩ | ⟨err, hres, hnone, hnotexist⟩
  · have hrecord : (w.slots wl.id).record = some (untimed cur) := by
      rw [World.slots, hcur, Option.map_some]
    rw [hres]
    dsimp only
    split
    · next hdead =>
        have hfixed : (Task.install wl).settle e m (w.slots wl.id) = w.slots wl.id := by
          rw [Task.settle, hrecord]
          exact if_pos hdead
        exact along_fixed hfixed rfl hread id
    · next halive =>
        have hsettle : (Task.install wl).settle e m (w.slots wl.id) =
            (w.slots wl.id).provision m wl := by
          rw [Task.settle, hrecord]
          exact if_neg halive
        have hthere : (w.slots wl.id).record ≠ none := by simp [hrecord]
        refine (provisionWorkload_along hs hname hthere hread).mono
          (fun last s ⟨y, hslots, hy⟩ => ?_) (fun _ s hslots => ?_)
        · exact passes_provisioning hsettle hsettle hthere (.inl rfl) hslots hy
        · exact hslots.trans (by rw [← hsettle]; rfl)
  · have hrecord : (w.slots wl.id).record = none := record_eq_none.mpr hnone
    rw [hres]
    dsimp only
    split
    · next herr =>
        have hstored : (w.slots wl.id).stored = true :=
          stored_iff.mpr (hnotexist.mp herr)
        obtain ⟨hans, hslots⟩ := add_slots (e := e) hname hrecord hstored
        have hsettle : (Task.install wl).settle e m (w.slots wl.id) =
            ((w.slots wl.id).put wl (Result.initial 0)).provision m wl := by
          rw [Task.settle, hrecord]
          exact if_pos hstored
        rw [along_perform_bind, hans]
        refine ⟨.before rfl hread, ?_⟩
        have hslot : (exec e (.storageAdd wl.id.key wl.workload) w).2.slots wl.id =
            (w.slots wl.id).put wl (Result.initial 0) := by
          rw [hslots, Function.update_self]
        have hthere : ((w.slots wl.id).put wl (Result.initial 0)).record ≠ none :=
          Option.some_ne_none _
        refine (provisionWorkload_along hs hname (hslot ▸ hthere) id).mono
          (fun last s ⟨y, hy, hprov⟩ => ?_) (fun _ s hdone => ?_)
        · rw [hslots, Function.update_idem] at hy
          rw [hslot] at hprov
          exact passes_provisioning hsettle rfl hthere (.inr hrecord) hy hprov
        · rw [hslots, Function.update_idem, Function.update_self, ← hsettle] at hdone
          exact hdone
    · next herr =>
        have hfixed : (Task.install wl).settle e m (w.slots wl.id) = w.slots wl.id := by
          have hnot : (w.slots wl.id).stored = false := by
            rw [← Bool.not_eq_true]
            exact fun h => herr (hnotexist.mpr (stored_iff.mp h))
          rw [Task.settle, hrecord, hnot]
          rfl
        exact along_fixed hfixed rfl hread id

/-! ## Uninstalling -/

omit [Zosbase] in
theorem settle_uninstall {x : Slot} (wl : WorkloadWithID) (reason : String)
    (h : x.record ≠ none) :
    (Task.uninstall wl reason).settle e m x =
      { x with record := none, installed := false } := by
  obtain ⟨cur, hcur⟩ := Option.ne_none_iff_exists'.mp h
  rw [Task.settle, hcur]

/-- The slot of a workload that is being uninstalled. -/
theorem passes_uninstall {reason : String} {y : Slot}
    (hrecord : (w.slots wl.id).record ≠ none)
    (hslots : s.slots = Function.update w.slots wl.id y)
    (hstored : y.stored = (w.slots wl.id).stored)
    (hnone : y.record = none → y.installed = false) (hgap : ¬ Gap m last) :
    Passes e m (.uninstall wl reason) w last s := by
  have hsettle := settle_uninstall (e := e) (m := m) wl reason hrecord
  refine ⟨y, hslots, fun hfixed => ?_, fun _ => ?_, fun h => absurd h hgap⟩
  · rw [Task.id, Task.wl, hsettle] at hfixed
    exact absurd (congrArg Slot.record hfixed).symm hrecord
  · rw [Task.id, Task.wl, hsettle]
    cases hy : y.record with
    | none =>
        rw [Task.settle, hy]
        exact Slot.ext hstored hy (hnone hy)
    | some cur =>
        rw [settle_uninstall wl reason (by simp [hy])]
        exact Slot.ext hstored rfl rfl

/-- A workload that is recorded is uninstalled in three steps. -/
theorem deprovision_along (hs : Steady e m) (reason : String)
    (hname : wl.id.name = wl.workload.name) (hrecord : (w.slots wl.id).record ≠ none)
    (hgap : ¬ Gap m last) :
    (do
      let err ← provisionerDeprovision wl
      let now ← timeNow
      let result := uninstallResult reason now err
      match ← storageTransaction wl.id.key (wl.workload.withResults result) with
      | some err => pure (some err)
      | none =>
          if result.state = .deleted then storageRemove wl.id.key wl.id.name
          else pure none : EngineM (Option GoError)).Along (exec e)
      (Passes e m (.uninstall wl reason) w)
      (fun err s => Done e m (.uninstall wl reason) w s ∧ err = none) last w := by
  have hstored := stored_of_record hrecord
  obtain ⟨hans₁, hslots₁⟩ := deprovision_slots hs w wl
  rw [along_perform_bind, hans₁]
  refine ⟨.before rfl hgap, ?_⟩
  generalize (exec e (.deprovision wl) w).2 = w₁ at hslots₁ ⊢
  have hpasses₁ : ∀ last, ¬ Gap m last → Passes e m (.uninstall wl reason) w last w₁ :=
    fun _ => passes_uninstall hrecord hslots₁ rfl fun h => absurd h hrecord
  rw [along_perform_bind, exec_now]
  refine ⟨hpasses₁ _ id, ?_⟩
  dsimp only
  have hrecord₁ : (w₁.slots wl.id).record ≠ none := by
    rw [hslots₁, Function.update_self]
    exact hrecord
  have hslots₂ := transaction_slots (e := e) hname
    (uninstallResult reason w₁.clock none) hrecord₁
  rw [along_perform_bind, transaction_answer hname _ hrecord₁]
  refine ⟨hpasses₁ _ id, ?_⟩
  generalize (exec e (.storageTransaction wl.id.key (wl.workload.withResults
    (uninstallResult reason w₁.clock none))) w₁).2 = w₂ at hslots₂ ⊢
  rw [hslots₁, Function.update_self, Function.update_idem] at hslots₂
  dsimp only
  rw [if_pos (show (uninstallResult reason w₁.clock none).state = .deleted from rfl)]
  have hstored₂ : (w₂.slots wl.id).stored = true := by
    rw [hslots₂, Function.update_self]
    exact hstored
  obtain ⟨hans₃, hslots₃⟩ := remove_slots (e := e) hstored₂
  rw [hslots₂, Function.update_self, Function.update_idem] at hslots₃
  have hdone : Done e m (.uninstall wl reason) w
      (exec e (.storageRemove wl.id.key wl.id.name) w₂).2 := by
    rw [Done, Task.id, Task.wl, settle_uninstall wl reason hrecord]
    exact hslots₃
  rw [← bind_pure (storageRemove _ _), along_perform_bind, along_pure]
  refine ⟨?_, .after hdone id, hdone, hans₃⟩
  exact passes_uninstall hrecord hslots₂ rfl (fun h => absurd h (Option.some_ne_none _)) id

theorem uninstallWorkload_along (hs : Steady e m) (reason : String)
    (hname : wl.id.name = wl.workload.name) (hgap : ¬ Gap m last) :
    (uninstallWorkload wl reason).Along (exec e) (Passes e m (.uninstall wl reason) w)
      (fun err s => Done e m (.uninstall wl reason) w s ∧
        (err = none ↔ (w.slots wl.id).stored = true)) last w := by
  rw [uninstallWorkload, along_perform_bind]
  refine ⟨.before rfl hgap, ?_⟩
  rcases exec_storageCurrent (e := e) w wl.id.key wl.id.name with
    ⟨cur, hres, hcur⟩ | ⟨err, hres, hnone, hnotexist⟩
  · rw [hres]
    dsimp only
    have hrecord : (w.slots wl.id).record ≠ none := by
      rw [Ne, record_eq_none, hcur]
      exact Option.some_ne_none cur
    exact (deprovision_along hs reason hname hrecord id).mono (fun _ _ h => h)
      fun _ _ h => ⟨h.1, iff_of_true h.2 (stored_of_record hrecord)⟩
  · have hrecord : (w.slots wl.id).record = none := record_eq_none.mpr hnone
    have hfixed : (Task.uninstall wl reason).settle e m (w.slots wl.id) =
        w.slots wl.id := by rw [Task.settle, hrecord]
    have hstored : err.is .workloadNotExist = true ↔ (w.slots wl.id).stored = true :=
      hnotexist.trans stored_iff.symm
    rw [hres]
    dsimp only
    split
    · next herr =>
        exact along_fixed hfixed rfl id fun hdone => ⟨hdone, by simp [hstored.mp herr]⟩
    · next herr =>
        exact along_fixed hfixed rfl id fun hdone => ⟨hdone, by simpa [hstored] using herr⟩

/-! ## Updating and locking -/

/-- A task that ends with recording a result, if the workload is recorded at all. -/
theorem transaction_along (wl : WorkloadWithID) (ht : t.wl = wl)
    (hname : wl.id.name = wl.workload.name) {result : Result} (hslots : s.slots = w.slots)
    (hnone : (w.slots wl.id).record = none →
      t.settle e m (w.slots wl.id) = w.slots wl.id)
    (hsome : (w.slots wl.id).record ≠ none →
      t.settle e m (w.slots wl.id) = (w.slots wl.id).put wl (untimedResult result))
    (hgap : ¬ Gap m last) :
    (storageTransaction wl.id.key (wl.workload.withResults result)).Along (exec e)
      (Passes e m t w) (fun _ => Done e m t w) last s := by
  have hdone : Done e m t w (exec e (.storageTransaction wl.id.key
      (wl.workload.withResults result)) s).2 := by
    have hslot : s.slots wl.id = w.slots wl.id := congrFun hslots wl.id
    rw [Done, Task.id, ht]
    by_cases hrecord : (w.slots wl.id).record = none
    · rw [transaction_refused hname result (by rw [hslot, hrecord]), hnone hrecord,
        Function.update_eq_self, hslots]
    · rw [transaction_slots hname result (by rwa [hslot]), hsome hrecord, hslots]
  rw [← bind_pure (storageTransaction _ _), along_perform_bind, along_pure]
  exact ⟨.before hslots hgap, .after hdone id, hdone⟩

omit [Zosbase] in
theorem settle_update_unrecorded {x : Slot} (wl : WorkloadWithID) (h : x.record = none) :
    (Task.update wl).settle e m x = x := by
  rw [Task.settle, h]

theorem updateWorkload_along (hs : Steady e m) (hname : wl.id.name = wl.workload.name)
    (hgap : ¬ Gap m last) :
    (updateWorkload e wl).Along (exec e) (Passes e m (.update wl) w)
      (fun _ => Done e m (.update wl) w) last w := by
  have hnone := settle_update_unrecorded (x := w.slots wl.id) (e := e) (m := m) wl
  rw [updateWorkload]
  split
  · next hcan =>
      obtain ⟨result, hans, hresult⟩ := hs.update w.clock wl w.node
      have hslots : (exec e (.update wl) w).2.slots = w.slots := slots_of_eq rfl rfl
      have hans' : (exec e (.update wl) w).1 = (result, (m.updated wl).2) := hans
      rw [along_perform_bind, hans']
      refine ⟨.before rfl hgap, ?_⟩
      generalize (exec e (.update wl) w).2 = s at hslots ⊢
      rcases hm : m.updated wl with ⟨recorded, _ | err⟩
      · rw [recordUpdate]
        refine transaction_along wl rfl hname hslots hnone (fun hrecord => ?_) id
        obtain ⟨cur, hcur⟩ := Option.ne_none_iff_exists'.mp hrecord
        rw [hm] at hresult
        simp only [Task.settle, hcur, hcan, hm, if_true, hresult]
      · rw [recordUpdate]
        split
        · next hneeded =>
            rw [along_perform_bind]
            refine ⟨.before hslots id, ?_⟩
            have hslot : s.slots wl.id = w.slots wl.id := congrFun hslots wl.id
            rcases exec_storageCurrent (e := e) s wl.id.key wl.id.name with
              ⟨cur, hres, hcur⟩ | ⟨err, hres, hcur, _⟩
            · rw [hres]
              have hrecord : (w.slots wl.id).record = some (untimed cur) := by
                rw [← hslot, World.slots, hcur, Option.map_some]
              refine transaction_along wl rfl hname hslots hnone (fun _ => ?_) id
              simp only [Task.settle, hrecord, hcan, hm, hneeded, if_true, untimed_result]
            · rw [hres]
              have hrecord : (w.slots wl.id).record = none := by
                rw [← hslot, record_eq_none, hcur]
              exact along_fixed (hnone hrecord) hslots id fun hdone => hdone
        · next hneeded =>
            refine along_fixed ?_ hslots id fun hdone => hdone
            cases hrecord : (w.slots wl.id).record with
            | none => exact hnone hrecord
            | some cur => simp [Task.settle, hrecord, hcan, hm, hneeded, Task.id, Task.wl]
  · next hcan =>
      have hfixed : (Task.update wl).settle e m (w.slots wl.id) = w.slots wl.id := by
        cases hrecord : (w.slots wl.id).record with
        | none => exact hnone hrecord
        | some cur => simp only [Task.settle, hrecord, if_neg hcan]
      rw [recordUpdate]
      exact along_fixed hfixed rfl hgap fun hdone => hdone

/-- `provisionerLock` makes one call. -/
theorem along_provisionerLock {α : Type} {C : Last engineSig (World σ μ) → World σ μ → Prop}
    {Q : α → World σ μ → Prop} {lock : Bool} {f : Result × Option GoError → EngineM α} :
    (provisionerLock lock wl >>= f).Along (exec e) C Q last w ↔
      C last w ∧ (f (lockAnswer e lock w.clock wl w.node).1).Along (exec e) C Q
        (some (lockOp lock wl, w)) { w with node := { w.node with
          rest := (lockAnswer e lock w.clock wl w.node).2 } } := by
  cases lock with
  | true => rw [provisionerLock, along_perform_bind]; exact Iff.rfl
  | false => rw [provisionerLock, along_perform_bind]; exact Iff.rfl

theorem lockWorkload_along (hs : Steady e m) (lock : Bool)
    (hname : wl.id.name = wl.workload.name) (hgap : ¬ Gap m last) :
    (lockWorkload wl lock).Along (exec e) (Passes e m (.setLock lock wl) w)
      (fun _ => Done e m (.setLock lock wl) w) last w := by
  rw [lockWorkload, along_perform_bind]
  refine ⟨.before rfl hgap, ?_⟩
  rcases exec_storageCurrent (e := e) w wl.id.key wl.id.name with
    ⟨cur, hres, hcur⟩ | ⟨err, hres, hnone, _⟩
  · have hrecord : (w.slots wl.id).record = some (untimed cur) := by
      rw [World.slots, hcur, Option.map_some]
    rw [hres]
    dsimp only
    split
    · next hnot =>
        have hfixed : (Task.setLock lock wl).settle e m (w.slots wl.id) =
            w.slots wl.id := by
          simp only [Bool.not_eq_true'] at hnot
          simp [Task.settle, hrecord, hnot]
        exact along_fixed hfixed rfl id fun hdone => hdone
    · next hokay =>
        simp only [Bool.not_eq_true', Bool.not_eq_false] at hokay
        obtain ⟨result, hans, hresult⟩ := hs.lock lock w.clock wl w.node
        rw [along_provisionerLock, hans]
        refine ⟨.before rfl id, ?_⟩
        have hgap' : ¬ Gap m (some (lockOp lock wl, w)) := by cases lock <;> exact id
        rcases hm : m.locked lock wl with ⟨recorded, _ | err⟩
        · rw [hm] at hresult
          refine transaction_along wl rfl hname (slots_of_eq rfl rfl)
            (fun h => absurd (h.symm.trans hrecord) (Option.some_ne_none _).symm)
            (fun _ => ?_) hgap'
          simp [Task.settle, hrecord, hokay, hm, hresult]
        · have hfixed : (Task.setLock lock wl).settle e m (w.slots wl.id) =
              w.slots wl.id := by
            simp [Task.settle, hrecord, hokay, hm]
          dsimp only
          split
          · exact along_fixed hfixed (slots_of_eq rfl rfl) hgap' fun hdone => hdone
          · exact along_fixed hfixed (slots_of_eq rfl rfl) hgap' fun hdone => hdone
  · have hfixed : (Task.setLock lock wl).settle e m (w.slots wl.id) = w.slots wl.id := by
      rw [Task.settle, record_eq_none.mpr hnone]
    rw [hres]
    exact along_fixed hfixed rfl id fun hdone => hdone

/-- What can be said of a task at its calls, and what it comes to. -/
theorem task_along (hs : Steady e m) (t : Task) (hname : t.id.name = t.wl.workload.name)
    (hgap : ¬ Gap m last) :
    (t.prog e).Along (exec e) (Passes e m t w) (fun _ => Done e m t w) last w := by
  cases t with
  | install wl => exact installWorkload_along hs hname hgap
  | uninstall wl reason =>
      exact (uninstallWorkload_along hs reason hname hgap).mono (fun _ _ h => h)
        fun _ _ h => h.1
  | update wl => exact updateWorkload_along hs hname hgap
  | setLock lock wl => exact lockWorkload_along hs lock hname hgap

end

end Zos4.Provision
