import Zos4.Provision.Tasks

/-!
# One slot at a time

An update goes through its operations one by one, and what it does to one workload is
a matter of the slot of that workload alone, whatever the managers answer. The other
slots are left as they are (`run_slots_of_on`), and `settleOperation` is what its own
comes to, through every branch: no record, a manager that fails, one that has nothing
to do. `Replies` is what the managers answer, up to time, where that depends on the
workload and on whether it is installed only.
-/

namespace Zos4.Provision

open Zos4.Interaction Prog

variable [Zosbase] {σ μ : Type} [Storage σ] {e : NativeEngine μ} {w : World σ μ}

/-! ## The other slots -/

/-- A call on behalf of a workload leaves the slots of the others alone. -/
theorem exec_slots_of_on {wl : WorkloadWithID} {op : Op} (hon : op.on wl)
    (hname : wl.id.name = wl.workload.name) {id : WorkloadID} (hid : id ≠ wl.id) :
    (exec e op w).2.slots id = w.slots id := by
  have hkn : ¬ (id.key = wl.id.key ∧ id.name = wl.id.name) :=
    fun h => hid (WorkloadID.eq_of_key h.1 h.2)
  have hinstalled : (exec e op w).2.node.installed id = w.node.installed id :=
    (exec_untouched (Op.not_touches_of_on hon hid.symm hname)).installed
  rw [World.slots, World.slots, hinstalled]
  have hrewrites := exec_rewrites (e := e) op w
  generalize (exec e op w).2.view = v at hrewrites ⊢
  cases hrewrites with
  | kept => rfl
  | create | update | delete | error => exact hon.elim
  | add =>
      obtain ⟨rfl, rfl⟩ := hon
      rw [StoreView.add_header, StoreView.add_workload, ← hname, if_neg hkn]
  | transaction =>
      obtain ⟨rfl, result, rfl⟩ := hon
      rw [StoreView.transaction_header, StoreView.transaction_workload,
        Workload.withResults_name, ← hname, if_neg hkn]
  | remove =>
      obtain ⟨rfl, rfl⟩ := hon
      rw [StoreView.remove_header, StoreView.remove_workload, if_neg hkn]

theorem run_slots_of_on {α : Type} {wl : WorkloadWithID} {p : EngineM α}
    (hp : Makes p fun op => op.on wl) (hname : wl.id.name = wl.workload.name)
    {id : WorkloadID} (hid : id ≠ wl.id) : (p.run (exec e) w).2.slots id = w.slots id := by
  induction p generalizing w with
  | ret a => rfl
  | call op k ih =>
      rw [run_call, ih _ (hp.2 _ (exec_possible op w))]
      exact exec_slots_of_on hp.1 hname hid

/-! ## What the managers answer -/

def untimedAnswer (ans : Result × Option GoError) : Result × Option GoError :=
  (untimedResult ans.1, ans.2)

/-- What managers answer about a workload that is installed, or is not. -/
structure Replies where
  provided : WorkloadWithID → Bool → Result × Option GoError
  deprovided : WorkloadWithID → Bool → Option GoError
  updated : WorkloadWithID → Bool → Result × Option GoError

/-- The managers answer so, up to time. -/
structure Replying (e : NativeEngine μ) (a : Replies) : Prop where
  provision : ∀ now wl node, untimedAnswer (e.provisioner.provision now wl node).1 =
    a.provided wl (node.installed wl.id)
  deprovision : ∀ wl node, (e.provisioner.deprovision wl node).1 =
    a.deprovided wl (node.installed wl.id)
  update : ∀ now wl node, untimedAnswer (e.provisioner.update now wl node).1 =
    a.updated wl (node.installed wl.id)

/-! ## What an operation makes of its slot -/

/-- What is recorded of a workload whose manager failed. -/
def failedResult (now : Timestamp) (result : Result) (err : GoError) : Result :=
  { result with created := now, state := .error, error := err.error }

def Slot.provide (a : Replies) (wl : WorkloadWithID) (x : Slot) : Slot :=
  match a.provided wl x.installed with
  | (result, none) =>
      { x.put wl result with installed := result.state.isOkay || x.installed }
  | (result, some err) =>
      if err.is .noActionNeeded then x else x.put wl (failedResult 0 result err)

def settleOperation (e : NativeEngine μ) (a : Replies) (op : UpgradeOp) (x : Slot) : Slot :=
  match op.op, x.record with
  | .opAdd, none =>
      if x.stored then (x.put op.wlID (Result.initial 0)).provide a op.wlID else x
  | .opAdd, some cur =>
      if cur.result.state == .deleted || cur.result.state == .error then x
      else x.provide a op.wlID
  | .opRemove, none => x
  | .opRemove, some _ =>
      match a.deprovided op.wlID x.installed with
      | none => { x with record := none, installed := false }
      | some err => x.put op.wlID (uninstallResult "" 0 (some err))
  | .opUpdate, none => x
  | .opUpdate, some cur =>
      if e.provisioner.canUpdate op.wlID.workload.type then
        match a.updated op.wlID x.installed with
        | (result, none) => x.put op.wlID result
        | (_, some err) => if err.is .noActionNeeded then x.put op.wlID cur.result else x
      else x

variable {a : Replies} {wl : WorkloadWithID}

/-- The record is there, and is overwritten. -/
theorem transaction_slot (hname : wl.id.name = wl.workload.name) (result : Result)
    (hrecord : (w.slots wl.id).record ≠ none) :
    (exec e (.storageTransaction wl.id.key (wl.workload.withResults result)) w).2.slots
        wl.id = (w.slots wl.id).put wl (untimedResult result) := by
  rw [transaction_slots hname result hrecord, Function.update_self]

theorem provision_slot (ha : Replying e a) (w : World σ μ) (wl : WorkloadWithID) :
    ∃ result err, (exec e (.provision wl) w).1 = (result, err) ∧
      (untimedResult result, err) = a.provided wl (w.slots wl.id).installed ∧
      (exec e (.provision wl) w).2.slots wl.id =
        { w.slots wl.id with
          installed := (err.isNone && result.state.isOkay) || (w.slots wl.id).installed } := by
  have hans := ha.provision w.clock wl w.node
  rcases hres : (e.provisioner.provision w.clock wl w.node).1 with ⟨result, err⟩
  rw [hres] at hans
  refine ⟨result, err, hres, hans, ?_⟩
  rw [exec_provision, hres]
  cases hok : err.isNone && result.state.isOkay with
  | true => simp [World.slots, Node.afterProvision, Node.install, hok]
  | false => simp [World.slots, Node.afterProvision, hok]

theorem provisionWorkload_slot (ha : Replying e a) (hname : wl.id.name = wl.workload.name)
    (hrecord : (w.slots wl.id).record ≠ none) :
    ((provisionWorkload wl).run (exec e) w).2.slots wl.id = (w.slots wl.id).provide a wl := by
  obtain ⟨result, err, hres, hans, hslot⟩ := provision_slot ha w wl
  have hthere : ((exec e (.provision wl) w).2.slots wl.id).record ≠ none := by
    rw [hslot]
    exact hrecord
  rw [provisionWorkload, run_bind, run_perform, hres, Slot.provide, ← hans]
  cases err with
  | none =>
      dsimp only
      rw [run_perform, transaction_slot hname result hthere, hslot]
      rfl
  | some err =>
      dsimp only
      split
      · exact hslot
      · rw [run_bind, run_perform]
        refine (transaction_slot hname (failedResult w.clock result err) hthere).trans ?_
        rw [hslot]
        rfl

theorem deprovision_slot (ha : Replying e a) (w : World σ μ) (wl : WorkloadWithID) :
    ∃ err, (exec e (.deprovision wl) w).1 = err ∧
      err = a.deprovided wl (w.slots wl.id).installed ∧
      (exec e (.deprovision wl) w).2.slots wl.id =
        { w.slots wl.id with installed := err.isSome && (w.slots wl.id).installed } := by
  refine ⟨_, rfl, ha.deprovision wl w.node, ?_⟩
  rw [exec_deprovision]
  cases (e.provisioner.deprovision wl w.node).1 with
  | none => simp [World.slots, Node.afterDeprovision, Node.uninstall]
  | some err => simp [World.slots, Node.afterDeprovision]

theorem installWorkload_slot (ha : Replying e a) (hname : wl.id.name = wl.workload.name) :
    ((installWorkload wl).run (exec e) w).2.slots wl.id =
      settleOperation e a ⟨wl, .opAdd⟩ (w.slots wl.id) := by
  rw [installWorkload, run_bind, run_perform]
  rcases exec_storageCurrent (e := e) w wl.id.key wl.id.name with
    ⟨cur, hcur, hthere⟩ | ⟨err, hcur, hmissing, herr⟩
  · have hrecord : (w.slots wl.id).record = some (untimed cur) := by
      rw [World.slots, hthere]
      rfl
    rw [hcur]
    simp only [settleOperation, hrecord]
    split
    · next hdead => exact (if_pos hdead).symm
    · next hdead =>
        have hthere : (w.slots wl.id).record ≠ none := hrecord ▸ Option.some_ne_none _
        exact (provisionWorkload_slot ha hname hthere).trans (if_neg hdead).symm
  · have hrecord : (w.slots wl.id).record = none := record_eq_none.mpr hmissing
    rw [hcur]
    simp only [settleOperation, hrecord]
    cases hstored : (w.slots wl.id).stored with
    | false =>
        have hnot : ¬ err.is .workloadNotExist = true := by
          rw [herr, ← stored_iff, hstored]
          simp
        rw [if_neg hnot, if_neg (by simp)]
        rfl
    | true =>
        have hnot : err.is .workloadNotExist = true := herr.mpr (stored_iff.mp hstored)
        obtain ⟨hans, hslots⟩ := add_slots (e := e) hname hrecord hstored
        have hslot : (exec e (.storageAdd wl.id.key wl.workload) w).2.slots wl.id =
            (w.slots wl.id).put wl (Result.initial 0) := by
          rw [hslots, Function.update_self]
        rw [if_pos hnot, if_pos rfl, run_bind, run_perform, hans]
        dsimp only
        rw [provisionWorkload_slot ha hname (by rw [hslot]; simp [Slot.put]), hslot]

theorem uninstallWorkload_slot (ha : Replying e a) (hname : wl.id.name = wl.workload.name)
    (reason : String) :
    ((uninstallWorkload wl reason).run (exec e) w).2.slots wl.id =
      settleOperation e a ⟨wl, .opRemove⟩ (w.slots wl.id) := by
  rw [uninstallWorkload, run_bind, run_perform]
  rcases exec_storageCurrent (e := e) w wl.id.key wl.id.name with
    ⟨cur, hcur, hthere⟩ | ⟨err, hcur, hmissing, herr⟩
  · have hrecord : (w.slots wl.id).record = some (untimed cur) := by
      rw [World.slots, hthere]
      rfl
    obtain ⟨err, hres, hans, hslot⟩ := deprovision_slot ha w wl
    have hthere : ((exec e (.deprovision wl) w).2.slots wl.id).record ≠ none := by
      rw [hslot, hrecord]
      simp
    rw [hcur]
    simp only [settleOperation, hrecord, ← hans]
    rw [run_bind, run_perform, hres, run_bind, run_perform, exec_now, run_bind, run_perform,
      transaction_answer hname _ hthere]
    have hput := transaction_slot (e := e) hname
      (uninstallResult reason (exec e (.deprovision wl) w).2.clock err) hthere
    cases err with
    | none =>
        dsimp only
        rw [if_pos (uninstallResult_state _ _), run_perform]
        have hstored := stored_of_record
          (ne_of_eq_of_ne (congrArg Slot.record hput) (Option.some_ne_none _))
        rw [(remove_slots hstored).2, Function.update_self, hput, hslot]
        rfl
    | some err =>
        dsimp only
        rw [if_neg (by simp [uninstallResult])]
        refine hput.trans ?_
        rw [hslot]
        rfl
  · have hrecord : (w.slots wl.id).record = none := record_eq_none.mpr hmissing
    rw [hcur]
    simp only [settleOperation, hrecord]
    split <;> rfl

/-- Recording an update whose record may be gone. -/
theorem transaction_maybe (hname : wl.id.name = wl.workload.name) (result : Result) :
    (exec e (.storageTransaction wl.id.key (wl.workload.withResults result)) w).2.slots
        wl.id =
      match (w.slots wl.id).record with
      | none => w.slots wl.id
      | some _ => (w.slots wl.id).put wl (untimedResult result) := by
  cases hrecord : (w.slots wl.id).record with
  | none => rw [transaction_refused hname result hrecord]
  | some cur => exact transaction_slot hname result (by rw [hrecord]; simp)

theorem recordUpdate_slot (hname : wl.id.name = wl.workload.name)
    (ans : Result × Option GoError) :
    ((recordUpdate wl ans).run (exec e) w).2.slots wl.id =
      match (w.slots wl.id).record, untimedAnswer ans with
      | none, _ => w.slots wl.id
      | some _, (result, none) => (w.slots wl.id).put wl result
      | some cur, (_, some err) =>
          if err.is .noActionNeeded then (w.slots wl.id).put wl cur.result
          else w.slots wl.id := by
  obtain ⟨result, err⟩ := ans
  cases err with
  | none =>
      rw [recordUpdate, run_perform, transaction_maybe hname]
      cases (w.slots wl.id).record <;> rfl
  | some err =>
      rw [recordUpdate]
      by_cases hneeded : err.is .noActionNeeded = true
      · rw [if_pos hneeded, run_bind, run_perform]
        rcases exec_storageCurrent (e := e) w wl.id.key wl.id.name with
          ⟨cur, hcur, hthere⟩ | ⟨err, hcur, hmissing, -⟩
        · have hrecord : (w.slots wl.id).record = some (untimed cur) := by
            rw [World.slots, hthere]
            rfl
          rw [hcur]
          dsimp only
          rw [run_perform, transaction_maybe hname, hrecord]
          exact (if_pos hneeded).symm
        · have hrecord : (w.slots wl.id).record = none := record_eq_none.mpr hmissing
          rw [hcur, hrecord]
          rfl
      · rw [if_neg hneeded, run_pure]
        cases hrecord : (w.slots wl.id).record with
        | none => rfl
        | some cur => exact (if_neg hneeded).symm

theorem updateWorkload_slot (ha : Replying e a) (hname : wl.id.name = wl.workload.name) :
    ((updateWorkload e wl).run (exec e) w).2.slots wl.id =
      settleOperation e a ⟨wl, .opUpdate⟩ (w.slots wl.id) := by
  have hans := ha.update w.clock wl w.node
  have hslot : (exec e (.update wl) w).2.slots = w.slots := slots_of_eq rfl rfl
  rw [updateWorkload]
  split
  · next hcan =>
      rw [run_bind, run_perform, recordUpdate_slot hname, hslot]
      have hanswer : untimedAnswer (exec e (.update wl) w).1 =
          a.updated wl (w.slots wl.id).installed := hans
      rw [hanswer]
      cases hrecord : (w.slots wl.id).record with
      | none => simp only [settleOperation, hrecord]
      | some cur =>
          simp only [settleOperation, hrecord, if_pos hcan]
          rcases a.updated wl (w.slots wl.id).installed with ⟨result, _ | err⟩ <;> rfl
  · next hcan =>
      rw [recordUpdate_slot hname]
      cases hrecord : (w.slots wl.id).record with
      | none => simp only [settleOperation, hrecord]
      | some cur =>
          simp only [settleOperation, hrecord, if_neg hcan]
          rfl

/-- The operations of an update, each with its own slot. -/
theorem applyOperation_slots (ha : Replying e a) {op : UpgradeOp}
    (hname : op.wlID.id.name = op.wlID.workload.name) :
    ((applyOperation e op).run (exec e) w).2.slots =
      Function.update w.slots op.wlID.id
        (settleOperation e a op (w.slots op.wlID.id)) := by
  obtain ⟨wl, kind⟩ := op
  have hother : ∀ id, id ≠ wl.id →
      ((applyOperation e ⟨wl, kind⟩).run (exec e) w).2.slots id = w.slots id := by
    intro id hid
    cases kind with
    | opRemove =>
        exact run_slots_of_on (within_mono (uninstallWorkload_makes wl _) fun _ h => h.1)
          hname hid
    | opAdd => exact run_slots_of_on (installWorkload_on wl) hname hid
    | opUpdate => exact run_slots_of_on (updateWorkload_on wl) hname hid
  funext id
  by_cases hid : id = wl.id
  · subst hid
    rw [Function.update_self]
    cases kind with
    | opRemove => exact uninstallWorkload_slot ha hname _
    | opAdd => exact installWorkload_slot ha hname
    | opUpdate => exact updateWorkload_slot ha hname
  · rw [Function.update_of_ne hid, hother id hid]

end Zos4.Provision
