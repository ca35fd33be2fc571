import Zos4.Provision.Reference
import Zos4.Provision.Slots

/-!
# The order of the diff

The operations of an update come in whatever order the diff lists them, and the sort
by type only partly makes up for it. It does not matter: each operation makes of its
own slot what it makes of it at any time, and leaves the other slots alone, so
operations on different workloads can be done in any order (`updateDeployment_perm`).
That takes managers whose answers are a matter of the workload and of whether it is
installed (`Manager.Local`).
-/

namespace Zos4.Provision

open Zos4.Interaction Prog

section

variable [Zosbase] {σ μ : Type} [Storage σ] {e : NativeEngine μ} {w w' : World σ μ}

/-! ## Managers -/

/-- What a manager answers depends on the workload and on whether it is installed. -/
structure Manager.Local (m : Manager μ) : Prop where
  provision : ∀ wl node node', node.installed wl.id = node'.installed wl.id →
    (m.provision wl node).1 = (m.provision wl node').1
  deprovision : ∀ wl node node', node.installed wl.id = node'.installed wl.id →
    (m.deprovision wl node).1 = (m.deprovision wl node').1
  update : ∀ updater, m.updater = some updater →
    ∀ wl node node', node.installed wl.id = node'.installed wl.id →
      (updater wl node).1 = (updater wl node').1

/-- A node where all workloads are installed, or none. -/
def uniform (installed : Bool) (rest : μ) : Node μ := ⟨fun _ => installed, rest⟩

/-- The answers of a provisioner, as they are on such a node. -/
def replies (p : Provisioner μ) (rest : μ) : Replies where
  provided wl installed := untimedAnswer (p.provision 0 wl (uniform installed rest)).1
  deprovided wl installed := (p.deprovision wl (uniform installed rest)).1
  updated wl installed := untimedAnswer (p.update 0 wl (uniform installed rest)).1

theorem untimed_answer (now now' : Timestamp) (reply : Reply) :
    untimedAnswer (MapProvisioner.answer now reply) =
      untimedAnswer (MapProvisioner.answer now' reply) := by
  have hbuild : untimedAnswer (buildResult now reply) =
      untimedAnswer (buildResult now' reply) := by
    rw [buildResult, buildResult]
    cases reply.err <;> cases reply.data <;> rfl
  rw [MapProvisioner.answer, MapProvisioner.answer]
  cases reply.err with
  | none => exact hbuild
  | some err =>
      dsimp only
      split
      · rfl
      · exact hbuild

/-- The map provisioner answers as its managers do. -/
theorem replying {managers : WorkloadType → Option (Manager μ)}
    (hlocal : ∀ typ m, managers typ = some m → m.Local)
    (he : e.provisioner = mapProvisioner managers) (rest : μ) :
    Replying e (replies e.provisioner rest) := by
  rw [he]
  constructor
  · intro now wl node
    rw [he]
    simp only [replies, mapProvisioner, MapProvisioner.provision]
    cases hm : managers wl.workload.type with
    | none => rfl
    | some m =>
        dsimp only
        rw [(hlocal _ m hm).provision wl node (uniform (node.installed wl.id) rest) rfl]
        exact untimed_answer _ _ _
  · intro wl node
    rw [he]
    simp only [replies, mapProvisioner, MapProvisioner.deprovision]
    cases hm : managers wl.workload.type with
    | none => rfl
    | some m => exact (hlocal _ m hm).deprovision wl node _ rfl
  · intro now wl node
    rw [he]
    simp only [replies, mapProvisioner, MapProvisioner.update]
    cases hm : managers wl.workload.type with
    | none => rfl
    | some m =>
        dsimp only
        cases hu : m.updater with
        | none => rfl
        | some updater =>
            dsimp only
            rw [(hlocal _ m hm).update updater hu wl node
              (uniform (node.installed wl.id) rest) rfl]
            exact untimed_answer _ _ _

/-! ## Operations -/

def opID (op : UpgradeOp) : WorkloadID := op.wlID.id

variable {a : Replies} {ops ops' : List UpgradeOp}

/-- Operations on different workloads settle their slots. -/
theorem run_operations (ha : Replying e a)
    (hnames : ∀ op ∈ ops, op.wlID.id.name = op.wlID.workload.name)
    (hnodup : (ops.map opID).Nodup) (w : World σ μ) :
    ((ops.forM fun op => logged (applyOperation e op)).run (exec e) w).2.slots =
      settled opID (settleOperation e a) ops w.slots := by
  induction ops generalizing w with
  | nil => rfl
  | cons op ops ih =>
      obtain ⟨hnot, hnodup⟩ := List.nodup_cons.mp hnodup
      have hop := applyOperation_slots (w := w) ha (hnames op List.mem_cons_self)
      show ((logged (applyOperation e op) >>= fun _ =>
        ops.forM fun op => logged (applyOperation e op)).run (exec e) w).2.slots = _
      rw [run_bind, run_logged, ih (fun op hop => hnames op (List.mem_cons_of_mem _ hop)) hnodup,
        hop, settled_cons hnot]
      rfl

theorem updateDeployment_slots (ha : Replying e a)
    (hnames : ∀ op ∈ ops, op.wlID.id.name = op.wlID.workload.name)
    (hnodup : (ops.map opID).Nodup) (w : World σ μ) :
    ((updateDeployment e ops).run (exec e) w).2.slots =
      settled opID (settleOperation e a) ops w.slots := by
  have hperm : (sortOperations e ops).Perm ops := List.perm_insertionSort _ ops
  rw [updateDeployment, run_operations ha (fun op hop => hnames op (hperm.mem_iff.mp hop))
    ((hperm.map opID).nodup_iff.mpr hnodup)]
  exact settled_perm hperm ((hperm.map opID).nodup_iff.mpr hnodup) _

/-- Two lists of the same operations, on different workloads, leave the same behind, up
to time. -/
theorem updateDeployment_perm {managers : WorkloadType → Option (Manager μ)}
    (hlocal : ∀ typ m, managers typ = some m → m.Local)
    (he : e.provisioner = mapProvisioner managers) (hperm : ops.Perm ops')
    (hnames : ∀ op ∈ ops, op.wlID.id.name = op.wlID.workload.name)
    (hnodup : (ops.map opID).Nodup) (hslots : w.slots = w'.slots) :
    ((updateDeployment e ops).run (exec e) w).2.slots =
      ((updateDeployment e ops').run (exec e) w').2.slots := by
  have ha := replying hlocal he w.node.rest
  rw [updateDeployment_slots ha hnames hnodup, settled_perm hperm hnodup, hslots,
    updateDeployment_slots ha (fun op hop => hnames op (hperm.mem_iff.mpr hop))
      ((hperm.map opID).nodup_iff.mp hnodup)]

end

/-! ## One workload of each kind -/

namespace Reference

theorem manager_local : manager.Local where
  provision wl node node' h := by simp only [manager, h]
  deprovision _ _ _ _ := rfl
  update updater hupdater wl node node' _ := by
    obtain rfl := Option.some.inj hupdater
    rfl

def stored : Deployment := deployment 0 1 [workload 0 "a" "1", workload 0 "b" "1"]

/-- The second is in the store and is installed. -/
def halfInstalled : World MapStore Unit := world (store [stored]) [⟨1, 1, "b"⟩] [] ⟨[], []⟩

def toRemove : UpgradeOp := ⟨stored.withID (workload 0 "a" "1"), .opRemove⟩

def toUpdate : UpgradeOp := ⟨stored.withID (workload 1 "b" "2"), .opUpdate⟩

def toAdd : UpgradeOp := ⟨stored.withID (workload 0 "c" "1"), .opAdd⟩

end Reference

open Reference in
theorem updateDeployment_perm_three :
    ((updateDeployment engine [toRemove, toUpdate, toAdd]).run (exec engine)
        halfInstalled).2.slots =
      ((updateDeployment engine [toAdd, toRemove, toUpdate]).run (exec engine)
        { halfInstalled with clock := 7 }).2.slots :=
  updateDeployment_perm (fun _ m hm => Option.some.inj hm ▸ manager_local) rfl
    (@List.perm_append_comm _ [toRemove, toUpdate] [toAdd]) (by decide) (by decide)
    rfl

end Zos4.Provision
