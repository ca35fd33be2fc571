import Mathlib.Data.List.Perm.Basic
import Zos4.Proofs.StartupOrder
import Zos4.Provision.Slots

/-!
# Disks by size

Creating a deployment provisions its disks by size, the larger before the smaller, for
`installDeployment` sorts those of each mount type. Adding the same workloads by an
update goes through `sortOperations`, which knows of types only and is stable: within a
type the disks come in the order the diff lists them. They are provisioned by size
exactly when they are listed so (`mounts_placed_iff`).
-/

namespace Zos4.Provision

open Zos4.Interaction Prog Zos4.Order

section

variable [Zosbase]

/-! ## Provisioning in order -/

def wlType (wl : WorkloadWithID) : WorkloadType := wl.workload.type

def isMount (typ : WorkloadType) : Prop := typ = .zmount ∨ typ = .volume

/-- Of two disks of a type the larger comes first. -/
def LargerFirst (wl wl' : WorkloadWithID) : Prop :=
  wl.workload.type = wl'.workload.type → isMount wl.workload.type →
    ∀ size size', getMountSize wl.workload = .ok size → getMountSize wl'.workload = .ok size' →
      size' ≤ size

/-- Types in order, and the disks of a type by size. -/
def Placed (order : List WorkloadType) (wls : List WorkloadWithID) : Prop :=
  wls.Pairwise fun wl wl' =>
    order.idxOf wl.workload.type ≤ order.idxOf wl'.workload.type ∧ LargerFirst wl wl'

def Op.provisioned : Op → Option WorkloadWithID
  | .provision wl => some wl
  | _ => none

variable {σ μ : Type} [Storage σ]

/-- What the provisioner is told to provision, in order. -/
def provisions {α : Type} (e : NativeEngine μ) (p : EngineM α) (w : World σ μ) :
    List WorkloadWithID := (p.calls (exec e) w).filterMap Op.provisioned

/-- The workload is provisioned: it is not recorded yet, though its deployment is, or it
is recorded as neither deleted nor failed. -/
def Slot.attempted (x : Slot) : Bool :=
  match x.record with
  | none => x.stored
  | some cur => !(cur.result.state == .deleted || cur.result.state == .error)

/-- The workloads of the list that are provisioned. -/
def World.attempted (w : World σ μ) (wls : List WorkloadWithID) : List WorkloadWithID :=
  wls.filter fun wl => (w.slots wl.id).attempted

variable {e : NativeEngine μ} {w : World σ μ} {wl : WorkloadWithID} {wls : List WorkloadWithID}

theorem provisions_bind {α β : Type} (p : EngineM α) (f : α → EngineM β) (w : World σ μ) :
    provisions e (p >>= f) w =
      provisions e p w ++ provisions e (f (p.run (exec e) w).1) (p.run (exec e) w).2 := by
  rw [provisions, calls_bind, List.filterMap_append]
  rfl

@[simp] theorem provisions_pure {α : Type} (a : α) : provisions e (pure a) w = [] := rfl

theorem provisions_ask (op : Op) : provisions e (ask op) w = op.provisioned.toList := by
  rw [provisions, calls_perform]
  cases h : op.provisioned <;> simp [h]

theorem provisions_logged (p : EngineM (Option GoError)) :
    provisions e (logged p) w = provisions e p w := by
  rw [logged, provisions_bind, provisions_pure, List.append_nil]

theorem provisions_provisionWorkload : provisions e (provisionWorkload wl) w = [wl] := by
  rw [provisionWorkload, provisions_bind, provisions_ask, run_perform]
  refine congrArg (wl :: ·) ?_
  generalize (exec e (.provision wl) w).1 = ans
  obtain ⟨result, _ | err⟩ := ans
  · exact provisions_ask _
  · dsimp only
    split
    · rfl
    · rw [provisions_bind, provisions_ask, provisions_ask]
      rfl

theorem provisions_installWorkload (hname : wl.id.name = wl.workload.name) :
    provisions e (installWorkload wl) w =
      if (w.slots wl.id).attempted then [wl] else [] := by
  rw [installWorkload, provisions_bind, provisions_ask, run_perform]
  rcases exec_storageCurrent (e := e) w wl.id.key wl.id.name with
    ⟨cur, hcur, hthere⟩ | ⟨err, hcur, hmissing, herr⟩
  · have hrecord : (w.slots wl.id).record = some (untimed cur) := by
      rw [World.slots, hthere]
      rfl
    rw [hcur]
    simp only [Slot.attempted, hrecord, untimed_result, untimedResult_state]
    split
    · next hdead => rw [hdead]; rfl
    · next hdead =>
        rw [provisions_provisionWorkload, if_pos (by simpa using hdead)]
        rfl
  · have hrecord : (w.slots wl.id).record = none := record_eq_none.mpr hmissing
    rw [hcur]
    simp only [Slot.attempted, hrecord]
    cases hstored : (w.slots wl.id).stored with
    | false =>
        have hnot : ¬ err.is .workloadNotExist = true := by
          rw [herr, ← stored_iff, hstored]
          simp
        rw [if_neg hnot]
        rfl
    | true =>
        have hnot : err.is .workloadNotExist = true := herr.mpr (stored_iff.mp hstored)
        obtain ⟨hans, -⟩ := add_slots (e := e) hname hrecord hstored
        rw [if_pos hnot, if_pos rfl, provisions_bind, provisions_ask, run_perform, hans]
        dsimp only
        rw [provisions_provisionWorkload]
        rfl

/-- Installing one workload after the other. The slots of those still to come are as
they were. -/
theorem provisions_installs (hnames : ∀ wl ∈ wls, wl.id.name = wl.workload.name)
    (hnodup : (wls.map (·.id)).Nodup) (w : World σ μ) :
    provisions e (wls.forM fun wl => logged (installWorkload wl)) w = w.attempted wls := by
  induction wls generalizing w with
  | nil => rfl
  | cons wl wls ih =>
      obtain ⟨hnot, hnodup⟩ := List.nodup_cons.mp hnodup
      have hname := hnames wl List.mem_cons_self
      have hrest := ih (fun wl' hwl' => hnames wl' (List.mem_cons_of_mem _ hwl')) hnodup
        ((logged (installWorkload wl)).run (exec e) w).2
      have hsame : ∀ wl' ∈ wls, ((logged (installWorkload wl)).run (exec e) w).2.slots wl'.id =
          w.slots wl'.id := by
        intro wl' hwl'
        have hne : wl'.id ≠ wl.id := fun heq => hnot (List.mem_map.mpr ⟨wl', hwl', heq⟩)
        rw [run_logged]
        exact run_slots_of_on (installWorkload_on wl) hname hne
      show provisions e (logged (installWorkload wl) >>= fun _ =>
        wls.forM fun wl => logged (installWorkload wl)) w = _
      rw [provisions_bind, provisions_logged, provisions_installWorkload hname, hrest,
        World.attempted, World.attempted, List.filter_cons]
      have hfilter := List.filter_congr fun wl' hwl' =>
        congrArg Slot.attempted (hsame wl' hwl')
      rw [hfilter]
      split <;> rfl

/-! ## On creation -/

section

variable [GoRuntime] {dl : Deployment} {order : List WorkloadType}

/-- `sort.Slice` sorts, if it is given a strict weak order. -/
def SortsSlices : Prop :=
  ∀ (α : Type) (less : α → α → Bool) (l : List α),
    (∀ a ∈ l, ∀ b ∈ l, less a b = true → less b a = false) →
    (∀ a ∈ l, ∀ b ∈ l, ∀ c ∈ l, less a c = true → less a b = true ∨ less b c = true) →
    (GoRuntime.sortSlice less l).Pairwise fun a b => less b a = false

/-- Disks whose data can be decoded are sorted by size. -/
theorem sortMountWorkloads_largerFirst (hsort : SortsSlices)
    (hsizes : ∀ wl ∈ wls, ∃ size, getMountSize wl.workload = .ok size) :
    (sortMountWorkloads wls).Pairwise LargerFirst := by
  rw [sortMountWorkloads]
  refine List.Pairwise.imp ?_ (hsort WorkloadWithID _ wls ?_ ?_)
  · intro wl wl' hless _ _ size size' hsize hsize'
    simpa [hsize, hsize'] using hless
  · intro a ha b hb
    obtain ⟨size, hsize⟩ := hsizes a ha
    obtain ⟨size', hsize'⟩ := hsizes b hb
    simp only [hsize, hsize', decide_eq_true_eq, decide_eq_false_iff_not,
      UInt64.lt_iff_toNat_lt]
    omega
  · intro a ha b hb c hc
    obtain ⟨size, hsize⟩ := hsizes a ha
    obtain ⟨size', hsize'⟩ := hsizes b hb
    obtain ⟨size'', hsize''⟩ := hsizes c hc
    simp only [hsize, hsize', hsize'', decide_eq_true_eq, UInt64.lt_iff_toNat_lt]
    omega

theorem installOrder_perm (order : List WorkloadType) :
    (order.flatMap (installOrder dl)).Perm
      (grouped wlType order (dl.workloads.map dl.withID)) := by
  refine List.Perm.flatMap_left order fun typ _ => ?_
  have hbyType : dl.byType [typ] =
      (dl.workloads.map dl.withID).filter fun wl => wlType wl = typ := by
    rw [Deployment.byType, List.filter_map]
    congr 1
    refine List.filter_congr fun wl _ => ?_
    by_cases heq : wl.type = typ <;> simp [wlType, heq]
  rw [installOrder, ← hbyType]
  split
  · exact GoRuntime.sortSlice_perm _ _
  · rfl

theorem of_mem_installOrder {typ : WorkloadType} (h : wl ∈ installOrder dl typ) :
    ∃ wl' ∈ dl.workloads, wl'.type = typ ∧ wl = dl.withID wl' := by
  have hmem : wl ∈ [typ].flatMap (installOrder dl) := by simpa using h
  simpa using mem_installOrder.mp hmem

theorem installOrder_largerFirst (hsort : SortsSlices)
    (hsizes : ∀ wl ∈ dl.workloads, isMount wl.type → ∃ size, getMountSize wl = .ok size)
    (typ : WorkloadType) : (installOrder dl typ).Pairwise LargerFirst := by
  by_cases hmount : isMount typ
  · rw [installOrder, if_pos (show typ = .zmount ∨ typ = .volume from hmount)]
    refine sortMountWorkloads_largerFirst hsort fun wl hwl => ?_
    obtain ⟨wl, hmem, htyp, rfl⟩ := Deployment.mem_byType.mp hwl
    exact hsizes wl hmem (List.mem_singleton.mp htyp ▸ hmount)
  · refine List.Pairwise.imp_of_mem (fun {wl wl'} hwl _ _ _ hmount' => ?_)
      (List.pairwise_of_forall fun _ _ => True.intro)
    obtain ⟨wl, _, rfl, rfl⟩ := of_mem_installOrder hwl
    exact absurd hmount' hmount

/-- Workloads are provisioned in order when their deployment is created. -/
theorem installDeployment_placed (hsort : SortsSlices) (horder : e.order.Nodup)
    (htypes : ∀ wl ∈ dl.workloads, wl.type ∈ e.order)
    (hsizes : ∀ wl ∈ dl.workloads, isMount wl.type → ∃ size, getMountSize wl = .ok size)
    (hnodup : dl.names.Nodup) (w : World σ μ) :
    Placed e.order (provisions e (installDeployment e dl) w) := by
  have hperm : (e.order.flatMap (installOrder dl)).Perm (dl.workloads.map dl.withID) := by
    refine (installOrder_perm e.order).trans (grouped_perm horder fun wl hwl => ?_)
    obtain ⟨wl, hmem, rfl⟩ := List.mem_map.mp hwl
    exact htypes wl hmem
  have hids : ((dl.workloads.map dl.withID).map (·.id)).Nodup := by
    rw [List.map_map]
    refine List.Nodup.of_map (·.name) ?_
    rw [List.map_map]
    exact hnodup
  have hnames : ∀ wl ∈ e.order.flatMap (installOrder dl), wl.id.name = wl.workload.name := by
    intro wl hwl
    obtain ⟨wl, _, rfl⟩ := List.mem_map.mp (hperm.mem_iff.mp hwl)
    rfl
  have hidx : e.order.Pairwise fun typ typ' => e.order.idxOf typ < e.order.idxOf typ' :=
    pairwise_idxOf horder
  rw [installDeployment, provisions_installs hnames ((hperm.map _).nodup_iff.mpr hids)]
  refine List.Pairwise.filter _ ?_
  rw [List.pairwise_flatMap]
  constructor
  · intro typ _
    refine (installOrder_largerFirst hsort hsizes typ).imp_of_mem fun {wl wl'} hwl hwl' h => ?_
    obtain ⟨wl, _, rfl, rfl⟩ := of_mem_installOrder hwl
    obtain ⟨wl', _, htyp, rfl⟩ := of_mem_installOrder hwl'
    exact ⟨Nat.le_of_eq (congrArg e.order.idxOf htyp.symm), h⟩
  · refine hidx.imp fun {typ typ'} hlt wl hwl wl' hwl' => ?_
    obtain ⟨wl, _, rfl, rfl⟩ := of_mem_installOrder hwl
    obtain ⟨wl', _, rfl, rfl⟩ := of_mem_installOrder hwl'
    refine ⟨Nat.le_of_lt hlt, fun heq => ?_⟩
    exact absurd (congrArg e.order.idxOf heq) (Nat.ne_of_lt hlt)

end

/-! ## By an update -/

/-- An update that adds workloads installs them in the order their operations are sorted
in. -/
theorem updateDeployment_adds {ops : List UpgradeOp} (hops : ∀ op ∈ ops, op.op = .opAdd) :
    updateDeployment e ops = ((sortOperations e ops).map (·.wlID)).forM fun wl =>
      logged (installWorkload wl) := by
  have hsorted : ∀ op ∈ sortOperations e ops, op.op = .opAdd := fun op hop =>
    hops op ((List.perm_insertionSort _ ops).mem_iff.mp hop)
  rw [updateDeployment]
  generalize sortOperations e ops = sorted at hsorted
  induction sorted with
  | nil => rfl
  | cons op sorted ih =>
      have hop : applyOperation e op = installWorkload op.wlID := by
        rw [applyOperation, hsorted op List.mem_cons_self]
      have hrest := ih fun op' hop' => hsorted op' (List.mem_cons_of_mem op hop')
      show (logged (applyOperation e op) >>= fun _ =>
        sorted.forM fun op => logged (applyOperation e op)) = _
      rw [hop, hrest]
      rfl

/-- What is provisioned, by type and else as it is listed. -/
theorem provisions_adds (hindexed : Indexed e.order e.typeIndex) {ops : List UpgradeOp}
    (hops : ∀ op ∈ ops, op.op = .opAdd) (htypes : ∀ op ∈ ops, opType op ∈ e.order)
    (hnames : ∀ op ∈ ops, op.wlID.id.name = op.wlID.workload.name)
    (hnodup : (ops.map fun op => op.wlID.id).Nodup) (w : World σ μ) :
    provisions e (updateDeployment e ops) w =
      grouped wlType e.order (w.attempted (ops.map (·.wlID))) := by
  have hperm : (sortOperations e ops).Perm ops := List.perm_insertionSort _ ops
  have hremovals : ops.filter isRemoval = [] := by
    rw [List.filter_eq_nil_iff]
    intro op hop
    simp [isRemoval, hops op hop]
  have hothers : (ops.filter fun op => !isRemoval op) = ops := by
    rw [List.filter_eq_self]
    intro op hop
    simp [isRemoval, hops op hop]
  have hsorted : (sortOperations e ops).map (·.wlID) =
      grouped wlType e.order (ops.map (·.wlID)) := by
    have hstaged := sortOperations_staged hindexed htypes
    rw [hstaged, staged, hremovals, hothers, grouped_map, grouped_empty, List.nil_append]
    rfl
  rw [updateDeployment_adds hops, provisions_installs, hsorted, World.attempted, World.attempted,
    filter_grouped]
  · intro wl hwl
    obtain ⟨op, hop, rfl⟩ := List.mem_map.mp hwl
    exact hnames op (hperm.mem_iff.mp hop)
  · rw [List.map_map]
    exact (hperm.map _).nodup_iff.mpr hnodup

end

section

variable [Zosbase] [GoRuntime] [Registry] {σ μ : Type} [Storage σ]

/-- Workloads added by an update are provisioned as they would be on creation exactly
when no disk that is provisioned is listed after a smaller one of its type. -/
theorem mounts_placed_iff {provisioner : Provisioner μ} {opts : List EngineOption}
    {order : List WorkloadType} {e : NativeEngine μ} (he : New provisioner opts = some e)
    (hopts : opts.filterMap EngineOption.startupOrder = [order]) {ops : List UpgradeOp}
    (hops : ∀ op ∈ ops, op.op = .opAdd) (htypes : ∀ op ∈ ops, opType op ∈ Registry.types)
    (hnames : ∀ op ∈ ops, op.wlID.id.name = op.wlID.workload.name)
    (hnodup : (ops.map fun op => op.wlID.id).Nodup) (w : World σ μ) :
    Placed e.order (provisions e (updateDeployment e ops) w) ↔
      (w.attempted (ops.map (·.wlID))).Pairwise LargerFirst := by
  have hordered := ordered_of_New he hopts
  have hkeys : e.order.Nodup := hordered.perm.nodup_iff.mpr Registry.nodup
  have hmem : ∀ op ∈ ops, opType op ∈ e.order := fun op hop =>
    hordered.perm.mem_iff.mpr (htypes op hop)
  have hwls : ∀ wl ∈ w.attempted (ops.map (·.wlID)), wlType wl ∈ e.order := by
    intro wl hwl
    obtain ⟨op, hop, rfl⟩ := List.mem_map.mp (List.mem_filter.mp hwl).1
    exact hmem op hop
  rw [provisions_adds hordered.indexed hops hmem hnames hnodup, Placed, List.pairwise_and_iff]
  exact (and_iff_right (grouped_ordered hkeys)).trans (pairwise_grouped hkeys hwls)

end

/-! ## A small disk and a large one -/

namespace Reference.Disks

/-- The data of a disk is its size. -/
scoped instance disks : Zosbase :=
  { Reference.zosbase with
    workloadData := fun wl => .ok (.zmount (if wl.data = "small" then 1 else 2)) }

def disk (name : Name) (data : RawMessage) : Workload :=
  { workload 0 name data with type := .zmount, result := Result.initial 0 }

def pool : Deployment := deployment 0 1 []

def addSmall : UpgradeOp := ⟨pool.withID (disk "a" "small"), .opAdd⟩

def addLarge : UpgradeOp := ⟨pool.withID (disk "b" "large"), .opAdd⟩

def provisioner : Provisioner Unit := mapProvisioner fun _ => some manager

def disksFirst : List EngineOption := [.withStartupOrder [.zmount, .volume]]

def diskEngine : NativeEngine Unit := (New provisioner disksFirst).get rfl

/-- The deployment is stored and has no workloads yet. -/
def empty : World MapStore Unit where
  store := Reference.store [pool]
  node := ⟨fun _ => false, ()⟩
  queue := []
  clock := 0
  chain := ⟨fun _ => none, fun _ => false⟩
  gateway :=
    { getContract := fun _ => .error ⟨true, .text "contract not found"⟩
      getNodeRentContract := fun _ => .error ⟨true, .text "no rent contract"⟩
      getNodeContracts := fun _ => .ok []
      verify := fun _ => none
      isTwinVerified := fun _ => .ok true }

theorem small_placed_first : New provisioner disksFirst = some diskEngine ∧
    ¬ Placed diskEngine.order
      (provisions diskEngine (updateDeployment diskEngine [addSmall, addLarge]) empty) := by
  refine ⟨rfl, fun h => ?_⟩
  have hcalls : provisions diskEngine (updateDeployment diskEngine [addSmall, addLarge])
      empty = [addSmall.wlID, addLarge.wlID] := by decide
  rw [hcalls] at h
  have hplaced := (List.pairwise_cons.mp h).1 addLarge.wlID List.mem_cons_self
  have hsizes := hplaced.2 rfl (.inl rfl) 1 2 rfl rfl
  exact absurd hsizes (by decide)

theorem mounts_placed_iff_disks :
    Placed diskEngine.order
        (provisions diskEngine (updateDeployment diskEngine [addLarge, addSmall]) empty) ↔
      (empty.attempted [addLarge.wlID, addSmall.wlID]).Pairwise LargerFirst :=
  mounts_placed_iff (show New provisioner disksFirst = some diskEngine from rfl) rfl (by decide)
    (by decide) (by decide) (by decide) empty

end Reference.Disks

end Zos4.Provision
