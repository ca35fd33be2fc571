import Zos4.Provision.Admission
import Zos4.Provision.MapStore

/-!
# A node to run things on

The results of this development hold for every zosbase, every manager and
every store that keep the laws they name. Here is one of each that does, as
plain as possible: contracts carry the deployment itself for a hash, a manager
installs what is not installed yet and hands the data of the workload back,
and the store is `MapStore`. `Sys.follow` carries out a list of actions, and
`Run.of_follow` makes a run of it.
-/

namespace Zos4.Provision

open Zos4.Interaction Prog

namespace Reference

/-! ## Upgrades -/

def removed (source target : Deployment) : List UpgradeOp :=
  (source.workloads.filter fun wl => wl.name ∉ target.names).map fun wl =>
    ⟨source.withID wl, .opRemove⟩

def added (source target : Deployment) : List UpgradeOp :=
  (target.workloads.filter fun wl => wl.name ∉ source.names).map fun wl =>
    ⟨target.withID wl, .opAdd⟩

def changed (source target : Deployment) : List UpgradeOp :=
  (target.workloads.filter fun wl => source.workloads.any fun w =>
    w.name == wl.name && w.version != wl.version).map fun wl =>
    ⟨target.withID wl, .opUpdate⟩

def upgrade (source target : Deployment) : Except GoError (List UpgradeOp) :=
  if ¬ target.names.Nodup then
    .error (.text "new deployment is invalid")
  else if target.key ≠ source.key then
    .error (.text "cannot change deployment or twin id")
  else if target.version ≠ source.version + 1 then
    .error (.text "expecting the next deployment version")
  else .ok (removed source target ++ added source target ++
    changed source target)

/-- The operations on what one deployment has and the other has not. -/
theorem mem_missing {dl dl' : Deployment} {kind : UpgradeOperation} {n : Name} :
    (∃ op ∈ (dl.workloads.filter fun wl => wl.name ∉ dl'.names).map fun wl =>
        (⟨dl.withID wl, kind⟩ : UpgradeOp), op.wlID.id.name = n) ↔
      n ∈ dl.names ∧ n ∉ dl'.names := by
  simp only [List.mem_map, List.mem_filter, decide_eq_true_eq, @Deployment.mem_names dl]
  constructor
  · rintro ⟨op, ⟨wl, ⟨hwl, hn⟩, rfl⟩, rfl⟩
    exact ⟨⟨wl, hwl, rfl⟩, hn⟩
  · rintro ⟨⟨wl, hwl, rfl⟩, hn⟩
    exact ⟨_, ⟨wl, ⟨hwl, hn⟩, rfl⟩, rfl⟩

theorem mem_removed {source target : Deployment} {n : Name} :
    (∃ op ∈ removed source target, op.wlID.id.name = n) ↔
      n ∈ source.names ∧ n ∉ target.names := mem_missing

theorem mem_added {source target : Deployment} {n : Name} :
    (∃ op ∈ added source target, op.wlID.id.name = n) ↔
      n ∈ target.names ∧ n ∉ source.names := mem_missing

theorem mem_changed {source target : Deployment} {n : Name}
    (h : ∃ op ∈ changed source target, op.wlID.id.name = n) :
    n ∈ source.names ∧ n ∈ target.names := by
  obtain ⟨op, hop, rfl⟩ := h
  simp only [changed, List.mem_map, List.mem_filter, List.any_eq_true,
    Bool.and_eq_true, beq_iff_eq] at hop
  obtain ⟨wl, ⟨hwl, w, hw, hn, _⟩, rfl⟩ := hop
  exact ⟨Deployment.mem_names.mpr ⟨w, hw, hn⟩,
    Deployment.mem_names.mpr ⟨wl, hwl, rfl⟩⟩

theorem op_of_mem {source target : Deployment} {op : UpgradeOp} :
    (op ∈ removed source target → op.op = .opRemove) ∧
      (op ∈ added source target → op.op = .opAdd) ∧
      (op ∈ changed source target → op.op = .opUpdate) := by
  simp only [removed, added, changed, List.mem_map]
  refine ⟨?_, ?_, ?_⟩ <;>
  · rintro ⟨wl, _, rfl⟩
    rfl

/-- The names a filtered list of operations is about are among the names of the
deployment it was filtered from, each one once. -/
theorem nodup_ops {dl dl' : Deployment} (h : dl.names.Nodup)
    (p : Workload → Bool) (kind : UpgradeOperation) :
    (((dl.workloads.filter p).map fun wl =>
      (⟨dl'.withID wl, kind⟩ : UpgradeOp)).map fun op =>
        op.wlID.id.name).Nodup := by
  rw [List.map_map]
  exact h.sublist (List.Sublist.map _ List.filter_sublist)

/-- An operation of some kind, in a list of operations of one kind. -/
theorem exists_op {ops : List UpgradeOp} {kind : UpgradeOperation}
    (h : ∀ op ∈ ops, op.op = kind) (k : UpgradeOperation) (n : Name) :
    (∃ op ∈ ops, op.op = k ∧ op.wlID.id.name = n) ↔
      kind = k ∧ ∃ op ∈ ops, op.wlID.id.name = n := by
  constructor
  · rintro ⟨op, hop, rfl, hn⟩
    exact ⟨(h op hop).symm, op, hop, hn⟩
  · rintro ⟨rfl, op, hop, hn⟩
    exact ⟨op, hop, h op hop, hn⟩

theorem upgrade_laws {source target : Deployment} {ops : List UpgradeOp}
    (hs : source.names.Nodup) (h : upgrade source target = .ok ops) :
    UpgradeLaws source target ops := by
  simp only [upgrade] at h
  split at h
  · cases h
  · next ht =>
      rw [not_not] at ht
      split at h
      · cases h
      · next hkey =>
          rw [not_not] at hkey
          split at h
          · cases h
          · next hver =>
              rw [not_not] at hver
              obtain rfl := Except.ok.inj h
              have hmem : ∀ (k : UpgradeOperation) (n : Name),
                  (∃ op ∈ removed source target ++ added source target ++
                    changed source target, op.op = k ∧ op.wlID.id.name = n) ↔
                  ((.opRemove = k ∧ ∃ op ∈ removed source target, op.wlID.id.name = n) ∨
                    .opAdd = k ∧ ∃ op ∈ added source target, op.wlID.id.name = n) ∨
                  .opUpdate = k ∧ ∃ op ∈ changed source target, op.wlID.id.name = n := by
                intro k n
                rw [← exists_op (fun _ => op_of_mem.1), ← exists_op (fun _ => op_of_mem.2.1),
                  ← exists_op (fun _ => op_of_mem.2.2)]
                simp only [List.mem_append, or_and_right, exists_or]
              refine ⟨hver, hkey, ?_, ?_, fun n => ?_, fun n => ?_, fun n hn => ?_⟩
              · simp only [removed, added, changed, List.mem_append, List.mem_map]
                rintro op ((⟨wl, _, rfl⟩ | ⟨wl, _, rfl⟩) | ⟨wl, _, rfl⟩)
                · exact ⟨hkey.symm, rfl⟩
                · exact ⟨rfl, rfl⟩
                · exact ⟨rfl, rfl⟩
              · rw [List.map_append, List.map_append, List.nodup_append,
                  List.nodup_append]
                refine ⟨⟨nodup_ops hs _ _, nodup_ops ht _ _, ?_⟩,
                  nodup_ops ht _ _, ?_⟩
                · rintro a ha b hb rfl
                  have h1 := mem_removed.mp (List.mem_map.mp ha)
                  have h2 := mem_added.mp (List.mem_map.mp hb)
                  exact h1.2 h2.1
                · rintro a ha b hb rfl
                  have h2 := mem_changed (List.mem_map.mp hb)
                  rcases List.mem_append.mp ha with ha | ha
                  · exact (mem_removed.mp (List.mem_map.mp ha)).2 h2.2
                  · exact (mem_added.mp (List.mem_map.mp ha)).2 h2.1
              · rw [hmem, ← mem_removed]
                simp
              · rw [hmem, ← mem_added]
                simp
              · refine mem_changed ?_
                rw [hmem] at hn
                simpa using hn

/-! ## The parameters -/

instance (priority := low) zosbase : Zosbase where
  sentinelText
    | .noActionNeeded => "no action needed"
    | .workloadNotExist => "workload does not exist"
    | .deploymentNotExists => "deployment does not exist"
    | .deploymentExists => "deployment exists"
    | .workloadExists => "workload exists"
    | .invalidVersion => "invalid version"
    | .deploymentUpgradeValidationError => "upgrade validation error"
  typeText
    | .zmount => "zmount"
    | .volume => "volume"
    | .quantumSafeFS => "qsfs"
    | .networkLight => "network-light"
    | .publicIPv4 => "ipv4"
    | .publicIP => "ip"
    | .zmachineLight => "zmachine-light"
    | .zmachine => "zmachine"
    | .zlogs => "zlogs"
    | .other name => name
  Hash := Deployment
  decEqHash := inferInstance
  challengeHash := .ok
  workloadData _ := .ok .other
  upgrade := upgrade
  valid _ := none

instance (priority := low) runtime : GoRuntime where
  sortSlice _ l := l
  sortSlice_perm _ l := List.Perm.refl l
  rangeMap l := l
  rangeMap_perm l := List.Perm.refl l

/-- A manager that installs what is not installed yet. -/
def manager : Manager Unit where
  provision wl node :=
    (if node.installed wl.id then
      ⟨.ok "", some (.sentinel .noActionNeeded)⟩
    else ⟨.ok wl.workload.data, none⟩, ())
  deprovision _ _ := (none, ())
  updater := some fun wl _ => (⟨.ok wl.workload.data, none⟩, ())
  pauser := none

def engine : NativeEngine Unit where
  provisioner := mapProvisioner fun _ => some manager
  order := [.zmount, .zmachine, .zlogs]
  typeIndex
    | .zmount => 1
    | .zmachine => 2
    | .zlogs => 3
    | _ => 0
  rerunAll := false
  nodeID := 1
  registrarGateway := true
  callback := false

def handler : ContractEventHandler Unit := ⟨1, engine⟩

theorem lawful_upgrade : LawfulUpgrade := fun _ _ _ hs h => upgrade_laws hs h

/-- The contracts of a chain, and the ones that were cancelled. -/
structure Ledger where
  contracts : List (ContractID × Contract)
  cancelled : List ContractID

namespace Ledger

def alive (l : Ledger) (id : ContractID) : Bool :=
  (l.contracts.lookup id).isSome && !l.cancelled.contains id

def chain (l : Ledger) : Chain := ⟨fun id => l.contracts.lookup id, l.alive⟩

/-- A gateway that tells the truth about the ledger. -/
def gateway (l : Ledger) : Gateway where
  getContract id :=
    match l.contracts.lookup id, l.alive id with
    | some contract, true => .ok contract
    | _, _ => .error ⟨true, .text "contract not found"⟩
  getNodeRentContract _ := .error ⟨true, .text "no rent contract"⟩
  getNodeContracts node :=
    .ok ((l.contracts.filter fun entry =>
      entry.2.node == node && l.alive entry.1).map (·.1))
  verify _ := none
  isTwinVerified _ := .ok true

theorem mem_of_lookup {contracts : List (ContractID × Contract)}
    {id : ContractID} {contract : Contract}
    (h : contracts.lookup id = some contract) : (id, contract) ∈ contracts := by
  induction contracts with
  | nil => cases h
  | cons entry rest ih =>
      rw [List.lookup_cons] at h
      split at h
      · next heq =>
          obtain rfl := Option.some.inj h
          rw [beq_iff_eq] at heq
          rw [heq]
          exact List.mem_cons_self
      · exact List.mem_cons_of_mem _ (ih h)

theorem truthful (l : Ledger) : l.gateway.Truthful l.chain := by
  refine ⟨fun id contract h => ?_, fun node ids h id => ?_⟩
  · simp only [gateway] at h
    split at h
    · next hid halive =>
        obtain rfl := Except.ok.inj h
        exact ⟨hid, halive⟩
    · cases h
  · rintro ⟨contract, hid, _, hnode⟩ halive
    obtain rfl := Except.ok.inj h
    refine List.mem_map.mpr ⟨(id, contract), List.mem_filter.mpr
      ⟨mem_of_lookup hid, ?_⟩, rfl⟩
    rw [Bool.and_eq_true, beq_iff_eq]
    exact ⟨hnode, halive⟩

/-- A contract keeps its twin and its node, whatever becomes of it. -/
theorem evolves {id : ContractID} {c c' : Contract} (htwin : c'.twinID = c.twinID)
    (hkind : c'.isNodeContract = c.isNodeContract) (hnode : c'.node = c.node)
    (cancelled : List ContractID) :
    (⟨[(id, c)], []⟩ : Ledger).chain.Evolves (⟨[(id, c')], cancelled⟩ : Ledger).chain := by
  intro id' contract hid
  have hid' : id' = id := by
    by_contra hne
    simp [chain, List.lookup_cons, beq_false_of_ne hne] at hid
  subst hid'
  obtain rfl : c = contract := by simpa [chain] using hid
  exact ⟨⟨c', by simp [chain], htwin, hkind, hnode⟩, fun _ => by simp [chain, alive]⟩

end Ledger

def world (store : MapStore) (installed : List WorkloadID)
    (queue : List EngineJob) (ledger : Ledger) : World MapStore Unit where
  store := store
  node := ⟨fun id => installed.contains id, ()⟩
  queue := queue
  clock := 0
  chain := ledger.chain
  gateway := ledger.gateway

/-- An engine process with nothing to do. -/
def idle (w : World MapStore Unit) : Sys MapStore Unit where
  world := w
  job := none
  worker := .ret ()
  routines := []
  log := []

/-- A workload that was installed: its manager handed the data back. -/
def workload (version : UInt32) (name : Name) (data : RawMessage) : Workload :=
  ⟨version, name, .zlogs, data, "", "", ⟨0, .ok, "", data⟩⟩

def deployment (version : UInt32) (twin : TwinID) (workloads : List Workload) :
    Deployment :=
  ⟨version, twin, 2, "", "", 0, ⟨""⟩, workloads⟩

/-- The contract of the deployment, with its own hash. -/
def contract (dl : Deployment) : Contract := ⟨dl.twinID, true, 1, dl, false⟩

theorem idle_fresh {w : World MapStore Unit} (h : w.queue = []) :
    (idle w).Fresh :=
  ⟨⟨(), rfl⟩, h, rfl, rfl⟩

/-- A store that holds the deployments as they are. -/
def store : List Deployment → MapStore
  | [] => ⟨∅⟩
  | dl :: dls =>
      if h : dl.names.Nodup then
        (store dls).set dl.key ⟨header dl, dl.workloads, h⟩
      else store dls

end Reference

/-! ## Following a list of actions -/

variable [Zosbase] [GoRuntime] {σ μ : Type} [Storage σ]

/-- Carry the actions out in order, as long as they are permitted. -/
def Sys.follow (r : ContractEventHandler μ)
    (permitted : Sys σ μ → Action μ → Bool) :
    List (Action μ) → Sys σ μ → Option (Sys σ μ)
  | [], s => some s
  | a :: as, s =>
      if permitted s a then
        match s.step r a with
        | none => none
        | some s' => Sys.follow r permitted as s'
      else none

def Sys.isIdle (s : Sys σ μ) : Bool :=
  match s.worker with
  | .ret _ => true
  | _ => false

omit [Storage σ] [GoRuntime] in
theorem Sys.idle_of_isIdle {s : Sys σ μ} (h : s.isIdle = true) : s.Idle := by
  rw [Sys.isIdle] at h
  split at h
  · next u hu => exact ⟨u, hu⟩
  · cases h

theorem Run.of_follow {r : ContractEventHandler μ}
    {ok : Sys σ μ → Action μ → Prop} {permitted : Sys σ μ → Action μ → Bool}
    (hok : ∀ s a, permitted s a = true → ok s a) :
    ∀ (as : List (Action μ)) {s s' : Sys σ μ},
      s.follow r permitted as = some s' → Run r ok s s' := by
  intro as
  induction as with
  | nil =>
      intro s s' h
      obtain rfl := Option.some.inj h
      exact .refl s
  | cons a as ih =>
      intro s s' h
      simp only [Sys.follow] at h
      split at h
      · next hp =>
          split at h
          · cases h
          · next t ht =>
              exact Run.trans (.tail (.refl s) (hok s a hp) ht) (ih h)
      · cases h

end Zos4.Provision
