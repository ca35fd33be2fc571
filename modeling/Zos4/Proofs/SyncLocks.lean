import Zos4.Proofs.LockOrder
import Zos4.Provision.Passes

/-!
# What a sync makes of the lock states

A sync asks for a deployment as a whole: it takes one to be locked if some
workload of it is paused, and queues a `Pause` or a `Resume` where that is not
what the contract says. The job then goes through the workloads one by one. With
the queue empty at the start, the jobs of a sync are lock jobs of what is
stored, one to a deployment at most, so each workload ends where `lockedState`
puts it, or is left where it was.

The summary is right about a deployment that is to be resumed: as long as a
workload is paused it is taken to be locked. It is wrong about one that is to be
paused and has a paused workload already, next to others that are running.
-/

namespace Zos4.Provision

open Zos4.Interaction Prog

section

variable [Zosbase] {σ μ : Type} [Storage σ] {e : NativeEngine μ}

/-! ## Lock jobs, one after the other -/

omit [Zosbase] in
/-- Where a workload ends depends on the recorded state only. -/
theorem lockedState_congr {lock : Bool} {items : List WorkloadWithID}
    {f f' : Recorded} {k : DeploymentKey} {n : Name}
    (h : (f' k n).map (·.result.state) = (f k n).map (·.result.state)) :
    lockedState lock items f' k n = lockedState lock items f k n := by
  have hmap : ∀ f : Recorded, lockedState lock items f k n =
      ((f k n).map (·.result.state)).map fun state =>
        if state.isOkay = true ∧ ∃ wl ∈ items, wl.id.key = k ∧
          wl.id.name = n ∧ wl.workload.result.state = required lock
        then desired lock else state := by
    intro f
    rw [lockedState, Option.map_map]
    rfl
  rw [hmap f', h, ← hmap f]

omit [Zosbase] in
/-- A lock job leaves the other deployments alone. -/
theorem lockedState_other {lock : Bool} {target : Deployment} {f : Recorded}
    {k : DeploymentKey} {n : Name} (hkey : target.key ≠ k) :
    lockedState lock (lockItems e lock target) f k n =
      (f k n).map (·.result.state) := by
  refine Option.map_congr fun cur _ => if_neg ?_
  rintro ⟨_, wl, hwl, hk, _⟩
  obtain ⟨_, _, _, rfl⟩ := mem_lockItems.mp hwl
  exact hkey hk

variable [GoRuntime] {managers : WorkloadType → Option (Manager μ)}

theorem process_lock (hprov : e.provisioner = mapProvisioner managers)
    (heffect : LocksTakeEffect managers e.order) (lock : Bool)
    (target : Deployment) (w : World σ μ) (k : DeploymentKey) (n : Name) :
    ((process e (lockJob lock target) w).view.workload k n).map
        (·.result.state) =
      lockedState lock (lockItems e lock target) w.view.workload k n := by
  have hitems : ∀ wl ∈ lockItems e lock target, wl.workload.type ∈ e.order ∧
      wl.id.name = wl.workload.name := by
    intro wl hwl
    obtain ⟨_, _, htype, rfl⟩ := mem_lockItems.mp hwl
    exact ⟨htype, rfl⟩
  have hloop : ((lockItems e lock target).forM fun wl =>
      logged (lockWorkload wl lock)).Safe (.alone (exec e)) _ w :=
    lockLoop_states hprov heffect rfl (fun _ _ h => h ▸ rfl) hitems
      (fun _ _ _ _ => trivial) (fun _ _ _ _ _ _ => trivial) w
  rw [process, processJob_lock, run_bind, run_finishJob]
  exact run_of_safe hloop k n

/-- Lock jobs of different deployments do not meet: each workload ends where the
job of its own deployment puts it. -/
theorem drain_locks (hprov : e.provisioner = mapProvisioner managers)
    (heffect : LocksTakeEffect managers e.order) {locks : List (Bool × Deployment)}
    (hkeys : locks.Pairwise fun l l' => l.2.key ≠ l'.2.key) {w : World σ μ}
    (hq : w.queue = locks.map fun l => lockJob l.1 l.2) :
    (∀ l ∈ locks, ∀ n, ((drain e w).view.workload l.2.key n).map
        (·.result.state) =
      lockedState l.1 (lockItems e l.1 l.2) w.view.workload l.2.key n) ∧
    ∀ k, (∀ l ∈ locks, l.2.key ≠ k) → ∀ n,
      ((drain e w).view.workload k n).map (·.result.state) =
        (w.view.workload k n).map (·.result.state) := by
  induction locks generalizing w with
  | nil =>
      rw [drain_nil hq]
      exact ⟨fun _ h => (nomatch h), fun _ _ _ => rfl⟩
  | cons l locks ih =>
      obtain ⟨hhead, hkeys⟩ := List.pairwise_cons.mp hkeys
      rw [List.map_cons] at hq
      rw [drain_cons hq]
      have hfirst := process_lock (σ := σ) hprov heffect l.1 l.2 w
      obtain ⟨hends, hkeeps⟩ := ih hkeys (process_queue hq)
      refine ⟨fun l' hl' n => ?_, fun k hk n => ?_⟩
      · rcases List.mem_cons.mp hl' with rfl | hl'
        · rw [hkeeps _ (fun l'' h => (hhead l'' h).symm), hfirst]
        · rw [hends l' hl']
          refine lockedState_congr ?_
          rw [hfirst, lockedState_other (hhead l' hl')]
      · rw [hkeeps k (fun l' h => hk l' (List.mem_cons_of_mem _ h)), hfirst,
          lockedState_other (hk l List.mem_cons_self)]

/-! ## The locks of a sync -/

/-- The contract is in its grace period. -/
def Gateway.locked (g : Gateway) (id : ContractID) : Bool :=
  match g.getContract id with
  | .ok contract => contract.isGracePeriod
  | .error _ => false

/-- The deployments to be paused (`true`) or resumed. -/
def syncLocks (g : Gateway) (entries : DeploymentMap) : List (Bool × Deployment) :=
  (entries.filter fun entry => g.locked entry.1 != isLocked entry.2).map
    fun entry => (g.locked entry.1, entry.2)

/-- Every deployment in use has a contract that is on the list and can be read. -/
def ContractsExist (g : Gateway) (deployments : List Deployment)
    (onchain : List ContractID) : Prop :=
  ∀ dl ∈ deployments, dl.contractID ∈ onchain ∧
    ∃ contract, g.getContract dl.contractID = .ok contract

section

variable {store : σ} {g : Gateway} {deployments : List Deployment}
  {onchain : List ContractID}

omit [GoRuntime] in
theorem runningJobs_eq (hcapacity : Storage.capacity store = .ok deployments)
    (hcontracts : ContractsExist g deployments onchain)
    {entry : ContractID × Deployment} (hentry : entry ∈ byContract deployments) :
    runningJobs g store entry =
      if g.locked entry.1 != isLocked entry.2 then
        [lockJob (g.locked entry.1) entry.2]
      else [] := by
  obtain ⟨hdl, hid⟩ := mem_byContract hentry
  obtain ⟨_, contract, hcontract⟩ := hcontracts _ hdl
  rw [← hid] at hcontract
  have hget := ((Storage.capacity_ok hcapacity _).mp hdl).1
  simp only [runningJobs, Gateway.locked, hcontract, scheduled, hget]
  cases contract.isGracePeriod <;> cases isLocked entry.2 <;> rfl

/-- With every contract there, a sync queues lock jobs and nothing else. -/
theorem syncQueue_locks (hcapacity : Storage.capacity store = .ok deployments)
    (hcontracts : ContractsExist g deployments onchain) :
    syncQueue g store (syncMaps deployments onchain) =
      (syncLocks g (GoRuntime.rangeMap (syncMaps deployments onchain).2)).map
        fun l => lockJob l.1 l.2 := by
  have hmissing : (syncMaps deployments onchain).1 = [] := by
    refine List.eq_nil_iff_forall_not_mem.mpr fun entry hentry => ?_
    obtain ⟨hmem, hnot⟩ := mem_unmatched.mp hentry
    obtain ⟨hdl, hid⟩ := mem_byContract hmem
    rw [hid] at hnot
    exact hnot (hcontracts _ hdl).1
  have hjobs : ∀ entries : DeploymentMap,
      (∀ entry ∈ entries, entry ∈ byContract deployments) →
      entries.flatMap (runningJobs g store) =
        (syncLocks g entries).map fun l => lockJob l.1 l.2 := by
    intro entries hentries
    induction entries with
    | nil => rfl
    | cons entry entries ih =>
        rw [List.flatMap_cons, ih fun x h => hentries x (List.mem_cons_of_mem _ h),
          runningJobs_eq hcapacity hcontracts (hentries _ List.mem_cons_self),
          syncLocks, syncLocks, List.filter_cons]
        split <;> rfl
  have hnone := GoRuntime.rangeMap_perm (syncMaps deployments onchain).1
  rw [hmissing] at hnone
  rw [syncQueue, hmissing, hnone.eq_nil, List.flatMap_nil, List.nil_append]
  refine hjobs _ fun entry hentry => ?_
  exact (mem_matched.mp ((GoRuntime.rangeMap_perm _).mem_iff.mp hentry)).1

omit [Storage σ] in
theorem mem_syncLocks (hcontracts : ContractsExist g deployments onchain)
    {lock : Bool} {dl : Deployment} :
    (lock, dl) ∈ syncLocks g
        (GoRuntime.rangeMap (syncMaps deployments onchain).2) ↔
      (byContract deployments).lookup dl.contractID = some dl ∧
        lock = g.locked dl.contractID ∧ lock ≠ isLocked dl := by
  have hkeyed := byContract_keyed deployments
  simp only [syncLocks, List.mem_map, List.mem_filter,
    (GoRuntime.rangeMap_perm _).mem_iff, mem_matched, bne_iff_ne]
  constructor
  · rintro ⟨entry, ⟨⟨hentry, _⟩, hne⟩, hlock⟩
    obtain ⟨rfl, rfl⟩ := Prod.mk.inj hlock
    rw [← hkeyed.ids entry hentry]
    exact ⟨hkeyed.mem_iff.mp hentry, rfl, hne⟩
  · rintro ⟨hdl, rfl, hne⟩
    have hentry : (dl.contractID, dl) ∈ byContract deployments :=
      hkeyed.mem_iff.mpr hdl
    exact ⟨(dl.contractID, dl),
      ⟨⟨hentry, (hcontracts _ (mem_byContract hentry).1).1⟩, hne⟩, rfl⟩

omit [Storage σ] in
theorem syncLocks_keys :
    (syncLocks g (GoRuntime.rangeMap (syncMaps deployments onchain).2)).Pairwise
      fun l l' => l.2.key ≠ l'.2.key := by
  have hperm := GoRuntime.rangeMap_perm (syncMaps deployments onchain).2
  have hkeyed : (syncMaps deployments onchain).2.Keyed := syncMaps_keyed
  have hnodup := (hperm.map (·.1)).nodup_iff.mpr hkeyed.nodup
  rw [syncLocks, List.pairwise_map]
  refine ((List.pairwise_map.mp hnodup).imp_of_mem ?_).filter _
  intro entry entry' hentry hentry' hne hkey
  rw [hkeyed.ids _ (hperm.mem_iff.mp hentry),
    hkeyed.ids _ (hperm.mem_iff.mp hentry')] at hne
  exact hne (congrArg DeploymentKey.contract hkey)

end

/-! ## The states after a sync -/

/-- Every workload in use ends in the state its contract asks for. -/
def LocksRestored (g : Gateway) (v v' : StoreView) : Prop :=
  ∀ k n, okayAt v.workload k n = true →
    (v'.workload k n).map (·.result.state) = some (desired (g.locked k.contract))

/-- Every workload in use is in the wanted state already, or it is of a type the
engine handles and in the deployment the sync has for the contract, which is not
one to be paused that is taken to be paused. -/
def SummaryHolds (e : NativeEngine μ) (g : Gateway)
    (deployments : List Deployment) (v : StoreView) : Prop :=
  ∀ k n wl, v.workload k n = some wl → wl.result.state.isOkay = true →
    wl.result.state = desired (g.locked k.contract) ∨
      wl.type ∈ e.order ∧ ∃ dl, dl.key = k ∧
        (byContract deployments).lookup k.contract = some dl ∧
        ¬ (g.locked k.contract = true ∧ isLocked dl = true)

omit [Zosbase] [GoRuntime] in
/-- A workload in use is paused or running. -/
theorem desired_of_isOkay {state : ResultState} (h : state.isOkay = true)
    (lock : Bool) : state = desired lock ∨ state = required lock := by
  cases state with
  | ok => cases lock <;> simp [desired, required]
  | paused => cases lock <;> simp [desired, required]
  | _ => cases h

omit [Zosbase] [GoRuntime] in
/-- What the map holds is stored. -/
theorem get_of_lookup {store : σ} {deployments : List Deployment}
    (hcapacity : Storage.capacity store = .ok deployments) {id : ContractID}
    {dl : Deployment} (hdl : (byContract deployments).lookup id = some dl) :
    Storage.get store dl.key = .ok dl := by
  have hentry : (id, dl) ∈ byContract deployments :=
    (byContract_keyed deployments).mem_iff.mpr hdl
  exact ((Storage.capacity_ok hcapacity _).mp (mem_byContract hentry).1).1

omit [Zosbase] [GoRuntime] in
/-- A job that asks for the workloads not in the wanted state gets all of them there
that are of a type the engine handles. -/
theorem lockedState_restores {store : σ} {dl : Deployment} {lock : Bool} {n : Name}
    {wl : Workload} (hget : Storage.get store dl.key = .ok dl)
    (hwl : (Storage.view store).workload dl.key n = some wl)
    (hok : wl.result.state.isOkay = true) :
    lockedState lock (lockItems e lock dl) (Storage.view store).workload dl.key n =
        some (desired lock) ↔
      wl.result.state = desired lock ∨ wl.type ∈ e.order := by
  rw [lockedState_eq_desired rfl (okayAt_iff.mpr ⟨wl, hwl, hok⟩), hwl, Option.map_some,
    Option.some.injEq]
  constructor
  · intro h
    rcases h with hstate | ⟨wl', hmem, hname, htype, _⟩
    · exact .inl hstate
    · have hwl' := (Storage.recorded_iff hget).mpr ⟨hmem, hname⟩
      obtain rfl := Option.some.inj (hwl'.symm.trans hwl)
      exact .inr htype
  · intro h
    rcases h with hstate | htype
    · exact .inl hstate
    · rcases desired_of_isOkay hok lock with hstate | hneeds
      · exact .inl hstate
      · obtain ⟨hmem, hname⟩ := (Storage.recorded_iff hget).mp hwl
        exact .inr ⟨wl, hmem, hname, htype, hneeds⟩

omit [Zosbase] [GoRuntime] in
/-- In a deployment that is not taken to be paused, what is in use is running. -/
theorem desired_of_not_isLocked {dl : Deployment} {wl : Workload}
    (hmem : wl ∈ dl.workloads) (hok : wl.result.state.isOkay = true)
    (hlocked : isLocked dl = false) : wl.result.state = desired false := by
  refine (desired_of_isOkay hok false).resolve_right fun hpaused => ?_
  exact List.any_eq_false.mp hlocked wl hmem (beq_iff_eq.mpr hpaused)

/-- A sync after which the queue is drained restores the lock state exactly if
the summary holds. -/
theorem sync_restores_locks_iff {r : ContractEventHandler μ}
    (hprov : r.engine.provisioner = mapProvisioner managers)
    (heffect : LocksTakeEffect managers r.engine.order) {w : World σ μ}
    (hqueue : w.queue = []) {deployments : List Deployment}
    {onchain : List ContractID}
    (hcapacity : Storage.capacity w.store = .ok deployments)
    (hlist : w.gateway.getNodeContracts r.node.toUInt32 = .ok onchain)
    (hcontracts : ContractsExist w.gateway deployments onchain) :
    LocksRestored w.gateway w.view
        (drain r.engine ((sync r).run (exec r.engine) w).2).view ↔
      SummaryHolds r.engine w.gateway deployments w.view := by
  let locks := syncLocks w.gateway
    (GoRuntime.rangeMap (syncMaps deployments onchain).2)
  have hrun := run_sync (e := r.engine) hcapacity hlist
  have hq : ((sync r).run (exec r.engine) w).2.queue =
      locks.map fun l => lockJob l.1 l.2 := by
    rw [hrun, World.queued, hqueue, List.nil_append]
    exact syncQueue_locks hcapacity hcontracts
  obtain ⟨hends, hkeeps⟩ := drain_locks (w := ((sync r).run (exec r.engine) w).2)
    hprov heffect syncLocks_keys hq
  have hview : ((sync r).run (exec r.engine) w).2.view = w.view := by
    rw [hrun]
    rfl
  rw [hview] at hends hkeeps
  refine forall_congr' fun k => forall_congr' fun n => ?_
  have hkey : ∀ dl : Deployment, dl.key = k → dl.contractID = k.contract :=
    fun _ h => h ▸ rfl
  rw [okayAt]
  cases hwl : w.view.workload k n with
  | none => simp
  | some wl =>
      simp only [Option.any_some, Option.some.injEq, forall_eq']
      refine forall_congr' fun hok => ?_
      by_cases hjob : ∃ l ∈ locks, l.2.key = k
      · -- a job is queued for the deployment, made from what is stored
        obtain ⟨⟨lock, dl⟩, hmem, hk⟩ := hjob
        dsimp only at hk
        subst hk
        obtain ⟨hdl, rfl, hne⟩ := (mem_syncLocks hcontracts).mp hmem
        have hend := hends _ hmem n
        dsimp only at hend
        rw [hend]
        refine (lockedState_restores (get_of_lookup hcapacity hdl) hwl hok).trans ?_
        refine or_congr_right ⟨fun htype => ⟨htype, dl, rfl, hdl, ?_⟩, And.left⟩
        intro hpaused
        exact hne (hpaused.1.trans hpaused.2.symm)
      · -- none is, so the states stay as they are
        rw [hkeeps k (fun l hl h => hjob ⟨l, hl, h⟩), hwl, Option.map_some,
          Option.some.injEq]
        refine ⟨.inl, fun h => ?_⟩
        rcases h with hstate | ⟨_, dl, rfl, hdl, hsummary⟩
        · exact hstate
        · have hsame : w.gateway.locked dl.contractID = isLocked dl := by
            by_contra hne
            exact hjob ⟨_, (mem_syncLocks hcontracts).mpr ⟨hdl, rfl, hne⟩, rfl⟩
          obtain ⟨hmem, _⟩ := (Storage.recorded_iff (get_of_lookup hcapacity hdl)).mp hwl
          cases hlocked : isLocked dl with
          | true => exact absurd ⟨hsame.trans hlocked, hlocked⟩ hsummary
          | false =>
              show _ = desired (w.gateway.locked dl.contractID)
              rw [hsame.trans hlocked]
              exact desired_of_not_isLocked hmem hok hlocked

end

/-! ## A deployment that is paused in part -/

namespace PartlyPaused

open Reference

def running (name : Name) : Workload := workload 0 name "d"

def paused (name : Name) : Workload :=
  (running name).withResults ⟨0, .paused, "paused", "d"⟩

/-- A deployment of `workloads` whose contract is in its grace period. -/
def locked (workloads : List Workload) : World MapStore Unit :=
  world (store [deployment 0 1 workloads]) [] []
    ⟨[(2, { contract (deployment 0 1 workloads) with isGracePeriod := true })], []⟩

def synced (workloads : List Workload) : World MapStore Unit :=
  drain engine ((sync handler).run (exec engine) (locked workloads)).2

theorem contracts_exist {workloads : List Workload} :
    ContractsExist (locked workloads).gateway [deployment 0 1 workloads] [2] := by
  intro dl hdl
  obtain rfl := List.mem_singleton.mp hdl
  exact ⟨List.mem_singleton.mpr rfl, _, rfl⟩

end PartlyPaused

theorem sync_restores_locks_iff_running :
    LocksRestored (PartlyPaused.locked [PartlyPaused.running "a"]).gateway
        (PartlyPaused.locked [PartlyPaused.running "a"]).view
        (PartlyPaused.synced [PartlyPaused.running "a"]).view ↔
      SummaryHolds Reference.engine
        (PartlyPaused.locked [PartlyPaused.running "a"]).gateway
        [Reference.deployment 0 1 [PartlyPaused.running "a"]]
        (PartlyPaused.locked [PartlyPaused.running "a"]).view :=
  sync_restores_locks_iff rfl PauseThenResume.takes_effect rfl
    (by decide +kernel) (by decide +kernel) PartlyPaused.contracts_exist

/-- A workload that runs next to a paused one goes on running, in a deployment
whose contract is in its grace period. -/
theorem sync_leaves_running :
    ∃ w : World MapStore Unit, w.queue = [] ∧
      Storage.capacity w.store = .ok [Reference.deployment 0 1
        [PartlyPaused.paused "a", PartlyPaused.running "b"]] ∧
      w.gateway.getNodeContracts Reference.handler.node.toUInt32 = .ok [2] ∧
      ContractsExist w.gateway [Reference.deployment 0 1
        [PartlyPaused.paused "a", PartlyPaused.running "b"]] [2] ∧
      ¬ LocksRestored w.gateway w.view (drain Reference.engine
        ((sync Reference.handler).run (exec Reference.engine) w).2).view := by
  refine ⟨PartlyPaused.locked [PartlyPaused.paused "a", PartlyPaused.running "b"],
    rfl, by decide +kernel, by decide +kernel, PartlyPaused.contracts_exist,
    fun h => ?_⟩
  have hstate := h ⟨1, 2⟩ "b" (by decide +kernel)
  exact absurd hstate (by decide +kernel)

end Zos4.Provision
