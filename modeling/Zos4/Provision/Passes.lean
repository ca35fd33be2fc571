import Zos4.Provision.Drain

/-!
# The passes over the store

`boot` and the contract sync go over everything that is stored. Run alone,
neither does anything to the world but append to the queue, so what a pass does
is a list of jobs, a function of the store and, for the sync, of what the
gateway answers.
-/

namespace Zos4.Provision

open Zos4.Interaction Prog

variable [Zosbase] {σ μ : Type} [Storage σ] {e : NativeEngine μ}

/-- The jobs are on the queue, and nothing else has changed. -/
def World.queued (w : World σ μ) (jobs : List EngineJob) : World σ μ :=
  { w with queue := w.queue ++ jobs }

omit [Zosbase] [Storage σ] in
@[simp] theorem World.queued_nil [Zosbase] (w : World σ μ) : w.queued [] = w := by
  rw [World.queued, List.append_nil]

omit [Zosbase] [Storage σ] in
theorem World.queued_queued [Zosbase] (w : World σ μ) (jobs more : List EngineJob) :
    (w.queued jobs).queued more = w.queued (jobs ++ more) := by
  rw [World.queued, World.queued, World.queued, List.append_assoc]

theorem run_forM_queued {α : Type} {w : World σ μ} (jobs : α → List EngineJob)
    {body : α → EngineM PUnit} {l : List α}
    (hbody : ∀ x ∈ l, ∀ more, ((body x).run (exec e) (w.queued more)).2 =
      (w.queued more).queued (jobs x)) (more : List EngineJob) :
    ((l.forM body).run (exec e) (w.queued more)).2 =
      (w.queued more).queued (l.flatMap jobs) := by
  induction l generalizing more with
  | nil => rw [List.flatMap_nil, World.queued_nil]; rfl
  | cons x xs ih =>
      show ((body x >>= fun _ => xs.forM body).run (exec e) (w.queued more)).2 = _
      rw [run_bind, hbody x List.mem_cons_self, World.queued_queued,
        ih (fun y hy => hbody y (List.mem_cons_of_mem x hy)), World.queued_queued,
        World.queued_queued, List.flatMap_cons, List.append_assoc]

/-! ## What `boot` queues -/

def bootJobs (store : σ) (key : DeploymentKey) : List EngineJob :=
  match Storage.get store key with
  | .error _ => []
  | .ok dl => if dl.isActive then [.opProvisionNoValidation dl] else []

def bootTwinJobs (store : σ) (twin : TwinID) : List EngineJob :=
  match Storage.byTwin store twin with
  | .error _ => []
  | .ok ids => ids.flatMap fun id => bootJobs store ⟨twin, id⟩

def bootQueue (store : σ) : List EngineJob :=
  match Storage.twins store with
  | .error _ => []
  | .ok twins => twins.flatMap (bootTwinJobs store)

theorem run_bootDeployment (key : DeploymentKey) (w : World σ μ) :
    ((bootDeployment key).run (exec e) w).2 = w.queued (bootJobs w.store key) := by
  rw [bootDeployment, run_bind, bootJobs]
  show ((match Storage.get w.store key with
    | .error _ => pure ()
    | .ok dl => _ : EngineM Unit).run (exec e) w).2 = _
  cases Storage.get w.store key with
  | error err => rw [World.queued_nil]; rfl
  | ok dl =>
      dsimp only
      cases dl.isActive with
      | false => simp
      | true =>
          rw [if_neg (by simp), run_logged, if_pos rfl]
          rfl

theorem run_bootTwin (twin : TwinID) (w : World σ μ) :
    ((bootTwin twin).run (exec e) w).2 = w.queued (bootTwinJobs w.store twin) := by
  rw [bootTwin, run_bind, bootTwinJobs]
  show ((match Storage.byTwin w.store twin with
    | .error _ => pure ()
    | .ok ids => _ : EngineM Unit).run (exec e) w).2 = _
  cases Storage.byTwin w.store twin with
  | error err => rw [World.queued_nil]; rfl
  | ok ids =>
      have h := run_forM_queued (w := w) (e := e) (l := ids)
        (fun id => bootJobs w.store ⟨twin, id⟩)
        (fun id _ more => run_bootDeployment ⟨twin, id⟩ (w.queued more)) []
      rwa [World.queued_nil] at h

theorem run_boot (w : World σ μ) :
    (boot.run (exec e) w).2 = w.queued (bootQueue w.store) := by
  rw [boot, run_bind, bootQueue]
  show ((match Storage.twins w.store with
    | .error err => _
    | .ok twins => _ : EngineM (Option GoError)).run (exec e) w).2 = _
  cases Storage.twins w.store with
  | error err => rw [World.queued_nil]; rfl
  | ok twins =>
      dsimp only
      rw [run_bind]
      have h := run_forM_queued (w := w) (e := e) (l := twins) (bootTwinJobs w.store)
        (fun twin _ more => run_bootTwin twin (w.queued more)) []
      rwa [World.queued_nil] at h

/-- The store can be listed. -/
def Listable (σ : Type) [Storage σ] : Prop :=
  ∀ store : σ, (∃ twins, Storage.twins store = .ok twins) ∧
    ∀ twin, ∃ ids, Storage.byTwin store twin = .ok ids

omit [Zosbase] in
theorem mem_bootQueue (hlist : Listable σ) {store : σ} {job : EngineJob} :
    job ∈ bootQueue store ↔ ∃ key dl, Storage.get store key = .ok dl ∧
      dl.isActive = true ∧ job = .opProvisionNoValidation dl := by
  obtain ⟨⟨twins, htwins⟩, hby⟩ := hlist store
  have hjobs : ∀ key, job ∈ bootJobs store key ↔ ∃ dl,
      Storage.get store key = .ok dl ∧ dl.isActive = true ∧
        job = .opProvisionNoValidation dl := by
    intro key
    rw [bootJobs]
    cases Storage.get store key with
    | error err => simp
    | ok dl =>
        simp only [Except.ok.injEq, exists_eq_left']
        split
        · next hactive => simp [hactive]
        · next hactive => simp [hactive]
  simp only [bootQueue, htwins, List.mem_flatMap, bootTwinJobs]
  constructor
  · rintro ⟨twin, _, hjob⟩
    obtain ⟨ids, hids⟩ := hby twin
    rw [hids] at hjob
    obtain ⟨id, _, hjob⟩ := List.mem_flatMap.mp hjob
    obtain ⟨dl, hdl⟩ := (hjobs _).mp hjob
    exact ⟨⟨twin, id⟩, dl, hdl⟩
  · rintro ⟨key, dl, hget, hactive, rfl⟩
    obtain ⟨_, hheader, _⟩ := Storage.get_ok hget
    have hstored : (Storage.view store).header ⟨key.twin, key.contract⟩ ≠ none := by
      rw [hheader]
      exact Option.some_ne_none _
    obtain ⟨ids, hids⟩ := hby key.twin
    refine ⟨key.twin, (Storage.twins_ok htwins _).mpr ⟨key.contract, hstored⟩, ?_⟩
    rw [hids]
    exact List.mem_flatMap.mpr ⟨key.contract,
      (Storage.byTwin_ok hids _).mpr hstored, (hjobs key).mpr ⟨dl, hget, hactive, rfl⟩⟩

/-! ## The maps of a sync -/

/-- What every map of the sync is: one entry for each contract, and that of the
deployment's own contract. -/
structure DeploymentMap.Keyed (m : DeploymentMap) : Prop where
  nodup : (m.map (·.1)).Nodup
  ids : ∀ entry ∈ m, entry.1 = entry.2.contractID

namespace DeploymentMap.Keyed

omit [Zosbase] [Storage σ]

variable {m : DeploymentMap}

theorem mem_iff (hm : m.Keyed) {entry : ContractID × Deployment} :
    entry ∈ m ↔ m.lookup entry.1 = some entry.2 := by
  have hlookup : ∀ m : DeploymentMap, (m.map (·.1)).Nodup →
      (entry ∈ m ↔ m.lookup entry.1 = some entry.2) := by
    intro m
    induction m with
    | nil => simp
    | cons head m ih =>
        intro hnodup
        obtain ⟨hnot, hnodup⟩ := List.nodup_cons.mp hnodup
        rw [List.mem_cons, List.lookup_cons]
        by_cases hid : entry.1 = head.1
        · rw [beq_iff_eq.mpr hid]
          constructor
          · rintro (rfl | hmem)
            · rfl
            · exact absurd (List.mem_map.mpr ⟨entry, hmem, hid⟩) hnot
          · intro hdl
            exact .inl (Prod.ext hid (Option.some.inj hdl).symm)
        · rw [beq_eq_false_iff_ne.mpr hid, ← ih hnodup]
          exact or_iff_right fun h => hid (congrArg Prod.fst h)
  exact hlookup m hm.nodup

theorem perm {m' : DeploymentMap} (hm : m.Keyed) (h : m'.Perm m) : m'.Keyed where
  nodup := (h.map _).nodup_iff.mpr hm.nodup
  ids entry hentry := hm.ids entry (h.mem_iff.mp hentry)

theorem erase (hm : m.Keyed) (id : ContractID) :
    (DeploymentMap.erase m id).Keyed where
  nodup := hm.nodup.sublist (List.filter_sublist.map _)
  ids entry hentry := hm.ids entry (List.mem_of_mem_filter hentry)

theorem set (hm : m.Keyed) (dl : Deployment) :
    (DeploymentMap.set m dl.contractID dl).Keyed where
  nodup := by
    refine List.nodup_cons.mpr ⟨?_, (hm.erase _).nodup⟩
    intro hmem
    obtain ⟨entry, hentry, hid⟩ := List.mem_map.mp hmem
    exact of_decide_eq_true (List.mem_filter.mp hentry).2 hid
  ids entry hentry := by
    rcases List.mem_cons.mp hentry with rfl | hentry
    · rfl
    · exact (hm.erase _).ids entry hentry

end DeploymentMap.Keyed

omit [Zosbase] [Storage σ] in
theorem byContract_keyed (deployments : List Deployment) :
    (byContract deployments).Keyed := by
  have hfold : ∀ (dls : List Deployment) (m : DeploymentMap), m.Keyed →
      (dls.foldl (fun m dl => DeploymentMap.set m dl.contractID dl) m).Keyed := by
    intro dls
    induction dls with
    | nil => exact fun _ h => h
    | cons dl dls ih => exact fun m h => ih _ (h.set dl)
  exact hfold deployments [] ⟨List.nodup_nil, fun _ h => nomatch h⟩

omit [Zosbase] [Storage σ] in
theorem mem_byContract {deployments : List Deployment}
    {entry : ContractID × Deployment} (h : entry ∈ byContract deployments) :
    entry.2 ∈ deployments ∧ entry.1 = entry.2.contractID := by
  have hfold : ∀ (dls : List Deployment) (m : DeploymentMap),
      entry ∈ dls.foldl
        (fun m dl => DeploymentMap.set m dl.contractID dl) m →
      entry ∈ m ∨ entry.2 ∈ dls ∧ entry.1 = entry.2.contractID := by
    intro dls
    induction dls with
    | nil => exact fun m h => .inl h
    | cons dl dls ih =>
        intro m h
        rcases ih _ h with h | ⟨h, hid⟩
        · rcases List.mem_cons.mp h with rfl | h
          · exact .inr ⟨List.mem_cons_self, rfl⟩
          · exact .inl (List.mem_filter.mp h).1
        · exact .inr ⟨List.mem_cons_of_mem _ h, hid⟩
  exact (hfold deployments [] h).resolve_left (by simp)

section

omit [Zosbase] [Storage σ]

variable {maps : DeploymentMap × DeploymentMap} {onchain : List ContractID}
  {entry : ContractID × Deployment}

theorem mem_matchContract_fst {id : ContractID} :
    entry ∈ (matchContract maps id).1 ↔ entry ∈ maps.1 ∧ entry.1 ≠ id := by
  rw [matchContract, DeploymentMap.erase, List.mem_filter]
  simp

/-- What the sync is left with was in use and is not on the list. -/
theorem mem_unmatched : entry ∈ (onchain.foldl matchContract maps).1 ↔
    entry ∈ maps.1 ∧ entry.1 ∉ onchain := by
  induction onchain generalizing maps with
  | nil => simp
  | cons id onchain ih =>
      rw [List.foldl_cons, ih, mem_matchContract_fst, List.mem_cons, not_or,
        and_assoc]

/-- The maps are keyed, and what is in the one is not in the other. -/
structure Apart (maps : DeploymentMap × DeploymentMap) : Prop where
  active : maps.1.Keyed
  running : maps.2.Keyed
  disjoint : ∀ entry ∈ maps.1, ∀ other ∈ maps.2, entry.1 ≠ other.1

theorem Apart.mem_snd (h : Apart maps) {id : ContractID} :
    entry ∈ (matchContract maps id).2 ↔
      entry ∈ maps.2 ∨ entry ∈ maps.1 ∧ entry.1 = id := by
  rw [matchContract]
  cases hdl : maps.1.lookup id with
  | none =>
      refine (or_iff_left ?_).symm
      rintro ⟨hmem, rfl⟩
      rw [h.active.mem_iff.mp hmem] at hdl
      cases hdl
  | some dl =>
      have hmem : (id, dl) ∈ maps.1 := h.active.mem_iff.mpr hdl
      obtain rfl : id = dl.contractID := h.active.ids _ hmem
      show entry ∈ DeploymentMap.set maps.2 dl.contractID dl ↔ _
      rw [DeploymentMap.set, List.mem_cons, DeploymentMap.erase, List.mem_filter]
      constructor
      · rintro (rfl | ⟨hentry, _⟩)
        · exact .inr ⟨hmem, rfl⟩
        · exact .inl hentry
      · rintro (hentry | ⟨hentry, hid⟩)
        · exact .inr ⟨hentry,
            decide_eq_true fun he => h.disjoint _ hmem _ hentry he.symm⟩
        · rw [h.active.mem_iff, hid, hdl] at hentry
          exact .inl (Prod.ext hid (Option.some.inj hentry).symm)

theorem Apart.step (h : Apart maps) (id : ContractID) :
    Apart (matchContract maps id) where
  active := h.active.erase id
  running := by
    rw [matchContract]
    cases maps.1.lookup id with
    | none => exact h.running
    | some dl => exact h.running.set dl
  disjoint entry hentry other hother := by
    obtain ⟨hentry, hid⟩ := mem_matchContract_fst.mp hentry
    rcases h.mem_snd.mp hother with hother | ⟨_, rfl⟩
    · exact h.disjoint entry hentry other hother
    · exact hid

theorem Apart.foldl (h : Apart maps) :
    Apart (onchain.foldl matchContract maps) := by
  induction onchain generalizing maps with
  | nil => exact h
  | cons id onchain ih => exact ih (h.step id)

theorem Apart.mem_matched (h : Apart maps) :
    entry ∈ (onchain.foldl matchContract maps).2 ↔
      entry ∈ maps.2 ∨ entry ∈ maps.1 ∧ entry.1 ∈ onchain := by
  induction onchain generalizing maps with
  | nil => simp
  | cons id onchain ih =>
      rw [List.foldl_cons, ih (h.step id), h.mem_snd, mem_matchContract_fst,
        List.mem_cons]
      by_cases hid : entry.1 = id
      · simp [hid]
      · simp [hid]

theorem apart_start (deployments : List Deployment) :
    Apart (byContract deployments, []) where
  active := byContract_keyed deployments
  running := ⟨List.nodup_nil, fun _ h => nomatch h⟩
  disjoint _ _ _ h := nomatch h

/-- The deployments without a contract, and the ones with one. -/
def syncMaps (deployments : List Deployment) (onchain : List ContractID) :
    DeploymentMap × DeploymentMap :=
  onchain.foldl matchContract (byContract deployments, [])

variable {deployments : List Deployment}

theorem syncMaps_keyed : (syncMaps deployments onchain).2.Keyed :=
  (apart_start deployments).foldl.running

theorem mem_matched : entry ∈ (syncMaps deployments onchain).2 ↔
    entry ∈ byContract deployments ∧ entry.1 ∈ onchain := by
  refine (apart_start deployments).mem_matched.trans ?_
  simp

end

/-! ## What a sync queues -/

variable [GoRuntime]

/-- What `Pause`, `Resume` and `Deprovision` queue. -/
def scheduled (store : σ) (key : DeploymentKey) (job : Deployment → EngineJob) :
    List EngineJob :=
  match Storage.get store key with
  | .error _ => []
  | .ok dl => [job dl]

omit [GoRuntime] in
theorem run_schedule (key : DeploymentKey) (job : Deployment → EngineJob)
    (w : World σ μ) :
    ((schedule key job).run (exec e) w).2 = w.queued (scheduled w.store key job) := by
  rw [schedule, run_bind, scheduled]
  show ((match Storage.get w.store key with
    | .error err => _
    | .ok dl => _ : EngineM (Option GoError)).run (exec e) w).2 = _
  cases Storage.get w.store key with
  | error err => rw [World.queued_nil]; rfl
  | ok dl => rfl

/-- For a deployment without a contract. -/
def missingJobs (store : σ) (entry : ContractID × Deployment) : List EngineJob :=
  scheduled store ⟨entry.2.twinID, entry.1⟩
    (.opDeprovision · "contract not active on chain")

/-- For a deployment whose contract exists. -/
def runningJobs (g : Gateway) (store : σ) (entry : ContractID × Deployment) :
    List EngineJob :=
  match g.getContract entry.1 with
  | .error _ => []
  | .ok contract =>
      if contract.isGracePeriod == isLocked entry.2 then []
      else scheduled store entry.2.key
        (if contract.isGracePeriod then .opPause else .opResume)

omit [GoRuntime] in
theorem run_syncMissing (r : ContractEventHandler μ) (entry : ContractID × Deployment)
    (w : World σ μ) :
    ((syncMissing r entry).run (exec e) w).2 = w.queued (missingJobs w.store entry) := by
  rw [syncMissing, run_logged, invoke, run_bind]
  exact run_schedule _ _ w

omit [GoRuntime] in
theorem run_syncRunning (r : ContractEventHandler μ) (entry : ContractID × Deployment)
    (w : World σ μ) :
    ((syncRunning r entry).run (exec e) w).2 =
      w.queued (runningJobs w.gateway w.store entry) := by
  rw [syncRunning, run_bind, runningJobs]
  show ((match w.gateway.getContract entry.1 with
    | .error _ => pure ()
    | .ok contract => _ : EngineM Unit).run (exec e) w).2 = _
  cases w.gateway.getContract entry.1 with
  | error err => rw [World.queued_nil]; rfl
  | ok contract =>
      dsimp only
      split
      · rw [World.queued_nil]
        rfl
      · split
        · rw [run_logged, invoke, run_bind]
          exact run_schedule _ _ w
        · rw [run_logged, invoke, run_bind]
          exact run_schedule _ _ w

/-- What a sync queues, in order. -/
def syncQueue (g : Gateway) (store : σ) (maps : DeploymentMap × DeploymentMap) :
    List EngineJob :=
  (GoRuntime.rangeMap maps.1).flatMap (missingJobs store) ++
    (GoRuntime.rangeMap maps.2).flatMap (runningJobs g store)

/-- A sync whose listings do not fail. -/
theorem run_sync {r : ContractEventHandler μ} {w : World σ μ}
    {deployments : List Deployment} {onchain : List ContractID}
    (hcapacity : Storage.capacity w.store = .ok deployments)
    (hlist : w.gateway.getNodeContracts r.node.toUInt32 = .ok onchain) :
    ((sync r).run (exec e) w).2 =
      w.queued (syncQueue w.gateway w.store (syncMaps deployments onchain)) := by
  have hcurrent : current.run (exec e) w = (.ok (byContract deployments), w) := by
    rw [current, run_bind, run_perform, exec_storageCapacity, hcapacity]
    rfl
  have hcontracts : (getNodeContracts r.node.toUInt32).run (exec e) w =
      (.ok onchain, w) := Prod.ext hlist rfl
  rw [sync, run_bind, hcurrent]
  dsimp only
  rw [run_bind, hcontracts]
  dsimp only
  have hmissing := run_forM_queued (w := w) (e := e)
    (l := GoRuntime.rangeMap (syncMaps deployments onchain).1) (missingJobs w.store)
    (fun entry _ more => run_syncMissing r entry (w.queued more)) []
  rw [World.queued_nil] at hmissing
  rw [run_bind, run_bind]
  show ((List.forM _ (syncRunning r)).run (exec e)
    ((List.forM (GoRuntime.rangeMap (syncMaps deployments onchain).1)
      (syncMissing r)).run (exec e) w).2).2 = _
  rw [hmissing, run_forM_queued (runningJobs w.gateway w.store)
    (fun entry _ more => run_syncRunning r entry (w.queued more)),
    World.queued_queued]
  rfl

end Zos4.Provision
