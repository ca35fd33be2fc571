import Zos4.Provision.Locks
import Zos4.Provision.Passes
import Zos4.Provision.Reference

/-!
# What a reboot forgets

At a start after a boot `New` removes the job queue, and `boot` queues every
active deployment as it is stored. So what comes of the reboot is a function of
the store alone. Compared with a node that works its old queue off first, that
is no loss exactly if the old queue has nothing to add: if working it off leaves
what is stored and what can be installed as they are (`Redundant`). A queue of jobs
that can be recovered from the store one by one (`Recoverable`) is of that kind.

Both sides are followed with one relation. `Kept` is that no header, no
definition and no workload's being alive has changed, and `Adds` that on top of
that the workloads of a set are installed, as far as they are alive. Jobs that
carry what is stored are of that kind, and so is `boot`, whatever was queued.
-/

namespace Zos4.Provision

open Zos4.Interaction Prog

section

variable [Zosbase] {σ μ : Type} [Storage σ]

/-! ## What is compared -/

/-- The same deployments are stored, with the same versions, workload names and
definitions, and the same workloads are installed. -/
structure SameOutcome (w w' : World σ μ) : Prop where
  header : w.view.header = w'.view.header
  definitions : ∀ k n, (w.view.workload k n).map Workload.definition =
    (w'.view.workload k n).map Workload.definition
  installed : w.node.installed = w'.node.installed

/-- The workload is neither deleted nor in error. -/
def alive (wl : Workload) : Bool :=
  !(wl.result.state == .deleted || wl.result.state == .error)

omit [Zosbase] in
theorem alive_of_isOkay {wl : Workload} (h : wl.result.state.isOkay = true) :
    alive wl = true := by
  rw [alive]
  cases hs : wl.result.state <;> rw [hs] at h <;> first | rfl | cases h

def World.live (w : World σ μ) (id : WorkloadID) : Bool :=
  (w.view.workload id.key id.name).any alive

/-- Managers that succeed: what is installed needs no action, anything else is
installed, and a lock or an update that is not refused leaves the workload ok or
paused. -/
structure Succeed (e : NativeEngine μ) : Prop where
  provision : ∀ now wl node, wl.workload.type ∈ e.order →
    (∃ result, (e.provisioner.provision now wl node).1 = (result, none) ∧
      result.state = .ok) ∨
    (node.installed wl.id = true ∧ ∃ result err,
      (e.provisioner.provision now wl node).1 = (result, some err) ∧
        err.is .noActionNeeded = true)
  lock : ∀ lock now wl node result,
    (lockAnswer e lock now wl node).1 = (result, none) → result.state.isOkay = true
  update : ∀ now wl node result,
    (e.provisioner.update now wl node).1 = (result, none) → result.state.isOkay = true

/-- The definition the workload is stored with, if it is stored. -/
def Stored (w : World σ μ) (wl : WorkloadWithID) : Prop :=
  ∀ cur, w.view.workload wl.id.key wl.id.name = some cur →
    Workload.definition cur = Workload.definition wl.workload

/-- Installing the workload adds nothing to the store: it is stored, if its
deployment is, and as it is here. -/
def Reinstalls (w : World σ μ) (wl : WorkloadWithID) : Prop :=
  (w.view.header wl.id.key ≠ none → w.Records wl.id) ∧ Stored w wl

/-- The operation of an update changes nothing that is stored, and installs nothing
that `boot` does not. -/
def RecoverableOp (e : NativeEngine μ) (w : World σ μ) (op : UpgradeOp) : Prop :=
  match op.op with
  | .opRemove => ¬ w.Records op.wlID.id
  | .opAdd => op.wlID.workload.type ∈ e.order ∧ Reinstalls w op.wlID
  | .opUpdate => e.provisioner.canUpdate op.wlID.workload.type = true →
      op.wlID.id.name = op.wlID.workload.name ∧ Stored w op.wlID ∧
        (w.Records op.wlID.id → w.live op.wlID.id = true)

section

variable [GoRuntime]

/-- The job can be recovered from the store. It installs workloads that are
stored as it has them, or it locks and unlocks workloads and has them as they
are stored, or it deprovisions what is gone, or it is an update whose operations
have nothing left to change. -/
def Recoverable (e : NativeEngine μ) (w : World σ μ) : EngineJob → Prop
  | .opProvision target | .opProvisionNoValidation target =>
      ∀ wl ∈ e.order.flatMap (installOrder target), Reinstalls w wl
  | .opPause target => ∀ wl ∈ inOrder target e.order.reverse, Stored w wl
  | .opResume target => ∀ wl ∈ inOrder target e.order, Stored w wl
  | .opDeprovision target _ => w.view.header target.key = none
  | .opUpdate target source => ∀ ops, Zosbase.upgrade source target = .ok ops →
      ∀ op ∈ ops, RecoverableOp e w op

end

/-! ## What jobs of that kind do -/

/-- What is stored of a workload that installing and locking leave alone. -/
def shape (wl : Workload) : Workload × Bool := (Workload.definition wl, alive wl)

structure Kept (w w' : World σ μ) : Prop where
  header : w'.view.header = w.view.header
  shape : ∀ k n, (w'.view.workload k n).map shape = (w.view.workload k n).map shape
  gateway : w'.gateway = w.gateway

namespace Kept

variable {w w' w'' : World σ μ}

theorem refl (w : World σ μ) : Kept w w := ⟨rfl, fun _ _ => rfl, rfl⟩

theorem trans (h : Kept w w') (h' : Kept w' w'') : Kept w w'' :=
  ⟨h'.header.trans h.header, fun k n => (h'.shape k n).trans (h.shape k n),
    h'.gateway.trans h.gateway⟩

theorem of_store (hstore : w'.store = w.store) (hgateway : w'.gateway = w.gateway) :
    Kept w w' := by
  have hview : w'.view = w.view := congrArg Storage.view hstore
  exact ⟨by rw [hview], fun _ _ => by rw [hview], hgateway⟩

theorem definitions (h : Kept w w') (k : DeploymentKey) (n : Name) :
    (w'.view.workload k n).map Workload.definition =
      (w.view.workload k n).map Workload.definition := by
  have hshape := congrArg (Option.map Prod.fst) (h.shape k n)
  rwa [Option.map_map, Option.map_map] at hshape

theorem live (h : Kept w w') (id : WorkloadID) : w'.live id = w.live id := by
  have hshape := h.shape id.key id.name
  rw [World.live, World.live]
  cases hw : w.view.workload id.key id.name <;>
    cases hw' : w'.view.workload id.key id.name <;>
    simp_all [Provision.shape]

theorem records (h : Kept w w') (id : WorkloadID) : w'.Records id ↔ w.Records id := by
  have hnone : w'.view.workload id.key id.name = none ↔
      w.view.workload id.key id.name = none := by
    rw [← Option.map_eq_none_iff (f := Provision.shape), h.shape,
      Option.map_eq_none_iff]
  exact not_congr hnone

theorem stored (h : Kept w w') {wl : WorkloadWithID} (hwl : Stored w wl) :
    Stored w' wl := by
  intro cur hcur
  have hdef := h.definitions wl.id.key wl.id.name
  rw [hcur, Option.map_some] at hdef
  obtain ⟨old, hold, hsame⟩ := Option.map_eq_some_iff.mp hdef.symm
  rw [← hsame]
  exact hwl old hold

theorem reinstalls (h : Kept w w') {wl : WorkloadWithID} (hwl : Reinstalls w wl) :
    Reinstalls w' wl := by
  refine ⟨fun hheader => ?_, h.stored hwl.2⟩
  rw [h.header] at hheader
  exact (h.records wl.id).mpr (hwl.1 hheader)

theorem recoverableOp (h : Kept w w') {e : NativeEngine μ} {op : UpgradeOp}
    (hop : RecoverableOp e w op) : RecoverableOp e w' op := by
  rw [RecoverableOp] at hop ⊢
  split at hop
  · exact (h.records _).not.mpr hop
  · exact ⟨hop.1, h.reinstalls hop.2⟩
  · intro hcan
    obtain ⟨hname, hstored, hlive⟩ := hop hcan
    refine ⟨hname, h.stored hstored, fun hrecords => ?_⟩
    rw [h.live]
    exact hlive ((h.records _).mp hrecords)

theorem recoverable [GoRuntime] (h : Kept w w') {e : NativeEngine μ} {job : EngineJob}
    (hjob : Recoverable e w job) : Recoverable e w' job := by
  cases job with
  | opProvision target | opProvisionNoValidation target =>
      exact fun wl hwl => h.reinstalls (hjob wl hwl)
  | opPause target | opResume target => exact fun wl hwl => h.stored (hjob wl hwl)
  | opDeprovision target message =>
      rw [Recoverable, h.header]
      exact hjob
  | opUpdate target source =>
      exact fun ops hup op hop => h.recoverableOp (hjob ops hup op hop)

end Kept

/-- Nothing but states has changed in the store, and of the workloads of the set
those that are alive are installed on top. -/
structure Adds (ids : WorkloadID → Prop) (w w' : World σ μ) : Prop where
  kept : Kept w w'
  installed : ∀ id, w'.node.installed id = true ↔
    w.node.installed id = true ∨ (ids id ∧ w.live id = true)

namespace Adds

variable {ids ids' : WorkloadID → Prop} {w w' w'' : World σ μ}

theorem of_kept (h : Kept w w') (hnode : w'.node.installed = w.node.installed) :
    Adds (fun _ => False) w w' :=
  ⟨h, fun id => by rw [hnode]; simp⟩

theorem trans (h : Adds ids w w') (h' : Adds ids' w' w'') :
    Adds (fun id => ids id ∨ ids' id) w w'' := by
  refine ⟨h.kept.trans h'.kept, fun id => ?_⟩
  rw [h'.installed, h.installed, h.kept.live, or_and_right, or_assoc]

theorem mono (h : Adds ids w w') (hids : ∀ id, ids' id ↔ ids id) :
    Adds ids' w w' :=
  ⟨h.kept, fun id => by rw [hids]; exact h.installed id⟩

end Adds

/-! ## Installing -/

variable {e : NativeEngine μ} {w : World σ μ} {wl : WorkloadWithID}

/-- A workload that is not alive is not installed. -/
theorem adds_of_dead {id : WorkloadID} (h : w.live id = false) :
    Adds (fun id' => id' = id) w w := by
  refine ⟨.refl w, fun id' => ⟨.inl, ?_⟩⟩
  rintro (hin | ⟨rfl, hlive⟩)
  · exact hin
  · rw [h] at hlive
    cases hlive

/-- A workload is stored under its name, so one that has its definition has it
too. -/
theorem Stored.name {cur : Workload} (h : Stored w wl)
    (hcur : w.view.workload wl.id.key wl.id.name = some cur) :
    wl.id.name = wl.workload.name := by
  have hname : cur.name = wl.id.name := (Storage.workload_wf _ _ _ _ hcur).1
  rw [← hname, show cur.name = (Workload.definition cur).name from rfl, h cur hcur]
  rfl

/-- Recording another result for a workload that is alive if it was. -/
theorem kept_transaction {t : World σ μ} {cur : Workload} {result : Result}
    (hv : t.view = w.view.transaction wl.id.key (wl.workload.withResults result))
    (hgateway : t.gateway = w.gateway) (hname : wl.id.name = wl.workload.name)
    (hcur : w.view.workload wl.id.key wl.id.name = some cur)
    (halive : alive (wl.workload.withResults result) = alive cur)
    (hdef : Workload.definition cur = Workload.definition wl.workload) :
    Kept w t := by
  refine ⟨by rw [hv, StoreView.transaction_header], fun k n => ?_, hgateway⟩
  rw [hv, StoreView.transaction_workload, Workload.withResults_name, ← hname]
  split
  · next hkn =>
      rw [hkn.1, hkn.2, hcur, Option.map_some, Option.map_some, shape, shape, halive,
        hdef]
      rfl
  · rfl

/-- The same as a call of its own. -/
theorem record_adds {result : Result} (hname : wl.id.name = wl.workload.name)
    (hst : Stored w wl) (halive : ∀ cur, w.view.workload wl.id.key wl.id.name = some cur →
      alive (wl.workload.withResults result) = alive cur) :
    Adds (fun _ => False) w ((storageTransaction wl.id.key
      (wl.workload.withResults result)).run (exec e) w).2 := by
  rw [run_perform]
  rcases (exec_storageTransaction (e := e) w wl.id.key
    (wl.workload.withResults result)).cases with ⟨s, hv, hres, hcur⟩ | ⟨err, hres, _⟩
  · rw [hres]
    obtain ⟨cur, hcur⟩ := Option.ne_none_iff_exists'.mp hcur
    rw [Workload.withResults_name, ← hname] at hcur
    exact .of_kept (kept_transaction hv rfl hname hcur (halive cur hcur)
      (hst cur hcur)) rfl
  · rw [hres]
    exact .of_kept (.refl w) rfl

theorem provisionWorkload_adds (hs : Succeed e) (htype : wl.workload.type ∈ e.order)
    (hname : wl.id.name = wl.workload.name) {cur : Workload}
    (hcur : w.view.workload wl.id.key wl.id.name = some cur)
    (halive : alive cur = true)
    (hdef : Workload.definition cur = Workload.definition wl.workload) :
    Adds (fun id => id = wl.id) w ((provisionWorkload wl).run (exec e) w).2 := by
  have hlive : w.live wl.id = true := by rw [World.live, hcur]; exact halive
  refine run_of_safe (Q := fun t => Adds (fun id => id = wl.id) w t) ?_
  rw [provisionWorkload, safe_perform_bind]
  rintro _ rfl _ _
  refine ⟨trivial, ?_⟩
  rw [Discipline.alone_handle, exec_provision]
  rcases hs.provision w.clock wl w.node htype with
    ⟨result, hans, hok⟩ | ⟨hin, result, err, hans, herr⟩
  · rw [hans]
    dsimp only
    rw [← bind_pure (storageTransaction _ _), safe_perform_bind]
    intro t ht _ _
    refine ⟨trivial, ?_⟩
    rw [Discipline.alone_handle]
    rcases (exec_storageTransaction (e := e) t wl.id.key
      (wl.workload.withResults result)).cases with
      ⟨s, hv, hres, _⟩ | ⟨err, _, hno⟩
    · rw [hres]
      subst ht
      rintro _ rfl _
      have hokay : (wl.workload.withResults result).result.state.isOkay = true := by
        rw [Workload.withResults, hok]
        rfl
      refine ⟨kept_transaction hv rfl hname hcur
        ((alive_of_isOkay hokay).trans halive.symm) hdef, fun id => ?_⟩
      simp only [Node.afterProvision, hok, Node.install]
      by_cases hid : id = wl.id
      · simp [hid, hlive, ResultState.isOkay]
      · simp [hid, ResultState.isOkay]
    · rw [← ht, Workload.withResults_name, ← hname] at hno
      exact absurd (hcur.symm.trans hno) (Option.some_ne_none _)
  · rw [hans]
    dsimp only
    rw [if_pos herr]
    rintro _ rfl _
    refine ⟨.of_store rfl rfl, fun id => ?_⟩
    simp only [Node.afterProvision, Option.isNone_some, Bool.false_and]
    by_cases hid : id = wl.id
    · simp [hid, hin]
    · simp [hid]

theorem installWorkload_adds (hs : Succeed e) (htype : wl.workload.type ∈ e.order)
    (hrec : Reinstalls w wl) :
    Adds (fun id => id = wl.id) w ((installWorkload wl).run (exec e) w).2 := by
  refine run_of_safe (Q := fun t => Adds (fun id => id = wl.id) w t) ?_
  rw [installWorkload, safe_perform_bind]
  rintro _ rfl _ _
  refine ⟨trivial, ?_⟩
  rw [Discipline.alone_handle]
  rcases exec_storageCurrent (e := e) w wl.id.key wl.id.name with
    ⟨cur, hres, hcur⟩ | ⟨err, hres, hnone, hnotexist⟩
  · rw [hres]
    dsimp only
    split
    · next hdead =>
        rintro _ rfl _
        refine adds_of_dead ?_
        rw [World.live, hcur, Option.any_some, alive, hdead]
        rfl
    · next halive =>
        exact safe_alone.mpr (provisionWorkload_adds hs htype (hrec.2.name hcur) hcur
          (by rw [alive, Bool.not_eq_true' , ← Bool.not_eq_true]; exact halive)
          (hrec.2 cur hcur))
  · rw [hres]
    dsimp only
    split
    · next herr => exact absurd hnone (hrec.1 (hnotexist.mp herr))
    · rintro _ rfl _
      refine adds_of_dead ?_
      rw [World.live, hnone]
      rfl

/-! ## Locking -/

/-- What is recorded of a workload that is not locked against its definition. -/
theorem lockWorkload_adds (hs : Succeed e) {lock : Bool}
    (hname : wl.id.name = wl.workload.name) (hst : Stored w wl) :
    Adds (fun _ => False) w ((lockWorkload wl lock).run (exec e) w).2 := by
  refine run_of_safe (Q := fun t => Adds (fun _ => False) w t) ?_
  have hkeep : ∀ (ans : Option GoError) {t : World σ μ}, Kept w t →
      t.node.installed = w.node.installed → (pure ans : EngineM _).Safe
        (.alone (exec e)) (fun _ t => Adds (fun _ => False) w t) t := by
    rintro ans t hkept hnode _ rfl _
    exact .of_kept hkept hnode
  rw [lockWorkload, safe_perform_bind]
  rintro _ rfl _ _
  refine ⟨trivial, ?_⟩
  rw [Discipline.alone_handle]
  rcases exec_storageCurrent (e := e) w wl.id.key wl.id.name with
    ⟨cur, hres, hcur⟩ | ⟨err, hres, _⟩
  · rw [hres]
    dsimp only
    split
    · exact hkeep none (.refl w) rfl
    · next hokay =>
        rw [safe_provisionerLock rfl]
        rintro _ rfl _ _
        refine ⟨trivial, ?_⟩
        rcases hans : (lockAnswer e lock w.clock wl w.node).1 with ⟨result, err⟩
        cases err with
        | some err =>
            dsimp only
            split <;> exact hkeep _ (.of_store rfl rfl) rfl
        | none =>
            have hok := hs.lock lock w.clock wl w.node result hans
            let t : World σ μ := { w with node := { w.node with
              rest := (lockAnswer e lock w.clock wl w.node).2 } }
            have ht : Kept w t := .of_store rfl rfl
            refine safe_alone.mpr (((Adds.of_kept ht rfl).trans
              (record_adds (w := t) hname (ht.stored hst) fun cur' hcur' => ?_)).mono
                fun id => by simp)
            obtain rfl := Option.some.inj (hcur.symm.trans hcur')
            rw [alive_of_isOkay (show (wl.workload.withResults result).result.state.isOkay =
              true from hok), alive_of_isOkay (by simpa using hokay)]
  · rw [hres]
    exact hkeep _ (.refl w) rfl

/-! ## Operations of an update -/

/-- A workload that is gone is not uninstalled. -/
theorem uninstallWorkload_adds (reason : String) (h : ¬ w.Records wl.id) :
    Adds (fun _ => False) w ((uninstallWorkload wl reason).run (exec e) w).2 := by
  rw [uninstallWorkload, run_bind, run_perform]
  rcases exec_storageCurrent (e := e) w wl.id.key wl.id.name with
    ⟨cur, _, hcur⟩ | ⟨err, hres, _⟩
  · exact absurd hcur (by rw [not_not.mp h]; simp)
  · rw [hres]
    dsimp only
    split <;> exact .of_kept (.refl w) rfl

/-- What is recorded of an update that changes no definition, of a workload that is
alive if it is stored. -/
theorem recordUpdate_adds {answer : Result × Option GoError}
    (hok : ∀ result, answer = (result, none) → result.state.isOkay = true)
    (hname : wl.id.name = wl.workload.name) (hst : Stored w wl)
    (hlive : w.Records wl.id → w.live wl.id = true) :
    Adds (fun _ => False) w ((recordUpdate wl answer).run (exec e) w).2 := by
  rcases answer with ⟨result, _ | err⟩
  · refine record_adds hname hst fun cur hcur => ?_
    have hthen := hlive (by rw [World.Records, hcur]; simp)
    rw [World.live, hcur] at hthen
    exact (alive_of_isOkay (show (wl.workload.withResults result).result.state.isOkay =
      true from hok result rfl)).trans hthen.symm
  · rw [recordUpdate]
    split
    · rw [run_bind, run_perform]
      rcases exec_storageCurrent (e := e) w wl.id.key wl.id.name with
        ⟨cur, hres, hcur⟩ | ⟨err, hres, _⟩
      · rw [hres]
        refine record_adds hname hst fun cur' hcur' => ?_
        obtain rfl := Option.some.inj (hcur.symm.trans hcur')
        rfl
      · rw [hres]
        exact .of_kept (.refl w) rfl
    · exact .of_kept (.refl w) rfl

theorem updateWorkload_adds (hs : Succeed e)
    (h : e.provisioner.canUpdate wl.workload.type = true →
      wl.id.name = wl.workload.name ∧ Stored w wl ∧
        (w.Records wl.id → w.live wl.id = true)) :
    Adds (fun _ => False) w ((updateWorkload e wl).run (exec e) w).2 := by
  rw [updateWorkload]
  split
  · next hcan =>
      obtain ⟨hname, hst, hlive⟩ := h hcan
      rw [run_bind, run_perform]
      have ht : Kept w (exec e (.update wl) w).2 := .of_store rfl rfl
      refine ((Adds.of_kept ht rfl).trans (recordUpdate_adds (hs.update _ wl w.node)
        hname (ht.stored hst) fun hrecords => ?_)).mono fun id => by simp
      rw [ht.live]
      exact hlive ((ht.records _).mp hrecords)
  · exact .of_kept (.refl w) rfl

theorem applyOperation_adds (hs : Succeed e) {op : UpgradeOp}
    (hop : RecoverableOp e w op) :
    Adds (fun id => op.op = .opAdd ∧ id = op.wlID.id) w
      ((applyOperation e op).run (exec e) w).2 := by
  rw [RecoverableOp] at hop
  rw [applyOperation]
  cases hkind : op.op with
  | opRemove =>
      rw [hkind] at hop
      exact (uninstallWorkload_adds _ hop).mono fun id => by simp
  | opAdd =>
      rw [hkind] at hop
      exact (installWorkload_adds hs hop.1 hop.2).mono fun id => by simp
  | opUpdate =>
      rw [hkind] at hop
      exact (updateWorkload_adds hs hop).mono fun id => by simp

/-- A deprovision of a deployment that is gone. -/
theorem uninstallDeployment_adds {dl : Deployment} {reason : String}
    (h : w.view.header dl.key = none) :
    Adds (fun _ => False) w ((uninstallDeployment e dl reason).run (exec e) w).2 := by
  let I (_ : Bool) (left : List WorkloadWithID) (t : World σ μ) : Prop :=
    (∀ wl ∈ left, wl.id.key = dl.key) ∧ Adds (fun _ => False) w t
  have hdelete : ∀ t : World σ μ, t.view.header dl.key = none →
      Adds (fun _ => False) t (exec e (.storageDelete dl.key) t).2 := by
    intro t ht
    rcases (exec_storageDelete (e := e) t dl.key).cases with
      ⟨s, hv, hres, _⟩ | ⟨err, hres, _⟩
    · rw [hres]
      refine .of_kept ⟨?_, fun k n => ?_, rfl⟩ rfl
      · funext k
        rw [World.view_mk, hv, StoreView.delete_header]
        split
        · next hk => rw [hk, ht]
        · rfl
      · rw [World.view_mk, hv, StoreView.delete_workload]
        split
        · next hk => rw [hk, World.workload_of_header_none ht]
        · rfl
    · rw [hres]
      exact .of_kept (.refl t) rfl
  have hend : ∀ errors t, I errors [] t →
      Adds (fun _ => False) w ((if errors then pure () else logged (storageDelete dl.key) :
        EngineM Unit).run (exec e) t).2 := by
    rintro errors t ⟨-, ht⟩
    cases errors with
    | true => exact ht
    | false =>
        rw [if_neg (by simp), run_logged, run_perform]
        refine (ht.trans (hdelete t ?_)).mono fun id => (or_self _).symm.to_iff
        rw [ht.kept.header]
        exact h
  rw [uninstallDeployment, run_bind]
  refine hend _ _ (run_foldlM I (fun _ wl left t ⟨hleft, ht⟩ => ?_)
    ⟨fun wl hwl => ?_, .of_kept (.refl w) rfl⟩)
  · refine ⟨fun wl hwl => hleft wl (List.mem_cons_of_mem _ hwl), ?_⟩
    have hgone : ¬ t.Records wl.id := by
      refine not_not.mpr (World.workload_of_header_none ?_ _)
      rw [ht.kept.header, hleft wl List.mem_cons_self]
      exact h
    have hwl := ht.trans (uninstallWorkload_adds (e := e) reason hgone)
    rw [run_bind]
    cases ((uninstallWorkload wl reason).run (exec e) t).1 <;>
      exact hwl.mono fun id => (or_self _).symm.to_iff
  · obtain ⟨_, _, _, rfl⟩ := mem_inOrder.mp hwl
    rfl

/-! ## One job -/

/-- A program that writes nothing and installs nothing. -/
theorem run_adds_nothing {α : Type} {p : EngineM α}
    (hp : Makes p fun op => op.writes = false ∧ op.installs = false)
    (w : World σ μ) : Adds (fun _ => False) w (p.run (exec e) w).2 := by
  induction p generalizing w with
  | ret a => exact .of_kept (.refl w) rfl
  | call op k ih =>
      have hans := exec_possible (e := e) op w
      have hfirst : Adds (fun _ => False) w (exec e op w).2 :=
        .of_kept (.of_store (exec_store w hp.1.1) (exec_outside w op).2.1)
          (exec_installed w hp.1.2)
      exact (hfirst.trans (ih _ (hp.2 _ hans) _)).mono fun _ => (or_self _).symm.to_iff

theorem run_forM_adds {α : Type} (ids : α → WorkloadID → Prop) {l : List α}
    {body : α → EngineM PUnit} {w : World σ μ}
    (hbody : ∀ x ∈ l, ∀ t, Kept w t → Adds (ids x) t ((body x).run (exec e) t).2) :
    Adds (fun id => ∃ x ∈ l, ids x id) w ((l.forM body).run (exec e) w).2 := by
  induction l generalizing w with
  | nil => exact (Adds.of_kept (.refl w) rfl).mono fun id => by simp
  | cons x xs ih =>
      have hx := hbody x List.mem_cons_self w (.refl w)
      have hxs := ih fun y hy t ht =>
        hbody y (List.mem_cons_of_mem x hy) t (hx.kept.trans ht)
      show Adds _ w ((body x >>= fun _ => xs.forM body).run (exec e) w).2
      rw [run_bind]
      exact (hx.trans hxs).mono fun id => by simp

variable [GoRuntime]

/-- The workloads a job names for installation. -/
def EngineJob.names (e : NativeEngine μ) (job : EngineJob) (id : WorkloadID) : Prop :=
  ∃ wl ∈ job.installed e, wl.id = id

theorem body_adds (hs : Succeed e) {job : EngineJob} (hrec : Recoverable e w job) :
    Adds (job.names e) w ((job.body e).run (exec e) w).2 := by
  cases job with
  | opProvision target | opProvisionNoValidation target =>
      refine (run_forM_adds (fun wl id => id = wl.id) fun wl hwl t ht => ?_).mono
        fun id => ?_
      · have hwl' := ht.reinstalls (hrec wl hwl)
        obtain ⟨wl', _, htype, rfl⟩ := mem_installOrder.mp hwl
        rw [run_logged]
        exact installWorkload_adds hs htype hwl'
      · exact ⟨fun ⟨wl, hwl, hid⟩ => ⟨wl, hwl, hid.symm⟩,
          fun ⟨wl, hwl, hid⟩ => ⟨wl, hwl, hid.symm⟩⟩
  | opPause target | opResume target =>
      refine (run_forM_adds (fun _ _ => False) fun wl hwl t ht => ?_).mono
        fun id => ?_
      · obtain ⟨wl', _, _, rfl⟩ := mem_inOrder.mp hwl
        rw [run_logged]
        exact lockWorkload_adds hs rfl (ht.stored (hrec _ hwl))
      · simp [EngineJob.names, EngineJob.installed]
  | opDeprovision target message =>
      exact (uninstallDeployment_adds hrec).mono fun id => by
        simp [EngineJob.names, EngineJob.installed]
  | opUpdate target source =>
      rw [EngineJob.body]
      cases hup : Zosbase.upgrade source target with
      | error err =>
          exact (Adds.of_kept (.refl w) rfl).mono fun id => by
            simp [EngineJob.names, EngineJob.installed, hup]
      | ok ops =>
          have hmem : ∀ op, op ∈ sortOperations e ops ↔ op ∈ ops :=
            fun op => (List.perm_insertionSort _ ops).mem_iff
          refine (run_forM_adds (fun op id => op.op = .opAdd ∧ id = op.wlID.id)
            fun op hop t ht => ?_).mono fun id => ?_
          · rw [run_logged]
            exact applyOperation_adds hs
              (ht.recoverableOp (hrec ops hup op ((hmem op).mp hop)))
          · simp only [EngineJob.names, EngineJob.installed, hup, hmem, List.mem_map,
              List.mem_filter, beq_iff_eq]
            constructor
            · rintro ⟨_, ⟨op, ⟨hop, hkind⟩, rfl⟩, rfl⟩
              exact ⟨op, hop, hkind, rfl⟩
            · rintro ⟨op, hop, hkind, rfl⟩
              exact ⟨_, ⟨op, ⟨hop, hkind⟩, rfl⟩, rfl⟩

/-- Validation passes for the job, whatever else has changed. -/
def Validates (σ : Type) [Storage σ] (e : NativeEngine μ) (g : Gateway)
    (job : EngineJob) : Prop :=
  ∀ noValidation, job.validation = some noValidation → ∀ w : World σ μ,
    w.gateway = g → ((validate e job.target noValidation).run (exec e) w).1 = none

theorem process_adds (hs : Succeed e) {job : EngineJob} (hrec : Recoverable e w job)
    (hval : Validates σ e w.gateway job) : Adds (job.names e) w (process e job w) := by
  have hrun : ∀ {t : World σ μ}, Kept w t →
      Adds (job.names e) t ((runJob e job).run (exec e) t).2 := by
    intro t ht
    rw [runJob_eq, run_bind]
    have hfinish := run_adds_nothing (e := e)
      (within_mono (finishJob_makes (e := e) job.target job.removes)
        (B := fun op : Op => op.writes = false ∧ op.installs = false)
        (by rintro op (rfl | rfl) <;> exact ⟨rfl, rfl⟩))
      ((job.body e).run (exec e) t).2
    exact ((body_adds hs (ht.recoverable hrec)).trans hfinish).mono
      fun id => (or_false _).symm.to_iff
  rw [process, processJob]
  split
  · exact hrun (.refl w)
  · next noValidation hjob =>
      have hvalidate := run_adds_nothing (e := e)
        (within_mono (validate_makes (e := e) job.target noValidation)
          (B := fun op : Op => op.writes = false ∧ op.installs = false)
          (by rintro op (rfl | rfl) <;> exact ⟨rfl, rfl⟩)) w
      rw [run_bind, hval noValidation hjob w rfl]
      exact (hvalidate.trans (hrun hvalidate.kept)).mono
        fun id => (false_or _).symm.to_iff

/-- The queue as a whole. -/
theorem drain_adds (hs : Succeed e) {jobs : List EngineJob} {w : World σ μ}
    (hq : w.queue = jobs) (hrec : ∀ job ∈ jobs, Recoverable e w job)
    (hval : ∀ job ∈ jobs, Validates σ e w.gateway job) :
    Adds (fun id => ∃ job ∈ jobs, job.names e id) w (drain e w) := by
  induction jobs generalizing w with
  | nil =>
      rw [drain_nil hq]
      exact (Adds.of_kept (.refl w) rfl).mono fun id => by simp
  | cons job rest ih =>
      have hfirst := process_adds hs (hrec job List.mem_cons_self)
        (hval job List.mem_cons_self)
      have hrest := ih (process_queue hq)
        (fun j hj => hfirst.kept.recoverable (hrec j (List.mem_cons_of_mem job hj)))
        (fun j hj => by
          rw [hfirst.kept.gateway]
          exact hval j (List.mem_cons_of_mem job hj))
      rw [drain_cons hq]
      exact (hfirst.trans hrest).mono fun id => by simp

/-! ## The queue `boot` makes -/

/-- The workload is stored, alive, and of a type the engine goes through. -/
def Installable (e : NativeEngine μ) (w : World σ μ) (id : WorkloadID) : Prop :=
  ∃ cur, w.view.workload id.key id.name = some cur ∧ cur.type ∈ e.order ∧
    alive cur = true

omit [GoRuntime] in
theorem Kept.installable {w w' : World σ μ} (h : Kept w w') (id : WorkloadID) :
    Installable e w' id ↔ Installable e w id := by
  have hsame : (w'.view.workload id.key id.name).map (fun wl => (wl.type, alive wl)) =
      (w.view.workload id.key id.name).map fun wl => (wl.type, alive wl) := by
    have hshape := congrArg (Option.map fun p : Workload × Bool => (p.1.type, p.2))
      (h.shape id.key id.name)
    rwa [Option.map_map, Option.map_map] at hshape
  have hiff : ∀ t : World σ μ, Installable e t id ↔
      ∃ typ ∈ e.order, (t.view.workload id.key id.name).map
        (fun wl => (wl.type, alive wl)) = some (typ, true) := by
    intro t
    simp only [Installable, Option.map_eq_some_iff, Prod.mk.injEq]
    constructor
    · rintro ⟨cur, hcur, htype, halive⟩
      exact ⟨cur.type, htype, cur, hcur, rfl, halive⟩
    · rintro ⟨_, htype, cur, hcur, rfl, halive⟩
      exact ⟨cur, hcur, htype, halive⟩
  rw [hiff, hiff, hsame]

/-- The queue `boot` makes names the workloads that can be installed. -/
theorem bootQueue_names (hlist : Listable σ) (w : World σ μ) (id : WorkloadID) :
    ((∃ job ∈ bootQueue w.store, job.names e id) ∧ w.live id = true) ↔
      Installable e w id := by
  simp only [mem_bootQueue hlist]
  constructor
  · rintro ⟨⟨_, ⟨key, dl, hget, _, rfl⟩, _, hitem, rfl⟩, hlive⟩
    obtain ⟨wl, hwl, htype, rfl⟩ := mem_installOrder.mp hitem
    obtain ⟨rfl, _, _, hworkloads⟩ := Storage.get_ok hget
    have hcur := (hworkloads wl).mp hwl
    refine ⟨wl, hcur, htype, ?_⟩
    rw [World.live, Deployment.withID_key, Deployment.withID_name] at hlive
    rw [show w.view.workload dl.key wl.name = some wl from hcur] at hlive
    exact hlive
  · rintro ⟨cur, hcur, htype, halive⟩
    cases hget : Storage.get w.store id.key with
    | error err => exact absurd (Storage.get_error hget) (World.view_header hcur)
    | ok dl =>
        obtain ⟨hkey, _⟩ := Storage.get_ok hget
        obtain ⟨hmem, hname⟩ := (Storage.recorded_iff hget).mp hcur
        refine ⟨⟨_, ⟨id.key, dl, hget, ?_, rfl⟩, dl.withID cur,
          mem_installOrder.mpr ⟨cur, hmem, htype, rfl⟩, ?_⟩, ?_⟩
        · exact List.any_eq_true.mpr ⟨cur, hmem, halive⟩
        · exact WorkloadID.eq_of_key hkey hname
        · rw [World.live, hcur]
          exact halive

omit [GoRuntime] in
/-- A deployment that was just read names what is stored. -/
theorem stored_of_get {key : DeploymentKey} {dl : Deployment}
    (hget : Storage.get w.store key = .ok dl) {wl : Workload}
    (hwl : wl ∈ dl.workloads) :
    w.Records (dl.withID wl).id ∧ Stored w (dl.withID wl) := by
  obtain ⟨rfl, _, _, hworkloads⟩ := Storage.get_ok hget
  have hcur : w.view.workload dl.key wl.name = some wl := (hworkloads wl).mp hwl
  refine ⟨?_, fun cur hcur' => ?_⟩
  · rw [World.Records, Deployment.withID_key, Deployment.withID_name, hcur]
    exact Option.some_ne_none _
  · obtain rfl := Option.some.inj (hcur.symm.trans hcur')
    rfl

theorem recoverable_of_get {key : DeploymentKey} {dl : Deployment}
    (hget : Storage.get w.store key = .ok dl) :
    Recoverable e w (.opProvisionNoValidation dl) := by
  intro wl hwl
  obtain ⟨wl, hmem, _, rfl⟩ := mem_installOrder.mp hwl
  obtain ⟨hrecords, hstored⟩ := stored_of_get hget hmem
  exact ⟨fun _ => hrecords, hstored⟩

/-- What a recoverable job names, and is alive, can be installed. -/
theorem installable_of_names {job : EngineJob} (hrec : Recoverable e w job)
    {id : WorkloadID} (hnames : job.names e id) (hlive : w.live id = true) :
    Installable e w id := by
  have hinstallable : ∀ wl : WorkloadWithID, wl.id = id → wl.workload.type ∈ e.order →
      Stored w wl → Installable e w id := by
    rintro wl rfl htype hst
    obtain ⟨cur, hcur, halive⟩ := (Option.any_eq_true _ _).mp hlive
    refine ⟨cur, hcur, ?_, halive⟩
    rw [show cur.type = (Workload.definition cur).type from rfl, hst cur hcur]
    exact htype
  obtain ⟨wl, hwl, hid⟩ := hnames
  cases job with
  | opProvision target | opProvisionNoValidation target =>
      obtain ⟨_, _, htype, hitem⟩ := mem_installOrder.mp hwl
      refine hinstallable wl hid ?_ (hrec wl hwl).2
      rw [hitem]
      exact htype
  | opPause target | opResume target | opDeprovision target message => cases hwl
  | opUpdate target source =>
      rw [EngineJob.installed] at hwl
      cases hup : Zosbase.upgrade source target with
      | error err => rw [hup] at hwl; cases hwl
      | ok ops =>
          rw [hup] at hwl
          obtain ⟨op, hop, rfl⟩ := List.mem_map.mp hwl
          obtain ⟨hop, hkind⟩ := List.mem_filter.mp hop
          have hadd := hrec ops hup op hop
          rw [RecoverableOp, beq_iff_eq.mp hkind] at hadd
          exact hinstallable _ hid hadd.1 hadd.2.2

/-! ## The reboot -/

theorem drain_gateway (w : World σ μ) : (drain e w).gateway = w.gateway :=
  drain_induction (I := fun _ t => t.gateway = w.gateway)
    (fun _ _ _ _ h => (run_outside _ _).2.1.trans h) rfl

variable {r : ContractEventHandler μ}

/-- Nothing is installed any more. -/
def World.uninstalled (w : World σ μ) (rest : μ) : World σ μ :=
  { w with node := ⟨fun _ => false, rest⟩ }

/-- What becomes of the world at a start after a boot, the worker acting alone:
the queue is dropped, `boot` runs, and what it has queued is worked off. -/
def rebooted (r : ContractEventHandler μ) (w : World σ μ) : World σ μ :=
  (Sys.start r true w []).completed r

/-- The same, if the old queue is worked off first. -/
def drainedFirst (r : ContractEventHandler μ) (w : World σ μ) : World σ μ :=
  rebooted r (drain r.engine w)

theorem rebooted_eq (w : World σ μ) : rebooted r w =
    drain r.engine (({ w with queue := [] } : World σ μ).queued
      (bootQueue w.store)) := by
  rw [rebooted, Sys.completed]
  refine congrArg (drain r.engine) ?_
  show ((logged boot).run (exec r.engine) { w with queue := [] }).2 = _
  rw [run_logged, run_boot]

/-- No job brings a deployment into the store. -/
theorem drain_header_none {k : DeploymentKey} {w : World σ μ}
    (h : w.view.header k = none) : (drain e w).view.header k = none :=
  drain_induction (I := fun _ w => w.view.header k = none)
    (fun job _ _ _ h => run_header_none (within_mono (processJob_makes job)
      fun _ hop => hop.not_creates) h) h

/-- `boot` installs what can be installed. -/
theorem rebooted_installs (hs : Succeed r.engine) (hlist : Listable σ)
    (hboot : ∀ dl, w.view.header dl.key ≠ none →
      Validates σ r.engine w.gateway (.opProvisionNoValidation dl)) :
    Kept w (rebooted r w) ∧ ∀ id, (rebooted r w).node.installed id = true ↔
      w.node.installed id = true ∨ Installable r.engine w id := by
  have hread : ∀ job ∈ bootQueue w.store, ∃ key dl,
      Storage.get w.store key = .ok dl ∧ job = .opProvisionNoValidation dl :=
    fun job hjob => by
      obtain ⟨key, dl, hget, _, hdl⟩ := (mem_bootQueue hlist).mp hjob
      exact ⟨key, dl, hget, hdl⟩
  let queued : World σ μ := World.queued { w with queue := [] } (bootQueue w.store)
  have hadds : Adds (fun id => ∃ job ∈ bootQueue w.store, job.names r.engine id)
      queued (drain r.engine queued) := drain_adds hs (List.nil_append _)
    (fun job hjob => by
      obtain ⟨key, dl, hget, rfl⟩ := hread job hjob
      exact recoverable_of_get hget)
    (fun job hjob => by
      obtain ⟨key, dl, hget, rfl⟩ := hread job hjob
      obtain ⟨rfl, hheader, _⟩ := Storage.get_ok hget
      refine hboot dl ?_
      rw [show w.view.header dl.key = _ from hheader]
      exact Option.some_ne_none _)
  rw [rebooted_eq]
  refine ⟨⟨hadds.kept.header, hadds.kept.shape, hadds.kept.gateway⟩, fun id => ?_⟩
  rw [hadds.installed, ← bootQueue_names hlist w id]
  exact Iff.rfl

/-- Working the old queue off has made no difference that `boot` does not make from
the store: it left what is stored, up to states, and what is installed or can be
installed after it could be installed before. -/
structure Redundant (e : NativeEngine μ) (w w' : World σ μ) : Prop where
  header : w'.view.header = w.view.header
  definitions : ∀ k n, (w'.view.workload k n).map Workload.definition =
    (w.view.workload k n).map Workload.definition
  installed : ∀ id, w'.node.installed id = true ∨ Installable e w' id ↔
    Installable e w id

/-- Jobs that can be recovered make no difference. -/
theorem redundant_of_recoverable (hs : Succeed e) (hinstalled : ∀ id,
      w.node.installed id = false)
    (hrec : ∀ job ∈ w.queue, Recoverable e w job)
    (hval : ∀ job ∈ w.queue, Validates σ e w.gateway job) :
    Redundant e w (drain e w) := by
  have hdrain : Adds (fun id => ∃ job ∈ w.queue, job.names e id) w (drain e w) :=
    drain_adds hs rfl hrec hval
  refine ⟨hdrain.kept.header, hdrain.kept.definitions, fun id => ?_⟩
  rw [hdrain.kept.installable, hdrain.installed, hinstalled]
  constructor
  · rintro ((h | ⟨⟨job, hjob, hnames⟩, hlive⟩) | h)
    · cases h
    · exact installable_of_names (hrec job hjob) hnames hlive
    · exact h
  · exact .inr

/-- A reboot comes to the same as working the queue off first exactly if working it
off makes no difference; and it makes none if every pending job can be recovered
from the store. -/
theorem reboot_recovers (hs : Succeed r.engine) (hlist : Listable σ)
    (w : World σ μ) (rest : μ)
    (hval : ∀ job ∈ w.queue, Validates σ r.engine w.gateway job)
    (hboot : ∀ dl, w.view.header dl.key ≠ none →
      Validates σ r.engine w.gateway (.opProvisionNoValidation dl)) :
    (SameOutcome (rebooted r (w.uninstalled rest))
        (drainedFirst r (w.uninstalled rest)) ↔
      Redundant r.engine (w.uninstalled rest) (drain r.engine (w.uninstalled rest))) ∧
    ((∀ job ∈ w.queue, Recoverable r.engine w job) →
      SameOutcome (rebooted r (w.uninstalled rest))
        (drainedFirst r (w.uninstalled rest))) := by
  let w₀ := w.uninstalled rest
  obtain ⟨hkept, hin⟩ := rebooted_installs (w := w₀) hs hlist hboot
  obtain ⟨hkept', hin'⟩ := rebooted_installs (w := drain r.engine w₀) hs hlist
    (fun dl hdl => by
      rw [drain_gateway]
      exact hboot dl fun hnone => hdl (drain_header_none hnone))
  have hiff : SameOutcome (rebooted r w₀) (drainedFirst r w₀) ↔
      Redundant r.engine w₀ (drain r.engine w₀) := by
    have hinstalled : (rebooted r w₀).node.installed = (drainedFirst r w₀).node.installed ↔
        ∀ id, (drain r.engine w₀).node.installed id = true ∨
          Installable r.engine (drain r.engine w₀) id ↔ Installable r.engine w₀ id := by
      rw [funext_iff]
      refine forall_congr' fun id => ?_
      have hnone : ¬ w₀.node.installed id = true := nofun
      rw [Bool.eq_iff_iff, hin, drainedFirst, hin', or_iff_right hnone]
      exact Iff.comm
    constructor
    · rintro ⟨hheader, hdefs, hnodes⟩
      refine ⟨?_, fun k n => ?_, hinstalled.mp hnodes⟩
      · rw [← hkept'.header, ← hkept.header]
        exact hheader.symm
      · rw [← hkept'.definitions, ← hkept.definitions]
        exact (hdefs k n).symm
    · rintro ⟨hheader, hdefs, hids⟩
      refine ⟨?_, fun k n => ?_, hinstalled.mpr hids⟩
      · rw [hkept.header, drainedFirst, hkept'.header, hheader]
      · rw [hkept.definitions, drainedFirst, hkept'.definitions, hdefs]
  refine ⟨hiff, fun hrec => hiff.mpr (redundant_of_recoverable hs (fun _ => rfl)
    (fun job hjob => ?_) hval)⟩
  exact (Kept.of_store rfl rfl).recoverable (hrec job hjob)

end

/-! ## A node where it happens -/

namespace PendingJobs

open Reference

def stored : Deployment := deployment 0 1 [workload 0 "a" "d"]

def updated : Deployment := deployment 1 1 [workload 1 "a" "e"]

def bigger : Deployment :=
  deployment 0 1 [workload 0 "a" "d", workload 0 "b" "d"]

def a : WorkloadID := ⟨1, 2, "a"⟩

def b : WorkloadID := ⟨1, 2, "b"⟩

/-- `jobs` are pending, and the contract is about `dl`. -/
def pending (dl : Deployment) (jobs : List EngineJob) : World MapStore Unit :=
  world (store [stored]) [a] jobs ⟨[(2, contract dl)], []⟩

/-- The definition the workload is stored with. -/
def storedData (w : World MapStore Unit) : Option RawMessage :=
  (w.view.workload a.key a.name).map (·.data)

theorem succeed : Succeed engine := by
  refine ⟨fun now wl node _ => ?_, fun lock now wl node result h => ?_,
    fun now wl node result h => ?_⟩
  · cases hin : node.installed wl.id with
    | true =>
        refine .inr ⟨rfl, Result.zero, .sentinel .noActionNeeded, ?_, rfl⟩
        simp [engine, mapProvisioner, MapProvisioner.provision, manager, hin,
          MapProvisioner.answer, GoError.is]
    | false =>
        refine .inl ⟨setState now { Result.zero with data := wl.workload.data } none,
          ?_, rfl⟩
        simp [engine, mapProvisioner, MapProvisioner.provision, manager, hin,
          MapProvisioner.answer, buildResult, setState]
  · cases lock with
    | true | false =>
        simp only [lockAnswer, engine, mapProvisioner, MapProvisioner.pause,
          MapProvisioner.resume, MapProvisioner.setLock, manager] at h
        split at h
        · cases h
        · obtain rfl := (Prod.mk.inj h).1
          rfl
  · obtain rfl := (Prod.mk.inj h).1
    rfl

theorem listable : Listable MapStore := fun _ => ⟨⟨_, rfl⟩, fun _ => ⟨_, rfl⟩⟩

theorem validates {dl : Deployment} {job : EngineJob}
    (hid : job.target.contractID = 2) (hkind : ∀ noValidation,
      job.validation = some noValidation → noValidation = false → job.target = dl) :
    Validates MapStore engine (Ledger.gateway ⟨[(2, contract dl)], []⟩) job := by
  intro noValidation hval w hw
  have hcontract : (getContract job.target.contractID).run (exec engine) w =
      (.ok (contract dl), w) := by
    rw [hid]
    exact Prod.ext (by rw [run_perform]; show w.gateway.getContract 2 = _; rw [hw]; rfl) rfl
  have hrent : (getNodeRentContract engine.nodeID.toUInt32).run (exec engine) w =
      (.error ⟨true, .text "no rent contract"⟩, w) :=
    Prod.ext (by rw [run_perform]; show w.gateway.getNodeRentContract _ = _; rw [hw]; rfl) rfl
  rw [validate, if_neg (by decide), run_bind, hcontract]
  dsimp only
  rw [if_neg (by simp [contract]), run_bind, hrent]
  dsimp only
  rw [if_neg (by simp)]
  cases noValidation with
  | true => rfl
  | false =>
      have htarget := hkind false hval rfl
      rw [htarget]
      rw [validateContract, if_neg (by decide)]
      exact if_neg (not_not.mpr rfl)

/-- The deployment as an update that changes nothing but its version leaves it. -/
def bumped : Deployment := { stored with version := 1 }

/-- A deployment that is gone. -/
def gone : Deployment := { stored with contractID := 3 }

/-- A provision, a pause and the update to the version that is stored are pending, and
a deprovision of what is gone. -/
def jobs : List EngineJob :=
  [.opProvision bumped, .opPause bumped, .opUpdate bumped stored, .opDeprovision gone ""]

/-- They are pending, and the request of the update has rewritten the header. -/
def harmless : World MapStore Unit :=
  world (store [bumped]) [a] jobs ⟨[(2, contract bumped)], []⟩

theorem get_bumped : Storage.get harmless.store ⟨1, 2⟩ = .ok bumped := by
  decide +kernel

theorem recoverable : ∀ job ∈ jobs, Recoverable engine harmless job := by
  intro job hjob
  simp only [jobs, List.mem_cons, List.not_mem_nil, or_false] at hjob
  rcases hjob with rfl | rfl | rfl | rfl
  · exact recoverable_of_get (e := engine) get_bumped
  · intro wl hwl
    obtain ⟨wl, hmem, _, rfl⟩ := mem_inOrder.mp hwl
    exact (stored_of_get get_bumped hmem).2
  · intro ops hup op hop
    obtain rfl : ops = [] := Except.ok.inj (hup.symm.trans (by decide +kernel))
    cases hop
  · exact MapStore.view_header.mpr (by decide +kernel)

theorem header_harmless {k : DeploymentKey} (h : harmless.view.header k ≠ none) :
    k = bumped.key := by
  by_contra hk
  refine h (MapStore.view_header.mpr ?_)
  show (MapStore.set ⟨∅⟩ bumped.key _).find k = none
  rw [MapStore.set_find, if_neg hk]
  rfl

end PendingJobs

theorem reboot_recovers_pending :
    SameOutcome (rebooted Reference.handler (PendingJobs.harmless.uninstalled ()))
      (drainedFirst Reference.handler (PendingJobs.harmless.uninstalled ())) :=
  (reboot_recovers PendingJobs.succeed PendingJobs.listable PendingJobs.harmless ()
    (fun job hjob => by
      simp only [PendingJobs.harmless, PendingJobs.jobs, Reference.world,
        List.mem_cons, List.not_mem_nil, or_false] at hjob
      rcases hjob with rfl | rfl | rfl | rfl
      · exact PendingJobs.validates rfl fun _ _ _ => rfl
      · exact nofun
      · exact PendingJobs.validates rfl fun _ _ _ => rfl
      · exact nofun)
    (fun dl hdl => by
      have hid : dl.contractID = 2 :=
        congrArg DeploymentKey.contract (PendingJobs.header_harmless hdl)
      refine PendingJobs.validates hid fun noValidation hval hfalse => ?_
      rw [hfalse] at hval
      cases hval)).2 PendingJobs.recoverable

/-- A deprovision or an update that is pending when the node reboots is lost, and
so is what a pending job has of workloads that are stored otherwise or not at
all. -/
theorem reboot_loses_pending :
    (∃ w : World MapStore Unit, w.queue = [.opDeprovision PendingJobs.stored ""] ∧
      (rebooted Reference.handler (w.uninstalled ())).node.installed
        PendingJobs.a = true ∧
      (drainedFirst Reference.handler (w.uninstalled ())).node.installed
        PendingJobs.a = false) ∧
    (∃ w : World MapStore Unit,
      w.queue = [.opUpdate PendingJobs.updated PendingJobs.stored] ∧
      PendingJobs.storedData (rebooted Reference.handler (w.uninstalled ())) =
        some "d" ∧
      PendingJobs.storedData (drainedFirst Reference.handler (w.uninstalled ())) =
        some "e") ∧
    (∃ w : World MapStore Unit, w.queue = [.opPause PendingJobs.updated] ∧
      PendingJobs.storedData (rebooted Reference.handler (w.uninstalled ())) =
        some "d" ∧
      PendingJobs.storedData (drainedFirst Reference.handler (w.uninstalled ())) =
        some "e") ∧
    ∃ w : World MapStore Unit, w.queue = [.opProvision PendingJobs.bigger] ∧
      (rebooted Reference.handler (w.uninstalled ())).node.installed
        PendingJobs.b = false ∧
      (drainedFirst Reference.handler (w.uninstalled ())).node.installed
        PendingJobs.b = true :=
  ⟨⟨PendingJobs.pending PendingJobs.stored [.opDeprovision PendingJobs.stored ""],
      by decide +kernel, by decide +kernel, by decide +kernel⟩,
    ⟨PendingJobs.pending PendingJobs.updated
        [.opUpdate PendingJobs.updated PendingJobs.stored],
      by decide +kernel, by decide +kernel, by decide +kernel⟩,
    ⟨PendingJobs.pending PendingJobs.stored [.opPause PendingJobs.updated],
      by decide +kernel, by decide +kernel, by decide +kernel⟩,
    PendingJobs.pending PendingJobs.bigger [.opProvision PendingJobs.bigger],
      by decide +kernel, by decide +kernel, by decide +kernel⟩

end Zos4.Provision
