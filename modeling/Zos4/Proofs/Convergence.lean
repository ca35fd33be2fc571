import Zos4.Provision.Worker
import Zos4.Provision.Reference

/-!
# Where a run of updates ends

An update job carries the deployment `Update` read when it was accepted, and
the worker recomputes the difference from that. While updates are pending the
snapshot has the version of the one before and the workloads of some earlier
one, so the difference is right only by luck. How much luck is `UpToDate`: of
the state the last job is taken up in, the snapshot must know every workload
the target drops, and must not claim one the target keeps.

The worker's side is a calculation on names. `Names k P w` says that the
workloads recorded for `k` are those `P` holds of, each operation of an update
changes `P` in one place, and the others never touch it.
-/

namespace Zos4.Provision

open Zos4.Interaction Prog

section

variable [Zosbase] {σ μ : Type} [Storage σ]

/-- The names recorded for a deployment. -/
def Names (k : DeploymentKey) (P : Name → Prop) (w : World σ μ) : Prop :=
  ∀ n, w.view.workload k n ≠ none ↔ P n

variable {k : DeploymentKey} {P : Name → Prop} {e : NativeEngine μ}

theorem Names.of_eq {w w' : World σ μ} (h : Names k P w)
    (heq : ∀ n, w'.view.workload k n = w.view.workload k n) : Names k P w' :=
  fun n => by rw [heq n]; exact h n

/-- A transaction overwrites a workload that is there. -/
theorem Names.transaction {w : World σ μ} (h : Names k P w) {s : σ}
    {k' : DeploymentKey} {wl : Workload}
    (hv : Storage.view s = w.view.transaction k' wl)
    (hthere : w.view.workload k' wl.name ≠ none) :
    Names k P { w with store := s } := by
  intro n
  rw [World.view_mk, hv, StoreView.transaction_workload]
  split
  · next hkn =>
      obtain ⟨rfl, rfl⟩ := hkn
      exact ⟨fun _ => (h _).mp hthere, fun _ => by simp⟩
  · exact h n

/-- An added workload is there afterwards. -/
theorem Names.add {w : World σ μ} (h : Names k P w) {s : σ} {wl : Workload}
    (hv : Storage.view s = w.view.add w.clock k wl) :
    Names k (fun n => P n ∨ n = wl.name) { w with store := s } := by
  intro n
  rw [World.view_mk, hv, StoreView.add_workload]
  split
  · next hkn => simp [hkn.2]
  · next hkn =>
      have hne : n ≠ wl.name := fun hn => hkn ⟨rfl, hn⟩
      simp only [hne, or_false]
      exact h n

/-- A removed workload is gone afterwards. -/
theorem Names.remove {w : World σ μ} (h : Names k P w) {s : σ} {n : Name}
    (hv : Storage.view s = w.view.remove k n) :
    Names k (fun m => P m ∧ m ≠ n) { w with store := s } := by
  intro m
  rw [World.view_mk, hv, StoreView.remove_workload]
  split
  · next hkm => simp [hkm.2]
  · next hkm =>
      have hne : m ≠ n := fun hn => hkm ⟨rfl, hn⟩
      simp only [ne_eq, hne, not_false_eq_true, and_true]
      exact h m

/-! ## The protocol -/

/-- The deployment stays, and only updates are queued. -/
def UpdateQueue (k : DeploymentKey) (w : World σ μ) : Prop :=
  w.view.header k ≠ none ∧ Queued (fun job => ∃ u, UpdateJob u job) w

variable {r : ContractEventHandler μ}

/-- Nobody but the worker touches the workloads. -/
def convergence (r : ContractEventHandler μ) (k : DeploymentKey) :
    Protocol r σ where
  inv := UpdateQueue k
  workerRely w w' := ∀ n, w'.view.workload k n = w.view.workload k n
  routineRely _ _ := True
  assume _ op _ := ∀ key err, op ≠ .storageError key err
  allow _ op _ := op ≠ .storageDelete k ∧ op.jobs = []
  routineAllow op _ := op.isApi = true ∧ op.creates = false ∧
    ∀ job ∈ op.jobs, ∃ u, UpdateJob u job
  post _ := True
  worker_refl _ _ := rfl
  worker_trans h h' n := (h' n).trans (h n)
  routine_refl _ := trivial
  routine_trans _ _ := trivial

/-! ## One operation of an update -/

variable {job : Option EngineJob} {w : World σ μ} {wl : WorkloadWithID}

theorem uninstallWorkload_names (reason : String) (hkey : wl.id.key = k)
    (hname : wl.id.name = wl.workload.name)
    (hdep : ∀ wl node, (r.engine.provisioner.deprovision wl node).1 = none)
    (h : Names k P w) :
    (uninstallWorkload wl reason).Safe ((convergence r k).worker job)
      (fun _ => Names k fun m => P m ∧ m ≠ wl.id.name) w := by
  subst hkey
  rw [uninstallWorkload, safe_perform_bind]
  intro t ht hi _
  have hP := h.of_eq ht
  refine ⟨⟨by simp, rfl⟩, ?_⟩
  rw [Protocol.worker_handle]
  rcases exec_storageCurrent (e := r.engine) t wl.id.key wl.id.name with
    ⟨cur, hres, hcur⟩ | ⟨err, hres, hnone, hiff⟩
  · rw [hres]
    dsimp only
    rw [safe_perform_bind]
    intro t₁ ht₁ _ _
    refine ⟨⟨by simp, rfl⟩, ?_⟩
    rw [safe_perform_bind, Protocol.worker_handle, exec_deprovision, hdep]
    intro t₂ ht₂ _ _
    have hP₂ := (hP.of_eq ht₁).of_eq ht₂
    refine ⟨⟨by simp, rfl⟩, ?_⟩
    rw [exec_now, safe_perform_bind, Protocol.worker_handle]
    intro t₃ ht₃ _ _
    have hP₃ := hP₂.of_eq ht₃
    refine ⟨⟨by simp, rfl⟩, ?_⟩
    rcases (exec_storageTransaction (e := r.engine) t₃ wl.id.key
      (wl.workload.withResults (uninstallResult reason t₂.clock none))).cases with
      ⟨s, hv, hres, hthere⟩ | ⟨err, hres, hno⟩
    · have hP₄ := hP₃.transaction hv hthere
      rw [hres]
      dsimp only
      rw [if_pos (uninstallResult_state _ _), ← bind_pure (storageRemove _ _),
        safe_perform_bind]
      intro t₅ ht₅ hi₅ _
      have hP₅ := hP₄.of_eq ht₅
      refine ⟨⟨by simp, rfl⟩, ?_⟩
      rw [Protocol.worker_handle]
      rcases (exec_storageRemove (e := r.engine) t₅ wl.id.key wl.id.name).cases
        with ⟨s, hv, hres, _⟩ | ⟨err, hres, hno⟩
      · rw [hres]
        exact fun t' ht' _ => (hP₅.remove hv).of_eq ht'
      · exact absurd hno hi₅.1
    · refine absurd hno ?_
      have hthere : P wl.id.name := (hP _).mp (by simp [hcur])
      rw [Workload.withResults_name, ← hname]
      exact (hP₃ _).mpr hthere
  · rw [hres]
    dsimp only
    rw [if_pos (hiff.mpr hi.1)]
    intro t' ht' _
    have hgone : ¬ P wl.id.name := fun hn => (hP _).mpr hn hnone
    have hsame : Names wl.id.key (fun m => P m ∧ m ≠ wl.id.name) t := by
      intro n
      rw [hP n]
      constructor
      · intro hn
        exact ⟨hn, fun heq => hgone (heq ▸ hn)⟩
      · exact And.left
    exact hsame.of_eq ht'

theorem storageTransaction_names (wl : Workload) {key : DeploymentKey}
    (h : Names k P w) :
    (storageTransaction key wl).Safe ((convergence r k).worker job)
      (fun _ => Names k P) w := by
  rw [← bind_pure (storageTransaction _ _), safe_perform_bind]
  intro t ht _ _
  have hP := h.of_eq ht
  refine ⟨⟨by simp, rfl⟩, ?_⟩
  rw [Protocol.worker_handle]
  rcases (exec_storageTransaction (e := r.engine) t key wl).cases with
    ⟨s, hv, hres, hthere⟩ | ⟨err, hres, _⟩
  · rw [hres]
    exact fun t' ht' _ => (hP.transaction hv hthere).of_eq ht'
  · rw [hres]
    exact fun t' ht' _ => hP.of_eq ht'

theorem provisionWorkload_names (h : Names k P w) :
    (provisionWorkload wl).Safe ((convergence r k).worker job)
      (fun _ => Names k P) w := by
  rw [provisionWorkload, safe_perform_bind]
  intro t ht _ _
  refine ⟨⟨by simp, rfl⟩, ?_⟩
  rw [Protocol.worker_handle, exec_provision]
  generalize r.engine.provisioner.provision t.clock wl t.node = ans
  obtain ⟨⟨result, err⟩, rest⟩ := ans
  have hP : Names k P { t with
      node := t.node.afterProvision wl.id (result, err) rest } := h.of_eq ht
  cases err with
  | none => exact storageTransaction_names _ hP
  | some err =>
      dsimp only
      split
      · exact fun t' ht' _ => hP.of_eq ht'
      · rw [safe_perform_bind]
        intro t₁ ht₁ _ _
        exact ⟨⟨by simp, rfl⟩, storageTransaction_names _ (hP.of_eq ht₁)⟩

theorem installWorkload_names (hkey : wl.id.key = k)
    (hname : wl.id.name = wl.workload.name) (h : Names k P w) :
    (installWorkload wl).Safe ((convergence r k).worker job)
      (fun _ => Names k fun m => P m ∨ m = wl.id.name) w := by
  subst hkey
  rw [installWorkload, safe_perform_bind]
  intro t ht hi _
  have hP := h.of_eq ht
  refine ⟨⟨by simp, rfl⟩, ?_⟩
  rw [Protocol.worker_handle]
  rcases exec_storageCurrent (e := r.engine) t wl.id.key wl.id.name with
    ⟨cur, hres, hcur⟩ | ⟨err, hres, hnone, hiff⟩
  · have hthere : P wl.id.name := (hP _).mp (by simp [hcur])
    have hsame : Names wl.id.key (fun m => P m ∨ m = wl.id.name) t := by
      intro n
      rw [hP n]
      constructor
      · exact Or.inl
      · rintro (hn | rfl)
        · exact hn
        · exact hthere
    rw [hres]
    dsimp only
    split
    · exact fun t' ht' _ => hsame.of_eq ht'
    · exact provisionWorkload_names hsame
  · rw [hres]
    dsimp only
    rw [if_pos (hiff.mpr hi.1), safe_perform_bind]
    intro t₁ ht₁ hi₁ _
    have hP₁ := hP.of_eq ht₁
    refine ⟨⟨by simp, rfl⟩, ?_⟩
    rw [Protocol.worker_handle]
    rcases (exec_storageAdd (e := r.engine) t₁ wl.id.key wl.workload).cases with
      ⟨s, hv, hres, _⟩ | ⟨err, hres, hno | hno⟩
    · rw [hres]
      have hadded := hP₁.add hv
      rw [← hname] at hadded
      exact provisionWorkload_names hadded
    · exact absurd hno hi₁.1
    · refine absurd ?_ hno
      rw [← hname, ht₁, hnone]

theorem recordUpdate_names (res : Result × Option GoError) (h : Names k P w) :
    (recordUpdate wl res).Safe ((convergence r k).worker job)
      (fun _ => Names k P) w := by
  obtain ⟨result, err⟩ := res
  cases err with
  | none => exact storageTransaction_names _ h
  | some err =>
      rw [recordUpdate]
      split
      · rw [safe_perform_bind]
        intro t ht _ _
        refine ⟨⟨by simp, rfl⟩, ?_⟩
        rw [Protocol.worker_handle]
        rcases exec_storageCurrent (e := r.engine) t wl.id.key wl.id.name with
          ⟨cur, hres, _⟩ | ⟨err, hres, _⟩
        · rw [hres]
          exact storageTransaction_names _ (h.of_eq ht)
        · rw [hres]
          exact fun t' ht' _ => (h.of_eq ht).of_eq ht'
      · exact fun t' ht' _ => h.of_eq ht'

theorem updateWorkload_names (h : Names k P w) :
    (updateWorkload r.engine wl).Safe ((convergence r k).worker job)
      (fun _ => Names k P) w := by
  rw [updateWorkload]
  split
  · rw [safe_perform_bind]
    intro t ht _ _
    exact ⟨⟨by simp, rfl⟩, recordUpdate_names _ (h.of_eq ht)⟩
  · exact recordUpdate_names _ h

/-! ## A whole update -/

/-- What one operation does to the names. -/
def namesStep (P : Name → Prop) (op : UpgradeOp) : Name → Prop :=
  match op.op with
  | .opRemove => fun n => P n ∧ n ≠ op.wlID.id.name
  | .opAdd => fun n => P n ∨ n = op.wlID.id.name
  | .opUpdate => P

theorem applyOperation_names {op : UpgradeOp} (hkey : op.wlID.id.key = k)
    (hname : op.wlID.id.name = op.wlID.workload.name)
    (hdep : ∀ wl node, (r.engine.provisioner.deprovision wl node).1 = none)
    (h : Names k P w) :
    (applyOperation r.engine op).Safe ((convergence r k).worker job)
      (fun _ => Names k (namesStep P op)) w := by
  rw [applyOperation]
  cases hop : op.op with
  | opRemove =>
      rw [namesStep, hop]
      exact uninstallWorkload_names _ hkey hname hdep h
  | opAdd =>
      rw [namesStep, hop]
      exact installWorkload_names hkey hname h
  | opUpdate =>
      rw [namesStep, hop]
      exact updateWorkload_names h

/-- What a list of operations does to the names, in the order it is in. -/
def namesAfter (ops : List UpgradeOp) (P : Name → Prop) : Name → Prop :=
  ops.foldl namesStep P

omit [Zosbase] in
/-- With each name in one operation at most, the order does not matter. -/
theorem namesAfter_iff {ops : List UpgradeOp}
    (hnodup : (ops.map fun op => op.wlID.id.name).Nodup) {n : Name} :
    namesAfter ops P n ↔
      (P n ∧ ¬ ∃ op ∈ ops, op.op = .opRemove ∧ op.wlID.id.name = n) ∨
        ∃ op ∈ ops, op.op = .opAdd ∧ op.wlID.id.name = n := by
  induction ops generalizing P with
  | nil => simp [namesAfter]
  | cons op ops ih =>
      rw [List.map_cons, List.nodup_cons] at hnodup
      show namesAfter ops (namesStep P op) n ↔ _
      rw [ih hnodup.2]
      by_cases hn : op.wlID.id.name = n
      · -- no other operation is about this name
        have hothers : ∀ kind, ¬ ∃ op' ∈ ops, op'.op = kind ∧
            op'.wlID.id.name = n := by
          rintro kind ⟨op', hop', _, hname⟩
          exact hnodup.1 (List.mem_map.mpr ⟨op', hop', hname.trans hn.symm⟩)
        simp only [List.mem_cons, or_and_right, exists_or, exists_eq_left,
          hothers, hn, not_false_eq_true, and_true, or_false, namesStep]
        cases op.op <;> simp
      · have hstep : namesStep P op n ↔ P n := by
          rw [namesStep]
          have hne : n ≠ op.wlID.id.name := fun h => hn h.symm
          cases op.op <;> simp [hne]
        simp only [List.mem_cons, or_and_right, exists_or, exists_eq_left, hn,
          and_false, false_or, hstep]

theorem updateDeployment_names {ops : List UpgradeOp}
    (hops : ∀ op ∈ ops, op.wlID.id.key = k ∧
      op.wlID.id.name = op.wlID.workload.name)
    (hdep : ∀ wl node, (r.engine.provisioner.deprovision wl node).1 = none)
    (h : Names k P w) :
    (updateDeployment r.engine ops).Safe ((convergence r k).worker job)
      (fun _ => Names k (namesAfter (sortOperations r.engine ops) P)) w := by
  let final := namesAfter (sortOperations r.engine ops) P
  -- the operations left turn the names there now into the final ones
  have hloop : (updateDeployment r.engine ops).Safe
      ((convergence r k).worker job)
      (fun _ t => ∃ P', Names k P' t ∧ namesAfter [] P' = final) w := by
    refine (Safe.forM (fun left t => (∀ op ∈ left, op ∈ ops) ∧
      ∃ P', Names k P' t ∧ namesAfter left P' = final) ?_ ?_).mono
        fun _ _ _ h => h.2
    · rintro op left t _ ⟨hleft, P', hP', hfinal⟩
      have hop := hops op (hleft op (by simp))
      refine safe_logged ((applyOperation_names hop.1 hop.2 hdep hP').mono ?_)
      exact fun _ _ _ hnames =>
        ⟨fun op' hop' => hleft op' (by simp [hop']), _, hnames, hfinal⟩
    · intro t ht _
      refine ⟨fun op hop => ?_, P, h.of_eq ht, rfl⟩
      exact (List.perm_insertionSort _ ops).mem_iff.mp hop
  refine hloop.mono fun _ t _ h => ?_
  obtain ⟨P', hP', hfinal⟩ := h
  rw [show namesAfter (sortOperations r.engine ops) P = P' from hfinal.symm]
  exact hP'

/-- A program that writes nothing, queues nothing and refuses nothing. -/
theorem names_of_makes {α : Type} {A : Op → Prop} {p : EngineM α} (hp : Makes p A)
    (hA : ∀ op, A op → op.writes = false ∧ op.jobs = []) (h : Names k P w) :
    p.Safe ((convergence r k).worker job) (fun _ => Names k P) w := by
  refine hp.keeps (fun op t => exec_possible op t)
    (fun t t' hP ht => hP.of_eq ht) (fun op t hop _ hP => ?_) h
  obtain ⟨hw, hj⟩ := hA op hop
  refine ⟨⟨?_, hj⟩, hP.of_eq fun n => ?_⟩
  · rintro rfl
    cases hw
  · rw [Protocol.worker_handle, exec_view t hw]

theorem UpdateQueue.call {w : World σ μ} (h : UpdateQueue k w) {op : Op}
    (hop : op ≠ .storageDelete k) (hjobs : ∀ job ∈ op.jobs, ∃ u, UpdateJob u job) :
    UpdateQueue k (exec e op w).2 :=
  ⟨exec_header_kept h.1 hop, Queued.call h.2 hjobs⟩

variable [GoRuntime]

/-- The names after an update job, whatever was recorded before. -/
theorem processJob_names {target source : Deployment} {ops : List UpgradeOp}
    (hup : Zosbase.upgrade source target = .ok ops)
    (hlaws : UpgradeLaws source target ops)
    (hdep : ∀ wl node, (r.engine.provisioner.deprovision wl node).1 = none)
    (h : Names target.key P w) :
    (processJob r.engine (.opUpdate target source)).Safe
      ((convergence r target.key).worker job)
      (fun _ => Names target.key
        (namesAfter (sortOperations r.engine ops) P)) w := by
  have hfinish : ∀ {P : Name → Prop} {t : World σ μ}, Names target.key P t →
      (finishJob r.engine target false).Safe
        ((convergence r target.key).worker job)
        (fun _ => Names target.key P) t := by
    intro P t hP
    refine names_of_makes (finishJob_makes target false) ?_ hP
    rintro op (rfl | rfl) <;> exact ⟨rfl, rfl⟩
  have hvalidate : (validate r.engine target false).Safe
      ((convergence r target.key).worker job)
      (fun _ => Names target.key P) w := by
    refine names_of_makes (validate_makes target false) ?_ h
    rintro op (rfl | rfl) <;> exact ⟨rfl, rfl⟩
  refine hvalidate.bind_stable fun ans t hP => ?_
  cases ans with
  | none =>
      refine Safe.intro fun t' ht' hi' => ?_
      dsimp only
      rw [runJob]
      simp only [hup]
      refine (updateDeployment_names hlaws.ids hdep (hP t' ht' hi')).bind ?_
      exact fun _ _ _ hP' => hfinish hP'
  | some err =>
      -- validation passes: the refusal is never called
      intro t' _ _ hassume
      exact absurd rfl (hassume target.key err)

/-! ## Runs of updates -/

/-- Only updates are requested, and their jobs pass validation. -/
def updatesOnly (s : Sys σ μ) : Action μ → Bool
  | .spawn (.request (.update _)) | .routine _ | .take | .outside _ _ _ => true
  | .work => !s.refusing
  | .spawn _ | .restart | .clear _ | .reboot _ => false

/-- The same as a condition on the steps of a run. -/
abbrev UpdatesOnly (s : Sys σ μ) (a : Action μ) : Prop := updatesOnly s a = true

omit [Storage σ] [GoRuntime] in
theorem UpdatesOnly.spawn {s : Sys σ μ} {routine : Routine}
    (h : UpdatesOnly s (.spawn routine)) :
    ∃ u, routine = .request (.update u) := by
  rcases routine with req | _
  · cases req with
    | update u => exact ⟨u, rfl⟩
    | _ => cases h
  · cases h

omit [Storage σ] [GoRuntime] in
theorem UpdatesOnly.continues {s : Sys σ μ} {a : Action μ}
    (h : UpdatesOnly s a) : a.continues := by
  cases a <;> trivial

/-- Any update job keeps the deployment and queues nothing. -/
theorem processJob_keeps (target source : Deployment) :
    Makes (processJob e (.opUpdate target source)) fun op =>
      op ≠ .storageDelete k ∧ op.jobs = [] := by
  refine within_mono (processJob_makes _) fun op hop => ⟨?_, hop.jobs⟩
  exact hop.not_delete rfl k

theorem convergence_sound :
    (convergence r k : Protocol r σ).Sound UpdatesOnly where
  spawn s routine _ hspawn := by
    obtain ⟨u, rfl⟩ := hspawn.spawn
    refine (invoke_makes (e := r.engine)
      (rfl : (Request.update u).queued = true)).safe
      (fun op t => exec_possible op t) fun op t hop _ => ?_
    exact ⟨hop.api, hop.quiet rfl, fun job hjob => ⟨u, hop.jobs job hjob⟩⟩
  routine op w hi hop := by
    refine ⟨hi.call ?_ hop.2.2, fun n => ?_, trivial⟩
    · rintro rfl
      cases hop.1
    · rw [exec_api_workload hop.1 hop.2.1]
  assume s op c _ hwork hw key err := by
    rintro rfl
    rw [UpdatesOnly, updatesOnly, Sys.refusing, hw] at hwork
    cases hwork
  work job op w hi _ hop :=
    ⟨hi.call hop.1 (by rw [hop.2]; exact fun _ h => nomatch h), trivial⟩
  take s job rest hholds _ hq := by
    obtain ⟨u, source, ops, _, _, rfl⟩ := hholds.inv.2 job (by rw [hq]; simp)
    exact (processJob_keeps u source).safe (fun op t => exec_possible op t)
      fun _ _ hop _ => hop
  outside s clock chain gateway hi _ := ⟨hi, fun _ => rfl, trivial⟩
  restart s _ h := nomatch h
  clear s _ _ h := nomatch h
  reboot s rest _ h := nomatch h

/-- Of the recorded names, the snapshot of an update knows every one the target
drops, and does not count one as there that the target keeps and is not. -/
structure UpToDate (v : StoreView) (target source : Deployment) : Prop where
  knows : ∀ n, v.workload target.key n ≠ none → n ∉ source.names →
    n ∈ target.names
  there : ∀ n, n ∈ target.names → n ∈ source.names →
    v.workload target.key n ≠ none

omit [Zosbase] [GoRuntime] in
/-- What the calculation on names comes to. -/
theorem namesAfter_eq_target {target source : Deployment} {ops : List UpgradeOp}
    (hlaws : UpgradeLaws source target ops) {v : StoreView} :
    (∀ n, namesAfter (sortOperations r.engine ops)
      (fun n => v.workload target.key n ≠ none) n ↔ n ∈ target.names) ↔
        UpToDate v target source := by
  have hperm : (sortOperations r.engine ops).Perm ops :=
    List.perm_insertionSort _ ops
  have hafter : ∀ n, namesAfter (sortOperations r.engine ops)
      (fun n => v.workload target.key n ≠ none) n ↔
        (v.workload target.key n ≠ none ∧
          ¬ (n ∈ source.names ∧ n ∉ target.names)) ∨
        (n ∈ target.names ∧ n ∉ source.names) := by
    intro n
    rw [namesAfter_iff ((hperm.map _).nodup_iff.mpr hlaws.nodup)]
    simp only [hperm.mem_iff, hlaws.remove, hlaws.add]
  constructor
  · intro h
    refine ⟨fun n hn hs => ?_, fun n ht hs => ?_⟩
    · exact (h n).mp ((hafter n).mpr (.inl ⟨hn, fun hs' => hs hs'.1⟩))
    · rcases (hafter n).mp ((h n).mpr ht) with ⟨hn, _⟩ | ⟨_, hs'⟩
      · exact hn
      · exact absurd hs hs'
  · rintro ⟨hknows, hthere⟩ n
    rw [hafter]
    by_cases hs : n ∈ source.names
    · constructor
      · rintro (⟨_, hkeep⟩ | ⟨ht, _⟩)
        · exact not_not.mp fun ht => hkeep ⟨hs, ht⟩
        · exact ht
      · exact fun ht => .inl ⟨hthere n ht hs, fun h => h.2 ht⟩
    · constructor
      · rintro (⟨hn, _⟩ | ⟨ht, _⟩)
        · exact hknows n hn hs
        · exact ht
      · exact fun ht => .inr ⟨ht, hs⟩

/-- A run of updates ends in the names of the last accepted target exactly if
its snapshot was up to date when the worker took the job up. -/
theorem updates_converge_iff (hlaw : LawfulUpgrade)
    (hdep : ∀ wl node, (r.engine.provisioner.deprovision wl node).1 = none)
    {s₀ s : Sys σ μ} (hfresh : s₀.Fresh) (hrun : Run r UpdatesOnly s₀ s)
    (hdrained : s.Drained) {target source : Deployment}
    (hstored : s₀.world.view.header target.key ≠ none)
    (hlast : (accepted s.log).getLast? = some (.opUpdate target source)) :
    ∃ s₁ s₁' rest, Run r UpdatesOnly s₀ s₁ ∧ s₁.step r .take = some s₁' ∧
      s₁.world.queue = .opUpdate target source :: rest ∧
      Run r (fun s a => UpdatesOnly s a ∧ a ≠ .take) s₁' s ∧
      ((∀ n, s.world.view.workload target.key n ≠ none ↔ n ∈ target.names) ↔
        UpToDate s₁.world.view target source) := by
  have hholds : (convergence r target.key).Holds s₀ :=
    hfresh.holds ⟨hstored, .of_empty hfresh.queue⟩ fun _ _ => trivial
  have hjob : ∀ w : World σ μ, UpdateQueue target.key w →
      (∃ rest, w.queue = .opUpdate target source :: rest) →
      (processJob r.engine (.opUpdate target source)).Safe
        ((convergence r target.key).worker (some (.opUpdate target source)))
        (fun _ t => (∀ n, t.view.workload target.key n ≠ none ↔
          n ∈ target.names) ↔ UpToDate w.view target source) w := by
    rintro w hi ⟨rest, hq⟩
    obtain ⟨u, source', ops, hsnap, hup, hjob⟩ :=
      hi.2 _ (by rw [hq]; exact List.mem_cons_self)
    obtain ⟨rfl, rfl⟩ := EngineJob.opUpdate.inj hjob
    have hlaws := hlaw source target ops hsnap.nodup hup
    refine (processJob_names hup hlaws hdep fun _ => Iff.rfl).mono ?_
    intro _ t _ hnames
    rw [← namesAfter_eq_target (r := r) hlaws]
    exact forall_congr' fun n => iff_congr (hnames n) Iff.rfl
  obtain ⟨s₁, s₁', rest, hbefore, htake, hq, hafter, _, hpost⟩ :=
    hrun.last_job (fun w t => (∀ n, t.view.workload target.key n ≠ none ↔
        n ∈ target.names) ↔ UpToDate w.view target source)
      convergence_sound (fun _ _ h => h.continues) hfresh hholds hdrained hlast
      hjob
  exact ⟨s₁, s₁', rest, hbefore, htake, hq, hafter, hpost⟩

end

/-! ## Two updates at once

`{a} → {a, b}` and `{a, b} → {a, c}`, both accepted before the worker takes up
the first. The second snapshot is of version 1 and still has the workloads of
version 0, so nothing in it says that `b` has to go. -/

namespace TwoPending

open Reference

def stored : Deployment := deployment 0 1 [workload 0 "a" "d"]

def first : Deployment := deployment 1 1 [workload 0 "a" "d", workload 1 "b" "d"]

def second : Deployment := deployment 2 1 [workload 0 "a" "d", workload 2 "c" "d"]

def ledger (dl : Deployment) : Ledger := ⟨[(2, contract dl)], []⟩

def start : Sys MapStore Unit :=
  idle (world (store [stored]) [⟨1, 2, "a"⟩] [] (ledger first))

/-- A request from its first call to its last. -/
def serve (i : Nat) : List (Action Unit) := List.replicate 4 (.routine i)

def actions : List (Action Unit) :=
  .spawn (.request (.update first)) :: serve 0 ++
  .spawn (.request (.update second)) :: serve 1 ++
  .take :: List.replicate 7 .work ++
  .outside 0 (ledger second).chain (ledger second).gateway ::
  .take :: List.replicate 7 .work

def finish : Sys MapStore Unit :=
  (start.follow handler updatesOnly actions).get (by decide +kernel)

theorem run : Run handler UpdatesOnly start finish :=
  Run.of_follow (fun _ _ h => h) actions (Option.some_get _).symm

theorem drained : finish.Drained :=
  ⟨Sys.idle_of_isIdle (by decide +kernel), by decide +kernel⟩

theorem both_accepted : accepted finish.log =
    [.opUpdate first stored, .opUpdate second { stored with version := 1 }] := by
  decide +kernel

end TwoPending

theorem updates_converge_iff_two_pending :
    ∃ s₁ s₁' rest, Run Reference.handler UpdatesOnly TwoPending.start s₁ ∧
      s₁.step Reference.handler .take = some s₁' ∧
      s₁.world.queue = .opUpdate TwoPending.second
        { TwoPending.stored with version := 1 } :: rest ∧
      Run Reference.handler (fun s a => UpdatesOnly s a ∧ a ≠ .take) s₁'
        TwoPending.finish ∧
      ((∀ n, TwoPending.finish.world.view.workload TwoPending.second.key n ≠ none ↔
          n ∈ TwoPending.second.names) ↔
        UpToDate s₁.world.view TwoPending.second
          { TwoPending.stored with version := 1 }) :=
  updates_converge_iff Reference.lawful_upgrade (fun _ _ => rfl)
    (Reference.idle_fresh rfl) TwoPending.run TwoPending.drained
    (by decide +kernel) (by rw [TwoPending.both_accepted]; rfl)

/-- Two accepted updates whose jobs pass validation end in a workload the last
target does not have. -/
theorem pending_updates_diverge :
    ∃ s : Sys MapStore Unit, Run Reference.handler UpdatesOnly TwoPending.start s ∧
      s.Drained ∧ accepted s.log =
        [.opUpdate TwoPending.first TwoPending.stored,
          .opUpdate TwoPending.second { TwoPending.stored with version := 1 }] ∧
      s.world.view.workload TwoPending.second.key "b" ≠ none ∧
      "b" ∉ TwoPending.second.names :=
  ⟨TwoPending.finish, TwoPending.run, TwoPending.drained,
    TwoPending.both_accepted, by decide +kernel, by decide +kernel⟩

end Zos4.Provision
