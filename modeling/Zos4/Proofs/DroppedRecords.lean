import Zos4.Provision.Faults
import Zos4.Provision.Passes
import Zos4.Provision.Reference

/-!
# Records that are dropped

`uninstallDeployment` deletes the deployment unless one of its workloads could not be
uninstalled, and what counts as that is an error of `uninstallWorkload`. A manager that
fails to deprovision the workload is none: the failure is recorded, and nil returned.
Nor is a workload that the store does not know of. So the deployment may be deleted
with workloads of it on the node.

`Visit` is what becomes of one workload, whatever calls fail. From it follows what the
loop leaves: while no error has come up, the workloads on the node are those of before
for which no visit found a record and had an answer of success. `dropped_clean_iff` is
the end of it.
-/

namespace Zos4.Provision

open Zos4.Interaction Prog

section

variable [Zosbase] {σ μ : Type} [Storage σ] {e : NativeEngine μ} {faults : Faults}

/-! ## One workload -/

/-- Something is recorded for the workload, as a test. -/
def World.recorded (w : World σ μ) (id : WorkloadID) : Bool :=
  (w.view.workload id.key id.name).isSome

theorem World.recorded_iff {w : World σ μ} {id : WorkloadID} :
    w.recorded id = true ↔ w.Records id := by
  rw [World.recorded, Option.isSome_iff_ne_none]
  rfl

/-- What a visit of a workload returns, and the world it leaves. -/
inductive Visit (e : NativeEngine μ) (wl : WorkloadWithID) (c : Calls) (w : World σ μ) :
    Option GoError → Calls → World σ μ → Prop
  | failed {err : GoError} {c' : Calls} {w' : World σ μ} :
      (w.view.header wl.id.key ≠ none → c'.failed = true) → w'.recorded = w.recorded →
      (∀ id, w'.node.installed id = true → w.node.installed id = true) →
      w'.view.header = w.view.header → Visit e wl c w (some err) c' w'
  | skipped {c' : Calls} : c'.failed = c.failed → w.recorded wl.id = false →
      Visit e wl c w none c' w
  | removed {rest : μ} {c' : Calls} {w' : World σ μ} : c'.failed = c.failed →
      w.recorded wl.id = true → e.provisioner.deprovision wl w.node = (none, rest) →
      w'.node = w.node.uninstall wl.id rest →
      w'.recorded = (fun id => id ≠ wl.id && w.recorded id) →
      w'.view.header = w.view.header → Visit e wl c w none c' w'
  | kept {err : GoError} {rest : μ} {c' : Calls} {w' : World σ μ} : c'.failed = c.failed →
      w.recorded wl.id = true → e.provisioner.deprovision wl w.node = (some err, rest) →
      w'.node = { w.node with rest := rest } → w'.recorded = w.recorded →
      w'.view.header = w.view.header → Visit e wl c w none c' w'

/-- Recording a result for what is recorded changes no more than the result. -/
theorem recorded_transaction {w w' : World σ μ} {k : DeploymentKey} {wl : Workload}
    (hthere : w.view.workload k wl.name ≠ none)
    (h : w'.view = w.view.transaction k wl) : w'.recorded = w.recorded := by
  funext id
  rw [World.recorded, h, StoreView.transaction_workload]
  split
  · next hid =>
      rw [World.recorded, hid.1, hid.2]
      simpa [Option.isSome_iff_ne_none] using hthere
  · rfl

theorem recorded_remove {w w' : World σ μ} {id : WorkloadID}
    (h : w'.view = w.view.remove id.key id.name) :
    w'.recorded = fun id' => id' ≠ id && w.recorded id' := by
  funext id'
  rw [World.recorded, h, StoreView.remove_workload]
  by_cases hid : id' = id
  · simp [hid]
  · have hkn : ¬ (id'.key = id.key ∧ id'.name = id.name) :=
      fun hkn => hid (WorkloadID.eq_of_key hkn.1 hkn.2)
    simp [hkn, hid, World.recorded]

omit [Zosbase] in
theorem installed_of_afterDeprovision {node : Node μ} {id id' : WorkloadID}
    {err : Option GoError} {rest : μ}
    (h : (node.afterDeprovision id err rest).installed id' = true) :
    node.installed id' = true := by
  unfold Node.afterDeprovision at h
  split at h
  · simp only [Node.uninstall] at h
    split at h
    · cases h
    · exact h
  · exact h

/-- The end of a visit: the workload is down, and its record is to be removed. -/
theorem remove_visit {wl : WorkloadWithID} {c c' : Calls} {w t : World σ μ} {rest : μ}
    (hrecorded : w.recorded wl.id = true)
    (hdep : e.provisioner.deprovision wl w.node = (none, rest))
    (hnode : t.node = w.node.uninstall wl.id rest) (hsame : t.recorded = w.recorded)
    (hheader : t.view.header = w.view.header) (hcalls : c'.failed = c.failed) :
    Visit e wl c w ((storageRemove wl.id.key wl.id.name).run (faulty e faults) (c', t)).1
      ((storageRemove wl.id.key wl.id.name).run (faulty e faults) (c', t)).2.1
      ((storageRemove wl.id.key wl.id.name).run (faulty e faults) (c', t)).2.2 := by
  have hinstalled : ∀ id, t.node.installed id = true → w.node.installed id = true := by
    intro id hid
    rw [hnode] at hid
    simp only [Node.uninstall] at hid
    split at hid
    · cases hid
    · exact hid
  rw [run_perform]
  rcases faulty_cases (e := e) faults (.storageRemove wl.id.key wl.id.name) c' t
    with ⟨_, ans, _, hans, hres⟩ | ⟨-, hres⟩
  · cases hans
    rw [hres]
    exact .failed (fun _ => rfl) hsame hinstalled hheader
  · rw [hres]
    rcases (exec_storageRemove (e := e) t wl.id.key wl.id.name).cases with
      ⟨s, hv, hres, -⟩ | ⟨_, hres, hmissing⟩
    · rw [hres]
      refine .removed hcalls hrecorded hdep hnode (hsame ▸ recorded_remove hv) ?_
      rw [World.view_mk, hv]
      exact hheader
    · rw [hres]
      exact .failed (fun h => absurd hmissing (hheader ▸ h)) hsame hinstalled hheader

theorem uninstallWorkload_visit {wl : WorkloadWithID} (hname : wl.id.name = wl.workload.name)
    (reason : String) (c : Calls) (w : World σ μ) :
    Visit e wl c w ((uninstallWorkload wl reason).run (faulty e faults) (c, w)).1
      ((uninstallWorkload wl reason).run (faulty e faults) (c, w)).2.1
      ((uninstallWorkload wl reason).run (faulty e faults) (c, w)).2.2 := by
  rw [uninstallWorkload, run_bind, run_perform]
  rcases faulty_cases (e := e) faults (.storageCurrent wl.id.key wl.id.name) c w
    with ⟨err, ans, hfails, hans, hres⟩ | ⟨-, hres⟩
  · cases hans
    rw [hres]
    dsimp only
    rw [if_neg (by simp [faults.tells _ _ _ _ hfails])]
    exact .failed (fun _ => rfl) rfl (fun _ h => h) rfl
  · rw [hres]
    rcases exec_storageCurrent (e := e) w wl.id.key wl.id.name with
      ⟨cur, hcur, hthere⟩ | ⟨err, hcur, hnone, hexists⟩
    · rw [hcur]
      dsimp only
      have hrecorded : w.recorded wl.id = true := by simp [World.recorded, hthere]
      rw [run_bind, run_perform, faulty_exec (fun _ => rfl), exec_deprovision]
      dsimp only
      rw [run_bind, run_perform, faulty_exec (fun _ => rfl), exec_now]
      dsimp only
      generalize hdep : e.provisioner.deprovision wl w.node = answer
      obtain ⟨err, rest⟩ := answer
      dsimp only
      rw [run_bind, run_perform]
      -- the transaction fails, is refused, or records the result
      rcases faulty_cases (e := e) faults (.storageTransaction wl.id.key
        (wl.workload.withResults (uninstallResult reason w.clock err))) c.next.next.next
        { w with node := w.node.afterDeprovision wl.id err rest }
        with ⟨_, ans, _, hans, hres⟩ | ⟨-, hres⟩
      · cases hans
        rw [hres]
        exact .failed (fun _ => rfl) rfl (fun _ h => installed_of_afterDeprovision h) rfl
      · rw [hres]
        rcases (exec_storageTransaction (e := e)
          { w with node := w.node.afterDeprovision wl.id err rest } wl.id.key
          (wl.workload.withResults (uninstallResult reason w.clock err))).cases with
          ⟨s, hv, hres, hrecord⟩ | ⟨_, hres, hmissing⟩
        · have hsame : World.recorded
              { w with node := w.node.afterDeprovision wl.id err rest, store := s } =
              w.recorded := recorded_transaction hrecord hv
          have hheader : (Storage.view s).header = w.view.header := by
            rw [hv]
            rfl
          rw [hres]
          dsimp only
          cases err with
          | some err =>
              rw [if_neg (by simp [uninstallResult])]
              exact .kept rfl hrecorded hdep rfl hsame hheader
          | none =>
              rw [if_pos (uninstallResult_state _ _)]
              exact remove_visit hrecorded hdep rfl hsame hheader rfl
        · -- what is recorded can be recorded again
          have hmissing : w.view.workload wl.id.key wl.workload.name = none := hmissing
          rw [← hname, hthere] at hmissing
          cases hmissing
    · rw [hcur]
      dsimp only
      split
      · exact .skipped rfl (by simp [World.recorded, hnone])
      · next hmissing =>
          exact .failed (fun h => absurd (hexists.mpr h) hmissing) rfl (fun _ h => h) rfl

/-! ## One deployment -/

/-- Some visit finds a record of the workload, and the manager deprovisions it. -/
def deprovisions (e : NativeEngine μ) (id : WorkloadID) :
    List WorkloadWithID → (WorkloadID → Bool) → Node μ → Bool
  | [], _, _ => false
  | wl :: wls, recorded, node =>
      if recorded wl.id then
        match e.provisioner.deprovision wl node with
        | (none, rest) =>
            wl.id = id || deprovisions e id wls (fun id' => id' ≠ wl.id && recorded id')
              (node.uninstall wl.id rest)
        | (some _, rest) => deprovisions e id wls recorded { node with rest := rest }
      else deprovisions e id wls recorded node

/-- The workload is installed, and no visit of these deprovisions it. -/
def Survives (e : NativeEngine μ) (id : WorkloadID) (wls : List WorkloadWithID)
    (w : World σ μ) : Prop :=
  w.node.installed id = true ∧ deprovisions e id wls w.recorded w.node = false

/-- A visit without an error. -/
theorem Visit.survives {wl : WorkloadWithID} {c c' : Calls} {w w' : World σ μ}
    (h : Visit e wl c w none c' w') (wls : List WorkloadWithID) (id : WorkloadID) :
    Survives e id wls w' ↔ Survives e id (wl :: wls) w := by
  unfold Survives
  cases h with
  | skipped _ hrecorded => simp [deprovisions, hrecorded]
  | removed _ hrecorded hdep hnode hafter _ =>
      rw [hnode, hafter]
      simp only [deprovisions, hrecorded, hdep, if_true, Node.uninstall]
      by_cases hid : id = wl.id
      · simp [hid]
      · have hid' : ¬ wl.id = id := fun h => hid h.symm
        simp [hid, hid']
  | kept _ hrecorded hdep hnode hafter _ =>
      rw [hnode, hafter]
      simp only [deprovisions, hrecorded, hdep, if_true]

/-- A visit takes no record of what is installed then, and no header. -/
theorem Visit.keeps {wl : WorkloadWithID} {c c' : Calls} {w w' : World σ μ}
    {ans : Option GoError} (h : Visit e wl c w ans c' w') :
    (∀ id, w'.node.installed id = true → w.node.installed id = true ∧
      (w.recorded id = true → w'.recorded id = true)) ∧
    w'.view.header = w.view.header := by
  cases h with
  | failed _ hrecorded hinstalled hheader =>
      exact ⟨fun id hid => ⟨hinstalled id hid, fun hrec => hrecorded ▸ hrec⟩, hheader⟩
  | skipped => exact ⟨fun id hid => ⟨hid, fun hrec => hrec⟩, rfl⟩
  | removed _ _ _ hnode hafter hheader =>
      refine ⟨fun id hid => ?_, hheader⟩
      rw [hnode] at hid
      simp only [Node.uninstall] at hid
      split at hid
      · cases hid
      · next hne => exact ⟨hid, fun hrec => by simp [hafter, hne, hrec]⟩
  | kept _ _ _ hnode hafter hheader =>
      rw [hnode]
      exact ⟨fun id hid => ⟨hid, fun hrec => hafter ▸ hrec⟩, hheader⟩

/-- Where the deployment is stored, a visit returns an error if and only if a call of it
failed. -/
theorem Visit.failed_iff {wl : WorkloadWithID} {c c' : Calls} {w w' : World σ μ}
    {ans : Option GoError} (h : Visit e wl c w ans c' w')
    (hstored : w.view.header wl.id.key ≠ none) :
    c'.failed = (c.failed || ans.isSome) := by
  cases h with
  | failed hfailed => simp [hfailed hstored]
  | skipped hcalls => simp [hcalls]
  | removed hcalls => simp [hcalls]
  | kept hcalls => simp [hcalls]

variable (e faults) in
/-- The call, whatever fails. -/
def uninstalls (dl : Deployment) (reason : String) (w : World σ μ) : Calls × World σ μ :=
  ((uninstallDeployment e dl reason).run (faulty e faults) (.start, w)).2

/-- The deployment is deleted. -/
def Dropped (dl : Deployment) (w w' : World σ μ) : Prop :=
  w.view.header dl.key ≠ none ∧ w'.view.header dl.key = none

/-- What the loop leaves. -/
structure Uninstalled (e : NativeEngine μ) (dl : Deployment) (w : World σ μ)
    (errors : Bool) (left : List WorkloadWithID) (t : Calls × World σ μ) : Prop where
  named : ∀ wl ∈ left, wl.id.key = dl.key ∧ wl.id.name = wl.workload.name
  header : t.2.view.header = w.view.header
  failed : w.view.header dl.key ≠ none → t.1.failed = errors
  installed : ∀ id, t.2.node.installed id = true → w.node.installed id = true ∧
    (w.recorded id = true → t.2.recorded id = true)
  survives : errors = false → ∀ id,
    Survives e id left t.2 ↔ Survives e id (inOrder dl e.order.reverse) w

/-- The loop over the workloads, from one visit to the next. -/
theorem uninstall_loop (faults : Faults) (dl : Deployment) (reason : String) (w : World σ μ) :
    let body (errors : Bool) (wl : WorkloadWithID) : EngineM Bool := do
      match ← uninstallWorkload wl reason with
      | some _ => pure true
      | none => pure errors
    let loop := (inOrder dl e.order.reverse).foldlM body false
    Uninstalled e dl w (loop.run (faulty e faults) (.start, w)).1 []
      (loop.run (faulty e faults) (.start, w)).2 := by
  intro body loop
  have hbody : ∀ errors wl left t, Uninstalled e dl w errors (wl :: left) t →
      Uninstalled e dl w ((body errors wl).run (faulty e faults) t).1 left
        ((body errors wl).run (faulty e faults) t).2 := by
    intro errors wl left t ht
    obtain ⟨c, t⟩ := t
    obtain ⟨hkey, hname⟩ := ht.named wl List.mem_cons_self
    have hvisit : Visit e wl c t ((uninstallWorkload wl reason).run (faulty e faults) (c, t)).1
        ((uninstallWorkload wl reason).run (faulty e faults) (c, t)).2.1
        ((uninstallWorkload wl reason).run (faulty e faults) (c, t)).2.2 :=
      uninstallWorkload_visit hname reason c t
    simp only [body, run_bind]
    generalize (uninstallWorkload wl reason).run (faulty e faults) (c, t) = res at *
    obtain ⟨ans, c', t'⟩ := res
    obtain ⟨hinstalled, hheader⟩ := hvisit.keeps
    have hnamed : ∀ wl ∈ left, wl.id.key = dl.key ∧ wl.id.name = wl.workload.name :=
      fun wl hwl => ht.named wl (List.mem_cons_of_mem _ hwl)
    have hfailed : w.view.header dl.key ≠ none → c'.failed = (errors || ans.isSome) := by
      intro hstored
      rw [hvisit.failed_iff, ht.failed hstored]
      rw [hkey, ht.header]
      exact hstored
    have hkept : ∀ id, t'.node.installed id = true → w.node.installed id = true ∧
        (w.recorded id = true → t'.recorded id = true) := by
      intro id hid
      obtain ⟨ht', hrecorded⟩ := hinstalled id hid
      obtain ⟨hw, hrecorded'⟩ := ht.installed id ht'
      exact ⟨hw, fun h => hrecorded (hrecorded' h)⟩
    cases ans with
    | some err =>
        exact ⟨hnamed, hheader.trans ht.header, by simpa using hfailed, hkept, nofun⟩
    | none =>
        refine ⟨hnamed, hheader.trans ht.header, by simpa using hfailed, hkept, ?_⟩
        intro herrors id
        exact (hvisit.survives left id).trans (ht.survives herrors id)
  refine run_foldlM (fun errors left t => Uninstalled e dl w errors left t) hbody ?_
  refine ⟨?_, rfl, fun _ => rfl, fun id h => ⟨h, fun h => h⟩, fun _ _ => Iff.rfl⟩
  intro wl hwl
  obtain ⟨_, _, _, rfl⟩ := mem_inOrder.mp hwl
  exact ⟨rfl, rfl⟩

/-- The end of the loop: without an error the deployment is deleted, or that fails. -/
theorem uninstalls_cases (faults : Faults) (dl : Deployment) (reason : String)
    (w : World σ μ) :
    (∃ errors, Uninstalled e dl w errors [] (uninstalls e faults dl reason w) ∧
      (w.view.header dl.key ≠ none → errors = true)) ∨
    ∃ t, Uninstalled e dl w false [] t ∧
      (uninstalls e faults dl reason w).1.failed = t.1.failed ∧
      (uninstalls e faults dl reason w).2.node = t.2.node ∧
      (uninstalls e faults dl reason w).2.view = t.2.view.delete dl.key := by
  have hloop := uninstall_loop (e := e) faults dl reason w
  rw [uninstalls, uninstallDeployment, run_bind]
  dsimp only at hloop ⊢
  generalize hres : Prog.run (faulty e faults) _ (Calls.start, w) = res at hloop ⊢
  obtain ⟨errors, c, t⟩ := res
  cases errors with
  | true => exact .inl ⟨true, hloop, fun _ => rfl⟩
  | false =>
      rw [if_neg (by simp), run_logged, run_perform]
      rcases faulty_cases (e := e) faults (.storageDelete dl.key) c t
        with ⟨_, ans, _, hans, hres⟩ | ⟨-, hres⟩
      · rw [hres]
        refine .inl ⟨true, ?_, fun _ => rfl⟩
        exact { hloop with failed := fun _ => rfl, survives := nofun }
      · rw [hres]
        rcases (exec_storageDelete (e := e) t dl.key).cases with
          ⟨s, hv, hres, -⟩ | ⟨_, hres, hmissing⟩
        · rw [hres]
          exact .inr ⟨(c, t), hloop, rfl, rfl, hv⟩
        · rw [hres]
          rw [hloop.header] at hmissing
          exact .inl ⟨false, { hloop with failed := hloop.failed },
            fun hstored => absurd hmissing hstored⟩

/-- The deployment is only deleted with nothing of it on the node, and what stays on
the node stays recorded. -/
structure AccountedFor (dl : Deployment) (w w' : World σ μ) : Prop where
  dropped : Dropped dl w w' →
    ∀ wl ∈ dl.workloads, w'.node.installed (dl.withID wl).id = false
  kept : ∀ wl ∈ dl.workloads, w'.node.installed (dl.withID wl).id = true →
    w'.view.header dl.key = w.view.header dl.key ∧
      (w.Records (dl.withID wl).id → w'.Records (dl.withID wl).id)

/-- What is deleted is down, unless the manager failed to take it down or the loop did
not find it. -/
theorem dropped_clean_iff (faults : Faults) (dl : Deployment) (reason : String)
    (w : World σ μ) :
    AccountedFor dl w (uninstalls e faults dl reason w).2 ↔
      (w.view.header dl.key ≠ none → (uninstalls e faults dl reason w).1.failed = false →
        ∀ wl ∈ dl.workloads, w.node.installed (dl.withID wl).id = true →
          deprovisions e (dl.withID wl).id (inOrder dl e.order.reverse) w.recorded
            w.node = true) := by
  rcases uninstalls_cases (e := e) faults dl reason w with
    ⟨errors, hend, herrors⟩ | ⟨t, hend, hcalls, hnode, hview⟩
  · -- the deployment stays as it is
    constructor
    · intro _ hstored hfailed
      rw [hend.failed hstored, herrors hstored] at hfailed
      cases hfailed
    · intro _
      constructor
      · intro hdropped
        rw [Dropped, hend.header] at hdropped
        exact absurd hdropped.2 hdropped.1
      · intro wl _ hinstalled
        refine ⟨by rw [hend.header], fun hrecords => ?_⟩
        exact World.recorded_iff.mp ((hend.installed _ hinstalled).2
          (World.recorded_iff.mpr hrecords))
  · have hgone : (uninstalls e faults dl reason w).2.view.header dl.key = none := by
      rw [hview, StoreView.delete_header, if_pos rfl]
    have hsurvives (id : WorkloadID) :
        (uninstalls e faults dl reason w).2.node.installed id = true ↔
          Survives e id (inOrder dl e.order.reverse) w := by
      rw [hnode, ← hend.survives rfl]
      simp [Survives, deprovisions]
    constructor
    · intro hkept hstored _ wl hwl hinstalled
      have hdown := hkept.dropped ⟨hstored, hgone⟩ wl hwl
      have hnot := (hsurvives (dl.withID wl).id).not.mp (by simp [hdown])
      simpa [Survives, hinstalled] using hnot
    · intro hdeprovisions
      have hdown : w.view.header dl.key ≠ none → ∀ wl ∈ dl.workloads,
          (uninstalls e faults dl reason w).2.node.installed (dl.withID wl).id = false := by
        intro hstored wl hwl
        by_contra hinstalled
        rw [Bool.not_eq_false, hsurvives] at hinstalled
        have hdone := hdeprovisions hstored (hcalls.trans (hend.failed hstored)) wl hwl
          hinstalled.1
        rw [hinstalled.2] at hdone
        cases hdone
      constructor
      · exact fun hdropped => hdown hdropped.1
      · intro wl hwl hinstalled
        have hmissing : w.view.header dl.key = none := by
          by_contra hstored
          rw [hdown hstored wl hwl] at hinstalled
          cases hinstalled
        refine ⟨by rw [hgone, hmissing], fun hrecords => ?_⟩
        exact absurd (World.workload_of_header_none hmissing _) hrecords

end

/-! ## A manager that fails -/

namespace DroppedRecords

open Reference

/-- A manager that cannot take a workload down. -/
def busy : Manager Unit :=
  { manager with deprovision := fun _ _ => (some (.text "device is busy"), ()) }

def busyEngine : NativeEngine Unit :=
  { engine with provisioner := mapProvisioner fun _ => some busy }

def stored : Deployment := deployment 0 1 [workload 0 "a" "d"]

/-- The workload of the deployment is installed. -/
def before : World MapStore Unit :=
  world (store [stored]) [(stored.withID (workload 0 "a" "d")).id] [] ⟨[], []⟩

end DroppedRecords

open DroppedRecords Reference in
/-- No call to the store fails, and the deployment is deleted with its workload still
on the node. -/
theorem busy_workload_dropped :
    let res := uninstalls busyEngine .none stored "cancelled" before
    res.1.failed = false ∧
      res.2.node.installed (stored.withID (workload 0 "a" "d")).id = true ∧
      res.2.view.header stored.key = none ∧ ¬ AccountedFor stored before res.2 := by
  intro res
  have hinstalled : res.2.node.installed (stored.withID (workload 0 "a" "d")).id = true := by
    decide +kernel
  have hgone : res.2.view.header stored.key = none := by decide +kernel
  refine ⟨by decide +kernel, hinstalled, hgone, fun h => ?_⟩
  have hdown := h.dropped ⟨by decide +kernel, hgone⟩ (workload 0 "a" "d") (by decide)
  rw [hinstalled] at hdown
  cases hdown

end Zos4.Provision
