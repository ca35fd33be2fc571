import Zos4.Proofs.RejectedUpdate
import Zos4.Provision.Faults

/-!
# Requests that return an error

`Provision` and `Update` write twice, to the deployment store and then to the queue of
jobs, and nothing takes the first write back. A request that fails before it has written
changes nothing. One whose write went through and whose job could not be queued leaves
the write: the deployment is stored and no job will install it.

That is the one way to go wrong, whichever calls fail. Nor can such a request be made
again: the deployment exists by then, or has the version the update is for.
-/

namespace Zos4.Provision

open Zos4.Interaction Prog

section

variable [Zosbase] {σ μ : Type} [Storage σ] {e : NativeEngine μ} {faults : Faults}

/-- If a request returns an error, store and queue are as they were. -/
def Atomic (w : World σ μ) (res : Option GoError × Calls × World σ μ) : Prop :=
  res.1 ≠ none → res.2.2.store = w.store ∧ res.2.2.queue = w.queue

omit [Storage σ] in
theorem atomic_unchanged (w : World σ μ) (ans : Option GoError) (c : Calls) :
    Atomic w (ans, c, w) :=
  fun _ => ⟨rfl, rfl⟩

/-- The second write, after the first. -/
theorem enqueue_atomic {w t : World σ μ} (hstore : t.store ≠ w.store) (c : Calls)
    (job : EngineJob) :
    Atomic w ((enqueue job).run (faulty e faults) (c, t)) ↔
      faults.fails c.made (.enqueue job) = none := by
  rw [run_perform]
  cases hfails : faults.fails c.made (.enqueue job) with
  | none =>
      rw [faulty_of_runs hfails]
      exact iff_of_true (fun h => absurd rfl h) rfl
  | some err =>
      rw [faulty_of_fails hfails rfl]
      refine iff_of_false (fun h => ?_) (by simp)
      exact hstore (h (by simp)).1

/-! ## Provision -/

/-- The deployment is created, and its job cannot be queued. -/
def ProvisionStranded (faults : Faults) (dl : Deployment) (w : World σ μ) : Prop :=
  dl.version = 0 ∧
    faults.fails 0 (.storageCreate dl) = none ∧
    (∃ s, Storage.create w.store w.clock dl = .ok s) ∧
    faults.fails 1 (.enqueue (.opProvision dl)) ≠ none

omit [Zosbase] in
theorem create_changes {s s' : σ} {now : Timestamp} {dl : Deployment}
    (h : Storage.create s now dl = .ok s') : s' ≠ s := by
  obtain ⟨hnone, hview⟩ := Storage.create_ok h
  rintro rfl
  rw [hview, StoreView.create_header, if_pos rfl] at hnone
  cases hnone

theorem provision_atomic_iff (faults : Faults) (dl : Deployment) (w : World σ μ) :
    Atomic w ((provision dl).run (faulty e faults) (.start, w)) ↔
      ¬ ProvisionStranded faults dl w := by
  unfold ProvisionStranded
  rw [provision]
  split
  · next hversion =>
      exact iff_of_true (atomic_unchanged w _ _) (fun h => hversion h.1)
  · next hversion =>
      rw [not_not] at hversion
      rw [run_bind, run_perform]
      cases hfails : faults.fails 0 (.storageCreate dl) with
      | some err =>
          rw [faulty_of_fails hfails rfl]
          exact iff_of_true (atomic_unchanged w _ _) (by simp)
      | none =>
          rw [faulty_of_runs hfails]
          cases hcreate : Storage.create w.store w.clock dl with
          | error err =>
              simp only [exec, hcreate, World.write]
              exact iff_of_true (atomic_unchanged w _ _) (by simp)
          | ok s =>
              simp only [exec, hcreate, World.write]
              refine (enqueue_atomic (create_changes hcreate) _ _).trans ?_
              simp [hversion, Calls.start, Calls.next]

/-! ## Update -/

/-- The update is accepted and its fields are written, and its job cannot be queued. -/
def UpdateStranded (e : NativeEngine μ) (faults : Faults) (u : Deployment)
    (w : World σ μ) : Prop :=
  ∃ deployment upgrades,
    faults.fails 0 (.storageGet u.key) = none ∧
    Storage.get w.store u.key = .ok deployment ∧
    Zosbase.upgrade deployment u = .ok upgrades ∧
    (∀ op ∈ upgrades, op.op = .opUpdate →
      e.provisioner.canUpdate op.wlID.workload.type = true) ∧
    faults.fails 1 (.storageUpdate u.key (updateFields deployment u)) = none ∧
    (∃ s, Storage.update w.store u.key (updateFields deployment u) = .ok s) ∧
    faults.fails 2 (.enqueue (.opUpdate u deployment)) ≠ none

/-- The fields of an accepted update have the next version among them. -/
theorem update_changes (hlaw : LawfulUpgrade) {s s' : σ} {deployment u : Deployment}
    {upgrades : List UpgradeOp} (hget : Storage.get s u.key = .ok deployment)
    (hupgrade : Zosbase.upgrade deployment u = .ok upgrades)
    (h : Storage.update s u.key (updateFields deployment u) = .ok s') : s' ≠ s := by
  obtain ⟨-, hview⟩ := Storage.update_ok h
  obtain ⟨-, hheader, hnodup, -⟩ := Storage.get_ok hget
  rintro rfl
  have hstored := congrArg (·.header u.key) hview
  simp only [StoreView.update_header, if_pos, hheader, Option.map_some,
    Option.some.injEq] at hstored
  have hversion : deployment.version = u.version := by
    rw [← updateFields_version (header deployment) deployment u, ← hstored]
    rfl
  rw [(hlaw _ _ _ hnodup hupgrade).version] at hversion
  exact succ_version_ne _ hversion.symm

/-- The two writes of an update that is accepted. -/
theorem write_atomic (hlaw : LawfulUpgrade) (faults : Faults) {u deployment : Deployment}
    {upgrades : List UpgradeOp} {w : World σ μ} {c : Calls}
    (hget : Storage.get w.store u.key = .ok deployment)
    (hupgrade : Zosbase.upgrade deployment u = .ok upgrades) :
    Atomic w ((do
        match ← storageUpdate u.key (updateFields deployment u) with
        | some err => pure (some (err.wrap "failed to update deployment data"))
        | none => enqueue (.opUpdate u deployment) : EngineM (Option GoError)).run
      (faulty e faults) (c, w)) ↔
      ¬ (faults.fails c.made (.storageUpdate u.key (updateFields deployment u)) = none ∧
        (∃ s, Storage.update w.store u.key (updateFields deployment u) = .ok s) ∧
        faults.fails (c.made + 1) (.enqueue (.opUpdate u deployment)) ≠ none) := by
  rw [run_bind, run_perform]
  cases hwrites : faults.fails c.made (.storageUpdate u.key (updateFields deployment u)) with
  | some err =>
      rw [faulty_of_fails hwrites rfl]
      exact iff_of_true (atomic_unchanged w _ _) (by simp)
  | none =>
      rw [faulty_of_runs hwrites]
      cases hupdate : Storage.update w.store u.key (updateFields deployment u) with
      | error err =>
          simp only [exec, hupdate, World.write]
          exact iff_of_true (atomic_unchanged w _ _) (by simp)
      | ok s =>
          simp only [exec, hupdate, World.write]
          refine (enqueue_atomic (update_changes hlaw hget hupgrade hupdate) _ _).trans ?_
          simp [Calls.next]

theorem update_atomic_iff (hlaw : LawfulUpgrade) (faults : Faults) (u : Deployment)
    (w : World σ μ) :
    Atomic w ((update e u).run (faulty e faults) (.start, w)) ↔
      ¬ UpdateStranded e faults u w := by
  unfold UpdateStranded
  rw [update, run_bind, run_perform]
  cases hgets : faults.fails 0 (.storageGet u.key) with
  | some err =>
      rw [faulty_of_fails hgets rfl]
      exact iff_of_true (atomic_unchanged w _ _) (by simp)
  | none =>
      rw [faulty_of_runs hgets]
      simp only [exec]
      cases hget : Storage.get w.store u.key with
      | error err => exact iff_of_true (atomic_unchanged w _ _) (by simp)
      | ok deployment =>
          dsimp only
          cases hupgrade : Zosbase.upgrade deployment u with
          | error err =>
              exact iff_of_true (atomic_unchanged w _ _) (by simp [hupgrade])
          | ok upgrades =>
              dsimp only
              cases hfind : upgrades.find? fun op => op.op == .opUpdate &&
                  !e.provisioner.canUpdate op.wlID.workload.type with
              | some op =>
                  -- some workload cannot be updated
                  have hrefused := List.find?_some hfind
                  have hmem := List.mem_of_find?_eq_some hfind
                  simp only [Bool.and_eq_true, beq_iff_eq, Bool.not_eq_true'] at hrefused
                  refine iff_of_true (atomic_unchanged w _ _) ?_
                  rintro ⟨_, _, -, hread, hops, hupdates, -⟩
                  obtain rfl := Except.ok.inj hread
                  rw [hupgrade] at hops
                  obtain rfl := Except.ok.inj hops
                  rw [hupdates op hmem hrefused.1] at hrefused
                  exact absurd hrefused.2 (by simp)
              | none =>
                  have hupdates : ∀ op ∈ upgrades, op.op = .opUpdate →
                      e.provisioner.canUpdate op.wlID.workload.type = true := by
                    simpa using hfind
                  have hwrite :=
                    write_atomic (e := e) (c := Calls.start.next) hlaw faults hget hupgrade
                  refine hwrite.trans (not_congr ?_)
                  constructor
                  · exact fun h => ⟨_, _, trivial, rfl, hupgrade, hupdates, h⟩
                  · rintro ⟨_, _, -, hread, -, -, h⟩
                    obtain rfl := Except.ok.inj hread
                    exact h

/-- A request that returns an error leaves store and queue alone, unless it is the
queue that failed, after the store was written. -/
theorem requests_atomic_iff (hlaw : LawfulUpgrade) (faults : Faults) (dl : Deployment)
    (w : World σ μ) :
    (Atomic w ((provision dl).run (faulty e faults) (.start, w)) ↔
      ¬ ProvisionStranded faults dl w) ∧
    (Atomic w ((update e dl).run (faulty e faults) (.start, w)) ↔
      ¬ UpdateStranded e faults dl w) :=
  ⟨provision_atomic_iff faults dl w, update_atomic_iff hlaw faults dl w⟩

/-! ## Making the request again -/

/-- A created deployment cannot be created, even if nothing fails any more. -/
theorem stranded_provision_refused {faults : Faults} {dl : Deployment} {w : World σ μ}
    (h : ProvisionStranded faults dl w) :
    ((provision dl).run (exec e)
      ((provision dl).run (faulty e faults) (.start, w)).2.2).1 ≠ none := by
  obtain ⟨hversion, hcreates, ⟨s, hcreate⟩, hqueues⟩ := h
  obtain ⟨err, hqueues⟩ := Option.ne_none_iff_exists'.mp hqueues
  have hstranded : ((provision dl).run (faulty e faults) (.start, w)).2.2 =
      { w with store := s } := by
    rw [provision, if_neg (not_not.mpr hversion), run_bind, run_perform,
      faulty_of_runs hcreates]
    simp only [exec, hcreate, World.write]
    rw [run_perform, faulty_of_fails hqueues rfl]
  rw [hstranded, provision, if_neg (not_not.mpr hversion), run_bind, run_perform]
  simp only [exec]
  cases hagain : Storage.create s w.clock dl with
  | error err => simp [World.write]
  | ok s' =>
      obtain ⟨-, hview⟩ := Storage.create_ok hcreate
      obtain ⟨hnone, -⟩ := Storage.create_ok hagain
      rw [hview, StoreView.create_header, if_pos rfl] at hnone
      cases hnone

/-- An update whose fields are written is not an update to the next version. -/
theorem stranded_update_refused (hlaw : LawfulUpgrade) {faults : Faults} {u : Deployment}
    {w : World σ μ} (h : UpdateStranded e faults u w) :
    ((update e u).run (exec e)
      ((update e u).run (faulty e faults) (.start, w)).2.2).1 ≠ none := by
  obtain ⟨deployment, upgrades, hgets, hget, hupgrade, hupdates, hwrites, ⟨s, hupdate⟩,
    hqueues⟩ := h
  obtain ⟨err, hqueues⟩ := Option.ne_none_iff_exists'.mp hqueues
  have hfind : (upgrades.find? fun op => op.op == .opUpdate &&
      !e.provisioner.canUpdate op.wlID.workload.type) = none := by
    simpa using hupdates
  have hstranded : ((update e u).run (faulty e faults) (.start, w)).2.2 =
      { w with store := s } := by
    rw [update, run_bind, run_perform, faulty_of_runs hgets]
    simp only [exec, hget, hupgrade, hfind]
    rw [run_bind, run_perform, faulty_of_runs hwrites]
    simp only [exec, hupdate, World.write]
    rw [run_perform, faulty_of_fails hqueues rfl]
  obtain ⟨-, hview⟩ := Storage.update_ok hupdate
  obtain ⟨-, hheader, -, -⟩ := Storage.get_ok hget
  rw [hstranded, update, run_bind, run_perform]
  simp only [exec]
  cases hagain : Storage.get s u.key with
  | error err => simp
  | ok deployment' =>
      dsimp only
      cases hupgrade' : Zosbase.upgrade deployment' u with
      | error err => simp
      | ok upgrades' =>
          obtain ⟨-, hheader', hnodup', -⟩ := Storage.get_ok hagain
          rw [hview, StoreView.update_header, if_pos rfl, hheader, Option.map_some,
            Option.some.injEq] at hheader'
          have hversion : u.version = deployment'.version := by
            rw [← updateFields_version (header deployment) deployment u, hheader']
            rfl
          rw [(hlaw _ _ _ hnodup' hupgrade').version] at hversion
          exact absurd hversion (succ_version_ne _)

end

/-! ## A queue that is out of space -/

namespace FailedRequests

open Reference

/-- The queue cannot take the job. -/
def noSpace : Faults where
  fails
    | 1, .enqueue _ => some (.text "no space left on device")
    | _, _ => none
  tells := by
    intro n key name err h
    split at h
    · next hop => cases hop
    · cases h

def requested : Deployment := deployment 0 1 [workload 0 "a" "d"]

def before : World MapStore Unit := world (store []) [] [] ⟨[], []⟩

end FailedRequests

open FailedRequests Reference in
theorem requests_atomic_iff_noSpace :
    (Atomic before ((provision requested).run (faulty engine noSpace) (.start, before)) ↔
      ¬ ProvisionStranded noSpace requested before) ∧
    (Atomic before ((update engine requested).run (faulty engine noSpace) (.start, before)) ↔
      ¬ UpdateStranded engine noSpace requested before) :=
  requests_atomic_iff lawful_upgrade noSpace requested before

open FailedRequests Reference in
/-- The request returns an error, and the deployment is stored without a job. -/
theorem request_half_done :
    let res := (provision requested).run (faulty engine noSpace) (.start, before)
    res.1 ≠ none ∧ res.2.2.queue = [] ∧
      (res.2.2.view.header requested.key).isSome = true ∧ ¬ Atomic before res := by
  intro res
  have hfailed : res.1 ≠ none := by decide +kernel
  have hstored : (res.2.2.view.header requested.key).isSome = true := by decide +kernel
  refine ⟨hfailed, by decide +kernel, hstored, fun h => ?_⟩
  have hbefore : (before.view.header requested.key).isSome = false := by decide +kernel
  rw [World.view, (h hfailed).1] at hstored
  rw [World.view] at hbefore
  rw [hbefore] at hstored
  cases hstored

end Zos4.Provision
