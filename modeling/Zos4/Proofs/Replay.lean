import Zos4.Proofs.Reboot
import Zos4.Provision.Tasks

/-!
# A job that is processed twice

The worker takes a job off the queue when it is done with it. If the engine process
dies before that, the job is still there at the next start and is processed again,
on top of what it had done so far. A job is a list of tasks, each of which settles
one slot and can settle it again, and tasks of the same slot absorb each other, so
the second time comes to what the first would have come to, wherever it was cut
short. The one exception is `Gap`: a workload that was installed without its result
being recorded is found installed the second time, and `installWorkload` then
records nothing.
-/

namespace Zos4.Provision

open Zos4.Interaction Prog

/-- The task of an update's operation. -/
def Task.ofOp (op : UpgradeOp) : Task :=
  match op.op with
  | .opRemove => .uninstall op.wlID "deleted by an update"
  | .opAdd => .install op.wlID
  | .opUpdate => .update op.wlID

theorem Task.ofOp_wl (op : UpgradeOp) : (Task.ofOp op).wl = op.wlID := by
  rw [Task.ofOp]
  cases op.op <;> rfl

section

variable [Zosbase] [GoRuntime] {σ μ : Type} [Storage σ] {e : NativeEngine μ}
  {m : Manner}

/-! ## The tasks of a job -/

def EngineJob.tasks (e : NativeEngine μ) : EngineJob → List Task
  | .opProvision target | .opProvisionNoValidation target =>
      (e.order.flatMap (installOrder target)).map .install
  | .opDeprovision target message =>
      (inOrder target e.order.reverse).map (.uninstall · message)
  | .opPause target => (inOrder target e.order.reverse).map (.setLock true)
  | .opResume target => (inOrder target e.order).map (.setLock false)
  | .opUpdate target source =>
      match Zosbase.upgrade source target with
      | .error _ => []
      | .ok ops => (sortOperations e ops).map Task.ofOp

omit [GoRuntime] in
theorem forM_tasks {α : Type} (task : α → Task) {l : List α}
    {body : α → EngineM (Option GoError)} (h : ∀ x, body x = (task x).prog e) :
    (l.forM fun x => logged (body x)) =
      (l.map task).forM fun t => logged (t.prog e) := by
  induction l with
  | nil => rfl
  | cons x xs ih =>
      show (logged (body x) >>= fun _ => xs.forM fun x => logged (body x)) =
        (logged ((task x).prog e) >>= fun _ =>
          (xs.map task).forM fun t => logged (t.prog e))
      rw [ih, h]

omit [GoRuntime] in
theorem applyOperation_eq (op : UpgradeOp) : applyOperation e op = (Task.ofOp op).prog e := by
  rw [applyOperation, Task.ofOp]
  cases op.op <;> rfl

/-- All jobs but one are a loop over their tasks. -/
theorem body_eq {job : EngineJob} (hjob : job.removes = false) :
    job.body e = (job.tasks e).forM fun t => logged (t.prog e) := by
  cases job with
  | opProvision target | opProvisionNoValidation target =>
      exact forM_tasks .install fun _ => rfl
  | opPause target | opResume target => exact forM_tasks (.setLock _) fun _ => rfl
  | opDeprovision target message => cases hjob
  | opUpdate target source =>
      rw [EngineJob.body, EngineJob.tasks]
      cases Zosbase.upgrade source target with
      | error err => rfl
      | ok ops => exact forM_tasks Task.ofOp applyOperation_eq

theorem tasks_wl (job : EngineJob) : (job.tasks e).map Task.wl = job.items e := by
  cases job with
  | opProvision target | opProvisionNoValidation target
  | opPause target | opResume target | opDeprovision target message =>
      rw [EngineJob.tasks, EngineJob.items, List.map_map]
      exact List.map_id _
  | opUpdate target source =>
      rw [EngineJob.tasks, EngineJob.items]
      cases Zosbase.upgrade source target with
      | error err => rfl
      | ok ops =>
          dsimp only
          rw [List.map_map]
          exact List.map_congr_left fun op _ => Task.ofOp_wl op

/-- A job as a request or a start of the engine queues it. -/
def Enqueued (job : EngineJob) : Prop :=
  (∃ req : Request, req.Queues job) ∨ ∃ dl, job = .opProvisionNoValidation dl

omit [GoRuntime] in
theorem Enqueued.updatesAccepted {job : EngineJob} (h : Enqueued job) :
    UpdatesAccepted job := by
  rcases h with ⟨req, hreq⟩ | ⟨dl, rfl⟩
  · exact Request.updatesAccepted hreq
  · rintro target source h
    cases h

omit [GoRuntime] in
/-- A lock job is about a deployment as it was stored. -/
theorem Enqueued.nodup (lock : Bool) {target : Deployment}
    (h : Enqueued (lockJob lock target)) : target.names.Nodup := by
  rcases h with ⟨req, hreq⟩ | ⟨dl, hjob⟩
  · cases req with
    | pause twin id | resume twin id =>
        obtain ⟨dl, hsnap, hjob⟩ := hreq
        cases lock <;> cases hjob
        exact hsnap.nodup
    | deprovision twin id reason =>
        obtain ⟨dl, _, hjob⟩ := hreq
        cases lock <;> cases hjob
    | provision dl => cases lock <;> cases hreq.2
    | update u =>
        obtain ⟨_, _, _, _, hjob⟩ := hreq
        cases lock <;> cases hjob
    | createOrUpdate twin dl isUpdate =>
        cases isUpdate with
        | false => cases lock <;> cases hreq.2.2
        | true =>
            obtain ⟨_, _, _, _, _, hjob⟩ := hreq
            cases lock <;> cases hjob
    | decommissionCached id reason => cases hreq
  · cases lock <;> cases hjob

/-- A workload is named by one slot of the deployment. -/
theorem tasks_named (hlaw : LawfulUpgrade) {job : EngineJob} (hjob : Enqueued job)
    {t : Task} (ht : t ∈ job.tasks e) :
    t.id.key = job.target.key ∧ t.id.name = t.wl.workload.name := by
  refine EngineJob.mem_items (e := e) hlaw hjob.updatesAccepted ?_
  rw [← tasks_wl]
  exact List.mem_map_of_mem ht

omit [Zosbase] [GoRuntime] in
/-- Workloads of one id are one workload. -/
theorem withID_inj {dl : Deployment} (hnodup : dl.names.Nodup) {wl wl' : Workload}
    (hwl : wl ∈ dl.workloads) (hwl' : wl' ∈ dl.workloads)
    (hid : (dl.withID wl).id = (dl.withID wl').id) : wl = wl' :=
  List.inj_on_of_nodup_map hnodup hwl hwl' (congrArg WorkloadID.name hid)

theorem tasks_absorb (hlaw : LawfulUpgrade) {job : EngineJob} (hjob : Enqueued job) :
    Absorbing Task.id (Task.settle e m) (job.tasks e) := by
  have hlock : ∀ (lock : Bool) (dl : Deployment) (types : List WorkloadType),
      dl.names.Nodup → Absorbing Task.id (Task.settle e m)
        ((inOrder dl types).map (.setLock lock)) := by
    intro lock dl types hnodup
    refine absorbing_of_inj ?_ fun t _ => settle_twice t
    simp only [List.mem_map, mem_inOrder]
    rintro _ ⟨_, ⟨wl, hwl, _, rfl⟩, rfl⟩ _ ⟨_, ⟨wl', hwl', _, rfl⟩, rfl⟩ hid
    rw [withID_inj hnodup hwl hwl' hid]
  cases job with
  | opProvision target | opProvisionNoValidation target =>
      simp only [Absorbing, EngineJob.tasks, List.mem_map]
      rintro _ ⟨wl, _, rfl⟩ _ ⟨wl', _, rfl⟩ _ x
      exact install_absorbs wl wl' x
  | opDeprovision target message =>
      simp only [Absorbing, EngineJob.tasks, List.mem_map]
      rintro _ ⟨wl, _, rfl⟩ _ ⟨wl', _, rfl⟩ _ x
      exact uninstall_absorbs wl wl' message message x
  | opPause target =>
      exact hlock true target _ (Enqueued.nodup true hjob)
  | opResume target =>
      exact hlock false target _ (Enqueued.nodup false hjob)
  | opUpdate target source =>
      obtain ⟨_, ops, hsnap, hup, hsame⟩ := hjob.updatesAccepted target source rfl
      obtain ⟨_, rfl⟩ := EngineJob.opUpdate.inj hsame
      simp only [EngineJob.tasks, hup]
      refine absorbing_of_inj ?_ fun t _ => settle_twice t
      simp only [List.mem_map]
      rintro _ ⟨op, hop, rfl⟩ _ ⟨op', hop', rfl⟩ hid
      have hperm := List.perm_insertionSort (fun a b => opMap e a ≤ opMap e b) ops
      have hname : op.wlID.id.name = op'.wlID.id.name := by
        rw [Task.id, Task.id, Task.ofOp_wl, Task.ofOp_wl] at hid
        exact congrArg WorkloadID.name hid
      rw [List.inj_on_of_nodup_map (hlaw source target ops hsnap.nodup hup).nodup
        (hperm.mem_iff.mp hop) (hperm.mem_iff.mp hop') hname]

/-! ## What a job comes to -/

/-- What a job's tasks make of the slots. -/
def EngineJob.settled (e : NativeEngine μ) (m : Manner) (job : EngineJob)
    (x : WorkloadID → Slot) : WorkloadID → Slot :=
  Interaction.settled Task.id (Task.settle e m) (job.tasks e) x

/-- A deployment's slots once it has been deleted. -/
def wiped (key : DeploymentKey) (x : WorkloadID → Slot) (id : WorkloadID) : Slot :=
  if id.key = key then { x id with stored := false, record := none } else x id

/-- What a job makes of the slots. -/
def EngineJob.outcome (e : NativeEngine μ) (m : Manner) (job : EngineJob)
    (x : WorkloadID → Slot) : WorkloadID → Slot :=
  if job.removes then wiped job.target.key (job.settled e m x) else job.settled e m x

/-- The state is one the job's tasks settle as they would have settled `w`. -/
structure Midway (e : NativeEngine μ) (m : Manner) (job : EngineJob) (w : World σ μ)
    (last : Last engineSig (World σ μ)) (s : World σ μ) : Prop where
  same : ¬ Gap m last → job.settled e m s.slots = job.settled e m w.slots
  gap : Gap m last → ∃ t ∈ job.tasks e,
    (job.settled e m s.slots t.id).record ≠ (job.settled e m w.slots t.id).record

/-- The tasks done so far and the ones left. -/
def Reached (e : NativeEngine μ) (m : Manner) (job : EngineJob) (w : World σ μ)
    (rest : List Task) (s : World σ μ) : Prop :=
  ∃ tasks, job.tasks e = tasks ++ rest ∧
    s.slots = Interaction.settled Task.id (Task.settle e m) tasks w.slots

section

variable {job : EngineJob} {w s s' : World σ μ} {last : Last engineSig (World σ μ)}
  {t : Task} {rest : List Task}

theorem Reached.start : Reached e m job w (job.tasks e) w :=
  ⟨[], rfl, rfl⟩

theorem Reached.settled (habsorb : Absorbing Task.id (Task.settle e m) (job.tasks e))
    (h : Reached e m job w rest s) :
    job.settled e m s.slots = job.settled e m w.slots := by
  obtain ⟨tasks, hsplit, hslots⟩ := h
  rw [hsplit] at habsorb
  rw [EngineJob.settled, EngineJob.settled, hsplit, hslots]
  exact settled_settled habsorb w.slots

theorem Reached.done (habsorb : Absorbing Task.id (Task.settle e m) (job.tasks e))
    (h : Reached e m job w (t :: rest) s) (hdone : Done e m t s s') :
    Reached e m job w rest s' := by
  obtain ⟨tasks, hsplit, hslots⟩ := h
  have hsplit' : job.tasks e = (tasks ++ [t]) ++ rest := by
    rw [hsplit, List.append_assoc, List.singleton_append]
  refine ⟨tasks ++ [t], hsplit', ?_⟩
  rw [settled_snoc, ← hslots]
  · exact hdone
  · refine habsorb.subset ?_
    rw [hsplit']
    exact List.subset_append_left _ _

/-- No job goes on from the gap. -/
theorem Midway.not_gap (habsorb : Absorbing Task.id (Task.settle e m) (job.tasks e))
    (hmidway : Midway e m job w last s) (h : Reached e m job w rest s) :
    ¬ Gap m last := by
  intro hgap
  obtain ⟨t, _, hne⟩ := hmidway.gap hgap
  rw [h.settled habsorb] at hne
  exact hne rfl

theorem Reached.midway (habsorb : Absorbing Task.id (Task.settle e m) (job.tasks e))
    (h : Reached e m job w rest s) (hgap : ¬ Gap m last) : Midway e m job w last s :=
  ⟨fun _ => h.settled habsorb, fun h => absurd h hgap⟩

/-- Between the calls of a task. -/
theorem Reached.passes (habsorb : Absorbing Task.id (Task.settle e m) (job.tasks e))
    (h : Reached e m job w (t :: rest) s) (hpasses : Passes e m t s last s') :
    Midway e m job w last s' := by
  obtain ⟨tasks, hsplit, hslots⟩ := h
  obtain ⟨y, hy, hfixed, hsettle, hgap⟩ := hpasses
  rw [hsplit] at habsorb
  have hslot := congrFun hslots t.id
  rw [hslot] at hfixed hsettle hgap
  obtain ⟨hagain, hlast⟩ := settled_again habsorb w.slots hfixed
  have hthere : t ∈ job.tasks e := by
    rw [hsplit]
    exact List.mem_append_right _ List.mem_cons_self
  have hnow : job.settled e m s'.slots =
      Function.update (job.settled e m w.slots) t.id (t.settle e m y) := by
    rw [EngineJob.settled, EngineJob.settled, hsplit, hy, hslots, hagain]
  have hthen : job.settled e m w.slots t.id = t.settle e m
      (Interaction.settled Task.id (Task.settle e m) tasks w.slots t.id) := by
    rw [EngineJob.settled, hsplit, hlast]
  constructor
  · intro hnot
    rw [hnow, hsettle hnot, ← hthen, Function.update_eq_self]
  · refine fun h => ⟨t, hthere, ?_⟩
    rw [hnow, Function.update_self, hthen]
    exact hgap h

/-- What can be said at every call of a job, before it is taken off the queue. -/
structure Resumes (e : NativeEngine μ) (m : Manner) (job : EngineJob) (w : World σ μ)
    (last : Last engineSig (World σ μ)) (s : World σ μ) : Prop where
  same : ¬ Gap m last → job.outcome e m s.slots = job.outcome e m w.slots
  gap : Gap m last → ∃ id,
    (job.outcome e m s.slots id).record ≠ (job.outcome e m w.slots id).record

theorem tasks_along (hs : Steady e m)
    (habsorb : Absorbing Task.id (Task.settle e m) (job.tasks e))
    (hnamed : ∀ t ∈ job.tasks e, t.id.name = t.wl.workload.name)
    (hgap : ¬ Gap m last) :
    ((job.tasks e).forM fun t => logged (t.prog e)).Along (exec e) (Midway e m job w)
      (fun _ => Reached e m job w []) last w := by
  refine along_forM (fun rest => Reached e m job w rest) ?_
    (Reached.start.midway habsorb hgap) .start
  intro t rest last s hmidway hreached
  have ht : t ∈ job.tasks e := by
    obtain ⟨tasks, hsplit, _⟩ := hreached
    rw [hsplit]
    exact List.mem_append_right _ List.mem_cons_self
  have htask := (task_along hs t (hnamed t ht) (hmidway.not_gap habsorb hreached)).mono
    (fun _ _ h => hreached.passes habsorb h) (fun _ _ h => hreached.done habsorb h)
  exact htask.bind fun _ _ _ hmidway hreached => along_pure.mpr ⟨hmidway, hreached⟩

/-- A job that deletes nothing. -/
theorem body_along_keeps (hs : Steady e m) (hjob : job.removes = false)
    (habsorb : Absorbing Task.id (Task.settle e m) (job.tasks e))
    (hnamed : ∀ t ∈ job.tasks e, t.id.name = t.wl.workload.name)
    (hgap : ¬ Gap m last) :
    (job.body e).Along (exec e) (Resumes e m job w)
      (fun _ s => s.slots = job.outcome e m w.slots) last w := by
  have hout : ∀ x, job.outcome e m x = job.settled e m x := by
    intro x
    rw [EngineJob.outcome, hjob]
    rfl
  rw [body_eq hjob]
  refine (tasks_along hs habsorb hnamed hgap).mono (fun last s h => ?_) (fun _ s h => ?_)
  · constructor
    · rw [hout, hout]
      exact h.same
    · intro hgap
      obtain ⟨t, _, hne⟩ := h.gap hgap
      rw [hout, hout]
      exact ⟨t.id, hne⟩
  · obtain ⟨tasks, hsplit, hslots⟩ := h
    rw [hout, EngineJob.settled, hsplit, List.append_nil]
    exact hslots

/-! ## The job that deletes the deployment -/

omit [GoRuntime] in
theorem record_of_not_stored {id : WorkloadID} (h : (w.slots id).stored = false) :
    (w.slots id).record = none := by
  have hheader : w.view.header id.key = none := by
    simpa [World.slots] using h
  exact record_eq_none.mpr (World.workload_of_header_none hheader id.name)

omit [GoRuntime] in
theorem wiped_of_not_stored {key : DeploymentKey}
    (h : ∀ id, id.key = key → (s.slots id).stored = false) :
    wiped key s.slots = s.slots := by
  funext id
  rw [wiped]
  split
  · next hkey => exact Slot.ext (h id hkey).symm (record_of_not_stored (h id hkey)).symm rfl
  · rfl

omit [GoRuntime] in
/-- Deleting a deployment that is not stored does nothing, as it should. -/
theorem delete_slots (key : DeploymentKey) :
    (exec e (.storageDelete key) w).2.slots = wiped key w.slots := by
  rcases (exec_storageDelete (e := e) w key).cases with
    ⟨s, hv, hres, _⟩ | ⟨_, hres, hno⟩
  · rw [hres]
    funext id
    rw [wiped, World.slots, World.slots, World.view_mk, hv, StoreView.delete_header,
      StoreView.delete_workload]
    split
    · rfl
    · rfl
  · rw [hres]
    refine (wiped_of_not_stored fun id hkey => ?_).symm
    rw [World.slots, hkey, hno]
    rfl

omit [Zosbase] [GoRuntime] in
theorem settled_stored (tasks : List Task) (x : WorkloadID → Slot) (id : WorkloadID) :
    (Interaction.settled Task.id (Task.settle e m) tasks x id).stored = (x id).stored := by
  rw [Interaction.settled]
  split
  · rfl
  · exact settle_stored _ _

omit [Zosbase] [GoRuntime] in
theorem settle_uninstall_record {x : Slot} (wl : WorkloadWithID) (reason : String) :
    ((Task.uninstall wl reason).settle e m x).record = none := by
  rw [Task.settle]
  split
  · next h => exact h
  · rfl

theorem mem_uninstalls (hjob : job.removes = true) (ht : t ∈ job.tasks e) :
    ∃ wl reason, t = .uninstall wl reason := by
  cases job with
  | opDeprovision target message =>
      obtain ⟨wl, _, rfl⟩ := List.mem_map.mp ht
      exact ⟨wl, message, rfl⟩
  | _ => cases hjob

/-- Nothing stays recorded of what the job names. -/
theorem uninstalled_record (hjob : job.removes = true) (ht : t ∈ job.tasks e)
    (x : WorkloadID → Slot) : (job.settled e m x t.id).record = none := by
  rw [EngineJob.settled, Interaction.settled]
  split
  · next hnone =>
      have hnot := List.find?_eq_none.mp hnone t ht
      exact absurd (decide_eq_true rfl) hnot
  · next t' hfind =>
      obtain ⟨wl, reason, rfl⟩ := mem_uninstalls hjob (List.mem_of_find?_eq_some hfind)
      exact settle_uninstall_record wl reason

/-- There is nothing left to uninstall of a deployment that has been deleted. -/
theorem outcome_again (hjob : job.removes = true)
    (habsorb : Absorbing Task.id (Task.settle e m) (job.tasks e))
    (x : WorkloadID → Slot) :
    job.outcome e m (wiped job.target.key (job.settled e m x)) =
      wiped job.target.key (job.settled e m x) := by
  rw [EngineJob.outcome, if_pos hjob]
  funext id
  by_cases hkey : id.key = job.target.key
  · rw [wiped, wiped, if_pos hkey, if_pos hkey]
    have hnothing : job.settled e m (wiped job.target.key (job.settled e m x)) id =
        wiped job.target.key (job.settled e m x) id := by
      rw [EngineJob.settled, Interaction.settled]
      split
      · rfl
      · next t hfind =>
          obtain ⟨wl, reason, rfl⟩ :=
            mem_uninstalls hjob (List.mem_of_find?_eq_some hfind)
          rw [Task.settle, wiped, if_pos hkey]
    rw [hnothing, wiped, if_pos hkey]
  · rw [wiped, wiped, if_neg hkey, if_neg hkey]
    have hagain : job.settled e m (job.settled e m x) = job.settled e m x :=
      settled_twice habsorb x
    conv_rhs => rw [← hagain]
    refine settled_congr ?_
    rw [wiped, if_neg hkey]

theorem Midway.resumes (hjob : job.removes = true) (h : Midway e m job w last s) :
    Resumes e m job w last s := by
  have hgap : ¬ Gap m last := by
    intro hgap
    obtain ⟨t, ht, hne⟩ := h.gap hgap
    rw [uninstalled_record hjob ht, uninstalled_record hjob ht] at hne
    exact hne rfl
  refine ⟨fun _ => ?_, fun h => absurd h hgap⟩
  rw [EngineJob.outcome, EngineJob.outcome, h.same hgap]

/-- The loop of the job, and what it means that there were errors. -/
theorem uninstalls_along (hs : Steady e m) {target : Deployment} {message : String}
    (habsorb : Absorbing Task.id (Task.settle e m)
      ((EngineJob.opDeprovision target message).tasks e)) (hgap : ¬ Gap m last) :
    ((inOrder target e.order.reverse).foldlM (fun errors wl => do
      match ← uninstallWorkload wl message with
      | some _ => pure true
      | none => pure errors : Bool → WorkloadWithID → EngineM Bool) false).Along (exec e)
      (Midway e m (.opDeprovision target message) w)
      (fun errors s => Reached e m (.opDeprovision target message) w [] s ∧
        (errors = true → w.view.header target.key = none)) last w := by
  refine along_foldlM (fun errors wls s =>
    Reached e m (.opDeprovision target message) w (wls.map (.uninstall · message)) s ∧
      (errors = true → w.view.header target.key = none)) ?_
    (Reached.start.midway habsorb hgap) ⟨.start, fun h => nomatch h⟩
  rintro errors wl wls last s hmidway ⟨hreached, herrors⟩
  obtain ⟨tasks, hsplit, hslots⟩ := id hreached
  have hwl : wl.id.key = target.key ∧ wl.id.name = wl.workload.name := by
    have ht : Task.uninstall wl message ∈
        (inOrder target e.order.reverse).map (.uninstall · message) := by
      rw [show (inOrder target e.order.reverse).map _ = _ from hsplit]
      simp
    obtain ⟨wl', hmem, heq⟩ := List.mem_map.mp ht
    obtain ⟨rfl, _⟩ := Task.uninstall.inj heq
    obtain ⟨_, _, _, rfl⟩ := mem_inOrder.mp hmem
    exact ⟨rfl, rfl⟩
  have hstored : (s.slots wl.id).stored = true ↔ w.view.header target.key ≠ none := by
    rw [hslots, settled_stored, stored_iff, hwl.1]
  have htask := (uninstallWorkload_along hs message hwl.2
    (hmidway.not_gap habsorb hreached)).mono
    (fun _ _ h => hreached.passes habsorb h)
    (fun _ _ h => And.intro (hreached.done habsorb h.1) (h.2.trans hstored))
  refine htask.bind ?_
  rintro (_ | err) last s hmidway ⟨hreached, herr⟩
  · exact along_pure.mpr ⟨hmidway, hreached, herrors⟩
  · refine along_pure.mpr ⟨hmidway, hreached, fun _ => ?_⟩
    by_contra hheader
    exact nomatch herr.mpr hheader

theorem body_along_removes (hs : Steady e m) (hjob : job.removes = true)
    (habsorb : Absorbing Task.id (Task.settle e m) (job.tasks e))
    (hgap : ¬ Gap m last) :
    (job.body e).Along (exec e) (Resumes e m job w)
      (fun _ s => s.slots = job.outcome e m w.slots) last w := by
  cases job with
  | opDeprovision target message =>
      rw [EngineJob.body, uninstallDeployment]
      refine ((uninstalls_along hs habsorb hgap).mono (fun _ _ h => h.resumes hjob)
        fun _ _ h => h).bind ?_
      rintro errors last s hresumes ⟨⟨tasks, hsplit, hslots⟩, herrors⟩
      rw [List.append_nil] at hsplit
      have hsettled : s.slots =
          (EngineJob.opDeprovision target message).settled e m w.slots := by
        rw [hslots, EngineJob.settled, hsplit]
      split
      · next herr =>
          refine along_pure.mpr ⟨hresumes, ?_⟩
          rw [EngineJob.outcome, if_pos hjob, ← hsettled]
          refine (wiped_of_not_stored fun id hkey => ?_).symm
          rw [hslots, settled_stored, World.slots, hkey]
          exact congrArg Option.isSome (herrors herr)
      · next herr =>
          rw [logged, along_perform_bind, along_pure]
          have hout : (exec e (.storageDelete target.key) s).2.slots =
              (EngineJob.opDeprovision target message).outcome e m w.slots := by
            rw [delete_slots, hsettled]
            rfl
          refine ⟨hresumes, ⟨fun _ => ?_, fun h => absurd h id⟩, hout⟩
          rw [hout]
          exact outcome_again rfl habsorb w.slots
  | _ => cases hjob

/-! ## The worker's iteration -/

theorem body_along (hlaw : LawfulUpgrade) (hs : Steady e m) (hjob : Enqueued job)
    (hgap : ¬ Gap m last) :
    (job.body e).Along (exec e) (Resumes e m job w)
      (fun _ s => s.slots = job.outcome e m w.slots) last w := by
  cases hremoves : job.removes with
  | true => exact body_along_removes hs hremoves (tasks_absorb hlaw hjob) hgap
  | false =>
      exact body_along_keeps hs hremoves (tasks_absorb hlaw hjob)
        (fun t ht => (tasks_named hlaw hjob ht).2) hgap

theorem body_keeps_queue (job : EngineJob) :
    Makes (job.body e) fun op => ¬ op = .dequeue ∧ op.jobs = [] := by
  refine within_mono job.body_makes ?_
  rintro op (⟨wl, _, hop⟩ | ⟨_, rfl⟩)
  · refine ⟨?_, Op.jobs_of_isWork (Op.isWork_of_on hop)⟩
    rintro rfl
    exact hop
  · exact ⟨(nomatch ·), rfl⟩

/-- The state in which the job would be found at the next start. -/
def Resumable (e : NativeEngine μ) (m : Manner) (job : EngineJob) (w : World σ μ)
    (last : Last engineSig (World σ μ)) (s : World σ μ) : Prop :=
  s.queue = w.queue → Resumes e m job w last s

theorem Resumes.before (hslots : s.slots = w.slots) (hgap : ¬ Gap m last) :
    Resumes e m job w last s :=
  ⟨fun _ => by rw [hslots], fun h => absurd h hgap⟩

theorem finishJob_along {head : EngineJob} {jobs : List EngineJob}
    (hq : w.queue = head :: jobs) (hqueue : s.queue = w.queue)
    (hresumes : Resumes e m job w last s)
    (hslots : s.slots = job.outcome e m w.slots) (dl : Deployment) (delete : Bool) :
    (finishJob e dl delete).Along (exec e) (Resumable e m job w)
      (fun _ s => s.slots = job.outcome e m w.slots) last s := by
  have hdequeued : (exec e .dequeue s).2.queue = jobs ∧
      (exec e .dequeue s).2.slots = s.slots := by
    simp only [exec, hqueue, hq]
    exact ⟨trivial, rfl⟩
  rw [finishJob, along_perform_bind]
  refine ⟨fun _ => hresumes, ?_⟩
  generalize (exec e .dequeue s).2 = s₁ at hdequeued ⊢
  have hgone : ∀ last, Resumable e m job w last s₁ := by
    intro last hsame
    rw [hdequeued.1, hq] at hsame
    exact absurd hsame.symm (List.cons_ne_self _ _)
  have hslots₁ : s₁.slots = job.outcome e m w.slots := hdequeued.2.trans hslots
  rw [safeCallback]
  split
  · rw [← bind_pure (callback _ _ _), along_perform_bind, along_pure]
    exact ⟨hgone _, hgone _, hslots₁⟩
  · exact along_pure.mpr ⟨hgone _, hslots₁⟩

theorem runJob_along (hlaw : LawfulUpgrade) (hs : Steady e m) (hjob : Enqueued job)
    {head : EngineJob} {jobs : List EngineJob} (hq : w.queue = head :: jobs)
    (hqueue : s.queue = w.queue) (hslots : s.slots = w.slots) (hgap : ¬ Gap m last) :
    (runJob e job).Along (exec e) (Resumable e m job w)
      (fun _ s => s.slots = job.outcome e m w.slots) last s := by
  have hframe : (job.body e).Along (exec e) (fun _ t => t.queue = w.queue)
      (fun a t => (job.body e).run (exec e) s = (a, t)) last s := by
    refine (body_keeps_queue job).along (fun op t => exec_possible op t) ?_ hqueue
    rintro op last t ⟨hkeeps, hjobs⟩ ht
    rw [exec_queue_append t hkeeps, hjobs, List.append_nil, ht]
  have hresumes : ∀ {last : Last engineSig (World σ μ)} {t : World σ μ},
      Resumes e m job s last t → Resumes e m job w last t := by
    rintro last t ⟨hsame, hdiffers⟩
    rw [hslots] at hsame hdiffers
    exact ⟨hsame, hdiffers⟩
  rw [runJob_eq]
  refine ((body_along (w := s) hlaw hs hjob hgap).and hframe).bind_mono
    (fun last t h _ => hresumes h.1) ?_
  rintro _ last t ⟨ht, htqueue⟩ ⟨htslots, _⟩
  rw [hslots] at htslots
  exact finishJob_along hq htqueue (hresumes ht) htslots _ _

/-- What can be said of a job that passes validation, at every call. -/
theorem processJob_along (hlaw : LawfulUpgrade) (hs : Steady e m) (hjob : Enqueued job)
    (hval : Validates σ e w.gateway job) {head : EngineJob} {jobs : List EngineJob}
    (hq : w.queue = head :: jobs) :
    (processJob e job).Along (exec e) (Resumable e m job w)
      (fun _ s => s.slots = job.outcome e m w.slots) none w := by
  rw [processJob]
  cases hvalidation : job.validation with
  | none => exact runJob_along hlaw hs hjob hq rfl rfl id
  | some noValidation =>
      dsimp only
      have hvalidate : (validate e job.target noValidation).Along (exec e)
          (fun last t => ¬ Gap m last ∧ t.queue = w.queue ∧ t.slots = w.slots)
          (fun a t => (validate e job.target noValidation).run (exec e) w = (a, t))
          none w := by
        refine (validate_makes job.target noValidation).along
          (fun op t => exec_possible op t) ?_ ⟨id, rfl, rfl⟩
        rintro op last t (rfl | rfl) ⟨_, hsame⟩ <;> exact ⟨id, hsame⟩
      refine hvalidate.bind_mono (fun last t h _ => .before h.2.2 h.1) ?_
      rintro err last t ⟨hgap, hqueue, hslots⟩ hrun
      have hnone := hval noValidation hvalidation w rfl
      rw [hrun] at hnone
      obtain rfl : err = none := hnone
      exact runJob_along hlaw hs hjob hq hqueue hslots hgap

theorem process_slots (hlaw : LawfulUpgrade) (hs : Steady e m) (hjob : Enqueued job)
    (hval : Validates σ e w.gateway job) {head : EngineJob} {jobs : List EngineJob}
    (hq : w.queue = head :: jobs) :
    (process e job w).slots = job.outcome e m w.slots :=
  (processJob_along hlaw hs hjob hval hq).run

/-! ## The second time -/

/-- What the engine process leaves behind if it dies after so many calls of the job. -/
def crashed (e : NativeEngine μ) (job : EngineJob) (calls : Nat) (w : World σ μ) :
    World σ μ :=
  (steps (exec e) calls (processJob e job) w).2

/-- The call it made last. -/
def lastCall (e : NativeEngine μ) (job : EngineJob) (calls : Nat) (w : World σ μ) :
    Last engineSig (World σ μ) :=
  lastOf (exec e) calls (processJob e job) none w

/-- The same workloads are stored up to time, and the same are installed. -/
structure SameStates (w w' : World σ μ) : Prop where
  workloads : ∀ k n, (w.view.workload k n).map untimed =
    (w'.view.workload k n).map untimed
  installed : w.node.installed = w'.node.installed

omit [GoRuntime] in
theorem sameStates_of_slots {w w' : World σ μ} (h : w.slots = w'.slots) :
    SameStates w w' := by
  constructor
  · intro k n
    exact congrArg Slot.record (congrFun h ⟨k.twin, k.contract, n⟩)
  · funext id
    exact congrArg Slot.installed (congrFun h id)

/-- A job that is processed again comes to the same, unless the engine died between
installing a workload and recording a result that is not recorded already. -/
theorem replay_harmless_iff (hlaw : LawfulUpgrade) (hs : Steady e m)
    (hjob : Enqueued job) (hval : Validates σ e w.gateway job) {jobs : List EngineJob}
    (hq : w.queue = job :: jobs) {calls : Nat}
    (hhead : (crashed e job calls w).queue = w.queue) (clock : Timestamp)
    {gateway : Gateway} (hagain : Validates σ e gateway job) :
    SameStates
        (process e job { crashed e job calls w with clock := clock, gateway := gateway })
        (process e job w) ↔
      ¬ Gap m (lastCall e job calls w) := by
  have hresumes : Resumes e m job w (lastCall e job calls w) (crashed e job calls w) :=
    (processJob_along hlaw hs hjob hval hq).steps calls hhead
  have honce := process_slots hlaw hs hjob hval hq
  have htwice := process_slots
    (w := { crashed e job calls w with clock := clock, gateway := gateway })
    hlaw hs hjob hagain (hhead.trans hq)
  have hsame : ({ crashed e job calls w with clock := clock, gateway := gateway } :
      World σ μ).slots = (crashed e job calls w).slots := rfl
  rw [hsame] at htwice
  constructor
  · intro hstates hgap
    obtain ⟨id, hne⟩ := hresumes.gap hgap
    refine hne ?_
    rw [← htwice, ← honce]
    exact hstates.workloads id.key id.name
  · intro hgap
    refine sameStates_of_slots ?_
    rw [htwice, honce, hresumes.same hgap]

end

end

/-! ## A node where it happens -/

namespace InterruptedJob

open Reference

/-- The workload is stored, and nobody has tried to install it. -/
def target : Deployment :=
  deployment 0 1 [(workload 0 "a" "d").withResults (Result.initial 0)]

def job : EngineJob := .opProvision target

/-- The job is at the head of the queue, and nothing is installed. -/
def pending : World MapStore Unit :=
  world (store [target]) [] [job] ⟨[(2, contract target)], []⟩

/-- The answers of the manager. -/
def manner : Manner where
  provided wl := ⟨0, .ok, "", wl.workload.data⟩
  locked lock wl :=
    match (lockAnswer engine lock 0 wl ⟨fun _ => false, ()⟩).1 with
    | (result, err) => (untimedResult result, err)
  updated wl := (⟨0, .ok, "", wl.workload.data⟩, none)

theorem steady : Steady engine manner where
  again now wl node h := by
    refine ⟨Result.zero, .sentinel .noActionNeeded, ?_, rfl⟩
    simp [engine, mapProvisioner, MapProvisioner.provision, manager, h,
      MapProvisioner.answer, GoError.is]
  provision now wl node h := by
    refine ⟨setState now { Result.zero with data := wl.workload.data } none, ?_, rfl⟩
    simp [engine, mapProvisioner, MapProvisioner.provision, manager, h,
      MapProvisioner.answer, buildResult, setState]
  ok wl := rfl
  deprovision wl node := rfl
  lock lock now wl node := by
    refine ⟨(lockAnswer engine lock now wl node).1.1, ?_⟩
    cases lock <;>
    · simp only [manner, lockAnswer, engine, mapProvisioner, MapProvisioner.pause,
        MapProvisioner.resume, MapProvisioner.setLock, manager]
      split <;> exact ⟨rfl, rfl⟩
  update now wl node := ⟨⟨now, .ok, "", wl.workload.data⟩, rfl, rfl⟩

theorem validates : Validates MapStore engine pending.gateway job :=
  have h : Validates MapStore engine (PendingJobs.pending target []).gateway job :=
    PendingJobs.validates rfl fun _ _ _ => rfl
  h

end InterruptedJob

/-- The engine dies when the result is recorded, before the job is off the queue. -/
theorem replay_after_transaction :
    SameStates
      (process Reference.engine InterruptedJob.job
        { crashed Reference.engine InterruptedJob.job 5 InterruptedJob.pending with
          clock := 9, gateway := InterruptedJob.pending.gateway })
      (process Reference.engine InterruptedJob.job InterruptedJob.pending) :=
  (replay_harmless_iff Reference.lawful_upgrade InterruptedJob.steady
    (.inl ⟨.provision InterruptedJob.target, rfl, rfl⟩) InterruptedJob.validates
    (rfl : InterruptedJob.pending.queue = [InterruptedJob.job])
    (by decide +kernel :
      (crashed Reference.engine InterruptedJob.job 5 InterruptedJob.pending).queue =
        InterruptedJob.pending.queue)
    9 InterruptedJob.validates).mpr id

/-- The engine dies after `Provision` installed the workload: the second time the
workload is installed already, and stays as it was stored, in state init. -/
theorem replay_keeps_init :
    ¬ SameStates
      (process Reference.engine InterruptedJob.job
        (crashed Reference.engine InterruptedJob.job 4 InterruptedJob.pending))
      (process Reference.engine InterruptedJob.job InterruptedJob.pending) := by
  intro h
  have hworkloads := h.workloads ⟨1, 2⟩ "a"
  revert hworkloads
  decide +kernel

end Zos4.Provision
