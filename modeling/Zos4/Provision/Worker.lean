import Zos4.Provision.Api

/-!
# The worker and its queue

The worker peeks at a job, processes it and takes it off the queue, once, on
every path: that is `processJob_once`. Over a run it gives `Sys.Ordered`, the
job being processed stays at the head of the queue until it is taken off, and
from that the queue discipline the results about last jobs rest on. If all
requests have been served and the queue is empty, the last job the worker took
up is the last one that was accepted (`Run.last_take`).
-/

namespace Zos4.Provision

open Zos4.Interaction Prog

variable [Zosbase] {σ μ : Type} [Storage σ] {e : NativeEngine μ}

/-! ## The workloads of a job -/

omit [Zosbase] in
theorem mem_inOrder {dl : Deployment} {types : List WorkloadType}
    {wl : WorkloadWithID} :
    wl ∈ inOrder dl types ↔
      ∃ w ∈ dl.workloads, w.type ∈ types ∧ wl = dl.withID w := by
  simp only [inOrder, List.mem_flatMap, Deployment.mem_byType,
    List.mem_singleton]
  constructor
  · rintro ⟨typ, htyp, w, hw, rfl, rfl⟩
    exact ⟨w, hw, htyp, rfl⟩
  · rintro ⟨w, hw, htyp, rfl⟩
    exact ⟨w.type, htyp, w, hw, rfl, rfl⟩

theorem mem_installOrder [GoRuntime] {dl : Deployment}
    {types : List WorkloadType} {wl : WorkloadWithID} :
    wl ∈ types.flatMap (installOrder dl) ↔
      ∃ w ∈ dl.workloads, w.type ∈ types ∧ wl = dl.withID w := by
  have hsame : ∀ typ, wl ∈ installOrder dl typ ↔ wl ∈ dl.byType [typ] := by
    intro typ
    rw [installOrder]
    split
    · exact (GoRuntime.sortSlice_perm _ _).mem_iff
    · rfl
  rw [← mem_inOrder, inOrder, List.mem_flatMap, List.mem_flatMap]
  simp only [hsame]

/-! ## The calls for one workload -/

/-- The calls made on behalf of a workload. -/
def Op.isWork : Op → Bool
  | .storageCurrent _ _ | .storageAdd _ _ | .storageTransaction _ _
  | .storageRemove _ _ | .provision _ | .deprovision _ | .pause _ | .resume _
  | .update _ | .now => true
  | _ => false

omit [Zosbase] in
theorem Op.jobs_of_isWork {op : Op} (h : op.isWork = true) : op.jobs = [] := by
  cases op <;> first | rfl | cases h

omit [Zosbase] in
theorem Op.isWork_of_on {wl : WorkloadWithID} {op : Op} (h : op.on wl) :
    op.isWork = true := by
  cases op <;> first | rfl | exact h.elim

omit [Zosbase] in
/-- Calls made on behalf of a workload touch no other. -/
theorem Op.not_touches_of_on {wl : WorkloadWithID} {op : Op}
    {id : WorkloadID} (hon : op.on wl)
    (hne : wl.id ≠ id) (hname : wl.id.name = wl.workload.name) :
    ¬ op.Touches id := by
  have hkn : wl.id.key = id.key → wl.id.name ≠ id.name :=
    fun hkey hname => hne (WorkloadID.eq_of_key hkey hname)
  rintro (hdrops | hrevives | ⟨wl', rfl, hid⟩)
  · cases op with
    | storageRemove key n =>
        obtain ⟨rfl, rfl⟩ := hon
        exact hkn hdrops.1.symm hdrops.2.symm
    | storageCreate dl => exact hon.elim
    | storageDelete key => exact hon.elim
    | _ => exact hdrops.elim
  · cases op with
    | provision wl' =>
        obtain rfl : wl' = wl := hon
        exact hne hrevives
    | storageAdd key wl' =>
        obtain ⟨rfl, rfl⟩ := hon
        exact hkn hrevives.1 (hname.trans hrevives.2)
    | _ => exact hrevives.elim
  · obtain rfl : wl' = wl := hon
    exact hne hid

theorem provisionWorkload_on (wl : WorkloadWithID) :
    Makes (provisionWorkload wl) fun op => op.on wl := by
  refine within_perform_bind rfl fun ans _ => ?_
  obtain ⟨result, err⟩ := ans
  cases err with
  | none => exact within_perform ⟨rfl, _, rfl⟩
  | some err =>
      dsimp only
      split
      · trivial
      · exact within_perform_bind trivial
          fun now _ => within_perform ⟨rfl, _, rfl⟩

theorem installWorkload_on (wl : WorkloadWithID) :
    Makes (installWorkload wl) fun op => op.on wl := by
  refine within_perform_bind ⟨rfl, rfl⟩ fun ans _ => ?_
  cases ans with
  | ok current =>
      dsimp only
      split
      · trivial
      · exact provisionWorkload_on wl
  | error err =>
      dsimp only
      split
      · refine within_perform_bind ⟨rfl, rfl⟩ fun ans _ => ?_
        cases ans with
        | some err => trivial
        | none => exact provisionWorkload_on wl
      · trivial

/-- The calls that look a workload's record up or overwrite it. -/
def Op.tracks (wl : WorkloadWithID) (op : Op) : Prop :=
  op = .storageCurrent wl.id.key wl.id.name ∨
    ∃ result, op = .storageTransaction wl.id.key (wl.workload.withResults result)

omit [Zosbase] in
theorem Op.on_of_tracks {wl : WorkloadWithID} {op : Op}
    (h : op.tracks wl) : op.on wl := by
  rcases h with rfl | ⟨result, rfl⟩
  · exact ⟨rfl, rfl⟩
  · exact ⟨rfl, result, rfl⟩

theorem recordUpdate_makes (wl : WorkloadWithID)
    (res : Result × Option GoError) :
    Makes (recordUpdate wl res) fun op => op.tracks wl := by
  obtain ⟨result, err⟩ := res
  cases err with
  | none => exact within_perform (.inr ⟨_, rfl⟩)
  | some err =>
      rw [recordUpdate]
      split
      · refine within_perform_bind (.inl rfl) fun ans _ => ?_
        cases ans with
        | error err => trivial
        | ok current => exact within_perform (.inr ⟨_, rfl⟩)
      · trivial

theorem updateWorkload_makes (wl : WorkloadWithID) :
    Makes (updateWorkload e wl) fun op => op = .update wl ∨ op.tracks wl := by
  rw [updateWorkload]
  split
  · exact within_perform_bind (.inl rfl) fun res _ =>
      within_mono (recordUpdate_makes wl res) fun _ h => .inr h
  · exact within_mono (recordUpdate_makes wl _) fun _ h => .inr h

theorem updateWorkload_on (wl : WorkloadWithID) :
    Makes (updateWorkload e wl) fun op => op.on wl := by
  refine within_mono (updateWorkload_makes wl) ?_
  rintro op (rfl | hop)
  · rfl
  · exact Op.on_of_tracks hop

theorem lockWorkload_makes (wl : WorkloadWithID) (lock : Bool) :
    Makes (lockWorkload wl lock) fun op =>
      op = .pause wl ∨ op = .resume wl ∨ op.tracks wl := by
  refine within_perform_bind (.inr (.inr (.inl rfl))) fun ans _ => ?_
  cases ans with
  | error err => trivial
  | ok current =>
      dsimp only
      split
      · trivial
      · refine within_bind ?_ fun ans => ?_
        · cases lock with
          | true => exact within_perform (.inl rfl)
          | false => exact within_perform (.inr (.inl rfl))
        · obtain ⟨result, err⟩ := ans
          cases err with
          | none => exact within_perform (.inr (.inr (.inr ⟨_, rfl⟩)))
          | some err => dsimp only; split <;> trivial

theorem lockWorkload_on (wl : WorkloadWithID) (lock : Bool) :
    Makes (lockWorkload wl lock) fun op => op.on wl := by
  refine within_mono (lockWorkload_makes wl lock) ?_
  rintro op (rfl | rfl | hop)
  · rfl
  · rfl
  · exact Op.on_of_tracks hop

/-! ## Taking the job off the queue -/

/-- The call that takes the head off the queue, made exactly once. -/
abbrev DequeuesOnce {α : Type} (p : EngineM α) : Prop :=
  Prog.Once Op.Possible (fun op : Op => op = .dequeue) p

/-- The end of a job only takes it off the queue and tells the callback. -/
theorem finishJob_makes (dl : Deployment) (delete : Bool) :
    Makes (finishJob e dl delete) fun op =>
      op = .dequeue ∨ op = .callback dl.twinID dl.contractID delete := by
  refine within_perform_bind (.inl rfl) fun _ _ => ?_
  rw [safeCallback]
  split
  · exact within_perform (.inr rfl)
  · trivial

theorem finishJob_once (dl : Deployment) (delete : Bool) :
    DequeuesOnce (finishJob e dl delete) := by
  refine once_perform_bind rfl fun _ _ => ?_
  rw [safeCallback]
  split
  · exact within_perform (by simp)
  · trivial

/-- Validation asks about the contract and nothing else. -/
theorem validate_makes (dl : Deployment) (noValidation : Bool) :
    Makes (validate e dl noValidation) fun op =>
      op = .getContract dl.contractID ∨
        op = .getNodeRentContract e.nodeID.toUInt32 := by
  rw [validate]
  split
  · trivial
  · refine within_perform_bind (.inl rfl) fun ans _ => ?_
    cases ans with
    | error err => trivial
    | ok contract =>
        dsimp only
        split
        · trivial
        · refine within_perform_bind (.inr rfl) fun ans _ => ?_
          cases ans with
          | error err => dsimp only; split <;> (try split) <;> trivial
          | ok rent => dsimp only; split <;> trivial

/-! ## The calls of a job -/

section

variable [GoRuntime]

/-- What a job does before the worker takes it off the queue. -/
def EngineJob.body (e : NativeEngine μ) : EngineJob → EngineM Unit
  | .opProvision target | .opProvisionNoValidation target =>
      installDeployment e target
  | .opDeprovision target message => uninstallDeployment e target message
  | .opPause target => lockDeployment e target
  | .opResume target => unlockDeployment e target
  | .opUpdate target source =>
      match Zosbase.upgrade source target with
      | .error _ => pure ()
      | .ok ops => updateDeployment e ops

/-- The workloads it goes through, in order. -/
def EngineJob.items (e : NativeEngine μ) : EngineJob → List WorkloadWithID
  | .opProvision target | .opProvisionNoValidation target =>
      e.order.flatMap (installOrder target)
  | .opDeprovision target _ | .opPause target =>
      inOrder target e.order.reverse
  | .opResume target => inOrder target e.order
  | .opUpdate target source =>
      match Zosbase.upgrade source target with
      | .error _ => []
      | .ok ops => (sortOperations e ops).map (·.wlID)

/-- The workloads a job installs. -/
def EngineJob.installed (e : NativeEngine μ) : EngineJob → List WorkloadWithID
  | .opProvision target | .opProvisionNoValidation target =>
      e.order.flatMap (installOrder target)
  | .opUpdate target source =>
      match Zosbase.upgrade source target with
      | .error _ => []
      | .ok ops => (ops.filter fun op => op.op == .opAdd).map (·.wlID)
  | .opDeprovision _ _ | .opPause _ | .opResume _ => []

/-- The one job that deletes the deployment in the end. -/
def EngineJob.removes : EngineJob → Bool
  | .opDeprovision _ _ => true
  | _ => false

theorem runJob_eq (job : EngineJob) : runJob e job =
    job.body e >>= fun _ => finishJob e job.target job.removes := by
  cases job with
  | opUpdate target source =>
      rw [runJob, EngineJob.body]
      cases Zosbase.upgrade source target <;> rfl
  | _ => rfl

/-- Every workload a job goes through is one of its target. -/
theorem EngineJob.mem_items (hlaw : LawfulUpgrade) {job : EngineJob}
    (haccepted : UpdatesAccepted job) {wl : WorkloadWithID}
    (hwl : wl ∈ job.items e) :
    wl.id.key = job.target.key ∧ wl.id.name = wl.workload.name := by
  cases job with
  | opProvision target | opProvisionNoValidation target =>
      obtain ⟨_, _, _, rfl⟩ := mem_installOrder.mp hwl
      exact ⟨rfl, rfl⟩
  | opDeprovision target message | opPause target | opResume target =>
      obtain ⟨_, _, _, rfl⟩ := mem_inOrder.mp hwl
      exact ⟨rfl, rfl⟩
  | opUpdate target source =>
      obtain ⟨_, ops, hsnap, hup, hjob⟩ := haccepted target source rfl
      obtain ⟨_, rfl⟩ := EngineJob.opUpdate.inj hjob
      simp only [EngineJob.items, hup, List.mem_map] at hwl
      obtain ⟨op, hop, rfl⟩ := hwl
      exact (hlaw source target ops hsnap.nodup hup).ids op
        ((List.perm_insertionSort _ ops).mem_iff.mp hop)

omit [GoRuntime] in
theorem uninstallDeployment_makes (dl : Deployment) (reason : String) :
    Makes (uninstallDeployment e dl reason) fun op =>
      ((∃ wl ∈ inOrder dl e.order.reverse, op.on wl) ∧ op.isRemoval = true) ∨
        op = .storageDelete dl.key := by
  refine within_bind (within_foldlM fun errors wl hwl => ?_) fun errors => ?_
  · refine within_bind ?_ fun ans => ?_
    · exact within_mono (uninstallWorkload_makes wl reason)
        fun _ h => .inl ⟨⟨wl, hwl, h.1⟩, h.2⟩
    · cases ans <;> trivial
  · split
    · trivial
    · exact logged_makes (within_perform (.inr rfl))

/-- What a job does to workloads it does to its own. -/
theorem EngineJob.body_makes (job : EngineJob) :
    Makes (job.body e) fun op => (∃ wl ∈ job.items e, op.on wl) ∨
      (job.removes = true ∧ op = .storageDelete job.target.key) := by
  have hloop : ∀ {α : Type} (l : List α) (item : α → WorkloadWithID)
      (f : α → EngineM (Option GoError)),
      (∀ x ∈ l, Makes (f x) fun op => op.on (item x)) →
      l.map item = job.items e →
      Makes (l.forM fun x => logged (f x)) fun op =>
        (∃ wl ∈ job.items e, op.on wl) ∨
          (job.removes = true ∧ op = .storageDelete job.target.key) := by
    intro α l item f hf hitems
    refine within_forM fun x hx => logged_makes ?_
    refine within_mono (hf x hx) fun op hop => .inl ⟨item x, ?_, hop⟩
    rw [← hitems]
    exact List.mem_map_of_mem hx
  cases job with
  | opProvision target | opProvisionNoValidation target =>
      exact hloop _ id _ (fun wl _ => installWorkload_on wl) (List.map_id _)
  | opDeprovision target message =>
      refine within_mono (uninstallDeployment_makes target message) ?_
      rintro op (⟨hop, _⟩ | rfl)
      · exact .inl hop
      · exact .inr ⟨rfl, rfl⟩
  | opPause target =>
      exact hloop _ id _ (fun wl _ => lockWorkload_on wl true) (List.map_id _)
  | opResume target =>
      exact hloop _ id _ (fun wl _ => lockWorkload_on wl false) (List.map_id _)
  | opUpdate target source =>
      rw [EngineJob.body]
      split
      · trivial
      · next ops hup =>
          refine hloop (sortOperations e ops) (·.wlID) (applyOperation e)
            (fun op _ => ?_) ?_
          · rw [applyOperation]
            split
            · exact within_mono (uninstallWorkload_makes _ _) fun _ h => h.1
            · exact installWorkload_on _
            · exact updateWorkload_on _
          · simp only [EngineJob.items, hup]

/-- The calls of a job: those of its body, the questions about its contract, the
refusal, and the end. -/
inductive EngineJob.Calls (e : NativeEngine μ) (job : EngineJob) : Op → Prop
  | work {op : Op} {wl : WorkloadWithID} (hwl : wl ∈ job.items e)
      (hop : op.on wl) : EngineJob.Calls e job op
  | delete (h : job.removes = true) :
      EngineJob.Calls e job (.storageDelete job.target.key)
  | refuse (err : GoError) : EngineJob.Calls e job (.storageError job.target.key err)
  | ask (id : ContractID) : EngineJob.Calls e job (.getContract id)
  | rent (node : UInt32) : EngineJob.Calls e job (.getNodeRentContract node)
  | dequeue : EngineJob.Calls e job .dequeue
  | callback (delete : Bool) : EngineJob.Calls e job
      (.callback job.target.twinID job.target.contractID delete)

theorem processJob_makes (job : EngineJob) :
    Makes (processJob e job) (job.Calls e) := by
  have hrun : Makes (runJob e job) (job.Calls e) := by
    rw [runJob_eq]
    refine within_bind (within_mono (EngineJob.body_makes job) ?_) fun _ =>
      within_mono (finishJob_makes _ _) ?_
    · rintro op (⟨wl, hwl, hop⟩ | ⟨h, rfl⟩)
      · exact .work hwl hop
      · exact .delete h
    · rintro op (rfl | rfl)
      · exact .dequeue
      · exact .callback _
  rw [processJob]
  split
  · exact hrun
  · refine within_bind (within_mono (validate_makes _ _) ?_) fun ans => ?_
    · rintro op (rfl | rfl)
      · exact .ask _
      · exact .rent _
    · cases ans with
      | none => exact hrun
      | some err =>
          exact within_perform_bind (.refuse err) fun _ _ =>
            within_perform_bind .dequeue fun _ _ => trivial

/-- No job queues another. -/
theorem EngineJob.Calls.jobs {job : EngineJob} {op : Op}
    (h : job.Calls e op) : op.jobs = [] := by
  cases h with
  | work _ hop => exact Op.jobs_of_isWork (Op.isWork_of_on hop)
  | _ => rfl

theorem EngineJob.Calls.not_creates {job : EngineJob} {op : Op}
    (h : job.Calls e op) : op.creates = false := by
  cases h with
  | work _ hop => cases op <;> first | rfl | exact hop.elim
  | _ => rfl

/-- Only a deprovision deletes. -/
theorem EngineJob.Calls.not_delete {job : EngineJob} {op : Op}
    (h : job.Calls e op) (hr : job.removes = false) (k : DeploymentKey) :
    op ≠ .storageDelete k := by
  rintro rfl
  cases h with
  | work _ hop => exact hop
  | delete h => rw [hr] at h; cases h

theorem EngineJob.body_no_dequeue (job : EngineJob) :
    Makes (job.body e) fun op => ¬ op = .dequeue := by
  refine within_mono (EngineJob.body_makes job) ?_
  rintro op (⟨wl, _, hop⟩ | ⟨_, rfl⟩) hdequeue
  · rw [hdequeue] at hop
    exact hop
  · cases hdequeue

theorem runJob_once (job : EngineJob) : DequeuesOnce (runJob e job) := by
  rw [runJob_eq]
  exact once_bind (EngineJob.body_no_dequeue job) fun _ => finishJob_once _ _

theorem processJob_once (job : EngineJob) :
    DequeuesOnce (processJob e job) := by
  rw [processJob]
  split
  · exact runJob_once job
  · refine once_bind (within_mono (validate_makes _ _) ?_) fun ans => ?_
    · rintro op (rfl | rfl) h <;> cases h
    · cases ans with
      | none => exact runJob_once job
      | some err =>
          refine once_bind (within_perform (by simp)) fun _ => ?_
          exact once_perform_bind rfl fun _ _ => trivial

end

/-! ## The queue over a run -/

/-- A call that is no `Dequeue` keeps the queue, or appends to it. -/
theorem exec_queue_append (w : World σ μ) {op : Op} (h : ¬ op = .dequeue) :
    (exec e op w).2.queue = w.queue ++ op.jobs := by
  by_cases he : ∃ job, op = .enqueue job
  · obtain ⟨job, rfl⟩ := he
    rfl
  · rw [exec_queue w h fun job hjob => he ⟨job, hjob⟩]
    cases op with
    | enqueue job => exact absurd ⟨job, rfl⟩ he
    | _ => simp [Op.jobs]

/-- Every job in the queue is one of `J`. -/
def Queued (J : EngineJob → Prop) (w : World σ μ) : Prop := ∀ job ∈ w.queue, J job

omit [Storage σ] in
theorem Queued.of_empty {J : EngineJob → Prop} {w : World σ μ}
    (h : w.queue = []) : Queued J w := by
  rw [Queued, h]
  exact List.forall_mem_nil _

theorem Queued.call {J : EngineJob → Prop} {w : World σ μ} (h : Queued J w)
    {op : Op} (hjobs : ∀ job ∈ op.jobs, J job) : Queued J (exec e op w).2 := by
  intro job hjob
  by_cases hd : op = .dequeue
  · subst hd
    refine h job ?_
    simp only [exec] at hjob
    split at hjob
    · exact hjob
    · next rest hq => rw [hq]; exact List.mem_cons_of_mem _ hjob
  · rw [exec_queue_append w hd] at hjob
    rcases List.mem_append.mp hjob with hjob | hjob
    · exact h job hjob
    · exact hjobs job hjob

section

variable [GoRuntime]

/-- The job being processed is the head of the queue until the worker takes it
off, and nobody else takes anything off. -/
structure Sys.Ordered (s : Sys σ μ) : Prop where
  worker : (Makes s.worker fun op => ¬ op = .dequeue) ∨
    DequeuesOnce s.worker ∧
      ∃ job rest, s.job = some job ∧ s.world.queue = job :: rest
  routines : ∀ p ∈ s.routines, Makes p fun op => ¬ op = .dequeue

omit [Storage σ] [GoRuntime] in
theorem Sys.Ordered.start {r : ContractEventHandler μ} {rerunAll : Bool}
    {w : World σ μ} {log : List Event} :
    (Sys.start r rerunAll w log).Ordered := by
  refine ⟨.inl (within_mono startup_makes ?_), fun p hp => by cases hp⟩
  rintro op hop rfl
  cases hop

omit [Storage σ] [GoRuntime] in
theorem Sys.Fresh.ordered {s : Sys σ μ} (h : s.Fresh) : s.Ordered := by
  obtain ⟨⟨u, hu⟩, _, hr, _⟩ := h
  refine ⟨.inl ?_, ?_⟩
  · rw [hu]
    trivial
  · rw [hr]
    exact fun _ hp => nomatch hp

theorem Sys.Ordered.step {r : ContractEventHandler μ} {s s' : Sys σ μ}
    {a : Action μ} (h : s.Ordered) (hs : s.step r a = some s') : s'.Ordered := by
  cases a with
  | spawn routine =>
      obtain rfl := step_spawn hs
      refine ⟨h.worker, fun p hp => ?_⟩
      rcases List.mem_append.mp hp with hp | hp
      · exact h.routines p hp
      · obtain rfl := List.mem_singleton.mp hp
        exact routine_no_dequeue routine
  | routine i =>
      obtain ⟨op, k, hi, rfl⟩ := step_routine hs
      obtain ⟨hop, hk⟩ := h.routines _ (List.mem_of_getElem? hi)
      refine ⟨?_, fun p hp => ?_⟩
      · rcases h.worker with hw | ⟨hw, job, rest, hjob, hq⟩
        · exact .inl hw
        · refine .inr ⟨hw, job, ?_⟩
          rw [exec_queue_append s.world hop, hq]
          exact ⟨_, hjob, rfl⟩
      · rcases List.mem_or_eq_of_mem_set hp with hp | rfl
        · exact h.routines p hp
        · exact hk _ (exec_possible op s.world)
  | take =>
      obtain ⟨_, job, rest, hq, rfl⟩ := step_take hs
      exact ⟨.inr ⟨processJob_once job, job, rest, rfl, hq⟩, h.routines⟩
  | work =>
      obtain ⟨op, k, hw, rfl⟩ := step_work hs
      refine ⟨?_, h.routines⟩
      have hans := exec_possible (e := r.engine) op s.world
      rcases h.worker with hwork | ⟨honce, job, rest, hjob, hq⟩
      · rw [hw] at hwork
        exact .inl (hwork.2 _ hans)
      · rw [hw] at honce
        rcases honce with ⟨rfl, hk⟩ | ⟨hop, hk⟩
        · exact .inl (hk _ hans)
        · refine .inr ⟨hk _ hans, job, ?_⟩
          rw [exec_queue_append s.world hop, hq]
          exact ⟨_, hjob, rfl⟩
  | outside clock chain gateway =>
      obtain rfl := step_outside hs
      exact ⟨h.worker, h.routines⟩
  | restart => obtain rfl := step_restart hs; exact .start
  | clear rerunAll => obtain rfl := step_clear hs; exact .start
  | reboot rest => obtain rfl := step_reboot hs; exact .start

theorem Run.ordered {r : ContractEventHandler μ}
    {ok : Sys σ μ → Action μ → Prop} {s s' : Sys σ μ} (hrun : Run r ok s s')
    (h : s.Ordered) : s'.Ordered :=
  hrun.invariant (fun _ _ _ h _ hs => h.step hs) h

end

/-! ## The last job -/

theorem accepted_cons (ev : Event) (log : List Event) :
    accepted (ev :: log) = accepted log ++ ev.op.jobs := by
  rw [accepted, List.reverse_cons, List.filterMap_append]
  congr 1
  obtain ⟨who, op, ret⟩ := ev
  cases op <;> rfl

variable [GoRuntime] {r : ContractEventHandler μ}
  {ok : Sys σ μ → Action μ → Prop}

/-- What was accepted and is not in the queue any more is `done`. -/
def Sys.Accepted (done : List EngineJob) (s : Sys σ μ) : Prop :=
  accepted s.log = done ++ s.world.queue

/-- What a step does to the account: nothing, or the worker took the head of
the queue off. -/
theorem Sys.Accepted.step {done : List EngineJob} {s s' : Sys σ μ}
    {a : Action μ} (h : s.Accepted done) (hord : s.Ordered)
    (hcont : a.continues) (hs : s.step r a = some s') :
    s'.Accepted done ∨ (a = .work ∧ ∃ k, s.worker = .call .dequeue k) ∧
      ∃ job rest, s.world.queue = job :: rest ∧ s'.world.queue = rest ∧
        s'.Accepted (done ++ [job]) := by
  have hcall : ∀ {op : Op} (who : Who) (ret : op.Ret), ¬ op = .dequeue →
      accepted (⟨who, op, ret⟩ :: s.log) =
        done ++ (exec r.engine op s.world).2.queue := by
    intro op who ret hop
    rw [accepted_cons, exec_queue_append s.world hop, h, List.append_assoc]
  cases a with
  | spawn routine => obtain rfl := step_spawn hs; exact .inl h
  | routine i =>
      obtain ⟨op, k, hi, rfl⟩ := step_routine hs
      exact .inl (hcall _ _ (hord.routines _ (List.mem_of_getElem? hi)).1)
  | take => obtain ⟨_, _, _, _, rfl⟩ := step_take hs; exact .inl h
  | work =>
      obtain ⟨op, k, hw, rfl⟩ := step_work hs
      by_cases hop : op = .dequeue
      · subst hop
        rcases hord.worker with hno | ⟨_, job, rest, _, hq⟩
        · rw [hw] at hno
          exact absurd rfl hno.1
        · refine .inr ⟨⟨rfl, k, hw⟩, job, rest, hq, ?_, ?_⟩
          · simp only [exec, hq]
          · rw [Sys.Accepted, accepted_cons, h, hq]
            simp [exec, hq, Op.jobs]
      · exact .inl (hcall _ _ hop)
  | outside clock chain gateway => obtain rfl := step_outside hs; exact .inl h
  | restart => cases hcont
  | clear rerunAll => cases hcont
  | reboot rest => cases hcont

/-- A run cut at the last job the worker took up, if it took one up. -/
inductive LastTake (r : ContractEventHandler μ)
    (ok : Sys σ μ → Action μ → Prop) (s₀ s : Sys σ μ) : Prop
  | never (hrun : Run r (fun s a => ok s a ∧ a ≠ .take) s₀ s)
  | at {s₁ s₁' : Sys σ μ} (before : Run r ok s₀ s₁) (hok : ok s₁ .take)
      (htake : s₁.step r .take = some s₁')
      (after : Run r (fun s a => ok s a ∧ a ≠ .take) s₁' s)

theorem Run.lastTake {s₀ s : Sys σ μ} (hrun : Run r ok s₀ s) :
    LastTake r ok s₀ s := by
  induction hrun with
  | refl => exact .never (.refl _)
  | @tail s' s'' a hrun hok hs ih =>
      by_cases ha : a = .take
      · subst ha
        exact .at hrun hok hs (.refl _)
      · cases ih with
        | never h => exact .never (h.tail ⟨hok, ha⟩ hs)
        | «at» before hok' htake after =>
            exact .at before hok' htake (after.tail ⟨hok, ha⟩ hs)

/-- Where the worker is in the job it took up: still to take it off the queue,
or past that. -/
def Sys.Working (done : List EngineJob) (job : EngineJob) (s : Sys σ μ) : Prop :=
  (DequeuesOnce s.worker ∧ (∃ rest, s.world.queue = job :: rest) ∧
      s.Accepted done) ∨
    (Makes s.worker fun op => ¬ op = .dequeue) ∧ s.Accepted (done ++ [job])

theorem Sys.Working.step {done : List EngineJob} {job : EngineJob}
    {s s' : Sys σ μ} {a : Action μ} (h : s.Working done job) (hord : s.Ordered)
    (hcont : a.continues) (ha : a ≠ .take) (hs : s.step r a = some s') :
    s'.Working done job := by
  cases a with
  | spawn routine => obtain rfl := step_spawn hs; exact h
  | outside clock chain gateway => obtain rfl := step_outside hs; exact h
  | take => exact absurd rfl ha
  | restart => cases hcont
  | clear rerunAll => cases hcont
  | reboot rest => cases hcont
  | routine i =>
      have hkeep : ∀ {done}, s.Accepted done → s'.Accepted done := by
        intro done hdone
        rcases hdone.step hord hcont hs with hacc | ⟨⟨hwork, _⟩, _⟩
        · exact hacc
        · cases hwork
      obtain ⟨op, k, hi, rfl⟩ := step_routine hs
      rcases h with ⟨honce, ⟨rest, hq⟩, hacc⟩ | ⟨hno, hacc⟩
      · refine .inl ⟨honce, ⟨rest ++ op.jobs, ?_⟩, hkeep hacc⟩
        rw [exec_queue_append s.world
          (hord.routines _ (List.mem_of_getElem? hi)).1, hq]
        rfl
      · exact .inr ⟨hno, hkeep hacc⟩
  | work =>
      have hsplit := fun {done} (hdone : s.Accepted done) =>
        hdone.step hord hcont hs
      obtain ⟨op, k, hw, rfl⟩ := step_work hs
      have hans := exec_possible (e := r.engine) op s.world
      rw [Sys.Working, hw] at h
      rcases h with ⟨⟨rfl, hk⟩ | ⟨hop, hk⟩, ⟨rest, hq⟩, hacc⟩ | ⟨⟨hop, hk⟩, hacc⟩
      · refine .inr ⟨hk _ hans, ?_⟩
        rw [Sys.Accepted, accepted_cons, hacc, hq]
        simp [exec, hq, Op.jobs]
      · refine .inl ⟨hk _ hans, ⟨rest ++ op.jobs, ?_⟩, ?_⟩
        · rw [exec_queue_append s.world hop, hq]
          rfl
        · rcases hsplit hacc with hkeep | ⟨⟨_, k', hk'⟩, _⟩
          · exact hkeep
          · rw [hw] at hk'
            cases hk'
            exact absurd rfl hop
      · refine .inr ⟨hk _ hans, ?_⟩
        rcases hsplit hacc with hkeep | ⟨⟨_, k', hk'⟩, _⟩
        · exact hkeep
        · rw [hw] at hk'
          cases hk'
          exact absurd rfl hop

/-- An idle worker only stops being idle by taking a job up. -/
theorem Sys.Idle.step {s s' : Sys σ μ} {a : Action μ} (h : s.Idle)
    (hcont : a.continues) (ha : a ≠ .take) (hs : s.step r a = some s') :
    s'.Idle := by
  cases a with
  | spawn routine => obtain rfl := step_spawn hs; exact h
  | routine i => obtain ⟨_, _, _, rfl⟩ := step_routine hs; exact h
  | take => exact absurd rfl ha
  | work =>
      obtain ⟨u, hu⟩ := h
      obtain ⟨op, k, hw, _⟩ := step_work hs
      rw [hu] at hw
      cases hw
  | outside clock chain gateway => obtain rfl := step_outside hs; exact h
  | restart => cases hcont
  | clear rerunAll => cases hcont
  | reboot rest => cases hcont

/-- Over a run there is always an account of what was accepted. -/
theorem Run.accounted (hcont : ∀ s a, ok s a → a.continues) {s s' : Sys σ μ}
    (hrun : Run r ok s s') (hord : s.Ordered) {done : List EngineJob}
    (h : s.Accepted done) : ∃ done, s'.Accepted done := by
  have hstep : ∀ t a t', (t.Ordered ∧ ∃ done, t.Accepted done) → ok t a →
      t.step r a = some t' → t'.Ordered ∧ ∃ done, t'.Accepted done := by
    rintro t a t' ⟨ho, done, hacc⟩ hok hs
    refine ⟨ho.step hs, ?_⟩
    rcases hacc.step ho (hcont t a hok) hs with hkeep | ⟨_, job, _, _, _, h⟩
    · exact ⟨done, hkeep⟩
    · exact ⟨done ++ [job], h⟩
  exact (hrun.invariant hstep ⟨hord, done, h⟩).2

/-- A worker that never takes a job up takes nothing off the queue. -/
theorem Run.accounted_of_idle (hcont : ∀ s a, ok s a → a.continues)
    {s s' : Sys σ μ} (hrun : Run r (fun s a => ok s a ∧ a ≠ .take) s s')
    (hord : s.Ordered) (hidle : s.Idle) {done : List EngineJob}
    (h : s.Accepted done) : s'.Accepted done := by
  have hstep : ∀ t a t', (t.Idle ∧ t.Ordered ∧ t.Accepted done) →
      (ok t a ∧ a ≠ .take) → t.step r a = some t' →
      t'.Idle ∧ t'.Ordered ∧ t'.Accepted done := by
    rintro t a t' ⟨hi, ho, hacc⟩ ⟨hok, ha⟩ hs
    refine ⟨hi.step (hcont t a hok) ha hs, ho.step hs, ?_⟩
    rcases hacc.step ho (hcont t a hok) hs with hkeep | ⟨⟨_, k, hk⟩, _⟩
    · exact hkeep
    · obtain ⟨u, hu⟩ := hi
      rw [hu] at hk
      cases hk
  exact (hrun.invariant hstep ⟨hidle, hord, h⟩).2.2

/-- Until it takes the next one up, the worker is working on one job. -/
theorem Run.working (hcont : ∀ s a, ok s a → a.continues) {s s' : Sys σ μ}
    (hrun : Run r (fun s a => ok s a ∧ a ≠ .take) s s') (hord : s.Ordered)
    {done : List EngineJob} {job : EngineJob} (h : s.Working done job) :
    s'.Working done job := by
  have hstep : ∀ t a t', (t.Ordered ∧ t.Working done job) →
      (ok t a ∧ a ≠ .take) → t.step r a = some t' →
      t'.Ordered ∧ t'.Working done job := by
    rintro t a t' ⟨ho, hwk⟩ ⟨hok, ha⟩ hs
    exact ⟨ho.step hs, hwk.step ho (hcont t a hok) ha hs⟩
  exact (hrun.invariant hstep ⟨hord, h⟩).2

/-- From a start with nothing queued to a drained state, the last job the
worker took up is the last one accepted. -/
theorem Run.last_take (hcont : ∀ s a, ok s a → a.continues)
    {s₀ s : Sys σ μ} (hrun : Run r ok s₀ s) (hfresh : s₀.Fresh)
    (hdrained : s.Drained) {job : EngineJob}
    (hlast : (accepted s.log).getLast? = some job) :
    ∃ s₁ s₁' rest, Run r ok s₀ s₁ ∧ ok s₁ .take ∧
      s₁.step r .take = some s₁' ∧ s₁.world.queue = job :: rest ∧
      Run r (fun s a => ok s a ∧ a ≠ .take) s₁' s := by
  have hord := hfresh.ordered
  have h₀ : s₀.Accepted [] := by
    rw [Sys.Accepted, hfresh.log, hfresh.queue]
    rfl
  obtain ⟨⟨u, hu⟩, hempty⟩ := hdrained
  cases hrun.lastTake with
  | never hrun =>
      have hnone := hrun.accounted_of_idle hcont hord hfresh.idle h₀
      rw [Sys.Accepted, hempty] at hnone
      rw [hnone] at hlast
      cases hlast
  | @«at» s₁ s₁' before hok htake after =>
      have hord₁ := before.ordered hord
      obtain ⟨done, hdone⟩ := before.accounted hcont hord h₀
      obtain ⟨_, job', rest, hq, hs₁'⟩ := step_take htake
      have hstart : s₁'.Working done job' := by
        rw [hs₁']
        exact .inl ⟨processJob_once job', ⟨rest, hq⟩, hdone⟩
      have hjob : job' = job := by
        rcases after.working hcont (hord₁.step htake) hstart with
          ⟨honce, _⟩ | ⟨_, hacc⟩
        · rw [hu] at honce
          cases honce
        · rw [Sys.Accepted, hempty, List.append_nil] at hacc
          rw [hacc, List.getLast?_concat] at hlast
          exact Option.some.inj hlast
      rw [hjob] at hq
      exact ⟨s₁, s₁', rest, before, hok, htake, hq, after⟩

/-- What a protocol keeps up to the last job, that job can build on: whatever it
establishes from the state it is taken up in holds in the drained state. -/
theorem Run.last_job (post : World σ μ → World σ μ → Prop) {P : Protocol r σ}
    (hP : P.Sound ok)
    (hcont : ∀ s a, ok s a → a.continues) {s₀ s : Sys σ μ}
    (hrun : Run r ok s₀ s) (hfresh : s₀.Fresh) (hholds : P.Holds s₀)
    (hdrained : s.Drained) {job : EngineJob}
    (hlast : (accepted s.log).getLast? = some job)
    (hjob : ∀ w, P.inv w → (∃ rest, w.queue = job :: rest) →
      (processJob r.engine job).Safe (P.worker (some job))
        (fun _ => post w) w) :
    ∃ s₁ s₁' rest, Run r ok s₀ s₁ ∧ s₁.step r .take = some s₁' ∧
      s₁.world.queue = job :: rest ∧
      Run r (fun s a => ok s a ∧ a ≠ .take) s₁' s ∧
      P.inv s₁.world ∧ post s₁.world s.world := by
  obtain ⟨s₁, s₁', rest, hbefore, _, htake, hq, hafter⟩ :=
    hrun.last_take hcont hfresh hdrained hlast
  have hholds₁ := hP.run hbefore hholds
  have hP' : (P.withPost (post s₁.world)).Sound
      (fun s a => ok s a ∧ a ≠ .take) := {
    spawn := fun s routine hi h => hP.spawn s routine hi h.1
    routine := hP.routine
    assume := fun s op k hi h hw => hP.assume s op k hi h.1 hw
    work := hP.work
    take := fun s job rest _ h => absurd rfl h.2
    outside := fun s clock chain gateway hi h =>
      hP.outside s clock chain gateway hi h.1
    restart := fun s _ h => (hcont s _ h.1).elim
    clear := fun s _ _ h => (hcont s _ h.1).elim
    reboot := fun s rest _ h => (hcont s _ h.1).elim }
  have hholds₁' : (P.withPost (post s₁.world)).Holds s₁' := by
    obtain ⟨_, job', rest', hq', rfl⟩ := step_take htake
    rw [hq] at hq'
    obtain ⟨rfl, _⟩ := List.cons.inj hq'
    exact ⟨hholds₁.inv, hjob _ hholds₁.inv ⟨rest, hq⟩, hholds₁.routines⟩
  exact ⟨s₁, s₁', rest, hbefore, htake, hq, hafter, hholds₁.inv,
    (hP'.run hafter hholds₁').post_of_idle hdrained.1⟩

end Zos4.Provision
