import Zos4.Provision.Worker

/-!
# The worker by itself

When nobody else acts, what becomes of the world is a function of the state:
the worker finishes the job it is at and then goes through the queue. A job
queues no other and takes itself off, so going through the queue is a fold over
the jobs that are on it. `Run.completed` says that this is where every run of
the worker alone leads that drains the queue.
-/

namespace Zos4.Provision

open Zos4.Interaction Prog

variable [Zosbase] [GoRuntime] {σ μ : Type} [Storage σ] {e : NativeEngine μ}

/-- One iteration of the worker loop. -/
def process (e : NativeEngine μ) (job : EngineJob) (w : World σ μ) : World σ μ :=
  ((processJob e job).run (exec e) w).2

/-- The worker loop, until the queue is empty. -/
def drain (e : NativeEngine μ) (w : World σ μ) : World σ μ :=
  w.queue.foldl (fun w job => process e job w) w

omit [GoRuntime] in
theorem run_outside {α : Type} (p : EngineM α) (w : World σ μ) :
    (p.run (exec e) w).2.chain = w.chain ∧ (p.run (exec e) w).2.gateway = w.gateway ∧
      (p.run (exec e) w).2.clock = w.clock := by
  induction p generalizing w with
  | ret a => exact ⟨rfl, rfl, rfl⟩
  | call op k ih =>
      obtain ⟨hchain, hgateway, hclock⟩ := exec_outside (e := e) w op
      rw [run_call, ← hchain, ← hgateway, ← hclock]
      exact ih _ _

omit [GoRuntime] in
theorem run_untouched {α : Type} {p : EngineM α} {id : WorkloadID}
    (hp : Makes p fun op => ¬ op.Touches id) (w : World σ μ) :
    Untouched id w (p.run (exec e) w).2 := by
  induction p generalizing w with
  | ret a => exact .refl id w
  | call op k ih =>
      rw [run_call]
      exact (exec_untouched hp.1).trans (ih _ (hp.2 _ (exec_possible op w)) _)

omit [GoRuntime] in
theorem run_header_none {α : Type} {p : EngineM α} {k : DeploymentKey}
    (hp : Makes p fun op => op.creates = false) {w : World σ μ}
    (h : w.view.header k = none) : (p.run (exec e) w).2.view.header k = none := by
  induction p generalizing w with
  | ret a => exact h
  | call op f ih =>
      rw [run_call]
      exact ih _ (hp.2 _ (exec_possible op w)) (exec_header_none h hp.1)

omit [GoRuntime] in
theorem run_queue_kept {α : Type} {p : EngineM α}
    (hjobs : Makes p fun op => op.jobs = [])
    (hkeeps : Makes p fun op => ¬ op = .dequeue) (w : World σ μ) :
    (p.run (exec e) w).2.queue = w.queue := by
  induction p generalizing w with
  | ret a => rfl
  | call op k ih =>
      have hans := exec_possible (e := e) op w
      rw [run_call, ih _ (hjobs.2 _ hans) (hkeeps.2 _ hans),
        exec_queue_append w hkeeps.1, hjobs.1, List.append_nil]

omit [GoRuntime] in
/-- A program that takes one job off the queue and queues none. -/
theorem run_queue_once {α : Type} {p : EngineM α}
    (hjobs : Makes p fun op => op.jobs = []) (honce : DequeuesOnce p)
    {w : World σ μ} {job : EngineJob} {rest : List EngineJob}
    (hq : w.queue = job :: rest) : (p.run (exec e) w).2.queue = rest := by
  induction p generalizing w with
  | ret a => exact honce.elim
  | call op k ih =>
      have hans := exec_possible (e := e) op w
      rw [run_call]
      rcases honce with ⟨hop, hkeeps⟩ | ⟨hop, honce⟩
      · obtain rfl : op = .dequeue := hop
        rw [run_queue_kept (hjobs.2 _ hans) (hkeeps _ hans)]
        simp only [exec, hq]
      · refine ih _ (hjobs.2 _ hans) (honce _ hans) ?_
        rw [exec_queue_append w hop, hjobs.1, List.append_nil, hq]

omit [GoRuntime] in
/-- The end of a job takes it off the queue and does nothing else. -/
theorem run_finishJob (dl : Deployment) (delete : Bool) (w : World σ μ) :
    ((finishJob e dl delete).run (exec e) w).2 =
      { w with queue := w.queue.tail } := by
  have hdequeue : (exec e .dequeue w).2 = { w with queue := w.queue.tail } := by
    obtain ⟨store, node, queue, clock, chain, gateway⟩ := w
    cases queue <;> rfl
  rw [finishJob, run_bind, run_perform, hdequeue, safeCallback]
  split <;> rfl

omit [GoRuntime] in
/-- A call that is no `Dequeue` does not look at the queue. -/
theorem exec_requeue {op : Op} (hop : ¬ op = .dequeue) (w : World σ μ)
    (q : List EngineJob) :
    exec e op { w with queue := q } =
      ((exec e op w).1, { (exec e op w).2 with queue := q ++ op.jobs }) := by
  have hwrite : ∀ m : Except GoError σ,
      ({ w with queue := q } : World σ μ).write m =
        ((w.write m).1, { (w.write m).2 with queue := q ++ [] }) := by
    intro m
    rw [List.append_nil]
    cases m <;> rfl
  cases op with
  | storageCreate | storageUpdate | storageAdd | storageTransaction
  | storageRemove | storageDelete | storageError => exact hwrite _
  | enqueue job => rfl
  | dequeue => exact absurd rfl hop
  | _ => simp only [exec, Op.jobs, List.append_nil]

omit [GoRuntime] in
/-- A program that is still to take `pre` off the queue goes about its work
whatever comes after it there. -/
theorem run_requeue {α : Type} {J : EngineJob → Prop} {p : EngineM α}
    (hjobs : Makes p fun op => ∀ job ∈ op.jobs, J job) {pre : List EngineJob}
    (hpre : (Makes p fun op => ¬ op = .dequeue) ∧ pre = [] ∨
      DequeuesOnce p ∧ ∃ job, pre = [job]) (w : World σ μ) :
    ∃ (a : α) (t : World σ μ) (more : List EngineJob), (∀ job ∈ more, J job) ∧ ∀ q,
      p.run (exec e) { w with queue := pre ++ q } =
        (a, { t with queue := q ++ more }) := by
  induction p generalizing w pre with
  | ret a =>
      rcases hpre with ⟨_, rfl⟩ | ⟨honce, _⟩
      · refine ⟨a, w, [], List.forall_mem_nil _, fun q => ?_⟩
        rw [List.append_nil]
        rfl
      · exact honce.elim
  | call op k ih =>
      have hans := exec_possible (e := e) op w
      by_cases hop : op = .dequeue
      · subst hop
        rcases hpre with ⟨hno, _⟩ | ⟨⟨_, hk⟩ | ⟨hno, _⟩, job, rfl⟩
        · exact absurd rfl hno.1
        · obtain ⟨a, t, more, hmore, hrun⟩ := ih none (hjobs.2 _ trivial)
            (.inl ⟨hk none trivial, rfl⟩) w
          exact ⟨a, t, more, hmore, fun q => hrun q⟩
        · exact absurd rfl hno
      · have hrest : (Makes (k (exec e op w).1) fun op => ¬ op = .dequeue) ∧ pre = [] ∨
            DequeuesOnce (k (exec e op w).1) ∧ ∃ job, pre = [job] := by
          rcases hpre with ⟨hno, rfl⟩ | ⟨⟨heq, _⟩ | ⟨_, hk⟩, hone⟩
          · exact .inl ⟨hno.2 _ hans, rfl⟩
          · exact absurd heq hop
          · exact .inr ⟨hk _ hans, hone⟩
        obtain ⟨a, t, more, hmore, hrun⟩ := ih _ (hjobs.2 _ hans) hrest (exec e op w).2
        refine ⟨a, t, op.jobs ++ more, fun job hjob => ?_, fun q => ?_⟩
        · rcases List.mem_append.mp hjob with hjob | hjob
          · exact hjobs.1 job hjob
          · exact hmore job hjob
        · rw [run_call, exec_requeue hop]
          dsimp only
          rw [List.append_assoc, hrun, List.append_assoc]

theorem process_queue {job : EngineJob} {w : World σ μ} {head : EngineJob}
    {rest : List EngineJob} (hq : w.queue = head :: rest) :
    (process e job w).queue = rest :=
  run_queue_once (within_mono (processJob_makes job) fun _ h => h.jobs)
    (processJob_once job) hq

theorem drain_nil {w : World σ μ} (hq : w.queue = []) : drain e w = w := by
  rw [drain, hq, List.foldl_nil]

theorem drain_cons {w : World σ μ} {job : EngineJob} {rest : List EngineJob}
    (hq : w.queue = job :: rest) : drain e w = drain e (process e job w) := by
  rw [drain, drain, hq, List.foldl_cons, process_queue hq]

/-- To prove something of a drained queue, go through it job by job. -/
theorem drain_induction {I : List EngineJob → World σ μ → Prop}
    (hstep : ∀ job rest w, w.queue = job :: rest → I (job :: rest) w →
      I rest (process e job w)) {w : World σ μ} (h : I w.queue w) :
    I [] (drain e w) := by
  generalize hq : w.queue = jobs at h
  induction jobs generalizing w with
  | nil => rw [drain_nil hq]; exact h
  | cons job rest ih =>
      rw [drain_cons hq]
      exact ih (process_queue hq) (hstep job rest w hq h)

theorem drain_queue (w : World σ μ) : (drain e w).queue = [] :=
  drain_induction (I := fun jobs w => w.queue = jobs)
    (fun _ _ _ hq _ => process_queue hq) rfl

/-! ## As runs of the system -/

variable {r : ContractEventHandler μ}

/-- Only the worker acts. -/
def Action.ofWorker : Action μ → Prop
  | .take | .work => True
  | _ => False

/-- Where the worker leads by itself: it finishes the job it is at, and drains
the queue. -/
def Sys.completed (s : Sys σ μ) (r : ContractEventHandler μ) : World σ μ :=
  drain r.engine (s.worker.run (exec r.engine) s.world).2

theorem Sys.completed_of_idle {s : Sys σ μ} (h : s.Idle) :
    s.completed r = drain r.engine s.world := by
  obtain ⟨u, hu⟩ := h
  rw [Sys.completed, hu]
  rfl

theorem Sys.completed_step {s s' : Sys σ μ} {a : Action μ} (ha : a.ofWorker)
    (hs : s.step r a = some s') : s'.completed r = s.completed r := by
  cases a with
  | take =>
      obtain ⟨hidle, job, rest, hq, rfl⟩ := step_take hs
      rw [Sys.completed_of_idle hidle, drain_cons hq]
      rfl
  | work =>
      obtain ⟨op, k, hw, rfl⟩ := step_work hs
      rw [Sys.completed, Sys.completed, hw, run_call]
  | _ => exact ha.elim

/-- The worker by itself drains the queue to the one state it can. -/
theorem Run.completed {s s' : Sys σ μ} (hrun : Run r (fun _ a => a.ofWorker) s s')
    (hdrained : s'.Drained) : s'.world = s.completed r := by
  have hsame : s'.completed r = s.completed r :=
    hrun.invariant (I := fun t => t.completed r = s.completed r)
      (fun _ _ _ h ha hs => (Sys.completed_step ha hs).trans h) rfl
  rw [← hsame, Sys.completed_of_idle hdrained.1, drain_nil hdrained.2]

end Zos4.Provision
