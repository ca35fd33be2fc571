import Zos4.Provision.Worker

/-!
# Where the worker is

A worker is starting up, or working on a job that is still at the head of the
queue, or past that and about to tell the callback. `Sys.Staged` says so of
every reachable state, and in each of the three it says which calls are left:
a start only reads and queues, and what it queues is a deployment it has read
in the call before (`Boots`); a job makes its own calls and then takes itself
off the queue; and past that only the callback is left.
-/

namespace Zos4.Provision

open Zos4.Interaction Prog

variable [Zosbase] {σ μ : Type} [Storage σ] {e : NativeEngine μ}

/-! ## Starting up -/

/-- What was read by a call, if it was a deployment. -/
def Op.readBy : (op : Op) → op.Ret → Option Deployment
  | .storageGet _, .ok dl => some dl
  | _, _ => none

/-- A program that only reads, and queues only a deployment read in the call
before; `fresh` is what was read before its first call. -/
def Boots {α : Type} (fresh : Option Deployment) : EngineM α → Prop
  | .ret _ => True
  | .call op k =>
      (op.isStartup = true ∧ ∀ job ∈ op.jobs, ∃ dl, fresh = some dl ∧
        job = .opProvisionNoValidation dl) ∧
      ∀ r, op.Possible r → Boots (op.readBy r) (k r)

section

variable {α β : Type}

theorem Boots.mono {fresh : Option Deployment} {p : EngineM α} (h : Boots none p) :
    Boots fresh p := by
  cases p with
  | ret a => trivial
  | call op k =>
      obtain ⟨⟨hop, hjobs⟩, hk⟩ := h
      refine ⟨⟨hop, fun job hjob => ?_⟩, hk⟩
      obtain ⟨dl, hfresh, _⟩ := hjobs job hjob
      cases hfresh

theorem boots_bind {fresh : Option Deployment} {p : EngineM α} {f : α → EngineM β}
    (hp : Boots fresh p) (hf : ∀ a, Boots none (f a)) : Boots fresh (p >>= f) := by
  induction p generalizing fresh with
  | ret a => exact (hf a).mono
  | call op k ih => exact ⟨hp.1, fun r hr => ih r (hp.2 r hr)⟩

theorem boots_forM {l : List α} {body : α → EngineM PUnit}
    (hbody : ∀ x, Boots none (body x)) : Boots none (l.forM body) := by
  induction l with
  | nil => trivial
  | cons x xs ih => exact boots_bind (hbody x) fun _ => ih

theorem Boots.makes {fresh : Option Deployment} {p : EngineM α} (h : Boots fresh p) :
    Makes p fun op => op.isStartup = true := by
  induction p generalizing fresh with
  | ret a => trivial
  | call op k ih => exact ⟨h.1.1, fun r hr => ih r (h.2 r hr)⟩

/-- A call that queues nothing. -/
theorem boots_call {fresh : Option Deployment} {op : Op} {k : op.Ret → EngineM α}
    (hop : op.isStartup = true) (hjobs : op.jobs = [])
    (hk : ∀ r, op.Possible r → Boots (op.readBy r) (k r)) :
    Boots fresh (.call op k) := by
  refine ⟨⟨hop, ?_⟩, hk⟩
  rw [hjobs]
  exact List.forall_mem_nil _

theorem bootDeployment_boots (key : DeploymentKey) :
    Boots none (bootDeployment key) := by
  refine boots_call rfl rfl fun read _ => ?_
  cases read with
  | error err => trivial
  | ok dl =>
      show Boots (some dl) (if !dl.isActive then pure () else _)
      split
      · trivial
      · refine ⟨⟨rfl, List.forall_mem_singleton.mpr ⟨dl, rfl, rfl⟩⟩, ?_⟩
        exact fun _ _ => trivial

theorem bootTwin_boots (twin : TwinID) : Boots none (bootTwin twin) := by
  refine boots_call rfl rfl fun ids _ => Boots.mono ?_
  cases ids with
  | error err => trivial
  | ok ids => exact boots_forM fun id => bootDeployment_boots ⟨twin, id⟩

theorem boot_boots : Boots none boot := by
  refine boots_call rfl rfl fun twins _ => Boots.mono ?_
  cases twins with
  | error err => trivial
  | ok twins =>
      show Boots none (twins.forM bootTwin >>= fun _ => pure none)
      exact boots_bind (boots_forM bootTwin_boots) fun _ => trivial

theorem startup_boots (e : NativeEngine μ) : Boots none (startup e) := by
  rw [startup]
  split
  · exact boots_bind boot_boots fun _ => trivial
  · trivial

/-- Unless it is about to queue, it does not matter what was read before. -/
theorem Boots.drop {fresh : Option Deployment} {p : EngineM α} (h : Boots fresh p)
    (hp : ∀ job k, p ≠ .call (.enqueue job) k) : Boots none p := by
  cases p with
  | ret a => trivial
  | call op k =>
      refine ⟨⟨h.1.1, fun job hjob => ?_⟩, h.2⟩
      cases op with
      | enqueue job' => exact absurd rfl (hp job' k)
      | _ => cases hjob

end

/-! ## Working on a job -/

/-- Only the callback is left. -/
def EngineJob.Tells (job : EngineJob) (op : Op) : Prop :=
  op = .callback job.target.twinID job.target.contractID job.removes

section

variable [GoRuntime]

omit [GoRuntime] in
theorem finishJob_closes (job : EngineJob) :
    (finishJob e job.target job.removes).Closes Op.Possible
      (fun op : Op => op = .dequeue) job.Tells := by
  refine closes_perform_bind rfl fun _ _ => ?_
  rw [safeCallback]
  split
  · exact within_perform rfl
  · trivial

theorem processJob_closes (job : EngineJob) :
    (processJob e job).Closes Op.Possible (fun op : Op => op = .dequeue)
      job.Tells := by
  have hrun : (runJob e job).Closes Op.Possible (fun op : Op => op = .dequeue)
      job.Tells := by
    rw [runJob_eq]
    exact closes_bind (EngineJob.body_no_dequeue job) fun _ => finishJob_closes job
  rw [processJob]
  split
  · exact hrun
  · refine closes_bind (within_mono (validate_makes _ _) ?_) fun ans => ?_
    · rintro op (rfl | rfl) h <;> cases h
    · cases ans with
      | none => exact hrun
      | some err =>
          refine closes_bind (within_perform (by simp)) fun _ => ?_
          exact closes_perform_bind rfl fun _ _ => trivial

/-! ## The three stages -/

/-- The worker's stage, with what is left of its program. -/
inductive Sys.Stage (e : NativeEngine μ) (s : Sys σ μ) : Prop
  | starting (fresh : Option Deployment) (h : Boots fresh s.worker)
  | working (job : EngineJob) (rest : List EngineJob) (hjob : s.job = some job)
      (hqueue : s.world.queue = job :: rest)
      (hcloses : s.worker.Closes Op.Possible (fun op : Op => op = .dequeue) job.Tells)
      (hcalls : Makes s.worker (job.Calls e))
  | closing (job : EngineJob) (hjob : s.job = some job)
      (hcalls : Makes s.worker job.Tells)

structure Sys.Staged (e : NativeEngine μ) (s : Sys σ μ) : Prop where
  stage : s.Stage e
  routines : ∀ p ∈ s.routines, Makes p Op.OfRoutine
  jobs : Queued UpdatesAccepted s.world

variable {r : ContractEventHandler μ}

omit [Storage σ] in
theorem Sys.Staged.start {rerunAll : Bool} {w : World σ μ} {log : List Event}
    (hjobs : Queued UpdatesAccepted w) :
    (Sys.start r rerunAll w log).Staged r.engine := by
  refine ⟨.starting none (startup_boots _), (fun _ hp => nomatch hp), ?_⟩
  cases rerunAll with
  | true => exact .of_empty rfl
  | false => exact hjobs

omit [Storage σ] in
theorem Sys.Fresh.staged {s : Sys σ μ} (h : s.Fresh) : s.Staged e := by
  obtain ⟨⟨u, hu⟩, hq, hr, _⟩ := h
  refine ⟨.starting none ?_, ?_, .of_empty hq⟩
  · rw [hu]
    trivial
  · rw [hr]
    exact fun _ hp => nomatch hp

omit [Storage σ] in
/-- A stage depends on the worker and the queue, and the queue may grow. -/
theorem Sys.Stage.grow {s s' : Sys σ μ} (h : s.Stage e) (hjob : s'.job = s.job)
    (hworker : s'.worker = s.worker)
    (hqueue : ∃ more, s'.world.queue = s.world.queue ++ more) : s'.Stage e := by
  obtain ⟨more, hmore⟩ := hqueue
  cases h with
  | starting fresh h => exact .starting fresh (hworker ▸ h)
  | working job rest hj hq hcloses hcalls =>
      refine .working job (rest ++ more) (hjob.trans hj) ?_ (hworker ▸ hcloses)
        (hworker ▸ hcalls)
      rw [hmore, hq, List.cons_append]
  | closing job hj hcalls => exact .closing job (hjob.trans hj) (hworker ▸ hcalls)

theorem Sys.Staged.step {s s' : Sys σ μ} {a : Action μ} (h : s.Staged r.engine)
    (hs : s.step r a = some s') : s'.Staged r.engine := by
  cases a with
  | spawn routine =>
      obtain rfl := step_spawn hs
      refine ⟨h.stage.grow rfl rfl ⟨[], (List.append_nil _).symm⟩,
        fun p hp => ?_, h.jobs⟩
      rcases List.mem_append.mp hp with hp | hp
      · exact h.routines p hp
      · obtain rfl := List.mem_singleton.mp hp
        exact routine_calls routine
  | routine i =>
      obtain ⟨op, k, hi, rfl⟩ := step_routine hs
      obtain ⟨hop, hk⟩ := h.routines _ (List.mem_of_getElem? hi)
      refine ⟨h.stage.grow rfl rfl ⟨_, exec_queue_append s.world hop.keeps⟩,
        fun p hp => ?_, h.jobs.call hop.jobs⟩
      rcases List.mem_or_eq_of_mem_set hp with hp | rfl
      · exact h.routines p hp
      · exact hk _ (exec_possible op s.world)
  | take =>
      obtain ⟨_, job, rest, hq, rfl⟩ := step_take hs
      exact ⟨.working job rest rfl hq (processJob_closes job) (processJob_makes job),
        h.routines, h.jobs⟩
  | work =>
      obtain ⟨op, k, hw, rfl⟩ := step_work hs
      have hans := exec_possible (e := r.engine) op s.world
      cases h.stage with
      | starting fresh hboots =>
          rw [hw] at hboots
          exact ⟨.starting _ (hboots.2 _ hans), h.routines,
            h.jobs.call (startup_accepted hboots.1.1)⟩
      | working job rest hj hq hcloses hcalls =>
          rw [hw] at hcloses hcalls
          refine ⟨?_, h.routines, h.jobs.call ?_⟩
          · rcases hcloses with ⟨_, hk⟩ | ⟨hop, hk⟩
            · exact .closing job hj (hk _ hans)
            · refine .working job (rest ++ op.jobs) hj ?_ (hk _ hans)
                (hcalls.2 _ hans)
              rw [exec_queue_append s.world hop, hq, List.cons_append]
          · rw [hcalls.1.jobs]
            exact List.forall_mem_nil _
      | closing job hj hcalls =>
          rw [hw] at hcalls
          obtain ⟨rfl, hk⟩ := hcalls
          exact ⟨.closing job hj (hk _ hans), h.routines,
            h.jobs.call (List.forall_mem_nil _)⟩
  | outside clock chain gateway =>
      obtain rfl := step_outside hs
      exact ⟨h.stage.grow rfl rfl ⟨[], (List.append_nil _).symm⟩, h.routines, h.jobs⟩
  | restart => obtain rfl := step_restart hs; exact .start h.jobs
  | clear rerunAll => obtain rfl := step_clear hs; exact .start (.of_empty rfl)
  | reboot rest => obtain rfl := step_reboot hs; exact .start h.jobs

omit [Zosbase] [Storage σ] [GoRuntime] in
theorem jobs_of_isStartup {op : Op} (h : op.isStartup = true) :
    ∀ job ∈ op.jobs, ∃ dl, job = .opProvisionNoValidation dl := by
  cases op with
  | enqueue job =>
      refine List.forall_mem_singleton.mpr ?_
      cases job with
      | opProvisionNoValidation dl => exact ⟨dl, rfl⟩
      | _ => cases h
  | _ => exact List.forall_mem_nil _

omit [Storage σ] in
/-- The worker queues nothing but what a start queues. -/
theorem Sys.Staged.queues {s : Sys σ μ} (h : s.Staged e) :
    Makes s.worker fun op => ∀ job ∈ op.jobs, ∃ dl,
      job = .opProvisionNoValidation dl := by
  cases h.stage with
  | starting fresh hboots =>
      exact within_mono hboots.makes fun _ hop => jobs_of_isStartup hop
  | working job rest _ _ _ hcalls =>
      refine within_mono hcalls fun op hop => ?_
      rw [hop.jobs]
      exact List.forall_mem_nil _
  | closing job _ hcalls =>
      refine within_mono hcalls ?_
      rintro op rfl
      exact List.forall_mem_nil _

theorem Run.staged {ok : Sys σ μ → Action μ → Prop} {s s' : Sys σ μ}
    (hrun : Run r ok s s') (h : s.Staged r.engine) : s'.Staged r.engine :=
  hrun.invariant (fun _ _ _ h _ hs => h.step hs) h

end

end Zos4.Provision
