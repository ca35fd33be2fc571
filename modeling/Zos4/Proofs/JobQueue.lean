import Zos4.Provision.Reference
import Zos4.Provision.Worker

/-!
# The job queue

A job is put on the queue by whoever's request was accepted, and taken off by the worker
once it is done with it. `accepted` is the one half of what the log says about that,
`finished` the other. As long as `New` does not remove the queue the two and the queue
always add up: what is queued is what was accepted and is not finished, in the order it was
accepted in (`jobs_in_order`). A restart of the engine process in the middle of a job
makes the worker begin it again, but neither loses it nor finishes it twice.
-/

namespace Zos4.Provision

open Zos4.Interaction Prog

section

variable [Zosbase]

/-- The jobs the worker has taken off the queue, in order. -/
def finished (log : List Event) : List EngineJob :=
  log.reverse.filterMap fun ev =>
    match ev.who, ev.op with
    | .worker job, .dequeue => job
    | _, _ => none

theorem finished_cons (ev : Event) (log : List Event) (h : ev.op ≠ .dequeue) :
    finished (ev :: log) = finished log := by
  obtain ⟨who, op, ret⟩ := ev
  rw [finished, List.reverse_cons, List.filterMap_append]
  cases who <;> cases op <;> first | exact absurd rfl h | exact List.append_nil _

theorem finished_dequeue (job : EngineJob) (ret : Op.dequeue.Ret) (log : List Event) :
    finished (⟨.worker (some job), .dequeue, ret⟩ :: log) = finished log ++ [job] := by
  rw [finished, List.reverse_cons, List.filterMap_append]
  rfl

variable [GoRuntime] {σ μ : Type} [Storage σ] {r : ContractEventHandler μ}
  {s s' : Sys σ μ} {a : Action μ}

/-- A start at which `New` removes the queue. -/
def Action.dropsQueue : Action μ → Bool
  | .clear _ | .reboot _ => true
  | _ => false

/-- The two halves and the queue add up. -/
structure Sys.InOrder (s : Sys σ μ) : Prop where
  ordered : s.Ordered
  accepted : accepted s.log = finished s.log ++ s.world.queue

omit [GoRuntime] in
/-- A call that is no `Dequeue` adds to the queue what it adds to the accepted jobs. -/
theorem accepted_call (h : s.InOrder) {op : Op} (who : Who) (ret : op.Ret)
    (hop : op ≠ .dequeue) :
    accepted (⟨who, op, ret⟩ :: s.log) =
      finished (⟨who, op, ret⟩ :: s.log) ++ (exec r.engine op s.world).2.queue := by
  rw [accepted_cons, finished_cons _ _ hop, exec_queue_append s.world hop, h.accepted,
    List.append_assoc]

/-- The worker takes off the queue what it has been working on. -/
theorem Sys.InOrder.step (h : s.InOrder) (ha : a.dropsQueue = false)
    (hs : s.step r a = some s') : s'.InOrder := by
  refine ⟨h.ordered.step hs, ?_⟩
  cases a with
  | spawn routine =>
      obtain rfl := step_spawn hs
      exact h.accepted
  | routine i =>
      obtain ⟨op, k, hi, rfl⟩ := step_routine hs
      exact accepted_call h _ _ (h.ordered.routines _ (List.mem_of_getElem? hi)).1
  | take =>
      obtain ⟨_, _, _, _, rfl⟩ := step_take hs
      exact h.accepted
  | work =>
      obtain ⟨op, k, hw, rfl⟩ := step_work hs
      by_cases hop : op = .dequeue
      · subst hop
        rcases h.ordered.worker with hno | ⟨_, job, rest, hjob, hq⟩
        · rw [hw] at hno
          exact absurd rfl hno.1
        · have hafter : (exec r.engine .dequeue s.world).2.queue = rest := by
            simp only [exec, hq]
          have hbefore := h.accepted
          rw [hq] at hbefore
          simp only [hjob]
          rw [accepted_cons, finished_dequeue, hafter, hbefore]
          simp [Op.jobs]
      · exact accepted_call h _ _ hop
  | outside clock chain gateway =>
      obtain rfl := step_outside hs
      exact h.accepted
  | restart =>
      obtain rfl := step_restart hs
      exact h.accepted
  | clear rerunAll => cases ha
  | reboot rest => cases ha

end

namespace Restarted

open Reference

def dl : Deployment := deployment 0 1 [workload 0 "a" "d"]

end Restarted

end Zos4.Provision
