import Zos4.Provision.Events

/-!
# The node as a system

One worker goroutine takes jobs off the queue, any number of other goroutines
serve the engine's API or run a contract sync, and all of them act on one
`World`, one call at a time. `step` is one action of that system. Whoever the
action belongs to makes exactly its next call, so a run of `step` is an
interleaving of calls, and between two calls of one goroutine anything the
others and the outside can do may happen.

The log keeps every call made, newest first, with who made it. No code reads
it; it is what a result means by the last accepted update, or by the last job
that wrote a workload.
-/

namespace Zos4.Provision

open Zos4.Interaction Prog

variable [Zosbase] [GoRuntime] {σ μ : Type} [Storage σ]

/-- What a goroutine other than the worker runs. -/
inductive Routine where
  | request (r : Request)
  | sync
  deriving DecidableEq

inductive Who where
  | worker (job : Option EngineJob)
  | routine
  deriving DecidableEq

/-- A call that was made, and what it was answered. -/
structure Event where
  who : Who
  op : Op
  ret : op.Ret

structure Sys (σ μ : Type) where
  world : World σ μ
  /-- The job of the worker loop's current iteration. -/
  job : Option EngineJob
  /-- What is left of the worker's iteration; idle once it has returned. -/
  worker : EngineM Unit
  routines : List (EngineM (Option GoError))
  log : List Event

def Routine.prog (r : ContractEventHandler μ) : Routine → EngineM (Option GoError)
  | .request req => invoke r.engine req
  | .sync => Provision.sync r

/-- Start the engine process: the routines are gone, and a start after a boot
drops the queue and runs `boot`. -/
def Sys.start (r : ContractEventHandler μ) (rerunAll : Bool) (w : World σ μ)
    (log : List Event) : Sys σ μ where
  world := if rerunAll then { w with queue := [] } else w
  job := none
  worker := startup { r.engine with rerunAll := rerunAll }
  routines := []
  log := log

inductive Action (μ : Type) where
  /-- A goroutine is started. -/
  | spawn (r : Routine)
  /-- Routine `i` makes its next call. -/
  | routine (i : Nat)
  /-- The idle worker peeks at the queue. -/
  | take
  /-- The worker makes its next call. -/
  | work
  /-- Time passes, the chain moves, the outside changes its answers. -/
  | outside (clock : Timestamp) (chain : Chain) (gateway : Gateway)
  /-- The engine process is restarted on a running node. -/
  | restart
  /-- It is restarted and `New` removes the queue: the last start could not open it, or the
  boot has not been marked since, and then `boot` runs again. -/
  | clear (rerunAll : Bool)
  /-- The node reboots; nothing stays installed. -/
  | reboot (rest : μ)

/-- No process start. -/
def Action.continues : Action μ → Prop
  | .restart | .clear _ | .reboot _ => False
  | _ => True

/-- A goroutine's next call, made on the world. -/
def advance {α : Type} (e : NativeEngine μ) (who : Who) :
    EngineM α → World σ μ → Option (EngineM α × World σ μ × Event)
  | .ret _, _ => none
  | .call op k, w =>
      match exec e op w with
      | (r, w') => some (k r, w', ⟨who, op, r⟩)

def Sys.step (r : ContractEventHandler μ) (s : Sys σ μ) :
    Action μ → Option (Sys σ μ)
  | .spawn routine => some { s with routines := s.routines ++ [routine.prog r] }
  | .routine i =>
      match s.routines[i]? with
      | none => none
      | some p =>
          match advance r.engine .routine p s.world with
          | none => none
          | some (p', w', ev) =>
              some { s with
                world := w'
                routines := s.routines.set i p'
                log := ev :: s.log }
  | .take =>
      match s.worker, s.world.queue with
      | .ret _, job :: _ =>
          some { s with job := some job, worker := processJob r.engine job }
      | _, _ => none
  | .work =>
      match advance r.engine (.worker s.job) s.worker s.world with
      | none => none
      | some (p', w', ev) =>
          some { s with world := w', worker := p', log := ev :: s.log }
  | .outside clock chain gateway =>
      some { s with world :=
        { s.world with clock := clock, chain := chain, gateway := gateway } }
  | .restart => some (Sys.start r false s.world s.log)
  | .clear rerunAll =>
      some (Sys.start r rerunAll { s.world with queue := [] } s.log)
  | .reboot rest =>
      some (Sys.start r true
        { s.world with node := ⟨fun _ => false, rest⟩ } s.log)

omit [Storage σ] [GoRuntime] in
/-- Told to rerun all or not, a process that starts with no queue has the world as it is. -/
theorem Sys.start_cleared (r : ContractEventHandler μ) (rerunAll : Bool) (w : World σ μ)
    (log : List Event) :
    (Sys.start r rerunAll { w with queue := [] } log).world = { w with queue := [] } := by
  cases rerunAll with
  | true | false => rfl

/-- The actions carried out in order, each one possible where it comes and
permitted by `ok`. -/
inductive Run (r : ContractEventHandler μ) (ok : Sys σ μ → Action μ → Prop) :
    Sys σ μ → Sys σ μ → Prop
  | refl (s : Sys σ μ) : Run r ok s s
  | tail {s s' s'' : Sys σ μ} {a : Action μ} :
      Run r ok s s' → ok s' a → s'.step r a = some s'' → Run r ok s s''

/-- An invariant of the permitted actions holds wherever a run leads. -/
theorem Run.invariant {r : ContractEventHandler μ}
    {ok : Sys σ μ → Action μ → Prop} {I : Sys σ μ → Prop}
    (hstep : ∀ s a s', I s → ok s a → s.step r a = some s' → I s')
    {s s' : Sys σ μ} (hrun : Run r ok s s') (h : I s) : I s' := by
  induction hrun with
  | refl => exact h
  | tail _ hok hs ih => exact hstep _ _ _ ih hok hs

theorem Run.mono {r : ContractEventHandler μ}
    {ok ok' : Sys σ μ → Action μ → Prop} (himp : ∀ s a, ok s a → ok' s a)
    {s s' : Sys σ μ} (hrun : Run r ok s s') : Run r ok' s s' := by
  induction hrun with
  | refl => exact .refl _
  | tail _ hok hs ih => exact .tail ih (himp _ _ hok) hs

theorem Run.trans {r : ContractEventHandler μ}
    {ok : Sys σ μ → Action μ → Prop} {s s' s'' : Sys σ μ}
    (h : Run r ok s s') (h' : Run r ok s' s'') : Run r ok s s'' := by
  induction h' with
  | refl => exact h
  | tail _ hok hs ih => exact .tail ih hok hs

/-- The worker is between two jobs. -/
def Sys.Idle (s : Sys σ μ) : Prop := ∃ u, s.worker = .ret u

/-- The queue is empty and nothing taken from it is still being processed. -/
def Sys.Drained (s : Sys σ μ) : Prop := s.Idle ∧ s.world.queue = []

/-- The engine process has just started and has nothing to do. -/
structure Sys.Fresh (s : Sys σ μ) : Prop where
  idle : s.Idle
  queue : s.world.queue = []
  routines : s.routines = []
  log : s.log = []

/-- The worker is about to refuse the job it validated. -/
def Sys.refusing (s : Sys σ μ) : Bool :=
  match s.worker with
  | .call (.storageError _ _) _ => true
  | _ => false

/-- The jobs accepted so far, in order. -/
def accepted (log : List Event) : List EngineJob :=
  log.reverse.filterMap fun ev =>
    match ev.op with
    | .enqueue job => some job
    | _ => none

end Zos4.Provision
