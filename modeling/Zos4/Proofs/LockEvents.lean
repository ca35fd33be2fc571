import Zos4.Provision.EventLoop
import Zos4.Provision.Locks
import Zos4.Provision.Passes
import Zos4.Provision.Reference

/-!
# Events and the periodic sync

The chain locks and unlocks a contract and sends an event for each change. The
event loop turns every event into a request, and a sync makes a request of its
own if what it has read of the contract is not what it has read of the
deployment. Taking for granted that the engine leaves a deployment as the last
request wants it, does it end up as the contract wants it?

As long as an event is on its way nothing has to be right, since its request
comes last. Otherwise it is the last request in the queue that counts, or else what
is stored: the `outcome`. Every step keeps it at the state of the contract, once it
is there, but one. A sync may have read the contract before the last change, and
enqueue its request after the event of that change has been handled. `InTime`
excludes it.

The outcome is there from the start, or else from when the contract is spoken of: an
event about it is sent, or a sync makes a request. Neither need come to pass. A sync
that cannot read the contract passes over it.
-/

namespace Zos4.Provision

open Zos4.Interaction Prog

section

variable [Zosbase] {σ μ : Type} [Storage σ] {e : NativeEngine μ}

/-! ## What is asked for -/

/-- The state of a contract on the chain. -/
def Chain.locked (c : Chain) (id : ContractID) : Bool :=
  (c.contract id).any (·.isGracePeriod)

/-- Whether the stored deployment is paused. -/
def pausedAt (store : σ) (k : DeploymentKey) : Option Bool :=
  match Storage.get store k with
  | .error _ => none
  | .ok dl => some (isLocked dl)

/-- What a job asks for of the deployment, if it is a lock job of it. -/
def lockOf (k : DeploymentKey) : EngineJob → Option Bool
  | .opPause dl => if dl.key = k then some true else none
  | .opResume dl => if dl.key = k then some false else none
  | _ => none

/-- What the last lock job asks for, or what is stored if there is none. -/
def World.outcome (w : World σ μ) (k : DeploymentKey) : Option Bool :=
  (w.queue.reverse.findSome? (lockOf k)).or (pausedAt w.store k)

/-- No other job of the deployment comes after its last lock job. -/
def Decided (k : DeploymentKey) : List EngineJob → Prop
  | [] => True
  | job :: rest => Decided k rest ∧ (job.target.key = k → lockOf k job = none →
      rest.reverse.findSome? (lockOf k) ≠ none)

/-- What the last event about the contract says. -/
def lastLock (id : ContractID) (events : List ContractLockedEvent) : Option Bool :=
  events.reverse.findSome? fun event =>
    if event.contract = id then some event.lock else none

/-- A call that writes nothing and queues only jobs in `J`. -/
structure Op.Only (J : EngineJob → Prop) (op : Op) : Prop where
  reads : op.writes = false
  keeps : ¬ op = .dequeue
  jobs : ∀ job ∈ op.jobs, J job

omit [Zosbase] [Storage σ] in
theorem lockOf_key {k : DeploymentKey} {job : EngineJob} {lock : Bool}
    (h : lockOf k job = some lock) : job.target.key = k := by
  cases job with
  | opPause dl | opResume dl =>
      simp only [lockOf] at h
      split at h
      · next hkey => exact hkey
      · cases h
  | _ => cases h

omit [Zosbase] [Storage σ] in
theorem decided_append_lock {k : DeploymentKey} {queue : List EngineJob} {job : EngineJob}
    {lock : Bool} (hlock : lockOf k job = some lock) : Decided k (queue ++ [job]) := by
  induction queue with
  | nil => exact ⟨trivial, fun _ hnone => absurd (hlock.symm.trans hnone) (by simp)⟩
  | cons first rest ih =>
      refine ⟨ih, fun _ _ => ?_⟩
      rw [List.append_eq, List.reverse_append, List.reverse_singleton, List.singleton_append,
        List.findSome?_cons, hlock]
      exact Option.some_ne_none _

omit [Zosbase] [Storage σ] in
theorem decided_append_other {k : DeploymentKey} {queue : List EngineJob} {job : EngineJob}
    (h : Decided k queue) (hkey : job.target.key ≠ k) : Decided k (queue ++ [job]) := by
  induction queue with
  | nil => exact ⟨trivial, fun hkey' => absurd hkey' hkey⟩
  | cons first rest ih =>
      refine ⟨ih h.1, fun hfirst hnone => ?_⟩
      rw [List.append_eq, List.reverse_append, List.findSome?_append]
      exact fun hall => h.2 hfirst hnone (Option.or_eq_none_iff.mp hall).2

theorem outcome_call {J : EngineJob → Prop} {op : Op} (hop : op.Only J)
    (w : World σ μ) (k : DeploymentKey) :
    (exec e op w).2.outcome k =
      (op.jobs.reverse.findSome? (lockOf k)).or (w.outcome k) := by
  rw [World.outcome, exec_queue_append w hop.keeps, exec_store w hop.reads,
    List.reverse_append, List.findSome?_append, Option.or_assoc]
  rfl

omit [Zosbase] [Storage σ] in
theorem lastLock_append (id : ContractID) (events events' : List ContractLockedEvent) :
    lastLock id (events ++ events') = (lastLock id events').or (lastLock id events) := by
  rw [lastLock, List.reverse_append, List.findSome?_append]
  rfl

/-! ## What the programs do -/

/-- The answers while the deployment is stored and its contract is on the list. -/
def Answers (node : UInt32) (k : DeploymentKey) : (op : Op) → op.Ret → Prop
  | .storageGet key, .error _ => key ≠ k
  | .storageGet key, .ok dl => dl.key = key
  | .getNodeContracts node', .ok ids => node' = node → k.contract ∈ ids
  | _, _ => True

/-- The list of the node's contracts has the contract on it. -/
def Lists (g : Gateway) (node : UInt32) (id : ContractID) : Prop :=
  ∀ ids, g.getNodeContracts node = .ok ids → id ∈ ids

theorem answers_exec {w : World σ μ} {node : UInt32} {k : DeploymentKey}
    (hlists : Lists w.gateway node k.contract) (hstored : pausedAt w.store k ≠ none)
    (op : Op) : Answers node k op (exec e op w).1 := by
  cases op with
  | storageGet key =>
      show Answers node k (.storageGet key) (Storage.get w.store key)
      cases hget : Storage.get w.store key with
      | ok dl => exact (Storage.get_ok hget).1
      | error err =>
          rintro rfl
          rw [pausedAt, hget] at hstored
          exact hstored rfl
  | getNodeContracts node' =>
      show Answers node k (.getNodeContracts node') (w.gateway.getNodeContracts node')
      cases hids : w.gateway.getNodeContracts node' with
      | error err => trivial
      | ok ids =>
          rintro rfl
          exact hlists ids hids
  | _ => trivial

/-- What a sync queues for the deployment is a lock job. -/
def Locks (k : DeploymentKey) (job : EngineJob) : Prop :=
  job.target.key = k → ∃ lock, lockOf k job = some lock

variable {node : UInt32} {k : DeploymentKey}

theorem invoke_only {J : EngineJob → Prop} {req : Request} {key : DeploymentKey}
    {job : Deployment → EngineJob}
    (hreq : invoke e req = (entered req >>= fun _ => schedule key job))
    (hjob : ∀ dl, dl.key = key → J (job dl)) :
    (invoke e req).Within (Answers node k) (Op.Only J) := by
  have hreads : ∀ op : Op, op.writes = false → op.jobs = [] → ¬ op = .dequeue →
      op.Only J := by
    intro op hwrites hjobs hkeeps
    refine ⟨hwrites, hkeeps, ?_⟩
    rw [hjobs]
    exact List.forall_mem_nil _
  rw [hreq]
  refine within_perform_bind (hreads _ rfl rfl (by simp)) fun _ _ => ?_
  refine within_perform_bind (hreads _ rfl rfl (by simp)) fun ans hans => ?_
  cases ans with
  | error err => trivial
  | ok dl =>
      exact within_perform ⟨rfl, by simp, List.forall_mem_singleton.mpr (hjob dl hans)⟩

theorem logged_within {R : (op : Op) → op.Ret → Prop} {A : Op → Prop}
    {op : EngineM (Option GoError)} (h : Prog.Within R A op) :
    Prog.Within R A (logged op) :=
  within_bind h fun _ => trivial

omit [Zosbase] [Storage σ] in
theorem locks_lockJob (lock : Bool) (dl : Deployment) : Locks k (lockJob lock dl) := by
  intro hkey
  refine ⟨lock, ?_⟩
  cases lock with
  | true | false => exact if_pos hkey

/-- The request of an event, to a deployment of another contract. -/
theorem handleLocked_other {r : ContractEventHandler μ} {event : ContractLockedEvent}
    (hother : event.contract ≠ k.contract) :
    (handleLocked r event).Within (Answers node k)
      (Op.Only fun job => job.target.key ≠ k) := by
  have hkey : ∀ dl : Deployment, dl.key = ⟨event.twinId, event.contract⟩ →
      dl.key ≠ k := by
    rintro dl hdl rfl
    exact hother (congrArg DeploymentKey.contract hdl).symm
  rw [handleLocked]
  split
  · exact logged_within (invoke_only rfl hkey)
  · exact logged_within (invoke_only rfl hkey)

theorem handleCancelled_other {r : ContractEventHandler μ}
    {event : ContractCancelledEvent} (hother : event.contract ≠ k.contract) :
    (handleCancelled r event).Within (Answers node k)
      (Op.Only fun job => job.target.key ≠ k) := by
  refine logged_within (invoke_only rfl ?_)
  rintro dl hdl rfl
  exact hother (congrArg DeploymentKey.contract hdl).symm

/-- The call that queues what the event asks for. -/
def Op.Asks (k : DeploymentKey) (lock : Bool) (op : Op) : Prop :=
  ∃ job, op = .enqueue job ∧ lockOf k job = some lock

/-- The request of an event of the deployment: it queues what the event asks for,
and that is its last call. -/
theorem handleLocked_asks {r : ContractEventHandler μ} {event : ContractLockedEvent}
    (hkey : (⟨event.twinId, event.contract⟩ : DeploymentKey) = k) :
    (handleLocked r event).Within (Answers node k)
        (Op.Only fun job => lockOf k job = some event.lock) ∧
      (handleLocked r event).Closes (Answers node k) (Op.Asks k event.lock)
        fun _ => False := by
  subst hkey
  have hasks : ∀ {req : Request} {job : Deployment → EngineJob},
      (∀ dl : Deployment, dl.key = ⟨event.twinId, event.contract⟩ →
        lockOf ⟨event.twinId, event.contract⟩ (job dl) = some event.lock) →
      invoke r.engine req = (entered req >>= fun _ =>
        schedule ⟨event.twinId, event.contract⟩ job) →
      (logged (invoke r.engine req)).Closes
        (Answers node ⟨event.twinId, event.contract⟩)
        (Op.Asks ⟨event.twinId, event.contract⟩ event.lock) fun _ => False := by
    intro req job hjob hreq
    rw [hreq]
    refine .inr ⟨by simp [Op.Asks], fun _ _ => .inr ⟨by simp [Op.Asks], ?_⟩⟩
    intro ans hans
    cases ans with
    | error err => exact absurd rfl hans
    | ok dl => exact .inl ⟨⟨_, rfl, hjob dl hans⟩, fun _ _ => trivial⟩
  rw [handleLocked]
  split
  · next hlock =>
      have hjob : ∀ dl : Deployment, dl.key = ⟨event.twinId, event.contract⟩ →
          lockOf ⟨event.twinId, event.contract⟩ (.opPause dl) = some event.lock := by
        intro dl hdl
        rw [lockOf, if_pos hdl, hlock]
      exact ⟨logged_within (invoke_only rfl hjob), hasks hjob rfl⟩
  · next hlock =>
      have hjob : ∀ dl : Deployment, dl.key = ⟨event.twinId, event.contract⟩ →
          lockOf ⟨event.twinId, event.contract⟩ (.opResume dl) = some event.lock := by
        intro dl hdl
        rw [lockOf, if_pos hdl]
        simpa using hlock
      exact ⟨logged_within (invoke_only rfl hjob), hasks hjob rfl⟩

/-- A sync queues lock jobs for the deployment and nothing else. -/
theorem sync_only [GoRuntime] {r : ContractEventHandler μ}
    (hnode : node = r.node.toUInt32) :
    (sync r).Within (Answers node k) (Op.Only (Locks k)) := by
  subst hnode
  have hreads : ∀ op : Op, op.writes = false → op.jobs = [] → ¬ op = .dequeue →
      op.Only (Locks k) := by
    intro op hwrites hjobs hkeeps
    refine ⟨hwrites, hkeeps, ?_⟩
    rw [hjobs]
    exact List.forall_mem_nil _
  refine within_bind ?_ fun active => ?_
  · refine within_perform_bind (hreads _ rfl rfl (by simp)) fun ans _ => ?_
    cases ans <;> trivial
  · cases active with
    | error err => trivial
    | ok active =>
        refine within_perform_bind (hreads _ rfl rfl (by simp)) fun onchain hons => ?_
        cases onchain with
        | error err => trivial
        | ok onchain =>
            have hid : k.contract ∈ onchain := hons rfl
            refine within_bind (within_forM fun entry hentry => ?_) fun _ =>
              within_bind (within_forM fun entry _ => ?_) fun _ => trivial
            · -- no other deployment of the contract is missing either
              have hnot := (mem_unmatched.mp
                ((GoRuntime.rangeMap_perm _).mem_iff.mp hentry)).2
              refine logged_within (invoke_only rfl ?_)
              rintro dl hdl rfl
              have hlisted : dl.key.contract ∈ onchain := hid
              rw [hdl] at hlisted
              exact absurd hlisted hnot
            · refine within_perform_bind (hreads _ rfl rfl (by simp)) fun ans _ => ?_
              cases ans with
              | error err => trivial
              | ok contract =>
                  dsimp only
                  split
                  · trivial
                  · split
                    · exact logged_within (invoke_only rfl fun dl _ =>
                        locks_lockJob true dl)
                    · exact logged_within (invoke_only rfl fun dl _ =>
                        locks_lockJob false dl)

/-! ## A run of the event loop -/

namespace Listener

variable [GoRuntime] {r : ContractEventHandler μ} {s s' : Listener σ μ}

/-- What the engine is taken to make of a job. -/
structure Applied (k : DeploymentKey) (job : EngineJob) (store store' : σ) : Prop where
  decides : ∀ lock, lockOf k job = some lock → pausedAt store' k = some lock
  other : job.target.key ≠ k → pausedAt store' k = pausedAt store k
  stored : pausedAt store' k ≠ none

/-- The events of the contract match what becomes of it, it is not cancelled, and
it stays on the list of its node. -/
structure Matches (r : ContractEventHandler μ) (k : DeploymentKey) (before after : Chain)
    (gateway : Gateway) (cancelled : List ContractCancelledEvent)
    (locked : List ContractLockedEvent) : Prop where
  last : (lastLock k.contract locked).getD (before.locked k.contract) =
    after.locked k.contract
  twin : ∀ event ∈ locked, event.contract = k.contract → event.twinId = k.twin
  kept : ∀ event ∈ cancelled, event.contract ≠ k.contract
  lists : Lists gateway r.node.toUInt32 k.contract

/-- What is taken for granted about the outside and the engine. -/
def Assumed (r : ContractEventHandler μ) (k : DeploymentKey) (s : Listener σ μ) :
    Action σ → Prop
  | .outside chain gateway cancelled locked =>
      Matches r k s.world.chain chain gateway cancelled locked
  | .engine store => ∀ job ∈ s.world.queue.head?, Applied k job s.world.store store
  | _ => True

/-- An event about the contract is still to be handled. -/
def Unhandled (k : DeploymentKey) (s : Listener σ μ) : Prop :=
  (∃ event ∈ s.locking, event.contract = k.contract) ∨
    ∃ event p, s.loop = .locked event p ∧ event.contract = k.contract ∧
      s.loop.selects = false

/-- The call an action makes on behalf of a sync. -/
def syncCall (s : Listener σ μ) : Action σ → Option Op
  | .sync i =>
      match s.syncs[i]? with
      | some (.call op _) => some op
      | _ => none
  | .loop =>
      match s.loop with
      | .starting (.call op _) => some op
      | _ => none
  | _ => none

/-- A sync asks for what the contract is at the moment, unless an event is still
to be handled. -/
def InTime (k : DeploymentKey) (s : Listener σ μ) (a : Action σ) : Prop :=
  ∀ job lock, s.syncCall a = some (.enqueue job) → lockOf k job = some lock →
    lock = s.world.chain.locked k.contract ∨ s.Unhandled k

/-- What the event in hand still asks for, and what the loop is about to do. -/
inductive Flight (node : UInt32) (k : DeploymentKey) : Loop → Option Bool → Prop
  | starting {p : EngineM (Option GoError)}
      (h : p.Within (Answers node k) (Op.Only (Locks k))) :
      Flight node k (.starting p) none
  | cancelled {event : ContractCancelledEvent} {p : EngineM Unit}
      (h : p.Within (Answers node k) (Op.Only fun job => job.target.key ≠ k)) :
      Flight node k (.cancelled event p) none
  | other {event : ContractLockedEvent} {p : EngineM Unit}
      (hid : event.contract ≠ k.contract)
      (h : p.Within (Answers node k) (Op.Only fun job => job.target.key ≠ k)) :
      Flight node k (.locked event p) none
  | asked {event : ContractLockedEvent} {u : Unit} :
      Flight node k (.locked event (.ret u)) none
  | asking {event : ContractLockedEvent} {p : EngineM Unit}
      (hid : event.contract = k.contract)
      (h : p.Within (Answers node k) (Op.Only fun job => lockOf k job = some event.lock))
      (hasks : p.Closes (Answers node k) (Op.Asks k event.lock) fun _ => False) :
      Flight node k (.locked event p) (some event.lock)

/-- The request of the last event that is still to be handled. -/
def pending (k : DeploymentKey) (flight : Option Bool) (s : Listener σ μ) : Option Bool :=
  (lastLock k.contract s.locking).or flight

/-- Pending requests ask for what the contract is. With none pending, and `told`, the
deployment will be as the contract is when the queue is drained. -/
structure Expects (k : DeploymentKey) (told : Prop) (flight : Option Bool)
    (s : Listener σ μ) : Prop where
  asks : ∀ lock, s.pending k flight = some lock → lock = s.world.chain.locked k.contract
  settled : told → s.pending k flight = none → Decided k s.world.queue ∧
    s.world.outcome k = some (s.world.chain.locked k.contract)

structure Agrees (r : ContractEventHandler μ) (k : DeploymentKey) (told : Prop)
    (s : Listener σ μ) : Prop where
  lists : Lists s.world.gateway r.node.toUInt32 k.contract
  stored : pausedAt s.world.store k ≠ none
  syncs : ∀ p ∈ s.syncs, p.Within (Answers r.node.toUInt32 k) (Op.Only (Locks k))
  twin : ∀ event ∈ s.locking, event.contract = k.contract → event.twinId = k.twin
  kept : ∀ event ∈ s.cancellation, event.contract ≠ k.contract
  expects : ∃ flight, Flight r.node.toUInt32 k s.loop flight ∧ s.Expects k told flight

/-- The contract is spoken of: an event about it is sent, or a sync makes a request. -/
def Speaks (k : DeploymentKey) (s : Listener σ μ) : Action σ → Prop
  | .outside _ _ _ locked => ∃ event ∈ locked, event.contract = k.contract
  | a => ∃ job lock, s.syncCall a = some (.enqueue job) ∧ lockOf k job = some lock

omit [GoRuntime] in
/-- A loop that is at its `select` has no event in hand. -/
theorem Flight.of_selects {loop : Loop} {flight : Option Bool}
    (h : Flight node k loop flight) (hselects : loop.selects = true) : flight = none := by
  cases h with
  | starting | cancelled | other | asked => rfl
  | @asking event p _ _ hasks =>
      cases p with
      | ret u => exact hasks.elim
      | call op cont => cases hselects

omit [Storage σ] [GoRuntime] in
/-- An event that is still to be handled says what is expected. -/
theorem Unhandled.isSome {flight : Option Bool} (h : s.Unhandled k)
    (hflight : Flight node k s.loop flight) :
    ((lastLock k.contract s.locking).or flight).isSome = true := by
  rw [Option.isSome_or, Bool.or_eq_true]
  rcases h with ⟨event, hevent, hid⟩ | ⟨event, p, hloop, hid, hselects⟩
  · refine .inl (List.findSome?_isSome_iff.mpr
      ⟨event, List.mem_reverse.mpr hevent, ?_⟩)
    rw [if_pos hid]
    rfl
  · rw [hloop] at hflight hselects
    cases hflight with
    | other hother => exact absurd hid hother
    | asked => cases hselects
    | asking => exact .inr rfl

omit [Zosbase] [Storage σ] [GoRuntime] in
theorem lockOf_jobs {op : Op} {lock : Bool}
    (h : op.jobs.reverse.findSome? (lockOf k) = some lock) :
    ∃ job, op = .enqueue job ∧ lockOf k job = some lock := by
  obtain ⟨job, hjob, hlock⟩ := List.exists_of_findSome?_eq_some h
  rw [List.mem_reverse] at hjob
  cases op with
  | enqueue job' =>
      obtain rfl := List.mem_singleton.mp hjob
      exact ⟨job, rfl, hlock⟩
  | _ => cases hjob

omit [GoRuntime] in
/-- A call of a lock job leaves the queue decided, and so does any other as long as its jobs
are lock jobs or somebody else's. -/
theorem decided_call {J : EngineJob → Prop} {op : Op} (hop : op.Only J)
    (hJ : ∀ job, J job → Locks k job) (w : World σ μ)
    (h : op.jobs.reverse.findSome? (lockOf k) = none → Decided k w.queue) :
    Decided k (exec e op w).2.queue := by
  rw [exec_queue_append w hop.keeps]
  have hjobs := hop.jobs
  cases op with
  | enqueue job =>
      cases hlock : lockOf k job with
      | some lock => exact decided_append_lock hlock
      | none =>
          have hkey : job.target.key ≠ k := fun hkey => by
            obtain ⟨lock, hsome⟩ := hJ job (hjobs job List.mem_cons_self) hkey
            rw [hlock] at hsome
            cases hsome
          refine decided_append_other (h ?_) hkey
          rw [Op.jobs, List.reverse_singleton, List.findSome?_singleton, hlock]
  | _ => exact (List.append_nil _).symm ▸ h rfl

omit [GoRuntime] in
/-- A call leaves what is expected as it was, if it asks for what the contract is. -/
theorem Expects.call {J : EngineJob → Prop} {told told' : Prop} {op : Op}
    {flight : Option Bool} (h : s.Expects k told flight) (hop : op.Only J)
    (hJ : ∀ job, J job → Locks k job)
    (htold : told' → told ∨ ∃ lock, op.jobs.reverse.findSome? (lockOf k) = some lock)
    (hlocks : ∀ lock, op.jobs.reverse.findSome? (lockOf k) = some lock →
      s.pending k flight = none → lock = s.world.chain.locked k.contract)
    {loop : Loop} {syncs : List (EngineM (Option GoError))} :
    Expects k told' flight { s with
      world := (exec e op s.world).2, loop := loop, syncs := syncs } := by
  have hchain : (exec e op s.world).2.chain = s.world.chain := (exec_outside s.world op).1
  refine ⟨fun lock hlock => ?_, fun ht hnone => ?_⟩
  · rw [h.asks lock hlock, hchain]
  · have hnone : s.pending k flight = none := hnone
    rw [hchain, outcome_call hop]
    cases hlock : op.jobs.reverse.findSome? (lockOf k) with
    | some lock =>
        refine ⟨decided_call hop hJ s.world fun h => ?_, ?_⟩
        · rw [hlock] at h
          cases h
        · rw [hlocks lock hlock hnone, Option.some_or]
    | none =>
        have ht : told := (htold ht).resolve_right fun hsome => by
          rw [hlock] at hsome
          exact hsome.elim fun _ h => Option.some_ne_none _ h.symm
        obtain ⟨hdecided, houtcome⟩ := h.settled ht hnone
        exact ⟨decided_call hop hJ s.world fun _ => hdecided, houtcome⟩

omit [GoRuntime] in
/-- The request of an event takes the place of the event. -/
theorem Expects.handled {J : EngineJob → Prop} {told told' : Prop} {job : EngineJob}
    {lock : Bool} (h : s.Expects k told (some lock)) (hop : (Op.enqueue job).Only J)
    (hjob : lockOf k job = some lock) {loop : Loop}
    {syncs : List (EngineM (Option GoError))} :
    Expects k told' none { s with
      world := (exec e (.enqueue job) s.world).2, loop := loop, syncs := syncs } := by
  have hchain : (exec e (.enqueue job) s.world).2.chain = s.world.chain :=
    (exec_outside s.world _).1
  refine ⟨fun lock' hlock => ?_, fun _ hnone => ?_⟩
  · rw [hchain]
    refine h.asks lock' ?_
    have hlock : (lastLock k.contract s.locking).or none = some lock' := hlock
    rw [Option.or_none] at hlock
    rw [pending, hlock, Option.some_or]
  · have hnone : (lastLock k.contract s.locking).or none = none := hnone
    rw [Option.or_none] at hnone
    have hlock : lock = s.world.chain.locked k.contract :=
      h.asks lock (by rw [pending, hnone, Option.none_or])
    rw [hchain, outcome_call hop]
    refine ⟨?_, ?_⟩
    · rw [exec_queue_append s.world hop.keeps]
      exact decided_append_lock hjob
    · rw [Op.jobs, List.reverse_singleton, List.findSome?_singleton, hjob, Option.some_or,
        hlock]

omit [GoRuntime] in
/-- What a call of the loop or a sync leaves as it was. -/
theorem Agrees.call {J : EngineJob → Prop} {told told' : Prop} (h : Agrees r k told s)
    {op : Op} (hop : op.Only J) {loop : Loop} {syncs : List (EngineM (Option GoError))}
    {flight : Option Bool} (hloop : Flight r.node.toUInt32 k loop flight)
    (hsyncs : ∀ p ∈ syncs, p.Within (Answers r.node.toUInt32 k) (Op.Only (Locks k)))
    (hexpects : Expects k told' flight { s with
      world := (exec r.engine op s.world).2, loop := loop, syncs := syncs }) :
    Agrees r k told' { s with
      world := (exec r.engine op s.world).2, loop := loop, syncs := syncs } := by
  refine ⟨?_, ?_, hsyncs, h.twin, h.kept, flight, hloop, hexpects⟩
  · rw [(exec_outside s.world op).2.1]
    exact h.lists
  · rw [exec_store s.world hop.reads]
    exact h.stored

omit [Storage σ] [GoRuntime] in
/-- A request of a sync, in time, while nothing is pending. -/
theorem asks_of_inTime {op : Op} {flight : Option Bool}
    (hflight : Flight r.node.toUInt32 k s.loop flight)
    (htime : ∀ job lock, op = .enqueue job → lockOf k job = some lock →
      lock = s.world.chain.locked k.contract ∨ s.Unhandled k) :
    ∀ lock, op.jobs.reverse.findSome? (lockOf k) = some lock →
      s.pending k flight = none → lock = s.world.chain.locked k.contract := by
  intro lock hlock hnone
  obtain ⟨job, hop, hjob⟩ := lockOf_jobs hlock
  rcases htime job lock hop hjob with heq | hunhandled
  · exact heq
  · have hsome := hunhandled.isSome hflight
    rw [show (lastLock k.contract s.locking).or flight = none from hnone] at hsome
    cases hsome

/-- The call of the loop's goroutine. -/
theorem Agrees.loop {told : Prop} (h : Agrees r k told s) (htime : s.InTime k .loop)
    (hs : s.step r .loop = some s') : Agrees r k (told ∨ s.Speaks k .loop) s' := by
  obtain ⟨flight, hflight, hexpects⟩ := h.expects
  have hans : ∀ op, Answers r.node.toUInt32 k op (exec r.engine op s.world).1 :=
    answers_exec h.lists h.stored
  -- a call of a handler that makes no request about the deployment
  have hsame : ∀ {op : Op} {loop : Loop} {J : EngineJob → Prop}, op.Only J →
      (∀ job, J job → Locks k job) → (∀ job lock, op = .enqueue job → lockOf k job ≠ some lock) →
      s.syncCall (.loop : Action σ) = none → Expects k (told ∨ s.Speaks k .loop) flight { s with
        world := (exec r.engine op s.world).2, loop := loop, syncs := s.syncs } := by
    intro op loop J hop hJ hnot hcall
    have hsilent : ¬ s.Speaks k (.loop : Action σ) := by
      rintro ⟨job, lock, hsome, _⟩
      rw [hcall] at hsome
      cases hsome
    refine hexpects.call hop hJ (fun ht => .inl (ht.resolve_right hsilent))
      fun lock hlock _ => ?_
    obtain ⟨job, hop, hjob⟩ := lockOf_jobs hlock
    exact absurd hjob (hnot job lock hop)
  have hother : ∀ {op : Op}, op.Only (fun job => job.target.key ≠ k) →
      ∀ job lock, op = .enqueue job → lockOf k job ≠ some lock := by
    rintro op hop job lock rfl hlock
    exact hop.jobs job List.mem_cons_self (lockOf_key hlock)
  simp only [step] at hs
  generalize hloop : s.loop = loop at hs hflight
  cases hflight with
  | @starting p hp =>
      cases p with
      | ret result => cases hs
      | call op cont =>
          obtain ⟨hop, hcont⟩ := hp
          obtain rfl := Option.some.inj hs
          have hflight : Flight r.node.toUInt32 k s.loop none := by
            rw [hloop]
            exact .starting ⟨hop, hcont⟩
          have hcall : s.syncCall (.loop : Action σ) = some op := by rw [syncCall, hloop]
          refine h.call hop (.starting (hcont _ (hans op))) h.syncs
            (hexpects.call hop (fun _ hjob => hjob) ?_ (asks_of_inTime hflight ?_))
          · rintro (ht | ⟨job, lock, hjob, hlock⟩)
            · exact .inl ht
            · rw [hcall] at hjob
              obtain rfl := Option.some.inj hjob
              refine .inr ⟨lock, ?_⟩
              rw [Op.jobs, List.reverse_singleton, List.findSome?_singleton, hlock]
          · rintro job lock rfl hlock
            exact htime job lock hcall hlock
  | @cancelled event p hp =>
      cases p with
      | ret u => cases hs
      | call op cont =>
          obtain ⟨hop, hcont⟩ := hp
          obtain rfl := Option.some.inj hs
          exact h.call hop (.cancelled (hcont _ (hans op))) h.syncs
            (hsame hop (fun _ hjob hkey => absurd hkey hjob) (hother hop)
              (by rw [syncCall, hloop]))
  | @other event p hid hp =>
      cases p with
      | ret u => cases hs
      | call op cont =>
          obtain ⟨hop, hcont⟩ := hp
          obtain rfl := Option.some.inj hs
          exact h.call hop (.other hid (hcont _ (hans op))) h.syncs
            (hsame hop (fun _ hjob hkey => absurd hkey hjob) (hother hop)
              (by rw [syncCall, hloop]))
  | asked => cases hs
  | @asking event p hid hp hasks =>
      cases p with
      | ret u => cases hs
      | call op cont =>
          obtain ⟨hop, hcont⟩ := hp
          obtain rfl := Option.some.inj hs
          rcases hasks with ⟨⟨job, rfl, hjob⟩, hrest⟩ | ⟨hnot, hrest⟩
          · -- the request is queued, and takes the place of the event
            have hdone : ∃ u, cont (exec r.engine (.enqueue job) s.world).1 = .ret u := by
              have hnone := hrest _ (hans (.enqueue job))
              cases hp : cont (exec r.engine (.enqueue job) s.world).1 with
              | ret u => exact ⟨u, rfl⟩
              | call op' cont' =>
                  rw [hp] at hnone
                  exact hnone.1.elim
            obtain ⟨u, hu⟩ := hdone
            rw [hu]
            exact h.call hop .asked h.syncs (hexpects.handled hop hjob)
          · refine h.call hop (.asking hid (hcont _ (hans op)) (hrest _ (hans op))) h.syncs
              (hsame hop (fun _ hjob _ => ⟨_, hjob⟩) ?_ (by rw [syncCall, hloop]))
            rintro job lock rfl hlock
            exact hnot ⟨job, rfl, hop.jobs job List.mem_cons_self⟩

/-- A call of a sync that the ticker has started. -/
theorem Agrees.sync {told : Prop} {i : Nat} (h : Agrees r k told s)
    (htime : s.InTime k (.sync i)) (hs : s.step r (.sync i) = some s') :
    Agrees r k (told ∨ s.Speaks k (.sync i)) s' := by
  obtain ⟨flight, hflight, hexpects⟩ := h.expects
  simp only [step] at hs
  split at hs
  · next op cont hi =>
      obtain rfl := Option.some.inj hs
      obtain ⟨hop, hcont⟩ := h.syncs _ (List.mem_of_getElem? hi)
      have hcall : s.syncCall (.sync i : Action σ) = some op := by rw [syncCall, hi]
      refine h.call hop hflight ?_
        (hexpects.call hop (fun _ hjob => hjob) ?_ (asks_of_inTime hflight ?_))
      · intro p hp
        rcases List.mem_or_eq_of_mem_set hp with hp | rfl
        · exact h.syncs p hp
        · exact hcont _ (answers_exec h.lists h.stored op)
      · rintro (ht | ⟨job, lock, hjob, hlock⟩)
        · exact .inl ht
        · rw [hcall] at hjob
          obtain rfl := Option.some.inj hjob
          refine .inr ⟨lock, ?_⟩
          rw [Op.jobs, List.reverse_singleton, List.findSome?_singleton, hlock]
      · rintro job lock rfl hlock
        exact htime job lock hcall hlock
  · cases hs

/-- The engine is done with the head of its queue. -/
theorem Agrees.engine {told : Prop} {store : σ} (h : Agrees r k told s)
    (happlied : ∀ job ∈ s.world.queue.head?, Applied k job s.world.store store)
    (hs : s.step r (.engine store) = some s') : Agrees r k told s' := by
  obtain ⟨flight, hflight, hexpects⟩ := h.expects
  simp only [step] at hs
  split at hs
  · cases hs
  · next job rest hq =>
      obtain rfl := Option.some.inj hs
      have happlied : Applied k job s.world.store store :=
        happlied job (by rw [hq]; exact rfl)
      refine ⟨h.lists, happlied.stored, h.syncs, h.twin, h.kept, flight, hflight,
        hexpects.asks, fun ht hnone => ?_⟩
      obtain ⟨hdecided, houtcome⟩ := hexpects.settled ht hnone
      rw [hq] at hdecided
      refine ⟨hdecided.1, ?_⟩
      rw [← houtcome, World.outcome, World.outcome, hq, List.reverse_cons,
        List.findSome?_append, List.findSome?_singleton, Option.or_assoc]
      by_cases hkey : job.target.key = k
      · cases hlock : lockOf k job with
        | some lock => rw [happlied.decides lock hlock, Option.some_or]
        | none =>
            -- a lock job of the deployment is still to come
            cases hrest : rest.reverse.findSome? (lockOf k) with
            | some lock => rw [Option.some_or, Option.some_or]
            | none => exact absurd hrest (hdecided.2 hkey hlock)
      · have hlock : lockOf k job = none := by
          cases hlock : lockOf k job with
          | none => rfl
          | some lock => exact absurd (lockOf_key hlock) hkey
        rw [happlied.other hkey, hlock, Option.none_or]

/-- An event that the listener takes up is what it has in flight from then on. -/
theorem Agrees.receiveLocked {told : Prop} (h : Agrees r k told s)
    (hs : s.step r .receiveLocked = some s') : Agrees r k told s' := by
  obtain ⟨flight, hflight, hexpects⟩ := h.expects
  simp only [Listener.step] at hs
  split at hs
  · next event rest hselects hevents =>
      obtain rfl := Option.some.inj hs
      obtain rfl := hflight.of_selects hselects
      have htwin := h.twin
      rw [hevents] at htwin
      obtain ⟨hkey, htwin⟩ := List.forall_mem_cons.mp htwin
      -- what was pending is still pending
      have hpending : ∀ {flight : Option Bool} {loop : Loop},
          lastLock k.contract [event] = flight →
          pending k flight { s with loop := loop, locking := rest } = s.pending k none := by
        intro flight loop hflight
        rw [pending, pending, hevents, Option.or_none, ← hflight, ← lastLock_append]
        rfl
      have hexpects : ∀ {flight : Option Bool} {loop : Loop},
          lastLock k.contract [event] = flight →
          Expects k told flight { s with loop := loop, locking := rest } := by
        intro flight loop hflight
        refine ⟨fun lock hlock => hexpects.asks lock ?_, fun ht hnone => hexpects.settled ht ?_⟩
        · rwa [hpending hflight] at hlock
        · rwa [hpending hflight] at hnone
      by_cases hid : event.contract = k.contract
      · have hsome : lastLock k.contract [event] = some event.lock := by
          rw [lastLock, List.reverse_singleton, List.findSome?_singleton, if_pos hid]
        have hkey : (⟨event.twinId, event.contract⟩ : DeploymentKey) = k := by
          rw [hkey hid, hid]
        obtain ⟨honly, hasks⟩ := handleLocked_asks hkey
        exact { h with
          twin := htwin
          expects := ⟨_, .asking hid honly hasks, hexpects hsome⟩ }
      · have hnone : lastLock k.contract [event] = none := by
          rw [lastLock, List.reverse_singleton, List.findSome?_singleton, if_neg hid]
        exact { h with
          twin := htwin
          expects := ⟨none, .other hid (handleLocked_other hid), hexpects hnone⟩ }
  · cases hs

omit [GoRuntime] in
/-- The chain moves, and what it sends is pending. -/
theorem Agrees.outside {told : Prop} {chain : Chain} {gateway : Gateway}
    {cancelled : List ContractCancelledEvent} {locked : List ContractLockedEvent}
    (h : Agrees r k told s) (hmatches : Matches r k s.world.chain chain gateway cancelled locked) :
    Agrees r k (told ∨ ∃ event ∈ locked, event.contract = k.contract)
      { s with
        world := { s.world with chain := chain, gateway := gateway }
        cancellation := s.cancellation ++ cancelled
        locking := s.locking ++ locked } := by
  obtain ⟨flight, hflight, hexpects⟩ := h.expects
  have hpending : ∀ {s' : Listener σ μ}, s'.locking = s.locking ++ locked →
      s'.pending k flight = (lastLock k.contract locked).or (s.pending k flight) := by
    intro s' hlocking
    rw [pending, pending, hlocking, lastLock_append, Option.or_assoc]
  have hlast := hmatches.last
  refine ⟨hmatches.lists, h.stored, h.syncs, List.forall_mem_append.mpr ⟨h.twin, hmatches.twin⟩,
    List.forall_mem_append.mpr ⟨h.kept, hmatches.kept⟩, flight, hflight,
    fun lock hlock => ?_, fun ht hnone => ?_⟩
  · rw [hpending rfl] at hlock
    show lock = chain.locked k.contract
    rw [← hlast]
    cases hnew : lastLock k.contract locked with
    | some lock' =>
        rw [hnew, Option.some_or] at hlock
        exact (Option.some.inj hlock).symm
    | none =>
        rw [hnew, Option.none_or] at hlock
        exact hexpects.asks lock hlock
  · rw [hpending rfl, Option.or_eq_none_iff] at hnone
    have ht : told := ht.resolve_right fun hevent => by
      obtain ⟨event, hmem, hid⟩ := hevent
      have hnot := List.findSome?_eq_none_iff.mp hnone.1 event (List.mem_reverse.mpr hmem)
      rw [if_pos hid] at hnot
      cases hnot
    obtain ⟨hdecided, houtcome⟩ := hexpects.settled ht hnone.2
    refine ⟨hdecided, ?_⟩
    show s.world.outcome k = some (chain.locked k.contract)
    rw [houtcome, ← hlast, hnone.1, Option.getD_none]

omit [GoRuntime] in
theorem Agrees.mono {told told' : Prop} (h : Agrees r k told s) (htold : told' → told) :
    Agrees r k told' s := by
  obtain ⟨flight, hflight, hexpects⟩ := h.expects
  exact { h with
    expects := ⟨flight, hflight, hexpects.asks, fun ht => hexpects.settled (htold ht)⟩ }

theorem Agrees.step {told : Prop} {a : Action σ} (h : Agrees r k told s)
    (hassumed : s.Assumed r k a) (htime : s.InTime k a) (hs : s.step r a = some s') :
    Agrees r k (told ∨ s.Speaks k a) s' := by
  -- an action that is no sync's
  have hsilent : s.syncCall a = none → (∀ job lock, ¬ (s.syncCall a = some (.enqueue job) ∧
      lockOf k job = some lock)) := by
    rintro hnone job lock ⟨hsome, _⟩
    rw [hnone] at hsome
    cases hsome
  cases a with
  | loop => exact h.loop htime hs
  | sync i => exact h.sync htime hs
  | engine store =>
      refine (h.engine hassumed hs).mono fun ht => ht.resolve_right ?_
      exact fun ⟨job, lock, hcall⟩ => hsilent rfl job lock hcall
  | tick =>
      refine (?_ : Agrees r k told s').mono fun ht => ht.resolve_right
        fun ⟨job, lock, hcall⟩ => hsilent rfl job lock hcall
      simp only [Listener.step] at hs
      split at hs
      · obtain rfl := Option.some.inj hs
        obtain ⟨flight, hflight, hexpects⟩ := h.expects
        refine { h with
          syncs := fun p hp => ?_
          expects := ⟨flight, hflight, hexpects.asks, hexpects.settled⟩ }
        rcases List.mem_append.mp hp with hp | hp
        · exact h.syncs p hp
        · obtain rfl := List.mem_singleton.mp hp
          exact sync_only rfl
      · cases hs
  | receiveCancelled =>
      refine (?_ : Agrees r k told s').mono fun ht => ht.resolve_right
        fun ⟨job, lock, hcall⟩ => hsilent rfl job lock hcall
      obtain ⟨flight, hflight, hexpects⟩ := h.expects
      simp only [Listener.step] at hs
      split at hs
      · next event rest hselects hevents =>
          obtain rfl := Option.some.inj hs
          obtain rfl := hflight.of_selects hselects
          have hkept := h.kept
          rw [hevents] at hkept
          obtain ⟨hother, hkept⟩ := List.forall_mem_cons.mp hkept
          exact { h with
            kept := hkept
            expects := ⟨none, .cancelled (handleCancelled_other hother), hexpects.asks,
              hexpects.settled⟩ }
      · cases hs
  | receiveLocked =>
      refine (h.receiveLocked hs).mono fun ht => ht.resolve_right ?_
      exact fun ⟨job, lock, hcall⟩ => hsilent rfl job lock hcall
  | outside chain gateway cancelled locked =>
      obtain rfl := Option.some.inj hs
      exact h.outside hassumed

/-- What every step of a run is supposed to be. -/
def Ordinary (r : ContractEventHandler μ) (k : DeploymentKey) (s : Listener σ μ)
    (a : Action σ) : Prop := s.Assumed r k a ∧ s.InTime k a

/-- Somewhere on the way the contract is spoken of. -/
def SpokenOf (r : ContractEventHandler μ) (k : DeploymentKey) (s s' : Listener σ μ) : Prop :=
  ∃ before a after, Steps (step r) (Ordinary r k) s before ∧ before.Ordinary r k a ∧
    before.Speaks k a ∧ before.step r a = some after ∧ Steps (step r) (Ordinary r k) after s'

theorem Agrees.run {told : Prop} (hrun : Steps (Listener.step r) (Ordinary r k) s s')
    (h : Agrees r k told s) : Agrees r k told s' :=
  hrun.invariant (fun _ _ _ h hok hs => (h.step hok.1 hok.2 hs).mono .inl) h

/-- Every deployment that agrees with its contract at the start, or whose contract is
spoken of afterwards, agrees with it once everything is handled, if all the requests of
syncs are in time. -/
theorem events_agree {w : World σ μ} (hlists : Lists w.gateway r.node.toUInt32 k.contract)
    (hstored : pausedAt w.store k ≠ none)
    (hrun : Steps (step r) (Ordinary r k) (start r w) s)
    (htold : (Decided k w.queue ∧ w.outcome k = some (w.chain.locked k.contract)) ∨
      SpokenOf r k (start r w) s)
    (hquiet : s.Quiet) :
    pausedAt s.world.store k = some (s.world.chain.locked k.contract) := by
  have hinit : ∀ {told : Prop}, (told → Decided k w.queue ∧
      w.outcome k = some (w.chain.locked k.contract)) → Agrees r k told (start r w) := by
    intro told htold
    exact ⟨hlists, hstored, fun _ h => (nomatch h), fun _ h => (nomatch h),
      fun _ h => (nomatch h), none, .starting (sync_only rfl), fun _ h => (nomatch h),
      fun ht _ => htold ht⟩
  have hagrees : Agrees r k True s := by
    rcases htold with hstart | ⟨before, a, after, hbefore, hok, hspeaks, hs, hafter⟩
    · exact .run hrun (hinit fun _ => hstart)
    · have hagrees : Agrees r k False before := .run hbefore (hinit False.elim)
      exact .run hafter ((hagrees.step hok.1 hok.2 hs).mono fun _ => .inr hspeaks)
  obtain ⟨flight, hflight, hexpects⟩ := hagrees.expects
  obtain rfl := hflight.of_selects hquiet.loop
  have houtcome := (hexpects.settled trivial (by rw [pending, hquiet.locking]; rfl)).2
  rw [World.outcome, hquiet.queue] at houtcome
  exact houtcome

end Listener

end

/-! ## A request that comes late -/

namespace LateSync

open Reference Listener

def dl : Deployment := deployment 0 1 [workload 0 "a" "d"]

def ledger (locked : Bool) : Ledger :=
  ⟨[(2, { contract dl with isGracePeriod := locked })], []⟩

/-- The deployment runs, and its contract is not locked. -/
def start : World MapStore Unit := world (store [dl]) [] [] (ledger false)

/-- What the engine makes of a lock job. -/
def stored (locked : Bool) : MapStore :=
  store [{ dl with workloads := dl.workloads.map (·.withResults
    ⟨0, if locked then .paused else .ok, "", "d"⟩) }]

/-- The chain locks or unlocks the contract, and sends the event. -/
def change (locked : Bool) : Listener.Action MapStore :=
  .outside (ledger locked).chain (ledger locked).gateway [] [⟨2, 1, locked⟩]

/-- The event of the lock is received, and its request queued. -/
def handled : List (Listener.Action MapStore) := [.receiveLocked, .loop, .loop, .loop]

def firstSync : List (Listener.Action MapStore) := [.loop, .loop, .loop]

/-- The sync has found the contract locked when it is unlocked again, and asks
for the pause when both events are handled. -/
def late : List (Listener.Action MapStore) :=
  firstSync ++ [change true, .tick, .sync 0, .sync 0, .sync 0, change false] ++
    handled ++ handled ++ [.sync 0, .sync 0, .sync 0,
      .engine (stored true), .engine (stored false), .engine (stored true)]

/-- The sync finds the contract locked and asks for the pause, and so does the
event. -/
def prompt : List (Listener.Action MapStore) :=
  firstSync ++ [change true, .tick] ++ List.replicate 6 (.sync 0) ++ handled ++
    [.engine (stored true), .engine (stored true)]

/-- The outside sends one event and the engine does as it is asked. -/
def permitted (s : Listener MapStore Unit) : Listener.Action MapStore → Bool
  | .outside chain gateway cancelled locked =>
      cancelled.isEmpty && locked.all (·.twinId == 1) &&
        (lastLock 2 locked).getD (s.world.chain.locked 2) == chain.locked 2 &&
        (gateway.getNodeContracts 1).toOption.any (·.contains 2)
  | .engine store =>
      s.world.queue.head?.all fun job =>
        (lockOf dl.key job).isSome && pausedAt store dl.key == lockOf dl.key job
  | _ => true

theorem assumed {s : Listener MapStore Unit} {a : Listener.Action MapStore}
    (h : permitted s a = true) : s.Assumed handler dl.key a := by
  cases a with
  | outside chain gateway cancelled locked =>
      simp only [permitted, Bool.and_eq_true, List.isEmpty_iff, List.all_eq_true,
        beq_iff_eq] at h
      obtain ⟨⟨⟨rfl, htwin⟩, hlast⟩, hlists⟩ := h
      refine ⟨hlast, fun event hevent _ => htwin event hevent,
        fun _ h => (by cases h), fun ids hids => ?_⟩
      have hids : gateway.getNodeContracts 1 = .ok ids := hids
      rw [hids] at hlists
      exact List.contains_iff_mem.mp hlists
  | engine store =>
      intro job hjob
      rw [permitted, hjob, Option.all_some, Bool.and_eq_true, beq_iff_eq] at h
      obtain ⟨hsome, hstore⟩ := h
      obtain ⟨lock, hlock⟩ := Option.isSome_iff_exists.mp hsome
      refine ⟨fun lock' hlock' => hstore.trans hlock', fun hkey => ?_, ?_⟩
      · exact absurd (lockOf_key hlock) hkey
      · rw [hstore, hlock]
        exact Option.some_ne_none _
  | _ => trivial

/-- Syncs ask for what the contract is. -/
def upToDate (s : Listener MapStore Unit) (a : Listener.Action MapStore) : Bool :=
  match s.syncCall a with
  | some (.enqueue job) => lockOf dl.key job == some (s.world.chain.locked 2)
  | _ => true

theorem inTime {s : Listener MapStore Unit} {a : Listener.Action MapStore}
    (h : upToDate s a = true) : s.InTime dl.key a := by
  intro job lock hcall hlock
  rw [upToDate, hcall, beq_iff_eq, hlock] at h
  exact .inl (Option.some.inj h)

def finish : Listener MapStore Unit :=
  (follow (step handler) permitted late (.start handler start)).get
    (by decide +kernel)

def prompted : Listener MapStore Unit :=
  (follow (step handler) (fun s a => permitted s a && upToDate s a) prompt
    (.start handler start)).get (by decide +kernel)

theorem prompted_run :
    Steps (step handler) (Ordinary handler dl.key) (.start handler start) prompted := by
  refine Steps.of_follow (fun s a h => ?_) prompt (Option.some_get _).symm
  obtain ⟨hpermitted, htime⟩ := Bool.and_eq_true_iff.mp h
  exact ⟨assumed hpermitted, inTime htime⟩

theorem quiet_of {s : Listener MapStore Unit} (hloop : s.loop.selects = true)
    (hlocking : s.locking = []) (hqueue : s.world.queue = [])
    (hsyncs : s.syncs.all returned = true) : s.Quiet :=
  ⟨hloop, hlocking, fun _ hp => all_returned hsyncs hp, hqueue⟩

end LateSync

theorem events_agree_paused :
    pausedAt LateSync.prompted.world.store LateSync.dl.key =
      some (LateSync.prompted.world.chain.locked 2) :=
  Listener.events_agree
    (fun _ h => by obtain rfl := Except.ok.inj h; decide +kernel) (by decide +kernel)
    LateSync.prompted_run (.inl ⟨trivial, by decide +kernel⟩)
    (LateSync.quiet_of (by decide +kernel) (by decide +kernel) (by decide +kernel)
      (by decide +kernel))

/-- The contract is locked and unlocked, both events are handled, and the request
of a sync from in between comes last: the deployment stays paused. -/
theorem late_sync_pauses :
    ∃ s : Listener MapStore Unit,
      Steps (Listener.step Reference.handler)
        (Listener.Assumed Reference.handler LateSync.dl.key)
        (.start Reference.handler LateSync.start) s ∧ s.Quiet ∧
      pausedAt LateSync.start.store LateSync.dl.key =
        some (LateSync.start.chain.locked 2) ∧
      ¬ pausedAt s.world.store LateSync.dl.key = some (s.world.chain.locked 2) :=
  ⟨LateSync.finish,
    Steps.of_follow (fun _ _ h => LateSync.assumed h) _ (Option.some_get _).symm,
    LateSync.quiet_of (by decide +kernel) (by decide +kernel) (by decide +kernel)
      (by decide +kernel), by decide +kernel, by decide +kernel⟩

end Zos4.Provision
