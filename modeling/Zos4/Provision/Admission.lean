import Zos4.Provision.Worker

/-!
# Which deployments come to be in use

A workload gets into a state that counts as used, ok or paused, through a
transaction of the worker and in no other way: `Create` and `Add` record
`init`, `Error` records `error`, a removal records `deleted`, and a lock job
only goes from one used state to the other. So whatever validation insists on
holds of every deployment that has a workload in use. An `Admission` is such a
property, with the jobs that a result has to assume it for because validation
does not look; for the others it has to be a consequence of `validate`.

The chain is not frozen meanwhile. `Chain.Evolves` is what it may do: create
contracts, cancel them, change their hash and their state, but neither move a
contract nor bring one back.
-/

namespace Zos4.Provision

open Zos4.Interaction Prog

/-! ## The chain -/

section

variable [Zosbase]

/-- A contract keeps its owner, its kind and its node, and once it is cancelled
its id is not used again. -/
def Chain.Evolves (c c' : Chain) : Prop :=
  ∀ id contract, c.contract id = some contract →
    (∃ contract', c'.contract id = some contract' ∧
      contract'.twinID = contract.twinID ∧
      contract'.isNodeContract = contract.isNodeContract ∧
      contract'.node = contract.node) ∧
    (c'.alive id = true → c.alive id = true)

theorem Chain.Evolves.refl (c : Chain) : c.Evolves c :=
  fun _ contract h => ⟨⟨contract, h, rfl, rfl, rfl⟩, fun h => h⟩

theorem Chain.Evolves.trans {c c' c'' : Chain} (h : c.Evolves c')
    (h' : c'.Evolves c'') : c.Evolves c'' := by
  intro id contract hid
  obtain ⟨⟨k', hk', htwin, hkind, hnode⟩, halive⟩ := h id contract hid
  obtain ⟨⟨k'', hk'', htwin', hkind', hnode'⟩, halive'⟩ := h' id k' hk'
  exact ⟨⟨k'', hk'', htwin'.trans htwin, hkind'.trans hkind,
    hnode'.trans hnode⟩, fun h => halive (halive' h)⟩

/-- The twin has the contract. -/
def Chain.Owns (c : Chain) (k : DeploymentKey) : Prop :=
  ∃ contract, c.contract k.contract = some contract ∧ contract.twinID = k.twin

/-- The contract was made with the node. -/
def Chain.OnNode (c : Chain) (node : UInt32) (id : ContractID) : Prop :=
  ∃ contract, c.contract id = some contract ∧
    contract.isNodeContract = true ∧ contract.node = node

/-- The contract existed and does not any more. -/
def Chain.Ended (c : Chain) (id : ContractID) : Prop :=
  c.contract id ≠ none ∧ c.alive id = false

variable {c c' : Chain}

theorem Chain.Owns.evolve {k : DeploymentKey} (h : c.Owns k)
    (hc : c.Evolves c') : c'.Owns k := by
  obtain ⟨contract, hid, htwin⟩ := h
  obtain ⟨⟨contract', hid', htwin', _⟩, _⟩ := hc _ _ hid
  exact ⟨contract', hid', htwin'.trans htwin⟩

theorem Chain.OnNode.evolve {node : UInt32} {id : ContractID}
    (h : c.OnNode node id) (hc : c.Evolves c') : c'.OnNode node id := by
  obtain ⟨contract, hid, hkind, hnode⟩ := h
  obtain ⟨⟨contract', hid', _, hkind', hnode'⟩, _⟩ := hc _ _ hid
  exact ⟨contract', hid', hkind'.trans hkind, hnode'.trans hnode⟩

theorem Chain.Ended.evolve {id : ContractID} (h : c.Ended id)
    (hc : c.Evolves c') : c'.Ended id := by
  obtain ⟨hsome, hdead⟩ := h
  obtain ⟨contract, hid⟩ := Option.ne_none_iff_exists'.mp hsome
  obtain ⟨⟨contract', hid', _⟩, halive⟩ := hc _ _ hid
  refine ⟨by simp [hid'], ?_⟩
  cases h' : c'.alive id with
  | false => rfl
  | true => rw [halive h'] at hdead; cases hdead

/-- The gateway answers with contracts that exist, and lists all of a node's. -/
structure Gateway.Truthful (g : Gateway) (c : Chain) : Prop where
  exists_of_ok : ∀ id contract, g.getContract id = .ok contract →
    c.contract id = some contract ∧ c.alive id = true
  listed : ∀ node ids, g.getNodeContracts node = .ok ids →
    ∀ id, c.OnNode node id → c.alive id = true → id ∈ ids

instance (c : Chain) (k : DeploymentKey) : Decidable (c.Owns k) :=
  decidable_of_iff ((c.contract k.contract).any (·.twinID == k.twin) = true) <| by
    rw [Option.any_eq_true]
    simp only [beq_iff_eq]
    rfl

instance (c : Chain) (node : UInt32) (id : ContractID) :
    Decidable (c.OnNode node id) :=
  decidable_of_iff ((c.contract id).any
    (fun contract => contract.isNodeContract && contract.node == node) = true) <| by
    rw [Option.any_eq_true]
    simp only [Bool.and_eq_true, beq_iff_eq]
    rfl

end

/-! ## Coming into use -/

section

variable [Zosbase] {σ μ : Type} [Storage σ] {e : NativeEngine μ}

/-- A workload is recorded as used because it was, or because of a transaction
that has just gone through. -/
theorem exec_okay_of {w : World σ μ} {op : Op} {k : DeploymentKey} {n : Name}
    {wl : Workload} (hwl : (exec e op w).2.view.workload k n = some wl)
    (hok : wl.result.state.isOkay = true) : w.view.workload k n = some wl ∨
      op = .storageTransaction k wl ∧ wl.name = n := by
  have hrewrites := exec_rewrites (e := e) op w
  generalize (exec e op w).2.view = v at hrewrites hwl
  cases hrewrites with
  | kept | update => exact .inl hwl
  | @create dl =>
      by_cases hkey : k = dl.key
      · rw [hkey] at hwl
        rw [StoreView.create_workload_init hwl] at hok
        cases hok
      · rw [StoreView.create_workload_of_ne hkey] at hwl
        exact .inl hwl
  | add =>
      rw [StoreView.add_workload] at hwl
      split at hwl
      · obtain rfl := Option.some.inj hwl
        cases hok
      · exact .inl hwl
  | transaction =>
      rw [StoreView.transaction_workload] at hwl
      split at hwl
      · next hkn =>
          obtain rfl := Option.some.inj hwl
          obtain ⟨rfl, rfl⟩ := hkn
          exact .inr ⟨rfl, rfl⟩
      · exact .inl hwl
  | remove =>
      rw [StoreView.remove_workload] at hwl
      split at hwl
      · cases hwl
      · exact .inl hwl
  | delete =>
      rw [StoreView.delete_workload] at hwl
      split at hwl
      · cases hwl
      · exact .inl hwl
  | error =>
      rw [StoreView.error_workload] at hwl
      split at hwl
      · obtain ⟨old, _, rfl⟩ := Option.map_eq_some_iff.mp hwl
        cases hok
      · exact .inl hwl

/-- The same of a deployment that has a workload in use. -/
theorem exec_hasOkay_of {w : World σ μ} {op : Op} {k : DeploymentKey}
    (h : (exec e op w).2.view.HasOkay k) : w.view.HasOkay k ∨
      ∃ wl, op = .storageTransaction k wl ∧ wl.result.state.isOkay = true := by
  obtain ⟨n, wl, hwl, hok⟩ := h
  rcases exec_okay_of hwl hok with hbefore | ⟨rfl, _⟩
  · exact .inl ⟨n, wl, hbefore, hok⟩
  · exact .inr ⟨wl, rfl, hok⟩

/-! ## The protocol -/

/-- What a deployment has to be to be in use, as a property of the chain. It is
assumed of the deployments of some jobs; `truth` is what is known of the gateway
at any time. -/
structure Admission where
  good : Chain → DeploymentKey → Prop
  assumed : EngineJob → Prop
  truth : Chain → Gateway → Prop
  stable : ∀ {c c' k}, good c k → c.Evolves c' → good c' k

namespace Admission

variable (A : Admission)

structure Inv (w : World σ μ) : Prop where
  good : ∀ k, w.view.HasOkay k → A.good w.chain k
  truth : A.truth w.chain w.gateway
  jobs : Queued UpdatesAccepted w

/-- A workload is recorded as used only in a good deployment. -/
def Allows (job : Option EngineJob) (op : Op) (w : World σ μ) : Prop :=
  ∀ key wl, op = .storageTransaction key wl → wl.result.state.isOkay = true →
    A.good w.chain key ∨ ∃ j, job = some j ∧ A.assumed j ∧ key = j.target.key

def protocol (r : ContractEventHandler μ) : Protocol r σ where
  inv := A.Inv
  workerRely w w' := w.chain.Evolves w'.chain
  routineRely w w' := w.chain.Evolves w'.chain
  assume job op w := op.isWork = true →
    ∀ j, job = some j → A.assumed j → A.good w.chain j.target.key
  allow job op w := A.Allows job op w ∧ ∀ j ∈ op.jobs, UpdatesAccepted j
  routineAllow op _ := op.isIdleWrite ∧ ∀ j ∈ op.jobs, UpdatesAccepted j
  post _ := True
  worker_refl w := .refl w.chain
  worker_trans := .trans
  routine_refl w := .refl w.chain
  routine_trans := .trans

variable {A} {r : ContractEventHandler μ} {w : World σ μ}
  {job : Option EngineJob}

theorem Inv.call (h : A.Inv w) {op : Op}
    (hop : ∀ key wl, op = .storageTransaction key wl →
      wl.result.state.isOkay = true → A.good w.chain key)
    (hjobs : ∀ j ∈ op.jobs, UpdatesAccepted j) : A.Inv (exec e op w).2 := by
  obtain ⟨hchain, hgateway, _⟩ := exec_outside (e := e) w op
  refine ⟨fun k hk => ?_, ?_, h.jobs.call hjobs⟩
  · rw [hchain]
    rcases exec_hasOkay_of hk with hbefore | ⟨wl, rfl, hok⟩
    · exact h.good k hbefore
    · exact hop k wl rfl hok
  · rw [hchain, hgateway]
    exact h.truth

omit [Storage σ] in
theorem allows_of_idle {op : Op} (h : op.isIdleWrite) : A.Allows job op w := by
  intro key wl hop hok
  rw [h key wl hop] at hok
  cases hok

/-- A program that records nothing as used is safe anywhere. -/
theorem safe_of_idle {α : Type} {B : Op → Prop} {p : EngineM α} (hp : Makes p B)
    (hB : ∀ op, B op → op.isIdleWrite ∧ op.jobs = []) :
    p.Safe ((A.protocol r).worker job) (fun _ _ => True) w := by
  refine hp.safe (fun op t => exec_possible op t) fun op t hop _ => ?_
  obtain ⟨hidle, hjobs⟩ := hB op hop
  exact ⟨allows_of_idle hidle, by rw [hjobs]; exact List.forall_mem_nil _⟩

/-- In a good deployment a program may do what it likes to the workloads. -/
theorem safe_of_good {α : Type} {B : Op → Prop} {p : EngineM α} (hp : Makes p B)
    {k : DeploymentKey} (hB : ∀ op, B op → op.jobs = [] ∧
      ∀ key wl, op = .storageTransaction key wl → key = k)
    (h : A.good w.chain k) :
    p.Safe ((A.protocol r).worker job) (fun _ _ => True) w := by
  refine (hp.keeps (I := fun t => A.good t.chain k)
    (fun op t => exec_possible op t) (fun t t' => A.stable) ?_ h).mono
      fun _ _ _ _ => trivial
  intro op t hop _ hgood
  obtain ⟨hjobs, hkey⟩ := hB op hop
  refine ⟨⟨fun key wl htx _ => .inl ?_, ?_⟩, ?_⟩
  · rw [hkey key wl htx]
    exact hgood
  · rw [hjobs]
    exact List.forall_mem_nil _
  · rw [Protocol.worker_handle, (exec_outside t op).1]
    exact hgood

omit [Zosbase] in
/-- The calls for a workload write under its own key. -/
theorem key_of_on {wl : WorkloadWithID} {op : Op} (h : op.on wl)
    {key : DeploymentKey} {w₀ : Workload} (hop : op = .storageTransaction key w₀) :
    key = wl.id.key := by
  subst hop
  exact h.1

/-- A lock job changes workloads that are in use already. -/
theorem lockWorkload_safe (wl : WorkloadWithID) (lock : Bool) :
    (lockWorkload wl lock).Safe ((A.protocol r).worker job)
      (fun _ _ => True) w := by
  rw [lockWorkload, safe_perform_bind]
  intro t _ hi _
  refine ⟨⟨fun _ _ h => (nomatch h), List.forall_mem_nil _⟩, ?_⟩
  rw [Protocol.worker_handle]
  rcases exec_storageCurrent (e := r.engine) t wl.id.key wl.id.name with
    ⟨cur, hres, hcur⟩ | ⟨err, hres, _⟩
  · rw [hres]
    dsimp only
    split
    · exact fun _ _ _ => trivial
    · next hok =>
        have hgood : A.good t.chain wl.id.key :=
          hi.good _ ⟨wl.id.name, cur, hcur, by simpa using hok⟩
        refine safe_of_good (B := fun op => op.on wl) ?_ ?_ hgood
        · refine within_bind ?_ fun ans => ?_
          · cases lock <;> exact within_perform rfl
          · obtain ⟨result, err⟩ := ans
            cases err with
            | none => exact within_perform ⟨rfl, _, rfl⟩
            | some err => dsimp only; split <;> trivial
        · exact fun op hop => ⟨Op.jobs_of_isWork (Op.isWork_of_on hop),
            fun key w₀ htx => key_of_on hop htx⟩
  · rw [hres]
    exact fun _ _ _ => trivial

/-! ## One job -/

variable [GoRuntime]

/-- What validation has to come to for a job nothing is assumed of. -/
def Vouches (A : Admission) (r : ContractEventHandler μ) (σ : Type) [Storage σ] :
    Prop :=
  ∀ job noValidation, job.validation = some noValidation → ¬ A.assumed job →
    ∀ w : World σ μ, (validate r.engine job.target noValidation).Safe
      ((A.protocol r).worker (some job))
      (fun ans t => ans = none → A.good t.chain job.target.key) w

theorem body_safe_of_good (hlaw : LawfulUpgrade) {job : EngineJob}
    (haccepted : UpdatesAccepted job)
    (h : A.assumed job ∨ A.good w.chain job.target.key) :
    (runJob r.engine job).Safe ((A.protocol r).worker (some job))
      (fun _ _ => True) w := by
  have hmakes : Makes (runJob r.engine job) fun op => op.jobs = [] ∧
      ∀ key wl, op = .storageTransaction key wl → key = job.target.key := by
    rw [runJob_eq]
    refine within_bind (within_mono (EngineJob.body_makes job) ?_) fun _ =>
      within_mono (finishJob_makes _ _) ?_
    · rintro op (⟨wl, hwl, hop⟩ | ⟨_, rfl⟩)
      · refine ⟨Op.jobs_of_isWork (Op.isWork_of_on hop), fun key w₀ htx => ?_⟩
        rw [key_of_on hop htx]
        exact (EngineJob.mem_items hlaw haccepted hwl).1
      · exact ⟨rfl, fun _ _ h => nomatch h⟩
    · rintro op (rfl | rfl) <;> exact ⟨rfl, fun _ _ h => nomatch h⟩
  rcases h with hassumed | hgood
  · refine hmakes.safe (fun op t => exec_possible op t) fun op t hop _ => ?_
    refine ⟨fun key wl htx _ => .inr ⟨job, rfl, hassumed, hop.2 key wl htx⟩, ?_⟩
    rw [hop.1]
    exact List.forall_mem_nil _
  · exact safe_of_good hmakes (fun _ h => h) hgood

theorem processJob_safe (hlaw : LawfulUpgrade) (hvouch : A.Vouches r σ)
    {job : EngineJob} (haccepted : UpdatesAccepted job) :
    (processJob r.engine job).Safe ((A.protocol r).worker (some job))
      (fun _ _ => True) w := by
  have hrefuse : ∀ (err : GoError) (t : World σ μ),
      (do let _ ← storageError job.target.key err
          let _ ← dequeue
          pure () : EngineM Unit).Safe ((A.protocol r).worker (some job))
        (fun _ _ => True) t := by
    intro err t
    refine safe_of_idle (B := fun op => op = .storageError job.target.key err ∨
      op = .dequeue) ?_ ?_
    · exact within_perform_bind (.inl rfl) fun _ _ =>
        within_perform_bind (.inr rfl) fun _ _ => trivial
    · rintro op (rfl | rfl) <;> exact ⟨Op.isIdleWrite_of_ne (by simp), rfl⟩
  rw [processJob]
  split
  · next hval =>
      have hfinish : ∀ t : World σ μ,
          (finishJob r.engine job.target job.removes).Safe
            ((A.protocol r).worker (some job)) (fun _ _ => True) t := by
        intro t
        refine safe_of_idle (finishJob_makes _ _) ?_
        rintro op (rfl | rfl) <;> exact ⟨Op.isIdleWrite_of_ne (by simp), rfl⟩
      have hlock : ∀ (wls : List WorkloadWithID) (lock : Bool),
          (wls.forM fun wl => logged (lockWorkload wl lock)).Safe
            ((A.protocol r).worker (some job)) (fun _ _ => True) w :=
        fun wls lock => Safe.forM (fun _ _ => True)
          (fun wl _ t _ _ => safe_logged (lockWorkload_safe wl lock))
          fun _ _ _ => trivial
      rw [runJob_eq]
      refine Safe.bind (Q := fun _ _ => True) ?_ fun _ t _ _ => hfinish t
      cases job with
      | opDeprovision target message =>
          refine safe_of_idle (uninstallDeployment_makes target message) ?_
          rintro op (⟨⟨_, _, hon⟩, hop⟩ | rfl)
          · exact ⟨Op.isIdleWrite_of_removal hop,
              Op.jobs_of_isWork (Op.isWork_of_on hon)⟩
          · exact ⟨Op.isIdleWrite_of_ne (by simp), rfl⟩
      | opPause target => exact hlock _ true
      | opResume target => exact hlock _ false
      | opProvision | opProvisionNoValidation | opUpdate => cases hval
  · next noValidation hval =>
      by_cases hassumed : A.assumed job
      · refine Safe.bind (Q := fun _ _ => True) ?_ fun ans t _ _ => ?_
        · refine safe_of_idle (validate_makes _ _) ?_
          rintro op (rfl | rfl) <;> exact ⟨Op.isIdleWrite_of_ne (by simp), rfl⟩
        · cases ans with
          | none => exact body_safe_of_good hlaw haccepted (.inl hassumed)
          | some err => exact hrefuse err t
      · refine (hvouch job noValidation hval hassumed w).bind fun ans t _ hans => ?_
        cases ans with
        | none => exact body_safe_of_good hlaw haccepted (.inr (hans rfl))
        | some err => exact hrefuse err t

/-! ## Runs -/

/-- Anything may happen, as long as the chain moves as chains do, the gateway is
as truthful as supposed, and the worker only works on the workloads of an
assumed job if its deployment is good. -/
def Permits (A : Admission) (s : Sys σ μ) : Action μ → Prop
  | .outside _ chain gateway =>
      s.world.chain.Evolves chain ∧ A.truth chain gateway
  | .work => ∀ op k, s.worker = .call op k → op.isWork = true →
      ∀ j, s.job = some j → A.assumed j → A.good s.world.chain j.target.key
  | .spawn _ | .routine _ | .take | .restart | .clear _ | .reboot _ => True

/-- The same as a check, for runs the outside keeps still in. -/
def permits (A : Admission) [∀ j, Decidable (A.assumed j)]
    [∀ c k, Decidable (A.good c k)] (s : Sys σ μ) : Action μ → Bool
  | .outside _ _ _ => false
  | .work =>
      match s.worker, s.job with
      | .call op _, some j =>
          !op.isWork || !A.assumed j || A.good s.world.chain j.target.key
      | _, _ => true
  | .spawn _ | .routine _ | .take | .restart | .clear _ | .reboot _ => true

omit [Storage σ] [GoRuntime] in
theorem permits_sound [∀ j, Decidable (A.assumed j)]
    [∀ c k, Decidable (A.good c k)] {s : Sys σ μ} {a : Action μ}
    (h : A.permits s a = true) : A.Permits s a := by
  cases a with
  | outside clock chain gateway => cases h
  | work =>
      intro op k hw hwork j hj hassumed
      simpa [permits, hw, hj, hwork, hassumed] using h
  | _ => trivial

omit [GoRuntime] in
/-- A start queues jobs of boot, and records nothing. -/
theorem start_holds {rerunAll : Bool} {w : World σ μ} {log : List Event}
    (hinv : (A.protocol r).inv (Sys.start r rerunAll w log).world) :
    (A.protocol r).Holds (Sys.start r rerunAll w log) := by
  refine ⟨hinv, ?_, fun _ hp => nomatch hp⟩
  refine (startup_makes (e := { r.engine with rerunAll := rerunAll })).safe
    (fun op t => exec_possible (e := r.engine) op t) fun op t hop _ => ?_
  refine ⟨allows_of_idle ?_, startup_accepted hop⟩
  rintro key wl rfl
  cases hop

theorem sound (hlaw : LawfulUpgrade) (hvouch : A.Vouches r σ) :
    (A.protocol r : Protocol r σ).Sound A.Permits where
  spawn s routine _ _ :=
    (routine_calls (r := r) routine).safe (fun op t => exec_possible op t)
      fun _ _ h _ => ⟨h.idle, h.jobs⟩
  routine op w hi hop := by
    have hchain : w.chain.Evolves (exec r.engine op w).2.chain := by
      rw [(exec_outside w op).1]
      exact .refl _
    refine ⟨hi.call (fun key wl htx hok => ?_) hop.2, hchain, hchain⟩
    rw [hop.1 key wl htx] at hok
    cases hok
  assume s op k _ hok hw := hok op k hw
  work job op w hi hassume hop := by
    refine ⟨hi.call (fun key wl htx hok => ?_) hop.2, ?_⟩
    · rcases hop.1 key wl htx hok with hgood | ⟨j, hj, hassumed, rfl⟩
      · exact hgood
      · exact hassume (by rw [htx]; rfl) j hj hassumed
    · show w.chain.Evolves (exec r.engine op w).2.chain
      rw [(exec_outside w op).1]
      exact .refl _
  take s job rest hholds _ hq :=
    processJob_safe hlaw hvouch (hholds.inv.jobs job (by rw [hq]; simp))
  outside s clock chain gateway hi hok :=
    ⟨⟨fun k hk => A.stable (hi.good k hk) hok.1, hok.2, hi.jobs⟩, hok.1, hok.1⟩
  restart s hholds _ :=
    ⟨hholds.inv, fun _ _ _ => trivial, fun _ hp => nomatch hp⟩
  clear s rerunAll hholds _ := by
    refine start_holds ?_
    rw [Sys.start_cleared]
    exact ⟨hholds.inv.good, hholds.inv.truth, .of_empty rfl⟩
  reboot s rest hholds _ :=
    start_holds ⟨hholds.inv.good, hholds.inv.truth, .of_empty rfl⟩

/-- Whatever comes to be in use over a run is good. -/
theorem run (hlaw : LawfulUpgrade) (hvouch : A.Vouches r σ) {s₀ s : Sys σ μ}
    (hfresh : s₀.Fresh) (hstart : ∀ k, s₀.world.view.HasOkay k →
      A.good s₀.world.chain k)
    (htruth : A.truth s₀.world.chain s₀.world.gateway)
    (hrun : Run r A.Permits s₀ s) :
    (A.protocol r).Holds s :=
  (sound hlaw hvouch).run hrun
    (hfresh.holds ⟨hstart, htruth, .of_empty hfresh.queue⟩ fun _ _ => trivial)

end Admission

end

end Zos4.Provision
