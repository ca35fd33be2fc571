import Zos4.Provision.Reference
import Zos4.Provisiond.Usage

/-!
# Reported usage

The registrar is told what a deployment takes up when the callback of a job is
made, and the callback is made at the end of a job. So what was sent last agrees
with the store, or the callback is still to come, as long as the workloads in use
change in jobs that get there. `Careful` lists the steps that go around it: a
refusal marks every workload of the deployment and goes on to the next job, a
deprovision tells the callback of a deletion even if the deployment is kept, and
a workload that is decommissioned is no job at all. And what was sent is replaced
when a deployment of another twin with the same contract is reported. If none of
this happens unless a report of the deployment is on its way (`Awaits`), what was
sent last is right whenever nothing is left to do, from the start on or from the
first report on.
-/

namespace Zos4.Provisiond

open Zos4.Interaction Prog Zos4.Provision

section

variable [Zosbase] [GoRuntime] {σ μ : Type} [Storage σ] {e : NativeEngine μ}

/-! ## A run of the node with its setter -/

namespace Metered

variable {r : ContractEventHandler μ} {capacity : Workload → Except GoError Capacity}
  {k : DeploymentKey} {told : Prop} {s s' : Metered σ μ}

/-- A report of the deployment is on its way: the setter is told, or a job of the
deployment that tells it is queued behind the one the worker is at, or about to be
queued. -/
inductive Awaits (k : DeploymentKey) (s : Metered σ μ) : Prop
  | listed (h : k ∈ s.channel)
  | reading (h : s.setter = .reading k)
  | queued (before after : List EngineJob) (job : EngineJob)
      (hqueue : s.sys.world.queue = before ++ job :: after)
      (hkey : job.target.key = k) (hremoves : job.removes = false)
      (hhead : before = [] → Makes s.sys.worker fun op => ¬ op = .dequeue)
  | enrolling (i : Nat) (p : EngineM (Option GoError))
      (hi : s.sys.routines[i]? = some p) (hp : Enqueues k p)

/-- The worker is at a job of the deployment and has yet to make the callback. -/
def Telling (k : DeploymentKey) (s : Metered σ μ) : Prop :=
  ∃ job, s.sys.job = some job ∧ job.target.key = k ∧ job.removes = false ∧
    Reports job s.sys.worker

def Stored (k : DeploymentKey) (s : Metered σ μ) : Prop :=
  s.sys.world.view.header k ≠ none

/-- The worker refuses a job of the deployment. -/
def Refuses (k : DeploymentKey) (s : Metered σ μ) : Action μ → Prop
  | .engine .work => ∃ err cont, s.sys.worker = .call (.storageError k err) cont
  | _ => False

/-- The worker is done with a deprovision of the deployment. -/
def Deprovisioned (k : DeploymentKey) (s : Metered σ μ) : Action μ → Prop
  | .engine .work => ∃ job cont, s.sys.job = some job ∧ job.target.key = k ∧
      job.removes = true ∧ s.sys.worker = .call .dequeue cont
  | _ => False

/-- A workload of the deployment in use is decommissioned. -/
def Decommissions (k : DeploymentKey) (s : Metered σ μ) : Action μ → Prop
  | .engine (.routine i) => ∃ op cont, s.sys.routines[i]? = some (.call op cont) ∧
      op.creates = false ∧ Alters s.sys.world k op
  | _ => False

/-- The setter reads a deployment of another twin, to report it under the same
contract. -/
def Supplants (k : DeploymentKey) (s : Metered σ μ) : Action μ → Prop
  | .read => ∃ id, s.setter = .reading id ∧ id ≠ k ∧ id.contract = k.contract ∧
      s.Stored id
  | _ => False

/-- The steps that go around the callback, or send what is not of the deployment,
are taken only if a report of the deployment comes later anyway. -/
structure Careful (k : DeploymentKey) (s : Metered σ μ) (a : Action μ) : Prop where
  refuses : s.Refuses k a → s.Stored k → s.Awaits k
  deprovisioned : s.Deprovisioned k a → s.Stored k → s.Awaits k
  decommissions : s.Decommissions k a → s.Awaits k ∨ s.Telling k
  supplants : s.Supplants k a → s.Stored k → s.Awaits k ∨ s.Telling k

/-- What is taken for granted: the process goes on, and the registrar takes what it
is sent in the end. -/
structure Assumed (s : Metered σ μ) (a : Action μ) : Prop where
  continues : ∀ a', a = .engine a' → a'.continues
  accepts : ∀ cap, a = .send false → s.setter ≠ .sending 0 cap

/-- What the registrar will have for the contract once the setter has sent what it
holds. -/
def expected (s : Metered σ μ) (id : ContractID) : Option ContractResources :=
  match s.setter with
  | .sending _ cap => if cap.contractID = id then some cap else s.lastSent id
  | _ => s.lastSent id

/-- What is sent is what the stored deployment takes up. -/
def Settled (capacity : Workload → Except GoError Capacity) (k : DeploymentKey)
    (s : Metered σ μ) : Prop :=
  ∀ dl, Storage.get s.sys.world.store k = .ok dl →
    s.expected k.contract = some (contractResources capacity dl)

/-- The worker is at a deprovision of the deployment. -/
def Removing (k : DeploymentKey) (s : Metered σ μ) : Prop :=
  ∃ job, s.sys.job = some job ∧ job.target.key = k ∧ job.removes = true ∧
    s.sys.worker.Closes Op.Possible (fun op : Op => op = .dequeue) job.Tells

/-- If the deployment has been `told` of, what is stored of it has been sent or is going
to be. -/
structure Accounts (r : ContractEventHandler μ)
    (capacity : Workload → Except GoError Capacity) (k : DeploymentKey) (told : Prop)
    (s : Metered σ μ) : Prop where
  staged : s.sys.Staged r.engine
  worker : ∀ job, s.sys.job = some job →
    Reports job s.sys.worker ∨ WritesNothing s.sys.worker
  routines : ∀ p ∈ s.sys.routines, Enrolling p
  owes : told → s.Stored k →
    s.Settled capacity k ∨ s.Awaits k ∨ s.Telling k ∨ s.Removing k

omit [GoRuntime] in
theorem Settled.same {cap : Workload → Capacity}
    (hcap : ∀ wl, capacity wl = .ok (cap wl)) (h : s.Settled capacity k)
    (hsame : SameUse k s.sys.world s'.sys.world)
    (hexpected : s'.expected k.contract = s.expected k.contract) :
    s'.Settled capacity k := by
  intro dl' hdl'
  have hstored : s.Stored k := by
    refine hsame.stored ?_
    rw [(Storage.get_ok hdl').2.1]
    exact Option.some_ne_none _
  cases hdl : Storage.get s.sys.world.store k with
  | error err => exact absurd (Storage.get_error hdl) hstored
  | ok dl =>
      rw [hexpected, h dl hdl, contractResources_eq hcap, contractResources_eq hcap,
        hsame.usage cap hdl hdl']

omit [Storage σ] [GoRuntime] in
/-- A report stays on its way while the queue grows. -/
theorem Awaits.grow (h : s.Awaits k) (hchannel : ∀ id ∈ s.channel, id ∈ s'.channel)
    (hsetter : s.setter = .reading k → s'.setter = .reading k)
    (hqueue : ∃ more, s'.sys.world.queue = s.sys.world.queue ++ more)
    (hworker : (Makes s.sys.worker fun op => ¬ op = .dequeue) →
      Makes s'.sys.worker fun op => ¬ op = .dequeue)
    (hroutines : ∀ (i : Nat) p, s.sys.routines[i]? = some p → Enqueues k p →
      s'.Awaits k) :
    s'.Awaits k := by
  cases h with
  | listed h => exact .listed (hchannel k h)
  | reading h => exact .reading (hsetter h)
  | queued before after job hq hkey hremoves hhead =>
      obtain ⟨more, hmore⟩ := hqueue
      refine .queued before (after ++ more) job ?_ hkey hremoves
        fun h => hworker (hhead h)
      rw [hmore, hq, List.append_assoc, List.cons_append]
  | enrolling i p hi hp => exact hroutines i p hi hp

theorem step_engine {a : Provision.Action μ}
    (h : s.step r capacity (.engine a) = some s') :
    ∃ sys channel, s.sys.step r a = some sys ∧ s.listen a = some channel ∧
      s' = { s with sys := sys, channel := channel } := by
  simp only [step] at h
  split at h
  · next sys channel hsys hchannel =>
      exact ⟨sys, channel, hsys, hchannel, (Option.some.inj h).symm⟩
  · cases h

omit [Storage σ] [GoRuntime] in
/-- A callback that is not about a deletion puts the deployment on the channel. -/
theorem listen_work {op : Op} {cont : op.Ret → EngineM Unit}
    {channel : List DeploymentKey} (hworker : s.sys.worker = .call op cont)
    (h : s.listen .work = some channel) : (∀ id ∈ s.channel, id ∈ channel) ∧
      (op = .callback k.twin k.contract false → k ∈ channel) := by
  rw [listen, hworker] at h
  cases op with
  | callback twin contract delete =>
      simp only [callback] at h
      split at h
      · next hdelete =>
          obtain rfl := Option.some.inj h
          refine ⟨fun _ hid => hid, fun hop => ?_⟩
          rw [(Op.callback.inj hop).2.2] at hdelete
          cases hdelete
      · split at h
        · obtain rfl := Option.some.inj h
          refine ⟨fun id hid => List.mem_append_left _ hid, fun hop => ?_⟩
          obtain ⟨rfl, rfl, _⟩ := Op.callback.inj hop
          exact List.mem_append_right _ List.mem_cons_self
        · cases h
  | _ =>
      obtain rfl := Option.some.inj h
      exact ⟨fun _ hid => hid, fun hop => nomatch hop⟩

omit [Storage σ] in
/-- While the queue is empty the worker is at no job that is on it. -/
theorem no_dequeue_of_empty {t : Sys σ μ} (h : t.Stage e) (hq : t.world.queue = []) :
    Makes t.worker fun op => ¬ op = .dequeue := by
  cases h with
  | starting fresh h =>
      refine within_mono h.makes ?_
      rintro op hop rfl
      cases hop
  | working job rest _ hqueue =>
      rw [hq] at hqueue
      cases hqueue
  | closing job _ h =>
      refine within_mono h ?_
      rintro op hop rfl
      cases hop

omit [Storage σ] in
/-- Once the worker has taken the job off the queue it takes no other. -/
theorem no_dequeue_after {t : Sys σ μ} {cont : Option GoError → EngineM Unit}
    (h : t.Stage e) (hworker : t.worker = .call .dequeue cont) (ans : Option GoError) :
    Makes (cont ans) fun op => ¬ op = .dequeue := by
  cases h with
  | starting fresh h =>
      rw [hworker] at h
      cases h.1.1
  | working job rest _ _ hcloses =>
      rw [hworker] at hcloses
      rcases hcloses with ⟨_, hrest⟩ | ⟨hne, _⟩
      · refine within_mono (hrest ans trivial) ?_
        rintro op hop rfl
        cases hop
      · exact absurd rfl hne
  | closing job _ h =>
      rw [hworker] at h
      cases h.1

/-- A job changes the use of its own deployment only. -/
theorem key_of_alters (hlaw : LawfulUpgrade) {job : EngineJob}
    (haccepted : UpdatesAccepted job) {w : World σ μ} {op : Op} (hop : job.Calls e op)
    (h : Alters w k op) : job.target.key = k := by
  cases hop with
  | work hwl hop =>
      obtain ⟨hkey, _⟩ := EngineJob.mem_items hlaw haccepted hwl
      cases op with
      | storageTransaction key wl | storageRemove key n =>
          rw [← hkey, ← hop.1]
          exact h.1
      | storageCreate | storageDelete | storageError => exact hop.elim
      | _ => exact h.elim
  | delete => exact h
  | refuse => exact h
  | _ => exact h.elim

/-- A step that leaves the store, the worker and the setter as they are. -/
theorem Accounts.spawn {routine : Routine} (h : Accounts r capacity k told s)
    (hs : s.step r capacity (.engine (.spawn routine)) = some s') :
    Accounts r capacity k told s' := by
  obtain ⟨sys, channel, hsys, hchannel, rfl⟩ := step_engine hs
  obtain rfl := Option.some.inj hchannel
  have hstaged := h.staged.step hsys
  obtain rfl := step_spawn hsys
  refine ⟨hstaged, h.worker, fun p hp => ?_, fun ht hstored => ?_⟩
  · rcases List.mem_append.mp hp with hp | hp
    · exact h.routines p hp
    · obtain rfl := List.mem_singleton.mp hp
      exact routine_enrolling routine
  · refine (h.owes ht hstored).imp_right (Or.imp_left fun hw => ?_)
    refine hw.grow (fun _ h => h) (fun h => h) ⟨[], (List.append_nil _).symm⟩
      (fun h => h) fun i p hi hp => ?_
    refine .enrolling i p ?_ hp
    rw [List.getElem?_append_left (List.getElem?_eq_some_iff.mp hi).1]
    exact hi

theorem Accounts.outside {clock : Timestamp} {chain : Chain} {gateway : Gateway}
    (h : Accounts r capacity k told s)
    (hs : s.step r capacity (.engine (.outside clock chain gateway)) = some s') :
    Accounts r capacity k told s' := by
  obtain ⟨sys, channel, hsys, hchannel, rfl⟩ := step_engine hs
  obtain rfl := Option.some.inj hchannel
  have hstaged := h.staged.step hsys
  obtain rfl := step_outside hsys
  refine ⟨hstaged, h.worker, h.routines, fun ht hstored => ?_⟩
  refine (h.owes ht hstored).imp_right (Or.imp_left fun hw => ?_)
  exact hw.grow (fun _ h => h) (fun h => h) ⟨[], (List.append_nil _).symm⟩
    (fun h => h) fun i p hi hp => .enrolling i p hi hp

theorem Accounts.routine {i : Nat} {cap : Workload → Capacity}
    (hcap : ∀ wl, capacity wl = .ok (cap wl)) (h : Accounts r capacity k told s)
    (hcareful : s.Careful k (.engine (.routine i)))
    (hs : s.step r capacity (.engine (.routine i)) = some s') :
    Accounts r capacity k told s' := by
  obtain ⟨sys, channel, hsys, hchannel, rfl⟩ := step_engine hs
  obtain rfl := Option.some.inj hchannel
  have hstaged := h.staged.step hsys
  obtain ⟨op, cont, hi, rfl⟩ := step_routine hsys
  have hmem := List.mem_of_getElem? hi
  have hop : op.OfRoutine := (h.staged.routines _ hmem).1
  obtain ⟨henrols, hrest⟩ : Enrolling (.call op cont) := h.routines _ hmem
  have hlength := (List.getElem?_eq_some_iff.mp hi).1
  let t : Metered σ μ := { s with sys := { s.sys with
    world := (exec r.engine op s.sys.world).2
    routines := s.sys.routines.set i (cont (exec r.engine op s.sys.world).1)
    log := ⟨.routine, op, (exec r.engine op s.sys.world).1⟩ :: s.sys.log } }
  refine ⟨hstaged, h.worker, fun p hp => ?_, fun ht (hstored : t.Stored k) => ?_⟩
  · rcases List.mem_or_eq_of_mem_set hp with hp | rfl
    · exact h.routines p hp
    · exact hrest _ (exec_possible op s.sys.world)
  -- a report that was on its way still is
  have hwait : s.Awaits k → t.Awaits k := by
    intro hw
    refine hw.grow (fun _ h => h) (fun h => h)
      ⟨_, exec_queue_append s.sys.world hop.keeps⟩ (fun h => h) fun j p hj hp => ?_
    by_cases hij : i = j
    · subst hij
      obtain ⟨job, cont', rfl, hkey, hremoves⟩ := hp
      obtain ⟨rfl, _⟩ := Prog.call.inj (Option.some.inj (hi.symm.trans hj))
      have hhead : s.sys.world.queue = [] → Makes s.sys.worker fun op => ¬ op = .dequeue :=
        no_dequeue_of_empty h.staged.stage
      exact .queued s.sys.world.queue [] job rfl hkey hremoves hhead
    · refine .enrolling j p ?_ hp
      rw [List.getElem?_set_ne hij]
      exact hj
  have hkeeps : SameUse k s.sys.world t.sys.world →
      t.Settled capacity k ∨ t.Awaits k ∨ t.Telling k ∨ t.Removing k :=
    fun hsame => (h.owes ht (hsame.stored hstored)).imp
      (fun hsettled => hsettled.same hcap hsame rfl) (Or.imp_left hwait)
  by_cases halters : Alters s.sys.world k op
  · cases hcreates : op.creates with
    | false =>
        have hcases := hcareful.decommissions ⟨op, cont, hi, hcreates, halters⟩
        exact .inr (hcases.imp hwait .inl)
    | true =>
        cases op with
        | storageCreate dl =>
            obtain rfl : dl.key = k := halters
            rcases (exec_storageCreate (e := r.engine) s.sys.world dl).cases with
              ⟨st, _, hres, _⟩ | ⟨err, hres, _⟩
            · -- the deployment is new, and its job is about to be queued
              refine .inr (.inl (.enrolling i _ (List.getElem?_set_self hlength) ?_))
              rw [hres]
              exact henrols
            · exact hkeeps (.of_view (congrArg (fun res => res.2.view) hres))
        | _ => cases hcreates
  · exact hkeeps (exec_sameUse halters)

theorem Accounts.take (hcallback : r.engine.callback = true)
    (h : Accounts r capacity k told s)
    (hs : s.step r capacity (.engine .take) = some s') : Accounts r capacity k told s' := by
  obtain ⟨sys, channel, hsys, hchannel, rfl⟩ := step_engine hs
  obtain rfl := Option.some.inj hchannel
  have hstaged := h.staged.step hsys
  obtain ⟨⟨u, hu⟩, job, rest, hq, rfl⟩ := step_take hsys
  have hreports := processJob_reports (e := r.engine) hcallback job
  refine ⟨hstaged, ?_, h.routines, fun ht hstored => ?_⟩
  · rintro job' hjob
    obtain rfl := Option.some.inj hjob
    exact .inl hreports
  · rcases h.owes ht hstored with hsettled | hw | ⟨job', _, _, _, hp⟩ | ⟨job', _, _, _, hp⟩
    · exact .inl hsettled
    · cases hw with
      | listed hw => exact .inr (.inl (.listed hw))
      | reading hw => exact .inr (.inl (.reading hw))
      | enrolling i p hi hp => exact .inr (.inl (.enrolling i p hi hp))
      | queued before after job' hq' hkey hremoves hhead =>
          rw [hq] at hq'
          cases before with
          | nil =>
              obtain ⟨rfl, rfl⟩ := List.cons.inj hq'
              exact .inr (.inr (.inl ⟨job, rfl, hkey, hremoves, hreports⟩))
          | cons job₀ before =>
              exact .inr (.inl (.queued (job₀ :: before) after job' (hq.trans hq') hkey
                hremoves fun hnil => nomatch hnil))
    · rw [hu] at hp
      exact hp.elim
    · rw [hu] at hp
      exact hp.elim

/-- A report that was on its way still is when the worker has made a call. -/
theorem Awaits.work {op : Op} {cont : op.Ret → EngineM Unit} (hstage : s.sys.Stage r.engine)
    (hw : s.sys.worker = .call op cont)
    (hworld : s'.sys.world = (exec r.engine op s.sys.world).2)
    (hworker : s'.sys.worker = cont (exec r.engine op s.sys.world).1)
    (hroutines : s'.sys.routines = s.sys.routines) (hsetter : s'.setter = s.setter)
    (hchannel : ∀ id ∈ s.channel, id ∈ s'.channel) (h : s.Awaits k) : s'.Awaits k := by
  have hans := exec_possible (e := r.engine) op s.sys.world
  by_cases hdequeue : op = .dequeue
  · subst hdequeue
    cases h with
    | listed h => exact .listed (hchannel k h)
    | reading h => exact .reading (hsetter.trans h)
    | enrolling i p hi hp => exact .enrolling i p (hroutines ▸ hi) hp
    | queued before after job hq hkey hremoves hhead =>
        cases before with
        | nil =>
            have hno := hhead rfl
            rw [hw] at hno
            exact absurd rfl hno.1
        | cons job₀ before =>
            refine .queued before after job ?_ hkey hremoves fun _ => ?_
            · rw [hworld]
              simp only [exec, hq, List.cons_append]
            · rw [hworker]
              exact no_dequeue_after hstage hw _
  · refine h.grow hchannel (fun h => hsetter.trans h)
      (hworld ▸ ⟨_, exec_queue_append s.sys.world hdequeue⟩) (fun hno => ?_)
      fun i p hi hp => .enrolling i p (hroutines ▸ hi) hp
    rw [hw] at hno
    rw [hworker]
    exact hno.2 _ hans

omit [GoRuntime] in
/-- Recording a refusal stores no deployment and drops none. -/
theorem storageError_header {w : World σ μ} {err : GoError} :
    (exec e (.storageError k err) w).2.view.header k = w.view.header k := by
  rcases (exec_storageError (e := e) w k err).cases with ⟨st, hv, hres, _⟩ | ⟨_, hres, _⟩
  · rw [hres, World.view_mk, hv, StoreView.error_header]
  · rw [hres]

theorem Accounts.work (hlaw : LawfulUpgrade) {cap : Workload → Capacity}
    (hcap : ∀ wl, capacity wl = .ok (cap wl)) (h : Accounts r capacity k told s)
    (hcareful : s.Careful k (.engine .work))
    (hs : s.step r capacity (.engine .work) = some s') : Accounts r capacity k told s' := by
  obtain ⟨sys, channel, hsys, hchannel, rfl⟩ := step_engine hs
  have hstaged := h.staged.step hsys
  obtain ⟨op, cont, hw, rfl⟩ := step_work hsys
  obtain ⟨hkept, htold⟩ := listen_work (k := k) hw hchannel
  have hans := exec_possible (e := r.engine) op s.sys.world
  let t : Metered σ μ := { s with
    sys := { s.sys with
      world := (exec r.engine op s.sys.world).2
      worker := cont (exec r.engine op s.sys.world).1
      log := ⟨.worker s.sys.job, op, (exec r.engine op s.sys.world).1⟩ :: s.sys.log }
    channel := channel }
  refine ⟨hstaged, fun job hjob => ?_, h.routines, fun ht (hstored : t.Stored k) => ?_⟩
  · have hworker := h.worker job hjob
    rw [hw] at hworker
    rcases hworker with (⟨_, hrest⟩ | ⟨_, hrest⟩) | ⟨_, hrest⟩
    · exact .inr (hrest _ hans)
    · exact .inl (hrest _ hans)
    · exact .inr (hrest _ hans)
  have hwait : s.Awaits k → t.Awaits k :=
    Awaits.work h.staged.stage hw rfl rfl rfl rfl hkept
  by_cases halters : Alters s.sys.world k op
  · cases h.staged.stage with
    | starting fresh hboots =>
        rw [hw] at hboots
        have hstartup := hboots.1.1
        cases op <;> first | exact halters.elim | cases hstartup
    | closing job _ hcalls =>
        rw [hw] at hcalls
        obtain ⟨rfl, _⟩ := hcalls
        exact halters.elim
    | working job rest hjob hq hcloses hcalls =>
        rw [hw] at hcloses hcalls
        have haccepted := h.staged.jobs job (hq ▸ List.mem_cons_self)
        have hkey := key_of_alters hlaw haccepted hcalls.1 halters
        by_cases hrefuses : ∃ err, op = .storageError k err
        · obtain ⟨err, rfl⟩ := hrefuses
          have hheader : t.sys.world.view.header k = s.sys.world.view.header k :=
            storageError_header
          have hbefore : s.Stored k := fun hnone => hstored (hheader.trans hnone)
          exact .inr (.inl (hwait (hcareful.refuses ⟨err, cont, hw⟩ hbefore)))
        · cases hremoves : job.removes with
          | true =>
              rcases hcloses with ⟨rfl, _⟩ | ⟨_, hrest⟩
              · exact halters.elim
              · exact .inr (.inr (.inr ⟨job, hjob, hkey, hremoves, hrest _ hans⟩))
          | false =>
              have hworker := h.worker job hjob
              rw [hw] at hworker
              rcases hworker with (⟨hends, _⟩ | ⟨_, hrest⟩) | ⟨hnothing, _⟩
              · rcases hends with rfl | ⟨err, rfl⟩
                · exact halters.elim
                · rw [hkey] at hrefuses
                  exact absurd ⟨err, rfl⟩ hrefuses
              · exact .inr (.inr (.inl ⟨job, hjob, hkey, hremoves, hrest _ hans⟩))
              · rw [writes_of_alters halters] at hnothing
                cases hnothing
  · have hsame : SameUse k s.sys.world t.sys.world := exec_sameUse halters
    have hbefore : s.Stored k := hsame.stored hstored
    rcases h.owes ht hbefore with hsettled | hawaits |
      ⟨job, hjob, hkey, hremoves, hp⟩ | ⟨job, hjob, hkey, hremoves, hp⟩
    · exact .inl (hsettled.same hcap hsame rfl)
    · exact .inr (.inl (hwait hawaits))
    · rw [hw] at hp
      rcases hp with ⟨hcall | ⟨err, rfl⟩, _⟩ | ⟨_, hrest⟩
      · rw [hremoves] at hcall
        subst hkey
        exact .inr (.inl (.listed (htold hcall)))
      · exact absurd hkey halters
      · exact .inr (.inr (.inl ⟨job, hjob, hkey, hremoves, hrest _ hans⟩))
    · rw [hw] at hp
      rcases hp with ⟨rfl, _⟩ | ⟨_, hrest⟩
      · exact .inr (.inl (hwait
          (hcareful.deprovisioned ⟨job, cont, hjob, hkey, hremoves, hw⟩ hbefore)))
      · exact .inr (.inr (.inr ⟨job, hjob, hkey, hremoves, hrest _ hans⟩))

theorem Accounts.receive (h : Accounts r capacity k told s)
    (hs : s.step r capacity .receive = some s') : Accounts r capacity k told s' := by
  simp only [step] at hs
  split at hs
  · next id rest hsetter hchannel =>
      obtain rfl := Option.some.inj hs
      refine ⟨h.staged, h.worker, h.routines, fun ht hstored => ?_⟩
      rcases h.owes ht hstored with hsettled | hw | hbusy
      · refine .inl fun dl hdl => ?_
        rw [← hsettled dl hdl, Metered.expected, Metered.expected, hsetter]
        rfl
      · refine .inr (.inl ?_)
        cases hw with
        | listed hw =>
            rw [hchannel] at hw
            rcases List.mem_cons.mp hw with rfl | hw
            · exact .reading rfl
            · exact .listed hw
        | reading hw =>
            rw [hsetter] at hw
            cases hw
        | queued before after job hq hkey hremoves hhead =>
            exact .queued before after job hq hkey hremoves hhead
        | enrolling i p hi hp => exact .enrolling i p hi hp
      · exact .inr (.inr hbusy)
  · cases hs

/-- The setter reads a deployment. If it is the deployment, what it sends is right;
if it is another of the same contract, a report of the deployment comes later. -/
theorem Accounts.read (h : Accounts r capacity k told s) (hcareful : s.Careful k .read)
    (hs : s.step r capacity .read = some s') : Accounts r capacity k told s' := by
  simp only [step] at hs
  split at hs
  · next id hsetter =>
      have hawaits : ∀ setter, id ≠ k → s.Awaits k →
          Awaits k { s with setter := setter } := by
        intro setter hne hw
        refine hw.grow (fun _ h => h) (fun hreading => ?_)
          ⟨[], (List.append_nil _).symm⟩ (fun h => h) fun i p hi hp => .enrolling i p hi hp
        rw [hsetter] at hreading
        exact absurd (Setter.reading.inj hreading) hne
      split at hs
      · next err hget =>
          obtain rfl := Option.some.inj hs
          refine ⟨h.staged, h.worker, h.routines, fun ht hstored => ?_⟩
          have hne : id ≠ k := by
            rintro rfl
            exact hstored (Storage.get_error hget)
          refine (h.owes ht hstored).imp (fun hsettled dl hdl => ?_)
            (Or.imp_left (hawaits _ hne))
          rw [← hsettled dl hdl, Metered.expected, Metered.expected, hsetter]
          rfl
      · next dl₀ hget =>
          obtain rfl := Option.some.inj hs
          obtain ⟨hkey₀, hheader, _⟩ := Storage.get_ok hget
          refine ⟨h.staged, h.worker, h.routines, fun ht hstored => ?_⟩
          by_cases hid : id = k
          · subst hid
            refine .inl fun dl hdl => ?_
            obtain rfl := Except.ok.inj (hget.symm.trans hdl)
            exact if_pos (congrArg DeploymentKey.contract hkey₀)
          · by_cases hcontract : id.contract = k.contract
            · have hread : s.Stored id := by
                rw [Stored, hheader]
                exact Option.some_ne_none _
              exact .inr ((hcareful.supplants ⟨id, hsetter, hid, hcontract, hread⟩
                hstored).imp (hawaits _ hid) .inl)
            · refine (h.owes ht hstored).imp (fun hsettled dl hdl => ?_)
                (Or.imp_left (hawaits _ hid))
              rw [← hsettled dl hdl, Metered.expected, Metered.expected, hsetter]
              refine if_neg fun hsame => hcontract ?_
              rw [← hsame, ← hkey₀]
              rfl
  · cases hs

theorem Accounts.send {accepted : Bool} (h : Accounts r capacity k told s)
    (haccepts : ∀ cap, accepted = false → s.setter ≠ .sending 0 cap)
    (hs : s.step r capacity (.send accepted) = some s') : Accounts r capacity k told s' := by
  have hkeep : ∀ setter sent, (∀ n cap, s.setter = .sending n cap →
        expected { s with setter := setter, sent := sent } k.contract =
          s.expected k.contract) →
      (∃ n cap, s.setter = .sending n cap) →
      Accounts r capacity k told { s with setter := setter, sent := sent } := by
    rintro setter sent hexpected ⟨n, cap, hsetter⟩
    refine ⟨h.staged, h.worker, h.routines, fun ht hstored => ?_⟩
    refine (h.owes ht hstored).imp (fun hsettled dl hdl => ?_) (Or.imp_left fun hw => ?_)
    · rw [hexpected n cap hsetter]
      exact hsettled dl hdl
    · refine hw.grow (fun _ h => h) (fun hreading => ?_) ⟨[], (List.append_nil _).symm⟩
        (fun h => h) fun i p hi hp => .enrolling i p hi hp
      rw [hsetter] at hreading
      cases hreading
  simp only [step] at hs
  split at hs
  · next retries cap hsetter =>
      split at hs
      · obtain rfl := Option.some.inj hs
        refine hkeep _ _ (fun _ _ _ => ?_) ⟨_, _, hsetter⟩
        rw [Metered.expected, Metered.expected, hsetter]
        simp only [lastSent, List.find?_cons]
        split
        · next hid => rw [if_pos (beq_iff_eq.mp hid)]
        · next hid => rw [if_neg (beq_eq_false_iff_ne.mp hid)]
      · next haccepted =>
          split at hs
          · exact absurd hsetter (haccepts cap (by simpa using haccepted))
          · obtain rfl := Option.some.inj hs
            refine hkeep _ s.sent (fun _ _ _ => ?_) ⟨_, _, hsetter⟩
            rw [Metered.expected, Metered.expected, hsetter]
            rfl
  · cases hs

theorem Accounts.step (hlaw : LawfulUpgrade) (hcallback : r.engine.callback = true)
    {cap : Workload → Capacity} (hcap : ∀ wl, capacity wl = .ok (cap wl))
    {a : Action μ} (h : Accounts r capacity k told s) (hassumed : s.Assumed a)
    (hcareful : s.Careful k a) (hs : s.step r capacity a = some s') :
    Accounts r capacity k told s' := by
  cases a with
  | engine a =>
      cases a with
      | spawn routine => exact h.spawn hs
      | routine i => exact h.routine hcap hcareful hs
      | take => exact h.take hcallback hs
      | work => exact h.work hlaw hcap hcareful hs
      | outside clock chain gateway => exact h.outside hs
      | restart => exact (hassumed.continues _ rfl).elim
      | clear rerunAll => exact (hassumed.continues _ rfl).elim
      | reboot rest => exact (hassumed.continues _ rfl).elim
  | receive => exact h.receive hs
  | read => exact h.read hcareful hs
  | send accepted =>
      refine h.send (fun cap haccepted => ?_) hs
      subst haccepted
      exact hassumed.accepts cap rfl

/-- The last resources sent for the contract are what the stored deployment takes
up. -/
def Reported (cap : Workload → Capacity) (k : DeploymentKey) (s : Metered σ μ) : Prop :=
  ∀ dl, Storage.get s.sys.world.store k = .ok dl →
    s.lastSent k.contract = some (usage cap dl)

/-- What every step of a run is supposed to be. -/
def Orderly (k : DeploymentKey) (s : Metered σ μ) (a : Action μ) : Prop :=
  s.Assumed a ∧ s.Careful k a

/-- Somewhere on the way a report of the deployment is awaited. -/
def Announced (r : ContractEventHandler μ) (capacity : Workload → Except GoError Capacity)
    (k : DeploymentKey) (s s' : Metered σ μ) : Prop :=
  ∃ t : Metered σ μ, Steps (step r capacity) (Orderly k) s t ∧ t.Awaits k ∧
    Steps (step r capacity) (Orderly k) t s'

theorem Accounts.run (hlaw : LawfulUpgrade) (hcallback : r.engine.callback = true)
    {cap : Workload → Capacity} (hcap : ∀ wl, capacity wl = .ok (cap wl))
    (hrun : Steps (Metered.step r capacity) (Orderly k) s s')
    (h : Accounts r capacity k told s) : Accounts r capacity k told s' :=
  hrun.invariant (fun _ _ _ h hok hs => h.step hlaw hcallback hcap hok.1 hok.2 hs) h

/-- If what was sent agrees with the store at the start, or a report comes afterwards,
it agrees whenever nothing is left to do, if no step goes around the callback. -/
theorem usage_agrees (hlaw : LawfulUpgrade) (hcallback : r.engine.callback = true)
    {cap : Workload → Capacity} (hcap : ∀ wl, capacity wl = .ok (cap wl))
    {rerunAll : Bool} {w : World σ μ} (hjobs : Queued UpdatesAccepted w)
    {sent : List ContractResources}
    (hrun : Steps (step r capacity) (Orderly k) (.start (Sys.start r rerunAll w []) sent) s)
    (htold : Reported cap k (.start (Sys.start r rerunAll w []) sent) ∨
      Announced r capacity k (.start (Sys.start r rerunAll w []) sent) s)
    (hquiet : s.Quiet) : Reported cap k s := by
  have hinit : ∀ {told : Prop},
      (told → Reported cap k (.start (Sys.start r rerunAll w []) sent)) →
        Accounts r capacity k told (.start (Sys.start r rerunAll w []) sent) := by
    intro told htold
    refine ⟨.start hjobs, fun _ hjob => (nomatch hjob), fun _ hp => (nomatch hp),
      fun ht _ => .inl fun dl hdl => ?_⟩
    rw [contractResources_eq hcap]
    exact htold ht dl hdl
  have haccounts : Accounts r capacity k True s := by
    rcases htold with hstart | ⟨t, hbefore, hawaits, hafter⟩
    · exact .run hlaw hcallback hcap hrun (hinit fun _ => hstart)
    · have ht : Accounts r capacity k False t :=
        .run hlaw hcallback hcap hbefore (hinit False.elim)
      exact .run hlaw hcallback hcap hafter { ht with owes := fun _ _ => .inr (.inl hawaits) }
  intro dl hdl
  have hstored : s.Stored k := by
    rw [Stored, (Storage.get_ok hdl).2.1]
    exact Option.some_ne_none _
  obtain ⟨⟨⟨u, hu⟩, hqueue⟩, hroutines, hchannel, hsetter⟩ := hquiet
  rcases haccounts.owes trivial hstored with hsettled | hw | ⟨_, _, _, _, hp⟩ | ⟨_, _, _, _, hp⟩
  · have hexpected := hsettled dl hdl
    rw [Metered.expected, hsetter, contractResources_eq hcap] at hexpected
    exact hexpected
  · cases hw with
    | listed hw =>
        rw [hchannel] at hw
        cases hw
    | reading hw =>
        rw [hsetter] at hw
        cases hw
    | queued before after job hq =>
        rw [hqueue] at hq
        exact absurd hq.symm (by simp)
    | enrolling i p hi hp =>
        obtain ⟨result, rfl⟩ := hroutines p (List.mem_of_getElem? hi)
        obtain ⟨_, _, hcall, _⟩ := hp
        cases hcall
  · rw [hu] at hp
    exact hp.elim
  · rw [hu] at hp
    exact hp.elim

end Metered

end

/-! ## An update that is refused -/

namespace RefusedUsage

open Reference Metered

def handler : ContractEventHandler Unit :=
  ⟨1, { Reference.engine with callback := true }⟩

/-- A workload takes up one core. -/
def cap (_ : Workload) : Capacity := ⟨1, 0, 0, 0⟩

def stored : Deployment := deployment 0 1 [workload 0 "a" "d"]

/-- The deployment is stored and reported, and its contract carries its hash. -/
def start : Metered MapStore Unit :=
  .start (Sys.start handler false
    (world (store [stored]) [⟨1, 2, "a"⟩] [] ⟨[(2, contract stored)], []⟩) [])
    [⟨2, ⟨0, 0, 1, 0⟩⟩]

/-- The deployment is paused, and the setter told. -/
def pauses : List (Metered.Action Unit) :=
  [.engine (.spawn (.request (.pause 1 2)))] ++ List.replicate 3 (.engine (.routine 0)) ++
    [.engine .take] ++ List.replicate 5 (.engine .work) ++ [.receive, .read, .send true]

/-- An update is accepted whose hash the contract does not have. -/
def refuses : List (Metered.Action Unit) :=
  [.engine (.spawn (.request (.update (deployment 1 1 [workload 0 "a" "d"]))))] ++
    List.replicate 4 (.engine (.routine 0)) ++ [.engine .take] ++
    List.replicate 4 (.engine .work)

/-- The process goes on, and the registrar takes what it is sent. -/
def goesOn : Metered.Action Unit → Bool
  | .engine .restart | .engine (.clear _) | .engine (.reboot _) => false
  | .send accepted => accepted
  | _ => true

/-- The worker refuses nothing and is at no deprovision, the routines write
nothing, and the setter reads the deployment. -/
def reporting (s : Metered MapStore Unit) : Metered.Action Unit → Bool
  | .engine .work => !s.sys.refusing && !s.sys.job.any (·.removes)
  | .engine (.routine i) =>
      match s.sys.routines[i]? with
      | some (.call op _) => !op.writes
      | _ => true
  | .read =>
      match s.setter with
      | .reading id => id == stored.key
      | _ => true
  | _ => true

theorem assumed {s : Metered MapStore Unit} {a : Metered.Action Unit}
    (h : goesOn a = true) : s.Assumed a := by
  refine ⟨?_, ?_⟩
  · rintro a' rfl
    cases a' <;> trivial
  · rintro _ rfl
    cases h

theorem careful {s : Metered MapStore Unit} {a : Metered.Action Unit}
    (h : reporting s a = true) : s.Careful stored.key a := by
  cases a with
  | engine a =>
      cases a with
      | work =>
          rw [reporting, Bool.and_eq_true] at h
          obtain ⟨hrefusing, hremoves⟩ := h
          refine ⟨?_, ?_, (nomatch ·), (nomatch ·)⟩
          · rintro ⟨err, cont, hworker⟩ _
            rw [Sys.refusing, hworker] at hrefusing
            cases hrefusing
          · rintro ⟨job, _, hjob, _, hjobRemoves, _⟩ _
            rw [hjob, Option.any_some, hjobRemoves] at hremoves
            cases hremoves
      | routine i =>
          refine ⟨(nomatch ·), (nomatch ·), ?_, (nomatch ·)⟩
          rintro ⟨op, cont, hi, _, halters⟩
          rw [reporting, hi] at h
          dsimp only at h
          rw [writes_of_alters halters] at h
          cases h
      | _ => exact ⟨(nomatch ·), (nomatch ·), (nomatch ·), (nomatch ·)⟩
  | read =>
      refine ⟨(nomatch ·), (nomatch ·), (nomatch ·), ?_⟩
      rintro ⟨id, hsetter, hne, _⟩ _
      rw [reporting, hsetter] at h
      exact absurd (beq_iff_eq.mp h) hne
  | _ => exact ⟨(nomatch ·), (nomatch ·), (nomatch ·), (nomatch ·)⟩

def paused : Metered MapStore Unit :=
  (follow (step handler fun wl => .ok (cap wl)) (fun s a => goesOn a && reporting s a)
    pauses start).get (by decide +kernel)

def refused : Metered MapStore Unit :=
  (follow (step handler fun wl => .ok (cap wl)) (fun _ a => goesOn a) refuses
    start).get (by decide +kernel)

theorem paused_run :
    Steps (step handler fun wl => .ok (cap wl)) (Metered.Orderly stored.key) start paused := by
  refine Steps.of_follow (fun s a h => ?_) pauses (Option.some_get _).symm
  obtain ⟨hgoesOn, hreporting⟩ := Bool.and_eq_true_iff.mp h
  exact ⟨assumed hgoesOn, careful hreporting⟩

theorem quiet_of {s : Metered MapStore Unit} (hidle : s.sys.isIdle = true)
    (hqueue : s.sys.world.queue = []) (hchannel : s.channel = [])
    (hsetter : s.setter = .waiting) (hroutines : s.sys.routines.all returned = true) :
    s.Quiet :=
  ⟨⟨Sys.idle_of_isIdle hidle, hqueue⟩, fun _ hp => all_returned hroutines hp, hchannel,
    hsetter⟩

/-- The report can be checked by reading the deployment. -/
theorem reported_of {s : Metered MapStore Unit} {dl : Deployment}
    (hdl : Storage.get s.sys.world.store stored.key = .ok dl) :
    Metered.Reported cap stored.key s ↔ s.lastSent 2 = some (usage cap dl) := by
  refine ⟨fun h => h dl hdl, fun h dl' hdl' => ?_⟩
  obtain rfl := Except.ok.inj (hdl.symm.trans hdl')
  exact h

theorem start_reported : Metered.Reported cap stored.key start := by
  have hget : Storage.get start.sys.world.store stored.key = .ok stored := by
    decide +kernel
  exact (reported_of hget).mpr (by decide +kernel)

end RefusedUsage

theorem usage_agrees_paused :
    Metered.Reported RefusedUsage.cap RefusedUsage.stored.key RefusedUsage.paused :=
  Metered.usage_agrees Reference.lawful_upgrade rfl (fun _ => rfl) (.of_empty rfl)
    RefusedUsage.paused_run (.inl RefusedUsage.start_reported)
    (RefusedUsage.quiet_of (by decide +kernel) (by decide +kernel) (by decide +kernel)
      (by decide +kernel) (by decide +kernel))

/-- An update is refused, the workload is marked as failed, and the registrar goes on
counting it. -/
theorem refused_usage_is_kept :
    ∃ s : Metered MapStore Unit,
      Steps (Metered.step RefusedUsage.handler fun wl => .ok (RefusedUsage.cap wl))
        Metered.Assumed RefusedUsage.start s ∧ s.Quiet ∧
      Metered.Reported RefusedUsage.cap RefusedUsage.stored.key RefusedUsage.start ∧
      ¬ Metered.Reported RefusedUsage.cap RefusedUsage.stored.key s := by
  refine ⟨RefusedUsage.refused,
    Steps.of_follow (fun _ _ h => RefusedUsage.assumed h) _ (Option.some_get _).symm,
    RefusedUsage.quiet_of (by decide +kernel) (by decide +kernel) (by decide +kernel)
      (by decide +kernel) (by decide +kernel), RefusedUsage.start_reported, fun h => ?_⟩
  have hget := h { Reference.deployment 1 1
    [(Reference.workload 0 "a" "d").withResults
      (Result.failed 0 "contract hash does not match deployment hash")] with
    version := 1 } (by decide +kernel)
  exact absurd hget (by decide +kernel)

end Zos4.Provisiond
