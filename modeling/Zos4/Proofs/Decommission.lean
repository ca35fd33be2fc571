import Zos4.Provision.Reference
import Zos4.Provision.Stages

/-!
# What is decommissioned stays down

`DecommissionCached` takes a workload down and its record out of the store,
past the queue. `installWorkload` skips a workload that is recorded as deleted
or in error, but a record that is not there at all reads as a workload an
update adds, and is put back. So a job that was queued before, and that
installs the workload, brings it up again: a provision that was cut short, a
boot, an update.

The result is for the case that no such job is waiting (`Sys.Forgotten`). Then
the workload stays down: no job that was queued at that time provisions it, and
nothing does until a request made later brings it back, by creating the
deployment anew or by queueing a job that installs it. The invariant is that
the queue has no job that installs it, and, while the worker is still going
through the store at a start, that there is no record to find (`Sys.Gone`).
-/

namespace Zos4.Provision

open Zos4.Interaction Prog

section

variable [Zosbase] [GoRuntime] {σ μ : Type} [Storage σ] {e : NativeEngine μ}

/-! ## What a job installs -/

/-- The job installs the workload, or makes its record anew. -/
def EngineJob.Installs (e : NativeEngine μ) (id : WorkloadID) (job : EngineJob) :
    Prop :=
  ∃ wl ∈ job.installed e,
    wl.id = id ∨ wl.id.key = id.key ∧ wl.workload.name = id.name

instance (id : WorkloadID) (job : EngineJob) : Decidable (job.Installs e id) :=
  inferInstanceAs (Decidable (∃ wl ∈ _, _))

/-- Only workloads of the list come to be by this call. -/
def Op.InstallsOf (wls : List WorkloadWithID) : Op → Prop
  | .provision wl => wl ∈ wls
  | .storageAdd key wl => ∃ w ∈ wls, key = w.id.key ∧ wl = w.workload
  | _ => True

omit [Zosbase] [GoRuntime] in
theorem Op.installsOf_of_brings {wls : List WorkloadWithID} {op : Op}
    (h : op.brings = false) : op.InstallsOf wls := by
  cases op with
  | provision wl => cases h
  | storageAdd key wl => cases h
  | _ => trivial

omit [Zosbase] [GoRuntime] in
theorem Op.installsOf_of_tracks {wls : List WorkloadWithID} {wl : WorkloadWithID}
    {op : Op} (h : op.tracks wl) : op.InstallsOf wls := by
  rcases h with rfl | ⟨_, rfl⟩ <;> trivial

omit [Zosbase] [GoRuntime] in
theorem Op.installsOf_of_isRemoval {wls : List WorkloadWithID} {op : Op}
    (h : op.isRemoval = true) : op.InstallsOf wls := by
  cases op with
  | provision wl => cases h
  | storageAdd key wl => cases h
  | _ => trivial

omit [GoRuntime] in
theorem installWorkload_installs {wls : List WorkloadWithID} {wl : WorkloadWithID}
    (hwl : wl ∈ wls) : Makes (installWorkload wl) (Op.InstallsOf wls) := by
  refine within_mono (installWorkload_on wl) fun op hop => ?_
  cases op with
  | provision wl' => obtain rfl : wl' = wl := hop; exact hwl
  | storageAdd key wl' => exact ⟨wl, hwl, hop⟩
  | _ => trivial

/-- By a job only what it installs comes to be. -/
theorem EngineJob.body_installs (job : EngineJob) :
    Makes (job.body e) (Op.InstallsOf (job.installed e)) := by
  cases job with
  | opProvision target | opProvisionNoValidation target =>
      exact within_forM fun wl hwl => logged_makes (installWorkload_installs hwl)
  | opDeprovision target message =>
      refine within_mono (uninstallDeployment_makes target message) ?_
      rintro op (⟨_, hop⟩ | rfl)
      · exact Op.installsOf_of_isRemoval hop
      · exact Op.installsOf_of_brings rfl
  | opPause target | opResume target =>
      refine within_forM fun wl _ => logged_makes ?_
      refine within_mono (lockWorkload_makes wl _) ?_
      rintro op (rfl | rfl | hop)
      · exact Op.installsOf_of_brings rfl
      · exact Op.installsOf_of_brings rfl
      · exact Op.installsOf_of_tracks hop
  | opUpdate target source =>
      rw [EngineJob.body, EngineJob.installed]
      cases Zosbase.upgrade source target with
      | error err => trivial
      | ok ops =>
          refine within_forM fun op hop => logged_makes ?_
          rw [applyOperation]
          split
          · refine within_mono (uninstallWorkload_makes _ _) fun _ h => ?_
            exact Op.installsOf_of_isRemoval h.2
          · next hadd =>
              refine installWorkload_installs (List.mem_map_of_mem ?_)
              rw [List.mem_filter]
              exact ⟨(List.perm_insertionSort _ ops).mem_iff.mp hop, by simp [hadd]⟩
          · refine within_mono (updateWorkload_makes _) ?_
            rintro op (rfl | hop)
            · exact Op.installsOf_of_brings rfl
            · exact Op.installsOf_of_tracks hop

/-- What a job does not install it does not revive. -/
theorem Op.InstallsOf.not_revives {id : WorkloadID} {job : EngineJob}
    {op : Op} (h : op.InstallsOf (job.installed e)) (hjob : ¬ job.Installs e id) :
    ¬ op.Revives id := by
  cases op with
  | provision wl => exact fun hid => hjob ⟨wl, h, .inl hid⟩
  | storageAdd key wl =>
      obtain ⟨w, hw, rfl, rfl⟩ := h
      exact fun hkn => hjob ⟨w, hw, .inr hkn⟩
  | _ => exact fun hrevives => hrevives.elim

omit [Zosbase] [GoRuntime] in
theorem Op.brings_of_revives {id : WorkloadID} {op : Op} (h : op.Revives id) :
    op.brings = true := by
  cases op <;> first | rfl | exact h.elim

theorem processJob_installs (job : EngineJob) :
    Makes (processJob e job) (Op.InstallsOf (job.installed e)) := by
  have hrun : Makes (runJob e job) (Op.InstallsOf (job.installed e)) := by
    rw [runJob_eq]
    refine within_bind (EngineJob.body_installs job) fun _ =>
      within_mono (finishJob_makes _ _) ?_
    rintro op (rfl | rfl) <;> exact Op.installsOf_of_brings rfl
  rw [processJob]
  split
  · exact hrun
  · refine within_bind (within_mono (validate_makes _ _) ?_) fun ans => ?_
    · rintro op (rfl | rfl) <;> exact Op.installsOf_of_brings rfl
    · cases ans with
      | none => exact hrun
      | some err =>
          exact within_perform_bind (Op.installsOf_of_brings rfl)
            fun _ _ => within_perform_bind
              (Op.installsOf_of_brings rfl) fun _ _ => trivial

/-! ## Who brings a workload about -/

/-- What comes to be by the worker its job installs. -/
def Sys.Sourced (e : NativeEngine μ) (s : Sys σ μ) : Prop :=
  Makes s.worker fun op => op.brings = true →
    ∃ job, s.job = some job ∧ op.InstallsOf (job.installed e)

variable {r : ContractEventHandler μ}

omit [Storage σ] in
theorem Sys.Sourced.start {rerunAll : Bool} {w : World σ μ} {log : List Event} :
    (Sys.start r rerunAll w log).Sourced r.engine := by
  refine within_mono startup_makes fun op hop hbrings => ?_
  cases op <;> first
    | (cases hop; done)
    | cases hbrings

omit [Storage σ] in
theorem Sys.Fresh.sourced {s : Sys σ μ} (h : s.Fresh) : s.Sourced e := by
  obtain ⟨⟨u, hu⟩, _, _, _⟩ := h
  rw [Sys.Sourced, hu]
  trivial

theorem Sys.Sourced.step {s s' : Sys σ μ} {a : Action μ} (h : s.Sourced r.engine)
    (hs : s.step r a = some s') : s'.Sourced r.engine := by
  cases a with
  | spawn routine => obtain rfl := step_spawn hs; exact h
  | routine i => obtain ⟨op, k, _, rfl⟩ := step_routine hs; exact h
  | take =>
      obtain ⟨_, job, rest, _, rfl⟩ := step_take hs
      exact within_mono (processJob_installs job) fun op hop _ => ⟨job, rfl, hop⟩
  | work =>
      obtain ⟨op, k, hw, rfl⟩ := step_work hs
      rw [Sys.Sourced, hw] at h
      exact h.2 _ (exec_possible op s.world)
  | outside clock chain gateway => obtain rfl := step_outside hs; exact h
  | restart => obtain rfl := step_restart hs; exact .start
  | clear rerunAll => obtain rfl := step_clear hs; exact .start
  | reboot rest => obtain rfl := step_reboot hs; exact .start

/-! ## The claim and its condition -/

/-- The call is a provision of the workload. -/
def Op.Provisions (id : WorkloadID) (op : Op) : Prop :=
  ∃ wl, op = .provision wl ∧ wl.id = id

/-- A request brings the workload back: it creates a deployment that has it, or
queues a job that installs it. -/
def Event.Brings (e : NativeEngine μ) (id : WorkloadID) (ev : Event) : Prop :=
  ev.who = .routine ∧ ((∃ job ∈ ev.op.jobs, job.Installs e id) ∨
    ∃ dl, ev.op = .storageCreate dl ∧ dl.key = id.key ∧ id.name ∈ dl.names)

/-- `DecommissionCached` returns nil, having uninstalled the workload: its last
call takes the record out of the store, and is answered nil. No other routine
makes this call. -/
def Sys.Decommissions (s : Sys σ μ) (r : ContractEventHandler μ) (id : WorkloadID)
    (s' : Sys σ μ) : Prop :=
  ∃ i k, s.routines[i]? = some (.call (.storageRemove id.key id.name) k) ∧
    (exec r.engine (.storageRemove id.key id.name) s.world).1 = none ∧
    s.step r (.routine i) = some s'

/-- No job on the queue installs the workload, the one being processed
included, and none that the worker is about to put there. -/
structure Sys.Forgotten (e : NativeEngine μ) (id : WorkloadID) (s : Sys σ μ) :
    Prop where
  queue : ∀ job ∈ s.world.queue, ¬ job.Installs e id
  boot : ∀ job k, s.worker = .call (.enqueue job) k → ¬ job.Installs e id

/-- From `s` to `s'` no job that was on the queue in `s` provisions the
workload, and nothing does before a request has brought it back. -/
def StaysDown (e : NativeEngine μ) (id : WorkloadID) (s s' : Sys σ μ) : Prop :=
  ∀ after ev before, s'.log = after ++ ev :: (before ++ s.log) →
    ev.op.Provisions id →
    (∀ job ∈ s.world.queue, ev.who ≠ .worker (some job)) ∧
      ∃ ev' ∈ before, ev'.Brings e id

/-! ## Down, until somebody brings it back -/

/-- What the worker can still do to a workload that nobody has brought back:
nothing, or it is going through a store that does not have it. -/
inductive Sys.Harmless (e : NativeEngine μ) (id : WorkloadID) (s : Sys σ μ) : Prop
  | starting (fresh : Option Deployment) (h : Boots fresh s.worker)
      (hfresh : ∀ dl, fresh = some dl →
        ¬ (EngineJob.opProvisionNoValidation dl).Installs e id)
  | working (h : Makes s.worker fun op => op.jobs = [] ∧ op.creates = false ∧
      ¬ op.Revives id)

structure Sys.Gone (e : NativeEngine μ) (id : WorkloadID) (s : Sys σ μ) : Prop where
  absent : ¬ s.world.Records id
  queue : Queued (fun job => ¬ job.Installs e id) s.world
  worker : s.Harmless e id

omit [Storage σ] in
theorem Sys.Harmless.grow {id : WorkloadID} {s s' : Sys σ μ} (h : s.Harmless e id)
    (hworker : s'.worker = s.worker) : s'.Harmless e id := by
  cases h with
  | starting fresh hboots hfresh => exact .starting fresh (hworker ▸ hboots) hfresh
  | working hmakes => exact .working (hworker ▸ hmakes)

/-- A deployment read from a store without the workload does not install it. -/
theorem not_installs_of_read {id : WorkloadID} {w : World σ μ} {dl : Deployment}
    {key : DeploymentKey} (habsent : ¬ w.Records id)
    (hget : (exec e (.storageGet key) w).1 = .ok dl) :
    ¬ (EngineJob.opProvisionNoValidation dl).Installs e id := by
  rintro ⟨wl, hwl, hid⟩
  obtain ⟨w', hw', _, rfl⟩ := mem_installOrder.mp hwl
  obtain ⟨hkey, _, _, hworkloads⟩ := Storage.get_ok hget
  have hkn : key = id.key ∧ w'.name = id.name := by
    rcases hid with rfl | hkn
    · exact ⟨hkey.symm, rfl⟩
    · exact ⟨hkey.symm.trans hkn.1, hkn.2⟩
  apply habsent
  unfold World.Records
  rw [← hkn.1, ← hkn.2, (hworkloads w').mp hw']
  exact Option.some_ne_none _

omit [GoRuntime] in
theorem exec_readBy {w : World σ μ} {op : Op} {dl : Deployment}
    (h : op.readBy (exec e op w).1 = some dl) :
    ∃ key, (exec e (.storageGet key) w).1 = .ok dl := by
  cases op with
  | storageGet key =>
      refine ⟨key, ?_⟩
      cases hread : (exec e (.storageGet key) w).1 with
      | error err => rw [hread] at h; cases h
      | ok dl' => rw [hread] at h; exact congrArg Except.ok (Option.some.inj h)
  | _ => cases h

/-- Every action leaves the workload down, or is a request that brings it
back. -/
theorem Sys.Gone.step {id : WorkloadID} {s s' : Sys σ μ} {a : Action μ}
    (h : s.Gone r.engine id) (hst : s.Staged r.engine)
    (hs : s.step r a = some s') :
    s'.Gone r.engine id ∨
      ∃ ev, s'.log = ev :: s.log ∧ ev.Brings r.engine id := by
  cases a with
  | spawn routine =>
      obtain rfl := step_spawn hs
      exact .inl ⟨h.absent, h.queue, h.worker.grow rfl⟩
  | routine i =>
      obtain ⟨op, k, hi, rfl⟩ := step_routine hs
      have hop := (hst.routines _ (List.mem_of_getElem? hi)).1.brings
      by_cases hbrings : Event.Brings r.engine id
          ⟨.routine, op, (exec r.engine op s.world).1⟩
      · exact .inr ⟨_, rfl, hbrings⟩
      · refine .inl ⟨?_, h.queue.call fun job hjob hinst => ?_, h.worker.grow rfl⟩
        · refine exec_absent h.absent (fun dl hdl hkey hname => ?_) fun hrevives => ?_
          · exact hbrings ⟨rfl, .inr ⟨dl, hdl, hkey, hname⟩⟩
          · exact nomatch hop.symm.trans (Op.brings_of_revives hrevives)
        · exact hbrings ⟨rfl, .inl ⟨job, hjob, hinst⟩⟩
  | take =>
      obtain ⟨_, job, rest, hq, rfl⟩ := step_take hs
      have hjob : ¬ job.Installs r.engine id :=
        h.queue job (by rw [hq]; exact List.mem_cons_self)
      refine .inl ⟨h.absent, h.queue, .working ?_⟩
      refine within_mono (within_and (processJob_makes job)
        (processJob_installs job)) fun op hop => ?_
      exact ⟨hop.1.jobs, hop.1.not_creates, hop.2.not_revives hjob⟩
  | work =>
      obtain ⟨op, k, hw, rfl⟩ := step_work hs
      have hans := exec_possible (e := r.engine) op s.world
      refine .inl ?_
      cases h.worker with
      | starting fresh hboots hfresh =>
          rw [hw] at hboots
          obtain ⟨⟨hop, hjobs⟩, hk⟩ := hboots
          refine ⟨?_, h.queue.call fun job hjob => ?_,
            .starting _ (hk _ hans) fun dl hread => ?_⟩
          · have hview : (exec r.engine op s.world).2.view = s.world.view :=
              exec_view s.world (by cases op <;> first | rfl | cases hop)
            unfold World.Records
            rw [hview]
            exact h.absent
          · obtain ⟨dl, hdl, rfl⟩ := hjobs job hjob
            exact hfresh dl hdl
          · obtain ⟨key, hget⟩ := exec_readBy hread
            exact not_installs_of_read h.absent hget
      | working hmakes =>
          rw [hw] at hmakes
          obtain ⟨⟨hjobs, hcreates, hrevives⟩, hk⟩ := hmakes
          refine ⟨exec_absent h.absent ?_ hrevives, h.queue.call ?_,
            .working (hk _ hans)⟩
          · rintro dl rfl
            cases hcreates
          · rw [hjobs]
            exact List.forall_mem_nil _
  | outside clock chain gateway =>
      obtain rfl := step_outside hs
      exact .inl ⟨h.absent, h.queue, h.worker.grow rfl⟩
  | restart =>
      obtain rfl := step_restart hs
      exact .inl ⟨h.absent, h.queue, .working trivial⟩
  | clear rerunAll =>
      obtain rfl := step_clear hs
      refine .inl ⟨?_, ?_, .starting none (startup_boots { r.engine with rerunAll := rerunAll })
        fun _ hnone => nomatch hnone⟩
      · rw [Sys.start_cleared]
        exact h.absent
      · rw [Sys.start_cleared]
        exact .of_empty rfl
  | reboot rest =>
      obtain rfl := step_reboot hs
      exact .inl ⟨h.absent, .of_empty rfl,
        .starting none (startup_boots { r.engine with rerunAll := true })
          fun _ hnone => nomatch hnone⟩

theorem Sys.Decommissions.absent {id : WorkloadID} {s s' : Sys σ μ}
    (h : s.Decommissions r id s') : ¬ s'.world.Records id := by
  obtain ⟨i, k, hi, hnil, hs⟩ := h
  obtain ⟨op, k', hi', rfl⟩ := step_routine hs
  obtain ⟨rfl, _⟩ := Prog.call.inj (Option.some.inj (hi.symm.trans hi'))
  obtain ⟨_, store, hw, hv⟩ :=
    (exec_storageRemove (e := r.engine) s.world id.key id.name).ok hnil
  show ¬ (exec r.engine (.storageRemove id.key id.name) s.world).2.Records id
  rw [hw, World.Records, not_not, World.view_mk, hv, StoreView.remove_workload]
  exact if_pos ⟨rfl, rfl⟩

/-- A workload that was just decommissioned, and that no job installs. -/
theorem Sys.Decommissions.gone {id : WorkloadID} {s s' : Sys σ μ}
    (h : s.Decommissions r id s') (hst : s'.Staged r.engine)
    (hsrc : s'.Sourced r.engine) (hforgotten : s'.Forgotten r.engine id) :
    s'.Gone r.engine id := by
  refine ⟨h.absent, hforgotten.queue, ?_⟩
  cases hst.stage with
  | starting fresh hboots =>
      by_cases hw : ∃ job k, s'.worker = .call (.enqueue job) k
      · obtain ⟨job, k, hw⟩ := hw
        refine .starting fresh hboots fun dl hdl => ?_
        rw [hw] at hboots
        obtain ⟨dl', hdl', rfl⟩ := hboots.1.2 job List.mem_cons_self
        obtain rfl := Option.some.inj (hdl.symm.trans hdl')
        exact hforgotten.boot _ k hw
      · exact .starting none (hboots.drop fun job k hk => hw ⟨job, k, hk⟩)
          fun _ hnone => nomatch hnone
  | working job rest hjob hq _ hcalls =>
      refine .working (within_mono (within_and hcalls hsrc) fun op hop => ?_)
      refine ⟨hop.1.jobs, hop.1.not_creates, fun hrevives => ?_⟩
      obtain ⟨job', hjob', hinst⟩ := hop.2 (Op.brings_of_revives hrevives)
      obtain rfl := Option.some.inj (hjob.symm.trans hjob')
      exact hinst.not_revives
        (hforgotten.queue job (by rw [hq]; exact List.mem_cons_self)) hrevives
  | closing job hjob hcalls =>
      refine .working (within_mono hcalls ?_)
      rintro op rfl
      exact ⟨rfl, rfl, fun hrevives => hrevives⟩

/-- Who provisions the workload: the worker, for a job that installs it, and not
while the workload is gone. -/
theorem Sys.Sourced.provisions {s s' : Sys σ μ} {a : Action μ}
    (h : s.Sourced r.engine) (id : WorkloadID) (hst : s.Staged r.engine)
    (hs : s.step r a = some s') : s'.log = s.log ∨
      ∃ ev, s'.log = ev :: s.log ∧ (ev.op.Provisions id →
      ¬ s.Gone r.engine id ∧
        ∃ job, ev.who = .worker (some job) ∧ job.Installs r.engine id) := by
  cases a with
  | spawn routine => obtain rfl := step_spawn hs; exact .inl rfl
  | routine i =>
      obtain ⟨op, k, hi, rfl⟩ := step_routine hs
      refine .inr ⟨_, rfl, ?_⟩
      rintro ⟨wl, hop, _⟩
      subst hop
      cases (hst.routines _ (List.mem_of_getElem? hi)).1.brings
  | take => obtain ⟨_, job, rest, _, rfl⟩ := step_take hs; exact .inl rfl
  | work =>
      obtain ⟨op, k, hw, rfl⟩ := step_work hs
      refine .inr ⟨_, rfl, ?_⟩
      rintro ⟨wl, hop, hid⟩
      subst hop
      rw [Sys.Sourced, hw] at h
      obtain ⟨job, hjob, hwl⟩ := h.1 rfl
      refine ⟨fun hgone => ?_, job, congrArg Who.worker hjob, wl, hwl, .inl hid⟩
      cases hgone.worker with
      | starting fresh hboots => rw [hw] at hboots; cases hboots.1.1
      | working hmakes => rw [hw] at hmakes; exact hmakes.1.2.2 hid
  | outside clock chain gateway => obtain rfl := step_outside hs; exact .inl rfl
  | restart => obtain rfl := step_restart hs; exact .inl rfl
  | clear rerunAll => obtain rfl := step_clear hs; exact .inl rfl
  | reboot rest => obtain rfl := step_reboot hs; exact .inl rfl

/-! ## Runs -/

/-- From `s` to `s'` the workload stays down, and it is still gone in `s'`
unless a request has brought it back. -/
structure Sys.Stays (e : NativeEngine μ) (id : WorkloadID) (s s' : Sys σ μ) :
    Prop where
  down : StaysDown e id s s'
  sourced : s'.Sourced e
  staged : s'.Staged e
  gone : ∃ new, s'.log = new ++ s.log ∧
    (s'.Gone e id ∨ ∃ ev ∈ new, ev.Brings e id)

theorem Sys.Stays.step {id : WorkloadID} {s₁ s s' : Sys σ μ} {a : Action μ}
    (h : s₁.Stays r.engine id s) (hforgotten : s₁.Forgotten r.engine id)
    (hs : s.step r a = some s') :
    s₁.Stays r.engine id s' := by
  obtain ⟨new, hnew, hgone⟩ := h.gone
  have hlogs := h.sourced.provisions id h.staged hs
  refine ⟨fun after ev before hlog hprov => ?_, h.sourced.step hs,
    h.staged.step hs, ?_⟩
  · rcases hlogs with hsame | ⟨ev', hev', hwho⟩
    · exact h.down after ev before (hsame ▸ hlog) hprov
    · rw [hev'] at hlog
      cases after with
      | nil =>
          obtain ⟨rfl, hbefore⟩ := List.cons.inj hlog
          obtain ⟨hup, job, hjob, hinst⟩ := hwho hprov
          refine ⟨fun job' hjob' heq => ?_, ?_⟩
          · obtain rfl := Option.some.inj (Who.worker.inj (hjob.symm.trans heq))
            exact hforgotten.queue job hjob' hinst
          · obtain rfl := List.append_cancel_right (hnew.symm.trans hbefore)
            exact hgone.resolve_left hup
      | cons ev'' after =>
          exact h.down after ev before (List.cons.inj hlog).2 hprov
  · have hgrow : ∃ more, s'.log = more ++ s.log := by
      rcases hlogs with hsame | ⟨ev', hev', _⟩
      · exact ⟨[], hsame⟩
      · exact ⟨[ev'], hev'⟩
    rcases hgone with hgone | ⟨ev, hev, hbrings⟩
    · rcases hgone.step h.staged hs with hgone' | ⟨ev, hev, hbrings⟩
      · obtain ⟨more, hmore⟩ := hgrow
        exact ⟨more ++ new, by rw [hmore, hnew, List.append_assoc], .inl hgone'⟩
      · exact ⟨ev :: new, by rw [hev, hnew, List.cons_append], .inr
          ⟨ev, List.mem_cons_self, hbrings⟩⟩
    · obtain ⟨more, hmore⟩ := hgrow
      exact ⟨more ++ new, by rw [hmore, hnew, List.append_assoc], .inr
        ⟨ev, List.mem_append_right more hev, hbrings⟩⟩

/-- Once a workload was decommissioned and no job is left that installs it, it
stays down. -/
theorem decommissioned_stays {id : WorkloadID} {s₀ s s₁ s₂ : Sys σ μ}
    (hfresh : s₀.Fresh) (hrun : Run r (fun _ _ => True) s₀ s)
    (hdec : s.Decommissions r id s₁) (hforgotten : s₁.Forgotten r.engine id)
    (hafter : Run r (fun _ _ => True) s₁ s₂) :
    StaysDown r.engine id s₁ s₂ := by
  have hrun₁ : Run r (fun _ _ => True) s₀ s₁ := by
    obtain ⟨i, k, _, _, hs⟩ := hdec
    exact hrun.tail trivial hs
  have hst : s₁.Staged r.engine := hrun₁.staged hfresh.staged
  have hsrc : s₁.Sourced r.engine :=
    hrun₁.invariant (fun _ _ _ h _ hs => h.step hs) hfresh.sourced
  have hstart : s₁.Stays r.engine id s₁ := by
    refine ⟨fun after ev before hlog => ?_, hsrc, hst, [], rfl, .inl
      (hdec.gone hst hsrc hforgotten)⟩
    have hlen := congrArg List.length hlog
    simp only [List.length_append, List.length_cons] at hlen
    omega
  exact (hafter.invariant (fun _ _ _ h _ hs => h.step hforgotten hs)
    hstart).down

/-! ## A node where it happens -/

/-- The routine is about to remove the workload's record. -/
def Sys.removing (s : Sys σ μ) (i : Nat) (id : WorkloadID) : Bool :=
  match s.routines[i]? with
  | some (.call (.storageRemove key n) _) => key == id.key && n == id.name
  | _ => false

theorem Sys.decommissions_of_removing {s s' : Sys σ μ} {i : Nat} {id : WorkloadID}
    (h : s.removing i id = true)
    (hnil : (exec r.engine (.storageRemove id.key id.name) s.world).1 = none)
    (hs : s.step r (.routine i) = some s') : s.Decommissions r id s' := by
  rw [Sys.removing] at h
  split at h
  · next key n k hi =>
      rw [Bool.and_eq_true, beq_iff_eq, beq_iff_eq] at h
      obtain ⟨rfl, rfl⟩ := h
      exact ⟨i, k, hi, hnil, hs⟩
  · cases h

end

namespace Decommissioned

open Reference

def dl : Deployment := deployment 0 1 [workload 0 "a" "d"]

def a : WorkloadID := ⟨1, 2, "a"⟩

/-- `DecommissionCached`, up to its last call. -/
def decommission (i : Nat) : List (Action Unit) :=
  .spawn (.request (.decommissionCached a "")) :: List.replicate 6 (.routine i)

def anything (_ : Sys MapStore Unit) (_ : Action Unit) : Bool := true

/-- Nothing is installed and a contract waits for its deployment. -/
def empty : Sys MapStore Unit :=
  idle (world (store []) [] [] ⟨[(2, contract dl)], []⟩)

/-- The process is restarted after the worker has provisioned, and before it
has taken the job off the queue. -/
def replayed : Sys MapStore Unit :=
  (empty.follow handler anything
    (.spawn (.request (.provision dl)) :: List.replicate 3 (.routine 0) ++
      .take :: List.replicate 5 .work ++ .restart :: decommission 0)).get
    (by decide +kernel)

def replayedDown : Sys MapStore Unit :=
  (replayed.step handler (.routine 0)).get (by decide +kernel)

/-- The worker by itself. -/
def worker (_ : Sys MapStore Unit) : Action Unit → Bool
  | .take | .work => true
  | _ => false

def replayedUp : Sys MapStore Unit :=
  (replayedDown.follow handler worker (.take :: List.replicate 5 .work)).get
    (by decide +kernel)

/-- The deployment is recorded and installed, and nothing is queued. -/
def settled : Sys MapStore Unit :=
  (((idle (world (store [dl]) [a] [] ⟨[(2, contract dl)], []⟩))).follow handler
    anything (decommission 0)).get (by decide +kernel)

def settledDown : Sys MapStore Unit :=
  (settled.step handler (.routine 0)).get (by decide +kernel)

def rebooted : Sys MapStore Unit :=
  (settledDown.follow handler anything
    (.reboot () :: List.replicate 3 .work)).get (by decide +kernel)

end Decommissioned

theorem decommissioned_stays_reboot :
    StaysDown Reference.engine Decommissioned.a Decommissioned.settledDown
      Decommissioned.rebooted :=
  decommissioned_stays (r := Reference.handler) (Reference.idle_fresh rfl)
    (Run.of_follow (fun _ _ _ => trivial) _ (Option.some_get _).symm)
    (Sys.decommissions_of_removing (i := 0) (by decide +kernel)
      (by decide +kernel) (Option.some_get _).symm)
    ⟨by decide +kernel, fun job k hw => by
      obtain ⟨u, hu⟩ := Sys.idle_of_isIdle
        (s := Decommissioned.settledDown) (by decide +kernel)
      rw [hu] at hw
      cases hw⟩
    (Run.of_follow (fun _ _ _ => trivial) _ (Option.some_get _).symm)

/-- A job that was queued already provisions the workload again: after the
workload has gone down, the worker alone brings it back. -/
theorem decommissioned_returns :
    ∃ s s₁ s₂ : Sys MapStore Unit,
      Run Reference.handler (fun _ _ => True) Decommissioned.empty s ∧
      s.Decommissions Reference.handler Decommissioned.a s₁ ∧
      s₁.world.node.installed Decommissioned.a = false ∧
      s₁.world.queue = [.opProvision Decommissioned.dl] ∧
      Run Reference.handler (fun s a => Decommissioned.worker s a = true) s₁ s₂ ∧
      s₂.job = some (.opProvision Decommissioned.dl) ∧
      s₂.world.node.installed Decommissioned.a = true :=
  ⟨Decommissioned.replayed, Decommissioned.replayedDown, Decommissioned.replayedUp,
    Run.of_follow (fun _ _ _ => trivial) _ (Option.some_get _).symm,
    Sys.decommissions_of_removing (i := 0) (by decide +kernel) (by decide +kernel)
      (Option.some_get _).symm,
    by decide +kernel, by decide +kernel,
    Run.of_follow (fun _ _ h => h) _ (Option.some_get _).symm,
    by decide +kernel, by decide +kernel⟩

end Zos4.Provision
