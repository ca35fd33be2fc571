import Zos4.Provision.Worker
import Zos4.Provision.Reference

/-!
# Whatever is installed is recorded

Removing a workload takes its record away last, and installing one makes the
record first, so a workload that is installed is recorded at every moment of
either. What breaks the rule is the end of a deprovision job: it goes through
the workloads of a snapshot and then deletes whatever the deployment holds by
that time. An update that was pending when the snapshot was read may have
installed a workload the job never visits.

The invariant is the rule itself. It is kept by every job but a deprovision,
and by that one exactly if its snapshot names what is installed when the worker
takes it up (`KnowsInstalled`). Nothing is asked of the order in which anything
else happens: the worker may be restarted in the middle of a job, and the node
may reboot.
-/

namespace Zos4.Provision

open Zos4.Interaction Prog

section

variable [Zosbase] {σ μ : Type} [Storage σ] {r : ContractEventHandler μ}

/-- Whatever is installed is recorded. -/
structure InstalledRecorded (w : World σ μ) : Prop where
  records : ∀ id, w.node.installed id = true → w.Records id
  jobs : Queued UpdatesAccepted w

/-- A workload is provisioned once it is recorded, and a record goes once the
workload is not installed any more. -/
def keepsRecords (op : Op) (w : World σ μ) : Prop :=
  (∀ wl, op = .provision wl → w.Records wl.id) ∧
    ∀ id, op.drops id → w.node.installed id = false

def orphans (r : ContractEventHandler μ) : Protocol r σ where
  inv := InstalledRecorded
  workerRely w w' := w'.node = w.node ∧ ∀ id, w.Records id → w'.Records id
  routineRely _ _ := True
  assume _ _ _ := True
  allow _ op w := keepsRecords op w ∧ ∀ job ∈ op.jobs, UpdatesAccepted job
  routineAllow op _ := op.isApi = true ∧ ∀ job ∈ op.jobs, UpdatesAccepted job
  post _ := True
  worker_refl _ := ⟨rfl, fun _ h => h⟩
  worker_trans h h' := ⟨h'.1.trans h.1, fun id hid => h'.2 id (h.2 id hid)⟩
  routine_refl _ := trivial
  routine_trans _ _ := trivial

theorem InstalledRecorded.call {e : NativeEngine μ} {w : World σ μ}
    (h : InstalledRecorded w) {op : Op} (hop : keepsRecords op w)
    (hjobs : ∀ job ∈ op.jobs, UpdatesAccepted job) :
    InstalledRecorded (exec e op w).2 := by
  refine ⟨fun id hid => ?_, h.jobs.call hjobs⟩
  rcases exec_installed_of hid with hbefore | ⟨wl, rfl, rfl⟩
  · refine exec_records_kept (h.records id hbefore) fun hdrops => ?_
    rw [hop.2 id hdrops] at hbefore
    cases hbefore
  · exact exec_records_kept (hop.1 wl rfl) id

/-! ## The calls that need no argument -/

/-- A call that neither installs nor takes a record away. -/
def Op.isTame : Op → Bool
  | .provision _ | .storageRemove _ _ | .storageDelete _ | .storageCreate _
  | .enqueue _ => false
  | _ => true

/-- A call that only takes records away. -/
theorem keepsRecords_of_drops {op : Op} {w : World σ μ}
    (hp : op.installs = false)
    (hd : ∀ id, op.drops id → w.node.installed id = false) :
    keepsRecords op w := by
  refine ⟨?_, hd⟩
  rintro wl rfl
  cases hp

theorem keepsRecords_of_tame {op : Op} (h : op.isTame = true) (w : World σ μ) :
    keepsRecords op w ∧ ∀ job ∈ op.jobs, UpdatesAccepted job := by
  refine ⟨⟨?_, fun id hid => ?_⟩, ?_⟩
  · rintro wl rfl
    cases h
  · cases op <;> first | exact hid.elim | cases h
  · cases op with
    | enqueue job => cases h
    | _ => exact fun _ hjob => nomatch hjob

/-- A program of tame calls is safe anywhere. -/
theorem safe_of_tame {α : Type} {A : Op → Prop} {p : EngineM α} (hp : Makes p A)
    (hA : ∀ op, A op → op.isTame = true) {job : Option EngineJob}
    {w : World σ μ} :
    p.Safe ((orphans r).worker job) (fun _ _ => True) w :=
  hp.safe (fun op t => exec_possible op t)
    fun op t hop _ => keepsRecords_of_tame (hA op hop) t

omit [Zosbase] in
theorem Op.isTame_of_tracks {wl : WorkloadWithID} {op : Op}
    (h : op.tracks wl) : op.isTame = true := by
  rcases h with rfl | ⟨result, rfl⟩ <;> rfl

variable {job : Option EngineJob} {w : World σ μ} {wl : WorkloadWithID}

theorem finishJob_tame {e : NativeEngine μ} (dl : Deployment) (delete : Bool) :
    Makes (finishJob e dl delete) fun op => op.isTame = true := by
  refine within_mono (finishJob_makes dl delete) ?_
  rintro op (rfl | rfl) <;> rfl

theorem validate_tame {e : NativeEngine μ} (dl : Deployment)
    (noValidation : Bool) :
    Makes (validate e dl noValidation) fun op => op.isTame = true := by
  refine within_mono (validate_makes dl noValidation) ?_
  rintro op (rfl | rfl) <;> rfl

/-! ## One workload -/

/-- A recorded workload may be provisioned. -/
theorem provisionWorkload_recorded (h : w.Records wl.id) :
    (provisionWorkload wl).Safe ((orphans r).worker job)
      (fun _ _ => True) w := by
  rw [provisionWorkload, safe_perform_bind]
  intro t ht _ _
  refine ⟨⟨⟨?_, fun _ hdrops => hdrops.elim⟩, List.forall_mem_nil _⟩, ?_⟩
  · rintro wl' hwl'
    obtain rfl := Op.provision.inj hwl'
    exact ht.2 wl.id h
  · generalize ((orphans r).worker job).handle (.provision wl) t = res
    obtain ⟨⟨result, err⟩, t'⟩ := res
    cases err with
    | none =>
        refine safe_of_tame (A := fun op => op.tracks wl) ?_ ?_
        · exact within_perform (.inr ⟨_, rfl⟩)
        · exact fun _ => Op.isTame_of_tracks
    | some err =>
        dsimp only
        split
        · exact fun _ _ _ => trivial
        · refine safe_of_tame (A := fun op => op = .now ∨ op.tracks wl) ?_ ?_
          · exact within_perform_bind (.inl rfl) fun _ _ =>
              within_perform (.inr (.inr ⟨_, rfl⟩))
          · rintro op (rfl | hop)
            · rfl
            · exact Op.isTame_of_tracks hop

theorem installWorkload_recorded (hname : wl.id.name = wl.workload.name) :
    (installWorkload wl).Safe ((orphans r).worker job) (fun _ _ => True) w := by
  rw [installWorkload, safe_perform_bind]
  intro t ht _ _
  refine ⟨keepsRecords_of_tame rfl t, ?_⟩
  rw [Protocol.worker_handle]
  rcases exec_storageCurrent (e := r.engine) t wl.id.key wl.id.name with
    ⟨cur, hres, hcur⟩ | ⟨err, hres, _⟩
  · rw [hres]
    dsimp only
    split
    · exact fun _ _ _ => trivial
    · exact provisionWorkload_recorded (by simp [World.Records, hcur])
  · rw [hres]
    dsimp only
    split
    · rw [safe_perform_bind]
      intro t₁ _ _ _
      refine ⟨keepsRecords_of_tame rfl t₁, ?_⟩
      rw [Protocol.worker_handle]
      rcases (exec_storageAdd (e := r.engine) t₁ wl.id.key wl.workload).cases with
        ⟨s, hv, hres, _⟩ | ⟨err, hres, _⟩
      · rw [hres]
        refine provisionWorkload_recorded ?_
        rw [World.Records, World.view_mk, hv, StoreView.add_workload,
          if_pos ⟨rfl, hname⟩]
        simp
      · rw [hres]
        exact fun _ _ _ => trivial
    · exact fun _ _ _ => trivial

/-- What removing one workload comes to: nothing is installed that was not, and
unless an error is reported the workload is not either. -/
theorem uninstallWorkload_recorded (reason : String)
    (hdep : ∀ wl node, (r.engine.provisioner.deprovision wl node).1 = none) :
    (uninstallWorkload wl reason).Safe ((orphans r).worker job)
      (fun ans t => (∀ id, t.node.installed id = true →
          w.node.installed id = true) ∧
        (ans = none → t.node.installed wl.id = false)) w := by
  rw [uninstallWorkload, safe_perform_bind]
  intro t ht hi _
  refine ⟨keepsRecords_of_tame rfl t, ?_⟩
  rw [Protocol.worker_handle]
  rcases exec_storageCurrent (e := r.engine) t wl.id.key wl.id.name with
    ⟨cur, hres, _⟩ | ⟨err, hres, hnone, _⟩
  · rw [hres]
    dsimp only
    rw [safe_perform_bind]
    intro t₁ ht₁ _ _
    refine ⟨keepsRecords_of_tame rfl t₁, ?_⟩
    rw [Protocol.worker_handle, exec_deprovision, hdep]
    have hnode : t₁.node = w.node := ht₁.1.trans ht.1
    -- from here on the workload is not installed, and nobody installs it
    let Gone (t : World σ μ) : Prop := (∀ id, t.node.installed id = true →
      w.node.installed id = true) ∧ t.node.installed wl.id = false
    have hrely : ∀ t t' : World σ μ, Gone t →
        ((orphans r).worker job).rely t t' → Gone t' := by
      intro t t' hgone ht
      have hsame : t'.node = t.node := ht.1
      simp only [Gone, hsame]
      exact hgone
    refine (Within.keeps (I := Gone) (A := fun op : Op => op = .now ∨
      op = .storageRemove wl.id.key wl.id.name ∨ op.tracks wl)
      ?_ (fun op t => exec_possible op t) hrely ?_ ?_).mono
        fun _ _ _ hgone => ⟨hgone.1, fun _ => hgone.2⟩
    · refine within_perform_bind (.inl rfl) fun now _ =>
        within_perform_bind (.inr (.inr (.inr ⟨_, rfl⟩))) fun ans _ => ?_
      cases ans with
      | some err => trivial
      | none =>
          dsimp only
          rw [if_pos (uninstallResult_state _ _)]
          exact within_perform (.inr (.inl rfl))
    · rintro op t hop _ hgone
      have hkeep : (exec r.engine op t).2.node.installed = t.node.installed := by
        refine exec_installed t ?_
        rcases hop with rfl | rfl | rfl | ⟨result, rfl⟩ <;> rfl
      refine ⟨?_, ?_⟩
      · rcases hop with rfl | rfl | hop
        · exact keepsRecords_of_tame rfl t
        · refine ⟨keepsRecords_of_drops rfl ?_, List.forall_mem_nil _⟩
          rintro ⟨twin, contract, name⟩ ⟨hkey, hname⟩
          obtain ⟨rfl, rfl⟩ := DeploymentKey.mk.inj hkey
          obtain rfl : name = wl.id.name := hname
          exact hgone.2
        · exact keepsRecords_of_tame (Op.isTame_of_tracks hop) t
      · simp only [Gone, Protocol.worker_handle, hkeep]
        exact hgone
    · refine ⟨fun id hid => ?_, ?_⟩
      · simp only [Node.afterDeprovision, Option.isNone_none, if_pos,
          Node.uninstall] at hid
        split at hid
        · cases hid
        · rw [hnode] at hid
          exact hid
      · simp [Node.afterDeprovision, Node.uninstall]
  · -- what is not recorded is not installed
    have hnot : t.node.installed wl.id = false := by
      cases hin : t.node.installed wl.id with
      | false => rfl
      | true => exact absurd hnone (hi.records wl.id hin)
    rw [hres]
    dsimp only
    have hend : ∀ ans : Option GoError, (pure ans : EngineM _).Safe
        ((orphans r).worker job) (fun ans t =>
          (∀ id, t.node.installed id = true → w.node.installed id = true) ∧
            (ans = none → t.node.installed wl.id = false)) t := by
      intro ans t' ht' _
      have hsame : t'.node = t.node := ht'.1
      rw [hsame, show t.node = w.node from ht.1]
      exact ⟨fun _ h => h, fun _ => by rw [← show t.node = w.node from ht.1, hnot]⟩
    split <;> exact hend _

/-! ## One deployment -/

theorem installDeployment_recorded [GoRuntime] (dl : Deployment) :
    (installDeployment r.engine dl).Safe ((orphans r).worker job)
      (fun _ _ => True) w := by
  have hitems : ∀ wl ∈ r.engine.order.flatMap (installOrder dl),
      wl.id.name = wl.workload.name := by
    intro wl hwl
    obtain ⟨_, _, _, rfl⟩ := mem_installOrder.mp hwl
    rfl
  refine (Safe.forM (fun left _ => ∀ wl ∈ left, wl.id.name = wl.workload.name)
    ?_ fun _ _ _ => hitems).mono fun _ _ _ _ => trivial
  intro wl left t _ hleft
  refine safe_logged ((installWorkload_recorded (hleft wl (by simp))).mono ?_)
  exact fun _ _ _ _ wl' hwl' => hleft wl' (by simp [hwl'])

/-- The installed workloads of a deployment are among some. -/
def InstalledAmong (dl : Deployment) (wls : List WorkloadWithID)
    (w : World σ μ) : Prop :=
  ∀ id, id.key = dl.key → w.node.installed id = true → ∃ wl ∈ wls, wl.id = id

/-- A deprovision that goes through all that is installed leaves nothing
installed, or keeps the record. -/
theorem uninstallDeployment_recorded {dl : Deployment} (reason : String)
    (hdep : ∀ wl node, (r.engine.provisioner.deprovision wl node).1 = none)
    (h : InstalledAmong dl (inOrder dl r.engine.order.reverse) w) :
    (uninstallDeployment r.engine dl reason).Safe ((orphans r).worker job)
      (fun _ _ => True) w := by
  rw [uninstallDeployment]
  -- either an error was reported or what is installed is still to come
  refine Safe.bind (Safe.foldlM
    (fun errors left t => errors = true ∨ InstalledAmong dl left t) ?_ ?_) ?_
  · intro errors wl left t _ hI
    refine (uninstallWorkload_recorded reason hdep).bind fun ans t' _ hans => ?_
    cases ans with
    | some err => exact fun _ _ _ => .inl rfl
    | none =>
        intro t'' ht'' _
        refine hI.imp_right fun hleft id hid hin => ?_
        rw [show t''.node = t'.node from ht''.1] at hin
        obtain ⟨wl', hwl', rfl⟩ := hleft id hid (hans.1 id hin)
        rcases List.mem_cons.mp hwl' with rfl | hwl'
        · rw [hans.2 rfl] at hin
          cases hin
        · exact ⟨wl', hwl', rfl⟩
  · intro t ht _
    refine .inr fun id hid hin => h id hid ?_
    rw [← show t.node = w.node from ht.1]
    exact hin
  · intro errors t _ hI
    split
    · exact fun _ _ _ => trivial
    · next herrors =>
        refine safe_logged ?_
        rw [← bind_pure (storageDelete dl.key), safe_perform_bind]
        intro t' ht' _ _
        refine ⟨⟨keepsRecords_of_drops rfl fun id hid => ?_,
          List.forall_mem_nil _⟩, fun _ _ _ => trivial⟩
        cases hin : t'.node.installed id with
        | false => rfl
        | true =>
            rw [show t'.node = t.node from ht'.1] at hin
            obtain ⟨_, hmem, _⟩ := (hI.resolve_left herrors) id hid hin
            cases hmem

theorem updateDeployment_recorded {ops : List UpgradeOp}
    (hops : ∀ op ∈ ops, op.wlID.id.name = op.wlID.workload.name)
    (hdep : ∀ wl node, (r.engine.provisioner.deprovision wl node).1 = none) :
    (updateDeployment r.engine ops).Safe ((orphans r).worker job)
      (fun _ _ => True) w := by
  have hmem : ∀ op ∈ sortOperations r.engine ops,
      op.wlID.id.name = op.wlID.workload.name := fun op hop =>
    hops op ((List.perm_insertionSort _ ops).mem_iff.mp hop)
  refine (Safe.forM (fun left _ => ∀ op ∈ left,
    op.wlID.id.name = op.wlID.workload.name) ?_ fun _ _ _ => hmem).mono
      fun _ _ _ _ => trivial
  intro op left t _ hleft
  have hrest : ∀ op' ∈ left, op'.wlID.id.name = op'.wlID.workload.name :=
    fun op' hop' => hleft op' (by simp [hop'])
  refine safe_logged ?_
  rw [applyOperation]
  cases op.op with
  | opRemove =>
      exact (uninstallWorkload_recorded _ hdep).mono fun _ _ _ _ => hrest
  | opAdd =>
      exact (installWorkload_recorded (hleft op (by simp))).mono
        fun _ _ _ _ => hrest
  | opUpdate =>
      refine (safe_of_tame (updateWorkload_makes op.wlID) ?_).mono
        fun _ _ _ _ => hrest
      rintro op' (rfl | hop)
      · rfl
      · exact Op.isTame_of_tracks hop

/-! ## One job -/

variable [GoRuntime]

/-- The snapshot of a deprovision job names all that is installed of the
deployment, among the types the engine goes through. -/
def NamesInstalled (e : NativeEngine μ) (target : Deployment) (w : World σ μ) :
    Prop :=
  ∀ id : WorkloadID, id.key = target.key → w.node.installed id = true →
    ∃ wl ∈ target.workloads, wl.type ∈ e.order ∧ wl.name = id.name

omit [Storage σ] [GoRuntime] in
theorem NamesInstalled.among {e : NativeEngine μ} {target : Deployment}
    (h : NamesInstalled e target w) :
    InstalledAmong target (inOrder target e.order.reverse) w := by
  rintro ⟨twin, contract, name⟩ hkey hin
  obtain ⟨wl, hwl, htype, hname⟩ := h _ hkey hin
  refine ⟨target.withID wl, mem_inOrder.mpr ⟨wl, hwl, ?_, rfl⟩, ?_⟩
  · rw [List.mem_reverse]
    exact htype
  · obtain ⟨rfl, rfl⟩ := DeploymentKey.mk.inj hkey
    obtain rfl : wl.name = name := hname
    rfl

theorem runJob_recorded (hlaw : LawfulUpgrade)
    (hdep : ∀ wl node, (r.engine.provisioner.deprovision wl node).1 = none)
    {job : EngineJob} (hupdate : UpdatesAccepted job)
    (hknows : ∀ target message, job = .opDeprovision target message →
      NamesInstalled r.engine target w) :
    (runJob r.engine job).Safe ((orphans r).worker (some job))
      (fun _ _ => True) w := by
  have hlock : ∀ (wls : List WorkloadWithID) (lock : Bool),
      (wls.forM fun wl => logged (lockWorkload wl lock)).Safe
        ((orphans r).worker (some job)) (fun _ _ => True) w := by
    intro wls lock
    refine safe_of_tame (within_forM fun wl _ => logged_makes
      (within_mono (lockWorkload_makes wl lock) ?_)) fun _ (h : _ = true) => h
    rintro op (rfl | rfl | hop)
    · rfl
    · rfl
    · exact Op.isTame_of_tracks hop
  rw [runJob_eq]
  refine Safe.bind (Q := fun _ _ => True) ?_ fun _ t _ _ =>
    safe_of_tame (finishJob_tame _ _) fun _ h => h
  cases job with
  | opProvision target | opProvisionNoValidation target =>
      exact installDeployment_recorded target
  | opDeprovision target message =>
      exact uninstallDeployment_recorded message hdep
        (hknows target message rfl).among
  | opPause target => exact hlock _ true
  | opResume target => exact hlock _ false
  | opUpdate target source =>
      obtain ⟨source', ops, hsnap, hup, hjob⟩ := hupdate target source rfl
      obtain ⟨_, rfl⟩ := EngineJob.opUpdate.inj hjob
      have hlaws := hlaw source target ops hsnap.nodup hup
      rw [EngineJob.body]
      simp only [hup]
      exact updateDeployment_recorded (fun op hop => (hlaws.ids op hop).2) hdep

theorem processJob_recorded (hlaw : LawfulUpgrade)
    (hdep : ∀ wl node, (r.engine.provisioner.deprovision wl node).1 = none)
    {job : EngineJob} (hupdate : UpdatesAccepted job)
    (hknows : ∀ target message, job = .opDeprovision target message →
      NamesInstalled r.engine target w) :
    (processJob r.engine job).Safe ((orphans r).worker (some job))
      (fun _ _ => True) w := by
  rw [processJob]
  split
  · exact runJob_recorded hlaw hdep hupdate hknows
  · next noValidation hval =>
      refine (safe_of_tame (validate_tame _ _) fun _ h => h).bind
        fun ans t _ _ => ?_
      cases ans with
      | none =>
          -- no deprovision gets here
          refine runJob_recorded hlaw hdep hupdate ?_
          rintro target message rfl
          cases hval
      | some err =>
          refine safe_of_tame (A := fun op => op.isTame = true) ?_ fun _ h => h
          exact within_perform_bind rfl fun _ _ =>
            within_perform_bind rfl fun _ _ => trivial

/-! ## Runs -/

/-- Everything may happen but a request that does not go through the queue. -/
def queuedOnly : Action μ → Bool
  | .spawn routine => routine.queued
  | _ => true

/-- A run in which every deprovision job names what is installed when the worker
takes it up. -/
def KnowsInstalled (e : NativeEngine μ) (s : Sys σ μ) (a : Action μ) : Prop :=
  queuedOnly a = true ∧ (a = .take → ∀ target message rest,
    s.world.queue = .opDeprovision target message :: rest →
      NamesInstalled e target s.world)

omit [GoRuntime] in
theorem orphans_start {rerunAll : Bool} {w : World σ μ} {log : List Event}
    (hinv : (orphans r).inv (Sys.start r rerunAll w log).world) :
    (orphans r).Holds (Sys.start r rerunAll w log) := by
  refine ⟨hinv, ?_, fun _ hp => nomatch hp⟩
  refine (startup_makes (e := { r.engine with rerunAll := rerunAll })).safe
    (fun op t => exec_possible (e := r.engine) op t) fun op t hop _ => ?_
  refine ⟨⟨?_, fun id hid => ?_⟩, startup_accepted hop⟩
  · rintro wl rfl
    cases hop
  · cases op <;> first | exact hid.elim | cases hop

theorem orphans_sound (hlaw : LawfulUpgrade)
    (hdep : ∀ wl node, (r.engine.provisioner.deprovision wl node).1 = none) :
    (orphans r : Protocol r σ).Sound (KnowsInstalled r.engine) where
  spawn s routine _ h := by
    have hq : routine.queued = true := h.1
    refine (routine_makes (r := r) hq).safe
      (fun op t => exec_possible op t) ?_
    rintro op t ⟨req, _, hop⟩ _
    exact ⟨hop.api, fun job hjob => Request.updatesAccepted (hop.jobs job hjob)⟩
  routine op w hi hop := by
    have hframe := exec_api (w := w) (e := r.engine) hop.1
    refine ⟨⟨fun id hid => ?_, hi.jobs.call hop.2⟩,
      ⟨hframe.node, fun id => hframe.records⟩, trivial⟩
    rw [hframe.node] at hid
    exact hframe.records (hi.records id hid)
  assume _ _ _ _ _ _ := trivial
  work job op w hi _ hop := ⟨hi.call hop.1 hop.2, trivial⟩
  take s job rest hholds hok hq := by
    refine processJob_recorded hlaw hdep
      (hholds.inv.jobs job (by rw [hq]; simp)) ?_
    rintro target message rfl
    exact hok.2 rfl target message rest hq
  outside s clock chain gateway hi _ :=
    ⟨⟨hi.records, hi.jobs⟩, ⟨rfl, fun _ h => h⟩, trivial⟩
  restart s hholds _ :=
    ⟨hholds.inv, fun _ _ _ => trivial, fun _ hp => nomatch hp⟩
  clear s rerunAll hholds _ := by
    refine orphans_start ?_
    rw [Sys.start_cleared]
    exact ⟨hholds.inv.records, .of_empty rfl⟩
  reboot s rest _ _ := orphans_start ⟨nofun, nofun⟩

/-- In every run whose deprovision jobs name what is installed when they are
taken up, whatever is installed is recorded. -/
theorem installed_recorded (hlaw : LawfulUpgrade)
    (hdep : ∀ wl node, (r.engine.provisioner.deprovision wl node).1 = none)
    {s₀ s : Sys σ μ} (hfresh : s₀.Fresh)
    (hstart : ∀ id, s₀.world.node.installed id = true → s₀.world.Records id)
    (hrun : Run r (KnowsInstalled r.engine) s₀ s) :
    ∀ id, s.world.node.installed id = true → s.world.Records id := by
  have hholds : (orphans r).Holds s₀ :=
    hfresh.holds ⟨hstart, .of_empty hfresh.queue⟩ fun _ _ => trivial
  exact ((orphans_sound hlaw hdep).run hrun hholds).inv.records

end

/-! ## A deprovision behind an update

The update that adds `b` is pending when `Deprovision` reads the deployment. Its
job installs `b`, and the deprovision job removes `a` and deletes the rest. -/

namespace DeprovisionBehindUpdate

open Reference

def stored : Deployment := deployment 0 1 [workload 0 "a" "d"]

def updated : Deployment :=
  deployment 1 1 [workload 0 "a" "d", workload 1 "b" "d"]

def start : Sys MapStore Unit :=
  idle (world (store [stored]) [⟨1, 2, "a"⟩] [] ⟨[(2, contract updated)], []⟩)

def requestUpdate : List (Action Unit) :=
  .spawn (.request (.update updated)) :: List.replicate 4 (.routine 0)

def requestDeprovision (i : Nat) : List (Action Unit) :=
  .spawn (.request (.deprovision 1 2 "")) :: List.replicate 3 (.routine i)

def processJob : List (Action Unit) := .take :: List.replicate 7 .work

/-- Provision, update and deprovision requests, and validation passes. -/
def permitted (s : Sys MapStore Unit) : Action Unit → Bool
  | .spawn (.request (.provision _)) | .spawn (.request (.update _))
  | .spawn (.request (.deprovision _ _ _)) => true
  | .routine _ | .take => true
  | .work => !s.refusing
  | .spawn _ | .outside _ _ _ | .restart | .clear _ | .reboot _ => false

/-- The deprovision is requested while the update is pending. -/
def behind : Sys MapStore Unit :=
  (start.follow handler permitted (requestUpdate ++ requestDeprovision 1 ++
    processJob ++ processJob)).get (by decide +kernel)

theorem run_behind : Run handler (fun s a => permitted s a = true) start behind :=
  Run.of_follow (fun _ _ h => h) _ (Option.some_get _).symm

/-- Anything but taking a job up. -/
def beforeTake : Action Unit → Bool
  | .take => false
  | a => queuedOnly a

/-- The deprovision alone, up to the moment the worker takes it up. -/
def requested : Sys MapStore Unit :=
  (start.follow handler (fun _ a => beforeTake a) (requestDeprovision 0)).get
    (by decide +kernel)

def taken : Sys MapStore Unit :=
  (requested.step handler .take).get (by decide +kernel)

theorem knows_beforeTake {s : Sys MapStore Unit} {a : Action Unit}
    (h : beforeTake a = true) : KnowsInstalled engine s a := by
  refine ⟨?_, ?_⟩
  · cases a <;> first | exact h | rfl
  · rintro rfl
    cases h

/-- Nothing but `a` is installed when the job is taken up. -/
theorem installed_requested (id : WorkloadID)
    (h : requested.world.node.installed id = true) : id = ⟨1, 2, "a"⟩ := by
  have hnode : requested.world.node.installed id =
      start.world.node.installed id := rfl
  rw [hnode] at h
  simpa [start, idle, world] using h

theorem queue_requested :
    requested.world.queue = [.opDeprovision stored ""] := by decide +kernel

theorem run_taken : Run handler (KnowsInstalled engine) start taken := by
  have hbefore : Run handler (KnowsInstalled engine) start requested :=
    Run.of_follow (fun _ _ => knows_beforeTake) _ (Option.some_get _).symm
  have htake : requested.step handler .take = some taken :=
    (Option.some_get _).symm
  have hknows : KnowsInstalled engine requested .take := by
    refine ⟨rfl, ?_⟩
    rintro _ target message rest hq id _ hin
    rw [queue_requested] at hq
    obtain ⟨rfl, rfl⟩ := EngineJob.opDeprovision.inj (List.cons.inj hq).1
    obtain rfl := installed_requested id hin
    exact ⟨workload 0 "a" "d", by decide, by decide, rfl⟩
  exact hbefore.tail hknows htake

end DeprovisionBehindUpdate

theorem installed_recorded_taken :
    DeprovisionBehindUpdate.taken.world.Records ⟨1, 2, "a"⟩ :=
  installed_recorded Reference.lawful_upgrade (fun _ _ => rfl)
    (Reference.idle_fresh rfl)
    (fun id h => by
      obtain rfl : id = ⟨1, 2, "a"⟩ := by
        simpa [DeprovisionBehindUpdate.start, Reference.idle, Reference.world]
          using h
      decide +kernel)
    DeprovisionBehindUpdate.run_taken ⟨1, 2, "a"⟩ (by decide +kernel)

/-- A deprovision behind an update leaves what the update adds installed and
forgotten. -/
theorem deprovision_orphans :
    ∃ s : Sys MapStore Unit,
      Run Reference.handler
        (fun s a => DeprovisionBehindUpdate.permitted s a = true)
        DeprovisionBehindUpdate.start s ∧ s.Drained ∧
      s.world.node.installed ⟨1, 2, "b"⟩ = true ∧
      ¬ s.world.Records ⟨1, 2, "b"⟩ :=
  ⟨DeprovisionBehindUpdate.behind, DeprovisionBehindUpdate.run_behind,
    ⟨Sys.idle_of_isIdle (by decide +kernel), by decide +kernel⟩,
    by decide +kernel, by decide +kernel⟩

end Zos4.Provision
