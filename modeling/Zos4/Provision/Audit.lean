import Zos4.Interaction.Growth
import Zos4.Provision.Stages

/-!
# Invariants that rest on the log

What a node has been told and has asked for stays in the log, and so a result may say of a
call that it is founded on the log, and of an answer what it tells of it. An `Audit` is a
choice of the two. The calls of a program are then founded whatever the others do in
between, which is the `Growth` of the log; `Audit.Sound` lists what is left to be checked
beside an invariant of the world, and `Audit.Sound.run` is the induction over runs.
-/

namespace Zos4.Provision

open Zos4.Interaction Prog

variable [Zosbase]

structure Audit where
  fits : List Event → Op → Prop
  fits_grow : ∀ {log log' op}, log ⊆ log' → fits log op → fits log' op
  tells : List Event → (op : Op) → op.Ret → Prop

namespace Audit

variable (audit : Audit) {α : Type} {log log' : List Event}

/-- The log as knowledge. -/
def growth : Growth engineSig (List Event) where
  le log log' := log ⊆ log'
  refl log := List.Subset.refl log
  trans h h' := List.Subset.trans h h'
  founds := audit.fits
  founds_grow := audit.fits_grow
  shows log op r := op.Possible r ∧ audit.tells log op r

/-- Whatever has happened by then, every call fits. -/
abbrev Founded (p : EngineM α) (log : List Event) : Prop :=
  p.Knows audit.growth (fun _ _ => True) log

variable {audit}

theorem Founded.grow {p : EngineM α} (h : audit.Founded p log) (hlog : log ⊆ log') :
    audit.Founded p log' :=
  Knows.grow (G := audit.growth) h hlog fun _ _ _ _ _ => trivial

/-- Programs that bring nothing along. -/
theorem Founded.of_makes {A : Op → Prop} {p : EngineM α} (h : Makes p A)
    (hA : ∀ op, A op → audit.fits log op) : audit.Founded p log :=
  Within.knows (G := audit.growth) h (fun hr => hr.1) hA

theorem Founded.logged {p : EngineM (Option GoError)} (h : audit.Founded p log) :
    audit.Founded (Provision.logged p) log :=
  Knows.bind h fun _ _ _ _ => trivial

/-- A sync asks about contracts and makes requests. -/
theorem Founded.sync [GoRuntime] {μ : Type} (r : ContractEventHandler μ)
    (hask : ∀ {log} op, op.isShared = true → audit.fits log op)
    (hinvoke : ∀ {log} req, req.ofSync = true → audit.Founded (invoke r.engine req) log) :
    audit.Founded (Provision.sync r) log := by
  have hcurrent : audit.Founded current log := by
    refine knows_perform_bind (hask _ rfl) fun ans _ _ _ => ?_
    cases ans <;> trivial
  refine hcurrent.bind fun ans _ _ _ => ?_
  cases ans with
  | error err => trivial
  | ok active =>
      refine knows_perform_bind (hask _ rfl) fun ans _ _ _ => ?_
      cases ans with
      | error err => trivial
      | ok onchain =>
          refine (knows_forM fun entry _ _ _ => ?_).bind fun _ _ _ _ =>
            (knows_forM fun entry _ _ _ => ?_).bind fun _ _ _ _ => trivial
          · exact Founded.logged (hinvoke _ rfl)
          · refine knows_perform_bind (hask _ rfl) fun ans _ _ _ => ?_
            cases ans with
            | error err => trivial
            | ok contract =>
                dsimp only
                split
                · trivial
                · split
                  · exact Founded.logged (hinvoke _ rfl)
                  · exact Founded.logged (hinvoke _ rfl)

end Audit

/-! ## Over a run -/

variable {σ μ : Type} [Storage σ]

/-- A job that is queued is one that was, or one just put there. -/
theorem mem_exec_queue {e : NativeEngine μ} {w : World σ μ} {op : Op} {job : EngineJob}
    (h : job ∈ (exec e op w).2.queue) : job ∈ w.queue ∨ op = .enqueue job := by
  by_cases hd : op = .dequeue
  · subst hd
    simp only [exec] at h
    split at h
    · next hq => exact absurd h (by rw [hq]; exact List.not_mem_nil)
    · next hq => exact .inl (by rw [hq]; exact List.mem_cons_of_mem _ h)
  · rw [exec_queue_append w hd] at h
    rcases List.mem_append.mp h with h | h
    · exact .inl h
    · cases op with
      | enqueue job' =>
          cases List.mem_singleton.mp h
          exact .inr rfl
      | _ => cases h

/-- The workload is one a call makes a new record of. -/
def Op.Brings (k : DeploymentKey) (wl : Workload) : Op → Prop
  | .storageCreate dl => k = dl.key ∧ wl ∈ dl.workloads
  | .storageAdd key wl' => k = key ∧ wl = wl'
  | _ => False

/-- A record is an old one or what a transaction put there, or the store has made a result
for it, which tells nothing. -/
theorem exec_record {e : NativeEngine μ} {w : World σ μ} {op : Op} {k : DeploymentKey}
    {n : Name} {wl : Workload} (h : (exec e op w).2.view.workload k n = some wl) :
    w.view.workload k n = some wl ∨ op = .storageTransaction k wl ∧ n = wl.name ∨
      ∃ wl' result, wl = wl'.withResults result ∧ result.data = "" ∧
        result.state.isOkay = false ∧
        (w.view.workload k n = some wl' ∨ op.Brings k wl') := by
  have hrewrites := exec_rewrites (e := e) op w
  generalize (exec e op w).2.view = v at hrewrites h
  cases hrewrites with
  | kept => exact .inl h
  | update => exact .inl h
  | @create dl =>
      by_cases hk : k = dl.key
      · subst hk
        simp only [StoreView.create, StoreView.setWorkloads_workload, if_pos,
          Option.map_eq_some_iff] at h
        obtain ⟨wl', hfound, rfl⟩ := h
        exact .inr (.inr ⟨wl', _, rfl, rfl, rfl, .inr ⟨rfl, List.mem_of_find?_eq_some hfound⟩⟩)
      · rw [StoreView.create_workload_of_ne hk] at h
        exact .inl h
  | @add _ wl' =>
      rw [StoreView.add_workload] at h
      split at h
      · next hkn =>
          cases h
          exact .inr (.inr ⟨wl', _, rfl, rfl, rfl, .inr ⟨hkn.1, rfl⟩⟩)
      · exact .inl h
  | transaction =>
      rw [StoreView.transaction_workload] at h
      split at h
      · next hkn =>
          cases h
          exact .inr (.inl ⟨by rw [hkn.1], hkn.2⟩)
      · exact .inl h
  | remove =>
      rw [StoreView.remove_workload] at h
      split at h
      · cases h
      · exact .inl h
  | delete =>
      rw [StoreView.delete_workload] at h
      split at h
      · cases h
      · exact .inl h
  | error =>
      rw [StoreView.error_workload] at h
      split at h
      · next hk =>
          obtain ⟨wl', hwl', rfl⟩ := Option.map_eq_some_iff.mp h
          exact .inr (.inr ⟨wl', _, rfl, rfl, rfl, .inl (hk ▸ hwl')⟩)
      · exact .inl h

section

variable [GoRuntime]

namespace Audit

/-- What is left to be checked: one call, what the outside and a start may do, and that
each program is founded where it is entered. -/
structure Sound (audit : Audit) (r : ContractEventHandler μ)
    (inv : World σ μ → List Event → Prop) (ok : Sys σ μ → Action μ → Prop) : Prop where
  call : ∀ {w log op}, inv w log → audit.fits log op → ∀ who,
    inv (exec r.engine op w).2 (⟨who, op, (exec r.engine op w).1⟩ :: log) ∧
      audit.tells (⟨who, op, (exec r.engine op w).1⟩ :: log) op (exec r.engine op w).1
  outside : ∀ {w w' : World σ μ} {log}, inv w log → w'.store = w.store →
    w'.queue ⊆ w.queue → inv w' log
  routine : ∀ {s routine}, ok s (.spawn routine) → audit.Founded (routine.prog r) s.log
  job : ∀ {w log job}, inv w log → job ∈ w.queue →
    audit.Founded (processJob r.engine job) log
  startup : ∀ {log rerunAll},
    audit.Founded (Provision.startup { r.engine with rerunAll := rerunAll }) log

/-- No program has anything in hand that the log does not account for, and no call was
made that it did not. -/
structure Holds (audit : Audit) (inv : World σ μ → List Event → Prop) (s : Sys σ μ) :
    Prop where
  world : inv s.world s.log
  calls : ∀ ev before, ev :: before <:+ s.log → audit.fits before ev.op
  routines : ∀ p ∈ s.routines, audit.Founded p s.log
  worker : audit.Founded s.worker s.log

variable {audit : Audit} {r : ContractEventHandler μ} {inv : World σ μ → List Event → Prop}
  {ok : Sys σ μ → Action μ → Prop} {s s' : Sys σ μ}

theorem Sound.start (hsound : audit.Sound r inv ok) {rerunAll : Bool} {w : World σ μ}
    {log : List Event} (hinv : inv w log)
    (hcalls : ∀ ev before, ev :: before <:+ log → audit.fits before ev.op) :
    audit.Holds inv (Sys.start r rerunAll w log) := by
  refine ⟨?_, hcalls, List.forall_mem_nil _, hsound.startup⟩
  cases rerunAll with
  | false => exact hinv
  | true => exact hsound.outside hinv rfl (List.nil_subset _)

/-- A call of a founded program: what it leaves is founded, and so is everything else. -/
theorem Sound.made (hsound : audit.Sound r inv ok) (h : audit.Holds inv s) {α : Type} {op : Op}
    {k : op.Ret → EngineM α} (hp : audit.Founded (.call op k) s.log) (who : Who) :
    inv (exec r.engine op s.world).2
        (⟨who, op, (exec r.engine op s.world).1⟩ :: s.log) ∧
      (∀ ev before, ev :: before <:+ ⟨who, op, (exec r.engine op s.world).1⟩ :: s.log →
        audit.fits before ev.op) ∧
      audit.Founded (k (exec r.engine op s.world).1)
        (⟨who, op, (exec r.engine op s.world).1⟩ :: s.log) := by
  obtain ⟨hinv, htells⟩ := hsound.call h.world hp.1 who
  refine ⟨hinv, fun ev before hsuffix => ?_, ?_⟩
  · rcases List.suffix_cons_iff.mp hsuffix with heq | hsuffix
    · cases heq
      exact hp.1
    · exact h.calls ev before hsuffix
  · exact hp.2 _ _ (List.subset_cons_self _ _) ⟨exec_possible op s.world, htells⟩

theorem Sound.step (hsound : audit.Sound r inv ok) {a : Action μ} (h : audit.Holds inv s)
    (ha : ok s a) (hs : s.step r a = some s') : audit.Holds inv s' := by
  cases a with
  | spawn routine =>
      obtain rfl := step_spawn hs
      refine ⟨h.world, h.calls, fun p hp => ?_, h.worker⟩
      rcases List.mem_append.mp hp with hp | hp
      · exact h.routines p hp
      · obtain rfl := List.mem_singleton.mp hp
        exact hsound.routine (s := s) ha
  | routine i =>
      obtain ⟨op, k, hi, rfl⟩ := step_routine hs
      obtain ⟨hinv, hcalls, hk⟩ :=
        hsound.made h (h.routines _ (List.mem_of_getElem? hi)) .routine
      refine ⟨hinv, hcalls, fun p hp => ?_, h.worker.grow (List.subset_cons_self _ _)⟩
      rcases List.mem_or_eq_of_mem_set hp with hp | rfl
      · exact (h.routines p hp).grow (List.subset_cons_self _ _)
      · exact hk
  | take =>
      obtain ⟨_, job, rest, hq, rfl⟩ := step_take hs
      refine ⟨h.world, h.calls, h.routines, hsound.job h.world ?_⟩
      rw [hq]
      exact List.mem_cons_self
  | work =>
      obtain ⟨op, k, hw, rfl⟩ := step_work hs
      obtain ⟨hinv, hcalls, hk⟩ := hsound.made h (hw ▸ h.worker) (.worker s.job)
      exact ⟨hinv, hcalls,
        fun p hp => (h.routines p hp).grow (List.subset_cons_self _ _), hk⟩
  | outside clock chain gateway =>
      obtain rfl := step_outside hs
      exact ⟨hsound.outside h.world rfl (List.Subset.refl _), h.calls, h.routines, h.worker⟩
  | restart =>
      obtain rfl := step_restart hs
      exact hsound.start h.world h.calls
  | clear rerunAll =>
      obtain rfl := step_clear hs
      exact hsound.start (hsound.outside h.world rfl (List.nil_subset _)) h.calls
  | reboot rest =>
      obtain rfl := step_reboot hs
      exact hsound.start (hsound.outside h.world rfl (List.Subset.refl _)) h.calls

theorem Sound.run (hsound : audit.Sound r inv ok) (hrun : Run r ok s s')
    (h : audit.Holds inv s) : audit.Holds inv s' :=
  hrun.invariant (fun _ _ _ h ha hs => hsound.step h ha hs) h

omit [GoRuntime] [Storage σ] in
/-- A process that has just started has asked for nothing. -/
theorem Holds.of_fresh (hfresh : s.Fresh) (hinv : inv s.world []) : audit.Holds inv s := by
  obtain ⟨⟨u, hu⟩, _, hroutines, hlog⟩ := hfresh
  refine ⟨hlog ▸ hinv, fun ev before hsuffix => ?_, fun p hp => ?_, ?_⟩
  · rw [hlog] at hsuffix
    cases List.suffix_nil.mp hsuffix
  · rw [hroutines] at hp
    cases hp
  · rw [hu]
    trivial

end Audit

end

end Zos4.Provision
