import Zos4.Interaction.Safe
import Zos4.Provision.Effects

/-!
# Invariants of an interleaved run

A `Protocol` is what a proof about the whole system has to choose: an
invariant of the world, how far the routines and the outside may move the
world between two calls of the worker, how far everybody else may move it
between two calls of a routine, which calls each side makes, and what holds
when a job is done. `Protocol.Sound` lists what has to be checked of that
choice, one item for each kind of action, and `Protocol.Sound.run` is the
induction over runs, made once.

-/

namespace Zos4.Provision

open Zos4.Interaction Prog

variable [Zosbase] {σ μ : Type} [Storage σ]

omit [Storage σ] in
theorem safe_logged {D : Discipline engineSig (World σ μ)}
    {R : World σ μ → Prop} {op : EngineM (Option GoError)} {w : World σ μ}
    (h : op.Safe D (fun _ => R) w) : (logged op).Safe D (fun _ => R) w :=
  h.bind_stable fun _ _ hR => hR

structure Protocol (r : ContractEventHandler μ) (σ : Type) [Storage σ] where
  inv : World σ μ → Prop
  workerRely : World σ μ → World σ μ → Prop
  routineRely : World σ μ → World σ μ → Prop
  assume : Option EngineJob → Op → World σ μ → Prop
  allow : Option EngineJob → Op → World σ μ → Prop
  routineAllow : Op → World σ μ → Prop
  post : World σ μ → Prop
  worker_refl : ∀ w, workerRely w w
  worker_trans : ∀ {a b c}, workerRely a b → workerRely b c → workerRely a c
  routine_refl : ∀ w, routineRely w w
  routine_trans : ∀ {a b c}, routineRely a b → routineRely b c → routineRely a c

namespace Protocol

variable {r : ContractEventHandler μ} (P : Protocol r σ)

def worker (job : Option EngineJob) : Discipline engineSig (World σ μ) where
  handle := exec r.engine
  inv := P.inv
  rely := P.workerRely
  assume := P.assume job
  allow := P.allow job
  refl := P.worker_refl
  trans := P.worker_trans

def routine : Discipline engineSig (World σ μ) where
  handle := exec r.engine
  inv := P.inv
  rely := P.routineRely
  assume := fun _ _ => True
  allow := P.routineAllow
  refl := P.routine_refl
  trans := P.routine_trans

/-- The same for one routine that is to be watched more closely. -/
def watched (allow : Op → World σ μ → Prop) : Discipline engineSig (World σ μ) :=
  { P.routine with allow := allow }

/-- The same protocol with something else to establish at the end of a job. -/
def withPost (post : World σ μ → Prop) : Protocol r σ := { P with post := post }

@[simp] theorem worker_handle (job : Option EngineJob) :
    (P.worker job).handle = exec r.engine := rfl

@[simp] theorem routine_handle : P.routine.handle = exec r.engine := rfl

@[simp] theorem watched_handle (allow : Op → World σ μ → Prop) :
    (P.watched allow).handle = exec r.engine := rfl

/-- What a sound protocol keeps true of the system. -/
structure Holds (s : Sys σ μ) : Prop where
  inv : P.inv s.world
  worker : s.worker.Safe (P.worker s.job) (fun _ => P.post) s.world
  routines : ∀ p ∈ s.routines, p.Safe P.routine (fun _ _ => True) s.world

variable {P}

/-- The call the worker is about to make is allowed. -/
theorem Holds.allowed {s : Sys σ μ} (h : P.Holds s) {op : Op}
    {k : op.Ret → EngineM Unit} (hw : s.worker = .call op k)
    (ha : P.assume s.job op s.world) : P.allow s.job op s.world := by
  have hsafe := h.worker
  rw [hw] at hsafe
  exact (hsafe s.world (P.worker_refl _) h.inv ha).1

/-- The call routine `i` is about to make is allowed. -/
theorem Holds.routine_allowed {s : Sys σ μ} (h : P.Holds s) {i : Nat} {op : Op}
    {k : op.Ret → EngineM (Option GoError)}
    (hi : s.routines[i]? = some (.call op k)) : P.routineAllow op s.world :=
  ((h.routines _ (List.mem_of_getElem? hi)) s.world (P.routine_refl _) h.inv
    trivial).1

/-- An idle worker has established the postcondition. -/
theorem Holds.post_of_idle {s : Sys σ μ} (h : P.Holds s) (hidle : s.Idle) :
    P.post s.world := by
  obtain ⟨u, hu⟩ := hidle
  have hsafe := h.worker
  rw [hu] at hsafe
  exact hsafe s.world (P.worker_refl _) h.inv

end Protocol

/-- A process that has just started keeps whatever its world does. -/
theorem Sys.Fresh.holds {r : ContractEventHandler μ} {P : Protocol r σ}
    {s : Sys σ μ} (h : s.Fresh) (hinv : P.inv s.world)
    (hpost : ∀ w, P.inv w → P.post w) : P.Holds s := by
  obtain ⟨u, hu⟩ := h.idle
  refine ⟨hinv, ?_, ?_⟩
  · rw [hu]
    exact fun w _ hi => hpost w hi
  · rw [h.routines]
    exact fun _ hp => nomatch hp

variable [GoRuntime]

/-- What is to be checked of a protocol, for the runs of the permitted
actions. -/
structure Protocol.Sound {r : ContractEventHandler μ} (P : Protocol r σ)
    (ok : Sys σ μ → Action μ → Prop) : Prop where
  spawn : ∀ s routine, P.inv s.world → ok s (.spawn routine) →
    (routine.prog r).Safe P.routine (fun _ _ => True) s.world
  routine : ∀ op w, P.inv w → P.routineAllow op w →
    P.inv (exec r.engine op w).2 ∧ P.workerRely w (exec r.engine op w).2 ∧
      P.routineRely w (exec r.engine op w).2
  assume : ∀ s op k, P.inv s.world → ok s .work → s.worker = .call op k →
    P.assume s.job op s.world
  work : ∀ job op w, P.inv w → P.assume job op w → P.allow job op w →
    P.inv (exec r.engine op w).2 ∧ P.routineRely w (exec r.engine op w).2
  take : ∀ s job rest, P.Holds s → ok s .take → s.world.queue = job :: rest →
    (processJob r.engine job).Safe (P.worker (some job)) (fun _ => P.post)
      s.world
  outside : ∀ s clock chain gateway, P.inv s.world →
    ok s (.outside clock chain gateway) →
    let w := { s.world with clock := clock, chain := chain, gateway := gateway }
    P.inv w ∧ P.workerRely s.world w ∧ P.routineRely s.world w
  restart : ∀ s, P.Holds s → ok s .restart →
    P.Holds (Sys.start r false s.world s.log)
  clear : ∀ s rerunAll, P.Holds s → ok s (.clear rerunAll) →
    P.Holds (Sys.start r rerunAll { s.world with queue := [] } s.log)
  reboot : ∀ s rest, P.Holds s → ok s (.reboot rest) →
    P.Holds (Sys.start r true
      { s.world with node := ⟨fun _ => false, rest⟩ } s.log)

/-! ## The shapes of an action

`Sys.step` is opened here and nowhere else. -/

variable {r : ContractEventHandler μ}

theorem step_spawn {s s' : Sys σ μ} {routine : Routine}
    (h : s.step r (.spawn routine) = some s') :
    s' = { s with routines := s.routines ++ [routine.prog r] } :=
  (Option.some.inj h).symm

theorem step_routine {s s' : Sys σ μ} {i : Nat}
    (h : s.step r (.routine i) = some s') :
    ∃ op k, s.routines[i]? = some (.call op k) ∧
      s' = { s with
        world := (exec r.engine op s.world).2
        routines := s.routines.set i (k (exec r.engine op s.world).1)
        log := ⟨.routine, op, (exec r.engine op s.world).1⟩ :: s.log } := by
  simp only [Sys.step] at h
  split at h
  · cases h
  · next p hp =>
      cases p with
      | ret a => simp [advance] at h
      | call op k =>
          simp only [advance, Option.some.injEq] at h
          exact ⟨op, k, hp, h.symm⟩

theorem step_take {s s' : Sys σ μ} (h : s.step r .take = some s') :
    s.Idle ∧ ∃ job rest, s.world.queue = job :: rest ∧
      s' = { s with job := some job, worker := processJob r.engine job } := by
  simp only [Sys.step] at h
  split at h
  · next u job rest hw hq =>
      exact ⟨⟨u, hw⟩, job, rest, hq, (Option.some.inj h).symm⟩
  · cases h

theorem step_work {s s' : Sys σ μ} (h : s.step r .work = some s') :
    ∃ op k, s.worker = .call op k ∧
      s' = { s with
        world := (exec r.engine op s.world).2
        worker := k (exec r.engine op s.world).1
        log := ⟨.worker s.job, op, (exec r.engine op s.world).1⟩ :: s.log } := by
  simp only [Sys.step] at h
  cases hw : s.worker with
  | ret a => simp [hw, advance] at h
  | call op k =>
      simp only [hw, advance, Option.some.injEq] at h
      exact ⟨op, k, rfl, h.symm⟩

theorem step_outside {s s' : Sys σ μ} {clock : Timestamp} {chain : Chain}
    {gateway : Gateway} (h : s.step r (.outside clock chain gateway) = some s') :
    s' = { s with world :=
      { s.world with clock := clock, chain := chain, gateway := gateway } } :=
  (Option.some.inj h).symm

theorem step_restart {s s' : Sys σ μ} (h : s.step r .restart = some s') :
    s' = Sys.start r false s.world s.log := (Option.some.inj h).symm

theorem step_clear {s s' : Sys σ μ} {rerunAll : Bool}
    (h : s.step r (.clear rerunAll) = some s') :
    s' = Sys.start r rerunAll { s.world with queue := [] } s.log :=
  (Option.some.inj h).symm

theorem step_reboot {s s' : Sys σ μ} {rest : μ}
    (h : s.step r (.reboot rest) = some s') :
    s' = Sys.start r true
      { s.world with node := ⟨fun _ => false, rest⟩ } s.log :=
  (Option.some.inj h).symm

namespace Protocol

variable {P : Protocol r σ} {ok : Sys σ μ → Action μ → Prop}

theorem Sound.step (hP : P.Sound ok) {s s' : Sys σ μ} {a : Action μ}
    (h : P.Holds s) (hok : ok s a) (hs : s.step r a = some s') :
    P.Holds s' := by
  cases a with
  | spawn routine =>
      obtain rfl := step_spawn hs
      refine ⟨h.inv, h.worker, fun p hp => ?_⟩
      rcases List.mem_append.mp hp with hp | hp
      · exact h.routines p hp
      · obtain rfl := List.mem_singleton.mp hp
        exact hP.spawn s routine h.inv hok
  | routine i =>
      obtain ⟨op, k, hi, rfl⟩ := step_routine hs
      have hmem := List.mem_of_getElem? hi
      obtain ⟨hallow, hk⟩ :=
        h.routines _ hmem s.world (P.routine_refl _) h.inv trivial
      obtain ⟨hinv, hwork, hrout⟩ := hP.routine op s.world h.inv hallow
      refine ⟨hinv, h.worker.interfere hwork, fun p hp => ?_⟩
      rcases List.mem_or_eq_of_mem_set hp with hp | rfl
      · exact (h.routines p hp).interfere hrout
      · exact hk
  | take =>
      obtain ⟨_, job, rest, hq, rfl⟩ := step_take hs
      exact ⟨h.inv, hP.take s job rest h hok hq, h.routines⟩
  | work =>
      obtain ⟨op, k, hw, rfl⟩ := step_work hs
      have hassume := hP.assume s op k h.inv hok hw
      have hsafe := h.worker
      rw [hw] at hsafe
      obtain ⟨hallow, hk⟩ := hsafe s.world (P.worker_refl _) h.inv hassume
      obtain ⟨hinv, hrout⟩ := hP.work s.job op s.world h.inv hassume hallow
      exact ⟨hinv, hk, fun p hp => (h.routines p hp).interfere hrout⟩
  | outside clock chain gateway =>
      obtain rfl := step_outside hs
      obtain ⟨hinv, hwork, hrout⟩ :=
        hP.outside s clock chain gateway h.inv hok
      exact ⟨hinv, h.worker.interfere hwork,
        fun p hp => (h.routines p hp).interfere hrout⟩
  | restart =>
      obtain rfl := step_restart hs
      exact hP.restart s h hok
  | clear rerunAll =>
      obtain rfl := step_clear hs
      exact hP.clear s rerunAll h hok
  | reboot rest =>
      obtain rfl := step_reboot hs
      exact hP.reboot s rest h hok

theorem Sound.run (hP : P.Sound ok) {s s' : Sys σ μ} (hrun : Run r ok s s')
    (h : P.Holds s) : P.Holds s' :=
  hrun.invariant (fun _ _ _ hI hok hs => hP.step hI hok hs) h

/-- A routine that is safe under closer watch stays so, until the process is
started again. -/
theorem Sound.step_watched (hP : P.Sound ok) {allow : Op → World σ μ → Prop}
    {s s' : Sys σ μ} {a : Action μ} (h : P.Holds s) (hok : ok s a)
    (hcont : a.continues) (hs : s.step r a = some s') {i : Nat}
    {p : EngineM (Option GoError)} (hi : s.routines[i]? = some p)
    (hp : p.Safe (P.watched allow) (fun _ _ => True) s.world) :
    ∃ p', s'.routines[i]? = some p' ∧
      p'.Safe (P.watched allow) (fun _ _ => True) s'.world := by
  have hlt : i < s.routines.length := (List.getElem?_eq_some_iff.mp hi).1
  cases a with
  | spawn routine =>
      obtain rfl := step_spawn hs
      exact ⟨p, by rw [List.getElem?_append_left hlt, hi], hp⟩
  | routine j =>
      obtain ⟨op, k, hj, rfl⟩ := step_routine hs
      by_cases hij : j = i
      · subst hij
        obtain rfl := Option.some.inj (hi.symm.trans hj)
        obtain ⟨_, hk⟩ := hp s.world (P.routine_refl _) h.inv trivial
        exact ⟨_, List.getElem?_set_self hlt, hk⟩
      · obtain ⟨_, _, hrout⟩ := hP.routine op s.world h.inv (h.routine_allowed hj)
        exact ⟨p, by rw [List.getElem?_set_ne hij, hi], hp.interfere hrout⟩
  | take =>
      obtain ⟨_, _, _, _, rfl⟩ := step_take hs
      exact ⟨p, hi, hp⟩
  | work =>
      obtain ⟨op, k, hw, rfl⟩ := step_work hs
      have hassume := hP.assume s op k h.inv hok hw
      obtain ⟨_, hrout⟩ :=
        hP.work s.job op s.world h.inv hassume (h.allowed hw hassume)
      exact ⟨p, hi, hp.interfere hrout⟩
  | outside clock chain gateway =>
      obtain rfl := step_outside hs
      obtain ⟨_, _, hrout⟩ := hP.outside s clock chain gateway h.inv hok
      exact ⟨p, hi, hp.interfere hrout⟩
  | restart => cases hcont
  | clear rerunAll => cases hcont
  | reboot rest => cases hcont

theorem Sound.run_watched (hP : P.Sound ok) {allow : Op → World σ μ → Prop}
    {s s' : Sys σ μ} (hrun : Run r (fun s a => ok s a ∧ a.continues) s s')
    (h : P.Holds s) {i : Nat} {p : EngineM (Option GoError)}
    (hi : s.routines[i]? = some p)
    (hp : p.Safe (P.watched allow) (fun _ _ => True) s.world) :
    ∃ p', s'.routines[i]? = some p' ∧
      p'.Safe (P.watched allow) (fun _ _ => True) s'.world := by
  have hstep : ∀ (t : Sys σ μ) a t', (P.Holds t ∧ ∃ p, t.routines[i]? = some p ∧
      p.Safe (P.watched allow) (fun _ _ => True) t.world) →
      (ok t a ∧ a.continues) → t.step r a = some t' →
      P.Holds t' ∧ ∃ p, t'.routines[i]? = some p ∧
        p.Safe (P.watched allow) (fun _ _ => True) t'.world := by
    rintro t a t' ⟨hholds, p, hi, hp⟩ ⟨hok, hcont⟩ hs
    exact ⟨hP.step hholds hok hs, hP.step_watched hholds hok hcont hs hi hp⟩
  exact (hrun.invariant hstep ⟨h, p, hi, hp⟩).2

end Protocol

end Zos4.Provision
