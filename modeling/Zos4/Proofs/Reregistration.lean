import Zos4.Registrar.Registrar

/-!
# Registering again

The loop of the registrar means to register the node again every day, but both
timers of its `select` start anew in every iteration, and the one for the day is
the longer one. It never fires (`interval_never`): what registers the node again
is an address update and nothing else. A loop that waits has registered the node
when it last had an update to read (`Led`), and so the time since the last
registration is bounded as far as the address updates see to it. That is
`reregistered_in_time`, where `D` bounds what the loop is busy with in one iteration.
-/

namespace Zos4.Registrar

open Zos4.Interaction

/-- The goroutine has called `register()` and has not ended. -/
def Sys.Watches (s : Sys) : Prop := s.phase ≠ .starting ∧ s.phase ≠ .stopped

instance (s : Sys) : Decidable s.Watches := inferInstanceAs (Decidable (_ ∧ _))

/-- The goroutine is neither in the `select` nor at its beginning or end. -/
def Phase.busy : Phase → Bool
  | .registering | .subscribing | .reactivating => true
  | _ => false

/-- An iteration is busy for no longer than `D`. -/
def BusyWithin (D : Nat) (s : Sys) : Action → Prop
  | .tick d => s.phase.busy = true → s.now + d ≤ s.since + D
  | _ => True

/-- As long as the `select` waits, it has had an address update to read within the
day. -/
def Prompted (s : Sys) : Action → Prop
  | .tick d => ∀ monitor interval, s.phase = .watching monitor interval →
      s.now + d ≤ s.prompted + updateNodeInfoInterval
  | _ => True

/-! ## What an action can do -/

/-- Every action, with what it needs and where it leads. -/
inductive Moves (s : Sys) : Action → Sys → Prop
  | tick {d : Nat} : s.idleUntil (s.now + d) = true →
      Moves s (.tick d) { s with now := s.now + d }
  | unfit {limitedCache kvm : Bool} {state : State} : s.phase = .starting →
      Moves s (.check limitedCache kvm) { s with state := state, phase := .stopped }
  | fit {limitedCache kvm : Bool} : s.phase = .starting →
      Moves s (.check limitedCache kvm) { s.register with prompted := s.now }
  | failed {err : String} : s.phase = .registering →
      Moves s (.failed err) { s with state := failedState err }
  | registered {nodeID twinID : UInt64} {state : State} : s.phase = .registering →
      Moves s (.registered nodeID twinID) ({ s with state := state } : Sys).proceed
  | gaveUp : s.phase = .registering → Moves s .gaveUp s.proceed
  | unsubscribed {err : Option String} : s.phase = .subscribing →
      Moves s (.subscribed err) { s with phase := .stopped }
  | subscribed {err : Option String} : s.phase = .subscribing →
      Moves s (.subscribed err) s.watch
  | done {monitor interval : Nat} : s.phase = .watching monitor interval →
      Moves s .done s.watch
  | monitor {monitor interval : Nat} : s.phase = .watching monitor interval →
      monitor ≤ s.now → Moves s .monitor { s with phase := .reactivating, since := s.now }
  | interval {monitor interval : Nat} : s.phase = .watching monitor interval →
      interval ≤ s.now → Moves s .interval s.register
  | address {monitor interval updates : Nat} : s.phase = .watching monitor interval →
      0 < s.updates → Moves s .address ({ s with updates := updates } : Sys).register
  | reactivated {err : Option String} : s.phase = .reactivating →
      Moves s (.reactivated err) s.watch
  | addressUpdate : s.looping = true → Moves s .addressUpdate s.hear
  | cancel : Moves s .cancel { s with cancelled := true }

theorem moves_of_step {s s' : Sys} {a : Action} (h : step s a = some s') :
    Moves s a s' := by
  cases a with
  | tick d =>
      simp only [step] at h
      split at h
      · next hidle => cases h; exact .tick hidle
      · cases h
  | check limitedCache kvm =>
      simp only [step] at h
      split at h
      · next hphase =>
          split at h
          · cases h; exact .unfit hphase
          · split at h
            · cases h; exact .unfit hphase
            · cases h; exact .fit hphase
      · cases h
  | failed err =>
      simp only [step] at h
      split at h
      · next hphase => cases h; exact .failed hphase
      · cases h
  | registered nodeID twinID =>
      simp only [step] at h
      split at h
      · next hphase => cases h; exact .registered hphase
      · cases h
  | gaveUp =>
      simp only [step] at h
      split at h
      · next hphase => cases h; exact .gaveUp hphase.1
      · cases h
  | subscribed err =>
      simp only [step] at h
      split at h
      · next hphase =>
          cases err with
          | some err => cases h; exact .unsubscribed hphase
          | none => cases h; exact .subscribed hphase
      · cases h
  | done =>
      simp only [step] at h
      split at h
      · next hphase =>
          split at h
          · cases h; exact .done hphase
          · cases h
      · cases h
  | monitor =>
      simp only [step] at h
      split at h
      · next hphase =>
          split at h
          · next hfired => cases h; exact .monitor hphase hfired
          · cases h
      · cases h
  | interval =>
      simp only [step] at h
      split at h
      · next hphase =>
          split at h
          · next hfired => cases h; exact .interval hphase hfired
          · cases h
      · cases h
  | address =>
      simp only [step] at h
      split at h
      · next hphase =>
          split at h
          · next hsome => cases h; exact .address hphase hsome
          · cases h
      · cases h
  | reactivated err =>
      simp only [step] at h
      split at h
      · next hphase => cases h; exact .reactivated hphase
      · cases h
  | addressUpdate =>
      simp only [step] at h
      split at h
      · next hlooping => cases h; exact .addressUpdate hlooping
      · cases h
  | cancel => cases h; exact .cancel

/-! ## The timer for the day -/

/-- The timers of a `select`, which waits no longer than for the first of them. -/
def Sys.Armed (s : Sys) : Prop :=
  ∀ monitor interval, s.phase = .watching monitor interval →
    s.now ≤ monitor ∧ monitor < interval

theorem monitor_lt_interval : monitorAccountEvery < updateNodeInfoInterval := by decide

theorem Sys.armed_watch (s : Sys) : s.watch.Armed := by
  intro monitor interval h
  obtain ⟨rfl, rfl⟩ := Phase.watching.inj h
  have := monitor_lt_interval
  show s.now ≤ s.now + monitorAccountEvery ∧
    s.now + monitorAccountEvery < s.now + updateNodeInfoInterval
  omega

theorem Sys.armed_of_busy {s : Sys} (h : s.phase.busy = true ∨ s.phase = .stopped) :
    s.Armed := by
  intro monitor interval hphase
  rw [hphase] at h
  simp [Phase.busy] at h

theorem Sys.armed_proceed (s : Sys) : s.proceed.Armed := by
  rw [Sys.proceed]
  split
  · exact s.armed_watch
  · exact armed_of_busy (.inl rfl)

theorem armed_step {s s' : Sys} {a : Action} (hs : s.Armed) (h : step s a = some s') :
    s'.Armed := by
  cases moves_of_step h with
  | tick hidle =>
      intro monitor interval hphase
      have hphase : s.phase = .watching monitor interval := hphase
      simp [Sys.idleUntil, hphase] at hidle
      exact ⟨hidle.1.1, (hs monitor interval hphase).2⟩
  | unfit | unsubscribed => exact Sys.armed_of_busy (.inr rfl)
  | fit | monitor | interval | address => exact Sys.armed_of_busy (.inl rfl)
  | registered | gaveUp => exact Sys.armed_proceed _
  | subscribed | done | reactivated => exact s.armed_watch
  | failed | cancel => exact hs
  | addressUpdate => exact fun monitor interval hphase => hs monitor interval hphase

/-- The timer for the day never fires. -/
theorem interval_never {s : Sys} (hrun : Steps step (fun _ _ => True) .start s) :
    step s .interval = none := by
  have harmed : s.Armed := hrun.invariant (fun _ _ _ hs _ h => armed_step hs h)
    fun _ _ h => nomatch h
  cases hstep : step s .interval with
  | none => rfl
  | some s' =>
      cases moves_of_step hstep with
      | interval hphase hfired =>
          have := harmed _ _ hphase
          omega

/-! ## What leads to a registration -/

/-- An update that is there has just been there to read, and if there is none the node was
registered when there last was one. -/
def Led (s : Sys) : Prop :=
  match s.phase with
  | .starting | .stopped => True
  | .registering | .subscribing => s.prompted = s.last
  | .reactivating => s.updates = 0 → s.prompted = s.last
  | .watching _ _ =>
      (s.updates = 0 → s.prompted = s.last) ∧ (0 < s.updates → s.prompted = s.now)

/-- In the `select` no time passes as long as an update is there and not read. -/
theorem Sys.still {s : Sys} {d monitor interval : Nat}
    (hphase : s.phase = .watching monitor interval) (hsome : s.updates ≠ 0)
    (hidle : s.idleUntil (s.now + d) = true) : s.now + d = s.now := by
  simp only [Sys.idleUntil, hphase, Bool.and_eq_true, Bool.or_eq_true, beq_iff_eq] at hidle
  omega

theorem led_watch {s : Sys} (h : s.updates = 0 → s.prompted = s.last) : Led s.watch := by
  refine ⟨fun hnone => ?_, fun hsome => if_pos hsome⟩
  have hnone : s.updates = 0 := hnone
  rw [Sys.watch, hnone]
  exact h hnone

theorem led_proceed {s : Sys} (h : s.prompted = s.last) : Led s.proceed := by
  rw [Sys.proceed]
  split
  · exact led_watch fun _ => h
  · exact h

theorem led_step {s s' : Sys} {a : Action} (hs : Led s) (harmed : s.Armed)
    (h : step s a = some s') : Led s' := by
  unfold Led at hs
  cases moves_of_step h with
  | @tick d hidle =>
      unfold Led
      cases hphase : s.phase with
      | watching monitor interval =>
          simp only [hphase] at hs
          refine ⟨hs.1, fun hsome => ?_⟩
          show s.prompted = s.now + d
          rw [Sys.still hphase (Nat.ne_of_gt hsome) hidle]
          exact hs.2 hsome
      | starting => trivial
      | stopped => trivial
      | registering | subscribing | reactivating =>
          simp only [hphase] at hs
          exact hs
  | unfit | unsubscribed => trivial
  | fit => exact rfl
  | failed hphase =>
      simp only [hphase] at hs
      simp only [Led, hphase]
      exact hs
  | registered hphase | gaveUp hphase =>
      simp only [hphase] at hs
      exact led_proceed hs
  | subscribed hphase =>
      simp only [hphase] at hs
      exact led_watch fun _ => hs
  | done hphase =>
      simp only [hphase] at hs
      exact led_watch hs.1
  | monitor hphase _ =>
      simp only [hphase] at hs
      exact hs.1
  | interval hphase hfired =>
      have := harmed _ _ hphase
      omega
  | address hphase hsome =>
      simp only [hphase] at hs
      exact hs.2 hsome
  | reactivated hphase =>
      simp only [hphase] at hs
      exact led_watch hs
  | addressUpdate =>
      unfold Led
      cases hphase : s.phase with
      | watching monitor interval =>
          simp only [Sys.hear, hphase]
          exact ⟨fun hnone => absurd hnone (Nat.succ_ne_zero _), fun _ => trivial⟩
      | starting => simp only [Sys.hear, hphase]
      | stopped => simp only [Sys.hear, hphase]
      | registering | subscribing =>
          simp only [hphase] at hs
          simp only [Sys.hear, hphase]
          exact hs
      | reactivating =>
          simp only [Sys.hear, hphase]
          exact fun hnone => absurd hnone (Nat.succ_ne_zero _)
  | cancel => exact hs

/-! ## In time -/

/-- When the loop waits, a day has not passed, or the wait has just begun. -/
def InTime (D : Nat) (s : Sys) : Prop :=
  match s.phase with
  | .starting | .stopped => True
  | .registering | .subscribing => s.since = s.last ∧ s.now ≤ s.since + D
  | .reactivating => s.since ≤ s.last + updateNodeInfoInterval ∧ s.now ≤ s.since + D
  | .watching monitor _ => s.now ≤ s.last + updateNodeInfoInterval ∨
      (s.now < monitor ∧ s.now ≤ s.last + updateNodeInfoInterval + D)

theorem inTime_watch {D : Nat} {s : Sys}
    (h : s.now ≤ s.last + updateNodeInfoInterval + D) : InTime D s.watch := by
  have hlater : s.now < s.now + monitorAccountEvery :=
    Nat.lt_add_of_pos_right (by decide)
  exact .inr ⟨hlater, h⟩

theorem inTime_register {D : Nat} (s : Sys) : InTime D s.register :=
  ⟨rfl, Nat.le_add_right s.now D⟩

theorem inTime_proceed {D : Nat} {s : Sys}
    (h : s.since = s.last ∧ s.now ≤ s.since + D) : InTime D s.proceed := by
  rw [Sys.proceed]
  split
  · refine inTime_watch ?_
    omega
  · exact h

theorem inTime_step {D : Nat} {s s' : Sys} {a : Action} (hs : InTime D s) (hled : Led s)
    (hbusy : BusyWithin D s a) (hprompted : Prompted s a) (h : step s a = some s') :
    InTime D s' := by
  unfold InTime at hs
  cases moves_of_step h with
  | @tick d hidle =>
      unfold InTime
      cases hphase : s.phase with
      | starting => trivial
      | stopped => trivial
      | registering | subscribing =>
          simp only [hphase] at hs
          exact ⟨hs.1, hbusy (by rw [hphase]; rfl)⟩
      | reactivating =>
          simp only [hphase] at hs
          exact ⟨hs.1, hbusy (by rw [hphase]; rfl)⟩
      | watching monitor interval =>
          simp only [hphase] at hs
          have hsince := hprompted monitor interval hphase
          simp only [Led, hphase] at hled
          by_cases hnone : s.updates = 0
          · rw [hled.1 hnone] at hsince
            exact .inl hsince
          · show s.now + d ≤ s.last + updateNodeInfoInterval ∨
              (s.now + d < monitor ∧ s.now + d ≤ s.last + updateNodeInfoInterval + D)
            rw [Sys.still hphase hnone hidle]
            exact hs
  | unfit | unsubscribed => trivial
  | fit | interval | address => exact inTime_register _
  | failed hphase =>
      simp only [hphase] at hs
      simp only [InTime, hphase]
      exact hs
  | registered hphase | gaveUp hphase =>
      simp only [hphase] at hs
      exact inTime_proceed hs
  | subscribed hphase =>
      simp only [hphase] at hs
      refine inTime_watch ?_
      omega
  | done hphase =>
      simp only [hphase] at hs
      refine inTime_watch ?_
      omega
  | monitor hphase hfired =>
      -- the timer has fired, so the wait has not just begun
      simp only [hphase] at hs
      have hday : s.now ≤ s.last + updateNodeInfoInterval := by omega
      exact ⟨hday, Nat.le_add_right s.now D⟩
  | reactivated hphase =>
      simp only [hphase] at hs
      refine inTime_watch ?_
      omega
  | addressUpdate =>
      unfold InTime
      exact hs
  | cancel => exact hs

/-- As long as the `select` never waits for more than a day without an address update to
read, the time since the last registration stays within a day and an iteration. -/
theorem reregistered_in_time {D : Nat} {s : Sys}
    (hrun : Steps step (fun s a => BusyWithin D s a ∧ Prompted s a) .start s)
    (hwatches : s.Watches) : s.now ≤ s.last + updateNodeInfoInterval + D := by
  have hinv : s.Armed ∧ Led s ∧ InTime D s := hrun.invariant
    (I := fun s => s.Armed ∧ Led s ∧ InTime D s)
    (fun _ _ _ hs hok h => ⟨armed_step hs.1 h, led_step hs.2.1 hs.1 h,
      inTime_step hs.2.2 hs.2.1 hok.1 hok.2 h⟩)
    ⟨fun _ _ h => (nomatch h), trivial, trivial⟩
  have hs := hinv.2.2
  unfold InTime at hs
  cases hphase : s.phase with
  | starting => exact absurd hphase hwatches.1
  | stopped => exact absurd hphase hwatches.2
  | registering | subscribing =>
      simp only [hphase] at hs
      omega
  | reactivating =>
      simp only [hphase] at hs
      omega
  | watching monitor interval =>
      simp only [hphase] at hs
      omega

/-! ## Runs -/

/-- The goroutine up to the loop, the registration taking no time. -/
def entered : List Action :=
  [.check false true, .registered 1 2, .subscribed none]

/-- One iteration without an address update. -/
def unprompted : List Action := [.tick monitorAccountEvery, .monitor, .reactivated none]

/-- A day goes by, the loop monitoring the account, and then an address update
comes. -/
def promptedRun : List Action :=
  entered ++ (List.replicate 48 unprompted).flatten ++ [.addressUpdate, .address]

instance (D : Nat) (s : Sys) (a : Action) : Decidable (BusyWithin D s a) := by
  cases a <;> unfold BusyWithin <;> infer_instance

/-- `Prompted` as a test. -/
def prompted (s : Sys) : Action → Bool
  | .tick d =>
      match s.phase with
      | .watching _ _ => s.now + d ≤ s.prompted + updateNodeInfoInterval
      | _ => true
  | _ => true

theorem prompted_iff {s : Sys} {a : Action} (h : prompted s a = true) : Prompted s a := by
  cases a with
  | tick d =>
      intro monitor interval hphase
      simpa [prompted, hphase] using h
  | _ => trivial

/-- An address update has been read after a day, and the registration has begun. -/
def promptedEnd : Sys :=
  (follow step (fun s a => decide (BusyWithin minute s a) && prompted s a) promptedRun
    .start).get (by decide +kernel)

theorem reregistered_in_time_prompted :
    promptedEnd.now ≤ promptedEnd.last + updateNodeInfoInterval + minute :=
  reregistered_in_time
    (Steps.of_follow (fun s a h => by
      rw [Bool.and_eq_true, decide_eq_true_eq] at h
      exact ⟨h.1, prompted_iff h.2⟩) promptedRun (Option.some_get _).symm)
    (by decide +kernel)

/-- Fifty iterations without an address update. -/
def starvedEnd : Sys :=
  (follow step (fun s a => decide (BusyWithin monitorAccountEvery s a))
    (entered ++ (List.replicate 50 unprompted).flatten) .start).get (by decide +kernel)

/-- Without address updates the node is not registered again: after fifty times
half an hour the last registration is more than a day and an iteration ago. -/
theorem starved :
    ¬ ∀ s, Steps step (fun s a => BusyWithin monitorAccountEvery s a) .start s →
      s.Watches → s.now ≤ s.last + updateNodeInfoInterval + monitorAccountEvery := by
  intro h
  have hrun : Steps step (fun s a => BusyWithin monitorAccountEvery s a) .start
      starvedEnd :=
    Steps.of_follow (fun _ _ hok => of_decide_eq_true hok) _ (Option.some_get _).symm
  exact absurd (h starvedEnd hrun (by decide +kernel)) (by decide +kernel)

end Zos4.Registrar
