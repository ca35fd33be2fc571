import Mathlib.Logic.Basic
import Zos4.Power.Goroutines

/-!
# What shuts the node down

The server turns the node off on two occasions: the target it reads when it
synchronises is not up, or an event says that this node is to go down. Both go
through `setNodePowerState`, which overrides the state it is given where power
management is not enabled, and through `shutdown`, which does nothing there.

`Entitled` is what the history of the server must end with for the node to be turned
off, and `allowed` makes it a condition on every call. The two programs keep to it
after any history, by one lemma for each function, and then so does the server
through all its restarts.
-/

namespace Zos4.Power

open Zos4.Interaction Prog

/-! ## Being entitled -/

/-- The calls of a report. -/
def Op.ofReport : Op → Bool
  | .checkFlag _ | .hostUptime | .updateNodeUptimeV2 _ => true
  | _ => false

/-- The node has just been seen down on the chain, or was set down after it had been
seen up. -/
def SeenOrSetDown (past rest : Interaction.History powerSig) : Prop :=
  (∃ power, past = ⟨.getPowerTarget, .ok power⟩ :: rest ∧ power.state.isUp = false) ∨
    ∃ power hash, past = ⟨.setNodePowerState false, .ok hash⟩ ::
      ⟨.getPowerTarget, .ok power⟩ :: rest

/-- A target that is not up has just been read, or an event that turns this very
node down has come and the node has been looked up. -/
def Triggered (p : PowerServer) (past : Interaction.History powerSig) : Prop :=
  (∃ power rest, past = ⟨.getPowerTarget, .ok power⟩ :: rest ∧
    power.target.isUp = false) ∨
  ∃ event node rest, past = ⟨.getNode event.nodeID.toUInt64, .ok node⟩ ::
      ⟨.powerTargetChange, event⟩ :: rest ∧
    event.farmID = p.farm ∧ event.nodeID = p.node ∧ event.target.isDown = true

/-- Nothing but a report, and a shutdown that is not supported, has come since the
state was seen or set as down, and that came right after the trigger. -/
def Entitled (p : PowerServer) (past : Interaction.History powerSig) : Prop :=
  ∃ recent down trigger, past = recent ++ down ∧
    (∀ entry ∈ recent, entry.1.ofReport = true ∨ entry.1 = .zinitShutdown) ∧
    SeenOrSetDown down trigger ∧ Triggered p trigger

/-- The calls the server may make after what it has done. -/
def allowed (p : PowerServer) (past : Interaction.History powerSig) (op : Op) : Prop :=
  (op = .zinitShutdown ∨ op = .zinitReboot → p.enabled = true ∧ Entitled p past) ∧
    (op = .setNodePowerState false → p.enabled = true)

/-- A call that neither turns the node off nor sets its state is always allowed. -/
theorem allowed_of_harmless {p : PowerServer} {past : Interaction.History powerSig}
    {op : Op} (hshutdown : op ≠ .zinitShutdown) (hreboot : op ≠ .zinitReboot)
    (hset : op ≠ .setNodePowerState false) : allowed p past op :=
  ⟨fun h => (h.elim hshutdown hreboot).elim, fun h => absurd h hset⟩

theorem Entitled.grow {p : PowerServer} {past : Interaction.History powerSig}
    (h : Entitled p past) {recent : Interaction.History powerSig}
    (hrecent : ∀ entry ∈ recent, entry.1.ofReport = true ∨ entry.1 = .zinitShutdown) :
    Entitled p (recent ++ past) := by
  obtain ⟨before, down, trigger, rfl, hbefore, hdown, htrigger⟩ := h
  refine ⟨recent ++ before, down, trigger, by simp, ?_, hdown, htrigger⟩
  intro entry hentry
  rcases List.mem_append.mp hentry with hentry | hentry
  · exact hrecent entry hentry
  · exact hbefore entry hentry

/-! ## The functions -/

variable {p : PowerServer} {past : Interaction.History powerSig}

/-- What is returned does not matter. -/
abbrev Keeps (p : PowerServer) {α : Type} (q : PowerM α)
    (past : Interaction.History powerSig) : Prop :=
  q.Traced (fun _ => True) (allowed p) (fun _ _ => True) past

theorem SendNow_makes :
    SendNow.Within (fun _ _ => True) fun op : Op => op.ofReport = true := by
  refine within_bind ?_ fun healthy => ?_
  · refine within_perform_bind rfl fun readonly _ => ?_
    refine within_perform_bind rfl fun limited _ => ?_
    exact within_perform_bind rfl fun _ _ => within_pure _
  · split
    · exact within_pure _
    · refine within_perform_bind rfl fun ans _ => ?_
      cases ans with
      | error err => exact within_pure _
      | ok uptime => exact within_perform rfl

theorem allowed_of_report {op : Op} (h : op.ofReport = true) : allowed p past op := by
  apply allowed_of_harmless
  all_goals
    rintro rfl
    cases h

theorem setNodePowerState_traced (up : Bool) :
    (p.setNodePowerState up).Traced (fun _ => True) (allowed p)
      (fun err now => err = none → p.enabled = true → up = false →
        SeenOrSetDown now past) past := by
  rw [PowerServer.setNodePowerState, traced_perform_bind]
  refine ⟨allowed_of_harmless (by simp) (by simp) (by simp), fun ans _ => ?_⟩
  cases ans with
  | error err => simp
  | ok power =>
      dsimp only
      split
      · next hsame =>
          rw [traced_pure]
          intro _ henabled hup
          rw [henabled, hup] at hsame
          exact .inl ⟨power, rfl, hsame⟩
      · rw [traced_perform_bind]
        constructor
        · refine ⟨by simp, fun hset => ?_⟩
          have hdown : (!p.enabled || up) = false := Op.setNodePowerState.inj hset
          simp at hdown
          exact hdown.1
        · intro ans _
          cases ans with
          | error err => simp
          | ok hash =>
              dsimp only
              rw [traced_pure]
              intro _ henabled hup
              rw [henabled, hup]
              exact .inr ⟨power, hash, rfl⟩

theorem shutdown_keeps (h : p.enabled = true → Entitled p past) :
    Keeps p p.shutdown past := by
  rw [Keeps, PowerServer.shutdown]
  split
  · trivial
  · next henabled =>
      have henabled : p.enabled = true := by simpa using henabled
      refine (SendNow_makes.traced (fun _ _ => trivial)
        fun past op hop => allowed_of_report hop).bind ?_
      rintro err now ⟨recent, rfl, hrecent⟩
      have hnow : Entitled p (recent ++ past) :=
        (h henabled).grow fun entry hentry => .inl (hrecent entry hentry)
      rw [traced_perform_bind]
      refine ⟨⟨fun _ => ⟨henabled, hnow⟩, by simp⟩, fun ans _ => ?_⟩
      cases ans with
      | none => trivial
      | some err =>
          dsimp only
          split
          · rw [← bind_pure zinitReboot, traced_perform_bind]
            refine ⟨⟨fun _ => ⟨henabled, ?_⟩, by simp⟩, fun _ _ => trivial⟩
            exact hnow.grow (List.forall_mem_singleton.mpr (.inr rfl))
          · trivial

theorem entitled_of_down {trigger : Interaction.History powerSig}
    (hdown : SeenOrSetDown past trigger) (htrigger : Triggered p trigger) :
    Entitled p past :=
  ⟨[], past, trigger, rfl, List.forall_mem_nil _, hdown, htrigger⟩

theorem syncSelf_keeps : Keeps p p.syncSelf past := by
  rw [Keeps, PowerServer.syncSelf, traced_perform_bind]
  refine ⟨allowed_of_harmless (by simp) (by simp) (by simp), fun ans _ => ?_⟩
  cases ans with
  | error err => trivial
  | ok power =>
      dsimp only
      split
      · refine (setNodePowerState_traced true).bind fun err now _ => ?_
        cases err <;> trivial
      · next hup =>
          refine (setNodePowerState_traced false).bind fun err now hnow => ?_
          cases err with
          | some err => trivial
          | none =>
              have hkeeps : Keeps p p.shutdown now := shutdown_keeps fun henabled =>
                entitled_of_down (hnow rfl henabled rfl)
                  (.inl ⟨power, past, rfl, by simpa using hup⟩)
              refine Traced.bind hkeeps fun err now _ => ?_
              cases err <;> trivial

theorem powerUp_keeps (node : Node) : Keeps p (powerUp node) past := by
  have hmakes : (powerUp node).Within (fun _ _ => True)
      fun op : Op => ∃ mac, op = .etherWake mac := by
    rw [powerUp]
    split
    · exact within_pure _
    · split
      · exact within_pure _
      · refine within_bind (within_forM fun mac _ => ?_) fun _ => within_pure _
        exact within_perform_bind ⟨mac, rfl⟩ fun _ _ => within_pure _
  refine (hmakes.traced (fun _ _ => trivial) fun past op hop => ?_).mono
    fun _ _ _ => trivial
  obtain ⟨mac, rfl⟩ := hop
  exact allowed_of_harmless (by simp) (by simp) (by simp)

theorem event_keeps (event : PowerTargetChangeEvent) :
    Keeps p (p.event event) (⟨.powerTargetChange, event⟩ :: past) := by
  rw [Keeps, PowerServer.event]
  split
  · trivial
  · next hfarm =>
      rw [traced_perform_bind]
      refine ⟨allowed_of_harmless (by simp) (by simp) (by simp), fun ans _ => ?_⟩
      cases ans with
      | error err => trivial
      | ok node =>
          dsimp only
          split
          · next hdown =>
              refine (setNodePowerState_traced false).bind fun err now hnow => ?_
              cases err with
              | some err => trivial
              | none =>
                  exact shutdown_keeps fun henabled => entitled_of_down
                    (hnow rfl henabled rfl)
                    (.inr ⟨event, node, past, rfl, of_not_not hfarm, hdown.1, hdown.2⟩)
          · split
            · trivial
            · split
              · exact powerUp_keeps node
              · trivial

/-! ## The server -/

@[simp] theorem Log.own_append (log log' : Log) (t : Thread) :
    Log.own (log ++ log') t = log.own t ++ log'.own t := by
  simp [Log.own]

@[simp] theorem Log.own_cons_self (log : Log) (t : Thread) (entry : Entry powerSig) :
    Log.own ((t, entry) :: log) t = entry :: log.own t := by
  simp [Log.own]

/-- Every call of the server was allowed, and so are those of the program it is in;
the reporter does nothing but report. -/
structure Sys.Keeping (p : PowerServer) (s : Sys) : Prop where
  server : Allowed (allowed p) (s.log.own .server)
  running : ∀ q, s.server.running q → Keeps p q (s.log.own .server)
  reporter : ∀ entry, (.reporter, entry) ∈ s.log → entry.1.ofReport = true
  sending : ∀ q, s.reporter = .sending q →
    q.Within (fun _ _ => True) fun op : Op => op.ofReport = true

theorem ServerPhase.running_inj {phase : ServerPhase} {q q' : PowerM (Option PowerError)}
    (h : phase.running q) (h' : phase.running q') : q = q' := by
  rcases h with rfl | rfl
  · rcases h' with h' | h' <;> cases h'
    rfl
  · rcases h' with h' | h' <;> cases h'
    rfl

theorem running_syncing {q q' : PowerM (Option PowerError)}
    (h : (ServerPhase.syncing q).running q') : q' = q :=
  ServerPhase.running_inj h (.inl rfl)

theorem running_handling {q q' : PowerM (Option PowerError)}
    (h : (ServerPhase.handling q).running q') : q' = q :=
  ServerPhase.running_inj h (.inr rfl)

theorem mem_of_mem_server_cons {log : Log} {entry entry' : Entry powerSig}
    (h : (Thread.reporter, entry) ∈ (Thread.server, entry') :: log) :
    (Thread.reporter, entry) ∈ log := by
  simpa using h

theorem keeping_step {s s' : Sys} {a : Action} (hs : s.Keeping p)
    (h : step p s a = some s') : s'.Keeping p := by
  cases moves_of_step h with
  | cancel => exact ⟨hs.server, hs.running, hs.reporter, hs.sending⟩
  | reporter hmoves =>
      -- nothing the server has done is touched
      cases hmoves with
      | call hphase =>
          have hmakes := hs.sending _ hphase
          refine ⟨hs.server, hs.running, fun entry hentry => ?_, fun q hq => ?_⟩
          · rcases List.mem_cons.mp hentry with hentry | hentry
            · cases hentry
              exact hmakes.1
            · exact hs.reporter entry hentry
          · cases hq
            exact hmakes.2 _ trivial
      | reported =>
          refine ⟨hs.server, hs.running, hs.reporter, fun q hq => ?_⟩
          cases hq
      | wait phase hphase =>
          refine ⟨hs.server, hs.running, hs.reporter, fun q hq => ?_⟩
          rcases hphase with rfl | rfl | rfl <;> cases hq
      | send =>
          refine ⟨hs.server, hs.running, hs.reporter, fun q hq => ?_⟩
          cases hq
          exact SendNow_makes
  | server hmoves =>
      cases hmoves with
      | call phase hphase hnext =>
          have hkeeps := hs.running _ hphase
          refine ⟨?_, fun q hq => ?_, fun entry hentry => ?_, hs.sending⟩
          · rw [Log.own_cons_self]
            exact ⟨hkeeps.1, hs.server⟩
          · obtain rfl := ServerPhase.running_inj hq hnext
            rw [Log.own_cons_self]
            exact hkeeps.2 _ trivial
          · exact hs.reporter entry (mem_of_mem_server_cons hentry)
      | marked | sync =>
          refine ⟨hs.server, fun q hq => ?_, hs.reporter, hs.sending⟩
          obtain rfl := running_syncing hq
          exact syncSelf_keeps
      | received =>
          refine ⟨?_, fun q hq => ?_, fun entry hentry => ?_, hs.sending⟩
          · rw [Log.own_cons_self]
            exact ⟨allowed_of_harmless (by simp) (by simp) (by simp), hs.server⟩
          · obtain rfl := running_handling hq
            rw [Log.own_cons_self]
            exact event_keeps _
          · exact hs.reporter entry (mem_of_mem_server_cons hentry)
      | wait reporter phase _ _ hidle hreporter =>
          refine ⟨hs.server, fun q hq => absurd hq (hidle q), hs.reporter, fun q hq => ?_⟩
          rcases hreporter with rfl | rfl
          · exact hs.sending q hq
          · cases hq

theorem keeping_start : Sys.start.Keeping p := by
  refine ⟨trivial, fun q hq => ?_, fun _ h => (nomatch h), fun q hq => ?_⟩
  · rcases hq with hq | hq <;> cases hq
  · cases hq
    exact SendNow_makes

/-- Whenever the node is turned off, the server does it, power management is enabled,
a target that is not up has been read or this node told to go down, and then the state
of the node was seen or set as down. Where power management is not enabled, the state
is never set to down. -/
theorem power_down_safe {s : Sys} (hrun : Steps (step p) (fun _ _ => True) .start s)
    {recent past : Log} {t : Thread} {entry : Entry powerSig}
    (hsplit : s.log = recent ++ (t, entry) :: past) :
    (entry.1 = .zinitShutdown ∨ entry.1 = .zinitReboot →
        t = .server ∧ p.enabled = true ∧ Entitled p (past.own .server)) ∧
      (entry.1 = .setNodePowerState false → p.enabled = true) := by
  have hkeeping : s.Keeping p :=
    hrun.invariant (fun _ _ _ hs _ h => keeping_step hs h) keeping_start
  cases t with
  | reporter =>
      have hreport := hkeeping.reporter entry (by simp [hsplit])
      constructor
      · intro h
        rcases h with h | h <;> simp [h, Op.ofReport] at hreport
      · intro h
        simp [h, Op.ofReport] at hreport
  | server =>
      have hserver := hkeeping.server
      rw [hsplit, Log.own_append, Log.own_cons_self] at hserver
      have hallowed := Allowed.of_split hserver
      exact ⟨fun h => ⟨rfl, hallowed.1 h⟩, hallowed.2⟩

/-! ## A run -/

/-- Everything goes well, and the node is down and meant to be. -/
def downAnswers : Answers
  | .getPowerTarget => .ok ⟨⟨false, true⟩, ⟨false, true⟩⟩
  | .getNode id => .ok ⟨id, []⟩
  | .setNodePowerState _ => .ok ""
  | .hostUptime => .ok 1
  | .checkFlag _ => false
  | .powerTargetChange => ⟨1, 7, ⟨false, true⟩⟩
  | .updateNodeUptimeV2 _ | .zinitShutdown | .zinitReboot | .etherWake _ => none

/-- The first report, and then the server finds the target down. -/
def downRun : List Action :=
  List.replicate 5 (.call .reporter downAnswers) ++ [.returns .reporter, .marked] ++
    List.replicate 8 (.call .server downAnswers)

def downEnd : Sys :=
  (follow (step ⟨true, 1, 7⟩) (fun _ _ => true) downRun .start).get (by decide +kernel)

theorem power_down_safe_sync :
    Entitled ⟨true, 1, 7⟩ (Log.own downEnd.log.tail .server) ∧
      downEnd.log = (.server, ⟨.zinitShutdown, none⟩) :: downEnd.log.tail := by
  have hsplit : downEnd.log =
      [] ++ (.server, (⟨.zinitShutdown, none⟩ : Entry powerSig)) :: downEnd.log.tail := rfl
  have hrun : Steps (step ⟨true, 1, 7⟩) (fun _ _ => True) .start downEnd :=
    Steps.of_follow (fun _ _ _ => trivial) downRun (Option.some_get _).symm
  exact ⟨((power_down_safe hrun hsplit).1 (.inl rfl)).2.2, hsplit⟩

end Zos4.Power
