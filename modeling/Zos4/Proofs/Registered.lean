import Zos4.Registrar.Daemon

/-!
# The node on the registrar

A registration makes a node only where the account has none, so that there is never a
second one, however many answers get lost, however often the program dies on the way and
whatever becomes of the first. And when it returns, the record the registrar has is what
was collected: `ensureNode` returns the id of a node of the account and `validateNode`
leaves the record as `expected`.
-/

namespace Zos4.Registrar

open Zos4.Interaction Prog

/-! ## A registrar that has the node -/

namespace Quiet

scoped instance sdk : Sdk where
  Coordinate := Nat
  sprint := toString
  Rest := Unit
  decEq := inferInstance
  zero := ()
  errorNodeNotFound := "node not found"

def place : GeoLocation := ⟨(51 : Nat), (4 : Nat), "Belgium", "Ghent"⟩

def bridge : List (String × Interface) := [("zos", ⟨"zos", "52:54:00:12:34:56", ["10.0.0.2"]⟩)]

def env : Env := ⟨1, ["wss://relay"]⟩

def info : RegistrationInfo := ⟨.zero, place, false, true, "serial"⟩

/-- The registrar has the node marked as real. -/
def node : Node := { collect env info bridge 7 with nodeID := 1, virtualized := false }

def records : Records where
  account := some 7
  nodes i := if i = 1 then some node else none
  fetched := none
  bridge := none

def answer : Handler registerSig Records
  | .fetch, s => (.ok place, { s with fetched := some place })
  | .interfaces, s => (.ok bridge, { s with bridge := some bridge })
  | .environment, s => (env, s)
  | .ensureAccount _ _, s =>
      match s.account with
      | some twinID => (.ok twinID, s)
      | none => (.error "busy", s)
  | .getNodeByTwinID twinID, s =>
      match s.nodes 1 with
      | some node => if node.twinID = twinID then (.ok node, s) else (.error "busy", s)
      | none => (.error "busy", s)
  | .getNode i, s =>
      match s.nodes i with
      | some node => (.ok node, s)
      | none => (.error "busy", s)
  | .registerNode _, s => (.error "busy", s)
  | .updateNode _, s => (some "busy", s)

theorem valid : records.Valid where
  ids i n h := by
    obtain ⟨rfl, rfl⟩ : i = 1 ∧ n = node := by
      simpa [records, eq_comm] using h
    rfl
  one i j hi hj := by
    have only : ∀ k, records.Own k → k = 1 := by
      intro k hk
      obtain ⟨n, hn, _⟩ := hk
      exact (Option.ite_none_right_eq_some.mp hn).1
    rw [only i hi, only j hj]

theorem answer_answers (op : Op) (s : Records) :
    Answers op s (answer op s).1 (answer op s).2 := by
  have hbusy : contains "busy" sdk.errorNodeNotFound = false := by decide
  cases op with
  | fetch => exact .fetched place
  | interfaces => exact .interfaces bridge
  | environment => exact .environment env
  | ensureAccount relays key =>
      simp only [answer]
      split
      · next h => exact .account h
      · exact .accountFailed "busy"
  | getNodeByTwinID twinID =>
      simp only [answer]
      split
      · next h =>
          split
          · next htwin => exact .found h htwin
          · exact .lookupFailed hbusy
      · exact .lookupFailed hbusy
  | getNode i =>
      simp only [answer]
      split
      · next h => exact .node h
      · exact .nodeFailed "busy"
  | registerNode node => exact .makeFailed "busy"
  | updateNode update => exact .updateFailed "busy"

/-- A registration, alone with the registrar. -/
def registered : Client registerSig Records Outcome :=
  ⟨((registering env info).run answer records).2,
    some (.ret ((registering env info).run answer records).1)⟩

/-- The goroutine has had the ids. -/
def done : Daemon where
  sys := { Sys.start.register with state := doneState 1 7, phase := .subscribing }
  client := ⟨registered.state, none⟩

theorem run_done {spare : Prop} : Daemon.Run spare (.start records) done := by
  have hcheck : Daemon.Step spare (.start records) ⟨Sys.start.register, ⟨records, none⟩⟩ :=
    @Daemon.Step.act _ spare (.start records) (.check false true) _ rfl nofun rfl
  have hround : Daemon.Run spare ⟨Sys.start.register, ⟨records, some (registering env info)⟩⟩
      ⟨Sys.start.register, registered⟩ :=
    Daemon.run_of_handler answer_answers Sys.start.register (registering env info) records
  have hend : Daemon.Step spare ⟨Sys.start.register, registered⟩ done :=
    @Daemon.Step.registered _ spare _ env info 1 7 _ rfl rfl
  exact ((hround.tail hend).head (.register env info rfl rfl)).head hcheck

theorem run_registered {spare : Prop} :
    Client.Run (registrar spare) Round ⟨records, none⟩ registered :=
  (Client.run_of_handler answer_answers _ records).head
    (.start (.registering env info) rfl)

end Quiet

section

variable [Sdk] {spare : Prop}

theorem served_ask_bind {α : Type} {Q : α → Records → Prop} {s : Records} {op : Op}
    {f : op.Ret → RegisterM α} :
    (ask op >>= f).Served (registrar spare) Fresh Q s ↔
      ∀ s', Others spare s s' → s'.Valid → Fresh op s' ∧
        ∀ r s'', Answers op s' r s'' → (f r).Served (registrar spare) Fresh Q s'' := Iff.rfl

/-! ## What is known on the way -/

/-- The answers a registration has had from the node's own modules, and the account. -/
structure Known (loc : GeoLocation) (infs : List (String × Interface)) (twinID : UInt64)
    (s : Records) : Prop where
  fetched : s.fetched = some loc
  bridge : s.bridge = some infs
  account : s.account = some twinID

/-- The registrar's record is the one collected. A node it has as real stays so, and what
the node does not know of is the registrar's own business. -/
def Recorded (real : Node) (nodeID : UInt64) (s : Records) : Prop :=
  ∃ virtualized rest, (virtualized = true → real.virtualized = true) ∧
    s.nodes nodeID = some { real with
      nodeID := nodeID, virtualized := virtualized, rest := rest }

variable {loc : GeoLocation} {infs : List (String × Interface)} {real : Node}
  {twinID nodeID : UInt64} {s s' : Records}

theorem Known.others (h : Known loc infs twinID s) (ho : Others spare s s') :
    Known loc infs twinID s' :=
  ⟨ho.fetched.trans h.fetched, ho.bridge.trans h.bridge, ho.account.trans h.account⟩

theorem Recorded.own (h : Recorded real nodeID s) (hacc : s.account = some real.twinID) :
    s.Own nodeID := by
  obtain ⟨_, _, _, hnode⟩ := h
  exact ⟨_, hnode, hacc⟩

theorem Recorded.others (h : Recorded real nodeID s) (hspare : spare)
    (hacc : s.account = some real.twinID) (ho : Others spare s s') :
    Recorded real nodeID s' := by
  have hown := h.own hacc
  obtain ⟨virtualized, rest, hvirt, hnode⟩ := h
  exact ⟨virtualized, rest, hvirt, (ho.spared hspare nodeID hown).trans hnode⟩

/-- The record that is found to be as expected is the one collected. -/
theorem recorded_of_expected {onRegistrar : Node} (hnode : s.nodes nodeID = some onRegistrar)
    (heq : expected real onRegistrar nodeID = onRegistrar) : Recorded real nodeID s := by
  refine ⟨real.virtualized && onRegistrar.virtualized, real.rest, fun h => ?_, ?_⟩
  · exact (Bool.and_eq_true_iff.mp h).1
  · rw [hnode]
    exact congrArg some heq.symm

/-- The update makes the record the one collected. -/
theorem recorded_of_updated {node onRegistrar : Node} {rest : Sdk.Rest}
    (hid : node.nodeID = nodeID) (htwin : node.twinID = real.twinID) :
    Recorded real nodeID
      (s.put ((Gateway.nodeUpdate (expected real onRegistrar nodeID)).apply node rest)) := by
  refine ⟨real.virtualized && onRegistrar.virtualized, rest, fun h => ?_, ?_⟩
  · exact (Bool.and_eq_true_iff.mp h).1
  · subst hid
    rw [← htwin]
    exact Records.put_same s _

/-! ## The parts of a registration -/

/-- A node is made only where the lookup found none for the twin, and the others make
none for it before the call gets there. -/
theorem ensureNode_served (hknown : Known loc infs real.twinID s) :
    (ensureNode real).Served (registrar spare) Fresh
      (fun a t => Known loc infs real.twinID t ∧ (spare → ∀ id, a = .ok id → t.Own id)) s := by
  refine served_ask_bind.mpr fun s₁ ho₁ hvalid₁ => ⟨trivial, fun r s₂ hlookup => ?_⟩
  have hknown₁ := hknown.others ho₁
  cases hlookup with
  | @found _ i _ node hnode htwin =>
      intro t ho _
      refine ⟨hknown₁.others ho, fun hspare id hid => ?_⟩
      obtain rfl := Except.ok.inj hid
      rw [hvalid₁.ids i node hnode]
      exact ho.own hspare ⟨node, hnode, htwin ▸ hknown₁.account⟩
  | missing hnone herr =>
      simp only [herr, if_true]
      refine served_ask_bind.mpr fun s₂ ho₂ hvalid₂ => ⟨?_, fun r s₃ hmade => ?_⟩
      · refine ⟨(hknown₁.others ho₂).account, fun i hi => ?_⟩
        obtain ⟨node, hnode, hacc⟩ := ho₂.mine i hi
        exact hnone i node hnode (Option.some.inj (hacc.symm.trans hknown₁.account))
      · have hknown₂ := hknown₁.others ho₂
        cases hmade with
        | @made _ _ i _ rest hi hanswer =>
            have hknown₃ : Known loc infs real.twinID
                (s₂.put { real with nodeID := i, rest := rest }) :=
              ⟨hknown₂.fetched, hknown₂.bridge, hknown₂.account⟩
            cases r with
            | error err => exact fun t ho _ => ⟨hknown₃.others ho, fun _ _ h => nomatch h⟩
            | ok id =>
                obtain rfl := hanswer id rfl
                intro t ho _
                refine ⟨hknown₃.others ho, fun hspare id hid => ?_⟩
                obtain rfl := Except.ok.inj hid
                exact ho.own hspare ⟨_, Records.put_same s₂ _, hknown₃.account⟩
        | makeFailed err =>
            exact fun t ho _ => ⟨hknown₂.others ho, fun _ _ h => nomatch h⟩
  | lookupFailed herr =>
      simp only [herr]
      exact fun t ho _ => ⟨hknown₁.others ho, fun _ _ h => nomatch h⟩

theorem validateNode_served (hknown : Known loc infs real.twinID s)
    (hown : spare → s.Own nodeID) :
    (validateNode real nodeID).Served (registrar spare) Fresh
      (fun a t => Known loc infs real.twinID t ∧
        (spare → a = .ok () → Recorded real nodeID t)) s := by
  refine served_ask_bind.mpr fun s₁ ho₁ hvalid₁ => ⟨trivial, fun r s₂ hget => ?_⟩
  have hknown₁ := hknown.others ho₁
  cases hget with
  | nodeFailed err => exact fun t ho _ => ⟨hknown₁.others ho, fun _ h => nomatch h⟩
  | @node _ _ onRegistrar hnode =>
      by_cases heq : expected real onRegistrar nodeID = onRegistrar
      · simp only [heq, if_true]
        intro t ho _
        refine ⟨hknown₁.others ho, fun hspare _ => ?_⟩
        exact (recorded_of_expected hnode heq).others hspare hknown₁.account ho
      · simp only [heq, if_false]
        refine served_ask_bind.mpr fun s₂ ho₂ hvalid₂ => ⟨trivial, fun r s₃ hupdate => ?_⟩
        have hknown₂ := hknown₁.others ho₂
        cases hupdate with
        | updateFailed err => exact fun t ho _ => ⟨hknown₂.others ho, fun _ h => nomatch h⟩
        | @updated _ _ i node _ rest hnode₂ hacc =>
            have hknown₃ : Known loc infs real.twinID (s₂.put
                ((Gateway.nodeUpdate (expected real onRegistrar nodeID)).apply node rest)) :=
              ⟨hknown₂.fetched, hknown₂.bridge, hknown₂.account⟩
            cases r with
            | some err => exact fun t ho _ => ⟨hknown₃.others ho, fun _ h => nomatch h⟩
            | none =>
                intro t ho _
                refine ⟨hknown₃.others ho, fun hspare _ => ?_⟩
                have htwin : node.twinID = real.twinID :=
                  Option.some.inj (hacc.symm.trans hknown₂.account)
                -- the account has one node, so the update went to the node asked for
                have hid : node.nodeID = nodeID := by
                  rw [hvalid₂.ids i node hnode₂]
                  exact hvalid₂.one i nodeID ⟨node, hnode₂, hacc⟩
                    (ho₂.own hspare (ho₁.own hspare (hown hspare)))
                exact (recorded_of_updated hid htwin).others hspare hknown₃.account ho

/-! ## A registration -/

/-- What the registrar has once a registration has returned. -/
def Settled (env : Env) (info : RegistrationInfo) (nodeID twinID : UInt64) (s : Records) :
    Prop :=
  s.account = some twinID ∧ ∃ loc infs, s.fetched = some loc ∧ s.bridge = some infs ∧
    Recorded (collect env (info.withLocation loc) infs twinID) nodeID s

theorem Settled.others {env : Env} {info : RegistrationInfo}
    (h : Settled env info nodeID twinID s) (hspare : spare) (ho : Others spare s s') :
    Settled env info nodeID twinID s' := by
  obtain ⟨hacc, loc, infs, hfetched, hbridge, hrecorded⟩ := h
  exact ⟨ho.account.trans hacc, loc, infs, ho.fetched.trans hfetched,
    ho.bridge.trans hbridge, hrecorded.others hspare hacc ho⟩

theorem registerNode_served {env : Env} {info : RegistrationInfo}
    (hfetched : s.fetched = some loc) :
    (registerNode env (info.withLocation loc)).Served (registrar spare) Fresh
      (fun a t => spare → ∀ nodeID twinID, a = .ok (nodeID, twinID) →
        Settled env info nodeID twinID t) s := by
  refine served_ask_bind.mpr fun s₁ ho₁ hvalid₁ => ⟨trivial, fun r s₂ hinfs => ?_⟩
  have hfetched₁ := ho₁.fetched.trans hfetched
  cases hinfs with
  | interfacesFailed err => exact fun t _ _ _ _ _ h => nomatch h
  | interfaces infs =>
      refine served_ask_bind.mpr fun s₂ ho₂ hvalid₂ => ⟨trivial, fun r s₃ henv => ?_⟩
      cases henv with
      | environment environment =>
      refine served_ask_bind.mpr fun s₃ ho₃ hvalid₃ => ⟨trivial, fun r s₄ hacc => ?_⟩
      have hfetched₃ : s₃.fetched = some loc :=
        ho₃.fetched.trans (ho₂.fetched.trans hfetched₁)
      have hbridge₃ : s₃.bridge = some infs := ho₃.bridge.trans ho₂.bridge
      have hknown : ∀ twinID, r = .ok twinID → Known loc infs twinID s₄ := by
        intro twinID hr
        cases hacc with
        | account hacc =>
            obtain rfl := Except.ok.inj hr
            exact ⟨hfetched₃, hbridge₃, hacc⟩
        | accountMade _ _ hanswer =>
            obtain rfl := hanswer twinID hr
            exact ⟨hfetched₃, hbridge₃, rfl⟩
        | accountFailed err => exact nomatch hr
      cases r with
      | error err => exact fun t _ _ _ _ _ h => nomatch h
      | ok twinID =>
          refine (ensureNode_served (hknown twinID rfl)).bind fun a s₅ _ hensured => ?_
          obtain ⟨hknown₅, hown⟩ := hensured
          cases a with
          | error err => exact fun t _ _ _ _ _ h => nomatch h
          | ok nodeID =>
              refine (validateNode_served hknown₅ (fun hspare => hown hspare nodeID rfl)).bind
                fun a s₆ _ hvalidated => ?_
              obtain ⟨hknown₆, hrecorded⟩ := hvalidated
              cases a with
              | error err => exact fun t _ _ _ _ _ h => nomatch h
              | ok _ =>
                  intro t ho _ hspare nodeID' twinID' hids
                  obtain ⟨rfl, rfl⟩ := Prod.mk.inj (Except.ok.inj hids)
                  have hknown₇ := hknown₆.others ho
                  exact ⟨hknown₇.account, loc, infs, hknown₇.fetched, hknown₇.bridge,
                    (hrecorded hspare rfl).others hspare hknown₆.account ho⟩

theorem registration_served {env : Env} {info : RegistrationInfo} :
    (registration env info).Served (registrar spare) Fresh
      (fun a t => spare → ∀ nodeID twinID, a = .ok (nodeID, twinID) →
        Settled env info nodeID twinID t) s := by
  refine served_ask_bind.mpr fun s₁ ho₁ hvalid₁ => ⟨trivial, fun r s₂ hfetch => ?_⟩
  cases hfetch with
  | fetchFailed err => exact fun t _ _ _ _ _ h => nomatch h
  | fetched loc =>
      refine (registerNode_served rfl).bind fun a s₃ _ hregistered => ?_
      cases a with
      | error err => exact fun t _ _ _ _ _ h => nomatch h
      | ok ids =>
          intro t ho _ hspare nodeID twinID hids
          obtain rfl := Except.ok.inj hids
          exact (hregistered hspare nodeID twinID rfl).others hspare ho

/-! ## Rounds -/

/-- What a round establishes, if the others leave the node's record alone. -/
def Outcome.Holds (spare : Prop) : Outcome → Records → Prop
  | .registration env info (.ok (nodeID, twinID)), s => spare → Settled env info nodeID twinID s
  | _, _ => True

theorem round_served {p : RegisterM Outcome} (hround : Round p) :
    p.Served (registrar spare) Fresh (Outcome.Holds spare) s := by
  cases hround with
  | registering env info =>
      refine registration_served.bind fun answer s' _ hsettled => ?_
      intro t ho _
      cases answer with
      | error err => trivial
      | ok ids => exact fun hspare => (hsettled hspare ids.1 ids.2 rfl).others hspare ho
  | reactivating =>
      refine served_ask_bind.mpr fun _ _ _ => ⟨trivial, fun _ _ _ => ?_⟩
      refine served_ask_bind.mpr fun _ _ _ => ⟨trivial, fun answer _ _ => ?_⟩
      cases answer with
      | error err => exact fun _ _ _ => trivial
      | ok twinID => exact fun _ _ _ => trivial

theorem client_holds {c : Client registerSig Records Outcome} (hvalid : s.Valid)
    (hrun : Client.Run (registrar spare) Round ⟨s, none⟩ c) :
    Client.Holds (registrar spare) Fresh (Outcome.Holds spare) c :=
  Client.run_holds keeps (fun _ hp _ _ => round_served hp) (.idle hvalid) hrun

/-- Whatever answers get lost, wherever the program dies and whatever becomes of the
nodes there are, the registrar never has two nodes for the account. -/
theorem registers_one_node {c : Client registerSig Records Outcome} (hvalid : s.Valid)
    (hrun : Client.Run (registrar False) Round ⟨s, none⟩ c) : c.state.Single :=
  (client_holds hvalid hrun).inv.one

end

open Quiet in
theorem registers_one_node_again : registered.state.Single :=
  registers_one_node valid run_registered

section

variable [Sdk] {s : Records}

/-- A registration that returns ids leaves the registrar with what was collected for it,
under these ids. -/
theorem registration_recorded {c : Client registerSig Records Outcome} (hvalid : s.Valid)
    (hrun : Client.Run (registrar True) Round ⟨s, none⟩ c) {env : Env}
    {info : RegistrationInfo} {nodeID twinID : UInt64}
    (hround : c.round = some (.ret (.registration env info (.ok (nodeID, twinID))))) :
    Settled env info nodeID twinID c.state :=
  (client_holds hvalid hrun).returned hround trivial

end

open Quiet in
theorem registration_recorded_again : Settled env info 1 7 registered.state :=
  registration_recorded valid run_registered rfl

/-! ## What the goroutine says -/

section

variable [Sdk] {s s' : Records}

/-- The ids that are told are those of a node the registrar has for the account. -/
def Told (state : State) (s : Records) : Prop :=
  state.state = .done → ∃ nodeID twinID : UInt64,
    state = doneState nodeID.toUInt32 twinID.toUInt32 ∧ s.account = some twinID ∧ s.Own nodeID

theorem Told.mono {state : State} (h : Told state s)
    (hacc : ∀ twinID, s.account = some twinID → s'.account = some twinID)
    (hown : ∀ i, s.Own i → s'.Own i) : Told state s' := by
  intro hdone
  obtain ⟨nodeID, twinID, heq, ha, hi⟩ := h hdone
  exact ⟨nodeID, twinID, heq, hacc twinID ha, hown nodeID hi⟩

theorem Told.of_state {state state' : State} (h : Told state s)
    (hstate : state' = state ∨ state'.state = .failed) : Told state' s := by
  rcases hstate with rfl | hfailed
  · exact h
  · intro hdone
    rw [hfailed] at hdone
    exact nomatch hdone

structure Daemon.Sound (d : Daemon) : Prop where
  client : Client.Holds (registrar True) Fresh (Outcome.Holds True) d.client
  told : Told d.sys.state d.client.state

/-- Only the end of a registration says that it is done, and no call, nor anyone else,
takes the node away again. -/
theorem sound_step {d d' : Daemon} (h : d.Sound) (hstep : Daemon.Step True d d') :
    d'.Sound := by
  have hclient : Client.Holds (registrar True) Fresh (Outcome.Holds True) d'.client := by
    rcases hstep.client with heq | hstep
    · rw [heq]
      exact h.client
    · exact Client.step_holds keeps (fun _ hp _ _ => round_served hp) h.client hstep
  refine ⟨hclient, ?_⟩
  cases hstep with
  | act ha _ hact => exact h.told.of_state (step_state ha hact)
  | register env info _ _ => exact h.told
  | reActivate _ _ => exact h.told
  | reply _ hanswer =>
      exact h.told.mono (fun _ hacc => answers_account hacc hanswer)
        (fun _ hi => answers_own h.client.inv hi hanswer)
  | @registered _ _ nodeID twinID _ hround hact =>
      obtain ⟨hacc, _, _, _, _, hrecorded⟩ := h.client.returned hround trivial
      intro _
      exact ⟨nodeID, twinID, step_registered hact, hacc, hrecorded.own hacc⟩
  | failed _ hact => exact h.told.of_state (.inr (step_failed hact))
  | reactivated _ hact => exact h.told.of_state (.inl (step_reactivated hact))
  | others hothers =>
      exact h.told.mono (fun _ hacc => hothers.account.trans hacc)
        (fun _ hi => hothers.own trivial hi)
  | restart => exact fun hdone => nomatch hdone

theorem sound_run {d d' : Daemon} (h : d.Sound) (hrun : Daemon.Run True d d') : d'.Sound := by
  induction hrun with
  | refl => exact h
  | tail _ hstep ih => exact sound_step ih hstep

theorem Daemon.sound_start (hvalid : s.Valid) : (Daemon.start s).Sound :=
  ⟨.idle hvalid, fun hdone => nomatch hdone⟩

/-- Whenever the goroutine says it is done, the ids it tells are those of the one node the
registrar has for the account. -/
theorem done_tells_node {d : Daemon} (hvalid : s.Valid)
    (hrun : Daemon.Run True (.start s) d) (hdone : d.sys.state.state = .done) :
    ∃ nodeID twinID : UInt64, d.sys.state = doneState nodeID.toUInt32 twinID.toUInt32 ∧
      d.client.state.account = some twinID ∧ ∀ i, d.client.state.Own i ↔ i = nodeID := by
  have hsound := sound_run (Daemon.sound_start hvalid) hrun
  obtain ⟨nodeID, twinID, heq, hacc, hown⟩ := hsound.told hdone
  refine ⟨nodeID, twinID, heq, hacc, fun i => ⟨fun hi => ?_, fun hi => hi ▸ hown⟩⟩
  exact hsound.client.inv.one i nodeID hi hown

end

open Quiet in
theorem done_tells_node_again :
    ∃ nodeID twinID : UInt64, done.sys.state = doneState nodeID.toUInt32 twinID.toUInt32 ∧
      done.client.state.account = some twinID ∧ ∀ i, done.client.state.Own i ↔ i = nodeID :=
  done_tells_node valid run_done rfl

end Zos4.Registrar
