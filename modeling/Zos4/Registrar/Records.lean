import Zos4.Interaction.Service
import Zos4.Registrar.Register

/-!
# The registrar, from outside

What the registrar keeps is a map from ids to nodes, of which those that carry the twin
of this node's account are its own. `Answers` is what it does with a call: a call that
asks for a change may be carried out with its answer lost, and any call may fail. The
registrar itself is not trusted to refuse a second node for a twin.

Others register nodes of their own and alter or remove any node there is, but do not
register one for this account. With `spare` they leave this node's record alone.
-/

namespace Zos4.Registrar

open Zos4.Interaction Prog

variable [Sdk]

/-- Beside the records, the last answers of the node's own modules. -/
structure Records where
  account : Option UInt64
  nodes : UInt64 → Option Node
  fetched : Option GeoLocation
  bridge : Option (List (String × Interface))

namespace Records

def put (s : Records) (node : Node) : Records :=
  { s with nodes := fun i => if i = node.nodeID then some node else s.nodes i }

/-- A node of this account. -/
def Own (s : Records) (i : UInt64) : Prop :=
  ∃ node, s.nodes i = some node ∧ s.account = some node.twinID

/-- There is at most one. -/
def Single (s : Records) : Prop := ∀ i j, s.Own i → s.Own j → i = j

structure Valid (s : Records) : Prop where
  ids : ∀ i node, s.nodes i = some node → node.nodeID = i
  one : s.Single

theorem put_same (s : Records) (node : Node) :
    (s.put node).nodes node.nodeID = some node := if_pos rfl

theorem put_other {s : Records} {node : Node} {i : UInt64} (h : i ≠ node.nodeID) :
    (s.put node).nodes i = s.nodes i := if_neg h

theorem put_ids {s : Records} {node : Node}
    (h : ∀ i n, s.nodes i = some n → n.nodeID = i) :
    ∀ i n, (s.put node).nodes i = some n → n.nodeID = i := by
  intro i n hn
  by_cases hi : i = node.nodeID
  · subst hi
    rw [put_same] at hn
    obtain rfl := Option.some.inj hn
    rfl
  · rw [put_other hi] at hn
    exact h i n hn

/-- A node of this account but the one that is put was there before. -/
theorem own_of_put {s : Records} {node : Node} {i : UInt64} (h : (s.put node).Own i) :
    i = node.nodeID ∨ s.Own i := by
  obtain ⟨n, hn, hacc⟩ := h
  by_cases hi : i = node.nodeID
  · exact .inl hi
  · rw [put_other hi] at hn
    exact .inr ⟨n, hn, hacc⟩

end Records

/-- The update as the registrar carries it out. -/
def NodeUpdate.apply (update : NodeUpdate) (node : Node) (rest : Sdk.Rest) : Node :=
  { node with
    farmID := update.farmID
    location := update.location
    resources := update.resources
    interfaces := update.interfaces
    serialNumber := update.serialNumber
    secureBoot := update.secureBoot
    virtualized := update.virtualized
    rest := rest }

inductive Answers : (op : Op) → Records → op.Ret → Records → Prop
  | fetched {s : Records} (loc : GeoLocation) :
      Answers .fetch s (.ok loc) { s with fetched := some loc }
  | fetchFailed {s : Records} (err : String) : Answers .fetch s (.error err) s
  | interfaces {s : Records} (infs : List (String × Interface)) :
      Answers .interfaces s (.ok infs) { s with bridge := some infs }
  | interfacesFailed {s : Records} (err : String) : Answers .interfaces s (.error err) s
  | environment {s : Records} (env : Env) : Answers .environment s env s
  | account {s : Records} {relays : List String} {key : String} {twinID : UInt64} :
      s.account = some twinID → Answers (.ensureAccount relays key) s (.ok twinID) s
  /-- The account is made with a twin no node has, whether or not it is heard of. -/
  | accountMade {s : Records} {relays : List String} {key : String} {twinID : UInt64}
      {answer : Except String UInt64} : s.account = none →
      (∀ i node, s.nodes i = some node → node.twinID ≠ twinID) →
      (∀ id, answer = .ok id → id = twinID) →
      Answers (.ensureAccount relays key) s answer { s with account := some twinID }
  | accountFailed {s : Records} {relays : List String} {key : String} (err : String) :
      Answers (.ensureAccount relays key) s (.error err) s
  | found {s : Records} {i twinID : UInt64} {node : Node} : s.nodes i = some node →
      node.twinID = twinID → Answers (.getNodeByTwinID twinID) s (.ok node) s
  | missing {s : Records} {twinID : UInt64} {err : String} :
      (∀ i node, s.nodes i = some node → node.twinID ≠ twinID) →
      contains err Sdk.errorNodeNotFound = true →
      Answers (.getNodeByTwinID twinID) s (.error err) s
  /-- Only a node that is not there is said not to be found. -/
  | lookupFailed {s : Records} {twinID : UInt64} {err : String} :
      contains err Sdk.errorNodeNotFound = false →
      Answers (.getNodeByTwinID twinID) s (.error err) s
  | node {s : Records} {i : UInt64} {node : Node} : s.nodes i = some node →
      Answers (.getNode i) s (.ok node) s
  | nodeFailed {s : Records} {i : UInt64} (err : String) :
      Answers (.getNode i) s (.error err) s
  | made {s : Records} {node : Node} {i : UInt64} {answer : Except String UInt64}
      (rest : Sdk.Rest) : s.nodes i = none → (∀ id, answer = .ok id → id = i) →
      Answers (.registerNode node) s answer (s.put { node with nodeID := i, rest := rest })
  | makeFailed {s : Records} {node : Node} (err : String) :
      Answers (.registerNode node) s (.error err) s
  | updated {s : Records} {update : NodeUpdate} {i : UInt64} {node : Node}
      {answer : Option String} (rest : Sdk.Rest) : s.nodes i = some node →
      s.account = some node.twinID →
      Answers (.updateNode update) s answer (s.put (update.apply node rest))
  | updateFailed {s : Records} {update : NodeUpdate} (err : String) :
      Answers (.updateNode update) s (some err) s

structure Others (spare : Prop) (s s' : Records) : Prop where
  account : s'.account = s.account
  ids : (∀ i node, s.nodes i = some node → node.nodeID = i) →
    ∀ i node, s'.nodes i = some node → node.nodeID = i
  mine : ∀ i, s'.Own i → s.Own i
  spared : spare → ∀ i, s.Own i → s'.nodes i = s.nodes i
  fetched : s'.fetched = s.fetched
  bridge : s'.bridge = s.bridge

namespace Others

variable {spare : Prop} {a b c : Records}

theorem refl (s : Records) : Others spare s s :=
  ⟨rfl, fun h => h, fun _ h => h, fun _ _ _ => rfl, rfl, rfl⟩

theorem own (h : Others spare a b) (hspare : spare) {i : UInt64} (hi : a.Own i) :
    b.Own i := by
  obtain ⟨node, hnode, hacc⟩ := hi
  exact ⟨node, (h.spared hspare i ⟨node, hnode, hacc⟩).trans hnode, h.account.trans hacc⟩

theorem trans (h : Others spare a b) (h' : Others spare b c) : Others spare a c where
  account := h'.account.trans h.account
  ids hids := h'.ids (h.ids hids)
  mine i hi := h.mine i (h'.mine i hi)
  spared hspare i hi := (h'.spared hspare i (h.own hspare hi)).trans (h.spared hspare i hi)
  fetched := h'.fetched.trans h.fetched
  bridge := h'.bridge.trans h.bridge

end Others

def registrar (spare : Prop) : Service registerSig Records where
  reply := Answers
  others := Others spare
  inv := Records.Valid
  refl := .refl
  trans := .trans

/-- A node is registered for the twin of the account, and only if it has none. -/
def Fresh : Op → Records → Prop
  | .registerNode node, s => s.account = some node.twinID ∧ ∀ i, ¬ s.Own i
  | _, _ => True

/-! ## What an answer keeps -/

section

variable {op : Op} {s s' : Records} {answer : op.Ret}

theorem answers_valid (hvalid : s.Valid) (hfresh : Fresh op s)
    (h : Answers op s answer s') : s'.Valid := by
  cases h with
  | accountMade _ htwin _ =>
      refine ⟨hvalid.ids, fun i j hi _ => ?_⟩
      obtain ⟨node, hnode, hacc⟩ := hi
      exact absurd (Option.some.inj hacc).symm (htwin i node hnode)
  | made rest _ _ =>
      refine ⟨Records.put_ids hvalid.ids, fun i j hi hj => ?_⟩
      rcases Records.own_of_put hi with rfl | hi
      · rcases Records.own_of_put hj with rfl | hj
        · rfl
        · exact absurd hj (hfresh.2 j)
      · exact absurd hi (hfresh.2 i)
  | @updated _ u i node _ rest hnode hacc =>
      have hown : s.Own node.nodeID := by
        rw [hvalid.ids i node hnode]
        exact ⟨node, hnode, hacc⟩
      refine ⟨Records.put_ids hvalid.ids, fun i j hi hj => ?_⟩
      have back : ∀ k, (s.put (u.apply node rest)).Own k → s.Own k := by
        intro k hk
        rcases Records.own_of_put hk with rfl | hk
        · exact hown
        · exact hk
      exact hvalid.one i j (back i hi) (back j hj)
  | _ => exact ⟨hvalid.ids, hvalid.one⟩

theorem answers_account {twinID : UInt64} (hacc : s.account = some twinID)
    (h : Answers op s answer s') : s'.account = some twinID := by
  cases h with
  | accountMade hnone => exact absurd (hnone.symm.trans hacc) (by simp)
  | _ => exact hacc

/-- No answer takes a node of this account away. -/
theorem answers_own {i : UInt64} (hvalid : s.Valid) (hi : s.Own i)
    (h : Answers op s answer s') : s'.Own i := by
  obtain ⟨node, hnode, hacc⟩ := hi
  cases h with
  | accountMade hnone => exact absurd (hnone.symm.trans hacc) (by simp)
  | @made _ _ j _ rest hj _ =>
      have hij : i ≠ j := by
        intro heq
        rw [heq, hj] at hnode
        exact nomatch hnode
      exact ⟨node, (Records.put_other hij).trans hnode, hacc⟩
  | @updated _ u j other _ rest hother hacc' =>
      have hij := hvalid.one i j ⟨node, hnode, hacc⟩ ⟨other, hother, hacc'⟩
      refine ⟨u.apply other rest, ?_, hacc'⟩
      rw [hij, ← hvalid.ids j other hother]
      exact Records.put_same s (u.apply other rest)
  | _ => exact ⟨node, hnode, hacc⟩

end

theorem keeps {spare : Prop} : Client.Keeps (registrar spare) Fresh where
  reply _ _ _ _ hvalid hfresh h := answers_valid hvalid hfresh h
  others _ _ hvalid h :=
    ⟨h.ids hvalid.ids, fun i j hi hj => hvalid.one i j (h.mine i hi) (h.mine j hj)⟩

end Zos4.Registrar
