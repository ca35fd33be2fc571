import Mathlib.Data.List.Infix
import Zos4.Interaction.Prog
import Zos4.Provisiond.CapacitySetter

/-!
# Registering the node

`register.go`, over the gateway of `registrar_gateway.go`: what is known of the node is
put in one record, the record the registrar has for the node's twin is looked up or made,
and it is updated if it says anything else.

Calls leave the program for the node's own modules and for the client of the registrar.
An error is its text, as `errors.Wrap` builds it: `registerNode` reads one of these texts
to tell a node that is not there from a registrar that cannot be asked.
-/

namespace Zos4.Registrar

open Zos4.Interaction Prog
open Zos4.Provisiond (Capacity)

/-- What the program takes from other packages. -/
class Sdk where
  /-- `float64`, and its text. -/
  Coordinate : Type
  sprint : Coordinate → String
  /-- The fields of `client.Node` that the node does not know of, and their zero. -/
  Rest : Type
  decEq : DecidableEq Rest
  zero : Rest
  errorNodeNotFound : String

instance [Sdk] : DecidableEq Sdk.Rest := Sdk.decEq

variable [Sdk]

/-! ## What is known of the node -/

/-- `geoip.Location`. -/
structure GeoLocation where
  longitude : Sdk.Coordinate
  latitude : Sdk.Coordinate
  country : String
  city : String

structure RegistrationInfo where
  capacity : Capacity
  location : GeoLocation
  secureBoot : Bool
  virtualized : Bool
  serialNumber : String

def RegistrationInfo.withLocation (info : RegistrationInfo) (location : GeoLocation) :
    RegistrationInfo :=
  { info with location := location }

structure Env where
  farmID : UInt32
  relaysURLs : List String

/-- `client.Interface`, and what the network module says of one of its own: an address
is its text. -/
structure Interface where
  name : String
  mac : String
  ips : List String
  deriving DecidableEq

def Interface.zero : Interface := ⟨"", "", []⟩

/-- `infs.Interfaces["zos"]`. -/
def zosInterface (infs : List (String × Interface)) : Interface :=
  (infs.lookup "zos").getD .zero

/-! ## What the registrar keeps -/

/-- `client.Resources`. -/
structure Resources where
  hru : UInt64
  sru : UInt64
  cru : UInt64
  mru : UInt64
  deriving DecidableEq

/-- `client.Location`. -/
structure Location where
  longitude : String
  latitude : String
  country : String
  city : String
  deriving DecidableEq

structure Node where
  nodeID : UInt64
  farmID : UInt64
  twinID : UInt64
  resources : Resources
  location : Location
  interfaces : List Interface
  secureBoot : Bool
  virtualized : Bool
  serialNumber : String
  rest : Sdk.Rest
  deriving DecidableEq

structure NodeUpdate where
  farmID : UInt64
  location : Location
  resources : Resources
  interfaces : List Interface
  serialNumber : String
  secureBoot : Bool
  virtualized : Bool

/-- The record of the node but for its id, which is not known yet. -/
def collect (env : Env) (info : RegistrationInfo) (infs : List (String × Interface))
    (twinID : UInt64) : Node where
  nodeID := 0
  farmID := env.farmID.toUInt64
  twinID := twinID
  resources :=
    { hru := info.capacity.hru
      sru := info.capacity.sru
      cru := info.capacity.cru
      mru := info.capacity.mru }
  location :=
    { longitude := Sdk.sprint info.location.longitude
      latitude := Sdk.sprint info.location.latitude
      country := info.location.country
      city := info.location.city }
  interfaces := [zosInterface infs]
  secureBoot := info.secureBoot
  virtualized := info.virtualized
  serialNumber := info.serialNumber
  rest := Sdk.zero

/-! ## Calls -/

inductive Op where
  /-- `geoip.Fetch` and `Interfaces` of the network module. -/
  | fetch
  | interfaces
  /-- `environment.MustGet`. -/
  | environment
  | ensureAccount (relays : List String) (rmbEncKey : String)
  | getNode (id : UInt64)
  | getNodeByTwinID (twinID : UInt64)
  | registerNode (node : Node)
  | updateNode (update : NodeUpdate)

def Op.Ret : Op → Type
  | .fetch => Except String GeoLocation
  | .interfaces => Except String (List (String × Interface))
  | .environment => Env
  | .ensureAccount _ _ => Except String UInt64
  | .getNode _ => Except String Node
  | .getNodeByTwinID _ => Except String Node
  | .registerNode _ => Except String UInt64
  | .updateNode _ => Option String

abbrev registerSig : Sig := ⟨Op, Op.Ret⟩

abbrev RegisterM := Prog registerSig

abbrev ask (op : Op) : RegisterM op.Ret := @perform registerSig op

/-! ## The gateway -/

namespace Gateway

/-- The twin of the account. -/
def ensureAccount (relays : List String) (rmbEncKey : String) :
    RegisterM (Except String UInt64) :=
  ask (.ensureAccount relays rmbEncKey)

def getNode (id : UInt64) : RegisterM (Except String Node) := ask (.getNode id)

def getNodeByTwinID (twinID : UInt64) : RegisterM (Except String Node) :=
  ask (.getNodeByTwinID twinID)

def createNode (node : Node) : RegisterM (Except String UInt64) := ask (.registerNode node)

def nodeUpdate (node : Node) : NodeUpdate where
  farmID := node.farmID
  location := node.location
  resources := node.resources
  interfaces := node.interfaces
  serialNumber := node.serialNumber
  secureBoot := node.secureBoot
  virtualized := node.virtualized

def updateNode (node : Node) : RegisterM (Option String) :=
  ask (.updateNode (nodeUpdate node))

end Gateway

/-! ## `registerNode` -/

/-- `errors.Wrap`. -/
def wrap (err msg : String) : String := msg ++ ": " ++ err

/-- `strings.Contains`. -/
def contains (s substr : String) : Bool := decide (substr.toList <:+: s.toList)

/-- The id of the node the twin has on the registrar, which is made if there is none. -/
def ensureNode (real : Node) : RegisterM (Except String UInt64) := do
  match ← Gateway.getNodeByTwinID real.twinID with
  | .ok node => pure (.ok node.nodeID)
  | .error regErr =>
      if contains regErr Sdk.errorNodeNotFound then
        match ← Gateway.createNode real with
        | .ok nodeID => pure (.ok nodeID)
        | .error err => pure (.error (wrap err "failed to create node on registrar"))
      else
        pure (.error (wrap regErr
          ("failed to get node information for twin id: " ++ toString real.twinID)))

/-- What the node should look like, next to what the registrar has. -/
def expected (real onRegistrar : Node) (nodeID : UInt64) : Node :=
  -- a node marked as real on the registrar stays so, whatever virt-what finds
  { real with
    virtualized := real.virtualized && onRegistrar.virtualized
    nodeID := nodeID }

/-- The record is updated if it is not what it should be. -/
def validateNode (real : Node) (nodeID : UInt64) : RegisterM (Except String Unit) := do
  match ← Gateway.getNode nodeID with
  | .error err => pure (.error (wrap err ("failed to get node with id: " ++ toString nodeID)))
  | .ok onRegistrar =>
      if expected real onRegistrar nodeID = onRegistrar then pure (.ok ())
      else
        match ← Gateway.updateNode (expected real onRegistrar nodeID) with
        | some err =>
            pure (.error (wrap err
              ("failed to update node data with id: " ++ toString nodeID)))
        | none => pure (.ok ())

def registerNode (env : Env) (info : RegistrationInfo) :
    RegisterM (Except String (UInt64 × UInt64)) := do
  match ← ask .interfaces with
  | .error err => pure (.error (wrap err "failed to get zos bridge information"))
  | .ok infs =>
      let environment ← ask .environment
      match ← Gateway.ensureAccount environment.relaysURLs "" with
      | .error err => pure (.error (wrap err "failed to ensure account"))
      | .ok twinID =>
          let real := collect env info infs twinID
          match ← ensureNode real with
          | .error err => pure (.error err)
          | .ok nodeID =>
              match ← validateNode real nodeID with
              | .error err => pure (.error err)
              | .ok () => pure (.ok (nodeID, twinID))

/-- `registration`. -/
def registration (env : Env) (info : RegistrationInfo) :
    RegisterM (Except String (UInt64 × UInt64)) := do
  match ← ask .fetch with
  | .error err => pure (.error (wrap err "fetch location"))
  | .ok loc =>
      match ← registerNode env (info.withLocation loc) with
      | .error err => pure (.error (wrap err "failed to register node"))
      | .ok ids => pure (.ok ids)

/-- What the loop does between two registrations. -/
def reActivate : RegisterM (Option String) := do
  let environment ← ask .environment
  match ← Gateway.ensureAccount environment.relaysURLs "" with
  | .ok _ => pure none
  | .error err => pure (some err)

end Zos4.Registrar
