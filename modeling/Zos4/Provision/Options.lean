import Mathlib.Data.List.Dedup
import Mathlib.Logic.Function.Basic
import Zos4.Provision.Engine

/-!
# Building an engine

`New` and the options it applies, up to where the job queue is opened. The engine
starts out with the registered types in the order `gridtypes.Types()` has them, and
`withStartupOrder` puts some of them first. The others it takes from a map, in
whatever order that is ranged over. An option that panics is one that returns none.
The keys of twins and admins, which only the signature checks read, are left out.
-/

namespace Zos4.Provision

/-- `gridtypes.Types()`: the keys of the registry. -/
class Registry where
  types : List WorkloadType
  nodup : types.Nodup

variable [GoRuntime] {μ : Type}

/-! ## `withStartupOrder` -/

/-- The variables of `apply`: the types that are not in the order yet, the order so
far, and the indices. -/
structure StartupOrder where
  all : List WorkloadType
  ordered : List WorkloadType
  typeIndex : WorkloadType → Int

def StartupOrder.add (o : StartupOrder) (typ : WorkloadType) : StartupOrder :=
  { o with
    ordered := o.ordered ++ [typ]
    typeIndex := Function.update o.typeIndex typ (o.ordered.length + 1) }

/-- One turn of the first loop. -/
def StartupOrder.prioritize (o : StartupOrder) (typ : WorkloadType) : Option StartupOrder :=
  if typ ∈ o.all then some { o.add typ with all := o.all.erase typ } else none

def applyStartupOrder (order : List WorkloadType) (e : NativeEngine μ) :
    Option (NativeEngine μ) := do
  let o ← order.foldlM StartupOrder.prioritize ⟨e.order.dedup, [], e.typeIndex⟩
  let o := (GoRuntime.rangeMap o.all).foldl StartupOrder.add o
  pure { e with order := o.ordered, typeIndex := o.typeIndex }

/-! ## `New` -/

inductive EngineOption where
  | withAPIGateway (nodeID : UInt64)
  | withStartupOrder (order : List WorkloadType)
  | withRerunAll (t : Bool)
  | withCallback

def EngineOption.apply (e : NativeEngine μ) : EngineOption → Option (NativeEngine μ)
  | .withAPIGateway nodeID => some { e with nodeID := nodeID, registrarGateway := true }
  | .withStartupOrder order => applyStartupOrder order e
  | .withRerunAll t => some { e with rerunAll := t }
  | .withCallback => some { e with callback := true }

def New [Registry] (provisioner : Provisioner μ) (opts : List EngineOption) :
    Option (NativeEngine μ) :=
  opts.foldlM EngineOption.apply
    { provisioner := provisioner
      order := Registry.types
      typeIndex := fun _ => 0
      rerunAll := false
      nodeID := 0
      registrarGateway := false
      callback := false }

/-- The order an option asks for. -/
def EngineOption.startupOrder : EngineOption → Option (List WorkloadType)
  | .withStartupOrder order => some order
  | _ => none

end Zos4.Provision
