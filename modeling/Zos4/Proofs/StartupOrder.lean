import Zos4.Order.Ranked
import Zos4.Provision.Options
import Zos4.Provision.Reference

/-!
# The startup order

`sortOperations` sorts by one signed number, the index of a type, negated for a
removal. That it goes through the types in the order of the engine rests on the
indices being those of the order, which the loops of `withStartupOrder` establish
together: `Indexed` is the invariant. Sorting is then grouping, by the types in
reverse for the removals and by the types for all else (`operations_in_order`).
-/

namespace Zos4.Provision

open Zos4.Order

/-! ## Orders and their indices -/

/-- The indices are those of the order, counted from one. -/
def Indexed (order : List WorkloadType) (typeIndex : WorkloadType → Int) : Prop :=
  ∀ (i : Nat) (typ : WorkloadType), order[i]? = some typ ↔ typeIndex typ = i + 1

section

variable {order : List WorkloadType} {typeIndex : WorkloadType → Int} {typ : WorkloadType}

theorem Indexed.snoc (h : Indexed order typeIndex) (htyp : typ ∉ order) :
    Indexed (order ++ [typ]) (Function.update typeIndex typ (order.length + 1)) := by
  intro i typ'
  by_cases heq : typ' = typ
  · subst heq
    rw [Function.update_self, List.getElem?_append]
    split
    · next hi =>
        constructor
        · intro hget
          exact absurd (List.mem_of_getElem? hget) htyp
        · omega
    · next hi =>
        rw [List.getElem?_singleton]
        split <;> simp <;> omega
  · rw [Function.update_of_ne heq, ← h i typ', List.getElem?_append]
    split
    · rfl
    · next hi =>
        rw [List.getElem?_singleton, List.getElem?_eq_none (by omega)]
        split <;> simp [Ne.symm heq]

theorem Indexed.pos (h : Indexed order typeIndex) (htyp : typ ∈ order) :
    0 < typeIndex typ := by
  obtain ⟨i, hi⟩ := List.mem_iff_getElem?.mp htyp
  have := (h i typ).mp hi
  omega

theorem Indexed.inj (h : Indexed order typeIndex) (htyp : typ ∈ order) {typ' : WorkloadType}
    (heq : typeIndex typ' = typeIndex typ) : typ' = typ := by
  obtain ⟨i, hi⟩ := List.mem_iff_getElem?.mp htyp
  have hi' := (h i typ').mpr (heq.trans ((h i typ).mp hi))
  exact Option.some.inj (hi'.symm.trans hi)

/-- Along the order the indices go up. -/
theorem Indexed.pairwise (h : Indexed order typeIndex) :
    order.Pairwise fun typ typ' => typeIndex typ < typeIndex typ' := by
  rw [List.pairwise_iff_getElem]
  intro i j hi hj hij
  have hti := (h i _).mp (List.getElem?_eq_getElem hi)
  have htj := (h j _).mp (List.getElem?_eq_getElem hj)
  omega

end

/-! ## `withStartupOrder` -/

namespace StartupOrder

/-- What the loops keep: the types are in the order or left, and the indices are those
of the order. -/
structure Sound (types : List WorkloadType) (o : StartupOrder) : Prop where
  perm : (o.ordered ++ o.all).Perm types
  indexed : Indexed o.ordered o.typeIndex

variable {types : List WorkloadType} {o : StartupOrder}

theorem foldl_add {l : List WorkloadType} (h : Indexed o.ordered o.typeIndex)
    (hnodup : (o.ordered ++ l).Nodup) :
    (l.foldl add o).ordered = o.ordered ++ l ∧
      Indexed (l.foldl add o).ordered (l.foldl add o).typeIndex := by
  induction l generalizing o with
  | nil => exact ⟨(List.append_nil _).symm, h⟩
  | cons typ l ih =>
      have htyp : typ ∉ o.ordered := by
        intro hmem
        exact (List.nodup_append.mp hnodup).2.2 typ hmem typ List.mem_cons_self rfl
      have hassoc : (o.add typ).ordered ++ l = o.ordered ++ typ :: l := by simp [add]
      have hrest := ih (o := o.add typ) (h.snoc htyp) (hassoc ▸ hnodup)
      rw [hassoc] at hrest
      exact hrest

theorem foldlM_prioritize {order : List WorkloadType} (htypes : types.Nodup)
    (h : o.Sound types) (hnodup : order.Nodup) (hmem : ∀ typ ∈ order, typ ∈ o.all) :
    ∃ o', order.foldlM prioritize o = some o' ∧ o'.Sound types ∧
      o'.ordered = o.ordered ++ order := by
  induction order generalizing o with
  | nil => exact ⟨o, rfl, h, (List.append_nil _).symm⟩
  | cons typ order ih =>
      obtain ⟨hnot, hnodup⟩ := List.nodup_cons.mp hnodup
      have hall := hmem typ List.mem_cons_self
      have htyp : typ ∉ o.ordered := by
        intro hordered
        exact (List.nodup_append.mp (h.perm.nodup_iff.mpr htypes)).2.2 typ hordered typ hall rfl
      have hperm : (o.ordered ++ [typ] ++ o.all.erase typ).Perm types := by
        rw [List.append_assoc]
        exact ((List.perm_cons_erase hall).symm.append_left _).trans h.perm
      have hleft : ∀ typ' ∈ order, typ' ∈ o.all.erase typ := by
        intro typ' htyp'
        have hne : typ' ≠ typ := fun heq => hnot (heq ▸ htyp')
        exact (List.mem_erase_of_ne hne).mpr (hmem typ' (List.mem_cons_of_mem typ htyp'))
      obtain ⟨o', ho', hsound, hordered⟩ :=
        ih (o := { o.add typ with all := o.all.erase typ }) ⟨hperm, h.indexed.snoc htyp⟩
          hnodup hleft
      refine ⟨o', ?_, hsound, ?_⟩
      · rw [List.foldlM_cons, prioritize, if_pos hall]
        exact ho'
      · rw [hordered]
        simp [add]

end StartupOrder

section

variable [GoRuntime] {μ : Type}

/-- An engine whose types have been put in order. -/
structure NativeEngine.Ordered (e : NativeEngine μ) (types order : List WorkloadType) :
    Prop where
  perm : e.order.Perm types
  starts : order <+: e.order
  indexed : Indexed e.order e.typeIndex

theorem applyStartupOrder_ordered {e : NativeEngine μ} {order : List WorkloadType}
    (htypes : e.order.Nodup) (hnone : ∀ typ, e.typeIndex typ = 0)
    (hnodup : order.Nodup) (hmem : ∀ typ ∈ order, typ ∈ e.order) :
    ∃ e', applyStartupOrder order e = some e' ∧ e'.Ordered e.order order := by
  have hstart : (⟨e.order.dedup, [], e.typeIndex⟩ : StartupOrder).Sound e.order := by
    constructor
    · rw [List.dedup_eq_self.mpr htypes]
      rfl
    · intro i typ
      have hi : (0 : Int) ≠ i + 1 := by omega
      simp [hnone, hi]
  obtain ⟨o, ho, hsound, hordered⟩ := StartupOrder.foldlM_prioritize htypes hstart hnodup
    (fun typ htyp => List.mem_dedup.mpr (hmem typ htyp))
  have hrange := GoRuntime.rangeMap_perm o.all
  have hperm : (o.ordered ++ GoRuntime.rangeMap o.all).Perm e.order :=
    (hrange.append_left _).trans hsound.perm
  obtain ⟨hall, hindexed⟩ := StartupOrder.foldl_add hsound.indexed
    (hperm.nodup_iff.mpr htypes)
  refine ⟨_, by rw [applyStartupOrder, ho]; rfl, ?_, ?_, hindexed⟩
  · dsimp only
    rw [hall]
    exact hperm
  · dsimp only
    rw [hall, hordered]
    exact ⟨GoRuntime.rangeMap o.all, rfl⟩

/-! ## `New` -/

theorem apply_other {e : NativeEngine μ} {opt : EngineOption} (h : opt.startupOrder = none) :
    ∃ e', opt.apply e = some e' ∧ e'.order = e.order ∧ e'.typeIndex = e.typeIndex := by
  cases opt with
  | withStartupOrder order => cases h
  | withAPIGateway nodeID => exact ⟨_, rfl, rfl, rfl⟩
  | withRerunAll t => exact ⟨_, rfl, rfl, rfl⟩
  | withCallback => exact ⟨_, rfl, rfl, rfl⟩

theorem apply_others {e : NativeEngine μ} {opts : List EngineOption}
    (h : opts.filterMap EngineOption.startupOrder = []) :
    ∃ e', opts.foldlM EngineOption.apply e = some e' ∧ e'.order = e.order ∧
      e'.typeIndex = e.typeIndex := by
  induction opts generalizing e with
  | nil => exact ⟨e, rfl, rfl, rfl⟩
  | cons opt opts ih =>
      cases hopt : opt.startupOrder with
      | some order => simp [hopt] at h
      | none =>
          rw [List.filterMap_cons_none hopt] at h
          obtain ⟨e', he', horder, hindex⟩ := apply_other (e := e) hopt
          obtain ⟨e'', he'', horder', hindex'⟩ := ih (e := e') h
          refine ⟨e'', ?_, horder'.trans horder, hindex'.trans hindex⟩
          rw [List.foldlM_cons, he']
          exact he''

theorem apply_all {e : NativeEngine μ} {opts : List EngineOption} {order : List WorkloadType}
    (h : opts.filterMap EngineOption.startupOrder = [order])
    (htypes : e.order.Nodup) (hnone : ∀ typ, e.typeIndex typ = 0)
    (hnodup : order.Nodup) (hmem : ∀ typ ∈ order, typ ∈ e.order) :
    ∃ e', opts.foldlM EngineOption.apply e = some e' ∧ e'.Ordered e.order order := by
  induction opts generalizing e with
  | nil => cases h
  | cons opt opts ih =>
      cases hopt : opt.startupOrder with
      | none =>
          rw [List.filterMap_cons_none hopt] at h
          obtain ⟨e', he', horder, hindex⟩ := apply_other (e := e) hopt
          obtain ⟨e'', he'', hordered⟩ := ih (e := e') h (by rwa [horder])
            (by simpa [hindex] using hnone) (by simpa [horder] using hmem)
          refine ⟨e'', ?_, horder ▸ hordered⟩
          rw [List.foldlM_cons, he']
          exact he''
      | some order' =>
          rw [List.filterMap_cons_some hopt] at h
          obtain ⟨rfl, hrest⟩ := List.cons.inj h
          cases opt with
          | withStartupOrder order =>
              obtain rfl := Option.some.inj hopt
              obtain ⟨e', he', hordered⟩ := applyStartupOrder_ordered htypes hnone hnodup hmem
              obtain ⟨e'', he'', horder, hindex⟩ := apply_others (e := e') hrest
              refine ⟨e'', ?_, ?_⟩
              · rw [List.foldlM_cons, EngineOption.apply, he']
                exact he''
              · refine ⟨horder ▸ hordered.perm, horder ▸ hordered.starts, ?_⟩
                rw [horder, hindex]
                exact hordered.indexed
          | withAPIGateway | withRerunAll | withCallback => cases hopt

variable [Registry]

/-- An engine is built, and its types are in order. -/
theorem New_ordered (provisioner : Provisioner μ) {opts : List EngineOption}
    {order : List WorkloadType} (hopts : opts.filterMap EngineOption.startupOrder = [order])
    (hnodup : order.Nodup) (hmem : ∀ typ ∈ order, typ ∈ Registry.types) :
    ∃ e, New provisioner opts = some e ∧ e.Ordered Registry.types order :=
  apply_all hopts Registry.nodup (fun _ => rfl) hnodup hmem

omit [GoRuntime] [Registry] in
/-- Types that could be put first are distinct and were there. -/
theorem mem_of_foldlM_prioritize {o o' : StartupOrder} {order : List WorkloadType}
    (hall : o.all.Nodup) (h : order.foldlM StartupOrder.prioritize o = some o') :
    order.Nodup ∧ ∀ typ ∈ order, typ ∈ o.all := by
  induction order generalizing o with
  | nil => exact ⟨List.nodup_nil, by simp⟩
  | cons typ order ih =>
      rw [List.foldlM_cons, StartupOrder.prioritize] at h
      split at h
      · next htyp =>
          obtain ⟨hnodup, hmem⟩ := ih (hall.erase typ) h
          refine ⟨List.nodup_cons.mpr ⟨fun hin => ?_, hnodup⟩, fun typ' htyp' => ?_⟩
          · exact (hall.mem_erase_iff.mp (hmem typ hin)).1 rfl
          · rcases List.mem_cons.mp htyp' with heq | hrest
            · exact heq ▸ htyp
            · exact List.mem_of_mem_erase (hmem typ' hrest)
      · cases h

omit [Registry] in
theorem mem_of_apply_all {e e' : NativeEngine μ} {opts : List EngineOption}
    {order : List WorkloadType} (h : opts.foldlM EngineOption.apply e = some e')
    (hopts : opts.filterMap EngineOption.startupOrder = [order]) :
    order.Nodup ∧ ∀ typ ∈ order, typ ∈ e.order := by
  induction opts generalizing e with
  | nil => cases hopts
  | cons opt opts ih =>
      rw [List.foldlM_cons] at h
      cases hopt : opt.startupOrder with
      | none =>
          rw [List.filterMap_cons_none hopt] at hopts
          obtain ⟨e₁, he₁, horder, -⟩ := apply_other (e := e) hopt
          rw [he₁] at h
          exact horder ▸ ih h hopts
      | some order' =>
          rw [List.filterMap_cons_some hopt] at hopts
          obtain ⟨rfl, -⟩ := List.cons.inj hopts
          cases opt with
          | withStartupOrder order =>
              obtain rfl := Option.some.inj hopt
              rw [EngineOption.apply, applyStartupOrder] at h
              cases ho : order.foldlM StartupOrder.prioritize ⟨e.order.dedup, [], e.typeIndex⟩ with
              | none => simp [ho] at h
              | some o =>
                  obtain ⟨hnodup, hmem⟩ := mem_of_foldlM_prioritize (List.nodup_dedup _) ho
                  exact ⟨hnodup, fun typ htyp => List.mem_dedup.mp (hmem typ htyp)⟩
          | withAPIGateway | withRerunAll | withCallback => cases hopt

/-- Every engine that comes about has its types in order. -/
theorem ordered_of_New {provisioner : Provisioner μ} {opts : List EngineOption}
    {order : List WorkloadType} {e : NativeEngine μ} (he : New provisioner opts = some e)
    (hopts : opts.filterMap EngineOption.startupOrder = [order]) :
    e.Ordered Registry.types order := by
  obtain ⟨hnodup, hmem⟩ := mem_of_apply_all he hopts
  obtain ⟨e', he', hordered⟩ := New_ordered provisioner hopts hnodup hmem
  exact Option.some.inj (he.symm.trans he') ▸ hordered

/-! ## The order of the operations -/

def isRemoval (op : UpgradeOp) : Bool := op.op == .opRemove

def opType (op : UpgradeOp) : WorkloadType := op.wlID.workload.type

/-- The removals of each type, types in reverse, and all else of each type, types in
order; both in the order they come in. -/
def staged (order : List WorkloadType) (ops : List UpgradeOp) : List UpgradeOp :=
  grouped opType order.reverse (ops.filter isRemoval) ++
    grouped opType order (ops.filter fun op => !isRemoval op)

section

omit [GoRuntime] [Registry]

variable {e : NativeEngine μ}

theorem opMap_eq (op : UpgradeOp) :
    opMap e op = if isRemoval op then -e.typeIndex (opType op) else e.typeIndex (opType op) := by
  simp [opMap, isRemoval, opType]

theorem opMap_removal (h : Indexed e.order e.typeIndex) {op : UpgradeOp}
    (hop : opType op ∈ e.order) {typ : WorkloadType} (htyp : typ ∈ e.order) :
    opMap e op = -e.typeIndex typ ↔ opType op = typ ∧ isRemoval op = true := by
  have hpos := h.pos htyp
  have hpos' := h.pos hop
  rw [opMap_eq]
  split
  · next hremoval =>
      refine ⟨fun heq => ⟨h.inj htyp (by omega), hremoval⟩, fun heq => by rw [heq.1]⟩
  · next hremoval =>
      exact ⟨fun heq => by omega, fun heq => absurd heq.2 hremoval⟩

theorem opMap_other (h : Indexed e.order e.typeIndex) {op : UpgradeOp}
    (hop : opType op ∈ e.order) {typ : WorkloadType} (htyp : typ ∈ e.order) :
    opMap e op = e.typeIndex typ ↔ opType op = typ ∧ (!isRemoval op) = true := by
  have hpos := h.pos htyp
  have hpos' := h.pos hop
  rw [opMap_eq]
  split
  · next hremoval =>
      exact ⟨fun heq => by omega, fun heq => by simp [hremoval] at heq⟩
  · next hremoval =>
      refine ⟨fun heq => ⟨h.inj htyp heq, by simpa using hremoval⟩, fun heq => by rw [heq.1]⟩

/-- The ranks, from the removals of the last type to all else of the last type. -/
def opRanks (e : NativeEngine μ) : List Int :=
  e.order.reverse.map (fun typ => -e.typeIndex typ) ++ e.order.map e.typeIndex

theorem opRanks_pairwise (h : Indexed e.order e.typeIndex) :
    (opRanks e).Pairwise (· < ·) := by
  rw [opRanks, List.pairwise_append, List.pairwise_map, List.pairwise_map,
    List.pairwise_reverse]
  refine ⟨h.pairwise.imp fun hlt => by omega, h.pairwise, ?_⟩
  intro r hr r' hr'
  obtain ⟨typ, htyp, rfl⟩ := List.mem_map.mp hr
  obtain ⟨typ', htyp', rfl⟩ := List.mem_map.mp hr'
  have hpos := h.pos (List.mem_reverse.mp htyp)
  have hpos' := h.pos htyp'
  omega

theorem sortOperations_staged (h : Indexed e.order e.typeIndex)
    {ops : List UpgradeOp} (hops : ∀ op ∈ ops, opType op ∈ e.order) :
    sortOperations e ops = staged e.order ops := by
  have hrank : ∀ op ∈ ops, opMap e op ∈ opRanks e := by
    intro op hop
    have htyp := hops op hop
    rw [opRanks, opMap_eq, List.mem_append]
    split
    · exact .inl (List.mem_map.mpr ⟨_, List.mem_reverse.mpr htyp, rfl⟩)
    · exact .inr (List.mem_map_of_mem htyp)
  have hsort : sortOperations e ops = grouped (opMap e) (opRanks e) ops :=
    insertionSort_ranked (opRanks_pairwise h) hrank
  rw [hsort, opRanks, grouped_append, staged]
  simp only [grouped, List.flatMap_map, List.filter_filter]
  congr 1
  · refine List.flatMap_congr fun typ htyp => List.filter_congr fun op hop => ?_
    have hiff := opMap_removal h (hops op hop) (List.mem_reverse.mp htyp)
    simp only [hiff, Bool.decide_and, Bool.decide_eq_true]
  · refine List.flatMap_congr fun typ htyp => List.filter_congr fun op hop => ?_
    have hiff := opMap_other h (hops op hop) htyp
    simp only [hiff, Bool.decide_and, Bool.decide_eq_true]

end

/-- The types of an engine are the registered ones, those asked for first, its indices
are those of this order, and operations on them are sorted by it: the removals against
it, then all else along it. -/
theorem operations_in_order (provisioner : Provisioner μ) {opts : List EngineOption}
    {order : List WorkloadType} (hopts : opts.filterMap EngineOption.startupOrder = [order])
    (hnodup : order.Nodup) (hmem : ∀ typ ∈ order, typ ∈ Registry.types) :
    ∃ e, New provisioner opts = some e ∧ e.order.Perm Registry.types ∧ order <+: e.order ∧
      Indexed e.order e.typeIndex ∧
      ∀ ops : List UpgradeOp, (∀ op ∈ ops, opType op ∈ Registry.types) →
        (sortOperations e ops).Perm ops ∧ sortOperations e ops = staged e.order ops := by
  obtain ⟨e, he, hordered⟩ := New_ordered provisioner hopts hnodup hmem
  refine ⟨e, he, hordered.perm, hordered.starts, hordered.indexed, fun ops hops => ?_⟩
  refine ⟨List.perm_insertionSort _ ops, ?_⟩
  exact sortOperations_staged hordered.indexed fun op hop =>
    hordered.perm.mem_iff.mpr (hops op hop)

end

/-! ## A registry -/

instance (priority := low) Reference.registry : Registry where
  types := [.zlogs, .zmachine, .networkLight, .volume, .zmount]
  nodup := by decide

theorem operations_in_order_mounts :
    ∃ e, New (mapProvisioner fun _ => some Reference.manager)
        [.withCallback, .withStartupOrder [.zmount, .volume], .withRerunAll true] = some e ∧
      e.order.Perm Registry.types ∧ [.zmount, .volume] <+: e.order ∧
      Indexed e.order e.typeIndex ∧
      ∀ ops : List UpgradeOp, (∀ op ∈ ops, opType op ∈ Registry.types) →
        (sortOperations e ops).Perm ops ∧ sortOperations e ops = staged e.order ops :=
  operations_in_order _ rfl (by decide) (by decide)

end Zos4.Provision
