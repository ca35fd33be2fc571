import Mathlib.Data.UInt
import Zos4.Provision.Reference
import Zos4.Provisiond.Reporter

/-!
# What a report says

`report` folds the counters into a map from contracts to what they consumed. Whatever
order the counters come in, the map holds for each contract the sum of its counters
(`addCounter_nru` is one turn of the loop), and what is enqueued are its entries that
are not zero. The window is the same in all of them: the seconds that went by, if the
clock went forward. A clock that was set back by a second or more makes the duration
negative, and the conversion to an unsigned number wraps it around
(`report_accounted_iff`).
-/

namespace Zos4.Provisiond

open Zos4.Interaction Prog
open Zos4.Provision (GoRuntime)

/-! ## Numbers -/

theorem u64_toNat {i : Int} (h : 0 ≤ i) (hlt : i < 2 ^ 64) : ((u64 i).toNat : Int) = i := by
  rw [u64, UInt64.toNat_ofNat', Int.emod_eq_of_lt h hlt, Nat.mod_eq_of_lt (by omega)]
  omega

/-- The whole-number part of a counter. -/
def wholePart (v : Rat) : Nat := (v.num.tdiv v.den).toNat

theorem u64OfCounter_toNat {v : Rat} (h : 0 ≤ v) (hlt : wholePart v < 2 ^ 64) :
    (u64OfCounter v).toNat = wholePart v := by
  have hnum : 0 ≤ v.num.tdiv v.den :=
    Int.tdiv_nonneg (Rat.num_nonneg.mpr h) (Int.natCast_nonneg _)
  have hwhole : v.num.tdiv v.den < 2 ^ 64 := by
    rw [wholePart] at hlt
    omega
  have hnat := u64_toNat hnum hwhole
  rw [u64OfCounter, wholePart]
  omega

/-- The window of a report, as it is counted. -/
def reportWindow (since now : Time) : UInt64 := u64 ((timeSub now since).tdiv second)

/-- The seconds between two times, towards zero. -/
def wholeSeconds (since now : Time) : Int := (now - since).tdiv second

/-- The clock was not set back by a second, and is not past what a duration can hold. -/
def Elapsed (since now : Time) : Prop :=
  -second < now - since ∧ now - since < 9223372037 * second

theorem tdiv_second (d : Int) : d.tdiv second =
    if 0 ≤ d then d / 1000000000 else -(-d / 1000000000) := by
  rw [second]
  split
  · next h => exact Int.tdiv_eq_ediv_of_nonneg h
  · next h =>
      have hneg := Int.neg_tdiv (-d) 1000000000
      rw [neg_neg] at hneg
      rw [hneg, Int.tdiv_eq_ediv_of_nonneg (by omega)]

/-- A difference that saturates, in seconds and taken as an unsigned number. -/
theorem unsigned_seconds_iff (d : Int) :
    (max (-2 ^ 63) (min (2 ^ 63 - 1) d)).tdiv second % 2 ^ 64 = d.tdiv second ↔
      -second < d ∧ d < 9223372037 * second := by
  by_cases hhigh : 2 ^ 63 - 1 ≤ d
  · have hsaturated : ((2 : Int) ^ 63 - 1).tdiv second % 2 ^ 64 = 9223372036 := by decide
    rw [min_eq_left hhigh, max_eq_right (by decide), tdiv_second d, if_pos (by omega),
      hsaturated, second]
    omega
  · rw [min_eq_right (by omega)]
    by_cases hlow : d ≤ -2 ^ 63
    · have hsaturated : (-(2 : Int) ^ 63).tdiv second % 2 ^ 64 = 18446744064486179580 := by
        decide
      rw [max_eq_left hlow, tdiv_second d, if_neg (by omega), hsaturated, second]
      omega
    · rw [max_eq_right (by omega), tdiv_second d, second]
      split <;> omega

theorem reportWindow_iff (since now : Time) :
    ((reportWindow since now).toNat : Int) = wholeSeconds since now ↔ Elapsed since now := by
  have hunsigned : ((reportWindow since now).toNat : Int) =
      (timeSub now since).tdiv second % 2 ^ 64 := by
    rw [reportWindow, u64, UInt64.toNat_ofNat']
    omega
  rw [hunsigned]
  exact unsigned_seconds_iff (now - since)

/-! ## The map of the reports -/

theorem lookup_filter_ne {m : ReportMap} {id id' : ContractID} (h : id' ≠ id) :
    List.lookup id' (m.filter fun entry => entry.1 ≠ id) = m.lookup id' := by
  induction m with
  | nil => rfl
  | cons entry m ih =>
      by_cases hentry : entry.1 = id
      · have hother : (id' == entry.1) = false := by simp [hentry, h]
        rw [List.filter_cons_of_neg (by simpa using hentry), ih, List.lookup_cons, hother]
      · rw [List.filter_cons_of_pos (by simpa using hentry), List.lookup_cons,
          List.lookup_cons, ih]

theorem ReportMap.lookup_set (m : ReportMap) (id id' : ContractID) (rep : NruConsumption) :
    (m.set id rep).lookup id' = if id' = id then some rep else m.lookup id' := by
  rw [ReportMap.set, List.lookup_cons]
  by_cases h : id' = id
  · simp [h]
  · rw [if_neg h, beq_false_of_ne h]
    exact lookup_filter_ne h

/-- What the map holds for a contract. -/
def ReportMap.nru (m : ReportMap) (id : ContractID) : Nat :=
  match m.lookup id with
  | none => 0
  | some rep => rep.nru.toNat

/-- Every contract has one entry, its own, and the entries share the window. -/
structure ReportMap.Sound (since now : Time) (m : ReportMap) : Prop where
  keys : (m.map (·.1)).Nodup
  own : ∀ entry ∈ m, entry.2.contractID = entry.1
  window : ∀ entry ∈ m, entry.2.window = reportWindow since now

variable {since now : Time} {m : ReportMap}

theorem ReportMap.Sound.set (h : m.Sound since now) {id : ContractID} {rep : NruConsumption}
    (hown : rep.contractID = id) (hwindow : rep.window = reportWindow since now) :
    (m.set id rep).Sound since now where
  keys := by
    rw [ReportMap.set, List.map_cons, List.nodup_cons]
    constructor
    · intro hmem
      obtain ⟨entry, hentry, heq⟩ := List.mem_map.mp hmem
      exact absurd heq (by simpa using (List.mem_filter.mp hentry).2)
    · exact h.keys.sublist (List.filter_sublist.map _)
  own entry hentry := by
    rcases List.mem_cons.mp hentry with rfl | hmem
    · exact hown
    · exact h.own entry (List.mem_filter.mp hmem).1
  window entry hentry := by
    rcases List.mem_cons.mp hentry with rfl | hmem
    · exact hwindow
    · exact h.window entry (List.mem_filter.mp hmem).1

theorem ReportMap.mem_of_lookup {id : ContractID} {rep : NruConsumption}
    (h : m.lookup id = some rep) : (id, rep) ∈ m := by
  obtain ⟨front, rest, rfl, -⟩ := List.lookup_eq_some_iff.mp h
  simp

theorem ReportMap.Sound.lookup_of_mem (h : m.Sound since now)
    {entry : ContractID × NruConsumption} (hentry : entry ∈ m) :
    m.lookup entry.1 = some entry.2 := by
  have hkeys := h.keys
  clear h
  induction m with
  | nil => cases hentry
  | cons entry' m ih =>
      obtain ⟨hnot, hkeys⟩ := List.nodup_cons.mp hkeys
      rw [List.lookup_cons]
      rcases List.mem_cons.mp hentry with rfl | hmem
      · simp
      · have hne : entry.1 ≠ entry'.1 := fun heq =>
          hnot (List.mem_map.mpr ⟨entry, hmem, heq⟩)
        rw [beq_false_of_ne hne]
        exact ih hmem hkeys

/-- The entry of a contract, as the loop takes it up. -/
theorem ReportMap.Sound.lookup (h : m.Sound since now) {id : ContractID}
    {rep : NruConsumption} (hrep : m.lookup id = some rep) :
    rep.contractID = id ∧ rep.window = reportWindow since now :=
  ⟨h.own _ (mem_of_lookup hrep), h.window _ (mem_of_lookup hrep)⟩

/-! ## The counters of a contract -/

section

variable [KeyParts]

/-- The contract a key parses to. -/
def contractOf (key : String) : Option ContractID := (KeyParts.parts key).toOption

/-- What a counter adds to a contract. -/
def share (id : ContractID) (counter : String × Rat) : Nat :=
  if contractOf counter.1 = some id then wholePart counter.2 else 0

/-- The sum of the whole-number parts of the contract's counters. -/
def consumed (values : List (String × Rat)) (id : ContractID) : Nat :=
  (values.map (share id)).sum

@[simp] theorem consumed_nil (id : ContractID) : consumed [] id = 0 := rfl

@[simp] theorem consumed_cons (counter : String × Rat) (values : List (String × Rat))
    (id : ContractID) :
    consumed (counter :: values) id = share id counter + consumed values id := by
  simp [consumed]

theorem consumed_perm {values values' : List (String × Rat)} (h : values.Perm values')
    (id : ContractID) : consumed values id = consumed values' id :=
  (h.map _).sum_nat

/-! ## The loop -/

/-- The report of a contract before its first counter. -/
def emptyReport (since now : Time) (deployment : ContractID) : NruConsumption where
  contractID := deployment
  timestamp := u64 (unix now)
  window := reportWindow since now
  nru := 0

omit [KeyParts] in
/-- The report of a contract, as a turn of the loop takes it up. -/
theorem ReportMap.Sound.taken (h : m.Sound since now) (deployment : ContractID) :
    ((m.lookup deployment).getD (emptyReport since now deployment)).contractID = deployment ∧
      ((m.lookup deployment).getD (emptyReport since now deployment)).window =
        reportWindow since now ∧
      ((m.lookup deployment).getD (emptyReport since now deployment)).nru.toNat =
        m.nru deployment := by
  cases hrep : m.lookup deployment with
  | none => exact ⟨rfl, rfl, by simp [ReportMap.nru, hrep, emptyReport]⟩
  | some rep =>
      obtain ⟨hown, hwindow⟩ := h.lookup hrep
      exact ⟨hown, hwindow, by simp [ReportMap.nru, hrep]⟩

theorem addCounter_contract {counter : String × Rat} {deployment : ContractID}
    (hkey : contractOf lastReportedKey = none)
    (hcontract : contractOf counter.1 = some deployment) :
    addCounter since now m counter =
      m.set deployment
        { (m.lookup deployment).getD (emptyReport since now deployment) with
          nru := ((m.lookup deployment).getD (emptyReport since now deployment)).nru +
            u64OfCounter counter.2 } := by
  have hreserved : counter.1 ≠ lastReportedKey := by
    intro heq
    rw [heq, hkey] at hcontract
    cases hcontract
  rw [addCounter, if_neg hreserved]
  rw [contractOf] at hcontract
  split
  · next err herr =>
      rw [herr] at hcontract
      cases hcontract
  · next deployment' hdeployment =>
      rw [hdeployment] at hcontract
      obtain rfl := Option.some.inj hcontract
      rfl

theorem addCounter_other {counter : String × Rat} (hcontract : contractOf counter.1 = none) :
    addCounter since now m counter = m := by
  rw [addCounter]
  split
  · rfl
  · split
    · rfl
    · next deployment hdeployment =>
        rw [contractOf, hdeployment] at hcontract
        cases hcontract

/-- One turn: the contract of the counter gets its share, the others nothing. -/
theorem addCounter_nru (hkey : contractOf lastReportedKey = none) (h : m.Sound since now)
    {counter : String × Rat} (hnonneg : 0 ≤ counter.2)
    (hbound : ∀ id, m.nru id + share id counter < 2 ^ 64) :
    (addCounter since now m counter).Sound since now ∧
      ∀ id, (addCounter since now m counter).nru id = m.nru id + share id counter := by
  cases hcontract : contractOf counter.1 with
  | none =>
      rw [addCounter_other hcontract]
      exact ⟨h, fun id => by simp [share, hcontract]⟩
  | some deployment =>
      obtain ⟨hown, hwindow, hnru⟩ := h.taken deployment
      have hshare : share deployment counter = wholePart counter.2 := by
        rw [share, if_pos hcontract]
      have hsum := hbound deployment
      have hpart := u64OfCounter_toNat hnonneg (by omega)
      rw [addCounter_contract hkey hcontract]
      refine ⟨h.set hown hwindow, fun id => ?_⟩
      rw [ReportMap.nru, ReportMap.lookup_set]
      by_cases hid : id = deployment
      · subst hid
        rw [if_pos rfl]
        dsimp only
        rw [UInt64.toNat_add, hnru, hpart, ← hshare, Nat.mod_eq_of_lt hsum]
      · have hnone : share id counter = 0 := by
          rw [share, hcontract, if_neg (by simpa using Ne.symm hid)]
        rw [if_neg hid, hnone]
        rfl

/-- The whole loop. -/
theorem foldl_addCounter (hkey : contractOf lastReportedKey = none) (h : m.Sound since now)
    {values : List (String × Rat)} (hnonneg : ∀ counter ∈ values, 0 ≤ counter.2)
    (hbound : ∀ id, m.nru id + consumed values id < 2 ^ 64) :
    (values.foldl (addCounter since now) m).Sound since now ∧
      ∀ id, (values.foldl (addCounter since now) m).nru id = m.nru id + consumed values id := by
  induction values generalizing m with
  | nil => exact ⟨h, fun id => by simp⟩
  | cons counter values ih =>
      obtain ⟨hsound, hnru⟩ := addCounter_nru hkey h (hnonneg counter List.mem_cons_self)
        (fun id => by
          have := hbound id
          rw [consumed_cons] at this
          omega)
      obtain ⟨hrest, hsum⟩ := ih hsound
        (fun counter' hmem => hnonneg counter' (List.mem_cons_of_mem counter hmem))
        (fun id => by
          have := hbound id
          rw [consumed_cons] at this
          rw [hnru id]
          omega)
      refine ⟨hrest, fun id => ?_⟩
      rw [List.foldl_cons, hsum id, hnru id, consumed_cons]
      omega

/-! ## What is enqueued -/

/-- What a report is to say of the counters. -/
structure Accounted (since now : Time) (values : List (String × Rat))
    (consumption : List NruConsumption) : Prop where
  once : (consumption.map (·.contractID)).Nodup
  exact : ∀ rep ∈ consumption, rep.nru.toNat = consumed values rep.contractID
  zero : ∀ rep ∈ consumption, consumed values rep.contractID ≠ 0
  complete : ∀ id, consumed values id ≠ 0 → ∃ rep ∈ consumption, rep.contractID = id
  window : ∀ rep ∈ consumption, (rep.window.toNat : Int) = wholeSeconds since now

variable [GoRuntime]

omit [KeyParts] [GoRuntime] in
theorem nonzero_entries (m : ReportMap) :
    (m.filterMap fun entry => if entry.2.nru = 0 then none else some entry.2) =
      (m.filter fun entry => entry.2.nru ≠ 0).map (·.2) := by
  induction m with
  | nil => rfl
  | cons entry m ih =>
      rw [List.filterMap_cons, List.filter_cons]
      by_cases hzero : entry.2.nru = 0 <;> simp [hzero, ih]

/-- What is enqueued, up to the window. -/
theorem reportOf_sums (since now : Time) (hkey : contractOf lastReportedKey = none)
    {values : List (String × Rat)} (hnonneg : ∀ counter ∈ values, 0 ≤ counter.2)
    (hbound : ∀ id, consumed values id < 2 ^ 64) :
    ((reportOf since now values).consumption.map (·.contractID)).Nodup ∧
      (∀ rep ∈ (reportOf since now values).consumption,
        rep.nru.toNat = consumed values rep.contractID ∧
          consumed values rep.contractID ≠ 0 ∧ rep.window = reportWindow since now) ∧
      ∀ id, consumed values id ≠ 0 →
        ∃ rep ∈ (reportOf since now values).consumption, rep.contractID = id := by
  have hperm := GoRuntime.rangeMap_perm values
  have hempty : ReportMap.Sound since now [] :=
    ⟨List.nodup_nil, fun _ h => (List.not_mem_nil h).elim, fun _ h => (List.not_mem_nil h).elim⟩
  have hcounters : ∀ counter ∈ GoRuntime.rangeMap values, 0 ≤ counter.2 :=
    fun counter hmem => hnonneg counter (hperm.mem_iff.mp hmem)
  have hfold := foldl_addCounter hkey hempty hcounters (fun id => by
    rw [consumed_perm hperm, ReportMap.nru]
    simpa using hbound id)
  rw [reportOf, nonzero_entries]
  generalize (GoRuntime.rangeMap values).foldl (addCounter since now) [] = m at hfold
  obtain ⟨hsound, hsum⟩ := hfold
  have hnru : ∀ id, m.nru id = consumed values id := by
    intro id
    rw [hsum id, consumed_perm hperm, ReportMap.nru]
    exact Nat.zero_add _
  have hrange := GoRuntime.rangeMap_perm m
  have hentry : ∀ entry ∈ m, entry.2.nru.toNat = consumed values entry.2.contractID := by
    intro entry hmem
    rw [hsound.own entry hmem, ← hnru, ReportMap.nru, hsound.lookup_of_mem hmem]
  refine ⟨?_, fun rep hrep => ?_, fun id hid => ?_⟩
  · have hids : (((GoRuntime.rangeMap m).filter fun entry => entry.2.nru ≠ 0).map (·.2)).map
        (·.contractID) =
          ((GoRuntime.rangeMap m).filter fun entry => entry.2.nru ≠ 0).map (·.1) := by
      rw [List.map_map]
      refine List.map_congr_left fun entry hmem => ?_
      exact hsound.own entry (hrange.mem_iff.mp (List.mem_filter.mp hmem).1)
    rw [hids]
    exact ((hrange.map _).nodup_iff.mpr hsound.keys).sublist (List.filter_sublist.map _)
  · obtain ⟨entry, hmem, rfl⟩ := List.mem_map.mp hrep
    obtain ⟨hin, hnonzero⟩ := List.mem_filter.mp hmem
    have hm := hrange.mem_iff.mp hin
    refine ⟨hentry entry hm, fun hzero => ?_, hsound.window entry hm⟩
    rw [← hentry entry hm] at hzero
    have hnru : entry.2.nru = 0 := UInt64.toNat_inj.mp hzero
    simp [hnru] at hnonzero
  · cases hlookup : m.lookup id with
    | none =>
        rw [← hnru id, ReportMap.nru, hlookup] at hid
        exact absurd rfl hid
    | some rep =>
        have hm := ReportMap.mem_of_lookup hlookup
        refine ⟨rep, List.mem_map.mpr ⟨(id, rep), List.mem_filter.mpr ⟨hrange.mem_iff.mpr hm, ?_⟩,
          rfl⟩, hsound.own _ hm⟩
        rw [← hnru id, ReportMap.nru, hlookup] at hid
        simpa [← UInt64.toNat_inj] using hid

/-- What is handed to the queue. -/
def ReporterOp.consumption : ReporterOp → List NruConsumption
  | .enqueue _ _ report => report.consumption
  | _ => []

def enqueued {α : Type} (p : ReporterM α) (l : Ledger) : List NruConsumption :=
  (p.calls act l).flatMap ReporterOp.consumption

omit [KeyParts] [GoRuntime] in
theorem enqueued_bind {α β : Type} (p : ReporterM α) (f : α → ReporterM β) (l : Ledger) :
    enqueued (p >>= f) l = enqueued p l ++ enqueued (f (p.run act l).1) (p.run act l).2 := by
  rw [enqueued, calls_bind, List.flatMap_append]
  rfl

omit [KeyParts] [GoRuntime] in
theorem enqueued_invoke (op : ReporterOp) (l : Ledger) :
    enqueued (invoke op) l = op.consumption := by
  rw [enqueued, calls_perform, List.flatMap_singleton]

omit [KeyParts] [GoRuntime] in
theorem enqueued_push (since now : Time) (report : Report) (l : Ledger) :
    enqueued (push since now report) l = report.consumption := by
  rw [push]
  split
  · next hempty =>
      rw [enqueued_bind, enqueued_invoke, hempty]
      rfl
  · exact enqueued_invoke _ l

theorem enqueued_report {l : Ledger} (hrrd : l.fails = none) (since : Time) :
    enqueued (report since) l = (reportOf since l.clock l.values).consumption := by
  have hcounters : (invoke (.counters since)).run act l = (.ok l.values, l) := by
    rw [run_perform, act, hrrd]
  rw [report, enqueued_bind, enqueued_invoke, run_perform]
  dsimp only [act]
  rw [enqueued_bind, enqueued_invoke, hcounters]
  dsimp only
  rw [enqueued_bind, enqueued_push]
  exact List.append_nil _

/-- A report says what was consumed exactly when nothing was, or the clock has gone
forward since. -/
theorem report_accounted_iff {l : Ledger} (hrrd : l.fails = none)
    (hkey : contractOf lastReportedKey = none)
    (hnonneg : ∀ counter ∈ l.values, 0 ≤ counter.2)
    (hbound : ∀ id, consumed l.values id < 2 ^ 64) (since : Time) :
    Accounted since l.clock l.values (enqueued (report since) l) ↔
      (∀ id, consumed l.values id = 0) ∨ Elapsed since l.clock := by
  obtain ⟨hids, hreps, hall⟩ := reportOf_sums since l.clock hkey hnonneg hbound
  rw [enqueued_report hrrd]
  constructor
  · intro h
    by_cases hzero : ∀ id, consumed l.values id = 0
    · exact .inl hzero
    · rw [not_forall] at hzero
      obtain ⟨id, hid⟩ := hzero
      obtain ⟨rep, hrep, -⟩ := hall id hid
      have hwindow := h.window rep hrep
      rw [(hreps rep hrep).2.2] at hwindow
      exact .inr ((reportWindow_iff since l.clock).mp hwindow)
  · intro h
    refine ⟨hids, fun rep hrep => (hreps rep hrep).1, fun rep hrep => (hreps rep hrep).2.1, hall,
      fun rep hrep => ?_⟩
    rcases h with hzero | helapsed
    · exact absurd (hzero _) (hreps rep hrep).2.1
    · rw [(hreps rep hrep).2.2]
      exact (reportWindow_iff since l.clock).mpr helapsed

end

/-! ## A clock that is set back -/

/-- Keys that all belong to contract 5, but for the one that is no workload's. -/
abbrev ownContract : KeyParts where
  parts key := if key = lastReportedKey then .error (.text "invalid id") else .ok 5

/-- A workload has consumed 3, and the clock stands at 5 seconds. -/
def atFive : Ledger :=
  { clock := 5000000000, fails := none, cancelled := false, values := [("7-5-vm", 3)],
    last := none, queue := [], next := 0, windows := [], first := none, sent := [],
    removed := [] }

/-- The last report was at 10 seconds. -/
theorem window_wraps :
    letI := ownContract
    ¬ Accounted (timeUnix 10) atFive.clock atFive.values
      (enqueued (report (timeUnix 10)) atFive) := by
  let := ownContract
  intro h
  have hreport : enqueued (report (timeUnix 10)) atFive =
      [⟨5, 5, 18446744073709551611, 3⟩] := by decide +kernel
  rw [hreport] at h
  have hwindow := h.window _ List.mem_cons_self
  exact absurd hwindow (by decide)

/-- The last report was at 2 seconds. -/
theorem report_accounted_iff_three_seconds :
    letI := ownContract
    Accounted (timeUnix 2) atFive.clock atFive.values
        (enqueued (report (timeUnix 2)) atFive) ↔
      (∀ id, consumed atFive.values id = 0) ∨ Elapsed (timeUnix 2) atFive.clock := by
  let := ownContract
  refine report_accounted_iff rfl (by decide +kernel) (by decide +kernel) (fun id => ?_) _
  have hshare : share id ("7-5-vm", 3) ≤ 3 := by
    rw [share]
    split
    · decide +kernel
    · exact Nat.zero_le 3
  have hsum : consumed atFive.values id = share id ("7-5-vm", 3) := Nat.add_zero _
  omega

end Zos4.Provisiond
