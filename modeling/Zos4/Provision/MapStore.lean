import Mathlib.Data.List.AList
import Zos4.Provision.Storage

/-!
# A store that is a map

The smallest thing `Storage` can be: an association list from deployments to
records, and in each record the last recorded workloads, one for each name. It
shows that the laws of the interface can be met at once, and it is the store
that concrete runs are made on.
-/

namespace Zos4.Provision

/-- What the map holds of one deployment. -/
structure Record where
  header : Header
  workloads : List Workload
  nodup : (workloads.map (·.name)).Nodup

namespace Record

def find (rec : Record) (n : Name) : Option Workload :=
  rec.workloads.find? (·.name == n)

theorem find_name {rec : Record} {n : Name} {wl : Workload}
    (h : rec.find n = some wl) : wl.name = n := by
  simpa using List.find?_some h

/-- With one workload to a name, looking a name up and being listed agree. -/
theorem find_eq_some {rec : Record} {wl : Workload} :
    rec.find wl.name = some wl ↔ wl ∈ rec.workloads := by
  constructor
  · exact List.mem_of_find?_eq_some
  · intro hwl
    cases hf : rec.find wl.name with
    | none =>
        exact absurd (List.find?_eq_none.mp hf wl hwl) (by simp)
    | some w =>
        have hw := List.mem_of_find?_eq_some hf
        rw [List.inj_on_of_nodup_map rec.nodup hw hwl (find_name hf)]

def map (rec : Record) (f : Workload → Workload)
    (hf : ∀ wl, (f wl).name = wl.name) : Record where
  header := rec.header
  workloads := rec.workloads.map f
  nodup := by
    rw [List.map_map]
    have h : (fun wl : Workload => wl.name) ∘ f = fun wl => wl.name := funext hf
    rw [h]
    exact rec.nodup

theorem map_find {rec : Record} {f : Workload → Workload}
    {hf : ∀ wl, (f wl).name = wl.name} {n : Name} :
    (rec.map f hf).find n = (rec.find n).map f := by
  simp only [find, map, List.find?_map, Function.comp_def, hf]

/-- Record `wl` in the place of the workload of its name. -/
def put (rec : Record) (wl : Workload) : Record :=
  rec.map (fun w => if w.name = wl.name then wl else w) fun w => by
    split
    · next h => exact h.symm
    · rfl

theorem put_find {rec : Record} {wl : Workload} {n : Name} :
    (rec.put wl).find n =
      if n = wl.name then (rec.find n).map fun _ => wl else rec.find n := by
  rw [put, map_find]
  cases hw : rec.find n with
  | none => split <;> rfl
  | some w =>
      have hn := find_name hw
      subst hn
      simp only [Option.map_some]
      split <;> rfl

def add (rec : Record) (wl : Workload) (h : rec.find wl.name = none) : Record where
  header := rec.header
  workloads := rec.workloads ++ [wl]
  nodup := by
    rw [List.map_append, List.nodup_append]
    refine ⟨rec.nodup, by simp, ?_⟩
    intro a ha b hb
    obtain ⟨w, hw, rfl⟩ := List.mem_map.mp ha
    have hb' : b = wl.name := by simpa using hb
    have hne := List.find?_eq_none.mp h w hw
    rw [hb']
    simpa using hne

theorem add_find {rec : Record} {wl : Workload} {h : rec.find wl.name = none}
    {n : Name} :
    (rec.add wl h).find n = if n = wl.name then some wl else rec.find n := by
  simp only [find, add, List.find?_append] at h ⊢
  split
  · next hn => subst hn; rw [h]; simp
  · next hn =>
      have hne : ¬ wl.name = n := fun h => hn h.symm
      simp [hne]

def remove (rec : Record) (n : Name) : Record where
  header := rec.header
  workloads := rec.workloads.filter (·.name ≠ n)
  nodup := rec.nodup.sublist (List.Sublist.map _ List.filter_sublist)

theorem remove_find {rec : Record} {n m : Name} :
    (rec.remove n).find m = if m = n then none else rec.find m := by
  simp only [find, remove, List.find?_filter]
  split
  · next hm => subst hm; simp
  · next hm =>
      congr 1
      funext w
      by_cases hw : w.name = m
      · simp [hw, hm]
      · simp [hw]

end Record

/-- Deployments by key. -/
structure MapStore where
  records : AList fun _ : DeploymentKey => Record

namespace MapStore

def missing : GoError := .sentinel .deploymentNotExists

def find (s : MapStore) (k : DeploymentKey) : Option Record := s.records.lookup k

def set (s : MapStore) (k : DeploymentKey) (rec : Record) : MapStore :=
  ⟨s.records.insert k rec⟩

def erase (s : MapStore) (k : DeploymentKey) : MapStore := ⟨s.records.erase k⟩

theorem set_find {s : MapStore} {k k' : DeploymentKey} {rec : Record} :
    (s.set k rec).find k' = if k' = k then some rec else s.find k' := by
  simp only [find, set]
  split
  · next h => subst h; exact AList.lookup_insert _
  · next h => exact AList.lookup_insert_ne h

theorem erase_find {s : MapStore} {k k' : DeploymentKey} :
    (s.erase k).find k' = if k' = k then none else s.find k' := by
  simp only [find, erase]
  split
  · next h => subst h; exact AList.lookup_erase _ _
  · next h => exact AList.lookup_erase_ne h

/-- Rewrite the record of a deployment that must exist. -/
def modify (s : MapStore) (k : DeploymentKey)
    (f : Record → Except GoError Record) : Except GoError MapStore :=
  match s.find k with
  | none => .error missing
  | some rec =>
      match f rec with
      | .error err => .error err
      | .ok rec' => .ok (s.set k rec')

def deployment (k : DeploymentKey) (rec : Record) : Deployment :=
  ⟨rec.header.version, k.twin, k.contract, rec.header.metadata,
    rec.header.description, rec.header.expiration,
    rec.header.signatureRequirement, rec.workloads⟩

def view (s : MapStore) : StoreView where
  header k := (s.find k).map Record.header
  workload k n := (s.find k).bind fun rec => rec.find n

def fresh (now : Timestamp) (dl : Deployment) (h : dl.names.Nodup) : Record :=
  Record.map ⟨Provision.header dl, dl.workloads, h⟩
    (·.withResults (Result.initial now)) fun _ => rfl

def create (s : MapStore) (now : Timestamp) (dl : Deployment) :
    Except GoError MapStore :=
  if h : dl.names.Nodup then
    match s.find dl.key with
    | some _ => .error (.sentinel .deploymentExists)
    | none => .ok (s.set dl.key (fresh now dl h))
  else .error (.sentinel .workloadExists)

def get (s : MapStore) (k : DeploymentKey) : Except GoError Deployment :=
  match s.find k with
  | none => .error missing
  | some rec => .ok (deployment k rec)

def current (s : MapStore) (k : DeploymentKey) (n : Name) :
    Except GoError Workload :=
  match s.find k with
  | none => .error missing
  | some rec =>
      match rec.find n with
      | none => .error (.sentinel .workloadNotExist)
      | some wl => .ok wl

def update (s : MapStore) (k : DeploymentKey) (fields : List Field) :
    Except GoError MapStore :=
  s.modify k fun rec =>
    .ok { rec with header := fields.foldl Field.set rec.header }

def add (s : MapStore) (now : Timestamp) (k : DeploymentKey) (wl : Workload) :
    Except GoError MapStore :=
  s.modify k fun rec =>
    if h : rec.find wl.name = none then
      .ok (rec.add (wl.withResults (Result.initial now)) h)
    else .error (.sentinel .workloadExists)

def transaction (s : MapStore) (k : DeploymentKey) (wl : Workload) :
    Except GoError MapStore :=
  s.modify k fun rec =>
    if rec.find wl.name = none then .error (.sentinel .workloadNotExist)
    else .ok (rec.put wl)

def remove (s : MapStore) (k : DeploymentKey) (n : Name) :
    Except GoError MapStore :=
  s.modify k fun rec => .ok (rec.remove n)

def delete (s : MapStore) (k : DeploymentKey) : Except GoError MapStore :=
  match s.find k with
  | none => .error missing
  | some _ => .ok (s.erase k)

def error (s : MapStore) (now : Timestamp) (k : DeploymentKey) (msg : String) :
    Except GoError MapStore :=
  s.modify k fun rec =>
    .ok (rec.map (·.withResults (Result.failed now msg)) fun _ => rfl)

def twins (s : MapStore) : List TwinID := s.records.keys.map (·.twin)

def byTwin (s : MapStore) (twin : TwinID) : List ContractID :=
  (s.records.keys.filter (·.twin == twin)).map (·.contract)

def hasOkay (rec : Record) : Bool :=
  rec.workloads.any fun wl => wl.result.state.isOkay

def capacity (s : MapStore) : List Deployment :=
  (s.records.entries.filter fun entry => hasOkay entry.2).map fun entry =>
    deployment entry.1 entry.2

/-! ## The laws -/

variable {s s' : MapStore} {k : DeploymentKey}

theorem view_header {k : DeploymentKey} :
    (view s).header k = none ↔ s.find k = none := by
  simp [view]

theorem view_header_find {rec : Record} (h : s.find k = some rec) :
    (view s).header k ≠ none := by
  simp [view, h]

theorem view_workload_find {rec : Record} {n : Name} (h : s.find k = some rec) :
    (view s).workload k n = rec.find n := by
  simp [view, h]

theorem modify_ok {f : Record → Except GoError Record} (h : s.modify k f = .ok s') :
    ∃ rec rec', s.find k = some rec ∧ f rec = .ok rec' ∧ s' = s.set k rec' := by
  simp only [modify] at h
  split at h
  · cases h
  · next rec hrec =>
      split at h
      · cases h
      · next rec' hf => exact ⟨rec, rec', hrec, hf, (Except.ok.inj h).symm⟩

theorem modify_error {f : Record → Except GoError Record} {err : GoError}
    (h : s.modify k f = .error err) :
    s.find k = none ∨ ∃ rec e, s.find k = some rec ∧ f rec = .error e := by
  simp only [modify] at h
  split at h
  · next hrec => exact .inl hrec
  · next rec hrec =>
      split at h
      · next e hf => exact .inr ⟨rec, e, hrec, hf⟩
      · cases h

theorem view_set {rec : Record} :
    view (s.set k rec) =
      ((view s).setHeader k (some rec.header)).setWorkloads k rec.find := by
  refine StoreView.ext (funext fun k' => ?_) (funext fun k' => funext fun n => ?_)
  · simp only [view, set_find, StoreView.setWorkloads, StoreView.setHeader]
    split <;> rfl
  · simp only [view, set_find, StoreView.setWorkloads, StoreView.setHeader]
    split <;> rfl

/-- Setting back a record with the header it had. -/
theorem view_set_same (rec' : Record) {rec : Record} (h : s.find k = some rec)
    (hh : rec'.header = rec.header) :
    view (s.set k rec') = (view s).setWorkloads k rec'.find := by
  rw [view_set]
  refine StoreView.ext (funext fun k' => ?_) rfl
  simp only [StoreView.setWorkloads, StoreView.setHeader]
  split
  · next hk => subst hk; simp [view, h, hh]
  · rfl

/-- Replacing all workloads of a deployment, one of which changes. -/
theorem setWorkloads_eq_setWorkload {rec rec' : Record} {n : Name}
    {wl : Option Workload} (h : s.find k = some rec)
    (hf : ∀ m, rec'.find m = if m = n then wl else rec.find m) :
    (view s).setWorkloads k rec'.find = (view s).setWorkload k n wl := by
  refine StoreView.ext rfl (funext fun k' => funext fun m => ?_)
  simp only [StoreView.setWorkloads, StoreView.setWorkload, hf]
  by_cases hk : k' = k
  · subst hk
    by_cases hm : m = n
    · simp [hm]
    · simp [hm, view_workload_find h]
  · simp [hk]

theorem create_ok {now : Timestamp} {dl : Deployment}
    (h : create s now dl = .ok s') :
    (view s).header dl.key = none ∧ view s' = (view s).create now dl := by
  simp only [create] at h
  split at h
  · next hn =>
      split at h
      · cases h
      · next hnone =>
          obtain rfl := Except.ok.inj h
          refine ⟨view_header.mpr hnone, ?_⟩
          rw [view_set, StoreView.create]
          congr 1
          funext n
          exact Record.map_find
  · cases h

theorem get_ok {dl : Deployment} (h : get s k = .ok dl) :
    dl.key = k ∧ (view s).header k = some (header dl) ∧ dl.names.Nodup ∧
      ∀ wl, wl ∈ dl.workloads ↔ (view s).workload k wl.name = some wl := by
  simp only [get] at h
  split at h
  · cases h
  · next rec hrec =>
      obtain rfl := Except.ok.inj h
      refine ⟨rfl, by simp [view, hrec, deployment, header], rec.nodup,
        fun wl => ?_⟩
      rw [view_workload_find hrec]
      exact Record.find_eq_some.symm

theorem current_ok {n : Name} {wl : Workload} (h : current s k n = .ok wl) :
    (view s).workload k n = some wl := by
  simp only [current] at h
  split at h
  · cases h
  · next rec hrec =>
      split at h
      · cases h
      · next w hw =>
          obtain rfl := Except.ok.inj h
          rw [view_workload_find hrec, hw]

theorem current_error {n : Name} {err : GoError}
    (h : current s k n = .error err) :
    (view s).workload k n = none ∧
      (err.is .workloadNotExist = true ↔ (view s).header k ≠ none) := by
  simp only [current] at h
  split at h
  · next hnone =>
      obtain rfl := Except.error.inj h
      simp [view, hnone, missing, GoError.is]
  · next rec hrec =>
      split at h
      · next hn =>
          obtain rfl := Except.error.inj h
          refine ⟨by rw [view_workload_find hrec, hn], ?_⟩
          simp [view_header_find hrec, GoError.is]
      · cases h

theorem update_ok {fields : List Field} (h : update s k fields = .ok s') :
    (view s).header k ≠ none ∧ view s' = (view s).update k fields := by
  obtain ⟨rec, rec', hrec, hf, rfl⟩ := modify_ok h
  obtain rfl := Except.ok.inj hf
  refine ⟨view_header_find hrec, ?_⟩
  refine view_set.trans
    (StoreView.ext (funext fun k' => ?_) (funext fun k' => funext fun n => ?_))
  · rw [StoreView.update_header]
    show (if k' = k then _ else _) = _
    split
    · simp [view, hrec]
    · rfl
  · rw [StoreView.setWorkloads_workload, StoreView.update_workload]
    split
    · next hk => subst hk; exact (view_workload_find hrec).symm
    · rfl

theorem add_ok {now : Timestamp} {wl : Workload} (h : add s now k wl = .ok s') :
    ((view s).header k ≠ none ∧ (view s).workload k wl.name = none) ∧
      view s' = (view s).add now k wl := by
  obtain ⟨rec, rec', hrec, hf, rfl⟩ := modify_ok h
  split at hf
  · next hn =>
      obtain rfl := Except.ok.inj hf
      refine ⟨⟨view_header_find hrec, ?_⟩, ?_⟩
      · rw [view_workload_find hrec, hn]
      · refine (view_set_same (rec.add _ _) hrec rfl).trans
          (setWorkloads_eq_setWorkload hrec fun m => ?_)
        exact Record.add_find
  · cases hf

theorem add_error {now : Timestamp} {wl : Workload} {err : GoError}
    (h : add s now k wl = .error err) :
    (view s).header k = none ∨ (view s).workload k wl.name ≠ none := by
  rcases modify_error h with hnone | ⟨rec, e, hrec, hf⟩
  · exact .inl (view_header.mpr hnone)
  · split at hf
    · cases hf
    · next hn => exact .inr (by rw [view_workload_find hrec]; exact hn)

theorem transaction_ok {wl : Workload} (h : transaction s k wl = .ok s') :
    (view s).workload k wl.name ≠ none ∧
      view s' = (view s).transaction k wl := by
  obtain ⟨rec, rec', hrec, hf, rfl⟩ := modify_ok h
  split at hf
  · cases hf
  · next hn =>
      obtain rfl := Except.ok.inj hf
      refine ⟨by rw [view_workload_find hrec]; exact hn, ?_⟩
      refine (view_set_same (rec.put wl) hrec rfl).trans
        (setWorkloads_eq_setWorkload hrec fun m => ?_)
      rw [Record.put_find]
      split
      · next hm =>
          subst hm
          obtain ⟨w, hw⟩ := Option.ne_none_iff_exists'.mp hn
          rw [hw, Option.map_some]
      · rfl

theorem transaction_error {wl : Workload} {err : GoError}
    (h : transaction s k wl = .error err) :
    (view s).workload k wl.name = none := by
  rcases modify_error h with hnone | ⟨rec, e, hrec, hf⟩
  · simp [view, hnone]
  · split at hf
    · next hn => rw [view_workload_find hrec, hn]
    · cases hf

theorem remove_ok {n : Name} (h : remove s k n = .ok s') :
    view s' = (view s).remove k n := by
  obtain ⟨rec, rec', hrec, hf, rfl⟩ := modify_ok h
  obtain rfl := Except.ok.inj hf
  exact (view_set_same (rec.remove n) hrec rfl).trans
    (setWorkloads_eq_setWorkload hrec fun m => Record.remove_find)

theorem delete_ok (h : delete s k = .ok s') : view s' = (view s).delete k := by
  simp only [delete] at h
  split at h
  · cases h
  · obtain rfl := Except.ok.inj h
    refine StoreView.ext (funext fun k' => ?_)
      (funext fun k' => funext fun n => ?_)
    · simp only [view, erase_find, StoreView.delete_header]
      split <;> rfl
    · simp only [view, erase_find, StoreView.delete_workload]
      split <;> rfl

theorem error_ok {now : Timestamp} {msg : String}
    (h : error s now k msg = .ok s') : view s' = (view s).error now k msg := by
  obtain ⟨rec, rec', hrec, hf, rfl⟩ := modify_ok h
  obtain rfl := Except.ok.inj hf
  refine (view_set_same (rec.map _ _) hrec rfl).trans
    (StoreView.ext rfl (funext fun k' => funext fun n => ?_))
  simp only [StoreView.setWorkloads, StoreView.error]
  split
  · rw [view_workload_find hrec]
    exact Record.map_find
  · rfl

theorem modify_error_header {f : Record → Except GoError Record} {err : GoError}
    (hf : ∀ rec e, f rec ≠ .error e) (h : s.modify k f = .error err) :
    (view s).header k = none := by
  rcases modify_error h with hnone | ⟨rec, e, _, he⟩
  · exact view_header.mpr hnone
  · exact absurd he (hf rec e)

theorem mem_keys : k ∈ s.records.keys ↔ (view s).header k ≠ none := by
  rw [Ne, view_header, find, AList.lookup_eq_none, not_not]
  exact AList.mem_keys

theorem mem_capacity {dl : Deployment} :
    dl ∈ capacity s ↔ get s dl.key = .ok dl ∧ (view s).HasOkay dl.key := by
  have hokay : ∀ {k rec}, s.find k = some rec →
      (hasOkay rec = true ↔ (view s).HasOkay k) := by
    intro k rec hrec
    simp only [hasOkay, List.any_eq_true, StoreView.HasOkay,
      view_workload_find hrec]
    constructor
    · rintro ⟨wl, hwl, hs⟩
      exact ⟨wl.name, wl, Record.find_eq_some.mpr hwl, hs⟩
    · rintro ⟨n, wl, hwl, hs⟩
      exact ⟨wl, List.mem_of_find?_eq_some hwl, hs⟩
  simp only [capacity, List.mem_map, List.mem_filter, Sigma.exists]
  constructor
  · rintro ⟨k, rec, ⟨hmem, ho⟩, rfl⟩
    have hfind : s.find k = some rec := AList.mem_lookup_iff.mpr hmem
    exact ⟨by simp only [get]; rw [show (deployment k rec).key = k from rfl, hfind],
      (hokay hfind).mp ho⟩
  · rintro ⟨hget, ho⟩
    simp only [get] at hget
    split at hget
    · cases hget
    · next rec hrec =>
        exact ⟨dl.key, rec, ⟨AList.mem_lookup_iff.mp hrec, (hokay hrec).mpr ho⟩,
          Except.ok.inj hget⟩

instance : Storage MapStore where
  create := create
  get := get
  update := update
  current := current
  add := add
  transaction := transaction
  remove := remove
  delete := delete
  error := error
  twins s := .ok s.twins
  byTwin s twin := .ok (s.byTwin twin)
  capacity s := .ok s.capacity
  view := view
  workload_wf s k n wl h := by
    cases hrec : s.find k with
    | none => simp [view, hrec] at h
    | some rec =>
        rw [view_workload_find hrec] at h
        exact ⟨Record.find_name h, view_header_find hrec⟩
  create_ok := create_ok
  get_ok := get_ok
  get_error {s k e} h := by
    simp only [get] at h
    split at h
    · next hnone => exact view_header.mpr hnone
    · cases h
  update_ok := update_ok
  update_error := modify_error_header fun _ _ h => by cases h
  current_ok := current_ok
  current_error := current_error
  add_ok := add_ok
  add_error := add_error
  transaction_ok := transaction_ok
  transaction_error := transaction_error
  remove_ok := remove_ok
  remove_error := modify_error_header fun _ _ h => by cases h
  delete_ok := delete_ok
  delete_error {s k e} h := by
    simp only [delete] at h
    split at h
    · next hnone => exact view_header.mpr hnone
    · cases h
  error_ok := error_ok
  error_error := modify_error_header fun _ _ h => by cases h
  twins_ok {s ts} h t := by
    obtain rfl := Except.ok.inj h
    simp only [twins, List.mem_map]
    constructor
    · rintro ⟨k, hk, rfl⟩
      exact ⟨k.contract, mem_keys.mp hk⟩
    · rintro ⟨c, hc⟩
      exact ⟨⟨t, c⟩, mem_keys.mpr hc, rfl⟩
  byTwin_ok {s t ids} h c := by
    obtain rfl := Except.ok.inj h
    simp only [byTwin, List.mem_map, List.mem_filter, beq_iff_eq]
    constructor
    · rintro ⟨k, ⟨hk, rfl⟩, rfl⟩
      exact mem_keys.mp hk
    · intro hc
      exact ⟨⟨t, c⟩, ⟨mem_keys.mpr hc, rfl⟩, rfl⟩
  capacity_ok {s dls} h dl := by
    obtain rfl := Except.ok.inj h
    exact mem_capacity

end MapStore

end Zos4.Provision
