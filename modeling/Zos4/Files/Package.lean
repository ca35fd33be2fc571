import Mathlib.Data.List.Nodup
import Zos4.Files.Lookup

/-!
# Package trees

The tree of a package as the list of its entries, in the order some walk comes to
them. An entry is there once, and it is in a directory that is there. `find` and
`children` look into the list, and `under` is what a walk from one of the entries
comes to.
-/

namespace Zos4.Files

structure Package (C : Type) where
  entries : List (Location × Node C)
  nodup : (entries.map Prod.fst).Nodup
  root : ([], .dir) ∈ entries
  parents : ∀ dir name node, (dir ++ [name], node) ∈ entries → (dir, .dir) ∈ entries

namespace Package

variable {C : Type} (pkg : Package C)

def find (p : Location) : Option (Node C) :=
  (pkg.entries.find? fun entry => entry.1 = p).map (·.2)

/-- The names in a directory. -/
def children (dir : Location) : List Bytes :=
  pkg.entries.filterMap fun entry =>
    if entry.1 ≠ [] ∧ entry.1.dropLast = dir then entry.1.getLast? else none

/-- The entries a walk from one of them comes to, if it is there. -/
def under (dir : Location) : Option (List (Location × Node C)) :=
  if (pkg.find dir).isSome then
    some (pkg.entries.filter fun entry => dir.isPrefixOf entry.1)
  else none

variable {pkg} {p dir : Location} {name : Bytes} {node node' : Node C}

/-- `parents` as a test. -/
theorem parents_of_all {entries : List (Location × Node C)}
    (h : ∀ entry ∈ entries, entry.1 = [] ∨ (entry.1.dropLast, .dir) ∈ entries)
    (dir : Location) (name : Bytes) (node : Node C)
    (hmem : (dir ++ [name], node) ∈ entries) : (dir, .dir) ∈ entries := by
  have hparent := h _ hmem
  simpa using hparent

theorem eq_of_mem (h : (p, node) ∈ pkg.entries) (h' : (p, node') ∈ pkg.entries) :
    node = node' := by
  have heq := List.inj_on_of_nodup_map pkg.nodup h h' rfl
  exact (Prod.mk.inj heq).2

theorem find_eq_some : pkg.find p = some node ↔ (p, node) ∈ pkg.entries := by
  rw [find, Option.map_eq_some_iff]
  constructor
  · intro h
    obtain ⟨entry, hentry, hnode⟩ := h
    have hp := List.find?_some hentry
    rw [decide_eq_true_eq] at hp
    have heq : entry = (p, node) := Prod.ext hp hnode
    exact heq ▸ List.mem_of_find?_eq_some hentry
  · intro h
    cases hfind : pkg.entries.find? fun entry => entry.1 = p with
    | none =>
        rw [List.find?_eq_none] at hfind
        exact absurd (by simp) (hfind _ h)
    | some entry =>
        have hp := List.find?_some hfind
        rw [decide_eq_true_eq] at hp
        have heq := List.inj_on_of_nodup_map pkg.nodup (List.mem_of_find?_eq_some hfind) h hp
        exact ⟨entry, rfl, by rw [heq]⟩

theorem mem_children : name ∈ pkg.children dir ↔
    ∃ node, (dir ++ [name], node) ∈ pkg.entries := by
  rw [children, List.mem_filterMap]
  constructor
  · intro h
    obtain ⟨⟨p, node⟩, hentry, hname⟩ := h
    split at hname
    · next hdir =>
        have hp := List.dropLast_append_getLast? name hname
        rw [hdir.2] at hp
        exact ⟨node, hp ▸ hentry⟩
    · cases hname
  · intro h
    obtain ⟨node, hentry⟩ := h
    exact ⟨_, hentry, by simp⟩

theorem ancestor {tail : Location} (h : (dir ++ tail, node) ∈ pkg.entries) :
    ∃ node, (dir, node) ∈ pkg.entries := by
  induction tail using List.reverseRecOn generalizing node with
  | nil => exact ⟨node, by simpa using h⟩
  | append_singleton tail name ih =>
      rw [← List.append_assoc] at h
      exact ih (pkg.parents _ _ _ h)

theorem dir_ancestor {tail : Location} (h : (dir ++ tail, .dir) ∈ pkg.entries) :
    (dir, .dir) ∈ pkg.entries := by
  induction tail using List.reverseRecOn with
  | nil => simpa using h
  | append_singleton tail name ih =>
      rw [← List.append_assoc] at h
      exact ih (pkg.parents _ _ _ h)

/-- What is above an entry are directories. -/
theorem above (h : (p, node) ∈ pkg.entries) (hdir : dir <+: p.dropLast) :
    (dir, .dir) ∈ pkg.entries := by
  cases p using List.reverseRecOn with
  | nil =>
      obtain rfl := List.prefix_nil.mp hdir
      exact pkg.root
  | append_singleton p name =>
      rw [List.dropLast_concat] at hdir
      obtain ⟨tail, rfl⟩ := hdir
      exact dir_ancestor (pkg.parents _ _ _ h)

theorem mem_under : (∃ found, pkg.under dir = some found ∧ (p, node) ∈ found) ↔
    dir <+: p ∧ (p, node) ∈ pkg.entries := by
  constructor
  · intro h
    obtain ⟨found, hfound, hmem⟩ := h
    unfold under at hfound
    split at hfound
    · obtain rfl := Option.some.inj hfound
      rw [List.mem_filter, List.isPrefixOf_iff_prefix] at hmem
      exact ⟨hmem.2, hmem.1⟩
    · cases hfound
  · intro h
    obtain ⟨⟨tail, rfl⟩, hmem⟩ := h
    obtain ⟨node', hdir⟩ := ancestor hmem
    have hfind : (pkg.find dir).isSome = true := by rw [find_eq_some.mpr hdir]; rfl
    refine ⟨_, by rw [under, if_pos hfind], ?_⟩
    rw [List.mem_filter, List.isPrefixOf_iff_prefix]
    exact ⟨hmem, List.prefix_append dir tail⟩

end Package

/-! ## Walks -/

/-- What holds at the beginning of a walk, and is kept at each entry, where it may
depend on the entries visited so far, holds at its end for all of them. -/
theorem foldlM_visited {S E ε : Type} {step : S → E → Except ε S} {I : List E → S → Prop}
    {whole : List E} (hstep : ∀ visited e rest s s', whole = visited ++ e :: rest →
      I visited s → step s e = .ok s' → I (visited ++ [e]) s')
    {s s' : S} (hI : I [] s) (h : whole.foldlM step s = .ok s') : I whole s' := by
  have hrest : ∀ rest visited s, whole = visited ++ rest → I visited s →
      rest.foldlM step s = .ok s' → I whole s' := by
    intro rest
    induction rest with
    | nil =>
        intro visited s hwhole hI h
        rw [List.foldlM_nil] at h
        obtain rfl : s = s' := Except.ok.inj h
        rw [hwhole, List.append_nil]
        exact hI
    | cons e rest ih =>
        intro visited s hwhole hI h
        rw [List.foldlM_cons] at h
        cases hs : step s e with
        | error err =>
            rw [hs] at h
            cases h
        | ok next =>
            rw [hs] at h
            exact ih (visited ++ [e]) next (by simp [hwhole]) (hstep _ _ _ _ _ hwhole hI hs) h
  exact hrest whole [] s rfl hI h

/-- It may also depend on the walk so far. -/
theorem foldlM_reached {S E ε : Type} {step : S → E → Except ε S} {I : List E → S → Prop}
    {whole : List E} {start : S} (hstep : ∀ visited e rest s s', whole = visited ++ e :: rest →
      visited.foldlM step start = .ok s → I visited s → step s e = .ok s' →
        I (visited ++ [e]) s')
    {s' : S} (hI : I [] start) (h : whole.foldlM step start = .ok s') : I whole s' := by
  have hreached := foldlM_visited
    (I := fun visited s => visited.foldlM step start = .ok s ∧ I visited s)
    (fun visited e rest s s' hwhole hs hnext =>
      ⟨foldlM_snoc.mpr ⟨s, hs.1, hnext⟩, hstep visited e rest s s' hwhole hs.1 hs.2 hnext⟩)
    ⟨rfl, hI⟩ h
  exact hreached.2

/-- What the last step to change something leaves, where `change` says what one does from the
state before it. The step that fails, if there is one, is the last of all. -/
def lastChange {S E ε α : Type} (step : S → E → Except ε S) (change : S → E → Option α) :
    List E → S → Option α
  | [], _ => none
  | e :: rest, s =>
      match step s e with
      | .ok next => (lastChange step change rest next).or (change s e)
      | .error _ => change s e

/-- It is what is there in the end. -/
theorem foldlM_lastChange {S E ε α : Type} {step : S → E → Except ε S} (view : S → α)
    {change : S → E → Option α} {whole : List E} {s s' : S}
    (hstep : ∀ e ∈ whole, ∀ s s', step s e = .ok s' → view s' = (change s e).getD (view s))
    (h : whole.foldlM step s = .ok s') :
    view s' = (lastChange step change whole s).getD (view s) := by
  induction whole generalizing s with
  | nil =>
      obtain rfl : s = s' := Except.ok.inj h
      rfl
  | cons e rest ih =>
      rw [List.foldlM_cons] at h
      rw [lastChange]
      cases hs : step s e with
      | error err =>
          rw [hs] at h
          cases h
      | ok next =>
          rw [hs] at h
          dsimp only
          rw [ih (fun e he => hstep e (List.mem_cons_of_mem _ he)) h,
            hstep e List.mem_cons_self s next hs]
          cases lastChange step change rest next <;> rfl

/-- Some step changes something, which may be one that fails. -/
def Changes {S E ε α : Type} (step : S → E → Except ε S) (change : S → E → Option α) :
    List E → S → Prop
  | [], _ => False
  | e :: rest, s => change s e ≠ none ∨
      ∃ next, step s e = .ok next ∧ Changes step change rest next

/-- What a step changes to anything but `right` is changed again by a later one. -/
def PutRight {S E ε α : Type} (step : S → E → Except ε S) (change : S → E → Option α)
    (right : α) : List E → S → Prop
  | [], _ => True
  | e :: rest, s =>
      (∀ left, change s e = some left → left ≠ right →
        ∃ next, step s e = .ok next ∧ Changes step change rest next) ∧
      ∀ next, step s e = .ok next → PutRight step change right rest next

section

variable {S E ε α : Type} {step : S → E → Except ε S} {change : S → E → Option α}
  {whole rest : List E} {e : E} {s next : S} {prior right : α}

theorem lastChange_ok (h : step s e = .ok next) : lastChange step change (e :: rest) s =
    (lastChange step change rest next).or (change s e) := by
  rw [lastChange, h]

theorem lastChange_error {err : ε} (h : step s e = .error err) :
    lastChange step change (e :: rest) s = change s e := by
  rw [lastChange, h]

theorem lastChange_eq_none : lastChange step change whole s = none ↔
    ¬ Changes step change whole s := by
  induction whole generalizing s with
  | nil => simp [lastChange, Changes]
  | cons e rest ih =>
      rw [Changes]
      cases hs : step s e with
      | error err => simp [lastChange_error hs]
      | ok next => simp [lastChange_ok hs, ih, and_comm]

/-- The step that makes the last change, and no step after it makes one. -/
theorem lastChange_eq_some {left : α} : lastChange step change whole s = some left ↔
    ∃ before e rest mid, whole = before ++ e :: rest ∧ before.foldlM step s = .ok mid ∧
      change mid e = some left ∧
        ∀ next, step mid e = .ok next → ¬ Changes step change rest next := by
  induction whole generalizing s with
  | nil => simp [lastChange]
  | cons e rest ih =>
      constructor
      · intro h
        cases hs : step s e with
        | error err =>
            rw [lastChange_error hs] at h
            exact ⟨[], e, rest, s, rfl, rfl, h, by simp [hs]⟩
        | ok next =>
            rw [lastChange_ok hs, Option.or_eq_some_iff] at h
            rcases h with hlater | ⟨hnone, h⟩
            · obtain ⟨before, e', rest', mid, hwhole, hmid, hlast⟩ := ih.mp hlater
              refine ⟨e :: before, e', rest', mid, by rw [hwhole]; rfl, ?_, hlast⟩
              rw [List.foldlM_cons, hs]
              exact hmid
            · refine ⟨[], e, rest, s, rfl, rfl, h, fun next' hnext => ?_⟩
              obtain rfl := Except.ok.inj (hs.symm.trans hnext)
              exact lastChange_eq_none.mp hnone
      · rintro ⟨before, e', rest', mid, hwhole, hmid, hchange, hlast⟩
        cases before with
        | nil =>
            obtain ⟨rfl, rfl⟩ := List.cons.inj hwhole
            obtain rfl := Except.ok.inj hmid
            cases hs : step s e with
            | error err => rw [lastChange_error hs, hchange]
            | ok next =>
                rw [lastChange_ok hs, lastChange_eq_none.mpr (hlast next hs), hchange]
                rfl
        | cons first before =>
            obtain ⟨rfl, hrest⟩ := List.cons.inj hwhole
            rw [List.foldlM_cons] at hmid
            cases hs : step s e with
            | error err =>
                rw [hs] at hmid
                cases hmid
            | ok next =>
                rw [hs] at hmid
                rw [lastChange_ok hs,
                  ih.mpr ⟨before, e', rest', mid, hrest, hmid, hchange, hlast⟩]
                rfl

/-- The last change is right if what is wrong is put right, and something is changed or it
was right before. -/
theorem lastChange_right_iff : (lastChange step change whole s).getD prior = right ↔
    PutRight step change right whole s ∧ (Changes step change whole s ∨ prior = right) := by
  induction whole generalizing s prior with
  | nil => simp [lastChange, PutRight, Changes]
  | cons e rest ih =>
      rw [PutRight, Changes]
      cases hs : step s e with
      | error err => rw [lastChange_error hs]; cases change s e <;> simp
      | ok next =>
          simp only [lastChange_ok hs, Except.ok.injEq, exists_eq_left', forall_eq']
          by_cases hlater : Changes step change rest next
          · obtain ⟨left, hleft⟩ := Option.ne_none_iff_exists'.mp
              fun hnone => lastChange_eq_none.mp hnone hlater
            have hright : (lastChange step change rest next).getD prior = right ↔
                PutRight step change right rest next ∧
                  (Changes step change rest next ∨ prior = right) := ih
            rw [hleft] at hright ⊢
            simpa [hlater] using hright
          · have hnone := lastChange_eq_none.mpr hlater
            -- nothing is changed later, so nothing has to be put right later
            have hlate : PutRight step change right rest next :=
              (ih.mp (show (lastChange step change rest next).getD right = right by
                rw [hnone]; rfl)).1
            rw [hnone]
            cases change s e <;> simp [hlater, hlate]

end

/-- In each state of a walk, of what has been visited and what comes next. -/
def EachStep {S E ε : Type} (step : S → E → Except ε S) (whole : List E) (start : S)
    (P : List E → S → E → Prop) : Prop :=
  ∀ visited e rest s, whole = visited ++ e :: rest → visited.foldlM step start = .ok s →
    P visited s e

section

variable {S E ε : Type} {step : S → E → Except ε S} {start : S} {P : List E → S → E → Prop}

/-- A list that ends with an entry, split at some entry. -/
theorem snoc_split {l before rest : List E} {a e : E} (h : l ++ [a] = before ++ e :: rest) :
    (before = l ∧ e = a) ∨ ∃ rest', l = before ++ e :: rest' := by
  cases rest using List.reverseRecOn with
  | nil =>
      obtain ⟨rfl, hlast⟩ := List.append_inj' h rfl
      exact .inl ⟨rfl, (List.cons.inj hlast).1.symm⟩
  | append_singleton rest last =>
      rw [← List.cons_append, ← List.append_assoc] at h
      obtain ⟨rfl, -⟩ := List.append_inj' h rfl
      exact .inr ⟨rest, rfl⟩

theorem eachStep_nil : EachStep step [] start P := by
  intro visited e rest s hwhole
  simp at hwhole

theorem eachStep_snoc {visited : List E} {e : E} {s : S}
    (h : visited.foldlM step start = .ok s) :
    EachStep step (visited ++ [e]) start P ↔ EachStep step visited start P ∧ P visited s e := by
  constructor
  · intro hsteps
    refine ⟨fun before e' rest s' hwhole => ?_, hsteps visited e [] s rfl h⟩
    exact hsteps before e' (rest ++ [e]) s' (by simp [hwhole])
  · intro hsteps before e' rest s' hwhole hs'
    rcases snoc_split hwhole with ⟨rfl, rfl⟩ | ⟨rest', hvisited⟩
    · rw [h] at hs'
      obtain rfl := Except.ok.inj hs'
      exact hsteps.2
    · exact hsteps.1 before e' rest' s' hvisited hs'

end

end Zos4.Files
