import Zos4.Files.Tree

/-!
# Lookups

Where a path leads in a tree of files. Names are looked up in directories only, and
where the name of a link stands, the walk goes on along its target, from the directory
the link is in or from the root. `resolve` follows what is at one place, and `lookup`
walks the names of a path from the root; what they come to is no link, and there may
be nothing at it. `place` is where the last name of a path stands itself.

A lookup that came to a place still does in a tree that keeps the directories and the
links (`lookup_mono`).
-/

namespace Zos4.Files

inductive FsError where
  | notExist
  | text (msg : String)
  deriving DecidableEq, Repr

/-- A walk that goes on by one. -/
theorem foldlM_snoc {S E ε : Type} {step : S → E → Except ε S} {l : List E} {e : E}
    {s s' : S} : (l ++ [e]).foldlM step s = .ok s' ↔
      ∃ mid, l.foldlM step s = .ok mid ∧ step mid e = .ok s' := by
  rw [List.foldlM_append]
  cases hl : l.foldlM step s with
  | error err =>
      show (Except.error err : Except ε S) = .ok s' ↔ _
      simp
  | ok mid =>
      show [e].foldlM step mid = .ok s' ↔ _
      simp

namespace Tree

variable {C : Type} (t : Tree Location C)

/-- What is looked up in a directory. -/
def inDir {α : Type} (dir : Location) (found : Except FsError α) : Except FsError α :=
  match t dir with
  | none => .error .notExist
  | some .dir => found
  | some _ => .error (.text "not a directory")

/-- Where a name in the target of a link leads, with `next` for what is at its place. -/
def enter (next : Location → Except FsError Location) (dir : Location) (name : Bytes) :
    Except FsError Location :=
  t.inDir dir
    (if name = [] ∨ name = dot then .ok dir
    else if name = dotdot then .ok dir.dropLast
    else next (dir ++ [name]))

/-- Where a place leads when links are followed, one within another so many times. -/
def follow : Nat → Location → Except FsError Location
  | 0, place =>
      match t place with
      | some (.link _) => .error (.text "too many levels of symbolic links")
      | _ => .ok place
  | depth + 1, place =>
      match t place with
      | some (.link target) =>
          (target.splitOn sep).foldlM (t.enter (follow depth))
            (if isAbs target then [] else place.dropLast)
      | _ => .ok place

def maxLinks : Nat := 40

def resolve (place : Location) : Except FsError Location := t.follow maxLinks place

/-- Where the names of a path lead, from the root. -/
def lookup (path : Location) : Except FsError Location :=
  path.foldlM (fun dir name => t.inDir dir (t.resolve (dir ++ [name]))) []

/-- The tree below a place. -/
def below (root : Location) : Tree Location C := fun p => t (root ++ p)

/-- The place of the last name of a path. -/
def place (path : Location) : Except FsError Location :=
  match path.getLast? with
  | none => t.inDir [] (.ok [])
  | some name => (t.lookup path.dropLast).bind fun dir => t.inDir dir (.ok (dir ++ [name]))

variable {t} {t' : Tree Location C} {dir p r : Location} {path : Location} {name : Bytes}

theorem inDir_ok {α : Type} {found : Except FsError α} {a : α}
    (h : t.inDir dir found = .ok a) : t dir = some .dir ∧ found = .ok a := by
  unfold inDir at h
  split at h
  · cases h
  · next hdir => exact ⟨hdir, h⟩
  · cases h

theorem inDir_dir {α : Type} {found : Except FsError α} (h : t dir = some .dir) :
    t.inDir dir found = found := by rw [inDir, h]

theorem follow_of_not_link {depth : Nat} (h : ∀ target, t p ≠ some (.link target)) :
    t.follow depth p = .ok p := by
  cases depth with
  | zero =>
      unfold follow
      split
      · next target hlink => exact absurd hlink (h target)
      · rfl
  | succ depth =>
      unfold follow
      split
      · next target hlink => exact absurd hlink (h target)
      · rfl

theorem resolve_of_not_link (h : ∀ target, t p ≠ some (.link target)) :
    t.resolve p = .ok p := follow_of_not_link h

@[simp] theorem lookup_nil : t.lookup [] = .ok [] := rfl

/-- The last name of a path is looked up in the directory that the others lead to. -/
theorem lookup_snoc : t.lookup (path ++ [name]) = .ok r ↔
    ∃ dir, t.lookup path = .ok dir ∧ t dir = some .dir ∧ t.resolve (dir ++ [name]) = .ok r := by
  rw [lookup, foldlM_snoc]
  constructor
  · intro h
    obtain ⟨dir, hpath, hname⟩ := h
    obtain ⟨hdir, hresolve⟩ := inDir_ok hname
    exact ⟨dir, hpath, hdir, hresolve⟩
  · intro h
    obtain ⟨dir, hpath, hdir, hresolve⟩ := h
    exact ⟨dir, hpath, (inDir_dir hdir).trans hresolve⟩

theorem place_nil_ok (h : t.place [] = .ok p) : t [] = some .dir ∧ p = [] := by
  obtain ⟨hdir, hp⟩ := inDir_ok h
  exact ⟨hdir, (Except.ok.inj hp).symm⟩

theorem place_snoc_ok (h : t.place (path ++ [name]) = .ok p) :
    ∃ dir, t.lookup path = .ok dir ∧ t dir = some .dir ∧ p = dir ++ [name] := by
  simp only [place, List.getLast?_append, List.getLast?_singleton, Option.some_or,
    List.dropLast_concat] at h
  cases hpath : t.lookup path with
  | error err => simp [hpath, Except.bind] at h
  | ok dir =>
      rw [hpath] at h
      obtain ⟨hdir, hp⟩ := inDir_ok h
      exact ⟨dir, rfl, hdir, (Except.ok.inj hp).symm⟩

/-- Where the last name of a path stands, the path leads. -/
theorem resolve_place (hp : t.place path = .ok p) (h : t.lookup path = .ok r)
    (hr : ∀ target, t r ≠ some (.link target)) : t.resolve p = .ok r := by
  cases path using List.reverseRecOn with
  | nil =>
      obtain ⟨-, rfl⟩ := place_nil_ok hp
      obtain rfl := Except.ok.inj h
      exact resolve_of_not_link hr
  | append_singleton path name =>
      obtain ⟨dir, hdir, -, rfl⟩ := place_snoc_ok hp
      obtain ⟨dir', hdir', -, hresolve⟩ := lookup_snoc.mp h
      rw [hdir] at hdir'
      obtain rfl := Except.ok.inj hdir'
      exact hresolve

/-- A path leads where what stands at its last name does. -/
theorem lookup_of_place (hp : t.place path = .ok p) (h : t.resolve p = .ok r) :
    t.lookup path = .ok r := by
  cases path using List.reverseRecOn with
  | nil =>
      obtain ⟨hdir, rfl⟩ := place_nil_ok hp
      rw [resolve_of_not_link (by simp [hdir])] at h
      rw [lookup_nil, Except.ok.inj h]
  | append_singleton path name =>
      obtain ⟨dir, hdir, hfound, rfl⟩ := place_snoc_ok hp
      exact lookup_snoc.mpr ⟨dir, hdir, hfound, h⟩

/-! ## Other trees -/

/-- What was a directory is one, and what was a link is the same link. -/
structure Keeps (t t' : Tree Location C) : Prop where
  dirs : ∀ l, t l = some .dir → t' l = some .dir
  links : ∀ l target, t l = some (.link target) → t' l = some (.link target)

theorem Keeps.refl : Keeps t t := ⟨fun _ h => h, fun _ _ h => h⟩

theorem Keeps.trans {t'' : Tree Location C} (h : Keeps t t') (h' : Keeps t' t'') :
    Keeps t t'' :=
  ⟨fun l hl => h'.dirs l (h.dirs l hl), fun l target hl => h'.links l target (h.links l target hl)⟩

/-- Only a place where nothing was has changed. -/
theorem keeps_fresh (h : t p = none) (hother : ∀ l, l ≠ p → t' l = t l) : Keeps t t' := by
  constructor
  · intro l hl
    rw [hother l (fun heq => by simp [heq, h] at hl)]
    exact hl
  · intro l target hl
    rw [hother l (fun heq => by simp [heq, h] at hl)]
    exact hl

theorem foldlM_enter_mono {next next' : Location → Except FsError Location}
    {names : List Bytes} (hkeeps : Keeps t t')
    (hnext : ∀ p r, next p = .ok r → (∀ target, t' r ≠ some (.link target)) → next' p = .ok r)
    (h : names.foldlM (t.enter next) dir = .ok r)
    (hr : ∀ target, t' r ≠ some (.link target)) :
    names.foldlM (t'.enter next') dir = .ok r := by
  induction names using List.reverseRecOn generalizing r with
  | nil => exact h
  | append_singleton names name ih =>
      obtain ⟨mid, hnames, hstep⟩ := foldlM_snoc.mp h
      obtain ⟨hmid, hfound⟩ := inDir_ok hstep
      have hmid' := hkeeps.dirs mid hmid
      refine foldlM_snoc.mpr ⟨mid, ih hnames (by simp [hmid']), ?_⟩
      rw [enter, inDir_dir hmid']
      split at hfound
      · next hname => rwa [if_pos hname]
      · next hname =>
          rw [if_neg hname]
          split at hfound
          · next hname => rwa [if_pos hname]
          · next hname =>
              rw [if_neg hname]
              exact hnext _ _ hfound hr

theorem follow_mono {depth : Nat} (hkeeps : Keeps t t') (h : t.follow depth p = .ok r)
    (hr : ∀ target, t' r ≠ some (.link target)) : t'.follow depth p = .ok r := by
  induction depth generalizing p r with
  | zero =>
      unfold follow at h
      split at h
      · cases h
      · cases h
        exact follow_of_not_link hr
  | succ depth ih =>
      unfold follow at h
      split at h
      · next target hlink =>
          unfold follow
          rw [hkeeps.links p target hlink]
          exact foldlM_enter_mono hkeeps (fun _ _ hnext hr => ih hnext hr) h hr
      · cases h
        exact follow_of_not_link hr

theorem resolve_mono (hkeeps : Keeps t t') (h : t.resolve p = .ok r)
    (hr : ∀ target, t' r ≠ some (.link target)) : t'.resolve p = .ok r := by
  rw [resolve] at h ⊢
  exact follow_mono hkeeps h hr

theorem lookup_mono (hkeeps : Keeps t t') (h : t.lookup path = .ok r)
    (hr : ∀ target, t' r ≠ some (.link target)) : t'.lookup path = .ok r := by
  induction path using List.reverseRecOn generalizing r with
  | nil =>
      rw [lookup_nil] at h ⊢
      exact h
  | append_singleton path name ih =>
      obtain ⟨dir, hpath, hdir, hresolve⟩ := lookup_snoc.mp h
      have hdir' := hkeeps.dirs dir hdir
      have hpath' := ih hpath (by simp [hdir'])
      exact lookup_snoc.mpr ⟨dir, hpath', hdir', resolve_mono hkeeps hresolve hr⟩

end Tree

end Zos4.Files
