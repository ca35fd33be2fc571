import Mathlib.Data.List.Basic

/-!
# Unix paths

A path is a string of bytes. What it leads to is decided by its components, the
names between the separators, and by what it starts at: `Places.locate` walks them
one by one, through whatever directories there are. Joining two paths is one walk
after the other (`locate_append`), and that is all that is used of most paths.

`clean`, `join`, `base` and `rel` are those of Go's `path/filepath`, which know of
names only. In the places that names alone make up, `lexical`, the relative path
from one directory to another leads there (`locate_rel`).
-/

namespace Zos4.Files

abbrev Bytes := List UInt8

/-- The bytes of a string. -/
def bytes (s : String) : Bytes := s.toUTF8.toList

def sep : UInt8 := 47

def dot : Bytes := [46]

def dotdot : Bytes := [46, 46]

/-! ## Components -/

/-- The names a path is made of; separators next to each other count as one. -/
def components (path : Bytes) : List Bytes := (path.splitOn sep).filter (· ≠ [])

def isAbs (path : Bytes) : Bool := path.head? = some sep

theorem isAbs_append {a : Bytes} (h : a ≠ []) (b : Bytes) :
    isAbs (a ++ b) = isAbs a := by
  cases a with
  | nil => exact absurd rfl h
  | cons first rest => rfl

theorem ne_nil_of_isAbs {path : Bytes} (h : isAbs path = true) : path ≠ [] := by
  intro hnil
  rw [hnil] at h
  exact absurd h (by decide)

theorem components_append (a b : Bytes) :
    components (a ++ sep :: b) = components a ++ components b := by
  rw [components, List.splitOn_append_cons_self, List.filter_append]
  rfl

/-- What a component is: a name that is not empty, and has no separator. -/
def Proper (name : Bytes) : Prop := name ≠ [] ∧ sep ∉ name

theorem not_mem_of_mem_splitOn {path name : Bytes} (h : name ∈ path.splitOn sep) :
    sep ∉ name := by
  induction path generalizing name with
  | nil =>
      rw [List.splitOn_nil, List.mem_singleton] at h
      simp [h]
  | cons c path ih =>
      rw [List.splitOn_cons_eq_if_modifyHead] at h
      split at h
      · rcases List.mem_cons.mp h with h | h
        · simp [h]
        · exact ih h
      · next hc =>
          cases hpath : path.splitOn sep with
          | nil => exact absurd hpath (List.splitOn_ne_nil sep path)
          | cons first rest =>
              rw [hpath, List.modifyHead_cons] at h
              rw [hpath] at ih
              rcases List.mem_cons.mp h with h | h
              · have hfirst := ih List.mem_cons_self
                have hne : sep ≠ c := fun heq => hc (by simp [heq])
                rw [h, List.mem_cons]
                exact fun hor => hor.elim hne hfirst
              · exact ih (List.mem_cons_of_mem first h)

theorem proper_of_mem_components {path name : Bytes} (h : name ∈ components path) :
    Proper name := by
  rw [components, List.mem_filter] at h
  exact ⟨by simpa using h.2, not_mem_of_mem_splitOn h.1⟩

/-- A path written from its names has these for its components. -/
theorem components_intercalate {names : List Bytes} (h : ∀ name ∈ names, Proper name) :
    components ([sep].intercalate names) = names := by
  cases hnames : names with
  | nil => rfl
  | cons first rest =>
      rw [← hnames, components, List.splitOn_intercalate sep (fun name hname => (h name hname).2)
        (by simp [hnames])]
      exact List.filter_eq_self.mpr fun name hname => by simpa using (h name hname).1

/-! ## Places -/

/-- Places, and where a name leads from each of them. -/
structure Places (L : Type) where
  root : L
  enter : L → Bytes → L

variable {L : Type}

/-- Where a path leads from a place, the root if it is absolute. -/
def Places.locate (w : Places L) (start : L) (path : Bytes) : L :=
  (components path).foldl w.enter (if isAbs path then w.root else start)

/-- A joined path leads where its second part leads from where its first part leads. -/
theorem Places.locate_append (w : Places L) (start : L) {a : Bytes} (h : a ≠ [])
    (b : Bytes) :
    w.locate start (a ++ sep :: b) = (components b).foldl w.enter (w.locate start a) := by
  rw [Places.locate, components_append, isAbs_append h, List.foldl_append]
  rfl

/-! ## `path/filepath` -/

/-- What a name does to the names before it, the last one first. -/
def cleanStep (rooted : Bool) (stack : List Bytes) (name : Bytes) : List Bytes :=
  if name = dot then stack
  else if name = dotdot then
    match stack with
    | [] => if rooted then [] else [dotdot]
    | top :: rest => if top = dotdot then dotdot :: top :: rest else rest
  else name :: stack

def clean (path : Bytes) : Bytes :=
  let names := ((components path).foldl (cleanStep (isAbs path)) []).reverse
  if isAbs path then sep :: [sep].intercalate names
  else if names = [] then dot
  else [sep].intercalate names

/-- `Join` of two elements. -/
def join (a b : Bytes) : Bytes :=
  if a = [] then (if b = [] then [] else clean b) else clean (a ++ sep :: b)

def base (path : Bytes) : Bytes :=
  match (components path).getLast? with
  | some name => name
  | none => if path = [] then dot else [sep]

/-- A path that is absolute. -/
structure AbsPath where
  path : Bytes
  isAbs : isAbs path = true
  deriving DecidableEq

theorem isAbs_clean {path : Bytes} (h : isAbs path = true) :
    isAbs (clean path) = true := by
  simp only [clean, h, if_true]
  rfl

/-- `Abs`; the current directory is looked up only where it is needed. -/
def abs {ε : Type} (cwd : Except ε AbsPath) (path : Bytes) : Except ε AbsPath :=
  if h : isAbs path = true then .ok ⟨clean path, isAbs_clean h⟩
  else cwd.map fun cwd => ⟨join cwd.path path, by
    have hne := ne_nil_of_isAbs cwd.isAbs
    rw [join, if_neg hne]
    exact isAbs_clean ((isAbs_append hne _).trans cwd.isAbs)⟩

/-- The names that are left of two paths after those they have in common. -/
def apart : List Bytes → List Bytes → List Bytes × List Bytes
  | a :: as, b :: bs => if a = b then apart as bs else (a :: as, b :: bs)
  | as, bs => (as, bs)

/-- The names of an absolute path, as `Clean` leaves them. -/
def absNames (path : Bytes) : List Bytes :=
  ((components path).foldl (cleanStep true) []).reverse

/-- The names that lead from one absolute path to another. -/
def relNames (basepath targpath : Bytes) : List Bytes :=
  let (up, down) := apart (absNames basepath) (absNames targpath)
  up.map (fun _ => dotdot) ++ down

/-- `Rel` of two absolute paths. -/
def rel (basepath targpath : Bytes) : Bytes :=
  let names := relNames basepath targpath
  if names = [] then dot else [sep].intercalate names

/-! ## Places made of names -/

/-- Directories as the names that lead to them, the last one first. -/
def lexical : Places (List Bytes) where
  root := []
  enter := cleanStep true

theorem locate_lexical {path : Bytes} (h : isAbs path = true) (start : List Bytes) :
    lexical.locate start path = (absNames path).reverse := by
  rw [absNames, List.reverse_reverse, Places.locate, if_pos h]
  rfl

/-- A name that is left by `Clean` in an absolute path. -/
def Plain (name : Bytes) : Prop := Proper name ∧ name ≠ dot ∧ name ≠ dotdot

theorem Plain.push {name : Bytes} (h : Plain name) (rooted : Bool) (stack : List Bytes) :
    cleanStep rooted stack name = name :: stack := by
  simp [cleanStep, h.2.1, h.2.2]

theorem Plain.pop {name : Bytes} (h : Plain name) (rooted : Bool) (stack : List Bytes) :
    cleanStep rooted (name :: stack) dotdot = stack := by
  have hdot : dotdot ≠ dot := by decide
  simp [cleanStep, hdot, h.2.2]

theorem foldl_push {names : List Bytes} (h : ∀ name ∈ names, Plain name)
    (rooted : Bool) (stack : List Bytes) :
    names.foldl (cleanStep rooted) stack = names.reverse ++ stack := by
  induction names generalizing stack with
  | nil => rfl
  | cons name names ih =>
      rw [List.foldl_cons, (h name List.mem_cons_self).push,
        ih fun name hname => h name (List.mem_cons_of_mem _ hname)]
      simp

/-- As many `..` as there are names lead out of them. -/
theorem foldl_pop (up : List Bytes) {names : List Bytes} (h : ∀ name ∈ names, Plain name)
    (hlength : up.length = names.length) (rooted : Bool) (stack : List Bytes) :
    (up.map fun _ => dotdot).foldl (cleanStep rooted) (names ++ stack) = stack := by
  induction up generalizing names with
  | nil =>
      obtain rfl := List.eq_nil_of_length_eq_zero hlength.symm
      rfl
  | cons _ up ih =>
      cases names with
      | nil => cases hlength
      | cons name names =>
          rw [List.map_cons, List.foldl_cons, List.cons_append,
            (h name List.mem_cons_self).pop]
          exact ih (fun name hname => h name (List.mem_cons_of_mem _ hname))
            (Nat.succ.inj hlength)

theorem plain_of_mem_absNames (path : Bytes) {name : Bytes} (h : name ∈ absNames path) :
    Plain name := by
  have hstack : ∀ names : List Bytes, (∀ name ∈ names, Proper name) → ∀ stack : List Bytes,
      (∀ name ∈ stack, Plain name) →
        ∀ name ∈ names.foldl (cleanStep true) stack, Plain name := by
    intro names
    induction names with
    | nil => exact fun _ stack hstack => hstack
    | cons first names ih =>
        intro hnames stack hstack
        refine ih (fun name hname => hnames name (List.mem_cons_of_mem _ hname)) _ ?_
        unfold cleanStep
        split
        · exact hstack
        · next hdot =>
            split
            · cases stack with
              | nil => exact List.forall_mem_nil _
              | cons top rest =>
                  have htop := (hstack top List.mem_cons_self).2.2
                  simp only [htop, if_false]
                  exact fun name hname => hstack name (List.mem_cons_of_mem _ hname)
            · next hdotdot =>
                intro name hname
                rcases List.mem_cons.mp hname with rfl | hname
                · exact ⟨hnames _ List.mem_cons_self, hdot, hdotdot⟩
                · exact hstack name hname
  exact hstack _ (fun name hname => proper_of_mem_components hname) []
    (List.forall_mem_nil _) name (List.mem_reverse.mp h)

/-- What two paths have in common is what both begin with. -/
theorem apart_spec (as bs : List Bytes) :
    ∃ common, as = common ++ (apart as bs).1 ∧ bs = common ++ (apart as bs).2 := by
  fun_induction apart as bs with
  | case1 as name bs ih =>
      obtain ⟨common, has, hbs⟩ := ih
      refine ⟨name :: common, ?_, ?_⟩
      · rw [List.cons_append, ← has]
      · rw [List.cons_append, ← hbs]
  | case2 => exact ⟨[], rfl, rfl⟩
  | case3 => exact ⟨[], rfl, rfl⟩

theorem proper_dotdot : Proper dotdot := ⟨by decide, by decide⟩

theorem components_dot : components dot = [dot] := by decide

theorem isAbs_intercalate {names : List Bytes} (h : ∀ name ∈ names, Proper name) :
    isAbs ([sep].intercalate names) = false := by
  cases names with
  | nil => rfl
  | cons first rest =>
      obtain ⟨hne, hsep⟩ := h first List.mem_cons_self
      cases first with
      | nil => exact absurd rfl hne
      | cons c cs =>
          have hc : c ≠ sep := fun heq => hsep (by simp [heq])
          cases rest <;> simp [isAbs, List.intercalate, hc]

theorem proper_of_mem_relNames {basepath targpath name : Bytes}
    (h : name ∈ relNames basepath targpath) : Proper name := by
  obtain ⟨common, -, htarg⟩ := apart_spec (absNames basepath) (absNames targpath)
  rcases List.mem_append.mp h with h | h
  · obtain ⟨_, -, rfl⟩ := List.mem_map.mp h
    exact proper_dotdot
  · have hname : name ∈ absNames targpath := by
      rw [htarg]
      exact List.mem_append_right _ h
    exact (plain_of_mem_absNames targpath hname).1

theorem isAbs_rel (basepath targpath : Bytes) : isAbs (rel basepath targpath) = false := by
  simp only [rel]
  split
  · rfl
  · exact isAbs_intercalate fun name hname => proper_of_mem_relNames hname

theorem rel_ne_nil (basepath targpath : Bytes) : rel basepath targpath ≠ [] := by
  simp only [rel]
  split
  · decide
  · next hnames =>
      intro hnil
      have hproper : ∀ name ∈ relNames basepath targpath, Proper name :=
        fun name hname => proper_of_mem_relNames hname
      have hcomponents := components_intercalate hproper
      rw [hnil] at hcomponents
      exact hnames hcomponents.symm

theorem foldl_components_rel (basepath targpath : Bytes) (stack : List Bytes) :
    (components (rel basepath targpath)).foldl (cleanStep true) stack =
      (relNames basepath targpath).foldl (cleanStep true) stack := by
  simp only [rel]
  split
  · next hnil => rw [hnil, components_dot]; rfl
  · rw [components_intercalate fun name hname => proper_of_mem_relNames hname]

theorem foldl_relNames (basepath targpath : Bytes) :
    (relNames basepath targpath).foldl (cleanStep true) (absNames basepath).reverse =
      (absNames targpath).reverse := by
  obtain ⟨common, hup, hdown⟩ := apart_spec (absNames basepath) (absNames targpath)
  generalize hapart : apart (absNames basepath) (absNames targpath) = pair at hup hdown
  obtain ⟨up, down⟩ := pair
  have hnames : relNames basepath targpath = up.map (fun _ => dotdot) ++ down := by
    rw [relNames, hapart]
  have hplainUp : ∀ name ∈ up.reverse, Plain name := by
    intro name hname
    refine plain_of_mem_absNames basepath ?_
    rw [hup]
    exact List.mem_append_right _ (List.mem_reverse.mp hname)
  have hplainDown : ∀ name ∈ down, Plain name := by
    intro name hname
    refine plain_of_mem_absNames targpath ?_
    rw [hdown]
    exact List.mem_append_right _ hname
  calc (relNames basepath targpath).foldl (cleanStep true) (absNames basepath).reverse
      = down.foldl (cleanStep true) ((up.map fun _ => dotdot).foldl (cleanStep true)
          (up.reverse ++ common.reverse)) := by
        rw [hnames, List.foldl_append, hup, List.reverse_append]
    _ = down.foldl (cleanStep true) common.reverse := by
        rw [foldl_pop up hplainUp (List.length_reverse).symm]
    _ = (absNames targpath).reverse := by
        rw [foldl_push hplainDown, hdown, List.reverse_append]

/-- The relative path from one directory to another leads there. -/
theorem locate_rel {basepath targpath : Bytes} (hbase : isAbs basepath = true)
    (htarg : isAbs targpath = true) :
    lexical.locate lexical.root (basepath ++ sep :: rel basepath targpath) =
      lexical.locate lexical.root targpath := by
  rw [lexical.locate_append _ (ne_nil_of_isAbs hbase), locate_lexical hbase,
    locate_lexical htarg]
  exact (foldl_components_rel _ _ _).trans (foldl_relNames _ _)

end Zos4.Files
