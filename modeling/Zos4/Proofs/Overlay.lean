import Zos4.Proofs.SameTree

/-!
# The package over what was there

A package is installed over a tree that is not empty. The result is to be the tree with
the entries of the package put over it (`Overlay`). An entry does not only change what is at
its own place (`change`). Where a link stands that leads nowhere, a file is taken to be new,
and it is written at the end of the link. And where something stands, it is renamed to the
name with `.old` and removed under that name, which takes what was there with it.

So the result is the overlay if and only if what an entry does wrong is put right by a later
one (`Settles`), and the paths of the entries lead to them in the overlay (`overlay_iff`).
Where each entry comes to its own place and the clean-ups succeed, a file that is written
through a link is never put right, nor is what is removed, unless its own entry is still to
come (`lost_step`), and the places are settled if and only if each step is harmless in the
state before it.
-/

namespace Zos4.Upgrade

open Zos4.Files
open Zos4.Bootstrap (installed joined)

abbrev Entry := Location × Node Bytes

/-! ## The overlay -/

/-- Where the path of an entry leads, for a directory at the end of the links. -/
def leadsTo (destination : Bytes) (fs : Files) (entry : Entry) : Except FsError Location :=
  if entry.2.isDir then fs.lookup (destPath destination entry.1)
  else fs.place (destPath destination entry.1)

/-- What is found there. -/
def found (destination : Bytes) (fs : Files) (entry : Entry) : Option (Node Bytes) :=
  match leadsTo destination fs entry with
  | .error _ => none
  | .ok place => fs place

/-- The place of an entry, where `real` is where the directories of the package are. -/
def spot (real : Location → Location) (entry : Entry) : Location :=
  if entry.2.isDir then real entry.1 else real entry.1.dropLast ++ [entry.1.getLastD []]

variable (store : Package Bytes) (destination : Bytes) (real : Location → Location)

/-- What there is to be at a place: what its entry is installed as, the last one if there are
several, and what was there if it has none. There may be anything at the place of an entry
that is not copied. -/
def overlaid (prior : Files) (l : Location) : Option (Option (Node Bytes)) :=
  match store.entries.reverse.find? fun e => spot real e = l with
  | some e => (installed (joined destination) e.2).map some
  | none => some (prior l)

/-- The entries are found at their paths, with the content and the targets that they have. -/
def There (fs : Files) : Prop :=
  ∀ e ∈ store.entries, ∀ node, installed (joined destination) e.2 = some node →
    found destination fs e = some node

/-- They are laid over what was there, and nothing else has changed. -/
structure Overlay (prior fs : Files) : Prop where
  there : There store destination fs
  laid : ∀ l node, overlaid store destination real prior l = some node → fs l = node

/-- The directories of the package are in the tree, and no two are the same. -/
structure Resolves (prior : Files) : Prop where
  dirs : ∀ d, (d, .dir) ∈ store.entries →
    prior.lookup (destPath destination d) = .ok (real d) ∧ prior (real d) = some .dir
  distinct : ∀ d d', (d, .dir) ∈ store.entries → (d', .dir) ∈ store.entries →
    real d = real d' → d = d'

/-- When its turn comes the path of each entry leads to its place, and no other entry has
the same. -/
structure Direct (calls : Location → EntryCalls) (prior : Files) : Prop where
  comes : EachStep (copyEntry destination calls) store.entries prior fun _ fs e =>
    ∀ r, leadsTo destination fs e = .ok r → r = spot real e
  distinct : ∀ e ∈ store.entries, ∀ e' ∈ store.entries, spot real e = spot real e' → e = e'

/-! ## What an entry changes -/

/-- What is at the place is renamed, with what is below it if it is a directory. -/
def movedAway (fs : Files) (dst : Location) : Files :=
  if fs dst = some .dir then fs.move dst (backup dst) else fs.rename dst (backup dst)

/-- What a file leaves at the place `l`, if it changes it; `dst` is its own. -/
def fileChange (calls : CopyCalls) (content : Bytes) (fs : Files) (l dst : Location) :
    Option (Option (Node Bytes)) :=
  if isNotExist calls.stat fs dst then
    if fs.resolve dst = .ok l then some (some (.file content)) else none
  else if l = dst then some (some (.file content))
  else if l = backup dst ∧ calls.removeOld = none then some none
  else if l = backup dst ∨ (fs dst = some .dir ∧ (dst <+: l ∨ backup dst <+: l)) then
    some (movedAway fs dst l)
  else none

/-- The same of any entry, whose path leads to a place of its own in the state before it. -/
def change (calls : Location → EntryCalls) (l : Location) (fs : Files) (e : Entry) :
    Option (Option (Node Bytes)) :=
  match fs.place (destPath destination e.1), e.2 with
  | .ok dst, .dir => if fs dst = none ∧ l = dst then some (some .dir) else none
  | .ok dst, .file content => fileChange (calls e.1).file content fs l dst
  | .ok dst, .link target =>
      if l = dst then some (some (.link (joined destination target))) else none
  | _, _ => none

/-- What the last entry to change it leaves at a place, or what was there. -/
def settled (calls : Location → EntryCalls) (prior : Files) : Files := fun l =>
  (lastChange (copyEntry destination calls) (change destination calls l) store.entries
    prior).getD (prior l)

/-- Whatever an entry puts or leaves where something else is to be, a later one changes it
again; and the place of an entry that none changes has what is to be there. -/
structure Settles (calls : Location → EntryCalls) (prior : Files) : Prop where
  putRight : ∀ l node, overlaid store destination real prior l = some node →
    PutRight (copyEntry destination calls) (change destination calls l) node store.entries prior
  reached : ∀ e ∈ store.entries, ∀ node,
    overlaid store destination real prior (spot real e) = some node →
      Changes (copyEntry destination calls) (change destination calls (spot real e))
        store.entries prior ∨ prior (spot real e) = node

/-- What is to be there, and what is left where there may be anything. -/
def wanted (calls : Location → EntryCalls) (prior : Files) : Files := fun l =>
  (overlaid store destination real prior l).getD (settled store destination calls prior l)

/-! ## One entry -/

/-- The place of an entry that is still to be copied, or is never copied. -/
def Pending (visited : List Entry) (l : Location) : Prop :=
  ∃ e ∈ store.entries, spot real e = l ∧ (e ∉ visited ∨ e.2 = .special)

/-- A file is new where nothing is, and where something is there is no backup of that
name to be lost. -/
def Harmless (calls : Location → EntryCalls) (visited : List Entry) (fs : Files)
    (e : Entry) : Prop :=
  ∀ content, e.2 = .file content →
    if isNotExist (calls e.1).file.stat fs (spot real e) then fs (spot real e) = none
    else fs (backup (spot real e)) = none ∨
      Pending store real visited (backup (spot real e))

/-- The clean-up does not fail. What is removed is empty, if it is a directory. -/
def CleansUp (calls : CopyCalls) (dst : Location) (fs : Files) : Prop :=
  calls.removeOld = none ∧ (fs dst = some .dir → fs.EmptyBelow dst)

/-- What is done at an entry. -/
inductive Stepped (calls : Location → EntryCalls) (fs : Files) (e : Entry)
    (fs' : Files) : Prop
  | kept : (∀ content, e.2 ≠ .file content) →
      (∀ node, installed (joined destination) e.2 = some node →
        fs (spot real e) = some node) →
      fs' = fs → Stepped calls fs e fs'
  | put {node : Node Bytes} : installed (joined destination) e.2 = some node →
      (∀ content, e.2 = .file content →
        isNotExist (calls e.1).file.stat fs (spot real e) = true ∧ fs (spot real e) = none) →
      fs' = fs.put (spot real e) node → Stepped calls fs e fs'
  | replaced {content : Bytes} : e.2 = .file content →
      isNotExist (calls e.1).file.stat fs (spot real e) = false →
      fs' = ((fs.rename (spot real e) (backup (spot real e))).put (spot real e)
        (.file content)).erase (backup (spot real e)) → Stepped calls fs e fs'
  | through {content target : Bytes} {l : Location} : e.2 = .file content →
      isNotExist (calls e.1).file.stat fs (spot real e) = true →
      fs (spot real e) = some (.link target) → fs l = none →
      fs' = fs.put l (.file content) → Stepped calls fs e fs'

theorem not_prefix_backup {dst : Location} (h : dst ≠ []) : ¬ dst <+: backup dst := by
  intro h'
  have hlength : dst.length = (backup dst).length := by
    have hpos : 0 < dst.length := List.length_pos_of_ne_nil h
    simp only [backup, withSuffix, List.length_append, List.length_dropLast,
      List.length_singleton]
    omega
  exact backup_ne (List.IsPrefix.eq_of_length h' hlength).symm

theorem rename_ok {call : Option FsError} {dst : Location} {fs fs' : Files}
    (h : rename call fs dst (backup dst) = .ok fs') : fs' = movedAway fs dst := by
  unfold rename at h
  split at h
  · cases h
  · rw [movedAway]
    cases hfound : fs dst with
    | none =>
        rw [hfound] at h
        cases h
    | some node =>
        rw [hfound] at h
        cases hold : fs (backup dst) with
        | none =>
            rw [hold] at h
            cases node <;> cases h <;> rfl
        | some old =>
            rw [hold] at h
            cases old <;> cases node <;> cases h <;> rfl

theorem movedAway_self {dst : Location} {fs : Files} : movedAway fs dst dst = none := by
  rw [movedAway]
  split
  · rw [Tree.move, if_pos (List.prefix_refl dst)]
  · exact Tree.rename_from backup_ne.symm

theorem movedAway_of_not {dst l : Location} {fs : Files} (hdst : l ≠ dst)
    (h : ¬ (l = backup dst ∨ (fs dst = some .dir ∧ (dst <+: l ∨ backup dst <+: l)))) :
    movedAway fs dst l = fs l := by
  rw [not_or] at h
  rw [movedAway]
  split
  · next hdir =>
      have hbelow := not_or.mp fun hbelow => h.2 ⟨hdir, hbelow⟩
      rw [Tree.move, if_neg hbelow.1, if_neg hbelow.2]
  · exact Tree.rename_of_ne hdst h.1

theorem movedAway_of_empty {dst : Location} {fs : Files} (hdst : dst ≠ [])
    (hempty : fs dst = some .dir → fs.EmptyBelow dst) :
    movedAway fs dst = fs.rename dst (backup dst) := by
  rw [movedAway]
  split
  · next hdir => exact Tree.move_of_empty hdir (hempty hdir) (not_prefix_backup hdst)
  · rfl

theorem openFile_ok {call : Option FsError} {dst l : Location} {fs : Files}
    (h : openFile call fs dst = .ok l) : fs.resolve dst = .ok l := by
  unfold openFile at h
  split at h
  · cases h
  · split at h
    · cases h
    · next hresolve =>
        split at h
        · cases h
          exact hresolve
        · cases h
          exact hresolve
        · cases h

theorem isNotExist_ok {call : Option FsError} {dst l : Location} {fs : Files}
    (h : isNotExist call fs dst = true) (hl : fs.resolve dst = .ok l) : fs l = none := by
  simp only [isNotExist, hl, Bool.and_eq_true] at h
  simpa using h.2

/-- What is filled without an error is opened and has the content. -/
theorem fill_ok {calls : CopyCalls} {dst : Location} {content : Bytes} {fs fs' : Files}
    {err : Option FsError} (h : fill calls dst content fs = (none, err, fs')) :
    err = none ∧ ∃ l, openFile calls.openFile fs dst = .ok l ∧
      fs' = fs.put l (.file content) := by
  cases hopen : openFile calls.openFile fs dst with
  | error err =>
      rw [fill_error hopen] at h
      cases h
  | ok l =>
      have hfilled := fill_filled content hopen
      rw [h] at hfilled
      cases hfilled with
      | written _ hfs' => exact ⟨rfl, l, rfl, hfs'⟩

/-- A file is written where a new one is opened, or in the place of what is renamed. -/
theorem copyFile_ok {calls : CopyCalls} {dst : Location} {content : Bytes} {fs fs' : Files}
    (h : copyFile calls dst content fs = (none, fs')) :
    (isNotExist calls.stat fs dst = true ∧ ∃ l, fs.resolve dst = .ok l ∧ fs l = none ∧
      fs' = fs.put l (.file content)) ∨
    (isNotExist calls.stat fs dst = false ∧
      fs' = cleanUp calls dst none (backup dst)
        ((movedAway fs dst).put dst (.file content))) := by
  cases hnew : isNotExist calls.stat fs dst with
  | true =>
      simp only [copyFile, hnew, if_true] at h
      generalize hfill : fill calls dst content fs = filled at h
      obtain ⟨ret, err, fs₁⟩ := filled
      obtain ⟨rfl, rfl⟩ := Prod.mk.inj h
      obtain ⟨-, l, hopen, hfs'⟩ := fill_ok hfill
      exact .inl ⟨rfl, l, openFile_ok hopen, isNotExist_ok hnew (openFile_ok hopen), hfs'⟩
  | false =>
      simp only [copyFile, hnew, Bool.false_eq_true, if_false] at h
      cases hrename : rename calls.rename fs dst (backup dst) with
      | error err => simp [hrename] at h
      | ok renamed =>
          simp only [hrename] at h
          obtain rfl := rename_ok hrename
          generalize hfill : fill calls dst content (movedAway fs dst) = filled at h
          obtain ⟨ret, err, fs₁⟩ := filled
          obtain ⟨rfl, rfl⟩ := Prod.mk.inj h
          obtain ⟨rfl, l, hopen, rfl⟩ := fill_ok hfill
          -- nothing is left where the file is opened
          have hl : l = dst := by
            have hresolve := openFile_ok hopen
            rw [Tree.resolve_of_not_link (by simp [movedAway_self])] at hresolve
            exact (Except.ok.inj hresolve).symm
          exact .inr ⟨rfl, by rw [hl]⟩

theorem copyFile_at {calls : CopyCalls} {dst l : Location} {content : Bytes} {fs fs' : Files}
    (h : copyFile calls dst content fs = (none, fs')) :
    fs' l = (fileChange calls content fs l dst).getD (fs l) := by
  rw [fileChange]
  rcases copyFile_ok h with ⟨hnew, p, hp, -, rfl⟩ | ⟨hnew, rfl⟩
  · rw [if_pos hnew, hp]
    by_cases hl : l = p
    · rw [if_pos (congrArg _ hl.symm), hl, Tree.put_self]
      rfl
    · rw [if_neg fun heq => hl (Except.ok.inj heq).symm, Tree.put_of_ne hl]
      rfl
  · rw [hnew, if_neg Bool.false_ne_true]
    have hput : l ≠ dst → (movedAway fs dst).put dst (.file content) l = movedAway fs dst l :=
      fun hl => Tree.put_of_ne hl
    by_cases hl : l = dst
    · rw [if_pos hl, hl, cleanUp]
      cases calls.removeOld with
      | some err => exact Tree.put_self
      | none => exact (Tree.erase_of_ne backup_ne.symm).trans Tree.put_self
    rw [if_neg hl]
    by_cases hgone : l = backup dst ∧ calls.removeOld = none
    · rw [if_pos hgone, cleanUp_removes hgone.2, hgone.1, Tree.erase_self]
      rfl
    have hclean : cleanUp calls dst none (backup dst)
        ((movedAway fs dst).put dst (.file content)) l = movedAway fs dst l := by
      rw [cleanUp]
      cases hremove : calls.removeOld with
      | some err => exact hput hl
      | none => exact (Tree.erase_of_ne fun heq => hgone ⟨heq, hremove⟩).trans (hput hl)
    rw [if_neg hgone, hclean]
    split
    · rfl
    · next hnot => exact movedAway_of_not hl hnot

section

variable {store : Package Bytes} {destination : Bytes} {real : Location → Location}
variable {calls : Location → EntryCalls} {prior fs fs' : Files}
variable {visited rest : List Entry} {e : Entry}

/-- An entry that is no directory is in one. -/
theorem exists_snoc (real : Location → Location) {p : Location} {node : Node Bytes}
    (h : (p, node) ∈ store.entries) (hnode : node ≠ .dir) :
    ∃ d name, p = d ++ [name] ∧ (d, .dir) ∈ store.entries ∧
      spot real (p, node) = real d ++ [name] := by
  cases p using List.reverseRecOn with
  | nil => exact absurd (Package.eq_of_mem h store.root) hnode
  | append_singleton d name =>
      refine ⟨d, name, rfl, store.parents d name node h, ?_⟩
      simp [spot, Node.isDir_of_ne hnode]

/-- What an entry that is copied leaves at a place. -/
theorem copyEntry_at {l : Location} (h : copyEntry destination calls fs e = .ok fs') :
    fs' l = (change destination calls l fs e).getD (fs l) := by
  obtain ⟨p, node⟩ := e
  rw [change]
  cases node with
  | dir =>
      obtain ⟨dst, hdst, hmade⟩ := mkdirAll_ok h
      dsimp only
      rw [hdst]
      rcases hmade with ⟨hnone, rfl⟩ | ⟨rfl, dir, hdir, hfound⟩
      · by_cases hl : l = dst
        · rw [hl, Tree.put_self]
          simp [hnone]
        · rw [Tree.put_of_ne hl]
          simp [hl]
      · have hsome : fs' dst ≠ none := by
          intro hnone
          rw [Tree.resolve_of_not_link (by simp [hnone])] at hdir
          obtain rfl := Except.ok.inj hdir
          cases hnone.symm.trans hfound
        simp [hsome]
  | file content =>
      simp only [copyEntry] at h
      split at h
      · cases h
      · next dst hdst =>
          dsimp only
          rw [hdst]
          split at h
          · cases h
          · next hcopy =>
              cases h
              exact copyFile_at hcopy
  | link target =>
      simp only [copyEntry] at h
      split at h
      · cases h
      · next dst hdst =>
          dsimp only
          rw [hdst, relink_ok h]
          by_cases hl : l = dst
          · rw [hl, Tree.put_self]
            simp [joined]
          · rw [Tree.put_of_ne hl]
            simp [hl]
  | special =>
      cases h
      cases fs.place (destPath destination p) <;> rfl

/-- What there is in the end is what the last entry to change it has left. -/
theorem copyRecursive_at (h : copyRecursive store destination calls prior = .ok fs') :
    fs' = settled store destination calls prior :=
  funext fun l => foldlM_lastChange (fun fs : Files => fs l)
    (fun _ _ _ _ hstep => copyEntry_at hstep) h

theorem copyEntry_stepped (he : e ∈ store.entries)
    (hcomes : ∀ r, leadsTo destination fs e = .ok r → r = spot real e)
    (hclean : ∀ content, e.2 = .file content →
      isNotExist (calls e.1).file.stat fs (spot real e) = false →
        CleansUp (calls e.1).file (spot real e) fs)
    (h : copyEntry destination calls fs e = .ok fs') :
    Stepped destination real calls fs e fs' := by
  obtain ⟨p, node⟩ := e
  cases node with
  | dir =>
      obtain ⟨q, hq, hmade⟩ := mkdirAll_ok h
      rcases hmade with ⟨hnone, hput⟩ | ⟨rfl, dir, hdir, hfound⟩
      · have hlookup := Tree.lookup_of_place hq (Tree.resolve_of_not_link (by simp [hnone]))
        obtain rfl := hcomes q hlookup
        exact .put rfl (by simp) hput
      · obtain rfl := hcomes dir (Tree.lookup_of_place hq hdir)
        refine .kept (by simp) (fun node hnode => ?_) rfl
        obtain rfl := Option.some.inj hnode
        exact hfound
  | file content =>
      simp only [copyEntry] at h
      split at h
      · cases h
      · next q hq =>
          obtain rfl := hcomes q hq
          have hne : spot real (p, .file content) ≠ [] := by
            obtain ⟨d, name, -, -, hspot⟩ := exists_snoc real he (by simp)
            simp [hspot]
          split at h
          · cases h
          · next hcopy =>
              cases h
              rcases copyFile_ok hcopy with ⟨hnew, l, hl, hnone, hput⟩ | ⟨hnew, hreplaced⟩
              · by_cases hlink : ∃ target, fs (spot real (p, .file content)) = some (.link target)
                · obtain ⟨target, hlink⟩ := hlink
                  exact .through rfl hnew hlink hnone hput
                · rw [Tree.resolve_of_not_link (fun target htarget => hlink ⟨target, htarget⟩)]
                    at hl
                  obtain rfl := Except.ok.inj hl
                  exact .put rfl (fun _ _ => ⟨hnew, hnone⟩) hput
              · obtain ⟨hremove, hempty⟩ := hclean content rfl hnew
                refine .replaced rfl hnew ?_
                rw [hreplaced, cleanUp_removes hremove, movedAway_of_empty hne hempty]
  | link linkTarget =>
      simp only [copyEntry] at h
      split at h
      · cases h
      · next q hq =>
          obtain rfl := hcomes q hq
          exact .put rfl (by simp) (relink_ok h)
  | special =>
      cases h
      exact .kept (by simp) (by simp [installed]) rfl

end

/-! ## The walk -/

/-- The entries visited are at their spots, and nothing else has changed. -/
structure Laid (visited : List Entry) (prior fs : Files) : Prop where
  there : ∀ e ∈ visited, ∀ node, installed (joined destination) e.2 = some node →
    fs (spot real e) = some node
  elsewhere : ∀ l, (∀ e ∈ store.entries, spot real e ≠ l) → fs l = prior l

/-- Some file that has been visited is no file, some entry that has been visited is
gone, or something else is. -/
inductive Lost (visited : List Entry) (prior fs : Files) : Prop
  | file {e : Entry} {content : Bytes} : e ∈ visited → e.2 = .file content →
      (∀ content, fs (spot real e) ≠ some (.file content)) → Lost visited prior fs
  | entry {e : Entry} : e ∈ visited → e.2 ≠ .special → fs (spot real e) = none →
      Lost visited prior fs
  | other {l : Location} : (∀ e ∈ store.entries, spot real e ≠ l) → prior l ≠ none →
      fs l = none → Lost visited prior fs

section

variable {store : Package Bytes} {destination : Bytes} {real : Location → Location}
variable {calls : Location → EntryCalls} {prior fs fs' : Files}
variable {visited : List Entry} {e : Entry}

theorem Laid.not_lost (h : Laid store destination real store.entries prior fs) :
    ¬ Lost store real store.entries prior fs := by
  intro hlost
  cases hlost with
  | file he hfile hnone =>
      exact hnone _ (h.there _ he _ (by rw [hfile]; rfl))
  | entry he hspecial hnone =>
      obtain ⟨node, hnode⟩ := Bootstrap.installed_of_ne (joined destination) hspecial
      have hthere := h.there _ he node hnode
      rw [hnone] at hthere
      cases hthere
  | other hother hprior hnone => exact hprior ((h.elsewhere _ hother).symm.trans hnone)

/-- What a file is replaced in, and where its backup was, is all that changes. -/
theorem replaced_of_ne {dst l : Location} {content : Bytes} (hdst : l ≠ dst)
    (hbackup : l ≠ backup dst) :
    (((fs.rename dst (backup dst)).put dst (.file content)).erase (backup dst)) l = fs l := by
  rw [Tree.erase_of_ne hbackup, Tree.put_of_ne hdst, Tree.rename_of_ne hdst hbackup]

theorem replaced_self {dst : Location} {content : Bytes} :
    (((fs.rename dst (backup dst)).put dst (.file content)).erase (backup dst)) dst =
      some (.file content) := by
  rw [Tree.erase_of_ne backup_ne.symm, Tree.put_self]

/-- A file that is written through a link is lost. -/
theorem lost_through {content target : Bytes} {l : Location} (hfile : e.2 = .file content)
    (hlink : fs (spot real e) = some (.link target)) (hnone : fs l = none)
    (hfs' : fs' = fs.put l (.file content)) : Lost store real (visited ++ [e]) prior fs' := by
  have hne : spot real e ≠ l := by
    intro heq
    rw [heq, hnone] at hlink
    cases hlink
  refine .file (by simp) hfile fun content' => ?_
  rw [hfs', Tree.put_of_ne hne, hlink]
  simp

/-- At another place than its own an entry leaves what was there, or nothing, unless it
is a file that has been written through a link. -/
theorem Stepped.of_ne (h : Stepped destination real calls fs e fs') {l : Location}
    (hl : l ≠ spot real e) : fs' l = fs l ∨ fs' l = none ∨
      Lost store real (visited ++ [e]) prior fs' := by
  cases h with
  | kept _ _ hfs' => exact .inl (by rw [hfs'])
  | put _ _ hfs' => exact .inl (by rw [hfs', Tree.put_of_ne hl])
  | @replaced content _ _ hfs' =>
      by_cases hbackup : l = backup (spot real e)
      · exact .inr (.inl (by rw [hfs', hbackup, Tree.erase_self]))
      · exact .inl (by rw [hfs', replaced_of_ne hl hbackup])
  | through hfile _ hlink hnone hfs' => exact .inr (.inr (lost_through hfile hlink hnone hfs'))

/-- What is lost stays lost. -/
theorem lost_step (hdistinct : ∀ e' ∈ visited, spot real e' ≠ spot real e)
    (he : e ∈ store.entries) (h : Lost store real visited prior fs)
    (hstep : Stepped destination real calls fs e fs') :
    Lost store real (visited ++ [e]) prior fs' := by
  cases h with
  | @file e' content he' hfile hnone =>
      have hmem : e' ∈ visited ++ [e] := by simp [he']
      rcases hstep.of_ne (hdistinct e' he') with hsame | hgone | hlost
      · exact .file hmem hfile (by rwa [hsame])
      · exact .file hmem hfile (by simp [hgone])
      · exact hlost
  | @entry e' he' hspecial hnone =>
      have hmem : e' ∈ visited ++ [e] := by simp [he']
      rcases hstep.of_ne (hdistinct e' he') with hsame | hgone | hlost
      · exact .entry hmem hspecial (hsame.trans hnone)
      · exact .entry hmem hspecial hgone
      · exact hlost
  | @other l hother hprior hnone =>
      rcases hstep.of_ne (hother e he).symm with hsame | hgone | hlost
      · exact .other hother hprior (hsame.trans hnone)
      · exact .other hother hprior hgone
      · exact hlost

/-- A step that is not harmless loses something. -/
theorem lost_of_not_harmless (h : Laid store destination real visited prior fs)
    (hstep : Stepped destination real calls fs e fs')
    (hharm : ¬ Harmless store real calls visited fs e) :
    Lost store real (visited ++ [e]) prior fs' := by
  cases hstep with
  | kept hfile => exact absurd (fun content hc => absurd hc (hfile content)) hharm
  | put _ hfile =>
      refine absurd (fun content hc => ?_) hharm
      obtain ⟨hnew, hnone⟩ := hfile content hc
      rw [if_pos hnew]
      exact hnone
  | through hfile _ hlink hnone hfs' => exact lost_through hfile hlink hnone hfs'
  | @replaced content hfile hnew hfs' =>
      have hsome : fs (backup (spot real e)) ≠ none := by
        intro hnone
        exact hharm fun _ _ => by simp [hnew, hnone]
      have hpending : ¬ Pending store real visited (backup (spot real e)) := by
        intro hpending
        exact hharm fun _ _ => by simp [hnew, hpending]
      have hgone : fs' (backup (spot real e)) = none := by rw [hfs', Tree.erase_self]
      by_cases hspot : ∃ e' ∈ store.entries, spot real e' = backup (spot real e)
      · obtain ⟨e', he', heq⟩ := hspot
        have hvisited : e' ∈ visited ∧ e'.2 ≠ .special := by
          constructor
          · exact Decidable.of_not_not fun h => hpending ⟨e', he', heq, .inl h⟩
          · exact fun h => hpending ⟨e', he', heq, .inr h⟩
        exact .entry (by simp [hvisited.1]) hvisited.2 (by rw [heq, hgone])
      · have hother : ∀ e' ∈ store.entries, spot real e' ≠ backup (spot real e) :=
          fun e' he' heq => hspot ⟨e', he', heq⟩
        refine .other hother ?_ hgone
        rwa [← h.elsewhere _ hother]

/-- A harmless step lays the entry over what is there. -/
theorem laid_step (he : e ∈ store.entries)
    (hdistinct : ∀ e' ∈ visited, spot real e' ≠ spot real e)
    (hspots : ∀ e ∈ store.entries, ∀ e' ∈ store.entries, spot real e = spot real e' → e = e')
    (hvisited : ∀ e ∈ visited, e ∈ store.entries)
    (h : Laid store destination real visited prior fs)
    (hstep : Stepped destination real calls fs e fs')
    (hharmless : Harmless store real calls visited fs e) :
    Laid store destination real (visited ++ [e]) prior fs' := by
  -- what is at the entry, and that nothing else has changed
  have hlaid : (∀ node, installed (joined destination) e.2 = some node →
      fs' (spot real e) = some node) →
      (∀ l, l ≠ spot real e → (∀ e' ∈ store.entries, spot real e' = l →
        e' ∈ visited ∧ e'.2 ≠ .special) → fs' l = fs l) →
      Laid store destination real (visited ++ [e]) prior fs' := by
    intro hself hother
    constructor
    · intro e' he' node hnode
      rcases List.mem_append.mp he' with he' | he'
      · rw [hother _ (hdistinct e' he') fun e'' he'' heq => ?_]
        · exact h.there e' he' node hnode
        · obtain rfl := hspots e'' he'' e' (hvisited e' he') heq
          refine ⟨he', fun hspecial => ?_⟩
          rw [hspecial] at hnode
          cases hnode
      · rw [List.mem_singleton.mp he'] at hnode ⊢
        exact hself node hnode
    · intro l hl
      rw [hother l (hl e he).symm fun e' he' heq => absurd heq (hl e' he')]
      exact h.elsewhere l hl
  cases hstep with
  | kept _ hthere hfs' =>
      subst hfs'
      exact hlaid hthere fun _ _ _ => rfl
  | put hnode _ hfs' =>
      refine hlaid (fun node' hnode' => ?_) fun l hl _ => by rw [hfs', Tree.put_of_ne hl]
      rw [hfs', Tree.put_self, ← hnode, hnode']
  | @replaced content hfile hnew hfs' =>
      refine hlaid (fun node hnode => ?_) fun l hl hspot => ?_
      · rw [hfs', replaced_self, ← hnode, hfile]
        rfl
      · by_cases hbackup : l = backup (spot real e)
        · have hfree := hharmless content hfile
          rw [hnew, if_neg (by simp), ← hbackup] at hfree
          rcases hfree with hnone | ⟨e', he', heq, hpending⟩
          · rw [hfs', hnone, hbackup, Tree.erase_self]
          · obtain ⟨hmem, hspecial⟩ := hspot e' he' heq
            rcases hpending with hpending | hpending
            · exact absurd hmem hpending
            · exact absurd hpending hspecial
        · rw [hfs', replaced_of_ne hl hbackup]
  | through hfile hnew hlink =>
      have hnone := hharmless _ hfile
      rw [if_pos hnew, hlink] at hnone
      cases hnone

/-! ## The whole package -/

/-- Where each place has one entry, the overlay has it there. -/
theorem overlaid_spot
    (hdistinct : ∀ e ∈ store.entries, ∀ e' ∈ store.entries, spot real e = spot real e' → e = e')
    (he : e ∈ store.entries) : overlaid store destination real prior (spot real e) =
      (installed (joined destination) e.2).map some := by
  rw [overlaid]
  cases hfind : store.entries.reverse.find? fun e' => spot real e' = spot real e with
  | none =>
      have hnone := List.find?_eq_none.mp hfind e (List.mem_reverse.mpr he)
      simp at hnone
  | some e' =>
      have hspot : spot real e' = spot real e := by simpa using List.find?_some hfind
      have hmem := List.mem_reverse.mp (List.mem_of_find?_eq_some hfind)
      rw [hdistinct e' hmem e he hspot]

theorem overlaid_none {l : Location} (h : ∀ e ∈ store.entries, spot real e ≠ l) :
    overlaid store destination real prior l = some (prior l) := by
  rw [overlaid]
  cases hfind : store.entries.reverse.find? fun e => spot real e = l with
  | none => rfl
  | some e =>
      have hspot : spot real e = l := by simpa using List.find?_some hfind
      exact absurd hspot (h e (List.mem_reverse.mp (List.mem_of_find?_eq_some hfind)))

theorem laid_iff
    (hdistinct : ∀ e ∈ store.entries, ∀ e' ∈ store.entries, spot real e = spot real e' → e = e') :
    (∀ l node, overlaid store destination real prior l = some node → fs l = node) ↔
      Laid store destination real store.entries prior fs := by
  constructor
  · intro hlaid
    refine ⟨fun e he node hnode => hlaid _ _ ?_, fun l hl => hlaid _ _ (overlaid_none hl)⟩
    rw [overlaid_spot hdistinct he, hnode]
    rfl
  · intro hlaid l node hnode
    by_cases hspot : ∃ e ∈ store.entries, spot real e = l
    · obtain ⟨e, he, rfl⟩ := hspot
      rw [overlaid_spot hdistinct he] at hnode
      obtain ⟨node', hnode', rfl⟩ := Option.map_eq_some_iff.mp hnode
      exact hlaid.there e he node' hnode'
    · have hnot : ∀ e ∈ store.entries, spot real e ≠ l := fun e he heq => hspot ⟨e, he, heq⟩
      rw [overlaid_none hnot] at hnode
      rw [hlaid.elsewhere l hnot, Option.some.inj hnode]

/-- The places are settled if they have what is to be there in the end. -/
theorem settles_iff_settled : Settles store destination real calls prior ↔
    ∀ l node, overlaid store destination real prior l = some node →
      settled store destination calls prior l = node := by
  constructor
  · intro h l node hnode
    refine lastChange_right_iff.mpr ⟨h.putRight l node hnode, ?_⟩
    by_cases hspot : ∃ e ∈ store.entries, spot real e = l
    · obtain ⟨e, he, rfl⟩ := hspot
      exact h.reached e he node hnode
    · rw [overlaid_none fun e he heq => hspot ⟨e, he, heq⟩] at hnode
      exact .inr (Option.some.inj hnode)
  · intro h
    exact ⟨fun l node hnode => (lastChange_right_iff.mp (h l node hnode)).1,
      fun e _ node hnode => (lastChange_right_iff.mp (h _ node hnode)).2⟩

/-- Where each entry comes to its place, and the clean-ups succeed, the places are settled if
and only if each step is harmless. -/
theorem settles_iff (hdirect : Direct store destination real calls prior)
    (hclean : EachStep (copyEntry destination calls) store.entries prior fun _ fs e =>
      ∀ content, e.2 = .file content →
        isNotExist (calls e.1).file.stat fs (spot real e) = false →
          CleansUp (calls e.1).file (spot real e) fs)
    (h : copyRecursive store destination calls prior = .ok fs') :
    Settles store destination real calls prior ↔
      EachStep (copyEntry destination calls) store.entries prior
        (Harmless store real calls) := by
  have hend : (Laid store destination real store.entries prior fs' ∧
      EachStep (copyEntry destination calls) store.entries prior (Harmless store real calls)) ∨
      (Lost store real store.entries prior fs' ∧
      ¬ EachStep (copyEntry destination calls) store.entries prior
        (Harmless store real calls)) := by
    refine foldlM_reached (I := fun visited fs =>
      (Laid store destination real visited prior fs ∧
        EachStep (copyEntry destination calls) visited prior (Harmless store real calls)) ∨
      (Lost store real visited prior fs ∧
        ¬ EachStep (copyEntry destination calls) visited prior (Harmless store real calls)))
      ?_ ?_ h
    · intro visited e rest fs fs' hwhole hwalk hsofar hstep
      have he : e ∈ store.entries := by simp [hwhole]
      have hvisited : ∀ e ∈ visited, e ∈ store.entries := fun e he => by simp [hwhole, he]
      have hnew : e ∉ visited := fun hmem =>
        Bootstrap.not_mem_visited store.nodup hwhole (List.mem_map_of_mem hmem)
      have hdistinct : ∀ e' ∈ visited, spot real e' ≠ spot real e := by
        intro e' he' heq
        rw [hdirect.distinct e' (hvisited e' he') e he heq] at he'
        exact hnew he'
      have hstepped := copyEntry_stepped he (hdirect.comes visited e rest fs hwhole hwalk)
        (hclean visited e rest fs hwhole hwalk) hstep
      rw [eachStep_snoc hwalk]
      rcases hsofar with ⟨hlaid, hharmless⟩ | ⟨hlost, hharm⟩
      · by_cases hnext : Harmless store real calls visited fs e
        · exact .inl ⟨laid_step he hdistinct hdirect.distinct hvisited hlaid hstepped hnext,
            hharmless, hnext⟩
        · exact .inr ⟨lost_of_not_harmless hlaid hstepped hnext, fun hboth => hnext hboth.2⟩
      · exact .inr ⟨lost_step hdistinct he hlost hstepped, fun hboth => hharm hboth.1⟩
    · exact .inl ⟨⟨fun _ hmem => absurd hmem List.not_mem_nil, fun _ _ => rfl⟩, eachStep_nil⟩
  have hlaid_iff : Settles store destination real calls prior ↔
      Laid store destination real store.entries prior fs' := by
    rw [settles_iff_settled, copyRecursive_at h]
    exact laid_iff hdirect.distinct
  rw [hlaid_iff]
  rcases hend with ⟨hlaid, hharmless⟩ | ⟨hlost, hharm⟩
  · exact ⟨fun _ => hharmless, fun _ => hlaid⟩
  · exact ⟨fun hlaid => absurd hlost hlaid.not_lost, fun hharmless => absurd hharmless hharm⟩

/-- The result is the overlay if and only if what goes wrong is put right, and the entries are
at their paths then. -/
theorem overlay_iff_settles (real : Location → Location)
    (h : copyRecursive store destination calls prior = .ok fs') :
    Overlay store destination real prior fs' ↔ Settles store destination real calls prior ∧
      There store destination (wanted store destination real calls prior) := by
  obtain rfl := copyRecursive_at h
  have hwanted : Settles store destination real calls prior →
      wanted store destination real calls prior = settled store destination calls prior := by
    intro hsettles
    funext l
    rw [wanted]
    cases hnode : overlaid store destination real prior l with
    | none => rfl
    | some node => exact (settles_iff_settled.mp hsettles l node hnode).symm
  constructor
  · intro hoverlay
    have hsettles : Settles store destination real calls prior :=
      settles_iff_settled.mpr hoverlay.laid
    refine ⟨hsettles, ?_⟩
    rw [hwanted hsettles]
    exact hoverlay.there
  · rintro ⟨hsettles, hthere⟩
    rw [hwanted hsettles] at hthere
    exact ⟨hthere, settles_iff_settled.mp hsettles⟩

/-- When the result is the overlay, and when the places are settled if each entry comes to its
own and the clean-ups succeed. -/
theorem overlay_iff (real : Location → Location)
    (h : copyRecursive store destination calls prior = .ok fs') :
    (Overlay store destination real prior fs' ↔ Settles store destination real calls prior ∧
      There store destination (wanted store destination real calls prior)) ∧
    (Direct store destination real calls prior →
      EachStep (copyEntry destination calls) store.entries prior (fun _ fs e =>
        ∀ content, e.2 = .file content →
          isNotExist (calls e.1).file.stat fs (spot real e) = false →
            CleansUp (calls e.1).file (spot real e) fs) →
      (Settles store destination real calls prior ↔
        EachStep (copyEntry destination calls) store.entries prior
          (Harmless store real calls))) :=
  ⟨overlay_iff_settles real h, fun hdirect hclean => settles_iff hdirect hclean h⟩

end

/-! ## A program -/

theorem destPath_root {path : Location} : destPath (bytes "/") path = path := by
  have hpath : components (clean (bytes "/")) = [] := by decide +kernel
  rw [destPath, hpath, List.nil_append]

/-- Where the root is the only directory, nothing can come in between. -/
theorem direct_root {store : Package Bytes} {calls : Location → EntryCalls} {prior : Files}
    (h : ∀ d, (d, .dir) ∈ store.entries → d = []) : Direct store (bytes "/") id calls prior := by
  have hspot : ∀ e ∈ store.entries, spot id e = e.1 := by
    intro e he
    obtain ⟨p, node⟩ := e
    by_cases hnode : node = .dir
    · rw [hnode]
      rfl
    · obtain ⟨d, name, rfl, -, hspot⟩ := exists_snoc id he hnode
      exact hspot
  constructor
  · intro visited e rest fs hwhole _ r hr
    have he : e ∈ store.entries := by simp [hwhole]
    rw [hspot e he]
    obtain ⟨p, node⟩ := e
    by_cases hnode : node = .dir
    · subst hnode
      obtain rfl := h p he
      simp only [leadsTo, Node.isDir, if_true, destPath_root] at hr
      exact (Except.ok.inj hr).symm
    · obtain ⟨d, name, rfl, hd, -⟩ := exists_snoc id he hnode
      obtain rfl := h d hd
      simp only [leadsTo, Node.isDir_of_ne hnode, Bool.false_eq_true, if_false,
        destPath_root] at hr
      obtain ⟨dir, hdir, -, rfl⟩ := Tree.place_snoc_ok hr
      rw [← Except.ok.inj hdir]
  · intro e he e' he' heq
    rw [hspot e he, hspot e' he'] at heq
    exact List.inj_on_of_nodup_map store.nodup he he' heq

def program : Package Bytes where
  entries := [([], .dir), ([bytes "zinit"], .file (bytes "new"))]
  nodup := by decide +kernel
  root := List.mem_cons_self
  parents := Package.parents_of_all (by decide +kernel)

theorem program_dirs (d : Location) (h : (d, .dir) ∈ program.entries) : d = [] := by
  simpa [program] using h

/-- The program is there, in an older version. -/
def withProgram : Files := Bootstrap.bare.put [bytes "zinit"] (.file (bytes "old"))

theorem overlay_iff_program :
    ∃ fs', copyRecursive program (bytes "/") Bootstrap.noCalls withProgram = .ok fs' ∧
      (Overlay program (bytes "/") id withProgram fs' ↔
        Settles program (bytes "/") id Bootstrap.noCalls withProgram ∧
          There program (bytes "/")
            (wanted program (bytes "/") id Bootstrap.noCalls withProgram)) ∧
      (Settles program (bytes "/") id Bootstrap.noCalls withProgram ↔
        EachStep (copyEntry (bytes "/") Bootstrap.noCalls) program.entries withProgram
          (Harmless program id Bootstrap.noCalls)) := by
  obtain ⟨fs', h⟩ := Bootstrap.exists_ok (x := copyRecursive program (bytes "/")
    Bootstrap.noCalls withProgram) (by decide +kernel)
  have hdir : copyEntry (bytes "/") Bootstrap.noCalls withProgram ([], .dir) =
      .ok withProgram := by
    simp only [copyEntry, destPath_root]
    rfl
  obtain ⟨hoverlay, hsettles⟩ := overlay_iff id h
  refine ⟨fs', h, hoverlay, hsettles (direct_root program_dirs) ?_⟩
  have hstart : ([] : List Entry).foldlM (copyEntry (bytes "/") Bootstrap.noCalls)
      withProgram = .ok withProgram := rfl
  have hwalk := foldlM_snoc.mpr ⟨withProgram, hstart, hdir⟩
  refine (eachStep_snoc hwalk).mpr ⟨(eachStep_snoc hstart).mpr ⟨eachStep_nil, ?_⟩, ?_⟩
  · intro content hcontent
    cases hcontent
  · intro content _ _
    refine ⟨rfl, fun hfound => ?_⟩
    have hfile : withProgram [bytes "zinit"] = some (.file (bytes "old")) := Tree.put_self
    rw [show spot id ([bytes "zinit"], .file (bytes "new")) = [bytes "zinit"] from rfl,
      hfile] at hfound
    cases hfound

/-- A link is there in its place, to a program that is gone. -/
def withLink : Files := Bootstrap.bare.put [bytes "zinit"] (.link (bytes "gone"))

/-- The program is written through the link. -/
theorem link_written_through :
    ¬ ∀ (store : Package Bytes) (destination : Bytes) (real : Location → Location)
      (calls : Location → EntryCalls) (prior fs' : Files),
      Resolves store destination real prior →
        copyRecursive store destination calls prior = .ok fs' →
          Overlay store destination real prior fs' := by
  intro h
  obtain ⟨fs', hfs'⟩ := Bootstrap.exists_ok (x := copyRecursive program (bytes "/")
    Bootstrap.noCalls withLink) (by decide +kernel)
  have hlink : (copyRecursive program (bytes "/") Bootstrap.noCalls withLink).toOption.bind
      (found (bytes "/") · ([bytes "zinit"], .file (bytes "new"))) =
        some (.link (bytes "gone")) := by decide +kernel
  have hresolves : Resolves program (bytes "/") id withLink := by
    constructor
    · intro d hd
      obtain rfl := program_dirs d hd
      rw [destPath_root]
      exact ⟨rfl, rfl⟩
    · exact fun _ _ _ _ heq => heq
  have hoverlay := h program _ id _ _ fs' hresolves hfs'
  have hthere := hoverlay.there ([bytes "zinit"], .file (bytes "new")) (by simp [program]) _ rfl
  rw [hfs'] at hlink
  have heq := hlink.symm.trans hthere
  cases heq

end Zos4.Upgrade
