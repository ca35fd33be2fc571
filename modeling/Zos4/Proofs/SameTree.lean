import Zos4.Bootstrap.Zfs
import Zos4.Proofs.CopyFile

/-!
# The tree of a package

A fresh boot and a live upgrade each copy the package into a directory, and the two
trees are those below the place it leads to. Both do the same at most entries, and the
tree a walk leaves is that of the entries visited with the links rewritten
(`Installed`). They part in two ways. An absolute link is to be re-rooted under the
target: the upgrade joins the two paths, but to push an absolute path onto another one
is to replace it. And the boot writes a file under the name with `.partial` first, so
that it takes the place of an entry that has that name, if it has been copied by then
(`Clobbers`). In all other cases the trees are the same (`same_tree_iff`).
-/

namespace Zos4.Bootstrap

open Zos4.Files Zos4.Upgrade

/-! ## The tree of the entries -/

/-- What is put in the target for an entry. -/
def installed (relink : Bytes → Bytes) : Node Bytes → Option (Node Bytes)
  | .link target => some (.link (relink target))
  | .special => none
  | node => some node

theorem installed_of_ne (relink : Bytes → Bytes) {node : Node Bytes}
    (h : node ≠ .special) : ∃ node', installed relink node = some node' := by
  cases node with
  | special => exact absurd rfl h
  | dir | file | link => exact ⟨_, rfl⟩

/-- The entries visited are there, and nothing else has changed. -/
structure Installed (relink : Bytes → Bytes) (start : Files)
    (visited : List (Location × Node Bytes)) (fs : Files) : Prop where
  there : ∀ p node, (p, node) ∈ visited → fs p = (installed relink node).or (start p)
  elsewhere : ∀ p, p ∉ visited.map Prod.fst → fs p = start p

/-- A directory that is there or not, and empty. -/
def EmptyTarget (start : Files) : Prop :=
  (start [] = none ∨ start [] = some .dir) ∧ ∀ p, p ≠ [] → start p = none

/-- The target of a link as the boot writes it, and as the upgrade does. -/
def pushed (target link : Bytes) : Bytes :=
  if !isAbs link then link else push (push [] target) link

def joined (target link : Bytes) : Bytes :=
  if isAbs link then join target link else link

theorem pushed_eq (target link : Bytes) : pushed target link = link := by
  unfold pushed push
  split
  · rfl
  · next habs => simp_all

/-- One more entry. -/
theorem Installed.snoc {relink : Bytes → Bytes} {start fs fs' : Files}
    {visited : List (Location × Node Bytes)} {p : Location} {node : Node Bytes}
    (h : Installed relink start visited fs) (hp : p ∉ visited.map Prod.fst)
    (hself : fs' p = (installed relink node).or (start p))
    (hother : ∀ q, q ≠ p → fs' q = fs q) :
    Installed relink start (visited ++ [(p, node)]) fs' := by
  constructor
  · intro q node' hmem
    rcases List.mem_append.mp hmem with hmem | hmem
    · have hq : q ≠ p := by
        intro heq
        rw [heq] at hmem
        exact hp (List.mem_map_of_mem hmem)
      rw [hother q hq]
      exact h.there q node' hmem
    · obtain ⟨rfl, rfl⟩ := Prod.mk.inj (List.mem_singleton.mp hmem)
      exact hself
  · intro q hq
    rw [List.map_append, List.mem_append, not_or] at hq
    have hne : q ≠ p := by simpa using hq.2
    rw [hother q hne]
    exact h.elsewhere q hq.1

/-- No link is in the place of a directory. -/
theorem Installed.not_link {relink : Bytes → Bytes} {start fs : Files}
    {whole visited : List (Location × Node Bytes)} {dir : Location}
    (h : Installed relink start visited fs) (hstart : EmptyTarget start)
    (hnodup : (whole.map Prod.fst).Nodup) (hvisited : ∀ e ∈ visited, e ∈ whole)
    (hdir : (dir, .dir) ∈ whole) (link : Bytes) : fs dir ≠ some (.link link) := by
  by_cases hmem : dir ∈ visited.map Prod.fst
  · obtain ⟨⟨q, node⟩, hentry, hq⟩ := List.mem_map.mp hmem
    have hq : q = dir := hq
    subst hq
    have heq : (q, node) = (q, .dir) :=
      List.inj_on_of_nodup_map hnodup (hvisited _ hentry) hdir rfl
    rw [h.there q node hentry, (Prod.mk.inj heq).2]
    intro hlink
    cases hlink
  · rw [h.elsewhere dir hmem]
    by_cases hnil : dir = []
    · subst hnil
      rcases hstart.1 with hnone | hdir
      · simp [hnone]
      · simp [hdir]
    · simp [hstart.2 dir hnil]

theorem not_mem_visited {whole visited rest : List (Location × Node Bytes)}
    {p : Location} {node : Node Bytes} (hnodup : (whole.map Prod.fst).Nodup)
    (hwhole : whole = visited ++ (p, node) :: rest) : p ∉ visited.map Prod.fst := by
  intro hmem
  rw [hwhole, List.map_append, List.map_cons] at hnodup
  exact (List.nodup_append.mp hnodup).2.2 p hmem p List.mem_cons_self rfl

/-! ## The upgrade -/

/-- The root of a package is a directory. -/
theorem root_not_file {pkg : Package Bytes} {content : Bytes} :
    ([], .file content) ∉ pkg.entries := by
  intro h
  cases Package.eq_of_mem h pkg.root

/-- A file where there was nothing. -/
theorem copyFile_fresh {calls : CopyCalls} {dst : Location} {content : Bytes}
    {fs fs' : Files} (hdst : fs dst = none)
    (h : copyFile calls dst content fs = (none, fs')) : fs' = fs.put dst (.file content) := by
  simp only [copyFile, isNotExist_of_none calls.stat hdst] at h
  cases hstat : calls.stat with
  | none =>
      simp only [hstat, Option.isNone_none, if_true] at h
      cases hopen : calls.openFile with
      | some call => simp [fill_error (openFile_error hopen)] at h
      | none =>
          have hfilled := fill_filled content (openFile_fresh hdst hopen)
          generalize fill calls dst content fs = filled at h hfilled
          cases hfilled with
          | opened | unseen => simp at h
          | written hcopy hfs' =>
              obtain ⟨-, rfl⟩ := Prod.mk.inj h
              exact hfs'
  | some err =>
      cases hcall : calls.rename <;> simp [hstat, rename, hcall, hdst] at h

/-- The entries visited are below the target, and what leads there is still there. -/
structure Upgraded (target : Bytes) (root : Location) (prior : Files)
    (visited : List (Location × Node Bytes)) (fs : Files) : Prop where
  installed : Installed (joined target) (prior.below root) visited (fs.below root)
  keeps : prior.Keeps fs

/-- One more entry. -/
theorem upgraded_put {target : Bytes} {root p : Location} {prior fs : Files}
    {visited : List (Location × Node Bytes)} {node node' : Node Bytes}
    (h : Upgraded target root prior visited fs) (hp : p ∉ visited.map Prod.fst)
    (hfree : fs (root ++ p) = none) (hnode : installed (joined target) node = some node') :
    Upgraded target root prior (visited ++ [(p, node)]) (fs.put (root ++ p) node') := by
  constructor
  · refine h.installed.snoc hp ?_ fun q hq => ?_
    · show (fs.put (root ++ p) node') (root ++ p) = _
      rw [Tree.put_self, hnode]
      rfl
    · exact Tree.put_of_ne (by simpa using hq)
  · exact h.keeps.trans (Tree.keeps_fresh hfree fun l hl => Tree.put_of_ne hl)

section

variable {pkg : Package Bytes} {target : Bytes} {root : Location} {prior fs : Files}
variable {visited : List (Location × Node Bytes)}

theorem upgraded_dir (hstart : EmptyTarget (prior.below root)) {p : Location}
    (h : Upgraded target root prior visited fs) (hp : (p, .dir) ∈ pkg.entries)
    (hvisited : ∀ e ∈ visited, e ∈ pkg.entries) (link : Bytes) :
    fs (root ++ p) ≠ some (.link link) :=
  h.installed.not_link hstart pkg.nodup hvisited hp link

/-- The directories of the package are below the target. -/
theorem upgraded_lookup (hroot : prior.lookup (components (clean target)) = .ok root)
    (hstart : EmptyTarget (prior.below root)) (h : Upgraded target root prior visited fs)
    (hvisited : ∀ e ∈ visited, e ∈ pkg.entries)
    {p r : Location} (hp : (p, .dir) ∈ pkg.entries)
    (hlookup : fs.lookup (destPath target p) = .ok r) : r = root ++ p := by
  induction p using List.reverseRecOn generalizing r with
  | nil =>
      have hfs := Tree.lookup_mono h.keeps hroot (by
        simpa using upgraded_dir hstart h hp hvisited)
      rw [destPath, List.append_nil, hfs] at hlookup
      rw [List.append_nil, Except.ok.inj hlookup]
  | append_singleton p name ih =>
      rw [destPath, ← List.append_assoc, Tree.lookup_snoc] at hlookup
      obtain ⟨dir, hdir, -, hresolve⟩ := hlookup
      obtain rfl := ih (pkg.parents p name .dir hp) hdir
      have hplain := upgraded_dir hstart h hp hvisited
      rw [List.append_assoc, Tree.resolve_of_not_link hplain] at hresolve
      exact (Except.ok.inj hresolve).symm

/-- The place of an entry that is not the root. -/
theorem upgraded_place (hroot : prior.lookup (components (clean target)) = .ok root)
    (hstart : EmptyTarget (prior.below root)) (h : Upgraded target root prior visited fs)
    (hvisited : ∀ e ∈ visited, e ∈ pkg.entries) {p q : Location} {node : Node Bytes}
    (hp : (p, node) ∈ pkg.entries) (hne : p ≠ [])
    (hq : fs.place (destPath target p) = .ok q) : q = root ++ p := by
  cases p using List.reverseRecOn with
  | nil => exact absurd rfl hne
  | append_singleton p name =>
      rw [destPath, ← List.append_assoc] at hq
      obtain ⟨dir, hdir, -, rfl⟩ := Tree.place_snoc_ok hq
      rw [upgraded_lookup hroot hstart h hvisited (pkg.parents p name node hp) hdir,
        List.append_assoc]

/-- The target itself is made, or is there. -/
theorem upgraded_root (hroot : prior.lookup (components (clean target)) = .ok root)
    (hstart : EmptyTarget (prior.below root)) (h : Upgraded target root prior visited fs)
    (hvisited : ∀ e ∈ visited, e ∈ pkg.entries) (hp : [] ∉ visited.map Prod.fst)
    {call : Option FsError} {fs' : Files}
    (hmade : mkdirAll call fs (destPath target []) = .ok fs') :
    Upgraded target root prior (visited ++ [([], .dir)]) fs' := by
  obtain ⟨q, hq, hmade⟩ := mkdirAll_ok hmade
  have hplain := upgraded_dir hstart h pkg.root hvisited
  rw [List.append_nil] at hplain
  rw [destPath, List.append_nil] at hq
  have hresolve := Tree.resolve_place hq (Tree.lookup_mono h.keeps hroot hplain) hplain
  rcases hmade with ⟨hnone, rfl⟩ | ⟨rfl, dir, hdir, hfound⟩
  · rw [Tree.resolve_of_not_link (by simp [hnone])] at hresolve
    obtain rfl := Except.ok.inj hresolve
    have hput : Upgraded target q prior (visited ++ [([], .dir)]) (fs.put (q ++ []) .dir) :=
      upgraded_put h hp (by simpa using hnone) rfl
    simpa using hput
  · rw [hdir] at hresolve
    obtain rfl := Except.ok.inj hresolve
    refine ⟨h.installed.snoc hp ?_ fun _ _ => rfl, h.keeps⟩
    show fs' (dir ++ []) = _
    rw [List.append_nil, hfound]
    rfl

theorem upgrade_installs (hroot : prior.lookup (components (clean target)) = .ok root)
    (hstart : EmptyTarget (prior.below root)) {calls : Location → EntryCalls}
    {rest : List (Location × Node Bytes)} {e : Location × Node Bytes} {fs' : Files}
    (hwhole : pkg.entries = visited ++ e :: rest) (h : Upgraded target root prior visited fs)
    (hstep : Upgrade.copyEntry target calls fs e = .ok fs') :
    Upgraded target root prior (visited ++ [e]) fs' := by
  obtain ⟨p, node⟩ := e
  have hp := not_mem_visited pkg.nodup hwhole
  have hmem : (p, node) ∈ pkg.entries := by simp [hwhole]
  have hvisited : ∀ e ∈ visited, e ∈ pkg.entries := fun e he => by simp [hwhole, he]
  have hfs := h.installed.elsewhere p hp
  have hfree : p ≠ [] → fs (root ++ p) = none := fun hne => hfs.trans (hstart.2 p hne)
  cases node with
  | dir =>
      by_cases hnil : p = []
      · subst hnil
        exact upgraded_root hroot hstart h hvisited hp hstep
      · obtain ⟨q, hq, hmade⟩ := mkdirAll_ok hstep
        obtain rfl := upgraded_place hroot hstart h hvisited hmem hnil hq
        rcases hmade with ⟨-, rfl⟩ | ⟨rfl, dir, hdir, hfound⟩
        · exact upgraded_put h hp (hfree hnil) rfl
        · rw [Tree.resolve_of_not_link (by simp [hfree hnil])] at hdir
          obtain rfl := Except.ok.inj hdir
          rw [hfree hnil] at hfound
          cases hfound
  | file content =>
      have hne : p ≠ [] := fun hnil => root_not_file (hnil ▸ hmem)
      simp only [Upgrade.copyEntry] at hstep
      split at hstep
      · cases hstep
      · next q hq =>
          obtain rfl := upgraded_place hroot hstart h hvisited hmem hne hq
          split at hstep
          · cases hstep
          · next hcopy =>
              cases hstep
              rw [copyFile_fresh (hfree hne) hcopy]
              exact upgraded_put h hp (hfree hne) rfl
  | link linkTarget =>
      have hne : p ≠ [] := by
        intro hnil
        cases Package.eq_of_mem (hnil ▸ hmem) pkg.root
      simp only [Upgrade.copyEntry] at hstep
      split at hstep
      · cases hstep
      · next q hq =>
          obtain rfl := upgraded_place hroot hstart h hvisited hmem hne hq
          rw [relink_ok hstep]
          exact upgraded_put h hp (hfree hne) rfl
  | special =>
      cases hstep
      exact ⟨h.installed.snoc hp hfs fun _ _ => rfl, h.keeps⟩

end

/-! ## The boot -/

/-- A file or a link has been visited there. -/
def Copied (visited : List (Location × Node Bytes)) (p : Location) : Prop :=
  ∃ node, (p, node) ∈ visited ∧ node.isDir = false ∧ node ≠ .special

theorem Copied.snoc {visited : List (Location × Node Bytes)} {p : Location}
    (h : Copied visited p) (e : Location × Node Bytes) : Copied (visited ++ [e]) p := by
  obtain ⟨node, hmem, hnode⟩ := h
  exact ⟨node, List.mem_append_left _ hmem, hnode⟩

/-- A file comes after the entry with its name and `.partial`. -/
def Clobbers (walked : List (Location × Node Bytes)) : Prop :=
  ∃ visited p content rest, walked = visited ++ (p, .file content) :: rest ∧
    Copied visited (withSuffix p (bytes ".partial"))

theorem partial_ne (p : Location) : withSuffix p (bytes ".partial") ≠ p :=
  withSuffix_ne (by decide +kernel) p

theorem partial_ne_nil (p : Location) : withSuffix p (bytes ".partial") ≠ [] := by
  simp [withSuffix]

/-- Nothing has been copied to the place of the partial file. -/
theorem partial_free {target : Bytes} {start fs fs' : Files} (hstart : EmptyTarget start)
    {visited : List (Location × Node Bytes)} {p : Location} {content : Bytes}
    {sys : System} (h : Installed (pushed target) start visited fs)
    (hfree : ∀ node, (withSuffix p (bytes ".partial"), node) ∈ visited →
      node.isDir = true ∨ node = .special)
    (hcopy : copyTo sys content fs (withSuffix p (bytes ".partial")) = .ok fs') :
    fs (withSuffix p (bytes ".partial")) = none := by
  have hnone := hstart.2 _ (partial_ne_nil p)
  by_cases hmem : withSuffix p (bytes ".partial") ∈ visited.map Prod.fst
  · obtain ⟨⟨q, node⟩, hentry, hq⟩ := List.mem_map.mp hmem
    have hq : q = withSuffix p (bytes ".partial") := hq
    subst hq
    have hthere := h.there _ _ hentry
    rw [hnone, Option.or_none] at hthere
    rcases hfree node hentry with hdir | rfl
    · cases node <;> simp [Node.isDir] at hdir
      rw [copyTo_ok, System.opened, hthere] at hcopy
      cases hcopy
    · exact hthere
  · exact (h.elsewhere _ hmem).trans hnone

/-- An entry is in directories of the package. -/
def InDirs (whole : List (Location × Node Bytes)) : Prop :=
  ∀ p node, (p, node) ∈ whole → ∀ dir, dir <+: p.dropLast → (dir, .dir) ∈ whole

theorem boot_installs {sys : System} {target : Bytes} {start : Files}
    (hstart : EmptyTarget start) {whole visited rest : List (Location × Node Bytes)}
    {e : Location × Node Bytes} {fs fs' : Files}
    (hnodup : (whole.map Prod.fst).Nodup) (hdirs : InDirs whole)
    (hwhole : whole = visited ++ e :: rest) (hclobbers : ¬ Clobbers whole)
    (h : Installed (pushed target) start visited fs)
    (hstep : copyEntry sys target fs e = .ok fs') :
    Installed (pushed target) start (visited ++ [e]) fs' := by
  obtain ⟨p, node⟩ := e
  have hp := not_mem_visited hnodup hwhole
  have hfs := h.elsewhere p hp
  have hone := copyEntry_direct (fun dir hdir => h.not_link hstart hnodup
    (fun e he => by simp [hwhole, he]) (hdirs p node (by simp [hwhole]) dir hdir)) hstep
  cases node with
  | dir =>
      rcases create_dir_all_ok hone with ⟨-, rfl⟩ | ⟨rfl, hfound⟩
      · exact h.snoc hp Tree.put_self fun q hq => Tree.put_of_ne hq
      · refine h.snoc hp ?_ fun _ _ => rfl
        rcases hfound with hfound | ⟨link, hfound⟩
        · exact hfound
        · have hvisited : ∀ e ∈ visited, e ∈ whole := fun e he => by simp [hwhole, he]
          have hdir : (p, .dir) ∈ whole := by simp [hwhole]
          exact absurd hfound (h.not_link hstart hnodup hvisited hdir link)
  | file content =>
      obtain ⟨written, hcopy, rfl⟩ := copyOne_file hone
      have hfree : fs (withSuffix p (bytes ".partial")) = none := by
        refine partial_free hstart h (fun node hmem => ?_) hcopy
        cases hdir : node.isDir with
        | true => exact .inl rfl
        | false =>
            refine .inr (Decidable.of_not_not fun hspecial => hclobbers ?_)
            exact ⟨visited, p, content, rest, hwhole, node, hmem, hdir, hspecial⟩
      have hwritten : written = fs.put (withSuffix p (bytes ".partial")) (.file content) := by
        rw [copyTo_ok, opened_free hfree] at hcopy
        exact (Option.some.inj hcopy).symm
      refine h.snoc hp ?_ fun q hq => ?_
      · rw [Tree.rename_to, hwritten, Tree.put_self]
        rfl
      · by_cases hpart : q = withSuffix p (bytes ".partial")
        · rw [hpart, Tree.rename_from (partial_ne p), hfree]
        · rw [Tree.rename_of_ne hpart hq, hwritten, Tree.put_of_ne hpart]
  | link orig =>
      obtain rfl := copyOne_link hone
      refine h.snoc hp Tree.put_self fun q hq => ?_
      rw [Tree.put_of_ne hq, Tree.erase_of_ne hq]
  | special =>
      cases hone
      exact h.snoc hp hfs fun _ _ => rfl

/-! ## What is clobbered -/

theorem clobbers_snoc {visited : List (Location × Node Bytes)} {p : Location}
    {node : Node Bytes} (h : Clobbers (visited ++ [(p, node)])) :
    Clobbers visited ∨
      ((∃ content, node = .file content) ∧
        Copied visited (withSuffix p (bytes ".partial"))) := by
  obtain ⟨before, q, content, rest, hwhole, hcopied⟩ := h
  rcases snoc_split hwhole with ⟨rfl, heq⟩ | ⟨rest', hvisited⟩
  · obtain ⟨rfl, rfl⟩ := Prod.mk.inj heq
    exact .inr ⟨⟨content, rfl⟩, hcopied⟩
  · exact .inl ⟨before, q, content, rest', hvisited, hcopied⟩

/-- A file is written to its place, or through a link that is there; no links are made. -/
theorem copyTo_spec {sys : System} {content : Bytes} {fs fs' : Files} {dst : Location}
    (h : copyTo sys content fs dst = .ok fs') :
    ((∃ target, fs dst = some (.link target)) ∨ ∀ q, q ≠ dst → fs' q = fs q) ∧
      ∀ q target, fs' q = some (.link target) → fs q = some (.link target) := by
  have hput : ∀ p q target, fs.put p (.file content) q = some (.link target) →
      fs q = some (.link target) := by
    intro p q target hq
    by_cases hqp : q = p
    · rw [hqp, Tree.put_self] at hq
      cases hq
    · rwa [Tree.put_of_ne hqp] at hq
  rw [copyTo_ok] at h
  cases hopened : sys.opened fs dst with
  | fails =>
      rw [hopened] at h
      cases h
  | outside =>
      rw [hopened] at h
      cases h
      exact ⟨.inr fun _ _ => rfl, fun _ _ hq => hq⟩
  | «at» p =>
      rw [hopened] at h
      cases h
      refine ⟨?_, hput p⟩
      unfold System.opened at hopened
      split at hopened
      · cases hopened
        exact .inr fun q hq => Tree.put_of_ne hq
      · cases hopened
        exact .inr fun q hq => Tree.put_of_ne hq
      · next target hlink => exact .inl ⟨target, hlink⟩
      · cases hopened
      · cases hopened

/-- Links are where a file or a link has been visited, and if something has been
clobbered, then some file or link is missing. -/
structure Missing (visited : List (Location × Node Bytes)) (fs : Files) : Prop where
  links : ∀ q target, fs q = some (.link target) → Copied visited q
  gone : Clobbers visited → ∃ q, Copied visited q ∧ fs q = none

theorem missing_start {start : Files} (hstart : EmptyTarget start) : Missing [] start := by
  constructor
  · intro q target hlink
    by_cases hq : q = []
    · rw [hq] at hlink
      rcases hstart.1 with hroot | hroot <;> simp [hroot] at hlink
    · simp [hstart.2 q hq] at hlink
  · intro h
    obtain ⟨visited, p, content, rest, hwhole, -⟩ := h
    simp at hwhole

/-- An entry that is no file changes its own place only. -/
theorem Missing.snoc {visited : List (Location × Node Bytes)} {fs fs' : Files}
    {p : Location} {node : Node Bytes} (h : Missing visited fs)
    (hp : p ∉ visited.map Prod.fst) (hnode : ∀ content, node ≠ .file content)
    (hself : ∀ target, fs' p = some (.link target) → fs p = some (.link target) ∨
      (node.isDir = false ∧ node ≠ .special))
    (hother : ∀ q, q ≠ p → fs' q = fs q) : Missing (visited ++ [(p, node)]) fs' := by
  constructor
  · intro q target hlink
    by_cases hq : q = p
    · subst hq
      rcases hself target hlink with hlink | hcopied
      · exact (h.links q target hlink).snoc _
      · exact ⟨node, by simp, hcopied⟩
    · rw [hother q hq] at hlink
      exact (h.links q target hlink).snoc _
  · intro hclobbers
    rcases clobbers_snoc hclobbers with hclobbers | ⟨⟨content, hfile⟩, -⟩
    · obtain ⟨q, hcopied, hgone⟩ := h.gone hclobbers
      have hq : q ≠ p := by
        intro heq
        obtain ⟨node', hmem, -⟩ := hcopied
        exact hp (heq ▸ List.mem_map_of_mem hmem)
      exact ⟨q, hcopied.snoc _, (hother q hq).trans hgone⟩
    · exact absurd hfile (hnode content)

theorem boot_misses {sys : System} {target : Bytes}
    {whole visited rest : List (Location × Node Bytes)}
    {e : Location × Node Bytes} {fs fs' : Files}
    (hnodup : (whole.map Prod.fst).Nodup) (hdirs : InDirs whole)
    (hwhole : whole = visited ++ e :: rest)
    (h : Missing visited fs) (hstep : copyEntry sys target fs e = .ok fs') :
    Missing (visited ++ [e]) fs' := by
  obtain ⟨p, node⟩ := e
  have hp := not_mem_visited hnodup hwhole
  have hnotlink : ∀ dir, (dir, .dir) ∈ whole → ∀ link, fs dir ≠ some (.link link) := by
    intro dir hdir link hlink
    obtain ⟨node', hmem, hnode, -⟩ := h.links dir link hlink
    have heq : (dir, node') = (dir, .dir) :=
      List.inj_on_of_nodup_map hnodup (by simp [hwhole, hmem]) hdir rfl
    rw [(Prod.mk.inj heq).2] at hnode
    cases hnode
  have hone := copyEntry_direct
    (fun dir hdir => hnotlink dir (hdirs p node (by simp [hwhole]) dir hdir)) hstep
  cases node with
  | dir =>
      rcases create_dir_all_ok hone with ⟨-, rfl⟩ | ⟨rfl, -⟩
      · refine h.snoc hp (by simp) (fun target hlink => ?_) fun q hq => Tree.put_of_ne hq
        simp at hlink
      · exact h.snoc hp (by simp) (fun _ hlink => .inl hlink) fun _ _ => rfl
  | link orig =>
      obtain rfl := copyOne_link hone
      refine h.snoc hp (by simp) (fun _ _ => .inr ⟨rfl, by simp⟩) fun q hq => ?_
      rw [Tree.put_of_ne hq, Tree.erase_of_ne hq]
  | special =>
      cases hone
      exact h.snoc hp (by simp) (fun _ hlink => .inl hlink) fun _ _ => rfl
  | file content =>
      obtain ⟨written, hcopy, rfl⟩ := copyOne_file hone
      obtain ⟨hwritten, hlinks⟩ := copyTo_spec hcopy
      constructor
      · intro q target hlink
        by_cases hq : q = p
        · exact ⟨.file content, by simp [hq], rfl, by simp⟩
        · by_cases htmp : q = withSuffix p (bytes ".partial")
          · rw [htmp, Tree.rename_from (partial_ne p)] at hlink
            cases hlink
          · rw [Tree.rename_of_ne htmp hq] at hlink
            exact (h.links q target (hlinks q target hlink)).snoc _
      · intro hclobbers
        -- the partial file is gone, and if it was an entry, it is the one
        have htmp : ∀ {q}, q = withSuffix p (bytes ".partial") →
            written.rename (withSuffix p (bytes ".partial")) p q = none := by
          intro q hq
          rw [hq, Tree.rename_from (partial_ne p)]
        rcases clobbers_snoc hclobbers with hclobbers | ⟨-, hcopied⟩
        · rcases hwritten with ⟨target, hlink⟩ | hother
          · exact ⟨_, (h.links _ target hlink).snoc _, htmp rfl⟩
          · obtain ⟨q, hcopied, hgone⟩ := h.gone hclobbers
            refine ⟨q, hcopied.snoc _, ?_⟩
            by_cases hq : q = withSuffix p (bytes ".partial")
            · exact htmp hq
            · have hqp : q ≠ p := by
                intro heq
                obtain ⟨node', hmem, -⟩ := hcopied
                exact hp (heq ▸ List.mem_map_of_mem hmem)
              rw [Tree.rename_of_ne hq hqp, hother q hq, hgone]
        · exact ⟨_, hcopied.snoc _, htmp rfl⟩

/-! ## Both -/

/-- Where both succeed, the trees are the same if and only if joining the target to an
absolute link does not change it, and no file comes after the entry with its name and
`.partial`. -/
theorem same_tree_iff {pkg : Package Bytes} {walked : List (Location × Node Bytes)}
    (hwalked : walked.Perm pkg.entries) {sys : System} {target : Bytes} {root : Location}
    {calls : Location → EntryCalls} {prior boot upgrade : Files}
    (hroot : prior.lookup (components (clean target)) = .ok root)
    (hstart : EmptyTarget (prior.below root))
    (hboot : copy sys target walked (prior.below root) = .ok boot)
    (hupgrade : copyRecursive pkg target calls prior = .ok upgrade) :
    boot = upgrade.below root ↔
      (∀ p link, (p, .link link) ∈ pkg.entries → isAbs link = true →
        join target link = link) ∧ ¬ Clobbers walked := by
  have hnodup : (walked.map Prod.fst).Nodup := (hwalked.map Prod.fst).nodup_iff.mpr pkg.nodup
  have hdirs : InDirs walked := fun p node hmem dir hdir =>
    hwalked.mem_iff.mpr (Package.above (hwalked.mem_iff.mp hmem) hdir)
  have hupgraded : Upgraded target root prior pkg.entries upgrade :=
    foldlM_visited (fun visited e rest fs fs' hwhole h hstep =>
      upgrade_installs hroot hstart hwhole h hstep)
      ⟨⟨fun _ _ hmem => absurd hmem List.not_mem_nil, fun _ _ => rfl⟩, Tree.Keeps.refl⟩ hupgrade
  have hupgrade := hupgraded.installed
  generalize upgrade.below root = upgrade at hupgrade ⊢
  have hmissing : Missing walked boot :=
    foldlM_visited (fun visited e rest fs fs' hwhole h hstep =>
      boot_misses hnodup hdirs hwhole h hstep) (missing_start hstart) hboot
  have hboot : ¬ Clobbers walked →
      Installed (pushed target) (prior.below root) walked boot :=
    fun hclobbers => foldlM_visited (fun visited e rest fs fs' hwhole h hstep =>
      boot_installs hstart hnodup hdirs hwhole hclobbers h hstep)
      ⟨fun _ _ hmem => absurd hmem List.not_mem_nil, fun _ _ => rfl⟩ hboot
  constructor
  · intro hsame
    have hclobbers : ¬ Clobbers walked := by
      intro hclobbers
      obtain ⟨q, ⟨node, hmem, hdir, hspecial⟩, hgone⟩ := hmissing.gone hclobbers
      have hthere := hupgrade.there q node (hwalked.mem_iff.mp hmem)
      obtain ⟨node', hinstalled⟩ := installed_of_ne (joined target) hspecial
      rw [← hsame, hgone, hinstalled] at hthere
      cases hthere
    refine ⟨fun p link hmem habs => ?_, hclobbers⟩
    have hpushed := (hboot hclobbers).there p _ (hwalked.mem_iff.mpr hmem)
    have hjoined := hupgrade.there p _ hmem
    rw [hsame, hjoined] at hpushed
    simpa [installed, pushed_eq, joined, habs] using hpushed
  · intro h
    obtain ⟨hlinks, hclobbers⟩ := h
    funext p
    by_cases hp : p ∈ pkg.entries.map Prod.fst
    · obtain ⟨⟨q, node⟩, hmem, rfl⟩ := List.mem_map.mp hp
      rw [(hboot hclobbers).there q node (hwalked.mem_iff.mpr hmem), hupgrade.there q node hmem]
      cases node with
      | dir | file | special => rfl
      | link link =>
          have hrelinked : pushed target link = joined target link := by
            rw [pushed_eq, joined]
            split
            · next habs => exact (hlinks q link hmem habs).symm
            · rfl
          rw [installed, installed, hrelinked]
    · have hp' : p ∉ walked.map Prod.fst :=
        fun hmem => hp ((hwalked.map Prod.fst).mem_iff.mp hmem)
      rw [(hboot hclobbers).elsewhere p hp', hupgrade.elsewhere p hp]

/-! ## A package with links -/

/-- A program and two links to it. -/
def withLinks : Package Bytes where
  entries := [([], .dir), ([bytes "bin"], .dir),
    ([bytes "bin", bytes "zinit"], .file (bytes "elf")),
    ([bytes "bin", bytes "init"], .link (bytes "zinit")),
    ([bytes "init"], .link (bytes "/bin/zinit"))]
  nodup := by decide +kernel
  root := List.mem_cons_self
  parents := Package.parents_of_all (by decide +kernel)

/-- Nothing goes wrong. -/
def noErrors : System where
  error := fun _ => none
  through := fun _ _ => .fails

def noCalls (_ : Location) : EntryCalls :=
  ⟨none, none, none, ⟨none, none, none, none, none, none, none⟩⟩

/-- A file system with nothing in it. -/
def bare : Files := Tree.put Tree.empty [] .dir

/-- An empty directory in it. -/
def withTarget (root : Location) : Files := bare.put root .dir

theorem emptyTarget_withTarget {root : Location} :
    EmptyTarget ((withTarget root).below root) := by
  constructor
  · refine .inr ?_
    show withTarget root (root ++ []) = _
    rw [List.append_nil]
    exact Tree.put_self
  · intro p hp
    have hne : root ++ p ≠ root := by simp [hp]
    have hne' : root ++ p ≠ [] := by simp [hp]
    exact (Tree.put_of_ne hne).trans (Tree.put_of_ne hne')

theorem exists_ok {ε α : Type} {x : Except ε α} (h : x.isOk = true) : ∃ a, x = .ok a := by
  cases x with
  | error err => cases h
  | ok a => exact ⟨a, rfl⟩

theorem same_tree_iff_root :
    ∃ boot upgrade,
      copy noErrors (bytes "/") withLinks.entries ((withTarget []).below []) = .ok boot ∧
      copyRecursive withLinks (bytes "/") noCalls (withTarget []) = .ok upgrade ∧
      (boot = upgrade.below [] ↔
        (∀ p link, (p, .link link) ∈ withLinks.entries → isAbs link = true →
          join (bytes "/") link = link) ∧ ¬ Clobbers withLinks.entries) := by
  obtain ⟨boot, hboot⟩ : ∃ boot, copy noErrors (bytes "/") withLinks.entries
    ((withTarget []).below []) = .ok boot := exists_ok (by decide +kernel)
  obtain ⟨upgrade, hupgrade⟩ : ∃ upgrade, copyRecursive withLinks (bytes "/") noCalls
    (withTarget []) = .ok upgrade := exists_ok (by decide +kernel)
  have hroot : (withTarget []).lookup (components (clean (bytes "/"))) = .ok [] := by
    decide +kernel
  exact ⟨boot, upgrade, hboot, hupgrade,
    same_tree_iff (List.Perm.refl _) hroot emptyTarget_withTarget hboot hupgrade⟩

/-- Into another directory than the root, the boot does not re-root the link. -/
theorem link_not_rerooted :
    ¬ ∀ (pkg : Package Bytes) (walked : List (Location × Node Bytes)) (sys : System)
      (target : Bytes) (root : Location) (calls : Location → EntryCalls)
      (prior boot upgrade : Files), walked.Perm pkg.entries →
        prior.lookup (components (clean target)) = .ok root →
        EmptyTarget (prior.below root) →
        copy sys target walked (prior.below root) = .ok boot →
        copyRecursive pkg target calls prior = .ok upgrade → boot = upgrade.below root := by
  intro h
  obtain ⟨boot, hboot⟩ : ∃ boot, copy noErrors (bytes "/mnt") withLinks.entries
    ((withTarget [bytes "mnt"]).below [bytes "mnt"]) = .ok boot := exists_ok (by decide +kernel)
  obtain ⟨upgrade, hupgrade⟩ : ∃ upgrade, copyRecursive withLinks (bytes "/mnt") noCalls
    (withTarget [bytes "mnt"]) = .ok upgrade := exists_ok (by decide +kernel)
  have hroot : (withTarget [bytes "mnt"]).lookup (components (clean (bytes "/mnt"))) =
    .ok [bytes "mnt"] := by decide +kernel
  have hsame := h withLinks _ _ _ _ _ _ boot upgrade (List.Perm.refl _) hroot
    emptyTarget_withTarget hboot hupgrade
  have hbootLink : (copy noErrors (bytes "/mnt") withLinks.entries
      ((withTarget [bytes "mnt"]).below [bytes "mnt"])).toOption.bind (· [bytes "init"]) =
        some (.link (bytes "/bin/zinit")) := by decide +kernel
  have hupgradeLink : (copyRecursive withLinks (bytes "/mnt") noCalls
      (withTarget [bytes "mnt"])).toOption.bind (· [bytes "mnt", bytes "init"]) =
        some (.link (bytes "/mnt/bin/zinit")) := by decide +kernel
  rw [hboot] at hbootLink
  rw [hupgrade] at hupgradeLink
  have hlink : boot [bytes "init"] = some (.link (bytes "/mnt/bin/zinit")) := by
    rw [hsame]
    exact hupgradeLink
  exact absurd (hbootLink.symm.trans hlink) (by decide +kernel)

end Zos4.Bootstrap
