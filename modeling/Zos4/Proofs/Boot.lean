import Zos4.Bootstrap.Stages
import Zos4.Proofs.SelfUpdate

/-!
# What a boot leaves

A boot that ends well has gone through its two stages, in two processes, the second one
executed by the first. What it leaves is the packages of the tag over one another in the
order of its list, over the file with the info on the tag link, over the package of the
bootstrap, over the tree it was started in (`boot_overlays`): at every path there is what
the last package that has something there brought, and no other path has changed.

The packages are those listed under the tag that belongs to the run mode and the version on
the kernel command line. That they are over one another is so as long as nothing leads
elsewhere what is written (`Plain`): no link is where a package has a directory, where a
file is written first, or on the way to the file of the tag link or to the work directory.
What is written into the work directory is gone with it.
-/

namespace Zos4.Bootstrap

open Zos4.Files Zos4.Interaction

/-! ## Packages over one another -/

/-- What there is at a path when a package is put over what was there. -/
def onTop (l : Location) (below : Option (Node Bytes)) (fs : Mounted) : Option (Node Bytes) :=
  match fs.tree.find l with
  | some node => (installed id node).or below
  | none => below

/-- The packages are copied one after the other. -/
def copyAll (stack : List Mounted) (root : Files) : Except CopyError Files :=
  stack.foldlM (fun root fs => copy fs.sys (bytes "/") fs.tree.entries root) root

/-- All entries of the packages. -/
def entriesOf (stack : List Mounted) : List (Location × Node Bytes) :=
  stack.flatMap fun fs => fs.tree.entries

/-- What is at these paths leads elsewhere what is written, if it is a link or a device:
the directories of the packages and the paths their files are first written to, and the
way to the file of the tag link and to the work directory. -/
def Crossed (walked : List (Location × Node Bytes)) (p : Location) : Prop :=
  (p, .dir) ∈ walked ∨ (∃ q content, (q, .file content) ∈ walked ∧ p = tmp q) ∨
    p <+: FLIST_TAG_FILE ∨ p <+: WORKDIR

/-- There is no such thing at any of them. -/
def Plain (walked : List (Location × Node Bytes)) (fs : Files) : Prop :=
  ∀ p, Crossed walked p → ∀ node, fs p = some node → node.isLink = false ∧ node ≠ .special

/-- Nothing leads elsewhere what is written, the links of the packages included, no file is
first written to the path, and the path is not in the work directory. -/
structure Apart (l : Location) (root start : Files) (walked : List (Location × Node Bytes)) :
    Prop where
  elsewhere : ∀ p content, (p, .file content) ∈ walked → tmp p ≠ l
  beside : ¬ WORKDIR <+: l
  unlinked : Unlinked root
  plain : Plain walked start
  links : ∀ p, Crossed walked p → ∀ target, (p, .link target) ∉ walked

section

variable {l dst : Location} {start root root' fs fs' : Files} {sys : System} {target : Bytes}
  {walked : List (Location × Node Bytes)} {entry : Location × Node Bytes}

theorem pushed_root : pushed (bytes "/") = id := funext fun link => pushed_eq _ link

theorem opened_plain (hplain : ∀ node, fs dst = some node →
      node.isLink = false ∧ node ≠ .special) :
    sys.opened fs dst = .at dst ∨ sys.opened fs dst = .fails := by
  unfold System.opened
  split
  · exact .inl rfl
  · exact .inl rfl
  · next target hlink => cases (hplain _ hlink).1
  · next hspecial => exact absurd rfl (hplain _ hspecial).2
  · exact .inr rfl

/-- An entry changes what is at its path, and what it takes away where it is first
written. -/
theorem copyEntry_plain (hdirs : InDirs walked) (hplain : Plain walked fs)
    (hentry : entry ∈ walked) (h : copyEntry sys target fs entry = .ok fs') :
    fs' entry.1 = (installed (pushed target) entry.2).or (fs entry.1) ∧
      ∀ l, l ≠ entry.1 → fs' l = fs l ∨
        (∃ content, entry.2 = .file content) ∧ l = tmp entry.1 ∧ fs' l = none := by
  obtain ⟨p, node⟩ := entry
  have hnotlink : ∀ dir, (dir, .dir) ∈ walked → ∀ link, fs dir ≠ some (.link link) := by
    intro dir hdir link hlink
    cases (hplain dir (.inl hdir) _ hlink).1
  have hone := copyEntry_direct
    (fun dir hdir => hnotlink dir (hdirs p node hentry dir hdir)) h
  have hat : ∀ l, fs' l = (entryChange sys target fs l p node).getD (fs l) :=
    fun l => copyOne_at hone
  cases node with
  | dir =>
      rcases create_dir_all_ok hone with ⟨-, rfl⟩ | ⟨rfl, hdir | ⟨link, hlink⟩⟩
      · exact ⟨Tree.put_self, fun l hl => .inl (Tree.put_of_ne hl)⟩
      · exact ⟨hdir, fun _ _ => .inl rfl⟩
      · exact absurd hlink (hnotlink p hentry link)
  | file content =>
      have hopened : sys.opened fs (tmp p) = .at (tmp p) := by
        refine (opened_plain (hplain _ (.inr (.inl ⟨p, content, hentry, rfl⟩)))).resolve_right
          fun hfails => ?_
        obtain ⟨written, hcopy, -⟩ := copyOne_file hone
        rw [copyTo_ok, hfails] at hcopy
        cases hcopy
      refine ⟨?_, fun l hl => ?_⟩
      · rw [hat, entryChange, if_pos rfl, if_pos hopened]
        rfl
      · rw [hat, entryChange, if_neg hl]
        by_cases htmp : l = tmp p
        · exact .inr ⟨⟨content, rfl⟩, htmp, by rw [if_pos htmp]; rfl⟩
        · rw [if_neg htmp, hopened, if_neg fun heq => htmp (Through.at.inj heq).symm]
          exact .inl rfl
  | link orig =>
      refine ⟨?_, fun l hl => .inl ?_⟩
      · rw [hat, entryChange, if_pos rfl]
        rfl
      · rw [hat, entryChange, if_neg hl]
        rfl
  | special =>
      cases hone
      exact ⟨rfl, fun _ _ => .inl rfl⟩

theorem plain_snoc (hdirs : InDirs walked)
    (hlinks : ∀ p, Crossed walked p → ∀ target, (p, .link target) ∉ walked)
    (hplain : Plain walked fs) (hentry : entry ∈ walked)
    (h : copyEntry sys target fs entry = .ok fs') : Plain walked fs' := by
  intro p hp node hnode
  obtain ⟨hself, hother⟩ := copyEntry_plain hdirs hplain hentry h
  by_cases heq : p = entry.1
  · rw [heq, hself] at hnode
    obtain ⟨q, new⟩ := entry
    cases new with
    | link orig =>
        obtain rfl : p = q := heq
        exact absurd hentry (hlinks p hp orig)
    | special => exact hplain p hp node (heq ▸ hnode)
    | dir | file =>
        obtain rfl := Option.some.inj hnode
        exact ⟨rfl, by simp⟩
  · rcases hother p heq with hsame | ⟨-, -, hgone⟩
    · exact hplain p hp node (hsame ▸ hnode)
    · cases hnode.symm.trans hgone

/-- One package, of several that are put over one another. -/
theorem copy_over {fs : Mounted} (hdirs : InDirs walked) (hapart : Apart l prior start walked)
    (hplain : Plain walked root) (hwalked : ∀ entry ∈ fs.tree.entries, entry ∈ walked)
    (h : copy fs.sys (bytes "/") fs.tree.entries root = .ok root') :
    Plain walked root' ∧ root' l = onTop l (root l) fs := by
  have hcopied := foldlM_visited
    (I := fun visited s => Plain walked s ∧
      (∀ node, (l, node) ∈ visited → s l = (installed id node).or (root l)) ∧
      (l ∉ visited.map Prod.fst → s l = root l))
    (fun seen entry next s s' hsplit hI hstep => ?_)
    ⟨hplain, fun _ hnode => absurd hnode List.not_mem_nil, fun _ => rfl⟩ h
  · obtain ⟨hplain', hthere, huntouched⟩ := hcopied
    refine ⟨hplain', ?_⟩
    rw [onTop]
    cases hfind : fs.tree.find l with
    | some node => exact hthere node (Package.find_eq_some.mp hfind)
    | none =>
        refine huntouched fun hmem => ?_
        obtain ⟨⟨p, node⟩, hentry, heq⟩ := List.mem_map.mp hmem
        have hp : p = l := heq
        rw [Package.find_eq_some.mpr (hp ▸ hentry)] at hfind
        cases hfind
  · obtain ⟨hs, hthere, huntouched⟩ := hI
    have hentry : entry ∈ walked := hwalked entry (by simp [hsplit])
    obtain ⟨hself, hothers⟩ := copyEntry_plain hdirs hs hentry hstep
    rw [pushed_root] at hself
    have hother : l ≠ entry.1 → s' l = s l := by
      intro hne
      rcases hothers l hne with hsame | ⟨⟨content, hfile⟩, htmp, -⟩
      · exact hsame
      · have hmem : (entry.1, .file content) ∈ walked := hfile ▸ hentry
        exact absurd htmp.symm (hapart.elsewhere _ content hmem)
    have hnew : entry.1 ∉ seen.map Prod.fst := not_mem_visited fs.tree.nodup hsplit
    refine ⟨plain_snoc hdirs hapart.links hs hentry hstep, fun node hnode => ?_,
      fun hnot => ?_⟩
    · rcases List.mem_append.mp hnode with hseen | hlast
      · have hne : l ≠ entry.1 := by
          intro heq
          exact hnew (heq ▸ List.mem_map_of_mem hseen)
        rw [hother hne]
        exact hthere node hseen
      · obtain rfl := List.mem_singleton.mp hlast
        rw [hself, huntouched hnew]
    · rw [List.map_append, List.mem_append, not_or] at hnot
      have hne : l ≠ entry.1 := by simpa using hnot.2
      rw [hother hne]
      exact huntouched hnot.1

theorem copyAll_over {stack : List Mounted} (hdirs : InDirs walked)
    (hapart : Apart l prior start walked) (hplain : Plain walked root)
    (hwalked : ∀ entry ∈ entriesOf stack, entry ∈ walked)
    (h : copyAll stack root = .ok root') :
    Plain walked root' ∧ root' l = stack.foldl (onTop l) (root l) := by
  induction stack generalizing root with
  | nil =>
      obtain rfl : root = root' := Except.ok.inj h
      exact ⟨hplain, rfl⟩
  | cons fs stack ih =>
      rw [copyAll, List.foldlM_cons] at h
      cases hfirst : copy fs.sys (bytes "/") fs.tree.entries root with
      | error err =>
          rw [hfirst] at h
          cases h
      | ok mid =>
          rw [hfirst] at h
          obtain ⟨hmid, hl⟩ := copy_over hdirs hapart hplain
            (fun entry hentry => hwalked entry (by simp [entriesOf, hentry])) hfirst
          rw [List.foldl_cons, ← hl]
          refine ih hmid (fun entry hentry => hwalked entry ?_) h
          exact List.mem_append_right _ hentry

theorem inDirs_entriesOf (stack : List Mounted) : InDirs (entriesOf stack) := by
  intro p node hmem dir hdir
  obtain ⟨fs, hfs, hentry⟩ := List.mem_flatMap.mp hmem
  exact List.mem_flatMap.mpr ⟨fs, hfs, Package.above hentry hdir⟩

theorem toVec_of_write {flist : Flist} {calls : WriteCalls} {out : Location}
    (h : flist.write calls out root = (.ok (), root')) : ∃ info, calls.toVec flist = .ok info := by
  unfold Flist.write at h
  split at h
  · cases h
  · cases h
  · next info hinfo _ => exact ⟨info, hinfo⟩

/-- The info on the tag link is put over what was there. -/
theorem write_over {flist : Flist} {calls : WriteCalls} (hplain : Plain walked root)
    (h : flist.write calls FLIST_TAG_FILE root = (.ok (), root')) : Plain walked root' ∧
      ∃ info, calls.toVec flist = .ok info ∧ root' = root.put FLIST_TAG_FILE (.file info) := by
  have hnode : ∀ p, p <+: FLIST_TAG_FILE → ∀ node, root p = some node →
      node.isLink = false ∧ node ≠ .special := fun p hp => hplain p (.inr (.inr (.inl hp)))
  have hplace : calls.sys.place root FLIST_TAG_FILE = .at FLIST_TAG_FILE ∨
      calls.sys.place root FLIST_TAG_FILE = .fails := by
    refine place_direct _ fun dir hdir link hlink => ?_
    cases (hnode dir (hdir.trans (List.dropLast_prefix _)) _ hlink).1
  have hopened : calls.sys.opened root FLIST_TAG_FILE = .at FLIST_TAG_FILE ∨
      calls.sys.opened root FLIST_TAG_FILE = .fails :=
    opened_plain (hnode _ (List.prefix_refl _))
  have hput : ∃ info, calls.toVec flist = .ok info ∧
      root' = root.put FLIST_TAG_FILE (.file info) := by
    unfold Flist.write at h
    split at h
    · cases h
    · cases h
    · next info hinfo _ =>
        refine ⟨info, hinfo, ?_⟩
        rcases hplace with hplace | hplace <;> rw [hplace] at h
        · rcases hopened with hopened | hopened <;> simp only [hopened, writeTo] at h
          · cases hall : calls.writeAll with
            | none =>
                rw [hall] at h
                exact (Prod.mk.inj h).2.symm
            | some failed =>
                rw [hall] at h
                cases h
          · cases h
        · simp only [writeTo] at h
          cases h
  obtain ⟨info, hinfo, rfl⟩ := hput
  refine ⟨fun p hp node hp' => ?_, info, hinfo, rfl⟩
  by_cases heq : p = FLIST_TAG_FILE
  · rw [heq, Tree.put_self] at hp'
    obtain rfl := Option.some.inj hp'
    exact ⟨rfl, by simp⟩
  · rw [Tree.put_of_ne heq] at hp'
    exact hplain p hp node hp'

end

/-! ## What was installed -/

section

variable {calls : PackageCalls} {fuel : Nat} {flist : Flist} {w w' : World}

theorem copy_of_install_mounted {fs : Mounted} {root root' : Files}
    (h : install_mounted fs root = (.ok (), root')) :
    copy fs.sys (bytes "/") fs.tree.entries root = .ok root' := by
  rw [install_mounted] at h
  split at h
  · cases h
  · next copied hcopied =>
      split at h
      · cases h
        exact copyPartly_ok.mp hcopied
      · cases h

theorem install_package_ok (h : install_package calls fuel flist w = some (.ok (), w')) :
    ∃ fs, Mounts calls fs ∧
      copy fs.sys (bytes "/") fs.tree.entries w.root = .ok w'.root := by
  rw [install_package] at h
  split at h
  · cases h
  · cases h
  · split at h
    · cases h
    · next fs hmount =>
        obtain ⟨hr, hw⟩ := Prod.mk.inj (Option.some.inj h)
        refine ⟨fs, mounts_of_ok hmount, copy_of_install_mounted (Prod.ext hr ?_)⟩
        exact congrArg World.root hw

theorem update_bootstrap_ok {calls : UpdateCalls} {bin : Location}
    (h : update_bootstrap calls fuel bin w = some (.ok (), w')) :
    ∃ fs, Mounts calls.package fs ∧
      copy fs.sys (bytes "/") fs.tree.entries (w.root.rename bin (bak bin)) = .ok w'.root := by
  rw [update_bootstrap] at h
  split at h
  · cases h
  · split at h
    · cases h
    · cases h
    · split at h
      · cases h
      · next root hrename =>
          obtain rfl := fsRename_ok hrename
          exact install_package_ok h

theorem install_packages_ok {calls : Nat → PackageCalls} {i : Nat} {packages : List Flist}
    (h : install_packages calls fuel i packages w = some (.ok (), w')) :
    ∃ stack : List Mounted, stack.length = packages.length ∧
      (∀ j fs, stack[j]? = some fs → Mounts (calls (i + j)) fs) ∧
      copyAll stack w.root = .ok w'.root := by
  induction packages generalizing i w with
  | nil =>
      cases h
      exact ⟨[], rfl, fun j fs hj => by simp at hj, rfl⟩
  | cons package packages ih =>
      rw [install_packages] at h
      cases hfirst : install_package (calls i) fuel package w with
      | none =>
          rw [hfirst] at h
          cases h
      | some result =>
          obtain ⟨r, mid⟩ := result
          rw [hfirst] at h
          cases r with
          | error stop => cases h
          | ok _ =>
              obtain ⟨fs, hmounts, hcopy⟩ := install_package_ok hfirst
              obtain ⟨stack, hlength, hstack, hrest⟩ := ih h
              refine ⟨fs :: stack, by simp [hlength], fun j fs' hj => ?_, ?_⟩
              · cases j with
                | zero =>
                    cases hj
                    exact hmounts
                | succ j =>
                    rw [Nat.add_succ, ← Nat.succ_add]
                    exact hstack j fs' hj
              · rw [copyAll, List.foldlM_cons, hcopy]
                exact hrest

theorem install_tag_ok {calls : InstallCalls} {found : Option Flist}
    (h : install_tag calls fuel found w = some (.ok (), w')) :
    ∃ tag packages root, found = some tag ∧ tagged calls tag = .ok packages ∧
      tag.write calls.writeTag FLIST_TAG_FILE w.root = (.ok (), root) ∧
      ∃ stack : List Mounted, stack.length = packages.length ∧
        (∀ j fs, stack[j]? = some fs → Mounts (calls.package j) fs) ∧
        copyAll stack root = .ok w'.root := by
  cases found with
  | none => cases h
  | some tag =>
      rw [install_tag] at h
      split at h
      · cases h
      · next root hwrite =>
          split at h
          · cases h
          · next packages htagged =>
              obtain ⟨stack, hlength, hstack, hcopy⟩ := install_packages_ok h
              refine ⟨tag, packages, root, rfl, htagged, hwrite, stack, hlength,
                fun j fs hj => ?_, hcopy⟩
              rw [← Nat.zero_add j]
              exact hstack j fs hj

/-- Without a link on the way, it is done over an empty work directory. -/
theorem install_ok {calls : InstallCalls} {cfg : Config}
    (h : install calls fuel cfg w = some (.ok (), w')) :
    ∃ found root done, linked calls cfg = .ok found ∧
      install_tag calls fuel found ⟨fun _ => none, root⟩ = some (.ok (), done) ∧
      (Unlinked w.root → root = mountOver (.at WORKDIR) w.root ∧ Dropped done.root w'.root) := by
  rw [install] at h
  split at h
  · cases h
  · next found hlinked =>
      obtain ⟨root, done, hdone, hdropped⟩ := runIn_ok h
      exact ⟨found, root, done, hlinked, hdone, hdropped⟩

end

/-! ## The work directory -/

/-- Where there was no link before, there is none in the next process. -/
theorem plain_mountOver {walked : List (Location × Node Bytes)} {fs fs' : Files}
    (hplain : Plain walked fs) (h : Dropped fs fs') :
    Unlinked fs' ∧ Plain walked (mountOver (.at WORKDIR) fs') := by
  constructor
  · intro p hp link hlink
    have hcrossed : Crossed walked p := .inr (.inr (.inr hp))
    by_cases heq : p = WORKDIR
    · subst heq
      cases (hplain _ hcrossed _ (h.unlinked link hlink)).1
    · have hbeside : ¬ WORKDIR <+: p := fun hle =>
        heq (hp.eq_of_length_le hle.length_le)
      cases (hplain p hcrossed _ (h.beside p hbeside ▸ hlink)).1
  · intro p hp node hnode
    by_cases hinside : WORKDIR <+: p
    · rw [mountOver_inside hinside] at hnode
      split at hnode
      · obtain rfl := Option.some.inj hnode
        exact ⟨rfl, by simp⟩
      · cases hnode
    · rw [mountOver_beside hinside, h.beside p hinside] at hnode
      exact hplain p hp node hnode

/-! ## A process -/

section

variable [Shlex] {calls : ProcessCalls} {fuel : Nat} {bin : Location} {args args' : Args}
  {cfg : StageConfig} {w w' : World}

theorem current_ok {cmdline : Nat → Except BootError Bytes}
    (h : current cmdline args = .ok cfg) :
    parseU32 args.stage = .ok cfg.stage ∧ cfg.debug = args.debug ∧
      runmode (cmdline 1) = .ok cfg.runmode ∧
      (cfg.stage = 2 → version (cmdline 0) = .ok cfg.version) := by
  rw [current] at h
  cases hstage : parseU32 args.stage with
  | error err =>
      rw [hstage] at h
      cases h
  | ok stage =>
      rw [hstage] at h
      dsimp only at h
      split at h
      · cases h
      · split at h
        · next htwo =>
            cases hversion : version (cmdline 0) with
            | error err =>
                rw [hversion] at h
                cases h
            | ok ver =>
                rw [hversion] at h
                cases hmode : runmode (cmdline 1) with
                | error err =>
                    rw [hmode] at h
                    cases h
                | ok mode =>
                    rw [hmode] at h
                    cases h
                    exact ⟨rfl, rfl, rfl, fun _ => rfl⟩
        · next hother =>
            cases hmode : runmode (cmdline 1) with
            | error err =>
                rw [hmode] at h
                cases h
            | ok mode =>
                rw [hmode] at h
                cases h
                exact ⟨rfl, rfl, rfl, fun htwo => absurd htwo hother⟩

omit [Shlex] in
theorem runStage_first (hfirst : cfg.stage = 1) : runStage calls fuel bin cfg w =
    if cfg.debug then some (.ok (), w) else update calls.update fuel bin w := by
  rw [runStage, if_pos hfirst]

omit [Shlex] in
theorem runStage_second (hsecond : cfg.stage = 2) : runStage calls fuel bin cfg w =
    install calls.install fuel cfg.toConfig w := by
  rw [runStage, if_neg (by omega), if_pos hsecond]

/-- A process that executes the next one has gone through its stage. -/
theorem app_execs (h : app calls fuel bin args w = some (.exec args', w')) :
    ∃ cfg, current calls.cmdline args = .ok cfg ∧
      args' = ⟨toString (cfg.stage + 1), cfg.debug⟩ ∧ cfg.stage + 1 ≤ 2 ∧
      runStage calls fuel bin cfg w = some (.ok (), w') := by
  rw [app] at h
  split at h
  · cases h
  · next cfg hcfg =>
      split at h
      · cases h
      · next stop _ _ => cases stop <;> cases h
      · next done hrun =>
          split at h
          · next hnext =>
              split at h <;> cases h <;> exact ⟨cfg, hcfg, rfl, hnext, hrun⟩
          · cases h

/-- A process that exits well was the last one. -/
theorem app_exits (h : app calls fuel bin args w = some (.exit 0, w')) :
    ∃ cfg, current calls.cmdline args = .ok cfg ∧ 2 < cfg.stage + 1 ∧
      runStage calls fuel bin cfg w = some (.ok (), w') := by
  rw [app] at h
  split at h
  · cases h
  · next cfg hcfg =>
      split at h
      · cases h
      · next stop _ _ => cases stop <;> cases h
      · next done hrun =>
          split at h
          · split at h <;> cases h
          · next hlast =>
              cases h
              exact ⟨cfg, hcfg, Nat.lt_of_not_le hlast, hrun⟩

/-- What the first stage installs, and over what. The work directory is empty. -/
inductive SelfUpdated (calls : ProcessCalls) (bin : Location) (root : Files) :
    Bool → List Mounted → Files → Prop
  | skipped : SelfUpdated calls bin root true [] root
  | updated {fs : Mounted} (h : Mounts calls.update.package fs) :
      SelfUpdated calls bin root false [fs]
        ((mountOver (.at WORKDIR) root).rename bin (bak bin))

omit [Shlex] in
theorem first_stage (hfirst : cfg.stage = 1)
    (h : runStage calls fuel bin cfg w = some (.ok (), w')) :
    ∃ own start, SelfUpdated calls bin w.root cfg.debug own start ∧
      (Unlinked w.root → ∃ done, copyAll own start = .ok done ∧ Dropped done w'.root) := by
  rw [runStage_first hfirst] at h
  cases hdebug : cfg.debug with
  | true =>
      rw [hdebug, if_pos rfl] at h
      cases h
      exact ⟨[], w.root, .skipped, fun _ => ⟨w.root, rfl, fun _ _ => rfl, fun _ h => h⟩⟩
  | false =>
      rw [hdebug, if_neg Bool.false_ne_true, update] at h
      obtain ⟨root, done, hrun, hdropped⟩ := runIn_ok h
      obtain ⟨fs, hmounts, hcopy⟩ := update_bootstrap_ok hrun
      refine ⟨[fs], _, .updated hmounts, fun hunlinked => ⟨done.root, ?_, ?_⟩⟩
      · obtain ⟨rfl, -⟩ := hdropped hunlinked
        rw [copyAll, List.foldlM_cons, hcopy]
        rfl
      · exact (hdropped hunlinked).2

end

section

variable [Shlex] {calls : Nat → ProcessCalls} {fuel : Nat} {bin : Location} {debug : Bool}
  {w w' : World} {ran : List Args}

/-- What there is at a path when the info on the tag link is put over what was there. -/
def noted (l : Location) (info : Bytes) (below : Option (Node Bytes)) : Option (Node Bytes) :=
  if l = FLIST_TAG_FILE then some (.file info) else below

/-- A boot that ends well ran two processes, and has left the bootstrap's package, the info
on the tag link and the packages listed under the tag over one another, in order, wherever
no file of them is written through a link or under the name of another. -/
theorem boot_overlays (h : Boots calls fuel bin 0 ⟨"1", debug⟩ w ran 0 w') :
    ran = [⟨"1", debug⟩, ⟨"2", debug⟩] ∧
    ∃ (cfg : Config) (tag : Flist) (packages : List Flist) (info : Bytes)
        (own stack : List Mounted) (start : Files),
      runmode ((calls 1).cmdline 1) = .ok cfg.runmode ∧
      version ((calls 1).cmdline 0) = .ok cfg.version ∧
      linked (calls 1).install cfg = .ok (some tag) ∧
      tagged (calls 1).install tag = .ok packages ∧
      (calls 1).install.writeTag.toVec tag = .ok info ∧
      stack.length = packages.length ∧
      (∀ j fs, stack[j]? = some fs → Mounts ((calls 1).install.package j) fs) ∧
      SelfUpdated (calls 0) bin w.root debug own start ∧
      ∀ l, Apart l w.root start (entriesOf (own ++ stack)) →
        w'.root l = stack.foldl (onTop l) (noted l info (own.foldl (onTop l) (start l))) := by
  have hone : parseU32 "1" = .ok 1 := by rfl
  have htwo : parseU32 (toString (1 + 1)) = .ok 2 := by rfl
  cases h with
  | exit h =>
      obtain ⟨cfg, hcfg, hlast, _⟩ := app_exits h
      have hstage := (current_ok hcfg).1
      rw [hone] at hstage
      have := Except.ok.inj hstage
      omega
  | exec hfirst hrest =>
      obtain ⟨cfg₁, hcfg₁, rfl, _, hrun₁⟩ := app_execs hfirst
      obtain ⟨hstage₁, hdebug₁, _, _⟩ := current_ok hcfg₁
      rw [hone] at hstage₁
      have hone₁ : cfg₁.stage = 1 := (Except.ok.inj hstage₁).symm
      rw [hone₁] at hrest
      obtain ⟨own, start, hown, hcopied⟩ := first_stage hone₁ hrun₁
      rw [show cfg₁.debug = debug from hdebug₁] at hown hrest
      cases hrest with
      | exec hsecond _ =>
          obtain ⟨cfg₂, hcfg₂, _, hmore, _⟩ := app_execs hsecond
          have hstage := (current_ok hcfg₂).1
          rw [htwo] at hstage
          have := Except.ok.inj hstage
          omega
      | exit hsecond =>
          obtain ⟨cfg₂, hcfg₂, _, hrun₂⟩ := app_exits hsecond
          obtain ⟨hstage₂, _, hmode, hversion⟩ := current_ok hcfg₂
          rw [htwo] at hstage₂
          have htwo₂ : cfg₂.stage = 2 := (Except.ok.inj hstage₂).symm
          rw [runStage_second htwo₂] at hrun₂
          obtain ⟨found, root, done, hlinked, hdone, hdropped⟩ := install_ok hrun₂
          obtain ⟨tag, packages, mid, rfl, htagged, hwrite, stack, hlength, hstack,
            hcopies⟩ := install_tag_ok hdone
          obtain ⟨info, hinfo⟩ := toVec_of_write hwrite
          refine ⟨rfl, cfg₂.toConfig, tag, packages, info, own, stack, start, hmode,
            hversion htwo₂, hlinked, htagged, hinfo, hlength, hstack, hown,
            fun l hapart => ?_⟩
          have hdirs := inDirs_entriesOf (own ++ stack)
          obtain ⟨first, hfirst, hleft⟩ := hcopied hapart.unlinked
          obtain ⟨hplain, hmid⟩ := copyAll_over hdirs hapart hapart.plain
            (fun entry hentry => by
              rw [entriesOf, List.flatMap_append]
              exact List.mem_append_left _ hentry) hfirst
          -- the second process finds no link on the way to its work directory either
          obtain ⟨hunlinked, hplain⟩ := plain_mountOver hplain hleft
          obtain ⟨rfl, hend⟩ := hdropped hunlinked
          obtain ⟨hplain, info', hinfo', rfl⟩ := write_over hplain hwrite
          obtain rfl := Except.ok.inj (hinfo.symm.trans hinfo')
          obtain ⟨-, hl⟩ := copyAll_over hdirs hapart hplain
            (fun entry hentry => by
              rw [entriesOf, List.flatMap_append]
              exact List.mem_append_right _ hentry) hcopies
          rw [hend.beside l hapart.beside, hl, noted]
          by_cases hfile : l = FLIST_TAG_FILE
          · rw [if_pos hfile, hfile, Tree.put_self]
          · rw [if_neg hfile, Tree.put_of_ne hfile, mountOver_beside hapart.beside,
              hleft.beside l hapart.beside, hmid]

end

/-! ## A boot with two packages that have the same file -/

namespace TwoPackages

/-- Words between blanks, which is all there is to split here. -/
instance (priority := low) words : Shlex where
  split s := some ((s.toList.splitOn ' ').map String.ofList)

def bin : Location := [bytes "bootstrap"]

def shared : Location := [bytes "a"]

def package (p : Location) (content : Bytes) (hp : p ≠ [] ∧ p.dropLast = []) :
    Package Bytes where
  entries := [([], .dir), (p, .file content)]
  nodup := by
    simp only [List.map_cons, List.map_nil, List.nodup_cons, List.mem_singleton]
    exact ⟨hp.1.symm, List.not_mem_nil, List.nodup_nil⟩
  root := List.mem_cons_self
  parents := by
    intro dir name node hmem
    rcases List.mem_cons.mp hmem with heq | hmem
    · simp at heq
    · have heq := List.mem_singleton.mp hmem
      have hdir : dir = p.dropLast := by
        rw [← (Prod.mk.inj heq).1, List.dropLast_concat]
      rw [hdir, hp.2]
      exact List.mem_cons_self

def mounted (p : Location) (content : Bytes) (hp : p ≠ [] ∧ p.dropLast = []) : Mounted where
  tree := package p content hp
  sys := noErrors
  cuts _ := .before
  followed := { listing := .error .notFound, isFile := fun _ => false }

def packageCalls (fs : Mounted) : PackageCalls where
  download _ := ⟨fun _ => none, fun _ => .answered ⟨200, "OK"⟩ ⟨[7], none⟩⟩
  mount _ := .ok fs

def repoCalls : RepoCalls where
  config := .ok ⟨.prod, .v3⟩
  zosConfig _ _ := .answered ⟨200, "OK"⟩ (.ok ["https://v4.hub.grid.tf"])
  health _ _ := .answered ⟨200, "OK"⟩ ()
  list _ := .answered ⟨200, "OK"⟩ (.ok [⟨.tagLink, "production-v4", some "tf-zos/tags/v1"⟩])
  tags _ := .answered ⟨200, "OK"⟩
    (.ok [⟨.symlink, "first", some "x/first"⟩, ⟨.symlink, "second", some "x/second"⟩])
  flist _ _ := .answered ⟨200, "OK"⟩ (.ok ⟨.regular, BOOTSTAP_FLIST, none⟩)

def workDirCalls : WorkDirCalls := ⟨noErrors, none, none, none, none, none, none⟩

def calls (_ : Nat) : ProcessCalls where
  cmdline _ := .ok (bytes "quiet runmode=prod version=v3 version=v4")
  update := ⟨workDirCalls, repoCalls, none, packageCalls (mounted bin [2] (by decide))⟩
  install :=
    { zos := repoCalls
      client := repoCalls
      workDir := workDirCalls
      writeTag := ⟨fun _ => .ok (bytes "\x7b\x7d"), none, noErrors, none⟩
      package := fun i => packageCalls (mounted shared [5 + i.toUInt8] (by decide)) }
  exec := none

def running : World where
  workdir _ := none
  root := ((Tree.put Tree.empty [] .dir).put [bytes "tmp"] .dir).put bin (.file [1])

def outcome : Option (Nat × Option (Node Bytes) × Option (Node Bytes)) :=
  match app (calls 0) 1 bin ⟨"1", false⟩ running with
  | some (.exec args, w) =>
      match app (calls 1) 1 bin args w with
      | some (.exit code, w) => some (code, w.root bin, w.root shared)
      | _ => none
  | _ => none

theorem outcome_eq : outcome = some (0, some (.file [2]), some (.file [6])) := by
  decide +kernel

theorem exists_boot : ∃ (ran : List Args) (w' : World),
    Boots calls 1 bin 0 ⟨"1", false⟩ running ran 0 w' ∧
      w'.root bin = some (.file [2]) ∧ w'.root shared = some (.file [6]) := by
  have h := outcome_eq
  rw [outcome] at h
  split at h
  · next args w hfirst =>
      split at h
      · next code w' hsecond =>
          obtain ⟨hcode, hnodes⟩ := Prod.mk.inj (Option.some.inj h)
          obtain ⟨hbin, hshared⟩ := Prod.mk.inj hnodes
          subst hcode
          exact ⟨_, w', .exec hfirst (.exit hsecond), hbin, hshared⟩
      · cases h
  · cases h

end TwoPackages

theorem boot_overlays_twice : ∃ (ran : List Args) (w' : World),
    w'.root TwoPackages.shared = some (.file [6]) ∧
    ran = [⟨"1", false⟩, ⟨"2", false⟩] ∧
    ∃ (cfg : Config) (tag : Flist) (packages : List Flist) (info : Bytes)
        (own stack : List Mounted) (start : Files),
      runmode ((TwoPackages.calls 1).cmdline 1) = .ok cfg.runmode ∧
      version ((TwoPackages.calls 1).cmdline 0) = .ok cfg.version ∧
      linked (TwoPackages.calls 1).install cfg = .ok (some tag) ∧
      tagged (TwoPackages.calls 1).install tag = .ok packages ∧
      (TwoPackages.calls 1).install.writeTag.toVec tag = .ok info ∧
      stack.length = packages.length ∧
      (∀ j fs, stack[j]? = some fs → Mounts ((TwoPackages.calls 1).install.package j) fs) ∧
      SelfUpdated (TwoPackages.calls 0) TwoPackages.bin TwoPackages.running.root false own
        start ∧
      ∀ l, Apart l TwoPackages.running.root start (entriesOf (own ++ stack)) →
        w'.root l = stack.foldl (onTop l) (noted l info (own.foldl (onTop l) (start l))) := by
  obtain ⟨ran, w', hboot, -, hshared⟩ := TwoPackages.exists_boot
  exact ⟨ran, w', hshared, boot_overlays hboot⟩

end Zos4.Bootstrap
