import Zos4.Proofs.Download
import Zos4.Proofs.SameTree

/-!
# The binary of the bootstrap

`update_bootstrap` renames the binary it runs from before it downloads the one that is to
take its place. Everything that fails from there on, until the copy has come to the binary
and renamed its file, leaves nothing at the path: `update_keeps_binary_iff` says that an
error leaves the old binary or the new one there exactly if it comes before the first
renaming or after the second.

What there is at one place after a copy is what the last entry to change it has left
(`copyPartly_at`). An entry changes the place its path leads to, and for a file also that
of its `.partial` name, and whatever that leads to if it is a link (`entryChange`). If it
fails, it may have come to the first of these changes (`cutChange`).
-/

namespace Zos4.Bootstrap

open Zos4.Files Zos4.Interaction

/-! ## What changes at a place -/

/-- Where a file is written first. -/
abbrev tmp (p : Location) : Location := withSuffix p (bytes ".partial")

section

variable (sys : System) (target : Bytes) (cuts : Location → Cut)

/-- What an entry that is copied leaves at the place `l`, if it changes it; `dst` is its
own. -/
def entryChange (fs : Files) (l dst : Location) : Node Bytes → Option (Option (Node Bytes))
  | .dir => if fs dst = none ∧ l = dst then some (some .dir) else none
  | .file content =>
      if l = dst then
        -- a link that the file was written through is renamed itself
        some (if sys.opened fs (tmp dst) = .at (tmp dst) then some (.file content)
          else fs (tmp dst))
      else if l = tmp dst then some none
      else if sys.opened fs (tmp dst) = .at l then some (some (.file content))
      else none
  | .link orig => if l = dst then some (some (.link (pushed target orig))) else none
  | .special => none

/-- The same of an entry that comes no further than this. -/
def cutChange (fs : Files) (l dst : Location) :
    Node Bytes → Cut → Option (Option (Node Bytes))
  | .file content, .written n =>
      if sys.opened fs (tmp dst) = .at l then some (some (.file (content.take n))) else none
  | .link _, .removed => if l = dst ∧ fs dst ≠ some .dir then some none else none
  | _, _ => none

/-- What an entry that the copy comes to leaves at the place, if it changes it. -/
def change (l : Location) (fs : Files) (entry : Location × Node Bytes) :
    Option (Option (Node Bytes)) :=
  match sys.place fs entry.1 with
  | .at dst =>
      if (copyEntry sys target fs entry).isOk then entryChange sys target fs l dst entry.2
      else cutChange sys fs l dst entry.2 (sys.cut cuts entry)
  | _ => none

end

section

variable {sys : System} {target : Bytes} {cuts : Location → Cut} {fs fs' : Files}
  {l dst : Location} {entry : Location × Node Bytes} {walked : List (Location × Node Bytes)}

theorem writeTo_at {content : Bytes} {file : Through} (h : writeTo content fs file = some fs') :
    fs' l = if file = .at l then some (.file content) else fs l := by
  cases file with
  | fails => cases h
  | outside =>
      cases h
      rfl
  | «at» p =>
      cases h
      by_cases hp : p = l
      · rw [if_pos (congrArg _ hp), ← hp, Tree.put_self]
      · rw [if_neg fun heq => hp (Through.at.inj heq), Tree.put_of_ne (Ne.symm hp)]

theorem copyOne_at {node : Node Bytes} (h : copyOne sys target fs dst node = .ok fs') :
    fs' l = (entryChange sys target fs l dst node).getD (fs l) := by
  cases node with
  | dir =>
      rw [entryChange]
      rcases create_dir_all_ok h with ⟨hnone, rfl⟩ | ⟨rfl, hfound⟩
      · by_cases hl : l = dst
        · rw [if_pos ⟨hnone, hl⟩, hl, Tree.put_self]
          rfl
        · rw [if_neg fun h => hl h.2, Tree.put_of_ne hl]
          rfl
      · rw [if_neg]
        · rfl
        · rintro ⟨hnone, -⟩
          rcases hfound with hdir | ⟨orig, hlink⟩
          · cases hnone.symm.trans hdir
          · cases hnone.symm.trans hlink
  | file content =>
      obtain ⟨written, hcopy, rfl⟩ := copyOne_file h
      have hwritten := copyTo_ok.mp hcopy
      rw [entryChange]
      by_cases hl : l = dst
      · rw [if_pos hl, hl, Tree.rename_to, writeTo_at hwritten]
        rfl
      · rw [if_neg hl]
        by_cases htmp : l = tmp dst
        · rw [if_pos htmp, htmp, Tree.rename_from (partial_ne dst)]
          rfl
        · rw [if_neg htmp, Tree.rename_of_ne htmp hl, writeTo_at hwritten]
          split <;> rfl
  | link orig =>
      obtain rfl := copyOne_link h
      rw [entryChange]
      by_cases hl : l = dst
      · rw [if_pos hl, hl, Tree.put_self]
        rfl
      · rw [if_neg hl, Tree.put_of_ne hl, Tree.erase_of_ne hl]
        rfl
  | special =>
      cases h
      rfl

theorem leaveAt_at {node : Node Bytes} {cut : Cut} :
    leaveAt sys cut fs dst node l = (cutChange sys fs l dst node cut).getD (fs l) := by
  cases node with
  | file content =>
      cases cut with
      | written n =>
          rw [leaveAt, cutChange]
          cases hopened : sys.opened fs (tmp dst) with
          | fails | outside => rfl
          | «at» p =>
              rw [writeTo, Option.getD_some]
              by_cases hp : p = l
              · rw [if_pos (congrArg _ hp), ← hp, Tree.put_self]
                rfl
              · rw [if_neg fun heq => hp (Through.at.inj heq), Tree.put_of_ne (Ne.symm hp)]
                rfl
      | before | removed => rfl
  | link orig =>
      cases cut with
      | removed =>
          have herase : leaveAt sys .removed fs dst (.link orig) =
              if fs dst = some .dir then fs else fs.erase dst := by
            rw [leaveAt]
            split
            · next hdir => rw [if_pos hdir]
            · next hdir => rw [if_neg hdir]
          rw [herase, cutChange]
          by_cases hdir : fs dst = some .dir
          · rw [if_pos hdir, if_neg fun h => h.2 hdir]
            rfl
          · rw [if_neg hdir]
            by_cases hl : l = dst
            · rw [if_pos ⟨hl, hdir⟩, hl, Tree.erase_self]
              rfl
            · rw [if_neg fun h => hl h.1, Tree.erase_of_ne hl]
              rfl
      | before | written => rfl
  | dir | special => rfl

theorem copyEntry_at (h : copyEntry sys target fs entry = .ok fs') :
    fs' l = (change sys target cuts l fs entry).getD (fs l) := by
  rw [change, h]
  rcases copyEntry_ok h with ⟨dst, hdst, hone⟩ | ⟨rfl, houtside | hspecial⟩
  · rw [hdst]
    exact copyOne_at hone
  · rw [houtside]
    rfl
  · rw [hspecial]
    split <;> rfl

theorem leave_at {err : CopyError} (h : copyEntry sys target fs entry = .error err) :
    leave sys cuts fs entry l = (change sys target cuts l fs entry).getD (fs l) := by
  rw [leave, change, h]
  cases sys.place fs entry.1 with
  | «at» dst => exact leaveAt_at
  | fails | outside => rfl

/-- What there is at a place in the end is what the last entry to change it has left. -/
theorem copyPartly_at : (copyPartly sys target cuts walked fs).2 l =
    (lastChange (copyEntry sys target) (change sys target cuts l) walked fs).getD (fs l) := by
  induction walked generalizing fs with
  | nil => rfl
  | cons entry walked ih =>
      rw [copyPartly, lastChange]
      cases h : copyEntry sys target fs entry with
      | ok next =>
          dsimp only
          have hnext : next l = (change sys target cuts l fs entry).getD (fs l) := copyEntry_at h
          rw [ih, hnext]
          cases lastChange (copyEntry sys target) (change sys target cuts l) walked next <;> rfl
      | error err => exact leave_at h

end

/-! ## The update -/

theorem install_mounted_root (mounted : Mounted) (root : Files) :
    (install_mounted mounted root).2 =
      (copyPartly mounted.sys (bytes "/") mounted.cuts mounted.tree.entries root).2 := by
  unfold install_mounted
  split
  · next hcopy => rw [hcopy]
  · next hcopy =>
      rw [hcopy]
      split <;> rfl

/-- The package that is mounted, at the first attempt at which it can be. -/
def Mounts (calls : PackageCalls) (fs : Mounted) : Prop :=
  ∃ i ≤ 10, calls.mount i = .ok fs ∧ ∀ j < i, ∃ err, calls.mount j = .error err

section

variable {calls : PackageCalls} {flist : Flist} {fs fs' : Mounted} {stop : Stop}

theorem mountOnce_again {i : Nat} (h : (mountOnce flist calls.mount i ()).1.ended = none) :
    ∃ err, calls.mount i = .error err := by
  unfold mountOnce at h
  cases hmount : calls.mount i with
  | ok fs =>
      rw [hmount] at h
      cases h
  | error err => exact ⟨err, rfl⟩

theorem mountOnce_repeated {j : Nat} (h : Repeated (mountOnce flist calls.mount) 0 () j ()) :
    ∀ i < j, ∃ err, calls.mount i = .error err :=
  h.keeps (I := fun j _ => ∀ i < j, ∃ err, calls.mount i = .error err) (by simp)
    fun _ _ hI hagain => Nat.forall_lt_succ_right.mpr ⟨hI, mountOnce_again hagain⟩

theorem mounts_of_ok (h : (retryTimes (mountOnce flist calls.mount) 10 0 ()).1 = .ok fs) :
    Mounts calls fs := by
  obtain ⟨j, mid, hj, hrepeated, -, hr⟩ :=
    retryTimes_spec (mountOnce flist calls.mount) 10 0 ()
  rw [hr] at h
  refine ⟨j, by omega, ?_, mountOnce_repeated hrepeated⟩
  unfold mountOnce at h
  cases hmount : calls.mount j with
  | ok fs' =>
      rw [hmount] at h
      exact congrArg _ (Except.ok.inj h)
  | error err =>
      rw [hmount] at h
      cases h

theorem not_mounts_of_error
    (h : (retryTimes (mountOnce flist calls.mount) 10 0 ()).1 = .error stop) :
    ¬ Mounts calls fs := by
  obtain ⟨j, mid, hj, hrepeated, hlast, hr⟩ :=
    retryTimes_spec (mountOnce flist calls.mount) 10 0 ()
  rw [hr] at h
  have hfails : ∃ err, calls.mount j = .error err := by
    unfold mountOnce at h
    cases hmount : calls.mount j with
    | ok fs' =>
        rw [hmount] at h
        cases h
    | error err => exact ⟨err, rfl⟩
  have hnone : (mountOnce flist calls.mount j mid).1.ended = none := by
    obtain ⟨err, hfails⟩ := hfails
    simp [mountOnce, hfails, unwind, withContext, attempt]
  have hten := hlast hnone
  intro hmounts
  obtain ⟨i, hi, hok, -⟩ := hmounts
  have hall : ∃ err, calls.mount i = .error err := by
    by_cases hij : i < j
    · exact mountOnce_repeated hrepeated i hij
    · obtain rfl : i = j := by omega
      exact hfails
  obtain ⟨err, hall⟩ := hall
  cases hok.symm.trans hall

theorem Mounts.unique (h : Mounts calls fs) (h' : Mounts calls fs') : fs = fs' := by
  obtain ⟨i, -, hok, hbefore⟩ := h
  obtain ⟨i', -, hok', hbefore'⟩ := h'
  rcases Nat.lt_trichotomy i i' with hlt | rfl | hlt
  · obtain ⟨err, herr⟩ := hbefore' i hlt
    cases hok.symm.trans herr
  · exact Except.ok.inj (hok.symm.trans hok')
  · obtain ⟨err, herr⟩ := hbefore i' hlt
    cases hok'.symm.trans herr

end

/-- Where the binary is that runs, while the other is installed. -/
abbrev bak (bin : Location) : Location := withSuffix bin (bytes ".bak")

/-- A complete binary: that which ran, or the one the package has at the path it was
started by. -/
def Complete (calls : UpdateCalls) (path : Location) (old content : Bytes) : Prop :=
  content = old ∨ ∃ fs, Mounts calls.package fs ∧ (path, .file content) ∈ fs.tree.entries

/-- The copy of the package comes to an entry that leaves the content at a place, and no entry
that it comes to afterwards changes what is there. -/
def Mounted.Leaves (fs : Mounted) (root : Files) (l : Location) (content : Bytes) : Prop :=
  ∃ before entry rest mid, fs.tree.entries = before ++ entry :: rest ∧
    copy fs.sys (bytes "/") before root = .ok mid ∧
    change fs.sys (bytes "/") fs.cuts l mid entry = some (some (.file content)) ∧
    ∀ next, copyEntry fs.sys (bytes "/") mid entry = .ok next →
      ¬ Changes (copyEntry fs.sys (bytes "/")) (change fs.sys (bytes "/") fs.cuts l) rest next

theorem Mounted.leaves_iff (fs : Mounted) {root : Files} {l : Location} {content : Bytes} :
    fs.Leaves root l content ↔ lastChange (copyEntry fs.sys (bytes "/"))
      (change fs.sys (bytes "/") fs.cuts l) fs.tree.entries root = some (some (.file content)) :=
  lastChange_eq_some.symm

/-- There is a complete binary at the place. -/
def HasBinary (calls : UpdateCalls) (path bin : Location) (old : Bytes) (root : Files) : Prop :=
  ∃ content, Complete calls path old content ∧ root bin = some (.file content)

/-- The update does not come to rename the binary. -/
def Unmoved (calls : UpdateCalls) (bin : Location) (root : Files) : Prop :=
  (∃ err, calls.repo.config = .error err) ∨
    ∃ err, fsRename calls.rename bin (bak bin) root = .error err

/-- The package is mounted, and the copy puts a complete binary in the place of the one that
runs before it fails, if it does. -/
def Replaced (calls : UpdateCalls) (path bin : Location) (old : Bytes) (root : Files) : Prop :=
  ∃ fs content, Mounts calls.package fs ∧ Complete calls path old content ∧
    fs.Leaves (root.rename bin (bak bin)) bin content

section

variable {calls : UpdateCalls} {fuel : Nat} {bin : Location} {w w' : World} {old : Bytes}
  {root root' : Files} {err : BootError}

theorem fsRename_ok {call : Option BootError} {src dst : Location} {fs fs' : Files}
    (h : fsRename call src dst fs = .ok fs') : fs' = fs.rename src dst := by
  unfold fsRename at h
  split at h
  · cases h
  · split at h
    · cases h
    · cases h
    · exact (Except.ok.inj h).symm

/-- The path is empty once the binary has been renamed. -/
theorem bin_moved : (root.rename bin (bak bin)) bin = none :=
  Tree.rename_from (withSuffix_ne (by decide +kernel) bin).symm

/-- What an installation leaves at a place where nothing was. -/
theorem install_package_binary {flist : Flist} (hnone : w.root bin = none)
    (h : install_package calls.package fuel flist w = some (.error (.error err), w'))
    (content : Bytes) : w'.root bin = some (.file content) ↔ ∃ fs, Mounts calls.package fs ∧
      fs.Leaves w.root bin content := by
  unfold install_package at h
  split at h
  · cases h
  · next stop workdir hdownload =>
      -- a download that is over without the flist has panicked
      obtain ⟨j, mid, -, -, hended, -⟩ := retryFor_eq_some.mp hdownload
      obtain ⟨-, msg, rfl⟩ := downloadOnce_stopped hended
      cases h
  · split at h
    · next hmount =>
        cases h
        constructor
        · intro hfile
          cases hnone.symm.trans hfile
        · rintro ⟨fs, hmounts, -⟩
          exact absurd hmounts (not_mounts_of_error hmount)
    · next fs hmount =>
        have hmounts := mounts_of_ok hmount
        have hroot : w'.root = (install_mounted fs w.root).2 :=
          (congrArg World.root (Prod.mk.inj (Option.some.inj h)).2).symm
        have hchange : w'.root bin = some (.file content) ↔ fs.Leaves w.root bin content := by
          rw [fs.leaves_iff, hroot, install_mounted_root, copyPartly_at, hnone]
          cases lastChange (copyEntry fs.sys (bytes "/"))
            (change fs.sys (bytes "/") fs.cuts bin) fs.tree.entries w.root <;> simp
        rw [hchange]
        constructor
        · exact fun hlast => ⟨fs, hmounts, hlast⟩
        · rintro ⟨fs', hmounts', hlast⟩
          obtain rfl := hmounts.unique hmounts'
          exact hlast

/-- An update that fails leaves a binary at the path exactly if it has not renamed the one
that runs, or the last entry of the package to change what is there has left one. -/
theorem update_keeps_binary_iff (path : Location) (hold : w.root bin = some (.file old))
    (h : update_bootstrap calls fuel bin w = some (.error (.error err), w')) :
    HasBinary calls path bin old w'.root ↔
      Unmoved calls bin w.root ∨ Replaced calls path bin old w.root := by
  unfold update_bootstrap at h
  split at h
  · next hrepo =>
      have hconfig : ∃ err, calls.repo.config = .error err := by
        cases hconfig : calls.repo.config with
        | error err => exact ⟨err, rfl⟩
        | ok config => simp [Repo.new, hconfig, bind, Except.bind, pure, Except.pure] at hrepo
      cases h
      exact ⟨fun _ => .inl (.inl hconfig), fun _ => ⟨old, .inl rfl, hold⟩⟩
  · next repo hrepo =>
      split at h
      · cases h
      · next stop _ hget =>
          obtain ⟨j, mid, -, -, hended, -⟩ := retryFor_eq_some.mp hget
          obtain ⟨msg, hpanic, -⟩ := attempt_stopped hended
          unfold unwind at hpanic
          split at hpanic <;> cases hpanic
      · split at h
        · next hrename =>
            cases h
            exact ⟨fun _ => .inl (.inr ⟨_, hrename⟩), fun _ => ⟨old, .inl rfl, hold⟩⟩
        · next root hrename =>
            obtain rfl := fsRename_ok hrename
            have hmoved : ¬ Unmoved calls bin w.root := by
              intro hunmoved
              rcases hunmoved with ⟨err, hconfig⟩ | ⟨err, hfails⟩
              · simp [Repo.new, hconfig, bind, Except.bind] at hrepo
              · cases hrename.symm.trans hfails
            rw [or_iff_right hmoved]
            have hnone : (⟨w.workdir, w.root.rename bin (bak bin)⟩ : World).root bin = none :=
              bin_moved
            have hfile := install_package_binary hnone h
            constructor
            · rintro ⟨content, hcomplete, hat⟩
              obtain ⟨fs, hmounts, hlast⟩ := (hfile content).mp hat
              exact ⟨fs, content, hmounts, hcomplete, hlast⟩
            · rintro ⟨fs, content, hmounts, hcomplete, hlast⟩
              exact ⟨content, hcomplete, (hfile content).mpr ⟨fs, hmounts, hlast⟩⟩

end

/-! ## A hub that has the package, and one that has not -/

namespace SelfUpdate

def bin : Location := [bytes "sbin", bytes "bootstrap"]

/-- The path of the services is no directory. -/
def package : Package Bytes where
  entries := [([], .dir), ([bytes "sbin"], .dir), (bin, .file [2]), ([bytes "etc"], .file [])]
  nodup := by decide +kernel
  root := List.mem_cons_self
  parents := Package.parents_of_all (by decide +kernel)

def mounted : Mounted where
  tree := package
  sys := noErrors
  cuts _ := .before
  followed := { listing := .error .notFound, isFile := fun _ => false }

def repoCalls : RepoCalls where
  config := .ok ⟨.prod, .v3⟩
  zosConfig _ _ := .answered ⟨200, "OK"⟩ (.ok ["https://v4.hub.grid.tf"])
  health _ _ := .answered ⟨200, "OK"⟩ ()
  list _ := .answered ⟨200, "OK"⟩ (.ok [])
  tags _ := .answered ⟨404, "Not Found"⟩ (.ok [])
  flist _ _ := .answered ⟨200, "OK"⟩ (.ok ⟨.regular, BOOTSTAP_FLIST, none⟩)

def served (mount : Nat → Except BootError Mounted) : UpdateCalls where
  workDir := ⟨noErrors, none, none, none, none, none, none⟩
  repo := repoCalls
  rename := none
  package :=
    { download := fun _ => ⟨fun _ => none, fun _ => .answered ⟨200, "OK"⟩ ⟨[7], none⟩⟩
      mount := mount }

def unmounted (_ : Nat) : Except BootError Mounted := .error (.text "not a mount point")

def running : World where
  workdir _ := none
  root := ((Tree.put Tree.empty [] .dir).put [bytes "sbin"] .dir).put bin (.file [1])

/-- How it ends, and what there is at the path. -/
def outcome (calls : UpdateCalls) : Option (Except Stop Unit × Option (Node Bytes)) :=
  (update_bootstrap calls 1 bin running).map fun (r, w) => (r, w.root bin)

theorem exists_outcome {calls : UpdateCalls} {r : Except Stop Unit} {node : Option (Node Bytes)}
    (h : outcome calls = some (r, node)) : ∃ w, update_bootstrap calls 1 bin running = some (r, w) ∧
      w.root bin = node := by
  obtain ⟨⟨r', w⟩, hrun, heq⟩ := Option.map_eq_some_iff.mp h
  cases heq
  exact ⟨w, hrun, rfl⟩

theorem none_left : ¬ ∀ (calls : UpdateCalls) (fuel : Nat) (path bin : Location)
    (w w' : World) (old : Bytes) (err : BootError), w.root bin = some (.file old) →
    update_bootstrap calls fuel bin w = some (.error (.error err), w') →
      HasBinary calls path bin old w'.root := by
  intro h
  have houtcome : outcome (served unmounted) =
      some (.error (.error (.context (.text "not a mount point") ("failed to mount flist: " ++
        "https://v4.hub.grid.tf/tf-autobuilder/bootstrap-v4:latest.flist"))), none) := by
    decide +kernel
  obtain ⟨w, hrun, hnone⟩ := exists_outcome houtcome
  obtain ⟨content, -, hfile⟩ :=
    h (served unmounted) 1 bin bin running w [1] _ (by decide +kernel) hrun
  cases hnone.symm.trans hfile

theorem update_keeps_binary_iff_served : ∃ err w,
    update_bootstrap (served fun _ => .ok mounted) 1 bin running = some (.error (.error err), w) ∧
      (HasBinary (served fun _ => .ok mounted) bin bin [1] w.root ↔
        Unmoved (served fun _ => .ok mounted) bin running.root ∨
          Replaced (served fun _ => .ok mounted) bin bin [1] running.root) := by
  have houtcome : outcome (served fun _ => .ok mounted) =
      some (.error (.error (.reading .notADirectory)), some (.file [2])) := by decide +kernel
  obtain ⟨w, hrun, -⟩ := exists_outcome houtcome
  have hold : running.root bin = some (.file [1]) := by decide +kernel
  exact ⟨_, w, hrun, update_keeps_binary_iff bin hold hrun⟩

end SelfUpdate

end Zos4.Bootstrap
