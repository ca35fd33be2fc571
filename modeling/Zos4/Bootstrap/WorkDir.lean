import Zos4.Bootstrap.Hub

/-!
# The work directory

`WorkDir` of `workdir.rs`: a tmpfs that is mounted over a directory of the root, in which a
function is run. Afterwards it is unmounted and the directory removed, whatever the function
returns; what fails of that is only logged.

The path of the directory may go through links: `path` is the place of its last name, and
`dir` the directory that is mounted over, which is another one if a link is at `path`.
-/

namespace Zos4.Bootstrap

open Zos4.Files

/-- The files that are downloaded, by the name they are opened by, and those of the root.
None of the first is one of the second. -/
structure World where
  workdir : String → Option Bytes
  root : Files

def WORKDIR : Location := [bytes "tmp", bytes "bootstrap"]

structure WorkDirCalls where
  sys : System
  currentDir : Option BootError
  /-- Of a directory that is not there. -/
  createDir : Option BootError
  /-- `mount`, where there is a directory, and `set_current_dir` to it. -/
  mount : Option BootError
  setCurrentDir : Option BootError
  umount : Option BootError
  /-- What is left in the directory, if it cannot be removed. -/
  left : Option Files

/-- `create_dir`, with the place the path leads to. -/
def create_dir (calls : WorkDirCalls) (fs : Files) : Except BootError (Through × Files) :=
  match calls.sys.place fs WORKDIR with
  | .fails => .error (.text "No such file or directory (os error 2)")
  | .outside => .ok (.outside, fs)
  | .at path =>
      match fs path with
      | some _ => .ok (.at path, fs)
      | none =>
          match calls.createDir with
          | some err => .error err
          | none => .ok (.at path, fs.put path .dir)

/-- The directory that is mounted over. -/
def mountPoint (sys : System) (fs : Files) : Through → Except BootError Through
  | .fails => .error (.text "ENOENT: No such file or directory")
  | .outside => .ok .outside
  | .at path =>
      match fs path with
      | some .dir => .ok (.at path)
      | some (.link _) =>
          match sys.through fs path with
          | .fails => .error (.text "ENOENT: No such file or directory")
          | .outside => .ok .outside
          | .at dir =>
              if fs dir = some .dir then .ok (.at dir)
              else .error (.text "ENOTDIR: Not a directory")
      | _ => .error (.text "ENOTDIR: Not a directory")

def Through.covers (dir : Through) (l : Location) : Bool :=
  match dir with
  | .at p => p.isPrefixOf l
  | .fails | .outside => false

/-- The empty directory of the tmpfs is over the one that is there. -/
def mountOver (dir : Through) (fs : Files) : Files := fun l =>
  if dir.covers l then (if dir = .at l then some .dir else none)
  else fs l

/-- `umount2`: what was there before is seen again. -/
def umount (err : Option BootError) (dir : Through) (before fs : Files) : Files := fun l =>
  if err.isNone ∧ dir.covers l then before l else fs l

/-- `remove_dir_all`: of a link only itself is removed, and a file is not. -/
def remove_dir_all (left : Option Files) (path : Through) (fs : Files) : Files := fun l =>
  match path with
  | .fails | .outside => fs l
  | .at p =>
      match fs p with
      | some .dir =>
          if !p.isPrefixOf l then fs l
          else if l = p ∧ left.isSome then some .dir
          else left.bind fun left => left l
      | some (.link _) => if l = p ∧ left.isNone then none else fs l
      | _ => fs l

/-- `drop`, where it has been mounted. -/
def drop (calls : WorkDirCalls) (path dir : Through) (before fs : Files) : Files :=
  remove_dir_all calls.left path (umount calls.umount dir before fs)

/-- `WorkDir::run`. The function finds an empty directory. -/
def runIn (calls : WorkDirCalls) (f : World → Option (Except Stop Unit × World)) (w : World) :
    Option (Except Stop Unit × World) :=
  match calls.currentDir with
  | some err => some (.error (.error err), w)
  | none =>
      match create_dir calls w.root with
      | .error err => some (.error (.error err), w)
      | .ok (path, before) =>
          match calls.mount, mountPoint calls.sys before path with
          | some err, _ | none, .error err =>
              some (.error (.error err),
                { w with root := remove_dir_all calls.left path before })
          | none, .ok dir =>
              match calls.setCurrentDir with
              | some err =>
                  some (.error (.error err),
                    { w with root := drop calls path dir before (mountOver dir before) })
              | none =>
                  (f ⟨fun _ => none, mountOver dir before⟩).map fun (r, done) =>
                    (r, { w with root := drop calls path dir before done.root })

/-! ## How it goes on -/

section

variable {calls : WorkDirCalls} {f : World → Option (Except Stop Unit × World)} {w w' : World}

/-- It is an error before the function is run, or what the function comes to. -/
theorem runIn_spec (calls : WorkDirCalls) (w : World) :
    (∃ err w', ∀ f, runIn calls f w = some (.error (.error err), w')) ∨
      ∃ path dir before, create_dir calls w.root = .ok (path, before) ∧
        mountPoint calls.sys before path = .ok dir ∧
        ∀ f, runIn calls f w = (f ⟨fun _ => none, mountOver dir before⟩).map fun (r, done) =>
          (r, { w with root := drop calls path dir before done.root }) := by
  unfold runIn
  split
  · exact .inl ⟨_, _, fun _ => rfl⟩
  · split
    · exact .inl ⟨_, _, fun _ => rfl⟩
    · next path before hcreate =>
        dsimp only
        split
        · exact .inl ⟨_, _, fun _ => rfl⟩
        · exact .inl ⟨_, _, fun _ => rfl⟩
        · next dir _ hdir =>
            split
            · exact .inl ⟨_, _, fun _ => rfl⟩
            · exact .inr ⟨path, dir, before, hcreate, hdir, fun _ => rfl⟩

end

/-! ## What is beside it -/

section

variable {calls : WorkDirCalls} {f : World → Option (Except Stop Unit × World)} {w w' : World}
  {fs fs' before : Files} {path dir : Through} {l : Location}

/-- The work directory is not reached through a link. -/
def Unlinked (fs : Files) : Prop :=
  ∀ p, p <+: WORKDIR → ∀ link, fs p ≠ some (.link link)

theorem covers_at {p : Location} : (Through.at p).covers l = true ↔ p <+: l :=
  List.isPrefixOf_iff_prefix

/-- In it there is an empty directory and nothing else. -/
theorem mountOver_inside (hl : WORKDIR <+: l) :
    mountOver (.at WORKDIR) fs l = if l = WORKDIR then some .dir else none := by
  rw [mountOver, if_pos (covers_at.mpr hl)]
  by_cases heq : l = WORKDIR
  · rw [if_pos (congrArg _ heq.symm), if_pos heq]
  · rw [if_neg fun h => heq (Through.at.inj h).symm, if_neg heq]

theorem mountOver_beside (hl : ¬ WORKDIR <+: l) : mountOver (.at WORKDIR) fs l = fs l :=
  if_neg fun h => hl (covers_at.mp h)

theorem umount_beside {err : Option BootError} (hl : ¬ WORKDIR <+: l) :
    umount err (.at WORKDIR) before fs l = fs l :=
  if_neg fun h => hl (covers_at.mp h.2)

theorem remove_dir_all_beside {left : Option Files} (hl : ¬ WORKDIR <+: l) :
    remove_dir_all left (.at WORKDIR) fs l = fs l := by
  have hbeside : (!WORKDIR.isPrefixOf l) = true := by
    rw [Bool.not_eq_true', ← Bool.not_eq_true, List.isPrefixOf_iff_prefix]
    exact hl
  unfold remove_dir_all
  dsimp only
  split
  · exact if_pos hbeside
  · rw [if_neg]
    rintro ⟨rfl, -⟩
    exact hl (List.prefix_refl _)
  · rfl

/-- No link comes in its place. -/
theorem remove_dir_all_link {left : Option Files} {link : Bytes}
    (h : remove_dir_all left (.at WORKDIR) fs WORKDIR = some (.link link)) :
    fs WORKDIR = some (.link link) := by
  unfold remove_dir_all at h
  dsimp only at h
  split at h
  · rw [if_neg (by decide +kernel)] at h
    cases left <;> simp at h
  · split at h
    · cases h
    · exact h
  · exact h

/-- Without a link on the way, the directory that is mounted over is that of the path. -/
theorem create_dir_direct (hunlinked : Unlinked fs) (h : create_dir calls fs = .ok (path, before)) :
    path = .at WORKDIR ∧ (before = fs ∨ before = fs.put WORKDIR .dir) := by
  have hplace : calls.sys.place fs WORKDIR = .at WORKDIR ∨
      calls.sys.place fs WORKDIR = .fails :=
    place_direct _ fun p hp => hunlinked p (hp.trans (List.dropLast_prefix _))
  rw [create_dir] at h
  rcases hplace with hplace | hplace <;> simp only [hplace] at h
  · split at h
    · cases h
      exact ⟨rfl, .inl rfl⟩
    · split at h <;> cases h
      exact ⟨rfl, .inr rfl⟩
  · cases h

theorem mountPoint_direct {sys : System} (hlink : ∀ link, fs WORKDIR ≠ some (.link link))
    (h : mountPoint sys fs (.at WORKDIR) = .ok dir) : dir = .at WORKDIR := by
  unfold mountPoint at h
  dsimp only at h
  split at h
  · exact (Except.ok.inj h).symm
  · next link hat => exact absurd hat (hlink link)
  · cases h

theorem mountOver_put : mountOver (.at WORKDIR) (fs.put WORKDIR .dir) =
    mountOver (.at WORKDIR) fs := by
  funext l
  by_cases hl : WORKDIR <+: l
  · rw [mountOver_inside hl, mountOver_inside hl]
  · rw [mountOver_beside hl, mountOver_beside hl, Tree.put_of_ne]
    rintro rfl
    exact hl (List.prefix_refl _)

/-- What is beside the work directory is still there, and no link has come in its place. -/
structure Dropped (fs fs' : Files) : Prop where
  beside : ∀ l, ¬ WORKDIR <+: l → fs' l = fs l
  unlinked : ∀ link, fs' WORKDIR = some (.link link) → fs WORKDIR = some (.link link)

theorem runIn_ok (h : runIn calls f w = some (.ok (), w')) :
    ∃ root done, f ⟨fun _ => none, root⟩ = some (.ok (), done) ∧
      (Unlinked w.root → root = mountOver (.at WORKDIR) w.root ∧ Dropped done.root w'.root) := by
  rcases runIn_spec calls w with ⟨err, w'', hfails⟩ | ⟨path, dir, before, hcreate, hdir, hrun⟩
  · cases (hfails f).symm.trans h
  · obtain ⟨⟨r, done⟩, hdone, heq⟩ := Option.map_eq_some_iff.mp ((hrun f).symm.trans h)
    cases heq
    refine ⟨mountOver dir before, done, hdone, fun hunlinked => ?_⟩
    obtain ⟨rfl, hbefore⟩ := create_dir_direct hunlinked hcreate
    have hlink : ∀ link, before WORKDIR ≠ some (.link link) := by
      intro link hat
      rcases hbefore with rfl | rfl
      · exact hunlinked _ (List.prefix_refl _) link hat
      · rw [Tree.put_self] at hat
        cases hat
    obtain rfl := mountPoint_direct hlink hdir
    have hdropped : Dropped done.root
        (drop calls (.at WORKDIR) (.at WORKDIR) before done.root) := by
      constructor
      · intro l hl
        rw [drop, remove_dir_all_beside hl, umount_beside hl]
      · intro link hat
        have hunder := remove_dir_all_link hat
        rw [umount] at hunder
        split at hunder
        · exact absurd hunder (hlink link)
        · exact hunder
    refine ⟨?_, hdropped⟩
    rcases hbefore with rfl | rfl
    · rfl
    · exact mountOver_put

end

end Zos4.Bootstrap
