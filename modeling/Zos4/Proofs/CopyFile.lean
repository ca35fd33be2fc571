import Zos4.Upgrade.Install

/-!
# All or nothing

`copyFile` keeps the file it replaces until it returns, and a deferred function puts it
back if the variable `err` is set by then. The last statement, the copy itself, has a
variable of that name of its own: when it fails, the backup is removed and what has
been written stays. So the replacement is all or nothing unless that is what happens
to a file that was there (`copyFile_all_or_nothing_iff`).
-/

namespace Zos4.Upgrade

open Zos4.Files

variable {calls : CopyCalls} {dst : Location} {content : Bytes} {fs : Files}

/-- The place of the backup. -/
abbrev backup (dst : Location) : Location := withSuffix dst (bytes ".old")

theorem backup_ne : backup dst ≠ dst := withSuffix_ne (by decide +kernel) dst

/-- After an error, what was there is there; without one, the content is there, and no
backup of what was there before. -/
def AllOrNothing (calls : CopyCalls) (dst : Location) (content : Bytes) (fs : Files) : Prop :=
  match copyFile calls dst content fs with
  | (some _, fs') => ∀ node, fs dst = some node → fs' dst = some node
  | (none, fs') => fs' dst = some (.file content) ∧
      ((fs dst).isSome = true → fs' (backup dst) = none)

/-- The copy does not fail where a file was there, or it has written just that. -/
def CopySafe (calls : CopyCalls) (dst : Location) (content : Bytes) (fs : Files) : Prop :=
  ∀ old, fs dst = some (.file old) → fs (backup dst) ≠ some .dir →
    calls.rename = none → calls.openFile = none → calls.checkAndGet = none →
      ∀ n err, calls.copy = some (n, err) → old = content.take n

/-! ## The statements after the rename -/

/-- The ways they end: with nothing opened, with an error that the deferred function
sees, with one that it does not see, and with the file written. -/
inductive Filled (calls : CopyCalls) (content : Bytes) (fs : Files) (place : Location) :
    Option FsError × Option FsError × Files → Prop
  | opened {err : FsError} {fs' : Files} : calls.checkAndGet ≠ none →
      fs' = fs.put place (.file []) → Filled calls content fs place (some err, some err, fs')
  | unseen {n : Nat} {err : FsError} {fs' : Files} : calls.checkAndGet = none →
      calls.copy = some (n, err) → fs' = fs.put place (.file (content.take n)) →
      Filled calls content fs place (some err, none, fs')
  | written {fs' : Files} : calls.copy = none → fs' = fs.put place (.file content) →
      Filled calls content fs place (none, none, fs')

theorem fill_filled (content : Bytes) {place : Location}
    (h : openFile calls.openFile fs dst = .ok place) :
    Filled calls content fs place (fill calls dst content fs) := by
  have hput : ∀ node node' : Node Bytes, (fs.put place node).put place node' =
      fs.put place node' := fun _ _ => Function.update_idem ..
  simp only [fill, h]
  split
  · next hget => exact .opened (by simp [hget]) rfl
  · next hget =>
      split
      · next hcopy => exact .unseen hget hcopy (hput _ _)
      · next hcopy => exact .written hcopy (hput _ _)

theorem fill_error {err : FsError} (h : openFile calls.openFile fs dst = .error err) :
    fill calls dst content fs = (some err, some err, fs) := by
  simp only [fill, h]

/-- Where nothing is, the file is opened. -/
theorem openFile_fresh (hdst : fs dst = none) (h : calls.openFile = none) :
    openFile calls.openFile fs dst = .ok dst := by
  have hresolve : fs.resolve dst = .ok dst := Tree.resolve_of_not_link (by simp [hdst])
  simp only [openFile, h, hresolve, hdst]

theorem openFile_error {call : FsError} (h : calls.openFile = some call) :
    openFile calls.openFile fs dst = .error call := by
  simp only [openFile, h]

/-! ## `copyFile` -/

/-- A place without a link is new if nothing is there. -/
theorem isNotExist_of_not_link {call : Option FsError}
    (h : ∀ target, fs dst ≠ some (.link target)) :
    isNotExist call fs dst = (call.isNone && (fs dst).isNone) := by
  simp only [isNotExist, Tree.resolve_of_not_link h]

theorem isNotExist_of_none (call : Option FsError) (hdst : fs dst = none) :
    isNotExist call fs dst = call.isNone := by
  rw [isNotExist_of_not_link (by simp [hdst]), hdst]
  simp

theorem isNotExist_of_file {old : Bytes} (call : Option FsError)
    (hdst : fs dst = some (.file old)) : isNotExist call fs dst = false := by
  rw [isNotExist_of_not_link (by simp [hdst]), hdst]
  simp

theorem rename_file {old : Bytes} {call : Option FsError} {p' : Location}
    (hdst : fs dst = some (.file old)) (hcall : call = none) (hp' : fs p' ≠ some .dir) :
    rename call fs dst p' = .ok (fs.rename dst p') := by
  simp only [rename, hcall, hdst]
  cases hnode : fs p' with
  | none => rfl
  | some node =>
      cases node with
      | dir => exact absurd hnode hp'
      | file | link | special => rfl

theorem copyFile_unrenamed {err : FsError} (hnew : isNotExist calls.stat fs dst = false)
    (h : rename calls.rename fs dst (backup dst) = .error err) :
    copyFile calls dst content fs = (some err, fs) := by
  simp only [copyFile, hnew, h]
  rfl

theorem cleanUp_removes {dstOld : Location} (h : calls.removeOld = none) :
    cleanUp calls dst none dstOld fs = fs.erase dstOld := by
  simp only [cleanUp, h]

theorem cleanUp_restores {err : FsError} {old : Bytes} (h : calls.restore = none)
    (hold : fs (backup dst) = some (.file old)) (hdst : fs dst ≠ some .dir) :
    cleanUp calls dst (some err) (backup dst) fs dst = some (.file old) := by
  simp only [cleanUp, rename_file hold h hdst]
  rw [Tree.rename_to, hold]

/-- A file was there, and it has been renamed. -/
theorem copyFile_replaces {old : Bytes} (hdst : fs dst = some (.file old))
    (hbackup : fs (backup dst) ≠ some .dir) (hrename : calls.rename = none)
    (hremove : calls.removeOld = none) (hrestore : calls.restore = none) :
    AllOrNothing calls dst content fs ↔
      (calls.openFile = none → calls.checkAndGet = none →
        ∀ n err, calls.copy = some (n, err) → old = content.take n) := by
  have hnew := isNotExist_of_file calls.stat hdst
  have hmoved : (fs.rename dst (backup dst)) dst = none := Tree.rename_from backup_ne.symm
  have hold : (fs.rename dst (backup dst)) (backup dst) = some (.file old) :=
    Tree.rename_to.trans hdst
  simp only [AllOrNothing, copyFile, hnew, rename_file hdst hrename hbackup, Bool.false_eq_true,
    if_false, hdst, Option.isSome_some]
  generalize fs.rename dst (backup dst) = renamed at hmoved hold ⊢
  cases hopen : calls.openFile with
  | some call =>
      rw [fill_error (openFile_error hopen)]
      constructor
      · intro _ h
        cases h
      · intro _ node hnode
        obtain rfl := Option.some.inj hnode
        exact cleanUp_restores hrestore hold (by simp [hmoved])
  | none =>
      have hfilled := fill_filled content (openFile_fresh hmoved hopen)
      generalize fill calls dst content renamed = filled at hfilled ⊢
      cases hfilled with
      | @opened err fs' hget hfs' =>
          -- the backup is put back
          constructor
          · exact fun _ _ h => absurd h hget
          · intro _ node hnode
            obtain rfl := Option.some.inj hnode
            have hold' : fs' (backup dst) = some (.file old) := by
              rw [hfs', Tree.put_of_ne backup_ne, hold]
            exact cleanUp_restores hrestore hold' (by simp [hfs'])
      | @unseen n err fs' hget hcopy hfs' =>
          -- the backup is removed, and what has been written stays
          have hleft : cleanUp calls dst none (backup dst) fs' dst =
              some (.file (content.take n)) := by
            rw [cleanUp_removes hremove, Tree.erase_of_ne backup_ne.symm, hfs', Tree.put_self]
          constructor
          · intro h _ _ n' err' hn
            rw [hcopy] at hn
            cases hn
            have hnode := (h _ rfl).symm.trans hleft
            simpa using hnode
          · intro h node hnode
            obtain rfl := Option.some.inj hnode
            rw [h rfl hget n err hcopy]
            exact hleft
      | @written fs' hcopy hfs' =>
          constructor
          · intro _ _ _ n err hn
            rw [hcopy] at hn
            cases hn
          · intro _
            show cleanUp calls dst none (backup dst) fs' dst = some (.file content) ∧
              (_ → cleanUp calls dst none (backup dst) fs' (backup dst) = none)
            rw [cleanUp_removes hremove, Tree.erase_of_ne backup_ne.symm, hfs', Tree.put_self]
            exact ⟨rfl, fun _ => Tree.erase_self⟩

/-- Nothing was there. -/
theorem copyFile_creates (hdst : fs dst = none) : AllOrNothing calls dst content fs := by
  simp only [AllOrNothing, copyFile, isNotExist_of_none calls.stat hdst, hdst]
  cases hstat : calls.stat with
  | none =>
      simp only [Option.isNone_none, if_true]
      cases hopen : calls.openFile with
      | some call => simp [fill_error (openFile_error hopen)]
      | none =>
          have hfilled := fill_filled content (openFile_fresh hdst hopen)
          generalize fill calls dst content fs = filled at hfilled ⊢
          cases hfilled with
          | opened | unseen => simp
          | written hcopy hfs' => simp [hfs']
  | some err =>
      cases hcall : calls.rename with
      | some err => simp [rename]
      | none => simp [rename, hdst]

/-- Where nothing or a file was, and the deferred function does what it is for, the
replacement is all or nothing unless the copy fails where a file was, and has not
written just that. -/
theorem copyFile_all_or_nothing_iff
    (hdst : fs dst = none ∨ ∃ old, fs dst = some (.file old))
    (hremove : calls.removeOld = none) (hrestore : calls.restore = none) :
    AllOrNothing calls dst content fs ↔ CopySafe calls dst content fs := by
  rcases hdst with hdst | ⟨old, hdst⟩
  · refine ⟨fun _ node hnode => ?_, fun _ => copyFile_creates hdst⟩
    rw [hdst] at hnode
    cases hnode
  · have hnew := isNotExist_of_file calls.stat hdst
    cases hrename : rename calls.rename fs dst (backup dst) with
    | error err =>
        have hunsafe : ¬ (calls.rename = none ∧ fs (backup dst) ≠ some .dir) := by
          intro h
          rw [rename_file hdst h.1 h.2] at hrename
          cases hrename
        simp only [AllOrNothing, copyFile_unrenamed hnew hrename]
        refine ⟨fun _ _ _ hbackup hcall => absurd ⟨hcall, hbackup⟩ hunsafe, fun _ node h => h⟩
    | ok renamed =>
        have hcall : calls.rename = none := by
          cases h : calls.rename with
          | none => rfl
          | some err => simp [rename, h] at hrename
        have hbackup : fs (backup dst) ≠ some .dir := by
          intro h
          simp [rename, hcall, hdst, h] at hrename
        rw [copyFile_replaces hdst hbackup hcall hremove hrestore]
        simp [CopySafe, hdst, hcall, hbackup]

/-! ## A full disk -/

/-- The copy fails after two bytes. -/
def diskFull : CopyCalls :=
  ⟨none, none, none, none, some (2, .text "no space left"), none, none⟩

/-- A program that is to be replaced. -/
def oldProgram : Files := Tree.put Tree.empty [bytes "zinit"] (.file (bytes "old"))

theorem full_disk_iff :
    AllOrNothing diskFull [bytes "zinit"] (bytes "new") oldProgram ↔
      CopySafe diskFull [bytes "zinit"] (bytes "new") oldProgram :=
  copyFile_all_or_nothing_iff (.inr ⟨_, Tree.put_self⟩) rfl rfl

/-- What was there is lost. -/
theorem full_disk_loses : ¬ ∀ calls dst content (fs : Files),
    (fs dst = none ∨ ∃ old, fs dst = some (.file old)) →
      calls.removeOld = none → calls.restore = none → AllOrNothing calls dst content fs := by
  intro h
  have hall := h diskFull [bytes "zinit"] (bytes "new") oldProgram
    (.inr ⟨_, Tree.put_self⟩) rfl rfl
  have hbackup : oldProgram (backup [bytes "zinit"]) ≠ some .dir := by decide +kernel
  have hkept := (copyFile_replaces Tree.put_self hbackup rfl rfl rfl).mp hall rfl rfl 2 _ rfl
  exact absurd hkept (by decide +kernel)

end Zos4.Upgrade
