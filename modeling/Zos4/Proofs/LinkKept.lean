import Zos4.Proofs.PublishedLink

/-!
# The link that is replaced

`updateLink` replaces a link by removing it and making the new one. Whatever fails
before the link is removed leaves it as it was, and there is one thing to fail after:
when the new link cannot be made, the old one is gone already. A link that has the last
name of the tag is not replaced at all, and success leaves it as it was, which need not
be the new link (`link_kept_iff`).
-/

namespace Zos4.UpdateWorker

open Zos4.Files

variable {calls : Calls} {current latest link old : Bytes} {hub : Hub}

/-- An error leaves the old link, success the new one. -/
structure Kept (calls : Calls) (current latest link old : Bytes) (hub : Hub) : Prop where
  error : (updateLink calls current latest link hub).1 ≠ none →
    (updateLink calls current latest link hub).2 latest = some (.link old)
  success : (updateLink calls current latest link hub).1 = none →
    (updateLink calls current latest link hub).2 latest = some (.link link)

/-- The tag is there and the old link is read. -/
def Calls.reads (calls : Calls) : Prop := calls.lstat = none ∧ calls.readlink = none

/-- The old link is removed, and the new one is not made. -/
def Loses (calls : Calls) (current old : Bytes) : Prop :=
  calls.reads ∧ base old ≠ base current ∧ calls.remove = none ∧ calls.symlink ≠ none

/-- The old link has the last name of the tag, and is not the new one. -/
def Accepts (calls : Calls) (current link old : Bytes) : Prop :=
  calls.reads ∧ base old = base current ∧ old ≠ link

/-- A link cannot be made where there is one. -/
theorem symlink_refused (h : hub latest = some (.link old)) :
    ∃ err, symlink calls link latest hub = (some err, hub) := by
  rw [symlink]
  cases calls.symlink with
  | some err => exact ⟨err, rfl⟩
  | none =>
      rw [h]
      exact ⟨.exist, rfl⟩

/-- Up to where the old link is looked at. -/
theorem updateLink_unread (current link : Bytes) (h : hub latest = some (.link old))
    (hreads : ¬ calls.reads) :
    ∃ err, updateLink calls current latest link hub = (some err, hub) := by
  rw [updateLink]
  cases hlstat : calls.lstat with
  | some err => exact ⟨err, rfl⟩
  | none =>
      cases hreadlink : calls.readlink with
      | none => exact absurd ⟨hlstat, hreadlink⟩ hreads
      | some err =>
          simp only [readlink, hreadlink]
          split
          · exact symlink_refused h
          · exact ⟨err, rfl⟩

/-- What is done with a link that is not taken for the new one. -/
def replaceLink (calls : Calls) (latest link : Bytes) (hub : Hub) : Option WorkerError × Hub :=
  match remove calls latest hub with
  | (some err, hub) => (some err, hub)
  | (none, hub) => symlink calls link latest hub

theorem updateLink_read (current link : Bytes) (h : hub latest = some (.link old))
    (hreads : calls.reads) :
    updateLink calls current latest link hub =
      if base old = base current then (none, hub) else replaceLink calls latest link hub := by
  have hread : readlink calls latest hub = .ok old := by rw [readlink, hreads.2, h]
  rw [updateLink, hreads.1, hread]
  rfl

/-- The old link is gone once it is removed, whatever comes of the new one. -/
theorem replaceLink_eq (h : hub latest = some (.link old)) :
    replaceLink calls latest link hub =
      match calls.remove, calls.symlink with
      | some err, _ => (some err, hub)
      | none, some err => (some err, hub.erase latest)
      | none, none => (none, (hub.erase latest).put latest (.link link)) := by
  rw [replaceLink, remove]
  cases calls.remove with
  | some err => rfl
  | none =>
      rw [h]
      dsimp only
      rw [symlink, Tree.erase_self]
      cases calls.symlink <;> rfl

/-- An error that is returned before anything was changed. -/
theorem kept_of_refused {err : WorkerError} (h : hub latest = some (.link old))
    (hupdate : updateLink calls current latest link hub = (some err, hub)) :
    Kept calls current latest link old hub where
  error _ := by
    rw [hupdate]
    exact h
  success hok := by
    rw [hupdate] at hok
    cases hok

/-- A link that is accepted stays as it is. -/
theorem kept_accepted_iff (h : hub latest = some (.link old))
    (hupdate : updateLink calls current latest link hub = (none, hub)) :
    Kept calls current latest link old hub ↔ old = link := by
  constructor
  · intro hkept
    have hsame := hkept.success (by rw [hupdate])
    rw [hupdate] at hsame
    have heq := h.symm.trans hsame
    cases heq
    rfl
  · intro heq
    subst heq
    refine ⟨fun herr => ?_, fun _ => ?_⟩
    · rw [hupdate] at herr
      exact absurd rfl herr
    · rw [hupdate]
      exact h

/-- A link that is replaced, with what comes of removing it and making the new one. -/
theorem kept_replaced_iff (h : hub latest = some (.link old))
    (hupdate : updateLink calls current latest link hub = replaceLink calls latest link hub) :
    Kept calls current latest link old hub ↔ ¬ (calls.remove = none ∧ calls.symlink ≠ none) := by
  rw [replaceLink_eq h] at hupdate
  cases hremove : calls.remove with
  | some err =>
      simp only [hremove] at hupdate
      exact iff_of_true (kept_of_refused h hupdate) fun hlost => by simp at hlost
  | none =>
      cases hsymlink : calls.symlink with
      | some err =>
          simp only [hremove, hsymlink] at hupdate
          refine iff_of_false (fun hkept => ?_) fun hcond => hcond ⟨rfl, Option.some_ne_none err⟩
          have hgone := hkept.error (by rw [hupdate]; exact Option.some_ne_none err)
          rw [hupdate] at hgone
          simp at hgone
      | none =>
          simp only [hremove, hsymlink] at hupdate
          refine iff_of_true ⟨fun herr => ?_, fun _ => ?_⟩ fun hlost => hlost.2 rfl
          · rw [hupdate] at herr
            exact absurd rfl herr
          · rw [hupdate]
            exact Tree.put_self

/-- The link survives exactly when the new link can be made once the old one is removed,
and a link that is taken for the new one is it. -/
theorem link_kept_iff (h : hub latest = some (.link old)) :
    Kept calls current latest link old hub ↔
      ¬ Loses calls current old ∧ ¬ Accepts calls current link old := by
  by_cases hreads : calls.reads
  · have hupdate := updateLink_read current link h hreads
    by_cases hbase : base old = base current
    · rw [if_pos hbase] at hupdate
      have hloses : ¬ Loses calls current old := fun hloses => hloses.2.1 hbase
      rw [kept_accepted_iff h hupdate, and_iff_right hloses]
      constructor
      · exact fun heq haccepts => haccepts.2.2 heq
      · exact fun hcond => not_not.mp fun hne => hcond ⟨hreads, hbase, hne⟩
    · rw [if_neg hbase] at hupdate
      have haccepts : ¬ Accepts calls current link old := fun haccepts => hbase haccepts.2.1
      rw [kept_replaced_iff h hupdate, and_iff_left haccepts]
      constructor
      · exact fun hcond hloses => hcond hloses.2.2
      · exact fun hcond hlost => hcond ⟨hreads, hbase, hlost⟩
  · obtain ⟨err, hupdate⟩ := updateLink_unread current link h hreads
    exact iff_of_true (kept_of_refused h hupdate)
      ⟨fun hloses => hreads hloses.1, fun haccepts => hreads haccepts.1⟩

/-! ## A full disk -/

/-- The new link cannot be made. -/
def noSpace : Calls := { noErrors with symlink := some (.text "no space left on device") }

/-- A hub with the link of the first version. -/
def firstVersion : Hub :=
  Tree.empty.put (sideBySide.zosLatest MainNetwork) (.link (sideBySide.zosLink (bytes "v1")))

theorem full_disk_loses_link :
    ¬ Kept noSpace (sideBySide.zosCurrent (bytes "v2")) (sideBySide.zosLatest MainNetwork)
      (sideBySide.zosLink (bytes "v2")) (sideBySide.zosLink (bytes "v1")) firstVersion := by
  intro hkept
  have hgone := hkept.error (by decide +kernel)
  revert hgone
  decide +kernel

theorem link_kept_iff_upgrade :
    Kept noErrors (sideBySide.zosCurrent (bytes "v2")) (sideBySide.zosLatest MainNetwork)
        (sideBySide.zosLink (bytes "v2")) (sideBySide.zosLink (bytes "v1")) firstVersion ↔
      ¬ Loses noErrors (sideBySide.zosCurrent (bytes "v2")) (sideBySide.zosLink (bytes "v1")) ∧
        ¬ Accepts noErrors (sideBySide.zosCurrent (bytes "v2")) (sideBySide.zosLink (bytes "v2"))
          (sideBySide.zosLink (bytes "v1")) :=
  link_kept_iff Tree.put_self

end Zos4.UpdateWorker
