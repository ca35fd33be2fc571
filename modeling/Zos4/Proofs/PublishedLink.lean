import Zos4.UpdateWorker.Worker

/-!
# The published link

When `updateZosVersion` returns without an error, the entry of the network has just
been made a link to the tag, or the link that was there has been taken for one. A
new link is right wherever the paths lead, as the relative path from `dst` leads to
`src` (`locate_zosLink`). A link that was there is accepted by the last name of its
target only, so it may come from another `src`, or lead to another place by the same
name: the update has published the version if and only if it has not accepted such a
link (`published_iff`).
-/

namespace Zos4.UpdateWorker

open Zos4.Files

variable {L : Type} {places : Places L} {w : Worker}

/-- `dst/<network>` is a link, and from `dst` it leads to `src/.tag-<version>`. -/
def Published (places : Places L) (w : Worker) (network : Network) (version : Bytes)
    (hub : Hub) : Prop :=
  ∃ target, hub (w.zosLatest network) = some (.link target) ∧
    places.locate (places.locate places.root w.dst.path) target =
      places.locate places.root (w.zosCurrent version)

/-- The relative path from `dst` to `src`, joined to `dst`, leads to `src`. -/
def RelLeads (places : Places L) (w : Worker) : Prop :=
  places.locate places.root (w.dst.path ++ sep :: rel w.dst.path w.src.path) =
    places.locate places.root w.src.path

/-- A link that is there and has the last name of the tag leads to the tag. -/
def LeadsThere (places : Places L) (w : Worker) (network : Network) (version : Bytes)
    (hub : Hub) : Prop :=
  ∀ target, hub (w.zosLatest network) = some (.link target) →
    base target = base (w.zosCurrent version) →
    places.locate (places.locate places.root w.dst.path) target =
      places.locate places.root (w.zosCurrent version)

theorem relLeads_lexical (w : Worker) : RelLeads lexical w :=
  locate_rel w.dst.isAbs w.src.isAbs

/-! ## New links -/

theorem locate_zosLink (hrel : RelLeads places w) (version : Bytes) :
    places.locate (places.locate places.root w.dst.path) (w.zosLink version) =
      places.locate places.root (w.zosCurrent version) := by
  have hdst := ne_nil_of_isAbs w.dst.isAbs
  have hsrc := ne_nil_of_isAbs w.src.isAbs
  have hjoin : places.locate (places.locate places.root w.dst.path)
      (rel w.dst.path w.src.path) = places.locate places.root w.src.path := by
    rw [← hrel, places.locate_append _ hdst, Places.locate, isAbs_rel]
    rfl
  rw [Worker.zosLink, places.locate_append _ (rel_ne_nil _ _), hjoin, Worker.zosCurrent,
    places.locate_append _ hsrc]

theorem readlink_spec {calls : Calls} {path target : Bytes} {hub : Hub}
    (h : readlink calls path hub = .ok target) : hub path = some (.link target) := by
  unfold readlink at h
  split at h
  · cases h
  · split at h
    · cases h
    · next hentry => cases h; exact hentry
    · cases h

/-- A link is made where there is nothing. -/
theorem symlink_spec {calls : Calls} {target path : Bytes} {hub : Hub}
    (h : (symlink calls target path hub).1 = none) :
    hub path = none ∧ (symlink calls target path hub).2 path = some (.link target) := by
  cases hcall : calls.symlink with
  | some err => simp [symlink, hcall] at h
  | none =>
      cases hentry : hub path with
      | some node => simp [symlink, hcall, hentry] at h
      | none => simp [symlink, hcall, hentry]

/-! ## An update -/

/-- The entry after an update: the link that was there, or a new one. -/
theorem updateLink_spec {calls : Calls} {current latest link : Bytes} {hub : Hub}
    (h : (updateLink calls current latest link hub).1 = none) :
    (∃ target, hub latest = some (.link target) ∧ base target = base current ∧
        (updateLink calls current latest link hub).2 = hub) ∨
      ((∀ target, hub latest = some (.link target) → base target ≠ base current) ∧
        (updateLink calls current latest link hub).2 latest = some (.link link)) := by
  simp only [updateLink] at h ⊢
  split at h
  · cases h
  · split at h
    · next err _ =>
        split at h
        · next hnot =>
            have hnew := symlink_spec h
            refine .inr ⟨fun target htarget => ?_, ?_⟩
            · rw [hnew.1] at htarget
              cases htarget
            · rw [if_pos hnot]
              exact hnew.2
        · cases h
    · next dst hread =>
        have hentry := readlink_spec hread
        split at h
        · next hbase =>
            rw [if_pos hbase]
            exact .inl ⟨dst, hentry, hbase, rfl⟩
        · next hbase =>
            rw [if_neg hbase]
            split at h
            · cases h
            · next hub' hremove =>
                refine .inr ⟨fun target htarget => ?_, (symlink_spec h).2⟩
                rw [hentry] at htarget
                cases htarget
                exact hbase

theorem updateZosVersion_nil {network : Network} {answer : Except WorkerError Bytes}
    {calls : Calls} {hub : Hub}
    (h : (w.updateZosVersion network answer calls hub).1 = none) :
    ∃ version, answer = .ok version ∧
      w.updateZosVersion network answer calls hub =
        updateLink calls (w.zosCurrent version) (w.zosLatest network)
          (w.zosLink version) hub := by
  simp only [Worker.updateZosVersion] at h ⊢
  split at h
  · cases h
  · next hnetwork =>
      cases answer with
      | error err => cases h
      | ok version => exact ⟨version, rfl, rfl⟩

/-- After any updates of any hub, an update that returns no error has read a version;
and it has published it if and only if a link that was there, and has the last name of
the tag, leads to the tag. -/
theorem published_iff (hrel : RelLeads places w) (hub : Hub) (updates : List Worker.Update)
    (network : Network) (answer : Except WorkerError Bytes) (calls : Calls)
    (h : (w.updateZosVersion network answer calls (w.run updates hub)).1 = none) :
    ∃ version, answer = .ok version ∧
      (Published places w network version
          (w.updateZosVersion network answer calls (w.run updates hub)).2 ↔
        LeadsThere places w network version (w.run updates hub)) := by
  obtain ⟨version, hversion, hupdate⟩ := updateZosVersion_nil h
  refine ⟨version, hversion, ?_⟩
  rw [hupdate] at h ⊢
  rcases updateLink_spec h with ⟨target, hentry, hbase, hsame⟩ | ⟨hother, hnew⟩
  · -- the link that was there stays
    rw [hsame]
    constructor
    · intro hpublished target' hentry' _
      obtain ⟨target'', hentry'', hleads⟩ := hpublished
      rw [hentry'] at hentry''
      cases hentry''
      exact hleads
    · exact fun hleads => ⟨target, hentry, hleads target hentry hbase⟩
  · constructor
    · exact fun _ target hentry hbase => absurd hbase (hother target hentry)
    · exact fun _ => ⟨w.zosLink version, hnew, locate_zosLink hrel version⟩

/-! ## Two hubs -/

/-- The worker with `src` and `dst` next to each other. -/
def sideBySide : Worker where
  src := ⟨bytes "/hub/src", by decide +kernel⟩
  dst := ⟨bytes "/hub/dst", by decide +kernel⟩

def noErrors : Calls := ⟨none, none, none, none⟩

/-- A first version, and then another one. -/
theorem published_iff_upgrade :
    ∃ version, Except.ok (bytes "v2") = (.ok version : Except WorkerError Bytes) ∧
      (Published lexical sideBySide MainNetwork version
          (sideBySide.updateZosVersion MainNetwork (.ok (bytes "v2")) noErrors
            (sideBySide.run [⟨MainNetwork, .ok (bytes "v1"), noErrors⟩] Tree.empty)).2 ↔
        LeadsThere lexical sideBySide MainNetwork version
          (sideBySide.run [⟨MainNetwork, .ok (bytes "v1"), noErrors⟩] Tree.empty)) :=
  published_iff (relLeads_lexical sideBySide) Tree.empty _ MainNetwork _ noErrors
    (by decide +kernel)

/-- The link that a tool makes that takes its `src` as it is given. -/
def unrelative : Hub :=
  Tree.empty.put (sideBySide.zosLatest MainNetwork) (.link (bytes "src/.tag-v1"))

/-- A link by the name of the tag is left as it is, though it leads to a directory that
is in `dst`. -/
theorem unrelative_accepted :
    ¬ ∀ (L : Type) (places : Places L) (w : Worker), RelLeads places w →
      ∀ (network : Network) (version : Bytes) (calls : Calls) (hub : Hub),
        (w.updateZosVersion network (.ok version) calls hub).1 = none →
        Published places w network version
          (w.updateZosVersion network (.ok version) calls hub).2 := by
  intro h
  obtain ⟨target, hentry, hleads⟩ := h _ lexical sideBySide (relLeads_lexical _)
    MainNetwork (bytes "v1") noErrors unrelative (by decide +kernel)
  have htarget : target = bytes "src/.tag-v1" := by
    have hkept : (sideBySide.updateZosVersion MainNetwork (.ok (bytes "v1")) noErrors
        unrelative).2 (sideBySide.zosLatest MainNetwork) =
          some (.link (bytes "src/.tag-v1")) := by decide +kernel
    rw [hkept] at hentry
    cases hentry
    rfl
  rw [htarget] at hleads
  exact absurd hleads (by decide +kernel)

end Zos4.UpdateWorker
