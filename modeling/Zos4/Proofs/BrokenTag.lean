import Zos4.Proofs.Upgrade

/-!
# A current tag that is broken

`update` goes on when the current tag cannot be read, and hands `updateTo` the address
of the zero link. To `updateTo` that is a current tag like any other: it is to resolve
and to be listed, before anything is installed. So every upgrade from a tag that is
broken, in whichever way, ends there, with nothing installed and nothing recorded
(`broken_tag_blocks`).
-/

namespace Zos4.Upgrade

open Zos4.Interaction Prog

section

variable [HubClient] {env : Surroundings} {u : Upgrader} {n : Node}

/-- A link resolves only if its target is of the form `repo/tags/tag`. -/
def StrictTags : Prop :=
  ∀ link : TagLink, (∀ repo tag : String, link.target ≠ repo ++ "/tags/" ++ tag) →
    (HubClient.tagDestination link).err ≠ none

def zeroLink : TagLink := ⟨"", ""⟩

/-- What can be wrong with the current tag. -/
inductive Broken (env : Surroundings) (tag : TagLink) : Prop where
  | unread (err : GoError) (h : env.bootCurrent = some (zeroLink, err))
  | unresolved (h : (HubClient.tagDestination (env.currentTag tag)).err ≠ none)
  | unlisted (err : GoError) (h : env.listTag
      (HubClient.tagDestination (env.currentTag tag)).repo
      (HubClient.tagDestination (env.currentTag tag)).name = .error err)

/-- The remote tag passes the gates of the rollout, and its packages all install. -/
structure Admitted (env : Surroundings) (remote : TagLink) (packages : List Symlink) :
    Prop where
  found : env.remoteTag = .ok remote
  released : ∃ v testFarms, env.rollout = .ok (v, testFarms) ∧
    rolledOut env.environment v testFarms remote = true
  resolved : (HubClient.tagDestination remote).err = none
  listed : env.listTag (HubClient.tagDestination remote).repo
    (HubClient.tagDestination remote).name = .ok packages
  destinations : ∀ pkg ∈ packages,
    (HubClient.destination pkg (HubClient.tagDestination remote).repo).err = none
  installs : ∀ i, env.install i = none
  moves : env.bootSet = none

/-- The node has come to the remote tag, and is to be restarted. -/
structure Upgraded (remote : TagLink) (packages : List Symlink)
    (r : Option UpdateError × Node) : Prop where
  restart : r.1 = some .errRestartNeeded
  recorded : r.2.tag = remote
  installed : ∀ pkg ∈ packages,
    r.2.Has (HubClient.destination pkg (HubClient.tagDestination remote).repo)

theorem zeroLink_unresolved (hstrict : StrictTags) :
    (HubClient.tagDestination zeroLink).err ≠ none := by
  refine hstrict zeroLink fun repo tag heq => ?_
  have hlength := congrArg String.length heq
  rw [String.length_append, String.length_append] at hlength
  have htags : "/tags/".length = 6 := rfl
  have hzero : zeroLink.target.length = 0 := rfl
  omega

/-- The names of a broken tag cannot be had. -/
theorem run_curPkgsNames_broken (hstrict : StrictTags) {tag : TagLink}
    (h : Broken env tag) (n : Node) : ∃ err,
      (curPkgsNames (some (env.currentTag tag))).run (answer env) n = (.error err, n) := by
  have hunresolved : (HubClient.tagDestination (env.currentTag tag)).err ≠ none →
      ∃ err, (curPkgsNames (some (env.currentTag tag))).run (answer env) n = (.error err, n) := by
    intro hdest
    obtain ⟨err, herr⟩ := Option.ne_none_iff_exists'.mp hdest
    simp only [curPkgsNames, herr]
    exact ⟨_, rfl⟩
  cases h with
  | unread err hread =>
      refine hunresolved ?_
      rw [Surroundings.currentTag, hread]
      exact zeroLink_unresolved hstrict
  | unresolved hdest => exact hunresolved hdest
  | unlisted err hlist =>
      by_cases hdest : (HubClient.tagDestination (env.currentTag tag)).err = none
      · simp only [curPkgsNames, hdest, ask, perform, call_bind, ret_bind, run_call, answer]
        rw [hlist]
        exact ⟨_, rfl⟩
      · exact hunresolved hdest

/-- `updateTo` fails before it installs anything. -/
theorem run_updateTo_broken (hstrict : StrictTags) {tag : TagLink} (h : Broken env tag)
    (u : Upgrader) (link : TagLink) (n : Node) : ∃ err,
      (updateTo u link (some (env.currentTag tag))).run (answer env) n = (some err, n) := by
  rw [updateTo]
  cases hdest : (HubClient.tagDestination link).err with
  | some err => exact ⟨_, rfl⟩
  | none =>
      simp only [ask, perform, call_bind, ret_bind, run_call, answer]
      cases hlist : env.listTag (HubClient.tagDestination link).repo
          (HubClient.tagDestination link).name with
      | error err => exact ⟨_, rfl⟩
      | ok packages =>
          obtain ⟨err, hnames⟩ := run_curPkgsNames_broken hstrict h n
          dsimp only
          rw [run_bind, hnames]
          exact ⟨err, rfl⟩

/-- An update from a broken tag ends without the restart, and leaves the node as it
was. -/
theorem run_update_broken (hstrict : StrictTags) (h : Broken env n.tag) (u : Upgrader) :
    ((update u).run (answer env) n).1 ≠ some .errRestartNeeded ∧
      ((update u).run (answer env) n).2 = n := by
  have hcurrent : (answer env .bootCurrent n).1.1 = env.currentTag n.tag := by
    simp only [answer, Surroundings.currentTag]
    cases env.bootCurrent <;> rfl
  have hsame : (answer env .bootCurrent n).2 = n := rfl
  simp only [update, ask, perform, call_bind, ret_bind, run_call]
  generalize (answer env .bootCurrent n).1 = read at hcurrent ⊢
  obtain ⟨current, err⟩ := read
  dsimp only at hcurrent ⊢
  subst hcurrent
  rw [hsame, run_bind, run_remote]
  cases env.remoteTag with
  | error err => exact ⟨by simp, rfl⟩
  | ok remote =>
      dsimp only
      split
      · exact ⟨by simp, rfl⟩
      · simp only [run_call, answer]
        rw [run_bind, run_getRolloutConfig]
        cases env.rollout with
        | error err => exact ⟨by simp, rfl⟩
        | ok config =>
            obtain ⟨v, testFarms⟩ := config
            dsimp only
            cases rolledOut env.environment v testFarms remote with
            | false => exact ⟨by simp, rfl⟩
            | true =>
                obtain ⟨err, hto⟩ := run_updateTo_broken hstrict h u remote n
                dsimp only
                rw [run_bind, hto]
                exact ⟨by simp, rfl⟩

/-- No upgrade gets past a current tag that is broken. -/
theorem broken_tag_blocks (hstrict : StrictTags) (h : Broken env n.tag) (u : Upgrader)
    (remote : TagLink) (packages : List Symlink) :
    ¬ Upgraded remote packages ((update u).run (answer env) n) ∧
      ((update u).run (answer env) n).2 = n := by
  obtain ⟨hrestart, hsame⟩ := run_update_broken hstrict h u
  exact ⟨fun hupgraded => hrestart hupgraded.restart, hsame⟩

end

/-! ## A tag that cannot be read -/

/-- Two tags, and no other link resolves. -/
abbrev twoTags : HubClient where
  tagDestination link :=
    if link.target = "tf-zos/tags/v1" then ⟨"tf-zos", "v1", none⟩
    else if link.target = "tf-zos/tags/v2" then ⟨"tf-zos", "v2", none⟩
    else ⟨"", "", some (.text "invalid tag link")⟩
  destination pkg repo := resolve repo pkg.target

def nextTag : TagLink := ⟨"development", "tf-zos/tags/v2"⟩

def zinit : Symlink := ⟨"zinit", "releases/zinit.flist"⟩

/-- The boot record cannot be read, and the next tag is there. -/
def unreadable : Surroundings where
  bootCurrent := some (zeroLink, .text "no such file or directory")
  bootRunMode := "development"
  kernelParams := ⟨none⟩
  find _ := .ok [nextTag]
  listTag _ tag := if tag = "v2" then .ok [zinit] else .error (.text "not found")
  environment := ⟨.runningDev, 1⟩
  testFarms := .ok []
  zosVersion := .ok ⟨"v2", true⟩
  install _ := none
  bootSet := none

def running : Node := ⟨⟨"development", "tf-zos/tags/v1"⟩, [], []⟩

theorem strict_twoTags : letI := twoTags; StrictTags := by
  let := twoTags
  intro link hform
  dsimp only [twoTags, HubClient.tagDestination]
  split
  · next h => exact absurd h (hform "tf-zos" "v1")
  · split
    · next h => exact absurd h (hform "tf-zos" "v2")
    · exact Option.some_ne_none _

/-- The gates are open and everything installs, and the node stays where it is. -/
theorem unreadable_blocks :
    letI := twoTags
    Admitted unreadable nextTag [zinit] ∧ Broken unreadable running.tag ∧
      ¬ Upgraded nextTag [zinit] ((update ⟨false⟩).run (answer unreadable) running) := by
  let := twoTags
  refine ⟨⟨rfl, ⟨_, _, rfl, rfl⟩, ?_, ?_, ?_, fun _ => rfl, rfl⟩, .unread _ rfl, fun h => ?_⟩
  · decide +kernel
  · rfl
  · decide +kernel
  · have hrestart := h.restart
    revert hrestart
    decide +kernel

theorem broken_tag_blocks_unreadable :
    letI := twoTags
    ¬ Upgraded nextTag [zinit] ((update ⟨false⟩).run (answer unreadable) running) ∧
      ((update ⟨false⟩).run (answer unreadable) running).2 = running :=
  letI := twoTags
  broken_tag_blocks strict_twoTags (.unread _ rfl) ⟨false⟩ nextTag [zinit]

end Zos4.Upgrade
