import Zos4.Proofs.BrokenTag
import Zos4.Upgrade.Run

/-!
# What the log of an upgrader says

`OnNode` is what the log shows of a package that was installed: the copy, and the restart
of its services right after it. `Complete` is a tag whose packages are there, by their
names, and `Fetched` one that was brought to a node as a whole.

`Sound` is what is kept all along, of the log and of the node, and `Allow` is when a call
may be made for that. A call that is allowed keeps it, however it is answered
(`sound_reply`).
-/

namespace Zos4.Upgrade

open Zos4.Interaction Prog

/-! ## What is on a node -/

/-- A call and its answer. -/
abbrev Call := Interaction.Entry runSig

abbrev Log := List Call

/-- The calls that restart services. -/
def restarting (service : List String) : List RunOp :=
  if service = [] then []
  else
    .stopMultiple service ::
      service.flatMap fun name => [.forget name, .monitor name, .start name]

/-- The package was copied to the node, and its services were restarted after that. -/
def OnNode (log : Log) (repo name : String) : Prop :=
  ∃ (before : Log) (cache : Cache) (services : List String) (restarts after : Log),
    log = before ++ ⟨.copyRecursive cache repo name, none⟩ ::
      ⟨.servicesFromStore cache repo name, .ok services⟩ :: (restarts ++ after) ∧
    restarts.map Sigma.fst = restarting (unprotected services)

theorem OnNode.append {log : Log} {repo name : String} (h : OnNode log repo name)
    (more : Log) : OnNode (log ++ more) repo name := by
  obtain ⟨before, cache, services, restarts, after, rfl, hcalls⟩ := h
  refine ⟨before, cache, services, restarts, after ++ more, ?_, hcalls⟩
  simp

theorem OnNode.prepend {log : Log} {repo name : String} (h : OnNode log repo name)
    (earlier : Log) : OnNode (earlier ++ log) repo name := by
  obtain ⟨before, cache, services, restarts, after, rfl, hcalls⟩ := h
  refine ⟨earlier ++ before, cache, services, restarts, after, ?_, hcalls⟩
  simp

theorem made_restartAll {names : List String} {entries : Log} {a : Unit}
    (h : Made (restartAll names) entries a) : entries.map Sigma.fst =
      names.flatMap fun name => [RunOp.forget name, .monitor name, .start name] := by
  induction names generalizing entries with
  | nil =>
      obtain ⟨rfl, _⟩ := made_pure h
      rfl
  | cons name rest ih =>
      obtain ⟨_, _, rfl, h₁⟩ := made_perform_bind h
      obtain ⟨_, _, rfl, h₂⟩ := made_perform_bind h₁
      obtain ⟨_, _, rfl, h₃⟩ := made_perform_bind h₂
      simp [ih h₃]

theorem made_ensureRestarted {services : List String} {entries : Log} {r : Option GoError}
    (h : Made (ensureRestarted services) entries r) :
    entries.map Sigma.fst = restarting (unprotected services) := by
  rw [ensureRestarted] at h
  rw [restarting]
  split
  · next hnone =>
      rw [if_pos hnone] at h
      obtain ⟨rfl, _⟩ := made_pure h
      rfl
  · next hsome =>
      rw [if_neg hsome] at h
      obtain ⟨_, _, rfl, h₁⟩ := made_perform_bind h
      obtain ⟨_, first, rest, rfl, hfirst, hrest⟩ := made_bind h₁
      obtain ⟨rfl, _⟩ := made_pure hrest
      rw [List.append_nil, List.map_cons, made_restartAll hfirst]

theorem made_installStore {cache : Cache} {repo name : String} {entries : Log}
    (h : Made (installStore cache repo name) entries none) : OnNode entries repo name := by
  obtain ⟨copied, rest, rfl, hcopied⟩ := made_perform_bind h
  cases copied with
  | some err => cases (made_pure hcopied).2
  | none =>
      obtain ⟨listed, rest, rfl, hlisted⟩ := made_perform_bind hcopied
      cases listed with
      | error err => cases (made_pure hlisted).2
      | ok services =>
          refine ⟨[], cache, services, rest, [], ?_, made_ensureRestarted hlisted⟩
          rw [List.append_nil]
          rfl

theorem made_installInMemory {repo name : String} {entries : Log}
    (h : Made (installInMemory repo name) entries none) : OnNode entries repo name := by
  obtain ⟨created, rest, rfl, hcreated⟩ := made_perform_bind h
  cases created with
  | some err => cases (made_pure hcreated).2
  | none =>
      obtain ⟨got, first, rest, rfl, _, hgot⟩ := made_bind hcreated
      cases got with
      | error err =>
          obtain ⟨_, _, rfl, hcleaned⟩ := made_perform_bind hgot
          cases (made_pure hcleaned).2
      | ok _ =>
          obtain ⟨err, stored, rest, rfl, hstored, hrest⟩ := made_bind hgot
          obtain ⟨_, _, rfl, hclosed⟩ := made_perform_bind hrest
          obtain ⟨_, _, rfl, hcleaned⟩ := made_perform_bind hclosed
          obtain ⟨rfl, rfl⟩ := made_pure hcleaned
          exact (((made_installStore hstored).append _).prepend first).prepend [_]

/-- An install that returns no error has done all that there is to do. -/
theorem made_install {repo name : String} {entries : Log}
    (h : Made (install repo name) entries none) : OnNode entries repo name := by
  obtain ⟨got, first, rest, rfl, _, hgot⟩ := made_bind h
  cases got with
  | error err =>
      dsimp only at hgot
      split at hgot
      · exact (made_installInMemory hgot).prepend first
      · cases (made_pure hgot).2
  | ok _ =>
      obtain ⟨err, stored, rest, rfl, hstored, hrest⟩ := made_bind hgot
      obtain ⟨_, _, rfl, hclosed⟩ := made_perform_bind hrest
      obtain ⟨rfl, rfl⟩ := made_pure hclosed
      exact ((made_installStore hstored).append _).prepend first

/-! ## What is kept all along -/

/-- The calls that bring a package to the node. -/
def RunOp.installs : RunOp → Bool
  | .hubDownload _ _ _ | .newStore _ _ _ | .newInMemoryCache => true
  | .copyRecursive _ _ _ | .servicesFromStore _ _ _ | .clean | .closeStore => true
  | .stopMultiple _ | .forget _ | .monitor _ | .start _ => true
  | _ => false

/-- The services a call is about. -/
def RunOp.touches : RunOp → List String
  | .stopMultiple service => service
  | .forget name | .monitor name | .start name => [name]
  | _ => []

/-- A service is listed in a package that was copied. -/
def Shipped (log : Log) (service : String) : Prop :=
  ∃ (cache : Cache) (repo name : String) (services : List String), service ∈ services ∧
    (⟨.copyRecursive cache repo name, none⟩ : Call) ∈ log ∧
    (⟨.servicesFromStore cache repo name, .ok services⟩ : Call) ∈ log

/-- What may be asked of zinit. -/
def MayTouch (log : Log) (op : RunOp) : Prop :=
  ∀ service ∈ op.touches, service ∉ protectedServices ∧ Shipped log service

/-- What the hub answers is listed under a tag is what was when the node booted. -/
def Site.Lists (site : Site) (log : Log) : Prop :=
  ∀ repo tag packages, (⟨.ask (.hubListTag repo tag), .ok packages⟩ : Call) ∈ log →
    packages = site.listing repo tag

/-- The mark of the first boot is not set before. -/
def Unmarked (before : Log) (entry : Call) : Prop :=
  entry.1.installs = true → (⟨.markBooted, none⟩ : Call) ∉ before

variable {site : Site} {log more : Log}

theorem Shipped.append {service : String} (h : Shipped log service) :
    Shipped (log ++ more) service := by
  obtain ⟨cache, repo, name, services, hservice, hcopied, hlisted⟩ := h
  exact ⟨cache, repo, name, services, hservice, List.mem_append_left _ hcopied,
    List.mem_append_left _ hlisted⟩

theorem Site.Lists.before (h : site.Lists (log ++ more)) : site.Lists log :=
  fun repo tag packages hmem => h repo tag packages (List.mem_append_left _ hmem)

theorem ordered_snoc {ok : Log → Call → Prop} (h : Ordered ok log)
    {entry : Call} (hentry : ok log entry) : Ordered ok (log ++ [entry]) := by
  refine h.append fun before ev after heq => ?_
  cases before with
  | nil =>
      obtain ⟨rfl, _⟩ := List.cons.inj heq
      rw [List.append_nil]
      exact hentry
  | cons first rest =>
      obtain ⟨_, hnil⟩ := List.cons.inj heq
      simp at hnil

/-- What an answer does to the mark. -/
theorem Site.Reply.booted {op : RunOp} {m m' : Machine} {r : op.Ret}
    (h : site.Reply op m r m') : (m.booted = true → m'.booted = true) ∧
      (m'.booted = true → m.booted = true ∨ op = .markBooted) := by
  cases h with
  | marked => exact ⟨fun _ => rfl, fun _ => .inr rfl⟩
  | notMarked hkept => exact ⟨hkept, fun _ => .inr rfl⟩
  | _ => exact ⟨id, .inl⟩

theorem Site.Reply.of_marked {m m' : Machine} (h : site.Reply .markBooted m none m') :
    m'.booted = true := by
  cases h with
  | marked => rfl
  | any hfree => cases hfree

/-- Where a boot record comes from. -/
theorem Site.Reply.tag {op : RunOp} {m m' : Machine} {r : op.Ret}
    (h : site.Reply op m r m') {tag : TagLink} (htag : m'.tag = some tag) :
    m.tag = some tag ∨ op = .ask (.bootSet tag) := by
  cases h with
  | set =>
      cases htag
      exact .inr rfl
  | notSet hleft =>
      rcases hleft with rfl | rfl | rfl
      · exact .inl htag
      · cases htag
        exact .inr rfl
      · cases htag
  | _ => exact .inl htag

variable [HubClient]

/-- A name that bootstrap has installed, or the upgrader since. -/
def Has (base : List String) (log : Log) (name : String) : Prop :=
  name ∈ base ∨ ∃ repo, OnNode log repo name

/-- What the hub answered is listed under a link. -/
def Answered (log : Log) (link : TagLink) (packages : List Symlink) : Prop :=
  (⟨.ask (.hubListTag (HubClient.tagDestination link).repo (HubClient.tagDestination link).name),
    .ok packages⟩ : Call) ∈ log

/-- What is listed under a link when the node boots. -/
def Site.packages (site : Site) (link : TagLink) : List Symlink :=
  site.listing (HubClient.tagDestination link).repo (HubClient.tagDestination link).name

def destOf (link : TagLink) (pkg : Symlink) : Resolved :=
  HubClient.destination pkg (HubClient.tagDestination link).repo

/-- The packages of a tag are on the node, by their names. -/
def Complete (site : Site) (base : List String) (log : Log) (link : TagLink) : Prop :=
  (HubClient.tagDestination link).err = none → ∀ pkg ∈ site.packages link,
    (destOf link pkg).err = none → Has base log (destOf link pkg).name

/-- All that is to be installed of a tag the hub has answered with, as it was listed, is
there. -/
def Fetched (u : Upgrader) (log : Log) (link : TagLink) : Prop :=
  (∃ name, (⟨.ask (.hubFind name), .ok [link]⟩ : Call) ∈ log) ∧
    (HubClient.tagDestination link).err = none ∧ ∃ packages, Answered log link packages ∧
      ∀ pkg ∈ packages, (pkg.name = zosPackage → u.noZosUpgrade = false) →
        OnNode log (destOf link pkg).repo (destOf link pkg).name

structure Sound (site : Site) (u : Upgrader) (base : List String)
    (s : Logged runSig Machine) : Prop where
  complete : site.Lists s.2 → ∀ tag, s.1.tag = some tag → u.noZosUpgrade = false →
    Complete site base s.2 tag
  booted : s.1.booted = true → site.method = .other ∧ ∃ link, Fetched u s.2 link
  marked : (⟨.markBooted, none⟩ : Call) ∈ s.2 → s.1.booted = true
  installs : Ordered Unmarked s.2
  touches : Ordered (fun before entry => MayTouch before entry.1) s.2

/-- When a call may be made. -/
structure Allow (site : Site) (u : Upgrader) (base : List String) (op : RunOp)
    (s : Logged runSig Machine) : Prop where
  set : ∀ link, op = .ask (.bootSet link) → site.Lists s.2 → u.noZosUpgrade = false →
    Complete site base s.2 link
  mark : op = .markBooted → site.method = .other ∧ ∃ link, Fetched u s.2 link
  installs : op.installs = true → s.1.booted = false
  touches : MayTouch s.2 op

section

variable {u : Upgrader} {base : List String}

theorem Complete.append {link : TagLink} (h : Complete site base log link) :
    Complete site base (log ++ more) link := by
  intro htag pkg hpkg hdest
  rcases h htag pkg hpkg hdest with hbase | ⟨repo, hnode⟩
  · exact .inl hbase
  · exact .inr ⟨repo, hnode.append more⟩

theorem Fetched.append {link : TagLink} (h : Fetched u log link) :
    Fetched u (log ++ more) link := by
  obtain ⟨⟨name, hfound⟩, htag, packages, hlisted, hnode⟩ := h
  exact ⟨⟨name, List.mem_append_left _ hfound⟩, htag, packages,
    List.mem_append_left _ hlisted, fun pkg hpkg hzos => (hnode pkg hpkg hzos).append more⟩

/-- An allowed call keeps what is kept all along. -/
theorem sound_reply {op : RunOp} {s s' : Logged runSig Machine} {r : op.Ret}
    (h : Sound site u base s) (hallow : Allow site u base op s)
    (hreply : (site.service.logged (Sound site u base)).reply op s r s') :
    Sound site u base s' := by
  obtain ⟨m, log⟩ := s
  obtain ⟨m', log'⟩ := s'
  obtain ⟨hreply, hlog⟩ := hreply
  dsimp only at hreply hlog
  subst hlog
  have hbooted := Site.Reply.booted hreply
  constructor
  · intro hlists tag htag hzos
    rcases hreply.tag htag with hbefore | hset
    · exact (h.complete hlists.before tag hbefore hzos).append
    · exact (hallow.set tag hset hlists.before hzos).append
  · intro hnow
    have hfetched : site.method = .other ∧ ∃ link, Fetched u log link := by
      rcases hbooted.2 hnow with hbefore | hmark
      · exact h.booted hbefore
      · exact hallow.mark hmark
    obtain ⟨hother, link, hlink⟩ := hfetched
    exact ⟨hother, link, hlink.append⟩
  · intro hmem
    rcases List.mem_append.mp hmem with hbefore | hlast
    · exact hbooted.1 (h.marked hbefore)
    · cases List.mem_singleton.mp hlast
      exact hreply.of_marked
  · refine ordered_snoc h.installs fun hinstalls hmem => ?_
    have hfirst := hallow.installs hinstalls
    rw [h.marked hmem] at hfirst
    cases hfirst
  · exact ordered_snoc h.touches hallow.touches

end

end Zos4.Upgrade
