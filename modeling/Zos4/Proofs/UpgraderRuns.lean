import Zos4.Upgrade.OnNode

/-!
# What a running upgrader keeps

An upgrader installs a few packages, fails, is killed and restarted, and all the while the
hub moves on. What holds in all of it is that the boot record is never ahead of the node
(`boot_tag_on_node`), that a node not booted from the hub is marked when all of its
binaries are there, and is left alone from then on (`booted_on_node`), and that a service
is stopped and started only after its package was copied, and the protected ones never
(`restarts_shipped`).

All three are read off the invariant on the log of the calls. An update is shown to keep it
with `install` as one call, and the call is replaced by its program at the end.
-/

namespace Zos4.Upgrade

open Zos4.Interaction Prog

section

variable [HubClient] {site : Site} {u : Upgrader} {base : List String} {log : Log}

/-! ## An update, with its installs as calls -/

/-- The log has grown, and nothing that is kept has changed. -/
def Grown (s t : Logged runSig Machine) : Prop :=
  t.1 = s.1 ∧ ∃ more, t.2 = s.2 ++ more

omit [HubClient] in
theorem Grown.refl (s : Logged runSig Machine) : Grown s s :=
  ⟨rfl, [], (List.append_nil _).symm⟩

omit [HubClient] in
theorem Grown.trans {s t v : Logged runSig Machine} (h : Grown s t) (h' : Grown t v) :
    Grown s v := by
  obtain ⟨hkept, first, hfirst⟩ := h
  obtain ⟨hkept', rest, hrest⟩ := h'
  exact ⟨hkept'.trans hkept, first ++ rest, by rw [hrest, hfirst, List.append_assoc]⟩

/-- An install is whatever its program does. -/
def Site.upgradeReply (site : Site) :
    (op : Op) → Logged runSig Machine → op.Ret → Logged runSig Machine → Prop
  | .install _ repo name, s, r, t => Did (install repo name) s r t
  | op, s, r, t => site.Reply (.ask op) s.1 r t.1 ∧ t.2 = s.2 ++ [⟨.ask op, r⟩]

/-- The calls that only ask. -/
def Op.asks : Op → Bool
  | .install _ _ _ | .bootSet _ => false
  | _ => true

/-- When a call of an update may be made. -/
def AllowUp (site : Site) (u : Upgrader) (base : List String) :
    Op → Logged runSig Machine → Prop
  | .install _ _ _, s => s.1.booted = false
  | .bootSet link, s => site.Lists s.2 → u.noZosUpgrade = false →
      Complete site base s.2 link
  | _, _ => True

/-- The service an update calls on. -/
def Site.upgrading (site : Site) (u : Upgrader) (base : List String) :
    Service upgradeSig (Logged runSig Machine) where
  reply := site.upgradeReply
  others s t := t = s
  inv := Sound site u base
  refl _ := rfl
  trans h h' := h'.trans h

variable {s t : Logged runSig Machine}

omit [HubClient] in
theorem upgradeReply_grown {op : Op} (hop : op.asks = true) {r : op.Ret}
    (h : site.upgradeReply op s r t) : Grown s t := by
  have hasked : site.Reply (.ask op) s.1 r t.1 ∧ t.2 = s.2 ++ [⟨.ask op, r⟩] := by
    cases op with
    | install pkg repo name => cases hop
    | _ => exact h
  obtain ⟨hreply, hlog⟩ := hasked
  refine ⟨?_, _, hlog⟩
  generalize s.1 = m, t.1 = m' at hreply
  cases hreply with
  | set => cases hop
  | notSet _ => cases hop
  | _ => rfl

theorem AllowUp.of_asks {op : Op} (hop : op.asks = true) (s : Logged runSig Machine) :
    AllowUp site u base op s := by
  cases op with
  | install pkg repo name => cases hop
  | bootSet link => cases hop
  | _ => trivial

theorem served_ask {α : Type} {Q : α → Logged runSig Machine → Prop} {op : Op}
    {f : op.Ret → UpgradeM α} (hallow : AllowUp site u base op s)
    (h : ∀ r t, site.upgradeReply op s r t →
      (f r).Served (site.upgrading u base) (AllowUp site u base) Q t) :
    (ask op >>= f).Served (site.upgrading u base) (AllowUp site u base) Q s := by
  intro t ht _
  cases ht
  exact ⟨hallow, h⟩

theorem served_pure {α : Type} {Q : α → Logged runSig Machine → Prop} {a : α} (h : Q a s) :
    (pure a : UpgradeM α).Served (site.upgrading u base) (AllowUp site u base) Q s := by
  intro t ht _
  cases ht
  exact h

/-- Of a call that fails nothing is to be shown but that nothing was changed. -/
theorem served_error {α : Type} {P : α → Logged runSig Machine → Prop} {err : GoError}
    (h : Grown s t) : (pure (.error err) : UpgradeM (Except GoError α)).Served
      (site.upgrading u base) (AllowUp site u base)
      (fun r v => Grown s v ∧ ∀ a, r = .ok a → P a v) t :=
  served_pure ⟨h, fun _ hok => by cases hok⟩

theorem served_failed {P : Logged runSig Machine → Prop} {err : GoError} (h : Grown s t) :
    (pure (some err) : UpgradeM (Option GoError)).Served (site.upgrading u base)
      (AllowUp site u base) (fun r v => Grown s v ∧ (r = none → P v)) t :=
  served_pure ⟨h, fun hnone => by cases hnone⟩

/-- What a program of calls that only ask comes to. -/
theorem served_asking {α : Type} {p : UpgradeM α}
    (hp : p.Within (fun _ _ => True) fun op : Op => op.asks = true) :
    p.Served (site.upgrading u base) (AllowUp site u base) (fun _ t => Grown s t) s := by
  suffices h : ∀ t, Grown s t →
      p.Served (site.upgrading u base) (AllowUp site u base) (fun _ t => Grown s t) t from
    h s (.refl s)
  induction p with
  | ret a => exact fun t ht => served_pure ht
  | call op k ih =>
      intro t ht
      refine served_ask (.of_asks hp.1 t) fun r t' hr => ih r (hp.2 r trivial) t' ?_
      exact ht.trans (upgradeReply_grown hp.1 hr)

theorem served_getRolloutConfig :
    getRolloutConfig.Served (site.upgrading u base) (AllowUp site u base)
      (fun _ t => Grown s t) s := by
  refine served_asking ⟨rfl, fun env _ => ⟨rfl, fun config _ => ?_⟩⟩
  cases config with
  | error err => trivial
  | ok testFarms =>
      dsimp only
      cases env.runningMode with
      | runningDev => trivial
      | other mode =>
          refine ⟨rfl, fun v _ => ?_⟩
          cases v <;> trivial

/-- The tag to run is one the hub has just answered with. -/
theorem served_remote :
    remote.Served (site.upgrading u base) (AllowUp site u base)
      (fun r t => Grown s t ∧ ∀ link, r = .ok link →
        ∃ name, (⟨.ask (.hubFind name), .ok [link]⟩ : Call) ∈ t.2) s := by
  refine served_ask trivial fun mode t₁ h₁ => served_ask trivial fun params t₂ h₂ =>
    served_ask trivial fun found t₃ h₃ => served_pure ?_
  have hgrown : Grown s t₃ := ((upgradeReply_grown rfl h₁).trans
    (upgradeReply_grown rfl h₂)).trans (upgradeReply_grown rfl h₃)
  refine ⟨hgrown, fun link hlink => ⟨matchName mode params, ?_⟩⟩
  obtain ⟨_, hlog⟩ := h₃
  rw [hlog]
  refine List.mem_append_right _ (List.mem_singleton.mpr ?_)
  have hfound : found = .ok [link] := by
    rcases found with _ | _ | ⟨first, _ | _⟩
    · cases hlink
    · cases hlink
    · cases hlink
      rfl
    · cases hlink
  rw [hfound]

omit [HubClient] in
theorem OnNode.grown {repo name : String} (h : OnNode s.2 repo name) (hgrown : Grown s t) :
    OnNode t.2 repo name := by
  obtain ⟨_, more, hlog⟩ := hgrown
  rw [hlog]
  exact h.append more

omit [HubClient] in
theorem OnNode.of_did {repo name : String} (h : Did (install repo name) s none t) :
    OnNode t.2 repo name := by
  obtain ⟨_, entries, hlog, hmade⟩ := h
  rw [hlog]
  exact (made_install hmade).prepend s.2

/-- What is said of a package when the loop is through: a name of the current tag, a
package for later, or one that is there. -/
def Settled (names : List String) (log : Log) (later : List (Symlink × Resolved))
    (pkg : Symlink) (dest : Resolved) : Prop :=
  dest.name ∈ names ∨ (pkg.name = zosPackage ∧ (pkg, dest) ∈ later) ∨
    OnNode log dest.repo dest.name

theorem served_installPackages (names : List String) (repo : String)
    (packages : List Symlink) : ∀ (later : List (Symlink × Resolved))
      (s : Logged runSig Machine), s.1.booted = false →
    (installPackages names repo packages later).Served (site.upgrading u base)
      (AllowUp site u base)
      (fun r t => Grown s t ∧ ∀ all, r = .ok all → later ⊆ all ∧ ∀ pkg ∈ packages,
        Settled names t.2 all pkg (HubClient.destination pkg repo)) s := by
  induction packages with
  | nil =>
      intro later s _
      refine served_pure ⟨.refl s, fun all hall => ?_⟩
      cases hall
      exact ⟨List.Subset.refl _, List.forall_mem_nil _⟩
  | cons pkg rest ih =>
      intro later s hfirst
      rw [installPackages]
      -- a package settled already is so in every log to come
      have hgoes : ∀ (more : List (Symlink × Resolved)) (t : Logged runSig Machine),
          Grown s t → later ⊆ more →
          (∀ all v, more ⊆ all → Grown t v →
            Settled names v.2 all pkg (HubClient.destination pkg repo)) →
          (installPackages names repo rest more).Served (site.upgrading u base)
            (AllowUp site u base)
            (fun r v => Grown s v ∧ ∀ all, r = .ok all → later ⊆ all ∧
              ∀ pkg' ∈ pkg :: rest,
                Settled names v.2 all pkg' (HubClient.destination pkg' repo)) t := by
        intro more t ht hmore hpkg
        have hfirst' : t.1.booted = false := by rw [ht.1, hfirst]
        refine (ih more t hfirst').mono (fun _ _ _ h => h) ?_
        intro r v _ hv
        refine ⟨ht.trans hv.1, fun all hall => ?_⟩
        obtain ⟨hsub, hrest⟩ := hv.2 all hall
        exact ⟨List.Subset.trans hmore hsub, List.forall_mem_cons.mpr ⟨hpkg all v hsub hv.1, hrest⟩⟩
      split
      · next hname =>
          exact hgoes later s (.refl s) (List.Subset.refl _) fun _ _ _ _ => .inl hname
      · split
        · next hzos =>
            refine hgoes _ s (.refl s) (List.subset_append_left _ _) fun all _ hsub _ => ?_
            exact .inr (.inl ⟨hzos, hsub (by simp)⟩)
        · split
          · next err _ => exact served_error (.refl s)
          · refine served_ask hfirst fun r t hr => ?_
            have hgrown : Grown s t := ⟨hr.1, hr.2.imp fun _ h => h.1⟩
            cases r with
            | some err => exact served_error hgrown
            | none =>
                refine hgoes later t hgrown (List.Subset.refl _) fun all v _ hv => ?_
                exact .inr (.inr ((OnNode.of_did hr).grown hv))

theorem served_installLater (later : List (Symlink × Resolved)) :
    ∀ s : Logged runSig Machine, s.1.booted = false →
    (installLater later).Served (site.upgrading u base) (AllowUp site u base)
      (fun r t => Grown s t ∧ (r = none → ∀ entry ∈ later,
        OnNode t.2 entry.2.repo entry.2.name)) s := by
  induction later with
  | nil => exact fun s _ => served_pure ⟨.refl s, fun _ => List.forall_mem_nil _⟩
  | cons entry rest ih =>
      intro s hfirst
      obtain ⟨pkg, dest⟩ := entry
      refine served_ask hfirst fun r t hr => ?_
      have hgrown : Grown s t := ⟨hr.1, hr.2.imp fun _ h => h.1⟩
      cases r with
      | some err => exact served_failed hgrown
      | none =>
          have hfirst' : t.1.booted = false := by rw [hgrown.1, hfirst]
          refine (ih t hfirst').mono (fun _ _ _ h => h) fun r v _ hv => ?_
          refine ⟨hgrown.trans hv.1, fun hnone => List.forall_mem_cons.mpr ⟨?_, hv.2 hnone⟩⟩
          exact (OnNode.of_did hr).grown hv.1

theorem Answered.grown {link : TagLink} {packages : List Symlink}
    (h : Answered s.2 link packages) (hgrown : Grown s t) : Answered t.2 link packages := by
  obtain ⟨_, more, hlog⟩ := hgrown
  rw [Answered, hlog]
  exact List.mem_append_left _ h

theorem answered_of_reply {link : TagLink} {packages : List Symlink}
    (h : site.upgradeReply (.hubListTag (HubClient.tagDestination link).repo
      (HubClient.tagDestination link).name) s (.ok packages) t) : Answered t.2 link packages := by
  obtain ⟨_, hlog⟩ := h
  rw [Answered, hlog]
  exact List.mem_append_right _ (List.mem_singleton_self _)

/-- The names of the current tag are those of what is listed under it. -/
theorem served_curPkgsNames (current : Option TagLink) :
    (curPkgsNames current).Served (site.upgrading u base) (AllowUp site u base)
      (fun r t => Grown s t ∧ ∀ names, r = .ok names → ∀ name ∈ names,
        ∃ link, current = some link ∧ (HubClient.tagDestination link).err = none ∧
          ∃ packages, Answered t.2 link packages ∧ ∃ pkg ∈ packages,
            (destOf link pkg).err = none ∧ (destOf link pkg).name = name) s := by
  cases current with
  | none =>
      refine served_pure ⟨.refl s, fun names hnames => ?_⟩
      cases hnames
      exact List.forall_mem_nil _
  | some link =>
      rw [curPkgsNames]
      split
      · next err _ => exact served_error (.refl s)
      · next htag =>
          refine served_ask trivial fun listed t hr => ?_
          have hgrown := upgradeReply_grown rfl hr
          cases listed with
          | error err => exact served_error hgrown
          | ok packages =>
              refine served_pure ⟨hgrown, fun names hnames name hname => ?_⟩
              cases hnames
              refine ⟨link, rfl, htag, packages, answered_of_reply hr, ?_⟩
              obtain ⟨pkg, hpkg, hdest⟩ := List.mem_filterMap.mp hname
              dsimp only at hdest
              split at hdest
              · next hresolved => exact ⟨pkg, hpkg, hresolved, Option.some.inj hdest⟩
              · cases hdest

/-- `updateTo` returns no error when what is to be installed is there, or has a name of
the current tag. -/
theorem served_updateTo (link : TagLink) (current : Option TagLink)
    (hfirst : s.1.booted = false) :
    (updateTo u link current).Served (site.upgrading u base) (AllowUp site u base)
      (fun r t => Grown s t ∧ (r = none → (HubClient.tagDestination link).err = none ∧
        ∃ packages, Answered t.2 link packages ∧
          ∀ pkg ∈ packages, (pkg.name = zosPackage → u.noZosUpgrade = false) →
            OnNode t.2 (destOf link pkg).repo (destOf link pkg).name ∨
            ∃ cur, current = some cur ∧ (HubClient.tagDestination cur).err = none ∧
              ∃ curPkgs, Answered t.2 cur curPkgs ∧ ∃ pkg' ∈ curPkgs,
                (destOf cur pkg').err = none ∧
                  (destOf cur pkg').name = (destOf link pkg).name)) s := by
  rw [updateTo]
  split
  · exact served_failed (.refl s)
  · next htag =>
      refine served_ask trivial fun listed t₁ hr => ?_
      have hgrown₁ := upgradeReply_grown rfl hr
      cases listed with
      | error err => exact served_failed hgrown₁
      | ok packages =>
          have hlisted := answered_of_reply hr
          refine (served_curPkgsNames current).bind fun cur t₂ _ hcur => ?_
          obtain ⟨hgrown₂, hnames⟩ := hcur
          cases cur with
          | error err =>
              exact served_failed (hgrown₁.trans hgrown₂)
          | ok names =>
              have hfirst₂ : t₂.1.booted = false := by rw [hgrown₂.1, hgrown₁.1, hfirst]
              refine (served_installPackages names _ packages [] t₂ hfirst₂).bind
                fun looped t₃ _ hlooped => ?_
              obtain ⟨hgrown₃, hsettled⟩ := hlooped
              have hgrown := (hgrown₁.trans hgrown₂).trans hgrown₃
              cases looped with
              | error err => exact served_failed hgrown
              | ok later =>
                  obtain ⟨_, hsettled⟩ := hsettled later rfl
                  -- a name of the current tag was listed before
                  have hnames₃ : ∀ t₄, Grown t₃ t₄ → ∀ name ∈ names,
                      ∃ cur, current = some cur ∧ (HubClient.tagDestination cur).err = none ∧
                        ∃ curPkgs, Answered t₄.2 cur curPkgs ∧ ∃ pkg ∈ curPkgs,
                          (destOf cur pkg).err = none ∧ (destOf cur pkg).name = name := by
                    intro t₄ hgrown₄ name hname
                    obtain ⟨cur, hcur, hdest, curPkgs, hanswered, hpkg⟩ :=
                      hnames names rfl name hname
                    exact ⟨cur, hcur, hdest, curPkgs,
                      hanswered.grown (hgrown₃.trans hgrown₄), hpkg⟩
                  have hlisted₃ := hlisted.grown (hgrown₂.trans hgrown₃)
                  dsimp only
                  split
                  · next hno =>
                      refine served_pure ⟨hgrown, fun _ =>
                        ⟨htag, packages, hlisted₃, fun pkg hpkg hzos => ?_⟩⟩
                      rcases hsettled pkg hpkg with hname | ⟨hlater, _⟩ | hnode
                      · exact .inr (hnames₃ t₃ (.refl t₃) _ hname)
                      · rw [hzos hlater] at hno
                        cases hno
                      · exact .inl hnode
                  · have hfirst₃ : t₃.1.booted = false := by rw [hgrown.1, hfirst]
                    refine (served_installLater later t₃ hfirst₃).mono (fun _ _ _ h => h) ?_
                    intro r t₄ _ hinstalled
                    refine ⟨hgrown.trans hinstalled.1, fun hnone =>
                      ⟨htag, packages, hlisted₃.grown hinstalled.1, ?_⟩⟩
                    intro pkg hpkg _
                    rcases hsettled pkg hpkg with hname | ⟨_, hlater⟩ | hnode
                    · exact .inr (hnames₃ t₄ hinstalled.1 _ hname)
                    · exact .inl (hinstalled.2 hnone _ hlater)
                    · exact .inl (hnode.grown hinstalled.1)

/-- An update moves the boot record to a tag that is complete. -/
theorem served_update (hzero : (HubClient.tagDestination zeroLink).err ≠ none)
    (hmethod : site.method = .bootstrap) :
    (update u).Served (site.upgrading u base) (AllowUp site u base) (fun _ _ => True) s := by
  refine Served.intro fun s₀ hs₀ hsound => ?_
  cases hs₀
  have hfirst : s.1.booted = false := by
    cases hbooted : s.1.booted with
    | false => rfl
    | true =>
        rw [(hsound.booted hbooted).1] at hmethod
        cases hmethod
  refine served_ask trivial fun read t₁ hr => ?_
  obtain ⟨current, err⟩ := read
  have hgrown₁ := upgradeReply_grown rfl hr
  -- what the record says is complete, and what stands for a broken one does not resolve
  have hcurrent : site.Lists s.2 → u.noZosUpgrade = false →
      Complete site base s.2 current := by
    intro hlists hzos
    obtain ⟨hreply, _⟩ := hr
    have hcomplete := hsound.complete
    generalize s.1 = m, t₁.1 = m' at hreply hcomplete
    cases hreply with
    | current htag => exact hcomplete hlists _ htag hzos
    | unread => exact fun hresolved => absurd hresolved hzero
    | any hfree => cases hfree
  dsimp only
  refine served_remote.bind fun found t₂ _ hfound => ?_
  obtain ⟨hgrown₂, _⟩ := hfound
  cases found with
  | error err => exact served_pure trivial
  | ok link =>
      dsimp only
      split
      · exact served_pure trivial
      · refine served_ask trivial fun env t₃ hr₃ => ?_
        have hgrown₃ := upgradeReply_grown rfl hr₃
        refine served_getRolloutConfig.bind fun config t₄ _ hgrown₄ => ?_
        have hgrown := ((hgrown₁.trans hgrown₂).trans hgrown₃).trans hgrown₄
        cases config with
        | error err => exact served_pure trivial
        | ok config =>
            obtain ⟨v, testFarms⟩ := config
            dsimp only
            split
            · exact served_pure trivial
            · have hfirst₄ : t₄.1.booted = false := by rw [hgrown.1, hfirst]
              refine (served_updateTo link (some current) hfirst₄).bind
                fun updated t₅ _ hupdated => ?_
              cases updated with
              | some err => exact served_pure trivial
              | none =>
                  obtain ⟨hgrown₅, hinstalled⟩ := hupdated
                  refine served_ask (fun hlists hzos _ pkg hpkg _ => ?_) fun r t₆ _ => ?_
                  · obtain ⟨_, packages, hlisted, hinstalled⟩ := hinstalled rfl
                    obtain rfl : packages = site.packages link := hlists _ _ _ hlisted
                    rcases hinstalled pkg hpkg fun _ => hzos with hnode | hcur
                    · exact .inr ⟨_, hnode⟩
                    · obtain ⟨cur, hcur, htag, curPkgs, hanswered, pkg', hpkg', hdest, hname⟩ :=
                        hcur
                      cases hcur
                      obtain rfl : curPkgs = site.packages current := hlists _ _ _ hanswered
                      rw [← hname]
                      obtain ⟨_, more, hlog⟩ := hgrown.trans hgrown₅
                      rw [hlog] at hlists ⊢
                      exact (hcurrent hlists.before hzos).append htag pkg' hpkg' hdest
                  · cases r with
                    | some err => exact served_pure trivial
                    | none => exact served_pure trivial

/-! ## An install, call by call -/

/-- The node and the hub, with the log of the calls. -/
def Site.running (site : Site) (u : Upgrader) (base : List String) :
    Service runSig (Logged runSig Machine) :=
  site.service.logged (Sound site u base)

omit [HubClient] in
theorem service_alone (a b : Machine) (h : site.service.others a b) : b = a := h

omit [HubClient] in
theorem reply_free {op : RunOp} (hop : op.free = true) (m : Machine) (r : op.Ret)
    (m' : Machine) (h : site.service.reply op m r m') : m' = m := by
  cases h with
  | any _ => rfl
  | _ => cases hop

omit [HubClient] in
theorem mayTouch_nothing {op : RunOp} (h : op.touches = []) (log : Log) : MayTouch log op := by
  rw [MayTouch, h]
  exact List.forall_mem_nil _

/-- An installing call and its answer. -/
theorem did_call {op : RunOp} (hinstalls : op.installs = true)
    (htouches : MayTouch s.2 op) (hfirst : s.1.booted = false) :
    (call op).Served (site.running u base) (Allow site u base) (Did (call op) s) s := by
  refine did_perform service_alone (fun _ => ?_) (reply_free ?_ s.1)
  · constructor
    · intro link heq _
      rw [heq] at hinstalls
      cases hinstalls
    · intro heq
      rw [heq] at hinstalls
      cases hinstalls
    · exact fun _ => hfirst
    · exact htouches
  · cases op <;> first | rfl | cases hinstalls

/-- A call, and what comes after it. -/
theorem did_call_bind {α : Type} {op : RunOp} {f : op.Ret → RunM α}
    (hinstalls : op.installs = true) (htouches : MayTouch s.2 op)
    (hfirst : s.1.booted = false)
    (hf : ∀ r, (f r).Served (site.running u base) (Allow site u base)
      (Did (f r) (s.1, s.2 ++ [⟨op, r⟩])) (s.1, s.2 ++ [⟨op, r⟩])) :
    (call op >>= f).Served (site.running u base) (Allow site u base)
      (Did (call op >>= f) s) s := by
  refine did_bind (did_call hinstalls htouches hfirst) fun r t ht => ?_
  obtain ⟨hkept, entries, hlog, hmade⟩ := ht
  obtain ⟨_, rest, rfl, hrest⟩ := made_perform_bind (f := pure) hmade
  obtain ⟨rfl, rfl⟩ := made_pure hrest
  have heq : t = (s.1, s.2 ++ [⟨op, r⟩]) := Prod.ext hkept hlog
  rw [heq]
  exact hf r

/-- Services that were shipped are restarted. -/
theorem did_restartAll : ∀ (names : List String) (s : Logged runSig Machine),
    s.1.booted = false →
    (∀ service ∈ names, service ∉ protectedServices ∧ Shipped s.2 service) →
    (restartAll names).Served (site.running u base) (Allow site u base)
      (Did (restartAll names) s) s := by
  intro names
  induction names with
  | nil => exact fun s _ _ => did_pure service_alone ()
  | cons name rest ih =>
      intro s hfirst hshipped
      have hname : ∀ more : Log, ∀ service ∈ [name],
          service ∉ protectedServices ∧ Shipped (s.2 ++ more) service := by
        intro more service hservice
        cases List.mem_singleton.mp hservice
        obtain ⟨hfree, hlisted⟩ := hshipped name List.mem_cons_self
        exact ⟨hfree, hlisted.append⟩
      have hforget : MayTouch s.2 (.forget name) := by
        rw [← List.append_nil s.2]
        exact hname []
      refine did_call_bind rfl hforget hfirst fun _ =>
        did_call_bind rfl (hname _) hfirst fun _ => did_call_bind rfl ?_ hfirst fun _ => ?_
      · rw [List.append_assoc]
        exact hname _
      · refine ih _ hfirst fun service hservice => ?_
        obtain ⟨hfree, hlisted⟩ := hshipped service (List.mem_cons_of_mem _ hservice)
        exact ⟨hfree, hlisted.append.append.append⟩

theorem did_ensureRestarted (services : List String) (hfirst : s.1.booted = false)
    (hshipped : ∀ service ∈ services, Shipped s.2 service) :
    (ensureRestarted services).Served (site.running u base) (Allow site u base)
      (Did (ensureRestarted services) s) s := by
  have hunprotected : ∀ service ∈ unprotected services,
      service ∉ protectedServices ∧ Shipped s.2 service := by
    intro service hservice
    obtain ⟨hmem, hfree⟩ := List.mem_filter.mp hservice
    exact ⟨by simpa using hfree, hshipped service hmem⟩
  rw [ensureRestarted]
  split
  · exact did_pure service_alone none
  · refine did_call_bind rfl hunprotected hfirst fun _ => ?_
    refine did_bind (did_restartAll _ _ hfirst fun service hservice => ?_) fun _ _ _ =>
      did_pure service_alone none
    obtain ⟨hfree, hlisted⟩ := hunprotected service hservice
    exact ⟨hfree, hlisted.append⟩

theorem did_installStore (cache : Cache) (repo name : String) (hfirst : s.1.booted = false) :
    (installStore cache repo name).Served (site.running u base) (Allow site u base)
      (Did (installStore cache repo name) s) s := by
  refine did_call_bind rfl (mayTouch_nothing rfl _) hfirst fun copied => ?_
  cases copied with
  | some err => exact did_pure service_alone _
  | none =>
      refine did_call_bind rfl (mayTouch_nothing rfl _) hfirst fun listed => ?_
      cases listed with
      | error err => exact did_pure service_alone _
      | ok services =>
          refine did_ensureRestarted services hfirst fun service hservice => ?_
          exact ⟨cache, repo, name, services, hservice, by simp, by simp⟩

theorem did_getFlist (cache : Cache) (repo name : String) (hfirst : s.1.booted = false) :
    (getFlist cache repo name).Served (site.running u base) (Allow site u base)
      (Did (getFlist cache repo name) s) s := by
  refine did_call_bind rfl (mayTouch_nothing rfl _) hfirst fun downloaded => ?_
  cases downloaded with
  | error err => exact did_pure service_alone _
  | ok _ =>
      refine did_call_bind rfl (mayTouch_nothing rfl _) hfirst fun opened => ?_
      cases opened with
      | error err => exact did_pure service_alone _
      | ok _ => exact did_pure service_alone _

theorem did_installInMemory (repo name : String) (hfirst : s.1.booted = false) :
    (installInMemory repo name).Served (site.running u base) (Allow site u base)
      (Did (installInMemory repo name) s) s := by
  refine did_call_bind rfl (mayTouch_nothing rfl _) hfirst fun created => ?_
  cases created with
  | some err => exact did_pure service_alone _
  | none =>
      refine did_bind (did_getFlist .inMemory repo name hfirst) fun got t ht => ?_
      have hfirst₁ : t.1.booted = false := by rw [ht.1, hfirst]
      cases got with
      | error err =>
          exact did_call_bind rfl (mayTouch_nothing rfl _) hfirst₁ fun _ =>
            did_pure service_alone _
      | ok _ =>
          refine did_bind (did_installStore .inMemory repo name hfirst₁) fun err v hv => ?_
          have hfirst₂ : v.1.booted = false := by rw [hv.1, hfirst₁]
          exact did_call_bind rfl (mayTouch_nothing rfl _) hfirst₂ fun _ =>
            did_call_bind rfl (mayTouch_nothing rfl _) hfirst₂ fun _ =>
              did_pure service_alone _

theorem did_install (repo name : String) (hfirst : s.1.booted = false) :
    (install repo name).Served (site.running u base) (Allow site u base)
      (Did (install repo name) s) s := by
  refine did_bind (did_getFlist .disk repo name hfirst) fun got t ht => ?_
  have hfirst₁ : t.1.booted = false := by rw [ht.1, hfirst]
  cases got with
  | error err =>
      dsimp only
      split
      · exact did_installInMemory repo name hfirst₁
      · exact did_pure service_alone _
  | ok _ =>
      refine did_bind (did_installStore .disk repo name hfirst₁) fun err v hv => ?_
      have hfirst₂ : v.1.booted = false := by rw [hv.1, hfirst₁]
      exact did_call_bind rfl (mayTouch_nothing rfl _) hfirst₂ fun _ =>
        did_pure service_alone _

/-! ## The process -/

/-- The calls that are always allowed. -/
def RunOp.plain : RunOp → Bool
  | .ask (.bootSet _) | .markBooted => false
  | op => !op.installs

theorem Allow.of_plain {op : RunOp} (hop : op.plain = true) : Allow site u base op s := by
  constructor
  · intro link heq
    rw [heq] at hop
    cases hop
  · intro heq
    rw [heq] at hop
    cases hop
  · have hno : op.installs = false := by cases op <;> first | rfl | cases hop
    intro hinstalls
    rw [hno] at hinstalls
    cases hinstalls
  · refine mayTouch_nothing ?_ s.2
    cases op <;> first | rfl | cases hop

/-- A call of an update does as a program what is said of it as a call. -/
theorem served_calls (op : Op) (hsound : Sound site u base s)
    (hallow : AllowUp site u base op s) :
    (calls op).Served (site.running u base) (Allow site u base)
      (fun r t => site.upgradeReply op s r t) s := by
  have hasked : ∀ {op : Op}, Allow site u base (.ask op) s →
      (call (.ask op)).Served (site.running u base) (Allow site u base)
        (fun r t => site.Reply (.ask op) s.1 r t.1 ∧ t.2 = s.2 ++ [⟨.ask op, r⟩]) s := by
    intro op hallow t ht _
    obtain rfl := alone service_alone ht
    refine ⟨hallow, fun r t' hr v hv _ => ?_⟩
    obtain rfl := alone service_alone hv
    exact hr
  cases op with
  | install pkg repo name => exact did_install repo name hallow
  | bootSet link =>
      refine hasked ⟨fun link' heq => ?_, fun heq => (by cases heq), fun hno => (by cases hno),
        ?_⟩
      · cases heq
        exact hallow
      · exact mayTouch_nothing rfl _
  | _ => exact hasked (.of_plain rfl)

/-- What is shown of a program of such calls holds where they are programs. -/
theorem Served.upgrading {α : Type} {p : UpgradeM α} {Q : α → Logged runSig Machine → Prop}
    (h : p.Served (site.upgrading u base) (AllowUp site u base) Q s) :
    (p.implement calls).Served (site.running u base) (Allow site u base) Q s :=
  h.implement (fun ht => alone service_alone ht) id fun op _ => served_calls op

theorem served_runBootstrap (hzero : (HubClient.tagDestination zeroLink).err ≠ none)
    (hmethod : site.method = .bootstrap) (turns : Nat) : ∀ s : Logged runSig Machine,
    (runBootstrap u turns).Served (site.running u base) (Allow site u base)
      (fun _ _ => True) s := by
  induction turns with
  | zero => exact fun s _ _ _ => trivial
  | succ turns ih =>
      intro s
      refine (Served.upgrading (served_update hzero hmethod)).bind fun r t _ _ => ?_
      split
      · exact fun _ _ _ => trivial
      · exact ih t

/-- The mark is set when there is a reason to. -/
theorem served_mark (h : site.method = .other ∧ ∃ link, Fetched u s.2 link) :
    mark.Served (site.running u base) (Allow site u base) (fun _ _ => True) s := by
  intro t ht _
  obtain rfl := alone service_alone ht
  refine ⟨⟨fun _ heq => (by cases heq), fun _ => h, fun hno => (by cases hno), ?_⟩,
    fun r t' _ => ?_⟩
  · exact mayTouch_nothing rfl _
  · cases r <;> exact fun _ _ _ => trivial

theorem served_installOnce (hfirst : s.1.booted = false) :
    (installOnce u).Served (site.running u base) (Allow site u base)
      (fun r t => r = none → ∃ link, Fetched u t.2 link) s := by
  refine (Served.upgrading served_remote).bind fun found t _ hfound => ?_
  obtain ⟨hgrown, hanswered⟩ := hfound
  cases found with
  | error err =>
      intro _ _ _ hnone
      cases hnone
  | ok link =>
      have hfirst₁ : t.1.booted = false := by rw [hgrown.1, hfirst]
      refine (Served.upgrading (served_updateTo link none hfirst₁)).bind fun r v _ hv => ?_
      cases r with
      | some err =>
          intro _ _ _ hnone
          cases hnone
      | none =>
          intro w hw _ _
          obtain rfl := alone service_alone hw
          obtain ⟨⟨_, more, hlog⟩, hinstalled⟩ := hv
          obtain ⟨htag, packages, hlisted, hinstalled⟩ := hinstalled rfl
          obtain ⟨name, hname⟩ := hanswered link rfl
          refine ⟨link, ⟨name, ?_⟩, htag, packages, hlisted, fun pkg hpkg hzos => ?_⟩
          · rw [hlog]
            exact List.mem_append_left _ hname
          · rcases hinstalled pkg hpkg hzos with hnode | ⟨cur, hcur, _⟩
            · exact hnode
            · cases hcur

theorem served_runOther (hmethod : site.method = .other) (hsound : Sound site u base s) :
    (runOther u).Served (site.running u base) (Allow site u base) (fun _ _ => True) s := by
  intro t ht _
  obtain rfl := alone service_alone ht
  refine ⟨.of_plain rfl, fun first t' hr => ?_⟩
  obtain ⟨hreply, hlog⟩ := hr
  have hkept : t'.1 = t.1 ∧ first = !t.1.booted := by
    generalize t.1 = m, t'.1 = m' at hreply
    cases hreply with
    | firstBoot => exact ⟨rfl, rfl⟩
    | any hfree => cases hfree
  obtain ⟨hkept, rfl⟩ := hkept
  cases hbooted : t.1.booted with
  | true =>
      obtain ⟨_, link, hlink⟩ := hsound.booted hbooted
      refine served_mark ⟨hmethod, link, ?_⟩
      rw [hlog]
      exact hlink.append
  | false =>
      have hfirst : t'.1.booted = false := by rw [hkept, hbooted]
      refine (served_installOnce hfirst).bind fun r v _ hv => ?_
      cases r with
      | some err => exact fun _ _ _ => trivial
      | none => exact served_mark ⟨hmethod, hv rfl⟩

/-- A process of the upgrader, however many turns it takes. -/
theorem served_run (hzero : (HubClient.tagDestination zeroLink).err ≠ none) (turns : Nat)
    (hsound : Sound site u base s) :
    (Run u turns).Served (site.running u base) (Allow site u base) (fun _ _ => True) s := by
  intro t ht _
  obtain rfl := alone service_alone ht
  have hallow : Allow site u base .detectBootMethod t := .of_plain rfl
  refine ⟨hallow, fun method t' hr => ?_⟩
  have hsound' : Sound site u base t' := sound_reply hsound hallow hr
  obtain ⟨hreply, _⟩ := hr
  have hmethod : method = site.method := by
    generalize t.1 = m, t'.1 = m' at hreply
    cases hreply with
    | method => rfl
    | any hfree => cases hfree
  cases method with
  | other => exact served_runOther hmethod.symm hsound'
  | bootstrap => exact served_runBootstrap hzero hmethod.symm turns t'

/-! ## Runs -/

/-- A node that bootstrap has set up, and no process yet. -/
structure Booted (site : Site) (u : Upgrader) (base : List String) (m : Machine) : Prop where
  complete : ∀ tag, m.tag = some tag → u.noZosUpgrade = false → Complete site base [] tag
  first : m.booted = false

theorem Booted.sound {m : Machine} (h : Booted site u base m) :
    Sound site u base (m, []) where
  complete _ := h.complete
  booted hbooted := by rw [h.first] at hbooted; cases hbooted
  marked hmem := by cases hmem
  installs := .nil
  touches := .nil

theorem run_sound (hzero : (HubClient.tagDestination zeroLink).err ≠ none)
    {m : Machine} (h : Booted site u base m)
    {c : Client runSig (Logged runSig Machine) (Option UpdateError)}
    (hrun : site.Runs u m c) : Sound site u base c.state := by
  have hkeeps : Client.Keeps (site.running u base) (Allow site u base) := by
    refine ⟨fun op s r s' hsound hallow hr => sound_reply hsound hallow hr, ?_⟩
    intro s s' hsound hothers
    rw [alone service_alone hothers]
    exact hsound
  have hrelogged := @Client.run_relog _ _ _ _ _ (Sound site u base) _ _ _ hrun
  refine (Client.run_holds hkeeps (Q := fun _ _ => True) ?_ (.idle h.sound) hrelogged).inv
  intro p hp s hsound
  obtain ⟨turns, rfl⟩ := hp
  exact served_run hzero turns hsound

end

/-! ## Two nodes

One was booted from the hub with the first tag, the other was not. On both the second tag
is the one to run. -/

namespace SecondTag

def program : Symlink := ⟨"program", "releases/program-2.flist"⟩

def zos : Symlink := ⟨"zos.flist", "releases/zos-2.flist"⟩

def site (method : BootMethod) : Site where
  method := method
  listing _ tag :=
    if tag = "v2" then [program, zos] else [⟨"program", "releases/program-1.flist"⟩]

def fresh : Machine := ⟨some ⟨"development", "tf-zos/tags/v1"⟩, false⟩

/-- Nothing fails, but for the cache on the disk. -/
def answer (method : BootMethod) : (op : RunOp) → Machine → op.Ret × Machine
  | .ask .bootCurrent, m =>
      match m.tag with
      | some tag => ((tag, none), m)
      | none => ((⟨"", ""⟩, some (.text "no tag")), m)
  | .ask .bootRunMode, m => ("development", m)
  | .ask (.bootSet link), m => (none, { m with tag := some link })
  | .ask .kernelParams, m => (⟨none⟩, m)
  | .ask (.hubFind _), m => (.ok [nextTag], m)
  | .ask (.hubListTag repo tag), m => (.ok ((site method).listing repo tag), m)
  | .ask .environment, m => (⟨.runningDev, 1⟩, m)
  | .ask .environmentConfig, m => (.ok [], m)
  | .ask .getZosVersion, m => (.ok ⟨"v2", true⟩, m)
  | .ask (.install _ _ _), m => (none, m)
  | .detectBootMethod, m => (method, m)
  | .isFirstBoot, m => (!m.booted, m)
  | .markBooted, m => (none, { m with booted := true })
  | .hubDownload .disk _ _, m => (.error ⟨.text "read-only file system", true⟩, m)
  | .hubDownload .inMemory _ _, m => (.ok (), m)
  | .newStore _ _ _, m => (.ok (), m)
  | .newInMemoryCache, m => (none, m)
  | .copyRecursive _ _ _, m => (none, m)
  | .servicesFromStore _ _ _, m => (.ok ["redis", "program"], m)
  | .stopMultiple _, m | .forget _, m | .monitor _, m | .start _, m => (none, m)
  | .clean, m | .closeStore, m => ((), m)

theorem answered (method : BootMethod) (op : RunOp) (m : Machine) :
    (site method).Reply op m (answer method op m).1 (answer method op m).2 := by
  cases op with
  | ask op =>
      cases op with
      | bootCurrent =>
          obtain ⟨tag, booted⟩ := m
          cases tag with
          | none => exact .unread
          | some tag => exact .current rfl
      | bootSet link => exact .set
      | _ => exact .any rfl
  | detectBootMethod => exact .method
  | isFirstBoot => exact .firstBoot
  | markBooted => exact .marked
  | hubDownload cache repo name => cases cache <;> exact .any rfl
  | _ => exact .any rfl

/-- The first process, run to its end. -/
def finish (method : BootMethod) :
    Client runSig (Logged runSig Machine) (Option UpdateError) :=
  letI := twoTags
  let r := (Run ⟨false⟩ 1).run (logging (answer method)) (fresh, [])
  ⟨r.2, some (.ret r.1)⟩

theorem runs (method : BootMethod) :
    letI := twoTags
    (site method).Runs ⟨false⟩ fresh (finish method) := by
  let := twoTags
  refine .head (.start ⟨1, rfl⟩ rfl) (@Client.run_of_handler runSig _ _ _ _ _ ?_ _ _)
  exact fun op s => ⟨answered method op s.1, rfl⟩

theorem booted (method : BootMethod) :
    letI := twoTags
    Booted (site method) ⟨false⟩ ["program-1.flist"] fresh := by
  let := twoTags
  refine ⟨fun tag htag _ _ pkg hpkg _ => ?_, rfl⟩
  cases htag
  have hlisted : (site method).packages ⟨"development", "tf-zos/tags/v1"⟩ =
      [⟨"program", "releases/program-1.flist"⟩] := rfl
  rw [hlisted] at hpkg
  cases List.mem_singleton.mp hpkg
  exact .inl (by decide +kernel)

/-- Whether a call is answered with what is listed. -/
def asListed (site : Site) : Call → Bool
  | ⟨.ask (.hubListTag repo tag), .ok packages⟩ => packages = site.listing repo tag
  | _ => true

theorem lists :
    letI := twoTags
    (site .bootstrap).Lists (finish .bootstrap).state.2 := by
  let := twoTags
  have hall : (finish .bootstrap).state.2.all (asListed (site .bootstrap)) = true := by
    decide +kernel
  intro repo tag packages hmem
  simpa [asListed] using List.all_eq_true.mp hall _ hmem

end SecondTag

section

variable [HubClient] {site : Site} {u : Upgrader} {base : List String} {m : Machine}
  {c : Client runSig (Logged runSig Machine) (Option UpdateError)}

/-- Whatever fails and wherever the processes are killed, the packages of the tag a node
says it runs are on the node, by their names, as long as what is listed under a tag stays
the same. -/
theorem boot_tag_on_node (hzero : (HubClient.tagDestination zeroLink).err ≠ none)
    (hzos : u.noZosUpgrade = false) (h : Booted site u base m)
    (hrun : site.Runs u m c) (hlists : site.Lists c.state.2)
    {tag : TagLink} (htag : c.state.1.tag = some tag)
    (hresolved : (HubClient.tagDestination tag).err = none) {pkg : Symlink}
    (hpkg : pkg ∈ site.packages tag) (hdest : (destOf tag pkg).err = none) :
    (destOf tag pkg).name ∈ base ∨ ∃ repo, OnNode c.state.2 repo (destOf tag pkg).name := by
  have hsound := run_sound hzero h hrun
  exact hsound.complete hlists tag htag hzos hresolved pkg hpkg hdest

end

open SecondTag in
theorem boot_tag_on_node_second :
    letI := twoTags
    (destOf nextTag zos).name ∈ ["program-1.flist"] ∨
      ∃ repo, OnNode (finish .bootstrap).state.2 repo (destOf nextTag zos).name :=
  letI := twoTags
  boot_tag_on_node (by decide +kernel) rfl (booted .bootstrap) (runs .bootstrap) lists
    (by decide +kernel) (by decide +kernel) (by decide +kernel) (by decide +kernel)

section

variable [HubClient] {site : Site} {u : Upgrader} {base : List String} {m : Machine}
  {c : Client runSig (Logged runSig Machine) (Option UpdateError)}

/-- A node that is marked as booted was not booted from the hub, everything of one tag the
hub has answered with, as it was listed then, is on it, and nothing is installed after a
mark. -/
theorem booted_on_node (hzero : (HubClient.tagDestination zeroLink).err ≠ none)
    (h : Booted site u base m)
    (hrun : site.Runs u m c) :
    (c.state.1.booted = true →
      site.method = .other ∧ ∃ link, Fetched u c.state.2 link) ∧
    ∀ before after entry, c.state.2 = before ++ entry :: after →
      (⟨.markBooted, none⟩ : Call) ∈ before → entry.1.installs = false := by
  have hsound := run_sound hzero h hrun
  refine ⟨hsound.booted, fun before after entry hlog hmark => ?_⟩
  have hunmarked := hsound.installs before entry after hlog
  cases hinstalls : entry.1.installs with
  | false => rfl
  | true => exact absurd hmark (hunmarked hinstalls)

end

open SecondTag in
theorem booted_on_node_second :
    letI := twoTags
    ((finish .other).state.1.booted = true → (site .other).method = .other ∧
      ∃ link, Fetched ⟨false⟩ (finish .other).state.2 link) ∧
    ∀ before after entry, (finish .other).state.2 = before ++ entry :: after →
      (⟨.markBooted, none⟩ : Call) ∈ before → entry.1.installs = false :=
  letI := twoTags
  booted_on_node (by decide +kernel) (booted .other) (runs .other)

section

variable [HubClient] {site : Site} {u : Upgrader} {base : List String} {m : Machine}
  {c : Client runSig (Logged runSig Machine) (Option UpdateError)}

/-- A service is stopped or started only after a package it is listed in was copied, and
the protected ones never are. -/
theorem restarts_shipped (hzero : (HubClient.tagDestination zeroLink).err ≠ none)
    (h : Booted site u base m)
    (hrun : site.Runs u m c)
    {before after : Log} {entry : Call} (hlog : c.state.2 = before ++ entry :: after)
    {service : String} (hservice : service ∈ entry.1.touches) :
    service ∉ protectedServices ∧ Shipped before service :=
  (run_sound hzero h hrun).touches before entry after hlog service hservice

end

open SecondTag in
/-- The first package is copied from memory, and `redis` is left alone. -/
theorem restarts_shipped_second :
    letI := twoTags
    "program" ∉ protectedServices ∧
      Shipped ((finish .bootstrap).state.2.take 16) "program" := by
  let := twoTags
  have hstop : ((finish .bootstrap).state.2.map fun entry => entry.1.touches)[16]? =
      some ["program"] := by decide +kernel
  rw [List.getElem?_map, Option.map_eq_some_iff] at hstop
  obtain ⟨entry, hentry, htouches⟩ := hstop
  obtain ⟨hlength, rfl⟩ := List.getElem?_eq_some_iff.mp hentry
  have hlog : (finish .bootstrap).state.2 = (finish .bootstrap).state.2.take 16 ++
      (finish .bootstrap).state.2[16] :: (finish .bootstrap).state.2.drop 17 := by
    rw [← List.drop_eq_getElem_cons hlength, List.take_append_drop]
  exact restarts_shipped (by decide +kernel) (booted .bootstrap) (runs .bootstrap) hlog
    (by rw [htouches]; exact List.mem_singleton_self _)

end Zos4.Upgrade
