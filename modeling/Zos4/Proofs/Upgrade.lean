import Zos4.Upgrade.Upgrader

/-!
# What an upgrade installs, and in which order

`updateTo` goes over the packages of the remote tag once. It leaves out those
whose name a package of the current tag resolves to, installs the others as
they come, except `zos.flist`, and installs that one when the loop is through.
The first failing install ends it. So the installs of a run are an initial
part of a fixed plan (`Surroundings.plan`), all of them successful but possibly
the last, and everything that is true of the order follows from what holds of
the log when an event is appended to it (`Ordered`).

The first result puts the four promises of `update` together: zos goes last,
the boot record moves only after the whole plan, nothing is installed before
the rollout has reached the node, and a run that does not end in
`ErrRestartNeeded` leaves the record alone.

The second one is about where `updateTo` leads. A package whose name is among
the current names is passed over, and the name is all that is compared: the
same name in another repo is a package that is never installed, and the same
goes for a link that does not resolve. Apart from these the upgrade converges.
-/

namespace Zos4.Upgrade

open Zos4.Interaction Prog

/-! ## Logs -/

/-- Every event of the log satisfies `ok` after the events before it. -/
def Ordered {E : Type} (ok : List E → E → Prop) (log : List E) : Prop :=
  ∀ before ev after, log = before ++ ev :: after → ok before ev

section

variable {E : Type} {ok : List E → E → Prop} {log : List E}

theorem Ordered.nil : Ordered ok [] := by
  intro before ev after h
  simp at h

/-- The log grows at its end. -/
theorem Ordered.append {more : List E} (h : Ordered ok log)
    (hmore : ∀ before ev after, more = before ++ ev :: after →
      ok (log ++ before) ev) : Ordered ok (log ++ more) := by
  intro before ev after heq
  rw [List.append_eq_append_iff] at heq
  rcases heq with ⟨mid, rfl, hmid⟩ | ⟨mid, rfl, hmid⟩
  · exact hmore mid ev after hmid
  · cases mid with
    | nil => simpa using hmore [] ev after (by simpa using hmid.symm)
    | cons e mid =>
        obtain ⟨rfl, rfl⟩ : ev = e ∧ after = mid ++ more := by simpa using hmid
        exact h before ev mid rfl

end

/-! ## One install -/

/-- What a stretch of a run that only installs does to the node. -/
structure Ran (n n' : Node) (new : List Event) : Prop where
  tag : n'.tag = n.tag
  log : n'.log = n.log ++ new
  installed : ∀ d, d ∈ n'.installed ↔
    d ∈ n.installed ∨ ∃ pkg, .installed pkg d.1 d.2 true ∈ new

theorem Ran.refl (n : Node) : Ran n n [] where
  tag := rfl
  log := by simp
  installed := by simp

theorem Ran.trans {n₁ n₂ n₃ : Node} {new new' : List Event} (h : Ran n₁ n₂ new)
    (h' : Ran n₂ n₃ new') : Ran n₁ n₃ (new ++ new') where
  tag := h'.tag.trans h.tag
  log := by rw [h'.log, h.log, List.append_assoc]
  installed d := by
    rw [h'.installed, h.installed]
    simp only [List.mem_append, exists_or, or_assoc]

theorem ran_tried (n : Node) (pkg : Symlink) (repo name : String)
    (err : Option GoError) :
    Ran n (n.tried pkg repo name err) [.installed pkg repo name err.isNone] := by
  cases err with
  | some err => constructor <;> simp [Node.tried]
  | none =>
      constructor
      · rfl
      · rfl
      · rintro ⟨repo', name'⟩
        simp [Node.tried, eq_comm, or_comm]

variable [HubClient] {env : Surroundings} {u : Upgrader}

/-! ## The plan -/

/-- The packages of a tag, none when it can not be listed. -/
def Surroundings.packages (env : Surroundings) (link : TagLink) : List Symlink :=
  let dest := HubClient.tagDestination link
  match env.listTag dest.repo dest.name with
  | .ok packages => packages
  | .error _ => []

/-- The names that are passed over. -/
def Surroundings.currentNames (env : Surroundings) :
    Option TagLink → List String
  | none => []
  | some current =>
      curNames (HubClient.tagDestination current).repo (env.packages current)

/-- The packages that are not passed over, with their destinations. -/
def planned (names : List String) (repo : String) (packages : List Symlink) :
    List (Symlink × Resolved) :=
  (packages.map fun pkg => (pkg, HubClient.destination pkg repo)).filter
    fun entry => entry.2.name ∉ names

/-- The event of a successful install. -/
def done (entry : Symlink × Resolved) : Event :=
  .installed entry.1 entry.2.repo entry.2.name true

theorem planned_cons {names : List String} {repo : String} {pkg : Symlink}
    {rest : List Symlink} :
    planned names repo (pkg :: rest) =
      if (HubClient.destination pkg repo).name ∈ names then planned names repo rest
      else (pkg, HubClient.destination pkg repo) :: planned names repo rest := by
  simp only [planned, List.map_cons, List.filter_cons]
  split <;> simp_all

/-! ## The loops -/

variable (env) in
/-- The loop over the packages: it installs what is planned, leaves `zos.flist`
for later, and where it gets through it has installed all of it. -/
theorem run_installPackages (names : List String) (repo : String)
    (pkgs : List Symlink) (later : List (Symlink × Resolved)) (n : Node)
    {r : Except GoError (List (Symlink × Resolved)) × Node}
    (hr : r = (installPackages names repo pkgs later).run (answer env) n) :
    ∃ new, Ran n r.2 new ∧
      (∀ ev ∈ new, ∃ entry ∈ planned names repo pkgs, ∃ ok,
        entry.1.name ≠ zosPackage ∧
        ev = .installed entry.1 entry.2.repo entry.2.name ok) ∧
      ∀ later', r.1 = .ok later' →
        later' = later ++
          ((planned names repo pkgs).filter fun entry => entry.1.name = zosPackage) ∧
        ∀ entry ∈ planned names repo pkgs, entry.1.name ≠ zosPackage →
          entry.2.err = none ∧ done entry ∈ new := by
  induction pkgs generalizing later n with
  | nil =>
      subst hr
      refine ⟨[], Ran.refl n, by simp, ?_⟩
      intro later' h
      simp only [installPackages, run_pure, Except.ok.injEq] at h
      simp [planned, h]
  | cons pkg rest ih =>
      rw [installPackages] at hr
      rw [planned_cons]
      split at hr
      next hskip =>
        rw [if_pos hskip]
        exact ih later n hr
      next hskip =>
        rw [if_neg hskip]
        split at hr
        next hzos =>
          obtain ⟨new, hran, honly, hdone⟩ := ih _ n hr
          refine ⟨new, hran, ?_, ?_⟩
          · intro ev hev
            obtain ⟨entry, hentry, hrest⟩ := honly ev hev
            exact ⟨entry, List.mem_cons_of_mem _ hentry, hrest⟩
          · intro later' h
            obtain ⟨hlater, hall⟩ := hdone later' h
            refine ⟨by simp [hlater, hzos], ?_⟩
            intro entry hentry hne
            rcases List.mem_cons.1 hentry with rfl | hentry
            · exact absurd hzos hne
            · exact hall entry hentry hne
        next hzos =>
          split at hr
          next err herr =>
            subst hr
            refine ⟨[], Ran.refl n, by simp, ?_⟩
            intro later' h
            simp at h
          next herr =>
            have hone := ran_tried n pkg (HubClient.destination pkg repo).repo
              (HubClient.destination pkg repo).name (env.install n.log.length)
            simp only [ask, perform, call_bind, ret_bind, run_call, answer] at hr
            cases hfail : env.install n.log.length with
            | some err =>
                rw [hfail] at hr hone
                subst hr
                refine ⟨_, hone, ?_, ?_⟩
                · intro ev hev
                  exact ⟨_, List.mem_cons_self .., _, hzos, List.mem_singleton.1 hev⟩
                · intro later' h
                  simp at h
            | none =>
                rw [hfail] at hr hone
                obtain ⟨new, hran, honly, hdone⟩ := ih later _ hr
                refine ⟨_, hone.trans hran, ?_, ?_⟩
                · intro ev hev
                  rcases List.mem_append.1 hev with hev | hev
                  · exact ⟨_, List.mem_cons_self .., _, hzos,
                      List.mem_singleton.1 hev⟩
                  · obtain ⟨entry, hentry, hrest⟩ := honly ev hev
                    exact ⟨entry, List.mem_cons_of_mem _ hentry, hrest⟩
                · intro later' h
                  obtain ⟨hlater, hall⟩ := hdone later' h
                  refine ⟨by simp [hlater, hzos], ?_⟩
                  intro entry hentry hne
                  rcases List.mem_cons.1 hentry with rfl | hentry
                  · exact ⟨herr, by simp [done]⟩
                  · obtain ⟨hok, hmem⟩ := hall entry hentry hne
                    exact ⟨hok, List.mem_append_right _ hmem⟩

omit [HubClient] in
/-- The packages scheduled for later. -/
theorem run_installLater (later : List (Symlink × Resolved)) (n : Node)
    {r : Option GoError × Node}
    (hr : r = (installLater later).run (answer env) n) :
    ∃ new, Ran n r.2 new ∧
      (∀ ev ∈ new, ∃ entry ∈ later, ∃ ok,
        ev = .installed entry.1 entry.2.repo entry.2.name ok) ∧
      (r.1 = none → ∀ entry ∈ later, done entry ∈ new) := by
  induction later generalizing n with
  | nil =>
      subst hr
      exact ⟨[], Ran.refl n, by simp, by simp⟩
  | cons entry rest ih =>
      have hone := ran_tried n entry.1 entry.2.repo entry.2.name
        (env.install n.log.length)
      simp only [installLater, ask, perform, call_bind, ret_bind, run_call,
        answer] at hr
      cases hfail : env.install n.log.length with
      | some err =>
          rw [hfail] at hr hone
          subst hr
          refine ⟨_, hone, ?_, ?_⟩
          · intro ev hev
            exact ⟨entry, by simp, _, List.mem_singleton.1 hev⟩
          · intro h
            simp at h
      | none =>
          rw [hfail] at hr hone
          obtain ⟨new, hran, honly, hdone⟩ := ih _ hr
          refine ⟨_, hone.trans hran, ?_, ?_⟩
          · intro ev hev
            rcases List.mem_append.1 hev with hev | hev
            · exact ⟨entry, by simp, _, List.mem_singleton.1 hev⟩
            · obtain ⟨e, he, hrest⟩ := honly ev hev
              exact ⟨e, List.mem_cons_of_mem _ he, hrest⟩
          · intro h e he
            rcases List.mem_cons.1 he with rfl | he
            · simp [done]
            · exact List.mem_append_right _ (hdone h e he)

variable (env) in
/-- Finding out the current names changes nothing. -/
theorem run_curPkgsNames (current : Option TagLink) (n : Node) :
    ∃ res, (curPkgsNames current).run (answer env) n = (res, n) ∧
      ∀ names, res = .ok names → names = env.currentNames current := by
  cases current with
  | none =>
      refine ⟨_, rfl, ?_⟩
      intro names h
      exact (Except.ok.inj h).symm
  | some link =>
      simp only [curPkgsNames]
      split
      next err herr =>
        refine ⟨_, rfl, ?_⟩
        intro names h
        cases h
      next herr =>
        simp only [ask, perform, call_bind, ret_bind, run_call, answer,
          Surroundings.currentNames, Surroundings.packages]
        split
        next err hlist =>
          refine ⟨_, rfl, ?_⟩
          intro names h
          cases h
        next curPkgs hlist =>
          refine ⟨_, rfl, ?_⟩
          intro names h
          rw [hlist]
          exact (Except.ok.inj h).symm

/-! ## One upgrade -/

/-- The plan of `updateTo`. -/
def Surroundings.planTo (env : Surroundings) (link : TagLink)
    (current : Option TagLink) : List (Symlink × Resolved) :=
  planned (env.currentNames current) (HubClient.tagDestination link).repo
    (env.packages link)

/-- An event that `plan` allows for: the install of one of its packages, and if
that is `zos.flist`, after all the others. -/
def Follows (plan : List (Symlink × Resolved)) (before : List Event) (ev : Event) :
    Prop :=
  ∃ entry ∈ plan, ∃ ok, ev = .installed entry.1 entry.2.repo entry.2.name ok ∧
    (entry.1.name = zosPackage →
      ∀ other ∈ plan, other.1.name ≠ zosPackage → done other ∈ before)

variable (env) in
theorem run_updateTo (u : Upgrader) (link : TagLink) (current : Option TagLink)
    (n : Node) {r : Option GoError × Node}
    (hr : r = (updateTo u link current).run (answer env) n) :
    ∃ new, Ran n r.2 new ∧ Ordered (Follows (env.planTo link current)) new ∧
      (r.1 = none → ∀ entry ∈ env.planTo link current,
        ((entry.1.name = zosPackage → u.noZosUpgrade = false) → done entry ∈ new) ∧
        (entry.1.name ≠ zosPackage → entry.2.err = none)) := by
  -- a run that fails before the loop
  have hearly : ∀ err : GoError, r = (some err, n) → ∃ new, Ran n r.2 new ∧
      Ordered (Follows (env.planTo link current)) new ∧
      (r.1 = none → ∀ entry ∈ env.planTo link current,
        ((entry.1.name = zosPackage → u.noZosUpgrade = false) → done entry ∈ new) ∧
        (entry.1.name ≠ zosPackage → entry.2.err = none)) := by
    intro err heq
    subst heq
    refine ⟨[], Ran.refl n, Ordered.nil, ?_⟩
    intro h
    cases h
  simp only [updateTo] at hr
  split at hr
  next err herr => exact hearly _ hr
  next herr =>
    simp only [ask, perform, call_bind, ret_bind, run_call, answer] at hr
    split at hr
    next err hlist => exact hearly _ hr
    next packages hlist =>
      have hpackages : env.packages link = packages := by
        simp [Surroundings.packages, hlist]
      obtain ⟨res, hres, hnames⟩ := run_curPkgsNames env current n
      rw [run_bind, hres] at hr
      cases res with
      | error err => exact hearly _ hr
      | ok names =>
          have hplan : env.planTo link current =
              planned names (HubClient.tagDestination link).repo packages := by
            rw [Surroundings.planTo, hpackages, ← hnames names rfl]
          obtain ⟨new, hran, honly, hdone⟩ := run_installPackages env names
            (HubClient.tagDestination link).repo packages [] n rfl
          have hfollows : Ordered (Follows (env.planTo link current)) new := by
            intro before ev after heq
            obtain ⟨entry, hentry, ok, hne, hev⟩ := honly ev (by simp [heq])
            exact ⟨entry, by rwa [hplan], ok, hev, fun h => absurd h hne⟩
          dsimp only at hr
          rw [run_bind] at hr
          cases hloop : ((installPackages names (HubClient.tagDestination link).repo
              packages []).run (answer env) n).1 with
          | error err =>
              rw [hloop] at hr
              subst hr
              refine ⟨new, hran, hfollows, ?_⟩
              intro h
              cases h
          | ok later =>
              rw [hloop] at hr
              obtain ⟨hlater, hall⟩ := hdone later hloop
              rw [List.nil_append] at hlater
              dsimp only at hr
              split at hr
              next hzos =>
                subst hr
                refine ⟨new, hran, hfollows, ?_⟩
                intro _ entry hentry
                rw [hplan] at hentry
                refine ⟨fun hno => ?_, fun hne => (hall entry hentry hne).1⟩
                apply (hall entry hentry _).2
                intro heq
                rw [hno heq] at hzos
                cases hzos
              next hzos =>
                obtain ⟨new', hran', honly', hdone'⟩ := run_installLater later _ hr
                refine ⟨new ++ new', hran.trans hran', ?_, ?_⟩
                · apply hfollows.append
                  intro before ev after heq
                  obtain ⟨entry, hentry, ok, hev⟩ := honly' ev (by simp [heq])
                  rw [hlater, List.mem_filter] at hentry
                  rw [hplan]
                  refine ⟨entry, hentry.1, ok, hev, ?_⟩
                  intro _ other hother hne
                  exact List.mem_append_left _ (hall other hother hne).2
                · intro h entry hentry
                  rw [hplan] at hentry
                  refine ⟨fun _ => ?_, fun hne => (hall entry hentry hne).1⟩
                  by_cases heq : entry.1.name = zosPackage
                  · apply List.mem_append_right
                    apply hdone' h
                    rw [hlater, List.mem_filter]
                    exact ⟨hentry, by simpa using heq⟩
                  · exact List.mem_append_left _ (hall entry hentry heq).2

/-! ## One update -/

/-- The tag the hub has for the node. -/
def Surroundings.remoteTag (env : Surroundings) : Except GoError TagLink :=
  single (matchName env.bootRunMode env.kernelParams)
    (env.find (matchName env.bootRunMode env.kernelParams))

/-- The tag the node updates from. -/
def Surroundings.currentTag (env : Surroundings) (tag : TagLink) : TagLink :=
  match env.bootCurrent with
  | none => tag
  | some (link, _) => link

/-- The packages of the remote tag that are not skipped, with their
destinations. -/
def Surroundings.plan (env : Surroundings) (tag : TagLink) :
    List (Symlink × Resolved) :=
  match env.remoteTag with
  | .error _ => []
  | .ok remote => env.planTo remote (some (env.currentTag tag))

/-- What lets a node outside the dev network move to a tag: the registrar names
its version, and has marked it as safe, or else the farm is a test farm. -/
def Surroundings.Released (env : Surroundings) : Prop :=
  ∃ remote v testFarms, env.remoteTag = .ok remote ∧ env.zosVersion = .ok v ∧
    env.testFarms = .ok testFarms ∧
    lastComponent remote.target = v.version ∧
    (v.safeToUpgrade = true ∨ env.environment.farmID ∈ testFarms)

omit [HubClient] in
theorem run_remote (n : Node) :
    remote.run (answer env) n = (env.remoteTag, n) := rfl

/-- What the rollout configuration is, if it can be had. -/
def Surroundings.rollout (env : Surroundings) :
    Except GoError (ZosVersion × List UInt32) :=
  match env.testFarms with
  | .error err => .error (err.wrap "failed to get network config")
  | .ok testFarms =>
      match env.environment.runningMode with
      | .runningDev => .ok (⟨"v0.0.0", true⟩, testFarms)
      | .other _ =>
          match env.zosVersion with
          | .error err =>
              .error (err.wrap "failed to get zos version from registrar")
          | .ok v => .ok (v, testFarms)

omit [HubClient] in
theorem run_getRolloutConfig (n : Node) :
    getRolloutConfig.run (answer env) n = (env.rollout, n) := by
  simp only [getRolloutConfig, ask, perform, call_bind, ret_bind, run_call, answer,
    Surroundings.rollout]
  cases env.testFarms with
  | error err => rfl
  | ok testFarms =>
      cases env.environment.runningMode with
      | runningDev => rfl
      | other mode =>
          simp only [run_call, answer]
          cases env.zosVersion <;> rfl

omit [HubClient] in
/-- A rollout that reaches a node outside the dev network has released the
version. -/
theorem released_of_rolledOut {remote : TagLink} {v : ZosVersion}
    {testFarms : List UInt32} (hremote : env.remoteTag = .ok remote)
    (hrollout : env.rollout = .ok (v, testFarms))
    (hout : rolledOut env.environment v testFarms remote = true)
    (hdev : env.environment.runningMode ≠ .runningDev) : env.Released := by
  simp only [rolledOut, Bool.and_eq_true, Bool.or_eq_true, beq_iff_eq, hdev,
    false_or, List.contains_iff_mem] at hout
  simp only [Surroundings.rollout] at hrollout
  split at hrollout
  next err hfarms => cases hrollout
  next farms hfarms =>
    split at hrollout
    next hmode => exact absurd hmode hdev
    next mode hmode =>
      split at hrollout
      next err hv => cases hrollout
      next v' hv =>
        obtain ⟨rfl, rfl⟩ : v' = v ∧ farms = testFarms := by simpa using hrollout
        exact ⟨remote, v', farms, hremote, hv, hfarms, hout.1, hout.2⟩

/-- The four promises of `update`, of the result and the node it ends in. -/
structure Sequenced (env : Surroundings) (u : Upgrader) (tag : TagLink)
    (r : Option UpdateError × Node) : Prop where
  zos_last : ∀ before pkg repo name ok after,
    r.2.log = before ++ .installed pkg repo name ok :: after →
    pkg.name = zosPackage →
    ∀ entry ∈ env.plan tag, entry.1.name ≠ zosPackage → done entry ∈ before
  set_last : ∀ before link ok after, r.2.log = before ++ .set link ok :: after →
    env.remoteTag = .ok link ∧ ∀ entry ∈ env.plan tag,
      (entry.1.name = zosPackage → u.noZosUpgrade = false) → done entry ∈ before
  rollout : env.environment.runningMode ≠ .runningDev →
    ∀ pkg repo name ok, .installed pkg repo name ok ∈ r.2.log → env.Released
  tag_kept : r.1 ≠ some .errRestartNeeded → r.2.tag = tag ∨
    ∃ before link err, r.2.log = before ++ [.set link false] ∧
      r.1 = some (.failed err) ∧ env.bootSet = some (err, r.2.tag)

/-- A run that stops before its first install keeps them. -/
theorem Sequenced.early {tag : TagLink} {n : Node} (hlog : n.log = [])
    (htag : n.tag = tag) {err : Option UpdateError} :
    Sequenced env u tag (err, n) where
  zos_last before pkg repo name ok after h := by simp [hlog] at h
  set_last before link ok after h := by simp [hlog] at h
  rollout _ pkg repo name ok h := by simp [hlog] at h
  tag_kept _ := .inl htag

/-- The installs of a run that got as far as `updateTo`. -/
theorem Sequenced.of_follows {tag remote : TagLink} {n n' : Node} {new : List Event}
    {err : Option UpdateError} (hremote : env.remoteTag = .ok remote)
    (hlog : n.log = []) (htag : n.tag = tag) (hran : Ran n n' new)
    (hfollows : Ordered
      (Follows (env.planTo remote (some (env.currentTag tag)))) new)
    (hreleased : env.environment.runningMode ≠ .runningDev → env.Released) :
    Sequenced env u tag (err, n') := by
  have hlog' : n'.log = new := by rw [hran.log, hlog, List.nil_append]
  have hplan : env.plan tag = env.planTo remote (some (env.currentTag tag)) := by
    simp [Surroundings.plan, hremote]
  constructor
  · intro before pkg repo name ok after heq hzos entry hentry hne
    rw [hplan] at hentry
    obtain ⟨e, _, ok', hev, hothers⟩ := hfollows before _ after (hlog'.symm.trans heq)
    obtain ⟨rfl, _⟩ : pkg = e.1 ∧ _ := by simpa using hev
    exact hothers hzos entry hentry hne
  · intro before link ok after heq
    obtain ⟨e, _, ok', hev, _⟩ := hfollows before _ after (hlog'.symm.trans heq)
    cases hev
  · exact fun hdev _ _ _ _ _ => hreleased hdev
  · exact fun _ => .inl (hran.tag.trans htag)

/-- The same once the boot record has been set, or failed to be. -/
theorem Sequenced.of_set {tag remote left : TagLink} {n n' : Node}
    {new : List Event} {err : Option UpdateError} {ok : Bool}
    (hremote : env.remoteTag = .ok remote) (hlog : n.log = [])
    (hran : Ran n n' new)
    (hfollows : Ordered
      (Follows (env.planTo remote (some (env.currentTag tag)))) new)
    (hdone : ∀ entry ∈ env.planTo remote (some (env.currentTag tag)),
      (entry.1.name = zosPackage → u.noZosUpgrade = false) → done entry ∈ new)
    (hreleased : env.environment.runningMode ≠ .runningDev → env.Released)
    (herr : err = some .errRestartNeeded ∨
      ok = false ∧ ∃ e, err = some (.failed e) ∧ env.bootSet = some (e, left)) :
    Sequenced env u tag
      (err, { n' with tag := left, log := n'.log ++ [.set remote ok] }) := by
  have hlog' : n'.log = new := by rw [hran.log, hlog, List.nil_append]
  have hplan : env.plan tag = env.planTo remote (some (env.currentTag tag)) := by
    simp [Surroundings.plan, hremote]
  -- the events before the last are the installs
  have hsplit : ∀ before ev after,
      n'.log ++ [.set remote ok] = before ++ ev :: after →
      (ev = .set remote ok ∧ before = new) ∨
        Follows (env.planTo remote (some (env.currentTag tag))) before ev := by
    rw [hlog']
    refine @Ordered.append _ (fun before ev => (ev = .set remote ok ∧ before = new) ∨
      Follows (env.planTo remote (some (env.currentTag tag))) before ev) _ _ ?_ ?_
    · exact fun before ev after heq => .inr (hfollows before ev after heq)
    · intro before ev after heq
      cases before with
      | nil =>
          obtain ⟨rfl, _⟩ : Event.set remote ok = ev ∧ _ := by simpa using heq
          exact .inl ⟨rfl, by simp⟩
      | cons e before => simp at heq
  constructor
  · intro before pkg repo name ok' after heq hzos entry hentry hne
    rw [hplan] at hentry
    rcases hsplit before _ after heq with ⟨hev, _⟩ | ⟨e, _, ok', hev, hothers⟩
    · cases hev
    · obtain ⟨rfl, _⟩ : pkg = e.1 ∧ _ := by simpa using hev
      exact hothers hzos entry hentry hne
  · intro before link ok' after heq
    rcases hsplit before _ after heq with ⟨hev, rfl⟩ | ⟨e, _, ok', hev, _⟩
    · obtain ⟨rfl, _⟩ : link = remote ∧ _ := by simpa using hev
      rw [hplan]
      exact ⟨hremote, hdone⟩
    · cases hev
  · exact fun hdev _ _ _ _ _ => hreleased hdev
  · intro hne
    rcases herr with rfl | ⟨rfl, e, rfl, hset⟩
    · exact absurd rfl hne
    · exact .inr ⟨n'.log, remote, e, rfl, rfl, hset⟩

/-- Every run of `update`, whatever the hub lists, the registrar answers and
the installs come to. -/
theorem update_sequenced (env : Surroundings) (u : Upgrader) (tag : TagLink)
    (installed : List (String × String)) :
    Sequenced env u tag ((update u).run (answer env) ⟨tag, installed, []⟩) := by
  generalize hn : (⟨tag, installed, []⟩ : Node) = n
  have hlog : n.log = [] := by rw [← hn]
  have htag : n.tag = tag := by rw [← hn]
  have hcurrent : (answer env .bootCurrent n).1.1 = env.currentTag tag := by
    simp only [answer, Surroundings.currentTag, htag]
    cases env.bootCurrent <;> rfl
  have hsame : (answer env .bootCurrent n).2 = n := rfl
  simp only [update, ask, perform, call_bind, ret_bind, run_call]
  generalize (answer env .bootCurrent n).1 = read at hcurrent ⊢
  obtain ⟨current, err⟩ := read
  dsimp only at hcurrent ⊢
  subst hcurrent
  rw [hsame, run_bind, run_remote]
  cases hremote : env.remoteTag with
  | error err => exact Sequenced.early hlog htag
  | ok remote =>
      dsimp only
      split
      next hsame => exact Sequenced.early hlog htag
      next hother =>
        simp only [run_call, answer]
        rw [run_bind, run_getRolloutConfig]
        cases hrollout : env.rollout with
        | error err => exact Sequenced.early hlog htag
        | ok config =>
            obtain ⟨v, testFarms⟩ := config
            dsimp only
            cases hout : rolledOut env.environment v testFarms remote with
            | false => exact Sequenced.early hlog htag
            | true =>
                have hreleased := released_of_rolledOut hremote hrollout hout
                obtain ⟨new, hran, hfollows, hdone⟩ := run_updateTo env u
                  remote (some (env.currentTag tag)) n rfl
                dsimp only
                rw [run_bind]
                cases hto : ((updateTo u remote (some (env.currentTag tag))).run
                    (answer env) n).1 with
                | some err =>
                    exact Sequenced.of_follows hremote hlog htag hran hfollows
                      hreleased
                | none =>
                    have hall := fun entry hentry => (hdone hto entry hentry).1
                    simp only [run_call, answer]
                    cases hset : env.bootSet with
                    | none =>
                        exact Sequenced.of_set hremote hlog hran hfollows hall
                          hreleased (.inl rfl)
                    | some failure =>
                        exact Sequenced.of_set hremote hlog hran hfollows hall
                          hreleased (.inr ⟨rfl, failure.1, rfl, hset⟩)

/-! ## Where it leads -/

/-- The destination is one of the tag's, and its tree is on the node. -/
def Node.Has (n : Node) (dest : Resolved) : Prop :=
  dest.err = none ∧ (dest.repo, dest.name) ∈ n.installed

theorem mem_planned {names : List String} {repo : String}
    {packages : List Symlink} {entry : Symlink × Resolved} :
    entry ∈ planned names repo packages ↔
      entry.1 ∈ packages ∧ entry.2 = HubClient.destination entry.1 repo ∧
        entry.2.name ∉ names := by
  simp only [planned, List.mem_filter, List.mem_map, decide_eq_true_eq]
  constructor
  · rintro ⟨⟨pkg, hpkg, rfl⟩, hname⟩
    exact ⟨hpkg, rfl, hname⟩
  · rintro ⟨hpkg, hdest, hname⟩
    exact ⟨⟨entry.1, hpkg, by rw [← hdest]⟩, hname⟩

/-- When `updateTo` answers nil, a package of the remote tag is installed exactly if it
was on the node already, should it be skipped by its name, and the link of `zos.flist`
resolves. -/
theorem updateTo_has_iff (env : Surroundings) (u : Upgrader) (link : TagLink)
    (current : Option TagLink) (n : Node) (hzos : u.noZosUpgrade = false)
    (hnil : ((updateTo u link current).run (answer env) n).1 = none)
    {pkg : Symlink} (hpkg : pkg ∈ env.packages link) :
    ((updateTo u link current).run (answer env) n).2.Has
        (HubClient.destination pkg (HubClient.tagDestination link).repo) ↔
      ((HubClient.destination pkg (HubClient.tagDestination link).repo).name ∈
          env.currentNames current →
        n.Has (HubClient.destination pkg (HubClient.tagDestination link).repo)) ∧
      (pkg.name = zosPackage →
        (HubClient.destination pkg (HubClient.tagDestination link).repo).err =
          none) := by
  obtain ⟨new, hran, hfollows, hdone⟩ :=
    run_updateTo env u link current n rfl
  have hall := hdone hnil
  constructor
  · intro hconv
    obtain ⟨hok, hmem⟩ := hconv
    refine ⟨fun hskip => ⟨hok, ?_⟩, fun _ => hok⟩
    rcases (hran.installed _).1 hmem with hold | ⟨other, hnew⟩
    · exact hold
    · -- an install of this run is of a package whose name is not current
      obtain ⟨before, after, hsplit⟩ := List.append_of_mem hnew
      obtain ⟨entry, hentry, ok, hev, _⟩ := hfollows before _ after hsplit
      obtain ⟨_, _, hname, _⟩ : other = entry.1 ∧ _ ∧
        (HubClient.destination pkg (HubClient.tagDestination link).repo).name =
          entry.2.name ∧ _ := by simpa using hev
      rw [hname] at hskip
      exact absurd hskip (mem_planned.1 hentry).2.2
  · intro hcond
    obtain ⟨hskipped, hzosOk⟩ := hcond
    by_cases hname :
        (HubClient.destination pkg (HubClient.tagDestination link).repo).name ∈
          env.currentNames current
    · obtain ⟨hok, hmem⟩ := hskipped hname
      exact ⟨hok, (hran.installed _).2 (.inl hmem)⟩
    · obtain ⟨hinstalled, hok⟩ := hall (pkg, _) (mem_planned.2 ⟨hpkg, rfl, hname⟩)
      refine ⟨?_, (hran.installed _).2 (.inr ⟨pkg, hinstalled fun _ => hzos⟩)⟩
      by_cases heq : pkg.name = zosPackage
      · exact hzosOk heq
      · exact hok heq

/-- When `updateTo` answers nil, all of the remote tag is installed exactly if
the packages it skipped by their name were on the node already, and the link
of `zos.flist` resolves. -/
theorem updateTo_converges_iff (env : Surroundings) (u : Upgrader) (link : TagLink)
    (current : Option TagLink) (n : Node) (hzos : u.noZosUpgrade = false)
    (hnil : ((updateTo u link current).run (answer env) n).1 = none) :
    (∀ pkg ∈ env.packages link,
      ((updateTo u link current).run (answer env) n).2.Has
        (HubClient.destination pkg (HubClient.tagDestination link).repo)) ↔
    ∀ pkg ∈ env.packages link,
      ((HubClient.destination pkg (HubClient.tagDestination link).repo).name ∈
          env.currentNames current →
        n.Has (HubClient.destination pkg (HubClient.tagDestination link).repo)) ∧
      (pkg.name = zosPackage →
        (HubClient.destination pkg (HubClient.tagDestination link).repo).err =
          none) :=
  forall₂_congr fun _ hpkg => updateTo_has_iff env u link current n hzos hnil hpkg

/-- Targets of the form `repo/name`, or a bare name in the repo at hand. -/
def resolve (base target : String) : Resolved :=
  match (target.toList.reverse.dropWhile fun c => c != '/').drop 1 with
  | [] => ⟨base, target, if target = "" then some (.text "invalid link") else none⟩
  | dir => ⟨String.ofList dir.reverse, lastComponent target, none⟩

abbrev plainHub : HubClient where
  tagDestination link := resolve "" link.target
  destination pkg repo := resolve repo pkg.target

/-- The remote tag takes `zinit.flist` from another repo than the current one. -/
def renamedRepo : Surroundings where
  bootCurrent := none
  bootRunMode := "development"
  kernelParams := ⟨none⟩
  find _ := .ok []
  listTag _ tag :=
    if tag = "v1" then .ok [⟨"zinit", "autobuilder/zinit.flist"⟩]
    else .ok [⟨"zinit", "releases/zinit.flist"⟩]
  environment := ⟨.runningDev, 1⟩
  testFarms := .ok []
  zosVersion := .ok ⟨"v2", true⟩
  install _ := none
  bootSet := none

def renamedNode : Node :=
  ⟨⟨"development", "tf-zos/v1"⟩, [("autobuilder", "zinit.flist")], []⟩

/-- The node with the other package on it as well. -/
def Node.both (n : Node) : Node :=
  { n with installed := ("releases", "zinit.flist") :: n.installed }

omit [HubClient] in
/-- On a node that has both, the upgrade leads to the remote tag. -/
theorem updateTo_converges_both :
    letI := plainHub
    ((updateTo ⟨false⟩ ⟨"development", "tf-zos/v2"⟩
      (some ⟨"development", "tf-zos/v1"⟩)).run (answer renamedRepo)
        renamedNode.both).2.Has
          (HubClient.destination ⟨"zinit", "releases/zinit.flist"⟩ "tf-zos") :=
  letI := plainHub
  (updateTo_converges_iff renamedRepo ⟨false⟩ ⟨"development", "tf-zos/v2"⟩
    (some ⟨"development", "tf-zos/v1"⟩) renamedNode.both rfl
    (by decide +kernel)).2 (by unfold Node.Has; decide +kernel) _ (by decide +kernel)

omit [HubClient] in
/-- `updateTo` answers nil, everything of the current tag was there, and the
package of the remote tag is not installed. -/
theorem updateTo_skips_other_repo :
    letI := plainHub
    ¬ ((∀ pkg ∈ renamedRepo.packages ⟨"development", "tf-zos/v1"⟩,
          renamedNode.Has (HubClient.destination pkg "tf-zos")) →
        ((updateTo ⟨false⟩ ⟨"development", "tf-zos/v2"⟩
            (some ⟨"development", "tf-zos/v1"⟩)).run (answer renamedRepo)
              renamedNode).1 = none →
        ∀ pkg ∈ renamedRepo.packages ⟨"development", "tf-zos/v2"⟩,
          ((updateTo ⟨false⟩ ⟨"development", "tf-zos/v2"⟩
            (some ⟨"development", "tf-zos/v1"⟩)).run (answer renamedRepo)
              renamedNode).2.Has (HubClient.destination pkg "tf-zos")) := by
  unfold Node.Has
  decide +kernel

/-- So it converges whenever the links resolve and a name of the current tag
stands for one destination in both. -/
theorem updateTo_converges (env : Surroundings) (u : Upgrader)
    (link current : TagLink) (n : Node) (hzos : u.noZosUpgrade = false)
    (hnil : ((updateTo u link (some current)).run (answer env) n).1 = none)
    (hinstalled : ∀ pkg ∈ env.packages current,
      (HubClient.destination pkg (HubClient.tagDestination current).repo).err = none →
      n.Has (HubClient.destination pkg (HubClient.tagDestination current).repo))
    (hresolve : ∀ pkg ∈ env.packages link,
      (HubClient.destination pkg (HubClient.tagDestination link).repo).err = none)
    (hsame : ∀ pkg ∈ env.packages link, ∀ old ∈ env.packages current,
      (HubClient.destination old (HubClient.tagDestination current).repo).name =
        (HubClient.destination pkg (HubClient.tagDestination link).repo).name →
      (HubClient.destination old (HubClient.tagDestination current).repo).repo =
        (HubClient.destination pkg (HubClient.tagDestination link).repo).repo) :
    ∀ pkg ∈ env.packages link,
      ((updateTo u link (some current)).run (answer env) n).2.Has
        (HubClient.destination pkg (HubClient.tagDestination link).repo) := by
  intro pkg hpkg
  rw [updateTo_has_iff env u link (some current) n hzos hnil hpkg]
  refine ⟨fun hname => ⟨hresolve pkg hpkg, ?_⟩, fun _ => hresolve pkg hpkg⟩
  simp only [Surroundings.currentNames, curNames, List.mem_filterMap] at hname
  obtain ⟨old, hold, hsome⟩ := hname
  split at hsome
  next hok =>
    have hnames := Option.some.inj hsome
    rw [← hsame pkg hpkg old hold hnames, ← hnames]
    exact (hinstalled old hold hok).2
  next hbad => cases hsome

end Zos4.Upgrade
