import Zos4.Proofs.Download

/-!
# What the hub may answer

`install` takes the tag link of its run mode from one list of the hub and the packages of
the tag from another, and downloads them in turn. It takes for granted that the link has a
target of the right form, and of the packages that none is a tag: it panics otherwise. A
download that fails is tried again without an end. So `install` panics with some answers of
the hub, and with some it does not end (`install_ends_iff`).

What is known of a package, on the way from the answer to its download, is that it is what
`target_url` makes of an entry of the answer (`Answers.listed`).
-/

namespace Zos4.Bootstrap

open Zos4.Files Zos4.Interaction

/-! ## The answers -/

/-- What the hub and the work directory answer. -/
structure Answers where
  lists : List Info
  packages : List Info
  /-- The address that is in use when an entry of the packages is given its URL. -/
  hub : Nat → String
  /-- By the place of the package in the list, and the attempt. -/
  download : Nat → Nat → DownloadCalls

/-- If what is answered can be read. -/
structure Serves (calls : InstallCalls) (answers : Answers) : Prop where
  lists : ∀ url status info, calls.zos.list url = .answered status (.ok info) →
    info = answers.lists
  packages : ∀ url status info, calls.client.tags url = .answered status (.ok info) →
    info = answers.packages
  hub : ∀ name repo, Repo.new calls.client name = .ok repo → ∀ i < answers.packages.length,
    repo.get_working_hub (calls.client.health (i + 1)) = answers.hub i
  download : ∀ i, (calls.package i).download = answers.download i

def theTag (cfg : Config) (lists : List Info) : Option Info :=
  lists.find? fun list => list.kind = .tagLink ∧ list.name = listname cfg

/-- The target of a tag link names a repository and a tag. -/
def Info.links (tag : Info) : Prop :=
  ∃ target repo name, tag.target = some target ∧ split target = [repo, "tags", name]

/-- What is made of the entries of the packages. -/
def Answers.listed (answers : Answers) : List Flist :=
  answers.packages.mapIdx fun i info => target_url (answers.hub i) info

/-- The flist is no tag, its file can be opened and its URL is answered with a success and
the whole body, in one of the attempts. -/
def Downloads (download : Nat → DownloadCalls) (flist : Flist) : Prop :=
  flist.isFile ∧ ∃ j body, (download j).body flist = some body

/-- Each of the packages can be downloaded, the first of which has this place. -/
def AllDownload (download : Nat → Nat → DownloadCalls) (i : Nat) (flists : List Flist) : Prop :=
  ∀ k flist, flists[k]? = some flist → Downloads (download (i + k)) flist

/-- No tag comes before the first package that cannot be downloaded. -/
def NoTagReached (download : Nat → Nat → DownloadCalls) (flists : List Flist) : Prop :=
  ∀ before flist rest, flists = before ++ flist :: rest → AllDownload download 0 before →
    flist.isFile

theorem allDownload_cons {download : Nat → Nat → DownloadCalls} {i : Nat} {flist : Flist}
    {flists : List Flist} : AllDownload download i (flist :: flists) ↔
      Downloads (download i) flist ∧ AllDownload download (i + 1) flists := by
  constructor
  · intro h
    refine ⟨h 0 flist rfl, fun k q hq => ?_⟩
    have hk := h (k + 1) q hq
    rwa [Nat.add_right_comm]
  · rintro ⟨hfirst, hrest⟩ k q hq
    cases k with
    | zero =>
        obtain rfl := Option.some.inj hq
        exact hfirst
    | succ k =>
        have hk := hrest k q hq
        rwa [Nat.add_right_comm] at hk

/-- The first package that cannot be downloaded. -/
theorem first_lost {download : Nat → Nat → DownloadCalls} {i : Nat} {flists : List Flist}
    (h : ¬ AllDownload download i flists) : ∃ before flist rest,
      flists = before ++ flist :: rest ∧ AllDownload download i before ∧
        ¬ Downloads (download (i + before.length)) flist := by
  induction flists generalizing i with
  | nil => exact absurd (fun k flist hk => by simp at hk) h
  | cons flist flists ih =>
      by_cases hfirst : Downloads (download i) flist
      · obtain ⟨before, p, rest, rfl, hbefore, hp⟩ :=
          ih fun hrest => h (allDownload_cons.mpr ⟨hfirst, hrest⟩)
        refine ⟨flist :: before, p, rest, rfl, allDownload_cons.mpr ⟨hfirst, hbefore⟩, ?_⟩
        rwa [List.length_cons, ← Nat.succ_eq_add_one, Nat.add_succ, ← Nat.succ_add]
      · exact ⟨[], flist, flists, rfl, fun k q hk => by simp at hk, hfirst⟩

section

variable {calls : RepoCalls} {repo : Repo} {tag : String} {lists : List Info}

theorem list_infos (hserves : ∀ url status info, calls.list url = .answered status (.ok info) →
    info = lists) {flists : List Flist} (h : repo.list calls = .ok flists) :
    flists.map Flist.toInfo = lists := by
  simp only [Repo.list] at h
  split at h
  · cases h
  · next status info hlist =>
      split at h
      · cases h
      · cases info with
        | error err => cases h
        | ok info =>
            obtain rfl := hserves _ _ _ hlist
            cases h
            refine List.ext_getElem (by simp) fun i hi hi' => ?_
            simp

theorem list_tag_listed {answers : Answers} (hserves : ∀ url status info,
    calls.tags url = .answered status (.ok info) → info = answers.packages)
    (hhub : ∀ i < answers.packages.length,
      repo.get_working_hub (calls.health (i + 1)) = answers.hub i) {flists : List Flist}
    (h : repo.list_tag calls tag = .ok (some flists)) : flists = answers.listed := by
  simp only [Repo.list_tag] at h
  split at h
  · cases h
  · next status info htags =>
      split at h
      · cases info with
        | error err => cases h
        | ok info =>
            obtain rfl := hserves _ _ _ htags
            obtain rfl := Option.some.inj (Except.ok.inj h)
            refine List.ext_getElem (by simp [Answers.listed]) fun i hi hi' => ?_
            have hlt : i < answers.packages.length := by simpa [Answers.listed] using hi'
            simp [Answers.listed, hhub i hlt]
      · split at h <;> cases h

theorem find_tag_infos (cfg : Config) (flists : List Flist) :
    (find_tag cfg flists).map Flist.toInfo = theTag cfg (flists.map Flist.toInfo) := by
  rw [find_tag, theTag, List.find?_map]
  rfl

end

theorem tag_link_ok {tag : Flist} (hkind : tag.kind = .tagLink) :
    (∃ r, tag.tag_link = .ok r) ↔ tag.toInfo.links := by
  simp only [Flist.tag_link, Info.links, hkind, ne_eq, not_true_eq_false, if_false]
  cases htarget : tag.target with
  | none => simp
  | some target =>
      cases hparts : split target with
      | nil => simp [hparts]
      | cons a rest =>
          cases rest with
          | nil => simp [hparts]
          | cons b rest =>
              cases rest with
              | nil => simp [hparts]
              | cons c rest =>
                  cases rest with
                  | nil => by_cases hb : b = "tags" <;> simp [hparts, hb]
                  | cons d rest => simp [hparts]

theorem tag_link_error {tag : Flist} {stop : Stop} (h : tag.tag_link = .error stop) :
    ∃ msg, stop = .panic msg := by
  unfold Flist.tag_link at h
  split at h
  · cases h
    exact ⟨_, rfl⟩
  · split at h
    · cases h
      exact ⟨_, rfl⟩
    · split at h
      · split at h <;> cases h
        exact ⟨_, rfl⟩
      · cases h
        exact ⟨_, rfl⟩

/-- What comes after a call is done, or its error is returned. -/
theorem unwind_bind {α β : Type} (x : Except BootError α) (f : α → Except Stop β) :
    (∃ err, x = .error err ∧ (unwind x >>= f) = .error (.error err)) ∨
      ∃ a, x = .ok a ∧ (unwind x >>= f) = f a := by
  cases x with
  | error err => exact .inl ⟨err, rfl, rfl⟩
  | ok a => exact .inr ⟨a, rfl, rfl⟩

section

variable {calls : InstallCalls} {answers : Answers} {cfg : Config} {tag : Flist}

/-- The tag link is the first of the list that is one of the run mode. -/
theorem linked_spec (cfg : Config) (hserves : Serves calls answers) :
    (∃ err, linked calls cfg = .error (.error err)) ∨
      ∃ found, linked calls cfg = .ok found ∧
        theTag cfg answers.lists = found.map Flist.toInfo ∧
        ∀ tag ∈ found, tag.kind = .tagLink := by
  unfold linked
  rcases unwind_bind (Repo.new calls.zos "tf-zos") _ with ⟨err, -, h⟩ | ⟨repo, -, h⟩ <;> rw [h]
  · exact .inl ⟨err, rfl⟩
  rcases unwind_bind (repo.list calls.zos) _ with ⟨err, -, h⟩ | ⟨flists, hlist, h⟩ <;> rw [h]
  · exact .inl ⟨err, rfl⟩
  have hfound := find_tag_infos cfg flists
  rw [list_infos hserves.lists hlist] at hfound
  refine .inr ⟨find_tag cfg flists, rfl, hfound.symm, fun tag htag => ?_⟩
  have hsome := List.find?_some htag
  rw [decide_eq_true_eq] at hsome
  exact hsome.1

/-- If its target names a tag, the packages are those of the answer. -/
theorem tagged_spec (hserves : Serves calls answers) (hkind : tag.kind = .tagLink) :
    (¬ tag.links ∧ ∃ msg, tagged calls tag = .error (.panic msg)) ∨
      (tag.links ∧ ((∃ err, tagged calls tag = .error (.error err)) ∨
        tagged calls tag = .ok answers.listed)) := by
  unfold tagged
  cases hlink : tag.tag_link with
  | error stop =>
      obtain ⟨msg, rfl⟩ := tag_link_error hlink
      refine .inl ⟨fun hlinks => ?_, msg, rfl⟩
      obtain ⟨r, hr⟩ := (tag_link_ok hkind).mpr hlinks
      cases hlink.symm.trans hr
  | ok r =>
      refine .inr ⟨(tag_link_ok hkind).mp ⟨r, hlink⟩, ?_⟩
      show (∃ err, (unwind (Repo.new calls.client r.1) >>= _) = _) ∨
        (unwind (Repo.new calls.client r.1) >>= _) = _
      rcases unwind_bind (Repo.new calls.client r.1) _ with ⟨err, -, h⟩ | ⟨client, hnew, h⟩ <;>
        rw [h]
      · exact .inl ⟨err, rfl⟩
      rcases unwind_bind (client.list_tag calls.client r.2) _ with
        ⟨err, -, h⟩ | ⟨flists, hlisted, h⟩ <;> rw [h]
      · exact .inl ⟨err, rfl⟩
      cases flists with
      | none => exact .inl ⟨_, rfl⟩
      | some flists =>
          obtain rfl := list_tag_listed hserves.packages (hserves.hub r.1 client hnew) hlisted
          exact .inr rfl

/-- How it goes on in the work directory, however many attempts are followed. -/
theorem install_tag_spec (hserves : Serves calls answers) (hkind : tag.kind = .tagLink)
    (w : World) :
    (∃ err w', ∀ fuel, install_tag calls fuel (some tag) w = some (.error (.error err), w')) ∨
      ∃ w', (¬ tag.links ∧ ∃ msg, ∀ fuel,
          install_tag calls fuel (some tag) w = some (.error (.panic msg), w')) ∨
        (tag.links ∧ ∀ fuel, install_tag calls fuel (some tag) w =
          install_packages calls.package fuel 0 answers.listed w') := by
  unfold install_tag
  dsimp only
  cases hwrite : tag.write calls.writeTag FLIST_TAG_FILE w.root with
  | mk r root =>
      cases r with
      | error err => exact .inl ⟨err, { w with root := root }, fun _ => rfl⟩
      | ok u =>
          rcases tagged_spec hserves hkind with ⟨hlinks, msg, h⟩ | ⟨hlinks, ⟨err, h⟩ | h⟩ <;>
            rw [h]
          · exact .inr ⟨{ w with root := root }, .inl ⟨hlinks, msg, fun _ => rfl⟩⟩
          · exact .inl ⟨err, { w with root := root }, fun _ => rfl⟩
          · exact .inr ⟨{ w with root := root }, .inr ⟨hlinks, fun _ => rfl⟩⟩

/-- How `install` goes on. When the packages are installed, the work directory is left. -/
theorem install_spec (cfg : Config) (hserves : Serves calls answers) (w : World) :
    (∃ err w', ∀ fuel, install calls fuel cfg w = some (.error (.error err), w')) ∨
      ∃ tag, theTag cfg answers.lists = some tag ∧
        ((¬ tag.links ∧ ∃ msg w', ∀ fuel,
            install calls fuel cfg w = some (.error (.panic msg), w')) ∨
          (tag.links ∧ ∃ (w' : World) (leaving : World → World), ∀ fuel,
            install calls fuel cfg w =
              (install_packages calls.package fuel 0 answers.listed w').map
                (Prod.map id leaving))) := by
  unfold install
  rcases linked_spec cfg hserves with ⟨err, h⟩ | ⟨found, h, htag, hkind⟩ <;> rw [h]
  · exact .inl ⟨err, w, fun _ => rfl⟩
  dsimp only
  rcases runIn_spec calls.workDir w with ⟨err, w', hfails⟩ | ⟨path, dir, before, -, -, hrun⟩
  · exact .inl ⟨err, w', fun _ => hfails _⟩
  simp only [hrun]
  cases found with
  | none => exact .inl ⟨_, _, fun _ => rfl⟩
  | some tag =>
      rcases install_tag_spec hserves (hkind tag rfl) ⟨fun _ => none, mountOver dir before⟩ with
        ⟨err, w', h⟩ | ⟨w', ⟨hlinks, msg, h⟩ | ⟨hlinks, h⟩⟩
      · exact .inl ⟨err, _, fun fuel => by rw [h]; rfl⟩
      · exact .inr ⟨tag.toInfo, htag, .inl ⟨hlinks, msg, _, fun fuel => by rw [h]; rfl⟩⟩
      · exact .inr ⟨tag.toInfo, htag, .inr ⟨hlinks, w',
          fun done => { w with root := drop calls.workDir path dir before done.root },
          fun fuel => by rw [h]; rfl⟩⟩

end

/-! ## A package -/

section

variable {calls : PackageCalls} {flist : Flist} {fuel fuel' : Nat} {w w' : World}
  {r : Except Stop Unit}

/-- The attempts come to one that succeeds. -/
theorem downloads_ends {download : Nat → DownloadCalls} (h : Downloads download flist)
    (workdir : String → Option Bytes) : ∃ fuel workdir',
      retryFor (downloadOnce flist download) fuel 0 workdir = some (.ok (), workdir') := by
  obtain ⟨hfile, j, body, hbody⟩ := h
  have hlast : ∀ workdir, (downloadOnce flist download j workdir).1.ended ≠ none := by
    intro workdir hagain
    cases hbody.symm.trans (downloadOnce_again hagain).2
  obtain ⟨fuel, r, workdir', hdownload⟩ := retryFor_ends (Nat.zero_le j) hlast workdir
  cases r with
  | ok u => exact ⟨fuel, workdir', hdownload⟩
  | error stop =>
      obtain ⟨_, _, -, -, hended, -⟩ := retryFor_eq_some.mp hdownload
      exact absurd hfile (downloadOnce_stopped hended).1

theorem install_package_mono (hle : fuel ≤ fuel')
    (h : install_package calls fuel flist w = some (r, w')) :
    install_package calls fuel' flist w = some (r, w') := by
  unfold install_package at h ⊢
  split at h
  · cases h
  · next hdownload => rw [retryFor_mono hle hdownload]; exact h
  · next hdownload => rw [retryFor_mono hle hdownload]; exact h

theorem mounts_not_panic {msg : String} :
    (retryTimes (mountOnce flist calls.mount) 10 0 ()).1 ≠ .error (.panic msg) := by
  obtain ⟨j, mid, -, -, -, hr⟩ :=
    retryTimes_spec (mountOnce flist calls.mount) 10 0 ()
  rw [hr]
  unfold mountOnce
  cases calls.mount j <;> simp [unwind, withContext, attempt, Attempt.last]

theorem install_mounted_not_panic {fs : Mounted} {root : Files} {msg : String} :
    (install_mounted fs root).1 ≠ .error (.panic msg) := by
  unfold install_mounted
  split
  · simp
  · split <;> simp

/-- A tag panics. Another flist has been downloaded when it ends, and then nothing panics. -/
theorem install_package_spec (h : install_package calls fuel flist w = some (r, w')) :
    (¬ flist.isFile ∧ ∃ msg, r = .error (.panic msg)) ∨
      (Downloads calls.download flist ∧ ∀ msg, r ≠ .error (.panic msg)) := by
  unfold install_package at h
  split at h
  · cases h
  · next stop workdir hdownload =>
      obtain ⟨j, mid, -, -, hended, -⟩ := retryFor_eq_some.mp hdownload
      obtain ⟨hfile, msg, rfl⟩ := downloadOnce_stopped hended
      cases h
      exact .inl ⟨hfile, msg, rfl⟩
  · next workdir hdownload =>
      obtain ⟨j, mid, -, -, hended, -⟩ := retryFor_eq_some.mp hdownload
      obtain ⟨hfile, body, hbody⟩ := downloadOnce_ok hended
      refine .inr ⟨⟨hfile, j, body, hbody⟩, fun msg => ?_⟩
      split at h
      · next hmount =>
          cases h
          intro hpanic
          cases hpanic
          exact mounts_not_panic hmount
      · have hr := (Prod.mk.inj (Option.some.inj h)).1
        exact hr ▸ install_mounted_not_panic

theorem install_package_ends (h : Downloads calls.download flist) (w : World) :
    ∃ fuel r w', install_package calls fuel flist w = some (r, w') := by
  obtain ⟨fuel, workdir, hdownload⟩ := downloads_ends h w.workdir
  cases hmount : (retryTimes (mountOnce flist calls.mount) 10 0 ()).1 with
  | error stop =>
      refine ⟨fuel, .error stop, { w with workdir := workdir }, ?_⟩
      rw [install_package, hdownload]
      dsimp only
      rw [hmount]
  | ok fs =>
      refine ⟨fuel, (install_mounted fs w.root).1, ⟨workdir, (install_mounted fs w.root).2⟩, ?_⟩
      rw [install_package, hdownload]
      dsimp only
      rw [hmount]

/-- The attempts at another one never end. -/
theorem install_package_none (hfile : flist.isFile) (h : ¬ Downloads calls.download flist) :
    install_package calls fuel flist w = none := by
  cases hrun : install_package calls fuel flist w with
  | none => rfl
  | some result =>
      rcases install_package_spec hrun with ⟨hnot, -⟩ | ⟨hdownloads, -⟩
      · exact absurd hfile hnot
      · exact absurd hdownloads h

/-- A tag panics in the first attempt. -/
theorem install_package_tag (calls : PackageCalls) (h : ¬ flist.isFile) (w : World) :
    ∃ msg w', install_package calls 1 flist w = some (.error (.panic msg), w') := by
  have hpanic : ∃ msg, (flist.download (calls.download 0) (w.workdir flist.name)).1 =
      .error (.panic msg) := by
    unfold Flist.isFile at h
    unfold Flist.download
    cases hkind : flist.kind with
    | regular | symlink => simp [hkind] at h
    | tag | tagLink => exact ⟨_, rfl⟩
  obtain ⟨msg, hpanic⟩ := hpanic
  have hdownload : ∃ workdir, retryFor (downloadOnce flist calls.download) 1 0 w.workdir =
      some (.error (.panic msg), workdir) := by
    refine ⟨_, retryFor_eq_some.mpr ⟨0, w.workdir, by omega, .refl, ?_, rfl⟩⟩
    rw [downloadOnce_attempt, hpanic]
    rfl
  obtain ⟨workdir, hdownload⟩ := hdownload
  exact ⟨msg, { w with workdir := workdir }, by rw [install_package, hdownload]⟩

end

/-! ## The packages of a tag -/

section

variable {calls : Nat → PackageCalls} {flists : List Flist} {fuel fuel' i : Nat}
  {w w' : World} {r : Except Stop Unit} {download : Nat → Nat → DownloadCalls}

theorem install_packages_mono (hle : fuel ≤ fuel')
    (h : install_packages calls fuel i flists w = some (r, w')) :
    install_packages calls fuel' i flists w = some (r, w') := by
  induction flists generalizing i w with
  | nil => exact h
  | cons flist flists ih =>
      rw [install_packages] at h ⊢
      cases hpackage : install_package (calls i) fuel flist w with
      | none =>
          rw [hpackage] at h
          cases h
      | some result =>
          obtain ⟨r', next⟩ := result
          rw [install_package_mono hle hpackage]
          rw [hpackage] at h
          cases r' with
          | error stop => exact h
          | ok u => exact ih h

/-- What panics is a tag, and all before it have been downloaded. -/
theorem install_packages_panic (hdownload : ∀ i, (calls i).download = download i) {msg : String}
    (h : install_packages calls fuel i flists w = some (.error (.panic msg), w')) :
    ∃ before flist rest, flists = before ++ flist :: rest ∧ AllDownload download i before ∧
      ¬ flist.isFile := by
  induction flists generalizing i w with
  | nil => cases h
  | cons flist flists ih =>
      rw [install_packages] at h
      cases hpackage : install_package (calls i) fuel flist w with
      | none =>
          rw [hpackage] at h
          cases h
      | some result =>
          obtain ⟨r', next⟩ := result
          rw [hpackage] at h
          rcases install_package_spec hpackage with ⟨hnot, -⟩ | ⟨hfirst, hr⟩
          · exact ⟨[], flist, flists, rfl, fun k q hk => by simp at hk, hnot⟩
          · cases r' with
            | error stop =>
                cases h
                exact absurd rfl (hr msg)
            | ok u =>
                obtain ⟨before, p, rest, rfl, hbefore, hp⟩ := ih h
                rw [hdownload] at hfirst
                exact ⟨flist :: before, p, rest, rfl,
                  allDownload_cons.mpr ⟨hfirst, hbefore⟩, hp⟩

theorem install_packages_ends (hdownload : ∀ i, (calls i).download = download i)
    (hall : AllDownload download i flists) (w : World) :
    ∃ fuel r w', install_packages calls fuel i flists w = some (r, w') := by
  induction flists generalizing i w with
  | nil => exact ⟨0, .ok (), w, rfl⟩
  | cons flist flists ih =>
      obtain ⟨hfirst, hrest⟩ := allDownload_cons.mp hall
      rw [← hdownload] at hfirst
      obtain ⟨fuel, r, next, hpackage⟩ := install_package_ends hfirst w
      cases r with
      | error stop => exact ⟨fuel, .error stop, next, by rw [install_packages, hpackage]⟩
      | ok u =>
          obtain ⟨fuel', r, w', hrest⟩ := ih hrest next
          refine ⟨max fuel fuel', r, w', ?_⟩
          rw [install_packages, install_package_mono (Nat.le_max_left fuel fuel') hpackage]
          exact install_packages_mono (Nat.le_max_right fuel fuel') hrest

end

/-! ## Where nothing else fails -/

def emptyPackage : Package Bytes where
  entries := [([], .dir)]
  nodup := by simp
  root := List.mem_cons_self
  parents := by simp

def emptyMounted : Mounted where
  tree := emptyPackage
  sys := { error := fun _ => none, through := fun _ _ => .fails }
  cuts _ := .before
  followed := { listing := .error .notFound, isFile := fun _ => false }

def okStatus : Status := ⟨200, "OK"⟩

/-- The health of one address is asked for at a time, and no other is well. -/
def workingRepo (answers : Answers) : RepoCalls where
  config := .ok ⟨.prod, .v3⟩
  zosConfig _ _ := .answered okStatus
    (.ok ((List.range (answers.packages.length + 1)).map answers.hub))
  health k url :=
    if url = answers.hub (k - 1) ++ "/api/flist" then .answered okStatus ()
    else .failed (.text "connection refused")
  list _ := .answered okStatus (.ok answers.lists)
  tags _ := .answered okStatus (.ok answers.packages)
  flist _ _ := .failed (.text "not asked")

def workingPackage (download : Nat → DownloadCalls) : PackageCalls where
  download := download
  mount _ := .ok emptyMounted

def workingDir : WorkDirCalls := ⟨emptyMounted.sys, none, none, none, none, none, none⟩

def workingWrite : WriteCalls where
  toVec _ := .ok []
  create := none
  sys := emptyMounted.sys
  writeAll := none

/-- All calls succeed, but those of the downloads. -/
def working (answers : Answers) : InstallCalls where
  zos := workingRepo answers
  client := workingRepo answers
  workDir := workingDir
  writeTag := workingWrite
  package i := workingPackage (answers.download i)

def start : World where
  workdir _ := none
  root := (Tree.put Tree.empty [] .dir).put [bytes "tmp"] .dir

/-- The root that the work directory is mounted over. -/
def created : Files := start.root.put WORKDIR .dir

def inside : World where
  workdir _ := none
  root := mountOver (.at WORKDIR) created

def outside (done : World) : World :=
  { start with root := drop workingDir (.at WORKDIR) (.at WORKDIR) created done.root }

section

variable {cfg : Config} {answers : Answers} {flist : Flist} {i : Nat} {w : World}
  {download : Nat → Nat → DownloadCalls} {before : List Flist}

theorem working_hubs {name : String} {repo : Repo}
    (h : Repo.new (workingRepo answers) name = .ok repo) :
    repo.hub.1 = (List.range (answers.packages.length + 1)).map answers.hub := by
  obtain rfl := Except.ok.inj h
  show (get_hub_url (workingRepo answers) .prod).1 = _
  rw [get_hub_url]
  simp only [workingRepo, List.range_succ_eq_map, List.map_cons]
  rfl

theorem working_hub {name : String} {repo : Repo}
    (h : Repo.new (workingRepo answers) name = .ok repo) (hi : i < answers.packages.length) :
    repo.get_working_hub ((workingRepo answers).health (i + 1)) = answers.hub i := by
  have hworks : ∀ hub, is_hub_working ((workingRepo answers).health (i + 1)) hub = true ↔
      hub = answers.hub i := by
    intro hub
    by_cases heq : hub = answers.hub i
    · simp [is_hub_working, workingRepo, heq, okStatus, Status.isSuccess]
    · have hne : hub ++ "/api/flist" ≠ answers.hub i ++ "/api/flist" :=
        fun happend => heq (String.append_left_inj _ |>.mp happend)
      simp [is_hub_working, workingRepo, heq, hne]
  have hmem : answers.hub i ∈ repo.hub.1 := by
    rw [working_hubs h]
    exact List.mem_map_of_mem (List.mem_range.mpr (by omega))
  rw [Repo.get_working_hub]
  cases hfind : repo.hub.1.find? (is_hub_working ((workingRepo answers).health (i + 1))) with
  | some hub => exact (hworks hub).mp (List.find?_some hfind)
  | none => exact absurd ((hworks _).mpr rfl) (List.find?_eq_none.mp hfind _ hmem)

theorem working_serves (answers : Answers) : Serves (working answers) answers where
  lists url status info h := by cases h; rfl
  packages url status info h := by cases h; rfl
  hub name repo h i hi := working_hub h hi
  download i := rfl

theorem working_linked {tag : Info} (htag : theTag cfg answers.lists = some tag) :
    ∃ link, linked (working answers) cfg = .ok (some link) ∧ link.toInfo = tag ∧
      link.kind = .tagLink := by
  rcases linked_spec cfg (working_serves answers) with ⟨err, h⟩ | ⟨found, h, hfound, hkind⟩
  · cases h
  · obtain ⟨link, rfl, hlink⟩ := Option.map_eq_some_iff.mp (hfound.symm.trans htag)
    exact ⟨link, h, hlink, hkind link rfl⟩

theorem working_tagged (tag : Flist) (err : BootError) :
    tagged (working answers) tag ≠ .error (.error err) := by
  unfold tagged
  cases hlink : tag.tag_link with
  | error stop =>
      obtain ⟨msg, rfl⟩ := tag_link_error hlink
      intro h
      cases h
  | ok r =>
      intro h
      cases h

theorem working_write (link : Flist) : link.write workingWrite FLIST_TAG_FILE inside.root =
    (.ok (), inside.root.put FLIST_TAG_FILE (.file [])) := by
  have hplace : emptyMounted.sys.place inside.root FLIST_TAG_FILE = .at FLIST_TAG_FILE := by
    decide +kernel
  have hfree : inside.root FLIST_TAG_FILE = none := by decide +kernel
  simp only [Flist.write, workingWrite, hplace, opened_free hfree]
  rfl

theorem working_runIn (f : World → Option (Except Stop Unit × World)) :
    runIn workingDir f start = (f inside).map (Prod.map id outside) := by
  have hplace : emptyMounted.sys.place start.root WORKDIR = .at WORKDIR := by decide +kernel
  have hfree : start.root WORKDIR = none := by decide +kernel
  have hcreate : create_dir workingDir start.root = .ok (.at WORKDIR, created) := by
    simp only [create_dir, workingDir, hplace, hfree]
    rfl
  have hmount : mountPoint workingDir.sys created (.at WORKDIR) = .ok (.at WORKDIR) := by
    simp only [mountPoint, created, Tree.put_self]
  rw [runIn, hcreate]
  dsimp only
  rw [hmount]
  rfl

/-- The tag link is taken, and its file is written. -/
theorem working_start {tag : Info} (htag : theTag cfg answers.lists = some tag) :
    ∃ w, w.root [] = some .dir ∧
      ((¬ tag.links ∧ ∃ msg w', ∀ fuel,
          install (working answers) fuel cfg start = some (.error (.panic msg), w')) ∨
        (tag.links ∧ ∀ fuel, install (working answers) fuel cfg start =
          (install_packages (fun i => workingPackage (answers.download i)) fuel 0
            answers.listed w).map (Prod.map id outside))) := by
  obtain ⟨link, hlinked, rfl, hkind⟩ := working_linked htag
  refine ⟨{ inside with root := inside.root.put FLIST_TAG_FILE (.file []) },
    by decide +kernel, ?_⟩
  unfold install
  rw [hlinked]
  dsimp only
  rw [show (working answers).workDir = workingDir from rfl]
  simp only [working_runIn, install_tag]
  rw [show (working answers).writeTag = workingWrite from rfl, working_write link]
  rcases tagged_spec (working_serves answers) hkind with
    ⟨hlinks, msg, h⟩ | ⟨hlinks, ⟨err, h⟩ | h⟩
  · exact .inl ⟨hlinks, msg, _, fun _ => by rw [h]; rfl⟩
  · exact absurd h (working_tagged link err)
  · exact .inr ⟨hlinks, fun _ => by rw [h]; rfl⟩

/-- A package that can be downloaded is installed. -/
theorem working_installs {download : Nat → DownloadCalls} (h : Downloads download flist)
    (hroot : w.root [] = some .dir) : ∃ fuel w', w'.root [] = some .dir ∧
      install_package (workingPackage download) fuel flist w = some (.ok (), w') := by
  obtain ⟨fuel, workdir, hdownload⟩ := downloads_ends h w.workdir
  have hcopy : copyPartly emptyMounted.sys (bytes "/") emptyMounted.cuts
      emptyMounted.tree.entries w.root = (.ok (), w.root) := by
    refine copyPartly_ok.mpr ?_
    show (copyEntry emptyMounted.sys (bytes "/") w.root ([], .dir) >>= fun fs => pure fs) = _
    simp [copyEntry, System.place, onTheWay, emptyMounted, hroot, copyOne, create_dir_all,
      Node.isLink]
  have hservices : (run_all emptyMounted.tree emptyMounted.followed).2 = .ok () := by
    decide +kernel
  have hmounted : install_mounted emptyMounted w.root = (.ok (), w.root) := by
    rw [install_mounted, hcopy]
    dsimp only
    rw [hservices]
  refine ⟨fuel, ⟨workdir, w.root⟩, hroot, ?_⟩
  rw [install_package, workingPackage, hdownload]
  show some ((install_mounted emptyMounted w.root).1,
    (⟨workdir, (install_mounted emptyMounted w.root).2⟩ : World)) = _
  rw [hmounted]

/-- So those that come first are, with enough attempts. -/
theorem working_reaches (rest : List Flist) (hbefore : AllDownload download i before)
    (hroot : w.root [] = some .dir) : ∃ least w', w'.root [] = some .dir ∧
      ∀ fuel, least ≤ fuel →
        install_packages (fun i => workingPackage (download i)) fuel i (before ++ rest) w =
          install_packages (fun i => workingPackage (download i)) fuel (i + before.length) rest
            w' := by
  induction before generalizing i w with
  | nil => exact ⟨0, w, hroot, fun _ _ => rfl⟩
  | cons flist before ih =>
      obtain ⟨hfirst, hrest⟩ := allDownload_cons.mp hbefore
      obtain ⟨fuel, next, hnext, hpackage⟩ := working_installs hfirst hroot
      obtain ⟨least, w', hw', hreaches⟩ := ih hrest hnext
      refine ⟨max fuel least, w', hw', fun more hmore => ?_⟩
      rw [List.cons_append, install_packages,
        install_package_mono ((Nat.le_max_left fuel least).trans hmore) hpackage]
      dsimp only
      rw [hreaches more ((Nat.le_max_right fuel least).trans hmore), List.length_cons,
        Nat.add_right_comm, Nat.add_assoc]

/-- A tag that is reached panics. -/
theorem working_panics (rest : List Flist) (hbefore : AllDownload download i before)
    (hflist : ¬ flist.isFile) (hroot : w.root [] = some .dir) : ∃ fuel msg w',
      install_packages (fun i => workingPackage (download i)) fuel i (before ++ flist :: rest) w =
        some (.error (.panic msg), w') := by
  obtain ⟨least, next, -, hreaches⟩ := working_reaches (flist :: rest) hbefore hroot
  obtain ⟨msg, w', hpanic⟩ := install_package_tag
    (workingPackage (download (i + before.length))) hflist next
  refine ⟨max 1 least, msg, w', ?_⟩
  rw [hreaches _ (Nat.le_max_right 1 least), install_packages,
    install_package_mono (Nat.le_max_left 1 least) hpanic]

/-- Another package that is reached, and cannot be downloaded, is tried for ever. -/
theorem working_stuck (rest : List Flist) (hbefore : AllDownload download i before)
    (hfile : flist.isFile) (hflist : ¬ Downloads (download (i + before.length)) flist)
    (hroot : w.root [] = some .dir) (fuel : Nat) :
    install_packages (fun i => workingPackage (download i)) fuel i (before ++ flist :: rest) w =
      none := by
  obtain ⟨least, next, -, hreaches⟩ := working_reaches (flist :: rest) hbefore hroot
  cases hrun : install_packages (fun i => workingPackage (download i)) fuel i
      (before ++ flist :: rest) w with
  | none => rfl
  | some result =>
      -- more attempts do not help
      have hmore := install_packages_mono (Nat.le_max_left fuel least) hrun
      have hnone : install_package (workingPackage (download (i + before.length)))
          (max fuel least) flist next = none := install_package_none hfile hflist
      rw [hreaches _ (Nat.le_max_right fuel least), install_packages, hnone] at hmore
      cases hmore

end

/-! ## All answers -/

/-- The tag link of the run mode, if there is one, has a target, and the packages are such. -/
def Sound (cfg : Config) (lists : List Info) (packages : Prop) : Prop :=
  ∀ tag, theTag cfg lists = some tag → tag.links ∧ packages

section

variable (cfg : Config) (answers : Answers)

/-- Whatever else happens, it does not panic. -/
def NeverPanics : Prop :=
  ∀ calls, Serves calls answers →
    ∀ fuel w msg w', install calls fuel cfg w ≠ some (.error (.panic msg), w')

/-- Whatever else happens, it ends without a panic. -/
def Ends : Prop :=
  ∀ calls, Serves calls answers → ∀ w, ∃ fuel r w',
    install calls fuel cfg w = some (r, w') ∧ ∀ msg, r ≠ .error (.panic msg)

variable {cfg answers}

/-- When it is left, it has come to the same. -/
theorem exists_left {result : Option (Except Stop Unit × World)} {leaving : World → World}
    {r : Except Stop Unit} {w' : World}
    (h : result.map (Prod.map id leaving) = some (r, w')) : ∃ w, result = some (r, w) := by
  obtain ⟨⟨r', w⟩, hresult, heq⟩ := Option.map_eq_some_iff.mp h
  cases heq
  exact ⟨w, hresult⟩

theorem neverPanics_of_sound
    (h : Sound cfg answers.lists (NoTagReached answers.download answers.listed)) :
    NeverPanics cfg answers := by
  intro calls hserves fuel w msg w' hpanic
  rcases install_spec cfg hserves w with
    ⟨err, _, hrun⟩ | ⟨tag, htag, ⟨hlinks, -⟩ | ⟨-, w₀, leaving, hrun⟩⟩
  · cases (hrun fuel).symm.trans hpanic
  · exact hlinks (h tag htag).1
  · obtain ⟨_, hinstalled⟩ := exists_left ((hrun fuel).symm.trans hpanic)
    obtain ⟨before, flist, rest, hlisted, hbefore, hflist⟩ :=
      install_packages_panic hserves.download hinstalled
    exact hflist ((h tag htag).2 before flist rest hlisted hbefore)

theorem noTagReached_of_all {download : Nat → Nat → DownloadCalls} {flists : List Flist}
    (h : AllDownload download 0 flists) : NoTagReached download flists := by
  intro before flist rest hlisted _
  exact (h before.length flist (by simp [hlisted])).1

theorem ends_of_sound
    (h : Sound cfg answers.lists (AllDownload answers.download 0 answers.listed)) :
    Ends cfg answers := by
  have hnever : NeverPanics cfg answers :=
    neverPanics_of_sound fun tag htag => ⟨(h tag htag).1, noTagReached_of_all (h tag htag).2⟩
  intro calls hserves w
  have hends : ∃ fuel r w', install calls fuel cfg w = some (r, w') := by
    rcases install_spec cfg hserves w with
      ⟨err, w', hrun⟩ | ⟨tag, htag, ⟨hlinks, -⟩ | ⟨-, w₀, leaving, hrun⟩⟩
    · exact ⟨0, _, w', hrun 0⟩
    · exact absurd (h tag htag).1 hlinks
    · obtain ⟨fuel, r, w', hends⟩ := install_packages_ends hserves.download (h tag htag).2 w₀
      exact ⟨fuel, r, leaving w', by rw [hrun, hends]; rfl⟩
  obtain ⟨fuel, r, w', hrun⟩ := hends
  refine ⟨fuel, r, w', hrun, fun msg hr => ?_⟩
  exact hnever calls hserves fuel w msg w' (hr ▸ hrun)

theorem sound_of_neverPanics (h : NeverPanics cfg answers) :
    Sound cfg answers.lists (NoTagReached answers.download answers.listed) := by
  intro tag htag
  obtain ⟨w, hroot, ⟨-, msg, w', hrun⟩ | ⟨hlinks, hrun⟩⟩ := working_start htag
  · exact absurd (hrun 0) (h _ (working_serves answers) 0 start msg w')
  · refine ⟨hlinks, fun before flist rest hlisted hbefore => ?_⟩
    by_contra hflist
    obtain ⟨fuel, msg, w', hpanic⟩ := working_panics rest hbefore hflist hroot
    refine h _ (working_serves answers) fuel start msg (outside w') ?_
    rw [hrun, hlisted, hpanic]
    rfl

theorem sound_of_ends (h : Ends cfg answers) :
    Sound cfg answers.lists (AllDownload answers.download 0 answers.listed) := by
  obtain ⟨fuel, r, w', hends, hr⟩ := h _ (working_serves answers) start
  intro tag htag
  obtain ⟨w, hroot, ⟨-, msg, w'', hrun⟩ | ⟨hlinks, hrun⟩⟩ := working_start htag
  · cases hends.symm.trans (hrun fuel)
    exact absurd rfl (hr msg)
  · refine ⟨hlinks, ?_⟩
    by_contra hall
    obtain ⟨before, flist, rest, hlisted, hbefore, hflist⟩ := first_lost hall
    rw [hrun fuel, hlisted] at hends
    obtain ⟨_, hends⟩ := exists_left hends
    by_cases hfile : flist.isFile
    · cases hends.symm.trans (working_stuck rest hbefore hfile hflist hroot fuel)
    · obtain ⟨fuel', msg, w', hpanic⟩ :=
        working_panics rest hbefore hfile hroot
      have hmore := install_packages_mono (Nat.le_max_left fuel fuel') hends
      rw [install_packages_mono (Nat.le_max_right fuel fuel') hpanic] at hmore
      cases hmore
      exact absurd rfl (hr msg)

end

/-- With which answers of the hub it never panics, and with which it always ends. -/
theorem install_ends_iff (cfg : Config) (answers : Answers) :
    (NeverPanics cfg answers ↔
      Sound cfg answers.lists (NoTagReached answers.download answers.listed)) ∧
      (Ends cfg answers ↔
        Sound cfg answers.lists (AllDownload answers.download 0 answers.listed)) :=
  ⟨⟨sound_of_neverPanics, neverPanics_of_sound⟩, ⟨sound_of_ends, ends_of_sound⟩⟩

/-- A tag link without a target. -/
theorem link_without_target : ¬ ∀ (cfg : Config) (answers : Answers) (calls : InstallCalls),
    Serves calls answers → ∀ fuel w msg w',
      install calls fuel cfg w ≠ some (.error (.panic msg), w') := by
  intro h
  let answers : Answers := ⟨[⟨.tagLink, "production", none⟩], [], fun _ => "",
    fun _ _ => ⟨fun _ => none, fun _ => .failed (.text "not asked")⟩⟩
  have htag : theTag ⟨.prod, .v3⟩ answers.lists = some ⟨.tagLink, "production", none⟩ := by
    decide +kernel
  obtain ⟨w, -, ⟨-, msg, w', hpanic⟩ | ⟨⟨target, _, _, htarget, _⟩, -⟩⟩ := working_start htag
  · exact h _ answers _ (working_serves answers) 0 start msg w' (hpanic 0)
  · cases htarget

end Zos4.Bootstrap
