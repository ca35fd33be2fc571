import Zos4.Bootstrap.Bootstrap
import Zos4.Upgrade.Install

/-!
# The services of a package

A fresh boot and a live upgrade each have their way to read the services off a package.
The upgrade takes whatever is in `etc/zinit` and no directory, where the name ends in
`.yaml`; the boot takes what it can read as a file, where the name has a `.yaml`
somewhere and is one of characters, and cuts it there. `mem_servicesFromStore` and
`mem_run_all` say so, and from the two it is read off when both give just the services
of the package (`same_services_iff`).
-/

namespace Zos4.Bootstrap

open Zos4.Files Zos4.Upgrade

variable {pkg : Package Bytes} {followed : Followed} {service : Bytes}

abbrev yaml : Bytes := bytes ".yaml"

theorem isStr_yaml : isStr yaml = true := by decide +kernel

theorem yaml_ne_nil : yaml ≠ [] := by decide +kernel

theorem yaml_eq_cons : yaml = 46 :: bytes "yaml" := by decide +kernel

/-- There is a regular file for the service in `etc/zinit`. -/
def IsService (pkg : Package Bytes) (service : Bytes) : Prop :=
  ∃ content, (zinitPath ++ [service ++ yaml], .file content) ∈ pkg.entries

/-- Both start the services of the package. -/
def SameServices (pkg : Package Bytes) (followed : Followed) : Prop :=
  (∀ service, service ∈ (run_all pkg followed).1 ↔ service ∈ servicesFromStore pkg) ∧
    ∀ service, service ∈ servicesFromStore pkg ↔ IsService pkg service

/-- The names the boot finds in `etc/zinit`. -/
def listed (pkg : Package Bytes) (followed : Followed) : List Bytes :=
  match readDir pkg followed [] cfg with
  | .error _ => []
  | .ok names => names

/-- What the two need for it: everything in `etc/zinit` that ends in `.yaml`, and is no
directory, is a regular file with a name of characters; and what the boot takes for a
file, and has a `.yaml` in its name, has one of these by the name cut there. -/
structure Conventional (pkg : Package Bytes) (followed : Followed) : Prop where
  regular : ∀ service node, (zinitPath ++ [service ++ yaml], node) ∈ pkg.entries →
    node = .dir ∨ ∃ content, node = .file content
  chars : ∀ service, IsService pkg service → isStr (service ++ yaml) = true
  cut : ∀ name ∈ listed pkg followed, isFile pkg followed cfg name = true →
    isStr name = true → ∀ idx, rfind name yaml = some idx → IsService pkg (name.take idx)

/-! ## The upgrade -/

theorem mem_servicesFromStore : service ∈ servicesFromStore pkg ↔
    ∃ node, (zinitPath ++ [service ++ yaml], node) ∈ pkg.entries ∧ node.isDir = false := by
  constructor
  · intro h
    unfold servicesFromStore at h
    split at h
    · cases h
    · next found hfound =>
        obtain ⟨⟨path, node⟩, hmem, hservice⟩ := List.mem_filterMap.mp h
        have hentry := (Package.mem_under.mp ⟨found, hfound, hmem⟩).2
        dsimp only at hservice
        split at hservice
        · cases hservice
        · next hdir =>
            split at hservice
            · cases hservice
            · next hparent =>
                split at hservice
                · cases hservice
                · next hsuffix =>
                    have hparent := of_not_not hparent
                    rw [Bool.not_eq_true, Bool.not_eq_false'] at hsuffix
                    obtain ⟨stem, hstem⟩ := hasSuffix_iff.mp hsuffix
                    rw [hstem, trimSuffix_append] at hservice
                    obtain rfl := Option.some.inj hservice
                    have hpath : path = zinitPath ++ [stem ++ yaml] := by
                      cases path using List.reverseRecOn with
                      | nil => exact absurd hparent (by decide +kernel)
                      | append_singleton path name =>
                          simp only [List.dropLast_concat] at hparent
                          simp only [List.getLastD_concat] at hstem
                          rw [hparent, hstem]
                    exact ⟨node, hpath ▸ hentry, by simpa using hdir⟩
  · intro h
    obtain ⟨node, hentry, hdir⟩ := h
    obtain ⟨found, hfound, hmem⟩ :=
      Package.mem_under.mpr ⟨List.prefix_append zinitPath [service ++ yaml], hentry⟩
    rw [servicesFromStore, hfound, List.mem_filterMap]
    exact ⟨_, hmem, by simp [hdir]⟩

/-! ## The boot -/

theorem mem_run_all : service ∈ (run_all pkg followed).1 ↔
    ∃ name ∈ listed pkg followed, isFile pkg followed cfg name = true ∧
      isStr name = true ∧ ∃ idx, rfind name yaml = some idx ∧ service = name.take idx := by
  cases hread : readDir pkg followed [] cfg with
  | error err => simp [run_all, listed, hread]
  | ok names =>
      simp only [run_all, listed, hread, List.mem_filterMap]
      constructor
      · intro h
        obtain ⟨name, hname, hservice⟩ := h
        split at hservice
        · cases hservice
        · next hfile =>
            split at hservice
            · cases hservice
            · next hstr =>
                obtain ⟨idx, hidx, hservice⟩ := Option.map_eq_some_iff.mp hservice
                exact ⟨name, hname, by simpa using hfile, by simpa using hstr, idx, hidx,
                  hservice.symm⟩
      · intro h
        obtain ⟨name, hname, hfile, hstr, idx, hidx, hservice⟩ := h
        exact ⟨name, hname, by simp [hfile, hstr, hidx, hservice]⟩

/-- Where there is an entry in it, the directory is listed. -/
theorem mem_listed {name : Bytes} {node : Node Bytes}
    (h : (zinitPath ++ [name], node) ∈ pkg.entries) : name ∈ listed pkg followed := by
  have hzinit : pkg.find [bytes "etc", bytes "zinit"] = some .dir :=
    Package.find_eq_some.mpr (pkg.parents _ _ _ h)
  have hetc : pkg.find [bytes "etc"] = some .dir :=
    Package.find_eq_some.mpr
      (pkg.parents [bytes "etc"] (bytes "zinit") .dir (Package.find_eq_some.mp hzinit))
  have hroot : pkg.find [] = some .dir := Package.find_eq_some.mpr pkg.root
  have hread : readDir pkg followed [] cfg = .ok (pkg.children zinitPath) := by
    simp [readDir, cfg, zinitPath, hroot, hetc, hzinit]
  rw [listed, hread]
  exact Package.mem_children.mpr ⟨node, h⟩

theorem IsService.run_all (h : IsService pkg service) (hchars : isStr (service ++ yaml) = true) :
    service ∈ (run_all pkg followed).1 := by
  obtain ⟨content, hentry⟩ := h
  have hfile : isFile pkg followed cfg (service ++ yaml) = true := by
    have hfind : pkg.find (cfg ++ [service ++ yaml]) = some (.file content) :=
      Package.find_eq_some.mpr hentry
    rw [isFile, hfind]
  refine mem_run_all.mpr ⟨_, mem_listed hentry, hfile, hchars, service.length, ?_, ?_⟩
  · exact rfind_append yaml_ne_nil
  · exact List.take_left.symm

/-- The name the boot has found is one of characters up to the end of its `.yaml`. -/
theorem isStr_of_run_all (h : service ∈ (Bootstrap.run_all pkg followed).1) :
    isStr (service ++ yaml) = true := by
  obtain ⟨name, -, -, hstr, idx, hidx, rfl⟩ := mem_run_all.mp h
  obtain ⟨rest, hname⟩ := rfind_some hidx
  have hcut : name = name.take idx ++ 46 :: (bytes "yaml" ++ rest) := by
    rw [yaml_eq_cons] at hname
    simpa using hname
  rw [hcut] at hstr
  exact isStr_append (isStr_of_append (by decide) hstr) isStr_yaml

/-! ## Both -/

theorem same_services_iff (pkg : Package Bytes) (followed : Followed) :
    SameServices pkg followed ↔ Conventional pkg followed := by
  constructor
  · intro h
    obtain ⟨hsame, hexact⟩ := h
    refine ⟨fun service node hentry => ?_, fun service hservice => ?_, ?_⟩
    · cases hdir : node.isDir with
      | true =>
          cases node <;> simp [Node.isDir] at hdir
          exact .inl rfl
      | false =>
          have hservice := (hexact service).mp (mem_servicesFromStore.mpr ⟨node, hentry, hdir⟩)
          obtain ⟨content, hfile⟩ := hservice
          exact .inr ⟨content, Package.eq_of_mem hentry hfile⟩
    · exact isStr_of_run_all ((hsame service).mpr ((hexact service).mpr hservice))
    · intro name hname hfile hstr idx hidx
      have hfound := mem_run_all.mpr ⟨name, hname, hfile, hstr, idx, hidx, rfl⟩
      exact (hexact _).mp ((hsame _).mp hfound)
  · intro h
    have hexact : ∀ service, service ∈ servicesFromStore pkg ↔ IsService pkg service := by
      intro service
      rw [mem_servicesFromStore]
      constructor
      · intro hservice
        obtain ⟨node, hentry, hdir⟩ := hservice
        rcases h.regular service node hentry with rfl | ⟨content, rfl⟩
        · cases hdir
        · exact ⟨content, hentry⟩
      · intro hservice
        obtain ⟨content, hentry⟩ := hservice
        exact ⟨_, hentry, rfl⟩
    refine ⟨fun service => ?_, hexact⟩
    rw [hexact]
    constructor
    · intro hservice
      obtain ⟨name, hname, hfile, hstr, idx, hidx, rfl⟩ := mem_run_all.mp hservice
      exact h.cut name hname hfile hstr idx hidx
    · exact fun hservice => hservice.run_all (h.chars service hservice)

/-! ## A package with a backup in it -/

def withBackup : Package Bytes where
  entries := [([], .dir), ([bytes "etc"], .dir), (zinitPath, .dir),
    (zinitPath ++ [bytes "node.yaml.bak"], .file [])]
  nodup := by decide +kernel
  root := List.mem_cons_self
  parents := Package.parents_of_all (by decide +kernel)

/-- There are no links. -/
def nothingFollowed : Followed where
  listing := .error .notFound
  isFile := fun _ => false

/-- The boot starts a service that the upgrade does not know, and the package has none. -/
theorem backup_started :
    ¬ ∀ (pkg : Package Bytes) (followed : Followed), SameServices pkg followed := by
  intro h
  have hnode : bytes "node" ∈ servicesFromStore withBackup :=
    ((h withBackup nothingFollowed).1 (bytes "node")).mp (by decide +kernel)
  exact absurd hnode (by decide +kernel)

end Zos4.Bootstrap
