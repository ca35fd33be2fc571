import Mathlib.Tactic.Tauto
import Zos4.Bootstrap.Install

/-!
# What a download leaves in its file

The file of a download is opened to be written, and what it has is not removed: neither
what was there before nor what an attempt has written that failed. An attempt writes over
the beginning only, so the file is never shorter than the longest of these (`size_repeated`).
What is there in the end is the flist exactly if none of them is longer than it
(`downloaded_iff`).
-/

namespace Zos4.Bootstrap

open Zos4.Files Zos4.Interaction

/-! ## One attempt -/

/-- What can be downloaded without a panic. -/
def Flist.isFile (flist : Flist) : Prop := flist.kind = .regular ∨ flist.kind = .symlink

/-- What an attempt writes into the file. -/
def DownloadCalls.written (calls : DownloadCalls) (flist : Flist) : Bytes :=
  match calls.openFile flist.name, calls.get flist.url with
  | none, .answered status body => if status.isSuccess then body.content else []
  | _, _ => []

/-- The body of the response, of an attempt that succeeds. -/
def DownloadCalls.body (calls : DownloadCalls) (flist : Flist) : Option Bytes :=
  match calls.openFile flist.name, calls.get flist.url with
  | none, .answered status ⟨content, none⟩ => if status.isSuccess then some content else none
  | _, _ => none

/-- The length of a file, of one that is not there as of one that is empty. -/
def size (file : Option Bytes) : Nat := (file.getD []).length

theorem length_overwrite (content file : Bytes) :
    (overwrite content file).length = max content.length file.length := by
  rw [overwrite, List.length_append, List.length_drop]
  omega

theorem overwrite_eq_self {content file : Bytes} :
    overwrite content file = content ↔ file.length ≤ content.length := by
  rw [overwrite, List.append_right_eq_self, List.drop_eq_nil_iff]

section

variable {flist : Flist} {calls : DownloadCalls} {out : Option Bytes} {body : Bytes}

/-- The file keeps the length it has, if what is written is not longer. -/
theorem size_download (hfile : flist.isFile) :
    size (flist.download calls out).2 = max (calls.written flist).length (size out) := by
  have hkept : ∀ file : Bytes, file.length = max ([] : Bytes).length file.length := by
    intro file
    simp
  unfold Flist.download DownloadCalls.written
  rcases hfile with hkind | hkind
  all_goals
    rw [hkind]
    cases calls.openFile flist.name with
    | some err => exact hkept _
    | none =>
        cases calls.get flist.url with
        | failed err => exact hkept _
        | answered status body =>
            dsimp only
            cases status.isSuccess with
            | false => exact hkept _
            | true => exact length_overwrite _ _

theorem download_ok : (flist.download calls out).1 = .ok () ↔
    flist.isFile ∧ ∃ body, calls.body flist = some body := by
  unfold Flist.isFile Flist.download DownloadCalls.body
  cases hkind : flist.kind with
  | tag | tagLink => simp
  | regular | symlink =>
      cases calls.openFile flist.name with
      | some err => simp
      | none =>
          cases calls.get flist.url with
          | failed err => simp
          | answered status body =>
              obtain ⟨content, err⟩ := body
              cases hs : status.isSuccess <;> cases err <;> simp [hs]

theorem download_body (hfile : flist.isFile)
    (hbody : calls.body flist = some body) :
    (flist.download calls out).2 = some (overwrite body (out.getD [])) := by
  unfold DownloadCalls.body at hbody
  split at hbody
  · next status content hopen hget =>
      split at hbody
      · next hsuccess =>
          cases hbody
          unfold Flist.download
          rcases hfile with hkind | hkind <;> simp [hkind, hopen, hget, hsuccess]
      · cases hbody
  · cases hbody

/-- The only panic is that of a tag. -/
theorem download_panic {msg : String}
    (h : (flist.download calls out).1 = .error (.panic msg)) : ¬ flist.isFile := by
  intro hfile
  unfold Flist.download at h
  rcases hfile with hkind | hkind
  all_goals
    rw [hkind] at h
    cases hopen : calls.openFile flist.name with
    | some err => simp [hopen] at h
    | none =>
        cases hget : calls.get flist.url with
        | failed err => simp [hopen, hget] at h
        | answered status body =>
            obtain ⟨content, err⟩ := body
            cases hs : status.isSuccess <;> cases err <;> simp [hopen, hget, hs] at h

end

/-! ## The loop -/

/-- What is not retried is a panic. -/
theorem attempt_stopped {α : Type} {x : Except Stop α} {stop : Stop}
    (h : (attempt x).ended = some (.error stop)) : ∃ msg, x = .error (.panic msg) ∧
      stop = .panic msg := by
  cases x with
  | ok a => cases h
  | error stop' =>
      cases stop' with
      | error err => cases h
      | panic msg => exact ⟨msg, rfl, by cases h; rfl⟩

section

variable {flist : Flist} {calls : Nat → DownloadCalls} {i j : Nat}
  {workdir workdir' : String → Option Bytes}

theorem downloadOnce_attempt : (downloadOnce flist calls i workdir).1 =
    attempt (withContext ("failed to download flist: " ++ flist.url)
      (flist.download (calls i) (workdir flist.name)).1) := rfl

/-- An attempt that is made again has not received the flist. -/
theorem downloadOnce_again (h : (downloadOnce flist calls i workdir).1.ended = none) :
    flist.isFile ∧ (calls i).body flist = none := by
  have herr : ∃ err, (flist.download (calls i) (workdir flist.name)).1 = .error (.error err) := by
    cases hr : (flist.download (calls i) (workdir flist.name)).1 with
    | ok u => simp [downloadOnce, hr, withContext, attempt] at h
    | error stop =>
        cases stop with
        | error err => exact ⟨err, rfl⟩
        | panic msg => simp [downloadOnce, hr, withContext, attempt] at h
  obtain ⟨err, herr⟩ := herr
  have hfile : flist.isFile := by
    cases hkind : flist.kind with
    | regular => exact .inl hkind
    | symlink => exact .inr hkind
    | tag | tagLink => simp [Flist.download, hkind] at herr
  refine ⟨hfile, ?_⟩
  cases hbody : (calls i).body flist with
  | none => rfl
  | some body => cases (download_ok.mpr ⟨hfile, body, hbody⟩).symm.trans herr

/-- The last attempt, if it succeeds. -/
theorem downloadOnce_ok (h : (downloadOnce flist calls i workdir).1.ended = some (.ok ())) :
    flist.isFile ∧ ∃ body, (calls i).body flist = some body := by
  refine download_ok.mp (?_ : (flist.download (calls i) (workdir flist.name)).1 = .ok ())
  cases hr : (flist.download (calls i) (workdir flist.name)).1 with
  | ok u => rfl
  | error stop => cases stop <;> simp [downloadOnce, hr, withContext, attempt] at h

/-- The last attempt, if it does not. -/
theorem downloadOnce_stopped {stop : Stop}
    (h : (downloadOnce flist calls i workdir).1.ended = some (.error stop)) :
    ¬ flist.isFile ∧ ∃ msg, stop = .panic msg := by
  rw [downloadOnce_attempt] at h
  obtain ⟨msg, hpanic, rfl⟩ := attempt_stopped h
  refine ⟨?_, msg, rfl⟩
  cases hr : (flist.download (calls i) (workdir flist.name)).1 with
  | ok u => simp [hr, withContext] at hpanic
  | error stop =>
      cases stop with
      | error err => simp [hr, withContext] at hpanic
      | panic msg' => exact download_panic hr

theorem downloadOnce_size (hfile : flist.isFile) :
    size ((downloadOnce flist calls i workdir).2 flist.name) =
      max ((calls i).written flist).length (size (workdir flist.name)) := by
  rw [← size_download hfile]
  simp [downloadOnce]

/-- The file is as long as what was there and the longest of what has been written. -/
theorem size_repeated (h : Repeated (downloadOnce flist calls) 0 workdir j workdir') (n : Nat) :
    size (workdir' flist.name) ≤ n ↔ size (workdir flist.name) ≤ n ∧
      ∀ i < j, ((calls i).written flist).length ≤ n := by
  refine h.keeps (I := fun j workdir' => size (workdir' flist.name) ≤ n ↔
    size (workdir flist.name) ≤ n ∧ ∀ i < j, ((calls i).written flist).length ≤ n)
    (by simp) fun j mid hI hagain => ?_
  rw [downloadOnce_size (downloadOnce_again hagain).1, Nat.max_le, hI, Nat.forall_lt_succ_right]
  tauto

/-- The file has the flist in the end exactly if what was there, and what the attempts have
written that failed, is not longer than the flist. -/
theorem downloaded_iff {fuel : Nat}
    (h : retryFor (downloadOnce flist calls) fuel 0 workdir = some (.ok (), workdir')) :
    ∃ last body, (∀ i < last, (calls i).body flist = none) ∧
      (calls last).body flist = some body ∧
      (workdir' flist.name = some body ↔ size (workdir flist.name) ≤ body.length ∧
        ∀ i < last, ((calls i).written flist).length ≤ body.length) := by
  obtain ⟨last, mid, -, hrepeated, hended, rfl⟩ := retryFor_eq_some.mp h
  obtain ⟨hfile, body, hbody⟩ := downloadOnce_ok hended
  have hfailed : ∀ i < last, (calls i).body flist = none :=
    hrepeated.keeps (I := fun j _ => ∀ i < j, (calls i).body flist = none) (by simp)
      fun j mid hI hagain => Nat.forall_lt_succ_right.mpr ⟨hI, (downloadOnce_again hagain).2⟩
  refine ⟨last, body, hfailed, hbody, ?_⟩
  rw [← size_repeated hrepeated]
  have hlast : (downloadOnce flist calls last mid).2 flist.name =
      some (overwrite body ((mid flist.name).getD [])) := by
    rw [← download_body hfile hbody]
    simp [downloadOnce]
  rw [hlast, Option.some.injEq, overwrite_eq_self]
  rfl

end

/-! ## An attempt that stops midway -/

namespace Shrunk

def flist : Flist :=
  { kind := .regular, name := "bootstrap-v4:latest.flist", target := none
    url := "https://v4.hub.grid.tf/tf-autobuilder/bootstrap-v4:latest.flist" }

def served (content : Bytes) (err : Option BootError) : DownloadCalls where
  openFile _ := none
  get _ := .answered ⟨200, "OK"⟩ ⟨content, err⟩

/-- The connection is lost, and the flist that is there by then is a shorter one. -/
def lost : Nat → DownloadCalls
  | 0 => served [1, 2, 3] (some (.text "connection closed before message completed"))
  | _ => served [4] none

/-- The flist does not change. -/
def resumed : Nat → DownloadCalls
  | 0 => served [1, 2, 3] (some (.text "connection closed before message completed"))
  | _ => served [1, 2, 3, 4] none

def once (i : Nat) (workdir : String → Option Bytes) : String → Option Bytes :=
  (downloadOnce flist resumed i workdir).2

theorem downloaded_iff_resumed : ∃ last body,
    (∀ i < last, (resumed i).body flist = none) ∧ (resumed last).body flist = some body ∧
      (once 1 (once 0 fun _ => none) flist.name = some body ↔ size none ≤ body.length ∧
        ∀ i < last, ((resumed i).written flist).length ≤ body.length) :=
  downloaded_iff (show retryFor (downloadOnce flist resumed) 2 0 (fun _ => none) = _ from rfl)

theorem rest_left : ¬ ∀ (calls : Nat → DownloadCalls) (workdir workdir' : String → Option Bytes)
    (fuel last : Nat) (body : Bytes),
    retryFor (downloadOnce flist calls) fuel 0 workdir = some (.ok (), workdir') →
      (∀ i < last, (calls i).body flist = none) → (calls last).body flist = some body →
        workdir' flist.name = some body := by
  intro h
  have hleft := h lost (fun _ => none) _ 2 1 [4] rfl (by decide) (by decide)
  exact absurd hleft (by decide)

end Shrunk

end Zos4.Bootstrap
