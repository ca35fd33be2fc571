import Zos4.Provision.Reference

/-!
# An update that is refused after it was accepted

`Update` writes the new header before it queues its job, and the worker's
validation branch marks every workload failed before it drops the job. What
is between the two calls does not matter: no path through `processJob` puts
the old version back, so a refused update is never without a trace.
-/

namespace Zos4.Provision

open Zos4.Interaction Prog

section

variable [Zosbase] {σ μ : Type} [Storage σ]

/-- What a reader of the stored deployment can tell apart: the header fields an
update may overwrite, the definitions of the workloads and their states. -/
structure SameDeployment (k : DeploymentKey) (v v' : StoreView) : Prop where
  version : (v'.header k).map (·.version) = (v.header k).map (·.version)
  description :
    (v'.header k).map (·.description) = (v.header k).map (·.description)
  metadata : (v'.header k).map (·.metadata) = (v.header k).map (·.metadata)
  signatureRequirement : (v'.header k).map (·.signatureRequirement) =
    (v.header k).map (·.signatureRequirement)
  definitions : ∀ n, (v'.workload k n).map Workload.definition =
    (v.workload k n).map Workload.definition
  states : ∀ n, (v'.workload k n).map (·.result.state) =
    (v.workload k n).map (·.result.state)

/-- An update is accepted in `w`, which leaves `w₁`; when its job is at the
head of the queue the stored deployment is still that of `w₁`, but the job is
refused; `w₃` is what the worker leaves. -/
structure RefusedUpdate (e : NativeEngine μ) (u : Deployment)
    (w w₁ w₂ w₃ : World σ μ) : Prop where
  accepted : (update e u).run (exec e) w = (none, w₁)
  header : w₂.view.header u.key = w₁.view.header u.key
  workload : ∀ n, w₂.view.workload u.key n = w₁.view.workload u.key n
  refused : ∃ job rest, w₁.queue = w.queue ++ [job] ∧ w₂.queue = job :: rest ∧
    ((validate e job.target false).run (exec e) w₂).1 ≠ none ∧
    w₃ = ((processJob e job).run (exec e) w₂).2

variable {e : NativeEngine μ}

/-- An accepted update has written its fields and queued its job, and nothing
else. -/
theorem update_accepted {u : Deployment} {w w₁ : World σ μ}
    (h : (update e u).run (exec e) w = (none, w₁)) :
    ∃ source ops, Storage.get w.store u.key = .ok source ∧
      Zosbase.upgrade source u = .ok ops ∧
      w₁.view = w.view.update u.key (updateFields source u) ∧
      w₁.queue = w.queue ++ [.opUpdate u source] := by
  simp only [update, perform, call_bind, ret_bind, run_call] at h
  cases hget : Storage.get w.store u.key with
  | error err => simp [exec, hget] at h
  | ok source =>
      have hread : exec e (.storageGet u.key) w = (.ok source, w) := by
        simp only [exec, hget]
      rw [hread] at h
      cases hup : Zosbase.upgrade source u with
      | error err => simp [hup] at h
      | ok ops =>
          simp only [hup] at h
          split at h
          · simp at h
          · rw [run_call] at h
            have hwrote := exec_storageUpdate (e := e) w u.key
              (updateFields source u)
            cases hres : (exec e (.storageUpdate u.key (updateFields source u))
                w).1 with
            | some err => rw [hres] at h; simp at h
            | none =>
                obtain ⟨_, s, hs, hv⟩ := hwrote.ok hres
                rw [hres, hs] at h
                obtain rfl := (Prod.mk.inj h).2
                exact ⟨source, ops, rfl, hup, hv, rfl⟩

omit [Zosbase] in
/-- The version an accepted update leaves is the update's. -/
theorem updateFields_version (h : Header) (source u : Deployment) :
    ((updateFields source u).foldl Field.set h).version = u.version := by
  rw [updateFields]
  split <;> split <;> rfl

/-- Validation only asks questions. -/
theorem validate_world (dl : Deployment) (noValidation : Bool)
    (w : World σ μ) :
    ((validate e dl noValidation).run (exec e) w).2 = w := by
  rw [validate]
  split
  · rfl
  · rw [perform_bind, run_call]
    split
    · rfl
    · split
      · rfl
      · rw [perform_bind, run_call]
        split <;> (try split) <;> (try split) <;> rfl

/-- A job that is refused leaves every header as it was. -/
theorem refused_header {job : EngineJob} {w : World σ μ}
    (hv : job.validation = some false)
    (h : ((validate e job.target false).run (exec e) w).1 ≠ none) :
    ((processJob e job).run (exec e) w).2.view.header = w.view.header := by
  obtain ⟨err, herr⟩ := Option.ne_none_iff_exists'.mp h
  simp only [processJob, hv]
  rw [run_bind, validate_world, herr]
  show (exec e .dequeue (exec e (.storageError job.target.key err) w).2).2.view.header = _
  rw [exec_view _ rfl]
  have hwrote := exec_storageError (e := e) w job.target.key err
  cases hres : (exec e (.storageError job.target.key err) w).1 with
  | some err' => rw [(hwrote.fails err' hres).2]
  | none =>
      obtain ⟨_, s, hs, hview⟩ := hwrote.ok hres
      rw [hs]
      show (Storage.view s).header = _
      rw [hview, StoreView.error_header]

omit [Zosbase] in
/-- The next version is another version. -/
theorem succ_version_ne (v : UInt32) : v + 1 ≠ v := by
  intro h
  have h1 : v.toNat < 2 ^ 32 := v.toNat_lt
  have h2 : (v.toNat + 1) % 2 ^ 32 = v.toNat := by
    have := congrArg UInt32.toNat h
    rwa [UInt32.toNat_add] at this
  omega

/-- No refused update leaves the deployment as it was: the version is that of
the update, and `Upgrade` only accepts the next one. -/
theorem refused_update_leaves_trace (hlaw : LawfulUpgrade)
    {u : Deployment} {w w₁ w₂ w₃ : World σ μ}
    (h : RefusedUpdate e u w w₁ w₂ w₃) :
    ¬ SameDeployment u.key w.view w₃.view := by
  intro hsame
  obtain ⟨source, ops, hget, hup, hview, hqueue⟩ := update_accepted h.accepted
  obtain ⟨job, rest, hq₁, _, hrefused, hw₃⟩ := h.refused
  obtain ⟨hkey, hheader, hnodup, _⟩ := Storage.get_ok hget
  have hjob : job = .opUpdate u source := by
    rw [hqueue] at hq₁
    simpa using (List.append_cancel_left hq₁).symm
  have hstored : w₃.view.header u.key = w₁.view.header u.key := by
    rw [hw₃, refused_header (by rw [hjob]; rfl) hrefused, h.header]
  have hversion : (w₃.view.header u.key).map (·.version) = some u.version := by
    rw [hstored, hview, StoreView.update_header, if_pos rfl]
    show ((w.view.header u.key).map _).map _ = _
    rw [show w.view.header u.key = some (header source) from hheader]
    simp only [Option.map_some, updateFields_version]
  have hbefore : (w.view.header u.key).map (·.version) = some source.version := by
    rw [show w.view.header u.key = some (header source) from hheader]
    rfl
  have heq := hsame.version
  rw [hversion, hbefore] at heq
  refine succ_version_ne source.version ?_
  rw [← (hlaw _ _ _ hnodup hup).version]
  exact Option.some.inj heq

end

/-! ## A contract whose hash was not set yet

The owner sends the update before the chain knows its hash. -/

namespace HashNotSet

def stored : Deployment := Reference.deployment 0 1 [Reference.workload 0 "a" "d"]

def updated : Deployment := Reference.deployment 1 1 [Reference.workload 1 "a" "e"]

def before : World MapStore Unit :=
  Reference.world (Reference.store [stored]) [⟨1, 2, "a"⟩] []
    ⟨[(2, Reference.contract stored)], []⟩

def accepted : World MapStore Unit :=
  ((update Reference.engine updated).run (exec Reference.engine) before).2

def after : World MapStore Unit :=
  ((processJob Reference.engine (.opUpdate updated stored)).run
    (exec Reference.engine) accepted).2

theorem before_after :
    RefusedUpdate Reference.engine updated before accepted accepted after where
  accepted := Prod.ext (by decide +kernel) rfl
  header := rfl
  workload _ := rfl
  refused := ⟨.opUpdate updated stored, [], by decide +kernel,
    by decide +kernel, by decide +kernel, rfl⟩

end HashNotSet

/-- The witness of the theorem: the hypotheses can be met. -/
theorem refused_update_leaves_trace_reference :
    ¬ SameDeployment HashNotSet.updated.key HashNotSet.before.view
      HashNotSet.after.view :=
  refused_update_leaves_trace Reference.lawful_upgrade HashNotSet.before_after

/-- An update can be refused and have changed the record all the same. -/
theorem refused_update_changes_record :
    ∃ (u : Deployment) (w w₁ w₂ w₃ : World MapStore Unit),
      RefusedUpdate Reference.engine u w w₁ w₂ w₃ ∧
      (w₃.view.header u.key).map (·.version) ≠
        (w.view.header u.key).map (·.version) ∧
      ((w.view.workload u.key "a").map (·.result.state) = some .ok ∧
        (w₃.view.workload u.key "a").map (·.result.state) = some .error) :=
  ⟨_, _, _, _, _, HashNotSet.before_after, by decide +kernel,
    by decide +kernel, by decide +kernel⟩

end Zos4.Provision
