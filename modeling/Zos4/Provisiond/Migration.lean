import Mathlib.Data.List.Sort
import Mathlib.Data.List.Dedup
import Zos4.Gridtypes
import Zos4.Interaction.Prog

/-!
# Moving the file store into the new one

`storageMigration` runs once, at the first start after the node has been
upgraded: it walks over the twins of the old store and over the deployments of
each, and writes every one into the new store. When it returns nil the caller
removes the old store altogether, so the answer nil has to mean that everything
has been moved.

It does not, for one reason. A deployment that can not be read or written is
counted, and the function then returns an error; a twin whose deployments can
not be listed is only logged, and is passed over as if it had none. The theorem
at the end says which patterns of failures are harmless, and it is an
equivalence: a failure of another call makes the answer an error, and the
deployments of a twin passed over survive only if the new store had them
already.
-/

namespace Zos4.Provisiond

open Zos4.Interaction Prog

/-! ## The two stores -/

/-- The old store: one deployment to a key. -/
structure FsStore where
  deployments : List Deployment
  nodup : (deployments.map Deployment.key).Nodup

def FsStore.delete (fs : FsStore) (key : DeploymentKey) : FsStore where
  deployments := fs.deployments.filter fun d => d.key ≠ key
  nodup := fs.nodup.sublist (List.filter_sublist.map _)

def FsStore.twins (fs : FsStore) : List TwinID :=
  (fs.deployments.map (·.twinID)).dedup

def FsStore.byTwin (fs : FsStore) (twin : TwinID) : List ContractID :=
  (fs.deployments.filter fun d => d.twinID = twin).map (·.contractID)

def FsStore.get (fs : FsStore) (key : DeploymentKey) : Option Deployment :=
  fs.deployments.find? fun d => d.key = key

theorem FsStore.eq_of_key {fs : FsStore} {d e : Deployment}
    (hd : d ∈ fs.deployments) (he : e ∈ fs.deployments) (h : d.key = e.key) :
    d = e := List.inj_on_of_nodup_map fs.nodup hd he h

theorem FsStore.get_of_mem {fs : FsStore} {d : Deployment}
    (hd : d ∈ fs.deployments) : fs.get d.key = some d := by
  cases hget : fs.get d.key with
  | none =>
      have hno := List.find?_eq_none.1 hget d hd
      simp at hno
  | some e =>
      have he : e ∈ fs.deployments := List.mem_of_find?_eq_some hget
      have hkey : e.key = d.key := by simpa using List.find?_some hget
      rw [FsStore.eq_of_key he hd hkey]

@[simp] theorem FsStore.mem_delete {fs : FsStore} {key : DeploymentKey}
    {d : Deployment} :
    d ∈ (fs.delete key).deployments ↔ d ∈ fs.deployments ∧ d.key ≠ key := by
  simp [FsStore.delete]

@[simp] theorem FsStore.mem_twins {fs : FsStore} {twin : TwinID} :
    twin ∈ fs.twins ↔ ∃ d ∈ fs.deployments, d.twinID = twin := by
  simp [FsStore.twins]

@[simp] theorem FsStore.mem_byTwin {fs : FsStore} {twin : TwinID}
    {id : ContractID} :
    id ∈ fs.byTwin twin ↔
      ∃ d ∈ fs.deployments, d.twinID = twin ∧ d.contractID = id := by
  simp only [FsStore.byTwin, List.mem_map, List.mem_filter, decide_eq_true_eq]
  constructor
  · rintro ⟨d, ⟨hd, ht⟩, hid⟩; exact ⟨d, hd, ht, hid⟩
  · rintro ⟨d, hd, ht, hid⟩; exact ⟨d, ⟨hd, ht⟩, hid⟩

theorem FsStore.nodup_byTwin (fs : FsStore) (twin : TwinID) :
    (fs.byTwin twin).Nodup := by
  have hkeys : ((fs.deployments.filter fun d => d.twinID = twin).map
      Deployment.key).Nodup := fs.nodup.sublist (List.filter_sublist.map _)
  rw [FsStore.byTwin, List.nodup_map_iff_inj_on (List.Nodup.of_map _ hkeys)]
  intro d hd e he hid
  simp only [List.mem_filter, decide_eq_true_eq] at hd he
  apply FsStore.eq_of_key hd.1 he.1
  simp [Deployment.key, hd.2, he.2, hid]

/-- The old store and the new one, a map from keys to deployments of which only
what it holds matters here. -/
structure Stores where
  fs : FsStore
  bolt : List Deployment

/-- `Migrate`: the deployment under its key, in place of what was there. -/
def boltPut (bolt : List Deployment) (d : Deployment) : List Deployment :=
  d :: bolt.filter fun e => e.key ≠ d.key

theorem mem_boltPut {bolt : List Deployment} {d e : Deployment} :
    e ∈ boltPut bolt d ↔ e = d ∨ e ∈ bolt ∧ e.key ≠ d.key := by
  simp [boltPut]

/-! ## The migration -/

inductive MigrationOp where
  | twins
  | byTwin (twin : TwinID)
  | get (twin : TwinID) (dl : ContractID)
  | migrate (deployment : Deployment)
  | delete (deployment : Deployment)

abbrev MigrationOp.Ret : MigrationOp → Type
  | .twins => Except GoError (List TwinID)
  | .byTwin _ => Except GoError (List ContractID)
  | .get _ _ => Except GoError Deployment
  | .migrate _ | .delete _ => Option GoError

abbrev migrationSig : Sig := ⟨MigrationOp, MigrationOp.Ret⟩

abbrev MigrationM := Prog migrationSig

/-- A call of the migration, typed. -/
abbrev call (op : MigrationOp) : MigrationM op.Ret := @perform migrationSig op

def migrateDeployment (twin : TwinID) (errorred : Bool) (dl : ContractID) :
    MigrationM Bool := do
  match ← call (.get twin dl) with
  | .error _ => pure true
  | .ok deployment =>
      match ← call (.migrate deployment) with
      | some _ => pure true
      | none =>
          -- a deployment that stays in the old store is only logged
          let _ ← call (.delete deployment)
          pure errorred

def migrateTwin (errorred : Bool) (twin : TwinID) : MigrationM Bool := do
  match ← call (.byTwin twin) with
  | .error _ => pure errorred
  | .ok dls =>
      (dls.insertionSort (· ≤ ·)).foldlM (migrateDeployment twin) errorred

def storageMigration : MigrationM (Option GoError) := do
  match ← call .twins with
  | .error err => pure (some err)
  | .ok twins =>
      match ← twins.foldlM migrateTwin false with
      | true => pure (some (.text "not all deployments where migrated"))
      | false => pure none

/-- What the stores answer. `fails` is the pattern of failures: the migration
makes every call at most once, so a pattern says of each whether it fails. -/
def answer (fails : MigrationOp → Option GoError) : Handler migrationSig Stores
  | .twins, s => (match fails .twins with
      | some err => .error err
      | none => .ok s.fs.twins, s)
  | .byTwin twin, s => (match fails (.byTwin twin) with
      | some err => .error err
      | none => .ok (s.fs.byTwin twin), s)
  | .get twin dl, s => (match fails (.get twin dl), s.fs.get ⟨twin, dl⟩ with
      | some err, _ => .error err
      | none, some d => .ok d
      | none, none => .error (.sentinel .deploymentNotExists), s)
  | .migrate d, s => match fails (.migrate d) with
      | some err => (some err, s)
      | none => (none, { s with bolt := boltPut s.bolt d })
  | .delete d, s => match fails (.delete d) with
      | some err => (some err, s)
      | none => (none, { s with fs := s.fs.delete d.key })


/-! ## What it moves -/

section

variable (fails : MigrationOp → Option GoError)

/-- The twin of the deployment can be listed. -/
def Listed (d : Deployment) : Prop := fails (.byTwin d.twinID) = none

/-- The deployment can be read and written. -/
def Moves (d : Deployment) : Prop :=
  fails (.get d.twinID d.contractID) = none ∧ fails (.migrate d) = none

instance (d : Deployment) : Decidable (Listed fails d) :=
  inferInstanceAs (Decidable (_ = _))

instance (d : Deployment) : Decidable (Moves fails d) :=
  inferInstanceAs (Decidable (_ ∧ _))

/-- The state of the loops, with `left` the deployments not reached yet: those
are where they were, and the ones passed are in the new store or counted,
except that the deployments of a twin that could not be listed are where they
were as well. -/
structure Progress (s₀ : Stores) (left : Deployment → Prop) (errorred : Bool)
    (s : Stores) : Prop where
  present : ∀ d ∈ s₀.fs.deployments, left d → d ∈ s.fs.deployments
  only : ∀ d ∈ s.fs.deployments, d ∈ s₀.fs.deployments
  counted : errorred = true ↔
    ∃ d ∈ s₀.fs.deployments, ¬ left d ∧ Listed fails d ∧ ¬ Moves fails d
  moved : ∀ d ∈ s₀.fs.deployments, ¬ left d → Listed fails d → Moves fails d →
    d ∈ s.bolt
  kept : ∀ d ∈ s₀.fs.deployments, left d ∨ ¬ Listed fails d →
    (d ∈ s.bolt ↔ d ∈ s₀.bolt)

variable {fails} {s₀ s : Stores} {errorred : Bool}

theorem Progress.start (hn : s = s₀) : Progress fails s₀
    (fun d => d ∈ s₀.fs.deployments) false s := by
  subst hn
  constructor
  · exact fun d hd _ => hd
  · exact fun d hd => hd
  · simp only [Bool.false_eq_true, false_iff]
    rintro ⟨d, hd, hleft, _⟩
    exact hleft hd
  · exact fun d hd hleft => absurd hd hleft
  · exact fun d _ _ => Iff.rfl

/-- What is left may be described another way. -/
theorem Progress.congr {left left' : Deployment → Prop}
    (h : Progress fails s₀ left errorred s)
    (heq : ∀ d ∈ s₀.fs.deployments, left d ↔ left' d) :
    Progress fails s₀ left' errorred s where
  present d hd hl := h.present d hd ((heq d hd).2 hl)
  only := h.only
  counted := by
    rw [h.counted]
    constructor
    · rintro ⟨d, hd, hl, hrest⟩
      exact ⟨d, hd, fun hl' => hl ((heq d hd).2 hl'), hrest⟩
    · rintro ⟨d, hd, hl, hrest⟩
      exact ⟨d, hd, fun hl' => hl ((heq d hd).1 hl'), hrest⟩
  moved d hd hl := h.moved d hd fun hl' => hl ((heq d hd).1 hl')
  kept d hd hl := h.kept d hd (hl.imp_left (heq d hd).2)

/-- What one round of the inner loop does to the stores. -/
theorem migrateDeployment_run {twin : TwinID} {dl : ContractID} {d : Deployment}
    (hget : s.fs.get ⟨twin, dl⟩ = some d) :
    (migrateDeployment twin errorred dl).run (answer fails) s =
      if fails (.get twin dl) = none ∧ fails (.migrate d) = none then
        (errorred,
          { fs := if fails (.delete d) = none then s.fs.delete d.key else s.fs
            bolt := boltPut s.bolt d })
      else (true, s) := by
  simp only [migrateDeployment, call, perform, call_bind, ret_bind, run_call,
    answer, hget]
  cases fails (.get twin dl) with
  | some err => simp
  | none =>
      simp only [run_call, answer, true_and]
      cases fails (.migrate d) with
      | some err => simp
      | none =>
          simp only [run_call, answer, if_true]
          cases fails (.delete d) <;> rfl

theorem migrateTwin_run_error {twin : TwinID} {err : GoError}
    (h : fails (.byTwin twin) = some err) :
    (migrateTwin errorred twin).run (answer fails) s = (errorred, s) := by
  simp only [migrateTwin, call, perform, call_bind, ret_bind, run_call, answer, h]
  rfl

theorem migrateTwin_run {twin : TwinID} (h : fails (.byTwin twin) = none) :
    (migrateTwin errorred twin).run (answer fails) s =
      (((s.fs.byTwin twin).insertionSort (· ≤ ·)).foldlM (migrateDeployment twin)
        errorred).run (answer fails) s := by
  simp only [migrateTwin, call, perform, call_bind, ret_bind, run_call, answer, h]

/-- One deployment of a twin that could be listed. -/
theorem Progress.deployment {left : Deployment → Prop} {d : Deployment}
    (h : Progress fails s₀ left errorred s) (hd : d ∈ s₀.fs.deployments)
    (hleft : left d) (hlisted : Listed fails d)
    {r : Bool × Stores}
    (hr : r = (migrateDeployment d.twinID errorred d.contractID).run
      (answer fails) s) :
    Progress fails s₀ (fun e => left e ∧ e ≠ d) r.1 r.2 := by
  rw [migrateDeployment_run (FsStore.get_of_mem (h.present d hd hleft))] at hr
  -- two deployments of the old store under one key are one
  have hkey : ∀ e ∈ s₀.fs.deployments, e ≠ d → e.key ≠ d.key :=
    fun e he hne heq => hne (FsStore.eq_of_key he hd heq)
  have hpassed : ∀ e, ¬ (left e ∧ e ≠ d) → e = d ∨ ¬ left e := by
    intro e he
    by_cases hed : e = d
    · exact .inl hed
    · exact .inr fun hl => he ⟨hl, hed⟩
  split at hr
  next hmoves =>
    subst hr
    constructor
    · rintro e he ⟨hl, hne⟩
      have hs := h.present e he hl
      dsimp only
      split
      · exact FsStore.mem_delete.2 ⟨hs, hkey e he hne⟩
      · exact hs
    · intro e he
      dsimp only at he
      split at he
      · exact h.only e (FsStore.mem_delete.1 he).1
      · exact h.only e he
    · rw [h.counted]
      constructor
      · rintro ⟨e, he, hl, hrest⟩
        exact ⟨e, he, fun hl' => hl hl'.1, hrest⟩
      · rintro ⟨e, he, hl, hlist, hnot⟩
        rcases hpassed e hl with rfl | hl
        · exact absurd hmoves hnot
        · exact ⟨e, he, hl, hlist, hnot⟩
    · intro e he hl hlist hmove
      rw [mem_boltPut]
      rcases hpassed e hl with rfl | hl
      · exact .inl rfl
      · have hne : e ≠ d := fun heq => hl (heq ▸ hleft)
        exact .inr ⟨h.moved e he hl hlist hmove, hkey e he hne⟩
    · intro e he hcase
      have hne : e ≠ d := by
        rintro rfl
        rcases hcase with hl | hlist
        · exact hl.2 rfl
        · exact hlist hlisted
      rw [mem_boltPut, ← h.kept e he (hcase.imp_left And.left)]
      simp [hne, hkey e he hne]
  next hmoves =>
    subst hr
    constructor
    · exact fun e he hl => h.present e he hl.1
    · exact h.only
    · simp only [true_iff]
      exact ⟨d, hd, fun hl => hl.2 rfl, hlisted, hmoves⟩
    · intro e he hl hlist hmove
      rcases hpassed e hl with rfl | hl
      · exact absurd hmove hmoves
      · exact h.moved e he hl hlist hmove
    · exact fun e he hcase => h.kept e he (hcase.imp_left And.left)

/-- A twin that could not be listed is passed over. -/
theorem Progress.passedOver {twin : TwinID} {rest : List TwinID} {err : GoError}
    (hby : fails (.byTwin twin) = some err)
    (h : Progress fails s₀ (fun d => d.twinID ∈ twin :: rest) errorred s) :
    Progress fails s₀ (fun d => d.twinID ∈ rest) errorred s := by
  have hleft : ∀ d, d.twinID ∉ rest → Listed fails d → d.twinID ∉ twin :: rest := by
    intro d hd hlist hmem
    rcases List.mem_cons.1 hmem with htwin | hmem
    · rw [Listed, htwin, hby] at hlist
      cases hlist
    · exact hd hmem
  constructor
  · exact fun d hd hl => h.present d hd (List.mem_cons_of_mem _ hl)
  · exact h.only
  · rw [h.counted]
    constructor
    · intro ⟨d, hd, hl, hmore⟩
      exact ⟨d, hd, fun hl' => hl (List.mem_cons_of_mem _ hl'), hmore⟩
    · intro ⟨d, hd, hl, hlist, hmore⟩
      exact ⟨d, hd, hleft d hl hlist, hlist, hmore⟩
  · exact fun d hd hl hlist => h.moved d hd (hleft d hl hlist) hlist
  · exact fun d hd hcase => h.kept d hd (hcase.imp_left (List.mem_cons_of_mem _))

/-- The state of the inner loop, which has the ids of `dls` left: each of them
once, and each of a deployment of the old store. -/
structure TwinProgress (fails : MigrationOp → Option GoError) (s₀ : Stores)
    (twin : TwinID) (rest : List TwinID) (errorred : Bool) (dls : List ContractID)
    (s : Stores) : Prop where
  nodup : dls.Nodup
  stored : ∀ id ∈ dls, ∃ d ∈ s₀.fs.deployments, d.twinID = twin ∧ d.contractID = id
  progress : Progress fails s₀
    (fun d => d.twinID ∈ rest ∨ d.twinID = twin ∧ d.contractID ∈ dls) errorred s

theorem TwinProgress.start {twin : TwinID} {rest : List TwinID}
    (h : Progress fails s₀ (fun d => d.twinID ∈ twin :: rest) errorred s) :
    TwinProgress fails s₀ twin rest errorred
      ((s.fs.byTwin twin).insertionSort (· ≤ ·)) s := by
  have hperm := List.perm_insertionSort (· ≤ ·) (s.fs.byTwin twin)
  have hmem : ∀ id, id ∈ (s.fs.byTwin twin).insertionSort (· ≤ ·) ↔
      ∃ d ∈ s₀.fs.deployments, d.twinID = twin ∧ d.contractID = id := by
    intro id
    rw [hperm.mem_iff, FsStore.mem_byTwin]
    constructor
    · intro ⟨d, hd, htwin, hid⟩
      exact ⟨d, h.only d hd, htwin, hid⟩
    · intro ⟨d, hd, htwin, hid⟩
      exact ⟨d, h.present d hd (by simp [htwin]), htwin, hid⟩
  constructor
  · exact hperm.nodup_iff.2 (s.fs.nodup_byTwin twin)
  · exact fun id hid => (hmem id).1 hid
  · refine h.congr fun d hd => ?_
    rw [List.mem_cons, hmem]
    constructor
    · intro hleft
      rcases hleft with htwin | hl
      · exact .inr ⟨htwin, d, hd, htwin, rfl⟩
      · exact .inl hl
    · intro hleft
      rcases hleft with hl | ⟨htwin, _⟩
      · exact .inr hl
      · exact .inl htwin

theorem TwinProgress.step {twin : TwinID} {rest : List TwinID}
    (hrest : twin ∉ rest) (hby : fails (.byTwin twin) = none) {id : ContractID}
    {ids : List ContractID}
    (h : TwinProgress fails s₀ twin rest errorred (id :: ids) s) :
    TwinProgress fails s₀ twin rest
      ((migrateDeployment twin errorred id).run (answer fails) s).1 ids
      ((migrateDeployment twin errorred id).run (answer fails) s).2 := by
  obtain ⟨hid, hnodup⟩ := List.nodup_cons.1 h.nodup
  obtain ⟨d, hd, rfl, rfl⟩ := h.stored id (by simp)
  constructor
  · exact hnodup
  · exact fun id hid => h.stored id (by simp [hid])
  · refine (h.progress.deployment hd (.inr ⟨rfl, by simp⟩) hby rfl).congr ?_
    intro e he
    constructor
    · intro ⟨hleft, hne⟩
      rcases hleft with hl | ⟨htwin, hmem⟩
      · exact .inl hl
      · rcases List.mem_cons.1 hmem with hmem | hmem
        · have hkey : e.key = d.key := by simp [Deployment.key, htwin, hmem]
          exact absurd (FsStore.eq_of_key he hd hkey) hne
        · exact .inr ⟨htwin, hmem⟩
    · intro hleft
      rcases hleft with hl | ⟨htwin, hmem⟩
      · exact ⟨.inl hl, fun heq => hrest (heq ▸ hl)⟩
      · exact ⟨.inr ⟨htwin, by simp [hmem]⟩, fun heq => hid (heq ▸ hmem)⟩

/-- All the deployments of one twin: those of twins in `rest` are left. -/
theorem Progress.twin {twin : TwinID} {rest : List TwinID}
    (hrest : twin ∉ rest)
    (h : Progress fails s₀ (fun d => d.twinID ∈ twin :: rest) errorred s) :
    Progress fails s₀ (fun d => d.twinID ∈ rest)
      ((migrateTwin errorred twin).run (answer fails) s).1
      ((migrateTwin errorred twin).run (answer fails) s).2 := by
  cases hby : fails (.byTwin twin) with
  | some err =>
      rw [migrateTwin_run_error hby]
      exact h.passedOver hby
  | none =>
      rw [migrateTwin_run hby]
      have hend := run_foldlM (TwinProgress fails s₀ twin rest)
        (fun _ _ _ _ h => h.step hrest hby) (TwinProgress.start h)
      exact hend.progress.congr fun d _ => by simp

theorem storageMigration_run (h : fails .twins = none) :
    storageMigration.run (answer fails) s =
      ((match ((s.fs.twins.foldlM migrateTwin false).run (answer fails) s).1 with
        | true => some (.text "not all deployments where migrated")
        | false => none),
        ((s.fs.twins.foldlM migrateTwin false).run (answer fails) s).2) := by
  simp only [storageMigration, call, perform, call_bind, ret_bind, run_call, answer,
    h, run_bind]
  cases ((s.fs.twins.foldlM migrateTwin false).run (answer fails) s).1 <;> rfl

/-- Where the migration ends, when the twins can be listed. -/
theorem storageMigration_progress (hnone : fails .twins = none) :
    ∃ errorred, Progress fails s₀ (fun _ => False) errorred
        (storageMigration.run (answer fails) s₀).2 ∧
      ((storageMigration.run (answer fails) s₀).1 = none ↔ errorred = false) := by
  let I : Bool → List TwinID → Stores → Prop := fun b twins t =>
    twins.Nodup ∧ Progress fails s₀ (fun d => d.twinID ∈ twins) b t
  have hbody : ∀ b twin rest t, I b (twin :: rest) t →
      I ((migrateTwin b twin).run (answer fails) t).1 rest
        ((migrateTwin b twin).run (answer fails) t).2 := by
    rintro b twin rest t ⟨hnodup, hprog⟩
    rw [List.nodup_cons] at hnodup
    exact ⟨hnodup.2, hprog.twin hnodup.1⟩
  have hstart : I false s₀.fs.twins s₀ := by
    refine ⟨List.nodup_dedup _, (Progress.start rfl).congr ?_⟩
    intro d hd
    simp only [hd, true_iff, FsStore.mem_twins]
    exact ⟨d, hd, rfl⟩
  have hend := (run_foldlM I hbody hstart).2
  rw [storageMigration_run hnone]
  refine ⟨_, hend.congr fun d _ => by simp, ?_⟩
  cases ((s₀.fs.twins.foldlM migrateTwin false).run (answer fails) s₀).1 <;> simp

theorem storageMigration_run_error {err : GoError} (h : fails .twins = some err) :
    (storageMigration.run (answer fails) s).1 = some err := by
  simp only [storageMigration, call, perform, call_bind, ret_bind, run_call, answer, h]
  rfl

/-- The migration is complete, as its answer nil promises, exactly when the
twins can not be listed, or a deployment it reaches can not be moved, or the
deployments it passes over have been moved before. -/
theorem migration_complete_iff (fails : MigrationOp → Option GoError) (s : Stores) :
    ((storageMigration.run (answer fails) s).1 = none →
      ∀ d ∈ s.fs.deployments, d ∈ (storageMigration.run (answer fails) s).2.bolt) ↔
    fails .twins ≠ none ∨
      (∃ d ∈ s.fs.deployments, Listed fails d ∧ ¬ Moves fails d) ∨
      ∀ d ∈ s.fs.deployments, ¬ Listed fails d → d ∈ s.bolt := by
  cases htwins : fails .twins with
  | some err => simp [storageMigration_run_error htwins]
  | none =>
      obtain ⟨errorred, hprog, hanswer⟩ :
          ∃ errorred, Progress fails s (fun _ => False) errorred _ ∧ _ :=
        storageMigration_progress htwins
      have hcounted := hprog.counted
      rw [hanswer]
      simp only [not_false_eq_true, true_and] at hcounted
      simp only [ne_eq, not_true_eq_false, false_or]
      rw [← hcounted]
      constructor
      · intro hcomplete
        cases errorred with
        | true => exact .inl rfl
        | false =>
            refine .inr fun d hd hnot => ?_
            exact (hprog.kept d hd (.inr hnot)).1 (hcomplete rfl d hd)
      · rintro (rfl | hold) hfalse d hd
        · cases hfalse
        · by_cases hlist : Listed fails d
          · by_cases hmoves : Moves fails d
            · exact hprog.moved d hd (fun h => h) hlist hmoves
            · have htrue := hcounted.2 ⟨d, hd, hlist, hmoves⟩
              rw [hfalse] at htrue
              cases htrue
          · exact (hprog.kept d hd (.inr hlist)).2 (hold d hd hlist)

end

/-- A store of one deployment, whose twin's directory can not be read. -/
def unlistedStore : Stores where
  fs :=
    { deployments := [⟨0, 7, 40, "", "", 0, ⟨""⟩, []⟩]
      nodup := by decide }
  bolt := []

def unlistedTwin : MigrationOp → Option GoError
  | .byTwin _ => some (.text "failed to list twin directory")
  | _ => none

/-- The migration answers nil and the new store is empty. -/
theorem migration_loses_unlisted :
    ¬ ((storageMigration.run (answer unlistedTwin) unlistedStore).1 = none →
      ∀ d ∈ unlistedStore.fs.deployments,
        d ∈ (storageMigration.run (answer unlistedTwin) unlistedStore).2.bolt) := by
  decide +kernel

end Zos4.Provisiond
