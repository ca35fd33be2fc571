import Zos4.Twins.Twins

/-!
# A key is the key of the twin that was asked for

Requests that need the key of a twin run side by side on one cache, which forgets as it
likes, and the registrar fails and changes its answers. Whatever they do, the key that is
returned for a twin is one that the registrar gave for that twin, and an admin's key is
that of the twin the registrar named for the farm (`keys_are_registrars`). If all the
registrar ever gave for a twin is the encoding of one key, then that is the key.

The invariant is that every entry of the cache was given by the registrar under its id.
-/

namespace Zos4.Twins

open Zos4.Interaction Prog

section

variable [LruCache]

/-- The registrar gave the key for the twin. -/
def Said (s : Known) (twin : UInt64) (key : Key) : Prop :=
  ∃ pk, (twin, pk) ∈ s.keys ∧ Base64.decode pk = some key

/-- What is in the cache was given by the registrar. -/
def Cached (s : Known) : Prop :=
  ∀ id key, LruCache.Has s.mem id key → Said s id.toUInt64 key

/-- What the registrar said stays said. -/
structure Moves (s s' : Known) : Prop where
  keys : s.keys ⊆ s'.keys
  farms : s.farms ⊆ s'.farms
  cached : Cached s → Cached s'

def registrar : Service twinSig Known where
  reply := Answered
  others := Moves
  inv := Cached
  refl _ := ⟨List.Subset.refl _, List.Subset.refl _, fun h => h⟩
  trans h h' := ⟨List.Subset.trans h.keys h'.keys, List.Subset.trans h.farms h'.farms,
    fun hs => h'.cached (h.cached hs)⟩

variable {s s' : Known} {twin : UInt64} {key : Key}

theorem Said.moves (h : Said s twin key) (hmoves : Moves s s') : Said s' twin key := by
  obtain ⟨pk, hpk, hkey⟩ := h
  exact ⟨pk, hmoves.keys hpk, hkey⟩

/-- When a call may be made. -/
def Allow : TwinOp → Known → Prop
  | .memAdd id key, s => Said s id.toUInt64 key
  | _, _ => True

/-- A call that is allowed is a move to everybody else. -/
theorem answered_moves {op : TwinOp} {r : op.Ret} (hallow : Allow op s)
    (h : Answered op s r s') : Moves s s' := by
  cases h with
  | memGet id =>
      refine ⟨List.Subset.refl _, List.Subset.refl _, fun hs id' key hhas => ?_⟩
      exact hs id' key (LruCache.get_has hhas)
  | memAdd id key =>
      refine ⟨List.Subset.refl _, List.Subset.refl _, fun hs id' key' hhas => ?_⟩
      rcases LruCache.add_has hhas with ⟨rfl, rfl⟩ | hold
      · exact hallow
      · exact hs id' key' hold
  | account user =>
      refine ⟨List.subset_cons_self _ _, List.Subset.refl _, fun hs id' key hhas => ?_⟩
      obtain ⟨pk, hpk, hkey⟩ := hs id' key hhas
      exact ⟨pk, List.mem_cons_of_mem _ hpk, hkey⟩
  | noAccount err => exact registrar.refl _
  | farm farm =>
      exact ⟨List.Subset.refl _, List.subset_cons_self _ _, fun hs => hs⟩
  | noFarm err => exact registrar.refl _

theorem keeps : Client.Keeps registrar Allow :=
  ⟨fun _ _ _ _ hinv hallow h => (answered_moves hallow h).cached hinv,
    fun _ _ hinv hmoves => hmoves.cached hinv⟩

theorem tolerates : Crowd.Tolerates registrar Allow :=
  fun _ _ _ _ _ hallow h => answered_moves hallow h

/-! ## The programs -/

/-- What a lookup that succeeds goes with. -/
def Founded (s : Known) : Lookup → Key → Prop
  | .twin id, key => Said s id.toUInt64 key
  | .admin farmID id, key =>
      ∃ twin, (farmID, twin) ∈ s.farms ∧ twin.toUInt32 = id ∧ Said s twin key

theorem Founded.moves {lookup : Lookup} (h : Founded s lookup key) (hmoves : Moves s s') :
    Founded s' lookup key := by
  cases lookup with
  | twin id => exact Said.moves h hmoves
  | admin farmID id =>
      obtain ⟨twin, hfarm, hid, hsaid⟩ := h
      exact ⟨twin, hmoves.farms hfarm, hid, hsaid.moves hmoves⟩

/-- What is returned, if it is a key, is the one that was to be found. -/
def Returns (lookup : Lookup) (r : Except GoError Key) (s : Known) : Prop :=
  ∀ key, r = .ok key → Founded s lookup key

theorem served_error {lookup : Lookup} {err : GoError} :
    (pure (.error err) : TwinM _).Served registrar Allow (Returns lookup) s :=
  fun _ _ _ _ h => by cases h

theorem served_ok {lookup : Lookup} (h : Founded s lookup key) :
    (pure (.ok key) : TwinM _).Served registrar Allow (Returns lookup) s := by
  intro t ht _ key' heq
  cases heq
  exact h.moves ht

omit [LruCache] in
theorem decodeString_ok {text : String} (h : decodeString text = .ok key) :
    Base64.decode text = some key := by
  rw [decodeString] at h
  cases hdecoded : Base64.decode text with
  | none =>
      rw [hdecoded] at h
      cases h
  | some found =>
      rw [hdecoded] at h
      cases h
      rfl

/-- An answer of the registrar that decodes. -/
theorem said_of_account {t : Known} {user : Account}
    (h : Answered (.getTwin twin) s (.ok user) t) (hkey : decodeString user.publicKey = .ok key) :
    Said t twin key := by
  cases h with
  | account => exact ⟨_, List.mem_cons_self, decodeString_ok hkey⟩

theorem memGet_answered {id : UInt32} {found : Option Key}
    (h : Answered (.memGet id) s found s') :
    s'.keys = s.keys ∧ (LruCache.get s.mem id).1 = found := by
  cases h with
  | memGet => exact ⟨rfl, rfl⟩

theorem getKey_served (id : UInt32) :
    (RegistrarTwins.GetKey id).Served registrar Allow (Returns (.twin id)) s := by
  refine served_perform_bind.mpr fun t _ ht => ⟨trivial, fun found u hu => ?_⟩
  cases found with
  | some value =>
      refine served_ok ?_
      obtain ⟨hkeys, hvalue⟩ := memGet_answered hu
      obtain ⟨pk, hpk, hkey⟩ := ht id value (LruCache.get_found hvalue)
      exact ⟨pk, hkeys ▸ hpk, hkey⟩
  | none =>
      refine served_perform_bind.mpr fun v _ _ => ⟨trivial, fun user w hw => ?_⟩
      cases user with
      | error err => exact served_error
      | ok user =>
          dsimp only
          cases hdecoded : decodeString user.publicKey with
          | error err => exact served_error
          | ok key =>
              have hsaid := said_of_account hw hdecoded
              refine served_perform_bind.mpr fun x hx _ => ?_
              have hsaid : Allow (.memAdd id key) x := hsaid.moves hx
              exact ⟨hsaid, fun _ y hy => served_ok (Said.moves hsaid (answered_moves hsaid hy))⟩

/-- The admins are the twin of the farm, under the key of that twin. -/
theorem newRegistrarAdmins_served (farmID : UInt64) :
    (NewRegistrarAdmins farmID).Served registrar Allow
      (fun r s => ∀ admins, r = .ok admins →
        Founded s (.admin farmID admins.twin) admins.pk) s := by
  refine served_perform_bind.mpr fun t _ _ => ⟨trivial, fun farm u hu => ?_⟩
  cases farm with
  | error err => exact fun _ _ _ _ h => by cases h
  | ok farm =>
      have hfarm : (farmID, farm.twinID) ∈ u.farms := by
        cases hu with
        | farm => exact List.mem_cons_self
      refine served_perform_bind.mpr fun v hv _ => ⟨trivial, fun twin w hw => ?_⟩
      cases twin with
      | error err => exact fun _ _ _ _ h => by cases h
      | ok twin =>
          dsimp only
          cases hdecoded : decodeString twin.publicKey with
          | error err => exact fun _ _ _ _ h => by cases h
          | ok key =>
              intro x hx _ admins heq
              cases heq
              have hmoves := answered_moves (show Allow (.getTwin _) v from trivial) hw
              have hfound : Founded w (.admin farmID farm.twinID.toUInt32) key :=
                ⟨farm.twinID, hmoves.farms (hv.farms hfarm), rfl, said_of_account hw hdecoded⟩
              exact hfound.moves hx

theorem job_served (lookup : Lookup) (s : Known) :
    lookup.job.Served registrar Allow (Returns lookup) s := by
  cases lookup with
  | twin id => exact getKey_served id
  | admin farmID id =>
      refine (newRegistrarAdmins_served farmID).bind fun admins t _ ht => ?_
      cases admins with
      | error err => exact served_error
      | ok admins =>
          dsimp only
          rw [RegistrarAdmins.GetKey]
          split
          · exact served_error
          · next hid =>
              rw [Decidable.not_not] at hid
              exact served_ok (hid ▸ ht admins rfl)

/-! ## Side by side -/

def fresh : Known := ⟨LruCache.new, [], []⟩

/-- The key that is returned for a twin is one the registrar gave for it, and the key
itself if that is all it ever gave; the key of an admin is that of the farm's twin. -/
theorem keys_are_registrars {m : Crowd twinSig Known Lookup (Except GoError Key)}
    (hrun : Crowd.Run registrar Lookup.job ⟨fresh, []⟩ m) :
    (∀ id key, (.twin id, .ret (.ok key)) ∈ m.threads → Said m.state id.toUInt64 key ∧
      ∀ pk, (∀ text, (id.toUInt64, text) ∈ m.state.keys →
        (text.toList.filter fun c => !Base64.isBreak c) = Base64.encodeChars pk) →
        key = pk) ∧
    ∀ farmID id key, (.admin farmID id, .ret (.ok key)) ∈ m.threads →
      ∃ twin, (farmID, twin) ∈ m.state.farms ∧ twin.toUInt32 = id ∧ Said m.state twin key := by
  have hstart : Crowd.Holds registrar Allow Returns ⟨fresh, []⟩ := by
    refine ⟨fun id key hhas => absurd hhas LruCache.new_has, fun i p hp => ?_⟩
    cases hp
  have h := Crowd.run_holds keeps tolerates (fun i s _ => job_served i s) hstart hrun
  refine ⟨fun id key hmem => ?_, fun farmID id key hmem => h.returned hmem key rfl⟩
  have hsaid : Said m.state id.toUInt64 key := h.returned hmem key rfl
  refine ⟨hsaid, fun pk hpk => ?_⟩
  obtain ⟨text, htext, hkey⟩ := hsaid
  rw [Base64.decode_of_encode (hpk text htext)] at hkey
  exact (Option.some.inj hkey).symm

end

/-! ## Three requests for one twin -/

namespace ThreeRequests

abbrev Entries := List (UInt32 × Key)

def others (c : Entries) (id : UInt32) : Entries := c.filter fun entry => entry.1 ≠ id

/-- A cache of 1024 entries, the one used last at the front. -/
instance (priority := low) lru : LruCache where
  Cache := Entries
  new := []
  get c id :=
    match c.lookup id with
    | some key => (some key, (id, key) :: others c id)
    | none => (none, c)
  add c id key := ((id, key) :: others c id).take 1024
  Has c id key := (id, key) ∈ c
  new_has h := by cases h
  get_found {c id key} h := by
    cases hlookup : c.lookup id with
    | none =>
        simp only [hlookup] at h
        cases h
    | some found =>
        simp only [hlookup] at h
        cases h
        obtain ⟨before, after, rfl, _⟩ := List.lookup_eq_some_iff.mp hlookup
        simp
  get_has {c id id' key} h := by
    cases hlookup : c.lookup id with
    | none =>
        simp only [hlookup] at h
        exact h
    | some found =>
        simp only [hlookup] at h
        rcases List.mem_cons.mp h with heq | h
        · cases heq
          obtain ⟨before, after, rfl, _⟩ := List.lookup_eq_some_iff.mp hlookup
          simp
        · exact (List.mem_filter.mp h).1
  add_has {c id key id' key'} h := by
    rcases List.mem_cons.mp (List.mem_of_mem_take h) with heq | h
    · cases heq
      exact .inl ⟨rfl, rfl⟩
    · exact .inr ((List.mem_filter.mp h).1)

/-- Both miss the cache, one after the other gets the key from the registrar, and a third
finds it in the cache. -/
theorem run : ∃ m : Crowd twinSig Known Lookup (Except GoError Key),
    Crowd.Run registrar Lookup.job ⟨fresh, []⟩ m ∧
      m.threads.map Prod.fst = [.twin 7, .twin 7, .twin 7] ∧
      ∀ thread ∈ m.threads, thread.2 = .ret (.ok [1, 2, 3]) := by
  have hrun := (((Relation.ReflTransGen.refl
    (r := Crowd.Step registrar Lookup.job) (a := ⟨fresh, []⟩)).tail
    (.start (.twin 7))).tail (.start (.twin 7))).tail (.start (.twin 7))
  have hrun := hrun.tail (.call (n := 0) rfl (.memGet 7))
  have hrun := hrun.tail (.call (n := 1) rfl (.memGet 7))
  have hrun := hrun.tail (.call (n := 0) rfl (.account ⟨"AQID"⟩))
  have hrun := hrun.tail (.call (n := 1) rfl (.account ⟨"AQID"⟩))
  have hrun := hrun.tail (.call (n := 0) rfl (.memAdd 7 [1, 2, 3]))
  have hrun := hrun.tail (.call (n := 1) rfl (.memAdd 7 [1, 2, 3]))
  have hrun := hrun.tail (.call (n := 2) rfl (.memGet 7))
  refine ⟨_, hrun, rfl, ?_⟩
  intro thread hthread
  rcases List.mem_cons.mp hthread with rfl | hthread
  · rfl
  · rcases List.mem_cons.mp hthread with rfl | hthread
    · rfl
    · cases List.mem_singleton.mp hthread
      rfl

end ThreeRequests

theorem keys_are_registrars_thrice : ∃ m : Crowd twinSig Known Lookup (Except GoError Key),
    (∀ thread ∈ m.threads, thread.2 = .ret (.ok [1, 2, 3])) ∧
    (∀ id key, (.twin id, .ret (.ok key)) ∈ m.threads → Said m.state id.toUInt64 key ∧
      ∀ pk, (∀ text, (id.toUInt64, text) ∈ m.state.keys →
        (text.toList.filter fun c => !Base64.isBreak c) = Base64.encodeChars pk) →
        key = pk) ∧
    ∀ farmID id key, (.admin farmID id, .ret (.ok key)) ∈ m.threads →
      ∃ twin, (farmID, twin) ∈ m.state.farms ∧ twin.toUInt32 = id ∧
        Said m.state twin key := by
  obtain ⟨m, hrun, _, hthreads⟩ := ThreeRequests.run
  exact ⟨m, hthreads, keys_are_registrars hrun⟩

end Zos4.Twins
