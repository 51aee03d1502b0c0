import WombatKV.Node.KvRuns
import WombatKV.Proofs.Store.ObjectStore

/-! What the calls of the key-value store do to its tiers. -/

namespace WombatKV

open ObjectStore Call

namespace FlatFileKvBlobCache

variable {cache : FlatFileKvBlobCache} {key file : Text} {payload found : Bytes} {ok : Bool}

theorem put_cases (present : (cache.put key payload ok).files[file]? = some found) :
    cache.files[file]? = some found ∨ file = pathForKey key ∧ found = payload := by
  unfold put at present
  cases ok with
  | false => exact .inl present
  | true =>
    rw [if_pos rfl, Std.ExtTreeMap.getElem?_insert] at present
    split at present
    · rename_i same
      exact .inr ⟨(by simpa using same : pathForKey key = file).symm,
        (Option.some.inj present).symm⟩
    · exact .inl present

theorem remove_cases (present : (cache.remove key ok).files[file]? = some found) :
    cache.files[file]? = some found := by
  unfold remove at present
  cases ok with
  | false => exact present
  | true =>
    rw [if_pos rfl, Std.ExtTreeMap.getElem?_erase] at present
    split at present
    · cases present
    · exact present

end FlatFileKvBlobCache

variable {key : Text} {zstd : Zstd} {store : WombatKVKvStore}

theorem erase_cases {entries : Std.ExtTreeMap Text Bytes} {lost : Text} {found : Bytes}
    (present : (entries.erase lost)[key]? = some found) : entries[key]? = some found := by
  rw [Std.ExtTreeMap.getElem?_erase] at present
  split at present
  · cases present
  · exact present

theorem FoyerHybridCache.put_cases {cache : FoyerHybridCache} {other : Text} {payload found : Bytes}
    (present : (cache.put key payload).entries[other]? = some found) :
    cache.entries[other]? = some found ∨ other = key ∧ found = payload := by
  rw [put, Std.ExtTreeMap.getElem?_insert] at present
  split at present
  · rename_i same
    exact .inr ⟨(by simpa using same : key = other).symm, (Option.some.inj present).symm⟩
  · exact .inl present

theorem encodeForStorage_eq_ok {payload stored : Bytes} {cfg : BlockCompressionConfig} :
    encodeForStorage zstd payload cfg key = .ok stored ↔
      encodeWithHeader zstd payload cfg = .ok stored := by
  unfold encodeForStorage
  split
  · cases encodeWithHeader zstd payload cfg <;> simp [Except.mapError]
  · -- Without an algorithm both hand the payload on as it is.
    rename_i disabled
    have algo : cfg.algo = .none := by simpa [BlockCompressionConfig.isEnabled] using disabled
    simp [encodeWithHeader, algo]

namespace WombatKVKvStore

variable {store after : WombatKVKvStore}

structure SameSetup (before after : WombatKVKvStore) : Prop where
  s3Prefix : after.s3Prefix = before.s3Prefix
  writeThroughS3 : after.writeThroughS3 = before.writeThroughS3
  compression : after.compression = before.compression
  zstd : after.zstd = before.zstd
  putPolicy : after.objectStore.putPolicy = before.objectStore.putPolicy

def setup (store : WombatKVKvStore) : Text × Bool × BlockCompressionConfig × Zstd × PutPolicy :=
  (store.s3Prefix, store.writeThroughS3, store.compression, store.zstd, store.objectStore.putPolicy)

theorem SameSetup.of (same : after.setup = store.setup) : SameSetup store after := by
  simp only [setup, Prod.mk.injEq] at same
  obtain ⟨s3Prefix, writeThroughS3, compression, zstd, putPolicy⟩ := same
  exact ⟨s3Prefix, writeThroughS3, compression, zstd, putPolicy⟩

theorem SameSetup.refl (store : WombatKVKvStore) : SameSetup store store := .of rfl

theorem SameSetup.trans {before between : WombatKVKvStore} (first : SameSetup before between)
    (second : SameSetup between after) : SameSetup before after :=
  ⟨second.s3Prefix.trans first.s3Prefix, second.writeThroughS3.trans first.writeThroughS3,
    second.compression.trans first.compression, second.zstd.trans first.zstd,
    second.putPolicy.trans first.putPolicy⟩

theorem SameSetup.objectKey (same : SameSetup store after) (ns key : Text) :
    after.objectKey ns key = store.objectKey ns key := by
  simp only [WombatKVKvStore.objectKey, same.s3Prefix]

theorem SameSetup.fileName (same : SameSetup store after) (ns key : Text) :
    after.fileName ns key = store.fileName ns key :=
  congrArg FlatFileKvBlobCache.pathForKey (same.objectKey ns key)

structure TiersMeet (onFile onKey : Text → Bytes → Prop) (store : WombatKVKvStore) : Prop where
  flat : ∀ (file : Text) (payload : Bytes), store.flat.files[file]? = some payload →
    onFile file payload
  foyer : ∀ (key : Text) (payload : Bytes), store.foyer.entries[key]? = some payload →
    onKey key payload
  objects : ∀ (key : Text) (stored : Bytes), store.objectStore.objects[key]? = some stored →
    onKey key (decodeIfCompressed store.zstd stored)

section Tiers

variable {onFile onKey : Text → Bytes → Prop} {key ns : Text} {payload : Bytes}

section

variable (meets : store.TiersMeet onFile onKey)

include meets

theorem TiersMeet.putFlat
    (good : onFile (FlatFileKvBlobCache.pathForKey key) payload) (written : Bool) :
    TiersMeet onFile onKey { store with flat := store.flat.put key payload written } where
  foyer := meets.foyer
  objects := meets.objects
  flat file found present := by
    rcases FlatFileKvBlobCache.put_cases present with earlier | ⟨rfl, rfl⟩
    · exact meets.flat file found earlier
    · exact good

theorem TiersMeet.putFoyer (good : onKey key payload) :
    TiersMeet onFile onKey { store with foyer := store.foyer.put key payload } where
  flat := meets.flat
  objects := meets.objects
  foyer other found present := by
    rcases FoyerHybridCache.put_cases present with earlier | ⟨rfl, rfl⟩
    · exact meets.foyer other found earlier
    · exact good

theorem TiersMeet.withObjectStore
    {objectStore : ObjectStore} (same : objectStore.objects = store.objectStore.objects) :
    (store.withObjectStore objectStore).TiersMeet onFile onKey :=
  ⟨meets.flat, meets.foyer, fun key stored present => meets.objects key stored (same ▸ present)⟩

structure Undisturbed (onFile onKey : Text → Bytes → Prop) (before after : WombatKVKvStore) :
    Prop where
  setup : SameSetup before after
  objects : after.objectStore.objects = before.objectStore.objects
  meets : after.TiersMeet onFile onKey

theorem Undisturbed.refl : Undisturbed onFile onKey store store := ⟨.refl store, rfl, meets⟩

omit meets in
theorem Undisturbed.trans {before between : WombatKVKvStore}
    (first : Undisturbed onFile onKey before between)
    (second : Undisturbed onFile onKey between after) : Undisturbed onFile onKey before after :=
  ⟨first.setup.trans second.setup, second.objects.trans first.objects, second.meets⟩

theorem Undisturbed.advance :
    Undisturbed onFile onKey store (store.withObjectStore store.objectStore.advance) :=
  ⟨.of rfl, rfl, meets.withObjectStore rfl⟩

omit meets in
theorem ensures_fetchObject {objectKey : Text}
    {post : Except EmbedError (Option Bytes) → WombatKVKvStore → Prop}
    (missing : post (.ok none) (store.withObjectStore store.objectStore.advance))
    (failed : ∀ error, post (.error error) (store.withObjectStore store.objectStore.advance))
    (found : ∀ stored, store.objectStore.objects[objectKey]? = some stored →
      post (.ok (some stored)) (store.withObjectStore store.objectStore.advance)) :
    (fetchObject objectKey).Ensures post store := by
  simp only [fetchObject, ensures_tryCatch, ensures_bind, onStore, ensures_on, ensures_mapError,
    ensures_getObject]
  refine ⟨fun error _ => ?_, fun _ => ?_⟩
  · -- Only a missing object is no failure.
    cases error with
    | objectNotFound key => exact missing
    | corruptWal error | objectStorePoisoned | invalidConfig message | s3 message =>
      exact failed _
  · split
    · rename_i stored present
      exact found stored present
    · exact missing

theorem getKv_meets {ns key : Text}
    (carries : ∀ payload, onKey (store.objectKey ns key) payload →
      onFile (store.fileName ns key) payload) (written : Bool) :
    (getKv ns key written).Ensures (fun result after => Undisturbed onFile onKey store after ∧
      ∀ tier payload, result = .ok (.hit tier payload) →
        onFile (store.fileName ns key) payload) store := by
  simp only [getKv, ensures_bind, ensures_get, andThen_ok]
  split
  · -- The flat tier answers, and nothing changes.
    rename_i payload present
    refine ⟨.refl meets, ?_⟩
    rintro tier found ⟨⟩
    exact meets.flat _ _ present
  · split
    · -- Foyer answers, and the flat tier is repaired.
      rename_i payload present
      have good := carries _ (meets.foyer _ _ present)
      refine ⟨⟨.of rfl, rfl, meets.putFlat good written⟩, ?_⟩
      rintro tier found ⟨⟩
      exact good
    · -- The object store answers, and both caches are filled.
      rw [ensures_bind]
      have settled := Undisturbed.advance meets
      apply ensures_fetchObject
      · exact ⟨settled, by simp⟩
      · intro error
        exact ⟨settled, by simp⟩
      · intro stored present
        have onCacheKey := meets.objects _ _ present
        have good := carries _ onCacheKey
        have filled := (settled.meets.putFlat good written).putFoyer onCacheKey
        refine ⟨⟨.of rfl, rfl, filled⟩, ?_⟩
        rintro tier found ⟨⟩
        exact good

omit meets in
theorem heldBehindFlat_iff : store.heldBehindFlat ns key = true ↔
    store.objectKey ns key ∈ store.foyer.entries ∨
      store.objectKey ns key ∈ store.objectStore.objects := by
  simp only [heldBehindFlat, FoyerHybridCache.contains, cacheKey, Bool.or_eq_true,
    Std.ExtTreeMap.contains_iff_mem]

structure LookedUp (before : WombatKVKvStore) (ns key : Text) (written : Bool)
    (after : WombatKVKvStore) : Prop where
  setup : SameSetup before after
  objects : after.objectStore.objects = before.objectStore.objects
  foyer : ∀ name ∈ before.foyer.entries, name ∈ after.foyer.entries
  flat : ∀ (file : Text) (found : Bytes), after.flat.files[file]? = some found →
    before.flat.files[file]? = some found ∨
      file = before.fileName ns key ∧ written = true ∧ before.heldBehindFlat ns key = true

omit meets in
theorem getKv_lookedUp (store : WombatKVKvStore) (ns key : Text) (written : Bool) :
    (getKv ns key written).Ensures (fun _ => store.LookedUp ns key written) store := by
  have refiled {payload found : Bytes} {file : Text} (held : store.heldBehindFlat ns key = true)
      (present : (store.flat.put (store.cacheKey ns key) payload written).files[file]? =
        some found) : store.flat.files[file]? = some found ∨
          file = store.fileName ns key ∧ written = true ∧ store.heldBehindFlat ns key = true := by
    cases written with
    | false => exact .inl present
    | true =>
      rcases FlatFileKvBlobCache.put_cases present with earlier | ⟨same, _⟩
      · exact .inl earlier
      · exact .inr ⟨same, rfl, held⟩
  have unchanged : store.LookedUp ns key written
      (store.withObjectStore store.objectStore.advance) :=
    ⟨.of rfl, rfl, fun _ held => held, fun _ _ present => .inl present⟩
  simp only [getKv, ensures_bind, ensures_get, andThen_ok]
  split
  · exact ⟨.refl store, rfl, fun _ held => held, fun _ _ present => .inl present⟩
  · split
    · rename_i payload present
      have held : store.heldBehindFlat ns key = true := heldBehindFlat_iff.mpr
        (.inl (Std.ExtTreeMap.mem_iff_isSome_getElem?.mpr (Option.isSome_of_eq_some present)))
      exact ⟨.of rfl, rfl, fun _ kept => kept, fun _ _ => refiled held⟩
    · rw [ensures_bind]
      apply ensures_fetchObject
      · exact unchanged
      · exact fun _ => unchanged
      · intro stored present
        have held : store.heldBehindFlat ns key = true := heldBehindFlat_iff.mpr
          (.inr (Std.ExtTreeMap.mem_iff_isSome_getElem?.mpr (Option.isSome_of_eq_some present)))
        exact ⟨.of rfl, rfl,
          fun _ kept => Std.ExtTreeMap.mem_insert.mpr (.inr kept), fun _ _ => refiled held⟩

theorem restoreObjects_meets (objectKeys : List Text) :
    (restoreObjects objectKeys).Ensures (fun _ => Undisturbed onFile onKey store) store := by
  induction objectKeys generalizing store with
  | nil => exact .refl meets
  | cons objectKey rest ih =>
    have settled := Undisturbed.advance meets
    simp only [restoreObjects, ensures_bind, ensures_get, andThen_ok]
    apply ensures_fetchObject
    · -- The object has vanished since it was listed.
      rw [andThen_ok]
      exact (ih settled.meets).weaken fun _ _ kept => settled.trans kept
    · intro error
      exact settled
    · intro stored present
      simp only [andThen_ok, ensures_bind, putFoyer, ensures_modify]
      have filled := settled.meets.putFoyer (meets.objects _ _ present)
      refine (ih filled).weaken fun result after kept => ?_
      have whole : Undisturbed onFile onKey store after :=
        ⟨settled.setup.trans ⟨kept.setup.s3Prefix, kept.setup.writeThroughS3,
          kept.setup.compression, kept.setup.zstd, kept.setup.putPolicy⟩, kept.objects, kept.meets⟩
      cases result with
      | error error => exact whole
      | ok count => exact whole

theorem restoreFromS3_meets (ns : Text) :
    (restoreFromS3 ns).Ensures (fun _ => Undisturbed onFile onKey store) store := by
  have settled := Undisturbed.advance meets
  simp only [restoreFromS3, listNamespace, ensures_bind, ensures_get, andThen_ok, onStore,
    ensures_on, ensures_mapError, ensures_listPrefix]
  refine ⟨fun error _ => settled, fun _ => ?_⟩
  have restored := restoreObjects_meets settled.meets
    (store.objectStore.objects.keys.filter ((store.listPrefixOf ns).isPrefixOf ·))
  exact restored.weaken fun _ _ kept => settled.trans kept

def unfiled (store : WombatKVKvStore) (ns key : Text) (removed : Bool) : WombatKVKvStore :=
  { store with flat := store.flat.remove (store.cacheKey ns key) removed }

omit meets in
theorem ensures_deleteKv {removed : Bool} {post : Except EmbedError Bool → WombatKVKvStore → Prop}
    (failed : ∀ error, store.objectStore.faults 0 = some error → post (.error (.objectStore error))
      ((store.unfiled ns key removed).withObjectStore store.objectStore.advance))
    (deleted : store.objectStore.faults 0 = none → post (.ok (store.objectStore.objects.contains
      (store.objectKey ns key))) ((store.unfiled ns key removed).withObjectStore {
      store.objectStore.advance with objects := store.objectStore.objects.erase (store.objectKey ns
      key) })) : (deleteKv ns key removed).Ensures post store := by
  simp only [deleteKv, ensures_bind, ensures_get, andThen_ok, ensures_set, onStore,
    ensures_on, ensures_mapError, ensures_deleteObject]
  exact ⟨failed, deleted⟩

theorem deleteKv_meets (ns key : Text) (removed : Bool) :
    (deleteKv ns key removed).Ensures (fun _ after => SameSetup store after ∧
      after.TiersMeet onFile onKey) store := by
  have unfiled : (store.unfiled ns key removed).TiersMeet onFile onKey :=
    ⟨fun file found present => meets.flat file found (FlatFileKvBlobCache.remove_cases present),
      meets.foyer, meets.objects⟩
  apply ensures_deleteKv
  · intro error _
    exact ⟨.of rfl, unfiled.withObjectStore rfl⟩
  · intro _
    refine ⟨.of rfl, unfiled.flat, unfiled.foyer, ?_⟩
    intro other stored present
    exact meets.objects other stored (erase_cases present)

def cached (store : WombatKVKvStore) (ns key : Text) (payload : Bytes) (written : Bool) :
    WombatKVKvStore :=
  { store with
    flat := store.flat.put (store.cacheKey ns key) payload written
    foyer := store.foyer.put (store.cacheKey ns key) payload }

omit meets in
theorem cached_file (store : WombatKVKvStore) (ns key : Text) (payload : Bytes) :
    (store.cached ns key payload true).flat.files[store.fileName ns key]? = some payload := by
  simp [cached, FlatFileKvBlobCache.put, fileName]

omit meets in
theorem ensures_putKv {written : Bool} {post : Except EmbedError Unit → WombatKVKvStore → Prop}
    (refused : ∀ error, encodeForStorage store.zstd payload store.compression key = .error error →
      post (.error error) (store.cached ns key payload written))
    (failed : ∀ stored error, encodeWithHeader store.zstd payload store.compression = .ok stored →
      store.objectStore.faults 0 = some error → post (if store.writeThroughS3 then .error
      (.objectStore error) else .ok ()) ((store.cached ns key payload written).withObjectStore
      store.objectStore.advance))
    (put : ∀ stored, encodeWithHeader store.zstd payload store.compression = .ok stored →
      store.objectStore.faults 0 = none → post (.ok ()) ((store.cached ns key payload
      written).withObjectStore (store.objectStore.advance.withPut (store.objectKey ns key) stored))) :
    (putKv ns key payload written).Ensures post store := by
  simp only [putKv, putFlat, putFoyer, ensures_bind, ensures_get, andThen_ok, ensures_modify,
    ensures_lift]
  cases encoded : encodeForStorage store.zstd payload store.compression key with
  | error error => exact refused error encoded
  | ok stored =>
    have envelope := encodeForStorage_eq_ok.mp encoded
    simp only [andThen_ok]
    split
    · rename_i through
      simp only [through, if_true] at failed
      simp only [onStore, ensures_on, ensures_mapError, ensures_putObject]
      exact ⟨fun error fault => failed stored error envelope fault,
        fun clear => put stored envelope clear⟩
    · -- A best-effort put swallows the failure.
      rename_i effort
      simp only [effort] at failed
      simp only [onStore, ensures_tryCatch, ensures_on, ensures_mapError, ensures_putObject]
      exact ⟨fun error fault => failed stored error envelope fault,
        fun clear => put stored envelope clear⟩

omit meets in
theorem putKv_caches (ns key : Text) (payload : Bytes) (written : Bool) :
    (putKv ns key payload written).Ensures (fun _ after => SameSetup store after ∧
      after.flat = (store.cached ns key payload written).flat ∧
        after.foyer = (store.cached ns key payload written).foyer) store :=
  ensures_putKv (fun _ _ => ⟨.of rfl, rfl, rfl⟩)
    (fun _ _ _ _ => ⟨.of rfl, rfl, rfl⟩)
    fun _ _ _ => ⟨.of rfl, rfl, rfl⟩

theorem putKv_meets (onName : onKey (store.objectKey ns key) payload)
    (filed : onFile (store.fileName ns key) payload)
    (decoded : ∀ stored, encodeWithHeader store.zstd payload store.compression = .ok stored → onKey
      (store.objectKey ns key) (decodeIfCompressed store.zstd stored)) (written : Bool) :
    (putKv ns key payload written).Ensures (fun _ after => SameSetup store after ∧
      after.TiersMeet onFile onKey) store := by
  have begun : (store.cached ns key payload written).TiersMeet onFile onKey :=
    (meets.putFlat filed written).putFoyer onName
  apply ensures_putKv
  · intro error refused
    exact ⟨.of rfl, begun⟩
  · intro stored error encoded fault
    exact ⟨.of rfl, begun.withObjectStore rfl⟩
  · intro stored encoded clear
    refine ⟨.of rfl, begun.flat, begun.foyer, ?_⟩
    intro other found present
    rcases putInto_cases present with earlier | ⟨rfl, rfl⟩
    · exact meets.objects other found earlier
    · exact decoded found encoded

omit meets in
theorem ensures_answer {α β : Type} {call : Call EmbedError WombatKVKvStore α} {change : α → β}
    {property : WombatKVKvStore → Prop} (kept : call.Ensures (fun _ => property) store) :
    (call >>= fun answer => pure (change answer)).Ensures (fun _ => property) store := by
  rw [ensures_bind]
  refine kept.weaken fun result after kept => ?_
  cases result with
  | error error => exact kept
  | ok answer => exact kept

theorem perform_reads {call : KvCall} (reads : call.changesObjects = false)
    (carries : ∀ ns key payload, call = .get ns key → onKey (store.objectKey ns key) payload →
      onFile (store.fileName ns key) payload) (fileOk : Bool) :
    (perform call fileOk).Ensures (fun answer after => Undisturbed onFile onKey store after ∧
      ∀ ns key tier payload, call = .get ns key → answer = .ok (.got (.hit tier payload)) →
        onFile (store.fileName ns key) payload) store := by
  cases call with
  | put ns key payload | delete ns key => cases reads
  | get ns key =>
    simp only [perform, ensures_bind]
    have looked := getKv_meets meets (fun payload => carries ns key payload rfl) fileOk
    refine looked.weaken fun result after kept => ?_
    cases result with
    | error error => exact ⟨kept.1, by simp⟩
    | ok outcome =>
      refine ⟨kept.1, ?_⟩
      rintro _ _ tier payload ⟨⟩ ⟨⟩
      exact kept.2 tier payload rfl
  | clearFoyer =>
    refine ⟨⟨.of rfl, rfl, meets.flat, ?_, meets.objects⟩, by simp⟩
    intro key payload present
    change (∅ : Std.ExtTreeMap Text Bytes)[key]? = some payload at present
    simp at present
  | clearFlat =>
    refine ⟨⟨.of rfl, rfl, ?_, meets.foyer, meets.objects⟩, by simp⟩
    intro file payload present
    change (∅ : Std.ExtTreeMap Text Bytes)[file]? = some payload at present
    simp at present
  | restore ns =>
    simp only [perform, ensures_bind]
    refine (restoreFromS3_meets meets ns).weaken fun result after kept => ?_
    cases result with
    | error error => exact ⟨kept, by simp⟩
    | ok count => exact ⟨kept, by simp⟩
  | loseFoyer cacheKey =>
    refine ⟨⟨.of rfl, rfl, meets.flat, ?_, meets.objects⟩, by simp⟩
    intro key payload present
    exact meets.foyer key payload (erase_cases present)
  | loseFlat file =>
    refine ⟨⟨.of rfl, rfl, ?_, meets.foyer, meets.objects⟩, by simp⟩
    intro other payload present
    exact meets.flat other payload (erase_cases present)

theorem perform_meets
    (carries : ∀ ns key payload, onKey (store.objectKey ns key) payload →
      onFile (store.fileName ns key) payload) (call : KvCall) (fileOk : Bool)
    (good : ∀ ns key payload, call = .put ns key payload →
      onKey (store.objectKey ns key) payload ∧
        ∀ stored, encodeWithHeader store.zstd payload store.compression = .ok stored →
          onKey (store.objectKey ns key) (decodeIfCompressed store.zstd stored)) :
    (perform call fileOk).Ensures (fun answer after => SameSetup store after ∧
      after.TiersMeet onFile onKey ∧ ∀ ns key tier payload, call = .get ns key →
        answer = .ok (.got (.hit tier payload)) → onFile (store.fileName ns key) payload)
      store := by
  by_cases reads : call.changesObjects = false
  · have kept := perform_reads meets reads (fun ns key payload _ => carries ns key payload) fileOk
    exact kept.weaken fun _ _ kept => ⟨kept.1.setup, kept.1.meets, kept.2⟩
  · -- A put or a delete answers no lookup.
    cases call with
    | put ns key payload =>
      obtain ⟨onName, decoded⟩ := good ns key payload rfl
      simp only [perform, ensures_bind]
      refine (putKv_meets meets onName (carries ns key payload onName) decoded fileOk).weaken
        fun result after kept => ?_
      cases result with
      | error error => exact ⟨kept.1, kept.2, by simp⟩
      | ok answer => exact ⟨kept.1, kept.2, by simp⟩
    | delete ns key =>
      simp only [perform, ensures_bind]
      refine (deleteKv_meets meets ns key fileOk).weaken fun result after kept => ?_
      cases result with
      | error error => exact ⟨kept.1, kept.2, by simp⟩
      | ok present => exact ⟨kept.1, kept.2, by simp⟩
    | get ns key | clearFoyer | clearFlat | restore ns | loseFoyer cacheKey | loseFlat file =>
      exact absurd rfl reads

end

theorem tiersMeet_any (store : WombatKVKvStore) :
    store.TiersMeet (fun _ _ => True) fun _ _ => True :=
  ⟨fun _ _ _ => trivial, fun _ _ _ => trivial, fun _ _ _ => trivial⟩

theorem perform_setup (call : KvCall) (fileOk : Bool) :
    (perform call fileOk).Ensures (fun _ => SameSetup store) store :=
  (perform_meets store.tiersMeet_any (fun _ _ _ _ => trivial) call fileOk
    fun _ _ _ _ => ⟨trivial, fun _ _ => trivial⟩).weaken fun _ _ kept => kept.1

end Tiers

section Healthy

variable {ns key : Text} {payload : Bytes}

theorem onStore_ok {α : Type} {call : Call WalStoreError ObjectStore α} {answer : α}
    {objectStore : ObjectStore} (ran : call store.objectStore = (.ok answer, objectStore)) :
    onStore call store = (.ok answer, store.withObjectStore objectStore) := by
  simp only [onStore, on_apply, Call.mapError, ran]

theorem onStore_error {α : Type} {call : Call WalStoreError ObjectStore α} {error : WalStoreError}
    {objectStore : ObjectStore} (ran : call store.objectStore = (.error error, objectStore)) :
    onStore call store = (.error (.objectStore error), store.withObjectStore objectStore) := by
  simp only [onStore, on_apply, Call.mapError, ran]

theorem putKv_healthy (healthy : store.objectStore.Healthy) {stored : Bytes}
    (encoded : encodeWithHeader store.zstd payload store.compression = .ok stored)
    (written : Bool) :
    putKv ns key payload written store = (.ok (),
      (store.cached ns key payload written).withObjectStore
        (store.objectStore.withPut (store.objectKey ns key) stored)) := by
  have settled : (putKv ns key payload written).Ensures (fun result after =>
      (result, after) = (.ok (), (store.cached ns key payload written).withObjectStore
        (store.objectStore.withPut (store.objectKey ns key) stored))) store := by
    have clear : store.objectStore.faults 0 = none := congrFun healthy 0
    apply ensures_putKv
    · intro error refused
      rw [encodeForStorage_eq_ok.mpr encoded] at refused
      cases refused
    · intro _ error _ fault
      rw [clear] at fault
      cases fault
    · intro other envelope _
      cases encoded.symm.trans envelope
      rw [healthy.advance]
  exact settled

theorem getKv_flat (present : store.flat.files[store.fileName ns key]? = some payload)
    (written : Bool) : getKv ns key written store = (.ok (.hit .foyer payload), store) := by
  have found : store.flat.get (store.cacheKey ns key) = some payload := present
  rw [getKv, get_bind_apply, found]
  rfl

theorem getKv_foyer (absent : store.flat.files[store.fileName ns key]? = none)
    (present : store.foyer.entries[store.objectKey ns key]? = some payload) (written : Bool) :
    (getKv ns key written store).1 = .ok (.hit .foyer payload) := by
  have missed : store.flat.get (store.cacheKey ns key) = none := absent
  have found : store.foyer.get (store.cacheKey ns key) = some payload := present
  simp only [getKv, get_bind_apply, missed, found]
  rfl

theorem fetchObject_healthy (healthy : store.objectStore.Healthy) (objectKey : Text) :
    fetchObject objectKey store = (.ok store.objectStore.objects[objectKey]?, store) := by
  rw [fetchObject]
  cases present : store.objectStore.objects[objectKey]? with
  | some stored =>
    apply tryCatch_ok
    rw [Call.bind_ok (onStore_ok (getObject_healthy healthy present))]
    rfl
  | none =>
    have missing : getObject objectKey store.objectStore =
        (.error (.objectNotFound objectKey), store.objectStore) :=
      (healthy.request _).trans (by simp only [present])
    rw [tryCatch_error (Call.bind_error (onStore_error missing))]
    rfl

theorem getKv_objects (healthy : store.objectStore.Healthy)
    (unfiled : store.flat.files[store.fileName ns key]? = none)
    (uncached : store.foyer.entries[store.objectKey ns key]? = none) (written : Bool) :
    (getKv ns key written store).1 = .ok (match store.objectStore.objects[store.objectKey ns key]? with
      | some stored => .hit .objectStore (decodeIfCompressed store.zstd stored)
      | none => .miss) := by
  have missedFlat : store.flat.get (store.cacheKey ns key) = none := unfiled
  have missedFoyer : store.foyer.get (store.cacheKey ns key) = none := uncached
  simp only [getKv, get_bind_apply, missedFlat, missedFoyer]
  rw [Call.bind_ok (fetchObject_healthy healthy _)]
  cases store.objectStore.objects[store.objectKey ns key]? with
  | some stored => rfl
  | none => rfl

theorem getKv_missing (healthy : store.objectStore.Healthy)
    (unfiled : store.flat.files[store.fileName ns key]? = none)
    (uncached : store.foyer.entries[store.objectKey ns key]? = none)
    (unstored : store.objectStore.objects[store.objectKey ns key]? = none) (written : Bool) :
    getKv ns key written store = (.ok .miss, store) := by
  have missedFlat : store.flat.get (store.cacheKey ns key) = none := unfiled
  have missedFoyer : store.foyer.get (store.cacheKey ns key) = none := uncached
  simp only [getKv, get_bind_apply, missedFlat, missedFoyer]
  rw [Call.bind_ok (fetchObject_healthy healthy _), unstored]
  rfl

end Healthy

end WombatKVKvStore

theorem freshStore_empty {config : EmbedConfig} {putPolicy : PutPolicy}
    (created : freshStore config zstd putPolicy = .ok store) :
    store.flat.files = ∅ ∧ store.foyer.entries = ∅ ∧ store.objectStore.objects = ∅ ∧
      store.objectStore.Healthy := by
  simp only [freshStore, WombatKVKvStore.new] at created
  split at created
  · cases created
  · cases created
    exact ⟨rfl, rfl, rfl, rfl⟩

theorem freshStore_writeThroughS3 {config : EmbedConfig} {putPolicy : PutPolicy}
    (created : freshStore config zstd putPolicy = .ok store) :
    store.writeThroughS3 = config.writeThroughS3 := by
  simp only [freshStore, WombatKVKvStore.new] at created
  split at created
  · cases created
  · cases created
    rfl

def calmly (call : KvCall) : KvStep := ⟨call, true, fun _ => none⟩

theorem System.Reachable.calmly {allowed : KvRun → KvStep → Prop} {run : KvRun}
    (reached : (kvSystem store).Reachable allowed run) (call : KvCall)
    (meets : allowed run (WombatKV.calmly call)) :
    (kvSystem store).Reachable allowed (run.step (WombatKV.calmly call)) :=
  .step reached meets rfl

end WombatKV

