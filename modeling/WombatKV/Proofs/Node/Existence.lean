import WombatKV.Proofs.Node.KvStore

/-! Which keys exist, and when a deleted one is missed again. -/

namespace WombatKV

open ObjectStore Call WombatKVKvStore

def GetOutcome.isHit : GetOutcome → Bool
  | .hit .. => true
  | .miss => false

namespace WombatKVKvStore

variable {store : WombatKVKvStore} {ns key : Text}

theorem existsKv_healthy (healthy : store.objectStore.Healthy) (ns key : Text) :
    (existsKv ns key store).1 = .ok (store.heldBehindFlat ns key) := by
  rw [existsKv, get_bind_apply, heldBehindFlat]
  split
  · rename_i held
    rw [held]
    rfl
  · rename_i absent
    rw [onStore_ok (headObject_healthy healthy _), Bool.eq_false_iff.mpr absent, Bool.false_or]

theorem heldBehindFlat_eq (store : WombatKVKvStore) (ns key : Text) :
    store.heldBehindFlat ns key = (store.foyer.entries[store.objectKey ns key]?.isSome ||
      store.objectStore.objects[store.objectKey ns key]?.isSome) := by
  simp only [heldBehindFlat, FoyerHybridCache.contains, cacheKey,
    Std.ExtTreeMap.contains_eq_isSome_getElem?]

theorem getKv_isHit (healthy : store.objectStore.Healthy) (ns key : Text) (written : Bool) :
    ∃ outcome, (getKv ns key written store).1 = .ok outcome ∧ outcome.isHit =
      (store.flat.files[store.fileName ns key]?.isSome || store.heldBehindFlat ns key) := by
  rw [heldBehindFlat_eq]
  cases filed : store.flat.files[store.fileName ns key]? with
  | some payload => exact ⟨_, congrArg Prod.fst (getKv_flat filed written), rfl⟩
  | none =>
    cases cached : store.foyer.entries[store.objectKey ns key]? with
    | some payload => exact ⟨_, getKv_foyer filed cached written, rfl⟩
    | none =>
      refine ⟨_, getKv_objects healthy filed cached written, ?_⟩
      cases store.objectStore.objects[store.objectKey ns key]? with
      | some stored => rfl
      | none => rfl

end WombatKVKvStore

structure NoLoneFiles (store : WombatKVKvStore) (pairs : Set (Text × Text))
    (now : WombatKVKvStore) : Prop where
  setup : SameSetup store now
  backed : ∀ ns key, (ns, key) ∈ pairs → now.flat.files[store.fileName ns key]? ≠ none →
    store.objectKey ns key ∈ now.foyer.entries ∨ store.objectKey ns key ∈ now.objectStore.objects

section Steps

variable {store now after : WombatKVKvStore} {pairs : Set (Text × Text)} {ns key : Text}

theorem file_present {files : Std.ExtTreeMap Text Bytes} {file : Text}
    (present : files[file]? ≠ none) : ∃ found, files[file]? = some found :=
  Option.ne_none_iff_exists'.mp present

section

variable (whole : NoLoneFiles store pairs now)

include whole

theorem NoLoneFiles.grow (setup : SameSetup now after)
    (foyer : ∀ name ∈ now.foyer.entries, name ∈ after.foyer.entries)
    (objects : ∀ name ∈ now.objectStore.objects, name ∈ after.objectStore.objects)
    (flat : ∀ ns key, (ns, key) ∈ pairs → after.flat.files[store.fileName ns key]? ≠ none →
      now.flat.files[store.fileName ns key]? ≠ none ∨
        store.objectKey ns key ∈ after.foyer.entries ∨
          store.objectKey ns key ∈ after.objectStore.objects) : NoLoneFiles store pairs after := by
  refine ⟨whole.setup.trans setup, fun ns key used present => ?_⟩
  rcases flat ns key used present with earlier | held
  · exact (whole.backed ns key used earlier).imp (foyer _) (objects _)
  · exact held

section

variable (injective : Set.InjOn (fun pair => store.fileName pair.1 pair.2) pairs)

include injective

theorem NoLoneFiles.put (used : (ns, key) ∈ pairs) (payload : Bytes) (fileOk : Bool) :
    (putKv ns key payload fileOk).Ensures (fun _ => NoLoneFiles store pairs) now := by
  have sameKey := whole.setup.objectKey ns key
  have caches {after : WombatKVKvStore} (setup : SameSetup now after)
      (flat : after.flat = (now.cached ns key payload fileOk).flat)
      (foyer : after.foyer = (now.cached ns key payload fileOk).foyer)
      (objects : ∀ name ∈ now.objectStore.objects, name ∈ after.objectStore.objects) :
      NoLoneFiles store pairs after := by
    refine whole.grow setup ?_ objects ?_
    · intro name held
      rw [foyer]
      exact Std.ExtTreeMap.mem_insert.mpr (.inr held)
    · intro otherNs otherKey otherUsed present
      rw [flat] at present
      obtain ⟨found, present⟩ := file_present present
      rcases FlatFileKvBlobCache.put_cases present with earlier | ⟨sameFile, _⟩
      · exact .inl (by rw [earlier]; exact Option.some_ne_none found)
      · -- The file is the put's own, so the pair is its own, too.
        cases injective otherUsed used (sameFile.trans (whole.setup.fileName ns key))
        refine .inr (.inl ?_)
        rw [foyer, ← sameKey]
        exact Std.ExtTreeMap.mem_insert_self
  apply ensures_putKv
  · intro error _
    exact caches (.of rfl) rfl rfl fun _ held => held
  · intro stored error _ _
    exact caches (.of rfl) rfl rfl fun _ held => held
  · intro stored _ _
    exact caches (.of rfl) rfl rfl fun _ held => mem_putInto.mpr (.inr held)

theorem NoLoneFiles.get (used : (ns, key) ∈ pairs) (fileOk : Bool) :
    (getKv ns key fileOk).Ensures (fun _ => NoLoneFiles store pairs) now := by
  have sameKey := whole.setup.objectKey ns key
  refine (getKv_lookedUp now ns key fileOk).weaken fun _ after looked => ?_
  have objects : ∀ name ∈ now.objectStore.objects, name ∈ after.objectStore.objects := by
    rw [looked.objects]
    exact fun _ held => held
  refine whole.grow looked.setup looked.foyer objects ?_
  intro otherNs otherKey otherUsed present
  obtain ⟨found, present⟩ := file_present present
  rcases looked.flat _ _ present with earlier | ⟨sameFile, _, held⟩
  · exact .inl (by rw [earlier]; exact Option.some_ne_none found)
  · cases injective otherUsed used (sameFile.trans (whole.setup.fileName ns key))
    rw [← sameKey]
    exact .inr ((heldBehindFlat_iff.mp held).imp (looked.foyer _) (objects _))

theorem NoLoneFiles.delete (used : (ns, key) ∈ pairs) {fileOk : Bool}
    (gone : fileOk = true ∨ now.flat.files[now.fileName ns key]? = none ∨
      now.foyer.contains (now.cacheKey ns key) = true) :
    (deleteKv ns key fileOk).Ensures (fun _ => NoLoneFiles store pairs) now := by
  have sameKey := whole.setup.objectKey ns key
  have sameFile := whole.setup.fileName ns key
  have earlier {file : Text} (present : (now.unfiled ns key fileOk).flat.files[file]? ≠ none) :
      now.flat.files[file]? ≠ none := by
    obtain ⟨found, present⟩ := file_present present
    rw [FlatFileKvBlobCache.remove_cases present]
    exact Option.some_ne_none found
  apply ensures_deleteKv
  · intro error _
    exact whole.grow (.of rfl) (fun _ held => held) (fun _ held => held)
      fun _ _ _ present => .inl (earlier present)
  · intro _
    refine ⟨whole.setup.trans (.of rfl), fun otherNs otherKey otherUsed present => ?_⟩
    by_cases same : (otherNs, otherKey) = (ns, key)
    · cases same
      rcases gone with rfl | absent | held
      · refine absurd ?_ present
        rw [← sameFile]
        exact Std.ExtTreeMap.getElem?_erase_self
      · rw [sameFile] at absent
        exact absurd absent (earlier present)
      · refine .inl ?_
        rw [← sameKey]
        exact Std.ExtTreeMap.contains_iff_mem.mp held
    · refine (whole.backed otherNs otherKey otherUsed (earlier present)).imp_right fun held => ?_
      have different : now.objectKey ns key ≠ store.objectKey otherNs otherKey := by
        rw [sameKey]
        intro sameName
        exact same (injective otherUsed used
          (congrArg FlatFileKvBlobCache.pathForKey sameName.symm))
      exact Std.ExtTreeMap.mem_erase.mpr ⟨by simpa using different, held⟩

end

theorem NoLoneFiles.lose {foyer : FoyerHybridCache}
    (covered : ∀ ns key, (ns, key) ∈ pairs → now.flat.files[store.fileName ns key]? ≠ none →
      store.objectKey ns key ∈ foyer.entries ∨ store.objectKey ns key ∈ now.objectStore.objects) :
    NoLoneFiles store pairs { now with foyer } :=
  ⟨whole.setup.trans (.of rfl), covered⟩

end

theorem NoLoneFiles.step {run : KvRun} (whole : NoLoneFiles store pairs run.store)
    (injective : Set.InjOn (fun pair => store.fileName pair.1 pair.2) pairs) {taken : KvStep}
    (within : taken.call.Within pairs Set.univ) (backing : run.KeepsBacking pairs taken) :
    NoLoneFiles store pairs (run.step taken).store := by
  obtain ⟨call, fileOk, faults⟩ := taken
  have ready : NoLoneFiles store pairs (run.store.withFaults faults) :=
    whole.grow (.of rfl) (fun _ held => held) (fun _ held => held)
      fun _ _ _ present => .inl present
  have sameKey := whole.setup.objectKey
  have sameFile := whole.setup.fileName
  cases call with
  | put ns key payload => exact ensures_answer (ready.put injective within.1 payload fileOk)
  | get ns key => exact ensures_answer (ready.get injective within fileOk)
  | delete ns key => exact ensures_answer (ready.delete injective within backing)
  | restore ns => exact backing.elim
  | clearFoyer =>
    refine ready.lose fun ns key used present => .inr ?_
    rcases backing ns key used with absent | stored
    · rw [sameFile] at absent
      exact absurd absent present
    · rw [sameKey] at stored
      exact Std.ExtTreeMap.contains_iff_mem.mp stored
  | loseFoyer lost =>
    refine ready.lose fun ns key used present => ?_
    by_cases same : store.objectKey ns key = lost
    · rcases backing ns key used ((sameKey ns key).trans same) with absent | stored
      · rw [sameFile] at absent
        exact absurd absent present
      · exact .inr (same ▸ Std.ExtTreeMap.contains_iff_mem.mp stored)
    · refine (ready.backed ns key used present).imp_left fun held => ?_
      exact Std.ExtTreeMap.mem_erase.mpr ⟨by simpa using Ne.symm same, held⟩
  | clearFlat =>
    refine ready.grow (.of rfl) (fun _ held => held) (fun _ held => held) ?_
    intro ns key _ present
    exact absurd Std.ExtTreeMap.getElem?_empty present
  | loseFlat file =>
    refine ready.grow (.of rfl) (fun _ held => held) (fun _ held => held) ?_
    intro ns key _ present
    obtain ⟨found, present⟩ := file_present present
    exact .inl (by rw [erase_cases present]; exact Option.some_ne_none found)

end Steps

/-- Existence is answered with true exactly when a lookup made in the same state would hit. -/
theorem exists_agrees_with_get {config : EmbedConfig} {zstd : Zstd} {putPolicy : PutPolicy}
    {store : WombatKVKvStore} (created : freshStore config zstd putPolicy = .ok store)
    {pairs : Set (Text × Text)}
    (injective : Set.InjOn (fun pair => store.fileName pair.1 pair.2) pairs) {run : KvRun}
    (reached : (kvSystem store).Reachable (fun run taken =>
      taken.call.Within pairs Set.univ ∧ run.KeepsBacking pairs taken) run)
    {ns key : Text} (used : (ns, key) ∈ pairs) (fileOk : Bool) :
    ∃ found outcome, (existsKv ns key (run.store.withFaults fun _ => none)).1 = .ok found ∧
      (getKv ns key fileOk (run.store.withFaults fun _ => none)).1 = .ok outcome ∧
        found = outcome.isHit := by
  obtain ⟨noFiles, _, _, _⟩ := freshStore_empty created
  have start : NoLoneFiles store pairs (kvSystem store).start.store :=
    ⟨.refl store, fun ns key _ present => absurd (by simp [kvSystem, noFiles]) present⟩
  have whole : NoLoneFiles store pairs run.store := by
    refine @System.Reachable.invariant _ _ _ _
      (fun run => NoLoneFiles store pairs run.store) start ?_ _ reached
    rintro before taken after whole ⟨within, backing⟩ made
    cases made
    exact whole.step injective within backing
  have healthy : (run.store.withFaults fun _ => none).objectStore.Healthy := rfl
  obtain ⟨outcome, looked, hit⟩ := getKv_isHit healthy ns key fileOk
  refine ⟨_, outcome, existsKv_healthy healthy ns key, looked, ?_⟩
  rw [hit]
  cases filed : (run.store.withFaults fun _ => none).flat.files[
      (run.store.withFaults fun _ => none).fileName ns key]? with
  | none => rfl
  | some payload =>
    have present : run.store.flat.files[store.fileName ns key]? ≠ none := by
      rw [← whole.setup.fileName]
      exact ne_of_eq_of_ne filed (Option.some_ne_none payload)
    have held := whole.backed ns key used present
    rw [← whole.setup.objectKey] at held
    exact heldBehindFlat_iff.mpr held

theorem exists_agrees_with_get_evicted :
    let run := (((KvRun.step ⟨plainStore, []⟩ (calmly (.put "a".toList "k".toList [65]))).step
      (calmly (.put "a".toList "l".toList [66]))).step
        (calmly (.loseFoyer "p/a/k".toList))).step (calmly (.delete "a".toList "l".toList))
    ∀ key ∈ ["k".toList, "l".toList], ∃ found outcome,
      (existsKv "a".toList key (run.store.withFaults fun _ => none)).1 = .ok found ∧
        (getKv "a".toList key true (run.store.withFaults fun _ => none)).1 = .ok outcome ∧
          found = outcome.isHit := by
  have created : freshStore ⟨"p".toList, true, ⟨.none, 3⟩⟩ plainStore.zstd .replace =
      .ok plainStore := rfl
  have injective : Set.InjOn (fun pair : Text × Text => plainStore.fileName pair.1 pair.2)
      {("a".toList, "k".toList), ("a".toList, "l".toList)} := by
    rintro pair (rfl | rfl) other (rfl | rfl) same
    · rfl
    · exact absurd same (by decide)
    · exact absurd same (by decide)
    · rfl
  intro run key member
  refine exists_agrees_with_get created injective ?_ (by simpa using member) true
  refine .step (.step (.step (.step .start ?_ rfl) ?_ rfl) ?_ rfl) ?_ rfl
  · exact ⟨⟨.inl rfl, trivial⟩, trivial⟩
  · exact ⟨⟨.inr rfl, trivial⟩, trivial⟩
  · refine ⟨trivial, fun ns key _ _ => .inr ?_⟩
    decide +kernel
  · exact ⟨.inr rfl, .inl rfl⟩

def effortStore : WombatKVKvStore := { plainStore with writeThroughS3 := false }

def onePutStore : WombatKVKvStore :=
  (KvRun.step ⟨plainStore, []⟩ (calmly (.put "a".toList "k".toList [65]))).store

theorem lone_file_is_hit :
    let run := (KvRun.step ⟨effortStore, []⟩ ⟨.put "a".toList "k".toList [65], true,
      fun _ => some (.s3 "unavailable")⟩).step (calmly (.loseFoyer "p/a/k".toList))
    (existsKv "a".toList "k".toList (run.store.withFaults fun _ => none)).1 = .ok false ∧
      (getKv "a".toList "k".toList true (run.store.withFaults fun _ => none)).1 =
        .ok (.hit .foyer [65]) := by
  decide +kernel

structure GoneBehindFoyer (store : WombatKVKvStore) (ns key : Text) (now : WombatKVKvStore) :
    Prop where
  setup : SameSetup store now
  unfiled : now.flat.files[store.fileName ns key]? = none
  unstored : now.objectStore.objects[store.objectKey ns key]? = none

section Steps

variable {store now : WombatKVKvStore} {ns key : Text}

theorem deleteKv_gone {removed present : Bool}
    (deleted : (deleteKv ns key removed store).1 = .ok present)
    (unfiled : removed = true ∨ store.flat.files[store.fileName ns key]? = none) :
    GoneBehindFoyer store ns key (deleteKv ns key removed store).2 := by
  have gone : (deleteKv ns key removed).Ensures (fun result after =>
      result = .ok present → GoneBehindFoyer store ns key after) store := by
    apply ensures_deleteKv
    · intro error _ answered
      cases answered
    · intro _ _
      refine ⟨.of rfl, ?_, Std.ExtTreeMap.getElem?_erase_self⟩
      rcases unfiled with rfl | absent
      · exact Std.ExtTreeMap.getElem?_erase_self
      · -- Removing files brings none back.
        cases left : (store.unfiled ns key removed).flat.files[store.fileName ns key]? with
        | none => exact left
        | some found => cases absent.symm.trans (FlatFileKvBlobCache.remove_cases left)
  exact gone deleted

theorem GoneBehindFoyer.get (gone : GoneBehindFoyer store ns key now) {otherNs otherKey : Text}
    {fileOk : Bool} (refills : now.fileName otherNs otherKey ≠ store.fileName ns key ∨
      now.heldBehindFlat otherNs otherKey = false ∨ fileOk = false) :
    (getKv otherNs otherKey fileOk).Ensures (fun _ => GoneBehindFoyer store ns key) now := by
  refine (getKv_lookedUp now otherNs otherKey fileOk).weaken fun _ after looked => ?_
  refine ⟨gone.setup.trans looked.setup, ?_, ?_⟩
  · cases filed : after.flat.files[store.fileName ns key]? with
    | none => rfl
    | some found =>
      rcases looked.flat _ found filed with earlier | ⟨sameFile, written, held⟩
      · cases gone.unfiled.symm.trans earlier
      · rcases refills with otherFile | absent | unwritten
        · exact absurd sameFile.symm otherFile
        · cases held.symm.trans absent
        · cases written.symm.trans unwritten
  · rw [looked.objects]
    exact gone.unstored

theorem GoneBehindFoyer.step {run : KvRun} (gone : GoneBehindFoyer store ns key run.store)
    {taken : KvStep} (reads : taken.call.readsOrEvicts = true)
    (refills : run.refillsNot (store.fileName ns key) taken = true) :
    GoneBehindFoyer store ns key (run.step taken).store := by
  obtain ⟨call, fileOk, faults⟩ := taken
  have ready : GoneBehindFoyer store ns key (run.store.withFaults faults) :=
    ⟨gone.setup.trans (.of rfl), gone.unfiled, gone.unstored⟩
  cases call with
  | put ns key payload | delete ns key | clearFoyer | clearFlat | restore ns | loseFlat file =>
    cases reads
  | get otherNs otherKey =>
    have untouched : run.store.fileName otherNs otherKey ≠ store.fileName ns key ∨
        run.store.heldBehindFlat otherNs otherKey = false ∨ fileOk = false := by
      simpa [KvRun.refillsNot, or_assoc] using refills
    exact ensures_answer (ready.get untouched)
  | loseFoyer lost =>
    exact ⟨ready.setup.trans (.of rfl), ready.unfiled, ready.unstored⟩

end Steps

/-- After an acknowledged delete, a lookup misses the key once foyer no longer holds it. -/
theorem deleted_key_ages_out {store : WombatKVKvStore} {ns key : Text} {removed present : Bool}
    (deleted : (deleteKv ns key removed store).1 = .ok present)
    (unfiled : removed = true ∨ store.flat.files[store.fileName ns key]? = none) {run : KvRun}
    (reached : (kvSystem (deleteKv ns key removed store).2).Reachable (fun run taken =>
      taken.call.readsOrEvicts = true ∧
        run.refillsNot (store.fileName ns key) taken = true) run)
    (evicted : run.store.foyer.contains (run.store.cacheKey ns key) = false) (fileOk : Bool) :
    (getKv ns key fileOk (run.store.withFaults fun _ => none)).1 = .ok .miss := by
  have gone : GoneBehindFoyer store ns key run.store := by
    refine @System.Reachable.invariant _ _ _ _
      (fun run => GoneBehindFoyer store ns key run.store) (deleteKv_gone deleted unfiled) ?_ _
        reached
    rintro before taken after gone ⟨reads, refills⟩ made
    cases made
    exact gone.step reads refills
  have sameKey := gone.setup.objectKey ns key
  have sameFile := gone.setup.fileName ns key
  have healthy : (run.store.withFaults fun _ => none).objectStore.Healthy := rfl
  have noFile : (run.store.withFaults fun _ => none).flat.files[
      (run.store.withFaults fun _ => none).fileName ns key]? = none :=
    (congrArg (run.store.flat.files[·]?) sameFile).trans gone.unfiled
  have noEntry : (run.store.withFaults fun _ => none).foyer.entries[
      (run.store.withFaults fun _ => none).objectKey ns key]? = none :=
    Std.ExtTreeMap.getElem?_eq_none_of_contains_eq_false evicted
  have noObject : (run.store.withFaults fun _ => none).objectStore.objects[
      (run.store.withFaults fun _ => none).objectKey ns key]? = none :=
    (congrArg (run.store.objectStore.objects[·]?) sameKey).trans gone.unstored
  exact congrArg Prod.fst (getKv_missing healthy noFile noEntry noObject fileOk)

theorem deleted_key_ages_out_evicted :
    let run := (KvRun.step ⟨(deleteKv "a".toList "k".toList true onePutStore).2, []⟩
      (calmly (.get "a".toList "l".toList))).step (calmly (.loseFoyer "p/a/k".toList))
    (getKv "a".toList "k".toList true (run.store.withFaults fun _ => none)).1 = .ok .miss := by
  have deleted : (deleteKv "a".toList "k".toList true onePutStore).1 = .ok true := by
    decide +kernel
  refine deleted_key_ages_out deleted (.inl rfl) ?_ (by decide +kernel) true
  refine .step (.step .start ?_ rfl) ?_ rfl
  all_goals decide +kernel

theorem lookup_refiles_deleted_key :
    let run := (KvRun.step ⟨(deleteKv "a".toList "k".toList true onePutStore).2, []⟩
      (calmly (.get "a".toList "k".toList))).step (calmly (.loseFoyer "p/a/k".toList))
    (deleteKv "a".toList "k".toList true onePutStore).1 = .ok true ∧
      run.store.foyer.contains (run.store.cacheKey "a".toList "k".toList) = false ∧
        (getKv "a".toList "k".toList true (run.store.withFaults fun _ => none)).1 =
          .ok (.hit .foyer [65]) := by
  decide +kernel

end WombatKV



