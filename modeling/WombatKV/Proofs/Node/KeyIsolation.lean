import WombatKV.Proofs.Node.KvStore

/-! Which namespaces and keys the tiers keep apart. -/

namespace WombatKV

open ObjectStore Call WombatKVKvStore List

section Sources

variable (store : WombatKVKvStore) (pairs : Set (Text × Text))
  (history : List (KvCall × Except EmbedError KvAnswer))

def PutUnder (name : Text → Text → Text) (named : Text) (payload : Bytes) : Prop :=
  ∃ ns key, (ns, key) ∈ pairs ∧ name ns key = named ∧ ∃ answer, (.put ns key payload, answer) ∈ history

def Sourced (now : WombatKVKvStore) : Prop :=
  now.TiersMeet (PutUnder pairs history store.fileName) (PutUnder pairs history store.objectKey)

end Sources

section Runs

variable {store now : WombatKVKvStore} {pairs : Set (Text × Text)} {payloads : Set Bytes}
  {history : List (KvCall × Except EmbedError KvAnswer)}

theorem PutUnder.later {name : Text → Text → Text} {named : Text} {payload : Bytes}
    (put : PutUnder pairs history name named payload)
    (entry : KvCall × Except EmbedError KvAnswer) :
    PutUnder pairs (entry :: history) name named payload := by
  obtain ⟨ns, key, used, same, answer, member⟩ := put
  exact ⟨ns, key, used, same, answer, mem_cons_of_mem _ member⟩

theorem Sourced.later (sourced : Sourced store pairs history now)
    (entry : KvCall × Except EmbedError KvAnswer) : Sourced store pairs (entry :: history) now :=
  ⟨fun file payload present => (sourced.flat file payload present).later entry,
    fun key payload present => (sourced.foyer key payload present).later entry,
    fun key stored present => (sourced.objects key stored present).later entry⟩

theorem PutUnder.filed {name : Text} {payload : Bytes}
    (put : PutUnder pairs history store.objectKey name payload) :
    PutUnder pairs history store.fileName (FlatFileKvBlobCache.pathForKey name) payload := by
  obtain ⟨ns, key, used, rfl, answered⟩ := put
  exact ⟨ns, key, used, rfl, answered⟩

structure SourcedRun (store : WombatKVKvStore) (pairs : Set (Text × Text)) (run : KvRun) :
    Prop where
  setup : SameSetup store run.store
  sourced : Sourced store pairs run.history run.store
  own : HitsOwnPuts run.history

theorem SourcedRun.step {run : KvRun} (before : SourcedRun store pairs run)
    (injective : Set.InjOn (fun pair => store.fileName pair.1 pair.2) pairs)
    (roundTrips : ∀ payload ∈ payloads, store.RoundTrips payload) {taken : KvStep}
    (within : taken.call.Within pairs payloads) : SourcedRun store pairs (run.step taken) := by
  generalize ready : run.store.withFaults taken.faults = start
  have readySetup : SameSetup store start :=
    before.setup.trans (ready ▸ .of rfl)
  have readySourced : Sourced store pairs run.history start :=
    ready ▸ before.sourced.withObjectStore rfl
  rcases ran : perform taken.call taken.fileOk start with ⟨answer, after⟩
  have stepped : run.step taken = ⟨after, (taken.call, answer) :: run.history⟩ := by
    simp only [KvRun.step, ready, ran]
  have later := readySourced.later (taken.call, answer)
  have kept := perform_meets later (fun ns key payload put => by
    simpa only [fileName, cacheKey, readySetup.objectKey] using put.filed) taken.call taken.fileOk (by
    intro ns key payload isPut
    simp only [isPut, KvCall.Within] at within
    have own : PutUnder pairs ((taken.call, answer) :: run.history) store.objectKey
        (start.objectKey ns key) payload :=
      ⟨ns, key, within.1, (readySetup.objectKey ns key).symm, answer, by simp [isPut]⟩
    refine ⟨own, fun stored encoded => ?_⟩
    rw [readySetup.zstd, readySetup.compression] at encoded
    rw [readySetup.zstd, roundTrips payload within.2 stored encoded]
    exact own)
  simp only [Ensures, ran] at kept
  obtain ⟨afterSetup, afterSourced, hits⟩ := kept
  rw [stepped]
  refine ⟨readySetup.trans afterSetup, afterSourced, ?_⟩
  intro ns key tier payload member
  rcases mem_cons.mp member with latest | earlier
  · -- The hit of this very call: its file belongs to this pair alone.
    obtain ⟨isGet, answered⟩ := Prod.mk.injEq .. ▸ latest
    simp only [← isGet, KvCall.Within] at within
    obtain ⟨otherNs, otherKey, used, sameFile, put⟩ :=
      hits ns key tier payload isGet.symm answered.symm
    have samePair : (otherNs, otherKey) = (ns, key) := by
      apply injective used within
      exact sameFile.trans (by simp only [fileName, cacheKey, readySetup.objectKey])
    cases samePair
    exact put
  · obtain ⟨answer, put⟩ := before.own ns key tier payload earlier
    exact ⟨answer, mem_cons_of_mem _ put⟩

end Runs

section Leaks

variable {store : WombatKVKvStore} {ns key : Text} {payload : Bytes}

theorem step_calmly {run : KvRun} (healthy : run.store.objectStore.Healthy) {call : KvCall}
    {answer : Except EmbedError KvAnswer} {after : WombatKVKvStore}
    (ran : perform call true run.store = (answer, after)) :
    run.step (calmly call) = ⟨after, (call, answer) :: run.history⟩ := by
  have same : run.store.withFaults (fun _ => none) = run.store := by
    rw [withFaults, ← healthy]
    rfl
  simp only [KvRun.step, calmly, same, ran]

theorem hit_of_sameFile (healthy : store.objectStore.Healthy) {otherNs otherKey : Text}
    (same : store.fileName otherNs otherKey = store.fileName ns key) :
    ∃ answer, ((KvRun.step ⟨store, []⟩ (calmly (.put ns key payload))).step
      (calmly (.get otherNs otherKey))).history =
        [(.get otherNs otherKey, .ok (.got (.hit .foyer payload))),
          (.put ns key payload, answer)] := by
  rcases ran : putKv ns key payload true store with ⟨result, after⟩
  have caches := @putKv_caches store ns key payload true
  simp only [Ensures, ran] at caches
  obtain ⟨setup, flat, _⟩ := caches
  have put : ∃ answer, perform (.put ns key payload) true store = (answer, after) := by
    cases result with
    | error error => exact ⟨_, Call.bind_error ran⟩
    | ok answer => exact ⟨_, Call.bind_ok ran⟩
  obtain ⟨answer, put⟩ := put
  have named : (after.withFaults fun _ => none).fileName otherNs otherKey =
      store.fileName ns key := by
    simpa only [fileName, cacheKey, withFaults, withObjectStore, objectKey, setup.s3Prefix]
      using same
  have file : (after.withFaults fun _ => none).flat.files[(after.withFaults fun _ => none).fileName
      otherNs otherKey]? = some payload := by
    rw [named, ← cached_file store ns key payload, ← flat]
    rfl
  have looked : perform (.get otherNs otherKey) true (after.withFaults fun _ => none) =
      (.ok (.got (.hit .foyer payload)), after.withFaults fun _ => none) := by
    rw [perform, Call.bind_ok (getKv_flat file true)]
    rfl
  have first : KvRun.step ⟨store, []⟩ (calmly (.put ns key payload)) =
      ⟨after, [(.put ns key payload, answer)]⟩ := step_calmly healthy put
  refine ⟨answer, ?_⟩
  rw [first]
  simp only [KvRun.step, calmly, looked]

theorem hit_of_stored (healthy : store.objectStore.Healthy) {stored : Bytes}
    (free : store.objectStore.objects[store.objectKey ns key]? = none)
    (encoded : encodeWithHeader store.zstd payload store.compression = .ok stored) :
    ((((KvRun.step ⟨store, []⟩ (calmly (.put ns key payload))).step (calmly .clearFlat)).step
      (calmly .clearFoyer)).step (calmly (.get ns key))).history =
        [(.get ns key, .ok (.got (.hit .objectStore (decodeIfCompressed store.zstd stored)))),
          (.clearFoyer, .ok .done), (.clearFlat, .ok .done), (.put ns key payload, .ok .done)] := by
  generalize written : (store.cached ns key payload true).withObjectStore
    (store.objectStore.withPut (store.objectKey ns key) stored) = after
  have put : perform (.put ns key payload) true store = (.ok .done, after) := by
    rw [perform, Call.bind_ok (putKv_healthy healthy encoded true), written]
    rfl
  have still : after.objectStore.Healthy := written ▸ healthy.withPut
  have object : after.objectStore.objects[after.objectKey ns key]? = some stored := by
    rw [← written]
    exact putInto_absent free
  have looked := @getKv_objects (clearFoyer (clearFlatCache after)) ns key still
    Std.ExtTreeMap.getElem?_empty Std.ExtTreeMap.getElem?_empty true
  have uncached : (clearFoyer (clearFlatCache after)).objectStore.objects[
    (clearFoyer (clearFlatCache after)).objectKey ns key]? = some stored := object
  rw [uncached] at looked
  have got : (perform (.get ns key) true (clearFoyer (clearFlatCache after))).1 =
      .ok (.got (.hit .objectStore (decodeIfCompressed store.zstd stored))) := by
    rw [perform, Call.bind_ok (Prod.ext looked rfl)]
    rw [← written]
    rfl
  have first : KvRun.step ⟨store, []⟩ (calmly (.put ns key payload)) =
      ⟨after, [(.put ns key payload, .ok .done)]⟩ := step_calmly healthy put
  have second : KvRun.step ⟨after, [(.put ns key payload, .ok .done)]⟩ (calmly .clearFlat) =
      ⟨clearFlatCache after, [(.clearFlat, .ok .done), (.put ns key payload, .ok .done)]⟩ :=
    step_calmly still rfl
  have third : KvRun.step ⟨clearFlatCache after, [(.clearFlat, .ok .done),
      (.put ns key payload, .ok .done)]⟩ (calmly .clearFoyer) =
        ⟨clearFoyer (clearFlatCache after), [(.clearFoyer, .ok .done), (.clearFlat, .ok .done),
          (.put ns key payload, .ok .done)]⟩ := step_calmly still rfl
  have ran : perform (.get ns key) true (clearFoyer (clearFlatCache after)) =
      (.ok (.got (.hit .objectStore (decodeIfCompressed store.zstd stored))),
        (perform (.get ns key) true (clearFoyer (clearFlatCache after))).2) := Prod.ext got rfl
  rw [first, second, third, step_calmly still ran]

end Leaks

/-- The hits of every run are among its own puts exactly when file names and encodings are faithful. -/
theorem hitsOwnPuts_iff (config : EmbedConfig) (zstd : Zstd) (putPolicy : PutPolicy)
    {store : WombatKVKvStore} (created : freshStore config zstd putPolicy = .ok store)
    {pairs : Set (Text × Text)} {payloads : Set Bytes} (somePair : pairs.Nonempty)
    (somePayload : payloads.Nonempty) :
    (∀ run, (kvSystem store).Reachable (fun _ taken => taken.call.Within pairs payloads) run →
      HitsOwnPuts run.history) ↔
    Set.InjOn (fun pair => store.fileName pair.1 pair.2) pairs ∧
      ∀ payload ∈ payloads, store.RoundTrips payload := by
  obtain ⟨noFiles, noEntries, noObjects, healthy⟩ := freshStore_empty created
  constructor
  · intro isolated
    have begun : (kvSystem store).Reachable (fun _ taken => taken.call.Within pairs payloads)
        (kvSystem store).start := .start
    constructor
    · -- Two pairs with one file: the second hits what only the first has put.
      rintro ⟨ns, key⟩ used ⟨otherNs, otherKey⟩ otherUsed same
      obtain ⟨payload, chosen⟩ := somePayload
      obtain ⟨answer, history⟩ := @hit_of_sameFile store ns key payload healthy otherNs otherKey
        same.symm
      have put := begun.calmly (.put ns key payload) ⟨used, chosen⟩
      have own := isolated _ (put.calmly (.get otherNs otherKey) otherUsed)
      obtain ⟨_, put⟩ := own otherNs otherKey .foyer payload
        (history ▸ mem_cons_self)
      have listed := history ▸ put
      simp only [mem_cons, Prod.mk.injEq, reduceCtorEq, false_and, KvCall.put.injEq,
        not_mem_nil, or_false, false_or] at listed
      exact Prod.ext listed.1.1.symm listed.1.2.1.symm
    · -- A payload that decodes to another one: the lookup hits what nobody has put.
      intro payload chosen stored encoded
      obtain ⟨⟨ns, key⟩, used⟩ := somePair
      have free : store.objectStore.objects[store.objectKey ns key]? = none := by
        rw [noObjects]
        exact Std.ExtTreeMap.getElem?_empty
      have history := hit_of_stored healthy free encoded
      have put := begun.calmly (.put ns key payload) ⟨used, chosen⟩
      have cleared := (put.calmly .clearFlat trivial).calmly .clearFoyer trivial
      have own := isolated _ (cleared.calmly (.get ns key) used)
      obtain ⟨_, put⟩ := own ns key .objectStore _ (history ▸ mem_cons_self)
      have listed := history ▸ put
      simp only [mem_cons, Prod.mk.injEq, reduceCtorEq, false_and, KvCall.put.injEq,
        not_mem_nil, or_false, false_or] at listed
      exact listed.1.2.2
  · rintro ⟨injective, roundTrips⟩ run reached
    have start : SourcedRun store pairs (kvSystem store).start := by
      refine ⟨.refl store, ⟨?_, ?_, ?_⟩, fun _ _ _ _ member => nomatch member⟩
      · intro file payload present
        simp [kvSystem, noFiles] at present
      · intro name payload present
        simp [kvSystem, noEntries] at present
      · intro name stored present
        simp [kvSystem, noObjects] at present
    have kept : SourcedRun store pairs run := by
      apply reached.invariant start
      intro before taken after sourced within made
      cases made
      exact sourced.step injective roundTrips within
    exact kept.own

theorem hitsOwnPuts_iff_plainNames :
    freshStore ⟨"p".toList, true, ⟨.none, 3⟩⟩ plainStore.zstd .replace = .ok plainStore ∧
    ∀ run, (kvSystem plainStore).Reachable (fun _ taken =>
      taken.call.Within {("a".toList, "k".toList), ("b".toList, "k".toList)} {[65]}) run →
        HitsOwnPuts run.history := by
  have created : freshStore ⟨"p".toList, true, ⟨.none, 3⟩⟩ plainStore.zstd .replace =
      .ok plainStore := rfl
  refine ⟨created, ?_⟩
  apply (hitsOwnPuts_iff _ _ _ created (Set.insert_nonempty _ _) (Set.singleton_nonempty _)).mpr
  refine ⟨?_, ?_⟩
  · rintro pair (rfl | rfl) other (rfl | rfl) same
    · rfl
    · exact absurd same (by decide)
    · exact absurd same (by decide)
    · rfl
  · rintro payload rfl stored encoded
    cases encoded
    decide

theorem slash_namespace_leaks :
    ∃ run, (kvSystem plainStore).Reachable (fun _ _ => True) run ∧
      (.get "a_b".toList "k".toList, .ok (.got (.hit .foyer [65]))) ∈ run.history ∧
        ∀ payload answer, (.put "a_b".toList "k".toList payload, answer) ∉ run.history := by
  have ran : ((KvRun.step ⟨plainStore, []⟩ (calmly (.put "a/b".toList "k".toList [65]))).step
      (calmly (.get "a_b".toList "k".toList))).history =
        [(.get "a_b".toList "k".toList, .ok (.got (.hit .foyer [65]))),
          (.put "a/b".toList "k".toList [65], .ok .done)] := by decide +kernel
  have begun : (kvSystem plainStore).Reachable (fun _ _ => True) ⟨plainStore, []⟩ := .start
  have put := begun.calmly (.put "a/b".toList "k".toList [65]) trivial
  refine ⟨_, put.calmly (.get "a_b".toList "k".toList) trivial, ?_⟩
  rw [ran]
  exact ⟨mem_cons_self, by simp⟩

end WombatKV
