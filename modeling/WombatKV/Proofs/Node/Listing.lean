import WombatKV.Proofs.Node.KvStore

/-! When a namespace is listed exactly. -/

namespace WombatKV

open ObjectStore Call WombatKVKvStore List

namespace WombatKVKvStore

variable {store : WombatKVKvStore} {ns key : Text}

theorem objectKey_eq_append (store : WombatKVKvStore) (ns key : Text) :
    store.objectKey ns key = store.listPrefixOf ns ++ key := by
  unfold objectKey listPrefixOf
  split <;> simp

/-- The bucket's names and the store's are one spelling: in memory, or without a leading slash. -/
theorem listedName_eq {key : Text} (named : store.objectStore.putPolicy = .keepExisting ∨
    Slashless store.s3Prefix) (filled : store.s3Prefix ≠ [])
    (listed : store.listPrefixOf ns <+: key) : store.objectStore.listedName key = key := by
  rw [ObjectStore.listedName]
  rcases named with inMemory | slashless
  · rw [inMemory]
  · have first : key.head? = store.s3Prefix.head? := by
      obtain ⟨rest, rfl⟩ := listed
      cases spelled : store.s3Prefix with
      | nil => exact absurd spelled filled
      | cons char chars => unfold listPrefixOf; split <;> simp [spelled]
    split
    · rfl
    · exact normalizeKey_slashless (by rw [Slashless, first]; exact slashless)

section Listed

variable (named : store.objectStore.putPolicy = .keepExisting ∨ Slashless store.s3Prefix)
  (filled : store.s3Prefix ≠ [])

include named filled

theorem listKvKeys_healthy (healthy : store.objectStore.Healthy) (ns : Text) :
    listKvKeys ns store = (.ok ((store.objectStore.objects.keys.filter
      ((store.listPrefixOf ns).isPrefixOf ·)).filterMap (·.dropPrefix? (store.listPrefixOf ns))),
        store) := by
  have spelled : (store.objectStore.objects.keys.filter
      ((store.listPrefixOf ns).isPrefixOf ·)).map store.objectStore.listedName =
      store.objectStore.objects.keys.filter ((store.listPrefixOf ns).isPrefixOf ·) := by
    refine (map_congr_left fun key member => ?_).trans (map_id _)
    exact listedName_eq named filled (List.isPrefixOf_iff_prefix.mp (mem_filter.mp member).2)
  have listed : listPrefix (store.listPrefixOf ns) store.objectStore =
      (.ok (store.objectStore.objects.keys.filter ((store.listPrefixOf ns).isPrefixOf ·)),
        store.objectStore) := healthy.request _
  rw [listKvKeys, get_bind_apply, Call.bind_ok (onStore_ok listed), spelled]
  rfl

theorem listKvKeys_exact (healthy : store.objectStore.Healthy) (ns : Text) :
    ∃ keys, (listKvKeys ns store).1 = .ok keys ∧ keys.Nodup ∧
      ∀ key, key ∈ keys ↔ store.objectKey ns key ∈ store.objectStore.objects := by
  refine ⟨_, congrArg Prod.fst (listKvKeys_healthy named filled healthy ns), ?_, fun key => ?_⟩
  · -- Different object keys behind one prefix are different behind it, too.
    refine List.Nodup.filterMap ?_ (Std.ExtTreeMap.nodup_keys.filter _)
    intro first second key fromFirst fromSecond
    rw [Option.mem_def, List.dropPrefix?_eq_some_iff] at fromFirst fromSecond
    obtain ⟨start, rfl, sameStart⟩ := fromFirst
    obtain ⟨other, rfl, sameOther⟩ := fromSecond
    rw [eq_of_beq sameStart, eq_of_beq sameOther]
  · simp only [mem_filterMap, mem_filter, Std.ExtTreeMap.mem_keys,
      List.dropPrefix?_eq_some_iff, beq_iff_eq, objectKey_eq_append]
    constructor
    · rintro ⟨objectKey, ⟨present, _⟩, start, rfl, rfl⟩
      exact present
    · intro present
      exact ⟨_, ⟨present, by simp⟩, _, rfl, rfl⟩

end Listed

end WombatKVKvStore

structure ListsLive (store : WombatKVKvStore) (ns : Text)
    (history : List (KvCall × Except EmbedError KvAnswer)) (now : WombatKVKvStore) : Prop where
  setup : SameSetup store now
  live : ∀ key, store.objectKey ns key ∈ now.objectStore.objects ↔ isLive ns key history = true

section Steps

variable {store now : WombatKVKvStore} {listed : Text}
  {history : List (KvCall × Except EmbedError KvAnswer)} {ns key : Text}

theorem objectKey_right_inj {first second : Text} :
    store.objectKey ns first = store.objectKey ns second ↔ first = second := by
  simp only [objectKey_eq_append, append_cancel_left_eq]

theorem objectKey_outside {other : Text}
    (outside : ¬ store.listPrefixOf listed <+: store.objectKey ns key) :
    store.objectKey ns key ≠ store.objectKey listed other := by
  intro same
  rw [same, objectKey_eq_append store listed] at outside
  exact outside (prefix_append _ _)

theorem KvRun.staysOutside_cases {run : KvRun} {taken : KvStep}
    (named : (∃ payload, taken.call = .put ns key payload) ∨ taken.call = .delete ns key)
    (setup : SameSetup store run.store) (outside : run.staysOutside listed taken = true) :
    ns = listed ∨ ¬ store.listPrefixOf listed <+: store.objectKey ns key := by
  have prefixes : run.store.listPrefixOf listed = store.listPrefixOf listed := by
    simp only [listPrefixOf, setup.s3Prefix]
  rcases named with ⟨payload, put⟩ | delete
  · simpa [KvRun.staysOutside, put, prefixes, setup.objectKey,
      ← List.isPrefixOf_iff_prefix] using outside
  · simpa [KvRun.staysOutside, delete, prefixes, setup.objectKey,
      ← List.isPrefixOf_iff_prefix] using outside

theorem ListsLive.put (lists : ListsLive store listed history now) {payload stored : Bytes}
    {fileOk : Bool} (outside : ns = listed ∨ ¬ store.listPrefixOf listed <+: store.objectKey ns key)
    {answer : KvAnswer} :
    ListsLive store listed ((.put ns key payload, .ok answer) :: history)
      ((now.cached ns key payload fileOk).withObjectStore
        (now.objectStore.advance.withPut (now.objectKey ns key) stored)) := by
  refine ⟨lists.setup.trans (.of rfl), fun other => ?_⟩
  change store.objectKey listed other ∈ putInto _ now.objectStore.objects _ stored ↔ _
  rw [mem_putInto, lists.setup.objectKey, lists.live]
  simp only [isLive, Bool.or_eq_true, decide_eq_true_eq]
  refine or_congr_left ?_
  rcases outside with rfl | outside
  · simp [objectKey_right_inj]
  · -- Another namespace's object: neither the name nor the pair is the listed one.
    refine ⟨fun same => absurd same (objectKey_outside outside), ?_⟩
    rintro ⟨rfl, _⟩
    rw [objectKey_eq_append] at outside
    exact absurd (prefix_append _ _) outside

theorem ListsLive.delete (lists : ListsLive store listed history now) {fileOk : Bool}
    (outside : ns = listed ∨ ¬ store.listPrefixOf listed <+: store.objectKey ns key)
    {answer : KvAnswer} :
    ListsLive store listed ((.delete ns key, .ok answer) :: history)
      ((now.unfiled ns key fileOk).withObjectStore { now.objectStore.advance with
        objects := now.objectStore.objects.erase (now.objectKey ns key) }) := by
  refine ⟨lists.setup.trans (.of rfl), fun other => ?_⟩
  have left : store.objectKey listed other ∈ now.objectStore.objects.erase (now.objectKey ns key) ↔
      now.objectKey ns key ≠ store.objectKey listed other ∧
        store.objectKey listed other ∈ now.objectStore.objects := by simp
  refine left.trans ?_
  rw [lists.setup.objectKey, lists.live]
  simp only [isLive, Bool.and_eq_true, decide_eq_true_eq]
  refine and_congr_left fun _ => not_congr ?_
  rcases outside with rfl | outside
  · simp [objectKey_right_inj]
  · refine ⟨fun same => absurd same (objectKey_outside outside), ?_⟩
    rintro ⟨rfl, _⟩
    rw [objectKey_eq_append] at outside
    exact absurd (prefix_append _ _) outside

theorem KvRun.step_of_acknowledged {α : Type} {run : KvRun} {taken : KvStep}
    {call : Call EmbedError WombatKVKvStore α} {answerOf : α → KvAnswer}
    {property : List (KvCall × Except EmbedError KvAnswer) → WombatKVKvStore → Prop}
    (performs : perform taken.call taken.fileOk = call >>= fun answer => pure (answerOf answer))
    (acknowledged : (perform taken.call taken.fileOk (run.store.withFaults taken.faults)).1.toBool =
      true)
    (kept : call.Ensures (fun result after => ∀ answer, result = .ok answer →
      property ((taken.call, .ok (answerOf answer)) :: run.history) after)
        (run.store.withFaults taken.faults)) :
    property (run.step taken).history (run.step taken).store := by
  simp only [KvRun.step]
  rcases bind_cases call (fun answer => pure (answerOf answer))
    (run.store.withFaults taken.faults) with ⟨error, _, ran⟩ | ⟨answer, answered, ran⟩
  · rw [performs, ran] at acknowledged
    cases acknowledged
  · rw [performs, ran]
    exact kept answer answered

theorem ListsLive.step {run : KvRun} (lists : ListsLive store listed run.history run.store)
    {taken : KvStep} (changes : run.changes taken = true)
    (outside : run.staysOutside listed taken = true) (reaches : run.putsReachBucket taken = true) :
    ListsLive store listed (run.step taken).history (run.step taken).store := by
  obtain ⟨call, fileOk, faults⟩ := taken
  have ready : ListsLive store listed run.history (run.store.withFaults faults) :=
    ⟨lists.setup.trans (.of rfl), lists.live⟩
  simp only [KvRun.changes, Bool.and_eq_true] at changes
  cases call with
  | get ns key | clearFoyer | clearFlat | restore ns | loseFoyer cacheKey | loseFlat file =>
    cases changes.1
  | put ns key payload =>
    have apart := KvRun.staysOutside_cases (.inl ⟨payload, rfl⟩) lists.setup outside
    have kept : (putKv ns key payload fileOk).Ensures (fun result after =>
        ∀ answer, result = .ok answer →
          ListsLive store listed ((.put ns key payload, .ok .done) :: run.history) after)
        (run.store.withFaults faults) := by
      apply ensures_putKv
      · intro error _ _ answered
        cases answered
      · -- The failure is reported, or it would be swallowed and is ruled out.
        intro stored error _ fault _ answered
        simp only [KvRun.putsReachBucket, Bool.or_eq_true, Option.isNone_iff_eq_none] at reaches
        rcases reaches with through | served
        · have reported : (run.store.withFaults faults).writeThroughS3 = true := through
          rw [reported, if_pos rfl] at answered
          cases answered
        · cases fault.symm.trans served
      · intro stored _ _ _ _
        exact ready.put apart
    exact KvRun.step_of_acknowledged rfl changes.2 kept
  | delete ns key =>
    have apart := KvRun.staysOutside_cases (.inr rfl) lists.setup outside
    have kept : (deleteKv ns key fileOk).Ensures (fun result after => ∀ present,
        result = .ok present →
          ListsLive store listed ((.delete ns key, .ok (.deleted present)) :: run.history) after)
        (run.store.withFaults faults) := by
      apply ensures_deleteKv
      · intro error _ _ answered
        cases answered
      · intro _ _ _
        exact ready.delete apart
    exact KvRun.step_of_acknowledged rfl changes.2 kept

end Steps

theorem freshStore_config {config : EmbedConfig} {zstd : Zstd} {putPolicy : PutPolicy}
    {store : WombatKVKvStore} (created : freshStore config zstd putPolicy = .ok store) :
    store.objectStore.putPolicy = putPolicy ∧ store.s3Prefix = config.s3Prefix ∧
      store.s3Prefix ≠ [] := by
  simp only [freshStore, WombatKVKvStore.new] at created
  split at created
  · cases created
  · rename_i filled
    cases created
    exact ⟨rfl, rfl, filled⟩

/-- A listing names exactly the keys that were put under its namespace and not deleted since, each once. -/
theorem listing_is_exact {config : EmbedConfig} {zstd : Zstd} {putPolicy : PutPolicy}
    {store : WombatKVKvStore} (created : freshStore config zstd putPolicy = .ok store)
    (named : putPolicy = .keepExisting ∨ Slashless config.s3Prefix) (ns : Text)
    {run : KvRun} (reached : (kvSystem store).Reachable (fun run taken =>
      run.changes taken = true ∧ run.staysOutside ns taken = true ∧
        run.putsReachBucket taken = true) run) :
    ∃ keys, (listKvKeys ns (run.store.withFaults fun _ => none)).1 = .ok keys ∧ keys.Nodup ∧
      ∀ key, key ∈ keys ↔ isLive ns key run.history = true := by
  obtain ⟨_, _, noObjects, _⟩ := freshStore_empty created
  have start : ListsLive store ns (kvSystem store).start.history (kvSystem store).start.store :=
    ⟨.refl store, fun key => by simp [kvSystem, noObjects, isLive]⟩
  have lists : ListsLive store ns run.history run.store := by
    refine @System.Reachable.invariant _ _ _ _
      (fun run => ListsLive store ns run.history run.store) start ?_ _ reached
    rintro before taken after lists ⟨changes, outside, reaches⟩ made
    cases made
    exact lists.step changes outside reaches
  have healthy : (run.store.withFaults fun _ => none).objectStore.Healthy := rfl
  obtain ⟨policy, spelled, filled⟩ := freshStore_config created
  rw [← policy, ← spelled, ← lists.setup.putPolicy, ← lists.setup.s3Prefix] at named
  rw [← lists.setup.s3Prefix] at filled
  obtain ⟨keys, listed, once, exact⟩ := @listKvKeys_exact
    (run.store.withFaults fun _ => none) named filled healthy ns
  refine ⟨keys, listed, once, fun key => (exact key).trans ?_⟩
  have named : (run.store.withFaults fun _ => none).objectKey ns key = store.objectKey ns key :=
    lists.setup.objectKey ns key
  rw [named]
  exact lists.live key

theorem listing_is_exact_twoNamespaces :
    let run := (((KvRun.step ⟨plainStore, []⟩ (calmly (.put "a".toList "k/1".toList [65]))).step
      (calmly (.put "b".toList "k".toList [66]))).step
        (calmly (.put "a".toList "l".toList [67]))).step (calmly (.delete "a".toList "l".toList))
    ∃ keys, (listKvKeys "a".toList (run.store.withFaults fun _ => none)).1 = .ok keys ∧
      keys.Nodup ∧ ∀ key, key ∈ keys ↔ isLive "a".toList key run.history = true := by
  have created : freshStore ⟨"p".toList, true, ⟨.none, 3⟩⟩ plainStore.zstd .replace =
      .ok plainStore := rfl
  refine listing_is_exact created (.inr (by unfold Slashless; decide)) "a".toList ?_
  refine .step (.step (.step (.step .start ?_ rfl) ?_ rfl) ?_ rfl) ?_ rfl
  all_goals decide +kernel

theorem nested_namespace_is_listed :
    let run := KvRun.step ⟨plainStore, []⟩ (calmly (.put "a/b".toList "c".toList [65]))
    run.history = [(.put "a/b".toList "c".toList [65], .ok .done)] ∧
      (listKvKeys "a".toList run.store).1 = .ok ["b/c".toList] ∧
        isLive "a".toList "b/c".toList run.history = false := by
  decide +kernel

end WombatKV
