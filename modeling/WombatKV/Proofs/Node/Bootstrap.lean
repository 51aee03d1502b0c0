import Mathlib.Data.UInt
import WombatKV.Foundation.Counting
import WombatKV.Node.Bootstrap
import WombatKV.Node.Lru
import WombatKV.Proofs.Node.BlockNode
import WombatKV.Proofs.Node.Listing
import WombatKV.Proofs.Radix.MetadataIndex

/-! What a start enters into the index, and what can be fetched. -/

namespace WombatKV

open List

section

open ObjectStore Call WombatKVKvStore

theorem decodeHex32AnyCase_eq (hex : Text) :
    decodeHex32AnyCase hex = (parseBlockHashHex hex).toOption := by
  unfold decodeHex32AnyCase parseBlockHashHex
  split
  · cases decodeHash decodeHexNibble (utf8 hex) _ with
    | ok hash => rfl
    | error position => rfl
  · rfl

theorem hashOfListedKey_eq (key : Text) :
    hashOfListedKey key = (splitAtFirst blockKeyInfix key).bind fun parts =>
      decodeHex32AnyCase parts.2 := by
  unfold hashOfListedKey ListedKey.ofKey
  cases splitAtFirst blockKeyInfix key with
  | none =>
    simp only [Option.bind_none]
    split
    · rename_i found
      split at found <;> cases found
    · rfl
  | some parts =>
    simp only [Option.bind_some]
    cases decodeHex32AnyCase parts.2 with
    | none => rfl
    | some hash => rfl

namespace WombatKVKvStore

variable {store : WombatKVKvStore} {ns : Text}

theorem listPrefixOf_eq (store : WombatKVKvStore) (ns : Text) :
    store.listPrefixOf ns = store.namespaceRoot ns ++ ['/'] := by
  unfold listPrefixOf namespaceRoot
  split <;> simp

theorem objectKey_blockKeyForHash (store : WombatKVKvStore) (ns : Text) (hash : BlockHash) :
    store.objectKey ns (blockKeyForHash hash) =
      store.namespaceRoot ns ++ (blockKeyInfix ++ hexLower hash.toList) := by
  rw [objectKey_eq_append, listPrefixOf_eq, append_assoc]
  rfl

theorem hashOfListedKey_objectKey (absent : ¬ blockKeyInfix <:+: store.namespaceRoot ns)
    (hash : BlockHash) :
    hashOfListedKey (store.objectKey ns (blockKeyForHash hash)) = some hash := by
  rw [hashOfListedKey_eq, objectKey_blockKeyForHash,
    splitAtFirst_append_of_unbordered (by decide) (by decide) absent, Option.bind_some,
    decodeHex32AnyCase_eq, parseBlockHashHex_hexLower]
  rfl

theorem hashOfListedKey_of_inside (occurs : blockKeyInfix <:+: store.namespaceRoot ns) {key : Text}
    (listed : store.listPrefixOf ns <+: key) : hashOfListedKey key = none := by
  obtain ⟨rest, rfl⟩ := listed
  cases found : splitAtFirst blockKeyInfix (store.namespaceRoot ns) with
  | none => exact absurd occurs (splitAtFirst_eq_none.mp found)
  | some parts =>
    rw [hashOfListedKey_eq, listPrefixOf_eq, append_assoc,
      splitAtFirst_append_right found, Option.bind_some, decodeHex32AnyCase_eq]
    cases parsed : parseBlockHashHex (parts.2 ++ (['/'] ++ rest)) with
    | error error => rfl
    | ok hash =>
      have digit := parseBlockHashHex_alphanumeric parsed '/' (by simp)
      exact absurd digit (by decide)

end WombatKVKvStore

namespace BlockNode

variable {ε : Type} {node : BlockNode}

structure Booted (hashes : List BlockHash) (before after : BlockNode) : Prop where
  setup : SameSetup before.store after.store
  objects : after.store.objectStore.objects = before.store.objectStore.objects
  slate : after.slatedbIndex = before.slatedbIndex
  lives : after.stepsLeft = none
  entered : ∀ hash ∈ hashes, ∃ now, after.metadataIndex.entries[hash]? = some (unknownRoot now)
  others : ∀ hash, hash ∉ hashes →
    after.metadataIndex.entries[hash]? = before.metadataIndex.entries[hash]?

theorem Booted.refl (lives : node.stepsLeft = none) : Booted [] node node :=
  ⟨.refl _, rfl, rfl, lives, by simp, fun _ _ => rfl⟩

theorem Booted.trans {first second : List BlockHash} {before between after : BlockNode}
    (one : Booted first before between) (two : Booted second between after) :
    Booted (first ++ second) before after where
  setup := one.setup.trans two.setup
  objects := two.objects.trans one.objects
  slate := two.slate.trans one.slate
  lives := two.lives
  entered hash member := by
    by_cases again : hash ∈ second
    · exact two.entered hash again
    · rw [two.others hash again]
      exact one.entered hash ((mem_append.mp member).resolve_right again)
  others hash absent := by
    rw [mem_append, not_or] at absent
    rw [two.others hash absent.2, one.others hash absent.1]

theorem Booted.clock (lives : node.stepsLeft = none) (clock : Nat → UInt64) :
    Booted [] node { node with clock } :=
  ⟨.refl _, rfl, rfl, lives, by simp, fun _ _ => rfl⟩

theorem insertIndex_booted (lives : node.stepsLeft = none) (hash : BlockHash) (now : UInt64) :
    (insertIndex hash (unknownRoot now) : Call (Halt ε) BlockNode PUnit).Ensures
      (fun result after => result = .ok () ∧ Booted [hash] node after) node := by
  have alive : ({ node with clock := fun reading => node.clock (reading + 1) } :
    BlockNode).stepsLeft = none := lives
  simp only [insertIndex, ensures_bind, ensures_nowNs, andThen_ok, ensures_tick_of_lives alive,
    ensures_modify, true_and]
  refine ⟨.refl _, rfl, rfl, lives, ?_, ?_⟩
  · intro other member
    cases mem_singleton.mp member
    exact ⟨node.clock 0, Std.ExtTreeMap.getElem?_insert_self⟩
  · intro other absent
    rw [mem_singleton] at absent
    simp [InMemoryMetadataIndex.insert, Std.ExtTreeMap.getElem?_insert, Ne.symm absent]

theorem indexListedKeys_booted (keys : List Text) (lives : node.stepsLeft = none) (loaded : Nat)
    (sidecars : List Text) :
    (indexListedKeys keys loaded sidecars : Call (Halt ε) BlockNode (Nat × List Text)).Ensures
      (fun result after => (∃ collected,
        result = .ok (loaded + (keys.filterMap hashOfListedKey).length, collected)) ∧
          Booted (keys.filterMap hashOfListedKey) node after) node := by
  induction keys generalizing node loaded sidecars with
  | nil => exact ⟨⟨sidecars, rfl⟩, .refl lives⟩
  | cons key rest ih =>
    cases kind : ListedKey.ofKey key with
    | block hash =>
      have read : hashOfListedKey key = some hash := by rw [hashOfListedKey, kind]
      simp only [indexListedKeys, kind, ensures_bind, ensures_nowNs, andThen_ok,
        filterMap_cons_some read, length_cons]
      have clock := Booted.clock lives fun reading => node.clock (reading + 1)
      refine (insertIndex_booted clock.lives hash (node.clock 0)).weaken ?_
      rintro result between ⟨rfl, entered⟩
      rw [andThen_ok]
      refine (ih entered.lives (loaded + 1) sidecars).weaken ?_
      rintro result after ⟨⟨collected, rfl⟩, booted⟩
      exact ⟨⟨collected, by rw [Nat.add_right_comm, Nat.add_assoc]⟩,
        (clock.trans entered).trans booted⟩
    | sidecar =>
      have read : hashOfListedKey key = none := by rw [hashOfListedKey, kind]
      simp only [indexListedKeys, kind, filterMap_cons_none read]
      exact ih lives loaded (sidecars ++ [key])
    | unreadableBlock | unrecognized =>
      have read : hashOfListedKey key = none := by rw [hashOfListedKey, kind]
      simp only [indexListedKeys, kind, filterMap_cons_none read]
      exact ih lives loaded sidecars

theorem prewarmSidecars_booted (ns : Text) (written : Text → Bool) (sidecars : List Text)
    (lives : node.stepsLeft = none) :
    (prewarmSidecars ns written sidecars : Call (Halt ε) BlockNode PUnit).Ensures
      (fun result after => result = .ok () ∧ Booted [] node after) node := by
  induction sidecars generalizing node with
  | nil => exact ⟨rfl, .refl lives⟩
  | cons objectKey rest ih =>
    simp only [prewarmSidecars, ensures_bind, ensures_attempt]
    refine ensures_onStore (absurd lives) fun left stays => ?_
    have looked := getKv_lookedUp node.store ns (relativeSidecarKey objectKey)
      (written (relativeSidecarKey objectKey))
    refine looked.weaken fun result store found => ?_
    have booted : Booted [] node { node with store, stepsLeft := left } :=
      ⟨found.setup, found.objects, rfl, stays lives, by simp, fun _ _ => rfl⟩
    have next := (ih booted.lives).weaken fun result after ended =>
      (⟨ended.1, booted.trans ended.2⟩ : result = .ok () ∧ Booted [] node after)
    cases result with
    | error error => exact next
    | ok outcome => exact next

theorem bootstrapWorldKnowledge_booted (ns : Text) (written : Text → Bool)
    (lives : node.stepsLeft = none) (served : node.store.objectStore.faults 0 = none) :
    (bootstrapWorldKnowledge ns written).Ensures (fun result after =>
      result = .ok (node.store.listedHashes ns).length ∧
        Booted (node.store.listedHashes ns) node after) node := by
  simp only [bootstrapWorldKnowledge, ensures_bind]
  refine ensures_onStore (absurd lives) fun left stays => ?_
  simp only [listNamespace, ensures_bind, ensures_get, andThen_ok, WombatKVKvStore.onStore,
    ensures_on, ensures_mapError, ensures_listPrefix]
  refine ⟨fun error fault => ?_, fun _ => ?_⟩
  · cases fault.symm.trans served
  · have listed : Booted [] node { node with
        store := node.store.withObjectStore node.store.objectStore.advance
        stepsLeft := left } :=
      ⟨.of rfl, rfl, rfl, stays lives, by simp, fun _ _ => rfl⟩
    simp only [Except.mapError, andThen_ok, ensures_bind]
    refine (indexListedKeys_booted _ listed.lives 0 []).weaken ?_
    rintro result between ⟨⟨sidecars, rfl⟩, indexed⟩
    simp only [andThen_ok, ensures_bind]
    refine (prewarmSidecars_booted ns written sidecars indexed.lives).weaken ?_
    rintro result after ⟨rfl, warmed⟩
    refine ⟨by rw [Nat.zero_add]; rfl, ?_⟩
    have whole := (listed.trans indexed).trans warmed
    rw [append_nil, nil_append] at whole
    exact whole

theorem bootstrapWorldKnowledge_failed (ns : Text) (written : Text → Bool)
    (lives : node.stepsLeft = none) {error : WalStoreError}
    (failing : node.store.objectStore.faults 0 = some error) :
    (bootstrapWorldKnowledge ns written).Ensures (fun result after =>
      result = .error (.failed (.objectStore error)) ∧ Booted [] node after) node := by
  simp only [bootstrapWorldKnowledge, ensures_bind]
  refine ensures_onStore (absurd lives) fun left stays => ?_
  simp only [listNamespace, ensures_bind, ensures_get, andThen_ok, WombatKVKvStore.onStore,
    ensures_on, ensures_mapError, ensures_listPrefix]
  refine ⟨fun other fault => ?_, fun served => ?_⟩
  · cases fault.symm.trans failing
    exact ⟨rfl, .of rfl, rfl, rfl, stays lives, by simp, fun _ _ => rfl⟩
  · cases served.symm.trans failing

end BlockNode

section Canonical

variable {store : WombatKVKvStore} {ns : Text}

theorem mem_listedHashes {hash : BlockHash} : hash ∈ store.listedHashes ns ↔
    ∃ key ∈ store.objectStore.objects, store.listPrefixOf ns <+: key ∧
      hashOfListedKey key = some hash := by
  simp only [listedHashes, mem_filterMap, mem_filter, Std.ExtTreeMap.mem_keys,
    List.isPrefixOf_iff_prefix, and_assoc]

theorem listed_of_fetchable (absent : ¬ blockKeyInfix <:+: store.namespaceRoot ns)
    {hash : BlockHash} (present : hash ∈ fetchableBlocks store ns) :
    hash ∈ store.listedHashes ns := by
  refine mem_listedHashes.mpr ⟨_, present, ?_, hashOfListedKey_objectKey absent hash⟩
  rw [objectKey_eq_append]
  exact prefix_append _ _

theorem listedHashes_nodup_iff : (store.listedHashes ns).Nodup ↔
    ∀ first ∈ store.objectStore.objects, store.listPrefixOf ns <+: first →
      ∀ second ∈ store.objectStore.objects, store.listPrefixOf ns <+: second →
        ∀ hash, hashOfListedKey first = some hash → hashOfListedKey second = some hash →
          first = second := by
  have once : (store.objectStore.objects.keys.filter
      ((store.listPrefixOf ns).isPrefixOf ·)).Nodup := Std.ExtTreeMap.nodup_keys.filter _
  rw [listedHashes, nodup_filterMap_iff once]
  simp only [mem_filter, Std.ExtTreeMap.mem_keys, List.isPrefixOf_iff_prefix, and_imp]

theorem listedHashes_exact_iff :
    ((∀ hash, hash ∈ store.listedHashes ns ↔ hash ∈ fetchableBlocks store ns) ∧
      (store.listedHashes ns).Nodup) ↔ store.BlockKeysCanonical ns := by
  by_cases occurs : blockKeyInfix <:+: store.namespaceRoot ns
  · -- No hash is read at all, so there must be none to fetch.
    have none (hash : BlockHash) : hash ∉ store.listedHashes ns := by
      rw [mem_listedHashes]
      rintro ⟨key, _, listed, read⟩
      cases (hashOfListedKey_of_inside occurs listed).symm.trans read
    constructor
    · rintro ⟨exact, _⟩
      refine ⟨?_, fun _ hash present => none hash ((exact hash).mpr present)⟩
      intro key _ listed hash read
      cases (hashOfListedKey_of_inside occurs listed).symm.trans read
    · rintro ⟨_, empty⟩
      refine ⟨fun hash => iff_of_false (none hash) (empty occurs hash), ?_⟩
      rw [eq_nil_iff_forall_not_mem.mpr none]
      exact nodup_nil
  · -- Canonical keys are read back, so any other spelling would be one too many.
    have canonicalListed (hash : BlockHash) :
        store.listPrefixOf ns <+: store.objectKey ns (blockKeyForHash hash) := by
      rw [objectKey_eq_append]
      exact prefix_append _ _
    constructor
    · rintro ⟨exact, once⟩
      refine ⟨?_, fun inside => absurd inside occurs⟩
      intro key present listed hash read
      have fetchable := (exact hash).mp (mem_listedHashes.mpr ⟨key, present, listed, read⟩)
      exact listedHashes_nodup_iff.mp once key present listed _ fetchable (canonicalListed hash)
        hash read (hashOfListedKey_objectKey occurs hash)
    · rintro ⟨canonical, _⟩
      refine ⟨fun hash => ⟨?_, listed_of_fetchable occurs⟩, ?_⟩
      · rw [mem_listedHashes]
        rintro ⟨key, present, listed, read⟩
        have spelled := canonical key present listed hash read
        rw [spelled] at present
        exact present
      · rw [listedHashes_nodup_iff]
        intro first present listed second otherPresent otherListed hash read otherRead
        rw [canonical first present listed hash read,
          canonical second otherPresent otherListed hash otherRead]

end Canonical

/-- The bootstrap enters exactly the blocks that can be fetched by their hash, and counts each once. -/
theorem bootstrap_is_exact_iff (node : BlockNode) (ns : Text) (written : Text → Bool)
    (empty : node.metadataIndex.entries = ∅) (lives : node.stepsLeft = none)
    (served : node.store.objectStore.faults 0 = none) :
    (∃ count after, BlockNode.bootstrapWorldKnowledge ns written node = (.ok count, after) ∧
        (∀ hash, after.metadataIndex.entries.contains hash = true ↔
          node.store.objectStore.objects.contains
            (node.store.objectKey ns (blockKeyForHash hash)) = true) ∧
          count = (fetchableBlocks node.store ns).ncard) ↔
      node.store.BlockKeysCanonical ns := by
  obtain ⟨counted, booted⟩ :=
    BlockNode.bootstrapWorldKnowledge_booted ns written lives served
  generalize ran : BlockNode.bootstrapWorldKnowledge ns written node = outcome at counted booted ⊢
  obtain ⟨result, after⟩ := outcome
  simp only at counted booted
  subst counted
  have indexed (hash : BlockHash) : after.metadataIndex.entries.contains hash = true ↔
      hash ∈ node.store.listedHashes ns := by
    rw [Std.ExtTreeMap.contains_eq_isSome_getElem?]
    by_cases listed : hash ∈ node.store.listedHashes ns
    · obtain ⟨now, entered⟩ := booted.entered hash listed
      simp [entered, listed]
    · simp [booted.others hash listed, empty, listed]
  have fetchable (hash : BlockHash) : node.store.objectStore.objects.contains
      (node.store.objectKey ns (blockKeyForHash hash)) = true ↔
        hash ∈ fetchableBlocks node.store ns := Std.ExtTreeMap.contains_iff_mem
  rw [← listedHashes_exact_iff]
  constructor
  · rintro ⟨count, last, same, exact, size⟩
    cases same
    have members : ∀ hash, hash ∈ node.store.listedHashes ns ↔
        hash ∈ fetchableBlocks node.store ns := fun hash =>
      (indexed hash).symm.trans ((exact hash).trans (fetchable hash))
    exact ⟨members, (length_eq_ncard_iff members).mp size⟩
  · rintro ⟨members, once⟩
    refine ⟨_, _, rfl, ?_, (length_eq_ncard_iff members).mpr once⟩
    exact fun hash => (indexed hash).trans ((members hash).trans (fetchable hash).symm)

theorem bootstrap_is_exact_iff_oneBlock :
    let node := nodeOnBucket ("p/a/".toList ++ blockKeyForHash tensHash)
    ∃ count after, BlockNode.bootstrapWorldKnowledge "a".toList (fun _ => true) node =
        (.ok count, after) ∧
      (∀ hash, after.metadataIndex.entries.contains hash = true ↔
        node.store.objectStore.objects.contains
          (node.store.objectKey "a".toList (blockKeyForHash hash)) = true) ∧
        count = (fetchableBlocks node.store "a".toList).ncard := by
  intro node
  refine (bootstrap_is_exact_iff node "a".toList (fun _ => true) rfl rfl rfl).mpr ⟨?_, ?_⟩
  · intro key present _ hash read
    have only : "p/a/".toList ++ blockKeyForHash tensHash = key := by
      have inserted : key ∈ (∅ : Objects).insert ("p/a/".toList ++ blockKeyForHash tensHash) [65] :=
        present
      simpa using inserted
    have spelled : hashOfListedKey ("p/a/".toList ++ blockKeyForHash tensHash) = some tensHash := by
      decide +kernel
    rw [← only, spelled] at read
    cases read
    exact only.symm
  · intro occurs
    exact absurd occurs (by decide +kernel)

theorem capital_key_is_indexed :
    let node := nodeOnBucket ("p/a/".toList ++ (blockKeyPrefix ++ List.replicate 64 'A'))
    let after := BlockNode.bootstrapWorldKnowledge "a".toList (fun _ => true) node
    after.1 = .ok 1 ∧ after.2.metadataIndex.entries.contains tensHash = true ∧
      node.store.objectStore.objects.contains
        (node.store.objectKey "a".toList (blockKeyForHash tensHash)) = false := by
  decide +kernel

end

open ObjectStore Call WombatKVKvStore BlockNode

theorem InMemoryMetadataIndex.bulkLoad_entries (index : InMemoryMetadataIndex)
    (items : List (BlockHash × BlockMeta)) (hash : BlockHash) :
    (index.bulkLoad items).entries[hash]? =
      index.entries[hash]?.or ((items.find? (·.1 = hash)).map Prod.snd) := by
  induction items generalizing index with
  | nil => simp [bulkLoad]
  | cons item rest ih =>
    obtain ⟨found, loaded⟩ := item
    have next : index.bulkLoad ((found, loaded) :: rest) =
        bulkLoad ⟨index.entries.insertIfNew found loaded⟩ rest := rfl
    rw [next, ih, Std.ExtTreeMap.getElem?_insertIfNew]
    by_cases same : found = hash
    · subst same
      by_cases present : found ∈ index.entries
      · have held := Std.ExtTreeMap.mem_iff_isSome_getElem?.mp present
        obtain ⟨block, held⟩ := Option.isSome_iff_exists.mp held
        simp [present]
      · simp [present]
    · simp [same]

theorem slateLoaded_entries {node : BlockNode} {slate : SlateDbMetadataIndex}
    (opened : node.slatedbIndex = some slate) (hash : BlockHash) :
    node.slateLoaded.metadataIndex.entries[hash]? =
      node.metadataIndex.entries[hash]?.or (slate.readMeta hash) := by
  simp only [slateLoaded, opened, bootstrapFromSlatedb, InMemoryMetadataIndex.bulkLoad_entries]
  congr 1
  cases found : slate.entries.find? (·.1 = hash) with
  | some item =>
    obtain ⟨other, block⟩ := item
    have same : other = hash := by simpa using List.find?_some found
    subst same
    exact (SlateDbMetadataIndex.mem_entries.mp (mem_of_find?_eq_some found)).symm
  | none =>
    cases read : slate.readMeta hash with
    | none => rfl
    | some block =>
      have absent := List.find?_eq_none.mp found _ (SlateDbMetadataIndex.mem_entries.mpr read)
      simp at absent

section Passes

variable {ε : Type} {node : BlockNode} {ns : Text}

theorem slateLoaded_eq (node : BlockNode) :
    node.slateLoaded = { node with metadataIndex := node.slateLoaded.metadataIndex } := by
  unfold slateLoaded
  split <;> rfl

theorem hydrate_booted (lives : node.stepsLeft = none) (written : Text → Bool) :
    (hydrate ns written : Call (Halt ε) BlockNode PUnit).Ensures (fun _ after =>
      Booted (node.store.listedHashes ns) node.slateLoaded after ∨
        node.store.objectStore.faults 0 ≠ none ∧ Booted [] node.slateLoaded after) node := by
  have sameStore : node.slateLoaded.store = node.store := by rw [slateLoaded_eq]
  have alive : node.slateLoaded.stepsLeft = none := by
    rw [slateLoaded_eq]
    exact lives
  simp only [hydrate, ensures_bind, ensures_modify, andThen_ok, ensures_attempt]
  cases fault : node.store.objectStore.faults 0 with
  | none =>
    have served : node.slateLoaded.store.objectStore.faults 0 = none := by rw [sameStore, fault]
    refine (bootstrapWorldKnowledge_booted ns written alive served).weaken ?_
    rintro result after ⟨rfl, booted⟩
    rw [sameStore] at booted
    exact .inl booted
  | some error =>
    have failing : node.slateLoaded.store.objectStore.faults 0 = some error := by
      rw [sameStore, fault]
    refine (bootstrapWorldKnowledge_failed ns written alive failing).weaken ?_
    rintro result after ⟨unlisted, booted⟩
    rw [unlisted]
    exact .inr ⟨by simp, booted⟩

theorem BlockNode.Booted.listedHashes {hashes : List BlockHash} {before after : BlockNode}
    (booted : Booted hashes before after) (ns : Text) :
    after.store.listedHashes ns = before.store.listedHashes ns := by
  have sameRoot : after.store.listPrefixOf ns = before.store.listPrefixOf ns := by
    simp only [listPrefixOf, booted.setup.s3Prefix]
  simp only [WombatKVKvStore.listedHashes, booted.objects, sameRoot]

variable {slate : SlateDbMetadataIndex} {after : BlockNode}

section

variable (opened : node.slatedbIndex = some slate)

include opened

variable (empty : node.metadataIndex.entries = ∅)

include empty

variable (booted : Booted (node.store.listedHashes ns) node.slateLoaded after)

include booted

theorem hydrated_entries (hash : BlockHash) :
    (hash ∈ node.store.listedHashes ns →
        ∃ now, after.metadataIndex.entries[hash]? = some (unknownRoot now)) ∧
      (hash ∉ node.store.listedHashes ns →
        after.metadataIndex.entries[hash]? = slate.readMeta hash) := by
  refine ⟨booted.entered hash, fun unlisted => ?_⟩
  rw [booted.others hash unlisted, slateLoaded_entries opened, empty]
  simp

theorem slateLoaded_of_hydrated (hash : BlockHash) :
    after.slateLoaded.metadataIndex.entries[hash]? = after.metadataIndex.entries[hash]? := by
  have still : after.slatedbIndex = some slate := by
    rw [booted.slate, slateLoaded_eq]
    exact opened
  rw [slateLoaded_entries still]
  obtain ⟨entered, kept⟩ := hydrated_entries opened empty booted hash
  by_cases listed : hash ∈ node.store.listedHashes ns
  · obtain ⟨now, found⟩ := entered listed
    rw [found, Option.some_or]
  · rw [kept listed, Option.or_self]

theorem hydrate_again (written : Text → Bool) :
    (hydrate ns written : Call (Halt ε) BlockNode PUnit).Ensures (fun _ again =>
      ∀ hash : BlockHash, again.metadataIndex.entries[hash]?.map BlockMeta.unstamped =
        after.metadataIndex.entries[hash]?.map BlockMeta.unstamped) after := by
  have sameHashes : after.store.listedHashes ns = node.store.listedHashes ns := by
    rw [booted.listedHashes ns, slateLoaded_eq]
  refine (hydrate_booted booted.lives written).weaken fun result again ran hash => ?_
  have loaded := slateLoaded_of_hydrated opened empty booted hash
  rcases ran with rebooted | ⟨_, rebooted⟩
  · rw [sameHashes] at rebooted
    by_cases listed : hash ∈ node.store.listedHashes ns
    · obtain ⟨now, found⟩ := booted.entered hash listed
      obtain ⟨later, refound⟩ := rebooted.entered hash listed
      rw [found, refound]
      rfl
    · rw [rebooted.others hash listed, loaded]
  · rw [rebooted.others hash (by simp), loaded]

theorem keepsRecords_iff :
    after.metadataIndex.KeepsRecords slate ↔
      ∀ hash ∈ node.store.listedHashes ns, ∀ block, slate.readMeta hash = some block →
        block.saysNothing = true := by
  constructor
  · intro keeps hash listed block recorded
    obtain ⟨kept, found, size, parent, place, model⟩ := keeps hash block recorded
    obtain ⟨now, entered⟩ := booted.entered hash listed
    cases entered.symm.trans found
    simp [BlockMeta.saysNothing, ← size, ← parent, ← place, ← model, unknownRoot, BlockMeta.newRoot]
  · intro silent hash block recorded
    obtain ⟨entered, kept⟩ := hydrated_entries opened empty booted hash
    by_cases listed : hash ∈ node.store.listedHashes ns
    · obtain ⟨now, found⟩ := entered listed
      have nothing := silent hash listed block recorded
      simp only [BlockMeta.saysNothing, Bool.and_eq_true, decide_eq_true_eq] at nothing
      obtain ⟨⟨⟨size, parent⟩, place⟩, model⟩ := nothing
      exact ⟨_, found, size.symm, parent.symm, place.symm, model.symm⟩
    · exact ⟨block, (kept listed).trans recorded, rfl, rfl, rfl, rfl⟩

end

open scoped UInt64.CommRing in
theorem totalBytes_of_keepsRecords (opened : node.slatedbIndex = some slate)
    (empty : node.metadataIndex.entries = ∅)
    (booted : Booted (node.store.listedHashes ns) node.slateLoaded after)
    (keeps : after.metadataIndex.KeepsRecords slate) :
    after.metadataIndex.totalBytes = node.slateLoaded.metadataIndex.totalBytes := by
  refine sum_toList_congr fun hash => ?_
  rw [slateLoaded_entries opened, empty]
  obtain ⟨entered, kept⟩ := hydrated_entries opened empty booted hash
  cases recorded : slate.readMeta hash with
  | some block =>
    obtain ⟨found, present, size, _⟩ := keeps hash block recorded
    simpa [present] using size
  | none =>
    by_cases listed : hash ∈ node.store.listedHashes ns
    · obtain ⟨now, found⟩ := entered listed
      rw [found]
      simp [unknownRoot, BlockMeta.newRoot]
    · rw [kept listed, recorded]
      simp

end Passes

/-- A start keeps what SlateDB recorded, does not lower the byte total, and can be repeated. -/
theorem hydration_preserves_iff (node : BlockNode) (slate : SlateDbMetadataIndex) (ns : Text)
    (written : Text → Bool) (opened : node.slatedbIndex = some slate)
    (empty : node.metadataIndex.entries = ∅) (lives : node.stepsLeft = none)
    (served : node.store.objectStore.faults 0 = none) :
    let after := ((hydrate ns written : Call (Halt EmbedError) BlockNode PUnit) node).2
    (after.metadataIndex.KeepsRecords slate ∧
        node.slateLoaded.metadataIndex.totalBytes ≤ after.metadataIndex.totalBytes ∧
        ∀ rewritten (hash : BlockHash),
          ((hydrate ns rewritten : Call (Halt EmbedError) BlockNode PUnit)
              after).2.metadataIndex.entries[hash]?.map BlockMeta.unstamped =
            after.metadataIndex.entries[hash]?.map BlockMeta.unstamped) ↔
      ∀ hash ∈ node.store.listedHashes ns, ∀ block, slate.readMeta hash = some block →
        block.saysNothing = true := by
  intro after
  have booted : Booted (node.store.listedHashes ns) node.slateLoaded after := by
    rcases @hydrate_booted EmbedError node ns lives written with booted | ⟨failed, _⟩
    · exact booted
    · exact absurd served failed
  rw [← keepsRecords_iff opened empty booted]
  refine ⟨And.left, fun keeps => ⟨keeps, ?_, fun rewritten => ?_⟩⟩
  · rw [totalBytes_of_keepsRecords opened empty booted keeps]
    exact UInt64.le_refl _
  · exact hydrate_again opened empty booted rewritten

theorem hydration_preserves_iff_emptyRoot :
    let node := nodeWithRoot 0
    let after := ((hydrate "a".toList (fun _ => true) :
      Call (Halt EmbedError) BlockNode PUnit) node).2
    after.metadataIndex.KeepsRecords (slateWithRoot 0) ∧
      node.slateLoaded.metadataIndex.totalBytes ≤ after.metadataIndex.totalBytes ∧
      ∀ rewritten (hash : BlockHash),
        ((hydrate "a".toList rewritten : Call (Halt EmbedError) BlockNode PUnit)
            after).2.metadataIndex.entries[hash]?.map BlockMeta.unstamped =
          after.metadataIndex.entries[hash]?.map BlockMeta.unstamped := by
  intro node
  refine (hydration_preserves_iff node (slateWithRoot 0) "a".toList (fun _ => true)
    rfl rfl rfl rfl).mpr ?_
  have listed : node.store.listedHashes "a".toList = [tensHash] := by decide +kernel
  have recorded : (slateWithRoot 0).readMeta tensHash = some
      (.newRoot 0 (Vector.replicate 24 0) (Vector.replicate 16 0) 7) := by decide +kernel
  intro hash member block found
  rw [listed, mem_singleton] at member
  subst member
  cases recorded.symm.trans found
  decide

theorem recorded_size_is_lost :
    let node := nodeWithRoot 4096
    let after := ((hydrate "a".toList (fun _ => true) :
      Call (Halt EmbedError) BlockNode PUnit) node).2
    ((slateWithRoot 4096).readMeta tensHash).map (·.payloadBytes) = some 4096 ∧
      after.metadataIndex.entries[tensHash]?.map (·.payloadBytes) = some 0 ∧
      node.slateLoaded.metadataIndex.totalBytes = 4096 ∧ after.metadataIndex.totalBytes = 0 := by
  decide +kernel

end WombatKV







