import WombatKV.Proofs.Store.ObjectStore
import WombatKV.Proofs.Store.WalBatch
import WombatKV.Proofs.Store.WalKeys

/-! What publishing does to the objects, and what replay reads. -/

namespace WombatKV

open ObjectStore Call List

namespace WalStore

structure Adds (bytes : Bytes) (before after : WalStore) : Prop where
  sameNamespace : after.namespacePrefix = before.namespacePrefix
  sameNode : after.nodeId = before.nodeId
  samePolicy : after.objectStore.putPolicy = before.objectStore.putPolicy
  grows : Extends before.objects after.objects
  added : ∀ (key : Text) (payload : Bytes), after.objects[key]? = some payload →
    before.objects[key]? = some payload ∨ payload = bytes ∧ ∃ epochMs seq,
      key = buildCanonicalWalKey before.namespacePrefix before.nodeId.text epochMs seq

namespace Adds

variable {bytes : Bytes} {before between after : WalStore}

theorem of_objects (sameNamespace : after.namespacePrefix = before.namespacePrefix)
    (sameNode : after.nodeId = before.nodeId)
    (samePolicy : after.objectStore.putPolicy = before.objectStore.putPolicy)
    (same : after.objects = before.objects) : Adds bytes before after :=
  ⟨sameNamespace, sameNode, samePolicy, same ▸ .refl _, fun _ _ found => .inl (same ▸ found)⟩

theorem trans (first : Adds bytes before between) (second : Adds bytes between after) :
    Adds bytes before after where
  sameNamespace := second.sameNamespace.trans first.sameNamespace
  sameNode := second.sameNode.trans first.sameNode
  samePolicy := second.samePolicy.trans first.samePolicy
  grows := first.grows.trans second.grows
  added key payload found := by
    rcases second.added key payload found with earlier | ⟨rfl, epochMs, seq, named⟩
    · exact first.added key payload earlier
    · exact .inr ⟨rfl, epochMs, seq, by rw [named, first.sameNamespace, first.sameNode]⟩

end Adds

structure LoopOutcome (bytes : Bytes) (before : WalStore)
    (result : Except WalStoreError (Option Text)) (after : WalStore) : Prop
    extends Adds bytes before after where
  stored : ∀ key, result = .ok (some key) → after.objects[key]? = some bytes ∧ ∃ epochMs seq,
    key = buildCanonicalWalKey before.namespacePrefix before.nodeId.text epochMs seq

variable {key candidate namespacePrefix : Text} {objects : Objects} {seq : UInt64}
  {store : WalStore} {clock : Nat → UInt64} {record : WalRecord} {bytes : Bytes}
  {objectStore : ObjectStore}

theorem free_of_head (reported : ¬ objects.contains key = true) : objects[key]? = none := by
  simpa using reported

theorem Adds.put {epochMs : UInt64}
    (named : candidate = buildCanonicalWalKey store.namespacePrefix store.nodeId.text epochMs seq)
    (free : store.objects[candidate]? = none) (bytes : Bytes) (faults : Nat → Option WalStoreError)
    (nextSeq : UInt64) :
    Adds bytes store { store with
      objectStore := { store.objectStore.withPut candidate bytes with faults }, nextSeq } where
  sameNamespace := rfl
  sameNode := rfl
  samePolicy := rfl
  grows := .putInto free
  added key payload found := by
    rcases putInto_cases found with earlier | ⟨rfl, rfl⟩
    · exact .inl earlier
    · exact .inr ⟨rfl, epochMs, seq, named⟩

theorem publishLoop_outcome (bytes : Bytes) (turns : Nat) (clock : Nat → UInt64)
    (store : WalStore) :
    (publishLoop bytes turns clock).Ensures (LoopOutcome bytes store) store := by
  induction turns generalizing clock store with
  | zero => exact ⟨.of_objects rfl rfl rfl rfl, by simp [publishLoop]⟩
  | succ turns ih =>
    have failed {error : WalStoreError} {after : WalStore} (adds : Adds bytes store after) :
        LoopOutcome bytes store (.error error) after := ⟨adds, by simp⟩
    have again {after : WalStore} (adds : Adds bytes store after) :
        (publishLoop bytes turns fun turn => clock (turn + 1)).Ensures (LoopOutcome bytes store)
          after :=
      (ih _ after).weaken fun _ _ outcome => ⟨adds.trans outcome.toAdds, by
        rw [← adds.sameNamespace, ← adds.sameNode]
        exact outcome.stored⟩
    generalize named : buildCanonicalWalKey store.namespacePrefix store.nodeId.text (clock 0)
      store.nextSeq = candidate
    simp only [publishLoop, ensures_bind, ensures_get, andThen_ok, onStore, ensures_on,
      ensures_headObject, andThen_error, named]
    refine ⟨fun error _ => failed (.of_objects rfl rfl rfl rfl), fun _ => ?_⟩
    split
    · exact again (.of_objects rfl rfl rfl rfl)
    · rename_i reported
      have added (faults : Nat → Option WalStoreError) :=
        Adds.put named.symm (free_of_head reported) bytes faults
      simp only [ensures_bind, ensures_on, ensures_putObject, andThen_ok, andThen_error,
        ensures_getObject]
      refine ⟨fun error _ => failed (.of_objects rfl rfl rfl rfl), fun _ =>
        ⟨fun error _ => failed (added _ _), fun _ => ?_⟩⟩
      split
      · rename_i stored found
        split
        · rename_i same
          refine ⟨added _ _, fun key answered => ?_⟩
          cases answered
          exact ⟨same ▸ found, _, _, named.symm⟩
        · exact again (added _ _)
      · exact failed (added _ _)

theorem publishRecord_refused {error : FormatError} (unfit : encodeWalRecord record = .error error)
    {turns : Nat} :
    publishRecord turns clock record store = (.error (.corruptWal error), store) := by
  simp [publishRecord, unfit, corrupt, Except.mapError]

theorem takeSeq_nextSeq (left : store.nextSeq.toNat < wordLimit - 1) :
    store.takeSeq.nextSeq.toNat = store.nextSeq.toNat + 1 := by
  show (saturatingAdd store.nextSeq 1).toNat = _
  rw [saturatingAdd_toNat, UInt64.toNat_one]
  omega

theorem publishRecord_outcome (encoded : encodeWalRecord record = .ok bytes) (turns : Nat)
    (clock : Nat → UInt64) (store : WalStore) :
    (publishRecord turns clock record).Ensures (LoopOutcome bytes store) store := by
  simp only [publishRecord, ensures_bind, ensures_lift, corrupt_eq_ok.mpr encoded, andThen_ok]
  refine (publishLoop_outcome bytes turns clock store).weaken fun result between outcome => ?_
  rcases result with error | none | key
  · exact outcome
  · exact outcome
  · -- The last head request changes no object, whatever it answers.
    have kept {objectStore : ObjectStore}
        (samePolicy : objectStore.putPolicy = between.objectStore.putPolicy)
        (same : objectStore.objects = between.objects) :
        Adds bytes store { between.takeSeq with objectStore } :=
      outcome.toAdds.trans (.of_objects rfl rfl samePolicy same)
    simp only [andThen_ok, ensures_bind, ensures_modify, onStore, ensures_on, ensures_headObject,
      andThen_error]
    refine ⟨fun error _ => ⟨kept rfl rfl, by simp⟩, fun _ => ?_⟩
    split
    · refine ⟨kept rfl rfl, fun found answered => ?_⟩
      exact outcome.stored found answered
    · exact ⟨kept rfl rfl, by simp⟩

theorem onStore_eq {α : Type} {call : Call WalStoreError ObjectStore α}
    {result : Except WalStoreError α} (ran : call store.objectStore = (result, objectStore)) :
    onStore call store = (result, { store with objectStore }) := by
  simp only [onStore, on_apply, ran]

theorem publishLoop_free (healthy : store.objectStore.Healthy)
    (named : candidate = buildCanonicalWalKey store.namespacePrefix store.nodeId.text (clock 0)
      store.nextSeq) (free : store.objects[candidate]? = none) (bytes : Bytes) (turns : Nat) :
    publishLoop bytes (turns + 1) clock store = (.ok (some candidate),
      { store with objectStore := store.objectStore.withPut candidate bytes }) := by
  have absent : store.objects.contains candidate = false := by
    rw [Std.ExtTreeMap.contains_eq_isSome_getElem?, free]
    rfl
  have head := onStore_eq (headObject_healthy healthy candidate)
  have put := onStore_eq (putObject_healthy healthy candidate bytes)
  have stored : (store.objectStore.withPut candidate bytes).objects[candidate]? = some bytes :=
    putInto_absent free
  have read : onStore (getObject candidate)
      { store with objectStore := store.objectStore.withPut candidate bytes } =
        (.ok bytes, { store with objectStore := store.objectStore.withPut candidate bytes }) :=
    onStore_eq (getObject_healthy healthy.withPut stored)
  rw [absent] at head
  rw [publishLoop, get_bind_apply, ← named, Call.bind_ok head, if_neg (by simp), Call.bind_ok put,
    Call.bind_ok read, if_pos rfl]
  rfl

theorem publishRecord_free (healthy : store.objectStore.Healthy)
    (named : candidate = buildCanonicalWalKey store.namespacePrefix store.nodeId.text (clock 0)
      store.nextSeq) (free : store.objects[candidate]? = none)
    (encoded : encodeWalRecord record = .ok bytes) (turns : Nat) :
    publishRecord (turns + 1) clock record store = (.ok (some candidate),
      { store.takeSeq with objectStore := store.objectStore.withPut candidate bytes }) := by
  have stored : (store.objectStore.withPut candidate bytes).objects[candidate]? = some bytes :=
    putInto_absent free
  have present : (store.objectStore.withPut candidate bytes).objects.contains candidate = true := by
    rw [Std.ExtTreeMap.contains_eq_isSome_getElem?, stored]
    rfl
  have head : onStore (headObject candidate)
      { store.takeSeq with objectStore := store.objectStore.withPut candidate bytes } = (.ok true,
        { store.takeSeq with objectStore := store.objectStore.withPut candidate bytes }) := by
    rw [← present]
    exact onStore_eq (headObject_healthy healthy.withPut candidate)
  rw [publishRecord, corrupt_eq_ok.mpr encoded, lift_ok_bind_apply,
    Call.bind_ok (publishLoop_free healthy named free bytes turns)]
  exact Call.bind_ok head

theorem prefix_of_parseWalObjectKey {parsed : ParsedWalObjectKey}
    (named : parseWalObjectKey namespacePrefix key = some parsed) : namespacePrefix <+: key := by
  obtain ⟨tail, stripped, _⟩ := Option.bind_eq_some_iff.mp named
  obtain ⟨front, rfl, same⟩ := List.dropPrefix?_eq_some_iff.mp stripped
  rw [beq_iff_eq] at same
  exact ⟨'/' :: tail, by simp [same]⟩

theorem listPrefix_healthy {store : ObjectStore} (healthy : store.Healthy) (start : Text) :
    listPrefix start store = (.ok (listed start store.objects), store) :=
  healthy.request _

theorem mem_listed :
    key ∈ listed namespacePrefix objects ↔ key ∈ objects ∧ namespacePrefix <+: key := by
  simp [listed, mem_filter]

def listedSeqs (namespacePrefix : Text) (nodeId : NodeId) (objects : Objects) : List UInt64 :=
  (listed namespacePrefix objects).filterMap (parseSeqForNode namespacePrefix nodeId.text)

theorem withNodeId_healthy (healthy : objectStore.Healthy) (namespacePrefix nodeId : Text) :
    withNodeId namespacePrefix nodeId objectStore =
      { namespacePrefix, nodeId := sanitizeNodeId nodeId, objectStore, nextSeq := saturatingAdd
          ((listedSeqs namespacePrefix (sanitizeNodeId nodeId) objectStore.objects).max?.getD 0)
          1 } := by
  have recovered : recoverNextSeq namespacePrefix (sanitizeNodeId nodeId) objectStore = (.ok
      (saturatingAdd ((listedSeqs namespacePrefix (sanitizeNodeId nodeId)
        objectStore.objects).max?.getD 0) 1), objectStore) :=
    Call.bind_ok (listPrefix_healthy healthy namespacePrefix)
  simp only [withNodeId, recovered]

theorem mem_listedSeqs {nodeId : NodeId} : seq ∈ listedSeqs namespacePrefix nodeId objects ↔
      ∃ key ∈ objects, parseSeqForNode namespacePrefix nodeId.text key = some seq := by
  simp only [listedSeqs, mem_filterMap, mem_listed]
  constructor
  · rintro ⟨key, ⟨present, _⟩, named⟩
    exact ⟨key, present, named⟩
  · rintro ⟨key, present, named⟩
    obtain ⟨parsed, parses, _⟩ := Option.bind_eq_some_iff.mp named
    exact ⟨key, ⟨present, prefix_of_parseWalObjectKey parses⟩, named⟩

theorem recovered_above {nodeId : Text} (healthy : objectStore.Healthy)
    (left : (withNodeId namespacePrefix nodeId objectStore).nextSeq.toNat < wordLimit - 1)
    (present : key ∈ objectStore.objects)
    (named : parseSeqForNode namespacePrefix (sanitizeNodeId nodeId).text key = some seq) :
    seq.toNat < (withNodeId namespacePrefix nodeId objectStore).nextSeq.toNat := by
  have bounded := le_max?_getD (mem_listedSeqs.mpr ⟨key, present, named⟩)
  rw [withNodeId_healthy healthy] at left ⊢
  simp only [saturatingAdd_toNat, UInt64.toNat_one] at left ⊢
  omega

theorem publishRecord_taken (healthy : store.objectStore.Healthy)
    (named : candidate = buildCanonicalWalKey store.namespacePrefix store.nodeId.text (clock 0)
      store.nextSeq) (taken : store.objects.contains candidate = true)
    (encoded : encodeWalRecord record = .ok bytes) (turns : Nat) :
    publishRecord (turns + 1) clock record store =
      publishRecord turns (fun turn => clock (turn + 1)) record store.takeSeq := by
  have head := onStore_eq (headObject_healthy healthy candidate)
  rw [taken] at head
  have loop : publishLoop bytes (turns + 1) clock store =
      publishLoop bytes turns (fun turn => clock (turn + 1)) store.takeSeq := by
    rw [publishLoop, get_bind_apply, ← named, Call.bind_ok head, if_pos rfl]
    rfl
  simp only [publishRecord, corrupt_eq_ok.mpr encoded, lift_ok_bind_apply]
  exact bind_eq loop _

def seqsFrom (store : WalStore) : List UInt64 :=
  (listedSeqs store.namespacePrefix store.nodeId store.objects).filter (store.nextSeq ≤ ·)

theorem seqsFrom_takeSeq (left : store.nextSeq.toNat < wordLimit - 1) {epochMs : UInt64}
    (taken : buildCanonicalWalKey store.namespacePrefix store.nodeId.text epochMs store.nextSeq ∈
      store.objects) : store.takeSeq.seqsFrom.length < store.seqsFrom.length := by
  have next := takeSeq_nextSeq left
  have higher : store.takeSeq.seqsFrom = store.seqsFrom.filter (store.takeSeq.nextSeq ≤ ·) := by
    rw [seqsFrom, seqsFrom, filter_filter]
    refine filter_congr fun seq _ => ?_
    simp only [UInt64.le_iff_toNat_le, ← Bool.decide_and]
    exact decide_eq_decide.mpr (by omega)
  have own : store.nextSeq ∈ store.seqsFrom := by
    refine mem_filter.mpr ⟨mem_listedSeqs.mpr ⟨_, taken, ?_⟩, by simp⟩
    simp [parseSeqForNode, parseWalObjectKey_chunk]
  rw [higher, length_filter_lt_length_iff_exists]
  exact ⟨_, own, by simp [UInt64.le_iff_toNat_le, next]⟩

theorem publishRecord_settles (encoded : encodeWalRecord record = .ok bytes) (count : Nat)
    (store : WalStore) (healthy : store.objectStore.Healthy) (clock : Nat → UInt64)
    (few : store.seqsFrom.length ≤ count) (room : store.nextSeq.toNat + count < wordLimit - 1) :
    ∃ turn ≤ count, ∃ seq : UInt64, seq.toNat = store.nextSeq.toNat + turn ∧
      ∃ key, key = buildCanonicalWalKey store.namespacePrefix store.nodeId.text (clock turn) seq ∧
        store.objects[key]? = none ∧ ∀ turns > turn, publishRecord turns clock record store =
          (.ok (some key), { store with
            nextSeq := saturatingAdd seq 1
            objectStore := store.objectStore.withPut key bytes }) := by
  generalize named : buildCanonicalWalKey store.namespacePrefix store.nodeId.text (clock 0)
    store.nextSeq = candidate
  by_cases taken : store.objects.contains candidate = true
  · -- Induction on the numbers from here on: a taken name uses one of them up.
    have less := seqsFrom_takeSeq (by omega) (named ▸ Std.ExtTreeMap.contains_iff_mem.mp taken)
    cases count with
    | zero => omega
    | succ count =>
      have next : store.takeSeq.nextSeq.toNat = store.nextSeq.toNat + 1 :=
        takeSeq_nextSeq (by omega)
      obtain ⟨turn, within, seq, number, key, keyed, free, published⟩ :=
        publishRecord_settles encoded count store.takeSeq healthy (fun turn => clock (turn + 1))
          (by omega) (by omega)
      refine ⟨turn + 1, by omega, seq, by omega, key, keyed, free, fun turns more => ?_⟩
      obtain ⟨turns, rfl⟩ := Nat.exists_eq_succ_of_ne_zero (Nat.ne_zero_of_lt more)
      rw [Nat.succ_eq_add_one, publishRecord_taken healthy named.symm taken encoded,
        published turns (by omega)]
      rfl
  · refine ⟨0, Nat.zero_le _, store.nextSeq, rfl, candidate, named.symm, free_of_head taken, ?_⟩
    intro turns more
    obtain ⟨turns, rfl⟩ := Nat.exists_eq_succ_of_ne_zero more.ne'
    exact publishRecord_free healthy named.symm (free_of_head taken) encoded turns
termination_by count

/--
A publish ends within one turn more than the node has names, under a name that was free, keeps
every object, and leaves the next number above the one it used.
-/
theorem publish_finds_free_slot (store : WalStore) (healthy : store.objectStore.Healthy)
    (record : WalRecord) (encoded : encodeWalRecord record = .ok bytes) (clock : Nat → UInt64)
    (room : store.nextSeq.toNat + store.nodeKeys.length < wordLimit - 1) :
    ∃ turn ≤ store.nodeKeys.length, ∃ seq : UInt64, seq.toNat = store.nextSeq.toNat + turn ∧
      ∃ key after,
        key = buildCanonicalWalKey store.namespacePrefix store.nodeId.text (clock turn) seq ∧
        (∀ turns > turn, publishRecord turns clock record store = (.ok (some key), after)) ∧
        store.objects[key]? = none ∧ after.objects[key]? = some bytes ∧
        Extends store.objects after.objects ∧ seq < after.nextSeq := by
  have few : store.seqsFrom.length ≤ store.nodeKeys.length := by
    refine (length_filter_le ..).trans ?_
    rw [listedSeqs, length_filterMap_eq_countP, nodeKeys, ← countP_eq_length_filter]
    exact filter_sublist.countP_le
  obtain ⟨turn, within, seq, number, key, named, free, published⟩ :=
    publishRecord_settles encoded store.nodeKeys.length store healthy clock few room
  refine ⟨turn, within, seq, number, key, _, named, published, free, putInto_absent free,
    .putInto free, ?_⟩
  simp only [UInt64.lt_iff_toNat_lt, saturatingAdd_toNat, UInt64.toNat_one]
  omega


theorem publish_finds_free_slot_taken :
    let taken := (∅ : Objects).insert (buildCanonicalWalKey "wal".toList "n".toList 7 0) [1]
    let log : WalStore :=
      ⟨"wal".toList, sanitizeNodeId "n".toList, ⟨.replace, taken, fun _ => none⟩, 0⟩
    ∃ key after, publishRecord 2 (fun _ => 7) ⟨[65], [], []⟩ log = (.ok (some key), after) := by
  intro taken log
  obtain ⟨turn, within, _, _, key, after, _, published, _⟩ := publish_finds_free_slot log rfl
    ⟨[65], [], []⟩ rfl (fun _ => 7) (by decide +kernel)
  have few : turn ≤ 1 := within.trans (by decide +kernel)
  exact ⟨key, after, published 2 (by omega)⟩

theorem readObjects_healthy {ι : Type} {store : ObjectStore} (healthy : store.Healthy)
    {entries : List ι} (key : ι → Text) (records : ι → List WalRecord)
    (readable : ∀ entry ∈ entries, ∃ payload, store.objects[key entry]? = some payload ∧
      decodeWalObjectRecords payload = .ok (records entry)) :
    readObjects (entries.map key) store = (.ok (entries.flatMap records), store) := by
  induction entries with
  | nil => rfl
  | cons entry rest ih =>
    obtain ⟨payload, found, decoded⟩ := readable entry (by simp)
    have others := ih fun other member => readable other (mem_cons_of_mem _ member)
    rw [map_cons, readObjects, Call.bind_ok (getObject_healthy healthy found), decoded,
      lift_ok_bind_apply, Call.bind_ok others]
    rfl

def Readable (namespacePrefix : Text) (objects : Objects) : Prop :=
  ∀ (key : Text) (payload : Bytes), objects[key]? = some payload → namespacePrefix <+: key →
    ∃ records, decodeWalObjectRecords payload = .ok records

theorem replayFrom_readable {store : ObjectStore} (healthy : store.Healthy)
    (readable : Readable namespacePrefix store.objects) :
    replayFrom namespacePrefix store = (.ok ((sortBy (compareWalObjectKeys namespacePrefix)
      (listed namespacePrefix store.objects)).flatMap (recordsAt store.objects)), store) := by
  rw [replayFrom, Call.bind_ok (listPrefix_healthy healthy namespacePrefix)]
  refine (congrArg (readObjects · store) (map_id _)).symm.trans
    (readObjects_healthy healthy id (recordsAt store.objects) ?_)
  intro key member
  obtain ⟨present, behind⟩ := mem_listed.mp ((mem_sortBy _).mp member)
  obtain ⟨payload, found⟩ := Option.isSome_iff_exists.mp
    (Std.ExtTreeMap.isSome_getElem?_iff_mem.mpr present)
  obtain ⟨records, decoded⟩ := readable key payload found behind
  refine ⟨payload, found, ?_⟩
  simp [recordsAt, found, decoded, Except.toOption]

theorem mem_replayFrom {store : ObjectStore} (healthy : store.Healthy)
    (readable : Readable namespacePrefix store.objects) (behind : namespacePrefix <+: key)
    (found : store.objects[key]? = some bytes) (encoded : encodeWalRecord record = .ok bytes) :
    ∃ records, (replayFrom namespacePrefix store).1 = .ok records ∧ record ∈ records := by
  refine ⟨_, congrArg Prod.fst (replayFrom_readable healthy readable), ?_⟩
  have present : key ∈ store.objects := by
    rw [← Std.ExtTreeMap.isSome_getElem?_iff_mem, found]
    rfl
  refine mem_flatMap.mpr ⟨key, (mem_sortBy _).mpr (mem_listed.mpr ⟨present, behind⟩), ?_⟩
  simp [recordsAt, found, decodeWalObjectRecords_single encoded, Except.toOption]

end WalStore

end WombatKV
