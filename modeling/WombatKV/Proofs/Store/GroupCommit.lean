import WombatKV.Proofs.Store.WalStore
import WombatKV.Store.GroupCommit

/-! What a flush can do to the buffer and to the objects. -/

namespace WombatKV

open ObjectStore Call

namespace WalGroupCommitStore

@[simp] theorem push_walStore (store : WalGroupCommitStore) (encoded : Bytes) (nowMs : UInt64) :
    (store.push encoded nowMs).walStore = store.walStore.takeSeq := rfl

@[simp] theorem push_buffer (store : WalGroupCommitStore) (encoded : Bytes) (nowMs : UInt64) :
    (store.push encoded nowMs).buffer = store.buffer ++ [⟨store.walStore.nextSeq, encoded⟩] := rfl

def bufferRange (store : WalGroupCommitStore) : UInt64 × UInt64 :=
  let startSeq := (store.buffer.head?.map (·.seq)).getD 0
  (startSeq, (store.buffer.getLast?.map (·.seq)).getD startSeq)

def flushObject (store : WalGroupCommitStore) (epochMs : UInt64) :
    Except WalStoreError (Text × Bytes) :=
  match store.buffer with
  | [only] => .ok (buildCanonicalWalKey store.walStore.namespacePrefix store.walStore.nodeId.text
      epochMs only.seq, only.encodedRecord)
  | buffer => (encodeWalBatchPayload buffer).map fun payload =>
      (buildCanonicalWalBatchKey store.walStore.namespacePrefix store.walStore.nodeId.text epochMs
        store.bufferRange.1 store.bufferRange.2, payload)

def bufferAfterFailure (store : WalGroupCommitStore) : List BufferedWalRecord :=
  match store.buffer with
  | [_] => []
  | buffer => buffer

structure WriteOutcome (key : Text) (payload : Bytes) (before : ObjectStore)
    (result : Except WalStoreError Text) (after : ObjectStore) : Prop where
  samePolicy : after.putPolicy = before.putPolicy
  objects : before.faults 0 ≠ none ∧ after.objects = before.objects ∨
    before.faults 0 = none ∧
      after.objects = putInto before.putPolicy before.objects key payload
  confirmed : ∀ answer, result = .ok answer → answer = key ∧ after.objects[key]? = some payload

variable {key : Text} {payload : Bytes} {epochMs : UInt64} {store : WalGroupCommitStore}

theorem WriteOutcome.of_eq {store after : ObjectStore} {result : Except WalStoreError Text}
    (wrote : writeObject key payload store = (result, after)) :
    WriteOutcome key payload store result after := by
  suffices ensured : (writeObject key payload).Ensures (WriteOutcome key payload store) store by
    rwa [Call.Ensures, wrote] at ensured
  simp only [writeObject, ensures_bind, ensures_putObject, ensures_getObject, andThen_ok,
    andThen_error]
  refine ⟨fun error failed => ⟨rfl, .inl ⟨by simp [failed], rfl⟩, by simp⟩, fun clear => ?_⟩
  refine ⟨fun error _ => ⟨rfl, .inr ⟨clear, rfl⟩, by simp⟩, fun _ => ?_⟩
  split
  · rename_i stored found
    split
    · rename_i same
      refine ⟨rfl, .inr ⟨clear, rfl⟩, fun answer answered => ?_⟩
      cases answered
      exact ⟨rfl, same ▸ found⟩
    · exact ⟨rfl, .inr ⟨clear, rfl⟩, by simp⟩
  · exact ⟨rfl, .inr ⟨clear, rfl⟩, by simp⟩

theorem writeObject_free {store : ObjectStore} (healthy : store.Healthy)
    (free : store.objects[key]? = none) :
    writeObject key payload store = (.ok key, store.withPut key payload) := by
  have stored : (store.withPut key payload).objects[key]? = some payload := putInto_absent free
  rw [writeObject, Call.bind_ok (putObject_healthy healthy key payload),
    Call.bind_ok (getObject_healthy healthy.withPut stored), if_pos rfl]
  rfl

inductive FlushOutcome (epochMs : UInt64) (before : WalGroupCommitStore) :
    Except WalStoreError (Option Text) → WalGroupCommitStore → Prop
  | idle (empty : before.buffer = []) : FlushOutcome epochMs before (.ok none) before
  | refused {error : WalStoreError} (unfit : before.flushObject epochMs = .error error) :
      FlushOutcome epochMs before (.error error) before
  | failed {key : Text} {payload : Bytes} {error : WalStoreError} {objectStore : ObjectStore}
      (object : before.flushObject epochMs = .ok (key, payload)) (occupied : before.buffer ≠ [])
      (wrote : writeObject key payload before.walStore.objectStore = (.error error, objectStore)) :
      FlushOutcome epochMs before (.error error)
        { before.withObjectStore objectStore with buffer := before.bufferAfterFailure }
  | written {key : Text} {payload : Bytes} {objectStore : ObjectStore}
      (object : before.flushObject epochMs = .ok (key, payload)) (occupied : before.buffer ≠ [])
      (wrote : writeObject key payload before.walStore.objectStore = (.ok key, objectStore)) :
      FlushOutcome epochMs before (.ok (some key)) (before.withObjectStore objectStore).cleared

theorem writeBuffer_refused {error : WalStoreError}
    (unfit : store.flushObject epochMs = .error error) :
    writeBuffer epochMs store = (.error error, store) := by
  obtain ⟨walStore, policy, _ | ⟨first, _ | ⟨second, rest⟩⟩, bytes, firstAt⟩ := store
  · cases unfit
    rfl
  · cases unfit
  · change (encodeWalBatchPayload (first :: second :: rest)).map _ = _ at unfit
    change (Call.lift (encodeWalBatchPayload (first :: second :: rest)) >>= _) _ = _
    cases encoded : encodeWalBatchPayload (first :: second :: rest) with
    | error other =>
      rw [encoded] at unfit
      cases unfit
      rfl
    | ok payload =>
      rw [encoded] at unfit
      cases unfit

theorem writeBuffer_object (object : store.flushObject epochMs = .ok (key, payload)) :
    writeBuffer epochMs store = ((writeObject key payload store.walStore.objectStore).1,
      { store.withObjectStore (writeObject key payload store.walStore.objectStore).2 with
        buffer := store.bufferAfterFailure }) := by
  obtain ⟨walStore, policy, _ | ⟨first, _ | ⟨second, rest⟩⟩, bytes, firstAt⟩ := store
  · cases object
  · cases object
    rfl
  · change (encodeWalBatchPayload (first :: second :: rest)).map _ = _ at object
    change (Call.lift (encodeWalBatchPayload (first :: second :: rest)) >>= _) _ = _
    cases encoded : encodeWalBatchPayload (first :: second :: rest) with
    | error other =>
      rw [encoded] at object
      cases object
    | ok batch =>
      rw [encoded] at object
      cases object
      rfl

theorem flushBufferAsObject_outcome (nowMs currentEpochMs : UInt64) (store : WalGroupCommitStore) :
    (flushBufferAsObject nowMs currentEpochMs).Ensures
      (FlushOutcome (max nowMs currentEpochMs) store) store := by
  simp only [flushBufferAsObject, ensures_bind, ensures_get, andThen_ok]
  split
  · rename_i empty
    exact .idle (by simpa using empty)
  · rename_i occupied
    have occupied : store.buffer ≠ [] := by simpa using occupied
    simp only [ensures_bind]
    cases object : store.flushObject (max nowMs currentEpochMs) with
    | error error =>
      rw [Call.Ensures, writeBuffer_refused object]
      exact .refused object
    | ok pair =>
      obtain ⟨key, payload⟩ := pair
      rw [Call.Ensures, writeBuffer_object object]
      rcases wrote : writeObject key payload store.walStore.objectStore with
        ⟨error | answer, objectStore⟩
      · exact .failed object occupied wrote
      · obtain ⟨rfl, _⟩ := (WriteOutcome.of_eq wrote).confirmed answer rfl
        exact .written object occupied wrote

def flushKind (store : WalGroupCommitStore) : WalObjectKind :=
  match store.buffer with
  | [_] => .single
  | _ => .batch

theorem flushKind_single_iff : store.flushKind = .single ↔ store.buffer.length = 1 := by
  obtain ⟨walStore, policy, _ | ⟨first, _ | ⟨second, rest⟩⟩, bytes, firstAt⟩ := store
  all_goals simp [flushKind]

theorem bufferAfterFailure_cases (occupied : store.buffer ≠ []) :
    store.buffer.length = 1 ∧ store.bufferAfterFailure = [] ∨
      2 ≤ store.buffer.length ∧ store.bufferAfterFailure = store.buffer := by
  obtain ⟨walStore, policy, _ | ⟨first, _ | ⟨second, rest⟩⟩, bytes, firstAt⟩ := store
  · exact absurd rfl occupied
  · exact .inl ⟨rfl, rfl⟩
  · exact .inr ⟨by simp, rfl⟩

section

variable (object : store.flushObject epochMs = .ok (key, payload))

include object

theorem flushObject_cases :
    (∃ only, store.buffer = [only] ∧ payload = only.encodedRecord ∧
      key = buildCanonicalWalKey store.walStore.namespacePrefix store.walStore.nodeId.text epochMs
        only.seq) ∨
    (store.flushKind = .batch ∧ encodeWalBatchPayload store.buffer = .ok payload ∧
      key = buildCanonicalWalBatchKey store.walStore.namespacePrefix store.walStore.nodeId.text
        epochMs store.bufferRange.1 store.bufferRange.2) := by
  obtain ⟨walStore, policy, _ | ⟨first, _ | ⟨second, rest⟩⟩, bytes, firstAt⟩ := store
  · cases object
  · cases object
    exact .inl ⟨first, rfl, rfl, rfl⟩
  · change (encodeWalBatchPayload (first :: second :: rest)).map _ = _ at object
    cases encoded : encodeWalBatchPayload (first :: second :: rest) with
    | error other =>
      rw [encoded] at object
      cases object
    | ok batch =>
      rw [encoded] at object
      cases object
      exact .inr ⟨rfl, rfl, rfl⟩

theorem flushObject_parsed :
    parseWalObjectKey store.walStore.namespacePrefix key = some ⟨.canonicalEpochPartitioned,
      store.flushKind, store.bufferRange.1, store.bufferRange.2, store.walStore.nodeId.text⟩ := by
  rcases flushObject_cases object with ⟨only, lone, _, named⟩ | ⟨kind, _, named⟩
  · simp [named, parseWalObjectKey_chunk, flushKind, bufferRange, lone]
  · rw [named, parseWalObjectKey_batch, kind]

theorem flushObject_name :
    ∃ name : WalObjectName, key = name.key store.walStore.namespacePrefix ∧
      name.epochMs = epochMs := by
  rcases flushObject_cases object with ⟨only, -, -, named⟩ | ⟨-, -, named⟩
  · exact ⟨.single store.walStore.nodeId epochMs only.seq, named, rfl⟩
  · exact ⟨.batch store.walStore.nodeId epochMs _ _, named, rfl⟩

theorem flushObject_decoded
    {records : List WalRecord} (encodings : List.Forall₂ Encodes store.buffer records) {low : Nat}
    (counted : Consecutive low store.buffer) : decodeWalObjectRecords payload = .ok records := by
  rcases flushObject_cases object with ⟨only, lone, bytes, _⟩ | ⟨_, encoded, _⟩
  · rw [lone] at encodings
    obtain ⟨record, _, encodes, none, rfl⟩ := List.forall₂_cons_left_iff.mp encodings
    rw [List.forall₂_nil_left_iff.mp none, bytes]
    exact decodeWalObjectRecords_single encodes
  · exact decodeWalObjectRecords_batch encodings counted encoded

end

theorem bufferRange_consecutive {low : Nat} (counted : Consecutive low store.buffer)
    (occupied : store.buffer ≠ []) :
    store.bufferRange.1.toNat = low ∧
      store.bufferRange.2.toNat + 1 = low + store.buffer.length := by
  have last := counted.getLast occupied
  obtain ⟨walStore, policy, _ | ⟨first, rest⟩, bytes, firstAt⟩ := store
  · exact absurd rfl occupied
  · refine ⟨counted.1, ?_⟩
    rw [← last, bufferRange, List.getLast?_eq_some_getLast occupied]
    rfl

end WalGroupCommitStore

end WombatKV

