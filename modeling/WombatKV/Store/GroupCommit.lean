import WombatKV.Foundation.Runs
import WombatKV.Store.WalStore

/-! Group commit: records wait in a buffer, one object per flush. -/

namespace WombatKV

section

open ObjectStore

structure WalBatchPolicy where
  flushIntervalMs : UInt64
  maxRecords : Nat
  maxBytes : Nat
  deriving DecidableEq, Repr

namespace WalBatchPolicy

def singleRecordFallback : WalBatchPolicy := ⟨0, 1, 0⟩

def isSingleRecordMode (policy : WalBatchPolicy) : Bool :=
  policy.maxRecords ≤ 1 || policy.maxBytes ≤ 1

end WalBatchPolicy

structure GroupCommitPublishResult where
  flushedObjectKeys : List Text
  bufferedRecords : Nat
  bufferedBytes : Nat
  deriving DecidableEq, Repr

structure WalGroupCommitStore where
  walStore : WalStore
  policy : WalBatchPolicy
  buffer : List BufferedWalRecord
  bufferedBytes : Nat
  firstBufferedAtMs : Option UInt64

namespace WalGroupCommitStore

def withWalStore (walStore : WalStore) (policy : WalBatchPolicy) : WalGroupCommitStore :=
  ⟨walStore, policy, [], 0, none⟩

def new (namespacePrefix nodeId : Text) (objectStore : ObjectStore) (policy : WalBatchPolicy) :
    WalGroupCommitStore :=
  withWalStore (.withNodeId namespacePrefix nodeId objectStore) policy

def onWal {α : Type} (call : Call WalStoreError WalStore α) :
    Call WalStoreError WalGroupCommitStore α :=
  Call.on walStore (fun walStore store => { store with walStore }) call

def replayRecords : Call WalStoreError WalGroupCommitStore (List WalRecord) :=
  onWal WalStore.replayRecords

def writeObject (candidate : Text) (payload : Bytes) : Call WalStoreError ObjectStore Text := do
  putObject candidate payload
  let stored ← getObject candidate
  if stored = payload then return candidate else throw (.corruptWal .checksumMismatch)

def writeSingleObjectWithSeq (seq : UInt64) (payload : Bytes) (epochMs : UInt64) :
    Call WalStoreError WalStore Text := fun store =>
  WalStore.onStore (writeObject
    (buildCanonicalWalKey store.namespacePrefix store.nodeId.text epochMs seq) payload) store

def writeBatchObject (startSeq endSeq : UInt64) (payload : Bytes) (epochMs : UInt64) :
    Call WalStoreError WalStore Text := fun store =>
  WalStore.onStore (writeObject
    (buildCanonicalWalBatchKey store.namespacePrefix store.nodeId.text epochMs startSeq endSeq)
    payload) store

def writeBuffer (epochMs : UInt64) : Call WalStoreError WalGroupCommitStore Text := do
  let start ← get
  match start.buffer with
  | [only] =>
    set { start with buffer := [] }
    onWal (writeSingleObjectWithSeq only.seq only.encodedRecord epochMs)
  | buffer =>
    let startSeq := (buffer.head?.map (·.seq)).getD 0
    let endSeq := (buffer.getLast?.map (·.seq)).getD startSeq
    let payload ← Call.lift (encodeWalBatchPayload buffer)
    onWal (writeBatchObject startSeq endSeq payload epochMs)

def cleared (store : WalGroupCommitStore) : WalGroupCommitStore :=
  { store with buffer := [], bufferedBytes := 0, firstBufferedAtMs := none }

def flushBufferAsObject (nowMs currentEpochMs : UInt64) :
    Call WalStoreError WalGroupCommitStore (Option Text) := do
  let start ← get
  if start.buffer.isEmpty then return none
  else
    let objectKey ← writeBuffer (max nowMs currentEpochMs)
    modify cleared
    return some objectKey

def flushWhen (condition : Bool) (nowMs currentEpochMs : UInt64) :
    Call WalStoreError WalGroupCommitStore (Option Text) :=
  if condition then flushBufferAsObject nowMs currentEpochMs else return none

def overflowsWith (store : WalGroupCommitStore) (size : Nat) : Bool :=
  0 < store.policy.maxBytes && !store.buffer.isEmpty &&
    store.policy.maxBytes < min (store.bufferedBytes + size) (wordLimit - 1)

def isFull (store : WalGroupCommitStore) : Bool :=
  (0 < store.policy.maxRecords && store.policy.maxRecords ≤ store.buffer.length) ||
    (0 < store.policy.maxBytes && store.policy.maxBytes ≤ store.bufferedBytes)

def push (store : WalGroupCommitStore) (encoded : Bytes) (nowMs : UInt64) : WalGroupCommitStore :=
  let buffer := store.buffer ++ [⟨store.walStore.nextSeq, encoded⟩]
  { store with
    walStore := store.walStore.takeSeq
    buffer
    bufferedBytes := (buffer.map (·.encodedRecord.length)).sum
    firstBufferedAtMs := store.firstBufferedAtMs.or (some nowMs) }

def publishRecord (turns : Nat) (clock : Nat → UInt64) (record : WalRecord) (nowMs : UInt64) :
    Call WalStoreError WalGroupCommitStore (Option GroupCommitPublishResult) := do
  let start ← get
  if start.policy.isSingleRecordMode then
    let published ← onWal (WalStore.publishRecord turns clock record)
    return published.map fun objectKey => ⟨[objectKey], 0, 0⟩
  else
    let encoded ← Call.lift (corrupt (encodeWalRecord record))
    let before ← flushWhen (start.overflowsWith encoded.length) nowMs (clock 0)
    modify (push · encoded nowMs)
    let pushed ← get
    let after ← flushWhen pushed.isFull nowMs (clock 1)
    let last ← get
    return some ⟨before.toList ++ after.toList, last.buffer.length, last.bufferedBytes⟩

def isDue (store : WalGroupCommitStore) (nowMs : UInt64) : Bool :=
  !store.buffer.isEmpty && store.policy.flushIntervalMs ≠ 0 &&
    match store.firstBufferedAtMs with
    | none => false
    | some firstBufferedAtMs =>
      store.policy.flushIntervalMs ≤ saturatingSub nowMs firstBufferedAtMs

def flushDue (nowMs currentEpochMs : UInt64) :
    Call WalStoreError WalGroupCommitStore (Option Text) := do
  let start ← get
  flushWhen (start.isDue nowMs) nowMs currentEpochMs

def flushNow (nowMs currentEpochMs : UInt64) :
    Call WalStoreError WalGroupCommitStore (Option Text) :=
  flushBufferAsObject nowMs currentEpochMs

end WalGroupCommitStore

end

inductive CommitCall
  | publish (record : WalRecord) (nowMs : UInt64) (clock : Nat → UInt64) (turns : Nat)
  | flushDue (nowMs currentEpochMs : UInt64)
  | flushNow (nowMs currentEpochMs : UInt64)

structure CommitStep where
  call : CommitCall
  faults : Nat → Option WalStoreError

structure CommitRun where
  store : WalGroupCommitStore
  acknowledged : List WalRecord

namespace WalGroupCommitStore

abbrev objects (store : WalGroupCommitStore) : Objects := store.walStore.objects

def withObjectStore (store : WalGroupCommitStore) (objectStore : ObjectStore) :
    WalGroupCommitStore :=
  { store with walStore := { store.walStore with objectStore } }

def withFaults (store : WalGroupCommitStore) (faults : Nat → Option WalStoreError) :
    WalGroupCommitStore :=
  store.withObjectStore { store.walStore.objectStore with faults }

def Buffered (store : WalGroupCommitStore) (record : WalRecord) : Prop :=
  ∃ buffered ∈ store.buffer, encodeWalRecord record = .ok buffered.encodedRecord

def Retained (store : WalGroupCommitStore) (record : WalRecord) : Prop :=
  store.Buffered record ∨ ∃ key payload records, store.objects[key]? = some payload ∧
    (parseWalObjectKey store.walStore.namespacePrefix key).isSome ∧
      decodeWalObjectRecords payload = .ok records ∧ record ∈ records

end WalGroupCommitStore

namespace CommitRun

def step (run : CommitRun) (taken : CommitStep) : CommitRun :=
  let ready := run.store.withFaults taken.faults
  match taken.call with
  | .publish record nowMs clock turns =>
    match WalGroupCommitStore.publishRecord turns clock record nowMs ready with
    | (.ok (some _), after) => ⟨after, record :: run.acknowledged⟩
    | (_, after) => ⟨after, run.acknowledged⟩
  | .flushDue nowMs currentEpochMs =>
    ⟨(WalGroupCommitStore.flushDue nowMs currentEpochMs ready).2, run.acknowledged⟩
  | .flushNow nowMs currentEpochMs =>
    ⟨(WalGroupCommitStore.flushNow nowMs currentEpochMs ready).2, run.acknowledged⟩

end CommitRun

def commitSystem (namespacePrefix nodeId : Text) (putPolicy : PutPolicy) (objects : Objects)
    (policy : WalBatchPolicy) : System CommitRun CommitStep where
  start := ⟨.new namespacePrefix nodeId { putPolicy, objects } policy, []⟩
  step run taken := some (run.step taken)

def flushesLoneRecord (store : WalGroupCommitStore) (call : CommitCall) : Bool :=
  store.buffer.length = 1 && match call with
    | .publish record .. => match encodeWalRecord record with
      | .ok encoded => !store.policy.isSingleRecordMode && store.overflowsWith encoded.length
      | .error _ => false
    | .flushDue nowMs _ => store.isDue nowMs
    | .flushNow .. => true

def buffersRecord (store : WalGroupCommitStore) : CommitCall → Bool
  | .publish .. => !store.policy.isSingleRecordMode
  | _ => false

def Careful (run : CommitRun) (taken : CommitStep) : Prop :=
  (flushesLoneRecord run.store taken.call = true → taken.faults 0 = none) ∧
    (buffersRecord run.store taken.call = true → run.store.walStore.nextSeq < wordMax)

def BatchReadBack (records : Nat) (faults : Nat → Option WalStoreError) : Prop :=
  2 ≤ records → faults 0 = none → faults 1 = none

def roomFor (store : WalGroupCommitStore) (encoded : Bytes) : WalGroupCommitStore :=
  if store.overflowsWith encoded.length then store.cleared else store

def PublishConclusive (store : WalGroupCommitStore) (encoded : Bytes) (nowMs : UInt64)
    (faults : Nat → Option WalStoreError) : Prop :=
  let makesRoom := store.overflowsWith encoded.length
  let own := fun index => faults (if makesRoom then index + 2 else index)
  let pushed := (roomFor store encoded).push encoded nowMs
  (makesRoom = true → BatchReadBack store.buffer.length faults) ∧
    (pushed.isFull = true →
      (2 ≤ pushed.buffer.length → own 0 = none) ∧ (own 0 = none → own 1 = none))

def Conclusive (run : CommitRun) (taken : CommitStep) : Prop :=
  match taken.call with
  | .flushDue nowMs _ =>
    run.store.isDue nowMs = true → BatchReadBack run.store.buffer.length taken.faults
  | .flushNow .. => BatchReadBack run.store.buffer.length taken.faults
  | .publish record nowMs _ _ => run.store.walStore.nextSeq < wordMax ∧
    if run.store.policy.isSingleRecordMode then
      taken.faults 0 = none → taken.faults 1 = none → taken.faults 2 = none ∧ taken.faults 3 = none
    else
      ∀ encoded, encodeWalRecord record = .ok encoded →
        PublishConclusive run.store encoded nowMs taken.faults

end WombatKV
