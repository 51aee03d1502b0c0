import WombatKV.Store.GroupCommit

/-! The life of one node with its restarts, and of two namespaces. -/

namespace WombatKV

inductive LiveStore
  | plain (store : WalStore)
  | grouped (store : WalGroupCommitStore)

namespace LiveStore

def walStore : LiveStore → WalStore
  | plain store => store
  | grouped store => store.walStore

def buffer : LiveStore → List BufferedWalRecord
  | plain _ => []
  | grouped store => store.buffer

def replayRecords : LiveStore → Except WalStoreError (List WalRecord)
  | plain store => (WalStore.replayRecords store).1
  | grouped store => (WalGroupCommitStore.replayRecords store).1

def opened (namespacePrefix nodeId : Text) (objectStore : ObjectStore) :
    Option WalBatchPolicy → LiveStore
  | none => plain (.withNodeId namespacePrefix nodeId objectStore)
  | some policy => grouped (.new namespacePrefix nodeId objectStore policy)

def publishRecord (turns : Nat) (clock : Nat → UInt64) (record : WalRecord) (nowMs : UInt64) :
    LiveStore → Option LiveStore
  | plain store =>
    match WalStore.publishRecord turns clock record store with
    | (.ok none, _) => none
    | (_, after) => some (plain after)
  | grouped store =>
    match WalGroupCommitStore.publishRecord turns clock record nowMs store with
    | (.ok none, _) => none
    | (_, after) => some (grouped after)

def flush (call : Call WalStoreError WalGroupCommitStore (Option Text)) :
    LiveStore → Option LiveStore
  | plain _ => none
  | grouped store => some (grouped (call store).2)

end LiveStore

structure NodeHistory where
  live : LiveStore
  published : List WalRecord

inductive NodeStep
  | publish (record : WalRecord) (nowMs : UInt64) (clock : Nat → UInt64) (turns : Nat)
  | flushDue (nowMs currentEpochMs : UInt64)
  | flushNow (nowMs currentEpochMs : UInt64)
  | restart (policy : Option WalBatchPolicy)

namespace NodeHistory

def written (history : NodeHistory) : List WalRecord :=
  history.published.take (history.published.length - history.live.buffer.length)

def step (namespacePrefix nodeId : Text) (history : NodeHistory) : NodeStep → Option NodeHistory
  | .publish record nowMs clock turns => do
    let after ← history.live.publishRecord turns clock record nowMs
    if history.live.walStore.nextSeq < after.walStore.nextSeq then
      return ⟨after, history.published ++ [record]⟩
    else return ⟨after, history.published⟩
  | .flushDue nowMs currentEpochMs => do
    let after ← history.live.flush (WalGroupCommitStore.flushDue nowMs currentEpochMs)
    return ⟨after, history.published⟩
  | .flushNow nowMs currentEpochMs => do
    let after ← history.live.flush (WalGroupCommitStore.flushNow nowMs currentEpochMs)
    return ⟨after, history.published⟩
  | .restart policy =>
    some ⟨.opened namespacePrefix nodeId history.live.walStore.objectStore policy, history.written⟩

def NumbersLeft (history : NodeHistory) : NodeStep → Prop
  | .publish .. => history.live.walStore.nextSeq < wordMax
  | _ => True

end NodeHistory

def nodeSystem (namespacePrefix nodeId : Text) (putPolicy : PutPolicy)
    (first : Option WalBatchPolicy) : System NodeHistory NodeStep where
  start := ⟨.opened namespacePrefix nodeId { putPolicy, objects := ∅ } first, []⟩
  step := NodeHistory.step namespacePrefix nodeId

def ObjectStore.failingOnce (store : ObjectStore) (error : WalStoreError) : ObjectStore :=
  { store with faults := fun index => if index = 0 then some error else none }

inductive RecoveryStep
  | act (taken : NodeStep)
  | restartUnlisted (policy : Option WalBatchPolicy) (error : WalStoreError)

namespace NodeHistory

def restartUnlisted (namespacePrefix nodeId : Text) (history : NodeHistory)
    (policy : Option WalBatchPolicy) (error : WalStoreError) : NodeHistory :=
  ⟨.opened namespacePrefix nodeId (history.live.walStore.objectStore.failingOnce error) policy,
    history.written⟩

def recoveryStep (namespacePrefix nodeId : Text) (history : NodeHistory) :
    RecoveryStep → Option NodeHistory
  | .act taken => history.step namespacePrefix nodeId taken
  | .restartUnlisted policy error =>
    some (history.restartUnlisted namespacePrefix nodeId policy error)

end NodeHistory

def recoverySystem (namespacePrefix nodeId : Text) (putPolicy : PutPolicy)
    (first : Option WalBatchPolicy) : System NodeHistory RecoveryStep where
  start := (nodeSystem namespacePrefix nodeId putPolicy first).start
  step := NodeHistory.recoveryStep namespacePrefix nodeId

def walKeyEpoch (namespacePrefix key : Text) : Option UInt64 := do
  let tail ← key.dropPrefix? (namespacePrefix ++ ['/'])
  let (epochMs, _) ← parseCanonicalTail tail
  return epochMs

def startAtZero (namespacePrefix : Text) (objects : Objects) : Bool :=
  objects.keys.all fun key =>
    (parseWalObjectKey namespacePrefix key).all fun parsed => parsed.startSeq = 0

def epochsBefore (namespacePrefix : Text) (objects : Objects) (reading : UInt64) : Bool :=
  objects.keys.all fun key =>
    (walKeyEpoch namespacePrefix key).all fun epochMs => epochMs < reading

namespace NodeHistory

def nextAtZero (history : NodeHistory) : Bool :=
  history.live.walStore.nextSeq.toNat = history.live.buffer.length

def movedOn (namespacePrefix : Text) (history : NodeHistory) (reading : UInt64) : Bool :=
  !history.nextAtZero || epochsBefore namespacePrefix history.live.walStore.objects reading

def keepsOrder (namespacePrefix : Text) (history : NodeHistory) : RecoveryStep → Bool
  | .act (.publish _ nowMs clock _) =>
    history.live.walStore.nextSeq < wordMax && history.movedOn namespacePrefix (clock 0) &&
      history.movedOn namespacePrefix (max nowMs (clock 1))
  | .act (.flushDue nowMs currentEpochMs) =>
    history.movedOn namespacePrefix (max nowMs currentEpochMs)
  | .act (.flushNow nowMs currentEpochMs) =>
    history.movedOn namespacePrefix (max nowMs currentEpochMs)
  | .act (.restart _) => true
  | .restartUnlisted _ _ => startAtZero namespacePrefix history.live.walStore.objects

end NodeHistory

inductive Tenant
  | first
  | second
  deriving DecidableEq, Repr

inductive TenantCall
  | opened (nodeId : Text) (policy : Option WalBatchPolicy)
  | publish (record : WalRecord) (nowMs : UInt64) (clock : Nat → UInt64) (turns : Nat)
  | flushDue (nowMs currentEpochMs : UInt64)
  | flushNow (nowMs currentEpochMs : UInt64)

structure TenantEvent where
  tenant : Tenant
  slot : Nat
  call : TenantCall
  faults : Nat → Option WalStoreError

namespace LiveStore

def withObjectStore (objectStore : ObjectStore) : LiveStore → LiveStore
  | plain store => plain { store with objectStore }
  | grouped store => grouped (store.withObjectStore objectStore)

def afterCall (live : LiveStore) (call : TenantCall) : LiveStore :=
  match live, call with
  | plain store, .publish record _ clock turns =>
    plain (WalStore.publishRecord turns clock record store).2
  | grouped store, .publish record nowMs clock turns =>
    grouped (WalGroupCommitStore.publishRecord turns clock record nowMs store).2
  | grouped store, .flushDue nowMs currentEpochMs =>
    grouped (WalGroupCommitStore.flushDue nowMs currentEpochMs store).2
  | grouped store, .flushNow nowMs currentEpochMs =>
    grouped (WalGroupCommitStore.flushNow nowMs currentEpochMs store).2
  | live, _ => live

end LiveStore

structure SharedStore where
  objectStore : ObjectStore
  instances : Tenant → Nat → Option LiveStore

namespace SharedStore

def install (shared : SharedStore) (tenant : Tenant) (slot : Nat) (live : LiveStore) :
    SharedStore where
  objectStore := live.walStore.objectStore
  instances other index :=
    if other = tenant ∧ index = slot then some live else shared.instances other index

def step (namespaces : Tenant → Text) (shared : SharedStore) (event : TenantEvent) : SharedStore :=
  let ready : ObjectStore := { shared.objectStore with faults := event.faults }
  match event.call with
  | .opened nodeId policy =>
    shared.install event.tenant event.slot
      (.opened (namespaces event.tenant) nodeId ready policy)
  | call =>
    match shared.instances event.tenant event.slot with
    | none => shared
    | some live =>
      shared.install event.tenant event.slot ((live.withObjectStore ready).afterCall call)

def empty (putPolicy : PutPolicy) : SharedStore := ⟨{ putPolicy, objects := ∅ }, fun _ _ => none⟩

def run (namespaces : Tenant → Text) (putPolicy : PutPolicy) (events : List TenantEvent) :
    SharedStore :=
  events.foldl (step namespaces) (empty putPolicy)

def replay (shared : SharedStore) (namespacePrefix : Text)
    (faults : Nat → Option WalStoreError) : Except WalStoreError (List WalRecord) :=
  (WalStore.replayFrom namespacePrefix { shared.objectStore with faults }).1

end SharedStore

def publishedUnder (tenant : Tenant) (events : List TenantEvent) : List WalRecord :=
  events.filterMap fun event =>
    match event.tenant == tenant, event.call with
    | true, .publish record .. => some record
    | _, _ => none

def Separated (first second : Text) : Prop :=
  ∀ (nodeId : NodeId) (epochMs startSeq endSeq : UInt64),
    ¬ first <+: buildCanonicalWalKey second nodeId.text epochMs startSeq ∧
      ¬ first <+: buildCanonicalWalBatchKey second nodeId.text epochMs startSeq endSeq

end WombatKV
