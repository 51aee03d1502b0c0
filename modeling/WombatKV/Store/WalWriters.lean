import WombatKV.Foundation.Runs
import WombatKV.Store.WalStore

/-! Writers on one namespace, whose requests interleave freely. -/

namespace WombatKV

inductive PublishPhase
  | idle
  | check (record : WalRecord) (bytes : Bytes)
  | write (record : WalRecord) (bytes : Bytes) (candidate : Text)
  | readBack (record : WalRecord) (bytes : Bytes) (candidate : Text)
  | confirm (record : WalRecord) (objectKey : Text)
  deriving DecidableEq

structure WalWriter where
  nodeId : NodeId
  nextSeq : UInt64
  phase : PublishPhase

structure RequestOutcome where
  writer : WalWriter
  objects : Objects
  answer : Option (Except WalStoreError Text)

namespace WalWriter

/-- The writer has found the name free and has not put it yet. -/
def awaits (writer : WalWriter) (key : Text) : Bool :=
  match writer.phase with
  | .write _ _ candidate => candidate = key
  | _ => false

def takeSeq (writer : WalWriter) (phase : PublishPhase) : WalWriter :=
  { writer with nextSeq := saturatingAdd writer.nextSeq 1, phase }

def request (namespacePrefix : Text) (epochMs : UInt64) (objects : Objects) (writer : WalWriter) :
    RequestOutcome :=
  match writer.phase with
  | .idle => ⟨writer, objects, none⟩
  | .check record bytes =>
    let candidate := buildCanonicalWalKey namespacePrefix writer.nodeId.text epochMs writer.nextSeq
    if objects.contains candidate then
      ⟨writer.takeSeq (.check record bytes), objects, none⟩
    else
      ⟨{ writer with phase := .write record bytes candidate }, objects, none⟩
  | .write record bytes candidate =>
    ⟨{ writer with phase := .readBack record bytes candidate },
      ObjectStore.putInto .replace objects candidate bytes, none⟩
  | .readBack record bytes candidate =>
    match objects[candidate]? with
    | none => ⟨{ writer with phase := .idle }, objects, some (.error (.objectNotFound candidate))⟩
    | some stored =>
      if stored = bytes then ⟨writer.takeSeq (.confirm record candidate), objects, none⟩
      else ⟨writer.takeSeq (.check record bytes), objects, none⟩
  | .confirm _ objectKey =>
    if objects.contains objectKey then
      ⟨{ writer with phase := .idle }, objects, some (.ok objectKey)⟩
    else ⟨{ writer with phase := .idle }, objects, some (.error (.objectNotFound objectKey))⟩

end WalWriter

structure WriterPool where
  objects : Objects
  writers : List WalWriter
  acknowledged : List (WalRecord × Text)

inductive WriterStep
  | openLog (nodeId : Text) (faults : Nat → Option WalStoreError)
  | restart (index : Nat) (faults : Nat → Option WalStoreError)
  | publish (index : Nat) (record : WalRecord)
  | request (index : Nat) (epochMs : UInt64)
  | fail (index : Nat)

namespace WriterPool

def withWriter (pool : WriterPool) (index : Nat) (writer : WalWriter) : WriterPool :=
  { pool with writers := pool.writers.set index writer }

def opened (pool : WriterPool) (namespacePrefix nodeId : Text)
    (faults : Nat → Option WalStoreError) : WalWriter :=
  let log := WalStore.withNodeId namespacePrefix nodeId
    { putPolicy := .replace, objects := pool.objects, faults }
  ⟨log.nodeId, log.nextSeq, .idle⟩

def after (pool : WriterPool) (index : Nat) (writer : WalWriter) (outcome : RequestOutcome) :
    WriterPool where
  objects := outcome.objects
  writers := pool.writers.set index outcome.writer
  acknowledged := match writer.phase, outcome.answer with
    | .confirm record _, some (.ok objectKey) => (record, objectKey) :: pool.acknowledged
    | _, _ => pool.acknowledged

def step (namespacePrefix : Text) (pool : WriterPool) : WriterStep → Option WriterPool
  | .openLog nodeId faults =>
    return { pool with writers := pool.writers ++ [pool.opened namespacePrefix nodeId faults] }
  | .restart index faults => do
    let writer ← pool.writers[index]?
    return pool.withWriter index (pool.opened namespacePrefix writer.nodeId.text faults)
  | .publish index record => do
    let writer ← pool.writers[index]?
    if writer.phase = .idle then
      match encodeWalRecord record with
      | .ok bytes => return pool.withWriter index { writer with phase := .check record bytes }
      | .error _ => return pool
    else none
  | .request index epochMs => do
    let writer ← pool.writers[index]?
    return pool.after index writer (writer.request namespacePrefix epochMs pool.objects)
  | .fail index => do
    let writer ← pool.writers[index]?
    return pool.withWriter index { writer with phase := .idle }

def claimed (pool : WriterPool) (key : Text) : Bool :=
  pool.acknowledged.any (fun told => told.2 = key) || pool.writers.any fun writer =>
    match writer.phase with
    | .confirm _ objectKey => objectKey = key
    | _ => false

/-- No put is made under the name of an acknowledged or confirming record. -/
def putsUnclaimed (pool : WriterPool) : WriterStep → Bool
  | .request index _ => match pool.writers[index]?.map WalWriter.phase with
    | some (.write _ _ candidate) => !pool.claimed candidate
    | _ => true
  | _ => true

/-- No put is made while another writer is between its own head and put of the same name. -/
def putsAlone (pool : WriterPool) : WriterStep → Bool
  | .request index _ => match pool.writers[index]?.map WalWriter.phase with
    | some (.write _ _ candidate) =>
      (pool.writers.eraseIdx index).all fun other => !other.awaits candidate
    | _ => true
  | _ => true

end WriterPool

def writerSystem (namespacePrefix : Text) (objects : Objects) : System WriterPool WriterStep where
  start := ⟨objects, [], []⟩
  step := WriterPool.step namespacePrefix

end WombatKV
