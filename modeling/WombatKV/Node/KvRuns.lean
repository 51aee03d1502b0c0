import WombatKV.Node.KvStore

/-! Runs of one key-value store, with lost cache entries and failures. -/

namespace WombatKV

inductive KvCall
  | put (ns key : Text) (payload : Bytes)
  | get (ns key : Text)
  | delete (ns key : Text)
  | clearFoyer
  | clearFlat
  | restore (ns : Text)
  | loseFoyer (cacheKey : Text)
  | loseFlat (file : Text)
  deriving DecidableEq

def KvCall.changesObjects : KvCall → Bool
  | .put .. | .delete .. => true
  | _ => false

structure KvStep where
  call : KvCall
  fileOk : Bool
  faults : Nat → Option WalStoreError

inductive KvAnswer
  | done
  | got (outcome : GetOutcome)
  | deleted (present : Bool)
  | restored (count : Nat)
  deriving DecidableEq

namespace WombatKVKvStore

def withFaults (store : WombatKVKvStore) (faults : Nat → Option WalStoreError) :
    WombatKVKvStore :=
  store.withObjectStore { store.objectStore with faults }

def perform (call : KvCall) (fileOk : Bool) : Call EmbedError WombatKVKvStore KvAnswer :=
  match call with
  | .put ns key payload => do
    putKv ns key payload fileOk
    return .done
  | .get ns key => do
    let outcome ← getKv ns key fileOk
    return .got outcome
  | .delete ns key => do
    let present ← deleteKv ns key fileOk
    return .deleted present
  | .clearFoyer => do
    modify clearFoyer
    return .done
  | .clearFlat => do
    modify clearFlatCache
    return .done
  | .restore ns => do
    let count ← restoreFromS3 ns
    return .restored count
  | .loseFoyer cacheKey => do
    modify fun store => { store with foyer := store.foyer.lose cacheKey }
    return .done
  | .loseFlat file => do
    modify fun store => { store with flat := store.flat.lose file }
    return .done

end WombatKVKvStore

structure KvRun where
  store : WombatKVKvStore
  history : List (KvCall × Except EmbedError KvAnswer)

namespace KvRun

def step (run : KvRun) (taken : KvStep) : KvRun :=
  let (answer, after) := WombatKVKvStore.perform taken.call taken.fileOk
    (run.store.withFaults taken.faults)
  ⟨after, (taken.call, answer) :: run.history⟩

end KvRun

def freshStore (config : EmbedConfig) (zstd : Zstd) (putPolicy : PutPolicy) :
    Except EmbedError WombatKVKvStore :=
  WombatKVKvStore.new config zstd { putPolicy, objects := ∅ }

def kvSystem (store : WombatKVKvStore) : System KvRun KvStep where
  start := ⟨store, []⟩
  step run taken := some (run.step taken)

def plainStore : WombatKVKvStore where
  foyer := ⟨∅⟩
  flat := ⟨∅⟩
  objectStore := { putPolicy := .replace, objects := ∅ }
  s3Prefix := "p".toList
  writeThroughS3 := true
  compression := ⟨.none, 3⟩
  zstd := ⟨fun payload _ => .ok payload, fun payload _ => .ok payload⟩

def KvCall.Within (pairs : Set (Text × Text)) (payloads : Set Bytes) : KvCall → Prop
  | .put ns key payload => (ns, key) ∈ pairs ∧ payload ∈ payloads
  | .get ns key | .delete ns key => (ns, key) ∈ pairs
  | _ => True

def HitsOwnPuts (history : List (KvCall × Except EmbedError KvAnswer)) : Prop :=
  ∀ ns key tier payload, (.get ns key, .ok (.got (.hit tier payload))) ∈ history →
    ∃ answer, (.put ns key payload, answer) ∈ history

def lastPut (ns key : Text) : List (KvCall × Except EmbedError KvAnswer) → Option Bytes
  | [] => none
  | (.put otherNs otherKey payload, .ok _) :: earlier =>
    if otherNs = ns ∧ otherKey = key then some payload else lastPut ns key earlier
  | _ :: earlier => lastPut ns key earlier

def KvRun.leavesNoStaleFile (run : KvRun) (taken : KvStep) : Bool :=
  match taken.call with
  | .put ns key payload => taken.fileOk || match run.store.flat.files[run.store.fileName ns key]? with
    | some old => old = payload
    | none => true
  | _ => true

structure ServedCall (pairs : Set (Text × Text)) (payloads : Set Bytes) (taken : KvStep) :
    Prop where
  within : taken.call.Within pairs payloads
  served : taken.faults = fun _ => none
  keeps : ∀ ns key, taken.call ≠ .delete ns key

def isLive (ns key : Text) : List (KvCall × Except EmbedError KvAnswer) → Bool
  | [] => false
  | (.put otherNs otherKey _, .ok _) :: earlier =>
    (otherNs = ns ∧ otherKey = key) || isLive ns key earlier
  | (.delete otherNs otherKey, .ok _) :: earlier =>
    ¬ (otherNs = ns ∧ otherKey = key) && isLive ns key earlier
  | _ :: earlier => isLive ns key earlier

def KvRun.changes (run : KvRun) (taken : KvStep) : Bool :=
  taken.call.changesObjects && (WombatKVKvStore.perform taken.call taken.fileOk
    (run.store.withFaults taken.faults)).1.toBool

def KvRun.staysOutside (run : KvRun) (listed : Text) (taken : KvStep) : Bool :=
  match taken.call with
  | .put ns key _ | .delete ns key =>
    ns = listed || !(run.store.listPrefixOf listed).isPrefixOf (run.store.objectKey ns key)
  | _ => true

def KvRun.putsReachBucket (run : KvRun) (taken : KvStep) : Bool :=
  match taken.call with
  | .put .. => run.store.writeThroughS3 || (taken.faults 0).isNone
  | _ => true

def WombatKVKvStore.heldBehindFlat (store : WombatKVKvStore) (ns key : Text) : Bool :=
  store.foyer.contains (store.cacheKey ns key) ||
    store.objectStore.objects.contains (store.objectKey ns key)

def KvRun.KeepsBacking (run : KvRun) (pairs : Set (Text × Text)) (taken : KvStep) : Prop :=
  match taken.call with
  | .delete ns key => taken.fileOk = true ∨ run.store.flat.files[run.store.fileName ns key]? = none ∨
      run.store.foyer.contains (run.store.cacheKey ns key) = true
  | .clearFoyer => ∀ ns key, (ns, key) ∈ pairs →
      run.store.flat.files[run.store.fileName ns key]? = none ∨
        run.store.objectStore.objects.contains (run.store.objectKey ns key) = true
  | .loseFoyer lost => ∀ ns key, (ns, key) ∈ pairs → run.store.cacheKey ns key = lost →
      run.store.flat.files[run.store.fileName ns key]? = none ∨
        run.store.objectStore.objects.contains lost = true
  | .restore _ => False
  | _ => True

def KvCall.readsOrEvicts : KvCall → Bool
  | .get .. | .loseFoyer _ => true
  | _ => false

def KvRun.refillsNot (run : KvRun) (file : Text) (taken : KvStep) : Bool :=
  match taken.call with
  | .get ns key => run.store.fileName ns key ≠ file || !run.store.heldBehindFlat ns key ||
      !taken.fileOk
  | _ => true

def Zstd.Inverts (zstd : Zstd) : Prop :=
  ∀ payload level compressed, zstd.compress payload level = .ok compressed →
    zstd.decompress compressed payload.length = .ok payload

def takenForEnvelope (zstd : Zstd) (payload : Bytes) : Bool :=
  compressHeaderSize ≤ payload.length && payload.take 4 = compressMagic &&
    match CompressAlgo.fromU8 (payload.getD 4 0) with
    | some .none => true
    | some .zstd =>
      let rawLen := fromLe (slice payload 6 compressHeaderSize)
      match zstd.decompress (payload.drop compressHeaderSize) rawLen with
      | .ok decoded => decoded.length = rawLen && decoded ≠ payload
      | .error _ => false
    | _ => false

structure MixedPut where
  compression : BlockCompressionConfig
  ns : Text
  key : Text
  payload : Bytes
  written : Bool
  deriving DecidableEq

namespace WombatKVKvStore

def withCompression (store : WombatKVKvStore) (compression : BlockCompressionConfig) :
    WombatKVKvStore :=
  { store with compression }

def cold (store : WombatKVKvStore) : WombatKVKvStore := store.clearFoyer.clearFlatCache

def putMixed (store : WombatKVKvStore) : List MixedPut → WombatKVKvStore
  | [] => store
  | put :: rest =>
    putMixed (putKv put.ns put.key put.payload put.written
      (store.withCompression put.compression)).2 rest

def lastMixedPut (store : WombatKVKvStore) (objectKey : Text) : List MixedPut → Option Bytes
  | [] => none
  | put :: rest => (store.lastMixedPut objectKey rest).or
      (if store.objectKey put.ns put.key = objectKey ∧
        (encodeWithHeader store.zstd put.payload put.compression).toBool then some put.payload
      else none)

end WombatKVKvStore

end WombatKV
