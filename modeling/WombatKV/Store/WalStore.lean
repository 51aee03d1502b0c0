import WombatKV.Format.WalRecord
import WombatKV.Foundation.Effects
import WombatKV.Foundation.Sorting

/-! The write-ahead log over an object store. -/

namespace WombatKV

inductive WalStoreError
  | objectNotFound (key : Text)
  | corruptWal (error : FormatError)
  | objectStorePoisoned
  | invalidConfig (message : String)
  | s3 (message : String)
  deriving DecidableEq, Repr

/-- What `put_object` does to a key that is already there. -/
inductive PutPolicy
  | keepExisting
  | replace
  deriving DecidableEq, Repr

abbrev Objects := Std.ExtTreeMap Text Bytes

/-- The S3 handle cuts one leading slash off every key it is given. -/
def S3ObjectStore.normalizeKey : Text → Text
  | '/' :: rest => rest
  | key => key

/-- A key that the S3 handle passes on as it is. -/
def Slashless (key : Text) : Prop := key.head? ≠ some '/'

theorem normalizeKey_slashless {key : Text} (slashless : Slashless key) :
    S3ObjectStore.normalizeKey key = key := by
  unfold S3ObjectStore.normalizeKey
  split
  · exact absurd rfl slashless
  · rfl

/-- The object store in memory (`keepExisting`) or over S3 (`replace`). Keys stand as callers spell
them: where a leading slash matters, `listedName` says what the S3 handle makes of it. -/
structure ObjectStore where
  putPolicy : PutPolicy
  objects : Objects
  faults : Nat → Option WalStoreError := fun _ => none

namespace ObjectStore

def advance (store : ObjectStore) : ObjectStore :=
  { store with faults := fun index => store.faults (index + 1) }

/-- One request: the tape decides whether it fails before it is carried out. -/
def request {α : Type} (operation : Call WalStoreError ObjectStore α) :
    Call WalStoreError ObjectStore α := fun store =>
  match store.faults 0 with
  | some error => (.error error, store.advance)
  | none => operation store.advance

/-- The objects after a put that was carried out. -/
def putInto (policy : PutPolicy) (objects : Objects) (key : Text) (payload : Bytes) : Objects :=
  match policy with
  | .keepExisting => objects.insertIfNew key payload
  | .replace => objects.insert key payload

def putObject (key : Text) (payload : Bytes) : Call WalStoreError ObjectStore Unit :=
  request fun store =>
    (.ok (), { store with objects := putInto store.putPolicy store.objects key payload })

def getObject (key : Text) : Call WalStoreError ObjectStore Bytes :=
  request fun store =>
    match store.objects[key]? with
    | some payload => (.ok payload, store)
    | none => (.error (.objectNotFound key), store)

def headObject (key : Text) : Call WalStoreError ObjectStore Bool :=
  request fun store => (.ok (store.objects.contains key), store)

def listPrefix (start : Text) : Call WalStoreError ObjectStore (List Text) :=
  request fun store => (.ok (store.objects.keys.filter (start.isPrefixOf ·)), store)

/-- The name under which an object is listed: over S3 without the slash that was cut off. -/
def listedName (store : ObjectStore) (key : Text) : Text :=
  match store.putPolicy with
  | .keepExisting => key
  | .replace => S3ObjectStore.normalizeKey key

def deleteObject (key : Text) : Call WalStoreError ObjectStore Bool :=
  request fun store =>
    (.ok (store.objects.contains key), { store with objects := store.objects.erase key })

end ObjectStore

/-- A record waiting for a flush: its sequence number and its encoded bytes. -/
structure BufferedWalRecord where
  seq : UInt64
  encodedRecord : Bytes
  deriving DecidableEq, Repr

def walBatchMagic : Bytes := ascii "WMBT_KV_WB01"

def walBatchHeaderSize : Nat := 36

def corrupt {α : Type} (result : Except FormatError α) : Except WalStoreError α :=
  result.mapError .corruptWal

/-- Each record behind its own four-byte length. -/
def encodeWalBatchBody : List BufferedWalRecord → Except WalStoreError Bytes
  | [] => .ok []
  | record :: rest => do
    let encodedLen ← corrupt (tryLength 4 record.encodedRecord.length)
    let body ← encodeWalBatchBody rest
    return leBytes 4 encodedLen ++ (record.encodedRecord ++ body)

def encodeWalBatchPayload (records : List BufferedWalRecord) : Except WalStoreError Bytes :=
  match records with
  | [] => .error (.corruptWal .unexpectedEof)
  | first :: rest => do
    let startSeq := first.seq
    let endSeq := ((first :: rest).getLast (by simp)).seq
    let recordCount ← corrupt (tryLength 4 (first :: rest).length)
    let body ← encodeWalBatchBody (first :: rest)
    return walBatchMagic ++ (leBytes 8 startSeq.toNat ++ (leBytes 8 endSeq.toNat ++
      (leBytes 4 recordCount ++ (leBytes 4 (checksum32 body).toNat ++ body))))

def decodeWalBatchBody : Nat → Bytes → Except WalStoreError (List WalRecord × Bytes)
  | 0, body => .ok ([], body)
  | count + 1, body =>
    if body.length < 4 then .error (.corruptWal .unexpectedEof)
    else
      let encodedLen := fromLe (body.take 4)
      let behind := body.drop 4
      if behind.length < encodedLen then .error (.corruptWal .unexpectedEof)
      else do
        let record ← corrupt (decodeWalRecord (behind.take encodedLen))
        let (records, rest) ← decodeWalBatchBody count (behind.drop encodedLen)
        return (record :: records, rest)

def decodeWalBatchPayload (payload : Bytes) : Except WalStoreError (List WalRecord) :=
  if payload.length < walBatchHeaderSize then .error (.corruptWal .unexpectedEof)
  else if slice payload 0 12 ≠ walBatchMagic then .error (.corruptWal .invalidMagic)
  else
    let startSeq := UInt64.ofNat (fromLe (slice payload 12 20))
    let endSeq := UInt64.ofNat (fromLe (slice payload 20 28))
    let recordCount := fromLe (slice payload 28 32)
    let checksum := fromLe (slice payload 32 36)
    let body := payload.drop walBatchHeaderSize
    if (checksum32 body).toNat ≠ checksum then .error (.corruptWal .checksumMismatch)
    else if (saturatingAdd (saturatingSub endSeq startSeq) 1).toNat ≠ recordCount then
      .error (.corruptWal .fieldTooLarge)
    else do
      let (records, rest) ← decodeWalBatchBody recordCount body
      if rest ≠ [] then throw (.corruptWal .unexpectedEof) else return records

/-- The records of an object of either kind, told apart by the batch magic. -/
def decodeWalObjectRecords (payload : Bytes) : Except WalStoreError (List WalRecord) :=
  if walBatchMagic.isPrefixOf payload then decodeWalBatchPayload payload
  else do
    let record ← corrupt (decodeWalRecord payload)
    return [record]

def defaultNodeId : Text := "node-local".toList

inductive WalKeyLayout
  | canonicalEpochPartitioned
  | legacyFlat
  deriving DecidableEq, Repr

inductive WalObjectKind
  | single
  | batch
  deriving DecidableEq, Repr

structure ParsedWalObjectKey where
  layout : WalKeyLayout
  kind : WalObjectKind
  startSeq : UInt64
  endSeq : UInt64
  nodeId : Text
  deriving DecidableEq, Repr

def isNodeIdChar (char : Char) : Bool := isAsciiAlphanumeric char || char = '-'

/-- A node id as every store holds it: not empty, and safe inside an object name. -/
structure NodeId where
  text : Text
  nonempty : text ≠ []
  plain : ∀ char ∈ text, isNodeIdChar char = true
  deriving DecidableEq

/-- A node id with every character that is neither alphanumeric nor a dash replaced by a dash. -/
def sanitizeNodeId (nodeId : Text) : NodeId :=
  let sanitized := nodeId.map fun char => if isNodeIdChar char then char else '-'
  if empty : sanitized = [] then ⟨defaultNodeId, by decide, List.all_iff_forall_prop.mp (by decide)⟩
  else ⟨sanitized, empty, by
    intro char member
    obtain ⟨original, _, rfl⟩ := List.mem_map.mp member
    by_cases plain : isNodeIdChar original = true
    · simp [plain]
    · simp only [plain, Bool.false_eq_true, if_false]
      decide⟩

def buildCanonicalWalKey (namespacePrefix nodeId : Text) (epochMs seq : UInt64) : Text :=
  namespacePrefix ++ ('/' :: (paddedWord epochMs ++ ('/' :: ("chunk-".toList ++
    (nodeId ++ ('-' :: paddedWord seq) ++ ".bin".toList)))))

def buildCanonicalWalBatchKey (namespacePrefix nodeId : Text) (epochMs startSeq endSeq : UInt64) :
    Text :=
  namespacePrefix ++ ('/' :: (paddedWord epochMs ++ ('/' :: ("batch-".toList ++
    (nodeId ++ ('-' :: (paddedWord startSeq ++ ('-' :: paddedWord endSeq))) ++ ".bin".toList)))))

def parseNodeSeqFilename (filename : Text) : Option (Text × UInt64) := do
  let stem ← (← filename.dropPrefix? "chunk-".toList).dropSuffix? ".bin".toList
  let (candidateNode, seqPart) ← rsplitOnce '-' stem
  if candidateNode = [] then none
  else
    let seq ← parseWord seqPart
    return (candidateNode, seq)

def parseBatchSeqFilename (filename : Text) : Option (Text × UInt64 × UInt64) := do
  let stem ← (← filename.dropPrefix? "batch-".toList).dropSuffix? ".bin".toList
  match rsplitn '-' 3 stem with
  | [endPart, startPart, nodeId] =>
    let endSeq ← parseWord endPart
    let startSeq ← parseWord startPart
    if nodeId = [] then none else return (nodeId, startSeq, endSeq)
  | _ => none

def parseFilenameToParsedKey (filename : Text) (layout : WalKeyLayout) :
    Option ParsedWalObjectKey :=
  match parseNodeSeqFilename filename with
  | some (nodeId, seq) => some ⟨layout, .single, seq, seq, nodeId⟩
  | none =>
    match parseBatchSeqFilename filename with
    | some (nodeId, startSeq, endSeq) => some ⟨layout, .batch, startSeq, endSeq, nodeId⟩
    | none => none

def parseCanonicalTail (tail : Text) : Option (UInt64 × ParsedWalObjectKey) := do
  let (epochPart, filename) ← splitOnce '/' tail
  if epochPart = [] ∨ ¬ epochPart.all Char.isDigit then none
  else
    let epochMs ← parseWord epochPart
    let parsed ← parseFilenameToParsedKey filename .canonicalEpochPartitioned
    return (epochMs, parsed)

def parseLegacyDefaultFilename (filename : Text) : Option UInt64 := do
  let stem ← (← filename.dropPrefix? "chunk-".toList).dropSuffix? ".bin".toList
  parseWord stem

/-- What a key under a namespace says: canonical names first, then the two legacy shapes. -/
def parseWalObjectKey (namespacePrefix key : Text) : Option ParsedWalObjectKey := do
  let tail ← key.dropPrefix? (namespacePrefix ++ ['/'])
  match parseCanonicalTail tail with
  | some (_, parsed) => return parsed
  | none =>
    match parseFilenameToParsedKey tail .legacyFlat with
    | some parsed => return parsed
    | none =>
      let seq ← parseLegacyDefaultFilename tail
      return ⟨.legacyFlat, .single, seq, seq, defaultNodeId⟩

/-- Keys that parse come first, by their first sequence number; ties and the rest go by name. -/
def compareWalObjectKeys (namespacePrefix left right : Text) : Ordering :=
  match parseWalObjectKey namespacePrefix left, parseWalObjectKey namespacePrefix right with
  | some leftParsed, some rightParsed =>
    (compare leftParsed.startSeq rightParsed.startSeq).then (compare left right)
  | some _, none => .lt
  | none, some _ => .gt
  | none, none => compare left right

/-- The last sequence number a key takes from a node, if it belongs to that node. -/
def parseSeqForNode (namespacePrefix nodeId key : Text) : Option UInt64 := do
  let parsed ← parseWalObjectKey namespacePrefix key
  if parsed.nodeId = nodeId then return parsed.endSeq else none

open ObjectStore

/-- A publisher of one namespace: its node, its store handle, and the next sequence number. -/
structure WalStore where
  namespacePrefix : Text
  nodeId : NodeId
  objectStore : ObjectStore
  nextSeq : UInt64

namespace WalStore

abbrev objects (store : WalStore) : Objects := store.objectStore.objects

def onStore {α : Type} (call : Call WalStoreError ObjectStore α) : Call WalStoreError WalStore α :=
  Call.on WalStore.objectStore (fun objectStore store => { store with objectStore }) call

/-- One past the largest sequence number a node has used, as far as the listing tells. -/
def recoverNextSeq (namespacePrefix : Text) (nodeId : NodeId) :
    Call WalStoreError ObjectStore UInt64 := do
  let keys ← listPrefix namespacePrefix
  let max := (keys.filterMap (parseSeqForNode namespacePrefix nodeId.text)).max?.getD 0
  return saturatingAdd max 1

/-- A publisher for a node, which starts at zero when the listing fails. -/
def withNodeId (namespacePrefix nodeId : Text) (objectStore : ObjectStore) : WalStore :=
  let node := sanitizeNodeId nodeId
  let (recovered, after) := recoverNextSeq namespacePrefix node objectStore
  { namespacePrefix
    nodeId := node
    objectStore := after
    nextSeq := match recovered with
      | .ok nextSeq => nextSeq
      | .error _ => 0 }

def takeSeq (store : WalStore) : WalStore :=
  { store with nextSeq := saturatingAdd store.nextSeq 1 }

/-- The search for a free name and the write under it; each turn reads the clock once. -/
def publishLoop (bytes : Bytes) : Nat → (Nat → UInt64) → Call WalStoreError WalStore (Option Text)
  | 0, _ => return none
  | turns + 1, clock => do
    let store ← get
    let candidate := buildCanonicalWalKey store.namespacePrefix store.nodeId.text (clock 0)
      store.nextSeq
    if ← onStore (headObject candidate) then
      modify takeSeq
      publishLoop bytes turns fun turn => clock (turn + 1)
    else
      onStore (putObject candidate bytes)
      let stored ← onStore (getObject candidate)
      if stored = bytes then return some candidate
      else
        modify takeSeq
        publishLoop bytes turns fun turn => clock (turn + 1)

/-- Publish a record under a name that no object has. -/
def publishRecord (turns : Nat) (clock : Nat → UInt64) (record : WalRecord) :
    Call WalStoreError WalStore (Option Text) := do
  let bytes ← Call.lift (corrupt (encodeWalRecord record))
  match ← publishLoop bytes turns clock with
  | none => return none
  | some objectKey =>
    modify takeSeq
    if ← onStore (headObject objectKey) then return some objectKey
    else throw (.objectNotFound objectKey)

def readObjects : List Text → Call WalStoreError ObjectStore (List WalRecord)
  | [] => return []
  | key :: rest => do
    let bytes ← getObject key
    let records ← Call.lift (decodeWalObjectRecords bytes)
    let others ← readObjects rest
    return records ++ others

/-- Every record behind the namespace prefix, object by object in the order of their names. -/
def replayFrom (namespacePrefix : Text) : Call WalStoreError ObjectStore (List WalRecord) := do
  let keys ← listPrefix namespacePrefix
  readObjects (sortBy (compareWalObjectKeys namespacePrefix) keys)

/-- Every record of the log; replay uses the store handle alone. -/
def replayRecords : Call WalStoreError WalStore (List WalRecord) := fun store =>
  onStore (replayFrom store.namespacePrefix) store

def listed (namespacePrefix : Text) (objects : Objects) : List Text :=
  objects.keys.filter (namespacePrefix.isPrefixOf ·)

def nodeKeys (store : WalStore) : List Text :=
  store.objects.keys.filter fun key =>
    (parseSeqForNode store.namespacePrefix store.nodeId.text key).isSome

def recordsAt (objects : Objects) (key : Text) : List WalRecord :=
  match objects[key]? with
  | some payload => (decodeWalObjectRecords payload).toOption.getD []
  | none => []

def storedRecords (namespacePrefix : Text) (objects : Objects) : List WalRecord :=
  (listed namespacePrefix objects).flatMap (recordsAt objects)

end WalStore

end WombatKV
