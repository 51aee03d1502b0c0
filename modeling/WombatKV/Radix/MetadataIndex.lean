import WombatKV.Radix.BlockHash

/-! Metadata of blocks, and the indexes in memory and in SlateDB. -/

namespace WombatKV

abbrev ModelDigest := Vector UInt8 24

abbrev LayoutTag := Vector UInt8 16

/-- What the indexes know about a block. -/
structure BlockMeta where
  parentHash : BlockHash
  blockSeq : UInt32
  payloadBytes : UInt64
  lastAccessNs : UInt64
  modelDigest : ModelDigest
  layoutTag : LayoutTag
  extFlags : UInt32
  deriving DecidableEq

namespace BlockMeta

def zeroHash : BlockHash := Vector.replicate 32 0

def newRoot (payloadBytes : UInt64) (modelDigest : ModelDigest) (layoutTag : LayoutTag)
    (now : UInt64) : BlockMeta where
  parentHash := zeroHash
  blockSeq := 0
  payloadBytes
  lastAccessNs := now
  modelDigest
  layoutTag
  extFlags := 0

def touch (block : BlockMeta) (now : UInt64) : BlockMeta := { block with lastAccessNs := now }

end BlockMeta

/-- The index in memory. -/
structure InMemoryMetadataIndex where
  entries : Std.ExtTreeMap BlockHash BlockMeta

namespace InMemoryMetadataIndex

def insert (index : InMemoryMetadataIndex) (hash : BlockHash) (block : BlockMeta)
    (now : UInt64) : InMemoryMetadataIndex :=
  ⟨index.entries.insert hash (block.touch now)⟩

/-- Insert the records whose hashes are not there yet. -/
def bulkLoad (index : InMemoryMetadataIndex) (items : List (BlockHash × BlockMeta)) :
    InMemoryMetadataIndex :=
  ⟨items.foldl (fun entries (hash, block) => entries.insertIfNew hash block) index.entries⟩

/-- Remove a record if its stamp is still the expected one, and say whether it was removed. -/
def removeIfUnchanged (index : InMemoryMetadataIndex) (hash : BlockHash) (expected : UInt64) :
    Bool × InMemoryMetadataIndex :=
  match index.entries[hash]? with
  | some block =>
    if block.lastAccessNs = expected then (true, ⟨index.entries.erase hash⟩) else (false, index)
  | none => (false, index)

def get (index : InMemoryMetadataIndex) (hash : BlockHash) : Option BlockMeta :=
  index.entries[hash]?

def getAndTouch (index : InMemoryMetadataIndex) (hash : BlockHash) (now : UInt64) :
    Option BlockMeta × InMemoryMetadataIndex :=
  match index.entries[hash]? with
  | some block => (some (block.touch now), ⟨index.entries.insert hash (block.touch now)⟩)
  | none => (none, index)

def remove (index : InMemoryMetadataIndex) (hash : BlockHash) : Bool × InMemoryMetadataIndex :=
  (index.entries.contains hash, ⟨index.entries.erase hash⟩)

def longestPrefix (index : InMemoryMetadataIndex) : List BlockHash → Nat
  | [] => 0
  | hash :: rest => if index.entries.contains hash then longestPrefix index rest + 1 else 0

def len (index : InMemoryMetadataIndex) : Nat := index.entries.size

def entryList (index : InMemoryMetadataIndex) : List (BlockHash × BlockMeta) :=
  index.entries.toList

end InMemoryMetadataIndex

/-- The archive format of the metadata, which reads back what it wrote. -/
structure Rkyv where
  toBytes : BlockMeta → Bytes
  fromBytes : Bytes → Option BlockMeta
  fromBytes_toBytes : ∀ block, fromBytes (toBytes block) = some block

inductive DbWrite
  | put (key value : Bytes)
  | delete (key : Bytes)
  deriving DecidableEq, Repr

/-- The index in SlateDB; its namespace is part of the topological keys. -/
structure SlateDbMetadataIndex where
  db : Std.ExtTreeMap Bytes Bytes
  ns : Text
  named : ns ≠ []
  slashless : '/' ∉ ns
  rkyv : Rkyv

namespace SlateDbMetadataIndex

def openWithObjectStore (db : Std.ExtTreeMap Bytes Bytes) (ns : Text) (rkyv : Rkyv) :
    Option SlateDbMetadataIndex :=
  if named : ns ≠ [] then
    if slashless : '/' ∉ ns then some { db, ns, named, slashless, rkyv } else none
  else none

def metaValueSchemaTag : Bytes := [0x76, 0x30, 0x30, 0x31]

def encodeMetaValue (rkyv : Rkyv) (block : BlockMeta) : Bytes :=
  metaValueSchemaTag ++ rkyv.toBytes block

def decodeMetaValue (rkyv : Rkyv) (value : Bytes) : Option BlockMeta :=
  if value.take metaValueSchemaTag.length = metaValueSchemaTag then
    rkyv.fromBytes (value.drop metaValueSchemaTag.length)
  else none

def hashKeyStart : Bytes := [0x68, 0x2f]

def hashKeyEnd : Bytes := [0x68, 0x30]

def keyByHash (hash : BlockHash) : Bytes := hashKeyStart ++ utf8 (hexLower hash.toList)

/-- The topological key: `t/<namespace>/<model>/<sequence number>/<hash>` -/
def keyTopological (index : SlateDbMetadataIndex) (hash : BlockHash) (block : BlockMeta) : Bytes :=
  let sequenceNumber := (leBytes 4 block.blockSeq.toNat).reverse
  utf8 ("t/".toList ++ index.ns ++ ('/' :: hexLower block.modelDigest.toList) ++
    ('/' :: hexLower sequenceNumber) ++ ('/' :: hexLower hash.toList))

def write (index : SlateDbMetadataIndex) : DbWrite → SlateDbMetadataIndex
  | .put key value => { index with db := index.db.insert key value }
  | .delete key => { index with db := index.db.erase key }

/-- The changes that store metadata, in the order they are made. -/
def putMeta (index : SlateDbMetadataIndex) (hash : BlockHash) (block : BlockMeta) : List DbWrite :=
  let value := encodeMetaValue index.rkyv block
  [.put (keyByHash hash) value, .put (index.keyTopological hash block) value]

def readMeta (index : SlateDbMetadataIndex) (hash : BlockHash) : Option BlockMeta :=
  index.db[keyByHash hash]?.bind (decodeMetaValue index.rkyv)

def insert (index : SlateDbMetadataIndex) (hash : BlockHash) (block : BlockMeta) (now : UInt64) :
    List DbWrite :=
  index.putMeta hash (block.touch now)

def get (index : SlateDbMetadataIndex) (hash : BlockHash) : Option BlockMeta :=
  index.readMeta hash

def getAndTouch (index : SlateDbMetadataIndex) (hash : BlockHash) (now : UInt64) :
    Option (BlockMeta × List DbWrite) :=
  (index.readMeta hash).map fun block =>
    (block.touch now, index.putMeta hash (block.touch now))

def remove (index : SlateDbMetadataIndex) (hash : BlockHash) : Option (List DbWrite) :=
  (index.readMeta hash).map fun block =>
    [.delete (keyByHash hash), .delete (index.keyTopological hash block)]

def scannedEntry (rkyv : Rkyv) (entry : Bytes × Bytes) : Option (BlockHash × BlockMeta) :=
  if entry.1.length = 66 ∧ entry.1.take 2 = hashKeyStart then do
    let hash ← decodeHex32 (entry.1.drop 2)
    let block ← decodeMetaValue rkyv entry.2
    return (hash, block)
  else none

def longestPrefix (index : SlateDbMetadataIndex) : List BlockHash → Nat
  | [] => 0
  | hash :: rest => if (index.readMeta hash).isSome then longestPrefix index rest + 1 else 0

def len (index : SlateDbMetadataIndex) : Nat :=
  (index.db.toList.filter fun (key, _) => hashKeyStart ≤ key ∧ key < hashKeyEnd).length

/-- Every record, by a scan over the keys by hash; what cannot be read is skipped. -/
def entries (index : SlateDbMetadataIndex) : List (BlockHash × BlockMeta) :=
  let scanned := index.db.toList.filter fun (key, _) => hashKeyStart ≤ key ∧ key < hashKeyEnd
  scanned.filterMap (scannedEntry index.rkyv)

end SlateDbMetadataIndex

def leadingVector (width : Nat) (bytes : Bytes) : Vector UInt8 width :=
  Vector.ofFn fun place => bytes.getD place 0

theorem leadingVector_append {width : Nat} (vector : Vector UInt8 width) (rest : Bytes) :
    leadingVector width (vector.toList ++ rest) = vector := by
  ext place inside
  have within : place < vector.toList.length := by simpa using inside
  simp [leadingVector, List.getElem?_append_left within, inside]

def fieldArchive : Rkyv where
  toBytes block := block.parentHash.toList ++ (block.modelDigest.toList ++
    (block.layoutTag.toList ++ (leBytes 4 block.blockSeq.toNat ++
      (leBytes 8 block.payloadBytes.toNat ++ (leBytes 8 block.lastAccessNs.toNat ++
        leBytes 4 block.extFlags.toNat)))))
  fromBytes bytes := some {
    parentHash := leadingVector 32 bytes
    modelDigest := leadingVector 24 (bytes.drop 32)
    layoutTag := leadingVector 16 (bytes.drop 56)
    blockSeq := UInt32.ofNat (fromLe (slice bytes 72 76))
    payloadBytes := UInt64.ofNat (fromLe (slice bytes 76 84))
    lastAccessNs := UInt64.ofNat (fromLe (slice bytes 84 92))
    extFlags := UInt32.ofNat (fromLe (slice bytes 92 96)) }
  fromBytes_toBytes block := by
    have seq := @fromLe_leBytes_of_lt 4 _ block.blockSeq.toNat_lt
    have size := @fromLe_leBytes_of_lt 8 _ block.payloadBytes.toNat_lt
    have stamp := @fromLe_leBytes_of_lt 8 _ block.lastAccessNs.toNat_lt
    have flags := @fromLe_leBytes_of_lt 4 _ block.extFlags.toNat_lt
    cases block
    simp_all [slice, List.drop_append, List.drop_eq_nil_of_le, List.take_of_length_le,
      leadingVector_append]

/-- A call that is about one hash; its last argument is the time it is made. -/
inductive IndexRequest
  | insert (hash : BlockHash) (block : BlockMeta) (now : UInt64)
  | get (hash : BlockHash)
  | getAndTouch (hash : BlockHash) (now : UInt64)
  | remove (hash : BlockHash)
  deriving DecidableEq

def IndexRequest.hash : IndexRequest → BlockHash
  | insert hash _ _ | get hash | getAndTouch hash _ | remove hash => hash

namespace SlateDbMetadataIndex

/-- The changes an operation makes, in their order. -/
def changes (index : SlateDbMetadataIndex) : IndexRequest → List DbWrite
  | .insert hash block now => index.insert hash block now
  | .get _ => []
  | .getAndTouch hash now => ((index.getAndTouch hash now).map Prod.snd).getD []
  | .remove hash => (index.remove hash).getD []

def perform (index : SlateDbMetadataIndex) (op : IndexRequest) : SlateDbMetadataIndex :=
  (index.changes op).foldl write index

end SlateDbMetadataIndex

structure IndexCall where
  ns : Text
  op : IndexRequest

def operate (rkyv : Rkyv) (db : Std.ExtTreeMap Bytes Bytes) (call : IndexCall) :
    Std.ExtTreeMap Bytes Bytes :=
  match SlateDbMetadataIndex.openWithObjectStore db call.ns rkyv with
  | some index => (index.perform call.op).db
  | none => db

def databaseAfter (rkyv : Rkyv) (calls : List IndexCall) : Std.ExtTreeMap Bytes Bytes :=
  calls.foldl (operate rkyv) ∅

inductive IndexCommand
  | onHash (request : IndexRequest)
  | longestPrefix (chain : List BlockHash)
  | len
  | entries

inductive IndexAnswer
  | inserted
  | record (found : Option BlockMeta)
  | removed (existed : Bool)
  | count (number : Nat)
  | records (listed : List (BlockHash × BlockMeta))
  deriving DecidableEq

/-- A part of a history: a call, or a close of the database that is opened again. -/
inductive IndexEvent
  | call (command : IndexCommand)
  | reopen (ns : Text)

namespace InMemoryMetadataIndex

def new : InMemoryMetadataIndex := ⟨∅⟩

def answer (index : InMemoryMetadataIndex) : IndexCommand → IndexAnswer × InMemoryMetadataIndex
  | .onHash (.insert hash block now) => (.inserted, index.insert hash block now)
  | .onHash (.get hash) => (.record (index.get hash), index)
  | .onHash (.getAndTouch hash now) => (index.getAndTouch hash now).map .record id
  | .onHash (.remove hash) => (index.remove hash).map .removed id
  | .longestPrefix chain => (.count (index.longestPrefix chain), index)
  | .len => (.count index.len, index)
  | .entries => (.records index.entryList, index)

def answers : InMemoryMetadataIndex → List IndexEvent → List IndexAnswer
  | _, [] => []
  | index, .call command :: rest => (index.answer command).1 :: answers (index.answer command).2 rest
  | index, .reopen _ :: rest => answers index rest

end InMemoryMetadataIndex

namespace SlateDbMetadataIndex

def answer (index : SlateDbMetadataIndex) : IndexCommand → IndexAnswer × SlateDbMetadataIndex
  | .onHash (.insert hash block now) =>
    (.inserted, (index.insert hash block now).foldl write index)
  | .onHash (.get hash) => (.record (index.get hash), index)
  | .onHash (.getAndTouch hash now) =>
    match index.getAndTouch hash now with
    | some (block, writes) => (.record (some block), writes.foldl write index)
    | none => (.record none, index)
  | .onHash (.remove hash) =>
    match index.remove hash with
    | some writes => (.removed true, writes.foldl write index)
    | none => (.removed false, index)
  | .longestPrefix chain => (.count (index.longestPrefix chain), index)
  | .len => (.count index.len, index)
  | .entries => (.records index.entries, index)

def answers : SlateDbMetadataIndex → List IndexEvent → Option (List IndexAnswer)
  | _, [] => some []
  | index, .call command :: rest =>
    (answers (index.answer command).2 rest).map ((index.answer command).1 :: ·)
  | index, .reopen ns :: rest =>
    (openWithObjectStore index.db ns index.rkyv).bind (answers · rest)

end SlateDbMetadataIndex

def BlockMeta.SameTopology (left right : BlockMeta) : Prop :=
  left.blockSeq = right.blockSeq ∧ left.modelDigest = right.modelDigest

namespace SlateDbMetadataIndex

def topologicalPrefix (index : SlateDbMetadataIndex) : Bytes :=
  utf8 ("t/".toList ++ index.ns ++ ['/'])

def topologicalHash (key : Bytes) : Option BlockHash := decodeHex32 (key.drop (key.length - 64))

def topologicalKeys (index : SlateDbMetadataIndex) (hash : BlockHash) : List Bytes :=
  index.db.keys.filter fun key =>
    index.topologicalPrefix.isPrefixOf key && decide (topologicalHash key = some hash)

/-- The topological keys are one for each hash that is there, with its value, and no others. -/
structure Mirrored (index : SlateDbMetadataIndex) : Prop where
  present : ∀ hash, (index.readMeta hash).isSome = true →
    ∃ key, index.topologicalKeys hash = [key] ∧ index.db[key]? = index.db[keyByHash hash]?
  absent : ∀ hash, index.readMeta hash = none → index.topologicalKeys hash = []
  named : ∀ key ∈ index.db, index.topologicalPrefix <+: key → (topologicalHash key).isSome = true

def after (index : SlateDbMetadataIndex) (ops : List IndexRequest) : SlateDbMetadataIndex :=
  ops.foldl perform index

/-- An operation that puts no record in the place of one with another topological key. -/
def KeepsTopology (index : SlateDbMetadataIndex) : IndexRequest → Prop
  | .insert hash block _ => ∀ stored, index.readMeta hash = some stored → stored.SameTopology block
  | .get _ | .getAndTouch _ _ | .remove _ => True

end SlateDbMetadataIndex

end WombatKV
