import WombatKV.Radix.BlockHash

/-! Requests, responses and batches, and payloads cut into chunks. -/

namespace WombatKV

namespace Op

def ping : UInt8 := 1
def put : UInt8 := 2
def get : UInt8 := 3
def existsKey : UInt8 := 4
def stats : UInt8 := 5
def clear : UInt8 := 6
def restore : UInt8 := 7
def close : UInt8 := 8
def getMany : UInt8 := 9
def list : UInt8 := 10
def lookupBlockPrefix : UInt8 := 11
def getKvBlocksBatch : UInt8 := 12
def putKvBlocksBatch : UInt8 := 13

end Op

namespace Status

def ok : UInt8 := 0
def miss : UInt8 := 1
def tooLarge : UInt8 := 2
def error : UInt8 := 3

end Status

structure WireRequest where
  id : UInt64
  op : UInt8
  ns : Text
  key : Text
  payload : Bytes
  deriving DecidableEq, Repr

structure WireResponse where
  id : UInt64
  status : UInt8
  op : UInt8
  payload : Bytes
  message : Text
  deriving DecidableEq, Repr

structure Archive (α : Type) where
  toBytes : α → Bytes
  fromBytes : Bytes → Option α
  fromBytes_toBytes : ∀ value, fromBytes (toBytes value) = some value

def frameDataBytes : Nat := 4 * 1024 * 1024 - 16

def fitsOneFrame (len : Nat) : Bool := len + 256 ≤ frameDataBytes

inductive WireCodecError
  | truncated (what : String) (needed position got : Nat)
  | badMagic (op : String) (expected got : Bytes)
  | lengthOverflow (what : String)
  | trailingBytes (what : String) (extra : Nat)
  | bodyLengthMismatch (what : String) (claimed actual : Nat)
  | utf8 (what : String)
  deriving DecidableEq, Repr

def keyBatchMagic : Bytes := ascii "WMBT_KV_KEYS_V1" ++ [0]

def bytesBatchMagic : Bytes := ascii "WMBT_KV_BYTES_V1" ++ [0]

def lengthWord (length : Nat) : Bytes := u32Le (UInt32.ofNat length)

def prefixedKey (key : Text) : Bytes := lengthWord (utf8 key).length ++ utf8 key

def encodeKeyBatch (keys : List Text) : Bytes :=
  keyBatchMagic ++ (lengthWord keys.length ++ keys.flatMap prefixedKey)

def readU32 (payload : Bytes) (cursor : Nat) : Except WireCodecError (Nat × Nat) :=
  let stop := cursor + 4
  if payload.length < stop then .error (.truncated "u32" 4 cursor payload.length)
  else .ok ((fromU32Le (slice payload cursor stop)).toNat, stop)

def decodeKeys (payload : Bytes) : Nat → Nat → Except WireCodecError (List Text × Nat)
  | 0, cursor => .ok ([], cursor)
  | count + 1, cursor => do
    let (len, cursor) ← readU32 payload cursor
    let stop := cursor + len
    if payload.length < stop then throw (.truncated "key_batch" len cursor payload.length)
    else
      match fromUtf8 (slice payload cursor stop) with
      | none => throw (.utf8 "key_batch")
      | some key =>
        let (keys, cursor) ← decodeKeys payload count stop
        return (key :: keys, cursor)

def decodeKeyBatch (payload : Bytes) : Except WireCodecError (List Text) :=
  if ¬ keyBatchMagic <+: payload then
    .error (.badMagic "key_batch" keyBatchMagic (payload.take keyBatchMagic.length))
  else do
    let (count, cursor) ← readU32 payload keyBatchMagic.length
    let (keys, cursor) ← decodeKeys payload count cursor
    if cursor ≠ payload.length then throw (.trailingBytes "key_batch" (payload.length - cursor))
    else return keys

def encodeBytesBatch (items : List Bytes) : Bytes :=
  bytesBatchMagic ++ (lengthWord items.length ++
    (items.flatMap (fun item => lengthWord item.length) ++ items.flatten))

def decodeLengths (payload : Bytes) : Nat → Nat → Except WireCodecError (List Nat × Nat)
  | 0, cursor => .ok ([], cursor)
  | count + 1, cursor => do
    let (len, cursor) ← readU32 payload cursor
    let (lengths, cursor) ← decodeLengths payload count cursor
    return (len :: lengths, cursor)

def cutPieces (batch : Bytes) : List Nat → Nat → List Bytes
  | [], _ => []
  | len :: lengths, offset => slice batch offset (offset + len) :: cutPieces batch lengths (offset + len)

def decodeBytesBatch (batch : Bytes) : Except WireCodecError (List Bytes) :=
  if ¬ bytesBatchMagic <+: batch then
    .error (.badMagic "bytes_batch" bytesBatchMagic (batch.take bytesBatchMagic.length))
  else do
    let (count, cursor) ← readU32 batch bytesBatchMagic.length
    let (lengths, bodyStart) ← decodeLengths batch count cursor
    let bodyEnd := bodyStart + lengths.sum
    if wordLimit ≤ bodyEnd then throw (.lengthOverflow "bytes_batch")
    else if bodyEnd ≠ batch.length then
      throw (.bodyLengthMismatch "bytes_batch" bodyEnd batch.length)
    else return cutPieces batch lengths bodyStart

def checkedU32 (payload : Bytes) (cursor : Nat) : Checked WireCodecError (Nat × Nat) :=
  let stop := cursor + 4
  if payload.length < stop then Checked.fail (.truncated "u32" 4 cursor payload.length)
  else do
    let word ← Checked.range payload cursor stop
    return ((fromU32Le word).toNat, stop)

def checkedKeys (payload : Bytes) : Nat → Nat → Checked WireCodecError (List Text × Nat)
  | 0, cursor => .ok ([], cursor)
  | count + 1, cursor => do
    let (len, cursor) ← checkedU32 payload cursor
    let stop := cursor + len
    if payload.length < stop then Checked.fail (.truncated "key_batch" len cursor payload.length)
    else
      let bytes ← Checked.range payload cursor stop
      match fromUtf8 bytes with
      | none => Checked.fail (.utf8 "key_batch")
      | some key =>
        let (keys, cursor) ← checkedKeys payload count stop
        return (key :: keys, cursor)

def checkedKeyBatch (payload : Bytes) : Checked WireCodecError (List Text) :=
  if ¬ keyBatchMagic <+: payload then do
    let got ← Checked.range payload 0 (min keyBatchMagic.length payload.length)
    Checked.fail (.badMagic "key_batch" keyBatchMagic got)
  else do
    let (count, cursor) ← checkedU32 payload keyBatchMagic.length
    let (keys, cursor) ← checkedKeys payload count cursor
    if cursor ≠ payload.length then
      Checked.fail (.trailingBytes "key_batch" (payload.length - cursor))
    else return keys

def checkedLengths (payload : Bytes) : Nat → Nat → Checked WireCodecError (List Nat × Nat)
  | 0, cursor => .ok ([], cursor)
  | count + 1, cursor => do
    let (len, cursor) ← checkedU32 payload cursor
    let (lengths, cursor) ← checkedLengths payload count cursor
    return (len :: lengths, cursor)

def checkedPieces (batch : Bytes) : List Nat → Nat → Checked WireCodecError (List Bytes)
  | [], _ => .ok []
  | len :: lengths, offset => do
    let piece ← Checked.range batch offset (offset + len)
    let pieces ← checkedPieces batch lengths (offset + len)
    return piece :: pieces

def checkedBytesBatch (batch : Bytes) : Checked WireCodecError (List Bytes) :=
  if ¬ bytesBatchMagic <+: batch then do
    let got ← Checked.range batch 0 (min bytesBatchMagic.length batch.length)
    Checked.fail (.badMagic "bytes_batch" bytesBatchMagic got)
  else do
    let (count, cursor) ← checkedU32 batch bytesBatchMagic.length
    let (lengths, bodyStart) ← checkedLengths batch count cursor
    let bodyEnd := bodyStart + lengths.sum
    if wordLimit ≤ bodyEnd then Checked.fail (.lengthOverflow "bytes_batch")
    else if bodyEnd ≠ batch.length then
      Checked.fail (.bodyLengthMismatch "bytes_batch" bodyEnd batch.length)
    else checkedPieces batch lengths bodyStart

def largeManifestMagic : Text := "WMBT_KV_SHM_LARGE_V1".toList

def largeChunkKeyPrefix : Text := "__wmbt_kv_shm_large".toList

def largeChunkBytes : Nat := frameDataBytes - 4096

structure LargeManifest where
  id : Text
  totalLen : Nat
  chunkCount : Nat
  deriving DecidableEq, Repr

def largePayloadInput (ns key : Text) (payload : Bytes) : Bytes :=
  ascii "wombatkv-shm-large-v1" ++ ([0] ++ (utf8 ns ++ ([0] ++ (utf8 key ++ ([0] ++
    (leBytes 8 payload.length ++ payload))))))

def largePayloadId (blake3 : Bytes → BlockHash) (ns key : Text) (payload : Bytes) : Text :=
  hexLower (blake3 (largePayloadInput ns key payload)).toList

def largeChunkKey (id : Text) (index : Nat) : Text :=
  largeChunkKeyPrefix ++ ('/' :: (id ++ ('/' :: paddedNat 8 index)))

def largeManifest (id : Text) (totalLen chunkCount : Nat) : Text :=
  largeManifestMagic ++ ('\n' :: (id ++ ('\n' :: (natText totalLen ++ ('\n' ::
    (natText chunkCount ++ ['\n']))))))

def parseLargeManifest (payload : Bytes) : Option LargeManifest := do
  let text ← fromUtf8 payload
  match lines text with
  | magic :: id :: totalLen :: chunkCount :: _ =>
    if magic ≠ largeManifestMagic then none
    else return ⟨id, ← parseUsize totalLen, ← parseUsize chunkCount⟩
  | _ => none

def chunkCount (payload : Bytes) : Nat :=
  (payload.length + largeChunkBytes - 1) / largeChunkBytes

def payloadChunk (payload : Bytes) (index : Nat) : Bytes :=
  (payload.drop (index * largeChunkBytes)).take largeChunkBytes

end WombatKV
