import WombatKV.Store.WalStore

/-! The layout of a segment, and reading a key range of a stored one. -/

namespace WombatKV

def segmentMagic : Bytes := ascii "WMBT_KV_SGV1"

def segmentHeaderSize : Nat := 16

def segmentFooterMagic : Bytes := ascii "WMBT_KV_SEG1"

def segmentFooterSize : Nat := 20

structure SegmentFooter where
  indexLen : UInt32
  indexChecksum : UInt32
  deriving DecidableEq, Repr

structure SegmentIndexEntry where
  key : Bytes
  payloadOffset : UInt32
  payloadLen : UInt32
  deriving DecidableEq, Repr

def encodeSegmentFooter (footer : SegmentFooter) : Bytes :=
  segmentFooterMagic ++ (u32Le footer.indexLen ++ u32Le footer.indexChecksum)

def encodeSegmentIndex : List SegmentIndexEntry → Except FormatError Bytes
  | [] => .ok []
  | entry :: rest => do
    let keyLen ← tryLength 2 entry.key.length
    let bytes ← encodeSegmentIndex rest
    return leBytes 2 keyLen ++ (entry.key ++ (u32Le entry.payloadOffset ++
      (u32Le entry.payloadLen ++ bytes)))

def encodeSegmentBlocks (out : Bytes) (entries : List SegmentIndexEntry) :
    List (Bytes × Bytes) → Except FormatError (Bytes × List SegmentIndexEntry)
  | [] => .ok (out, entries)
  | (key, payload) :: rest => do
    let keyLen ← tryLength 2 key.length
    let payloadLen ← tryLength 4 payload.length
    let payloadOffset ← tryLength 4 (out.length + 2 + 4 + keyLen)
    encodeSegmentBlocks
      (out ++ (leBytes 2 keyLen ++ (leBytes 4 payloadLen ++ (key ++ payload))))
      (entries ++ [⟨key, UInt32.ofNat payloadOffset, UInt32.ofNat payloadLen⟩]) rest

def encodeSegmentV1 (blocks : List (Bytes × Bytes)) : Except FormatError Bytes := do
  let blockCount ← tryLength 4 blocks.length
  let (out, entries) ← encodeSegmentBlocks (segmentMagic ++ leBytes 4 blockCount) [] blocks
  let indexBytes ← encodeSegmentIndex entries
  let indexLen ← tryLength 4 indexBytes.length
  return out ++ (indexBytes ++ encodeSegmentFooter ⟨UInt32.ofNat indexLen, checksum32 indexBytes⟩)

def decodeSegmentFooter (footerBytes indexBytes : Bytes) : Checked FormatError SegmentFooter :=
  if footerBytes.length < segmentFooterSize then Checked.fail .unexpectedEof
  else do
    let magic ← Checked.range footerBytes 0 12
    if magic ≠ segmentFooterMagic then Checked.fail .invalidMagic
    else
      let indexLen := fromU32Le (← Checked.range footerBytes 12 16)
      let indexChecksum := fromU32Le (← Checked.range footerBytes 16 20)
      if indexLen.toNat ≠ indexBytes.length then Checked.fail .unexpectedEof
      else if checksum32 indexBytes ≠ indexChecksum then Checked.fail .checksumMismatch
      else return ⟨indexLen, indexChecksum⟩

def parseSegmentIndexFrom (indexBytes : Bytes) (cursor : Nat) (entries : List SegmentIndexEntry) :
    Checked FormatError (List SegmentIndexEntry) :=
  if cursor < indexBytes.length then
    if indexBytes.length - cursor < 2 then Checked.fail .unexpectedEof
    else do
      let keyLen := fromLe (← Checked.range indexBytes cursor (cursor + 2))
      let keyStart := cursor + 2
      if indexBytes.length - keyStart < keyLen + 8 then Checked.fail .unexpectedEof
      else
        let key ← Checked.range indexBytes keyStart (keyStart + keyLen)
        let numbers := keyStart + keyLen
        let payloadOffset := fromU32Le (← Checked.range indexBytes numbers (numbers + 4))
        let payloadLen := fromU32Le (← Checked.range indexBytes (numbers + 4) (numbers + 8))
        parseSegmentIndexFrom indexBytes (numbers + 8)
          (entries ++ [⟨key, payloadOffset, payloadLen⟩])
  else return entries
termination_by indexBytes.length - cursor

def parseSegmentIndex (indexBytes : Bytes) : Checked FormatError (List SegmentIndexEntry) :=
  parseSegmentIndexFrom indexBytes 0 []

def decodeSegmentIndex (segment : Bytes) : Checked FormatError (List SegmentIndexEntry) :=
  if segment.length < segmentHeaderSize + segmentFooterSize then Checked.fail .unexpectedEof
  else do
    let magic ← Checked.range segment 0 12
    if magic ≠ segmentMagic then Checked.fail .invalidMagic
    else
      let footerStart := segment.length - segmentFooterSize
      let footerBytes ← Checked.range segment footerStart segment.length
      let indexLen := (fromU32Le (← Checked.range footerBytes 12 16)).toNat
      if footerStart < indexLen then Checked.fail .unexpectedEof
      else
        let indexBytes ← Checked.range segment (footerStart - indexLen) footerStart
        let _ ← decodeSegmentFooter footerBytes indexBytes
        parseSegmentIndex indexBytes

inductive SegmentStoreError
  | objectStore (error : WalStoreError)
  | format (error : FormatError)
  | invalidRange
  deriving DecidableEq, Repr

abbrev SegmentCall (α : Type) := Call (Trap SegmentStoreError) ObjectStore α

structure RangeReadResult where
  entries : List (Bytes × Bytes)
  roundTrips : Nat
  deriving DecidableEq, Repr

structure WindowEntry where
  key : Bytes
  windowOffset : Nat
  payloadLen : Nat
  deriving DecidableEq, Repr

structure RangeReadWindow where
  payloadWindow : Bytes
  entries : List WindowEntry
  roundTrips : Nat
  deriving DecidableEq, Repr

def RangeReadWindow.payload (window : RangeReadWindow) (index : Nat) : Option Bytes := do
  let entry ← window.entries[index]?
  let stop := entry.windowOffset + entry.payloadLen
  if stop < wordLimit then
    if entry.windowOffset ≤ stop ∧ stop ≤ window.payloadWindow.length then
      some (slice window.payloadWindow entry.windowOffset stop)
    else none
  else none

def segmentStep {α : Type} (step : Checked FormatError α) : SegmentCall α :=
  Call.lift (Checked.mapError SegmentStoreError.format step)

def segmentObject (objectKey : Text) : SegmentCall Bytes :=
  Call.mapError (fun error => .failed (.objectStore error)) (ObjectStore.getObject objectKey)

def getObjectRange (objectKey : Text) (start stop : Nat) : SegmentCall Bytes := do
  let bytes ← segmentObject objectKey
  if bytes.length ≤ start ∨ stop ≤ start then return []
  else Call.lift (Checked.range bytes start (min stop bytes.length))

def placeEntries (minOffset : Nat) (payloadWindow : Bytes) :
    List SegmentIndexEntry → Except FormatError (List WindowEntry)
  | [] => .ok []
  | entry :: rest => do
    let start := entry.payloadOffset.toNat - minOffset
    let stop := saturatingPlus start entry.payloadLen.toNat
    if payloadWindow.length < stop then throw .unexpectedEof
    else
      let placed ← placeEntries minOffset payloadWindow rest
      return ⟨entry.key, start, entry.payloadLen.toNat⟩ :: placed

def rangeReadWindow (objectKey : Text) (keyStart keyEnd : Bytes) : SegmentCall RangeReadWindow :=
  if keyEnd < keyStart then throw (.failed .invalidRange)
  else do
    let object ← segmentObject objectKey
    let index ← segmentStep (decodeSegmentIndex object)
    let selected := index.filter fun entry => decide (keyStart ≤ entry.key ∧ entry.key ≤ keyEnd)
    if selected = [] then return ⟨[], [], 1⟩
    else
      let offsets := selected.map fun entry => entry.payloadOffset.toNat
      let ends := selected.map fun entry =>
        saturatingPlus entry.payloadOffset.toNat entry.payloadLen.toNat
      let minOffset ← segmentStep (offsets.min?.elim (Checked.fail .unexpectedEof) pure)
      let maxEnd ← segmentStep (ends.max?.elim (Checked.fail .unexpectedEof) pure)
      let payloadWindow ← getObjectRange objectKey minOffset maxEnd
      let entries ← segmentStep ((placeEntries minOffset payloadWindow selected).mapError .failed)
      return ⟨payloadWindow, entries, 2⟩

def windowPayloads (window : RangeReadWindow) :
    Nat → List WindowEntry → Except FormatError (List (Bytes × Bytes))
  | _, [] => .ok []
  | index, entry :: rest => do
    let payload ← (window.payload index).elim (throw .unexpectedEof) pure
    let others ← windowPayloads window (index + 1) rest
    return (entry.key, payload) :: others

def rangeRead (objectKey : Text) (keyStart keyEnd : Bytes) : SegmentCall RangeReadResult := do
  let window ← rangeReadWindow objectKey keyStart keyEnd
  let entries ← segmentStep ((windowPayloads window 0 window.entries).mapError .failed)
  return ⟨entries, window.roundTrips⟩

end WombatKV
