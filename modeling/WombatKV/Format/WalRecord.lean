import WombatKV.Foundation.Text

/-! The `WMBT_KV_WAL1` layout of one write-ahead record. -/

namespace WombatKV

inductive FormatError
  | invalidMagic
  | unexpectedEof
  | checksumMismatch
  | fieldTooLarge
  deriving DecidableEq, Repr

structure WalRecord where
  key : Bytes
  metadata : Bytes
  payload : Bytes
  deriving DecidableEq, Repr

def walMagic : Bytes := ascii "WMBT_KV_WAL1"

def walHeaderSize : Nat := 24

def checksum32 (bytes : Bytes) : UInt32 :=
  bytes.foldl (fun state byte => (state ^^^ byte.toUInt32) * 16777619) 0x811c9dc5

def tryLength (width length : Nat) : Except FormatError Nat :=
  if length < 256 ^ width then .ok length else .error .fieldTooLarge

def checkedAdd (left right : Nat) : Except FormatError Nat :=
  if left + right < wordLimit then .ok (left + right) else .error .fieldTooLarge

def encodeWalRecord (record : WalRecord) : Except FormatError Bytes := do
  let keyLen ← tryLength 2 record.key.length
  let metaLen ← tryLength 2 record.metadata.length
  let payloadLen ← tryLength 4 record.payload.length
  let body := record.key ++ (record.metadata ++ record.payload)
  return walMagic ++ (leBytes 2 keyLen ++ (leBytes 2 metaLen ++ (leBytes 4 payloadLen ++
    (leBytes 4 (checksum32 body).toNat ++ body))))

def decodeWalRecord (data : Bytes) : Except FormatError WalRecord :=
  if data.length < walHeaderSize then .error .unexpectedEof
  else if slice data 0 12 ≠ walMagic then .error .invalidMagic
  else do
    let keyLen := fromLe (slice data 12 14)
    let metaLen := fromLe (slice data 14 16)
    let payloadLen := fromLe (slice data 16 20)
    let checksum := fromLe (slice data 20 24)
    let bodyLen ← (checkedAdd keyLen metaLen >>= (checkedAdd · payloadLen))
    let totalLen ← checkedAdd walHeaderSize bodyLen
    if data.length < totalLen then throw .unexpectedEof
    else
      let body := slice data walHeaderSize totalLen
      if (checksum32 body).toNat ≠ checksum then throw .checksumMismatch
      else
        let metaEnd := keyLen + metaLen
        return ⟨body.take keyLen, slice body keyLen metaEnd, body.drop metaEnd⟩

end WombatKV
