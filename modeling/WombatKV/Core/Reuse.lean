import WombatKV.Radix.BlockHash

/-! Reuse of cached blocks by the hash of their whole prefix. -/

namespace WombatKV

abbrev Fingerprint := Vector UInt8 32

structure BlockKey where
  tenantId : Text
  fingerprint : Fingerprint
  prefixHash : BlockHash
  blockIndex : UInt32
  deriving DecidableEq

def compareBlockKeys : BlockKey → BlockKey → Ordering :=
  compareLex (compareOn BlockKey.tenantId) (compareLex (compareOn BlockKey.fingerprint)
    (compareLex (compareOn BlockKey.prefixHash) (compareOn BlockKey.blockIndex)))

instance : Std.TransCmp compareBlockKeys := by
  unfold compareBlockKeys
  infer_instance

instance : Std.LawfulEqCmp compareBlockKeys where
  eq_of_compare := by
    rintro ⟨tenant, fingerprint, hash, index⟩ ⟨tenant', fingerprint', hash', index'⟩ same
    simp only [compareBlockKeys, compareLex, compareOn, Ordering.then_eq_eq,
      Std.LawfulEqCmp.compare_eq_iff_eq] at same
    rw [same.1, same.2.1, same.2.2.1, same.2.2.2]

structure LookupResult where
  matchedBlocks : Nat
  payloads : List Bytes
  missingKeys : List BlockKey
  deriving DecidableEq

structure InMemoryKvStore where
  blocks : Std.ExtTreeMap BlockKey Bytes compareBlockKeys

def blockIndexLimit : Nat := 2 ^ 32

section Hashes

variable (blake3 : Bytes → BlockHash)

def seedHashInput (tenant : Bytes) (fingerprint : Fingerprint) : Bytes :=
  ascii "tp-seed-v1" ++ (tenant ++ fingerprint.toList)

def seedHash (tenant : Bytes) (fingerprint : Fingerprint) : BlockHash :=
  blake3 (seedHashInput tenant fingerprint)

def mixHashInput (prev : BlockHash) (data : Bytes) : Bytes :=
  ascii "tp-chain-v1" ++ (prev.toList ++ (leBytes 8 (min data.length (wordLimit - 1)) ++ data))

def mixHash (prev : BlockHash) (data : Bytes) : BlockHash := blake3 (mixHashInput prev data)

def blockBytes (block : List UInt32) : Bytes := block.flatMap u32Le

def prefixHashesFrom (current : BlockHash) : List (List UInt32) → List BlockHash
  | [] => []
  | block :: rest =>
    let next := mixHash blake3 current (blockBytes block)
    next :: prefixHashesFrom next rest

def chainedPrefixHashes (tenantId : Text) (fingerprint : Fingerprint)
    (tokenBlocks : List (List UInt32)) : List BlockHash :=
  prefixHashesFrom blake3 (seedHash blake3 (utf8 tenantId) fingerprint) tokenBlocks

namespace InMemoryKvStore

def putBlock (key : BlockKey) (payload : Bytes) (store : InMemoryKvStore) : InMemoryKvStore :=
  ⟨store.blocks.insert key payload⟩

def putBlocks (tenantId : Text) (fingerprint : Fingerprint) :
    Nat → List (BlockHash × Bytes) → Call String InMemoryKvStore Unit
  | _, [] => pure ()
  | index, (prefixHash, payload) :: rest => do
    if index < blockIndexLimit then
      modify (putBlock ⟨tenantId, fingerprint, prefixHash, UInt32.ofNat index⟩ payload)
      putBlocks tenantId fingerprint (index + 1) rest
    else throw "block index overflow"

def publishPrefix (tenantId : Text) (fingerprint : Fingerprint)
    (tokenBlocks : List (List UInt32)) (payloads : List Bytes) :
    Call String InMemoryKvStore Unit :=
  if tokenBlocks.length ≠ payloads.length then
    throw "token_blocks and payloads length mismatch"
  else
    putBlocks tenantId fingerprint 0
      ((chainedPrefixHashes blake3 tenantId fingerprint tokenBlocks).zip payloads)

def lookupBlocks (store : InMemoryKvStore) (tenantId : Text) (fingerprint : Fingerprint) :
    Nat → List BlockHash → LookupResult → Option LookupResult
  | _, [], result => some result
  | index, prefixHash :: hashes, result =>
    if index < blockIndexLimit then
      let key : BlockKey := ⟨tenantId, fingerprint, prefixHash, UInt32.ofNat index⟩
      let next : LookupResult :=
        if result.missingKeys = [] then
          match store.blocks[key]? with
          | some payload =>
            { result with
              payloads := result.payloads ++ [payload]
              matchedBlocks := result.matchedBlocks + 1 }
          | none => { result with missingKeys := [key] }
        else { result with missingKeys := result.missingKeys ++ [key] }
      lookupBlocks store tenantId fingerprint (index + 1) hashes next
    else none

def lookupPrefix (store : InMemoryKvStore) (tenantId : Text) (fingerprint : Fingerprint)
    (tokenBlocks : List (List UInt32)) : Option LookupResult :=
  lookupBlocks store tenantId fingerprint 0
    (chainedPrefixHashes blake3 tenantId fingerprint tokenBlocks) ⟨0, [], []⟩

end InMemoryKvStore

end Hashes

end WombatKV
