import Std.Data.ExtTreeMap.Lemmas
import WombatKV.Radix.BlockHash

/-! The lookup index of block keys, and the guardrail on its size. -/

namespace WombatKV

inductive Residency
  | ram
  | nvme
  | remoteOnly
  deriving DecidableEq, Repr

structure BlockHandle where
  key : BlockHash
  blockIndex : UInt32
  residency : Residency
  deriving DecidableEq

structure LookupBuffers where
  residentHandles : List BlockHandle
  prefetchKeys : List BlockHash
  deriving DecidableEq

def LookupBuffers.clear (_buffers : LookupBuffers) : LookupBuffers := ⟨[], []⟩

structure MemoryGuardrail where
  hostMemoryBytes : UInt64
  reservedSystemBytes : UInt64
  maxIndexFractionPct : UInt8
  mapOverheadBytesPerEntry : UInt64

namespace MemoryGuardrail

def indexBudgetBytes (guardrail : MemoryGuardrail) : UInt64 :=
  let available := saturatingSub guardrail.hostMemoryBytes guardrail.reservedSystemBytes
  saturatingMul available guardrail.maxIndexFractionPct.toUInt64 / 100

def estimateEntryBytes (guardrail : MemoryGuardrail) : UInt64 :=
  saturatingAdd (saturatingAdd 32 8) guardrail.mapOverheadBytesPerEntry

def estimateIndexBytes (guardrail : MemoryGuardrail) (entryCount : Nat) : UInt64 :=
  let entryCountU64 := if entryCount < wordLimit then UInt64.ofNat entryCount else wordMax
  saturatingMul guardrail.estimateEntryBytes entryCountU64

end MemoryGuardrail

inductive GuardrailError
  | memoryBudgetExceeded (estimatedBytes budgetBytes : UInt64)
  deriving DecidableEq, Repr

structure RadixEntry where
  blockIndex : UInt32
  residency : Residency

structure RadixIndex where
  entries : Std.ExtTreeMap BlockHash RadixEntry

namespace RadixIndex

def upsert (index : RadixIndex) (key : BlockHash) (blockIndex : UInt32) (residency : Residency) :
    RadixIndex :=
  ⟨index.entries.insert key ⟨blockIndex, residency⟩⟩

def upsertGuarded (key : BlockHash) (blockIndex : UInt32) (residency : Residency)
    (guardrail : MemoryGuardrail) : Call GuardrailError RadixIndex Unit := do
  let index ← get
  let nextEntryCount :=
    if key ∈ index.entries then index.entries.size else index.entries.size + 1
  let estimatedBytes := guardrail.estimateIndexBytes nextEntryCount
  let budgetBytes := guardrail.indexBudgetBytes
  if budgetBytes < estimatedBytes then
    throw (.memoryBudgetExceeded estimatedBytes budgetBytes)
  else set (index.upsert key blockIndex residency)

def estimatedHeapBytes (index : RadixIndex) (guardrail : MemoryGuardrail) : UInt64 :=
  guardrail.estimateIndexBytes index.entries.size

def lookupFrom (index : RadixIndex) :
    List BlockHash → UInt32 → Bool → LookupBuffers → UInt32 × LookupBuffers
  | [], matchedDepth, _, buffers => (matchedDepth, buffers)
  | key :: rest, matchedDepth, remoteSeen, buffers =>
    match index.entries[key]? with
    | none => (matchedDepth, buffers)
    | some entry =>
      let matchedDepth := saturatingNext matchedDepth
      let prefetching := { buffers with prefetchKeys := buffers.prefetchKeys ++ [key] }
      if remoteSeen then index.lookupFrom rest matchedDepth true prefetching
      else
        match entry.residency with
        | .ram | .nvme =>
          let handle := ⟨key, entry.blockIndex, entry.residency⟩
          index.lookupFrom rest matchedDepth false
            { buffers with residentHandles := buffers.residentHandles ++ [handle] }
        | .remoteOnly => index.lookupFrom rest matchedDepth true prefetching

def lookupBlocksInto (index : RadixIndex) (chain : List BlockHash) (buffers : LookupBuffers) :
    UInt32 × LookupBuffers :=
  index.lookupFrom chain 0 false buffers.clear

def guardedRun (index : RadixIndex) (guardrail : MemoryGuardrail) :
    List (BlockHash × UInt32 × Residency) → RadixIndex
  | [] => index
  | (key, blockIndex, residency) :: rest =>
    (upsertGuarded key blockIndex residency guardrail index).2.guardedRun guardrail rest

end RadixIndex

end WombatKV
