import WombatKV.Foundation.Search
import WombatKV.Node.BlockNode

/-! The eviction cycle: blocks not used for longest go first. -/

namespace WombatKV

section

open BlockNode Call

structure LruConfig where
  namespaceMaxBytes : UInt64
  ns : Text
  deriving DecidableEq, Repr

structure EvictionCycleOutcome where
  scanned : Nat
  totalBytesBefore : UInt64
  overBudget : Bool
  blocksFreed : Nat
  bytesFreed : UInt64
  skippedChanged : Nat
  deleteFailures : Nat
  deriving DecidableEq, Repr

variable {ε : Type}

def deleteBlock (ns : Text) (hash : BlockHash) (block : BlockMeta) (unlinked : Bool)
    (outcome : EvictionCycleOutcome) : Call (Halt ε) BlockNode EvictionCycleOutcome := do
  let deleted ← attempt (onStore (WombatKVKvStore.deleteKv ns (blockKeyForHash hash) unlinked))
  let freed := { outcome with
    bytesFreed := saturatingAdd outcome.bytesFreed block.payloadBytes
    blocksFreed := outcome.blocksFreed + 1 }
  match deleted with
  | .ok _ => return freed
  | .error _ => return { freed with deleteFailures := freed.deleteFailures + 1 }

def evictEntries (ns : Text) (needToFree : UInt64) (unlinked : BlockHash → Bool) :
    List (BlockHash × BlockMeta) → EvictionCycleOutcome →
      Call (Halt ε) BlockNode EvictionCycleOutcome
  | [], outcome => return outcome
  | (hash, block) :: rest, outcome => do
    if needToFree ≤ outcome.bytesFreed then return outcome
    tick
    let node ← get
    match node.metadataIndex.removeIfUnchanged hash block.lastAccessNs with
    | (false, _) =>
      evictEntries ns needToFree unlinked rest
        { outcome with skippedChanged := outcome.skippedChanged + 1 }
    | (true, metadataIndex) =>
      set { node with metadataIndex }
      removeSlate hash
      let outcome ← deleteBlock ns hash block (unlinked hash) outcome
      evictEntries ns needToFree unlinked rest outcome

def runCycle (config : LruConfig) (target : UInt64) (unlinked : BlockHash → Bool) :
    Call (Halt ε) BlockNode EvictionCycleOutcome := do
  let snapshot := (← get).metadataIndex.entries.toList
  let totalBytesBefore := (snapshot.map fun entry => entry.2.payloadBytes).sum
  let unchanged : EvictionCycleOutcome := {
    scanned := snapshot.length
    totalBytesBefore
    overBudget := false
    blocksFreed := 0
    bytesFreed := 0
    skippedChanged := 0
    deleteFailures := 0 }
  if config.namespaceMaxBytes = 0 ∨ totalBytesBefore ≤ config.namespaceMaxBytes then
    return unchanged
  let sorted := sortBy (compareOn fun entry => entry.2.lastAccessNs) snapshot
  evictEntries config.ns (saturatingSub totalBytesBefore target) unlinked sorted
    { unchanged with overBudget := true }

end

structure EvictionDeleter (ε δ : Type) where
  deleteBlock : Text → Text → Call ε δ Bool
  blockKeyForHash : BlockHash → Text := WombatKV.blockKeyForHash

structure Evictor (δ : Type) where
  index : InMemoryMetadataIndex
  slatedb : Option SlateDbMetadataIndex
  deleter : δ

namespace Evictor

variable {ε δ : Type} (deleter : EvictionDeleter ε δ)

def removeSlate (hash : BlockHash) (evictor : Evictor δ) : Evictor δ :=
  { evictor with slatedb := evictor.slatedb.map fun slate =>
      ((slate.remove hash).getD []).foldl SlateDbMetadataIndex.write slate }

def deleteBlock (ns : Text) (hash : BlockHash) (block : BlockMeta)
    (outcome : EvictionCycleOutcome) (evictor : Evictor δ) : EvictionCycleOutcome × Evictor δ :=
  let (deleted, state) := deleter.deleteBlock ns (deleter.blockKeyForHash hash) evictor.deleter
  let freed := { outcome with
    bytesFreed := saturatingAdd outcome.bytesFreed block.payloadBytes
    blocksFreed := outcome.blocksFreed + 1 }
  match deleted with
  | .ok _ => (freed, { evictor with deleter := state })
  | .error _ =>
    ({ freed with deleteFailures := freed.deleteFailures + 1 }, { evictor with deleter := state })

def evictEntries (ns : Text) (needToFree : UInt64) :
    List (BlockHash × BlockMeta) → EvictionCycleOutcome → Evictor δ →
      EvictionCycleOutcome × Evictor δ
  | [], outcome, evictor => (outcome, evictor)
  | (hash, block) :: rest, outcome, evictor =>
    if needToFree ≤ outcome.bytesFreed then (outcome, evictor)
    else match evictor.index.removeIfUnchanged hash block.lastAccessNs with
      | (false, _) =>
        evictEntries ns needToFree rest
          { outcome with skippedChanged := outcome.skippedChanged + 1 } evictor
      | (true, index) =>
        let (outcome, evictor) :=
          deleteBlock deleter ns hash block outcome ({ evictor with index }.removeSlate hash)
        evictEntries ns needToFree rest outcome evictor

def runCycle (config : LruConfig) (target : UInt64) (evictor : Evictor δ) :
    EvictionCycleOutcome × Evictor δ :=
  let snapshot := evictor.index.entries.toList
  let totalBytesBefore := (snapshot.map fun entry => entry.2.payloadBytes).sum
  let unchanged : EvictionCycleOutcome := {
    scanned := snapshot.length
    totalBytesBefore
    overBudget := false
    blocksFreed := 0
    bytesFreed := 0
    skippedChanged := 0
    deleteFailures := 0 }
  if config.namespaceMaxBytes = 0 ∨ totalBytesBefore ≤ config.namespaceMaxBytes then
    (unchanged, evictor)
  else
    let sorted := sortBy (compareOn fun entry => entry.2.lastAccessNs) snapshot
    evictEntries deleter config.ns (saturatingSub totalBytesBefore target) sorted
      { unchanged with overBudget := true } evictor

end Evictor

/-- The deletes of a key-value store, whose files are unlinked or are not. -/
def kvStoreEvictionDeleter (unlinked : Bool) : EvictionDeleter EmbedError WombatKVKvStore where
  deleteBlock ns key := WombatKVKvStore.deleteKv ns key unlinked

namespace BlockNode

def evictor (node : BlockNode) : Evictor WombatKVKvStore :=
  ⟨node.metadataIndex, node.slatedbIndex, node.store⟩

def withEvictor (node : BlockNode) (evictor : Evictor WombatKVKvStore) : BlockNode :=
  { node with
    metadataIndex := evictor.index
    slatedbIndex := evictor.slatedb
    store := evictor.deleter }

end BlockNode

structure DeleteRequest where
  ns : Text
  key : Text
  failed : Bool
  deriving DecidableEq, Repr

def EvictionDeleter.recording {ε δ : Type} (deleter : EvictionDeleter ε δ) :
    EvictionDeleter ε (δ × List DeleteRequest) where
  deleteBlock ns key := fun (state, requests) =>
    let (result, after) := deleter.deleteBlock ns key state
    (result, after, requests ++ [⟨ns, key, !result.isOk⟩])
  blockKeyForHash := deleter.blockKeyForHash

def compareByAccess : BlockHash × BlockMeta → BlockHash × BlockMeta → Ordering :=
  compareLex (compareOn fun entry => entry.2.lastAccessNs) (compareOn Prod.fst)

def entrySize (entry : BlockHash × BlockMeta) : Nat := entry.2.payloadBytes.toNat

namespace InMemoryMetadataIndex

def byAccess (index : InMemoryMetadataIndex) : List (BlockHash × BlockMeta) :=
  sortBy compareByAccess index.entries.toList

def payloadTotal (index : InMemoryMetadataIndex) : Nat :=
  totalWeight entrySize index.entries.toList

end InMemoryMetadataIndex

end WombatKV
