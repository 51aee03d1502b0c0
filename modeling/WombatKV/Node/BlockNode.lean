import WombatKV.Foundation.Threads
import WombatKV.Node.KvStore
import WombatKV.Radix.MetadataIndex

/-! A process that stores blocks, and the steps it may die at. -/

namespace WombatKV

structure BlockNode where
  store : WombatKVKvStore
  metadataIndex : InMemoryMetadataIndex
  slatedbIndex : Option SlateDbMetadataIndex
  clock : Nat → UInt64
  stepsLeft : Option Nat

namespace BlockNode

variable {ε α : Type}

def tick : Call (Halt ε) BlockNode PUnit := fun node =>
  match node.stepsLeft with
  | none => (.ok (), node)
  | some 0 => (.error .crashed, node)
  | some (left + 1) => (.ok (), { node with stepsLeft := some left })

def nowNs : Call (Halt ε) BlockNode UInt64 := fun node =>
  (.ok (node.clock 0), { node with clock := fun reading => node.clock (reading + 1) })

def onStore (call : Call EmbedError WombatKVKvStore α) : Call (Halt EmbedError) BlockNode α := do
  tick
  Call.on BlockNode.store (fun store node => { node with store })
    (Call.mapError Halt.failed call)

def insertIndex (hash : BlockHash) (block : BlockMeta) : Call (Halt ε) BlockNode PUnit := do
  let now ← nowNs
  tick
  modify fun node => { node with metadataIndex := node.metadataIndex.insert hash block now }

def writeSlate : List DbWrite → Call (Halt ε) BlockNode PUnit
  | [] => return ()
  | write :: rest => do
    tick
    modify fun node => { node with slatedbIndex := node.slatedbIndex.map (·.write write) }
    writeSlate rest

def insertSlate (hash : BlockHash) (block : BlockMeta) : Call (Halt ε) BlockNode PUnit := do
  match (← get).slatedbIndex with
  | none => return ()
  | some slate =>
    let now ← nowNs
    writeSlate (slate.insert hash block now)

def removeSlate (hash : BlockHash) : Call (Halt ε) BlockNode PUnit := do
  match (← get).slatedbIndex with
  | none => return ()
  | some slate => writeSlate ((slate.remove hash).getD [])

def bootstrapFromSlatedb (index : InMemoryMetadataIndex) (slate : SlateDbMetadataIndex) :
    Nat × InMemoryMetadataIndex :=
  (slate.entries.length, index.bulkLoad slate.entries)

def restart (node : BlockNode) (flat : FlatFileKvBlobCache) (foyer : FoyerHybridCache) :
    BlockNode where
  store := { node.store with flat, foyer }
  metadataIndex := match node.slatedbIndex with
    | some slate => (bootstrapFromSlatedb ⟨∅⟩ slate).2
    | none => ⟨∅⟩
  slatedbIndex := node.slatedbIndex
  clock := node.clock
  stepsLeft := none

end BlockNode

end WombatKV
