import WombatKV.Daemon.Runs

/-! An eviction cycle and the calls that run along with it. -/

namespace WombatKV

section

open BlockNode

structure CycleWork where
  needToFree : UInt64
  rest : List (BlockHash × BlockMeta)
  outcome : EvictionCycleOutcome

inductive EvictStage
  | reading
  | unrecording (writes : List DbWrite)
  | unlinking
  | deleting

inductive CyclePhase
  | idle
  | choosing (work : CycleWork)
  | evicting (stage : EvictStage) (hash : BlockHash) (block : BlockMeta) (work : CycleWork)
  | over (outcome : EvictionCycleOutcome)

def EvictionCycleOutcome.counted (outcome : EvictionCycleOutcome) (block : BlockMeta)
    (deleted : Bool) : EvictionCycleOutcome :=
  { outcome with
    bytesFreed := saturatingAdd outcome.bytesFreed block.payloadBytes
    blocksFreed := outcome.blocksFreed + 1
    deleteFailures := outcome.deleteFailures + if deleted then 0 else 1 }

namespace CyclePhase

def begin (config : LruConfig) (target : UInt64) (node : BlockNode) : CyclePhase :=
  let snapshot := node.metadataIndex.entries.toList
  let totalBytesBefore := (snapshot.map fun entry => entry.2.payloadBytes).sum
  let outcome : EvictionCycleOutcome := {
    scanned := snapshot.length
    totalBytesBefore
    overBudget := false
    blocksFreed := 0
    bytesFreed := 0
    skippedChanged := 0
    deleteFailures := 0 }
  if config.namespaceMaxBytes = 0 ∨ totalBytesBefore ≤ config.namespaceMaxBytes then .over outcome
  else .choosing {
    needToFree := saturatingSub totalBytesBefore target
    rest := sortBy (compareOn fun entry => entry.2.lastAccessNs) snapshot
    outcome := { outcome with overBudget := true } }

def choose (work : CycleWork) (node : BlockNode) : CyclePhase × BlockNode :=
  match work.rest with
  | [] => (.over work.outcome, node)
  | (hash, block) :: rest =>
    if work.needToFree ≤ work.outcome.bytesFreed then (.over work.outcome, node)
    else match node.metadataIndex.removeIfUnchanged hash block.lastAccessNs with
      | (false, _) =>
        let outcome := { work.outcome with skippedChanged := work.outcome.skippedChanged + 1 }
        (.choosing { work with rest, outcome }, node)
      | (true, metadataIndex) =>
        (.evicting .reading hash block { work with rest }, { node with metadataIndex })

def evict (ns : Text) (unlinked : Bool) (stage : EvictStage) (hash : BlockHash)
    (block : BlockMeta) (work : CycleWork) (node : BlockNode) : CyclePhase × BlockNode :=
  let key := blockKeyForHash hash
  match stage with
  | .reading =>
    let writes := node.slatedbIndex.elim [] fun slate => (slate.remove hash).getD []
    (.evicting (.unrecording writes) hash block work, node)
  | .unrecording (write :: rest) =>
    (.evicting (.unrecording rest) hash block work,
      { node with slatedbIndex := node.slatedbIndex.map (·.write write) })
  | .unrecording [] => (.evicting .unlinking hash block work, node)
  | .unlinking =>
    let flat := node.store.flat.remove (node.store.cacheKey ns key) unlinked
    (.evicting .deleting hash block work, { node with store := { node.store with flat } })
  | .deleting =>
    let (result, store) :=
      WombatKVKvStore.onStore (ObjectStore.deleteObject (node.store.objectKey ns key)) node.store
    (.choosing { work with outcome := work.outcome.counted block result.isOk }, { node with store })

def step (config : LruConfig) (target : UInt64) (unlinked : Bool) (node : BlockNode) :
    CyclePhase → Option (CyclePhase × BlockNode)
  | .idle => some (begin config target node, node)
  | .choosing work => some (choose work node)
  | .evicting stage hash block work => some (evict config.ns unlinked stage hash block work node)
  | .over _ => none

end CyclePhase

inductive PutPhase
  | waiting
  | inFlat
  | inFoyer
  | done (result : Except BlockError Unit)

structure PutThread where
  key : Text
  payload : Bytes
  phase : PutPhase

namespace PutThread

def putObject (ns key : Text) (payload : Bytes) : Call EmbedError WombatKVKvStore Unit := do
  let store ← get
  let onWire ← Call.lift (encodeForStorage store.zstd payload store.compression key)
  if store.writeThroughS3 then
    WombatKVKvStore.onStore (ObjectStore.putObject (store.objectKey ns key) onWire)
  else
    tryCatch (WombatKVKvStore.onStore (ObjectStore.putObject (store.objectKey ns key) onWire))
      fun _ => return ()

def step (ns : Text) (fileOk : Bool) (thread : PutThread) (store : WombatKVKvStore) :
    Option (PutThread × WombatKVKvStore) :=
  let { key, payload, phase } := thread
  match phase with
  | .waiting =>
    let flat := store.flat.put (store.cacheKey ns key) payload fileOk
    some ({ thread with phase := .inFlat }, { store with flat })
  | .inFlat =>
    let foyer := store.foyer.put (store.cacheKey ns key) payload
    some ({ thread with phase := .inFoyer }, { store with foyer })
  | .inFoyer =>
    let (result, store) := putObject ns key payload store
    some ({ thread with phase := .done (result.mapError (.putKv key)) }, store)
  | .done _ => none

end PutThread

inductive BatchPhase
  | putting (hashes : List BlockHash) (threads : List PutThread)
  | indexing (rest : List (BlockHash × Bytes)) (total : UInt64)
  | recording (hash : BlockHash) (block : BlockMeta) (rest : List (BlockHash × Bytes))
      (total : UInt64)
  | flushing (writes : List DbWrite) (rest : List (BlockHash × Bytes)) (total : UInt64)
  | over (result : Except BlockError UInt64)

namespace BatchPhase

def begin (hexes : List Text) (payloads : List Bytes) : BatchPhase :=
  if hexes.length ≠ payloads.length then
    .over (.error (.lengthMismatch hexes.length payloads.length))
  else match parseBlockHashList hexes with
    | .error (index, error) => .over (.error (.hash index error))
    | .ok hashes => .putting hashes (((hexes.map blockKeyFromHex).zip payloads).map
        fun (key, payload) => ⟨key, payload, .waiting⟩)

def joined : List PutThread → Option (List (Except BlockError Unit))
  | [] => some []
  | ⟨_, _, .done result⟩ :: rest => (joined rest).map (result :: ·)
  | _ :: _ => none

def readClock (node : BlockNode) : UInt64 × BlockNode :=
  (node.clock 0, { node with clock := fun reading => node.clock (reading + 1) })

def step (node : BlockNode) : BatchPhase → Option (BatchPhase × BlockNode)
  | .putting hashes threads => do
    let results ← joined threads
    match firstError results with
    | .error error => some (.over (.error error), node)
    | .ok _ => some (.indexing (hashes.zip (threads.map (·.payload))) 0, node)
  | .indexing [] total => some (.over (.ok total), node)
  | .indexing ((hash, payload) :: rest) total =>
    let size := UInt64.ofNat payload.length
    let (created, node) := readClock node
    let block := BlockMeta.newRoot size (Vector.replicate 24 0) (Vector.replicate 16 0) created
    let (now, node) := readClock node
    some (.recording hash block rest (saturatingAdd total size),
      { node with metadataIndex := node.metadataIndex.insert hash block now })
  | .recording hash block rest total =>
    match node.slatedbIndex with
    | none => some (.indexing rest total, node)
    | some slate =>
      let (now, node) := readClock node
      some (.flushing (slate.insert hash block now) rest total, node)
  | .flushing [] rest total => some (.indexing rest total, node)
  | .flushing (write :: writes) rest total =>
    some (.flushing writes rest total,
      { node with slatedbIndex := node.slatedbIndex.map (·.write write) })
  | .over _ => none

end BatchPhase

structure Race where
  node : BlockNode
  cycle : CyclePhase
  batch : BatchPhase

inductive RaceTurn
  | cycle (unlinked : Bool)
  | thread (number : Nat) (fileOk : Bool)
  | batch

structure RaceCalls where
  config : LruConfig
  target : UInt64
  ns : Text
  hexes : List Text
  payloads : List Bytes

namespace Race

def step (calls : RaceCalls) (race : Race) : RaceTurn → Option Race
  | .cycle unlinked => do
    let (cycle, node) ← race.cycle.step calls.config calls.target unlinked race.node
    return { race with cycle, node }
  | .thread number fileOk =>
    match race.batch with
    | .putting hashes threads => do
      let thread ← threads[number]?
      let (thread, store) ← thread.step calls.ns fileOk race.node.store
      return { race with
        node := { race.node with store }
        batch := .putting hashes (threads.set number thread) }
    | _ => none
  | .batch => do
    let (batch, node) ← race.batch.step race.node
    return { race with batch, node }

def finished (race : Race) : Bool :=
  match race.cycle, race.batch with
  | .over _, .over _ => true
  | _, _ => false

end Race

def raceSystem (node : BlockNode) (calls : RaceCalls) : System Race RaceTurn where
  start := ⟨node, .idle, .begin calls.hexes calls.payloads⟩
  step := Race.step calls

end

namespace CyclePhase

def begun : CyclePhase → Bool
  | idle => false
  | .choosing _ | .evicting _ _ _ _ | .over _ => true

def remaining : CyclePhase → List (BlockHash × BlockMeta)
  | choosing work | evicting _ _ _ work => work.rest
  | .idle | .over _ => []

end CyclePhase

structure TouchRace where
  node : BlockNode
  cycle : CyclePhase
  renewed : List BlockHash

inductive TouchTurn
  | cycle (unlinked : Bool)
  | insert (hash : BlockHash) (block : BlockMeta) (now : UInt64)
  | getAndTouch (hash : BlockHash) (now : UInt64)

namespace TouchRace

def renew (race : TouchRace) (hash : BlockHash) (metadataIndex : InMemoryMetadataIndex) :
    TouchRace :=
  { race with
    node := { race.node with metadataIndex }
    renewed := if race.cycle.begun then hash :: race.renewed else race.renewed }

def step (config : LruConfig) (target : UInt64) (race : TouchRace) : TouchTurn → Option TouchRace
  | .cycle unlinked => do
    let (cycle, node) ← race.cycle.step config target unlinked race.node
    return { race with cycle, node }
  | .insert hash block now => some (race.renew hash (race.node.metadataIndex.insert hash block now))
  | .getAndTouch hash now =>
    match race.node.metadataIndex.getAndTouch hash now with
    | (some _, metadataIndex) => some (race.renew hash metadataIndex)
    | (none, _) => some race

def freshStamp (race : TouchRace) : TouchTurn → Bool
  | .cycle _ => true
  | .insert hash _ now | .getAndTouch hash now =>
    race.cycle.remaining.all fun entry => entry.1 ≠ hash || entry.2.lastAccessNs ≠ now

end TouchRace

def touchRaceSystem (node : BlockNode) (config : LruConfig) (target : UInt64) :
    System TouchRace TouchTurn where
  start := ⟨node, .idle, []⟩
  step := TouchRace.step config target

end WombatKV
