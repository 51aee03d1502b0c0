import WombatKV.Daemon.Blocks
import WombatKV.Node.KvRuns
import WombatKV.Node.Lru

/-! Runs of the daemon: requests, eviction cycles, deaths and restarts. -/

namespace WombatKV

section

open BlockNode Call

inductive DaemonCall
  | lookup (ns : Text) (hexes : List Text)
  | get (ns : Text) (hexes : List Text)
  | put (ns : Text) (hexes : List Text) (payloads : List Bytes)
  | kv (call : KvCall)
  | evict (config : LruConfig) (target : UInt64)
  deriving DecidableEq

structure Circumstances where
  schedule : Schedule
  unlinked : BlockHash → Bool
  faults : Nat → Option WalStoreError
  clock : Nat → UInt64
  stepsLeft : Option Nat

inductive DaemonError
  | blocks (error : BlockError)
  | kv (error : EmbedError)
  deriving DecidableEq

inductive DaemonAnswer
  | matched (count : UInt32)
  | fetched (payloads : Option (List Bytes))
  | stored (total : UInt64)
  | kv (answer : KvAnswer)
  | cycled (outcome : EvictionCycleOutcome)
  deriving DecidableEq

namespace BlockNode

def under (node : BlockNode) (around : Circumstances) : BlockNode :=
  { node with
    store := node.store.withFaults around.faults
    clock := around.clock
    stepsLeft := around.stepsLeft }

def answering {α : Type} (answer : α → DaemonAnswer) (call : Call (Halt BlockError) BlockNode α) :
    Call (Halt DaemonError) BlockNode DaemonAnswer := do
  let result ← Call.mapError (Halt.map .blocks) call
  return answer result

def serve (call : DaemonCall) (around : Circumstances) :
    Call (Halt DaemonError) BlockNode DaemonAnswer :=
  match call with
  | .lookup ns hexes => answering .matched (dispatchLookupBlockPrefix ns hexes)
  | .get ns hexes => answering .fetched (dispatchGetKvBlocksBatch ns hexes around.schedule)
  | .put ns hexes payloads =>
    answering .stored (dispatchPutKvBlocksBatch ns hexes payloads around.schedule)
  | .kv call => do
    let answer ← Call.mapError (Halt.map .kv)
      (onStore (WombatKVKvStore.perform call (around.schedule.fileOk 0)))
    return .kv answer
  | .evict config target => do
    let outcome ← runCycle config target around.unlinked
    return .cycled outcome

end BlockNode

structure DaemonStep where
  call : DaemonCall
  around : Circumstances

structure DaemonStep.Calm (taken : DaemonStep) : Prop where
  served : taken.around.faults = fun _ => none
  lives : taken.around.stepsLeft = none

abbrev DaemonHistory := List (DaemonCall × Except (Halt DaemonError) DaemonAnswer)

structure DaemonRun where
  node : BlockNode
  history : DaemonHistory

namespace DaemonRun

def step (run : DaemonRun) (taken : DaemonStep) : DaemonRun :=
  let (answer, after) := serve taken.call taken.around (run.node.under taken.around)
  ⟨after, (taken.call, answer) :: run.history⟩

end DaemonRun

def daemonSystem (node : BlockNode) : System DaemonRun DaemonStep where
  start := ⟨node, []⟩
  step run taken := some (run.step taken)

def DaemonRun.of (node : BlockNode) (taken : List DaemonStep) : DaemonRun :=
  taken.foldl DaemonRun.step ⟨node, []⟩

def Undisturbing (taken : List DaemonStep) : Prop :=
  ∀ step ∈ taken, step.Calm ∧ ∀ config target, step.call ≠ .evict config target

def WombatKVKvStore.encodes (store : WombatKVKvStore) (payload : Bytes) : Bool :=
  (encodeWithHeader store.zstd payload store.compression).isOk

def DaemonCall.blocksStored (store : WombatKVKvStore) : DaemonCall → List BlockHash
  | .put _ hexes payloads =>
    if hexes.length = payloads.length ∧ payloads.all store.encodes then
      (parseBlockHashList hexes).toOption.getD []
    else []
  | _ => []

def DaemonCall.seenBy (ns : Text) : DaemonCall → Bool
  | .put other _ _ => other = ns
  | _ => true

def lookupAnswers (ns : Text) (history : DaemonHistory) :
    List (Except (Halt DaemonError) DaemonAnswer) :=
  history.reverse.filterMap fun
    | (.lookup other _, answer) => if other = ns then some answer else none
    | _ => none

def firstUnknown (known : BlockHash → Bool) (hashes : List BlockHash) : Option BlockHash :=
  (hashes.take (2 ^ 32 - 1)).find? fun hash => !known hash

def Unled (node : BlockNode) (ns : Text) (calls : List DaemonCall) : Prop :=
  ∀ earlier hexes later hashes, calls = earlier ++ .lookup ns hexes :: later →
    parseBlockHashList hexes = .ok hashes →
    let own := (earlier.filter (·.seenBy ns)).flatMap (·.blocksStored node.store)
    let others := (earlier.filter (!·.seenBy ns)).flatMap (·.blocksStored node.store)
    ∀ hash, firstUnknown (fun hash => node.metadataIndex.entries.contains hash || hash ∈ own)
      hashes = some hash → hash ∉ others

structure BlockNode.Fresh (node : BlockNode) : Prop where
  noFiles : node.store.flat.files = ∅
  noEntries : node.store.foyer.entries = ∅
  noObjects : node.store.objectStore.objects = ∅
  noBlocks : node.metadataIndex.entries = ∅

def KvCall.losesOnly : KvCall → Bool
  | .clearFoyer | .clearFlat | .loseFoyer _ | .loseFlat _ => true
  | _ => false

def StoresInto (ns : Text) (run : DaemonRun) (taken : DaemonStep) : Prop :=
  taken.Calm ∧ match taken.call with
    | .lookup .. | .get .. => True
    | .put other _ _ => other = ns ∧ ∃ total,
        (serve taken.call taken.around (run.node.under taken.around)).1 = .ok (.stored total)
    | .kv call => call.losesOnly = true
    | .evict .. => False

def storedTexts (ns : Text) (history : DaemonHistory) : List Text :=
  history.flatMap fun
    | (.put other hexes _, .ok _) => if other = ns then hexes else []
    | _ => []

def hashStored (ns : Text) (history : DaemonHistory) (hash : BlockHash) : Bool :=
  (storedTexts ns history).any fun text => (parseBlockHashHex text).toOption = some hash

def SpelledAsStored (ns : Text) (before now : DaemonHistory) (hexes : List Text) : Prop :=
  ∀ hex ∈ (hexes.take (2 ^ 32 - 1)).takeWhile
      (fun hex => (parseBlockHashHex hex).toOption.any (hashStored ns before)),
    hex ∈ storedTexts ns now

def blockNode (store : WombatKVKvStore) : BlockNode where
  store
  metadataIndex := ⟨∅⟩
  slatedbIndex := none
  clock := fun _ => 0
  stepsLeft := none

def inOrder : Schedule := ⟨id, fun _ => true, fun _ => true⟩

def quietly (call : DaemonCall) : DaemonStep :=
  ⟨call, ⟨inOrder, fun _ => true, fun _ => none, fun _ => 0, none⟩⟩

def uniformHex (digit : Char) : Text := List.replicate 64 digit

end

section

open BlockNode

def MoreRecent {α : Type} [BEq α] (uses : List α) (recent old : α) : Prop :=
  uses.idxOf recent < uses.idxOf old

instance {α : Type} [BEq α] (uses : List α) (recent old : α) :
    Decidable (MoreRecent uses recent old) :=
  inferInstanceAs (Decidable (uses.idxOf recent < uses.idxOf old))

def namedHashes (hexes : List Text) : List BlockHash :=
  (parseBlockHashList hexes).toOption.getD []

def recentPuts (history : DaemonHistory) : List BlockHash :=
  history.flatMap fun
    | (.put _ hexes _, .ok _) => (namedHashes hexes).reverse
    | _ => []

def recentUses (history : DaemonHistory) : List BlockHash :=
  history.flatMap fun
    | (.put _ hexes _, .ok _) => (namedHashes hexes).reverse
    | (.get _ hexes, .ok (.fetched (some _))) => (namedHashes hexes).reverse
    | _ => []

def FetchesKeepOrder (history : DaemonHistory) : Prop :=
  ∀ recent ∈ recentPuts history, ∀ old ∈ recentPuts history,
    MoreRecent (recentPuts history) recent old → MoreRecent (recentUses history) recent old

instance (history : DaemonHistory) : Decidable (FetchesKeepOrder history) :=
  inferInstanceAs (Decidable (∀ recent ∈ recentPuts history, ∀ old ∈ recentPuts history,
    MoreRecent (recentPuts history) recent old → MoreRecent (recentUses history) recent old))

def DaemonCall.isBlockRequest : DaemonCall → Bool
  | .lookup .. | .get .. | .put .. => true
  | .kv _ | .evict .. => false

def BlockNode.readingsPerBlock (node : BlockNode) : Nat :=
  if node.slatedbIndex.isSome then 3 else 2

def DaemonRun.readings (run : DaemonRun) (taken : DaemonStep) : List UInt64 :=
  match taken.call, (serve taken.call taken.around (run.node.under taken.around)).1 with
  | .put _ hexes _, .ok _ =>
    (List.range (hexes.length * run.node.readingsPerBlock)).map taken.around.clock
  | _, _ => []

def DaemonRun.clockReadings : DaemonRun → List DaemonStep → List UInt64
  | _, [] => []
  | run, taken :: rest => run.readings taken ++ clockReadings (run.step taken) rest

def quietlyAt (time : UInt64) (call : DaemonCall) : DaemonStep :=
  ⟨call, { (quietly call).around with clock := fun reading => time + UInt64.ofNat reading }⟩

end

open BlockNode

structure DurableRun where
  node : BlockNode
  kept : List BlockHash
  down : Bool

inductive DurableStep
  | call (taken : DaemonStep)
  | restart (flat : FlatFileKvBlobCache) (foyer : FoyerHybridCache)

namespace DurableRun

def keptAfter (run : DurableRun) (call : DaemonCall)
    (answer : Except (Halt DaemonError) DaemonAnswer) (after : BlockNode) : List BlockHash :=
  match call, answer with
  | .put _ hexes _, .ok _ => (parseBlockHashList hexes).toOption.getD [] ++ run.kept
  | .evict .., _ => run.kept.filter fun hash =>
      !(run.node.metadataIndex.entries.contains hash && !after.metadataIndex.entries.contains hash)
  | _, _ => run.kept

def afterCall (run : DurableRun) (taken : DaemonStep) : DurableRun :=
  let (answer, after) := serve taken.call taken.around (run.node.under taken.around)
  ⟨after, run.keptAfter taken.call answer after, answer = .error .crashed⟩

def step (run : DurableRun) : DurableStep → Option DurableRun
  | .call taken => if run.down then none else some (run.afterCall taken)
  | .restart flat foyer => some ⟨run.node.restart flat foyer, run.kept, false⟩

end DurableRun

def durableSystem (node : BlockNode) : System DurableRun DurableStep where
  start := ⟨node, [], false⟩
  step := DurableRun.step

def LowerCaseIn (ns : Text) (_run : DurableRun) : DurableStep → Prop
  | .restart .. => True
  | .call taken => match taken.call with
    | .lookup .. | .get .. => True
    | .put other hexes _ => other = ns ∧ ∀ hex ∈ hexes, ∀ char ∈ hex, char.isUpper = false
    | .evict config _ => config.ns = ns
    | .kv _ => False

structure BlockNode.Unindexed (node : BlockNode) : Prop where
  through : node.store.writeThroughS3 = true
  slate : ∃ slate, node.slatedbIndex = some slate ∧ slate.db = ∅
  noBlocks : node.metadataIndex.entries = ∅

def durableNode : BlockNode :=
  { blockNode plainStore with
    slatedbIndex := SlateDbMetadataIndex.openWithObjectStore ∅ "a".toList fieldArchive }

def dyingAfter (steps : Nat) (call : DaemonCall) : DaemonStep :=
  { quietly call with around := { (quietly call).around with stepsLeft := some steps } }

end WombatKV
