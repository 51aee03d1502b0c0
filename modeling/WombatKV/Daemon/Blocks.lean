import WombatKV.Node.BlockNode

/-! The daemon's requests on blocks: look up, fetch, and store. -/

namespace WombatKV

open BlockNode Call

inductive BlockError
  | hash (index : Nat) (error : BlockHashError)
  | lengthMismatch (hashes payloads : Nat)
  | getKv (key : Text) (error : EmbedError)
  | putKv (key : Text) (error : EmbedError)
  deriving DecidableEq, Repr

structure Schedule where
  turns : Nat → Nat
  fileOk : Nat → Bool
  sees : Nat → Bool

def parseHashes (hexes : List Text) : Call (Halt BlockError) BlockNode (List BlockHash) :=
  lift ((parseBlockHashList hexes).mapError fun (index, error) => .failed (.hash index error))

def matchedCount (count : Nat) : UInt32 :=
  if count < 2 ^ 32 then UInt32.ofNat count else 0xffffffff

def dispatchLookupBlockPrefix (_ns : Text) (hexes : List Text) :
    Call (Halt BlockError) BlockNode UInt32 := do
  let hashes ← parseHashes hexes
  return matchedCount ((← get).metadataIndex.longestPrefix hashes)

def fetchBlock (ns hex : Text) (fileOk sees : Bool) :
    Call (Halt BlockError) (BlockNode × Bool) (Option Bytes) := do
  if sees && (← get).2 then return none
  let key := blockKeyFromHex hex
  let outcome ← Call.on Prod.fst (fun node shared => (node, shared.2))
    (Call.mapError (Halt.map (.getKv key)) (onStore (WombatKVKvStore.getKv ns key fileOk)))
  match outcome with
  | .hit _ payload => return some payload
  | .miss =>
    modify fun shared => (shared.1, true)
    return none

def collectPayloads : List (Except BlockError (Option Bytes)) →
    Except BlockError (Option (List Bytes))
  | [] => .ok (some [])
  | .ok (some payload) :: rest => (collectPayloads rest).map (·.map (payload :: ·))
  | .ok none :: _ => .ok none
  | .error error :: _ => .error error

def fetchThreads (ns : Text) (hexes : List Text) (schedule : Schedule) :
    List (Call (Halt BlockError) (BlockNode × Bool) (Option Bytes)) :=
  hexes.mapIdx fun number hex =>
    fetchBlock ns hex (schedule.fileOk number) (schedule.sees number)

def dispatchGetKvBlocksBatch (ns : Text) (hexes : List Text) (schedule : Schedule) :
    Call (Halt BlockError) BlockNode (Option (List Bytes)) := do
  let _ ← parseHashes hexes
  let results ← Call.on (fun node => (node, false)) (fun shared _ => shared.1)
    (fanOut schedule.turns (fetchThreads ns hexes schedule))
  lift ((collectPayloads results).mapError .failed)

def storeBlock (ns key : Text) (payload : Bytes) (fileOk : Bool) :
    Call (Halt BlockError) BlockNode Unit :=
  Call.mapError (Halt.map (.putKv key)) (onStore (WombatKVKvStore.putKv ns key payload fileOk))

def storeThreads (ns : Text) (hexes : List Text) (payloads : List Bytes) (schedule : Schedule) :
    List (Call (Halt BlockError) BlockNode Unit) :=
  ((hexes.map blockKeyFromHex).zip payloads).mapIdx fun number (key, payload) =>
    storeBlock ns key payload (schedule.fileOk number)

def firstError : List (Except BlockError Unit) → Except BlockError Unit
  | [] => .ok ()
  | .ok _ :: rest => firstError rest
  | .error error :: _ => .error error

def indexBlocks : List (BlockHash × Bytes) → UInt64 → Call (Halt BlockError) BlockNode UInt64
  | [], total => return total
  | (hash, payload) :: rest, total => do
    let size := UInt64.ofNat payload.length
    let block := BlockMeta.newRoot size (Vector.replicate 24 0) (Vector.replicate 16 0) (← nowNs)
    insertIndex hash block
    insertSlate hash block
    indexBlocks rest (saturatingAdd total size)

def dispatchPutKvBlocksBatch (ns : Text) (hexes : List Text) (payloads : List Bytes)
    (schedule : Schedule) : Call (Halt BlockError) BlockNode UInt64 := do
  if hexes.length ≠ payloads.length then
    throw (.failed (.lengthMismatch hexes.length payloads.length))
  let hashes ← parseHashes hexes
  let results ← fanOut schedule.turns (storeThreads ns hexes payloads schedule)
  lift ((firstError results).mapError .failed)
  indexBlocks (hashes.zip payloads) 0

end WombatKV
