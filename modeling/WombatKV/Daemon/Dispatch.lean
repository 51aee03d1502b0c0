import WombatKV.Daemon.Arena
import WombatKV.Daemon.Wire
import WombatKV.Foundation.Threads
import WombatKV.Node.KvStore

/-! How the daemon answers a request. -/

namespace WombatKV

open Call

structure KvBackend (σ : Type) where
  putKv : Text → Text → Bytes → Call Text σ Unit
  getKv : Text → Text → Call Text σ GetOutcome
  existsKv : Text → Text → Call Text σ Bool
  listKvKeys : Text → Call Text σ (List Text)
  restoreFromS3 : Text → Call Text σ Nat
  clearFoyer : σ → σ
  stats : σ → Text
  blockRequest : WireRequest → σ → WireResponse × σ

structure Daemon (σ : Type) where
  store : σ
  arena : Option ArenaShared

variable {σ : Type}

namespace Daemon

def setup (daemon : Daemon σ) : Option ArenaSetup := daemon.arena.map ArenaShared.setup

def onStore {ε α : Type} (call : Call ε σ α) : Call ε (Daemon σ) α :=
  Call.on store (fun store daemon => { daemon with store }) call

def onArena {α : Type} (call : Call Text ArenaShared (Option α)) :
    Call Text (Daemon σ) (Option α) := fun daemon =>
  match daemon.arena with
  | none => (.ok none, daemon)
  | some arena => ((call arena).1, { daemon with arena := some (call arena).2 })

end Daemon

open Daemon

def errResponse (id : UInt64) (op : UInt8) (message : Text) : WireResponse :=
  ⟨id, Status.error, op, [], message⟩

def okResponse (id : UInt64) (op : UInt8) (message : Text) : WireResponse :=
  ⟨id, Status.ok, op, [], message⟩

def missResponse (id : UInt64) (op : UInt8) (message : Text) : WireResponse :=
  ⟨id, Status.miss, op, [], message⟩

def tierMessage (tier : UInt8) : Text := "tier:".toList ++ natText tier.toNat

def arenaResponse (id : UInt64) (op : UInt8) (slab : ArenaSlab) : WireResponse :=
  okResponse id op (tierMessage slab.tier ++ (";arena:".toList ++ (natText slab.offset ++
    (':' :: natText slab.len.toNat))))

def tierByte : HitTier → UInt8
  | .foyer => 1
  | .objectStore => 2

/-- `isize::MAX`: asking for a vector of more bytes panics. -/
def maxVecBytes : Nat := 2 ^ 63 - 1

/-- A worker that has panicked gives no answer. -/
def unlessCrashed {α : Type} (result : Except (Halt Text) α) (response : WireResponse) :
    Option WireResponse :=
  match result with
  | .error .crashed => none
  | _ => some response

section Store

variable (backend : KvBackend σ)

def loadChunks (ns : Text) (manifest : LargeManifest) : Nat → Nat → Bytes → Call Text σ Bytes
  | 0, _, out => return out
  | left + 1, index, out => do
    let outcome ← Call.mapError
      (fun error => "get chunk ".toList ++ (natText index ++ (": ".toList ++ error)))
      (backend.getKv ns (largeChunkKey manifest.id index))
    match outcome with
    | .hit _ payload => loadChunks ns manifest left (index + 1) (out ++ payload)
    | .miss =>
      throw ("missing large-payload chunk ".toList ++ (natText index ++
        (" for ".toList ++ manifest.id)))

/-- The payload that a manifest announces, joined from its chunks. -/
def loadLargePayload (ns : Text) (manifest : LargeManifest) : Call (Halt Text) σ Bytes := do
  -- `Vec::with_capacity(manifest.total_len)` comes before the first chunk.
  if maxVecBytes < manifest.totalLen then throw .crashed
  let out ← Call.mapError .failed (loadChunks backend ns manifest manifest.chunkCount 0 [])
  if out.length ≠ manifest.totalLen then
    throw (.failed ("large-payload length mismatch: expected ".toList ++
      (natText manifest.totalLen ++ (" got ".toList ++ natText out.length))))
  else return out

def resolveLargePayload (ns : Text) (payload : Bytes) : Call (Halt Text) σ Bytes :=
  match parseLargeManifest payload with
  | none => return payload
  | some manifest => loadLargePayload backend ns manifest

/-- Puts a payload into the arena, a manifest's payload in its place. -/
def materializeLargePayload (ns key : Text) (payload : Bytes) (tier : UInt8) :
    Call (Halt Text) (Daemon σ) (Option ArenaSlab) := do
  match (← get).arena with
  | none => return none
  | some arena =>
    match parseLargeManifest payload with
    | none => Call.mapError .failed (onArena (rememberArenaSlab ns key payload tier))
    | some manifest =>
      if manifest.totalLen < arena.minBytes then return none
      let out ← onStore (loadLargePayload backend ns manifest)
      Call.mapError .failed (onArena (rememberArenaSlab ns key out tier))

/-- A PUT: the store first, then the arena, whose errors are only logged. -/
def dispatchPut (request : WireRequest) (daemon : Daemon σ) : Option WireResponse × Daemon σ :=
  match onStore (backend.putKv request.ns request.key request.payload) daemon with
  | (.error error, daemon) =>
    (some (errResponse request.id Op.put ("put: ".toList ++ error)), daemon)
  | (.ok _, daemon) =>
    let (result, daemon) :=
      materializeLargePayload backend request.ns request.key request.payload 1 daemon
    (unlessCrashed result (okResponse request.id Op.put []), daemon)

/-- A GET: a slab of the arena if there is one, or else what the store has. -/
def dispatchGet (request : WireRequest) (daemon : Daemon σ) : Option WireResponse × Daemon σ :=
  match daemon.arena.bind fun arena => lookupArenaSlab arena request.ns request.key with
  | some slab => (some (arenaResponse request.id Op.get slab), daemon)
  | none =>
    match onStore (backend.getKv request.ns request.key) daemon with
    | (.error error, daemon) =>
      (some (errResponse request.id Op.get ("get: ".toList ++ error)), daemon)
    | (.ok .miss, daemon) => (some (missResponse request.id Op.get []), daemon)
    | (.ok (.hit tier payload), daemon) =>
      match materializeLargePayload backend request.ns request.key payload (tierByte tier)
          daemon with
      | (.ok (some slab), daemon) => (some (arenaResponse request.id Op.get slab), daemon)
      | (result, daemon) => (unlessCrashed result
          ⟨request.id, Status.ok, Op.get, payload, tierMessage (tierByte tier)⟩, daemon)

/-- The payloads of a GET_MANY, key by key; the first failure or miss is the answer. -/
def collectMany (request : WireRequest) :
    List Text → List Bytes → UInt8 → Call (Halt WireResponse) (Daemon σ) (List Bytes × UInt8)
  | [], items, tier => return (items, tier)
  | key :: keys, items, tier => do
    let outcome ← Call.mapError
      (fun error => .failed (errResponse request.id Op.getMany ("get_many: ".toList ++ error)))
      (onStore (backend.getKv request.ns key))
    match outcome with
    | .miss => throw (.failed (missResponse request.id Op.getMany key))
    | .hit from_ payload =>
      let payload ← Call.mapError
        (Halt.map fun error =>
          errResponse request.id Op.getMany ("get_many large payload: ".toList ++ error))
        (onStore (resolveLargePayload backend request.ns payload))
      collectMany request keys (items ++ [payload])
        (match from_ with
          | .objectStore => 2
          | .foyer => tier)

def answerMany (request : WireRequest) (items : List Bytes) (tier : UInt8)
    (daemon : Daemon σ) : WireResponse × Daemon σ :=
  let batch := encodeBytesBatch items
  match onArena (writeArenaPayload batch tier) daemon with
  | (.ok (some slab), daemon) => (arenaResponse request.id Op.getMany slab, daemon)
  | (_, daemon) =>
    if fitsOneFrame batch.length then
      (⟨request.id, Status.ok, Op.getMany, batch, tierMessage tier⟩, daemon)
    else
      (⟨request.id, Status.tooLarge, Op.getMany, [],
        "get_many response ".toList ++ (natText batch.length ++
          " bytes requires WMBT_KV_DAEMON_SHM_ARENA_PATH or smaller batch".toList)⟩, daemon)

variable (display : WireCodecError → Text)

/-- An answer in any case, where nothing can panic. -/
def alwaysAnswers (result : WireResponse × Daemon σ) : Option WireResponse × Daemon σ :=
  (some result.1, result.2)

def dispatchGetMany (request : WireRequest) (daemon : Daemon σ) :
    Option WireResponse × Daemon σ :=
  match decodeKeyBatch request.payload with
  | .error error => (some (errResponse request.id Op.getMany (display error)), daemon)
  | .ok keys =>
    match collectMany backend request keys [] 1 daemon with
    | (.error (.failed response), daemon) => (some response, daemon)
    | (.error .crashed, daemon) => (none, daemon)
    | (.ok (items, tier), daemon) => alwaysAnswers (answerMany request items tier daemon)

def dispatchClear (request : WireRequest) (daemon : Daemon σ) : WireResponse × Daemon σ :=
  (okResponse request.id Op.clear [],
    { store := backend.clearFoyer daemon.store
      arena := daemon.arena.map fun arena => { arena with slabs := ∅ } })

def askStore {α : Type} (request : WireRequest) (what : Text) (call : Call Text σ α)
    (answer : α → WireResponse) (daemon : Daemon σ) : WireResponse × Daemon σ :=
  match onStore call daemon with
  | (.ok found, daemon) => (answer found, daemon)
  | (.error error, daemon) =>
    (errResponse request.id request.op (what ++ (": ".toList ++ error)), daemon)

/-- The answer to one request, or none where the worker that handles it panics. -/
def dispatch (request : WireRequest) (daemon : Daemon σ) : Option WireResponse × Daemon σ :=
  if request.op = Op.ping then alwaysAnswers (okResponse request.id Op.ping [], daemon)
  else if request.op = Op.put then dispatchPut backend request daemon
  else if request.op = Op.get then dispatchGet backend request daemon
  else if request.op = Op.getMany then dispatchGetMany backend display request daemon
  else if request.op = Op.existsKey then
    alwaysAnswers (askStore request "exists".toList (backend.existsKv request.ns request.key)
      (fun found => if found then okResponse request.id Op.existsKey []
        else missResponse request.id Op.existsKey []) daemon)
  else if request.op = Op.list then
    alwaysAnswers (askStore request "list".toList (backend.listKvKeys request.ns)
      (fun keys => ⟨request.id, Status.ok, Op.list, encodeKeyBatch keys, natText keys.length⟩)
      daemon)
  else if request.op = Op.stats then
    alwaysAnswers (okResponse request.id Op.stats (backend.stats daemon.store), daemon)
  else if request.op = Op.clear then alwaysAnswers (dispatchClear backend request daemon)
  else if request.op = Op.restore then
    alwaysAnswers (askStore request "restore".toList (backend.restoreFromS3 request.ns)
      (fun count => okResponse request.id Op.restore (natText count)) daemon)
  else if request.op = Op.close then alwaysAnswers (okResponse request.id Op.close [], daemon)
  else if request.op = Op.lookupBlockPrefix ∨ request.op = Op.getKvBlocksBatch ∨
      request.op = Op.putKvBlocksBatch then
    alwaysAnswers ((backend.blockRequest request daemon.store).1,
      { daemon with store := (backend.blockRequest request daemon.store).2 })
  else
    alwaysAnswers (errResponse request.id request.op
      ("unknown op ".toList ++ natText request.op.toNat), daemon)

end Store

/-- What a store holds, by namespace and key. -/
abbrev Contents := Text → Text → Option Bytes

def Contents.store (contents : Contents) (ns key : Text) (payload : Bytes) : Contents :=
  fun otherNs otherKey =>
    if otherNs = ns ∧ otherKey = key then some payload else contents otherNs otherKey

def Contents.chunks (contents : Contents) (ns id : Text) : Nat → Nat → Bytes → Option Bytes
  | 0, _, out => some out
  | left + 1, index, out =>
    (contents ns (largeChunkKey id index)).bind fun chunk =>
      contents.chunks ns id left (index + 1) (out ++ chunk)

/-- The payload that a manifest stands for, if a vector can hold it. -/
def Contents.assemble (contents : Contents) (ns : Text) (manifest : LargeManifest) :
    Option Bytes :=
  if maxVecBytes < manifest.totalLen then none
  else (contents.chunks ns manifest.id manifest.chunkCount 0 []).filter
    (·.length = manifest.totalLen)

def Contents.resolve (contents : Contents) (ns : Text) (value : Bytes) : Option Bytes :=
  match parseLargeManifest value with
  | none => some value
  | some manifest => contents.assemble ns manifest

def Contents.payloadAt (contents : Contents) (ns key : Text) : Option Bytes :=
  (contents ns key).bind (contents.resolve ns)

def GetOutcome.payload? : GetOutcome → Option Bytes
  | .hit _ payload => some payload
  | .miss => none

structure KvBackend.Exact (backend : KvBackend σ) (contents : σ → Contents) : Prop where
  put_ok : ∀ ns key payload store, (backend.putKv ns key payload store).1 = .ok () →
    contents (backend.putKv ns key payload store).2 = (contents store).store ns key payload
  put_error : ∀ ns key payload store error, (backend.putKv ns key payload store).1 = .error error →
    contents (backend.putKv ns key payload store).2 = contents store
  get_ok : ∀ ns key store, ∃ outcome, (backend.getKv ns key store).1 = .ok outcome ∧
    outcome.payload? = contents store ns key
  get_kept : ∀ ns key store, contents (backend.getKv ns key store).2 = contents store
  clear_kept : ∀ store, contents (backend.clearFoyer store) = contents store

end WombatKV
