import WombatKV.Daemon.Dispatch

/-! The client on the shared-memory ring, and its runs of puts. -/

namespace WombatKV

section

open Call

/-- The errors of a call; `panicked` is a call whose own thread panics. -/
inductive RemoteError
  | transport (message : Text)
  | daemonStatus (status : UInt8) (message : Text)
  | timeout
  | backendUnavailable
  | panicked
  deriving DecidableEq, Repr

inductive ClientBytes
  | owned (bytes : Bytes)
  | mapped (offset : Nat) (len : UInt32)
  deriving DecidableEq, Repr

inductive RemoteGetOutcome
  | hit (tier : HitTier) (payload : ClientBytes)
  | miss
  deriving DecidableEq, Repr

/-- A client and its daemon; `dead` is set by the first call that times out. -/
structure Session (σ : Type) where
  daemon : Daemon σ
  nextId : UInt64
  arenaMapped : Bool
  dead : Bool := false

def ClientBytes.read {σ : Type} (session : Session σ) : ClientBytes → Bytes
  | .owned bytes => bytes
  | .mapped offset len =>
    (session.daemon.arena.bind (·.writer.readPayload offset len)).getD []

def parseTier (message : Text) : HitTier :=
  if (splitChar ';' message).any (· = "tier:1".toList) then .foyer else .objectStore

def parseArenaRef (message : Text) : Option (Nat × UInt32) := do
  let encoded ← (splitChar ';' message).findSome? (·.dropPrefix? "arena:".toList)
  match splitChar ':' encoded with
  | [offset, len] => return (← parseUsize offset, UInt32.ofNat (← parseUnsigned (2 ^ 32) len))
  | _ => none

def arenaRange (offset : Nat) (len : UInt32) : Text :=
  "offset=".toList ++ (natText offset ++ (" len=".toList ++ natText len.toNat))

section Client

variable {σ : Type} (backend : KvBackend σ) (display : WireCodecError → Text)

namespace RemoteKvStoreClient

def roundTrip (op : UInt8) (ns key : Text) (payload : Bytes) :
    Call RemoteError (Session σ) WireResponse := do
  let session ← get
  if session.dead then throw .backendUnavailable
  let request : WireRequest := ⟨session.nextId, op, ns, key, payload⟩
  match dispatch backend display request session.daemon with
  | (none, daemon) =>
    -- No worker is left to answer: the call waits for its timeout.
    set { session with daemon, nextId := session.nextId + 1, dead := true }
    throw .timeout
  | (some response, daemon) =>
    set { session with daemon, nextId := session.nextId + 1 }
    if response.id ≠ request.id then
      throw (.transport ("response id mismatch: req=".toList ++ (natText request.id.toNat ++
        (" resp=".toList ++ natText response.id.toNat))))
    else return response

def responseBytes (response : WireResponse) : Call RemoteError (Session σ) ClientBytes := do
  match parseArenaRef response.message with
  | none => return .owned response.payload
  | some (offset, len) =>
    let session ← get
    if ¬ session.arenaMapped then
      throw (.transport
        "daemon returned arena ref but WMBT_KV_DAEMON_SHM_ARENA_PATH is unset".toList)
    else
      match session.daemon.arena.bind (·.writer.readPayload offset len) with
      | some _ => return .mapped offset len
      | none => throw (.transport ("arena read ".toList ++ (arenaRange offset len ++
          (": arena read out of bounds: ".toList ++ (arenaRange offset len ++
            (" arena_size=".toList ++ natText (session.daemon.arena.elim 0 (·.writer.size))))))))

def putSmallKv (ns key : Text) (payload : Bytes) : Call RemoteError (Session σ) Unit := do
  let response ← roundTrip backend display Op.put ns key payload
  if response.status = Status.ok then return ()
  else throw (.daemonStatus response.status response.message)

def getSmallKv (ns key : Text) : Call RemoteError (Session σ) RemoteGetOutcome := do
  let response ← roundTrip backend display Op.get ns key []
  if response.status = Status.ok then
    return .hit (parseTier response.message) (← responseBytes response)
  else if response.status = Status.miss then return .miss
  else throw (.daemonStatus response.status response.message)

def putChunks (ns id : Text) (payload : Bytes) : Nat → Nat → Call RemoteError (Session σ) Unit
  | 0, _ => return ()
  | left + 1, index => do
    putSmallKv backend display ns (largeChunkKey id index) (payloadChunk payload index)
    putChunks ns id payload left (index + 1)

variable (blake3 : Bytes → BlockHash)

def manifestFor (ns key : Text) (payload : Bytes) : Text :=
  largeManifest (largePayloadId blake3 ns key payload) payload.length (chunkCount payload)

def putLargeKv (ns key : Text) (payload : Bytes) : Call RemoteError (Session σ) Unit := do
  putChunks backend display ns (largePayloadId blake3 ns key payload) payload
    (chunkCount payload) 0
  putSmallKv backend display ns key (utf8 (manifestFor blake3 ns key payload))

def putKv (ns key : Text) (payload : Bytes) : Call RemoteError (Session σ) Unit :=
  if fitsOneFrame payload.length then putSmallKv backend display ns key payload
  else putLargeKv backend display blake3 ns key payload

def getChunks (ns : Text) (manifest : LargeManifest) :
    Nat → Nat → Bytes → Call RemoteError (Session σ) Bytes
  | 0, _, out => return out
  | left + 1, index, out => do
    match ← getSmallKv backend display ns (largeChunkKey manifest.id index) with
    | .hit _ payload => getChunks ns manifest left (index + 1) (out ++ payload.read (← get))
    | .miss =>
      throw (.daemonStatus Status.miss ("missing large-payload chunk ".toList ++
        (natText index ++ (" for ".toList ++ manifest.id))))

def getLargeKv (ns : Text) (tier : HitTier) (manifest : LargeManifest) :
    Call RemoteError (Session σ) RemoteGetOutcome := do
  -- `Vec::with_capacity(manifest.total_len)` comes before the first chunk.
  if maxVecBytes < manifest.totalLen then throw .panicked
  let out ← getChunks backend display ns manifest manifest.chunkCount 0 []
  if out.length ≠ manifest.totalLen then
    throw (.transport ("large-payload length mismatch: expected ".toList ++
      (natText manifest.totalLen ++ (" got ".toList ++ natText out.length))))
  else return .hit tier (.owned out)

def getKv (ns key : Text) : Call RemoteError (Session σ) RemoteGetOutcome := do
  match ← getSmallKv backend display ns key with
  | .hit tier payload =>
    match parseLargeManifest (payload.read (← get)) with
    | some manifest => getLargeKv backend display ns tier manifest
    | none => return .hit tier payload
  | .miss => return .miss

end RemoteKvStoreClient

end Client

end

open Call RemoteKvStoreClient

structure ClientPut where
  ns : Text
  key : Text
  payload : Bytes
  deriving DecidableEq, Repr

def lastClientPut (puts : List ClientPut) : Contents :=
  puts.foldl (fun held put => held.store put.ns put.key put.payload) fun _ _ => none

def memoryBackend : KvBackend Contents where
  putKv ns key payload := modify (·.store ns key payload)
  getKv ns key := do
    match (← get) ns key with
    | some payload => return .hit .objectStore payload
    | none => return .miss
  existsKv ns key := do return ((← get) ns key).isSome
  listKvKeys _ := return []
  restoreFromS3 _ := return 0
  clearFoyer := id
  stats _ := []
  blockRequest request store := (errResponse request.id request.op [], store)

end WombatKV
