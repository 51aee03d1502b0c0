import WombatKV.Daemon.ArenaRuns
import WombatKV.Daemon.StreamClients

/-! One daemon reached through shared memory, TCP and HTTP. -/

namespace WombatKV

open Call

inductive StreamGetOutcome
  | hit (payload : Bytes)
  | miss
  deriving DecidableEq, Repr

structure StreamEnd where
  socket : Socket
  nextId : UInt64
  isOpen : Bool

structure StreamSession (σ : Type) extends StreamEnd where
  daemon : Daemon σ

/-- A handler as the shards see it, on a request that its worker answers. -/
def whenAnswered {σ : Type} (handler : WireRequest → Daemon σ → Option WireResponse × Daemon σ)
    (request : WireRequest) (daemon : Daemon σ) : WireResponse × Daemon σ :=
  ((handler request daemon).1.getD (errResponse request.id request.op []),
    (handler request daemon).2)

structure StreamTransport (ε σ : Type) where
  handler : WireRequest → Daemon σ → Option WireResponse × Daemon σ
  roundtrip : WireRequest → Call ε (Link (Daemon σ)) WireResponse
  limit : Nat
  connectionLost : ε
  status : UInt8 → Text → ε
  refusal : ε → Option (UInt8 × Text)
  refusal_status : ∀ code message, refusal (status code message) = some (code, message)

namespace StreamTransport

variable {ε σ : Type} (transport : StreamTransport ε σ) (requests : Archive WireRequest)

def call (op : UInt8) (ns key : Text) (payload : Bytes) :
    Call ε (StreamSession σ) WireResponse := do
  let session ← get
  let request : WireRequest := ⟨session.nextId, op, ns, key, payload⟩
  let numbered := { session with nextId := session.nextId + 1 }
  set numbered
  let length := (requests.toBytes request).length
  if length < 2 ^ 32 ∧ (¬ session.isOpen ∨ transport.limit < length) then
    set { numbered with isOpen := false }
    throw transport.connectionLost
  else
    match transport.handler request session.daemon with
    | (none, daemon) =>
      -- The worker drops its reply channel, and the shard its connection.
      set { numbered with daemon, isOpen := false }
      throw transport.connectionLost
    | (some _, _) =>
      on (fun session => ⟨session.socket, session.daemon, []⟩)
        (fun link session => { session with socket := link.socket, daemon := link.server })
        (transport.roundtrip request)

def putKv (ns key : Text) (payload : Bytes) : Call ε (StreamSession σ) Unit := do
  let response ← transport.call requests Op.put ns key payload
  if response.status = Status.ok then return ()
  else throw (transport.status response.status response.message)

def getKv (ns key : Text) : Call ε (StreamSession σ) StreamGetOutcome := do
  let response ← transport.call requests Op.get ns key []
  if response.status = Status.ok then return .hit response.payload
  else if response.status = Status.miss then return .miss
  else throw (transport.status response.status response.message)

end StreamTransport

section Clients

variable {σ : Type} (backend : KvBackend σ) (display : WireCodecError → Text)
  (crc32c : Bytes → UInt32) (requests : Archive WireRequest) (responses : Archive WireResponse)

namespace TcpKvClient

def transport : StreamTransport TcpClientError σ where
  handler := dispatch backend display
  roundtrip := tcpRoundtrip crc32c requests responses (whenAnswered (dispatch backend display))
  limit := maxFrameBytes
  connectionLost := .connectionLost
  status := .status
  refusal
    | .status code message => some (code, message)
    | _ => none
  refusal_status _ _ := rfl

def putKv : Text → Text → Bytes → Call TcpClientError (StreamSession σ) Unit :=
  (transport backend display crc32c requests responses).putKv requests

def getKv : Text → Text → Call TcpClientError (StreamSession σ) StreamGetOutcome :=
  (transport backend display crc32c requests responses).getKv requests

end TcpKvClient

namespace HttpKvClient

def transport : StreamTransport HttpClientError σ where
  handler := dispatch backend display
  roundtrip := httpRoundtrip crc32c requests responses (whenAnswered (dispatch backend display))
  limit := maxBodyBytes - wireEnvelopeBytes
  connectionLost := .connectionLost
  status := .status
  refusal
    | .status code message => some (code, message)
    | _ => none
  refusal_status _ _ := rfl

def putKv : Text → Text → Bytes → Call HttpClientError (StreamSession σ) Unit :=
  (transport backend display crc32c requests responses).putKv requests

def getKv : Text → Text → Call HttpClientError (StreamSession σ) StreamGetOutcome :=
  (transport backend display crc32c requests responses).getKv requests

end HttpKvClient

inductive Transport
  | shm
  | tcp
  | http
  deriving DecidableEq, Repr

structure Network (σ : Type) where
  daemon : Daemon σ
  shmNextId : UInt64
  arenaMapped : Bool
  shmDead : Bool
  tcp : StreamEnd
  http : StreamEnd

namespace Network

def shmSession (net : Network σ) : Session σ :=
  ⟨net.daemon, net.shmNextId, net.arenaMapped, net.shmDead⟩

def tcpSession (net : Network σ) : StreamSession σ := { net.tcp with daemon := net.daemon }

def httpSession (net : Network σ) : StreamSession σ := { net.http with daemon := net.daemon }

variable (blake3 : Bytes → BlockHash)

def putKv (via : Transport) (put : ClientPut) (net : Network σ) : Network σ :=
  match via with
  | .shm =>
    let after := (RemoteKvStoreClient.putKv backend display blake3 put.ns put.key put.payload
      net.shmSession).2
    { net with daemon := after.daemon, shmNextId := after.nextId, shmDead := after.dead }
  | .tcp =>
    let after := (TcpKvClient.putKv backend display crc32c requests responses put.ns put.key
      put.payload net.tcpSession).2
    { net with daemon := after.daemon, tcp := after.toStreamEnd }
  | .http =>
    let after := (HttpKvClient.putKv backend display crc32c requests responses put.ns put.key
      put.payload net.httpSession).2
    { net with daemon := after.daemon, http := after.toStreamEnd }

end Network

inductive ReadOutcome
  | hit (payload : Bytes)
  | miss
  | refused (status : UInt8) (message : Text)
  | failed
  deriving DecidableEq, Repr

def shmOutcome : Except RemoteError RemoteGetOutcome × Session σ → ReadOutcome
  | (.ok (.hit _ payload), after) => .hit (payload.read after)
  | (.ok .miss, _) => .miss
  | (.error (.daemonStatus status message), _) => .refused status message
  | (.error _, _) => .failed

def StreamTransport.outcome {ε : Type} (transport : StreamTransport ε σ) :
    Except ε StreamGetOutcome → ReadOutcome
  | .ok (.hit payload) => .hit payload
  | .ok .miss => .miss
  | .error error =>
    match transport.refusal error with
    | some (status, message) => .refused status message
    | none => .failed

def Network.getKv (via : Transport) (ns key : Text) (net : Network σ) : ReadOutcome :=
  match via with
  | .shm => shmOutcome (RemoteKvStoreClient.getKv backend display ns key net.shmSession)
  | .tcp => (TcpKvClient.transport backend display crc32c requests responses).outcome
      (TcpKvClient.getKv backend display crc32c requests responses ns key net.tcpSession).1
  | .http => (HttpKvClient.transport backend display crc32c requests responses).outcome
      (HttpKvClient.getKv backend display crc32c requests responses ns key net.httpSession).1

def networkSystem (blake3 : Bytes → BlockHash) (start : Network σ) :
    System (Network σ) (Transport × ClientPut) where
  start := start
  step net put :=
    some (net.putKv backend display crc32c requests responses blake3 put.1 put.2)

end Clients

section Conditions

variable {σ : Type} (backend : KvBackend σ) (requests : Archive WireRequest)
  (responses : Archive WireResponse)

def streamLimit : Nat := maxBodyBytes - wireEnvelopeBytes

structure KvBackend.OnlyReturns (held : σ → Bytes → Prop) : Prop where
  put : ∀ ns key payload store value, held (backend.putKv ns key payload store).2 value →
    held store value ∨ value = payload
  hit : ∀ ns key store tier payload,
    (backend.getKv ns key store).1 = .ok (.hit tier payload) → held store payload

structure RepliesFit : Prop where
  put_ok : ∀ id, (responses.toBytes (okResponse id Op.put [])).length ≤ streamLimit
  put_error : ∀ ns key payload store error,
    (backend.putKv ns key payload store).1 = .error error → ∀ id,
      (responses.toBytes (errResponse id Op.put ("put: ".toList ++ error))).length ≤ streamLimit
  get_miss : ∀ id, (responses.toBytes (missResponse id Op.get [])).length ≤ streamLimit
  get_error : ∀ ns key store error, (backend.getKv ns key store).1 = .error error → ∀ id,
    (responses.toBytes (errResponse id Op.get ("get: ".toList ++ error))).length ≤ streamLimit

structure Carried (arena : Option ArenaShared) (payload : Bytes) : Prop where
  plain : parseLargeManifest payload = none
  inline : ∀ shared, arena = some shared →
    payload.length < shared.minBytes ∨ shared.writer.maxSlab < payload.length
  fits : ∀ id tier, (responses.toBytes ⟨id, Status.ok, Op.get, payload,
    tierMessage (tierByte tier)⟩).length ≤ streamLimit

structure CarriedPut (net : Network σ) (put : Transport × ClientPut) : Prop where
  carried : Carried responses net.daemon.arena put.2.payload
  whole : put.1 = .shm → fitsOneFrame put.2.payload.length
  sent : put.1 ≠ .shm → ∀ id,
    (requests.toBytes ⟨id, Op.put, put.2.ns, put.2.key, put.2.payload⟩).length ≤ streamLimit

structure Network.New (held : σ → Bytes → Prop) (net : Network σ) : Prop where
  stored : ∀ payload, ¬ held net.daemon.store payload
  slabs : ∀ arena, net.daemon.arena = some arena → arena.slabs = ∅
  shm : net.shmDead = false
  tcp : net.tcp.socket.incoming = [] ∧ net.tcp.isOpen
  http : net.http.socket.incoming = [] ∧ net.http.isOpen

end Conditions

end WombatKV
