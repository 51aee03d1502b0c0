import WombatKV.Daemon.Transports
import WombatKV.Proofs.Daemon.RemoteClient
import WombatKV.Proofs.Daemon.StreamClients

/-! When the three clients read the same. -/

namespace WombatKV

open Call

variable {σ : Type} {backend : KvBackend σ} {display : WireCodecError → Text}
  {crc32c : Bytes → UInt32} {requests : Archive WireRequest} {responses : Archive WireResponse}
  {held : σ → Bytes → Prop}

theorem rememberArenaSlab_inline {arena : ArenaShared} {bytes : Bytes}
    (inline : bytes.length < arena.minBytes ∨ arena.writer.maxSlab < bytes.length)
    (ns key : Text) (tier : UInt8) :
    ∃ result, (∀ slab, result ≠ .ok (some slab)) ∧
      rememberArenaSlab ns key bytes tier arena = (result, arena) := by
  by_cases small : bytes.length < arena.minBytes
  · have skipped : writeArenaPayload bytes tier arena = (.ok none, arena) := by
      rw [writeArenaPayload, get_bind_apply, if_pos small]
      rfl
    exact ⟨.ok none, by simp, bind_ok skipped⟩
  · -- What is not too small has to be too large.
    have full : arena.writer.writePayload bytes = none := if_pos (inline.resolve_left small)
    have failed : ∃ error, writeArenaPayload bytes tier arena = (.error error, arena) := by
      rw [writeArenaPayload, get_bind_apply, if_neg small, full]
      exact ⟨_, rfl⟩
    obtain ⟨error, failed⟩ := failed
    exact ⟨.error error, by simp, bind_error failed⟩

theorem materializeLargePayload_carried {daemon : Daemon σ} {payload : Bytes}
    (carried : Carried responses daemon.arena payload) (ns key : Text) (tier : UInt8) :
    ∃ result, (∀ slab, result ≠ .ok (some slab)) ∧ result ≠ .error .crashed ∧
      materializeLargePayload backend ns key payload tier daemon = (result, daemon) := by
  obtain ⟨store, arena⟩ := daemon
  cases arena with
  | none =>
    exact ⟨.ok none, by simp, by simp, materializeLargePayload_plain rfl ns key payload tier⟩
  | some arena =>
    obtain ⟨result, none, same⟩ := rememberArenaSlab_inline (carried.inline arena rfl) ns key tier
    have made : materializeLargePayload backend ns key payload tier ⟨store, some arena⟩ =
        mapError Halt.failed (Daemon.onArena (rememberArenaSlab ns key payload tier))
          ⟨store, some arena⟩ := by
      rw [materializeLargePayload, get_bind_apply]
      simp only [carried.plain]
    simp only [made, mapError, Daemon.onArena, same]
    cases result with
    | error error => exact ⟨.error (.failed error), by simp, by simp, rfl⟩
    | ok slab? => exact ⟨.ok slab?, fun slab there => by cases there; exact none slab rfl,
        by simp, rfl⟩

theorem dispatchPut_carried (fit : RepliesFit backend responses) {daemon : Daemon σ}
    {request : WireRequest} (carried : Carried responses daemon.arena request.payload) :
    ∃ response, dispatchPut backend request daemon = (some response, { daemon with
        store := (backend.putKv request.ns request.key request.payload daemon.store).2 }) ∧
      response.id = request.id ∧ (responses.toBytes response).length ≤ streamLimit := by
  cases ran : backend.putKv request.ns request.key request.payload daemon.store with
  | mk answer store =>
    have answered : (backend.putKv request.ns request.key request.payload daemon.store).1 =
        answer := by rw [ran]
    cases answer with
    | error error => exact ⟨_, dispatchPut_error ran, rfl, fit.put_error _ _ _ _ _ answered _⟩
    | ok made =>
      obtain ⟨result, -, calm, same⟩ := @materializeLargePayload_carried σ backend responses
        { daemon with store := store } request.payload carried request.ns request.key 1
      have answers := (unlessCrashed_cases result (okResponse request.id Op.put [])).resolve_right
        fun crashed => calm crashed.2
      refine ⟨_, ?_, rfl, fit.put_ok request.id⟩
      rw [dispatchPut_ok ran, same, answers.1]

def WireResponse.outcome (response : WireResponse) : ReadOutcome :=
  if response.status = Status.ok then .hit response.payload
  else if response.status = Status.miss then .miss
  else .refused response.status response.message

def storeOutcome : Except Text GetOutcome → ReadOutcome
  | .ok (.hit _ payload) => .hit payload
  | .ok .miss => .miss
  | .error error => .refused Status.error ("get: ".toList ++ error)

structure Direct (responses : Archive WireResponse) (request : WireRequest)
    (response : WireResponse) (outcome : ReadOutcome) : Prop where
  id : response.id = request.id
  fits : (responses.toBytes response).length ≤ streamLimit
  plain : response.status = Status.ok →
    parseLargeManifest response.payload = none ∧ parseArenaRef response.message = none
  outcome : response.outcome = outcome

theorem dispatchGet_carried (returns : backend.OnlyReturns held)
    (fit : RepliesFit backend responses) {daemon : Daemon σ}
    (slabs : ∀ arena, daemon.arena = some arena → arena.slabs = ∅)
    (carried : ∀ payload, held daemon.store payload → Carried responses daemon.arena payload)
    (request : WireRequest) :
    ∃ response after, dispatchGet backend request daemon = (some response, after) ∧
      Direct responses request response
        (storeOutcome (backend.getKv request.ns request.key daemon.store).1) := by
  have absent : (daemon.arena.bind fun arena => lookupArenaSlab arena request.ns request.key) =
      none := by
    cases there : daemon.arena with
    | none => rfl
    | some arena => simp [lookupArenaSlab, slabs arena there]
  cases ran : backend.getKv request.ns request.key daemon.store with
  | mk answer store =>
    have answered : (backend.getKv request.ns request.key daemon.store).1 = answer := by rw [ran]
    rcases answer with error | ⟨tier, payload⟩ | _
    · have refused : dispatchGet backend request daemon =
          (some (errResponse request.id Op.get ("get: ".toList ++ error)),
            { daemon with store := store }) := by
        simp only [dispatchGet, absent, Daemon.onStore, on_apply, ran]
      have status : Status.error ≠ Status.ok := by decide
      exact ⟨_, _, refused, rfl, fit.get_error _ _ _ _ answered _, fun ok => absurd ok status, rfl⟩
    · have here := carried payload (returns.hit _ _ _ _ _ answered)
      obtain ⟨result, noSlab, calm, made⟩ := @materializeLargePayload_carried σ backend responses
        { daemon with store := store } payload here request.ns request.key (tierByte tier)
      have answers := (unlessCrashed_cases result (inlineResponse request tier payload)).resolve_right
        fun crashed => calm crashed.2
      have inline := dispatchGet_inline absent ran noSlab made
      rw [answers.1] at inline
      exact ⟨_, _, inline, rfl, here.fits _ _, fun _ => ⟨here.plain,
        RemoteKvStoreClient.parseArenaRef_tierMessage (tierByte tier)⟩, rfl⟩
    · have status : Status.miss ≠ Status.ok := by decide
      exact ⟨_, _, dispatchGet_miss absent ran, rfl, fit.get_miss _, fun ok => absurd ok status,
        rfl⟩

structure StreamTransport.GetsThrough {ε : Type} (transport : StreamTransport ε σ)
    (requests : Archive WireRequest) (responses : Archive WireResponse)
    (handler : WireRequest → Daemon σ → Option WireResponse × Daemon σ) : Prop where
  limit : streamLimit ≤ transport.limit
  handles : transport.handler = handler
  answered : ∀ request (link : Link (Daemon σ)), link.socket.incoming = [] →
    (requests.toBytes request).length ≤ streamLimit →
    (responses.toBytes (whenAnswered handler request link.server).1).length ≤ streamLimit →
    ∃ arriving, transport.roundtrip request link =
      (.ok (whenAnswered handler request link.server).1,
        link.answered (whenAnswered handler) request arriving)

theorem TcpKvClient.transport_getsThrough :
    (TcpKvClient.transport backend display crc32c requests responses).GetsThrough requests
      responses (dispatch backend display) where
  limit := show streamLimit ≤ maxFrameBytes by decide
  handles := rfl
  answered request link empty sent fits :=
    tcpRoundtrip_answered empty (lt_of_le_of_lt sent (by decide)) (fits.trans (by decide))

theorem HttpKvClient.transport_getsThrough :
    (HttpKvClient.transport backend display crc32c requests responses).GetsThrough requests
      responses (dispatch backend display) where
  limit := le_refl _
  handles := rfl
  answered request link empty sent fits :=
    httpRoundtrip_answered empty (lt_of_le_of_lt sent (by decide))
      (Nat.add_le_of_le_sub (by decide) fits)

namespace StreamTransport

variable {ε : Type} {transport : StreamTransport ε σ}
  (through : transport.GetsThrough requests responses (dispatch backend display))
  (session : StreamSession σ) (ready : session.socket.incoming = [] ∧ session.isOpen)
  {op : UInt8} {ns key : Text} {payload : Bytes} {response : WireResponse} {after : Daemon σ}
  (fits : (responses.toBytes response).length ≤ streamLimit)

include through ready fits

theorem call_answered
    (sent : (requests.toBytes ⟨session.nextId, op, ns, key, payload⟩).length ≤ streamLimit)
    (ran : dispatch backend display ⟨session.nextId, op, ns, key, payload⟩ session.daemon =
      (some response, after)) :
    ∃ arriving, transport.call requests op ns key payload session =
      (.ok response, ⟨⟨⟨[], arriving⟩, session.nextId + 1, session.isOpen⟩, after⟩) := by
  have serves : whenAnswered (dispatch backend display) ⟨session.nextId, op, ns, key, payload⟩
      session.daemon = (response, after) := by rw [whenAnswered, ran]; rfl
  obtain ⟨arriving, answered⟩ := through.answered ⟨session.nextId, op, ns, key, payload⟩
    ⟨session.socket, session.daemon, []⟩ ready.1 sent (by rw [serves]; exact fits)
  have served : ¬ ((requests.toBytes ⟨session.nextId, op, ns, key, payload⟩).length < 2 ^ 32 ∧
      (¬ session.isOpen ∨ transport.limit <
        (requests.toBytes ⟨session.nextId, op, ns, key, payload⟩).length)) := by
    rintro ⟨-, closed | long⟩
    · exact closed ready.2
    · exact absurd (sent.trans through.limit) (not_le.mpr long)
  refine ⟨arriving, ?_⟩
  rw [call, get_bind_apply, set_bind_apply, if_neg served]
  simp only [through.handles, ran, on_apply, answered, Link.answered, serves]

theorem putKv_answered
    (sent : (requests.toBytes ⟨session.nextId, Op.put, ns, key, payload⟩).length ≤ streamLimit)
    (ran : dispatch backend display ⟨session.nextId, Op.put, ns, key, payload⟩ session.daemon =
      (some response, after)) :
    (transport.putKv requests ns key payload session).2.daemon = after ∧
      (transport.putKv requests ns key payload session).2.socket.incoming = [] ∧
      (transport.putKv requests ns key payload session).2.isOpen := by
  obtain ⟨arriving, answered⟩ := call_answered through session ready fits sent ran
  rw [putKv, bind_ok answered]
  split
  · exact ⟨rfl, rfl, ready.2⟩
  · exact ⟨rfl, rfl, ready.2⟩

theorem getKv_answered
    (sent : (requests.toBytes ⟨session.nextId, Op.get, ns, key, []⟩).length ≤ streamLimit)
    (ran : dispatch backend display ⟨session.nextId, Op.get, ns, key, []⟩ session.daemon =
      (some response, after)) :
    transport.outcome (transport.getKv requests ns key session).1 = response.outcome := by
  obtain ⟨arriving, answered⟩ := call_answered through session ready fits sent ran
  rw [getKv, bind_ok answered, WireResponse.outcome]
  split
  · rfl
  · split
    · rfl
    · simp [StreamTransport.outcome, transport.refusal_status]

end StreamTransport

namespace RemoteKvStoreClient

theorem putSmallKv_answered {ns key : Text} {payload : Bytes} {session : Session σ}
    {response : WireResponse} {after : Daemon σ} (alive : session.dead = false)
    (ran : dispatch backend display ⟨session.nextId, Op.put, ns, key, payload⟩ session.daemon =
      (some response, after)) (own : response.id = session.nextId) :
    (putSmallKv backend display ns key payload session).2 =
      { session with daemon := after, nextId := session.nextId + 1 } := by
  rw [putSmallKv, bind_ok (roundTrip_ok alive ran own)]
  split <;> rfl

theorem getKv_direct {ns key : Text} {session : Session σ} {outcome : ReadOutcome}
    {response : WireResponse} {after : Daemon σ} (alive : session.dead = false)
    (ran : dispatch backend display ⟨session.nextId, Op.get, ns, key, []⟩ session.daemon =
      (some response, after))
    (direct : Direct responses ⟨session.nextId, Op.get, ns, key, []⟩ response outcome) :
    shmOutcome (getKv backend display ns key session) = outcome := by
  obtain ⟨own, -, plain, said⟩ := direct
  have answered := roundTrip_ok alive ran own
  rw [← said, WireResponse.outcome]
  split
  · rename_i ok
    rw [getKv, bind_ok (getSmallKv_inline answered ok (plain ok).2)]
    simp only [get_bind_apply, ClientBytes.read, (plain ok).1]
    rfl
  · rename_i refused
    split
    · rename_i missed
      have found : getSmallKv backend display ns key session =
          (.ok .miss, { session with daemon := after, nextId := session.nextId + 1 }) := by
        rw [getSmallKv, bind_ok answered, if_neg refused, if_pos missed]
        rfl
      rw [getKv, bind_ok found]
      rfl
    · rename_i failed
      have found : getSmallKv backend display ns key session =
          (.error (.daemonStatus response.status response.message),
            { session with daemon := after, nextId := session.nextId + 1 }) := by
        rw [getSmallKv, bind_ok answered, if_neg refused, if_neg failed]
        rfl
      rw [getKv, bind_error found]
      rfl

theorem responseBytes_referred {response : WireResponse} {session : Session σ} {offset : Nat}
    {len : UInt32} {bytes : Bytes} (ref : parseArenaRef response.message = some (offset, len))
    (mapped : session.arenaMapped)
    (there : session.daemon.arena.bind (·.writer.readPayload offset len) = some bytes) :
    responseBytes response session = (.ok (.mapped offset len), session) := by
  rw [responseBytes, ref]
  dsimp only
  rw [get_bind_apply, if_neg (not_not.mpr mapped), there]
  rfl

theorem getKv_referred {ns key : Text} {session : Session σ} {after : Daemon σ} {slab : ArenaSlab}
    {bytes : Bytes} (alive : session.dead = false) (mapped : session.arenaMapped)
    (word : slab.offset < wordLimit)
    (ran : dispatch backend display ⟨session.nextId, Op.get, ns, key, []⟩ session.daemon =
      (some (arenaResponse session.nextId Op.get slab), after))
    (there : after.arena.bind (·.writer.readPayload slab.offset slab.len) = some bytes)
    (plain : parseLargeManifest bytes = none) :
    shmOutcome (getKv backend display ns key session) = .hit bytes := by
  set left : Session σ := { session with daemon := after, nextId := session.nextId + 1 } with leaves
  have referred := @responseBytes_referred σ (arenaResponse session.nextId Op.get slab) left _ _ _
    (parseArenaRef_arenaResponse _ _ word) mapped there
  have found : ∃ tier, getSmallKv backend display ns key session =
      (.ok (.hit tier (.mapped slab.offset slab.len)), left) := by
    have ok : (arenaResponse session.nextId Op.get slab).status = Status.ok := rfl
    rw [getSmallKv, bind_ok (roundTrip_ok alive ran rfl), if_pos ok, bind_ok referred]
    exact ⟨_, rfl⟩
  obtain ⟨tier, found⟩ := found
  have read : ClientBytes.read left (.mapped slab.offset slab.len) = bytes := by
    rw [ClientBytes.read, leaves, there, Option.getD_some]
  rw [getKv, bind_ok found]
  simp only [get_bind_apply, read, plain]
  exact congrArg ReadOutcome.hit read

end RemoteKvStoreClient

structure Network.Plain (responses : Archive WireResponse) (held : σ → Bytes → Prop)
    (net : Network σ) : Prop where
  carried : ∀ payload, held net.daemon.store payload → Carried responses net.daemon.arena payload
  slabs : ∀ arena, net.daemon.arena = some arena → arena.slabs = ∅
  shm : net.shmDead = false
  tcp : net.tcp.socket.incoming = [] ∧ net.tcp.isOpen
  http : net.http.socket.incoming = [] ∧ net.http.isOpen

section Streams

variable {net : Network σ} {ns key : Text} {response : WireResponse} {after : Daemon σ}
  (fits : (responses.toBytes response).length ≤ streamLimit)

include fits

theorem Network.getKv_tcp (ready : net.tcp.socket.incoming = [] ∧ net.tcp.isOpen)
    (sent : (requests.toBytes ⟨net.tcp.nextId, Op.get, ns, key, []⟩).length ≤ streamLimit)
    (ran : dispatch backend display ⟨net.tcp.nextId, Op.get, ns, key, []⟩ net.daemon =
      (some response, after)) :
    net.getKv backend display crc32c requests responses .tcp ns key = response.outcome :=
  StreamTransport.getKv_answered TcpKvClient.transport_getsThrough net.tcpSession ready fits sent
    ran

theorem Network.getKv_http (ready : net.http.socket.incoming = [] ∧ net.http.isOpen)
    (sent : (requests.toBytes ⟨net.http.nextId, Op.get, ns, key, []⟩).length ≤ streamLimit)
    (ran : dispatch backend display ⟨net.http.nextId, Op.get, ns, key, []⟩ net.daemon =
      (some response, after)) :
    net.getKv backend display crc32c requests responses .http ns key = response.outcome :=
  StreamTransport.getKv_answered HttpKvClient.transport_getsThrough net.httpSession ready fits sent
    ran

end Streams

section Runs

variable (returns : backend.OnlyReturns held) (fit : RepliesFit backend responses)

include returns fit

theorem Network.Plain.putKv {net : Network σ} (plain : net.Plain responses held)
    {blake3 : Bytes → BlockHash} {via : Transport} {put : ClientPut}
    (meets : CarriedPut requests responses net (via, put)) :
    (net.putKv backend display crc32c requests responses blake3 via put).Plain responses held := by
  have answer (id : UInt64) : ∃ response, dispatch backend display
      ⟨id, Op.put, put.ns, put.key, put.payload⟩ net.daemon = (some response, { net.daemon with
        store := (backend.putKv put.ns put.key put.payload net.daemon.store).2 }) ∧
      response.id = id ∧ (responses.toBytes response).length ≤ streamLimit := by
    rw [dispatch_put rfl]
    exact dispatchPut_carried fit meets.carried
  have stays {after : Daemon σ} (same : after = { net.daemon with
      store := (backend.putKv put.ns put.key put.payload net.daemon.store).2 }) :
      (∀ payload, held after.store payload → Carried responses after.arena payload) ∧
        ∀ arena, after.arena = some arena → arena.slabs = ∅ := by
    subst same
    refine ⟨fun payload there => ?_, plain.slabs⟩
    rcases returns.put _ _ _ _ _ there with before | rfl
    · exact plain.carried payload before
    · exact meets.carried
  cases via with
  | shm =>
    obtain ⟨response, ran, own, -⟩ := answer net.shmNextId
    have whole := @RemoteKvStoreClient.putSmallKv_answered σ backend display put.ns put.key
      put.payload net.shmSession response _ plain.shm ran own
    obtain ⟨carried, slabs⟩ := stays rfl
    rw [Network.putKv, RemoteKvStoreClient.putKv, if_pos (meets.whole rfl), whole]
    exact ⟨carried, slabs, plain.shm, plain.tcp, plain.http⟩
  | tcp =>
    have through := @TcpKvClient.transport_getsThrough σ backend display crc32c requests responses
    obtain ⟨response, ran, -, fits⟩ := answer net.tcp.nextId
    obtain ⟨same, ready⟩ := StreamTransport.putKv_answered through net.tcpSession plain.tcp fits
      (meets.sent (by simp) _) ran
    obtain ⟨carried, slabs⟩ := stays same
    exact ⟨carried, slabs, plain.shm, ready, plain.http⟩
  | http =>
    have through := @HttpKvClient.transport_getsThrough σ backend display crc32c requests responses
    obtain ⟨response, ran, -, fits⟩ := answer net.http.nextId
    obtain ⟨same, ready⟩ := StreamTransport.putKv_answered through net.httpSession plain.http fits
      (meets.sent (by simp) _) ran
    obtain ⟨carried, slabs⟩ := stays same
    exact ⟨carried, slabs, plain.shm, plain.tcp, ready⟩

theorem Network.Plain.getKv {net : Network σ} (plain : net.Plain responses held) {ns key : Text}
    (sent : ∀ id, (requests.toBytes ⟨id, Op.get, ns, key, []⟩).length ≤ streamLimit)
    (via : Transport) :
    net.getKv backend display crc32c requests responses via ns key =
      storeOutcome (backend.getKv ns key net.daemon.store).1 := by
  have answer (id : UInt64) : ∃ response after, dispatch backend display
      ⟨id, Op.get, ns, key, []⟩ net.daemon = (some response, after) ∧ Direct responses
        ⟨id, Op.get, ns, key, []⟩ response (storeOutcome (backend.getKv ns key net.daemon.store).1) := by
    rw [dispatch_get rfl]
    exact dispatchGet_carried returns fit plain.slabs plain.carried ⟨id, Op.get, ns, key, []⟩
  cases via with
  | shm =>
    obtain ⟨response, after, ran, direct⟩ := answer net.shmNextId
    exact RemoteKvStoreClient.getKv_direct plain.shm ran direct
  | tcp =>
    obtain ⟨response, after, ran, direct⟩ := answer net.tcp.nextId
    rw [Network.getKv_tcp direct.fits plain.tcp (sent _) ran, direct.outcome]
  | http =>
    obtain ⟨response, after, ran, direct⟩ := answer net.http.nextId
    rw [Network.getKv_http direct.fits plain.http (sent _) ran, direct.outcome]

end Runs

/-- The three clients are interchangeable. -/
theorem transports_are_interchangeable (backend : KvBackend σ) (display : WireCodecError → Text)
    (crc32c : Bytes → UInt32) (requests : Archive WireRequest) (responses : Archive WireResponse)
    (blake3 : Bytes → BlockHash) (held : σ → Bytes → Prop) (returns : backend.OnlyReturns held)
    (fit : RepliesFit backend responses) (start : Network σ) (new : start.New held)
    (net : Network σ)
    (reached : (networkSystem backend display crc32c requests responses blake3 start).Reachable
      (CarriedPut requests responses) net) (ns key : Text)
    (sent : ∀ id, (requests.toBytes ⟨id, Op.get, ns, key, []⟩).length ≤ streamLimit) :
    ∃ outcome, outcome ≠ .failed ∧ ∀ via,
      net.getKv backend display crc32c requests responses via ns key = outcome := by
  have plain : net.Plain responses held := by
    refine reached.invariant ?_ ?_
    · exact ⟨fun payload there => absurd there (new.stored payload), new.slabs, new.shm, new.tcp,
        new.http⟩
    · rintro before ⟨via, put⟩ after plain meets made
      cases made
      exact plain.putKv returns fit meets
  refine ⟨_, ?_, plain.getKv returns fit sent⟩
  rcases (backend.getKv ns key net.daemon.store).1 with error | ⟨tier, payload⟩ | _
  all_goals simp [storeOutcome]

def newNetwork : Network Contents where
  daemon := newArenaDaemon (fun _ _ => none) 80 4
  shmNextId := 1
  arenaMapped := true
  shmDead := false
  tcp := ⟨⟨[], fun _ => 1⟩, 1, true⟩
  http := ⟨⟨[], fun _ => 1⟩, 1, true⟩

def afterPut (payload : Bytes) : Network Contents :=
  newNetwork.putKv memoryBackend (fun _ => []) (fun _ => 0) plainRequests plainResponses
    (fun _ => Vector.replicate 32 0) .shm ⟨['n'], ['k'], payload⟩

theorem afterPut_stored {payload : Bytes} (whole : fitsOneFrame payload.length)
    (plain : parseLargeManifest payload = none) :
    (afterPut payload).daemon = ⟨Contents.store (fun _ _ => none) ['n'] ['k'] payload,
      some (rememberArenaSlab ['n'] ['k'] payload 1 ⟨ArenaWriter.create 80, ∅, 4⟩).2⟩ ∧
      (afterPut payload).shmDead = false := by
  have stored := @RemoteKvStoreClient.putSmallKv_answered _ memoryBackend (fun _ => []) ['n'] ['k']
    payload newNetwork.shmSession _ _ rfl (dispatchPut_memory 1 ['n'] ['k'] plain _ _) rfl
  rw [afterPut, Network.putKv, RemoteKvStoreClient.putKv, if_pos whole, stored]
  exact ⟨rfl, rfl⟩

theorem afterPut_reachable {allowed : Network Contents → Transport × ClientPut → Prop}
    {payload : Bytes} (meets : allowed newNetwork (.shm, ⟨['n'], ['k'], payload⟩)) :
    (networkSystem memoryBackend (fun _ => []) (fun _ => 0) plainRequests plainResponses
      (fun _ => Vector.replicate 32 0) newNetwork).Reachable allowed (afterPut payload) :=
  .step .start meets rfl

theorem memoryBackend_onlyReturns :
    memoryBackend.OnlyReturns fun store payload => ∃ ns key, store ns key = some payload where
  put ns key payload store value := by
    rintro ⟨otherNs, otherKey, there⟩
    by_cases same : otherNs = ns ∧ otherKey = key
    · exact .inr (Option.some.inj ((if_pos same).symm.trans there)).symm
    · exact .inl ⟨otherNs, otherKey, (if_neg same).symm.trans there⟩
  hit ns key store tier payload found := by
    refine ⟨ns, key, ?_⟩
    cases there : store ns key with
    | none => simp [memoryBackend, get_bind_apply, there] at found
    | some held =>
      simp only [memoryBackend, get_bind_apply, there] at found
      cases found
      rfl

theorem memoryBackend_repliesFit : RepliesFit memoryBackend plainResponses where
  put_ok id := by
    rw [length_plainResponses]
    exact (by decide : 25 ≤ streamLimit)
  put_error ns key payload store error failed := by cases failed
  get_miss id := by
    rw [length_plainResponses]
    exact (by decide : 25 ≤ streamLimit)
  get_error ns key store error failed := by
    cases there : store ns key with
    | none => simp [memoryBackend, get_bind_apply, there] at failed
    | some held => simp [memoryBackend, get_bind_apply, there] at failed

theorem length_get_plainRequests (id : UInt64) :
    (plainRequests.toBytes ⟨id, Op.get, ['n'], ['k'], []⟩).length ≤ streamLimit := by
  have length : (plainRequests.toBytes ⟨id, Op.get, ['n'], ['k'], []⟩).length = 27 := by
    simp [plainRequests, framePart]
    decide
  rw [length]
  decide

theorem transports_are_interchangeable_smallPut :
    ∃ net : Network Contents, (networkSystem memoryBackend (fun _ => []) (fun _ => 0) plainRequests
        plainResponses (fun _ => Vector.replicate 32 0) newNetwork).Reachable
          (CarriedPut plainRequests plainResponses) net ∧
      net.daemon.store ['n'] ['k'] = some [7] ∧
      ∃ outcome, outcome ≠ .failed ∧ ∀ via, net.getKv memoryBackend (fun _ => []) (fun _ => 0)
        plainRequests plainResponses via ['n'] ['k'] = outcome := by
  have plain : parseLargeManifest [7] = none := parseLargeManifest_of_not_mem (by decide)
  have carried : Carried plainResponses newNetwork.daemon.arena [7] := by
    refine ⟨plain, ?_, fun id tier => ?_⟩
    · rintro shared ⟨⟩
      exact .inl (by decide)
    · have message : (utf8 (tierMessage (tierByte tier))).length = 6 := by cases tier <;> decide
      rw [length_plainResponses]
      show 2 * 1 + 2 * (utf8 (tierMessage (tierByte tier))).length + 25 ≤ streamLimit
      rw [message]
      decide
  have new : newNetwork.New fun store payload => ∃ ns key, store ns key = some payload := by
    refine ⟨?_, ?_, rfl, ⟨rfl, rfl⟩, rfl, rfl⟩
    · rintro payload ⟨ns, key, ⟨⟩⟩
    · rintro arena ⟨⟩
      rfl
  have meets : CarriedPut plainRequests plainResponses newNetwork (.shm, ⟨['n'], ['k'], [7]⟩) :=
    ⟨carried, fun _ => by decide, fun other => absurd rfl other⟩
  have reached := afterPut_reachable meets
  refine ⟨_, reached, ?_, transports_are_interchangeable _ _ _ _ _ _ _ memoryBackend_onlyReturns
    memoryBackend_repliesFit _ new _ reached ['n'] ['k'] length_get_plainRequests⟩
  rw [(afterPut_stored (by decide) plain).1]
  rfl

theorem slab_is_read_on_the_ring_alone :
    ∃ net : Network Contents, (networkSystem memoryBackend (fun _ => []) (fun _ => 0) plainRequests
        plainResponses (fun _ => Vector.replicate 32 0) newNetwork).Reachable
          (fun _ _ => True) net ∧
      net.getKv memoryBackend (fun _ => []) (fun _ => 0) plainRequests plainResponses .shm
        ['n'] ['k'] = .hit [1, 2, 3, 4] ∧
      net.getKv memoryBackend (fun _ => []) (fun _ => 0) plainRequests plainResponses .tcp
        ['n'] ['k'] = .hit [] ∧
      net.getKv memoryBackend (fun _ => []) (fun _ => 0) plainRequests plainResponses .http
        ['n'] ['k'] = .hit [] := by
  have plain : parseLargeManifest [1, 2, 3, 4] = none := parseLargeManifest_of_not_mem (by decide)
  obtain ⟨stored, alive⟩ := afterPut_stored (by decide) plain
  have found : lookupArenaSlab (rememberArenaSlab ['n'] ['k'] [1, 2, 3, 4] 1
      ⟨ArenaWriter.create 80, ∅, 4⟩).2 ['n'] ['k'] = some ⟨64, 4, 1⟩ := by decide +kernel
  have there : (rememberArenaSlab ['n'] ['k'] [1, 2, 3, 4] 1
      ⟨ArenaWriter.create 80, ∅, 4⟩).2.writer.readPayload 64 4 = some [1, 2, 3, 4] := by
    decide +kernel
  have answered (id : UInt64) : dispatch memoryBackend (fun _ => []) ⟨id, Op.get, ['n'], ['k'], []⟩
      (afterPut [1, 2, 3, 4]).daemon =
      (some (arenaResponse id Op.get ⟨64, 4, 1⟩), (afterPut [1, 2, 3, 4]).daemon) := by
    rw [dispatch_get rfl]
    refine dispatchGet_slab ?_
    rw [stored]
    exact found
  have message : (utf8 (arenaResponse 0 Op.get ⟨64, 4, 1⟩).message).length = 17 := by decide +kernel
  have fits (id : UInt64) :
      (plainResponses.toBytes (arenaResponse id Op.get ⟨64, 4, 1⟩)).length ≤ streamLimit := by
    rw [length_plainResponses]
    show 2 * 0 + 2 * (utf8 (arenaResponse 0 Op.get ⟨64, 4, 1⟩).message).length + 25 ≤ streamLimit
    rw [message]
    decide
  refine ⟨afterPut [1, 2, 3, 4], afterPut_reachable trivial, ?_, ?_, ?_⟩
  · refine RemoteKvStoreClient.getKv_referred alive rfl (by decide) (answered _) ?_ plain
    rw [stored]
    exact there
  · rw [Network.getKv_tcp (fits _) ⟨rfl, rfl⟩ (length_get_plainRequests _) (answered _)]
    rfl
  · rw [Network.getKv_http (fits _) ⟨rfl, rfl⟩ (length_get_plainRequests _) (answered _)]
    rfl

end WombatKV
