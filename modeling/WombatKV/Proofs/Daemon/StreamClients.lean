import WombatKV.Proofs.Daemon.BufReader
import WombatKV.Proofs.Daemon.Envelope
import WombatKV.Proofs.Daemon.Wire

/-! When no call gets the response of another one. -/

namespace WombatKV

open Call List

variable {σ : Type} {crc32c : Bytes → UInt32} {requests : Archive WireRequest}
  {responses : Archive WireResponse} {serve : WireRequest → σ → WireResponse × σ}

section Calls

variable {link : Link σ} {request : WireRequest}

def Link.answered (serve : WireRequest → σ → WireResponse × σ) (request : WireRequest)
    (arriving : Nat → Nat) (link : Link σ) : Link σ :=
  ⟨⟨[], arriving⟩, (serve request link.server).2,
    link.served ++ [(request, (serve request link.server).1)]⟩

theorem readStream_front {front rest : Bytes} (shape : link.socket.incoming = front ++ rest) :
    readStream front.length link =
      (.ok front, { link with socket := { link.socket with incoming := rest } }) := by
  rw [readStream, get_bind_apply, shape, readExact_append rfl]
  rfl

theorem readTcpResponse_reads {response : WireResponse} {rest : Bytes}
    (fits : (responses.toBytes response).length ≤ maxFrameBytes)
    (shape : link.socket.incoming = tcpFrame crc32c responses response ++ rest) :
    readTcpResponse crc32c responses link =
      (.ok response, { link with socket := { link.socket with incoming := rest } }) := by
  have small : (responses.toBytes response).length < 2 ^ 32 := lt_of_le_of_lt fits (by decide)
  set header := headerFor crc32c (responses.toBytes response) with headed
  have width : header.bytes.length = wireEnvelopeBytes := EnvelopeHeader.bytes_length _
  have length : header.len.toNat = (responses.toBytes response).length := headerFor_len crc32c small
  have first := @readStream_front σ link header.bytes (responses.toBytes response ++ rest)
    (by rw [shape, tcpFrame, envelopeOf, append_assoc])
  rw [width] at first
  rw [readTcpResponse, bind_ok first, (decodeEnvelopeHeader_eq_ok width header).mpr rfl]
  simp only [length, if_neg (not_lt.mpr fits)]
  rw [bind_ok (readStream_front rfl),
    (verifyEnvelopeCrc_eq_ok crc32c).mpr ⟨small, headed⟩, responses.fromBytes_toBytes]
  rfl

theorem readTcpResponse_tooLarge {response : WireResponse} {rest : Bytes}
    (large : maxFrameBytes < (responses.toBytes response).length)
    (small : (responses.toBytes response).length < 2 ^ 32)
    (shape : link.socket.incoming = tcpFrame crc32c responses response ++ rest) :
    readTcpResponse crc32c responses link =
      (.error (.frameTooLarge (responses.toBytes response).length),
        { link with socket := { link.socket with incoming := responses.toBytes response ++ rest } })
      := by
  set header := headerFor crc32c (responses.toBytes response) with headed
  have width : header.bytes.length = wireEnvelopeBytes := EnvelopeHeader.bytes_length _
  have length : header.len.toNat = (responses.toBytes response).length := headerFor_len crc32c small
  have first := @readStream_front σ link header.bytes (responses.toBytes response ++ rest)
    (by rw [shape, tcpFrame, envelopeOf, append_assoc])
  rw [width] at first
  rw [readTcpResponse, bind_ok first, (decodeEnvelopeHeader_eq_ok width header).mpr rfl]
  simp only [length, if_pos large]
  rfl

theorem tcpRoundtrip_sent (small : (requests.toBytes request).length < 2 ^ 32) :
    tcpRoundtrip crc32c requests responses serve request link =
      readTcpResponse crc32c responses (link.post serve (tcpFrame crc32c responses) request) := by
  rw [tcpRoundtrip, encodeEnvelope, if_pos small]
  rfl

variable (empty : link.socket.incoming = [])

include empty

theorem tcpRoundtrip_answered (small : (requests.toBytes request).length < 2 ^ 32)
    (fits : (responses.toBytes (serve request link.server).1).length ≤ maxFrameBytes) :
    ∃ arriving, tcpRoundtrip crc32c requests responses serve request link =
      (.ok (serve request link.server).1, link.answered serve request arriving) := by
  have shape : (link.post serve (tcpFrame crc32c responses) request).socket.incoming =
      tcpFrame crc32c responses (serve request link.server).1 ++ [] := by
    rw [Link.post, empty]
    simp
  refine ⟨link.socket.arriving, ?_⟩
  rw [tcpRoundtrip_sent small, readTcpResponse_reads fits shape]
  rfl

theorem httpRoundtrip_answered (small : (requests.toBytes request).length < 2 ^ 32)
    (fits : (responses.toBytes (serve request link.server).1).length + wireEnvelopeBytes ≤
      maxBodyBytes) :
    ∃ arriving, httpRoundtrip crc32c requests responses serve request link =
      (.ok (serve request link.server).1, link.answered serve request arriving) := by
  set response := (serve request link.server).1 with produced
  set wire := envelopeOf crc32c (responses.toBytes response) with enveloped
  have short : (responses.toBytes response).length < 2 ^ 32 :=
    lt_of_le_of_lt ((Nat.le_add_right _ _).trans fits) (by decide)
  have length : wire.length ≤ maxBodyBytes := by
    rw [enveloped, envelopeOf, length_append, EnvelopeHeader.bytes_length, Nat.add_comm]
    exact fits
  have opened : decodeEnvelope crc32c wire = .ok (responses.toBytes response) :=
    (decodeEnvelope_eq_ok crc32c).mpr (if_pos short)
  set sent := link.post serve (httpFrame crc32c responses) request with posted
  have shape : (⟨[], sent.socket⟩ : BufReader).unread =
      utf8 (responseHead 200 "OK".toList contentType wire.length true) ++ (wire ++ []) := by
    show sent.socket.incoming = _
    rw [posted, Link.post, empty, append_nil]
    rfl
  obtain ⟨reader, read, left⟩ := readHttpResponse_reads length shape
  have drained : reader.socket = ⟨[], reader.socket.arriving⟩ := by
    rw [← (append_eq_nil_iff.mp left).2]
  have answered : on (fun link : Link σ => (⟨[], link.socket⟩ : BufReader))
      (fun reader link => { link with socket := reader.socket }) readHttpResponse sent =
      (.ok (200, wire), { sent with socket := reader.socket }) := by
    rw [on_apply, read]
  refine ⟨reader.socket.arriving, ?_⟩
  rw [httpRoundtrip, encodeEnvelope, if_pos small]
  dsimp only
  rw [modify_bind_apply, bind_ok answered]
  simp only [ne_eq, not_true_eq_false, if_false, opened, responses.fromBytes_toBytes]
  rw [drained]
  rfl

omit empty

theorem tcpRoundtrip_unsent (large : ¬ (requests.toBytes request).length < 2 ^ 32) :
    tcpRoundtrip crc32c requests responses serve request link =
      (.error .requestTooLarge, link) := by
  rw [tcpRoundtrip, encodeEnvelope, if_neg large]
  rfl

theorem httpRoundtrip_unsent (large : ¬ (requests.toBytes request).length < 2 ^ 32) :
    httpRoundtrip crc32c requests responses serve request link =
      (.error .requestTooLarge, link) := by
  rw [httpRoundtrip, encodeEnvelope, if_neg large]
  rfl

end Calls

structure Matched {ε : Type} (run : ClientRun ε σ) : Prop where
  empty : run.link.socket.incoming = []
  own : ∀ exchange ∈ run.history, ∀ response, exchange.answer = .ok response →
    exchange.produced = [response]

theorem reachable_matched {ε : Type} {roundtrip : WireRequest → Call ε (Link σ) WireResponse}
    {allowed : ClientRun ε σ → WireRequest → Prop} {start : Link σ}
    (unused : start.socket.incoming = [])
    (matched : ∀ run request, allowed run request → run.link.socket.incoming = [] →
      (∃ error, roundtrip request run.link = (.error error, run.link)) ∨
        ∃ arriving, roundtrip request run.link = (.ok (serve request run.link.server).1,
          run.link.answered serve request arriving)) {run : ClientRun ε σ}
    (reached : (clientSystem roundtrip start).Reachable allowed run) : Matched run := by
  refine reached.invariant ⟨unused, by simp [clientSystem]⟩ ?_
  rintro before request after ⟨empty, own⟩ meets made
  cases made
  have grown (produced : List WireResponse) (answer : Except ε WireResponse)
      (new : ∀ response, answer = .ok response → produced = [response]) :
      ∀ exchange ∈ before.history ++ [⟨request, produced, answer⟩], ∀ response,
        exchange.answer = .ok response → exchange.produced = [response] := by
    intro exchange member
    rcases mem_append.mp member with earlier | last
    · exact own exchange earlier
    · cases mem_singleton.mp last
      exact new
  rcases matched before request meets empty with ⟨error, failed⟩ | ⟨arriving, answered⟩
  · rw [failed]
    exact ⟨empty, grown _ _ fun response none => by cases none⟩
  · rw [answered]
    refine ⟨rfl, grown _ _ fun response same => ?_⟩
    cases same
    simp [Link.answered]

/-- No call over TCP or HTTP gets the response of another one. -/
theorem responses_are_matched (crc32c : Bytes → UInt32) (requests : Archive WireRequest)
    (responses : Archive WireResponse) (serve : WireRequest → σ → WireResponse × σ)
    (start : Link σ) (unused : start.socket.incoming = []) :
    (∀ run, (clientSystem (tcpRoundtrip crc32c requests responses serve) start).Reachable
        (ResponseFits responses serve maxFrameBytes) run →
      ∀ exchange ∈ run.history, ∀ response, exchange.answer = .ok response →
        exchange.produced = [response]) ∧
      ∀ run, (clientSystem (httpRoundtrip crc32c requests responses serve) start).Reachable
        (ResponseFits responses serve (maxBodyBytes - wireEnvelopeBytes)) run →
      ∀ exchange ∈ run.history, ∀ response, exchange.answer = .ok response →
        exchange.produced = [response] := by
  constructor
  · intro run reached
    refine (@reachable_matched σ serve _ _ _ _ unused ?_ _ reached).own
    intro run request fits empty
    by_cases small : (requests.toBytes request).length < 2 ^ 32
    · exact .inr (tcpRoundtrip_answered empty small fits)
    · exact .inl ⟨_, tcpRoundtrip_unsent small⟩
  · intro run reached
    refine (@reachable_matched σ serve _ _ _ _ unused ?_ _ reached).own
    intro run request fits empty
    by_cases small : (requests.toBytes request).length < 2 ^ 32
    · exact .inr (httpRoundtrip_answered empty small (Nat.add_le_of_le_sub (by decide) fits))
    · exact .inl ⟨_, httpRoundtrip_unsent small⟩

theorem clientSystem_step {ε : Type} {roundtrip : WireRequest → Call ε (Link σ) WireResponse}
    {start : Link σ} {run : ClientRun ε σ} {request : WireRequest} {answer : Except ε WireResponse}
    {after : Link σ} (called : roundtrip request run.link = (answer, after)) :
    (clientSystem roundtrip start).step run request = some ⟨after, run.history ++
      [⟨request, (after.served.drop run.link.served.length).map Prod.snd, answer⟩]⟩ := by
  simp only [clientSystem, called]

theorem leftover_is_answered {start : Link σ} (unused : start.socket.incoming = [])
    {one two : WireRequest} (smallOne : (requests.toBytes one).length < 2 ^ 32)
    (smallTwo : (requests.toBytes two).length < 2 ^ 32) {other : WireResponse} {rest : Bytes}
    (large : maxFrameBytes < (responses.toBytes (serve one start.server).1).length)
    (sendable : (responses.toBytes (serve one start.server).1).length < 2 ^ 32)
    (front : responses.toBytes (serve one start.server).1 = tcpFrame crc32c responses other ++ rest)
    (fits : (responses.toBytes other).length ≤ maxFrameBytes) :
    ∃ run, (clientSystem (tcpRoundtrip crc32c requests responses serve) start).Reachable
        (fun _ _ => True) run ∧
      ∃ exchange ∈ run.history, exchange.answer = .ok other ∧
        exchange.produced = [(serve two (serve one start.server).2).1] := by
  set sent := start.post serve (tcpFrame crc32c responses) one with posted
  have shape : sent.socket.incoming =
      tcpFrame crc32c responses (serve one start.server).1 ++ [] := by
    rw [posted, Link.post, unused]
    simp
  have failed := (tcpRoundtrip_sent smallOne).trans (readTcpResponse_tooLarge large sendable shape)
  rw [append_nil, front] at failed
  set left : Link σ :=
    { sent with socket := { sent.socket with incoming := tcpFrame crc32c responses other ++ rest } }
    with leftover
  have next : (left.post serve (tcpFrame crc32c responses) two).socket.incoming =
      tcpFrame crc32c responses other ++
        (rest ++ tcpFrame crc32c responses (serve two left.server).1) := by
    simp [Link.post, leftover]
  have answered := (tcpRoundtrip_sent smallTwo).trans (readTcpResponse_reads fits next)
  have once := @System.Reachable.step _ _
    (clientSystem (tcpRoundtrip crc32c requests responses serve) start) (fun _ _ => True) _ _ _
    .start trivial (clientSystem_step failed)
  have reached := once.step trivial (clientSystem_step answered)
  refine ⟨_, reached, _, mem_append_right _ (mem_singleton_self _), rfl, ?_⟩
  simp [Link.post, leftover, posted]

theorem threeCalls_reachable {ε : Type} {roundtrip : WireRequest → Call ε (Link σ) WireResponse}
    {allowed : ClientRun ε σ → WireRequest → Prop} {start : Link σ} {error : ε}
    {one two three : WireRequest} (unused : start.socket.incoming = [])
    (allows : ∀ run request, allowed run request)
    (answers : ∀ request ∈ [one, three], ∀ link : Link σ, link.socket.incoming = [] →
      ∃ arriving, roundtrip request link =
        (.ok (serve request link.server).1, link.answered serve request arriving))
    (refuses : ∀ link, roundtrip two link = (.error error, link)) :
    ∃ run, (clientSystem roundtrip start).Reachable allowed run ∧
      run.history.map Exchange.answer = [.ok (serve one start.server).1, .error error,
        .ok (serve three (serve one start.server).2).1] := by
  obtain ⟨arriving, first⟩ := answers one (by simp) start unused
  obtain ⟨arriving', third⟩ := answers three (by simp) (start.answered serve one arriving) rfl
  have reached := ((System.Reachable.start.step (allows _ one) (clientSystem_step first)).step
    (allows _ two) (clientSystem_step (refuses _))).step (allows _ three) (clientSystem_step third)
  exact ⟨_, reached, rfl⟩

/-- A server that numbers its answers. -/
def countingServe (request : WireRequest) (count : UInt8) : WireResponse × UInt8 :=
  (⟨request.id, Status.ok, request.op, [count], []⟩, count + 1)

theorem responses_are_matched_threeCalls :
    ∃ payload : Bytes, payload.length = 2 ^ 32 ∧
      (∃ run, (clientSystem (tcpRoundtrip (fun _ => 0) plainRequests plainResponses countingServe)
          ⟨⟨[], fun _ => 1⟩, 0, []⟩).Reachable
            (ResponseFits plainResponses countingServe maxFrameBytes) run ∧
        run.history.map Exchange.answer = [.ok ⟨1, Status.ok, Op.get, [0], []⟩,
          .error .requestTooLarge, .ok ⟨3, Status.ok, Op.get, [1], []⟩] ∧
        ∀ exchange ∈ run.history, ∀ response, exchange.answer = .ok response →
          exchange.produced = [response]) ∧
      ∃ run, (clientSystem (httpRoundtrip (fun _ => 0) plainRequests plainResponses countingServe)
          ⟨⟨[], fun _ => 1⟩, 0, []⟩).Reachable
            (ResponseFits plainResponses countingServe (maxBodyBytes - wireEnvelopeBytes)) run ∧
        run.history.map Exchange.answer = [.ok ⟨1, Status.ok, Op.get, [0], []⟩,
          .error .requestTooLarge, .ok ⟨3, Status.ok, Op.get, [1], []⟩] ∧
        ∀ exchange ∈ run.history, ∀ response, exchange.answer = .ok response →
          exchange.produced = [response] := by
  obtain ⟨payload, length⟩ : ∃ payload : Bytes, payload.length = 2 ^ 32 :=
    ⟨List.replicate (2 ^ 32) 0, length_replicate⟩
  refine ⟨payload, length, ?_⟩
  let one : WireRequest := ⟨1, Op.get, ['n'], ['k'], []⟩
  let two : WireRequest := ⟨2, Op.put, ['n'], ['k'], payload⟩
  let three : WireRequest := ⟨3, Op.get, ['n'], ['l'], []⟩
  have unsent : ¬ (plainRequests.toBytes two).length < 2 ^ 32 := by
    simp only [plainRequests, framePart, length_append, length_cons, two, length]
    omega
  have sent : ∀ request ∈ [one, three], (plainRequests.toBytes request).length < 2 ^ 32 := by
    simp only [forall_mem_cons]
    exact ⟨by decide, by decide, by simp⟩
  have fits (request : WireRequest) (count : UInt8) :
      (plainResponses.toBytes (countingServe request count).1).length = 27 := by
    rw [length_plainResponses]
    rfl
  obtain ⟨tcp, http⟩ := responses_are_matched (fun _ => 0) plainRequests plainResponses
    countingServe ⟨⟨[], fun _ => 1⟩, 0, []⟩ rfl
  obtain ⟨run, reached, answers⟩ := @threeCalls_reachable UInt8 countingServe _ _
    (ResponseFits plainResponses countingServe maxFrameBytes) ⟨⟨[], fun _ => 1⟩, 0, []⟩ _ one two
    three rfl (fun run request => (fits request _).trans_le (by decide))
    (fun request member link empty => tcpRoundtrip_answered empty (sent request member)
      ((fits request _).trans_le (by decide)))
    (fun link => tcpRoundtrip_unsent unsent)
  obtain ⟨run', reached', answers'⟩ := @threeCalls_reachable UInt8 countingServe _ _
    (ResponseFits plainResponses countingServe (maxBodyBytes - wireEnvelopeBytes))
    ⟨⟨[], fun _ => 1⟩, 0, []⟩ _ one two three rfl
    (fun run request => (fits request _).trans_le (by decide))
    (fun request member link empty => httpRoundtrip_answered empty (sent request member)
      (by rw [fits]; decide))
    (fun link => httpRoundtrip_unsent unsent)
  exact ⟨⟨run, reached, answers, tcp run reached⟩, run', reached', answers', http run' reached'⟩

def smallServe (request : WireRequest) (_ : Unit) : WireResponse × Unit :=
  (⟨request.id, Status.ok, request.op, [66], []⟩, ())

def forged : WireResponse := ⟨7, Status.ok, Op.get, [65], []⟩

@[irreducible] def oversize : WireResponse :=
  ⟨1, Status.ok, Op.get, tcpFrame (fun _ => 0) plainResponses forged ++
    List.replicate maxFrameBytes 0, []⟩

def largeServe (request : WireRequest) (_ : Unit) : WireResponse × Unit :=
  if request.id = 1 then (oversize, ()) else smallServe request ()

theorem payload_start_plainResponses (response : WireResponse) :
    response.payload <+: plainResponses.toBytes response := by
  rw [← reverse_suffix]
  simp only [plainResponses, framePart, append_nil, ← append_assoc, reverse_reverse]
  exact (suffix_cons 0 _).trans (suffix_append _ _)

theorem length_tcpFrame_forged : (tcpFrame (fun _ => 0) plainResponses forged).length = 43 := by
  rw [tcpFrame, envelopeOf, length_append, EnvelopeHeader.bytes_length, length_plainResponses]
  rfl

theorem length_oversize : (plainResponses.toBytes oversize).length = 2 * maxFrameBytes + 111 := by
  have silent : oversize.message = [] := by rw [oversize]
  have payload : oversize.payload.length = 43 + maxFrameBytes := by
    rw [oversize, length_append, length_replicate, length_tcpFrame_forged]
  rw [length_plainResponses, payload, silent, utf8_nil, length_nil]
  omega

theorem forged_start_oversize :
    ∃ rest, plainResponses.toBytes oversize = tcpFrame (fun _ => 0) plainResponses forged ++ rest := by
  have front : tcpFrame (fun _ => 0) plainResponses forged <+: oversize.payload := by
    rw [oversize]
    exact prefix_append _ _
  obtain ⟨rest, shape⟩ := front.trans (payload_start_plainResponses oversize)
  exact ⟨rest, shape.symm⟩

theorem stale_bytes_are_answered :
    ∃ run, (clientSystem (tcpRoundtrip (fun _ => 0) plainRequests plainResponses largeServe)
        ⟨⟨[], fun _ => 1⟩, (), []⟩).Reachable (fun _ _ => True) run ∧
      (∀ request, (plainResponses.toBytes (largeServe request ()).1).length < 2 ^ 32) ∧
      ∃ exchange ∈ run.history, exchange.answer = .ok forged ∧
        exchange.produced = [⟨2, Status.ok, Op.get, [66], []⟩] := by
  have sendable : (plainResponses.toBytes oversize).length < 2 ^ 32 := by
    rw [length_oversize]
    decide
  have large : maxFrameBytes < (plainResponses.toBytes oversize).length := by
    rw [length_oversize]
    decide
  have fits : (plainResponses.toBytes forged).length ≤ maxFrameBytes := by
    rw [length_plainResponses]
    decide
  have first : largeServe ⟨1, Op.get, [], [], []⟩ () = (oversize, ()) := if_pos rfl
  have second : largeServe ⟨2, Op.get, [], [], []⟩ () = (⟨2, Status.ok, Op.get, [66], []⟩, ()) :=
    if_neg (by decide)
  obtain ⟨rest, front⟩ := forged_start_oversize
  obtain ⟨run, reached, exchange, member, answer, produced⟩ := @leftover_is_answered Unit
    (fun _ => 0) plainRequests plainResponses largeServe ⟨⟨[], fun _ => 1⟩, (), []⟩ rfl
    ⟨1, Op.get, [], [], []⟩ ⟨2, Op.get, [], [], []⟩ (by decide) (by decide) forged rest
    (by rw [first]; exact large) (by rw [first]; exact sendable) (by rw [first]; exact front) fits
  refine ⟨run, reached, fun request => ?_, exchange, member, answer, ?_⟩
  · rw [largeServe]
    split
    · exact sendable
    · rw [length_plainResponses]
      simp [smallServe]
  · rw [produced, first, second]

end WombatKV
