import WombatKV.Proofs.Daemon.Envelope
import WombatKV.Proofs.Daemon.HttpHead
import WombatKV.Proofs.Daemon.Wire

/-! A connection serves exactly the requests of its peer. -/

namespace WombatKV

open Call List

variable {σ : Type}

def HttpConnection.unread (line : HttpConnection σ) : Bytes := line.buf ++ line.socket.incoming

structure Pulled (before after : HttpConnection σ) : Prop where
  unread : after.unread = before.unread
  daemon : after.daemon = before.daemon
  events : after.events = before.events

namespace Pulled

variable {line middle after : HttpConnection σ}

theorem refl : Pulled line line := ⟨rfl, rfl, rfl⟩

theorem trans (first : Pulled line middle) (second : Pulled middle after) : Pulled line after :=
  ⟨second.unread.trans first.unread, second.daemon.trans first.daemon,
    second.events.trans first.events⟩

end Pulled

theorem readIntoBuf_cases {room : Nat} (positive : 0 < room) (line : HttpConnection σ) :
    ∃ after, Pulled line after ∧ after.buf.length ≤ line.buf.length + room ∧
      (line.socket.incoming = [] ∧ readIntoBuf room line = (.ok false, after) ∨
        readIntoBuf room line = (.ok true, after) ∧
          after.socket.incoming.length < line.socket.incoming.length) := by
  have pulled : Pulled line ⟨(line.socket.read room).2, line.buf ++ (line.socket.read room).1,
      line.daemon, line.events⟩ := by
    refine ⟨?_, rfl, rfl⟩
    rw [HttpConnection.unread, append_assoc, Socket.read_append]
    rfl
  have ran : readIntoBuf room line = (.ok (decide ((line.socket.read room).1 ≠ [])),
      ⟨(line.socket.read room).2, line.buf ++ (line.socket.read room).1, line.daemon,
        line.events⟩) := rfl
  have bound := @Socket.length_read_le room line.socket
  refine ⟨_, pulled, by simp only [length_append]; omega, ?_⟩
  by_cases ended : (line.socket.read room).1 = []
  · rw [ran, decide_eq_false (by simpa using ended)]
    exact .inl ⟨Socket.read_eq_nil positive ended, rfl⟩
  · rw [ran, decide_eq_true ended]
    exact .inr ⟨rfl, Socket.length_read_lt ended⟩

section Heads

variable {line : HttpConnection σ} {head rest : Bytes}

section

variable (found : splitAtFirst doubleCrlf line.unread = some (head, rest))

include found

theorem length_buf_lt
    (missing : findDoubleCrlf line.buf = none) : line.buf.length < head.length + 4 := by
  by_contra long
  have shape := eq_append_of_splitAtFirst found
  have width : (head ++ doubleCrlf).length = head.length + 4 := by
    rw [length_append, doubleCrlf_eq]
    rfl
  have whole : head ++ doubleCrlf <+: line.unread := by
    rw [shape, ← append_assoc]
    exact prefix_append _ _
  have start : head ++ doubleCrlf <+: line.buf :=
    prefix_of_prefix_length_le whole (prefix_append _ _) (by omega)
  have absent := splitAtFirst_eq_none.mp (Option.map_eq_none_iff.mp missing)
  exact absent ((suffix_append head doubleCrlf).isInfix.trans start.isInfix)

theorem buf_of_findDoubleCrlf {pos : Nat} (seen : findDoubleCrlf line.buf = some pos) :
    pos = head.length ∧ ∃ tail, line.buf = head ++ (doubleCrlf ++ tail) := by
  obtain ⟨⟨early, late⟩, inside, rfl⟩ := Option.map_eq_some_iff.mp seen
  have whole := splitAtFirst_append_right inside line.socket.incoming
  cases found.symm.trans whole
  exact ⟨rfl, late, eq_append_of_splitAtFirst inside⟩

theorem headTurns_finds {turns : Nat} (fits : head.length + 4 ≤ maxHeadBytes + 1)
    (missing : findDoubleCrlf line.buf = none) (enough : line.socket.incoming.length < turns) :
    ∃ after, headTurns turns line = (.ok (head.length + 4), after) ∧ Pulled line after ∧
      ∃ tail, after.buf = head ++ (doubleCrlf ++ tail) := by
  induction turns generalizing line with
  | zero => exact absurd enough (Nat.not_lt_zero _)
  | succ turns ih =>
    have short := length_buf_lt found missing
    rw [headTurns, get_bind_apply, if_neg (by omega)]
    obtain ⟨middle, pulled, -, ⟨ended, _⟩ | ⟨read, fewer⟩⟩ :=
      readIntoBuf_cases (by decide : 0 < readChunkBytes) line
    · -- The stream cannot have ended, since the end of the head is still to come.
      have same : line.unread = line.buf := by rw [HttpConnection.unread, ended, append_nil]
      rw [same] at found
      rw [findDoubleCrlf, found] at missing
      cases missing
    · rw [bind_ok read, if_pos rfl, get_bind_apply]
      rw [← pulled.unread] at found
      cases seen : findDoubleCrlf middle.buf with
      | some pos =>
        obtain ⟨rfl, tail⟩ := buf_of_findDoubleCrlf found seen
        exact ⟨middle, rfl, pulled, tail⟩
      | none =>
        obtain ⟨after, ran, further, tail⟩ := ih found seen (by omega)
        exact ⟨after, ran, pulled.trans further, tail⟩

omit found in
theorem nextBodyStart_ok {after : HttpConnection σ} {start : Nat}
    (read : readUntilDoubleCrlf line = (.ok start, after)) :
    nextBodyStart line = (.ok (some start), after) := by
  refine tryCatch_ok ?_
  rw [bind_ok read]
  rfl

theorem nextBodyStart_finds (fits : head.length + 4 ≤ maxHeadBytes + 1) :
    ∃ after, nextBodyStart line = (.ok (some (head.length + 4)), after) ∧ Pulled line after ∧
      ∃ tail, after.buf = head ++ (doubleCrlf ++ tail) := by
  have read : ∃ after, readUntilDoubleCrlf line = (.ok (head.length + 4), after) ∧
      Pulled line after ∧ ∃ tail, after.buf = head ++ (doubleCrlf ++ tail) := by
    rw [readUntilDoubleCrlf, get_bind_apply]
    cases seen : findDoubleCrlf line.buf with
    | some pos =>
      obtain ⟨rfl, tail⟩ := buf_of_findDoubleCrlf found seen
      exact ⟨line, rfl, .refl, tail⟩
    | none => exact headTurns_finds found fits seen (Nat.lt_succ_self _)
  obtain ⟨after, ran, pulled, tail⟩ := read
  exact ⟨after, nextBodyStart_ok ran, pulled, tail⟩

end

theorem nextBodyStart_ends (missing : splitAtFirst doubleCrlf line.unread = none)
    (short : line.unread.length ≤ maxHeadBytes) :
    ∃ after, nextBodyStart line = (.ok none, after) ∧ Pulled line after := by
  have absent : ∀ {line : HttpConnection σ}, splitAtFirst doubleCrlf line.unread = none →
      findDoubleCrlf line.buf = none := by
    intro line missing
    rw [splitAtFirst_eq_none] at missing
    rw [findDoubleCrlf, Option.map_eq_none_iff, splitAtFirst_eq_none]
    exact fun inside => missing (inside.trans (prefix_append _ _).isInfix)
  have turned : ∀ turns (line : HttpConnection σ), splitAtFirst doubleCrlf line.unread = none →
      line.unread.length ≤ maxHeadBytes → ∃ after, headTurns turns line =
        (.error (.unexpectedEof "peer closed before head terminator"), after) ∧
          Pulled line after := by
    intro turns
    induction turns with
    | zero => exact fun line _ _ => ⟨line, rfl, .refl⟩
    | succ turns ih =>
      intro line missing short
      have buffered : line.buf.length ≤ line.unread.length := by
        rw [HttpConnection.unread, length_append]
        omega
      rw [headTurns, get_bind_apply, if_neg (by omega)]
      obtain ⟨middle, pulled, -, ⟨ended, read⟩ | ⟨read, fewer⟩⟩ :=
        readIntoBuf_cases (by decide : 0 < readChunkBytes) line
      · rw [bind_ok read]
        exact ⟨middle, rfl, pulled⟩
      · rw [← pulled.unread] at missing short
        obtain ⟨after, ran, further⟩ := ih middle missing short
        rw [bind_ok read, if_pos rfl, get_bind_apply, absent missing]
        exact ⟨after, ran, pulled.trans further⟩
  obtain ⟨after, failed, pulled⟩ := turned (line.socket.incoming.length + 1) line missing short
  refine ⟨after, ?_, pulled⟩
  have read : readUntilDoubleCrlf line =
      (.error (.unexpectedEof "peer closed before head terminator"), after) := by
    rw [readUntilDoubleCrlf, get_bind_apply, absent missing]
    exact failed
  rw [nextBodyStart, tryCatch_error (bind_error read)]
  rfl

end Heads

theorem bodyTurns_spec {line : HttpConnection σ} {len turns : Nat}
    (enough : line.socket.incoming.length < turns) :
    ∃ after, bodyTurns len turns line = (if len ≤ line.unread.length then .ok ()
        else .error (.unexpectedEof "peer closed mid-body"), after) ∧ Pulled line after ∧
      after.buf.length ≤ max line.buf.length len ∧
      (len ≤ line.unread.length → len ≤ after.buf.length) := by
  induction turns generalizing line with
  | zero => exact absurd enough (Nat.not_lt_zero _)
  | succ turns ih =>
    rw [bodyTurns, get_bind_apply]
    have buffered : line.unread.length = line.buf.length + line.socket.incoming.length := by
      rw [HttpConnection.unread, length_append]
    by_cases whole : len ≤ line.buf.length
    · rw [if_pos whole, if_pos (by omega)]
      exact ⟨line, rfl, .refl, le_max_left _ _, fun _ => whole⟩
    · rw [if_neg whole]
      have room : 0 < min (len - line.buf.length) readChunkBytes :=
        lt_min (by omega) (by decide)
      obtain ⟨middle, pulled, bound, ⟨ended, read⟩ | ⟨read, fewer⟩⟩ := readIntoBuf_cases room line
      · have short : ¬ len ≤ line.unread.length := by
          rw [buffered, ended, length_nil]
          omega
        rw [bind_ok read, if_neg short]
        exact ⟨middle, rfl, pulled, by omega, fun long => absurd long short⟩
      · rw [bind_ok read, if_pos rfl]
        obtain ⟨after, ran, further, held, full⟩ := ih (by omega : middle.socket.incoming.length < _)
        rw [pulled.unread] at ran full
        exact ⟨after, ran, pulled.trans further, by omega, full⟩

section Requests

variable {crc32c : Bytes → UInt32} {requests : Archive WireRequest}
  {responses : Archive WireResponse} {dispatch : WireRequest → Call String σ WireResponse}
  {line : HttpConnection σ} {request : HttpRequest} {rest : Bytes} {turns : Nat}

theorem unread_drop {front tail : Bytes} (shape : line.buf = front ++ tail) {count : Nat}
    (width : front.length = count) :
    line.buf.drop count ++ line.socket.incoming = line.unread.drop count := by
  rw [HttpConnection.unread, shape, append_assoc, drop_left' width, drop_left' width]

theorem httpTurns_parses (shape : line.unread = request.headBytes ++ (doubleCrlf ++ rest))
    (fits : request.headBytes.length + 4 ≤ maxHeadBytes + 1)
    (small : request.body.length < wordLimit) :
    ∃ parsed : HttpConnection σ,
      httpTurns crc32c requests responses dispatch (turns + 1) line =
        (processHttpRoute crc32c requests responses dispatch
            ⟨request.method, request.target, request.contentLength, true⟩
            (request.headBytes.length + 4) >>= fun outcome =>
          match outcome with
          | .continueKeepAlive => httpTurns crc32c requests responses dispatch turns
          | .closeConnection => pure ()) parsed ∧
        parsed.daemon = line.daemon ∧
        parsed.events = line.events ++ [.parsed request.headBytes] ∧
        parsed.buf.drop (request.headBytes.length + 4) ++ parsed.socket.incoming = rest := by
  have found : splitAtFirst doubleCrlf line.unread = some (request.headBytes, rest) := by
    rw [shape]
    exact request.splitAtFirst_headBytes rest
  obtain ⟨after, started, pulled, tail, buffered⟩ := nextBodyStart_finds found fits
  have headBytes : after.buf.take (request.headBytes.length + 4 - 4) = request.headBytes := by
    rw [Nat.add_sub_cancel, buffered, take_left]
  refine ⟨{ after with events := after.events ++ [.parsed request.headBytes] }, ?_, pulled.daemon,
    ?_, ?_⟩
  · rw [httpTurns]
    refine bind_eq ?_ _
    rw [httpTurn, bind_ok started]
    simp only [get_bind_apply, headBytes]
    rw [note, modify_bind_apply, request.parseHttpHeadFromBuf_headBytes small]
    rfl
  · rw [← pulled.events]
  · have width : (request.headBytes ++ doubleCrlf).length = request.headBytes.length + 4 := by
      rw [length_append, doubleCrlf_eq]
      rfl
    have front : after.buf = request.headBytes ++ doubleCrlf ++ tail := by
      rw [buffered, append_assoc]
    show after.buf.drop _ ++ after.socket.incoming = rest
    rw [unread_drop front width, pulled.unread, shape, ← append_assoc, drop_left' width]

theorem httpTurns_other (shape : line.unread = request.headBytes ++ (doubleCrlf ++ rest))
    (fits : request.headBytes.length + 4 ≤ maxHeadBytes + 1)
    (small : request.body.length < wordLimit) (other : request.isRpc = false) :
    ∃ after bytes, httpTurns crc32c requests responses dispatch (turns + 1) line =
        httpTurns crc32c requests responses dispatch turns after ∧
      after.unread = rest ∧
      after.events = line.events ++ [.parsed request.headBytes, .responded bytes] := by
  obtain ⟨parsed, turned, _, events, left⟩ := httpTurns_parses shape fits small
  have routed : ∃ bytes, processHttpRoute crc32c requests responses dispatch
      ⟨request.method, request.target, request.contentLength, true⟩
      (request.headBytes.length + 4) parsed =
      (.ok .continueKeepAlive, { parsed with
        buf := parsed.buf.drop (request.headBytes.length + 4)
        events := parsed.events ++ [.responded bytes] }) := by
    rw [processHttpRoute]
    split
    · exact ⟨_, rfl⟩
    · have elsewhere : ¬ (request.method = "POST".toList ∧ request.target = rpcPath) := by
        simpa [HttpRequest.isRpc] using other
      rw [if_pos elsewhere]
      exact ⟨_, rfl⟩
  obtain ⟨bytes, routed⟩ := routed
  refine ⟨_, bytes, turned.trans (bind_ok routed), left, ?_⟩
  rw [events, append_assoc]
  rfl

variable (answers : ∀ request state, ∃ response after, dispatch request state = (.ok response, after) ∧ (responses.toBytes response).length < 2 ^ 32)

include answers

theorem httpTurns_rpc (shape : line.unread = request.bytes ++ rest)
    (serviceable : request.Serviceable crc32c requests) (rpc : request.isRpc = true) :
    ∃ after wire bytes, httpTurns crc32c requests responses dispatch (turns + 1) line =
        httpTurns crc32c requests responses dispatch turns after ∧
      request.wireRequest crc32c requests = some wire ∧ after.unread = rest ∧
      after.events =
        line.events ++ [.parsed request.headBytes, .dispatched wire, .responded bytes] := by
  have fits := serviceable.body_fits rpc
  have small : request.body.length < wordLimit := lt_of_le_of_lt fits (by decide)
  have behind : line.unread = request.headBytes ++ (doubleCrlf ++ (request.body ++ rest)) := by
    rw [shape, HttpRequest.bytes, append_assoc, append_assoc]
  obtain ⟨parsed, turned, _, events, left⟩ := httpTurns_parses behind serviceable.head_fits small
  obtain ⟨wire, wired⟩ := Option.isSome_iff_exists.mp (serviceable.decodes rpc)
  obtain ⟨body, decoded, read⟩ := Option.bind_eq_some_iff.mp wired
  set drained : HttpConnection σ :=
    { parsed with buf := parsed.buf.drop (request.headBytes.length + 4) } with atBody
  have unreadBody : drained.unread = request.body ++ rest := left
  have inside : request.body.length ≤ drained.unread.length := by
    rw [unreadBody, length_append]
    exact Nat.le_add_right _ _
  obtain ⟨full, filled, pulled, -, long⟩ := @bodyTurns_spec σ drained request.body.length
    (drained.socket.incoming.length + 1) (Nat.lt_succ_self _)
  rw [if_pos inside] at filled
  have front : full.buf.take request.body.length = request.body := by
    have whole := congrArg (List.take request.body.length) (pulled.unread.trans unreadBody)
    rw [HttpConnection.unread, take_append_of_le_length (long inside), take_left] at whole
    exact whole
  obtain ⟨response, daemon, answered, encodes⟩ := answers wire full.daemon
  have routed : ∃ bytes, processHttpRoute crc32c requests responses dispatch
      ⟨request.method, request.target, request.contentLength, true⟩
      (request.headBytes.length + 4) parsed =
      (.ok .continueKeepAlive, ⟨full.socket, full.buf.drop request.body.length, daemon,
        full.events ++ [.dispatched wire] ++ [.responded bytes]⟩) := by
    have posted : request.method = "POST".toList ∧ request.target = rpcPath := by
      simpa [HttpRequest.isRpc] using rpc
    have opened : decodeEnvelope crc32c request.body = .ok body := by
      cases result : decodeEnvelope crc32c request.body with
      | ok inner => simpa [result, Except.toOption] using decoded
      | error error => simp [result, Except.toOption] at decoded
    have served : dispatchAsync dispatch wire ⟨full.socket, full.buf.drop request.body.length,
        full.daemon, full.events ++ [.dispatched wire]⟩ = (.ok response, ⟨full.socket,
          full.buf.drop request.body.length, daemon, full.events ++ [.dispatched wire]⟩) := by
      rw [dispatchAsync, mapError, on_apply, answered]
    rw [processHttpRoute, if_neg (by simp [posted.1]), if_neg (not_not.mpr posted),
      serviceable.measured rpc]
    simp only [if_neg (not_lt.mpr fits)]
    refine ⟨utf8 (responseHead 200 "OK".toList contentType
      (envelopeOf crc32c (responses.toBytes response)).length true) ++
        envelopeOf crc32c (responses.toBytes response), ?_⟩
    rw [drain, modify_bind_apply]
    show processRpc crc32c requests responses dispatch request.body.length true drained = _
    rw [processRpc, get_bind_apply, bind_ok filled, get_bind_apply, front, opened]
    simp only [read]
    rw [drain, modify_bind_apply, note, modify_bind_apply, bind_ok served, encodeEnvelope,
      if_pos encodes]
    rfl
  obtain ⟨bytes, routed⟩ := routed
  refine ⟨_, wire, bytes, turned.trans (bind_ok routed), wired, ?_, ?_⟩
  · show full.buf.drop request.body.length ++ full.socket.incoming = rest
    rw [unread_drop (take_append_drop request.body.length full.buf).symm (by simp [front]),
      pulled.unread, unreadBody, drop_left]
  · show full.events ++ _ ++ _ = _
    rw [pulled.events, atBody]
    simp [events]

def HttpRequest.dispatches (crc32c : Bytes → UInt32) (requests : Archive WireRequest)
    (request : HttpRequest) : List WireRequest :=
  if request.isRpc then (request.wireRequest crc32c requests).toList else []

theorem httpTurns_serves (shape : line.unread = request.bytes ++ rest)
    (serviceable : request.Serviceable crc32c requests) :
    ∃ after bytes, httpTurns crc32c requests responses dispatch (turns + 1) line =
        httpTurns crc32c requests responses dispatch turns after ∧
      after.unread = rest ∧
      after.events = line.events ++ .parsed request.headBytes ::
        ((request.dispatches crc32c requests).map .dispatched ++ [.responded bytes]) := by
  cases rpc : request.isRpc with
  | true =>
    obtain ⟨after, wire, bytes, turned, wired, left, events⟩ :=
      httpTurns_rpc answers shape serviceable rpc
    refine ⟨after, bytes, turned, left, ?_⟩
    rw [events, HttpRequest.dispatches, if_pos rpc, wired]
    rfl
  | false =>
    have bodiless := serviceable.bodiless rpc
    have bare : line.unread = request.headBytes ++ (doubleCrlf ++ rest) := by
      rw [shape, HttpRequest.bytes, bodiless, append_nil, append_assoc]
    obtain ⟨after, bytes, turned, left, events⟩ :=
      httpTurns_other bare serviceable.head_fits (by simp [bodiless]) rpc
    refine ⟨after, bytes, turned, left, ?_⟩
    rw [events, HttpRequest.dispatches, if_neg (by simp [rpc])]
    rfl

omit answers in
theorem filterMap_events (head : Bytes) (wires : List WireRequest) (bytes : Bytes) :
    let events : List HttpEvent := .parsed head :: (wires.map .dispatched ++ [.responded bytes])
    events.filterMap HttpEvent.head? = [head] ∧ events.filterMap HttpEvent.request? = wires := by
  induction wires with
  | nil => exact ⟨rfl, rfl⟩
  | cons wire wires ih => exact ⟨ih.1, congrArg (wire :: ·) ih.2⟩

omit answers in
theorem length_le_length_flatMap_bytes (stream : List HttpRequest) :
    stream.length ≤ (stream.flatMap HttpRequest.bytes).length := by
  induction stream with
  | nil => exact le_rfl
  | cons request stream ih =>
    rw [flatMap_cons, length_append, HttpRequest.bytes, length_append,
      length_append, doubleCrlf_eq, length_cons]
    simp only [length_cons, length_nil]
    omega

omit answers in
theorem map_some_dispatches {stream : List HttpRequest}
    (serviceable : ∀ request ∈ stream, request.Serviceable crc32c requests) :
    (stream.flatMap (HttpRequest.dispatches crc32c requests)).map some =
      (stream.filter HttpRequest.isRpc).map (HttpRequest.wireRequest crc32c requests) := by
  induction stream with
  | nil => rfl
  | cons request stream ih =>
    have rest := ih fun other member => serviceable other (mem_cons_of_mem _ member)
    rw [flatMap_cons, map_append, rest]
    cases rpc : request.isRpc with
    | false => simp [HttpRequest.dispatches, rpc]
    | true =>
      obtain ⟨wire, wired⟩ := Option.isSome_iff_exists.mp
        ((serviceable request mem_cons_self).decodes rpc)
      simp [HttpRequest.dispatches, rpc, wired]

theorem httpTurns_run
    {stream : List HttpRequest} (shape : line.unread = stream.flatMap HttpRequest.bytes)
    (serviceable : ∀ request ∈ stream, request.Serviceable crc32c requests)
    (enough : stream.length ≤ turns) :
    ∃ after, httpTurns crc32c requests responses dispatch turns line = (.ok (), after) ∧
      after.events.filterMap HttpEvent.head? =
        line.events.filterMap HttpEvent.head? ++ stream.map HttpRequest.headBytes ∧
      after.events.filterMap HttpEvent.request? =
        line.events.filterMap HttpEvent.request? ++
          stream.flatMap (HttpRequest.dispatches crc32c requests) := by
  induction stream generalizing line turns with
  | nil =>
    cases turns with
    | zero => exact ⟨line, rfl, by simp, by simp⟩
    | succ turns =>
      obtain ⟨after, ended, pulled⟩ :=
        nextBodyStart_ends (by rw [shape]; decide) (by rw [shape]; exact Nat.zero_le _)
      refine ⟨after, ?_, by simp [pulled.events], by simp [pulled.events]⟩
      have turned : httpTurn crc32c requests responses dispatch line =
          (.ok .closeConnection, after) := by
        rw [httpTurn, bind_ok ended]
        rfl
      rw [httpTurns, bind_ok turned]
      rfl
  | cons request stream ih =>
    obtain ⟨turns, rfl⟩ := Nat.exists_eq_succ_of_ne_zero (Nat.pos_iff_ne_zero.mp
      (lt_of_lt_of_le (Nat.succ_pos _) enough))
    obtain ⟨middle, bytes, turned, left, events⟩ := httpTurns_serves answers shape
      (serviceable request mem_cons_self)
    obtain ⟨after, ran, heads, wires⟩ := ih left
      (fun other member => serviceable other (mem_cons_of_mem _ member))
      (Nat.le_of_succ_le_succ enough)
    obtain ⟨ownHead, ownWires⟩ := filterMap_events request.headBytes
      (request.dispatches crc32c requests) bytes
    refine ⟨after, turned.trans ran, ?_, ?_⟩
    · rw [heads, events, filterMap_append, ownHead, append_assoc]
      rfl
    · rw [wires, events, filterMap_append, ownWires, append_assoc]
      rfl

end Requests

/-- A stream of requests is treated as exactly those requests. -/
theorem http_requests_are_framed (crc32c : Bytes → UInt32) (requests : Archive WireRequest)
    (responses : Archive WireResponse) (dispatch : WireRequest → Call String σ WireResponse)
    (answers : ∀ request state, ∃ response after, dispatch request state = (.ok response, after) ∧
      (responses.toBytes response).length < 2 ^ 32) (stream : List HttpRequest)
    (serviceable : ∀ request ∈ stream, request.Serviceable crc32c requests) (arriving : Nat → Nat)
    (daemon : σ) :
    ∃ after, handleHttpConnection crc32c requests responses dispatch
        ⟨⟨stream.flatMap HttpRequest.bytes, arriving⟩, [], daemon, []⟩ = (.ok (), after) ∧
      after.events.filterMap HttpEvent.head? = stream.map HttpRequest.headBytes ∧
      (after.events.filterMap HttpEvent.request?).map some =
        (stream.filter HttpRequest.isRpc).map (HttpRequest.wireRequest crc32c requests) := by
  set line : HttpConnection σ := ⟨⟨stream.flatMap HttpRequest.bytes, arriving⟩, [], daemon, []⟩
    with begun
  have enough : stream.length ≤ line.buf.length + line.socket.incoming.length := by
    rw [begun, length_nil, Nat.zero_add]
    exact length_le_length_flatMap_bytes stream
  have whole : line.unread = stream.flatMap HttpRequest.bytes := rfl
  obtain ⟨after, ran, heads, wires⟩ := httpTurns_run answers whole serviceable enough
  refine ⟨after, ran, heads, ?_⟩
  rw [wires, begun, filterMap_nil, nil_append]
  exact map_some_dispatches serviceable

theorem posted_serviceable {crc32c : Bytes → UInt32} {requests : Archive WireRequest}
    {host : Text} (oneLine : ∀ char ∈ host, char ≠ '\r' ∧ char ≠ '\n') (wire : WireRequest)
    (fits : wireEnvelopeBytes + (requests.toBytes wire).length ≤ maxBodyBytes)
    (headFits : (HttpRequest.posted host oneLine
      (envelopeOf crc32c (requests.toBytes wire))).headBytes.length + 4 ≤ maxHeadBytes + 1) :
    (HttpRequest.posted host oneLine
        (envelopeOf crc32c (requests.toBytes wire))).wireRequest crc32c requests = some wire ∧
      (HttpRequest.posted host oneLine
        (envelopeOf crc32c (requests.toBytes wire))).Serviceable crc32c requests := by
  have small : (requests.toBytes wire).length < 2 ^ 32 :=
    lt_of_le_of_lt ((Nat.le_add_left _ _).trans fits) (by decide)
  have decoded : decodeEnvelope crc32c (envelopeOf crc32c (requests.toBytes wire)) =
      .ok (requests.toBytes wire) := (decodeEnvelope_eq_ok crc32c).mpr (if_pos small)
  have wired : (HttpRequest.posted host oneLine
      (envelopeOf crc32c (requests.toBytes wire))).wireRequest crc32c requests = some wire := by
    simp [HttpRequest.wireRequest, HttpRequest.posted, decoded, Except.toOption,
      requests.fromBytes_toBytes]
  have rpc : (HttpRequest.posted host oneLine
      (envelopeOf crc32c (requests.toBytes wire))).isRpc = true := decide_eq_true ⟨rfl, rfl⟩
  refine ⟨wired, headFits, fun other => absurd other (by simp [rpc]), fun _ => ?_, fun _ => ?_,
    fun _ => by rw [wired]; rfl⟩
  · rw [HttpRequest.contentLength, if_pos]
    refine any_eq_true.mpr ⟨HttpRequest.lengthField
      (envelopeOf crc32c (requests.toBytes wire)).length, ?_, HttpRequest.lengthField_named _⟩
    simp [HttpRequest.posted, HttpRequest.clientFields]
  · simpa [HttpRequest.posted, envelopeOf] using fits

def echoing (request : WireRequest) : Call String Unit WireResponse :=
  pure ⟨request.id, Status.ok, request.op, [], []⟩

theorem echoing_answers (request : WireRequest) (state : Unit) :
    ∃ response after, echoing request state = (.ok response, after) ∧
      (plainResponses.toBytes response).length < 2 ^ 32 :=
  ⟨_, _, rfl, by simp [plainResponses, framePart]⟩

def postedPut : HttpRequest :=
  .posted "host".toList (all_iff_forall_prop.mp (by decide))
    (envelopeOf (fun _ => 0) (plainRequests.toBytes ⟨1, Op.put, [], "k".toList, [65]⟩))

theorem postedPut_serviceable :
    postedPut.wireRequest (fun _ => 0) plainRequests = some ⟨1, Op.put, [], "k".toList, [65]⟩ ∧
      postedPut.Serviceable (fun _ => 0) plainRequests :=
  posted_serviceable (all_iff_forall_prop.mp (by decide)) _ (by decide) (by decide +kernel)

theorem http_requests_are_framed_pingAndPut :
    ∃ after, handleHttpConnection (fun _ => 0) plainRequests plainResponses echoing
        ⟨⟨[.pinged [], postedPut].flatMap HttpRequest.bytes, fun _ => 7⟩, [], (), []⟩ =
          (.ok (), after) ∧
      after.events.filterMap HttpEvent.head? =
        [(HttpRequest.pinged []).headBytes, postedPut.headBytes] ∧
      (after.events.filterMap HttpEvent.request?).map some =
        [postedPut.wireRequest (fun _ => 0) plainRequests] := by
  have ping : (HttpRequest.pinged []).Serviceable (fun _ => 0) plainRequests :=
    ⟨by decide +kernel, fun _ => rfl, fun rpc => absurd rpc (by decide),
      fun rpc => absurd rpc (by decide), fun rpc => absurd rpc (by decide)⟩
  exact http_requests_are_framed (fun _ => 0) plainRequests plainResponses echoing echoing_answers
    [.pinged [], postedPut] (by simp [ping, postedPut_serviceable.2]) (fun _ => 7) ()

theorem body_is_dispatched :
    ∃ after, handleHttpConnection (fun _ => 0) plainRequests plainResponses echoing
        ⟨⟨(HttpRequest.pinged postedPut.bytes).bytes, fun _ => 7⟩, [], (), []⟩ = (.ok (), after) ∧
      after.events.filterMap HttpEvent.head? =
        [(HttpRequest.pinged postedPut.bytes).headBytes, postedPut.headBytes] ∧
      after.events.filterMap HttpEvent.request? = [⟨1, Op.put, [], "k".toList, [65]⟩] := by
  set outer := HttpRequest.pinged postedPut.bytes with ping
  set line : HttpConnection Unit := ⟨⟨outer.bytes, fun _ => 7⟩, [], (), []⟩ with begun
  have long : 2 ≤ outer.bytes.length := by
    rw [HttpRequest.bytes, doubleCrlf_eq]
    simp
    omega
  obtain ⟨turns, enough⟩ : ∃ turns, outer.bytes.length = turns + 1 + 1 :=
    ⟨outer.bytes.length - 2, by omega⟩
  obtain ⟨middle, bytes, turned, left, events⟩ := @httpTurns_other Unit (fun _ => 0) plainRequests
    plainResponses echoing line outer postedPut.bytes (turns + 1) rfl (by decide +kernel)
    (by decide +kernel) (by decide +kernel)
  have whole : middle.unread = [postedPut].flatMap HttpRequest.bytes := by simpa using left
  obtain ⟨after, ran, heads, wires⟩ := httpTurns_run echoing_answers whole
    (by simpa using postedPut_serviceable.2) (by simp : [postedPut].length ≤ turns + 1)
  refine ⟨after, ?_, ?_, ?_⟩
  · rw [handleHttpConnection, get_bind_apply]
    show httpTurns _ _ _ _ (0 + outer.bytes.length) line = _
    rw [Nat.zero_add, enough, turned, ran]
  · rw [heads, events]
    rfl
  · rw [wires, events]
    have dispatched : postedPut.dispatches (fun _ => 0) plainRequests =
        [⟨1, Op.put, [], "k".toList, [65]⟩] := by
      rw [HttpRequest.dispatches, if_pos (by decide), postedPut_serviceable.1]
      rfl
    simp [dispatched, HttpEvent.request?, begun]

end WombatKV



