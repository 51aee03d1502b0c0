import WombatKV.Proofs.Daemon.HttpServer

/-! When it does not matter how the bytes of a connection arrive. -/

namespace WombatKV

open Call List

def bufferLimit : Nat := maxHeadBytes + readChunkBytes

def SettledHead (stream : Bytes) : Prop :=
  ∀ head rest, splitAtFirst doubleCrlf stream = some (head, rest) →
    head.length + 4 ≤ maxHeadBytes + 1 ∨ bufferLimit < head.length + 4

def bodyStartOf (stream : Bytes) : Except HttpServerError (Option Nat) :=
  match splitAtFirst doubleCrlf stream with
  | some (head, _) =>
    if head.length + 4 ≤ maxHeadBytes + 1 then .ok (some (head.length + 4))
    else .error .headTooLarge
  | none => if maxHeadBytes < stream.length then .error .headTooLarge else .ok none

variable {σ : Type} {line other : HttpConnection σ}

theorem length_splitAtFirst {stream head rest : Bytes}
    (found : splitAtFirst doubleCrlf stream = some (head, rest)) :
    stream.length = head.length + 4 + rest.length := by
  rw [eq_append_of_splitAtFirst found, length_append, length_append, doubleCrlf_eq]
  simp only [length_cons, length_nil]
  omega

theorem headTurns_bounded (turns : Nat) (bounded : line.buf.length ≤ bufferLimit) :
    (headTurns turns line).2.buf.length ≤ bufferLimit := by
  induction turns generalizing line with
  | zero => exact bounded
  | succ turns ih =>
    rw [headTurns, get_bind_apply]
    split
    · exact bounded
    · -- A read is made while no more than the cap is there.
      rename_i below
      obtain ⟨middle, -, bound, ⟨-, read⟩ | ⟨read, -⟩⟩ :=
        readIntoBuf_cases (by decide : 0 < readChunkBytes) line
      all_goals
        have small : middle.buf.length ≤ bufferLimit := by
          rw [bufferLimit]
          omega
        rw [bind_ok read]
      · exact small
      · rw [if_pos rfl, get_bind_apply]
        cases findDoubleCrlf middle.buf with
        | some pos => exact small
        | none => exact ih small

theorem nextBodyStart_state : (nextBodyStart line).2 = (readUntilDoubleCrlf line).2 := by
  rcases read : readUntilDoubleCrlf line with ⟨error | start, after⟩
  · rw [nextBodyStart, tryCatch_error (bind_error read)]
    cases error <;> rfl
  · rw [nextBodyStart_ok read]

theorem nextBodyStart_bounded (bounded : line.buf.length ≤ bufferLimit) :
    (nextBodyStart line).2.buf.length ≤ bufferLimit := by
  rw [nextBodyStart_state, readUntilDoubleCrlf, get_bind_apply]
  cases findDoubleCrlf line.buf with
  | some pos => exact bounded
  | none => exact headTurns_bounded _ bounded

section Beyond

variable (bounded : line.buf.length ≤ bufferLimit)
  (beyond : ∀ head rest, splitAtFirst doubleCrlf line.unread = some (head, rest) →
    bufferLimit < head.length + 4)

include bounded beyond

theorem findDoubleCrlf_beyond : findDoubleCrlf line.buf = none := by
  cases seen : findDoubleCrlf line.buf with
  | none => rfl
  | some pos =>
    obtain ⟨⟨head, rest⟩, inside, rfl⟩ := Option.map_eq_some_iff.mp seen
    have past := beyond head _ (splitAtFirst_append_right inside line.socket.incoming)
    have width := length_splitAtFirst inside
    omega

variable (long : maxHeadBytes < line.unread.length)

include long

theorem headTurns_rejects {turns : Nat} (enough : line.socket.incoming.length < turns) :
    ∃ after, headTurns turns line = (.error .headTooLarge, after) ∧ Pulled line after := by
  induction turns generalizing line with
  | zero => exact absurd enough (Nat.not_lt_zero _)
  | succ turns ih =>
    rw [headTurns, get_bind_apply]
    by_cases full : maxHeadBytes < line.buf.length
    · rw [if_pos full]
      exact ⟨line, rfl, .refl⟩
    · rw [if_neg full]
      obtain ⟨middle, pulled, bound, ⟨ended, -⟩ | ⟨read, fewer⟩⟩ :=
        readIntoBuf_cases (by decide : 0 < readChunkBytes) line
      · -- The stream has not ended, since more is unread than is buffered.
        rw [HttpConnection.unread, ended, append_nil] at long
        exact absurd long full
      · have small : middle.buf.length ≤ bufferLimit := by
          rw [bufferLimit]
          omega
        rw [← pulled.unread] at long beyond
        obtain ⟨after, ran, further⟩ := ih small beyond long (by omega)
        rw [bind_ok read, if_pos rfl, get_bind_apply, findDoubleCrlf_beyond small beyond]
        exact ⟨after, ran, pulled.trans further⟩

theorem nextBodyStart_rejects :
    ∃ after, nextBodyStart line = (.error .headTooLarge, after) ∧ Pulled line after := by
  obtain ⟨after, failed, pulled⟩ := headTurns_rejects bounded beyond long (Nat.lt_succ_self _)
  refine ⟨after, ?_, pulled⟩
  have read : readUntilDoubleCrlf line = (.error .headTooLarge, after) := by
    rw [readUntilDoubleCrlf, get_bind_apply, findDoubleCrlf_beyond bounded beyond]
    exact failed
  rw [nextBodyStart, tryCatch_error (bind_error read)]
  rfl

end Beyond

theorem nextBodyStart_spec (bounded : line.buf.length ≤ bufferLimit)
    (settled : SettledHead line.unread) :
    ∃ after, nextBodyStart line = (bodyStartOf line.unread, after) ∧ Pulled line after ∧
      after.buf.length ≤ bufferLimit ∧
      ∀ start, bodyStartOf line.unread = .ok (some start) → start ≤ after.buf.length := by
  suffices ∃ after, nextBodyStart line = (bodyStartOf line.unread, after) ∧ Pulled line after ∧
      ∀ start, bodyStartOf line.unread = .ok (some start) → start ≤ after.buf.length by
    obtain ⟨after, ran, pulled, inside⟩ := this
    have held := nextBodyStart_bounded bounded
    rw [ran] at held
    exact ⟨after, ran, pulled, held, inside⟩
  rw [bodyStartOf]
  cases found : splitAtFirst doubleCrlf line.unread with
  | none =>
    simp only
    by_cases long : maxHeadBytes < line.unread.length
    · rw [if_pos long]
      obtain ⟨after, ran, pulled⟩ := nextBodyStart_rejects bounded (by simp [found]) long
      exact ⟨after, ran, pulled, by simp⟩
    · rw [if_neg long]
      obtain ⟨after, ran, pulled⟩ := nextBodyStart_ends found (not_lt.mp long)
      exact ⟨after, ran, pulled, by simp⟩
  | some pair =>
    obtain ⟨head, rest⟩ := pair
    simp only
    by_cases fits : head.length + 4 ≤ maxHeadBytes + 1
    · rw [if_pos fits]
      obtain ⟨after, ran, pulled, tail, shape⟩ := nextBodyStart_finds found fits
      refine ⟨after, ran, pulled, ?_⟩
      rintro _ ⟨⟩
      rw [shape, length_append, length_append, doubleCrlf_eq]
      simp only [length_cons, length_nil]
      omega
    · rw [if_neg fits]
      have beyond := (settled head rest found).resolve_left fits
      have long : maxHeadBytes < line.unread.length := by
        rw [length_splitAtFirst found]
        rw [bufferLimit] at beyond
        omega
      obtain ⟨after, ran, pulled⟩ := nextBodyStart_rejects bounded (fun other behind same => by
        cases found.symm.trans same
        exact beyond) long
      exact ⟨after, ran, pulled, by simp⟩

structure Alike (line other : HttpConnection σ) : Prop where
  pulled : Pulled line other
  left : line.buf.length ≤ bufferLimit
  right : other.buf.length ≤ bufferLimit

structure Agree (left right : Except HttpServerError RouteOutcome × HttpConnection σ) : Prop where
  same : left.1 = right.1
  pulled : Pulled left.2 right.2
  alike : left.1 = .ok .continueKeepAlive → Alike left.2 right.2

theorem take_buf {count : Nat} (inside : count ≤ line.buf.length) :
    line.buf.take count = line.unread.take count := by
  rw [HttpConnection.unread, take_append_of_le_length inside]

theorem Pulled.between (pulled : Pulled line other) {after after' : HttpConnection σ}
    (first : Pulled line after) (second : Pulled other after') : Pulled after after' :=
  ⟨by rw [second.unread, pulled.unread, first.unread],
    by rw [second.daemon, pulled.daemon, first.daemon],
    by rw [second.events, pulled.events, first.events]⟩

theorem Pulled.drained (pulled : Pulled line other) {count : Nat}
    (inLine : count ≤ line.buf.length) (inOther : count ≤ other.buf.length) :
    Pulled { line with buf := line.buf.drop count } { other with buf := other.buf.drop count } := by
  have dropped : ∀ {line : HttpConnection σ}, count ≤ line.buf.length →
      { line with buf := line.buf.drop count }.unread = line.unread.drop count := by
    intro line inside
    rw [HttpConnection.unread, HttpConnection.unread, drop_append_of_le_length inside]
  exact ⟨by rw [dropped inLine, dropped inOther, pulled.unread], pulled.daemon, pulled.events⟩

theorem Alike.of_lockstep {call : Call HttpServerError (HttpConnection σ) RouteOutcome}
    (lockstep : Respects Alike call) (alike : Alike line other) : Agree (call line) (call other) :=
  have both := lockstep line other alike
  ⟨both.1, both.2.pulled, fun _ => both.2⟩

theorem note_lockstep (event : HttpEvent) : Respects (@Alike σ) (note event) :=
  Lockstep.modify fun _ _ alike =>
    ⟨⟨alike.pulled.unread, alike.pulled.daemon, by simp only [alike.pulled.events]⟩, alike.left,
      alike.right⟩

theorem respond_lockstep (status : UInt16) (reason kind : Text) (body : Bytes) (keepAlive : Bool)
    (outcome : RouteOutcome) :
    Respects (@Alike σ) (do writeResponse status reason kind body keepAlive; return outcome) :=
  Lockstep.bind (note_lockstep _) fun _ => Lockstep.pure outcome

section Routes

variable {crc32c : Bytes → UInt32} {requests : Archive WireRequest}
  {responses : Archive WireResponse} {dispatch : WireRequest → Call String σ WireResponse}

theorem dispatchAsync_lockstep (request : WireRequest) :
    Respects (@Alike σ) (dispatchAsync dispatch request) := by
  intro line other alike
  rw [dispatchAsync, mapError, mapError, on_apply, on_apply, alike.pulled.daemon]
  rcases dispatch request line.daemon with ⟨error | response, daemon⟩
  all_goals exact ⟨rfl, ⟨⟨alike.pulled.unread, rfl, alike.pulled.events⟩, alike.left, alike.right⟩⟩

theorem processRpc_agrees (alike : Alike line other) (len : Nat) (keepAlive : Bool) :
    Agree (processRpc crc32c requests responses dispatch len keepAlive line)
      (processRpc crc32c requests responses dispatch len keepAlive other) := by
  obtain ⟨after, ran, pulled, held, full⟩ := @bodyTurns_spec σ line len _ (Nat.lt_succ_self _)
  obtain ⟨after', ran', pulled', held', full'⟩ := @bodyTurns_spec σ other len _ (Nat.lt_succ_self _)
  have between := alike.pulled.between pulled pulled'
  rw [alike.pulled.unread] at ran' full'
  rw [processRpc, get_bind_apply, get_bind_apply]
  by_cases whole : len ≤ line.unread.length
  · rw [if_pos whole] at ran ran'
    rw [bind_ok ran, bind_ok ran', get_bind_apply, get_bind_apply, take_buf (full whole),
      take_buf (full' whole), between.unread]
    cases decodeEnvelope crc32c (after.unread.take len) with
    | error error => exact ⟨rfl, between, by simp⟩
    | ok reqBytes =>
      simp only
      cases requests.fromBytes reqBytes with
      | none => exact ⟨rfl, between, by simp⟩
      | some req =>
        simp only [drain, modify_bind_apply]
        refine Alike.of_lockstep (Lockstep.bind (note_lockstep _) fun _ =>
          Lockstep.bind (dispatchAsync_lockstep req) fun response => ?_)
          ⟨between.drained (full whole) (full' whole), ?_, ?_⟩
        · cases encodeEnvelope crc32c (responses.toBytes response) with
          | none => exact Lockstep.throw _
          | some wire => exact respond_lockstep _ _ _ _ _ _
        · have small := alike.left
          simp only [length_drop]
          omega
        · have small := alike.right
          simp only [length_drop]
          omega
  · rw [if_neg whole] at ran ran'
    rw [bind_error ran, bind_error ran']
    exact ⟨rfl, between, by simp⟩

theorem processHttpRoute_agrees (alike : Alike line other) (head : RequestHead) {start : Nat}
    (inLine : start ≤ line.buf.length) (inOther : start ≤ other.buf.length) :
    Agree (processHttpRoute crc32c requests responses dispatch head start line)
      (processHttpRoute crc32c requests responses dispatch head start other) := by
  have drained : Alike { line with buf := line.buf.drop start }
      { other with buf := other.buf.drop start } := by
    refine ⟨alike.pulled.drained inLine inOther, ?_, ?_⟩
    · exact length_drop.trans_le ((Nat.sub_le _ _).trans alike.left)
    · exact length_drop.trans_le ((Nat.sub_le _ _).trans alike.right)
  rw [processHttpRoute]
  simp only [drain]
  split
  · rw [modify_bind_apply, modify_bind_apply]
    exact Alike.of_lockstep (respond_lockstep _ _ _ _ _ _) drained
  · split
    · rw [modify_bind_apply, modify_bind_apply]
      exact Alike.of_lockstep (respond_lockstep _ _ _ _ _ _) drained
    · cases head.contentLength with
      | none => exact Alike.of_lockstep (respond_lockstep _ _ _ _ _ _) alike
      | some len =>
        simp only
        split
        · exact Alike.of_lockstep (respond_lockstep _ _ _ _ _ _) alike
        · exact processRpc_agrees drained len head.keepAlive

theorem httpTurn_agrees (alike : Alike line other) (settled : SettledHead line.unread) :
    Agree (httpTurn crc32c requests responses dispatch line)
      (httpTurn crc32c requests responses dispatch other) := by
  obtain ⟨after, ran, pulled, held, inside⟩ := nextBodyStart_spec alike.left settled
  obtain ⟨after', ran', pulled', held', inside'⟩ :=
    nextBodyStart_spec alike.right (alike.pulled.unread.symm ▸ settled)
  have between := alike.pulled.between pulled pulled'
  rw [alike.pulled.unread] at ran' inside'
  rw [httpTurn]
  cases found : bodyStartOf line.unread with
  | error error =>
    rw [found] at ran ran'
    rw [bind_error ran, bind_error ran']
    exact ⟨rfl, between, by simp⟩
  | ok start =>
    rw [found] at ran ran'
    rw [bind_ok ran, bind_ok ran']
    cases start with
    | none => exact ⟨rfl, between, by simp⟩
    | some start =>
      have inAfter := inside start found
      have inAfter' := inside' start found
      simp only [get_bind_apply]
      rw [take_buf (by omega : start - 4 ≤ after.buf.length),
        take_buf (by omega : start - 4 ≤ after'.buf.length), between.unread]
      simp only [note, modify_bind_apply]
      cases parseHttpHeadFromBuf (after.unread.take (start - 4)) with
      | error error =>
        refine ⟨rfl, ⟨between.unread, between.daemon, ?_⟩, by simp⟩
        simp [between.events]
      | ok head =>
        rw [lift_ok_bind_apply, lift_ok_bind_apply]
        have parsed : Pulled
            { after with events := after.events ++ [.parsed (after.unread.take (start - 4))] }
            { after' with events := after'.events ++ [.parsed (after.unread.take (start - 4))] } :=
          ⟨between.unread, between.daemon, by simp only [between.events]⟩
        exact processHttpRoute_agrees ⟨parsed, held, held'⟩ head inAfter inAfter'

variable (crc32c requests responses dispatch) in
def SettledHeads : Nat → HttpConnection σ → Prop
  | 0, _ => True
  | turns + 1, line => SettledHead line.unread ∧
      ((httpTurn crc32c requests responses dispatch line).1 = .ok .continueKeepAlive →
        SettledHeads turns (httpTurn crc32c requests responses dispatch line).2)

theorem httpTurns_agree {turns : Nat} (alike : Alike line other)
    (settled : SettledHeads crc32c requests responses dispatch turns line) :
    (httpTurns crc32c requests responses dispatch turns line).1 =
        (httpTurns crc32c requests responses dispatch turns other).1 ∧
      Pulled (httpTurns crc32c requests responses dispatch turns line).2
        (httpTurns crc32c requests responses dispatch turns other).2 := by
  induction turns generalizing line other with
  | zero => exact ⟨rfl, alike.pulled⟩
  | succ turns ih =>
    obtain ⟨here, later⟩ := settled
    have agree : Agree (httpTurn crc32c requests responses dispatch line)
        (httpTurn crc32c requests responses dispatch other) := httpTurn_agrees alike here
    rw [httpTurns]
    rcases ran : httpTurn crc32c requests responses dispatch line with ⟨result, after⟩
    rcases ran' : httpTurn crc32c requests responses dispatch other with ⟨result', after'⟩
    rw [ran, ran'] at agree
    obtain ⟨same, pulled, onward⟩ := agree
    obtain rfl : result = result' := same
    cases result with
    | error error =>
      rw [bind_error ran, bind_error ran']
      exact ⟨rfl, pulled⟩
    | ok outcome =>
      rw [bind_ok ran, bind_ok ran']
      cases outcome with
      | closeConnection => exact ⟨rfl, pulled⟩
      | continueKeepAlive =>
        rw [ran] at later
        exact ih (onward rfl) (later rfl)

theorem handleHttpConnection_eq (stream : Bytes) (arriving : Nat → Nat) (daemon : σ) :
    handleHttpConnection crc32c requests responses dispatch ⟨⟨stream, arriving⟩, [], daemon, []⟩ =
      httpTurns crc32c requests responses dispatch stream.length
        ⟨⟨stream, arriving⟩, [], daemon, []⟩ := by
  rw [handleHttpConnection, get_bind_apply, length_nil, Nat.zero_add]

theorem httpTurns_notText {head : Bytes} {after : HttpConnection σ} {turns : Nat}
    (accepted : nextBodyStart line = (.ok (some (head.length + 4)), after))
    (front : after.buf.take head.length = head) (unreadable : fromUtf8 head = none) :
    (httpTurns crc32c requests responses dispatch (turns + 1) line).1 = .error .headNotUtf8 := by
  have refused : parseHttpHeadFromBuf head = .error .headNotUtf8 := by
    rw [parseHttpHeadFromBuf, unreadable]
  rw [httpTurns, httpTurn, bind_error ((bind_ok accepted).trans (by
    simp only [get_bind_apply, Nat.add_sub_cancel, front, note, modify_bind_apply, refused,
      lift_error_bind_apply]
    rfl))]

end Routes

/--
If every head that the server comes to is settled, it does the same for every other way in which
the stream arrives.
-/
theorem http_segmentation_irrelevant (crc32c : Bytes → UInt32) (requests : Archive WireRequest)
    (responses : Archive WireResponse) (dispatch : WireRequest → Call String σ WireResponse)
    (stream : Bytes) (daemon : σ) (arriving arriving' : Nat → Nat)
    (settled : SettledHeads crc32c requests responses dispatch stream.length
      ⟨⟨stream, arriving⟩, [], daemon, []⟩) :
    (handleHttpConnection crc32c requests responses dispatch
        ⟨⟨stream, arriving⟩, [], daemon, []⟩).1 =
      (handleHttpConnection crc32c requests responses dispatch
        ⟨⟨stream, arriving'⟩, [], daemon, []⟩).1 ∧
    (handleHttpConnection crc32c requests responses dispatch
        ⟨⟨stream, arriving⟩, [], daemon, []⟩).2.events =
      (handleHttpConnection crc32c requests responses dispatch
        ⟨⟨stream, arriving'⟩, [], daemon, []⟩).2.events ∧
    (handleHttpConnection crc32c requests responses dispatch
        ⟨⟨stream, arriving⟩, [], daemon, []⟩).2.daemon =
      (handleHttpConnection crc32c requests responses dispatch
        ⟨⟨stream, arriving'⟩, [], daemon, []⟩).2.daemon := by
  have alike : Alike (⟨⟨stream, arriving⟩, [], daemon, []⟩ : HttpConnection σ)
      ⟨⟨stream, arriving'⟩, [], daemon, []⟩ :=
    ⟨⟨rfl, rfl, rfl⟩, Nat.zero_le _, Nat.zero_le _⟩
  obtain ⟨same, pulled⟩ := httpTurns_agree alike settled
  rw [handleHttpConnection_eq, handleHttpConnection_eq]
  exact ⟨same, pulled.events.symm, pulled.daemon.symm⟩

def twoPings : Bytes :=
  ascii "GET /wmbt/v1/ping HTTP/1.1\r\n\r\nGET /wmbt/v1/ping HTTP/1.0\r\n\r\n"

theorem http_segmentation_irrelevant_ping :
    (handleHttpConnection (fun _ => 0) plainRequests plainResponses echoing
        ⟨⟨twoPings, fun _ => 1⟩, [], (), []⟩).2.events =
      (handleHttpConnection (fun _ => 0) plainRequests plainResponses echoing
        ⟨⟨twoPings, fun _ => 4096⟩, [], (), []⟩).2.events := by
  have bytes : twoPings.length = 60 := by decide
  have short {stream : Bytes} (small : stream.length ≤ 60) : SettledHead stream := by
    intro head rest found
    have width := length_splitAtFirst found
    have cap : maxHeadBytes = 16384 := rfl
    omega
  -- The first ping keeps the connection open, the second closes it.
  have settled : SettledHeads (fun _ => 0) plainRequests plainResponses echoing 60
      ⟨⟨twoPings, fun _ => 1⟩, [], (), []⟩ :=
    ⟨short bytes.le, fun _ => ⟨short (by decide +kernel), fun onward =>
      absurd onward (by decide +kernel)⟩⟩
  exact (http_segmentation_irrelevant (fun _ => 0) plainRequests plainResponses echoing
    twoPings () (fun _ => 1) (fun _ => 4096) (by rw [bytes]; exact settled)).2.1

def readingAt (stream : Bytes) (arriving : Nat → Nat) (place reads : Nat) : HttpConnection Unit :=
  ⟨⟨stream.drop place, fun index => arriving (index + reads)⟩, stream.take place, (), []⟩

section Long

variable {stream head rest : Bytes} {arriving : Nat → Nat} {place reads turns : Nat}

theorem unread_readingAt : (readingAt stream arriving place reads).unread = stream :=
  take_append_drop place stream

variable (found : splitAtFirst doubleCrlf stream = some (head, rest))

include found

theorem headTurns_readingAt (below : place ≤ maxHeadBytes) (missing : place < head.length + 4)
    {count : Nat} (comes : min (max 1 (arriving reads)) readChunkBytes = count) :
    headTurns (turns + 1) (readingAt stream arriving place reads) =
      if head.length + 4 ≤ place + count then
        (.ok (head.length + 4), readingAt stream arriving (place + count) (reads + 1))
      else headTurns turns (readingAt stream arriving (place + count) (reads + 1)) := by
  have width := length_splitAtFirst found
  have onward : stream.take place ++ (stream.drop place).take count = stream.take (place + count) :=
    take_add.symm
  have read : readIntoBuf readChunkBytes (readingAt stream arriving place reads) =
      (.ok true, readingAt stream arriving (place + count) (reads + 1)) := by
    have brings : (stream.drop place).take count ≠ [] := by
      have some : 0 < readChunkBytes := by decide
      refine ne_nil_of_length_pos ?_
      rw [length_take, length_drop]
      omega
    have chunk : min (max 1 (arriving (0 + reads))) readChunkBytes = count := by
      rw [Nat.zero_add, comes]
    simp only [readIntoBuf, get_bind_apply, readingAt, Socket.read, chunk, onward, drop_drop,
      set_bind_apply, pure_apply, decide_eq_true brings, Nat.add_right_comm _ 1 reads,
      Nat.add_assoc _ reads 1]
  have short : ¬ maxHeadBytes < (readingAt stream arriving place reads).buf.length := by
    rw [readingAt, length_take]
    omega
  rw [headTurns, get_bind_apply, if_neg short, bind_ok read, if_pos rfl, get_bind_apply]
  have next : splitAtFirst doubleCrlf
      (readingAt stream arriving (place + count) (reads + 1)).unread = some (head, rest) := by
    rw [unread_readingAt, found]
  cases seen : findDoubleCrlf (readingAt stream arriving (place + count) (reads + 1)).buf with
  | some pos =>
    obtain ⟨rfl, tail, shape⟩ := buf_of_findDoubleCrlf next seen
    have long := congrArg List.length shape
    rw [readingAt, length_take, length_append, length_append, doubleCrlf_eq] at long
    simp only [length_cons, length_nil] at long
    rw [if_pos (by omega)]
    rfl
  | none =>
    have short := length_buf_lt next seen
    rw [readingAt, length_take] at short
    rw [if_neg (by omega)]

omit found in
theorem readUntilDoubleCrlf_begun :
    readUntilDoubleCrlf (⟨⟨stream, arriving⟩, [], (), []⟩ : HttpConnection Unit) =
      headTurns (stream.length + 1) (readingAt stream arriving 0 0) := by
  have empty : findDoubleCrlf [] = none := by decide
  rw [readUntilDoubleCrlf, get_bind_apply, empty]
  rfl

theorem nextBodyStart_fast
    (long : maxHeadBytes < head.length + 4) (fits : head.length + 4 ≤ bufferLimit) :
    nextBodyStart ⟨⟨stream, fun _ => 4096⟩, [], (), []⟩ =
      (.ok (some (head.length + 4)), readingAt stream (fun _ => 4096) bufferLimit 5) := by
  have cap : maxHeadBytes = 16384 := rfl
  have limit : bufferLimit = 20480 := rfl
  have width := length_splitAtFirst found
  obtain ⟨turns, enough⟩ := Nat.exists_eq_add_of_le' (by omega : 5 ≤ stream.length + 1)
  refine nextBodyStart_ok ?_
  rw [readUntilDoubleCrlf_begun, enough,
    headTurns_readingAt found (by omega) (by omega) (by rfl : _ = 4096), if_neg (by omega),
    headTurns_readingAt found (by omega) (by omega) (by rfl : _ = 4096), if_neg (by omega),
    headTurns_readingAt found (by omega) (by omega) (by rfl : _ = 4096), if_neg (by omega),
    headTurns_readingAt found (by omega) (by omega) (by rfl : _ = 4096), if_neg (by omega),
    headTurns_readingAt found (by omega) (by omega) (by rfl : _ = 4096), if_pos (by omega)]
  rfl

theorem nextBodyStart_late (long : maxHeadBytes + 1 < head.length + 4) :
    ∃ after, nextBodyStart (⟨⟨stream, fun read => if read = 0 then 1 else 4096⟩, [], (), []⟩ :
      HttpConnection Unit) = (.error .headTooLarge, after) := by
  have cap : maxHeadBytes = 16384 := rfl
  have width := length_splitAtFirst found
  obtain ⟨turns, enough⟩ := Nat.exists_eq_add_of_le' (by omega : 6 ≤ stream.length + 1)
  have full : maxHeadBytes < (readingAt stream (fun read => if read = 0 then 1 else 4096)
      (0 + 1 + 4096 + 4096 + 4096 + 4096) (0 + 1 + 1 + 1 + 1 + 1)).buf.length := by
    rw [readingAt, length_take]
    omega
  have late : readUntilDoubleCrlf (⟨⟨stream, fun read => if read = 0 then 1 else 4096⟩, [], (),
      []⟩ : HttpConnection Unit) = (.error .headTooLarge, readingAt stream
        (fun read => if read = 0 then 1 else 4096) 16385 5) := by
    rw [readUntilDoubleCrlf_begun, enough,
      headTurns_readingAt found (by omega) (by omega) (by rfl : _ = 1), if_neg (by omega),
      headTurns_readingAt found (by omega) (by omega) (by rfl : _ = 4096), if_neg (by omega),
      headTurns_readingAt found (by omega) (by omega) (by rfl : _ = 4096), if_neg (by omega),
      headTurns_readingAt found (by omega) (by omega) (by rfl : _ = 4096), if_neg (by omega),
      headTurns_readingAt found (by omega) (by omega) (by rfl : _ = 4096), if_neg (by omega),
      headTurns, get_bind_apply, if_pos full]
    rfl
  exact ⟨_, by rw [nextBodyStart, tryCatch_error (bind_error late)]; rfl⟩

end Long

/-- The first head is read alike from every way of arriving exactly if it is settled. -/
theorem settledHead_iff (stream : Bytes) : SettledHead stream ↔ ∀ arriving arriving',
    (nextBodyStart (⟨⟨stream, arriving⟩, [], (), []⟩ : HttpConnection Unit)).1 =
      (nextBodyStart (⟨⟨stream, arriving'⟩, [], (), []⟩ : HttpConnection Unit)).1 := by
  constructor
  · intro settled arriving arriving'
    have spec : ∀ arriving, (nextBodyStart
        (⟨⟨stream, arriving⟩, [], (), []⟩ : HttpConnection Unit)).1 = bodyStartOf stream := by
      intro arriving
      obtain ⟨after, ran, -⟩ :=
        @nextBodyStart_spec Unit ⟨⟨stream, arriving⟩, [], (), []⟩ (Nat.zero_le _) settled
      rw [ran]
      rfl
    rw [spec, spec]
  · intro same head rest found
    by_contra between
    obtain ⟨long, fits⟩ := not_or.mp between
    have fast := nextBodyStart_fast found (by omega) (by omega)
    obtain ⟨after, late⟩ := nextBodyStart_late found (by omega)
    have differ := same (fun _ => 4096) (fun read => if read = 0 then 1 else 4096)
    rw [fast, late] at differ
    cases differ

def unsettledHead : Bytes := List.replicate 16382 255

theorem splitAtFirst_unsettledHead :
    splitAtFirst doubleCrlf (unsettledHead ++ doubleCrlf) = some (unsettledHead, []) := by
  have absent : (13 : UInt8) ∉ unsettledHead := fun member =>
    absurd (eq_of_mem_replicate member) (by decide)
  rw [doubleCrlf_eq, splitAtFirst_skip absent]
  have here : splitAtFirst [13, 10, 13, 10] ([13, 10, 13, 10] : Bytes) = some ([], []) := by decide
  rw [here, Option.map_some]
  simp only [append_nil]

theorem fromUtf8_unsettledHead : fromUtf8 unsettledHead = none := by
  cases decoded : fromUtf8 unsettledHead with
  | none => rfl
  | some text =>
    have member : (255 : UInt8) ∈ utf8 text := by
      rw [← fromUtf8_eq_some.mp decoded]
      exact mem_replicate.mpr ⟨by decide, rfl⟩
    exact absurd (toNat_lt_of_mem_utf8 member) (by decide)

theorem http_segmentation_irrelevant_cap :
    (handleHttpConnection (fun _ => 0) plainRequests plainResponses echoing
        ⟨⟨unsettledHead ++ doubleCrlf, fun _ => 4096⟩, [], (), []⟩).1 = .error .headNotUtf8 ∧
      (handleHttpConnection (fun _ => 0) plainRequests plainResponses echoing
        ⟨⟨unsettledHead ++ doubleCrlf, fun read => if read = 0 then 1 else 4096⟩, [], (), []⟩).1 =
          .error .headTooLarge := by
  have length : unsettledHead.length = 16382 := length_replicate
  have cap : maxHeadBytes = 16384 := rfl
  have limit : bufferLimit = 20480 := rfl
  have found := splitAtFirst_unsettledHead
  have whole : (unsettledHead ++ doubleCrlf).length = 16386 := by
    rw [length_splitAtFirst found, length, length_nil]
  rw [handleHttpConnection_eq, handleHttpConnection_eq, whole]
  constructor
  · have entire : (readingAt (unsettledHead ++ doubleCrlf) (fun _ => 4096) bufferLimit 5).buf =
        unsettledHead ++ doubleCrlf := take_of_length_le (by omega)
    exact httpTurns_notText (nextBodyStart_fast found (by omega) (by omega))
      (by rw [entire, take_left]) fromUtf8_unsettledHead
  · obtain ⟨after, late⟩ := nextBodyStart_late found (by omega)
    rw [httpTurns, httpTurn, bind_error (bind_error late)]

end WombatKV

