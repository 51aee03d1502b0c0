import WombatKV.Daemon.StreamClients
import WombatKV.Proofs.Daemon.HttpHead

/-! A buffered reader gives out the stream as it is. -/

namespace WombatKV

open Call List

namespace BufReader

variable {reader : BufReader} {rest : Bytes}

theorem unread_fillBuf : reader.fillBuf.unread = reader.unread := by
  rw [fillBuf]
  split
  · rename_i empty
    rw [unread, Socket.read_append, unread, empty, nil_append]
  · rfl

theorem fillBuf_ne_nil (left : reader.unread ≠ []) : reader.fillBuf.buffer ≠ [] := by
  rw [fillBuf]
  split
  · rename_i empty
    intro ended
    have nothing := Socket.read_eq_nil (by decide : 0 < bufReaderBytes) ended
    exact left (by rw [unread, empty, nothing, append_nil])
  · assumption

theorem lineTurns_reads {turns : Nat} {line : Bytes} (start : Bytes)
    (found : splitAtFirst [10] reader.unread = some (line, rest))
    (enough : reader.unread.length < turns) :
    ∃ after, lineTurns turns start reader = (.ok (start ++ line ++ [10]), after) ∧
      after.unread = rest := by
  induction turns generalizing reader start line with
  | zero => exact absurd enough (Nat.not_lt_zero _)
  | succ turns ih =>
    have left : reader.unread ≠ [] := by
      intro nothing
      rw [nothing] at found
      cases found
    have ahead := fillBuf_ne_nil left
    rw [← unread_fillBuf] at found enough
    rw [lineTurns, modify_bind_apply, get_bind_apply, if_neg ahead]
    generalize reader.fillBuf = filled at found enough ahead
    cases seen : splitAtFirst [10] filled.buffer with
    | some parts =>
      obtain ⟨before, behind⟩ := parts
      have whole := splitAtFirst_append_right seen filled.socket.incoming
      cases found.symm.trans whole
      exact ⟨_, rfl, rfl⟩
    | none =>
      have absent : (10 : UInt8) ∉ filled.buffer := by
        intro member
        refine splitAtFirst_eq_none.mp seen ?_
        obtain ⟨before, behind, shape⟩ := append_of_mem member
        exact ⟨before, behind, by rw [shape, append_assoc]; rfl⟩
      rw [unread, splitAtFirst_skip absent] at found
      obtain ⟨⟨later, behind⟩, further, same⟩ := Option.map_eq_some_iff.mp found
      cases same
      have shorter : ({ filled with buffer := [] } : BufReader).unread.length < turns := by
        rw [unread, length_append] at enough
        have positive := length_pos_iff.mpr ahead
        show filled.socket.incoming.length < turns
        omega
      obtain ⟨after, ran, unreadAfter⟩ :=
        @ih { filled with buffer := [] } later (start ++ filled.buffer) further shorter
      refine ⟨after, ?_, unreadAfter⟩
      show lineTurns turns (start ++ filled.buffer) { filled with buffer := [] } = _
      rw [ran, append_assoc start]

theorem readLine_reads {line : Text} (oneLine : '\n' ∉ line)
    (shape : reader.unread = utf8 line ++ 10 :: rest) :
    ∃ after, readLine reader = (.ok (line ++ ['\n'], (utf8 line).length + 1), after) ∧
      after.unread = rest := by
  have absent : (10 : UInt8) ∉ utf8 line := by
    intro member
    obtain ⟨char, inside, same⟩ := exists_of_mem_utf8 member (by decide)
    have feed : char = '\n' := Char.toNat_inj.mp same
    exact oneLine (feed ▸ inside)
  have found : splitAtFirst [10] reader.unread = some (utf8 line, rest) := by
    rw [shape, splitAtFirst_skip absent]
    simp [splitAtFirst]
  obtain ⟨after, ran, left⟩ := lineTurns_reads [] found (Nat.lt_succ_self _)
  have text : fromUtf8 ([] ++ utf8 line ++ [10]) = some (line ++ ['\n']) := by
    have bytes : utf8 (line ++ ['\n']) = utf8 line ++ [10] := by
      rw [utf8_append]
      rfl
    rw [nil_append, ← bytes, fromUtf8_utf8]
  refine ⟨after, ?_, left⟩
  rw [readLine, get_bind_apply, bind_ok ran, text]
  simp

theorem readSome_append {wanted : Nat} :
    (reader.readSome wanted).1 ++ (reader.readSome wanted).2.unread = reader.unread := by
  rw [readSome]
  split
  · rename_i direct
    rw [unread, nil_append, Socket.read_append, unread, direct.1, nil_append]
  · rw [unread, ← append_assoc, take_append_drop]
    exact unread_fillBuf

theorem length_readSome_le {wanted : Nat} : (reader.readSome wanted).1.length ≤ wanted := by
  rw [readSome]
  split
  · exact Socket.length_read_le
  · exact length_take_le _ _

theorem readSome_ne_nil {wanted : Nat} (positive : 0 < wanted) (left : reader.unread ≠ []) :
    (reader.readSome wanted).1 ≠ [] := by
  rw [readSome]
  split
  · rename_i direct
    intro ended
    have nothing := Socket.read_eq_nil positive ended
    exact left (by rw [unread, direct.1, nothing, append_nil])
  · have some := length_pos_iff.mpr (fillBuf_ne_nil left)
    rw [← length_pos_iff, length_take]
    omega

theorem exactTurns_reads {count turns : Nat} {start front : Bytes}
    (shape : start ++ reader.unread = front ++ rest) (width : front.length = count)
    (inside : start.length ≤ count) (enough : reader.unread.length < turns) :
    ∃ after, exactTurns count turns start reader = (.ok front, after) ∧ after.unread = rest := by
  induction turns generalizing reader start with
  | zero => exact absurd enough (Nat.not_lt_zero _)
  | succ turns ih =>
    rw [exactTurns]
    by_cases whole : count ≤ start.length
    · obtain ⟨rfl, left⟩ := append_inj shape (by omega)
      rw [if_pos whole]
      exact ⟨reader, rfl, left⟩
    · have left : reader.unread ≠ [] := by
        intro nothing
        have lengths := congrArg List.length shape
        rw [nothing, append_nil, length_append] at lengths
        omega
      have some := @readSome_ne_nil reader (count - start.length) (by omega) left
      have split := @readSome_append reader (count - start.length)
      have short := @length_readSome_le reader (count - start.length)
      have lengths := congrArg List.length split
      rw [length_append] at lengths
      have positive := length_pos_iff.mpr some
      obtain ⟨after, ran, unreadAfter⟩ := @ih (reader.readSome (count - start.length)).2
        (start ++ (reader.readSome (count - start.length)).1)
        (by rw [append_assoc, split, shape])
        (by rw [length_append]; omega) (by omega)
      refine ⟨after, ?_, unreadAfter⟩
      rw [if_neg whole, get_bind_apply]
      simp only [set_bind_apply]
      rw [if_neg some, ran]

theorem readExactly_reads {body : Bytes} (shape : reader.unread = body ++ rest) :
    ∃ after, readExactly body.length reader = (.ok body, after) ∧ after.unread = rest := by
  rw [readExactly, get_bind_apply]
  exact exactTurns_reads (by rw [nil_append, shape]) rfl (Nat.zero_le _) (Nat.lt_succ_self _)

end BufReader

theorem trimLineEnd_append {line : Text} (feed : '\n' ∉ line) (carriage : '\r' ∉ line) :
    trimLineEnd (line ++ ['\r', '\n']) = line := by
  have kept : line.reverse.dropWhile (fun char => char = '\r' || char = '\n') = line.reverse := by
    cases back : line.reverse with
    | nil => rfl
    | cons char front =>
      have member : char ∈ line := mem_reverse.mp (by rw [back]; exact mem_cons_self)
      have other : ¬ (char = '\r' ∨ char = '\n') := by
        rintro (rfl | rfl)
        · exact carriage member
        · exact feed member
      rw [dropWhile_cons_of_neg (by simpa using other)]
  have shape : (line ++ ['\r', '\n']).reverse = '\n' :: '\r' :: line.reverse := by simp
  rw [trimLineEnd, shape, dropWhile_cons_of_pos (by decide),
    dropWhile_cons_of_pos (by decide), kept, reverse_reverse]

theorem length_utf8_le (text : Text) : (utf8 text).length ≤ 4 * text.length := by
  induction text with
  | nil => exact le_rfl
  | cons char text ih =>
    have one : (String.utf8EncodeChar char).length ≤ 4 := by
      rw [String.length_utf8EncodeChar]
      exact char.utf8Size_le_four
    rw [utf8_cons, length_append, length_cons]
    omega

def headerText (fields : List HttpField) : Text :=
  fields.flatMap fun field => field.line ++ ['\r', '\n']

theorem length_le_length_headerText (fields : List HttpField) :
    fields.length ≤ (utf8 (headerText fields)).length := by
  induction fields with
  | nil => exact le_rfl
  | cons field fields ih =>
    have ending : (utf8 ['\r', '\n']).length = 2 := by decide
    have text : headerText (field :: fields) =
        field.line ++ ['\r', '\n'] ++ headerText fields := rfl
    rw [text, utf8_append, utf8_append, length_append, length_append, ending, length_cons]
    omega

theorem headerTurns_reads {fields : List HttpField} (formed : ∀ field ∈ fields, field.WellFormed)
    {reader : BufReader} {rest : Bytes}
    (shape : reader.unread = utf8 (headerText fields) ++ 13 :: 10 :: rest) {headBytes turns : Nat}
    (fits : headBytes + ((utf8 (headerText fields)).length + 2) ≤ maxHeadBytes)
    {found parsed : FoundHeaders}
    (parses : (fields.map HttpField.line).foldlM parseHeaderLine found = .ok parsed)
    (enough : fields.length < turns) :
    ∃ after, headerTurns turns headBytes found reader = (.ok parsed, after) ∧
      after.unread = rest := by
  induction fields generalizing reader headBytes found turns with
  | nil =>
    obtain ⟨turns, rfl⟩ := Nat.exists_eq_succ_of_ne_zero (Nat.pos_iff_ne_zero.mp enough)
    cases parses
    have carriage : utf8 ['\r'] = [13] := by decide
    have empty : reader.unread = utf8 ['\r'] ++ 10 :: rest := by
      rw [shape, carriage]
      rfl
    obtain ⟨after, read, left⟩ := BufReader.readLine_reads (by decide) empty
    refine ⟨after, ?_, left⟩
    rw [headerTurns, bind_ok read]
    simp only [carriage, length_singleton] at fits ⊢
    simp only [headerText, flatMap_nil, utf8_nil, length_nil] at fits
    rw [if_neg (by omega), if_neg (by omega), if_pos (by decide)]
    rfl
  | cons field fields ih =>
    obtain ⟨turns, rfl⟩ := Nat.exists_eq_succ_of_ne_zero (Nat.pos_iff_ne_zero.mp
      (lt_of_le_of_lt (Nat.zero_le _) enough))
    have own := formed field mem_cons_self
    have carriage := own.carriageReturn_not_mem
    have feed := own.lineFeed_not_mem
    have text : utf8 (headerText (field :: fields)) =
        utf8 (field.line ++ ['\r']) ++ 10 :: utf8 (headerText fields) := by
      rw [headerText, flatMap_cons, utf8_append, utf8_append, utf8_append, append_assoc,
        append_assoc]
      rfl
    have first : reader.unread = utf8 (field.line ++ ['\r']) ++ 10 ::
        (utf8 (headerText fields) ++ 13 :: 10 :: rest) := by
      rw [shape, text, append_assoc]
      rfl
    obtain ⟨middle, read, left⟩ := BufReader.readLine_reads (by simp [feed]) first
    have length := congrArg List.length text
    rw [length_append, length_cons] at length
    rw [map_cons, foldlM_cons] at parses
    obtain ⟨between, one, others⟩ := except_bind_eq_ok.mp parses
    have room : headBytes + ((utf8 (field.line ++ ['\r'])).length + 1) +
        ((utf8 (headerText fields)).length + 2) ≤ maxHeadBytes := by omega
    obtain ⟨after, ran, unreadAfter⟩ := ih
      (fun other member => formed other (mem_cons_of_mem _ member)) left room others
      (Nat.lt_of_succ_lt_succ enough)
    refine ⟨after, ?_, unreadAfter⟩
    have trimmed : trimLineEnd (field.line ++ ['\r'] ++ ['\n']) = field.line := by
      rw [append_assoc]
      exact trimLineEnd_append feed carriage
    rw [headerTurns, bind_ok read]
    simp only [trimmed]
    rw [if_neg (by omega), if_neg (by omega), if_neg HttpField.line_ne_nil, one]
    exact ran

def responseFields (length : Nat) : List HttpField :=
  [⟨"Content-Type".toList, ' ' :: contentType⟩, HttpRequest.lengthField length,
    ⟨"Connection".toList, " keep-alive".toList⟩]

theorem responseHead_eq (length : Nat) :
    responseHead 200 "OK".toList contentType length true =
      "HTTP/1.1 200 OK\r\n".toList ++ (headerText (responseFields length) ++ ['\r', '\n']) := by
  have status : natText (200 : UInt16).toNat = "200".toList := by decide
  delta responseHead
  rw [status, headerText, responseFields, HttpRequest.lengthField_eq]
  generalize natText length = digits
  simp [HttpField.line]

theorem responseFields_wellFormed (length : Nat) :
    ∀ field ∈ responseFields length, field.WellFormed := by
  simp only [responseFields, forall_mem_cons]
  exact ⟨.of_all (by decide) (by decide) (by decide), HttpRequest.lengthField_wellFormed _,
    .of_all (by decide) (by decide) (by decide), by simp⟩

theorem responseFields_length (length : Nat) : ∀ field ∈ responseFields length,
    field.named "content-length" = true →
      trim field.value ≠ [] ∧ digitsValue 0 (trim field.value) = some length := by
  simp only [responseFields, forall_mem_cons, HttpField.named_eq]
  exact ⟨fun named => absurd named (by decide), fun _ => HttpRequest.lengthField_says _,
    fun named => absurd named (by decide), by simp⟩

theorem responseFields_stays (length : Nat) : ∀ field ∈ responseFields length,
    field.named "connection" = true → toAsciiLowercase (trim field.value) ≠ "close".toList := by
  simp only [responseFields, forall_mem_cons, HttpField.named_eq]
  exact ⟨fun named => absurd named (by decide),
    fun named => absurd named (HttpRequest.lengthField_not_named _), fun _ => by decide, by simp⟩

theorem responseFields_measured (length : Nat) :
    (responseFields length).any (·.named "content-length") = true :=
  any_eq_true.mpr ⟨HttpRequest.lengthField length, by simp [responseFields],
    HttpRequest.lengthField_named _⟩

theorem length_headerText_le {length : Nat} (fits : length ≤ maxBodyBytes) :
    (utf8 (headerText (responseFields length))).length ≤ 500 := by
  have digits : (natText length).length ≤ 9 :=
    (Nat.length_toDigits_le_iff (by decide) (by decide)).mpr (lt_of_le_of_lt fits (by decide))
  have media : contentType.length = 27 := by decide
  have chars : (headerText (responseFields length)).length ≤ 100 := by
    rw [headerText, responseFields, HttpRequest.lengthField_eq]
    generalize natText length = number at digits ⊢
    simp [HttpField.line, media]
    omega
  have bytes := length_utf8_le (headerText (responseFields length))
  omega

theorem readResponseHead_reads {reader : BufReader} {length : Nat} (fits : length ≤ maxBodyBytes)
    {rest : Bytes}
    (shape : reader.unread = utf8 (responseHead 200 "OK".toList contentType length true) ++ rest) :
    ∃ after, readResponseHead reader = (.ok (200, length, true), after) ∧ after.unread = rest := by
  have small : length < wordLimit := lt_of_le_of_lt fits (by decide)
  obtain ⟨parsed, parses, content, connection⟩ := HttpRequest.parseHeaderLines small
    (responseFields_wellFormed length) (responseFields_length length) (responseFields_stays length)
    ⟨none, none⟩ (by simp)
  have lines : utf8 (responseHead 200 "OK".toList contentType length true) ++ rest =
      utf8 "HTTP/1.1 200 OK\r".toList ++
        10 :: (utf8 (headerText (responseFields length)) ++ 13 :: 10 :: rest) := by
    rw [responseHead_eq, utf8_append, utf8_append]
    generalize utf8 (headerText (responseFields length)) = headers
    have first : utf8 "HTTP/1.1 200 OK\r\n".toList = utf8 "HTTP/1.1 200 OK\r".toList ++ [10] := by
      decide
    have last : utf8 ['\r', '\n'] = [13, 10] := by decide
    rw [first, last]
    simp
  rw [lines] at shape
  obtain ⟨middle, read, left⟩ := BufReader.readLine_reads (by decide) shape
  have parts : splitOnce ' ' ("HTTP/1.1 200 OK\r".toList ++ ['\n']) =
      some ("HTTP/1.1".toList, "200 OK\r\n".toList) := by decide
  have code : ((splitOnce ' ' "200 OK\r\n".toList).map Prod.fst).getD "200 OK\r\n".toList =
      "200".toList := by decide
  have status : parseUnsigned (2 ^ 16) "200".toList = some 200 := by decide
  have short : (utf8 "HTTP/1.1 200 OK\r".toList).length = 16 := by decide
  have room := length_headerText_le fits
  have many := length_le_length_headerText (responseFields length)
  obtain ⟨after, headers, unreadAfter⟩ := @headerTurns_reads (responseFields length)
    (responseFields_wellFormed length) middle rest left 17 (middle.unread.length + 1)
    (by simp only [maxHeadBytes]; omega) ⟨none, none⟩ parsed parses
    (by rw [left, length_append]; omega)
  have alive : keepsAlive "HTTP/1.1".toList parsed.connection = true := by
    rw [keepsAlive, if_neg connection]
    split
    · rfl
    · decide
  rw [responseFields_measured, if_pos rfl] at content
  refine ⟨after, ?_, unreadAfter⟩
  rw [readResponseHead, bind_ok read, short]
  simp only [parts, code, status]
  rw [if_neg (by decide), get_bind_apply, bind_ok headers, content]
  simp only [if_neg (not_lt.mpr fits), alive]
  rfl

theorem readHttpResponse_reads {reader : BufReader} {wire rest : Bytes}
    (fits : wire.length ≤ maxBodyBytes)
    (shape : reader.unread =
      utf8 (responseHead 200 "OK".toList contentType wire.length true) ++ (wire ++ rest)) :
    ∃ after, readHttpResponse reader = (.ok (200, wire), after) ∧ after.unread = rest := by
  obtain ⟨middle, headed, left⟩ := readResponseHead_reads fits shape
  obtain ⟨after, read, unreadAfter⟩ := BufReader.readExactly_reads left
  refine ⟨after, ?_, unreadAfter⟩
  rw [readHttpResponse, bind_ok headed]
  simp only []
  rw [bind_ok read]
  rfl

end WombatKV
