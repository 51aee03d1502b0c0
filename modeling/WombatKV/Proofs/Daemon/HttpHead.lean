import WombatKV.Daemon.HttpServer

/-! The head of a request ends where it should, and is parsed. -/

namespace WombatKV

open List

theorem doubleCrlf_eq : doubleCrlf = [13, 10, 13, 10] := by decide

theorem isWhitespace_of_isVisible {char : Char} (visible : isVisible char = true) :
    isWhitespace char = false := by
  simp only [isVisible, Bool.and_eq_true, decide_eq_true_eq] at visible
  simp only [isWhitespace, Bool.or_eq_false_iff, Bool.and_eq_false_iff, decide_eq_false_iff_not]
  omega

theorem ne_carriageReturn_of_isVisible {char : Char} (visible : isVisible char = true) :
    char ≠ '\r' := by
  rintro rfl
  exact absurd visible (by decide)

theorem carriageReturn_not_mem_utf8 {text : Text} (absent : '\r' ∉ text) : 13 ∉ utf8 text := by
  intro member
  obtain ⟨char, inside, same⟩ := exists_of_mem_utf8 member (by decide)
  have carriage : char = '\r' := Char.toNat_inj.mp same
  exact absent (carriage ▸ inside)

theorem splitAtFirst_line {line : Bytes} (nonempty : line ≠ []) (absent : 13 ∉ line)
    (rest : Bytes) :
    splitAtFirst doubleCrlf (13 :: 10 :: (line ++ rest)) =
      (splitAtFirst doubleCrlf rest).map fun (early, late) => (13 :: 10 :: (line ++ early), late) := by
  obtain ⟨first, others, rfl⟩ := exists_cons_of_ne_nil nonempty
  have other : (13 : UInt8) ≠ first := fun same => absent (by simp [same])
  have skipped : (13 : UInt8) ∉ 10 :: first :: others := by
    rw [mem_cons, not_or]
    exact ⟨by decide, absent⟩
  have later : ¬ doubleCrlf <+: 13 :: 10 :: (first :: others ++ rest) := by
    rw [doubleCrlf_eq]
    simp [other]
  rw [splitAtFirst, if_neg later, doubleCrlf_eq, ← cons_append, splitAtFirst_skip skipped,
    Option.map_map]
  rfl

namespace HttpField

variable {field : HttpField}

theorem WellFormed.carriageReturn_not_mem (formed : field.WellFormed) : '\r' ∉ field.line := by
  intro member
  rw [line, mem_append, mem_cons] at member
  rcases member with name | colon | value
  · exact ne_carriageReturn_of_isVisible (formed.name_visible _ name).1 rfl
  · exact absurd colon (by decide)
  · exact (formed.value_oneLine _ value).1 rfl

theorem WellFormed.lineFeed_not_mem (formed : field.WellFormed) : '\n' ∉ field.line := by
  intro member
  rw [line, mem_append, mem_cons] at member
  rcases member with name | colon | value
  · exact absurd (formed.name_visible _ name).1 (by decide)
  · exact absurd colon (by decide)
  · exact (formed.value_oneLine _ value).2 rfl

theorem line_ne_nil : field.line ≠ [] := by simp [line]

end HttpField

namespace HttpRequest

theorem carriageReturn_not_mem_requestLine (request : HttpRequest) :
    '\r' ∉ request.requestLine := by
  intro member
  simp only [requestLine, mem_append, mem_cons] at member
  rcases member with method | blank | target | blank | version
  · exact ne_carriageReturn_of_isVisible (request.method_visible _ method) rfl
  · exact absurd blank (by decide)
  · exact ne_carriageReturn_of_isVisible (request.target_visible _ target) rfl
  · exact absurd blank (by decide)
  · exact absurd version (by decide)

variable {fields : List HttpField}

theorem splitAtFirst_fieldLines (formed : ∀ field ∈ fields, field.WellFormed) (rest : Bytes) :
    splitAtFirst doubleCrlf (utf8 (fieldLines fields) ++ (doubleCrlf ++ rest)) =
      some (utf8 (fieldLines fields), rest) := by
  induction fields with
  | nil =>
    rw [doubleCrlf_eq]
    simp [fieldLines, splitAtFirst]
  | cons field fields ih =>
    have own := formed field mem_cons_self
    have lines : utf8 (fieldLines (field :: fields)) =
        13 :: 10 :: (utf8 field.line ++ utf8 (fieldLines fields)) := by
      simp only [fieldLines, flatMap_cons, cons_append, utf8_cons, utf8_append]
      rfl
    have nonempty : utf8 field.line ≠ [] := by
      intro empty
      exact HttpField.line_ne_nil (utf8_injective (empty.trans utf8_nil.symm))
    rw [lines, cons_append, cons_append, append_assoc,
      splitAtFirst_line nonempty (carriageReturn_not_mem_utf8 own.carriageReturn_not_mem),
      ih fun other member => formed other (mem_cons_of_mem _ member)]
    rfl

theorem splitAtFirst_headBytes (request : HttpRequest) (rest : Bytes) :
    splitAtFirst doubleCrlf (request.headBytes ++ (doubleCrlf ++ rest)) =
      some (request.headBytes, rest) := by
  have absent := carriageReturn_not_mem_utf8 request.carriageReturn_not_mem_requestLine
  have lines := splitAtFirst_fieldLines request.fields_wellFormed rest
  rw [doubleCrlf_eq] at lines
  rw [headBytes, utf8_append, append_assoc, doubleCrlf_eq, splitAtFirst_skip absent, lines]
  rfl

theorem splitCrlf_fieldLines {line : Text} (absent : '\r' ∉ line)
    (formed : ∀ field ∈ fields, field.WellFormed) :
    splitCrlf (line ++ fieldLines fields) = line :: fields.map HttpField.line := by
  induction fields generalizing line with
  | nil => simpa [fieldLines] using splitCrlf_of_not_mem absent
  | cons field fields ih =>
    have shape : fieldLines (field :: fields) =
        '\r' :: '\n' :: (field.line ++ fieldLines fields) := by
      simp [fieldLines]
    rw [shape, splitCrlf_append absent,
      ih (formed field mem_cons_self).carriageReturn_not_mem
        fun other member => formed other (mem_cons_of_mem _ member)]
    rfl

theorem splitWhitespace_requestLine (request : HttpRequest) :
    splitWhitespace request.requestLine = [request.method, request.target, "HTTP/1.1".toList] := by
  have method : ∀ char ∈ request.method, isWhitespace char = false :=
    fun char member => isWhitespace_of_isVisible (request.method_visible char member)
  have target : ∀ char ∈ request.target, isWhitespace char = false :=
    fun char member => isWhitespace_of_isVisible (request.target_visible char member)
  rw [splitWhitespace, requestLine,
    @wordsFrom_append [] _ method request.method_ne_nil _ (by decide),
    @wordsFrom_append [] _ target request.target_ne_nil _ (by decide),
    @wordsFrom_of_not_whitespace [] "HTTP/1.1".toList (all_iff_forall_prop.mp (by decide))
      (by decide)]
  rfl

theorem parseHeaderLine_line {field : HttpField} (formed : field.WellFormed)
    (found : FoundHeaders) :
    parseHeaderLine found field.line =
      if field.named "content-length" then
        match parseUsize (trim field.value) with
        | some length => .ok { found with contentLength := some length }
        | none => .error (.badContentLength (trim field.value))
      else if field.named "connection" then
        .ok { found with connection := some (toAsciiLowercase (trim field.value)) }
      else .ok found := by
  have colon : ':' ∉ field.name := fun member => (formed.name_visible _ member).2 rfl
  have dark : ∀ char ∈ field.name, isWhitespace char = false :=
    fun char member => isWhitespace_of_isVisible (formed.name_visible char member).1
  rw [parseHeaderLine, if_neg HttpField.line_ne_nil, HttpField.line, splitOnce_append colon]
  simp only [HttpField.named, decide_eq_true_eq]
  have trimmed := trim_of_not_whitespace dark
  generalize trim field.name = name at trimmed ⊢
  subst trimmed
  rfl

theorem parseHeaderLines {length : Nat} (small : length < wordLimit)
    (formed : ∀ field ∈ fields, field.WellFormed)
    (lengths : ∀ field ∈ fields, field.named "content-length" = true → trim field.value ≠ [] ∧
      digitsValue 0 (trim field.value) = some length)
    (stays : ∀ field ∈ fields, field.named "connection" = true → toAsciiLowercase (trim field.value)
      ≠ "close".toList) (found : FoundHeaders) (opened : found.connection ≠ some "close".toList) :
    ∃ after : FoundHeaders,
      (fields.map HttpField.line).foldlM parseHeaderLine found = .ok after ∧
        after.contentLength =
          (if fields.any (·.named "content-length") then some length else found.contentLength) ∧
        after.connection ≠ some "close".toList := by
  induction fields generalizing found with
  | nil => exact ⟨found, rfl, rfl, opened⟩
  | cons field fields ih =>
    have more := ih (fun other member => formed other (mem_cons_of_mem _ member))
      (fun other member => lengths other (mem_cons_of_mem _ member))
      (fun other member => stays other (mem_cons_of_mem _ member))
    rw [map_cons, foldlM_cons, parseHeaderLine_line (formed field mem_cons_self)]
    by_cases measures : field.named "content-length" = true
    · obtain ⟨nonempty, digits⟩ := lengths field mem_cons_self measures
      rw [if_pos measures, parseUsize, parseUnsigned_of_digits nonempty digits small]
      obtain ⟨after, parsed, content, connection⟩ := more { found with contentLength := some length }
        opened
      refine ⟨after, parsed, ?_, connection⟩
      rw [content]
      simp [measures]
    · rw [if_neg measures]
      by_cases connects : field.named "connection" = true
      · rw [if_pos connects]
        obtain ⟨after, parsed, content, connection⟩ := more
          { found with connection := some (toAsciiLowercase (trim field.value)) }
          (by simpa using stays field mem_cons_self connects)
        refine ⟨after, parsed, ?_, connection⟩
        rw [content]
        simp [measures]
      · rw [if_neg connects]
        obtain ⟨after, parsed, content, connection⟩ := more found opened
        refine ⟨after, parsed, ?_, connection⟩
        rw [content]
        simp [measures]

theorem parseHttpHeadFromBuf_headBytes (request : HttpRequest)
    (small : request.body.length < wordLimit) :
    parseHttpHeadFromBuf request.headBytes =
      .ok ⟨request.method, request.target, request.contentLength, true⟩ := by
  obtain ⟨after, parsed, content, connection⟩ := parseHeaderLines small request.fields_wellFormed
    request.lengths request.stays_open ⟨none, none⟩ (by simp)
  have alive : keepsAlive "HTTP/1.1".toList after.connection = true := by
    rw [keepsAlive, if_neg connection]
    split
    · rfl
    · decide
  rw [parseHttpHeadFromBuf, headBytes, fromUtf8_utf8]
  simp only [splitCrlf_fieldLines request.carriageReturn_not_mem_requestLine
    request.fields_wellFormed, splitWhitespace_requestLine, parsed]
  simp only [Except.mapError, bind, Except.bind, pure, Except.pure, content, alive, contentLength]

end HttpRequest

end WombatKV
