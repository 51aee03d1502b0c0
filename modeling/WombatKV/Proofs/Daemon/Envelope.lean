import WombatKV.Daemon.Envelope

/-! Envelopes are decoded exactly, and streams frame by frame. -/

namespace WombatKV

open Call List

@[simp] theorem EnvelopeHeader.bytes_length (header : EnvelopeHeader) :
    header.bytes.length = wireEnvelopeBytes := by
  have magic : wireEnvelopeMagic.length = 4 := by decide
  simp [EnvelopeHeader.bytes, wireEnvelopeBytes, magic]

theorem decodeEnvelopeHeader_eq_ok {bytes : Bytes} (length : bytes.length = wireEnvelopeBytes)
    (header : EnvelopeHeader) : decodeEnvelopeHeader bytes = .ok header ↔ bytes = header.bytes := by
  have sixteen : bytes.length = 16 := length
  constructor
  · intro decoded
    have fields : bytes = slice bytes 0 4 ++ (slice bytes 4 8 ++
        (slice bytes 8 12 ++ slice bytes 12 16)) := by
      rw [slice_append_slice bytes (by decide) (by decide),
        slice_append_slice bytes (by decide) (by decide),
        slice_append_slice bytes (by decide) (by decide), slice, ← sixteen]
      simp
    have word : ∀ start, start + 4 ≤ 16 →
        u32Le (fromU32Le (slice bytes start (start + 4))) = slice bytes start (start + 4) := by
      intro start inside
      exact u32Le_fromU32Le (by rw [slice_length (by omega)]; omega)
    simp only [decodeEnvelopeHeader] at decoded
    split at decoded
    · cases decoded
    · rename_i magic
      split at decoded
      · cases decoded
      · rename_i version
        cases decoded
        rw [EnvelopeHeader.bytes, ← not_not.mp magic, ← not_not.mp version,
          word 4 (by decide), word 8 (by decide), word 12 (by decide)]
        exact fields
  · rintro rfl
    have magic : wireEnvelopeMagic.length = 4 := by decide
    have first : slice header.bytes 0 4 = wireEnvelopeMagic := slice_append_left magic
    have second : slice header.bytes 4 8 = u32Le wireEnvelopeVersion := by
      rw [EnvelopeHeader.bytes, slice_append_right (by simp [magic]), magic]
      exact slice_append_left (u32Le_length _)
    have third : slice header.bytes 8 12 = u32Le header.crc := by
      rw [EnvelopeHeader.bytes, slice_append_right (by simp [magic]),
        slice_append_right (by simp [magic]), magic, u32Le_length]
      exact slice_append_left (u32Le_length _)
    have fourth : slice header.bytes 12 16 = u32Le header.len := by
      rw [EnvelopeHeader.bytes, slice_append_right (by simp [magic]),
        slice_append_right (by simp [magic]), slice_append_right (by simp [magic]), magic,
        u32Le_length, u32Le_length]
      exact take_of_length_le (u32Le_length header.len).le
    simp only [decodeEnvelopeHeader, first, second, third, fourth, fromU32Le_u32Le, ne_eq,
      not_true_eq_false, if_false]

section Checksum

variable (crc32c : Bytes → UInt32) {body stream : Bytes}

theorem headerFor_len (small : body.length < 2 ^ 32) :
    (headerFor crc32c body).len.toNat = body.length :=
  UInt32.toNat_ofNat_of_lt' small

theorem verifyEnvelopeCrc_eq_ok {header : EnvelopeHeader} :
    verifyEnvelopeCrc crc32c header body = .ok () ↔
      body.length < 2 ^ 32 ∧ header = headerFor crc32c body := by
  constructor
  · intro verified
    simp only [verifyEnvelopeCrc] at verified
    split at verified
    · cases verified
    · rename_i length
      split at verified
      · cases verified
      · rename_i crc
        have length := not_not.mp length
        refine ⟨length ▸ header.len.toNat_lt, ?_⟩
        cases header
        simp_all [headerFor]
  · rintro ⟨small, rfl⟩
    have length := headerFor_len crc32c small
    simp only [verifyEnvelopeCrc, length, ne_eq, not_true_eq_false, if_false]
    simp [headerFor]

theorem decodeEnvelope_eq_ok {bytes : Bytes} :
    decodeEnvelope crc32c bytes = .ok body ↔ encodeEnvelope crc32c body = some bytes := by
  constructor
  · intro decoded
    simp only [decodeEnvelope] at decoded
    split at decoded
    · cases decoded
    · rename_i long
      obtain ⟨header, headed, decoded⟩ := except_bind_eq_ok.mp decoded
      have width : (bytes.take wireEnvelopeBytes).length = wireEnvelopeBytes := by
        rw [length_take]
        omega
      have front := (decodeEnvelopeHeader_eq_ok width header).mp headed
      split at decoded
      · cases decoded
      · rename_i whole
        obtain ⟨_, verified, answered⟩ := except_bind_eq_ok.mp decoded
        have behind : slice bytes wireEnvelopeBytes (wireEnvelopeBytes + header.len.toNat) =
            bytes.drop wireEnvelopeBytes := by
          rw [slice, take_of_length_le]
          rw [length_drop]
          omega
        cases answered
        rw [behind] at verified ⊢
        obtain ⟨small, rfl⟩ := (verifyEnvelopeCrc_eq_ok crc32c).mp verified
        rw [encodeEnvelope, if_pos small, envelopeOf, ← front, take_append_drop]
  · intro encoded
    rw [encodeEnvelope] at encoded
    split at encoded
    · rename_i small
      cases encoded
      have header := EnvelopeHeader.bytes_length (headerFor crc32c body)
      have headed : decodeEnvelopeHeader ((envelopeOf crc32c body).take wireEnvelopeBytes) =
          .ok (headerFor crc32c body) := by
        rw [envelopeOf, take_left' header]
        exact (decodeEnvelopeHeader_eq_ok header _).mpr rfl
      have length : (envelopeOf crc32c body).length =
          wireEnvelopeBytes + (headerFor crc32c body).len.toNat := by
        rw [envelopeOf, length_append, header, headerFor_len crc32c small]
      have behind : slice (envelopeOf crc32c body) wireEnvelopeBytes
          (wireEnvelopeBytes + (headerFor crc32c body).len.toNat) = body := by
        rw [envelopeOf, slice_append_right header.le, header, headerFor_len crc32c small, slice]
        simp
      rw [decodeEnvelope, if_neg (by omega), headed]
      simp only [bind, Except.bind, length, ne_eq, not_true_eq_false, if_false, behind,
        (verifyEnvelopeCrc_eq_ok crc32c).mpr ⟨small, rfl⟩]
      rfl
    · cases encoded

theorem readFrame_envelopeOf (allowed : body.length ≤ maxFrameBytes) (rest : Bytes) :
    readFrame crc32c (envelopeOf crc32c body ++ rest) = .frame body rest := by
  have small : body.length < 2 ^ 32 := lt_of_le_of_lt allowed (by decide)
  have header := EnvelopeHeader.bytes_length (headerFor crc32c body)
  have length := headerFor_len crc32c small
  rw [readFrame, envelopeOf, append_assoc, readExact_append header]
  simp only [(decodeEnvelopeHeader_eq_ok header _).mpr rfl, length, if_neg (not_lt.mpr allowed),
    readExact_append (rfl : body.length = body.length),
    (verifyEnvelopeCrc_eq_ok crc32c).mpr ⟨small, rfl⟩]

theorem readFrame_cut (allowed : body.length ≤ maxFrameBytes)
    (start : stream <+: envelopeOf crc32c body)
    (cut : stream.length < (envelopeOf crc32c body).length) :
    readFrame crc32c stream = .closed := by
  have small : body.length < 2 ^ 32 := lt_of_le_of_lt allowed (by decide)
  have header := EnvelopeHeader.bytes_length (headerFor crc32c body)
  have length := headerFor_len crc32c small
  by_cases inHeader : stream.length < wireEnvelopeBytes
  · rw [readFrame, readExact_short inHeader]
  · -- The header is whole, so the stream is the header and a part of the body.
    obtain ⟨part, rfl⟩ : (headerFor crc32c body).bytes <+: stream :=
      prefix_of_prefix_length_le (prefix_append _ _) start (by omega)
    have short : part.length < body.length := by
      simp only [envelopeOf, length_append] at cut
      omega
    rw [readFrame, readExact_append header]
    simp only [(decodeEnvelopeHeader_eq_ok header _).mpr rfl, length,
      if_neg (not_lt.mpr allowed), readExact_short short]

theorem readFrame_eq_frame {rest : Bytes} (read : readFrame crc32c stream = .frame body rest) :
    stream = envelopeOf crc32c body ++ rest ∧ body.length ≤ maxFrameBytes := by
  unfold readFrame at read
  split at read
  · cases read
  · rename_i headerBytes behind first
    obtain ⟨rfl, width⟩ := readExact_eq_some.mp first
    split at read
    · cases read
    · rename_i header headed
      simp only at read
      split at read
      · cases read
      · rename_i allowed
        split at read
        · cases read
        · rename_i served left second
          obtain ⟨rfl, length⟩ := readExact_eq_some.mp second
          split at read
          · cases read
          · rename_i verified
            cases read
            obtain ⟨-, rfl⟩ := (verifyEnvelopeCrc_eq_ok crc32c).mp verified
            have front := (decodeEnvelopeHeader_eq_ok width _).mp headed
            exact ⟨by rw [front, envelopeOf, append_assoc], by omega⟩

variable {σ : Type} (serve : Bytes → Call TcpServerError σ Unit)

theorem readFrame_shorter {rest : Bytes} (read : readFrame crc32c stream = .frame body rest) :
    rest.length < stream.length := by
  obtain ⟨shape, -⟩ := readFrame_eq_frame crc32c read
  rw [shape, envelopeOf, length_append, length_append, EnvelopeHeader.bytes_length,
    wireEnvelopeBytes]
  omega

theorem connectionTurns_succ {turns : Nat} (enough : stream.length ≤ turns) :
    connectionTurns crc32c serve (turns + 1) stream = connectionTurns crc32c serve turns stream := by
  induction turns generalizing stream with
  | zero =>
    have empty : stream = [] := length_eq_zero_iff.mp (Nat.le_zero.mp enough)
    subst empty
    rfl
  | succ turns ih =>
    rw [connectionTurns, connectionTurns]
    split
    · rfl
    · rfl
    · rename_i body rest read
      have shorter := readFrame_shorter crc32c read
      rw [ih (by omega)]

theorem connectionTurns_enough {turns : Nat} (enough : stream.length ≤ turns) :
    connectionTurns crc32c serve turns stream = handleConnection crc32c serve stream := by
  induction turns, enough using Nat.le_induction with
  | base => rfl
  | succ turns enough ih => rw [connectionTurns_succ crc32c serve enough, ih]

theorem handleConnection_eq (stream : Bytes) :
    handleConnection crc32c serve stream =
      match readFrame crc32c stream with
      | .closed => pure ()
      | .failed error => throw error
      | .frame body rest => serve body >>= fun _ => handleConnection crc32c serve rest := by
  rw [← connectionTurns_enough crc32c serve (Nat.le_succ stream.length), connectionTurns]
  cases read : readFrame crc32c stream with
  | closed => rfl
  | failed error => rfl
  | frame body rest =>
    simp only [connectionTurns_enough crc32c serve (readFrame_shorter crc32c read).le]

theorem handleConnection_prefix {bodies : List Bytes}
    (allowed : ∀ body ∈ bodies, body.length ≤ maxFrameBytes)
    (start : stream <+: bodies.flatMap (envelopeOf crc32c)) :
    ∃ whole ≤ bodies.length,
      ((bodies.take whole).flatMap (envelopeOf crc32c)).length ≤ stream.length ∧
      (whole < bodies.length →
        stream.length < ((bodies.take (whole + 1)).flatMap (envelopeOf crc32c)).length) ∧
      handleConnection crc32c serve stream = forM (bodies.take whole) serve := by
  induction bodies generalizing stream with
  | nil =>
    have empty : stream = [] := prefix_nil.mp start
    subst empty
    exact ⟨0, le_rfl, le_rfl, fun fewer => absurd fewer (by decide), rfl⟩
  | cons body bodies ih =>
    have fits := allowed body mem_cons_self
    rw [flatMap_cons] at start
    by_cases cut : stream.length < (envelopeOf crc32c body).length
    · have inside : stream <+: envelopeOf crc32c body :=
        prefix_of_prefix_length_le start (prefix_append _ _) cut.le
      refine ⟨0, Nat.zero_le _, Nat.zero_le _, fun _ => by simpa using cut, ?_⟩
      rw [handleConnection_eq, readFrame_cut crc32c fits inside cut]
      rfl
    · obtain ⟨rest, rfl⟩ : envelopeOf crc32c body <+: stream :=
        prefix_of_prefix_length_le (prefix_append _ _) start (by omega)
      obtain ⟨whole, bound, covered, next, served⟩ :=
        ih (fun other member => allowed other (mem_cons_of_mem _ member))
          ((prefix_append_right_inj _).mp start)
      refine ⟨whole + 1, by simpa using bound, ?_, ?_, ?_⟩
      · simpa using covered
      · intro fewer
        simpa using next (by simpa using fewer)
      · rw [handleConnection_eq, readFrame_envelopeOf crc32c fits, take_succ_cons,
          forM_cons, ← served]

theorem forM_note (bodies read : List Bytes) :
    (forM bodies fun body => (modify (· ++ [body]) : Call TcpServerError (List Bytes) PUnit)) read =
      (.ok (), read ++ bodies) := by
  induction bodies generalizing read with
  | nil => simp
  | cons body bodies ih =>
    rw [forM_cons, modify_bind_apply, ih, append_assoc, singleton_append]

end Checksum

/--
Exactly its own envelope decodes to a body; and of a stream of envelopes, cut at any byte, the
connection loop reads the bodies of the whole ones, in order and nothing else, and ends well.
-/
theorem envelope_exact_and_streams (crc32c : Bytes → UInt32) :
    (∀ bytes body, decodeEnvelope crc32c bytes = .ok body ↔
      encodeEnvelope crc32c body = some bytes) ∧
    ∀ bodies : List Bytes, (∀ body ∈ bodies, body.length ≤ maxFrameBytes) →
      (∀ body ∈ bodies, encodeEnvelope crc32c body = some (envelopeOf crc32c body)) ∧
      ∀ stream, stream <+: bodies.flatMap (envelopeOf crc32c) →
        ∃ whole ≤ bodies.length,
          ((bodies.take whole).flatMap (envelopeOf crc32c)).length ≤ stream.length ∧
          (whole < bodies.length →
            stream.length < ((bodies.take (whole + 1)).flatMap (envelopeOf crc32c)).length) ∧
          readFrames crc32c stream = (.ok (), bodies.take whole) := by
  refine ⟨fun bytes body => decodeEnvelope_eq_ok crc32c, fun bodies allowed => ⟨?_, ?_⟩⟩
  · intro body member
    exact if_pos (lt_of_le_of_lt (allowed body member) (by decide))
  · intro stream start
    obtain ⟨whole, bound, covered, next, served⟩ := handleConnection_prefix crc32c
      (fun body => modify (· ++ [body])) allowed start
    refine ⟨whole, bound, covered, next, ?_⟩
    rw [readFrames, served, forM_note, nil_append]

theorem envelope_exact_and_streams_twoBodies :
    ∃ whole ≤ 2, readFrames (fun _ => 7)
        (([[1, 2], [3]] : List Bytes).flatMap (envelopeOf fun _ => 7)).dropLast =
      (.ok (), ([[1, 2], [3]] : List Bytes).take whole) := by
  obtain ⟨whole, bound, -, -, read⟩ :=
    ((envelope_exact_and_streams fun _ => 7).2 [[1, 2], [3]] (by decide)).2 _
      (List.dropLast_prefix _)
  exact ⟨whole, bound, read⟩

end WombatKV
