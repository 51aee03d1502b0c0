import WombatKV.Daemon.Wire
import WombatKV.Proofs.Radix.BlockHash

/-! Batches and manifests are read back as they were written. -/

namespace WombatKV

open List

section

@[simp] theorem lengthWord_length (length : Nat) : (lengthWord length).length = 4 := u32Le_length _

variable {cursor : Nat} {payload rest front : Bytes} {items : List Bytes}

theorem readU32_lengthWord {length : Nat} (small : length < 2 ^ 32)
    (behind : payload.drop cursor = lengthWord length ++ rest) :
    readU32 payload cursor = .ok (length, cursor + 4) := by
  have long : ¬ payload.length < cursor + 4 := by
    have counted := congrArg List.length behind
    simp only [length_drop, length_append, lengthWord_length] at counted
    omega
  have word : slice payload cursor (cursor + 4) = lengthWord length := by
    rw [slice, behind, Nat.add_sub_cancel_left, take_left' (lengthWord_length length)]
  simp only [readU32, if_neg long, word, lengthWord, fromU32Le_u32Le,
    UInt32.toNat_ofNat_of_lt' small]

theorem drop_past (behind : payload.drop cursor = front ++ rest) :
    payload.drop (cursor + front.length) = rest := by
  rw [← drop_drop, behind, drop_left]

theorem slice_at (behind : payload.drop cursor = front ++ rest) :
    slice payload cursor (cursor + front.length) = front := by
  rw [slice, behind, Nat.add_sub_cancel_left, take_left]

theorem length_past (behind : payload.drop cursor = front ++ rest)
    (started : cursor ≤ payload.length) : cursor + front.length + rest.length = payload.length := by
  have counted := congrArg List.length behind
  simp only [length_drop, length_append] at counted
  omega

theorem decodeKeys_prefixed {keys : List Text} (small : ∀ key ∈ keys, (utf8 key).length < 2 ^ 32)
    (started : cursor ≤ payload.length)
    (behind : payload.drop cursor = keys.flatMap prefixedKey ++ rest) :
    decodeKeys payload keys.length cursor =
      .ok (keys, cursor + (keys.flatMap prefixedKey).length) := by
  induction keys generalizing cursor with
  | nil => rfl
  | cons key keys ih =>
    rw [flatMap_cons, prefixedKey, append_assoc, append_assoc] at behind
    have first := readU32_lengthWord (small key mem_cons_self) behind
    have second : payload.drop (cursor + 4) = utf8 key ++ (keys.flatMap prefixedKey ++ rest) := by
      simpa using drop_past behind
    have inside := length_past behind started
    have within : cursor + 4 ≤ payload.length := by
      simp only [lengthWord_length] at inside
      omega
    have whole := length_past second within
    have others := ih (fun other member => small other (mem_cons_of_mem _ member))
      (by omega) (drop_past second)
    have long : ¬ payload.length < cursor + 4 + (utf8 key).length := by omega
    simp only [length_cons, decodeKeys, first, bind, Except.bind, if_neg long,
      slice_at second, fromUtf8_utf8, others, pure, Except.pure]
    simp only [flatMap_cons, prefixedKey, length_append, lengthWord_length]
    congr 2
    omega

theorem decodeKeyBatch_encodeKeyBatch {keys : List Text} (few : keys.length < 2 ^ 32)
    (small : ∀ key ∈ keys, (utf8 key).length < 2 ^ 32) :
    decodeKeyBatch (encodeKeyBatch keys) = .ok keys := by
  have magic : (encodeKeyBatch keys).drop keyBatchMagic.length =
      lengthWord keys.length ++ keys.flatMap prefixedKey := by
    rw [encodeKeyBatch, drop_left]
  have behind : (encodeKeyBatch keys).drop (keyBatchMagic.length + 4) =
      keys.flatMap prefixedKey ++ [] := by
    simpa using drop_past magic
  have total : (encodeKeyBatch keys).length =
      keyBatchMagic.length + 4 + (keys.flatMap prefixedKey).length := by
    simp [encodeKeyBatch, Nat.add_assoc]
  have count := readU32_lengthWord few magic
  have read := decodeKeys_prefixed small (by omega) behind
  have front : keyBatchMagic <+: encodeKeyBatch keys := prefix_append _ _
  rw [decodeKeyBatch, if_neg (not_not.mpr front), count]
  simp only [bind, Except.bind, read, total, ne_eq, not_true_eq_false, if_false]
  rfl

theorem decodeLengths_words {batch : Bytes} (small : ∀ item ∈ items, item.length < 2 ^ 32)
    (behind : batch.drop cursor = items.flatMap (fun item => lengthWord item.length) ++ rest) :
    decodeLengths batch items.length cursor =
      .ok (items.map List.length, cursor + 4 * items.length) := by
  induction items generalizing cursor with
  | nil => rfl
  | cons item items ih =>
    rw [flatMap_cons, append_assoc] at behind
    have first := readU32_lengthWord (small item mem_cons_self) behind
    have others := ih (fun other member => small other (mem_cons_of_mem _ member))
      (drop_past behind)
    rw [lengthWord_length] at others
    simp only [length_cons, decodeLengths, first, bind, Except.bind, others, pure,
      Except.pure, map_cons]
    congr 2
    omega

theorem cutPieces_flatten {batch : Bytes} {offset : Nat}
    (behind : batch.drop offset = items.flatten ++ rest) :
    cutPieces batch (items.map List.length) offset = items := by
  induction items generalizing offset with
  | nil => rfl
  | cons item items ih =>
    rw [flatten_cons, append_assoc] at behind
    rw [map_cons, cutPieces, slice_at behind, ih (drop_past behind)]

theorem decodeBytesBatch_encodeBytesBatch (few : items.length < 2 ^ 32)
    (small : ∀ item ∈ items, item.length < 2 ^ 32)
    (held : (encodeBytesBatch items).length < wordLimit) :
    decodeBytesBatch (encodeBytesBatch items) = .ok items := by
  have magic : (encodeBytesBatch items).drop bytesBatchMagic.length =
      lengthWord items.length ++
        (items.flatMap (fun item => lengthWord item.length) ++ items.flatten) := by
    rw [encodeBytesBatch, drop_left]
  have behind := drop_past magic
  rw [lengthWord_length] at behind
  have words : (items.flatMap fun item => lengthWord item.length).length = 4 * items.length := by
    simp [length_flatMap, Nat.mul_comm]
  have bodies : (encodeBytesBatch items).drop (bytesBatchMagic.length + 4 + 4 * items.length) =
      items.flatten ++ [] := by
    simpa [words] using drop_past behind
  have total : (encodeBytesBatch items).length =
      bytesBatchMagic.length + 4 + 4 * items.length + (items.map List.length).sum := by
    simp only [encodeBytesBatch, length_append, lengthWord_length, words, length_flatten]
    omega
  have count := readU32_lengthWord few magic
  have lengths := decodeLengths_words small behind
  have front : bytesBatchMagic <+: encodeBytesBatch items := prefix_append _ _
  rw [decodeBytesBatch, if_neg (not_not.mpr front), count]
  rw [total] at held
  simp only [bind, Except.bind, lengths, total, if_neg (not_le.mpr held), ne_eq,
    not_true_eq_false, if_false, cutPieces_flatten bodies]
  rfl

end

section

variable {payload : Bytes} {cursor stop : Nat}

theorem readU32_eq_ok {word : Nat} (read : readU32 payload cursor = .ok (word, stop)) :
    stop = cursor + 4 ∧ stop ≤ payload.length ∧ word < 2 ^ 32 ∧
      slice payload cursor stop = lengthWord word := by
  simp only [readU32] at read
  split at read
  · cases read
  · rename_i long
    cases read
    have four : (slice payload cursor (cursor + 4)).length = 4 := by
      rw [slice_length (by omega)]
      omega
    refine ⟨rfl, by omega, UInt32.toNat_lt _, ?_⟩
    rw [lengthWord, UInt32.ofNat_toNat, u32Le_fromU32Le four]

theorem decodeKeys_canonical {count : Nat} {keys : List Text}
    (read : decodeKeys payload count cursor = .ok (keys, stop))
    (started : cursor ≤ payload.length) :
    cursor ≤ stop ∧ stop ≤ payload.length ∧ keys.length = count ∧
      slice payload cursor stop = keys.flatMap prefixedKey := by
  induction count generalizing cursor keys with
  | zero =>
    cases read
    exact ⟨le_rfl, started, rfl, slice_eq_nil (.inr le_rfl)⟩
  | succ count ih =>
    simp only [decodeKeys, except_bind_eq_ok] at read
    obtain ⟨⟨len, middle⟩, word, read⟩ := read
    obtain ⟨rfl, inside, small, here⟩ := readU32_eq_ok word
    simp only at read
    split at read
    · cases read
    · rename_i long
      split at read
      · cases read
      · rename_i key decoded
        obtain ⟨⟨others, last⟩, rest, made⟩ := except_bind_eq_ok.mp read
        cases made
        have own := fromUtf8_eq_some.mp decoded
        obtain ⟨onward, within, counted, behind⟩ := ih rest (by omega)
        have width : (utf8 key).length = len := by
          rw [← own, slice_length (by omega)]
          omega
        refine ⟨by omega, within, by simp [counted], ?_⟩
        rw [← slice_append_slice payload (by omega : cursor ≤ cursor + 4) (by omega),
          ← slice_append_slice payload (by omega : cursor + 4 ≤ cursor + 4 + len) onward, here,
          own, behind, flatMap_cons, prefixedKey, width, append_assoc]

theorem magic_append_slice {magic : Bytes} (front : magic <+: payload) :
    magic ++ slice payload magic.length payload.length = payload := by
  rw [slice, take_of_length_le (by rw [length_drop])]
  exact prefix_iff_eq_append.mp front

theorem encodeKeyBatch_decoded {keys : List Text} (read : decodeKeyBatch payload = .ok keys) :
    encodeKeyBatch keys = payload := by
  simp only [decodeKeyBatch] at read
  split at read
  · cases read
  · rename_i front
    obtain ⟨⟨count, cursor⟩, word, read⟩ := except_bind_eq_ok.mp read
    obtain ⟨rfl, inside, small, here⟩ := readU32_eq_ok word
    obtain ⟨⟨found, last⟩, body, read⟩ := except_bind_eq_ok.mp read
    obtain ⟨onward, within, counted, behind⟩ := decodeKeys_canonical body inside
    simp only at read
    split at read
    · cases read
    · rename_i whole
      cases read
      obtain rfl := not_not.mp whole
      rw [encodeKeyBatch, counted, ← here, ← behind, slice_append_slice payload (by omega) onward]
      exact magic_append_slice (not_not.mp front)

theorem decodeLengths_canonical {count : Nat} {lengths : List Nat}
    (read : decodeLengths payload count cursor = .ok (lengths, stop))
    (started : cursor ≤ payload.length) :
    cursor ≤ stop ∧ stop ≤ payload.length ∧ lengths.length = count ∧
      slice payload cursor stop = lengths.flatMap lengthWord ∧ ∀ len ∈ lengths, len < 2 ^ 32 := by
  induction count generalizing cursor lengths with
  | zero =>
    cases read
    exact ⟨le_rfl, started, rfl, slice_eq_nil (.inr le_rfl), by simp⟩
  | succ count ih =>
    simp only [decodeLengths, except_bind_eq_ok] at read
    obtain ⟨⟨len, middle⟩, word, ⟨others, last⟩, rest, made⟩ := read
    obtain ⟨rfl, inside, small, here⟩ := readU32_eq_ok word
    cases made
    obtain ⟨onward, within, counted, behind, short⟩ := ih rest inside
    refine ⟨by omega, within, by simp [counted], ?_, forall_mem_cons.mpr ⟨small, short⟩⟩
    rw [← slice_append_slice payload (by omega : cursor ≤ cursor + 4) onward, here, behind,
      flatMap_cons]

theorem cutPieces_canonical {lengths : List Nat} (inside : cursor + lengths.sum ≤ payload.length) :
    (cutPieces payload lengths cursor).map List.length = lengths ∧
      (cutPieces payload lengths cursor).flatten = slice payload cursor (cursor + lengths.sum) := by
  induction lengths generalizing cursor with
  | nil => exact ⟨rfl, (slice_eq_nil (.inr le_rfl)).symm⟩
  | cons len lengths ih =>
    rw [sum_cons] at inside ⊢
    obtain ⟨widths, pieces⟩ := ih (by omega : cursor + len + lengths.sum ≤ payload.length)
    refine ⟨?_, ?_⟩
    · rw [cutPieces, map_cons, widths, slice_length (by omega), Nat.add_sub_cancel_left]
    · rw [cutPieces, flatten_cons, pieces, Nat.add_assoc,
        slice_append_slice payload (by omega) (by omega)]

theorem encodeBytesBatch_decoded {items : List Bytes}
    (read : decodeBytesBatch payload = .ok items) :
    encodeBytesBatch items = payload ∧ ∀ item ∈ items, item.length < 2 ^ 32 := by
  simp only [decodeBytesBatch] at read
  split at read
  · cases read
  · rename_i front
    obtain ⟨⟨count, cursor⟩, word, read⟩ := except_bind_eq_ok.mp read
    obtain ⟨rfl, inside, small, here⟩ := readU32_eq_ok word
    obtain ⟨⟨lengths, start⟩, body, read⟩ := except_bind_eq_ok.mp read
    obtain ⟨onward, within, counted, behind, short⟩ := decodeLengths_canonical body inside
    simp only at read
    split at read
    · cases read
    · split at read
      · cases read
      · rename_i _ whole
        cases read
        have whole : start + lengths.sum = payload.length := not_not.mp whole
        obtain ⟨widths, pieces⟩ := cutPieces_canonical whole.le
        have counts := congrArg List.length widths
        rw [length_map] at counts
        have words : (cutPieces payload lengths start).flatMap (fun item => lengthWord item.length) =
            lengths.flatMap lengthWord := by
          conv_rhs => rw [← widths, flatMap_map]
        refine ⟨?_, fun item member => short _ (widths ▸ mem_map_of_mem member)⟩
        rw [encodeBytesBatch, counts, counted, words, pieces, ← here, ← behind, whole,
          slice_append_slice payload onward within, slice_append_slice payload (by omega) (by omega)]
        exact magic_append_slice (not_not.mp front)

theorem mapError_bind {ε ε' α β : Type} (change : ε → ε') (first : Except ε α)
    (next : α → Except ε β) : (first >>= next).mapError change =
      first.mapError change >>= fun value => (next value).mapError change := by
  cases first <;> rfl

theorem checkedU32_eq : checkedU32 payload cursor = (readU32 payload cursor).mapError .failed := by
  simp only [checkedU32, readU32]
  split
  · rfl
  · rw [Checked.range_eq_ok (by omega) (by omega)]
    rfl

theorem checkedKeys_eq (count : Nat) :
    checkedKeys payload count cursor = (decodeKeys payload count cursor).mapError .failed := by
  induction count generalizing cursor with
  | zero => rfl
  | succ count ih =>
    rw [checkedKeys, decodeKeys, checkedU32_eq, mapError_bind]
    congr 1
    funext ⟨len, cursor⟩
    simp only
    split
    · rfl
    · rw [Checked.range_eq_ok (by omega) (by omega)]
      simp only [bind, Except.bind]
      cases fromUtf8 (slice payload cursor (cursor + len)) with
      | none => rfl
      | some key =>
        simp only [ih]
        cases decodeKeys payload count (cursor + len) <;> rfl

theorem checkedLengths_eq (count : Nat) :
    checkedLengths payload count cursor =
      (decodeLengths payload count cursor).mapError .failed := by
  induction count generalizing cursor with
  | zero => rfl
  | succ count ih =>
    rw [checkedLengths, decodeLengths, checkedU32_eq, mapError_bind]
    congr 1
    funext ⟨len, cursor⟩
    simp only [ih]
    cases decodeLengths payload count cursor <;> rfl

theorem checkedPieces_eq {lengths : List Nat} (inside : cursor + lengths.sum ≤ payload.length) :
    checkedPieces payload lengths cursor = .ok (cutPieces payload lengths cursor) := by
  induction lengths generalizing cursor with
  | nil => rfl
  | cons len lengths ih =>
    rw [sum_cons] at inside
    rw [checkedPieces, Checked.range_eq_ok (by omega) (by omega)]
    simp only [bind, Except.bind, ih (by omega : cursor + len + lengths.sum ≤ payload.length)]
    rfl

theorem range_magic (magic : Bytes) :
    (Checked.range payload 0 (min magic.length payload.length) : Checked WireCodecError Bytes) =
      .ok (payload.take magic.length) := by
  rw [Checked.range_eq_ok (Nat.zero_le _) (Nat.min_le_right _ _), slice_min_length, slice]
  rfl

theorem checkedKeyBatch_eq (payload : Bytes) :
    checkedKeyBatch payload = (decodeKeyBatch payload).mapError .failed := by
  rw [checkedKeyBatch, decodeKeyBatch]
  split
  · rw [range_magic]
    rfl
  · rw [checkedU32_eq, mapError_bind]
    congr 1
    funext ⟨count, cursor⟩
    simp only
    rw [checkedKeys_eq, mapError_bind]
    congr 1
    funext ⟨keys, cursor⟩
    simp only
    split <;> rfl

theorem checkedBytesBatch_eq (batch : Bytes) :
    checkedBytesBatch batch = (decodeBytesBatch batch).mapError .failed := by
  rw [checkedBytesBatch, decodeBytesBatch]
  split
  · rw [range_magic]
    rfl
  · rw [checkedU32_eq, mapError_bind]
    congr 1
    funext ⟨count, cursor⟩
    simp only
    rw [checkedLengths_eq, mapError_bind]
    congr 1
    funext ⟨lengths, start⟩
    simp only
    split
    · rfl
    · split
      · rfl
      · -- The pieces add up to what is behind the lengths, so none of them reaches further.
        rename_i whole
        rw [checkedPieces_eq (not_not.mp whole).le]
        rfl

/-- The batch codecs are exact, and the decoders stay inside the bytes. -/
theorem batch_codecs_exact :
    (∀ keys : List Text, keys.length < 2 ^ 32 → (∀ key ∈ keys, (utf8 key).length < 2 ^ 32) →
      decodeKeyBatch (encodeKeyBatch keys) = .ok keys) ∧
    (∀ items : List Bytes, items.length < 2 ^ 32 → (∀ item ∈ items, item.length < 2 ^ 32) →
      (encodeBytesBatch items).length < wordLimit →
      decodeBytesBatch (encodeBytesBatch items) = .ok items) ∧
    (∀ payload keys, decodeKeyBatch payload = .ok keys → encodeKeyBatch keys = payload) ∧
    (∀ batch items, decodeBytesBatch batch = .ok items → encodeBytesBatch items = batch) ∧
    (∀ payload, checkedKeyBatch payload = (decodeKeyBatch payload).mapError .failed) ∧
    ∀ batch, checkedBytesBatch batch = (decodeBytesBatch batch).mapError .failed :=
  ⟨fun _ few small => decodeKeyBatch_encodeKeyBatch few small,
    fun _ few small held => decodeBytesBatch_encodeBytesBatch few small held,
    fun _ _ read => encodeKeyBatch_decoded read, fun _ _ read => (encodeBytesBatch_decoded read).1,
    checkedKeyBatch_eq, checkedBytesBatch_eq⟩

theorem batch_codecs_exact_pair :
    decodeBytesBatch (encodeBytesBatch [[65, 66], []]) = .ok [[65, 66], []] :=
  batch_codecs_exact.2.1 _ (by decide) (all_iff_forall_prop.mp (by decide)) (by decide)

end

theorem not_mem_hexLower {char : Char} (other : ∀ half < 16, Nat.digitChar half ≠ char)
    (bytes : Bytes) : char ∉ hexLower bytes := by
  intro member
  obtain ⟨byte, -, written⟩ := mem_flatMap.mp member
  obtain ⟨high, low, -⟩ := byte_halves byte
  simp only [hexPair, mem_cons, not_mem_nil, or_false] at written
  rcases written with rfl | rfl
  · exact other _ high rfl
  · exact other _ low rfl

theorem hexLower_length (bytes : Bytes) : (hexLower bytes).length = 2 * bytes.length := by
  simp [hexLower, hexPair, length_flatMap, Nat.mul_comm]

theorem hexLower_toList_inj {left right : BlockHash}
    (same : hexLower left.toList = hexLower right.toList) : left = right := by
  simpa [decodeHex32_hexLower] using congrArg (fun text => decodeHex32 (utf8 text)) same

section Names

variable (blake3 : Bytes → BlockHash)

@[simp] theorem largePayloadId_length (ns key : Text) (payload : Bytes) :
    (largePayloadId blake3 ns key payload).length = 64 := by
  rw [largePayloadId, hexLower_length, Vector.length_toList]

theorem blake3_eq_of_largePayloadId {ns ns' key key' : Text} {payload payload' : Bytes}
    (same : largePayloadId blake3 ns key payload = largePayloadId blake3 ns' key' payload') :
    blake3 (largePayloadInput ns key payload) = blake3 (largePayloadInput ns' key' payload') :=
  hexLower_toList_inj same

end Names

theorem largePayloadInput_payload {ns key : Text} {left right : Bytes}
    (same : largePayloadInput ns key left = largePayloadInput ns key right) : left = right := by
  simp only [largePayloadInput, append_cancel_left_eq] at same
  exact (append_inj same (by simp)).2

theorem largeChunkKey_reserved (id : Text) (index : Nat) :
    largeChunkKeyPrefix <+: largeChunkKey id index := prefix_append _ _

theorem largeChunkKey_inj {id id' : Text} {index index' : Nat} (length : id.length = id'.length)
    (same : largeChunkKey id index = largeChunkKey id' index') : id = id' ∧ index = index' := by
  simp only [largeChunkKey, append_cancel_left_eq, List.cons.injEq, true_and] at same
  obtain ⟨ids, rest⟩ := append_inj same length
  exact ⟨ids, paddedNat_injective 8 (List.cons.inj rest).2⟩

theorem parseLargeManifest_largeManifest {id : Text} {totalLen chunkCount : Nat} (feed : '\n' ∉ id)
    (carriage : '\r' ∉ id) (total : totalLen < wordLimit) (count : chunkCount < wordLimit) :
    parseLargeManifest (utf8 (largeManifest id totalLen chunkCount)) =
      some ⟨id, totalLen, chunkCount⟩ := by
  have read : lines (largeManifest id totalLen chunkCount) =
      [largeManifestMagic, id, natText totalLen, natText chunkCount] := by
    have digits : ∀ number, '\n' ∉ natText number ∧ '\r' ∉ natText number :=
      fun number => ⟨not_mem_natText (by decide) number, not_mem_natText (by decide) number⟩
    have ended : natText chunkCount ++ ['\n'] = natText chunkCount ++ '\n' :: [] := rfl
    rw [largeManifest, lines_append (by decide) (by decide), lines_append feed carriage,
      lines_append (digits _).1 (digits _).2, ended, lines_append (digits _).1 (digits _).2]
    rfl
  simp [parseLargeManifest, read, parseUsize_natText total, parseUsize_natText count]

theorem parseLargeManifest_of_not_mem {payload : Bytes} (absent : (10 : UInt8) ∉ payload) :
    parseLargeManifest payload = none := by
  rw [parseLargeManifest]
  cases read : fromUtf8 payload with
  | none => rfl
  | some text =>
    obtain rfl := fromUtf8_eq_some.mp read
    have feed : '\n' ∉ text := fun inside =>
      absent (mem_flatMap.mpr ⟨'\n', inside, by decide⟩)
    rw [Option.bind_eq_bind, Option.bind_some, lines, linesFrom_of_not_mem [] feed]
    by_cases empty : [] ++ text = []
    · rw [if_pos empty]
    · rw [if_neg empty]

theorem flatMap_payloadChunk_range (payload : Bytes) (count : Nat) :
    (List.range count).flatMap (payloadChunk payload) = payload.take (count * largeChunkBytes) := by
  induction count with
  | zero => simp
  | succ count ih =>
    rw [range_succ, flatMap_append, ih, flatMap_singleton, payloadChunk, Nat.succ_mul, take_add]

theorem flatMap_payloadChunk (payload : Bytes) :
    (List.range (chunkCount payload)).flatMap (payloadChunk payload) = payload := by
  rw [flatMap_payloadChunk_range, take_of_length_le]
  have size : largeChunkBytes = 4190192 := by decide
  rw [chunkCount, size]
  omega

theorem chunkCount_le (payload : Bytes) : chunkCount payload ≤ payload.length := by
  have size : largeChunkBytes = 4190192 := by decide
  rw [chunkCount, size]
  omega

def framePart (part : Bytes) : Bytes := List.replicate part.length 1 ++ 0 :: part

def countOnes : Nat → Bytes → Option (Nat × Bytes)
  | _, [] => none
  | count, byte :: rest =>
    if byte = 1 then countOnes (count + 1) rest
    else if byte = 0 then some (count, rest)
    else none

def readPart (bytes : Bytes) : Option (Bytes × Bytes) :=
  (countOnes 0 bytes).bind fun (length, rest) => readExact length rest

theorem countOnes_replicate (count more : Nat) (rest : Bytes) :
    countOnes count (List.replicate more 1 ++ 0 :: rest) = some (count + more, rest) := by
  induction more generalizing count with
  | zero => rfl
  | succ more ih =>
    rw [replicate_succ, cons_append, countOnes, if_pos rfl, ih]
    congr 2
    omega

theorem readPart_framePart (part rest : Bytes) :
    readPart (framePart part ++ rest) = some (part, rest) := by
  rw [readPart, framePart, append_assoc, cons_append, countOnes_replicate, Nat.zero_add,
    Option.bind_some]
  exact readExact_append rfl rest

theorem word_leBytes (word : UInt64) : UInt64.ofNat (fromLe (leBytes 8 word.toNat)) = word := by
  have small : word.toNat < 256 ^ 8 := word.toNat_lt
  rw [fromLe_leBytes_of_lt small, UInt64.ofNat_toNat]

/-- An archive of requests that writes each field behind its length. -/
def plainRequests : Archive WireRequest where
  toBytes request := framePart (leBytes 8 request.id.toNat) ++ (framePart [request.op] ++
    (framePart (utf8 request.ns) ++ (framePart (utf8 request.key) ++
      (framePart request.payload ++ []))))
  fromBytes bytes := do
    let (id, bytes) ← readPart bytes
    let (op, bytes) ← readPart bytes
    let (ns, bytes) ← readPart bytes
    let (key, bytes) ← readPart bytes
    let (payload, _) ← readPart bytes
    return ⟨UInt64.ofNat (fromLe id), op.headD 0, ← fromUtf8 ns, ← fromUtf8 key, payload⟩
  fromBytes_toBytes request := by
    simp only [readPart_framePart, Option.bind_eq_bind, Option.bind_some, fromUtf8_utf8,
      word_leBytes, headD_cons, Option.pure_def]

def plainResponses : Archive WireResponse where
  toBytes response := (framePart (leBytes 8 response.id.toNat) ++ (framePart [response.status] ++
    (framePart [response.op] ++ (framePart (utf8 response.message) ++
      (framePart response.payload.reverse ++ []))))).reverse
  fromBytes bytes := do
    let (id, bytes) ← readPart bytes.reverse
    let (status, bytes) ← readPart bytes
    let (op, bytes) ← readPart bytes
    let (message, bytes) ← readPart bytes
    let (payload, _) ← readPart bytes
    return ⟨UInt64.ofNat (fromLe id), status.headD 0, op.headD 0, payload.reverse,
      ← fromUtf8 message⟩
  fromBytes_toBytes response := by
    simp only [reverse_reverse, readPart_framePart, Option.bind_eq_bind, Option.bind_some,
      fromUtf8_utf8, word_leBytes, headD_cons, Option.pure_def]

theorem length_plainResponses (response : WireResponse) :
    (plainResponses.toBytes response).length =
      2 * response.payload.length + 2 * (utf8 response.message).length + 25 := by
  simp [plainResponses, framePart]
  omega

end WombatKV
