import WombatKV.Format.Segment
import WombatKV.Proofs.Format.WalRecord

/-! The index of a segment is read back, and reads stay inside. -/

namespace WombatKV

open List

variable {bytes : Bytes}

theorem Checked.range_part {ε : Type} {part : Bytes} (before rest : Bytes) {start stop : Nat}
    (laid : bytes = before ++ (part ++ rest)) (starts : before.length = start)
    (ends : start + part.length = stop) :
    (Checked.range bytes start stop : Checked ε Bytes) = .ok part := by
  have inside : stop ≤ bytes.length := by
    simp only [laid, length_append]
    omega
  rw [Checked.range_eq_ok (by omega) inside, slice_part before rest laid starts ends]

structure Located (segment : Bytes) (entry : SegmentIndexEntry) (block : Bytes × Bytes) :
    Prop where
  key : entry.key = block.1
  inside : entry.payloadOffset.toNat + entry.payloadLen.toNat ≤ segment.length
  payload : slice segment entry.payloadOffset.toNat
    (entry.payloadOffset.toNat + entry.payloadLen.toNat) = block.2

theorem Located.append {segment : Bytes} {entry : SegmentIndexEntry} {block : Bytes × Bytes}
    (located : Located segment entry block) (more : Bytes) :
    Located (segment ++ more) entry block where
  key := located.key
  inside := by
    have inside := located.inside
    rw [length_append]
    omega
  payload := by rw [slice_append_of_le located.inside, located.payload]

theorem encodeSegmentBlocks_located {blocks : List (Bytes × Bytes)} {out after : Bytes}
    {entries found : List SegmentIndexEntry}
    (encoded : encodeSegmentBlocks out entries blocks = .ok (after, found)) :
    ∃ more added, after = out ++ more ∧ found = entries ++ added ∧
      List.Forall₂ (Located after) added blocks := by
  induction blocks generalizing out entries with
  | nil =>
    cases encoded
    exact ⟨[], [], (append_nil _).symm, (append_nil _).symm, .nil⟩
  | cons block rest ih =>
    obtain ⟨key, payload⟩ := block
    simp only [encodeSegmentBlocks, except_bind_eq_ok, tryLength_eq_ok] at encoded
    obtain ⟨_, ⟨keyFits, rfl⟩, _, ⟨payloadFits, rfl⟩, _, ⟨offsetFits, rfl⟩, encoded⟩ := encoded
    obtain ⟨more, added, written, listed, located⟩ := ih encoded
    have offset : (UInt32.ofNat (out.length + 2 + 4 + key.length)).toNat =
        out.length + 2 + 4 + key.length := UInt32.toNat_ofNat_of_lt' offsetFits
    have length : (UInt32.ofNat payload.length).toNat = payload.length :=
      UInt32.toNat_ofNat_of_lt' payloadFits
    have laid : after = (out ++ (leBytes 2 key.length ++ (leBytes 4 payload.length ++ key))) ++
        (payload ++ more) := by
      simp only [written, append_assoc]
    have before : (out ++ (leBytes 2 key.length ++ (leBytes 4 payload.length ++ key))).length =
        out.length + 2 + 4 + key.length := by
      simp only [length_append, leBytes_length]
      omega
    refine ⟨leBytes 2 key.length ++ (leBytes 4 payload.length ++ (key ++ payload)) ++ more,
      ⟨key, UInt32.ofNat (out.length + 2 + 4 + key.length), UInt32.ofNat payload.length⟩ :: added,
      ?_, ?_, .cons ⟨rfl, ?_, ?_⟩ located⟩
    · rw [written, append_assoc]
    · rw [listed, append_assoc, singleton_append]
    · show UInt32.toNat _ + UInt32.toNat _ ≤ after.length
      rw [offset, length, laid, length_append, before, length_append]
      omega
    · show slice after (UInt32.toNat _) (UInt32.toNat _ + UInt32.toNat _) = payload
      rw [offset, length]
      exact slice_part _ _ laid before rfl

theorem encodeSegmentIndex_cons {entry : SegmentIndexEntry} {rest : List SegmentIndexEntry}
    (encoded : encodeSegmentIndex (entry :: rest) = .ok bytes) :
    entry.key.length < 256 ^ 2 ∧ ∃ behind, encodeSegmentIndex rest = .ok behind ∧
      bytes = leBytes 2 entry.key.length ++ (entry.key ++ (u32Le entry.payloadOffset ++
        (u32Le entry.payloadLen ++ behind))) := by
  simp only [encodeSegmentIndex, except_bind_eq_ok, tryLength_eq_ok] at encoded
  obtain ⟨_, ⟨fits, rfl⟩, behind, restEncoded, written⟩ := encoded
  exact ⟨fits, behind, restEncoded, (Except.ok.inj written).symm⟩

theorem parseSegmentIndexFrom_entry (entry : SegmentIndexEntry) (fits : entry.key.length < 256 ^ 2)
    (before behind : Bytes) (entries : List SegmentIndexEntry) :
    parseSegmentIndexFrom (before ++ (leBytes 2 entry.key.length ++ (entry.key ++
        (u32Le entry.payloadOffset ++ (u32Le entry.payloadLen ++ behind))))) before.length entries =
      parseSegmentIndexFrom (before ++ (leBytes 2 entry.key.length ++ (entry.key ++
        (u32Le entry.payloadOffset ++ (u32Le entry.payloadLen ++ behind)))))
        (before.length + 2 + entry.key.length + 8) (entries ++ [entry]) := by
  generalize laid : before ++ (leBytes 2 entry.key.length ++ (entry.key ++
    (u32Le entry.payloadOffset ++ (u32Le entry.payloadLen ++ behind)))) = bytes
  have total : bytes.length = before.length + 2 + entry.key.length + 8 + behind.length := by
    simp only [← laid, length_append, leBytes_length, u32Le_length]
    omega
  have keyLen : (Checked.range bytes before.length (before.length + 2) : Checked FormatError _) =
      .ok (leBytes 2 entry.key.length) :=
    Checked.range_part _ _ laid.symm rfl (by rw [leBytes_length])
  have key : (Checked.range bytes (before.length + 2) (before.length + 2 + entry.key.length) :
      Checked FormatError _) = .ok entry.key :=
    Checked.range_part (before ++ leBytes 2 entry.key.length) _
      (by rw [← laid, append_assoc]) (by simp) rfl
  have offset : (Checked.range bytes (before.length + 2 + entry.key.length)
      (before.length + 2 + entry.key.length + 4) : Checked FormatError _) =
      .ok (u32Le entry.payloadOffset) :=
    Checked.range_part (before ++ (leBytes 2 entry.key.length ++ entry.key))
      (u32Le entry.payloadLen ++ behind) (by simp only [← laid, append_assoc])
      (by simp only [length_append, leBytes_length]; omega) (by rw [u32Le_length])
  have len : (Checked.range bytes (before.length + 2 + entry.key.length + 4)
      (before.length + 2 + entry.key.length + 8) : Checked FormatError _) =
      .ok (u32Le entry.payloadLen) :=
    Checked.range_part
      (before ++ (leBytes 2 entry.key.length ++ (entry.key ++ u32Le entry.payloadOffset)))
      behind
      (by simp only [← laid, append_assoc])
      (by simp only [length_append, leBytes_length, u32Le_length]; omega)
      (by rw [u32Le_length])
  rw [parseSegmentIndexFrom, if_pos (by omega), if_neg (by omega)]
  simp only [keyLen, Bind.bind, Except.bind, fromLe_leBytes_of_lt fits]
  rw [if_neg (by omega)]
  simp only [key, offset, len, fromU32Le_u32Le]

theorem parseSegmentIndexFrom_encode {rest : List SegmentIndexEntry}
    (encoded : encodeSegmentIndex rest = .ok bytes) (before : Bytes)
    (entries : List SegmentIndexEntry) :
    parseSegmentIndexFrom (before ++ bytes) before.length entries = .ok (entries ++ rest) := by
  induction rest generalizing bytes before entries with
  | nil =>
    cases encoded
    rw [parseSegmentIndexFrom, if_neg (by simp), append_nil]
    rfl
  | cons entry rest ih =>
    obtain ⟨fits, behind, restEncoded, rfl⟩ := encodeSegmentIndex_cons encoded
    have read := ih restEncoded (before ++ (leBytes 2 entry.key.length ++ (entry.key ++
      (u32Le entry.payloadOffset ++ u32Le entry.payloadLen)))) (entries ++ [entry])
    have cursor : (before ++ (leBytes 2 entry.key.length ++ (entry.key ++
        (u32Le entry.payloadOffset ++ u32Le entry.payloadLen)))).length =
        before.length + 2 + entry.key.length + 8 := by
      simp only [length_append, leBytes_length, u32Le_length]
      omega
    rw [cursor] at read
    simp only [append_assoc, singleton_append] at read
    rw [parseSegmentIndexFrom_entry entry fits, read]

@[simp] theorem segmentMagic_length : segmentMagic.length = 12 := by decide

@[simp] theorem segmentFooterMagic_length : segmentFooterMagic.length = 12 := by decide

theorem encodeSegmentFooter_length (footer : SegmentFooter) :
    (encodeSegmentFooter footer).length = segmentFooterSize := by
  simp [encodeSegmentFooter, segmentFooterSize]

theorem encodeSegmentFooter_words (footer : SegmentFooter) :
    (Checked.range (encodeSegmentFooter footer) 0 12 : Checked FormatError _) =
        .ok segmentFooterMagic ∧
      (Checked.range (encodeSegmentFooter footer) 12 16 : Checked FormatError _) =
        .ok (u32Le footer.indexLen) ∧
      (Checked.range (encodeSegmentFooter footer) 16 20 : Checked FormatError _) =
        .ok (u32Le footer.indexChecksum) := by
  refine ⟨?_, ?_, ?_⟩
  · exact Checked.range_part [] _ (nil_append _).symm rfl (by simp)
  · exact Checked.range_part _ _ rfl segmentFooterMagic_length (by simp)
  · refine Checked.range_part (segmentFooterMagic ++ u32Le footer.indexLen) [] ?_ (by simp)
      (by simp)
    rw [encodeSegmentFooter, append_nil, append_assoc]

theorem decodeSegmentFooter_encode {footer : SegmentFooter} {indexBytes : Bytes}
    (length : footer.indexLen.toNat = indexBytes.length)
    (checksum : footer.indexChecksum = checksum32 indexBytes) :
    decodeSegmentFooter (encodeSegmentFooter footer) indexBytes = .ok footer := by
  obtain ⟨magic, indexLen, indexChecksum⟩ := encodeSegmentFooter_words footer
  rw [decodeSegmentFooter, if_neg (by rw [encodeSegmentFooter_length]; omega)]
  simp only [magic, indexLen, indexChecksum, Bind.bind, Except.bind, fromU32Le_u32Le]
  rw [if_neg (by simp), if_neg (by simp [length]), if_neg (by simp [checksum])]
  rfl

theorem decodeSegmentIndex_encode {blocks : List (Bytes × Bytes)} {segment : Bytes}
    (encoded : encodeSegmentV1 blocks = .ok segment) :
    ∃ index, decodeSegmentIndex segment = .ok index ∧
      List.Forall₂ (Located segment) index blocks := by
  simp only [encodeSegmentV1, except_bind_eq_ok, tryLength_eq_ok] at encoded
  obtain ⟨_, ⟨-, rfl⟩, ⟨out, index⟩, blocksEncoded, indexBytes, indexEncoded, _,
    ⟨lengthFits, rfl⟩, written⟩ := encoded
  obtain ⟨more, added, rfl, listed, located⟩ := encodeSegmentBlocks_located blocksEncoded
  rw [nil_append] at listed
  subst listed
  obtain rfl := Except.ok.inj written
  refine ⟨index, ?_, located.imp fun _ _ there => there.append _⟩
  generalize footed : (⟨UInt32.ofNat indexBytes.length, checksum32 indexBytes⟩ : SegmentFooter) =
    footer
  have indexLen : footer.indexLen.toNat = indexBytes.length := by
    rw [← footed]
    exact UInt32.toNat_ofNat_of_lt' lengthFits
  generalize laid : segmentMagic ++ leBytes 4 blocks.length ++ more ++
    (indexBytes ++ encodeSegmentFooter footer) = segment
  have footerLength := encodeSegmentFooter_length footer
  have total : segment.length = 16 + more.length + indexBytes.length + 20 := by
    rw [segmentFooterSize] at footerLength
    simp only [← laid, length_append, segmentMagic_length, leBytes_length, footerLength]
    omega
  have magic : (Checked.range segment 0 12 : Checked FormatError _) = .ok segmentMagic :=
    Checked.range_part []
      (leBytes 4 blocks.length ++ (more ++ (indexBytes ++ encodeSegmentFooter footer)))
      (by simp only [← laid, append_assoc, nil_append]) rfl (by simp)
  have footerBytes : (Checked.range segment (segment.length - segmentFooterSize) segment.length :
      Checked FormatError _) = .ok (encodeSegmentFooter footer) :=
    Checked.range_part (segmentMagic ++ leBytes 4 blocks.length ++ more ++ indexBytes) []
      (by simp only [← laid, append_assoc, append_nil])
      (by simp only [length_append, segmentMagic_length, leBytes_length, segmentFooterSize]
          omega)
      (by rw [footerLength, segmentFooterSize]; omega)
  have indexRead : (Checked.range segment
      (segment.length - segmentFooterSize - indexBytes.length)
      (segment.length - segmentFooterSize) : Checked FormatError _) = .ok indexBytes :=
    Checked.range_part _ _ laid.symm
      (by simp only [length_append, segmentMagic_length, leBytes_length, segmentFooterSize]
          omega)
      (by rw [segmentFooterSize]; omega)
  have accepted := decodeSegmentFooter_encode indexLen (by rw [← footed])
  have parsed := parseSegmentIndexFrom_encode indexEncoded [] []
  rw [decodeSegmentIndex, if_neg (by rw [segmentHeaderSize, segmentFooterSize]; omega)]
  simp only [magic, Bind.bind, Except.bind]
  rw [if_neg (by simp)]
  simp only [footerBytes, (encodeSegmentFooter_words footer).2.1, fromU32Le_u32Le, indexLen]
  rw [if_neg (by rw [segmentFooterSize]; omega)]
  simp only [indexRead, accepted]
  exact parsed

open Checked

theorem parseSegmentIndexFrom_inside (indexBytes : Bytes) (cursor : Nat)
    (entries : List SegmentIndexEntry) :
    Inside (parseSegmentIndexFrom indexBytes cursor entries) := by
  fun_induction parseSegmentIndexFrom indexBytes cursor entries with
  | case1 => exact inside_fail _
  | case2 cursor entries more room ih =>
    refine inside_range_bind (by omega) (by omega) ?_
    dsimp only
    split
    · exact inside_fail _
    rename_i left
    refine inside_range_bind (by omega) (by omega) ?_
    refine inside_range_bind (by omega) (by omega) ?_
    refine inside_range_bind (by omega) (by omega) ?_
    exact ih _ _ _ _
  | case3 => exact inside_ok _

theorem decodeSegmentFooter_inside (footerBytes indexBytes : Bytes) :
    Inside (decodeSegmentFooter footerBytes indexBytes) := by
  unfold decodeSegmentFooter
  split
  · exact inside_fail _
  rename_i long
  rw [segmentFooterSize] at long
  refine inside_range_bind (by omega) (by omega) ?_
  split
  · exact inside_fail _
  refine inside_range_bind (by omega) (by omega) ?_
  refine inside_range_bind (by omega) (by omega) ?_
  dsimp only
  split
  · exact inside_fail _
  split
  · exact inside_fail _
  · exact inside_ok _

theorem decodeSegmentIndex_inside (segment : Bytes) : Inside (decodeSegmentIndex segment) := by
  unfold decodeSegmentIndex segmentFooterSize segmentHeaderSize
  split
  · exact inside_fail _
  rename_i long
  refine inside_range_bind (by omega) (by omega) ?_
  split
  · exact inside_fail _
  have footer : (slice segment (segment.length - 20) segment.length).length = _ :=
    slice_length (Nat.le_refl segment.length)
  refine inside_range_bind (by omega) (by omega) ?_
  refine inside_range_bind (by omega) (by omega) ?_
  dsimp only
  split
  · exact inside_fail _
  refine inside_range_bind (by omega) (by omega) ?_
  exact inside_bind (decodeSegmentFooter_inside _ _) fun _ _ =>
    parseSegmentIndexFrom_inside _ 0 []

end WombatKV
