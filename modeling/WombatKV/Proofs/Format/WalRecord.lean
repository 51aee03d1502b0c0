import WombatKV.Format.WalRecord
import WombatKV.Foundation.Effects

/-! A record is read back as it was written. -/

namespace WombatKV

open List

theorem tryLength_eq_ok {width length accepted : Nat} :
    tryLength width length = .ok accepted ↔ length < 256 ^ width ∧ length = accepted := by
  unfold tryLength
  split <;> simp_all

theorem checkedAdd_of_lt {left right : Nat} (fits : left + right < wordLimit) :
    checkedAdd left right = .ok (left + right) := if_pos fits

theorem checkedAdd_eq_ok {left right sum : Nat} :
    checkedAdd left right = .ok sum ↔ left + right < wordLimit ∧ left + right = sum := by
  unfold checkedAdd
  split <;> simp_all

@[simp] theorem walMagic_length : walMagic.length = 12 := by decide

theorem checksum32_fits (bytes : Bytes) : (checksum32 bytes).toNat < 256 ^ 4 :=
  (checksum32 bytes).toNat_lt

def walRecordBytes (keyLen metaLen payloadLen checksum : Nat) (body : Bytes) : Bytes :=
  walMagic ++ (leBytes 2 keyLen ++ (leBytes 2 metaLen ++ (leBytes 4 payloadLen ++
    (leBytes 4 checksum ++ body))))

variable {bytes : Bytes} {record : WalRecord}

theorem encodeWalRecord_ok (encoded : encodeWalRecord record = .ok bytes) :
    record.key.length < 256 ^ 2 ∧ record.metadata.length < 256 ^ 2 ∧
      record.payload.length < 256 ^ 4 ∧
      bytes = walRecordBytes record.key.length record.metadata.length record.payload.length
        (checksum32 (record.key ++ (record.metadata ++ record.payload))).toNat
        (record.key ++ (record.metadata ++ record.payload)) := by
  simp only [encodeWalRecord, except_bind_eq_ok, tryLength_eq_ok] at encoded
  obtain ⟨_, ⟨key, rfl⟩, _, ⟨metadata, rfl⟩, _, ⟨payload, rfl⟩, written⟩ := encoded
  exact ⟨key, metadata, payload, (Except.ok.inj written).symm⟩

theorem walRecordBytes_length (keyLen metaLen payloadLen checksum : Nat) (body : Bytes) :
    (walRecordBytes keyLen metaLen payloadLen checksum body).length =
      walHeaderSize + body.length := by
  simp only [walRecordBytes, length_append, leBytes_length, walMagic_length, walHeaderSize]
  omega

theorem encodeWalRecord_magic (encoded : encodeWalRecord record = .ok bytes) :
    bytes.take 12 = walMagic := by
  rw [(encodeWalRecord_ok encoded).2.2.2, walRecordBytes, take_left' walMagic_length]

theorem walRecordBytes_header (keyLen metaLen payloadLen checksum : Nat) (body : Bytes) :
    slice (walRecordBytes keyLen metaLen payloadLen checksum body) 0 12 = walMagic ∧
      slice (walRecordBytes keyLen metaLen payloadLen checksum body) 12 14 = leBytes 2 keyLen ∧
      slice (walRecordBytes keyLen metaLen payloadLen checksum body) 14 16 = leBytes 2 metaLen ∧
      slice (walRecordBytes keyLen metaLen payloadLen checksum body) 16 20 = leBytes 4 payloadLen ∧
      slice (walRecordBytes keyLen metaLen payloadLen checksum body) 20 24 =
        leBytes 4 checksum := by
  refine ⟨?_, ?_, ?_, ?_, ?_⟩
  · exact slice_append_left walMagic_length
  · rw [walRecordBytes, slice_append_right (by simp), walMagic_length]
    exact slice_append_left (by simp)
  · rw [walRecordBytes, slice_append_right (by simp), walMagic_length,
      slice_append_right (by simp), leBytes_length]
    exact slice_append_left (by simp)
  · rw [walRecordBytes, slice_append_right (by simp), walMagic_length,
      slice_append_right (by simp), leBytes_length, slice_append_right (by simp), leBytes_length]
    exact slice_append_left (by simp)
  · rw [walRecordBytes, slice_append_right (by simp), walMagic_length,
      slice_append_right (by simp), leBytes_length, slice_append_right (by simp), leBytes_length,
      slice_append_right (by simp), leBytes_length]
    exact slice_append_left (by simp)

theorem walRecordBytes_body (keyLen metaLen payloadLen checksum : Nat) (body extra : Bytes) :
    slice (walRecordBytes keyLen metaLen payloadLen checksum (body ++ extra)) walHeaderSize
      (walHeaderSize + body.length) = body := by
  rw [walRecordBytes, slice_append_right (by simp [walHeaderSize]), walMagic_length,
    slice_append_right (by simp [walHeaderSize]), leBytes_length,
    slice_append_right (by simp [walHeaderSize]), leBytes_length,
    slice_append_right (by simp [walHeaderSize]), leBytes_length,
    slice_append_right (by simp [walHeaderSize]), leBytes_length]
  refine slice_append_left ?_
  simp only [walHeaderSize]
  omega

theorem decodeWalRecord_encode (encoded : encodeWalRecord record = .ok bytes) (extra : Bytes) :
    decodeWalRecord (bytes ++ extra) = .ok record := by
  obtain ⟨keyFits, metaFits, payloadFits, written⟩ := encodeWalRecord_ok encoded
  have sumFits := checksum32_fits (record.key ++ (record.metadata ++ record.payload))
  generalize total : record.key ++ (record.metadata ++ record.payload) = body at *
  have bodyLength : body.length =
      record.key.length + record.metadata.length + record.payload.length := by
    simp [← total, Nat.add_assoc]
  have data : bytes ++ extra = walRecordBytes record.key.length record.metadata.length
      record.payload.length (checksum32 body).toNat (body ++ extra) := by
    simp [written, walRecordBytes]
  have long := walRecordBytes_length record.key.length record.metadata.length
    record.payload.length (checksum32 body).toNat (body ++ extra)
  obtain ⟨magic, key, metadata, payload, sum⟩ := walRecordBytes_header record.key.length
    record.metadata.length record.payload.length (checksum32 body).toNat (body ++ extra)
  have front := walRecordBytes_body record.key.length record.metadata.length
    record.payload.length (checksum32 body).toNat body extra
  rw [length_append] at long
  have sums : (checkedAdd record.key.length record.metadata.length >>=
      (checkedAdd · record.payload.length)) = .ok body.length := by
    rw [checkedAdd_of_lt (by unfold wordLimit; omega), bodyLength]
    exact checkedAdd_of_lt (by unfold wordLimit; omega)
  have ends : checkedAdd walHeaderSize body.length = .ok (walHeaderSize + body.length) :=
    checkedAdd_of_lt (by unfold wordLimit walHeaderSize; omega)
  have whole : decodeWalRecord (bytes ++ extra) = .ok
      ⟨body.take record.key.length,
        slice body record.key.length (record.key.length + record.metadata.length),
        body.drop (record.key.length + record.metadata.length)⟩ := by
    rw [data, decodeWalRecord, if_neg (by omega), if_neg (by simp [magic])]
    simp only [key, metadata, payload, sum, fromLe_leBytes_of_lt keyFits,
      fromLe_leBytes_of_lt metaFits, fromLe_leBytes_of_lt payloadFits,
      fromLe_leBytes_of_lt sumFits, sums]
    simp only [Bind.bind, Except.bind, ends, front]
    rw [if_neg (by omega), if_neg (by simp)]
    rfl
  have behind : record.key.drop (record.key.length + record.metadata.length) = [] :=
    drop_eq_nil_of_le (by omega)
  rw [whole, ← total]
  simp [slice, drop_append, behind]

theorem eq_walRecordBytes {data : Bytes} {total : Nat} (header : walHeaderSize ≤ total)
    (covered : total ≤ data.length) (magic : slice data 0 12 = walMagic) :
    data = walRecordBytes (fromLe (slice data 12 14)) (fromLe (slice data 14 16))
      (fromLe (slice data 16 20)) (fromLe (slice data 20 24)) (slice data walHeaderSize total) ++
      data.drop total := by
  unfold walHeaderSize at *
  have front : data = slice data 0 total ++ data.drop total := by
    simp [slice]
  rw [walRecordBytes, leBytes_slice 2 12 (by omega), leBytes_slice 2 14 (by omega),
    leBytes_slice 4 16 (by omega), leBytes_slice 4 20 (by omega), ← magic, slice_append_slice data (by omega) header,
    slice_append_slice data (by omega) (by omega), slice_append_slice data (by omega) (by omega),
    slice_append_slice data (by omega) (by omega), slice_append_slice data (by omega) (by omega)]
  exact front

theorem cut_body {body : Bytes} {keyLen metaLen payloadLen : Nat}
    (length : body.length = keyLen + metaLen + payloadLen) :
    (body.take keyLen).length = keyLen ∧
      (slice body keyLen (keyLen + metaLen)).length = metaLen ∧
      (body.drop (keyLen + metaLen)).length = payloadLen ∧
      body.take keyLen ++ (slice body keyLen (keyLen + metaLen) ++ body.drop (keyLen + metaLen)) =
        body := by
  refine ⟨?_, ?_, ?_, ?_⟩
  · rw [length_take]
    omega
  · rw [slice_length (by omega)]
    omega
  · rw [length_drop]
    omega
  · -- Behind the key, the metadata is what is taken and the payload what is left.
    have behind : body.drop (keyLen + metaLen) = (body.drop keyLen).drop metaLen := by
      rw [drop_drop]
    rw [behind, slice, Nat.add_sub_cancel_left, take_append_drop, take_append_drop]

theorem encodeWalRecord_cut {body : Bytes} {keyLen metaLen payloadLen : Nat}
    (length : body.length = keyLen + metaLen + payloadLen) (keyFits : keyLen < 256 ^ 2)
    (metaFits : metaLen < 256 ^ 2) (payloadFits : payloadLen < 256 ^ 4) :
    encodeWalRecord ⟨body.take keyLen, slice body keyLen (keyLen + metaLen),
        body.drop (keyLen + metaLen)⟩ =
      .ok (walRecordBytes keyLen metaLen payloadLen (checksum32 body).toNat body) := by
  obtain ⟨key, metadata, payload, joined⟩ := cut_body length
  simp only [encodeWalRecord, key, metadata, payload, joined, tryLength, if_pos keyFits,
    if_pos metaFits, if_pos payloadFits]
  rfl

theorem decodeWalRecord_eq_ok {data : Bytes} :
    decodeWalRecord data = .ok record ↔
      ∃ bytes extra, encodeWalRecord record = .ok bytes ∧ data = bytes ++ extra := by
  constructor
  · intro decoded
    unfold decodeWalRecord at decoded
    split at decoded
    · cases decoded
    split at decoded
    · cases decoded
    rename_i long magic
    simp only [except_bind_eq_ok, checkedAdd_eq_ok] at decoded
    obtain ⟨bodyLen, ⟨_, ⟨-, rfl⟩, -, rfl⟩, _, ⟨-, rfl⟩, decoded⟩ := decoded
    split at decoded
    · cases decoded
    rename_i covered
    split at decoded
    · cases decoded
    rename_i summed
    cases decoded
    have shape := eq_walRecordBytes (Nat.le_add_right walHeaderSize _) (Nat.le_of_not_lt covered)
      (not_not.mp magic)
    have inside : 24 ≤ data.length := Nat.le_of_not_lt long
    have length : (slice data walHeaderSize _).length = _ :=
      slice_length (Nat.le_of_not_lt covered)
    rw [Nat.add_sub_cancel_left] at length
    have encoded := encodeWalRecord_cut length (fromLe_slice_lt 2 12 (by omega))
      (fromLe_slice_lt 2 14 (by omega)) (fromLe_slice_lt 4 16 (by omega))
    rw [not_not.mp summed] at encoded
    exact ⟨_, _, encoded, shape⟩
  · rintro ⟨bytes, extra, encoded, rfl⟩
    exact decodeWalRecord_encode encoded extra

end WombatKV
