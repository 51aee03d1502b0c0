import WombatKV.Proofs.Format.WalRecord
import WombatKV.Store.WalStore

/-! A flushed object reads back as what was buffered. -/

namespace WombatKV

open List

section

def Encodes (buffered : BufferedWalRecord) (record : WalRecord) : Prop :=
  encodeWalRecord record = .ok buffered.encodedRecord

def Consecutive : Nat → List BufferedWalRecord → Prop
  | _, [] => True
  | start, first :: rest => first.seq.toNat = start ∧ Consecutive (start + 1) rest

variable {buffer : List BufferedWalRecord} {start : Nat} {record : WalRecord}
  {records : List WalRecord} {payload : Bytes}

theorem Consecutive.append (counted : Consecutive start buffer) {next : BufferedWalRecord}
    (follows : next.seq.toNat = start + buffer.length) : Consecutive start (buffer ++ [next]) := by
  induction buffer generalizing start with
  | nil => exact ⟨by simpa using follows, trivial⟩
  | cons first rest ih =>
    refine ⟨counted.1, ih counted.2 ?_⟩
    simp only [length_cons] at follows
    omega

theorem Consecutive.getLast (counted : Consecutive start buffer) (nonempty : buffer ≠ []) :
    (buffer.getLast nonempty).seq.toNat + 1 = start + buffer.length := by
  induction buffer generalizing start with
  | nil => exact absurd rfl nonempty
  | cons first rest ih =>
    cases rest with
    | nil => simp [counted.1]
    | cons second rest =>
      rw [getLast_cons (by simp), ih counted.2 (by simp)]
      simp only [length_cons]
      omega

theorem Consecutive.head (counted : Consecutive start buffer) (nonempty : buffer ≠ []) :
    (buffer.head nonempty).seq.toNat = start := by
  cases buffer with
  | nil => exact absurd rfl nonempty
  | cons first rest => exact counted.1

theorem corrupt_eq_ok {α : Type} {result : Except FormatError α} {answer : α} :
    corrupt result = .ok answer ↔ result = .ok answer := by
  cases result <;> simp [corrupt, Except.mapError]

theorem encodeWalRecord_not_batch {bytes : Bytes} (encoded : encodeWalRecord record = .ok bytes) :
    walBatchMagic.isPrefixOf bytes = false := by
  rw [Bool.eq_false_iff, Ne, List.isPrefixOf_iff_prefix]
  intro start
  have same : walBatchMagic = bytes.take 12 := by
    rw [prefix_iff_eq_take] at start
    simpa [show walBatchMagic.length = 12 by decide] using start
  rw [encodeWalRecord_magic encoded] at same
  exact absurd same (by decide)

theorem decodeWalObjectRecords_single {bytes : Bytes} (encoded : encodeWalRecord record = .ok bytes) :
    decodeWalObjectRecords bytes = .ok [record] := by
  have decoded := decodeWalRecord_encode encoded []
  rw [append_nil] at decoded
  rw [decodeWalObjectRecords, encodeWalRecord_not_batch encoded, if_neg (by simp),
    corrupt_eq_ok.mpr decoded]
  rfl

theorem Encodes.unique {buffered : BufferedWalRecord} {left right : WalRecord}
    (first : Encodes buffered left) (second : Encodes buffered right) : left = right := by
  have decoded := decodeWalRecord_encode first []
  rw [decodeWalRecord_encode second [], Except.ok.injEq] at decoded
  exact decoded.symm

theorem mem_of_encodes (encodings : List.Forall₂ Encodes buffer records) {entry : BufferedWalRecord}
    (member : entry ∈ buffer) (encodes : Encodes entry record) : record ∈ records := by
  induction encodings with
  | nil => simp at member
  | cons first _ ih =>
    rcases mem_cons.mp member with rfl | later
    · simp [encodes.unique first]
    · exact mem_cons_of_mem _ (ih later)

theorem decodeWalBatchBody_encode (encodings : List.Forall₂ Encodes buffer records) {body : Bytes}
    (encoded : encodeWalBatchBody buffer = .ok body) (rest : Bytes) :
    decodeWalBatchBody buffer.length (body ++ rest) = .ok (records, rest) := by
  induction encodings generalizing body with
  | nil =>
    cases encoded
    rfl
  | @cons first record buffer records encodes _ ih =>
    simp only [encodeWalBatchBody, except_bind_eq_ok, corrupt_eq_ok, tryLength_eq_ok] at encoded
    obtain ⟨_, ⟨fits, rfl⟩, behind, tail, written⟩ := encoded
    have joined : body ++ rest = leBytes 4 first.encodedRecord.length ++
        (first.encodedRecord ++ (behind ++ rest)) := by
      simpa using congrArg (· ++ rest) (Except.ok.inj written).symm
    have decoded := decodeWalRecord_encode encodes []
    rw [append_nil] at decoded
    have front : (body ++ rest).take 4 = leBytes 4 first.encodedRecord.length := by
      rw [joined, take_left' (by simp)]
    have back : (body ++ rest).drop 4 = first.encodedRecord ++ (behind ++ rest) := by
      rw [joined, drop_left' (by simp)]
    have long : ¬ (body ++ rest).length < 4 := by
      simp only [joined, length_append, leBytes_length]
      omega
    have covered : ¬ (first.encodedRecord ++ (behind ++ rest)).length <
        first.encodedRecord.length := by
      simp only [length_append]
      omega
    rw [length_cons, decodeWalBatchBody, if_neg long]
    simp only [front, back, fromLe_leBytes_of_lt fits, if_neg covered, take_left,
      drop_left, corrupt_eq_ok.mpr decoded, ih tail]
    rfl

@[simp] theorem walBatchMagic_length : walBatchMagic.length = 12 := by decide

def walBatchBytes (startSeq endSeq count checksum : Nat) (body : Bytes) : Bytes :=
  walBatchMagic ++ (leBytes 8 startSeq ++ (leBytes 8 endSeq ++ (leBytes 4 count ++
    (leBytes 4 checksum ++ body))))

theorem walBatchBytes_header (startSeq endSeq count checksum : Nat) (body : Bytes) :
    slice (walBatchBytes startSeq endSeq count checksum body) 0 12 = walBatchMagic ∧
      slice (walBatchBytes startSeq endSeq count checksum body) 12 20 = leBytes 8 startSeq ∧
      slice (walBatchBytes startSeq endSeq count checksum body) 20 28 = leBytes 8 endSeq ∧
      slice (walBatchBytes startSeq endSeq count checksum body) 28 32 = leBytes 4 count ∧
      slice (walBatchBytes startSeq endSeq count checksum body) 32 36 = leBytes 4 checksum ∧
      (walBatchBytes startSeq endSeq count checksum body).drop walBatchHeaderSize = body := by
  refine ⟨?_, ?_, ?_, ?_, ?_, ?_⟩
  · exact slice_append_left walBatchMagic_length
  · rw [walBatchBytes, slice_append_right (by simp), walBatchMagic_length]
    exact slice_append_left (by simp)
  · rw [walBatchBytes, slice_append_right (by simp), walBatchMagic_length,
      slice_append_right (by simp), leBytes_length]
    exact slice_append_left (by simp)
  · rw [walBatchBytes, slice_append_right (by simp), walBatchMagic_length,
      slice_append_right (by simp), leBytes_length, slice_append_right (by simp), leBytes_length]
    exact slice_append_left (by simp)
  · rw [walBatchBytes, slice_append_right (by simp), walBatchMagic_length,
      slice_append_right (by simp), leBytes_length, slice_append_right (by simp), leBytes_length,
      slice_append_right (by simp), leBytes_length]
    exact slice_append_left (by simp)
  · simp only [walBatchBytes, ← append_assoc]
    exact drop_left' (by simp [walBatchHeaderSize])

theorem encodeWalBatchPayload_ok (encoded : encodeWalBatchPayload buffer = .ok payload) :
    ∃ (nonempty : buffer ≠ []) (body : Bytes), buffer.length < 256 ^ 4 ∧
      encodeWalBatchBody buffer = .ok body ∧
      payload = walBatchBytes (buffer.head nonempty).seq.toNat
        (buffer.getLast nonempty).seq.toNat buffer.length (checksum32 body).toNat body := by
  cases buffer with
  | nil => cases encoded
  | cons first rest =>
    simp only [encodeWalBatchPayload, except_bind_eq_ok, corrupt_eq_ok, tryLength_eq_ok] at encoded
    obtain ⟨_, ⟨fits, rfl⟩, body, written, whole⟩ := encoded
    exact ⟨by simp, body, fits, written, (Except.ok.inj whole).symm⟩

theorem encodeWalBatchPayload_of_fits (nonempty : buffer ≠ []) (fits : buffer.length < 256 ^ 4)
    {body : Bytes} (written : encodeWalBatchBody buffer = .ok body) :
    encodeWalBatchPayload buffer = .ok (walBatchBytes (buffer.head nonempty).seq.toNat
      (buffer.getLast nonempty).seq.toNat buffer.length (checksum32 body).toNat body) := by
  cases buffer with
  | nil => exact absurd rfl nonempty
  | cons first rest =>
    rw [encodeWalBatchPayload, corrupt_eq_ok.mpr (tryLength_eq_ok.mpr ⟨fits, rfl⟩), written]
    rfl

theorem saturating_range {startSeq endSeq : UInt64} {count : Nat}
    (span : endSeq.toNat + 1 = startSeq.toNat + count) (positive : 0 < count)
    (fits : count < wordLimit) :
    (saturatingAdd (saturatingSub endSeq startSeq) 1).toNat = count := by
  rw [saturatingAdd_toNat, saturatingSub_toNat, UInt64.toNat_one]
  omega

theorem decodeWalObjectRecords_range (encodings : List.Forall₂ Encodes buffer records)
    (encoded : encodeWalBatchPayload buffer = .ok payload) (nonempty : buffer ≠ []) :
    decodeWalObjectRecords payload =
      if (saturatingAdd (saturatingSub (buffer.getLast nonempty).seq (buffer.head nonempty).seq)
          1).toNat = buffer.length
      then .ok records else .error (.corruptWal .fieldTooLarge) := by
  obtain ⟨_, body, countFits, written, shape⟩ := encodeWalBatchPayload_ok encoded
  have sumFits := checksum32_fits body
  generalize (buffer.head nonempty).seq = startSeq at *
  generalize (buffer.getLast nonempty).seq = endSeq at *
  obtain ⟨magic, starts, ends, count, sum, behind⟩ := walBatchBytes_header startSeq.toNat
    endSeq.toNat buffer.length (checksum32 body).toNat body
  rw [← shape] at magic starts ends count sum behind
  have long : payload.length = walBatchHeaderSize + body.length := by
    rw [shape]
    simp only [walBatchBytes, length_append, leBytes_length, walBatchMagic_length,
      walBatchHeaderSize]
    omega
  have whole := decodeWalBatchBody_encode encodings written []
  rw [append_nil] at whole
  have tagged : walBatchMagic.isPrefixOf payload = true := by
    rw [List.isPrefixOf_iff_prefix, shape]
    exact prefix_append _ _
  have covered : ¬ payload.length < walBatchHeaderSize := by omega
  have word (seq : UInt64) : fromLe (leBytes 8 seq.toNat) = seq.toNat :=
    fromLe_leBytes_of_lt (lt_of_lt_of_le seq.toNat_lt (by decide))
  simp only [decodeWalObjectRecords, tagged, if_true, decodeWalBatchPayload, if_neg covered, magic,
    starts, ends, count, sum, behind, word, fromLe_leBytes_of_lt countFits,
    fromLe_leBytes_of_lt sumFits, UInt64.ofNat_toNat, whole, ne_eq, not_true, if_false, ite_not]
  rfl

theorem decodeWalObjectRecords_batch (encodings : List.Forall₂ Encodes buffer records)
    (counted : Consecutive start buffer) (encoded : encodeWalBatchPayload buffer = .ok payload) :
    decodeWalObjectRecords payload = .ok records := by
  obtain ⟨nonempty, _, countFits, _⟩ := encodeWalBatchPayload_ok encoded
  have first := counted.head nonempty
  have last := counted.getLast nonempty
  have range := saturating_range (by rw [last, first]) (length_pos_iff.mpr nonempty)
    (countFits.trans (by decide))
  rw [decodeWalObjectRecords_range encodings encoded nonempty, if_pos range]

end

def IsBatchOf (payload : Bytes) (records : List WalRecord) : Prop :=
  ∃ start buffer, buffer ≠ [] ∧ Consecutive start buffer ∧
    List.Forall₂ Encodes buffer records ∧ encodeWalBatchPayload buffer = .ok payload

def statedLength (frame : Bytes) : Nat :=
  walHeaderSize + (fromLe (slice frame 12 14) + fromLe (slice frame 14 16) +
    fromLe (slice frame 16 20))

def ExactFrames : Nat → Bytes → Prop
  | 0, _ => True
  | count + 1, body =>
    let encodedLen := fromLe (body.take 4)
    let behind := body.drop 4
    statedLength (behind.take encodedLen) = encodedLen ∧ ExactFrames count (behind.drop encodedLen)

def Canonical (payload : Bytes) : Prop :=
  fromLe (slice payload 12 20) ≤ fromLe (slice payload 20 28) ∧
    ExactFrames (fromLe (slice payload 28 32)) (payload.drop walBatchHeaderSize)

theorem statedLength_encode {record : WalRecord} {bytes : Bytes}
    (encoded : encodeWalRecord record = .ok bytes) (extra : Bytes) :
    statedLength (bytes ++ extra) = bytes.length := by
  obtain ⟨keyFits, metaFits, payloadFits, rfl⟩ := encodeWalRecord_ok encoded
  generalize body : record.key ++ (record.metadata ++ record.payload) = joined
  have length : joined.length =
      record.key.length + record.metadata.length + record.payload.length := by
    simp [← body, Nat.add_assoc]
  obtain ⟨-, key, metadata, payload, -⟩ := walRecordBytes_header record.key.length
    record.metadata.length record.payload.length (checksum32 joined).toNat (joined ++ extra)
  have behind : walRecordBytes record.key.length record.metadata.length record.payload.length
      (checksum32 joined).toNat joined ++ extra = walRecordBytes record.key.length
      record.metadata.length record.payload.length (checksum32 joined).toNat (joined ++ extra) := by
    simp [walRecordBytes]
  rw [walRecordBytes_length, length, behind, statedLength, key, metadata, payload,
    fromLe_leBytes_of_lt keyFits, fromLe_leBytes_of_lt metaFits, fromLe_leBytes_of_lt payloadFits]

theorem encodeWalRecord_of_exact {frame : Bytes} {record : WalRecord}
    (decoded : decodeWalRecord frame = .ok record) (tight : statedLength frame = frame.length) :
    encodeWalRecord record = .ok frame := by
  obtain ⟨bytes, extra, encoded, rfl⟩ := decodeWalRecord_eq_ok.mp decoded
  rw [statedLength_encode encoded, length_append] at tight
  have none : extra = [] := length_eq_zero_iff.mp (by omega)
  rw [none, append_nil]
  exact encoded

variable {body payload : Bytes} {records : List WalRecord}

theorem decodeWalBatchBody_succ {count : Nat} {rest : Bytes}
    (decoded : decodeWalBatchBody (count + 1) body = .ok (records, rest)) :
    ∃ frame behind record others, frame.length < 256 ^ 4 ∧
      body = leBytes 4 frame.length ++ (frame ++ behind) ∧
      decodeWalRecord frame = .ok record ∧
      decodeWalBatchBody count behind = .ok (others, rest) ∧ records = record :: others := by
  unfold decodeWalBatchBody at decoded
  split at decoded
  · cases decoded
  rename_i long
  simp only at decoded
  split at decoded
  · cases decoded
  rename_i covered
  simp only [except_bind_eq_ok, corrupt_eq_ok] at decoded
  obtain ⟨record, read, ⟨others, left⟩, after, answer⟩ := decoded
  cases answer
  have four : (body.take 4).length = 4 := by
    rw [length_take]
    omega
  have framed : ((body.drop 4).take (fromLe (body.take 4))).length = fromLe (body.take 4) := by
    rw [length_take]
    omega
  refine ⟨_, _, record, others, ?_, ?_, read, after, rfl⟩
  · rw [framed]
    have small := fromLe_lt (body.take 4)
    rwa [four] at small
  · have word := leBytes_fromLe (body.take 4)
    rw [four] at word
    rw [framed, word, take_append_drop, take_append_drop]

theorem exactFrames_encode {buffer : List BufferedWalRecord}
    (encodings : List.Forall₂ Encodes buffer records)
    (encoded : encodeWalBatchBody buffer = .ok body) : ExactFrames buffer.length body := by
  induction encodings generalizing body with
  | nil => trivial
  | @cons first record buffer records encodes _ ih =>
    simp only [encodeWalBatchBody, except_bind_eq_ok, corrupt_eq_ok, tryLength_eq_ok] at encoded
    obtain ⟨_, ⟨fits, rfl⟩, behind, tail, written⟩ := encoded
    cases written
    have stated := statedLength_encode encodes []
    rw [append_nil] at stated
    have front : (leBytes 4 first.encodedRecord.length ++
        (first.encodedRecord ++ behind)).take 4 = leBytes 4 first.encodedRecord.length :=
      take_left' (by simp)
    have back : (leBytes 4 first.encodedRecord.length ++
        (first.encodedRecord ++ behind)).drop 4 = first.encodedRecord ++ behind :=
      drop_left' (by simp)
    rw [length_cons, ExactFrames]
    simp only [front, back, fromLe_leBytes_of_lt fits, take_left, drop_left]
    exact ⟨stated, ih tail⟩

theorem buffer_of_exactFrames {count start : Nat} {rest : Bytes}
    (decoded : decodeWalBatchBody count body = .ok (records, rest)) (tight : ExactFrames count body)
    (room : start + count ≤ wordLimit) :
    ∃ buffer front, buffer.length = count ∧ Consecutive start buffer ∧
      List.Forall₂ Encodes buffer records ∧ encodeWalBatchBody buffer = .ok front ∧
      body = front ++ rest := by
  induction count generalizing start body records with
  | zero =>
    cases decoded
    exact ⟨[], [], rfl, trivial, .nil, rfl, rfl⟩
  | succ count ih =>
    obtain ⟨frame, behind, record, others, fits, rfl, read, after, rfl⟩ :=
      decodeWalBatchBody_succ decoded
    have front : (leBytes 4 frame.length ++ (frame ++ behind)).take 4 = leBytes 4 frame.length :=
      take_left' (by simp)
    have back : (leBytes 4 frame.length ++ (frame ++ behind)).drop 4 = frame ++ behind :=
      drop_left' (by simp)
    simp only [ExactFrames, front, back, fromLe_leBytes_of_lt fits, take_left, drop_left] at tight
    have roomBehind : start + 1 + count ≤ wordLimit := by omega
    obtain ⟨buffer, tail, length, counted, encodings, written, rfl⟩ :=
      ih after tight.2 roomBehind
    have small : start < 2 ^ 64 := by
      unfold wordLimit at room
      omega
    have numbered : (UInt64.ofNat start).toNat = start := UInt64.toNat_ofNat_of_lt' small
    refine ⟨⟨UInt64.ofNat start, frame⟩ :: buffer, leBytes 4 frame.length ++ (frame ++ tail),
      by rw [length_cons, length], ⟨numbered, counted⟩,
      .cons (encodeWalRecord_of_exact read tight.1) encodings, ?_, by simp⟩
    rw [encodeWalBatchBody, corrupt_eq_ok.mpr (tryLength_eq_ok.mpr ⟨fits, rfl⟩), written]
    rfl

theorem eq_walBatchBytes (long : walBatchHeaderSize ≤ payload.length)
    (magic : slice payload 0 12 = walBatchMagic) :
    payload = walBatchBytes (fromLe (slice payload 12 20)) (fromLe (slice payload 20 28))
      (fromLe (slice payload 28 32)) (fromLe (slice payload 32 36))
      (payload.drop walBatchHeaderSize) := by
  unfold walBatchHeaderSize at *
  have front : payload = slice payload 0 36 ++ payload.drop 36 := by
    simp [slice]
  rw [walBatchBytes, leBytes_slice 8 12 (by omega), leBytes_slice 8 20 (by omega),
    leBytes_slice 4 28 (by omega), leBytes_slice 4 32 (by omega), ← magic]
  simp only [← append_assoc]
  rw [slice_append_slice payload (by omega) (by omega),
    slice_append_slice payload (by omega) (by omega),
    slice_append_slice payload (by omega) (by omega),
    slice_append_slice payload (by omega) (by omega)]
  exact front

theorem decodeWalBatchPayload_ok (decoded : decodeWalBatchPayload payload = .ok records) :
    ∃ startSeq endSeq : UInt64, ∃ count body, count < 256 ^ 4 ∧
      payload = walBatchBytes startSeq.toNat endSeq.toNat count (checksum32 body).toNat body ∧
      (saturatingAdd (saturatingSub endSeq startSeq) 1).toNat = count ∧
      decodeWalBatchBody count body = .ok (records, []) := by
  unfold decodeWalBatchPayload at decoded
  split at decoded
  · cases decoded
  split at decoded
  · cases decoded
  rename_i long magic
  simp only at decoded
  split at decoded
  · cases decoded
  split at decoded
  · cases decoded
  rename_i sum range
  simp only [except_bind_eq_ok] at decoded
  obtain ⟨⟨read, rest⟩, framed, ended⟩ := decoded
  split at ended
  · cases ended
  rename_i empty
  cases ended
  obtain rfl : rest = [] := not_not.mp empty
  have covered := Nat.le_of_not_lt long
  have shape := eq_walBatchBytes covered (not_not.mp magic)
  unfold walBatchHeaderSize at covered
  have word (start : Nat) (inside : start + 8 ≤ payload.length) :
      (UInt64.ofNat (fromLe (slice payload start (start + 8)))).toNat =
        fromLe (slice payload start (start + 8)) :=
    UInt64.toNat_ofNat_of_lt' (fromLe_slice_lt 8 start inside)
  refine ⟨UInt64.ofNat (fromLe (slice payload 12 20)), UInt64.ofNat (fromLe (slice payload 20 28)),
    fromLe (slice payload 28 32), payload.drop walBatchHeaderSize,
    fromLe_slice_lt 4 28 (by omega), ?_, not_not.mp range, framed⟩
  rw [word 12 (by omega), word 20 (by omega), not_not.mp sum]
  exact shape

theorem IsBatchOf.decoded (batch : IsBatchOf payload records) :
    decodeWalBatchPayload payload = .ok records := by
  obtain ⟨start, buffer, -, counted, encodings, encoded⟩ := batch
  have decoded := decodeWalObjectRecords_batch encodings counted encoded
  obtain ⟨_, body, -, -, rfl⟩ := encodeWalBatchPayload_ok encoded
  rwa [decodeWalObjectRecords, if_pos (by simp [walBatchBytes])] at decoded

theorem IsBatchOf.canonical (batch : IsBatchOf payload records) : Canonical payload := by
  obtain ⟨start, buffer, nonempty, counted, encodings, encoded⟩ := batch
  obtain ⟨_, body, countFits, written, rfl⟩ := encodeWalBatchPayload_ok encoded
  obtain ⟨-, starts, ends, count, -, behind⟩ := walBatchBytes_header
    (buffer.head nonempty).seq.toNat (buffer.getLast nonempty).seq.toNat buffer.length
    (checksum32 body).toNat body
  constructor
  · -- The last of consecutive numbers is not before the first.
    have last := counted.getLast nonempty
    have first := counted.head nonempty
    have some := length_pos_iff.mpr nonempty
    rw [starts, ends, fromLe_leBytes_of_lt (UInt64.toNat_lt _),
      fromLe_leBytes_of_lt (UInt64.toNat_lt _)]
    omega
  · rw [count, behind, fromLe_leBytes_of_lt countFits]
    exact exactFrames_encode encodings written

theorem Canonical.isBatchOf (canonical : Canonical payload)
    (decoded : decodeWalBatchPayload payload = .ok records) : IsBatchOf payload records := by
  obtain ⟨ordered, tight⟩ := canonical
  obtain ⟨startSeq, endSeq, count, body, countFits, rfl, range, framed⟩ :=
    decodeWalBatchPayload_ok decoded
  obtain ⟨-, starts, ends, counts, -, behind⟩ := walBatchBytes_header startSeq.toNat
    endSeq.toNat count (checksum32 body).toNat body
  rw [starts, ends, fromLe_leBytes_of_lt startSeq.toNat_lt,
    fromLe_leBytes_of_lt endSeq.toNat_lt] at ordered
  rw [counts, behind, fromLe_leBytes_of_lt countFits] at tight
  have span : endSeq.toNat + 1 = startSeq.toNat + count := by
    rw [saturatingAdd_toNat, saturatingSub_toNat, UInt64.toNat_one] at range
    unfold wordLimit at range
    omega
  have room : startSeq.toNat + count ≤ wordLimit := by
    have small := endSeq.toNat_lt
    unfold wordLimit
    omega
  obtain ⟨buffer, front, length, counted, encodings, written, whole⟩ :=
    buffer_of_exactFrames framed tight room
  rw [append_nil] at whole
  subst whole
  have nonempty : buffer ≠ [] := by
    rintro rfl
    simp only [length_nil] at length
    omega
  have last := counted.getLast nonempty
  have lastSeq : (buffer.getLast nonempty).seq.toNat = endSeq.toNat := by omega
  refine ⟨startSeq.toNat, buffer, nonempty, counted, encodings, ?_⟩
  rw [encodeWalBatchPayload_of_fits nonempty (by rw [length]; exact countFits) written,
    counted.head nonempty, length, lastSeq]

/-- Bytes are what a flush writes for some records exactly when the reader of batches answers with
these records and the bytes have their range in order and their frames exact. -/
theorem batch_format_is_exact (payload : Bytes) (records : List WalRecord) :
    IsBatchOf payload records ↔
      decodeWalBatchPayload payload = .ok records ∧ Canonical payload := by
  constructor
  · intro batch
    exact ⟨batch.decoded, batch.canonical⟩
  · intro ⟨decoded, canonical⟩
    exact canonical.isBatchOf decoded

def smallFrame (padding : Bytes) : Bytes :=
  let record := walRecordBytes 1 0 1 (checksum32 (ascii "kv")).toNat (ascii "kv")
  leBytes 4 (record ++ padding).length ++ (record ++ padding)

theorem unwritten_batches_are_accepted :
    (decodeWalBatchPayload (walBatchBytes 5 3 1 (checksum32 (smallFrame [])).toNat
        (smallFrame [])) = .ok [⟨ascii "k", [], ascii "v"⟩] ∧
      ∀ records, ¬ IsBatchOf (walBatchBytes 5 3 1 (checksum32 (smallFrame [])).toNat
        (smallFrame [])) records) ∧
    decodeWalBatchPayload (walBatchBytes 5 5 1 (checksum32 (smallFrame [0])).toNat
        (smallFrame [0])) = .ok [⟨ascii "k", [], ascii "v"⟩] ∧
      ∀ records, ¬ IsBatchOf (walBatchBytes 5 5 1 (checksum32 (smallFrame [0])).toNat
        (smallFrame [0])) records := by
  refine ⟨⟨by decide +kernel, fun records batch => ?_⟩, by decide +kernel,
    fun records batch => ?_⟩
  · exact absurd batch.canonical.1 (by decide +kernel)
  · have tight := batch.canonical.2
    exact absurd tight.1 (by decide +kernel)

end WombatKV
