import WombatKV.Proofs.Format.WalRecord

/-! Which changed bytes of a record the checksum brings to light. -/

namespace WombatKV

open List

section Folding

variable {σ α : Type} {step : σ → α → σ}

theorem foldl_injective (keepState : ∀ symbol, Function.Injective (step · symbol))
    (symbols : List α) : Function.Injective (symbols.foldl step ·) := by
  induction symbols with
  | nil =>
    intro left right same
    exact same
  | cons first rest ih =>
    intro left right same
    exact keepState first (ih same)

theorem foldl_set (keepState : ∀ symbol, Function.Injective (step · symbol))
    (keepSymbol : ∀ state, Function.Injective (step state)) {symbols : List α} {place : Nat}
    {value : α} {start : σ}
    (same : (symbols.set place value).foldl step start = symbols.foldl step start) :
    symbols.set place value = symbols := by
  induction symbols generalizing place start with
  | nil => rfl
  | cons first rest ih =>
    cases place with
    | zero =>
      have stepped : step start value = step start first := foldl_injective keepState rest same
      rw [set_cons_zero, keepSymbol start stepped]
    | succ place => rw [set_cons_succ, ih same]

end Folding

def checksumStep (state : UInt32) (byte : UInt8) : UInt32 :=
  (state ^^^ byte.toUInt32) * 16777619

theorem multiplier_injective {left right : UInt32}
    (same : left * 16777619 = right * 16777619) : left = right := by
  have undone (word : UInt32) : word * 16777619 * 899433627 = word := by
    rw [UInt32.mul_assoc, show (16777619 : UInt32) * 899433627 = 1 by decide, UInt32.mul_one]
  rw [← undone left, ← undone right, same]

theorem checksumStep_state_injective (byte : UInt8) : Function.Injective (checksumStep · byte) := by
  intro left right same
  have mixed := multiplier_injective same
  have undone (word : UInt32) : word ^^^ byte.toUInt32 ^^^ byte.toUInt32 = word := by
    rw [UInt32.xor_assoc, UInt32.xor_self, UInt32.xor_zero]
  rw [← undone left, ← undone right, mixed]

theorem checksumStep_byte_injective (state : UInt32) : Function.Injective (checksumStep state) := by
  intro left right same
  have mixed := multiplier_injective same
  have undone (byte : UInt8) : state ^^^ (state ^^^ byte.toUInt32) = byte.toUInt32 := by
    rw [← UInt32.xor_assoc, UInt32.xor_self, UInt32.zero_xor]
  have widened : left.toUInt32 = right.toUInt32 := by
    rw [← undone left, ← undone right, mixed]
  apply UInt8.toNat_inj.mp
  simpa using congrArg UInt32.toNat widened

theorem checksum32_set {bytes : Bytes} {place : Nat} {value : UInt8}
    (same : checksum32 (bytes.set place value) = checksum32 bytes) :
    bytes.set place value = bytes :=
  foldl_set checksumStep_state_injective checksumStep_byte_injective same

def WalRecord.body (record : WalRecord) : Bytes :=
  record.key ++ (record.metadata ++ record.payload)

theorem WalRecord.body_length (record : WalRecord) :
    record.body.length = record.key.length + record.metadata.length + record.payload.length := by
  simp [WalRecord.body, Nat.add_assoc]

def LoweredByOneByte (width length lowered : Nat) : Prop :=
  lowered < length ∧ ∃ place value, leBytes width lowered = (leBytes width length).set place value

inductive LoweredLengths (record : WalRecord) : Nat → Nat → Nat → Prop
  | key {keyLen : Nat} : LoweredByOneByte 2 record.key.length keyLen →
      LoweredLengths record keyLen record.metadata.length record.payload.length
  | metadata {metaLen : Nat} : LoweredByOneByte 2 record.metadata.length metaLen →
      LoweredLengths record record.key.length metaLen record.payload.length
  | payload {payloadLen : Nat} : LoweredByOneByte 4 record.payload.length payloadLen →
      LoweredLengths record record.key.length record.metadata.length payloadLen

def ChecksumSeparates (record : WalRecord) : Prop :=
  ∀ keyLen metaLen payloadLen, LoweredLengths record keyLen metaLen payloadLen →
    checksum32 (record.body.take (keyLen + metaLen + payloadLen)) ≠ checksum32 record.body

theorem set_flatten {parts changed : List Bytes} {place : Nat} {value : UInt8}
    (same : parts.flatten.set place value = changed.flatten)
    (lengths : parts.map List.length = changed.map List.length) :
    ∃ part place, changed = parts.modify part (·.set place value) := by
  induction parts generalizing changed place with
  | nil => exact ⟨0, 0, by simpa using lengths⟩
  | cons front back ih =>
    cases changed with
    | nil => simp at lengths
    | cons changedFront changedBack =>
      simp only [map_cons, List.cons.injEq] at lengths
      obtain ⟨length, lengths⟩ := lengths
      rw [flatten_cons, flatten_cons, set_append] at same
      split at same
      · obtain ⟨set, kept⟩ := append_inj same (by simpa using length)
        refine ⟨0, place, ?_⟩
        have rest : changedBack = back := eq_iff_flatten_eq.mpr ⟨kept.symm, lengths.symm⟩
        rw [modify_zero_cons, set, rest]
      · obtain ⟨kept, behind⟩ := append_inj same length
        obtain ⟨part, place, set⟩ := ih behind lengths
        exact ⟨part + 1, place, by rw [modify_succ_cons, kept, set]⟩

theorem leBytes_inj {width left right : Nat} (leftFits : left < 256 ^ width)
    (rightFits : right < 256 ^ width) (same : leBytes width left = leBytes width right) :
    left = right := by
  rw [← fromLe_leBytes_of_lt leftFits, same, fromLe_leBytes_of_lt rightFits]

theorem WalRecord.ext_body {left right : WalRecord} (key : left.key.length = right.key.length)
    (metadata : left.metadata.length = right.metadata.length) (body : left.body = right.body) :
    left = right := by
  obtain ⟨keys, behind⟩ := append_inj body key
  obtain ⟨metas, payloads⟩ := append_inj behind metadata
  cases left
  cases right
  simp_all

theorem walRecordBytes_eq_flatten (keyLen metaLen payloadLen checksum : Nat) (body extra : Bytes) :
    walRecordBytes keyLen metaLen payloadLen checksum body ++ extra =
      [walMagic, leBytes 2 keyLen, leBytes 2 metaLen, leBytes 4 payloadLen, leBytes 4 checksum,
        body ++ extra].flatten := by
  simp [walRecordBytes]

theorem changed_record {record read : WalRecord} {bytes readBytes extra : Bytes} {place : Nat}
    {value : UInt8} (encoded : encodeWalRecord record = .ok bytes)
    (readEncoded : encodeWalRecord read = .ok readBytes)
    (changed : bytes.set place value = readBytes ++ extra) :
    read = record ∨ ∃ keyLen metaLen payloadLen,
      LoweredLengths record keyLen metaLen payloadLen ∧
        checksum32 (record.body.take (keyLen + metaLen + payloadLen)) = checksum32 record.body := by
  obtain ⟨keyFits, metaFits, payloadFits, shape⟩ := encodeWalRecord_ok encoded
  obtain ⟨readKeyFits, readMetaFits, readPayloadFits, readShape⟩ := encodeWalRecord_ok readEncoded
  change bytes = walRecordBytes _ _ _ (checksum32 record.body).toNat record.body at shape
  change readBytes = walRecordBytes _ _ _ (checksum32 read.body).toNat read.body at readShape
  have length := record.body_length
  have readLength := read.body_length
  have total : record.body.length = read.body.length + extra.length := by
    have lengths := congrArg List.length changed
    simp only [shape, readShape, length_set, length_append, walRecordBytes_length]
      at lengths
    omega
  have sums := checksum32_fits record.body
  have readSums := checksum32_fits read.body
  have ended (key : read.key.length = record.key.length)
      (metadata : read.metadata.length = record.metadata.length)
      (payload : read.payload.length = record.payload.length) : extra = [] :=
    length_eq_zero_iff.mp (by omega)
  have whole (key : read.key.length = record.key.length)
      (metadata : read.metadata.length = record.metadata.length)
      (payload : read.payload.length = record.payload.length)
      (behind : read.body ++ extra = record.body) : read = record := by
    rw [ended key metadata payload, append_nil] at behind
    exact WalRecord.ext_body key metadata behind
  have shorter {keyLen metaLen payloadLen : Nat}
      (sum : read.body.length = keyLen + metaLen + payloadLen)
      (behind : read.body ++ extra = record.body)
      (checksum : leBytes 4 (checksum32 read.body).toNat =
        leBytes 4 (checksum32 record.body).toNat) :
      checksum32 (record.body.take (keyLen + metaLen + payloadLen)) = checksum32 record.body := by
    rw [← behind, take_left' sum, behind]
    exact UInt32.toNat_inj.mp (leBytes_inj readSums sums checksum)
  rw [← append_nil bytes, shape, readShape, walRecordBytes_eq_flatten,
    walRecordBytes_eq_flatten, append_nil] at changed
  obtain ⟨part, place, parts⟩ := set_flatten changed (by simp; omega)
  rcases part with _ | _ | _ | _ | _ | _ | part <;>
    simp only [modify_zero_cons, modify_succ_cons, List.cons.injEq, modify_nil,
      and_true] at parts <;>
    obtain ⟨-, key, metadata, payload, checksum, behind⟩ := parts
  · -- The magic has changed.
    exact .inl (whole (leBytes_inj readKeyFits keyFits key)
      (leBytes_inj readMetaFits metaFits metadata)
      (leBytes_inj readPayloadFits payloadFits payload) behind)
  · -- The length of the key has changed.
    have metadata := leBytes_inj readMetaFits metaFits metadata
    have payload := leBytes_inj readPayloadFits payloadFits payload
    by_cases same : read.key.length = record.key.length
    · exact .inl (whole same metadata payload behind)
    · exact .inr ⟨read.key.length, _, _, .key ⟨by omega, place, value, key⟩,
        shorter (by omega) behind checksum⟩
  · -- The length of the metadata has changed.
    have key := leBytes_inj readKeyFits keyFits key
    have payload := leBytes_inj readPayloadFits payloadFits payload
    by_cases same : read.metadata.length = record.metadata.length
    · exact .inl (whole key same payload behind)
    · exact .inr ⟨_, read.metadata.length, _, .metadata ⟨by omega, place, value, metadata⟩,
        shorter (by omega) behind checksum⟩
  · -- The length of the payload has changed.
    have key := leBytes_inj readKeyFits keyFits key
    have metadata := leBytes_inj readMetaFits metaFits metadata
    by_cases same : read.payload.length = record.payload.length
    · exact .inl (whole key metadata same behind)
    · exact .inr ⟨_, _, read.payload.length, .payload ⟨by omega, place, value, payload⟩,
        shorter (by omega) behind checksum⟩
  · -- The checksum has changed.
    exact .inl (whole (leBytes_inj readKeyFits keyFits key)
      (leBytes_inj readMetaFits metaFits metadata)
      (leBytes_inj readPayloadFits payloadFits payload) behind)
  · -- The body has changed, and its checksum would have changed with it.
    have key := leBytes_inj readKeyFits keyFits key
    have metadata := leBytes_inj readMetaFits metaFits metadata
    have payload := leBytes_inj readPayloadFits payloadFits payload
    rw [ended key metadata payload, append_nil] at behind
    have sum := UInt32.toNat_inj.mp (leBytes_inj readSums sums checksum)
    rw [behind] at sum
    exact .inl (WalRecord.ext_body key metadata (behind.trans (checksum32_set sum)))
  · -- Nothing has changed.
    exact .inl (whole (leBytes_inj readKeyFits keyFits key)
      (leBytes_inj readMetaFits metaFits metadata)
      (leBytes_inj readPayloadFits payloadFits payload) behind)

theorem LoweredByOneByte.inside {width length lowered : Nat} (fits : length < 256 ^ width)
    (changed : LoweredByOneByte width length lowered) :
    ∃ place value, place < width ∧
      leBytes width lowered = (leBytes width length).set place value := by
  obtain ⟨less, place, value, words⟩ := changed
  refine ⟨place, value, ?_, words⟩
  by_contra outside
  rw [set_eq_of_length_le (by simpa using outside)] at words
  have same := leBytes_inj (less.trans fits) fits words
  omega

theorem set_behind {before word rest : Bytes} {place : Nat} (value : UInt8)
    (inside : place < word.length) :
    (before ++ (word ++ rest)).set (before.length + place) value =
      before ++ (word.set place value ++ rest) := by
  rw [set_append_right _ _ (Nat.le_add_right _ _), Nat.add_sub_cancel_left,
    set_append_left _ _ inside]

theorem LoweredLengths.fits {record : WalRecord} {bytes : Bytes}
    (encoded : encodeWalRecord record = .ok bytes) {keyLen metaLen payloadLen : Nat}
    (lowered : LoweredLengths record keyLen metaLen payloadLen) :
    keyLen < 256 ^ 2 ∧ metaLen < 256 ^ 2 ∧ payloadLen < 256 ^ 4 ∧
      keyLen + metaLen + payloadLen < record.body.length := by
  obtain ⟨keyFits, metaFits, payloadFits, -⟩ := encodeWalRecord_ok encoded
  have length := record.body_length
  cases lowered with
  | key changed =>
    have less := changed.1
    exact ⟨less.trans keyFits, metaFits, payloadFits, by omega⟩
  | metadata changed =>
    have less := changed.1
    exact ⟨keyFits, less.trans metaFits, payloadFits, by omega⟩
  | payload changed =>
    have less := changed.1
    exact ⟨keyFits, metaFits, less.trans payloadFits, by omega⟩

theorem LoweredLengths.bytes {record : WalRecord} {bytes : Bytes}
    (encoded : encodeWalRecord record = .ok bytes) {keyLen metaLen payloadLen : Nat}
    (lowered : LoweredLengths record keyLen metaLen payloadLen) :
    ∃ position value, bytes.set position value = walRecordBytes keyLen metaLen payloadLen
      (checksum32 record.body).toNat record.body := by
  obtain ⟨keyFits, metaFits, payloadFits, rfl⟩ := encodeWalRecord_ok encoded
  change ∃ position value, (walRecordBytes _ _ _ (checksum32 record.body).toNat
    record.body).set position value = _
  cases lowered with
  | key changed =>
    obtain ⟨place, value, inside, words⟩ := changed.inside keyFits
    refine ⟨walMagic.length + place, value, ?_⟩
    rw [walRecordBytes, set_behind value (by simpa using inside), ← words, walRecordBytes]
  | metadata changed =>
    obtain ⟨place, value, inside, words⟩ := changed.inside metaFits
    refine ⟨(walMagic ++ leBytes 2 record.key.length).length + place, value, ?_⟩
    rw [walRecordBytes, ← append_assoc walMagic, set_behind value (by simpa using inside),
      ← words, walRecordBytes, append_assoc]
  | payload changed =>
    obtain ⟨place, value, inside, words⟩ := changed.inside payloadFits
    refine ⟨(walMagic ++ (leBytes 2 record.key.length ++
      leBytes 2 record.metadata.length)).length + place, value, ?_⟩
    rw [walRecordBytes, ← append_assoc (leBytes 2 record.key.length), ← append_assoc walMagic,
      set_behind value (by simpa using inside), ← words, walRecordBytes, append_assoc, append_assoc]

/-- Any one changed byte of a record's bytes is reported or leaves the record as it was, exactly
when no shorter body that a lowered length states has the record's checksum. -/
theorem corruption_is_never_silent {record : WalRecord} {bytes : Bytes}
    (encoded : encodeWalRecord record = .ok bytes) :
    (∀ position value read, decodeWalRecord (bytes.set position value) = .ok read →
      read = record) ↔ ChecksumSeparates record := by
  constructor
  · intro detected keyLen metaLen payloadLen lowered same
    obtain ⟨keyFits, metaFits, payloadFits, less⟩ := lowered.fits encoded
    obtain ⟨position, value, changed⟩ := lowered.bytes encoded
    have length : (record.body.take (keyLen + metaLen + payloadLen)).length =
        keyLen + metaLen + payloadLen := by
      rw [length_take]
      omega
    have cut := encodeWalRecord_cut length keyFits metaFits payloadFits
    have accepted := decodeWalRecord_eq_ok.mpr ⟨_,
      record.body.drop (keyLen + metaLen + payloadLen), cut, rfl⟩
    have joined : walRecordBytes keyLen metaLen payloadLen (checksum32 record.body).toNat
        (record.body.take (keyLen + metaLen + payloadLen)) ++
          record.body.drop (keyLen + metaLen + payloadLen) =
        bytes.set position value := by
      rw [changed]
      simp [walRecordBytes]
    rw [same, joined] at accepted
    have taken := congrArg (fun read => read.body.length) (detected position value _ accepted)
    obtain ⟨-, -, -, parts⟩ := cut_body length
    simp only [WalRecord.body] at taken parts length less
    rw [parts, length] at taken
    omega
  · intro separates position value read accepted
    obtain ⟨readBytes, extra, readEncoded, changed⟩ := decodeWalRecord_eq_ok.mp accepted
    rcases changed_record encoded readEncoded changed with same | shorter
    · exact same
    · obtain ⟨keyLen, metaLen, payloadLen, lowered, same⟩ := shorter
      exact absurd same (separates keyLen metaLen payloadLen lowered)

theorem corruption_is_never_silent_small :
    ∃ bytes, encodeWalRecord ⟨ascii "k", [], ascii "v"⟩ = .ok bytes ∧
      ∀ position value read, decodeWalRecord (bytes.set position value) = .ok read →
        read = ⟨ascii "k", [], ascii "v"⟩ := by
  refine ⟨walRecordBytes 1 0 1 (checksum32 (ascii "kv")).toNat (ascii "kv"), by decide +kernel,
    (corruption_is_never_silent (by decide +kernel)).mpr ?_⟩
  intro keyLen metaLen payloadLen lowered
  cases lowered with
  | key changed =>
    obtain rfl : keyLen = 0 := Nat.lt_one_iff.mp changed.1
    decide +kernel
  | metadata changed => exact absurd changed.1 (Nat.not_lt_zero _)
  | payload changed =>
    obtain rfl : payloadLen = 0 := Nat.lt_one_iff.mp changed.1
    decide +kernel

theorem lowered_payload_length_is_accepted :
    ∃ bytes, encodeWalRecord ⟨ascii "k", [], ascii "jbpwgv"⟩ = .ok bytes ∧
      bytes.length = 31 ∧ bytes[16]? = some 6 ∧
      decodeWalRecord (bytes.set 16 0) = .ok ⟨ascii "k", [], []⟩ := by
  refine ⟨walRecordBytes 1 0 6 (checksum32 (ascii "kjbpwgv")).toNat (ascii "kjbpwgv"), ?_⟩
  decide +kernel

end WombatKV
