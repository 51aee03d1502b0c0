import WombatKV.Daemon.Arena

/-! What lies in the arena stays until the allocator wraps. -/

namespace WombatKV

open Call List

namespace ArenaWriter

variable {bytes memory : Bytes} {offset : Nat} {writer : ArenaWriter}

theorem copyIn_length (inside : offset + bytes.length ≤ memory.length) :
    (copyIn memory offset bytes).length = memory.length := by
  simp only [copyIn, length_append, length_take, length_drop]
  omega

theorem slice_copyIn (inside : offset ≤ memory.length) :
    slice (copyIn memory offset bytes) offset (offset + bytes.length) = bytes := by
  have front : (memory.take offset).length = offset := length_take_of_le inside
  rw [slice, copyIn, drop_left' front, Nat.add_sub_cancel_left, take_left]

theorem slice_copyIn_before {start stop : Nat} (before : stop ≤ offset)
    (inside : offset ≤ memory.length) :
    slice (copyIn memory offset bytes) start stop = slice memory start stop := by
  have front : (copyIn memory offset bytes).take stop = memory.take stop := by
    rw [copyIn, take_append_of_le_length (by rw [length_take]; omega), take_take,
      Nat.min_eq_left before]
  rw [slice, slice, ← drop_take, ← drop_take, front]

structure WellFormed (writer : ArenaWriter) : Prop where
  whole : writer.memory.length = writer.size
  front : arenaHeaderBytes ≤ writer.nextOffset
  inside : writer.nextOffset ≤ writer.size

theorem create_wellFormed {size : Nat} (room : arenaHeaderBytes < size) :
    (create size).WellFormed :=
  ⟨length_replicate, Nat.le_refl _, Nat.le_of_lt room⟩

structure Holds (writer : ArenaWriter) (slab : ArenaSlab) (bytes : Bytes) : Prop where
  front : arenaHeaderBytes ≤ slab.offset
  length : slab.len.toNat = bytes.length
  behind : slab.offset + bytes.length ≤ writer.nextOffset
  there : slice writer.memory slab.offset (slab.offset + bytes.length) = bytes

theorem Holds.readPayload (formed : writer.WellFormed) {slab : ArenaSlab}
    (holds : writer.Holds slab bytes) : writer.readPayload slab.offset slab.len = some bytes := by
  have inside := formed.inside
  have front := holds.front
  have behind := holds.behind
  rw [ArenaWriter.readPayload, if_neg (by rw [holds.length]; omega), holds.length, holds.there]

theorem writePayload_wraps (fits : bytes.length ≤ writer.maxSlab)
    (wraps : writer.size < writer.nextOffset + bytes.length) :
    writer.writePayload bytes = some ((arenaHeaderBytes, UInt32.ofNat bytes.length),
      ⟨copyIn writer.memory arenaHeaderBytes bytes, writer.size, arenaHeaderBytes + bytes.length,
        writer.wrapEpoch + 1⟩) := by
  simp only [ArenaWriter.writePayload, not_lt.mpr fits, wraps, if_true, if_false]

theorem writePayload_stays (fits : bytes.length ≤ writer.maxSlab)
    (stays : ¬ writer.size < writer.nextOffset + bytes.length) :
    writer.writePayload bytes = some ((writer.nextOffset, UInt32.ofNat bytes.length),
      ⟨copyIn writer.memory writer.nextOffset bytes, writer.size,
        writer.nextOffset + bytes.length, writer.wrapEpoch⟩) := by
  simp only [ArenaWriter.writePayload, not_lt.mpr fits, stays, if_false]

theorem writePayload_spec (formed : writer.WellFormed) (words : writer.size ≤ 2 ^ 32)
    (fits : bytes.length ≤ writer.maxSlab) (tier : UInt8) :
    ∃ offset len written, writer.writePayload bytes = some ((offset, len), written) ∧
      written.WellFormed ∧ written.size = writer.size ∧ written.Holds ⟨offset, len, tier⟩ bytes ∧
      ((written.wrapEpoch = writer.wrapEpoch ∧
          ∀ slab earlier, writer.Holds slab earlier → written.Holds slab earlier) ∨
        (written.wrapEpoch ≠ writer.wrapEpoch ∧
          writer.size < writer.nextOffset + bytes.length)) := by
  have header : arenaHeaderBytes = 64 := rfl
  obtain ⟨whole, front, inside⟩ := formed
  have room : bytes.length ≤ writer.size - arenaHeaderBytes := fits
  have word : (UInt32.ofNat bytes.length).toNat = bytes.length := by
    rw [UInt32.toNat_ofNat']
    omega
  by_cases wraps : writer.size < writer.nextOffset + bytes.length
  · -- The slab goes to the front of the file, over whatever was there.
    have start : arenaHeaderBytes + bytes.length ≤ writer.memory.length := by omega
    refine ⟨_, _, _, writePayload_wraps fits wraps, ?_, rfl, ?_, .inr ⟨Nat.succ_ne_self _, wraps⟩⟩
    · exact ⟨(copyIn_length start).trans whole, Nat.le_add_right _ _, by simp only; omega⟩
    · exact ⟨Nat.le_refl _, word, Nat.le_refl _, slice_copyIn (by omega)⟩
  · have start : writer.nextOffset + bytes.length ≤ writer.memory.length := by omega
    refine ⟨_, _, _, writePayload_stays fits wraps, ?_, rfl, ?_, .inl ⟨rfl, ?_⟩⟩
    · exact ⟨(copyIn_length start).trans whole, by simp only; omega, by simp only; omega⟩
    · exact ⟨front, word, Nat.le_refl _, slice_copyIn (by omega)⟩
    · -- What is there ends before the offset that the new slab starts at.
      intro slab earlier holds
      have behind := holds.behind
      refine ⟨holds.front, holds.length, by simp only; omega, ?_⟩
      rw [slice_copyIn_before behind (by omega)]
      exact holds.there

end ArenaWriter

structure ArenaShared.Backed (meaning : Text → Bytes → Prop) (arena : ArenaShared) : Prop where
  formed : arena.writer.WellFormed
  words : arena.writer.size ≤ 2 ^ 32
  slabs : ∀ (name : Text) (slab : ArenaSlab), arena.slabs[name]? = some slab →
    ∃ bytes, meaning name bytes ∧ arena.writer.Holds slab bytes

variable {meaning : Text → Bytes → Prop} {arena : ArenaShared}

theorem ArenaShared.Backed.mono {wider : Text → Bytes → Prop}
    (implied : ∀ (name : Text) (slab : ArenaSlab) bytes, arena.slabs[name]? = some slab → meaning
      name bytes → wider name bytes) (backed : arena.Backed meaning) : arena.Backed wider := by
  refine ⟨backed.formed, backed.words, fun name slab found => ?_⟩
  obtain ⟨bytes, means, holds⟩ := backed.slabs name slab found
  exact ⟨bytes, implied name slab bytes found means, holds⟩

theorem ArenaShared.Backed.cleared (backed : arena.Backed meaning) (wanted : Text → Bytes → Prop) :
    { arena with slabs := ∅ }.Backed wanted :=
  ⟨backed.formed, backed.words, fun name slab found => by simp at found⟩

theorem ArenaShared.Backed.insert {ns key : Text}
    (backed : arena.Backed fun name bytes => name ≠ arenaKey ns key → meaning name bytes)
    {slab : ArenaSlab} {bytes : Bytes} (holds : arena.writer.Holds slab bytes)
    (means : meaning (arenaKey ns key) bytes) :
    (insertArenaSlab ns key slab arena).Backed meaning := by
  refine ⟨backed.formed, backed.words, fun name found entered => ?_⟩
  simp only [insertArenaSlab, Std.ExtTreeMap.getElem?_insert] at entered
  split at entered
  · rename_i same
    obtain rfl : arenaKey ns key = name := by simpa using same
    cases entered
    exact ⟨bytes, means, holds⟩
  · rename_i other
    obtain ⟨earlier, means', holds'⟩ := backed.slabs name found entered
    have unlike : name ≠ arenaKey ns key := by
      rintro rfl
      simp at other
    exact ⟨earlier, means' unlike, holds'⟩

theorem writeArenaPayload_backed (backed : arena.Backed meaning) (bytes : Bytes) (tier : UInt8) :
    (writeArenaPayload bytes tier).Ensures (fun result after =>
      after.minBytes = arena.minBytes ∧ after.writer.size = arena.writer.size ∧
      after.Backed meaning ∧
      (¬ arena.Wraps bytes → ∀ slab earlier, arena.writer.Holds slab earlier →
        after.writer.Holds slab earlier) ∧
      ((after = arena ∧ (∀ slab, result ≠ .ok (some slab)) ∧
          ¬ arena.setup.Takes bytes.length) ∨
        ∃ slab, result = .ok (some slab) ∧ slab.tier = tier ∧ after.writer.Holds slab bytes ∧
          arena.setup.Takes bytes.length))
      arena := by
  rw [writeArenaPayload, ensures_bind, ensures_get, andThen_ok]
  by_cases small : bytes.length < arena.minBytes
  · rw [if_pos small]
    exact ⟨rfl, rfl, backed, fun _ _ _ holds => holds, .inl ⟨rfl, by simp,
      fun takes => absurd takes.1 (not_le.mpr small)⟩⟩
  rw [if_neg small]
  by_cases fits : bytes.length ≤ arena.writer.maxSlab
  · obtain ⟨offset, len, written, ran, formed, size, holds, stays⟩ :=
      ArenaWriter.writePayload_spec backed.formed backed.words fits tier
    simp only [ran]
    refine ⟨rfl, size, ⟨formed, size.symm ▸ backed.words, fun name slab found => ?_⟩, ?_,
      .inr ⟨_, rfl, rfl, holds, not_lt.mp small, fits⟩⟩
    · rcases stays with ⟨same, stays⟩ | ⟨wrapped, -⟩
      · simp only [same, ne_eq, not_true_eq_false, if_false] at found
        obtain ⟨earlier, means, there⟩ := backed.slabs name slab found
        exact ⟨earlier, means, stays slab earlier there⟩
      · -- After a wrap no slab is remembered.
        simp [wrapped] at found
    · intro straight slab earlier there
      rcases stays with ⟨-, stays⟩ | ⟨-, wraps⟩
      · exact stays slab earlier there
      · exact absurd ⟨not_lt.mp small, fits, wraps⟩ straight
  · have tooLarge : arena.writer.writePayload bytes = none := by
      rw [ArenaWriter.writePayload, if_pos (not_le.mp fits)]
    simp only [tooLarge]
    exact ⟨rfl, rfl, backed, fun _ _ _ holds => holds, .inl ⟨rfl, by simp, fun both => fits both.2⟩⟩

/-- A slab under the name is replaced, or it means the right thing as it is. -/
theorem rememberArenaSlab_backed {ns key : Text} {bytes : Bytes}
    (backed : arena.Backed fun name held => meaning name held ∨ (name = arenaKey ns key ∧
      arena.setup.Takes bytes.length))
    (means : arena.setup.Takes bytes.length → meaning (arenaKey ns key) bytes) (tier : UInt8) :
    (rememberArenaSlab ns key bytes tier).Ensures (fun result after =>
      after.minBytes = arena.minBytes ∧ after.writer.size = arena.writer.size ∧
      after.Backed meaning ∧ ∀ slab, result = .ok (some slab) →
        after.writer.Holds slab bytes ∧ meaning (arenaKey ns key) bytes) arena := by
  rw [rememberArenaSlab, ensures_bind]
  refine (writeArenaPayload_backed backed bytes tier).weaken ?_
  rintro result after ⟨least, size, backed', -, ⟨rfl, noSlab, notWritten⟩ |
    ⟨slab, rfl, -, holds, takes⟩⟩
  · -- Nothing was written, so no slab was to be replaced.
    have full : after.Backed meaning := backed'.mono fun name slab bytes found means =>
      means.resolve_right fun replaced => notWritten replaced.2
    rcases result with error | _ | slab
    · exact ⟨least, size, full, by simp⟩
    · exact ⟨least, size, full, by simp⟩
    · exact absurd rfl (noSlab slab)
  · rw [andThen_ok]
    have others : after.Backed fun name bytes => name ≠ arenaKey ns key → meaning name bytes :=
      backed'.mono fun name slab bytes found means other =>
        means.resolve_right fun replaced => other replaced.1
    refine ⟨least, size, others.insert holds (means takes), fun other same => ?_⟩
    cases same
    exact ⟨holds, means takes⟩

end WombatKV
