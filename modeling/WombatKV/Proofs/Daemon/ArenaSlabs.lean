import WombatKV.Daemon.ArenaRuns
import WombatKV.Proofs.Daemon.Arena

/-! Which slabs hold their bytes, and what readers make of them. -/

namespace WombatKV

open List

theorem ArenaWriter.slice_copyIn_after {bytes memory : Bytes} {offset start stop : Nat}
    (after : offset + bytes.length ≤ start) (inside : offset + bytes.length ≤ memory.length) :
    slice (copyIn memory offset bytes) start stop = slice memory start stop := by
  have front : (memory.take offset ++ bytes).length = offset + bytes.length := by
    rw [length_append, length_take_of_le (by omega)]
  rw [copyIn, ← append_assoc, slice, slice, drop_append, front,
    drop_eq_nil_of_le (by omega), nil_append, drop_drop, Nat.add_sub_cancel' after]

def SharedArena.used (arena : SharedArena) : Nat :=
  match arena.phase with
  | .idle | .copied _ => arena.writer.nextOffset
  | .stored write => if write.didWrap then arena.writer.size else write.slabOffset

structure PendingWrite.Placed (write : PendingWrite) (writer : ArenaWriter) : Prop where
  front : arenaHeaderBytes ≤ write.slabOffset
  inside : write.slabOffset + write.bytes.length ≤ writer.size
  there : slice writer.memory write.slabOffset (write.slabOffset + write.bytes.length) =
    write.bytes

structure WrittenSlab.Kept (slab : WrittenSlab) (arena : SharedArena) : Prop where
  front : arenaHeaderBytes ≤ slab.offset
  inside : slab.stop ≤ arena.writer.size
  word : slab.len = UInt32.ofNat slab.bytes.length
  epoch : slab.epoch ≤ arena.writer.wrapEpoch
  behind : slab.epoch = arena.writer.wrapEpoch → slab.stop ≤ arena.used
  there : slab.epoch = arena.writer.wrapEpoch →
    (∀ write ∈ arena.phase.pending, write.didWrap = true → write.apart slab = true) →
      slice arena.writer.memory slab.offset slab.stop = slab.bytes

structure SharedArena.Sound (arena : SharedArena) : Prop where
  formed : arena.writer.WellFormed
  placed : ∀ write ∈ arena.phase.pending, write.Placed arena.writer
  copied : ∀ write, arena.phase = .copied write → write.didWrap = false →
    write.slabOffset = arena.writer.nextOffset
  stored : ∀ write, arena.phase = .stored write →
    arena.writer.nextOffset = write.slabOffset + write.bytes.length
  kept : ∀ slab ∈ arena.slabs, slab.Kept arena
  disjoint : arena.slabs.Pairwise fun later earlier =>
    later.epoch = earlier.epoch → earlier.stop ≤ later.offset

namespace SharedArena

variable {arena after : SharedArena} {bytes : Bytes}

def resting (log : ArenaLog) (reading : ReadPhase) : SharedArena :=
  { log with phase := .idle, reading }

theorem Sound.create {size : Nat} (room : arenaHeaderBytes < size) (reading : ReadPhase) :
    (resting ⟨.create size, []⟩ reading).Sound where
  formed := ArenaWriter.create_wellFormed room
  placed := by simp [resting, WritePhase.pending]
  copied := nofun
  stored := nofun
  kept := by simp [resting]
  disjoint := List.Pairwise.nil

variable (sound : arena.Sound)

include sound

theorem Sound.copy (made : arena.step (.copy bytes) = some after) : after.Sound := by
  obtain ⟨⟨writer, slabs⟩, phase, reading⟩ := arena
  cases phase with
  | copied _ => cases made
  | stored _ => cases made
  | idle =>
    simp only [step] at made
    split at made
    · cases made
    · rename_i fits
      cases made
      obtain ⟨⟨whole, front, inside⟩, -, -, -, kept, disjoint⟩ := sound
      have header : arenaHeaderBytes = 64 := rfl
      have room : bytes.length ≤ writer.size - arenaHeaderBytes := not_lt.mp fits
      simp only at whole front inside kept disjoint
      by_cases wraps : writer.size < writer.nextOffset + bytes.length
      all_goals simp only [wraps, decide_true, decide_false, Bool.false_eq_true, if_true, if_false]
      · -- The bytes go to the front: a slab that they leave alone lies before or behind them.
        have fit : arenaHeaderBytes + bytes.length ≤ writer.memory.length := by omega
        refine ⟨⟨(ArenaWriter.copyIn_length fit).trans whole, front, inside⟩, ?_, ?_, nofun, ?_,
          disjoint⟩
        · rintro write ⟨⟩
          exact ⟨Nat.le_refl _, by simp only; omega, ArenaWriter.slice_copyIn (by omega)⟩
        · rintro write ⟨⟩ ⟨⟩
        · intro slab member
          obtain ⟨slabFront, slabInside, word, epoch, behind, there⟩ := kept slab member
          refine ⟨slabFront, slabInside, word, epoch, behind, fun current apart => ?_⟩
          have alone := apart _ rfl rfl
          rw [← there current (by simp [WritePhase.pending])]
          simp only [PendingWrite.apart, Bool.or_eq_true, decide_eq_true_eq] at alone
          rcases alone with later | earlier
          · exact ArenaWriter.slice_copyIn_after later fit
          · exact ArenaWriter.slice_copyIn_before earlier (by omega)
      · -- The bytes go behind all slabs of the epoch.
        have fit : writer.nextOffset + bytes.length ≤ writer.memory.length := by omega
        refine ⟨⟨(ArenaWriter.copyIn_length fit).trans whole, front, inside⟩, ?_, ?_, nofun, ?_,
          disjoint⟩
        · rintro write ⟨⟩
          exact ⟨front, by simp only; omega, ArenaWriter.slice_copyIn (by omega)⟩
        · rintro write ⟨⟩ -
          rfl
        · intro slab member
          obtain ⟨slabFront, slabInside, word, epoch, behind, there⟩ := kept slab member
          refine ⟨slabFront, slabInside, word, epoch, behind, fun current _ => ?_⟩
          rw [← there current (by simp [WritePhase.pending])]
          exact ArenaWriter.slice_copyIn_before (behind current) (by omega)

theorem Sound.storeOffset (made : arena.step .storeOffset = some after) : after.Sound := by
  obtain ⟨⟨writer, slabs⟩, phase, reading⟩ := arena
  cases phase with
  | idle => cases made
  | stored _ => cases made
  | copied write =>
    cases made
    obtain ⟨⟨whole, front, inside⟩, placed, copied, -, kept, disjoint⟩ := sound
    obtain ⟨writeFront, writeInside, there⟩ := placed write rfl
    simp only at whole front inside writeInside there kept disjoint
    refine ⟨⟨whole, by simp only; omega, writeInside⟩, ?_, nofun, ?_, ?_, disjoint⟩
    · rintro _ ⟨⟩
      exact ⟨writeFront, writeInside, there⟩
    · rintro _ ⟨⟩
      rfl
    · intro slab member
      obtain ⟨slabFront, slabInside, word, epoch, behind, there⟩ := kept slab member
      refine ⟨slabFront, slabInside, word, epoch, fun current => ?_, there⟩
      simp only [used]
      split
      · exact slabInside
      · rename_i straight
        rw [copied write rfl (by simpa using straight)]
        exact behind current

theorem Sound.bumpEpoch (made : arena.step .bumpEpoch = some after) : after.Sound := by
  obtain ⟨⟨writer, slabs⟩, phase, reading⟩ := arena
  cases phase with
  | idle => cases made
  | copied _ => cases made
  | stored write =>
    cases made
    obtain ⟨⟨whole, front, inside⟩, placed, -, stored, kept, disjoint⟩ := sound
    obtain ⟨writeFront, writeInside, there⟩ := placed write rfl
    have next : writer.nextOffset = write.slabOffset + write.bytes.length := stored write rfl
    simp only at whole front inside writeInside there kept disjoint
    have grown : writer.wrapEpoch ≤
        if write.didWrap then writer.wrapEpoch + 1 else writer.wrapEpoch := by
      split <;> omega
    have straight : ∀ slab ∈ slabs, slab.epoch =
        (if write.didWrap then writer.wrapEpoch + 1 else writer.wrapEpoch) →
          slab.epoch = writer.wrapEpoch ∧ write.didWrap = false ∧ slab.stop ≤ write.slabOffset := by
      intro slab member current
      obtain ⟨-, -, -, epoch, behind, -⟩ := kept slab member
      cases wrapped : write.didWrap with
      | true =>
        simp only [wrapped, if_true] at current epoch
        omega
      | false =>
        simp only [wrapped, Bool.false_eq_true, if_false] at current
        have before := behind current
        simp only [used, wrapped, Bool.false_eq_true, if_false] at before
        exact ⟨current, rfl, before⟩
    refine ⟨⟨whole, front, inside⟩, by simp [WritePhase.pending], nofun, nofun, ?_, ?_⟩
    · intro slab member
      rcases mem_cons.mp member with rfl | older
      · exact ⟨writeFront, writeInside, rfl, Nat.le_refl _, fun _ => Nat.le_of_eq next.symm,
          fun _ _ => there⟩
      · obtain ⟨slabFront, slabInside, word, epoch, -, there⟩ := kept slab older
        refine ⟨slabFront, slabInside, word, epoch.trans grown, fun current => ?_,
          fun current _ => ?_⟩
        · have before := (straight slab older current).2.2
          simp only [used]
          omega
        · obtain ⟨old, unwrapped, -⟩ := straight slab older current
          refine there old fun pending is wrapped => ?_
          cases is
          rw [unwrapped] at wrapped
          cases wrapped
    · exact List.Pairwise.cons
        (fun earlier member same => (straight earlier member same.symm).2.2) disjoint

theorem Sound.reading (reading : ReadPhase) : { arena with reading }.Sound :=
  ⟨sound.formed, sound.placed, sound.copied, sound.stored,
    fun slab member =>
      let kept := sound.kept slab member
      ⟨kept.front, kept.inside, kept.word, kept.epoch, kept.behind, kept.there⟩,
    sound.disjoint⟩

theorem Sound.step {turn : ArenaTurn} (made : arena.step turn = some after) : after.Sound := by
  cases turn with
  | copy bytes => exact sound.copy made
  | storeOffset => exact sound.storeOffset made
  | bumpEpoch => exact sound.bumpEpoch made
  | sample index =>
    obtain ⟨slab, -, rfl⟩ := Option.map_eq_some_iff.mp made
    exact sound.reading _
  | read =>
    simp only [SharedArena.step] at made
    split at made
    · obtain ⟨bytes, -, rfl⟩ := Option.map_eq_some_iff.mp made
      exact sound.reading _
    · cases made
  | sampleAgain =>
    simp only [SharedArena.step] at made
    split at made
    · cases made
      exact sound.reading _
    · cases made

theorem Sound.readPayload {slab : WrittenSlab} (member : slab ∈ arena.slabs)
    (current : slab.epoch = arena.writer.wrapEpoch)
    (apart : ∀ write ∈ arena.phase.pending, write.didWrap = true → write.apart slab = true) :
    arena.writer.readPayload slab.offset slab.len = some slab.bytes ↔
      slab.bytes.length < 2 ^ 32 := by
  obtain ⟨front, inside, word, -, -, there⟩ := sound.kept slab member
  have whole := sound.formed.whole
  have held := there current apart
  rw [WrittenSlab.stop] at inside held
  have short : slab.len.toNat = slab.bytes.length % 2 ^ 32 := by
    rw [word, UInt32.toNat_ofNat']
  have least : slab.bytes.length % 2 ^ 32 ≤ slab.bytes.length := Nat.mod_le _ _
  have read : arena.writer.readPayload slab.offset slab.len =
      some (slice arena.writer.memory slab.offset
        (slab.offset + slab.bytes.length % 2 ^ 32)) := by
    rw [ArenaWriter.readPayload, if_neg (by rw [short]; omega), short]
  rw [read]
  constructor
  · -- As many bytes are read as the length says.
    intro same
    have length := congrArg List.length (Option.some.inj same)
    rw [slice_length (by omega), Nat.add_sub_cancel_left] at length
    rw [← length]
    exact Nat.mod_lt _ (by decide)
  · intro fits
    rw [Nat.mod_eq_of_lt fits, held]

end SharedArena

theorem ArenaLog.write_steps (log : ArenaLog) (bytes : Bytes) (reading : ReadPhase) :
    (SharedArena.resting (log.write bytes) reading = SharedArena.resting log reading) ∨
      ∃ copied stored, (SharedArena.resting log reading).step (.copy bytes) = some copied ∧
        copied.step .storeOffset = some stored ∧
        stored.step .bumpEpoch = some (SharedArena.resting (log.write bytes) reading) := by
  obtain ⟨writer, slabs⟩ := log
  by_cases fits : bytes.length ≤ writer.maxSlab
  · right
    by_cases wraps : writer.size < writer.nextOffset + bytes.length
    · simp [ArenaLog.write, ArenaWriter.writePayload_wraps fits wraps, SharedArena.resting,
        SharedArena.step, not_lt.mpr fits, wraps]
    · simp [ArenaLog.write, ArenaWriter.writePayload_stays fits wraps, SharedArena.resting,
        SharedArena.step, not_lt.mpr fits, wraps]
  · left
    simp [ArenaLog.write, ArenaWriter.writePayload, not_le.mp fits]

theorem ArenaLog.write_size (log : ArenaLog) (bytes : Bytes) :
    (log.write bytes).writer.size = log.writer.size := by
  rw [write, ArenaWriter.writePayload]
  split
  · rfl
  · rename_i written
    split at written
    · cases written
    · cases written
      rfl

theorem ArenaLog.writes_sound {size : Nat} (room : arenaHeaderBytes < size)
    (payloads : List Bytes) :
    (SharedArena.resting (writes size payloads) .idle).Sound ∧
      (writes size payloads).writer.size = size := by
  induction payloads using List.reverseRecOn with
  | nil => exact ⟨.create room _, rfl⟩
  | append_singleton earlier bytes ih =>
    have last : writes size (earlier ++ [bytes]) = (writes size earlier).write bytes := by
      simp [writes]
    rw [last]
    refine ⟨?_, (write_size _ _).trans ih.2⟩
    rcases write_steps (writes size earlier) bytes .idle with same | ⟨_, _, copied, stored, bumped⟩
    · rw [same]
      exact ih.1
    · exact ((ih.1.copy copied).storeOffset stored).bumpEpoch bumped

theorem ArenaLog.writes_readPayload {size : Nat} (room : arenaHeaderBytes < size)
    (payloads : List Bytes) {slab : WrittenSlab} (member : slab ∈ (writes size payloads).slabs)
    (current : slab.epoch = (writes size payloads).writer.wrapEpoch) :
    (writes size payloads).writer.readPayload slab.offset slab.len = some slab.bytes ↔
      slab.bytes.length < 2 ^ 32 :=
  (writes_sound room payloads).1.readPayload member current
    (by simp [SharedArena.resting, WritePhase.pending])

/--
Every slab lies in the data area, slabs of one epoch are disjoint, no sum leaves the machine word,
and the slabs of the epoch are read back but for those whose length was cut to 32 bits.
-/
theorem arena_writes_disjoint (size : Nat) (room : arenaHeaderBytes < size) (small : size < 2 ^ 63)
    (payloads : List Bytes) :
    (∀ slab ∈ (ArenaLog.writes size payloads).slabs,
        arenaHeaderBytes ≤ slab.offset ∧ slab.stop ≤ size) ∧
      (ArenaLog.writes size payloads).slabs.Pairwise (fun later earlier =>
        later.epoch = earlier.epoch → earlier.stop ≤ later.offset) ∧
      (∀ bytes : Bytes, bytes.length ≤ (ArenaLog.writes size payloads).writer.maxSlab →
        (ArenaLog.writes size payloads).writer.nextOffset + bytes.length < wordLimit) ∧
      ∀ slab ∈ (ArenaLog.writes size payloads).slabs,
        slab.epoch = (ArenaLog.writes size payloads).writer.wrapEpoch →
          ((ArenaLog.writes size payloads).writer.readPayload slab.offset slab.len =
            some slab.bytes ↔ slab.bytes.length < 2 ^ 32) := by
  obtain ⟨sound, same⟩ := ArenaLog.writes_sound room payloads
  refine ⟨fun slab member => ?_, sound.disjoint, fun bytes fits => ?_,
    fun slab member current => ArenaLog.writes_readPayload room payloads member current⟩
  · have kept := sound.kept slab member
    exact ⟨kept.front, kept.inside.trans (Nat.le_of_eq same)⟩
  · have inside : (ArenaLog.writes size payloads).writer.nextOffset ≤ _ := sound.formed.inside
    have limit : wordLimit = 2 ^ 64 := rfl
    rw [ArenaWriter.maxSlab, same] at fits
    simp only [SharedArena.resting, same] at inside
    omega

theorem arena_writes_disjoint_two :
    (ArenaLog.writes 70 [[1, 2], [3]]).writer.readPayload 64 2 = some [1, 2] := by
  have slab := (arena_writes_disjoint 70 (by decide) (by decide) [[1, 2], [3]]).2.2.2
    ⟨64, 2, 0, [1, 2]⟩ (.tail _ (.head _)) (by decide)
  exact slab.mpr (by decide)

theorem ArenaLog.writes_one {size : Nat} {bytes : Bytes}
    (fits : arenaHeaderBytes + bytes.length ≤ size) :
    (⟨arenaHeaderBytes, UInt32.ofNat bytes.length, 0, bytes⟩ : WrittenSlab) ∈
        (writes size [bytes]).slabs ∧ (writes size [bytes]).writer.wrapEpoch = 0 := by
  have slab : bytes.length ≤ (ArenaWriter.create size).maxSlab := Nat.le_sub_of_add_le' fits
  have straight : ¬ (ArenaWriter.create size).size <
      (ArenaWriter.create size).nextOffset + bytes.length := Nat.not_lt.mpr fits
  simp only [writes, foldl_cons, foldl_nil, write, ArenaWriter.writePayload_stays slab straight]
  exact ⟨.head _, rfl⟩

theorem arena_writes_disjoint_cut :
    ∃ slab ∈ (ArenaLog.writes (2 ^ 32 + 64) [List.replicate (2 ^ 32) 7]).slabs,
      slab.epoch = (ArenaLog.writes (2 ^ 32 + 64) [List.replicate (2 ^ 32) 7]).writer.wrapEpoch ∧
        (ArenaLog.writes (2 ^ 32 + 64) [List.replicate (2 ^ 32) 7]).writer.readPayload
          slab.offset slab.len ≠ some slab.bytes := by
  have length : (List.replicate (2 ^ 32) (7 : UInt8)).length = 2 ^ 32 := length_replicate
  have fits : arenaHeaderBytes + (List.replicate (2 ^ 32) (7 : UInt8)).length ≤ 2 ^ 32 + 64 := by
    rw [length]
    decide
  have room : arenaHeaderBytes < 2 ^ 32 + 64 := by decide
  obtain ⟨member, epoch⟩ := ArenaLog.writes_one fits
  refine ⟨_, member, epoch.symm, fun read => ?_⟩
  have short := (ArenaLog.writes_readPayload room _ member epoch.symm).mp read
  rw [length] at short
  exact Nat.lt_irrefl _ short

theorem ArenaReader.readPayload_eq_iff (reader : ArenaReader) (offset : UInt64) (len : UInt32) :
    reader.readPayload offset len = reader.boundsChecked offset len ↔
      ¬ (wordLimit ≤ offset.toNat + len.toNat ∧
        offset.toNat + len.toNat - wordLimit ≤ reader.size.toNat) := by
  have limit : wordLimit = 2 ^ 64 := rfl
  have header : arenaHeaderBytes = 64 := rfl
  have offsetWord := offset.toNat_lt
  have sizeWord := reader.size.toNat_lt
  have lenWord := len.toNat_lt
  have sum : (offset + len.toUInt64).toNat = (offset.toNat + len.toNat) % 2 ^ 64 := by
    rw [UInt64.toNat_add, UInt32.toNat_toUInt64]
  simp only [readPayload, boundsChecked, UInt64.lt_iff_toNat_lt, sum, header]
  by_cases wraps : wordLimit ≤ offset.toNat + len.toNat
  · have wrapped : (offset.toNat + len.toNat) % 2 ^ 64 = offset.toNat + len.toNat - 2 ^ 64 := by
      omega
    rw [wrapped, if_neg (c := 64 ≤ _ ∧ _) (by omega)]
    by_cases within : offset.toNat + len.toNat - wordLimit ≤ reader.size.toNat
    · -- The check passes and the range runs backwards.
      rw [if_neg (by omega), Checked.range, if_neg (by omega)]
      simp [Checked.fail, wraps, within]
    · rw [if_pos (by omega)]
      simp [within]
  · have exact : (offset.toNat + len.toNat) % 2 ^ 64 = offset.toNat + len.toNat := by omega
    rw [exact]
    simp only [wraps, false_and, not_false_eq_true, iff_true]
    by_cases inside : 64 ≤ offset.toNat ∧ offset.toNat + len.toNat ≤ reader.size.toNat
    · rw [if_neg (by omega), if_pos inside,
        Checked.range_eq_ok (Nat.le_add_right _ _) (by rw [reader.mapped]; exact inside.2)]
    · rw [if_pos (by omega), if_neg inside]

theorem parseArenaRef_lt {message : Text} {offset : Nat} {len : UInt32}
    (found : parseArenaRef message = some (offset, len)) : offset < wordLimit := by
  obtain ⟨encoded, -, parsed⟩ := Option.bind_eq_some_iff.mp found
  split at parsed
  · obtain ⟨number, first, rest⟩ := Option.bind_eq_some_iff.mp parsed
    obtain ⟨_, -, ref⟩ := Option.bind_eq_some_iff.mp rest
    cases ref
    exact parseUnsigned_lt first
  · cases parsed

/-- A reference is checked against the file unless the machine's sum wraps to a place inside. -/
theorem arena_refs_checked (reader : ArenaReader) (message : Text) (offset : Nat) (len : UInt32)
    (found : parseArenaRef message = some (offset, len)) :
    reader.readPayload (UInt64.ofNat offset) len =
        (if arenaHeaderBytes ≤ offset ∧ offset + len.toNat ≤ reader.size.toNat then
          .ok (slice reader.mmap offset (offset + len.toNat))
        else Checked.fail (.outOfBounds (UInt64.ofNat offset) len reader.size)) ↔
      ¬ (wordLimit ≤ offset + len.toNat ∧ offset + len.toNat - wordLimit ≤ reader.size.toNat) := by
  have word : (UInt64.ofNat offset).toNat = offset :=
    UInt64.toNat_ofNat_of_lt' (parseArenaRef_lt found)
  have exact := reader.readPayload_eq_iff (UInt64.ofNat offset) len
  rw [ArenaReader.boundsChecked, word] at exact
  exact exact

theorem arena_refs_checked_slab :
    (⟨List.replicate 80 7, 80, rfl⟩ : ArenaReader).readPayload 64 2 = .ok [7, 7] :=
  (arena_refs_checked ⟨List.replicate 80 7, 80, rfl⟩ "tier:1;arena:64:2".toList 64 2
    (by decide +kernel)).mpr (by decide)

theorem arena_refs_checked_wrapped :
    parseArenaRef "tier:1;arena:18446744073709551615:65".toList =
        some (2 ^ 64 - 1, 65) ∧
      (⟨List.replicate 80 7, 80, rfl⟩ : ArenaReader).readPayload (UInt64.ofNat (2 ^ 64 - 1)) 65 =
        .error .outOfBounds := by
  decide +kernel

namespace SharedArena

variable {arena after : SharedArena} {turn : ArenaTurn}

def Reads (arena : SharedArena) : Prop :=
  match arena.reading with
  | .idle => True
  | .sampled slab _ => slab ∈ arena.slabs
  | .copied slab _ bytes => ∃ epoch, slab.epoch ≤ epoch ∧ epoch ≤ arena.writer.wrapEpoch ∧
      (epoch = slab.epoch → bytes = slab.bytes)
  | .over slab _ bytes second => second = UInt64.ofNat slab.epoch → bytes = slab.bytes

theorem Reads.grow (reads : arena.Reads) (same : after.reading = arena.reading)
    (slabs : ∀ slab ∈ arena.slabs, slab ∈ after.slabs)
    (epoch : arena.writer.wrapEpoch ≤ after.writer.wrapEpoch) : after.Reads := by
  rw [Reads] at reads ⊢
  rw [same]
  split
  · trivial
  · rename_i is
    rw [is] at reads
    exact slabs _ reads
  · rename_i is
    rw [is] at reads
    obtain ⟨between, least, most, right⟩ := reads
    exact ⟨between, least, most.trans epoch, right⟩
  · rename_i is
    rw [is] at reads
    exact reads

theorem Reads.read (sound : arena.Sound) (reads : arena.Reads)
    (calm : arena.undisturbed .read = true) (made : arena.step .read = some after) :
    after.Reads := by
  obtain ⟨log, phase, reading⟩ := arena
  cases reading with
  | sampled slab first =>
    obtain ⟨bytes, read, rfl⟩ := Option.map_eq_some_iff.mp made
    have member : slab ∈ log.slabs := reads
    refine ⟨log.writer.wrapEpoch, (sound.kept slab member).epoch, Nat.le_refl _, fun current => ?_⟩
    simp only [undisturbed, Bool.and_eq_true, decide_eq_true_eq, Option.all_eq_true,
      Bool.or_eq_true, Bool.not_eq_true'] at calm
    have apart : ∀ write ∈ phase.pending, write.didWrap = true → write.apart slab = true := by
      intro write pending wrapped
      rcases calm.2 write pending with straight | apart
      · rw [straight] at wrapped
        cases wrapped
      · exact apart
    rw [(sound.readPayload member current.symm apart).mpr calm.1] at read
    exact (Option.some.inj read).symm
  | _ => cases made

theorem Reads.sampleAgain (reads : arena.Reads) (calm : arena.undisturbed .sampleAgain = true)
    (made : arena.step .sampleAgain = some after) : after.Reads := by
  obtain ⟨log, phase, reading⟩ := arena
  cases reading with
  | copied slab first bytes =>
    cases made
    intro sampled
    obtain ⟨epoch, least, most, right⟩ := reads
    have small : log.writer.wrapEpoch < wordLimit := of_decide_eq_true calm
    have same : log.writer.wrapEpoch = slab.epoch := by
      have words := congrArg UInt64.toNat sampled
      rwa [wrapEpoch, UInt64.toNat_ofNat_of_lt' small,
        UInt64.toNat_ofNat_of_lt' ((least.trans most).trans_lt small)] at words
    exact right (Nat.le_antisymm (most.trans (Nat.le_of_eq same)) least)
  | _ => cases made

theorem Reads.step (sound : arena.Sound) (reads : arena.Reads)
    (calm : arena.undisturbed turn = true) (made : arena.step turn = some after) : after.Reads := by
  cases turn with
  | copy bytes =>
    simp only [SharedArena.step] at made
    split at made
    · split at made
      · cases made
      · cases made
        exact reads.grow rfl (fun _ member => member) (Nat.le_refl _)
    · cases made
  | storeOffset =>
    simp only [SharedArena.step] at made
    split at made
    · cases made
      exact reads.grow rfl (fun _ member => member) (Nat.le_refl _)
    · cases made
  | bumpEpoch =>
    simp only [SharedArena.step] at made
    split at made
    · cases made
      refine reads.grow rfl (fun _ member => .tail _ member) ?_
      simp only
      split <;> omega
    · cases made
  | sample index =>
    obtain ⟨slab, found, rfl⟩ := Option.map_eq_some_iff.mp made
    exact mem_of_getElem? found
  | read => exact reads.read sound calm made
  | sampleAgain => exact reads.sampleAgain calm made

end SharedArena

/--
In a run whose reads are undisturbed, a reader whose samples are both the epoch that its slab was
returned at has copied the bytes of the slab.
-/
theorem arena_samples_detect (size : Nat) (room : arenaHeaderBytes < size) {arena : SharedArena}
    (reached : (sharedArenaSystem size).Reachable
      (fun arena turn => arena.undisturbed turn = true) arena) :
    ∀ slab first bytes second, arena.reading = .over slab first bytes second →
      first = UInt64.ofNat slab.epoch ∧ second = UInt64.ofNat slab.epoch →
        bytes = slab.bytes := by
  have initial : (sharedArenaSystem size).start.Sound ∧ (sharedArenaSystem size).start.Reads :=
    ⟨.create room .idle, trivial⟩
  have kept : ∀ (before : SharedArena) turn after, before.Sound ∧ before.Reads →
      before.undisturbed turn = true → before.step turn = some after →
        after.Sound ∧ after.Reads :=
    fun _ _ _ holds calm made => ⟨holds.1.step made, holds.2.step holds.1 calm made⟩
  have both : arena.Sound ∧ arena.Reads := reached.invariant initial kept
  intro slab first bytes second finished samples
  have reads := both.2
  rw [SharedArena.Reads, finished] at reads
  exact reads samples.2

theorem arena_samples_detect_straight :
    ∃ arena bytes, (sharedArenaSystem 68).Reachable
        (fun arena turn => arena.undisturbed turn = true) arena ∧
      arena.reading = .over ⟨64, 2, 0, [1, 2]⟩ 0 bytes 0 ∧ bytes = [1, 2] := by
  obtain ⟨arena, reached, finished⟩ : ∃ arena, (sharedArenaSystem 68).Reachable
      (fun arena turn => arena.undisturbed turn = true) arena ∧
        arena.reading = .over ⟨64, 2, 0, [1, 2]⟩ 0 [1, 2] 0 :=
    System.reaches SharedArena.undisturbed (fun _ _ calm => calm)
      [.copy [1, 2], .storeOffset, .bumpEpoch, .sample 0, .copy [3], .read, .storeOffset,
        .sampleAgain] (by decide +kernel)
  exact ⟨arena, _, reached, finished,
    arena_samples_detect 68 (by decide) reached _ _ _ _ finished ⟨rfl, rfl⟩⟩

theorem arena_samples_detect_torn :
    ∃ arena, (sharedArenaSystem 68).Reachable (fun _ _ => True) arena ∧
      ∃ slab first bytes second, arena.reading = .over slab first bytes second ∧
        first = UInt64.ofNat slab.epoch ∧ second = UInt64.ofNat slab.epoch ∧
          bytes ≠ slab.bytes := by
  obtain ⟨arena, reached, finished⟩ : ∃ arena, (sharedArenaSystem 68).Reachable (fun _ _ => True)
      arena ∧ arena.reading = .over ⟨64, 2, 0, [1, 2]⟩ 0 [3, 4] 0 :=
    System.reaches (fun _ _ => true) (fun _ _ _ => trivial)
      [.copy [1, 2], .storeOffset, .bumpEpoch, .sample 0, .copy [3, 4, 5], .read, .sampleAgain]
      (by decide +kernel)
  exact ⟨arena, reached, _, _, _, _, finished, rfl, rfl, by decide⟩

end WombatKV

