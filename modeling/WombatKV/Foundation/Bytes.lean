import Mathlib.Data.List.Basic
import Mathlib.Tactic.Ring

/-! Byte strings, numbers in them, and sockets they arrive on. -/

namespace WombatKV

open List

section

abbrev Bytes := List UInt8

def ascii (literal : String) : Bytes := literal.toList.map fun char => UInt8.ofNat char.toNat

def slice (bytes : Bytes) (start stop : Nat) : Bytes := (bytes.drop start).take (stop - start)

def leBytes : Nat → Nat → Bytes
  | 0, _ => []
  | width + 1, number => UInt8.ofNat (number % 256) :: leBytes width (number / 256)

def fromLe : Bytes → Nat
  | [] => 0
  | byte :: rest => byte.toNat + 256 * fromLe rest

@[simp] theorem leBytes_length (width number : Nat) : (leBytes width number).length = width := by
  induction width generalizing number with
  | zero => rfl
  | succ width ih => simp [leBytes, ih]

theorem fromLe_leBytes (width number : Nat) :
    fromLe (leBytes width number) = number % 256 ^ width := by
  induction width generalizing number with
  | zero => simp [leBytes, fromLe, Nat.mod_one]
  | succ width ih =>
    have digit : (UInt8.ofNat (number % 256)).toNat = number % 256 := by
      simp
    rw [leBytes, fromLe, ih, digit, pow_succ', Nat.mod_mul]

theorem fromLe_leBytes_of_lt {width number : Nat} (fits : number < 256 ^ width) :
    fromLe (leBytes width number) = number := by
  rw [fromLe_leBytes, Nat.mod_eq_of_lt fits]

theorem fromLe_lt (bytes : Bytes) : fromLe bytes < 256 ^ bytes.length := by
  induction bytes with
  | nil => simp [fromLe]
  | cons byte rest ih =>
    have digit := byte.toNat_lt
    rw [fromLe, length_cons, pow_succ']
    omega

theorem leBytes_fromLe (bytes : Bytes) : leBytes bytes.length (fromLe bytes) = bytes := by
  induction bytes with
  | nil => rfl
  | cons byte rest ih =>
    have digit := byte.toNat_lt
    have low : (byte.toNat + 256 * fromLe rest) % 256 = byte.toNat := by omega
    have high : (byte.toNat + 256 * fromLe rest) / 256 = fromLe rest := by omega
    rw [length_cons, leBytes, fromLe, low, high, ih, UInt8.ofNat_toNat]

def u32Le (word : UInt32) : Bytes := leBytes 4 word.toNat

def fromU32Le (bytes : Bytes) : UInt32 := UInt32.ofNat (fromLe bytes)

@[simp] theorem u32Le_length (word : UInt32) : (u32Le word).length = 4 := leBytes_length 4 _

@[simp] theorem fromU32Le_u32Le (word : UInt32) : fromU32Le (u32Le word) = word := by
  rw [fromU32Le, u32Le, fromLe_leBytes_of_lt word.toNat_lt, UInt32.ofNat_toNat]

variable {bytes rest front : Bytes} {start stop count : Nat}

theorem u32Le_fromU32Le (four : bytes.length = 4) : u32Le (fromU32Le bytes) = bytes := by
  have small := fromLe_lt bytes
  rw [four] at small
  rw [u32Le, fromU32Le, UInt32.toNat_ofNat_of_lt' small, ← four, leBytes_fromLe]

theorem slice_append_right {before : Bytes} (behind : before.length ≤ start) :
    slice (before ++ rest) start stop =
      slice rest (start - before.length) (stop - before.length) := by
  have width : stop - before.length - (start - before.length) = stop - start := by omega
  rw [slice, slice, width, drop_append, drop_eq_nil_of_le behind, nil_append]

theorem slice_append_left (covers : front.length = stop) :
    slice (front ++ rest) 0 stop = front := by
  rw [slice, drop_zero, Nat.sub_zero, take_left' covers]

theorem slice_append_slice (bytes : Bytes) {middle : Nat} (first : start ≤ middle)
    (second : middle ≤ stop) :
    slice bytes start middle ++ slice bytes middle stop = slice bytes start stop := by
  have behind : bytes.drop middle = (bytes.drop start).drop (middle - start) := by
    rw [drop_drop, Nat.add_sub_cancel' first]
  have width : stop - start = (middle - start) + (stop - middle) := by omega
  rw [slice, slice, slice, behind, width, take_add]

theorem slice_length (inside : stop ≤ bytes.length) :
    (slice bytes start stop).length = stop - start := by
  rw [slice, length_take, length_drop]
  omega

theorem slice_part {part : Bytes} (before rest : Bytes) (laid : bytes = before ++ (part ++ rest))
    (starts : before.length = start) (ends : start + part.length = stop) :
    slice bytes start stop = part := by
  have covers : part.length = stop - start := by omega
  rw [laid, slice_append_right (by omega), starts, Nat.sub_self]
  exact slice_append_left covers

theorem slice_append_of_le (inside : stop ≤ front.length) :
    slice (front ++ rest) start stop = slice front start stop := by
  rcases Nat.le_total start front.length with starts | starts
  · have within : stop - start ≤ (front.drop start).length := by
      rw [length_drop]
      omega
    rw [slice, slice, drop_append_of_le_length starts, take_append_of_le_length within]
  · -- A slice that starts behind its stop is empty.
    have empty : stop - start = 0 := by omega
    rw [slice, slice, empty, take_zero, take_zero]

theorem slice_slice {low high : Nat} (inside : start + high ≤ stop) :
    slice (slice bytes start stop) low high = slice bytes (start + low) (start + high) := by
  have width : min (high - low) (stop - start - low) = start + high - (start + low) := by omega
  rw [slice, slice, slice, drop_take, take_take, drop_drop, width]

theorem slice_min_length (bytes : Bytes) (start stop : Nat) :
    slice bytes start (min stop bytes.length) = slice bytes start stop := by
  rcases Nat.le_total stop bytes.length with inside | beyond
  · rw [Nat.min_eq_left inside]
  · -- Both take everything that is left.
    have left : (bytes.drop start).length ≤ bytes.length - start := by rw [length_drop]
    have right : (bytes.drop start).length ≤ stop - start := by
      rw [length_drop]
      omega
    rw [Nat.min_eq_right beyond, slice, slice, take_of_length_le left, take_of_length_le right]

theorem slice_eq_nil (outside : bytes.length ≤ start ∨ stop ≤ start) :
    slice bytes start stop = [] := by
  rcases outside with beyond | reversed
  · rw [slice, drop_eq_nil_of_le beyond, take_nil]
  · rw [slice, Nat.sub_eq_zero_of_le reversed, take_zero]

theorem leBytes_slice (width start : Nat) (inside : start + width ≤ bytes.length) :
    leBytes width (fromLe (slice bytes start (start + width))) =
      slice bytes start (start + width) := by
  have long : (slice bytes start (start + width)).length = _ := slice_length inside
  rw [Nat.add_sub_cancel_left] at long
  have same := leBytes_fromLe (slice bytes start (start + width))
  rwa [long] at same

theorem fromLe_slice_lt (width start : Nat) (inside : start + width ≤ bytes.length) :
    fromLe (slice bytes start (start + width)) < 256 ^ width := by
  have long : (slice bytes start (start + width)).length = _ := slice_length inside
  rw [Nat.add_sub_cancel_left] at long
  have small := fromLe_lt (slice bytes start (start + width))
  rwa [long] at small

def readExact (count : Nat) (stream : Bytes) : Option (Bytes × Bytes) :=
  if stream.length < count then none else some (stream.take count, stream.drop count)

theorem readExact_eq_some {stream : Bytes} :
    readExact count stream = some (front, rest) ↔
      stream = front ++ rest ∧ front.length = count := by
  unfold readExact
  split
  · rename_i short
    refine ⟨fun read => (nomatch read), ?_⟩
    rintro ⟨rfl, rfl⟩
    simp at short
  · rename_i long
    constructor
    · intro read
      cases read
      exact ⟨(take_append_drop count stream).symm, by simp; omega⟩
    · rintro ⟨rfl, rfl⟩
      simp

theorem readExact_append (length : front.length = count) (rest : Bytes) :
    readExact count (front ++ rest) = some (front, rest) :=
  readExact_eq_some.mpr ⟨rfl, length⟩

theorem readExact_short {stream : Bytes} (short : stream.length < count) :
    readExact count stream = none := if_pos short

end

structure Socket where
  incoming : Bytes
  arriving : Nat → Nat

namespace Socket

def read (room : Nat) (socket : Socket) : Bytes × Socket :=
  let count := min (max 1 (socket.arriving 0)) room
  (socket.incoming.take count,
    ⟨socket.incoming.drop count, fun index => socket.arriving (index + 1)⟩)

variable {room : Nat} {socket : Socket}

theorem read_append : (socket.read room).1 ++ (socket.read room).2.incoming = socket.incoming :=
  take_append_drop _ _

theorem length_read_le : (socket.read room).1.length ≤ room := by
  simp only [read, length_take]
  omega

theorem read_eq_nil (positive : 0 < room) (ended : (socket.read room).1 = []) :
    socket.incoming = [] := by
  have short := congrArg List.length ended
  simp only [read, length_take, length_nil] at short
  exact length_eq_zero_iff.mp (by omega)

theorem length_read_lt (some : (socket.read room).1 ≠ []) :
    (socket.read room).2.incoming.length < socket.incoming.length := by
  have whole := congrArg List.length (@read_append room socket)
  rw [length_append] at whole
  have positive := length_pos_iff.mpr some
  omega

end Socket

end WombatKV
