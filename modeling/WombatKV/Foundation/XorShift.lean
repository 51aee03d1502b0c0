import Mathlib.Logic.Function.Defs

/-! Words that are xored with a shift of themselves. -/

namespace WombatKV

variable {width shift : Nat} {word : BitVec width}

theorem eq_zero_of_shiftLeft (moved : 0 < shift) (fixed : word <<< shift = word) : word = 0 := by
  refine BitVec.eq_of_getLsbD_eq fun place inside => ?_
  induction place using Nat.strongRecOn with
  | ind place ih =>
    rw [← fixed, BitVec.getLsbD_shiftLeft]
    by_cases low : place < shift
    · simp [low]
    · simp [ih (place - shift) (by omega) (by omega)]

theorem eq_zero_of_ushiftRight (moved : 0 < shift) (fixed : word >>> shift = word) : word = 0 := by
  have cleared (missing place : Nat) (above : width ≤ place + missing) :
      word.getLsbD place = false := by
    induction missing generalizing place with
    | zero => exact BitVec.getLsbD_of_ge _ _ above
    | succ missing ih =>
      rw [← fixed, BitVec.getLsbD_ushiftRight]
      exact ih (shift + place) (by omega)
  refine BitVec.eq_of_getLsbD_eq fun place inside => ?_
  simp [cleared width place (by omega)]

theorem xorWith_injective {moved : BitVec width → BitVec width}
    (additive : ∀ left right, moved (left ^^^ right) = moved left ^^^ moved right)
    (fixed : ∀ word, moved word = word → word = 0) :
    Function.Injective fun word => word ^^^ moved word := by
  intro left right same
  have own : moved left = left ^^^ (right ^^^ moved right) := by
    rw [← show left ^^^ moved left = right ^^^ moved right from same, ← BitVec.xor_assoc,
      BitVec.xor_self, BitVec.zero_xor]
  refine BitVec.xor_eq_zero_iff.mp (fixed _ ?_)
  rw [additive, own, BitVec.xor_assoc, BitVec.xor_assoc, BitVec.xor_self, BitVec.xor_zero]

theorem xorShiftLeft_injective (shifts : 0 < shift) :
    Function.Injective fun word : BitVec width => word ^^^ word <<< shift :=
  xorWith_injective (fun _ _ => BitVec.shiftLeft_xor_distrib ..) fun _ => eq_zero_of_shiftLeft shifts

theorem xorShiftRight_injective (shifts : 0 < shift) :
    Function.Injective fun word : BitVec width => word ^^^ word >>> shift :=
  xorWith_injective (fun _ _ => BitVec.ushiftRight_xor_distrib ..) fun _ =>
    eq_zero_of_ushiftRight shifts

end WombatKV
