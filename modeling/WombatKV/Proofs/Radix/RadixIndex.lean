import Mathlib.Data.List.TakeWhile
import WombatKV.Radix.RadixIndex

/-! A lookup finds the longest leading run of present keys. -/

namespace WombatKV

open Call List

namespace RadixIndex

variable {index : RadixIndex} {guardrail : MemoryGuardrail}

def leadingRun (index : RadixIndex) (chain : List BlockHash) : List BlockHash :=
  chain.takeWhile (index.entries.contains ·)

def isResident (index : RadixIndex) (key : BlockHash) : Bool :=
  index.entries[key]?.any (·.residency ≠ .remoteOnly)

def handle (index : RadixIndex) (key : BlockHash) : Option BlockHandle :=
  index.entries[key]?.map fun entry => ⟨key, entry.blockIndex, entry.residency⟩

theorem leadingRun_cons (key : BlockHash) (rest : List BlockHash) :
    index.leadingRun (key :: rest) =
      if index.entries[key]?.isSome then key :: index.leadingRun rest else [] := by
  rw [leadingRun, takeWhile_cons, Std.ExtTreeMap.contains_eq_isSome_getElem?, leadingRun]

theorem lookupFrom_cons {key : BlockHash} {entry : RadixEntry}
    (found : index.entries[key]? = some entry) (rest : List BlockHash) (depth : UInt32)
    (seen : Bool) (buffers : LookupBuffers) :
    index.lookupFrom (key :: rest) depth seen buffers =
      if !seen && index.isResident key then
        index.lookupFrom rest (saturatingNext depth) false
          ⟨buffers.residentHandles ++ [⟨key, entry.blockIndex, entry.residency⟩],
            buffers.prefetchKeys⟩
      else
        index.lookupFrom rest (saturatingNext depth) true
          ⟨buffers.residentHandles, buffers.prefetchKeys ++ [key]⟩ := by
  rw [lookupFrom, isResident, found]
  cases seen with
  | true => simp
  | false => cases kind : entry.residency <;> simp [kind]

theorem lookupFrom_spec (index : RadixIndex) (chain : List BlockHash) (depth : UInt32) (seen : Bool)
    (buffers : LookupBuffers) :
    ((index.lookupFrom chain depth seen buffers).1.toNat =
        min (depth.toNat + (index.leadingRun chain).length) (2 ^ 32 - 1)) ∧
      (index.lookupFrom chain depth seen buffers).2 =
        ⟨buffers.residentHandles ++ ((index.leadingRun chain).takeWhile
            (!seen && index.isResident ·)).filterMap index.handle,
          buffers.prefetchKeys ++
            (index.leadingRun chain).dropWhile (!seen && index.isResident ·)⟩ := by
  have word := depth.toNat_lt
  induction chain generalizing depth seen buffers with
  | nil =>
    simp only [lookupFrom, leadingRun, takeWhile_nil, dropWhile_nil, filterMap_nil,
      length_nil, append_nil, and_true]
    omega
  | cons key rest ih =>
    cases found : index.entries[key]? with
    | none =>
      simp only [lookupFrom, leadingRun_cons, found, Option.isSome_none, Bool.false_eq_true,
        if_false, takeWhile_nil, dropWhile_nil, filterMap_nil, length_nil, append_nil, and_true]
      omega
    | some entry =>
      have next := saturatingNext_toNat depth
      have held : index.handle key = some ⟨key, entry.blockIndex, entry.residency⟩ := by
        rw [handle, found, Option.map_some]
      rw [lookupFrom_cons found, leadingRun_cons, found, Option.isSome_some, if_pos rfl,
        takeWhile_cons, dropWhile_cons]
      cases resident : !seen && index.isResident key with
      | true =>
        have unseen : seen = false := by simpa using (Bool.and_eq_true_iff.mp resident).1
        obtain ⟨deeper, filled⟩ := ih (saturatingNext depth) false
          ⟨buffers.residentHandles ++ [⟨key, entry.blockIndex, entry.residency⟩],
            buffers.prefetchKeys⟩ (UInt32.toNat_lt _)
        simp only [if_true, deeper, filled, unseen, filterMap_cons, held, append_assoc,
          singleton_append, length_cons, and_true]
        omega
      | false =>
        obtain ⟨deeper, filled⟩ := ih (saturatingNext depth) true
          ⟨buffers.residentHandles, buffers.prefetchKeys ++ [key]⟩ (UInt32.toNat_lt _)
        have taken : (index.leadingRun rest).takeWhile (fun _ => false) = [] :=
          takeWhile_eq_nil_iff.mpr fun _ => Bool.false_ne_true
        have left : (index.leadingRun rest).dropWhile (fun _ => false) = index.leadingRun rest :=
          dropWhile_eq_self_iff.mpr fun _ => Bool.false_ne_true
        simp only [Bool.false_eq_true, if_false, deeper, filled, Bool.not_true, Bool.false_and,
          taken, left, filterMap_nil, append_nil, append_assoc,
          singleton_append, length_cons, and_true]
        omega

theorem map_key_handles (keys : List BlockHash) (present : ∀ key ∈ keys, key ∈ index.entries) :
    (keys.filterMap index.handle).map (·.key) = keys := by
  induction keys with
  | nil => rfl
  | cons key rest ih =>
    obtain ⟨here, later⟩ := forall_mem_cons.mp present
    have found : index.entries[key]? = some index.entries[key] :=
      Std.ExtTreeMap.getElem?_eq_some_getElem here
    rw [filterMap_cons, handle, found, Option.map_some, map_cons, ih later]

theorem size_upsert (index : RadixIndex) (key : BlockHash) (blockIndex : UInt32)
    (residency : Residency) :
    (index.upsert key blockIndex residency).entries.size =
      if key ∈ index.entries then index.entries.size else index.entries.size + 1 :=
  Std.ExtTreeMap.size_insert

theorem upsertGuarded_eq (index : RadixIndex) (key : BlockHash) (blockIndex : UInt32)
    (residency : Residency) (guardrail : MemoryGuardrail) :
    upsertGuarded key blockIndex residency guardrail index =
      if (index.upsert key blockIndex residency).estimatedHeapBytes guardrail ≤
          guardrail.indexBudgetBytes then
        (.ok (), index.upsert key blockIndex residency)
      else
        (.error (.memoryBudgetExceeded
          ((index.upsert key blockIndex residency).estimatedHeapBytes guardrail)
          guardrail.indexBudgetBytes), index) := by
  rw [estimatedHeapBytes, size_upsert]
  simp only [upsertGuarded, get_bind_apply]
  by_cases fits : guardrail.estimateIndexBytes
      (if key ∈ index.entries then index.entries.size else index.entries.size + 1) ≤
        guardrail.indexBudgetBytes
  · rw [if_pos fits, if_neg (UInt64.not_lt.mpr fits)]
    rfl
  · rw [if_neg fits, if_pos (UInt64.not_le.mp fits)]
    rfl

theorem guardedRun_within (calls : List (BlockHash × UInt32 × Residency))
    (within : index.estimatedHeapBytes guardrail ≤ guardrail.indexBudgetBytes) :
    (index.guardedRun guardrail calls).estimatedHeapBytes guardrail ≤
      guardrail.indexBudgetBytes := by
  induction calls generalizing index with
  | nil => exact within
  | cons call rest ih =>
    obtain ⟨key, blockIndex, residency⟩ := call
    refine ih ?_
    rw [upsertGuarded_eq]
    split
    · assumption
    · exact within

theorem upsertGuarded_present {key : BlockHash} (present : key ∈ index.entries)
    (within : index.estimatedHeapBytes guardrail ≤ guardrail.indexBudgetBytes)
    (blockIndex : UInt32) (residency : Residency) :
    upsertGuarded key blockIndex residency guardrail index =
      (.ok (), index.upsert key blockIndex residency) := by
  have same : (index.upsert key blockIndex residency).estimatedHeapBytes guardrail =
      index.estimatedHeapBytes guardrail := by
    rw [estimatedHeapBytes, size_upsert, if_pos present, estimatedHeapBytes]
  rw [upsertGuarded_eq, same, if_pos within]

theorem new_within (guardrail : MemoryGuardrail) :
    (⟨∅⟩ : RadixIndex).estimatedHeapBytes guardrail ≤ guardrail.indexBudgetBytes := by
  have empty : (⟨∅⟩ : RadixIndex).estimatedHeapBytes guardrail = 0 := by
    simp [estimatedHeapBytes, MemoryGuardrail.estimateIndexBytes, saturatingMul]
  rw [empty]
  exact UInt64.zero_le

end RadixIndex

end WombatKV
