import Mathlib.Data.List.Basic

/-! Writes promised in one order and applied in another. -/

namespace WombatKV

open List

structure LoggedWrite (κ υ : Type) where
  key : κ
  value : υ
  applied : Bool

namespace LoggedWrite

variable {κ υ : Type} [DecidableEq κ]

def lastApplied (log : List (LoggedWrite κ υ)) (key : κ) : Option υ :=
  (log.filter fun write => write.applied && write.key = key).getLast?.map value

def lastPromised (log : List (LoggedWrite κ υ)) (key : κ) : Option υ :=
  (log.filter fun write => decide (write.key = key)).getLast?.map value

variable {front back log : List (LoggedWrite κ υ)} {write : LoggedWrite κ υ} {key : κ}

theorem lastApplied_eq_lastPromised (all : ∀ write ∈ log, write.applied = true) :
    lastApplied log key = lastPromised log key := by
  have same : (log.filter fun write => write.applied && write.key = key) =
      log.filter fun write => decide (write.key = key) :=
    filter_congr fun write member => by simp [all write member]
  rw [lastApplied, lastPromised, same]

theorem lastApplied_ne_none (member : write ∈ log) (applied : write.applied = true) :
    lastApplied log write.key ≠ none := by
  have listed : write ∈ log.filter fun other => other.applied && other.key = write.key :=
    mem_filter.mpr ⟨member, by simp [applied]⟩
  rw [lastApplied]
  intro missing
  rw [Option.map_eq_none_iff, List.getLast?_eq_none_iff] at missing
  rw [missing] at listed
  cases listed

theorem lastApplied_apply (unapplied : write.applied = false)
    (later : ∀ other ∈ back, other.applied = true → other.key ≠ write.key) (key : κ) :
    lastApplied (front ++ { write with applied := true } :: back) key =
      if key = write.key then some write.value else lastApplied (front ++ write :: back) key := by
  simp only [lastApplied, filter_append]
  by_cases same : key = write.key
  · -- Behind the write nothing of its key counts, so it comes last.
    have nothing : (back.filter fun other => other.applied && other.key = key) = [] := by
      rw [filter_eq_nil_iff]
      intro other member counts
      simp only [Bool.and_eq_true, decide_eq_true_eq] at counts
      exact later other member counts.1 (counts.2.trans same)
    rw [if_pos same, filter_cons_of_pos (by simp [same]), nothing, List.getLast?_concat]
    rfl
  · -- For other keys the write counts neither before nor after.
    rw [if_neg same, filter_cons_of_neg (by simp [Ne.symm same]),
      filter_cons_of_neg (by simp [unapplied])]

theorem lastApplied_concat (applied : write.applied = true) (key : κ) :
    lastApplied (log ++ [write]) key =
      if key = write.key then some write.value else lastApplied log key := by
  simp only [lastApplied, filter_append]
  by_cases same : key = write.key
  · rw [if_pos same, filter_cons_of_pos (by simp [same, applied]), filter_nil,
      List.getLast?_concat]
    rfl
  · rw [if_neg same, filter_cons_of_neg (by simp [Ne.symm same]), filter_nil,
      append_nil]

theorem lastApplied_promise (unapplied : write.applied = false) (key : κ) :
    lastApplied (log ++ [write]) key = lastApplied log key := by
  simp only [lastApplied, filter_append]
  rw [filter_cons_of_neg (by simp [unapplied]), filter_nil, append_nil]

end LoggedWrite

end WombatKV
