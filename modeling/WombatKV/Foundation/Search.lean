import Mathlib.Algebra.BigOperators.Group.List.Basic
import Mathlib.Algebra.GroupWithZero.Nat

/-! The first occurrence of a pattern, and items that reach a bound. -/

namespace WombatKV

open List

section

variable {α : Type} [DecidableEq α]

def splitAtFirst (pattern : List α) : List α → Option (List α × List α)
  | [] => if pattern = [] then some ([], []) else none
  | head :: rest =>
    if pattern <+: head :: rest then some ([], (head :: rest).drop pattern.length)
    else (splitAtFirst pattern rest).map fun (before, behind) => (head :: before, behind)

variable {pattern text before behind : List α}

theorem eq_append_of_splitAtFirst (found : splitAtFirst pattern text = some (before, behind)) :
    text = before ++ (pattern ++ behind) := by
  induction text generalizing before with
  | nil =>
    simp only [splitAtFirst] at found
    split at found
    · rename_i empty
      cases found
      rw [empty]
      rfl
    · cases found
  | cons head rest ih =>
    simp only [splitAtFirst] at found
    split at found
    · rename_i start
      cases found
      exact (prefix_iff_eq_append.mp start).symm
    · obtain ⟨⟨early, late⟩, inside, same⟩ := Option.map_eq_some_iff.mp found
      cases same
      rw [cons_append, ← ih inside]

theorem splitAtFirst_eq_none : splitAtFirst pattern text = none ↔ ¬ pattern <:+: text := by
  induction text with
  | nil =>
    simp only [splitAtFirst, infix_nil]
    split
    · simp_all
    · simp_all
  | cons head rest ih =>
    simp only [splitAtFirst, infix_cons_iff]
    split
    · simp_all
    · rename_i later
      simp [later, ih]

theorem splitAtFirst_append_right (found : splitAtFirst pattern text = some (before, behind))
    (more : List α) : splitAtFirst pattern (text ++ more) = some (before, behind ++ more) := by
  induction text generalizing before with
  | nil =>
    simp only [splitAtFirst] at found
    split at found
    · rename_i empty
      cases found
      subst empty
      cases more with
      | nil => rfl
      | cons head rest => simp [splitAtFirst]
    · cases found
  | cons head rest ih =>
    rw [cons_append, splitAtFirst]
    simp only [splitAtFirst] at found
    split at found
    · rename_i start
      cases found
      have longer : pattern <+: head :: (rest ++ more) := start.trans (prefix_append _ _)
      rw [if_pos longer, ← cons_append, drop_append_of_le_length start.length_le]
    · rename_i later
      obtain ⟨⟨early, late⟩, inside, same⟩ := Option.map_eq_some_iff.mp found
      cases same
      have still : ¬ pattern <+: head :: (rest ++ more) := by
        intro start
        have room := congrArg List.length (eq_append_of_splitAtFirst inside)
        simp only [length_append] at room
        exact later (prefix_of_prefix_length_le start (prefix_append (head :: rest) more)
          (by rw [length_cons]; omega))
      rw [if_neg still, ih inside]
      rfl

theorem splitAtFirst_skip {first : α} {later : List α} (absent : first ∉ before) (rest : List α) :
    splitAtFirst (first :: later) (before ++ rest) =
      (splitAtFirst (first :: later) rest).map fun (early, late) => (before ++ early, late) := by
  induction before with
  | nil => simp
  | cons head before ih =>
    rw [mem_cons, not_or] at absent
    rw [cons_append, splitAtFirst, if_neg (by simp [absent.1]), ih absent.2, Option.map_map]
    rfl

theorem splitAtFirst_append (nonempty : pattern ≠ [])
    (first : ¬ pattern <:+: before ++ pattern.dropLast) (behind : List α) :
    splitAtFirst pattern (before ++ (pattern ++ behind)) = some (before, behind) := by
  induction before with
  | nil =>
    cases pattern with
    | nil => exact absurd rfl nonempty
    | cons head rest => simp [splitAtFirst]
  | cons head rest ih =>
    have later : ¬ pattern <+: head :: (rest ++ (pattern ++ behind)) := by
      intro start
      have part : head :: rest ++ pattern.dropLast <+: head :: (rest ++ (pattern ++ behind)) := by
        rw [cons_append, cons_prefix_cons]
        exact ⟨rfl, (prefix_append_right_inj rest).mpr
          ((List.dropLast_prefix pattern).trans (prefix_append _ _))⟩
      refine first (prefix_of_prefix_length_le start part ?_).isInfix
      rw [length_append, length_cons, length_dropLast]
      omega
    have inside : ¬ pattern <:+: rest ++ pattern.dropLast := fun occurs =>
      first (occurs.trans (suffix_cons head _).isInfix)
    rw [cons_append, splitAtFirst, if_neg later, ih inside]
    rfl

def unbordered (pattern : List α) : Bool :=
  (List.range pattern.length).all fun shift => shift = 0 || ¬ pattern.drop shift <+: pattern

theorem splitAtFirst_append_of_unbordered (nonempty : pattern ≠ [])
    (apart : unbordered pattern = true) (absent : ¬ pattern <:+: before) (behind : List α) :
    splitAtFirst pattern (before ++ (pattern ++ behind)) = some (before, behind) := by
  refine splitAtFirst_append nonempty (fun occurs => ?_) behind
  obtain ⟨early, late, whole⟩ := occurs
  have lengths := congrArg List.length whole
  have positive := length_pos_iff.mpr nonempty
  simp only [length_append, length_dropLast] at lengths
  by_cases inside : early.length + pattern.length ≤ before.length
  · -- The other occurrence ends before this one begins.
    have start : early ++ pattern <+: before := by
      refine prefix_of_prefix_length_le ⟨late, rfl⟩ ?_ (by simpa using inside)
      rw [whole]
      exact prefix_append _ _
    exact absent ((suffix_append early pattern).isInfix.trans start.isInfix)
  · -- The two overlap, so an end of the pattern stands where this occurrence begins.
    have shifted : pattern.drop (before.length - early.length) ++ late = pattern.dropLast := by
      have dropped := congrArg (List.drop before.length) whole
      rw [drop_left, append_assoc, drop_append, drop_eq_nil_of_le (by omega), nil_append,
        drop_append_of_le_length (by omega)] at dropped
      exact dropped
    have border : pattern.drop (before.length - early.length) <+: pattern :=
      (prefix_append _ late).trans (shifted ▸ List.dropLast_prefix pattern)
    have checked := all_eq_true.mp apart (before.length - early.length)
      (mem_range.mpr (by omega))
    simp only [Bool.or_eq_true, decide_eq_true_eq] at checked
    rcases checked with zero | free
    · omega
    · exact free border

end

variable {α : Type} (weight : α → Nat)

def totalWeight (items : List α) : Nat := (items.map weight).sum

@[simp] theorem totalWeight_nil : totalWeight weight [] = 0 := rfl

@[simp] theorem totalWeight_cons (item : α) (rest : List α) :
    totalWeight weight (item :: rest) = weight item + totalWeight weight rest := by
  simp [totalWeight]

@[simp] theorem totalWeight_append (front back : List α) :
    totalWeight weight (front ++ back) = totalWeight weight front + totalWeight weight back := by
  simp [totalWeight]

theorem totalWeight_perm {items other : List α} (same : items.Perm other) :
    totalWeight weight items = totalWeight weight other :=
  (same.map weight).sum_eq

def takeReaching : Nat → List α → List α
  | _, [] => []
  | need, item :: rest =>
    if need = 0 then [] else item :: takeReaching (need - weight item) rest

structure ShortestReaching (need : Nat) (items part : List α) : Prop where
  initial : part <+: items
  reaches : need ≤ totalWeight weight part
  shortest : ∀ other, other <+: items → need ≤ totalWeight weight other →
    part.length ≤ other.length

theorem takeReaching_isPrefix (need : Nat) (items : List α) :
    takeReaching weight need items <+: items := by
  induction items generalizing need with
  | nil => exact prefix_rfl
  | cons item rest ih =>
    rw [takeReaching]
    split
    · exact nil_prefix
    · exact cons_prefix_cons.mpr ⟨rfl, ih (need - weight item)⟩

theorem takeReaching_shortest {need : Nat} {items : List α}
    (enough : need ≤ totalWeight weight items) :
    ShortestReaching weight need items (takeReaching weight need items) := by
  refine ⟨takeReaching_isPrefix weight need items, ?_, ?_⟩
  · induction items generalizing need with
    | nil => exact enough
    | cons item rest ih =>
      rw [totalWeight_cons] at enough
      rw [takeReaching]
      split
      · omega
      · have rest := ih (show need - weight item ≤ totalWeight weight rest by omega)
        rw [totalWeight_cons]
        omega
  · -- A part that stops earlier has not reached the bound.
    intro other front reaches
    clear enough
    induction items generalizing need other with
    | nil => exact Nat.zero_le _
    | cons item rest ih =>
      rw [takeReaching]
      split
      · exact Nat.zero_le _
      · rename_i missing
        cases other with
        | nil => exact absurd (Nat.le_zero.mp reaches) missing
        | cons first others =>
          obtain ⟨rfl, behind⟩ := cons_prefix_cons.mp front
          rw [totalWeight_cons] at reaches
          have shorter := ih others behind (show need - weight first ≤ _ by omega)
          simpa using shorter

end WombatKV
