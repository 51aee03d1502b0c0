import Mathlib.Data.List.Basic
import Std.Data.ExtTreeMap

/-! The lexicographic order of lists, and codes that keep it. -/

namespace WombatKV

section Lexicographic

variable {α β : Type} [Ord α] [Ord β]

theorem compare_append_left [Std.ReflOrd α] (front left right : List α) :
    compare (front ++ left) (front ++ right) = compare left right := by
  induction front with
  | nil => rfl
  | cons item rest ih =>
    rw [List.cons_append, List.cons_append, List.compare_cons_cons, Std.compare_self, ih]
    rfl

theorem compare_append_of_lt {left right : List α} (width : left.length = right.length)
    (less : compare left right = .lt) (leftRest rightRest : List α) :
    compare (left ++ leftRest) (right ++ rightRest) = .lt := by
  induction left generalizing right with
  | nil =>
    rw [List.eq_nil_of_length_eq_zero width.symm] at less
    cases less
  | cons item rest ih =>
    cases right with
    | nil => cases width
    | cons other others =>
      rw [List.compare_cons_cons, Ordering.then_eq_lt] at less
      rw [List.cons_append, List.cons_append, List.compare_cons_cons, Ordering.then_eq_lt]
      rcases less with first | ⟨same, behind⟩
      · exact .inl first
      · exact .inr ⟨same, ih (Nat.succ.inj width) behind⟩

structure OrderedCode (code : α → List β) : Prop where
  nonempty : ∀ item, code item ≠ []
  less : ∀ low high, compare low high = .lt → ∀ left right : List β,
    compare (code low ++ left) (code high ++ right) = .lt

variable {code : α → List β}

theorem OrderedCode.of_width {width : Nat} (positive : 0 < width)
    (fixed : ∀ item, (code item).length = width)
    (less : ∀ low high, compare low high = .lt → compare (code low) (code high) = .lt) :
    OrderedCode code where
  nonempty item := List.ne_nil_of_length_pos (by rw [fixed]; exact positive)
  less low high smaller :=
    compare_append_of_lt ((fixed low).trans (fixed high).symm) (less low high smaller)

variable [Std.OrientedOrd α] [Std.LawfulEqOrd α] [Std.OrientedOrd β]

theorem OrderedCode.compare_flatMap (ordered : OrderedCode code) (left right : List α) :
    compare (left.flatMap code) (right.flatMap code) = compare left right := by
  induction left generalizing right with
  | nil =>
    cases right with
    | nil => rfl
    | cons item rest =>
      obtain ⟨first, others, cons⟩ := List.exists_cons_of_ne_nil (ordered.nonempty item)
      rw [List.flatMap_cons, cons]
      rfl
  | cons item rest ih =>
    cases right with
    | nil =>
      obtain ⟨first, others, cons⟩ := List.exists_cons_of_ne_nil (ordered.nonempty item)
      rw [List.flatMap_cons, cons]
      rfl
    | cons other others =>
      rw [List.flatMap_cons, List.flatMap_cons, List.compare_cons_cons]
      cases order : compare item other with
      | lt => rw [ordered.less item other order, Ordering.lt_then]
      | eq =>
        obtain rfl := Std.LawfulEqOrd.eq_of_compare order
        rw [compare_append_left, ih, Ordering.eq_then]
      | gt =>
        have swapped := ordered.less other item (Std.OrientedCmp.lt_of_gt order)
          (others.flatMap code) (rest.flatMap code)
        rw [Std.OrientedOrd.eq_swap, swapped]
        rfl

end Lexicographic

end WombatKV
