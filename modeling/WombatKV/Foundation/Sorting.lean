import Mathlib.Data.List.Pairwise
import Mathlib.Data.List.Sort
import Mathlib.Data.List.TakeWhile

/-! Stable sorts, the first of the smallest, the first of each key. -/

namespace WombatKV

open List

section

variable {α : Type} (compareItems : α → α → Ordering) {items : List α}

def sortBy (items : List α) : List α :=
  items.insertionSort fun left right => (compareItems left right).isLE = true

theorem sortBy_perm (items : List α) : (sortBy compareItems items).Perm items :=
  perm_insertionSort _ items

@[simp] theorem mem_sortBy {item : α} : item ∈ sortBy compareItems items ↔ item ∈ items :=
  (sortBy_perm compareItems items).mem_iff

theorem sortBy_pairwise [Std.TransCmp compareItems] (items : List α) :
    (sortBy compareItems items).Pairwise fun left right =>
      (compareItems left right).isLE = true := by
  have total : Std.Total fun left right => (compareItems left right).isLE = true :=
    ⟨fun left right => by
      by_cases up : (compareItems left right).isLE = true
      · exact .inl up
      · refine .inr ?_
        have swapped : compareItems right left = (compareItems left right).swap :=
          Std.OrientedCmp.eq_swap
        rw [swapped]
        cases order : compareItems left right <;> simp_all⟩
  have trans : IsTrans α fun left right => (compareItems left right).isLE = true :=
    ⟨fun _ _ _ => Std.TransCmp.isLE_trans⟩
  exact pairwise_insertionSort _ items

theorem sortBy_eq_of_perm [Std.TransCmp compareItems] {sorted : List α}
    (increasing : sorted.Pairwise fun left right => compareItems left right = .lt)
    (same : items.Perm sorted) : sortBy compareItems items = sorted := by
  have arranged := (sortBy_perm compareItems items).trans same
  refine List.Perm.eq_of_pairwise ?_ (sortBy_pairwise compareItems items)
    (increasing.imp fun less => by rw [less]; rfl) arranged
  intro left right inLeft inRight up down
  by_contra different
  have separated : sorted.Pairwise fun left right =>
      compareItems left right = .lt ∨ compareItems right left = .lt := increasing.imp .inl
  have mirrored : Std.Symm fun left right =>
      compareItems left right = .lt ∨ compareItems right left = .lt := ⟨fun _ _ => Or.symm⟩
  have strict := separated.forall (arranged.mem_iff.mp inLeft) inRight different
  have swapped : compareItems right left = (compareItems left right).swap :=
    Std.OrientedCmp.eq_swap
  rcases strict with less | less
  · simp [swapped, less] at down
  · simp [Ordering.swap_eq_iff_eq_swap.mp (swapped.symm.trans less)] at up

def sortsBefore (item other : α) : Bool := decide ¬ (compareItems item other).isLE = true

theorem sortBy_cons (item : α) (rest : List α) :
    sortBy compareItems (item :: rest) =
      (sortBy compareItems rest).takeWhile (sortsBefore compareItems item) ++
        item :: (sortBy compareItems rest).dropWhile (sortsBefore compareItems item) :=
  orderedInsert_eq_take_drop _ item _

theorem sortBy_cons_cons [Std.TransCmp compareItems] {first second : α}
    (tied : compareItems first second = .eq) (rest : List α) :
    sortBy compareItems (first :: second :: rest) =
      (sortBy compareItems rest).takeWhile (sortsBefore compareItems second) ++
        first :: second ::
          (sortBy compareItems rest).dropWhile (sortsBefore compareItems second) := by
  have same : sortsBefore compareItems first = sortsBefore compareItems second := by
    funext other
    rw [sortsBefore, sortsBefore, Std.TransCmp.congr_left tied]
  have stops : sortsBefore compareItems second second = false := by
    simp [sortsBefore, Std.ReflCmp.compare_self]
  have all : ∀ item ∈ (sortBy compareItems rest).takeWhile (sortsBefore compareItems second),
      sortsBefore compareItems second item = true := fun _ => mem_takeWhile_imp
  rw [sortBy_cons compareItems first, same, sortBy_cons compareItems second,
    takeWhile_append_of_pos all, dropWhile_append_of_pos all,
    takeWhile_cons_of_neg (by simp [stops]), dropWhile_cons_of_neg (by simp [stops]), append_nil]

theorem map_eq_of_sorted {β : Type} [Std.TransCmp compareItems] {image : α → β}
    {left right : List α} (same : left.Perm right)
    (leftSorted : left.Pairwise fun first second => (compareItems first second).isLE = true)
    (rightSorted : right.Pairwise fun first second => (compareItems first second).isLE = true)
    (tied : ∀ first ∈ left, ∀ second ∈ left, compareItems first second = .eq →
      image first = image second) : left.map image = right.map image := by
  induction left generalizing right with
  | nil => rw [same.nil_eq]
  | cons first rest ih =>
    obtain ⟨before, after, rfl⟩ := append_of_mem (same.mem_iff.mp mem_cons_self)
    have removed : rest.Perm (before ++ after) :=
      (same.trans perm_middle).cons_inv
    have front : ∀ item ∈ before, image item = image first := by
      intro item member
      have inLeft : item ∈ first :: rest := same.mem_iff.mpr (mem_append_left _ member)
      have down := (pairwise_append.mp rightSorted).2.2 item member first mem_cons_self
      rcases mem_cons.mp inLeft with rfl | later
      · rfl
      · have up := (pairwise_cons.mp leftSorted).1 item later
        exact tied item inLeft first mem_cons_self (Std.OrientedCmp.isLE_antisymm down up)
    have thinned : (before ++ after).Pairwise fun first second =>
        (compareItems first second).isLE = true :=
      rightSorted.sublist (List.Sublist.append_left (sublist_cons_self _ _) before)
    have behind := ih removed (pairwise_cons.mp leftSorted).2 thinned
      fun item member other others =>
        tied item (mem_cons_of_mem _ member) other (mem_cons_of_mem _ others)
    have repeated : before.map image = List.replicate before.length (image first) :=
      map_eq_replicate_iff.mpr front
    rw [map_cons, behind, map_append, map_append, map_cons, repeated,
      ← cons_append, ← replicate_succ, replicate_succ', append_assoc]
    rfl

theorem isLE_of_mem_dropWhile [Std.TransCmp compareItems] {item : α} {sorted : List α}
    (increasing : sorted.Pairwise fun left right => (compareItems left right).isLE = true)
    {other : α} (member : other ∈ sorted.dropWhile (sortsBefore compareItems item)) :
    (compareItems item other).isLE = true := by
  induction sorted with
  | nil => simp at member
  | cons first rest ih =>
    obtain ⟨least, others⟩ := pairwise_cons.mp increasing
    by_cases before : sortsBefore compareItems item first = true
    · rw [dropWhile_cons_of_pos before] at member
      exact ih others member
    · -- The first item that is not before it bounds all that follow.
      rw [dropWhile_cons_of_neg before] at member
      have up : (compareItems item first).isLE = true := by
        simpa only [sortsBefore, decide_eq_true_eq, not_not] using before
      rcases mem_cons.mp member with rfl | later
      · exact up
      · exact Std.TransCmp.isLE_trans up (least other later)

theorem sortBy_stable [Std.TransCmp compareItems] {compareTied : α → α → Ordering}
    (given : items.Pairwise fun left right => compareTied left right = .lt) :
    (sortBy compareItems items).Pairwise fun left right =>
      compareLex compareItems compareTied left right = .lt := by
  induction items with
  | nil => exact .nil
  | cons item rest ih =>
    obtain ⟨first, others⟩ := pairwise_cons.mp given
    have sorted := ih others
    have increasing := sortBy_pairwise compareItems rest
    have parts : (sortBy compareItems rest).takeWhile (sortsBefore compareItems item) ++
        (sortBy compareItems rest).dropWhile (sortsBefore compareItems item) =
          sortBy compareItems rest := takeWhile_append_dropWhile
    rw [← parts] at sorted
    rw [sortBy_cons]
    obtain ⟨fronts, backs, across⟩ := pairwise_append.mp sorted
    refine pairwise_append.mpr ⟨fronts, pairwise_cons.mpr ⟨?_, backs⟩, ?_⟩
    · -- Behind the item stand larger ones, and tied ones that came later.
      intro other behind
      have member : other ∈ rest :=
        (mem_sortBy compareItems).mp ((dropWhile_sublist _).mem behind)
      have up := isLE_of_mem_dropWhile compareItems increasing behind
      rw [compareLex, Ordering.then_eq_lt]
      rcases Ordering.isLE_iff_eq_lt_or_eq_eq.mp up with less | tied
      · exact .inl less
      · exact .inr ⟨tied, first other member⟩
    · intro earlier early later late
      rcases mem_cons.mp late with rfl | behind
      · -- In front of it stand strictly smaller ones.
        have before := mem_takeWhile_imp early
        rw [sortsBefore, decide_eq_true_eq, Ordering.isLE_iff_ne_gt, not_not] at before
        rw [compareLex, Ordering.then_eq_lt]
        exact .inl (Std.OrientedCmp.lt_of_gt before)
      · exact across earlier early later behind

theorem sortBy_eq_sortBy_compareLex [Std.TransCmp compareItems] {compareTied : α → α → Ordering}
    [Std.TransCmp compareTied]
    (given : items.Pairwise fun left right => compareTied left right = .lt) :
    sortBy compareItems items = sortBy (compareLex compareItems compareTied) items :=
  (sortBy_eq_of_perm _ (sortBy_stable compareItems given)
    (sortBy_perm compareItems items).symm).symm

end

section Minimum

variable {α β : Type} (compareItems : α → α → Ordering) {item : α} {items : List α}

def keepSmaller (best item : α) : α := if compareItems best item = .gt then item else best

def minBy : List α → Option α
  | [] => none
  | first :: rest => some (rest.foldl (keepSmaller compareItems) first)

@[simp] theorem minBy_nil : minBy compareItems [] = none := rfl

theorem mem_of_minBy (smallest : minBy compareItems items = some item) : item ∈ items := by
  cases items with
  | nil => simp at smallest
  | cons first rest =>
    rw [minBy, Option.some.injEq] at smallest
    subst smallest
    induction rest generalizing first with
    | nil => exact mem_singleton.mpr rfl
    | cons next rest ih =>
      rw [foldl_cons]
      have kept : keepSmaller compareItems first next = next ∨
          keepSmaller compareItems first next = first := by
        unfold keepSmaller
        split
        · exact .inl rfl
        · exact .inr rfl
      rcases kept with same | same
      · rw [same]
        exact mem_cons_of_mem first (ih next)
      · rw [same]
        rcases mem_cons.mp (ih first) with one | later
        · rw [one]
          exact mem_cons_self
        · exact mem_cons_of_mem first (mem_cons_of_mem next later)

theorem minBy_map (compareImages : β → β → Ordering) (image : α → β) (items : List α) :
    minBy compareImages (items.map image) =
      (minBy (fun left right => compareImages (image left) (image right)) items).map image := by
  cases items with
  | nil => rfl
  | cons first rest =>
    rw [map_cons, minBy, minBy, Option.map_some]
    congr 1
    induction rest generalizing first with
    | nil => rfl
    | cons next rest ih =>
      rw [map_cons, foldl_cons, foldl_cons, ← ih]
      congr 1
      unfold keepSmaller
      split <;> rfl

variable [Std.TransCmp compareItems]

theorem keepSmaller_assoc (first second third : α) :
    keepSmaller compareItems (keepSmaller compareItems first second) third =
      keepSmaller compareItems first (keepSmaller compareItems second third) := by
  unfold keepSmaller
  by_cases down : compareItems first second = .gt
  · rw [if_pos down]
    by_cases further : compareItems second third = .gt
    · rw [if_pos further, if_pos (Std.TransCmp.gt_trans down further)]
    · rw [if_neg further, if_pos down]
  · rw [if_neg down]
    by_cases further : compareItems second third = .gt
    · rw [if_pos further]
    · -- Neither step goes down, so both together do not.
      have up : ¬ compareItems first third = .gt := by
        rw [← Ordering.isLE_iff_ne_gt] at down further ⊢
        exact Std.TransCmp.isLE_trans down further
      rw [if_neg further, if_neg up, if_neg down]

theorem minBy_cons (first : α) (rest : List α) :
    minBy compareItems (first :: rest) =
      some ((minBy compareItems rest).elim first (keepSmaller compareItems first)) := by
  cases rest with
  | nil => rfl
  | cons second rest =>
    rw [minBy, minBy, Option.elim_some, foldl_cons]
    congr 1
    induction rest generalizing second with
    | nil => rfl
    | cons third rest ih =>
      rw [foldl_cons, foldl_cons, keepSmaller_assoc]
      exact ih _

theorem head?_sortBy (items : List α) :
    (sortBy compareItems items).head? = minBy compareItems items := by
  induction items with
  | nil => rfl
  | cons first rest ih =>
    rw [minBy_cons, ← ih, sortBy_cons]
    cases sortBy compareItems rest with
    | nil => rfl
    | cons second others =>
      rw [List.head?_cons, Option.elim_some, keepSmaller]
      by_cases down : compareItems first second = .gt
      · have before : sortsBefore compareItems first second = true := by
          simp [sortsBefore, down]
        rw [if_pos down, takeWhile_cons_of_pos before]
        rfl
      · have behind : ¬ sortsBefore compareItems first second = true := by
          simpa [sortsBefore, Ordering.isLE_iff_ne_gt] using down
        rw [if_neg down, takeWhile_cons_of_neg behind]
        rfl

theorem isLE_of_minBy (smallest : minBy compareItems items = some item) {other : α}
    (member : other ∈ items) : (compareItems item other).isLE = true := by
  rw [← head?_sortBy] at smallest
  obtain ⟨rest, sorted⟩ := List.head?_eq_some_iff.mp smallest
  have increasing := sortBy_pairwise compareItems items
  rw [sorted, pairwise_cons] at increasing
  rw [← mem_sortBy compareItems, sorted] at member
  rcases mem_cons.mp member with rfl | behind
  · simp [Std.ReflCmp.compare_self]
  · exact increasing.1 other behind

theorem minBy_eq_some :
    minBy compareItems items = some item ↔
      ∃ front back, items = front ++ item :: back ∧
        (∀ other ∈ front, compareItems item other = .lt) ∧
        ∀ other ∈ back, (compareItems item other).isLE = true := by
  induction items generalizing item with
  | nil => simp
  | cons first rest ih =>
    rw [minBy_cons, Option.some.injEq]
    constructor
    · intro chosen
      cases smallest : minBy compareItems rest with
      | none =>
        have empty : rest = [] := by
          cases rest with
          | nil => rfl
          | cons second others => simp [minBy] at smallest
        rw [smallest] at chosen
        subst empty
        exact ⟨[], [], by simpa using chosen, by simp, by simp⟩
      | some best =>
        rw [smallest, Option.elim_some, keepSmaller] at chosen
        by_cases down : compareItems first best = .gt
        · -- One more item stands in front, and is larger.
          rw [if_pos down] at chosen
          subst chosen
          obtain ⟨front, back, rfl, smaller, least⟩ := ih.mp smallest
          refine ⟨first :: front, back, rfl, ?_, least⟩
          intro other member
          rcases mem_cons.mp member with rfl | early
          · exact Std.OrientedCmp.lt_of_gt down
          · exact smaller other early
        · -- The first item is no larger than the smallest of the others.
          rw [if_neg down] at chosen
          subst chosen
          rw [← Ordering.isLE_iff_ne_gt] at down
          refine ⟨[], rest, rfl, by simp, fun other member => ?_⟩
          exact Std.TransCmp.isLE_trans down (isLE_of_minBy compareItems smallest member)
    · rintro ⟨front, back, split, smaller, least⟩
      cases front with
      | nil =>
        obtain ⟨rfl, rfl⟩ := List.cons.inj split
        cases smallest : minBy compareItems rest with
        | none => rfl
        | some best =>
          have up := least best (mem_of_minBy compareItems smallest)
          rw [Ordering.isLE_iff_ne_gt] at up
          rw [Option.elim_some, keepSmaller, if_neg up]
      | cons head front =>
        obtain ⟨rfl, behind⟩ := List.cons.inj split
        have smallest := ih.mpr ⟨front, back, behind,
          fun other member => smaller other (mem_cons_of_mem _ member), least⟩
        have down := Std.OrientedCmp.gt_of_lt (smaller first mem_cons_self)
        rw [smallest, Option.elim_some, keepSmaller, if_pos down]

end Minimum

section FirstWins

variable {α κ ρ : Type} (key : α → κ) (compareItems : α → α → Ordering) {item : α} {wanted : κ}

def LeadsKey (items : List α) (item : α) : Prop :=
  item ∈ items ∧ ∀ other ∈ items, key other = key item → (compareItems item other).isLE = true

structure OrderFree (clash : α → α → Option ρ) (items : List α) : Prop where
  leader : ∀ first second, LeadsKey key compareItems items first →
    LeadsKey key compareItems items second → key first = key second → first = second
  clash : ∀ first ∈ items, ∀ second ∈ items, compareItems first second = .eq →
    ∀ firstLeader secondLeader firstNote secondNote, LeadsKey key compareItems items firstLeader →
      key firstLeader = key first → clash firstLeader first = some firstNote →
      LeadsKey key compareItems items secondLeader → key secondLeader = key second →
      clash secondLeader second = some secondNote → firstNote = secondNote

theorem LeadsKey.perm {key : α → κ} {compareItems : α → α → Ordering} {items other : List α}
    (same : items.Perm other) (leads : LeadsKey key compareItems items item) :
    LeadsKey key compareItems other item :=
  ⟨same.mem_iff.mp leads.1, fun later member => leads.2 later (same.mem_iff.mpr member)⟩

variable [DecidableEq κ]

def firstOf (items : List α) (wanted : κ) : Option α :=
  items.find? fun item => decide (key item = wanted)

def clashes (clash : α → α → Option ρ) (items : List α) : List ρ :=
  items.filterMap fun item => (firstOf key items (key item)).bind (clash · item)

variable {key compareItems} {clash : α → α → Option ρ} {items other : List α}

theorem firstOf_eq_some (found : firstOf key items wanted = some item) :
    item ∈ items ∧ key item = wanted := by
  refine ⟨mem_of_find?_eq_some found, ?_⟩
  simpa using List.find?_some found

theorem firstOf_eq_none : firstOf key items wanted = none ↔ ∀ item ∈ items, key item ≠ wanted := by
  simp [firstOf]

theorem firstOf_append (items : List α) (item : α) (wanted : κ) :
    firstOf key (items ++ [item]) wanted =
      (firstOf key items wanted).or (if key item = wanted then some item else none) := by
  rw [firstOf, List.find?_append, ← firstOf]
  by_cases named : key item = wanted <;> simp [named]

theorem clashes_append (items : List α) (item : α) :
    clashes key clash (items ++ [item]) = clashes key clash items ++
      ((firstOf key (items ++ [item]) (key item)).bind (clash · item)).toList := by
  rw [clashes, filterMap_append]
  congr 1
  refine filterMap_congr fun earlier member => ?_
  rw [firstOf_append]
  cases found : firstOf key items (key earlier) with
  | none => exact absurd rfl (firstOf_eq_none.mp found earlier member)
  | some first => rfl

theorem firstOf_sortBy_cons {rest : List α} (leads : LeadsKey key compareItems (item :: rest) item) :
    firstOf key (sortBy compareItems (item :: rest)) (key item) = some item := by
  rw [firstOf, sortBy_cons, List.find?_append]
  have none : ((sortBy compareItems rest).takeWhile (sortsBefore compareItems item)).find?
      (fun other => decide (key other = key item)) = none := by
    rw [List.find?_eq_none]
    intro other member named
    have before := mem_takeWhile_imp member
    have inRest : other ∈ rest :=
      (mem_sortBy compareItems).mp ((takeWhile_sublist _).mem member)
    have up := leads.2 other (mem_cons_of_mem _ inRest) (of_decide_eq_true named)
    simp [sortsBefore, up] at before
  rw [none]
  simp

theorem firstOf_of_leadsKey
    (firsts : ∀ other, other.Perm items → ∀ wanted, firstOf key (sortBy compareItems other) wanted =
      firstOf key (sortBy compareItems items) wanted) (leads : LeadsKey key compareItems items item) :
    firstOf key (sortBy compareItems items) (key item) = some item := by
  classical
  have moved := perm_cons_erase leads.1
  rw [← firsts _ moved.symm, firstOf_sortBy_cons (leads.perm moved)]

variable [Std.TransCmp compareItems]

theorem leadsKey_of_firstOf
    (sorted : items.Pairwise fun left right => (compareItems left right).isLE = true)
    (found : firstOf key items wanted = some item) : LeadsKey key compareItems items item := by
  obtain ⟨member, named⟩ := firstOf_eq_some found
  refine ⟨member, ?_⟩
  intro later laterMember same
  obtain ⟨-, before, after, rfl, unnamed⟩ := List.find?_eq_some_iff_append.mp found
  rcases mem_append.mp laterMember with early | late
  · have different := unnamed later early
    simp [same.trans named] at different
  · rcases mem_cons.mp late with rfl | behind
    · simp [Std.ReflCmp.compare_self]
    · exact (pairwise_cons.mp (pairwise_append.mp sorted).2.1).1 later behind

theorem filterMap_eq_filter (note : α → Option ρ) (items : List α) :
    items.filterMap note = ((items.filter fun item => (note item).isSome).map note).filterMap id := by
  rw [filterMap_map, filterMap_filter]
  refine filterMap_congr fun item _ => ?_
  cases noted : note item with
  | none => simp
  | some found => simp [noted]

section Sorted

variable {left right : List α} (leftItems : left.Perm items) (rightItems : right.Perm items)
  (leftSorted : left.Pairwise fun first second => (compareItems first second).isLE = true)
  (rightSorted : right.Pairwise fun first second => (compareItems first second).isLE = true)

include leftItems rightItems leftSorted rightSorted

theorem OrderFree.firstOf_eq (free : OrderFree key compareItems clash items) (wanted : κ) :
    firstOf key left wanted = firstOf key right wanted := by
  cases found : firstOf key left wanted with
  | none =>
    have missing := firstOf_eq_none.mp found
    refine (firstOf_eq_none.mpr fun item member => ?_).symm
    exact missing item (leftItems.mem_iff.mpr (rightItems.mem_iff.mp member))
  | some first =>
    obtain ⟨member, named⟩ := firstOf_eq_some found
    cases met : firstOf key right wanted with
    | none =>
      have inRight := rightItems.mem_iff.mpr (leftItems.mem_iff.mp member)
      exact absurd named (firstOf_eq_none.mp met first inRight)
    | some second =>
      have leads := (leadsKey_of_firstOf leftSorted found).perm leftItems
      have others := (leadsKey_of_firstOf rightSorted met).perm rightItems
      rw [free.leader first second leads others (named.trans (firstOf_eq_some met).2.symm)]

theorem OrderFree.clashes_eq (free : OrderFree key compareItems clash items) :
    clashes key clash left = clashes key clash right := by
  have firsts := free.firstOf_eq leftItems rightItems leftSorted rightSorted
  have notes : clashes key clash right =
      right.filterMap fun item => (firstOf key left (key item)).bind (clash · item) := by
    simp only [clashes, firsts]
  rw [notes, clashes, filterMap_eq_filter, filterMap_eq_filter _ right]
  refine congrArg (List.filterMap id) (map_eq_of_sorted compareItems
    ((leftItems.trans rightItems.symm).filter _) (leftSorted.filter _) (rightSorted.filter _) ?_)
  intro first firsts second seconds tied
  rw [mem_filter] at firsts seconds
  obtain ⟨firstNote, noted⟩ := Option.isSome_iff_exists.mp firsts.2
  obtain ⟨secondNote, otherNoted⟩ := Option.isSome_iff_exists.mp seconds.2
  obtain ⟨leader, found, clashed⟩ := Option.bind_eq_some_iff.mp noted
  obtain ⟨otherLeader, otherFound, otherClashed⟩ := Option.bind_eq_some_iff.mp otherNoted
  have same := free.clash first (leftItems.mem_iff.mp firsts.1) second
    (leftItems.mem_iff.mp seconds.1) tied leader otherLeader firstNote secondNote
    ((leadsKey_of_firstOf leftSorted found).perm leftItems) (firstOf_eq_some found).2 clashed
    ((leadsKey_of_firstOf leftSorted otherFound).perm leftItems) (firstOf_eq_some otherFound).2
    otherClashed
  rw [noted, otherNoted, same]

end Sorted

theorem orderFree_of_same
    (same : ∀ other, other.Perm items →
      (∀ wanted, firstOf key (sortBy compareItems other) wanted =
        firstOf key (sortBy compareItems items) wanted) ∧
      clashes key clash (sortBy compareItems other) =
        clashes key clash (sortBy compareItems items)) :
    OrderFree key compareItems clash items := by
  classical
  have won {item : α} (leads : LeadsKey key compareItems items item) :
      firstOf key (sortBy compareItems items) (key item) = some item :=
    firstOf_of_leadsKey (fun other moved => (same other moved).1) leads
  have unique {first second : α} (leads : LeadsKey key compareItems items first)
      (others : LeadsKey key compareItems items second) (equal : key first = key second) :
      first = second := by
    have met := won others
    rw [← equal, won leads] at met
    exact Option.some.inj met
  refine ⟨fun first second leads others => unique leads others, ?_⟩
  intro first firsts second seconds tied leader otherLeader firstNote secondNote leads named
    clashed otherLeads otherNamed otherClashed
  by_cases apart : first = second
  · -- One item has one leader, and so one note.
    subst apart
    rw [unique leads otherLeads (named.trans otherNamed.symm), otherClashed] at clashed
    exact (Option.some.inj clashed).symm
  · -- Let the two come in first, in either order.
    obtain ⟨rest, moved⟩ : ∃ rest, items.Perm (first :: second :: rest) := by
      have without : second ∈ items.erase first :=
        (mem_erase_of_ne (Ne.symm apart)).mpr seconds
      exact ⟨(items.erase first).erase second, (perm_cons_erase firsts).trans
        ((perm_cons_erase without).cons first)⟩
    have swapped : items.Perm (second :: first :: rest) :=
      moved.trans (List.Perm.swap second first rest)
    have rows {other : List α} (moved : items.Perm other) :
        (sortBy compareItems other).filterMap (fun item =>
          (firstOf key (sortBy compareItems items) (key item)).bind (clash · item)) =
        clashes key clash (sortBy compareItems items) := by
      rw [← (same other moved.symm).2, clashes]
      simp only [(same other moved.symm).1]
    have equal := (rows moved).trans (rows swapped).symm
    have mirrored : compareItems second first = .eq := Std.OrientedCmp.eq_comm.mp tied
    have behind : sortsBefore compareItems first = sortsBefore compareItems second := by
      funext other
      rw [sortsBefore, sortsBefore, Std.TransCmp.congr_left tied]
    rw [sortBy_cons_cons compareItems tied, sortBy_cons_cons compareItems mirrored, behind,
      filterMap_append, filterMap_append] at equal
    have cut := append_cancel_left equal
    rw [filterMap_cons_some (by rw [← named, won leads]; exact clashed),
      filterMap_cons_some (by rw [← otherNamed, won otherLeads]; exact otherClashed),
      filterMap_cons_some (by rw [← otherNamed, won otherLeads]; exact otherClashed)] at cut
    exact (List.cons.inj cut).1

theorem exists_leadsKey (key : α → κ) (compareItems : α → α → Ordering) [Std.TransCmp compareItems]
    (member : item ∈ items) :
    ∃ leader, LeadsKey key compareItems items leader ∧ key leader = key item := by
  have same := sortBy_perm compareItems items
  cases found : firstOf key (sortBy compareItems items) (key item) with
  | none => exact absurd rfl (firstOf_eq_none.mp found item (same.mem_iff.mpr member))
  | some leader =>
    have leads := leadsKey_of_firstOf (sortBy_pairwise compareItems items) found
    exact ⟨leader, leads.perm same, (firstOf_eq_some found).2⟩

theorem firstOf_sortBy_eq_some
    (apart : ∀ first ∈ items, ∀ second ∈ items, compareItems first second = .eq → first = second) :
    firstOf key (sortBy compareItems items) wanted = some item ↔
      LeadsKey key compareItems items item ∧ key item = wanted := by
  have same := sortBy_perm compareItems items
  have sorted := sortBy_pairwise compareItems items
  constructor
  · intro found
    exact ⟨(leadsKey_of_firstOf sorted found).perm same, (firstOf_eq_some found).2⟩
  · rintro ⟨leads, rfl⟩
    cases found : firstOf key (sortBy compareItems items) (key item) with
    | none => exact absurd rfl (firstOf_eq_none.mp found item (same.mem_iff.mpr leads.1))
    | some first =>
      have others := (leadsKey_of_firstOf sorted found).perm same
      have named := (firstOf_eq_some found).2
      have upward := leads.2 first others.1 named
      have downward := others.2 item leads.1 named.symm
      have tied := Std.OrientedCmp.isLE_antisymm upward downward
      rw [apart item leads.1 first others.1 tied]

theorem leadsKey_compacted {leaders more : List α}
    (compacted : ∀ item, item ∈ leaders ↔ LeadsKey key compareItems items item) :
    LeadsKey key compareItems (leaders ++ more) item ↔
      LeadsKey key compareItems (items ++ more) item := by
  constructor
  · intro leads
    constructor
    · rcases mem_append.mp leads.1 with early | late
      · exact mem_append_left more ((compacted item).mp early).1
      · exact mem_append_right items late
    · intro other member named
      rcases mem_append.mp member with early | late
      · -- An item that was left out comes after the leader of its key, which was not.
        obtain ⟨leader, first, same⟩ := exists_leadsKey key compareItems early
        have kept := mem_append_left more ((compacted leader).mpr first)
        have before := leads.2 leader kept (same.trans named)
        exact Std.TransCmp.isLE_trans before (first.2 other early same.symm)
      · exact leads.2 other (mem_append_right leaders late) named
  · intro leads
    constructor
    · rcases mem_append.mp leads.1 with early | late
      · -- Who leads among all leads among the former ones.
        have first : LeadsKey key compareItems items item :=
          ⟨early, fun other member => leads.2 other (mem_append_left more member)⟩
        exact mem_append_left more ((compacted item).mpr first)
      · exact mem_append_right leaders late
    · intro other member named
      rcases mem_append.mp member with early | late
      · exact leads.2 other (mem_append_left more ((compacted other).mp early).1) named
      · exact leads.2 other (mem_append_right items late) named

end FirstWins

end WombatKV
