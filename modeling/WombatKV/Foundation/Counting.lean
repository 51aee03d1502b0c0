import Mathlib.Data.Set.Card
import Std.Data.ExtTreeMap

/-! Counting without counting twice, and ordered maps as lists. -/

namespace WombatKV

open List

section Lists

variable {α β : Type} {items : List α}

theorem length_eq_ncard_iff {members : Set α} (same : ∀ item, item ∈ items ↔ item ∈ members) :
    items.length = members.ncard ↔ items.Nodup := by
  classical
  have size : members.ncard = items.dedup.length := by
    have whole : members = ↑items.toFinset := by
      ext item
      rw [← same, Finset.mem_coe, mem_toFinset]
    rw [whole, Set.ncard_coe_finset, card_toFinset]
  rw [size, ← dedup_eq_self]
  constructor
  · intro equal
    exact (dedup_sublist items).eq_of_length equal.symm
  · intro equal
    rw [equal]

theorem nodup_filterMap_iff {pick : α → Option β} (once : items.Nodup) :
    (items.filterMap pick).Nodup ↔ ∀ first ∈ items, ∀ second ∈ items, ∀ picked,
      pick first = some picked → pick second = some picked → first = second := by
  induction items with
  | nil => simp
  | cons head rest ih =>
    obtain ⟨fresh, later⟩ := nodup_cons.mp once
    cases gives : pick head with
    | none =>
      rw [filterMap_cons_none gives, ih later]
      constructor
      · rintro apart first inFirst second inSecond picked fromFirst fromSecond
        rcases mem_cons.mp inFirst with rfl | firstLater
        · cases gives.symm.trans fromFirst
        · rcases mem_cons.mp inSecond with rfl | secondLater
          · cases gives.symm.trans fromSecond
          · exact apart first firstLater second secondLater picked fromFirst fromSecond
      · intro apart first inFirst second inSecond
        exact apart first (mem_cons_of_mem _ inFirst) second (mem_cons_of_mem _ inSecond)
    | some value =>
      rw [filterMap_cons_some gives, nodup_cons, ih later, mem_filterMap]
      constructor
      · rintro ⟨new, apart⟩ first inFirst second inSecond picked fromFirst fromSecond
        rcases mem_cons.mp inFirst with rfl | firstLater
        · rcases mem_cons.mp inSecond with rfl | secondLater
          · rfl
          · cases gives.symm.trans fromFirst
            exact absurd ⟨second, secondLater, fromSecond⟩ new
        · rcases mem_cons.mp inSecond with rfl | secondLater
          · cases gives.symm.trans fromSecond
            exact absurd ⟨first, firstLater, fromFirst⟩ new
          · exact apart first firstLater second secondLater picked fromFirst fromSecond
      · intro apart
        refine ⟨?_, fun first inFirst second inSecond => apart first
          (mem_cons_of_mem _ inFirst) second (mem_cons_of_mem _ inSecond)⟩
        rintro ⟨other, inside, given⟩
        cases apart head mem_cons_self other (mem_cons_of_mem _ inside) value gives given
        exact fresh inside

theorem split_at_two {one two : α} (different : one ≠ two) (inOne : one ∈ items)
    (inTwo : two ∈ items) :
    ∃ earlier first between second later,
      items = earlier ++ first :: (between ++ second :: later) ∧
        (first = one ∧ second = two ∨ first = two ∧ second = one) := by
  obtain ⟨before, behind, rfl⟩ := append_of_mem inOne
  rw [mem_append, mem_cons] at inTwo
  rcases inTwo with earlier | same | later
  · obtain ⟨start, middle, rfl⟩ := append_of_mem earlier
    exact ⟨start, two, middle, one, behind, by simp, .inr ⟨rfl, rfl⟩⟩
  · exact absurd same.symm different
  · obtain ⟨middle, rest, rfl⟩ := append_of_mem later
    exact ⟨before, one, middle, two, rest, rfl, .inl ⟨rfl, rfl⟩⟩

def firstsBy {κ : Type} [DecidableEq κ] (name : α → κ) : List α → List α
  | [] => []
  | item :: rest => item :: (firstsBy name rest).filter (name · ≠ name item)

section Firsts

variable {κ : Type} [DecidableEq κ] (name : α → κ)

theorem firstsBy_sublist (items : List α) : (firstsBy name items).Sublist items := by
  induction items with
  | nil => exact .slnil
  | cons item rest ih => exact (filter_sublist.trans ih).cons_cons item

theorem nodup_firstsBy (items : List α) : ((firstsBy name items).map name).Nodup := by
  induction items with
  | nil => exact nodup_nil
  | cons item rest ih =>
    rw [firstsBy, map_cons, nodup_cons]
    refine ⟨?_, ih.sublist (filter_sublist.map name)⟩
    simp only [mem_map, mem_filter, not_exists, not_and]
    rintro other ⟨_, different⟩ same
    exact absurd same (by simpa using different)

theorem mem_firstsBy {items : List α} {item : α} :
    item ∈ firstsBy name items ↔ items.find? (name · = name item) = some item := by
  induction items with
  | nil => simp [firstsBy]
  | cons head rest ih =>
    rw [firstsBy, mem_cons, mem_filter, ih]
    by_cases same : name head = name item
    · rw [List.find?_cons_of_pos (by simpa using same)]
      simp [same, eq_comm]
    · rw [List.find?_cons_of_neg (by simpa using same)]
      have different : item ≠ head := fun equal => same (by rw [equal])
      simp [different, Ne.symm same]

end Firsts

end Lists

section Weights

variable {κ β M : Type} [AddCommMonoid M]

theorem sum_map_filter_ne_zero [DecidableEq M] (weight : β → M) (items : List β) :
    ((items.filter fun item => weight item ≠ 0).map weight).sum = (items.map weight).sum := by
  induction items with
  | nil => rfl
  | cons item rest ih =>
    by_cases empty : weight item = 0
    · rw [filter_cons_of_neg (by simpa using empty), ih, map_cons, sum_cons, empty, zero_add]
    · rw [filter_cons_of_pos (by simpa using empty), map_cons, sum_cons, ih, map_cons, sum_cons]

variable {cmp : κ → κ → Ordering} [Std.TransCmp cmp] [Std.LawfulEqCmp cmp]

def weights [DecidableEq M] (weight : β → M) (entries : Std.ExtTreeMap κ β cmp) : List (κ × M) :=
  (entries.toList.map fun entry => (entry.1, weight entry.2)).filter fun pair => pair.2 ≠ 0

theorem mem_weights [DecidableEq M] {weight : β → M} {entries : Std.ExtTreeMap κ β cmp} {key : κ}
    {amount : M} :
    (key, amount) ∈ weights weight entries ↔ entries[key]?.elim 0 weight = amount ∧ amount ≠ 0 := by
  simp only [weights, mem_filter, mem_map, Prod.mk.injEq, decide_eq_true_eq,
    Prod.exists, Std.ExtTreeMap.mem_toList_iff_getElem?_eq_some]
  constructor
  · rintro ⟨⟨_, value, found, rfl, rfl⟩, heavy⟩
    rw [found]
    exact ⟨rfl, heavy⟩
  · rintro ⟨rfl, heavy⟩
    refine ⟨?_, heavy⟩
    cases found : entries[key]? with
    | none => simp [found] at heavy
    | some value => exact ⟨key, value, found, rfl, rfl⟩

omit [Std.LawfulEqCmp cmp] in
theorem nodup_weights [DecidableEq M] (weight : β → M) (entries : Std.ExtTreeMap κ β cmp) :
    (weights weight entries).Nodup := by
  refine (List.Nodup.of_map Prod.fst ?_).filter _
  have names : (entries.toList.map fun entry => (entry.1, weight entry.2)).map Prod.fst =
      entries.keys := by
    rw [map_map, ← Std.ExtTreeMap.map_fst_toList_eq_keys]
    rfl
  rw [names]
  exact Std.ExtTreeMap.nodup_keys

theorem sum_toList_congr {weight : β → M} {first second : Std.ExtTreeMap κ β cmp}
    (same : ∀ key : κ, first[key]?.elim 0 weight = second[key]?.elim 0 weight) :
    (first.toList.map fun entry => weight entry.2).sum =
      (second.toList.map fun entry => weight entry.2).sum := by
  classical
  have total (entries : Std.ExtTreeMap κ β cmp) :
      (entries.toList.map fun entry => weight entry.2).sum =
        ((weights weight entries).map Prod.snd).sum := by
    rw [weights, sum_map_filter_ne_zero Prod.snd, map_map]
    rfl
  have perm : (weights weight first).Perm (weights weight second) := by
    rw [perm_ext_iff_of_nodup (nodup_weights weight first) (nodup_weights weight second)]
    rintro ⟨key, amount⟩
    rw [mem_weights, mem_weights, same key]
  rw [total, total]
  exact (perm.map Prod.snd).sum_eq

end Weights

section OrderedMaps

variable {α β : Type} [Ord α] [Std.TransOrd α] [Std.LawfulEqOrd α]

theorem filter_toList_eq {left right : Std.ExtTreeMap α β} (selected : α → Bool)
    (agree : ∀ key, selected key = true → left[key]? = right[key]?) :
    left.toList.filter (fun entry => selected entry.1) =
      right.toList.filter (fun entry => selected entry.1) := by
  have same : left.filter (fun key _ => selected key) = right.filter fun key _ => selected key := by
    apply Std.ExtTreeMap.ext_getElem?
    intro key
    rw [Std.ExtTreeMap.getElem?_filter', Std.ExtTreeMap.getElem?_filter']
    cases chosen : selected key with
    | true => rw [agree key chosen]
    | false =>
      have dropped (found : Option β) : found.filter (fun _ => false) = none := by
        cases found <;> rfl
      rw [dropped, dropped]
  have listed := congrArg Std.ExtTreeMap.toList same
  rwa [Std.ExtTreeMap.toList_filter, Std.ExtTreeMap.toList_filter] at listed

theorem eq_toList {map : Std.ExtTreeMap α β} {entries : List (α × β)}
    (ordered : entries.Pairwise fun left right => compare left.1 right.1 = .lt)
    (members : ∀ entry, entry ∈ entries ↔ map[entry.1]? = some entry.2) : entries = map.toList := by
  have distinct {listed : List (α × β)}
      (upwards : listed.Pairwise fun left right => compare left.1 right.1 = .lt) :
      listed.Nodup := by
    refine upwards.imp fun {left right} less same => ?_
    rw [same, Std.compare_self] at less
    cases less
  have keys := Std.ExtTreeMap.ordered_keys_toList (t := map)
  refine List.Perm.eq_of_pairwise ?_ ordered keys ?_
  · intro left right _ _ less more
    rw [Std.OrientedOrd.eq_swap, more] at less
    cases less
  · rw [perm_ext_iff_of_nodup (distinct ordered) (distinct keys)]
    intro entry
    rw [members, ← Std.ExtTreeMap.mem_toList_iff_getElem?_eq_some]

variable {γ δ : Type} [Ord γ] [Std.TransOrd γ] [Std.LawfulEqOrd γ]

theorem filter_toList_eq_map {coded : Std.ExtTreeMap γ δ} {plain : Std.ExtTreeMap α β}
    (selected : γ → Bool) (key : α → γ) (value : β → δ)
    (ordered : ∀ left right, compare (key left) (key right) = compare left right)
    (members : ∀ code stored, selected code = true ∧ coded[code]? = some stored ↔
      ∃ name record, plain[name]? = some record ∧ key name = code ∧ value record = stored) :
    coded.toList.filter (fun entry => selected entry.1) =
      plain.toList.map fun entry => (key entry.1, value entry.2) := by
  have listed : (coded.filter fun code _ => selected code).toList =
      coded.toList.filter fun entry => selected entry.1 := Std.ExtTreeMap.toList_filter
  rw [← listed]
  refine (eq_toList ?_ ?_).symm
  · -- The codes stand in the order of what they stand for.
    refine pairwise_map.mpr ?_
    refine Std.ExtTreeMap.ordered_keys_toList.imp fun {left right} less => ?_
    rw [ordered]
    exact less
  · rintro ⟨code, stored⟩
    have found := members code stored
    have chosen : (coded.filter fun code _ => selected code)[code]? = some stored ↔
        selected code = true ∧ coded[code]? = some stored := by
      rw [Std.ExtTreeMap.getElem?_filter', Option.filter_eq_some_iff, and_comm]
    rw [chosen, found]
    simp only [mem_map, Prod.mk.injEq, Prod.exists, Std.ExtTreeMap.mem_toList_iff_getElem?_eq_some]

end OrderedMaps

end WombatKV
