import WombatKV.Proofs.Format.Segment
import WombatKV.Proofs.Store.ObjectStore

/-! Range reads are exact, and safe on any stored bytes. -/

namespace WombatKV

open List

variable {store : ObjectStore} {objectKey : Text} {segment : Bytes} {α : Type} {minOffset : Nat}
  {selected : List SegmentIndexEntry} {blocks : List (Bytes × Bytes)}

theorem segmentObject_found (clear : store.faults 0 = none)
    (found : store.objects[objectKey]? = some segment) :
    segmentObject objectKey store = (.ok segment, store.advance) := by
  have same : store.advance.objects[objectKey]? = some segment := found
  simp only [segmentObject, Call.mapError, ObjectStore.getObject, ObjectStore.request, clear, same]

theorem getObjectRange_found (clear : store.faults 0 = none)
    (found : store.objects[objectKey]? = some segment) (start stop : Nat) :
    getObjectRange objectKey start stop store = (.ok (slice segment start stop), store.advance) := by
  rw [getObjectRange, Call.bind_ok (segmentObject_found clear found)]
  split
  · next outside => rw [slice_eq_nil outside, Call.pure_apply]
  · next inside =>
    rw [Checked.range_eq_ok (by omega) (by omega), slice_min_length, Call.lift_apply]

theorem segmentObject_contained (objectKey : Text) :
    (segmentObject objectKey).Contained fun _ => True := by
  intro store
  refine ⟨?_, fun _ _ => trivial⟩
  unfold segmentObject Call.mapError
  rcases ObjectStore.getObject objectKey store with ⟨_ | _, _⟩
  · exact Checked.inside_fail _
  · exact Checked.inside_ok _

theorem getObjectRange_contained (objectKey : Text) (start stop : Nat) :
    (getObjectRange objectKey start stop).Contained fun _ => True := by
  refine Call.contained_bind (segmentObject_contained objectKey) fun bytes _ => ?_
  split
  · exact Call.contained_pure trivial
  · refine Call.contained_lift ?_ fun _ _ => trivial
    rw [Checked.range_eq_ok (by omega) (by omega)]
    exact Checked.inside_ok _

theorem segmentStep_contained {step : Checked FormatError α} {property : α → Prop}
    (inside : Checked.Inside step) (holds : ∀ answer, step = .ok answer → property answer) :
    (segmentStep step).Contained property := by
  refine Call.contained_lift (Checked.inside_mapError inside) fun answer answered => ?_
  rcases step with (_ | _) | _
  · cases answered
  · cases answered
  · cases answered
    exact holds _ rfl

@[simp] theorem segmentStep_ok (answer : α) : segmentStep (.ok answer) = pure answer := rfl

theorem inside_mapError_failed {ε : Type} (result : Except ε α) :
    Checked.Inside (result.mapError Trap.failed) := by
  cases result with
  | error error => exact Checked.inside_fail error
  | ok value => exact Checked.inside_ok value

theorem mapError_eq_ok {ε ε' : Type} {result : Except ε α} {change : ε → ε'} {value : α} :
    result.mapError change = .ok value ↔ result = .ok value := by
  cases result with
  | error error => exact ⟨nofun, nofun⟩
  | ok found => simp [Except.mapError]

theorem inside_elim_fail (found : Option α) (error : FormatError) :
    Checked.Inside (found.elim (Checked.fail error) pure : Checked FormatError α) := by
  cases found with
  | none => exact Checked.inside_fail error
  | some value => exact Checked.inside_ok value

theorem saturatingPlus_words {left right : Nat} (leftFits : left < 2 ^ 32)
    (rightFits : right < 2 ^ 32) : saturatingPlus left right = left + right := by
  unfold saturatingPlus wordLimit
  omega

def SegmentIndexEntry.within (minOffset : Nat) (entry : SegmentIndexEntry) : WindowEntry :=
  ⟨entry.key, entry.payloadOffset.toNat - minOffset, entry.payloadLen.toNat⟩

theorem placeEntries_eq_ok {payloadWindow : Bytes} {placed : List WindowEntry} :
    placeEntries minOffset payloadWindow selected = .ok placed ↔
      placed = selected.map (SegmentIndexEntry.within minOffset) ∧ ∀ entry ∈ selected,
        entry.payloadOffset.toNat - minOffset + entry.payloadLen.toNat ≤ payloadWindow.length := by
  induction selected generalizing placed with
  | nil => simp [placeEntries, eq_comm]
  | cons entry rest ih =>
    have offset := entry.payloadOffset.toNat_lt
    have words : saturatingPlus (entry.payloadOffset.toNat - minOffset) entry.payloadLen.toNat = _ :=
      saturatingPlus_words (by omega) entry.payloadLen.toNat_lt
    rw [placeEntries, words]
    split
    · next beyond =>
      refine ⟨nofun, fun ⟨_, fits⟩ => absurd (fits entry mem_cons_self) (by omega)⟩
    · next inside =>
      simp only [except_bind_eq_ok, ih, map_cons, mem_cons, forall_eq_or_imp]
      constructor
      · rintro ⟨_, ⟨rfl, fits⟩, answered⟩
        exact ⟨(Except.ok.inj answered).symm, by omega, fits⟩
      · rintro ⟨rfl, _, fits⟩
        exact ⟨_, ⟨rfl, fits⟩, rfl⟩

def RangeReadWindow.Holds (window : RangeReadWindow) : Prop :=
  ∀ entry ∈ window.entries, entry.windowOffset + entry.payloadLen ≤ window.payloadWindow.length ∧
    entry.windowOffset + entry.payloadLen < wordLimit

theorem placeEntries_holds {reads : Nat} {payloadWindow : Bytes} {placed : List WindowEntry}
    (ok : placeEntries minOffset payloadWindow selected = .ok placed) :
    RangeReadWindow.Holds ⟨payloadWindow, placed, reads⟩ := by
  obtain ⟨rfl, fits⟩ := placeEntries_eq_ok.mp ok
  intro placedEntry member
  obtain ⟨entry, listed, rfl⟩ := mem_map.mp member
  have offset := entry.payloadOffset.toNat_lt
  have len := entry.payloadLen.toNat_lt
  refine ⟨fits entry listed, ?_⟩
  simp only [SegmentIndexEntry.within, wordLimit]
  omega

theorem RangeReadWindow.Holds.payload {window : RangeReadWindow} (holds : window.Holds)
    {index : Nat} {entry : WindowEntry} (listed : window.entries[index]? = some entry) :
    window.payload index = some (slice window.payloadWindow entry.windowOffset
      (entry.windowOffset + entry.payloadLen)) := by
  obtain ⟨fits, small⟩ := holds entry (mem_of_getElem? listed)
  simp only [RangeReadWindow.payload, listed, Option.bind_eq_bind, Option.bind_some]
  rw [if_pos small, if_pos ⟨by omega, fits⟩]

theorem RangeReadWindow.Holds.windowPayloads {window : RangeReadWindow} (holds : window.Holds)
    {start : Nat} {rest : List WindowEntry} (left : window.entries.drop start = rest) :
    WombatKV.windowPayloads window start rest = .ok (rest.map fun entry =>
      (entry.key, slice window.payloadWindow entry.windowOffset
        (entry.windowOffset + entry.payloadLen))) := by
  induction rest generalizing start with
  | nil => rfl
  | cons entry rest ih =>
    have listed : window.entries[start]? = some entry := by
      rw [← List.head?_drop, left, List.head?_cons]
    have further : window.entries.drop (start + 1) = rest := by
      rw [← tail_drop, left, tail_cons]
    rw [WombatKV.windowPayloads, holds.payload listed, ih further]
    rfl

theorem rangeReadWindow_contained (objectKey : Text) (keyStart keyEnd : Bytes) :
    (rangeReadWindow objectKey keyStart keyEnd).Contained RangeReadWindow.Holds := by
  unfold rangeReadWindow
  split
  · exact Call.contained_throw
  refine Call.contained_bind (segmentObject_contained objectKey) fun object _ => ?_
  refine Call.contained_bind
    (segmentStep_contained (decodeSegmentIndex_inside object) fun _ _ => trivial) fun index _ => ?_
  dsimp only
  split
  · exact Call.contained_pure (fun _ member => absurd member not_mem_nil)
  refine Call.contained_bind (segmentStep_contained (inside_elim_fail _ _) fun _ _ => trivial)
    fun minOffset _ => ?_
  refine Call.contained_bind (segmentStep_contained (inside_elim_fail _ _) fun _ _ => trivial)
    fun maxEnd _ => ?_
  refine Call.contained_bind (getObjectRange_contained objectKey minOffset maxEnd)
    fun payloadWindow _ => ?_
  refine Call.contained_bind (segmentStep_contained (inside_mapError_failed _)
    fun placed answered => mapError_eq_ok.mp answered) fun placed ok => ?_
  exact Call.contained_pure (placeEntries_holds ok)

theorem rangeRead_contained (objectKey : Text) (keyStart keyEnd : Bytes) :
    (rangeRead objectKey keyStart keyEnd).Contained fun _ => True := by
  refine Call.contained_bind (rangeReadWindow_contained objectKey keyStart keyEnd) fun window _ => ?_
  refine Call.contained_bind (segmentStep_contained (inside_mapError_failed _) fun _ _ => trivial)
    fun entries _ => ?_
  exact Call.contained_pure trivial

theorem exists_min {numbers : List Nat} (some_ : numbers ≠ []) :
    ∃ least, numbers.min? = some least ∧ least ∈ numbers ∧ ∀ number ∈ numbers, least ≤ number := by
  cases found : numbers.min? with
  | none => exact absurd (List.min?_eq_none_iff.mp found) some_
  | some least => exact ⟨least, rfl, List.min?_eq_some_iff.mp found⟩

theorem exists_max {numbers : List Nat} (some_ : numbers ≠ []) :
    ∃ most, numbers.max? = some most ∧ most ∈ numbers ∧ ∀ number ∈ numbers, number ≤ most := by
  cases found : numbers.max? with
  | none => exact absurd (List.max?_eq_none_iff.mp found) some_
  | some most => exact ⟨most, rfl, List.max?_eq_some_iff.mp found⟩

theorem located_payloads (located : List.Forall₂ (Located segment) selected blocks) :
    (selected.map fun entry => (entry.key, slice segment entry.payloadOffset.toNat
      (entry.payloadOffset.toNat + entry.payloadLen.toNat))) = blocks := by
  induction located with
  | nil => rfl
  | cons there _ ih => rw [map_cons, ih, there.key, there.payload]

theorem forall₂_left {β : Type} {related : α → β → Prop} {left : List α} {right : List β}
    (pairs : List.Forall₂ related left right) :
    ∀ first ∈ left, ∃ second ∈ right, related first second := by
  induction pairs with
  | nil => simp
  | cons pair _ ih =>
    intro first member
    rcases mem_cons.mp member with rfl | member
    · exact ⟨_, mem_cons_self, pair⟩
    · obtain ⟨second, listed, holds⟩ := ih first member
      exact ⟨second, mem_cons_of_mem _ listed, holds⟩

theorem window_blocks (located : List.Forall₂ (Located segment) selected blocks) {maxEnd : Nat}
    (above : ∀ entry ∈ selected, minOffset ≤ entry.payloadOffset.toNat)
    (below : ∀ entry ∈ selected, entry.payloadOffset.toNat + entry.payloadLen.toNat ≤ maxEnd) :
    ((selected.map (SegmentIndexEntry.within minOffset)).map fun entry =>
      (entry.key, slice (slice segment minOffset maxEnd) entry.windowOffset
        (entry.windowOffset + entry.payloadLen))) = blocks := by
  rw [map_map, ← located_payloads located]
  refine map_congr_left fun entry listed => ?_
  have low := above entry listed
  have high := below entry listed
  have start : minOffset + (entry.payloadOffset.toNat - minOffset) =
      entry.payloadOffset.toNat := by omega
  simp only [Function.comp_apply, SegmentIndexEntry.within]
  rw [slice_slice (by omega), ← Nat.add_assoc, start]

theorem rangeReadWindow_encode (encoded : encodeSegmentV1 blocks = .ok segment)
    {keyStart keyEnd : Bytes} (ordered : keyStart ≤ keyEnd)
    (found : store.objects[objectKey]? = some segment) (first : store.faults 0 = none)
    (second : store.faults 1 = none) :
    ∃ window, window.roundTrips ≤ 2 ∧ window.Holds ∧
      rangeReadWindow objectKey keyStart keyEnd store =
        (.ok window, ObjectStore.advance^[window.roundTrips] store) ∧
      (window.entries.map fun entry => (entry.key, slice window.payloadWindow entry.windowOffset
        (entry.windowOffset + entry.payloadLen))) =
        blocks.filter fun block => decide (keyStart ≤ block.1 ∧ block.1 ≤ keyEnd) := by
  obtain ⟨index, decoded, located⟩ := decodeSegmentIndex_encode encoded
  have chosen : List.Forall₂ (Located segment)
      (index.filter fun entry => decide (keyStart ≤ entry.key ∧ entry.key ≤ keyEnd))
      (blocks.filter fun block => decide (keyStart ≤ block.1 ∧ block.1 ≤ keyEnd)) := by
    refine rel_filter (fun entry block there => ?_) located
    dsimp only
    rw [there.key]
  rw [rangeReadWindow, if_neg ordered, Call.bind_ok (segmentObject_found first found), decoded,
    segmentStep_ok, Call.pure_bind_apply]
  dsimp only
  generalize (index.filter fun entry => decide (keyStart ≤ entry.key ∧ entry.key ≤ keyEnd)) =
    selected at chosen ⊢
  generalize (blocks.filter fun block => decide (keyStart ≤ block.1 ∧ block.1 ≤ keyEnd)) = inRange
    at chosen ⊢
  by_cases none_ : selected = []
  · -- No key in range: the index alone answers.
    subst none_
    cases chosen
    exact ⟨⟨[], [], 1⟩, by decide, fun _ member => absurd member not_mem_nil, rfl, rfl⟩
  rw [if_neg none_]
  obtain ⟨minOffset, isMin, -, above⟩ :=
    exists_min (mt map_eq_nil_iff.mp none_ :
      (selected.map fun entry => entry.payloadOffset.toNat) ≠ [])
  obtain ⟨maxEnd, isMax, attained, below⟩ :=
    exists_max (mt map_eq_nil_iff.mp none_ : (selected.map fun entry =>
      saturatingPlus entry.payloadOffset.toNat entry.payloadLen.toNat) ≠ [])
  have ends (entry : SegmentIndexEntry) :
      saturatingPlus entry.payloadOffset.toNat entry.payloadLen.toNat =
        entry.payloadOffset.toNat + entry.payloadLen.toNat :=
    saturatingPlus_words entry.payloadOffset.toNat_lt entry.payloadLen.toNat_lt
  have low (entry : SegmentIndexEntry) (listed : entry ∈ selected) :
      minOffset ≤ entry.payloadOffset.toNat := above _ (mem_map_of_mem listed)
  have high (entry : SegmentIndexEntry) (listed : entry ∈ selected) :
      entry.payloadOffset.toNat + entry.payloadLen.toNat ≤ maxEnd := by
    rw [← ends]
    exact below _ (mem_map_of_mem listed)
  have inside : maxEnd ≤ segment.length := by
    obtain ⟨entry, listed, rfl⟩ := mem_map.mp attained
    obtain ⟨block, -, there⟩ := forall₂_left chosen entry listed
    rw [ends]
    exact there.inside
  have long : (slice segment minOffset maxEnd).length = maxEnd - minOffset := slice_length inside
  have placed : placeEntries minOffset (slice segment minOffset maxEnd) selected =
      .ok (selected.map (SegmentIndexEntry.within minOffset)) := by
    refine placeEntries_eq_ok.mpr ⟨rfl, fun entry listed => ?_⟩
    have starts := low entry listed
    have stops := high entry listed
    omega
  have clear : store.advance.faults 0 = none := second
  have kept : store.advance.objects[objectKey]? = some segment := found
  have ranged := getObjectRange_found clear kept minOffset maxEnd
  refine ⟨⟨slice segment minOffset maxEnd, selected.map (SegmentIndexEntry.within minOffset), 2⟩,
    Nat.le_refl 2, placeEntries_holds placed, ?_, window_blocks chosen low high⟩
  rw [isMin, isMax]
  show (getObjectRange objectKey minOffset maxEnd >>= _) store.advance = _
  rw [Call.bind_ok ranged, placed]
  rfl

theorem rangeRead_encode (encoded : encodeSegmentV1 blocks = .ok segment) {keyStart keyEnd : Bytes}
    (ordered : keyStart ≤ keyEnd) (found : store.objects[objectKey]? = some segment)
    (first : store.faults 0 = none) (second : store.faults 1 = none) :
    ∃ reads ≤ 2, rangeRead objectKey keyStart keyEnd store =
      (.ok ⟨blocks.filter fun block => decide (keyStart ≤ block.1 ∧ block.1 ≤ keyEnd), reads⟩,
        ObjectStore.advance^[reads] store) := by
  obtain ⟨window, few, holds, ran, payloads⟩ :=
    rangeReadWindow_encode encoded ordered found first second
  refine ⟨window.roundTrips, few, ?_⟩
  rw [rangeRead, Call.bind_ok ran, holds.windowPayloads drop_zero, payloads]
  rfl

/-- Range reads of segments are exact and safe. -/
theorem segment_range_reads_are_exact :
    (∀ (blocks : List (Bytes × Bytes)) (segment : Bytes) (keyStart keyEnd : Bytes)
        (store : ObjectStore) (objectKey : Text), encodeSegmentV1 blocks = .ok segment →
      keyStart ≤ keyEnd → store.objects[objectKey]? = some segment →
      store.faults 0 = none → store.faults 1 = none →
      ∃ reads ≤ 2, rangeRead objectKey keyStart keyEnd store =
        (.ok ⟨blocks.filter fun block => decide (keyStart ≤ block.1 ∧ block.1 ≤ keyEnd), reads⟩,
          ObjectStore.advance^[reads] store)) ∧
    ∀ (store : ObjectStore) (objectKey : Text) (keyStart keyEnd : Bytes),
      (rangeRead objectKey keyStart keyEnd store).1 ≠ .error .outOfBounds ∧
        (rangeReadWindow objectKey keyStart keyEnd store).1 ≠ .error .outOfBounds ∧
        ∀ window, (rangeReadWindow objectKey keyStart keyEnd store).1 = .ok window →
          ∀ index (_ : index < window.entries.length), ∃ entry, window.entries[index]? = some entry ∧
            entry.windowOffset + entry.payloadLen ≤ window.payloadWindow.length ∧
            window.payload index = some (slice window.payloadWindow entry.windowOffset
              (entry.windowOffset + entry.payloadLen)) := by
  refine ⟨?_, ?_⟩
  · intro blocks segment keyStart keyEnd store objectKey encoded ordered found first second
    exact rangeRead_encode encoded ordered found first second
  · intro store objectKey keyStart keyEnd
    obtain ⟨windowInside, held⟩ := rangeReadWindow_contained objectKey keyStart keyEnd store
    refine ⟨(rangeRead_contained objectKey keyStart keyEnd store).1, windowInside, ?_⟩
    intro window answered index inside
    have listed : window.entries[index]? = some window.entries[index] :=
      List.getElem?_eq_getElem inside
    have holds := held window answered
    exact ⟨_, listed, (holds _ (getElem_mem inside)).1, holds.payload listed⟩

theorem segment_range_reads_are_exact_pair :
    ∃ segment, encodeSegmentV1 [([2], [7, 8]), ([1], []), ([2], [9])] = .ok segment ∧
      ∃ reads ≤ 2, rangeRead [] [2] [3]
          ⟨.keepExisting, (∅ : Objects).insert [] segment, fun _ => none⟩ =
        (.ok ⟨[([2], [7, 8]), ([2], [9])], reads⟩, ObjectStore.advance^[reads]
          ⟨.keepExisting, (∅ : Objects).insert [] segment, fun _ => none⟩) := by
  obtain ⟨segment, encoded⟩ :
      ∃ segment, encodeSegmentV1 [([2], [7, 8]), ([1], []), ([2], [9])] = .ok segment := ⟨_, rfl⟩
  exact ⟨segment, encoded, segment_range_reads_are_exact.1 _ segment [2] [3] _ [] encoded
    (by decide) Std.ExtTreeMap.getElem?_insert_self rfl rfl⟩

end WombatKV
