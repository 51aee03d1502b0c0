import Mathlib.Data.Nat.Log
import Mathlib.Data.UInt
import Mathlib.Tactic.IntervalCases
import WombatKV.Node.Metrics

/-! What the metrics keep of the latencies they are given. -/

namespace WombatKV

open List

section

open EmbedMetrics

theorem EmbedMetrics.observe_apply (metrics : EmbedMetrics) (seen : Observation) (op : Op) :
    metrics.observe seen op =
      if op ∈ seen.op.recorded then (metrics op).observe seen.micros seen.bytes else metrics op := by
  obtain ⟨made, micros, bytes⟩ := seen
  cases made <;> cases op <;> rfl

theorem EmbedMetrics.foldl_observe (metrics : EmbedMetrics) (observations : List Observation)
    (op : Op) :
    observations.foldl observe metrics op = (observations.filter (op ∈ ·.op.recorded)).foldl
      (fun acc seen => acc.observe seen.micros seen.bytes) (metrics op) := by
  induction observations generalizing metrics with
  | nil => rfl
  | cons seen rest ih =>
    rw [foldl_cons, ih, observe_apply, filter_cons]
    by_cases goes : op ∈ seen.op.recorded
    · simp [goes]
    · simp [goes]

namespace OpAccumulator

theorem observe_length (acc : OpAccumulator) (micros bytes : UInt64) :
    (acc.observe micros bytes).samples.length =
      if acc.maxSamples ≤ acc.samples.length then
        acc.samples.length - acc.maxSamples / 4 + 1 else acc.samples.length + 1 := by
  simp only [observe]
  split
  · simp
  · simp

theorem foldl_observe (acc : OpAccumulator) (observations : List Observation) :
    let after := observations.foldl (fun acc seen => acc.observe seen.micros seen.bytes) acc
    after.maxSamples = acc.maxSamples ∧
      after.count = acc.count + UInt64.ofNat observations.length ∧
      after.samples.length ≤ acc.samples.length + observations.length ∧
      (4 ≤ acc.maxSamples → acc.samples.length ≤ acc.maxSamples →
        after.samples.length ≤ acc.maxSamples) ∧
      (acc.maxSamples < 4 → after.samples.length = acc.samples.length + observations.length) := by
  induction observations generalizing acc with
  | nil => simp
  | cons seen rest ih =>
    obtain ⟨cap, count, most, within, all⟩ := ih (acc.observe seen.micros seen.bytes)
    have length := observe_length acc seen.micros seen.bytes
    have same : (acc.observe seen.micros seen.bytes).maxSamples = acc.maxSamples := rfl
    have more : (acc.observe seen.micros seen.bytes).count = acc.count + 1 := rfl
    rw [same] at cap within all
    rw [more] at count
    simp only [foldl_cons, length_cons]
    refine ⟨cap, ?_, ?_, fun large inside => within large ?_, fun small => ?_⟩
    · rw [count, UInt64.ofNat_add, UInt64.add_assoc, UInt64.add_comm 1]
      rfl
    · split at length <;> omega
    · split at length <;> omega
    · have whole : acc.maxSamples / 4 = 0 := by omega
      rw [all small, length, whole]
      split <;> omega

theorem new_bounded_iff (cap : Nat) (seen : List Observation) :
    let after := seen.foldl (fun acc seen => acc.observe seen.micros seen.bytes) (new cap)
    after.samples.length ≤ cap ∧ after.count.toNat = seen.length ↔
      (4 ≤ cap ∨ seen.length ≤ cap) ∧ seen.length < 2 ^ 64 := by
  obtain ⟨_, count, most, within, all⟩ := foldl_observe (new cap) seen
  simp only [new, length_nil, Nat.zero_add, Nat.zero_le, forall_const, UInt64.zero_add] at *
  rw [count, UInt64.toNat_ofNat']
  refine and_congr ⟨fun kept => ?_, fun fits => ?_⟩ (by omega)
  · -- A cap below four drops nothing, so all samples are there.
    by_cases large : 4 ≤ cap
    · exact .inl large
    · exact .inr (all (by omega) ▸ kept)
  · rcases fits with large | few
    · exact within large
    · omega

end OpAccumulator

/--
An accumulator keeps to its cap and counts exactly if and only if the cap is at least four, or is
not exceeded by the observations, of which there are less than `2 ^ 64`.
-/
theorem metric_samples_stay_bounded (cap : Nat) (observations : List Observation) (op : Op) :
    let acc := observations.foldl observe (withCap cap) op
    let seen := observations.filter (op ∈ ·.op.recorded)
    acc.samples.length ≤ cap ∧ acc.count.toNat = seen.length ↔
      (4 ≤ cap ∨ seen.length ≤ cap) ∧ seen.length < 2 ^ 64 := by
  simp only [EmbedMetrics.foldl_observe]
  exact OpAccumulator.new_bounded_iff cap _

theorem metric_samples_stay_bounded_smallCap :
    ([⟨.stash, 5, 0⟩, ⟨.stash, 6, 0⟩].foldl observe (withCap 1) .stash).samples = [5, 6] := by
  decide

end

theorem rank_counts {items : List UInt64} {rank : Nat} {item : UInt64}
    (found : items.mergeSort[rank]? = some item) :
    items.countP (· < item) ≤ rank ∧ rank < items.countP (· ≤ item) := by
  have sorted := pairwise_mergeSort' (· ≤ ·) items
  have perm := mergeSort_perm items (fun left right => decide (left ≤ right))
  obtain ⟨inside, rfl⟩ := List.getElem?_eq_some_iff.mp found
  rw [← perm.countP_eq, ← perm.countP_eq]
  generalize items.mergeSort = arranged at *
  have parts := take_append_drop rank arranged
  rw [drop_eq_getElem_cons inside] at parts
  generalize arranged[rank] = item at *
  rw [← parts, pairwise_append, pairwise_cons] at sorted
  obtain ⟨_, ⟨behind, _⟩, before⟩ := sorted
  have lower : (arranged.drop (rank + 1)).countP (· < item) = 0 := by
    refine countP_eq_zero.mpr fun other member => ?_
    simpa using behind other member
  have upper : (arranged.take rank).countP (· ≤ item) = (arranged.take rank).length := by
    refine countP_eq_length.mpr fun other member => ?_
    simpa using before other member item mem_cons_self
  have most := (arranged.take rank).countP_le_length (p := (· < item))
  have length : (arranged.take rank).length = rank := length_take_of_le inside.le
  rw [← parts, countP_append, countP_append, countP_cons, countP_cons, lower, upper, length]
  simp
  omega

theorem bucketFor_eq (us : UInt64) : bucketFor us = min us.toNat.log2 histogramBuckets := by
  unfold bucketFor
  split
  · rename_i small
    have small : us.toNat ≤ 1 := UInt64.le_iff_toNat_le.mp small
    interval_cases us.toNat <;> rfl
  · rename_i large
    have large : 1 < us.toNat := UInt64.lt_iff_toNat_lt.mp (UInt64.not_le.mp large)
    have nonzero : us.toBitVec ≠ 0#64 := by
      intro zero
      have none : us.toNat = 0 := congrArg BitVec.toNat zero
      omega
    have low : 2 ^ (64 - 1 - us.toBitVec.clz.toNat) ≤ us.toNat :=
      BitVec.two_pow_sub_clz_le_toNat_of_ne_zero (by decide) nonzero
    have high : us.toNat < 2 ^ (64 - us.toBitVec.clz.toNat) := BitVec.toNat_lt_two_pow_sub_clz
    have some : us.toBitVec.clz.toNat < 64 := by
      by_contra none
      rw [Nat.sub_eq_zero_of_le (by omega)] at high
      omega
    have next : 64 - 1 - us.toBitVec.clz.toNat + 1 = 64 - us.toBitVec.clz.toNat := by omega
    rw [(Nat.log2_eq_iff (by omega)).mpr ⟨low, next ▸ high⟩, Nat.sub_right_comm]

theorem bucketFor_mono {low high : UInt64} (ordered : low ≤ high) :
    bucketFor low ≤ bucketFor high := by
  rw [bucketFor_eq, bucketFor_eq, Nat.log2_eq_log_two, Nat.log2_eq_log_two]
  exact min_le_min_right _ (Nat.log_mono_right (UInt64.le_iff_toNat_le.mp ordered))

theorem bucketFor_bounds {us : UInt64} (inside : bucketFor us < histogramBuckets) :
    us.toNat < 2 ^ (bucketFor us + 1) ∧ 2 ^ (bucketFor us + 1) ≤ max 2 (2 * us.toNat) := by
  have power : bucketFor us = us.toNat.log2 := by
    rw [bucketFor_eq] at inside ⊢
    omega
  rw [power]
  by_cases none : us.toNat = 0
  · rw [none]
    decide
  · have low := Nat.log2_self_le none
    exact ⟨Nat.lt_log2_self, by rw [Nat.pow_succ']; omega⟩

namespace LatencyHistogram

theorem recordUs_buckets (histogram : LatencyHistogram) (us : UInt64) {index : Nat}
    (inside : index < histogramBuckets) :
    (histogram.recordUs us).buckets[index] =
      histogram.buckets[index] + if bucketFor us = index then 1 else 0 := by
  by_cases fits : bucketFor us < histogramBuckets
  · simp only [recordUs, fits, dite_true, Vector.getElem_set]
    split
    · simp_all
    · simp
  · have other : bucketFor us ≠ index := by omega
    simp [recordUs, fits, other]

theorem recordUs_count (histogram : LatencyHistogram) (us : UInt64) :
    (histogram.recordUs us).count = histogram.count + 1 := by
  simp [recordUs]

theorem recordUs_maxUs (histogram : LatencyHistogram) (us : UInt64) :
    histogram.maxUs ≤ (histogram.recordUs us).maxUs ∧ us ≤ (histogram.recordUs us).maxUs := by
  simp only [recordUs]
  split
  · rename_i less
    exact ⟨UInt64.le_of_lt less, UInt64.le_refl us⟩
  · rename_i more
    exact ⟨UInt64.le_refl _, UInt64.not_lt.mp more⟩

theorem foldl_recordUs (histogram : LatencyHistogram) (latencies : List UInt64) :
    let after := latencies.foldl recordUs histogram
    (∀ (index : Nat) (inside : index < histogramBuckets), after.buckets[index] =
        histogram.buckets[index] + UInt64.ofNat (latencies.countP (bucketFor · = index))) ∧
      after.count = histogram.count + UInt64.ofNat latencies.length ∧
      histogram.maxUs ≤ after.maxUs ∧ ∀ us ∈ latencies, us ≤ after.maxUs := by
  induction latencies generalizing histogram with
  | nil => simp
  | cons us rest ih =>
    obtain ⟨buckets, count, most, all⟩ := ih (histogram.recordUs us)
    simp only [foldl_cons, length_cons, forall_mem_cons]
    refine ⟨fun index inside => ?_, ?_, ?_, ?_, all⟩
    · rw [buckets index inside, recordUs_buckets, countP_cons]
      by_cases own : bucketFor us = index
      · simp only [own, if_true, decide_true, UInt64.ofNat_add, UInt64.add_assoc]
        rw [UInt64.add_comm 1]
        rfl
      · simp [own]
    · rw [count, UInt64.ofNat_add, recordUs_count, UInt64.add_assoc, UInt64.add_comm 1]
      rfl
    · exact UInt64.le_trans (recordUs_maxUs histogram us).1 most
    · exact UInt64.le_trans (recordUs_maxUs histogram us).2 most

theorem toNat_one_shiftLeft {places : Nat} (inside : places < 63) :
    ((1 : UInt64) <<< UInt64.ofNat (min (places + 1) 63)).toNat = 2 ^ (places + 1) := by
  have word : 2 ^ (places + 1) < 2 ^ 64 := Nat.pow_lt_pow_right (by decide) (by omega)
  have shift : (UInt64.ofNat (min (places + 1) 63)).toNat % 64 = places + 1 := by
    rw [UInt64.toNat_ofNat']
    omega
  rw [UInt64.toNat_shiftLeft, shift, UInt64.toNat_one, Nat.one_shiftLeft, Nat.mod_eq_of_lt word]

variable {target : UInt64} {cum : Nat → Nat}

/-- What the walk finds, where the sums of the buckets are those of a function. -/
theorem walkBuckets_cases (rest : List UInt64) {index : Nat} {cumulative : UInt64}
    (sums : ∀ place held, rest[place]? = some held →
      cum (index + place + 1) = cum (index + place) + held.toNat)
    (word : ∀ place, cum place < 2 ^ 64) (start : cumulative.toNat = cum index)
    (below : cum index < target.toNat) (short : index + rest.length < 63) :
    (∃ place value, walkBuckets target index cumulative rest = some value ∧
        value.toNat = 2 ^ (place + 1) ∧ place < index + rest.length ∧
        cum place < target.toNat ∧ target.toNat ≤ cum (place + 1)) ∨
      walkBuckets target index cumulative rest = none ∧
        cum (index + rest.length) < target.toNat := by
  induction rest generalizing index cumulative with
  | nil => exact .inr ⟨rfl, below⟩
  | cons held rest ih =>
    have added : (cumulative + held).toNat = cum (index + 1) := by
      have sum := sums 0 held rfl
      have fits := word (index + 1)
      rw [UInt64.toNat_add, start]
      simp only [Nat.add_zero] at sum
      omega
    rw [length_cons] at short ⊢
    by_cases reached : target ≤ cumulative + held
    · rw [walkBuckets, if_pos reached]
      rw [UInt64.le_iff_toNat_le, added] at reached
      exact .inl ⟨index, _, rfl, toNat_one_shiftLeft (by omega), by omega, below, reached⟩
    · rw [walkBuckets, if_neg reached]
      rw [UInt64.le_iff_toNat_le, added] at reached
      have later := ih (fun place held found => ?_) added (by omega) (by omega)
      · rwa [Nat.add_right_comm, Nat.add_assoc] at later
      · have sum := sums (place + 1) held found
        rwa [← Nat.add_assoc, Nat.add_right_comm index place 1] at sum

/-- How many latencies fall into the buckets before one. -/
def bucketedBelow (latencies : List UInt64) (index : Nat) : Nat :=
  latencies.countP (bucketFor · < index)

variable {latencies : List UInt64} {latency : UInt64} {rank index : Nat}

theorem bucketedBelow_succ (latencies : List UInt64) (index : Nat) :
    bucketedBelow latencies (index + 1) =
      bucketedBelow latencies index + latencies.countP (bucketFor · = index) := by
  induction latencies with
  | nil => rfl
  | cons us rest ih =>
    simp only [bucketedBelow, countP_cons, decide_eq_true_eq] at ih ⊢
    split_ifs <;> omega

theorem countP_le_bucketedBelow (latencies : List UInt64) (above : bucketFor latency < index) :
    latencies.countP (· ≤ latency) ≤ bucketedBelow latencies index := by
  refine countP_mono_left fun other _ low => ?_
  have bucket := bucketFor_mono (of_decide_eq_true low)
  exact decide_eq_true (by omega)

theorem bucketedBelow_le_countP (latencies : List UInt64) (below : index ≤ bucketFor latency) :
    bucketedBelow latencies index ≤ latencies.countP (· < latency) := by
  refine countP_mono_left fun other _ low => decide_eq_true ?_
  by_contra high
  have bucket := bucketFor_mono (UInt64.not_lt.mp high)
  have low := of_decide_eq_true low
  omega

theorem recorded_count (short : latencies.length < 2 ^ 64) :
    (recorded latencies).count.toNat = latencies.length := by
  rw [recorded, (foldl_recordUs new latencies).2.1]
  simp only [new, UInt64.zero_add, UInt64.toNat_ofNat']
  omega

theorem recorded_buckets (short : latencies.length < 2 ^ 64) {held : UInt64}
    (found : (recorded latencies).buckets.toList[index]? = some held) :
    bucketedBelow latencies (index + 1) = bucketedBelow latencies index + held.toNat := by
  obtain ⟨inside, rfl⟩ := Vector.getElem?_eq_some_iff.mp (Vector.getElem?_toList ▸ found)
  have counted := (foldl_recordUs new latencies).1 index inside
  have most := latencies.countP_le_length (p := (bucketFor · = index))
  rw [bucketedBelow_succ, show (recorded latencies).buckets[index] = _ from counted]
  simp only [new, Vector.getElem_replicate, UInt64.zero_add, UInt64.toNat_ofNat']
  omega

/-- The walk ends in the bucket of the latency that has the rank, if that is no overflow. -/
theorem walkBuckets_recorded (short : latencies.length < 2 ^ 64)
    (lower : latencies.countP (· < latency) < rank)
    (upper : rank ≤ latencies.countP (· ≤ latency)) :
    let found := walkBuckets (.ofNat rank) 0 0 (recorded latencies).buckets.toList
    (∃ value, found = some value ∧ bucketFor latency < histogramBuckets ∧
        value.toNat = 2 ^ (bucketFor latency + 1)) ∨
      found = none ∧ ¬ bucketFor latency < histogramBuckets := by
  have most (index : Nat) : bucketedBelow latencies index < 2 ^ 64 :=
    countP_le_length.trans_lt short
  have target : (UInt64.ofNat rank).toNat = rank := by
    have := latencies.countP_le_length (p := (· ≤ latency))
    rw [UInt64.toNat_ofNat']
    omega
  have length : (recorded latencies).buckets.toList.length = histogramBuckets := by simp
  have ended := @walkBuckets_cases (.ofNat rank) (bucketedBelow latencies)
    (recorded latencies).buckets.toList 0 0
    (fun place held found => by simpa using recorded_buckets short found) most
    (by simp [bucketedBelow])
    (by rw [target]; exact (bucketedBelow_le_countP _ (Nat.zero_le _)).trans_lt lower)
    (by rw [length]; decide)
  rw [length, target, Nat.zero_add] at ended
  rcases ended with ⟨place, value, walked, power, inside, below, reached⟩ | ⟨walked, below⟩
  · -- An earlier bucket holds too few latencies, and the one before a later bucket enough.
    have same : place = bucketFor latency := by
      by_contra other
      rcases Nat.lt_or_gt_of_ne other with less | more
      · have few : bucketedBelow latencies (place + 1) ≤ _ := bucketedBelow_le_countP _ less
        omega
      · have enough := countP_le_bucketedBelow latencies more
        omega
    subst same
    exact .inl ⟨value, walked, inside, power⟩
  · refine .inr ⟨walked, fun inside => ?_⟩
    have enough := countP_le_bucketedBelow latencies inside
    omega

end LatencyHistogram

open LatencyHistogram in
/-- A percentile is at least the latency of its rank, and at most twice it below the overflow. -/
theorem histogram_percentiles_conservative (latencies : List UInt64)
    (short : latencies.length < 2 ^ 64) (rank : Nat) (first : 1 ≤ rank)
    (last : rank ≤ latencies.length) :
    ∃ latency value, latencies.mergeSort[rank - 1]? = some latency ∧
      (recorded latencies).percentileAt (.ofNat rank) = some value ∧ latency ≤ value ∧
      (latency.toNat < 2 ^ 30 → value.toNat ≤ max 2 (2 * latency.toNat)) := by
  have inside : rank - 1 < latencies.mergeSort.length := by
    rw [length_mergeSort]
    omega
  have found := List.getElem?_eq_getElem inside
  generalize latencies.mergeSort[rank - 1] = latency at found
  obtain ⟨lower, upper⟩ := rank_counts found
  have counted : (recorded latencies).count ≠ 0 := by
    intro zero
    have none := recorded_count short
    rw [zero, UInt64.toNat_zero] at none
    omega
  refine ⟨latency, _, found, if_neg counted, ?_⟩
  have lower : latencies.countP (· < latency) < rank := by omega
  have upper : rank ≤ latencies.countP (· ≤ latency) := by omega
  rcases walkBuckets_recorded short lower upper with
    ⟨value, walked, inside, power⟩ | ⟨walked, outside⟩
  · obtain ⟨less, twice⟩ := bucketFor_bounds inside
    rw [walked, Option.getD_some, UInt64.le_iff_toNat_le, power]
    exact ⟨less.le, fun _ => twice⟩
  · have member : latency ∈ latencies :=
      (mergeSort_perm ..).mem_iff.mp (mem_of_getElem? found)
    rw [walked, Option.getD_none]
    refine ⟨(foldl_recordUs new latencies).2.2.2 latency member, fun small => absurd ?_ outside⟩
    rw [bucketFor_eq]
    by_cases none : latency.toNat = 0
    · rw [none]
      decide
    · exact (min_le_left ..).trans_lt ((Nat.log2_lt none).mpr small)

open LatencyHistogram in
theorem histogram_percentiles_conservative_pair :
    ∃ latency value, [(300 : UInt64), 100].mergeSort[1]? = some latency ∧
      (recorded [300, 100]).percentileAt 2 = some value ∧ latency ≤ value ∧
      (latency.toNat < 2 ^ 30 → value.toNat ≤ max 2 (2 * latency.toNat)) :=
  histogram_percentiles_conservative [300, 100] (by decide) 2 (by decide) (by decide)

open LatencyHistogram in
/-- After `2 ^ 64` records of one microsecond the counters are zero again. -/
theorem histogram_percentiles_conservative_wrapped :
    ∃ latencies, (recorded latencies).count = 1 ∧ latencies.mergeSort[0]? = some 1 ∧
      (recorded latencies).percentileAt 1 = some 8 := by
  obtain ⟨times, whole⟩ : ∃ times, times = 2 ^ 64 := ⟨_, rfl⟩
  obtain ⟨buckets, count, _, _⟩ := foldl_recordUs new (.replicate times 1)
  have zero : UInt64.ofNat times = 0 := by
    rw [whole]
    rfl
  have wrapped : (recorded (.replicate times 1)).buckets = new.buckets := by
    refine Vector.ext fun index inside => (buckets index inside).trans ?_
    rw [countP_replicate]
    split
    · rw [zero, UInt64.add_zero]
    · exact UInt64.add_zero _
  have none : (recorded (.replicate times 1)).count = 0 := by
    rw [recorded, count, length_replicate, zero]
    rfl
  refine ⟨.replicate times 1 ++ [5], ?_, ?_, ?_⟩
  · rw [recorded, foldl_append, ← recorded, foldl_cons, foldl_nil, recordUs_count, none]
    rfl
  · rw [mergeSort_of_pairwise]
    · have some : 0 < times := by omega
      simp [some]
    · simp [pairwise_append, pairwise_replicate]
  · rw [recorded, foldl_append, ← recorded]
    generalize recorded (.replicate times 1) = histogram at *
    obtain ⟨_, overflow, sumUs, _, maxUs⟩ := histogram
    subst wrapped none
    rfl

end WombatKV
