import WombatKV.Node.Bootstrap
import WombatKV.Node.Lru

/-! What one eviction cycle removes, requests and reports. -/

namespace WombatKV

open List

namespace Evictor

variable {ε δ : Type} {deleter : EvictionDeleter ε δ} {block : BlockMeta} {hash : BlockHash}
  {counted : EvictionCycleOutcome} {ns : Text}

structure Evicted (deleter : EvictionDeleter ε δ) (ns : Text)
    (victims : List (BlockHash × BlockMeta)) (counted : EvictionCycleOutcome)
    (before : Evictor (δ × List DeleteRequest)) (outcome : EvictionCycleOutcome)
    (after : Evictor (δ × List DeleteRequest)) : Prop where
  entries : ∀ hash, after.index.entries[hash]? =
    if hash ∈ victims.map Prod.fst then none else before.index.entries[hash]?
  requests : ∃ made, after.deleter.2 = before.deleter.2 ++ made ∧
    made.map (fun request => (request.ns, request.key)) =
      victims.map (fun victim => (ns, deleter.blockKeyForHash victim.1)) ∧
    outcome.deleteFailures =
      counted.deleteFailures + (made.filter DeleteRequest.failed).length
  bytes : outcome.bytesFreed.toNat = counted.bytesFreed.toNat + totalWeight entrySize victims
  blocks : outcome.blocksFreed = counted.blocksFreed + victims.length
  others : outcome.skippedChanged = counted.skippedChanged ∧ outcome.scanned = counted.scanned ∧
    outcome.totalBytesBefore = counted.totalBytesBefore ∧
      outcome.overBudget = counted.overBudget

theorem removeIfUnchanged_present {index : InMemoryMetadataIndex}
    (present : index.entries[hash]? = some block) :
    index.removeIfUnchanged hash block.lastAccessNs = (true, ⟨index.entries.erase hash⟩) := by
  simp [InMemoryMetadataIndex.removeIfUnchanged, present]

theorem deleteBlock_evicted {outcome : EvictionCycleOutcome}
    {before after : Evictor (δ × List DeleteRequest)}
    (ran : deleteBlock deleter.recording ns hash block counted ({ before with index :=
      ⟨before.index.entries.erase hash⟩ }.removeSlate hash) = (outcome, after))
    (fits : counted.bytesFreed.toNat + block.payloadBytes.toNat < wordLimit) :
    Evicted deleter ns [(hash, block)] counted before outcome after := by
  have entries (other : BlockHash) : (before.index.entries.erase hash)[other]? =
      if other ∈ [(hash, block)].map Prod.fst then none else before.index.entries[other]? := by
    simp only [Std.ExtTreeMap.getElem?_erase, Std.LawfulEqCmp.compare_eq_iff_eq, map_cons,
      map_nil, mem_singleton, @eq_comm _ other]
  have added : (saturatingAdd counted.bytesFreed block.payloadBytes).toNat =
      counted.bytesFreed.toNat + totalWeight entrySize [(hash, block)] := by
    rw [saturatingAdd_toNat, totalWeight_cons, totalWeight_nil]
    show min (counted.bytesFreed.toNat + block.payloadBytes.toNat) (wordLimit - 1) =
      counted.bytesFreed.toNat + (block.payloadBytes.toNat + 0)
    omega
  rcases deleted : deleter.deleteBlock ns (deleter.blockKeyForHash hash) before.deleter.1 with
    ⟨error | found, state⟩
  all_goals
    simp only [deleteBlock, removeSlate, EvictionDeleter.recording, deleted] at ran
    cases ran
    exact ⟨entries, ⟨_, rfl, rfl, rfl⟩, added, rfl, rfl, rfl, rfl, rfl⟩

theorem Evicted.trans {first second : List (BlockHash × BlockMeta)}
    {middle last : EvictionCycleOutcome} {before between after : Evictor (δ × List DeleteRequest)}
    (one : Evicted deleter ns first counted before middle between)
    (two : Evicted deleter ns second middle between last after) :
    Evicted deleter ns (first ++ second) counted before last after := by
  obtain ⟨made, written, asked, failures⟩ := one.requests
  obtain ⟨more, writtenNext, askedNext, failuresNext⟩ := two.requests
  refine ⟨?_, ⟨made ++ more, ?_, ?_, ?_⟩, ?_, ?_, ?_⟩
  · intro hash
    rw [two.entries, one.entries, map_append]
    simp only [mem_append]
    by_cases early : hash ∈ first.map Prod.fst
    · simp [early]
    · by_cases late : hash ∈ second.map Prod.fst
      · rw [if_pos late, if_pos (.inr late)]
      · rw [if_neg late, if_neg early, if_neg (not_or.mpr ⟨early, late⟩)]
  · rw [writtenNext, written, append_assoc]
  · rw [map_append, map_append, asked, askedNext]
  · rw [failuresNext, failures, filter_append, length_append]
    omega
  · rw [two.bytes, one.bytes, totalWeight_append]
    omega
  · rw [two.blocks, one.blocks, length_append]
    omega
  · obtain ⟨skipped, scanned, total, exceeded⟩ := one.others
    obtain ⟨skippedNext, scannedNext, totalNext, overNext⟩ := two.others
    exact ⟨skippedNext.trans skipped, scannedNext.trans scanned, totalNext.trans total,
      overNext.trans exceeded⟩

theorem Evicted.refl (ns : Text) (counted : EvictionCycleOutcome)
    (before : Evictor (δ × List DeleteRequest)) :
    Evicted deleter ns [] counted before counted before :=
  ⟨by simp, ⟨[], by simp, rfl, by simp⟩, by simp, rfl, rfl, rfl, rfl, rfl⟩

theorem evictEntries_next {needToFree : UInt64} {outcome : EvictionCycleOutcome}
    {before after : Evictor δ} (missing : ¬ needToFree ≤ counted.bytesFreed)
    (found : before.index.entries[hash]? = some block)
    (ran : deleteBlock deleter ns hash block counted ({ before with index :=
      ⟨before.index.entries.erase hash⟩ }.removeSlate hash) = (outcome, after))
    (rest : List (BlockHash × BlockMeta)) :
    evictEntries deleter ns needToFree ((hash, block) :: rest) counted before =
      evictEntries deleter ns needToFree rest outcome after := by
  rw [evictEntries, if_neg missing, removeIfUnchanged_present found]
  simp only [ran]

theorem evictEntries_evicted (ns : Text) (needToFree : UInt64) (rest : List (BlockHash × BlockMeta))
    (counted : EvictionCycleOutcome) (before : Evictor (δ × List DeleteRequest))
    (present : ∀ entry ∈ rest, before.index.entries[entry.1]? = some entry.2)
    (distinct : (rest.map Prod.fst).Nodup)
    (fits : counted.bytesFreed.toNat + totalWeight entrySize rest < wordLimit) :
    Evicted deleter ns
      (takeReaching entrySize (needToFree.toNat - counted.bytesFreed.toNat) rest) counted before
      (evictEntries deleter.recording ns needToFree rest counted before).1
      (evictEntries deleter.recording ns needToFree rest counted before).2 := by
  induction rest generalizing counted before with
  | nil => exact .refl ns counted before
  | cons entry rest ih =>
    obtain ⟨hash, block⟩ := entry
    rw [takeReaching]
    by_cases enough : needToFree ≤ counted.bytesFreed
    · -- Enough is freed.
      have reached : needToFree.toNat - counted.bytesFreed.toNat = 0 := by
        have := UInt64.le_iff_toNat_le.mp enough
        omega
      rw [evictEntries, if_pos enough, if_pos reached]
      exact .refl ns counted before
    · have missing : ¬ needToFree.toNat - counted.bytesFreed.toNat = 0 := by
        rw [UInt64.le_iff_toNat_le] at enough
        omega
      have found := present (hash, block) mem_cons_self
      rw [totalWeight_cons] at fits
      have size : entrySize (hash, block) = block.payloadBytes.toNat := rfl
      rcases ran : deleteBlock deleter.recording ns hash block counted
        ({ before with index := ⟨before.index.entries.erase hash⟩ }.removeSlate hash) with
        ⟨outcome, after⟩
      have one := deleteBlock_evicted ran (by omega)
      have bytes : outcome.bytesFreed.toNat =
          counted.bytesFreed.toNat + entrySize (hash, block) := by
        rw [one.bytes, totalWeight_cons, totalWeight_nil, Nat.add_zero]
      have fresh := (nodup_cons.mp distinct).1
      have kept : ∀ entry ∈ rest, after.index.entries[entry.1]? = some entry.2 := by
        intro entry member
        have other : entry.1 ≠ hash := by
          intro same
          have inside : entry.1 ∈ rest.map Prod.fst := mem_map_of_mem member
          rw [same] at inside
          exact fresh inside
        rw [one.entries, if_neg (by simpa using other)]
        exact present entry (mem_cons_of_mem _ member)
      have later := ih outcome after kept (nodup_cons.mp distinct).2 (by omega)
      rw [bytes, ← Nat.sub_sub] at later
      rw [if_neg missing, evictEntries_next enough found ran]
      exact one.trans later

end Evictor

theorem sum_toNat {words : List UInt64} (fits : (words.map UInt64.toNat).sum < wordLimit) :
    words.sum.toNat = (words.map UInt64.toNat).sum := by
  induction words with
  | nil => rfl
  | cons word rest ih =>
    rw [map_cons, sum_cons] at fits
    rw [sum_cons, map_cons, sum_cons, UInt64.toNat_add, ih (by omega)]
    exact Nat.mod_eq_of_lt fits

namespace InMemoryMetadataIndex

variable {index : InMemoryMetadataIndex}

theorem sorted_eq_byAccess (index : InMemoryMetadataIndex) :
    sortBy (compareOn fun entry : BlockHash × BlockMeta => entry.2.lastAccessNs)
      index.entries.toList = index.byAccess :=
  sortBy_eq_sortBy_compareLex _ Std.ExtTreeMap.ordered_keys_toList

theorem sum_payloadBytes (fits : index.payloadTotal < wordLimit) :
    (index.entries.toList.map fun entry : BlockHash × BlockMeta => entry.2.payloadBytes).sum.toNat =
      index.payloadTotal := by
  have same : (index.entries.toList.map fun entry : BlockHash × BlockMeta =>
      entry.2.payloadBytes).map UInt64.toNat = index.entries.toList.map entrySize := by
    rw [map_map]
    rfl
  rw [sum_toNat (by rw [same]; exact fits), same]
  rfl

theorem mem_byAccess {entry : BlockHash × BlockMeta} :
    entry ∈ index.byAccess ↔ index.entries[entry.1]? = some entry.2 := by
  rw [byAccess, mem_sortBy, ← Std.ExtTreeMap.mem_toList_iff_getElem?_eq_some]

theorem byAccess_nodup (index : InMemoryMetadataIndex) : (index.byAccess.map Prod.fst).Nodup := by
  have same := (sortBy_perm compareByAccess index.entries.toList).map Prod.fst
  rw [byAccess, same.nodup_iff, Std.ExtTreeMap.map_fst_toList_eq_keys]
  exact Std.ExtTreeMap.nodup_keys

theorem payloadTotal_removed {after : InMemoryMetadataIndex}
    {victims left : List (BlockHash × BlockMeta)} (split : index.byAccess = victims ++ left)
    (entries : ∀ hash, after.entries[hash]? =
      if hash ∈ victims.map Prod.fst then none else index.entries[hash]?) :
    after.payloadTotal + totalWeight entrySize victims = index.payloadTotal := by
  have distinct := index.byAccess_nodup
  rw [split, map_append] at distinct
  have same : after.byAccess.Perm left := by
    have once : after.byAccess.Nodup := after.byAccess_nodup.of_map
    have onceLeft : left.Nodup := (nodup_append.mp distinct).2.1.of_map
    refine (perm_ext_iff_of_nodup once onceLeft).mpr fun entry => ?_
    rw [mem_byAccess, entries]
    constructor
    · intro present
      split_ifs at present with victim
      have member := mem_byAccess.mpr present
      rw [split] at member
      rcases mem_append.mp member with early | late
      · exact absurd (mem_map_of_mem early) victim
      · exact late
    · intro late
      have other : entry.1 ∉ victims.map Prod.fst := by
        intro early
        exact (nodup_append.mp distinct).2.2 entry.1 early entry.1
          (mem_map_of_mem late) rfl
      have member : entry ∈ index.byAccess := by
        rw [split]
        exact mem_append_right victims late
      rw [if_neg other, mem_byAccess.mp member]
  have afterTotal := totalWeight_perm entrySize (sortBy_perm compareByAccess after.entries.toList)
  have total := totalWeight_perm entrySize (sortBy_perm compareByAccess index.entries.toList)
  have remaining := totalWeight_perm entrySize same
  rw [payloadTotal, payloadTotal, ← afterTotal, ← total]
  show totalWeight entrySize after.byAccess + _ = totalWeight entrySize index.byAccess
  rw [remaining, split, totalWeight_append]
  omega

end InMemoryMetadataIndex

namespace Evictor

variable {ε δ : Type}

theorem runCycle_within (deleter : EvictionDeleter ε δ) {config : LruConfig} (target : UInt64)
    {before : Evictor δ} (fits : before.index.payloadTotal < wordLimit)
    (fine : before.index.payloadTotal ≤ config.namespaceMaxBytes.toNat) :
    runCycle deleter config target before =
      (⟨before.index.entries.size, UInt64.ofNat before.index.payloadTotal, false, 0, 0, 0, 0⟩,
        before) := by
  have sum := before.index.sum_payloadBytes fits
  have word : (before.index.entries.toList.map fun entry : BlockHash × BlockMeta =>
      entry.2.payloadBytes).sum = UInt64.ofNat before.index.payloadTotal := by
    rw [← sum, UInt64.ofNat_toNat]
  have enough : UInt64.ofNat before.index.payloadTotal ≤ config.namespaceMaxBytes := by
    rw [UInt64.le_iff_toNat_le, ← word, sum]
    exact fine
  rw [runCycle]
  simp only [word, if_pos (Or.inr enough), Std.ExtTreeMap.length_toList]

theorem runCycle_over (deleter : EvictionDeleter ε δ) {config : LruConfig} {target : UInt64}
    {before after : Evictor (δ × List DeleteRequest)} {outcome : EvictionCycleOutcome}
    (ran : runCycle deleter.recording config target before = (outcome, after))
    (fits : before.index.payloadTotal < wordLimit) (budget : 0 < config.namespaceMaxBytes)
    (exceeded : config.namespaceMaxBytes.toNat < before.index.payloadTotal) :
    ∃ counted : EvictionCycleOutcome,
      Evicted deleter config.ns
        (takeReaching entrySize (before.index.payloadTotal - target.toNat) before.index.byAccess)
        counted before outcome after ∧
      counted = ⟨before.index.entries.size, UInt64.ofNat before.index.payloadTotal, true, 0, 0, 0,
        0⟩ := by
  have sum := before.index.sum_payloadBytes fits
  have word : (before.index.entries.toList.map fun entry : BlockHash × BlockMeta =>
      entry.2.payloadBytes).sum = UInt64.ofNat before.index.payloadTotal := by
    rw [← sum, UInt64.ofNat_toNat]
  have exceeds : ¬ (config.namespaceMaxBytes = 0 ∨
      UInt64.ofNat before.index.payloadTotal ≤ config.namespaceMaxBytes) := by
    rw [not_or, ← word, UInt64.le_iff_toNat_le, sum]
    refine ⟨?_, by omega⟩
    rintro none
    rw [none] at budget
    exact absurd budget (by decide)
  rw [runCycle] at ran
  simp only [word, if_neg exceeds, Std.ExtTreeMap.length_toList,
    InMemoryMetadataIndex.sorted_eq_byAccess] at ran
  have need : (saturatingSub (UInt64.ofNat before.index.payloadTotal) target).toNat =
      before.index.payloadTotal - target.toNat := by
    rw [saturatingSub_toNat, ← word, sum]
  have total : totalWeight entrySize before.index.byAccess = before.index.payloadTotal :=
    totalWeight_perm entrySize (sortBy_perm compareByAccess before.index.entries.toList)
  have evicted := @evictEntries_evicted ε δ deleter config.ns
    (saturatingSub (UInt64.ofNat before.index.payloadTotal) target) before.index.byAccess
    ⟨before.index.entries.size, UInt64.ofNat before.index.payloadTotal, true, 0, 0, 0, 0⟩ before
    (fun entry member => InMemoryMetadataIndex.mem_byAccess.mp member)
    before.index.byAccess_nodup (by rw [total]; simpa using fits)
  rw [ran, need] at evicted
  exact ⟨_, by simpa using evicted, rfl⟩

/-- What a cycle does, whichever of its deletes fail. -/
theorem eviction_cycle_exact (deleter : EvictionDeleter ε δ) (config : LruConfig) (target : UInt64)
    (index : InMemoryMetadataIndex) (slatedb : Option SlateDbMetadataIndex) (state : δ)
    (fits : index.payloadTotal < wordLimit) (budget : 0 < config.namespaceMaxBytes)
    {outcome : EvictionCycleOutcome} {after : Evictor (δ × List DeleteRequest)}
    (ran : runCycle deleter.recording config target ⟨index, slatedb, state, []⟩ = (outcome, after))
    :
    (index.payloadTotal ≤ config.namespaceMaxBytes.toNat →
      after = ⟨index, slatedb, state, []⟩ ∧
        outcome = ⟨index.entries.size, UInt64.ofNat index.payloadTotal, false, 0, 0, 0, 0⟩) ∧
    (config.namespaceMaxBytes.toNat < index.payloadTotal →
      ∃ victims,
        ShortestReaching entrySize (index.payloadTotal - target.toNat) index.byAccess victims ∧
        (∀ hash, after.index.entries[hash]? =
          if hash ∈ victims.map Prod.fst then none else index.entries[hash]?) ∧
        after.deleter.2.map (fun request => (request.ns, request.key)) =
          victims.map (fun victim => (config.ns, deleter.blockKeyForHash victim.1)) ∧
        outcome.bytesFreed.toNat = totalWeight entrySize victims ∧
        outcome.blocksFreed = victims.length ∧
        outcome.deleteFailures = (after.deleter.2.filter DeleteRequest.failed).length ∧
        outcome.skippedChanged = 0 ∧ outcome.overBudget = true ∧
        outcome.scanned = index.entries.size ∧
        outcome.totalBytesBefore = UInt64.ofNat index.payloadTotal ∧
        after.index.payloadTotal ≤ target.toNat) := by
  constructor
  · intro fine
    have idle := @runCycle_within ε _ deleter.recording config target ⟨index, slatedb, state, []⟩
      fits fine
    rw [ran] at idle
    exact ⟨congrArg Prod.snd idle, congrArg Prod.fst idle⟩
  · intro exceeded
    obtain ⟨counted, evicted, rfl⟩ := runCycle_over deleter ran fits budget exceeded
    have total : totalWeight entrySize index.byAccess = index.payloadTotal :=
      totalWeight_perm entrySize (sortBy_perm compareByAccess index.entries.toList)
    have shortest := takeReaching_shortest entrySize
      (show index.payloadTotal - target.toNat ≤ totalWeight entrySize index.byAccess by omega)
    obtain ⟨left, split⟩ := shortest.initial
    obtain ⟨made, written, asked, failures⟩ := evicted.requests
    obtain ⟨skipped, scanned, totalBefore, overBudget⟩ := evicted.others
    have remaining := InMemoryMetadataIndex.payloadTotal_removed split.symm evicted.entries
    have reaches := shortest.reaches
    simp only [nil_append] at written
    refine ⟨_, shortest, evicted.entries, by rw [written, asked], ?_, ?_, ?_, skipped, overBudget,
      scanned, totalBefore, ?_⟩
    · simpa using evicted.bytes
    · simpa using evicted.blocks
    · rw [written, failures, Nat.zero_add]
    · -- What is left is the total less what was freed.
      omega

def failingDeleter : EvictionDeleter Unit Unit where
  deleteBlock _ _ := fun _ => (.error (), ())

def twoBlocks : InMemoryMetadataIndex :=
  ⟨(∅ : Std.ExtTreeMap BlockHash BlockMeta).insert (Vector.replicate 32 1)
    (.newRoot 2 (Vector.replicate 24 0) (Vector.replicate 16 0) 7) |>.insert
      (Vector.replicate 32 2) (.newRoot 2 (Vector.replicate 24 0) (Vector.replicate 16 0) 5)⟩

theorem eviction_cycle_exact_failing :
    twoBlocks.payloadTotal = 4 ∧
      (runCycle failingDeleter.recording ⟨3, ['a']⟩ 2
        ⟨twoBlocks, none, (), []⟩).2.index.payloadTotal ≤ 2 := by
  have total : twoBlocks.payloadTotal = 4 := by decide +kernel
  refine ⟨total, ?_⟩
  rcases ran : runCycle failingDeleter.recording ⟨3, ['a']⟩ 2 ⟨twoBlocks, none, (), []⟩ with
    ⟨outcome, after⟩
  have spec := eviction_cycle_exact failingDeleter ⟨3, ['a']⟩ 2 twoBlocks none ()
    (by rw [total]; decide) (by decide) ran
  obtain ⟨victims, -, -, -, -, -, -, -, -, -, -, small⟩ := spec.2 (by rw [total]; decide)
  exact small

/-- A cycle made right after another does nothing: deletes that failed are not tried again. -/
theorem runCycle_settles (deleter : EvictionDeleter ε δ) {config : LruConfig} {target : UInt64}
    (below : target ≤ config.namespaceMaxBytes) (budget : 0 < config.namespaceMaxBytes)
    {before after : Evictor (δ × List DeleteRequest)} {outcome : EvictionCycleOutcome}
    (fits : before.index.payloadTotal < wordLimit)
    (ran : runCycle deleter.recording config target before = (outcome, after)) :
    (runCycle deleter.recording config target after).2 = after := by
  have low := UInt64.le_iff_toNat_le.mp below
  have settled : after.index.payloadTotal < wordLimit ∧
      after.index.payloadTotal ≤ config.namespaceMaxBytes.toNat := by
    by_cases fine : before.index.payloadTotal ≤ config.namespaceMaxBytes.toNat
    · rw [runCycle_within _ target fits fine] at ran
      cases ran
      exact ⟨fits, fine⟩
    · -- The victims weigh enough to bring the total down to the target, failed deletes included.
      obtain ⟨counted, evicted, -⟩ := runCycle_over deleter ran fits budget (by omega)
      have total : totalWeight entrySize before.index.byAccess = before.index.payloadTotal :=
        totalWeight_perm entrySize (sortBy_perm compareByAccess before.index.entries.toList)
      have shortest := takeReaching_shortest entrySize ((Nat.sub_le _ target.toNat).trans total.ge)
      obtain ⟨left, split⟩ := shortest.initial
      have remaining := InMemoryMetadataIndex.payloadTotal_removed split.symm evicted.entries
      have reaches := shortest.reaches
      omega
  rw [runCycle_within _ target settled.1 settled.2]

theorem runCycle_settles_failing :
    let once := (runCycle failingDeleter.recording ⟨3, ['a']⟩ 2 ⟨twoBlocks, none, (), []⟩).2
    (runCycle failingDeleter.recording ⟨3, ['a']⟩ 2 once).2 = once :=
  runCycle_settles failingDeleter (by decide) (by decide) (by decide +kernel) rfl

end Evictor

end WombatKV
