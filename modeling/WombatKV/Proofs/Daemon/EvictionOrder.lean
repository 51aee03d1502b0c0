import WombatKV.Proofs.Daemon.Eviction
import WombatKV.Proofs.Daemon.LookupIsolation

/-! The order of eviction, compared with the order of use. -/

namespace WombatKV

open Call BlockNode List

def StampsBelow (index : InMemoryMetadataIndex) (time : UInt64) : Prop :=
  ∀ (hash : BlockHash) block, index.entries[hash]? = some block → block.lastAccessNs < time

structure Stamped (puts : List BlockHash) (index : InMemoryMetadataIndex) : Prop where
  members : ∀ (hash : BlockHash) block, index.entries[hash]? = some block → hash ∈ puts
  ordered : ∀ (recent old : BlockHash) recentBlock oldBlock,
    index.entries[recent]? = some recentBlock → index.entries[old]? = some oldBlock →
    MoreRecent puts recent old → oldBlock.lastAccessNs < recentBlock.lastAccessNs

section Stamps

variable {puts : List BlockHash} {index : InMemoryMetadataIndex} {hash : BlockHash}
  {block : BlockMeta} {now : UInt64}

theorem getElem?_insert_cases {other : BlockHash} {found : BlockMeta}
    (present : (index.insert hash block now).entries[other]? = some found) :
    other = hash ∧ found.lastAccessNs = now ∨
      other ≠ hash ∧ index.entries[other]? = some found := by
  rw [InMemoryMetadataIndex.insert, Std.ExtTreeMap.getElem?_insert] at present
  by_cases own : hash = other
  · subst own
    simp only [Std.ReflCmp.compare_self, if_true] at present
    cases present
    exact .inl ⟨rfl, rfl⟩
  · rw [if_neg (by simpa using own)] at present
    exact .inr ⟨Ne.symm own, present⟩

theorem Stamped.insert (stamped : Stamped puts index) (below : StampsBelow index now) :
    Stamped (hash :: puts) (index.insert hash block now) where
  members other found present := by
    rcases getElem?_insert_cases present with ⟨rfl, _⟩ | ⟨_, earlier⟩
    · exact mem_cons_self ..
    · exact mem_cons_of_mem _ (stamped.members other found earlier)
  ordered recent old recentBlock oldBlock isRecent isOld later := by
    rcases getElem?_insert_cases isOld with ⟨rfl, _⟩ | ⟨oldOther, oldEarlier⟩
    · -- Nothing comes before the block that was just put.
      simp [MoreRecent] at later
    · rcases getElem?_insert_cases isRecent with ⟨rfl, stamp⟩ | ⟨recentOther, recentEarlier⟩
      · rw [stamp]
        exact below old oldBlock oldEarlier
      · refine stamped.ordered recent old recentBlock oldBlock recentEarlier oldEarlier ?_
        simpa [MoreRecent, idxOf_cons, Ne.symm recentOther, Ne.symm oldOther] using later

theorem StampsBelow.insert {time : UInt64} (below : StampsBelow index time) (earlier : now < time) :
    StampsBelow (index.insert hash block now) time := by
  intro other found present
  rcases getElem?_insert_cases present with ⟨_, stamp⟩ | ⟨_, old⟩
  · rw [stamp]
    exact earlier
  · exact below other found old

end Stamps

section Entering

variable {node : BlockNode}

theorem insertSlate_reads {ε : Type} (lives : node.stepsLeft = none) (hash : BlockHash)
    (block : BlockMeta) :
    ∃ after, (insertSlate hash block : Call (Halt ε) BlockNode PUnit) node = (.ok (), after) ∧
      after.stepsLeft = none ∧ after.metadataIndex = node.metadataIndex ∧
      after.slatedbIndex.isSome = node.slatedbIndex.isSome ∧
      after.clock = fun reading => node.clock (reading + (node.readingsPerBlock - 2)) := by
  rw [insertSlate, get_bind_apply]
  cases has : node.slatedbIndex with
  | none => exact ⟨node, rfl, lives, rfl, by rw [has], by simp [readingsPerBlock, has]⟩
  | some slate =>
    have wrote := @writeSlate_alone ε (BatchPhase.readClock node).2 lives
      (slate.insert hash block (node.clock 0))
    refine ⟨_, wrote, rfl, rfl, ?_, ?_⟩
    · simp [written, BatchPhase.readClock, has]
    · simp [written, BatchPhase.readClock, readingsPerBlock, has]

theorem indexBlocks_stamped {puts : List BlockHash} (lives : node.stepsLeft = none)
    (items : List (BlockHash × Bytes)) (total : UInt64) (stamped : Stamped puts node.metadataIndex)
    (below : ∀ reading < items.length * node.readingsPerBlock,
      StampsBelow node.metadataIndex (node.clock reading))
    (increasing : ∀ later < items.length * node.readingsPerBlock, ∀ earlier < later,
      node.clock earlier < node.clock later) :
    ∃ final after, indexBlocks items total node = (.ok final, after) ∧
      Stamped ((items.map Prod.fst).reverse ++ puts) after.metadataIndex ∧
      after.slatedbIndex.isSome = node.slatedbIndex.isSome ∧
      ∀ time, StampsBelow node.metadataIndex time →
        (∀ reading < items.length * node.readingsPerBlock, node.clock reading < time) →
        StampsBelow after.metadataIndex time := by
  induction items generalizing node total puts with
  | nil => exact ⟨total, node, rfl, stamped, rfl, fun _ old _ => old⟩
  | cons item rest ih =>
    obtain ⟨hash, payload⟩ := item
    have perBlock : 2 ≤ node.readingsPerBlock := by
      unfold readingsPerBlock
      split <;> omega
    have count : (rest.length + 1) * node.readingsPerBlock =
        rest.length * node.readingsPerBlock + node.readingsPerBlock := by ring
    simp only [length_cons, count] at below increasing ⊢
    let size := UInt64.ofNat payload.length
    let block := BlockMeta.newRoot size (Vector.replicate 24 0) (Vector.replicate 16 0) (node.clock 0)
    let entered : BlockNode := { node with
      clock := fun reading => node.clock (reading + 1 + 1)
      metadataIndex := node.metadataIndex.insert hash block (node.clock 1) }
    have indexed : (insertIndex hash block : Call (Halt BlockError) BlockNode PUnit)
        (BatchPhase.readClock node).2 = (.ok (), entered) := by
      have alive : (BatchPhase.readClock (BatchPhase.readClock node).2).2.stepsLeft = none := lives
      rw [insertIndex, bind_ok nowNs_alone, bind_ok (tick_alone alive)]
      rfl
    obtain ⟨between, recorded, alive, sameIndex, sameSlate, clock⟩ :=
      @insertSlate_reads entered BlockError lives hash block
    have perSame : between.readingsPerBlock = node.readingsPerBlock := by
      simp only [readingsPerBlock, sameSlate]
      rfl
    have entryReadings : entered.readingsPerBlock = node.readingsPerBlock := rfl
    have ticks (reading : Nat) :
        between.clock reading = node.clock (reading + node.readingsPerBlock) := by
      rw [clock, entryReadings]
      exact congrArg node.clock (by omega)
    have now : StampsBelow node.metadataIndex (node.clock 1) := below 1 (by omega)
    have belowNext (time : UInt64) (old : StampsBelow node.metadataIndex time)
        (later : node.clock 1 < time) : StampsBelow between.metadataIndex time := by
      rw [sameIndex]
      exact old.insert later
    have stampedNext : Stamped (hash :: puts) between.metadataIndex := by
      rw [sameIndex]
      exact stamped.insert now
    obtain ⟨final, after, ran, stampedAfter, slateAfter, belowAfter⟩ :=
      ih alive (saturatingAdd total size) stampedNext
        (by
          intro reading inside
          rw [perSame] at inside
          rw [ticks]
          exact belowNext _ (below _ (by omega)) (increasing _ (by omega) 1 (by omega)))
        (by
          intro later inside earlier before
          rw [perSame] at inside
          rw [ticks, ticks]
          exact increasing _ (by omega) _ (by omega))
    refine ⟨final, after, ?_, ?_, ?_, ?_⟩
    · rw [indexBlocks, bind_ok nowNs_alone, bind_ok indexed, bind_ok recorded]
      exact ran
    · simpa using stampedAfter
    · exact slateAfter.trans sameSlate
    · intro time old readings
      refine belowAfter time (belowNext time old (readings 1 (by omega))) fun reading inside => ?_
      rw [perSame] at inside
      rw [ticks]
      exact readings _ (by omega)

theorem dispatchPut_indexes (lives : node.stepsLeft = none) (ns : Text) (hexes : List Text)
    (payloads : List Bytes) (schedule : Schedule) :
    (dispatchPutKvBlocksBatch ns hexes payloads schedule).Ensures (fun result after =>
      match result with
      | .ok total => ∃ between hashes, StoreOnly node between ∧
          parseBlockHashList hexes = .ok hashes ∧ hexes.length = payloads.length ∧
          indexBlocks (hashes.zip payloads) 0 between = (.ok total, after)
      | .error _ => after.metadataIndex = node.metadataIndex ∧
          after.slatedbIndex = node.slatedbIndex) node := by
  refine @ensures_dispatchPut node ns hexes payloads schedule
    (fun now => StoreOnly node now ∧ True) (fun _ => False) (fun _ _ _ => True) _
    (fun _ _ => ⟨rfl, rfl⟩) ⟨.refl node, trivial⟩ ?_ (fun _ dead => dead.elim)
    (fun _ _ _ _ held _ => ⟨held.1.metadataIndex, held.1.slatedbIndex⟩) ?_
  · intro number hex payload _ _
    refine @storeBlock_settles node (fun _ => True) (fun _ => False) (fun _ _ _ => True) number
      _ _ _ _ ?_ ?_
    · intro now frame _ counted
      exact counted (frame.lives lives)
    · intro store _
      exact ⟨trivial, fun _ _ => id, trivial⟩
  · intro between hashes matched parsed held _
    obtain ⟨final, after, ran, _⟩ :=
      indexBlocks_alone (held.1.lives lives) (hashes.zip payloads) 0
    rw [Ensures, ran]
    exact ⟨between, hashes, held.1, parsed, matched, ran⟩

end Entering

theorem recentPuts_cons_of_error {call : DaemonCall} {halt : Halt DaemonError}
    (history : DaemonHistory) :
    recentPuts ((call, .error halt) :: history) = recentPuts history := by
  cases call <;> simp [recentPuts]

theorem recentPuts_cons_of_put {ns : Text} {hexes : List Text} {payloads : List Bytes}
    {answer : DaemonAnswer} (history : DaemonHistory) :
    recentPuts ((.put ns hexes payloads, .ok answer) :: history) =
      (namedHashes hexes).reverse ++ recentPuts history := by
  simp [recentPuts]

theorem Stamped.step {run : DaemonRun} {taken : DaemonStep}
    (request : taken.call.isBlockRequest = true) (lives : taken.around.stepsLeft = none)
    (stamped : Stamped (recentPuts run.history) run.node.metadataIndex)
    (below : ∀ reading ∈ run.readings taken, StampsBelow run.node.metadataIndex reading)
    (increasing : (run.readings taken).Pairwise (· < ·)) :
    Stamped (recentPuts (run.step taken).history) (run.step taken).node.metadataIndex ∧
      ∀ time, StampsBelow run.node.metadataIndex time → (∀ reading ∈ run.readings taken,
        reading < time) → StampsBelow (run.step taken).node.metadataIndex time := by
  generalize ready : run.node.under taken.around = begun
  have alive : begun.stepsLeft = none := by
    rw [← ready]
    exact lives
  have index : begun.metadataIndex = run.node.metadataIndex := by rw [← ready]; rfl
  rcases ran : serve taken.call taken.around begun with ⟨answer, after⟩
  have stepped : run.step taken = ⟨after, (taken.call, answer) :: run.history⟩ := by
    simp only [DaemonRun.step, ready, ran]
  rw [stepped]
  have idle (same : after.metadataIndex = run.node.metadataIndex)
      (none : recentPuts ((taken.call, answer) :: run.history) = recentPuts run.history) :
      Stamped (recentPuts ((taken.call, answer) :: run.history)) after.metadataIndex ∧
        ∀ time, StampsBelow run.node.metadataIndex time → (∀ reading ∈ run.readings taken,
          reading < time) → StampsBelow after.metadataIndex time := by
    rw [same, none]
    exact ⟨stamped, fun _ old _ => old⟩
  cases kind : taken.call with
  | lookup ns hexes =>
    rw [kind, serve_lookup] at ran
    cases ran
    rw [kind] at idle
    exact idle index rfl
  | get ns hexes =>
    rw [kind] at ran idle
    obtain ⟨result, dispatched, -⟩ := answering_ran ran
    have fetched := @dispatchGet_undisturbed begun ns hexes taken.around.schedule _ _
      begun.store.tiersMeet_any fun _ _ _ => id
    simp only [Ensures, dispatched] at fetched
    exact idle (fetched.1.metadataIndex.trans index) rfl
  | put ns hexes payloads =>
    rw [kind] at ran idle
    obtain ⟨result, dispatched, rfl⟩ := answering_ran ran
    have stored := dispatchPut_indexes alive ns hexes payloads taken.around.schedule
    simp only [Ensures, dispatched] at stored
    cases result with
    | error halt => exact idle (stored.1.trans index) (recentPuts_cons_of_error _)
    | ok total =>
      obtain ⟨between, hashes, frame, parsed, matched, entered⟩ := stored
      have lengths := (parseBlockHashList_eq_ok.mp parsed).length_eq
      have count : (hashes.zip payloads).length = hexes.length := by
        rw [length_zip]
        omega
      have names : (hashes.zip payloads).map Prod.fst = hashes := by
        apply map_fst_zip
        omega
      have perBlock : between.readingsPerBlock = run.node.readingsPerBlock := by
        simp only [readingsPerBlock, frame.slatedbIndex, ← ready]
        rfl
      have clock : between.clock = taken.around.clock := by
        rw [frame.clock, ← ready]
        rfl
      have readings : run.readings taken = (List.range (hexes.length *
          run.node.readingsPerBlock)).map taken.around.clock := by
        simp only [DaemonRun.readings, kind, ready, ran, answered]
      have isReading (reading : Nat) (inside : reading < hexes.length * run.node.readingsPerBlock) :
          taken.around.clock reading ∈ run.readings taken := by
        rw [readings]
        exact mem_map_of_mem (mem_range.mpr inside)
      have same : between.metadataIndex = run.node.metadataIndex :=
        frame.metadataIndex.trans index
      obtain ⟨final, last, again, stampedAfter, _, belowAfter⟩ :=
        @indexBlocks_stamped between (recentPuts run.history) (frame.lives alive)
          (hashes.zip payloads) 0 (same ▸ stamped)
          (by
            rw [count, perBlock, same, clock]
            exact fun reading inside => below _ (isReading reading inside))
          (by
            rw [count, perBlock, clock]
            rw [readings, pairwise_map] at increasing
            intro later inside earlier before
            have ordered := pairwise_iff_getElem.mp increasing earlier later
              (by simpa using before.trans inside) (by simpa using inside) before
            simpa using ordered)
      cases entered.symm.trans again
      refine ⟨?_, fun time old readingsBelow => belowAfter time (same ▸ old) ?_⟩
      · have puts : recentPuts ((.put ns hexes payloads, .ok (.stored total)) :: run.history) =
            hashes.reverse ++ recentPuts run.history := by
          rw [recentPuts_cons_of_put, namedHashes, parsed]
          rfl
        show Stamped (recentPuts ((.put ns hexes payloads, .ok (.stored total)) :: run.history)) _
        rw [puts, ← names]
        exact stampedAfter
      · rw [count, perBlock, clock]
        exact fun reading inside => readingsBelow _ (isReading reading inside)
  | kv call | evict config target =>
    rw [kind] at request
    cases request

theorem Stamped.run {taken : List DaemonStep}
    (requests : ∀ step ∈ taken, step.call.isBlockRequest = true ∧ step.around.stepsLeft = none)
    {run : DaemonRun} (stamped : Stamped (recentPuts run.history) run.node.metadataIndex)
    (below : ∀ reading ∈ run.clockReadings taken, StampsBelow run.node.metadataIndex reading)
    (increasing : (run.clockReadings taken).Pairwise (· < ·)) :
    Stamped (recentPuts (taken.foldl DaemonRun.step run).history)
      (taken.foldl DaemonRun.step run).node.metadataIndex := by
  induction taken generalizing run with
  | nil => exact stamped
  | cons step rest ih =>
    rw [DaemonRun.clockReadings, pairwise_append] at increasing
    obtain ⟨own, later, across⟩ := increasing
    obtain ⟨request, lives⟩ := requests step (mem_cons_self ..)
    obtain ⟨stampedNext, belowNext⟩ := stamped.step request lives
      (fun reading member => below reading (mem_append_left _ member)) own
    refine ih (fun other member => requests other (mem_cons_of_mem _ member)) stampedNext ?_
      later
    intro reading member
    exact belowNext reading (below reading (mem_append_right _ member))
      fun earlier inside => across earlier inside reading member

theorem runCycle_oldest {ε : Type} {node : BlockNode} {config : LruConfig} {target : UInt64}
    {unlinked : BlockHash → Bool} {outcome : Except (Halt ε) EvictionCycleOutcome}
    {after : BlockNode} (ran : runCycle config target unlinked node = (outcome, after))
    {removed kept : BlockHash} {removedBlock keptBlock : BlockMeta}
    (wasRemoved : node.metadataIndex.entries[removed]? = some removedBlock)
    (isRemoved : after.metadataIndex.entries[removed]? = none)
    (isKept : after.metadataIndex.entries[kept]? = some keptBlock) :
    node.metadataIndex.entries[kept]? = some keptBlock ∧
      removedBlock.lastAccessNs ≤ keptBlock.lastAccessNs := by
  have evicting := @runCycle_evicting ε node config target unlinked
  simp only [Ensures, ran] at evicting
  obtain ⟨gone, first, evicted⟩ : ∃ gone, gone <+: node.evictionOrder.map Prod.fst ∧
      Evicted config.ns gone node after := by
    cases outcome with
    | ok final => exact evicting
    | error halt =>
      cases halt with
      | failed error => exact evicting.elim
      | crashed => exact evicting.2
  rw [evicted.index] at isRemoved isKept
  have inGone : removed ∈ gone := by
    by_contra outside
    rw [if_neg outside, wasRemoved] at isRemoved
    cases isRemoved
  have notGone : kept ∉ gone := by
    intro inside
    rw [if_pos inside] at isKept
    cases isKept
  rw [if_neg notGone] at isKept
  refine ⟨isKept, ?_⟩
  obtain ⟨rest, split⟩ := first
  obtain ⟨front, back, parts, frontNames, _⟩ := map_eq_append_iff.mp split.symm
  have inOrder (entry : BlockHash × BlockMeta) :
      entry ∈ front ++ back ↔ node.metadataIndex.entries[entry.1]? = some entry.2 := by
    rw [← parts, evictionOrder, mem_sortBy]
    exact Std.ExtTreeMap.mem_toList_iff_getElem?_eq_some
  have inFront : (removed, removedBlock) ∈ front := by
    rw [← frontNames] at inGone
    obtain ⟨⟨_, found⟩, member, rfl⟩ := mem_map.mp inGone
    have present := (inOrder _).mp (mem_append_left _ member)
    cases wasRemoved.symm.trans present
    exact member
  have inBack : (kept, keptBlock) ∈ back := by
    rcases mem_append.mp ((inOrder (kept, keptBlock)).mpr isKept) with inside | inside
    · rw [← frontNames] at notGone
      exact absurd (mem_map_of_mem inside) notGone
    · exact inside
  have sorted := sortBy_pairwise (compareOn fun entry : BlockHash × BlockMeta =>
    entry.2.lastAccessNs) node.metadataIndex.entries.toList
  have order : sortBy (compareOn fun entry : BlockHash × BlockMeta => entry.2.lastAccessNs)
      node.metadataIndex.entries.toList = front ++ back := parts
  rw [order, pairwise_append] at sorted
  exact Std.isLE_compare.mp (sorted.2.2 _ inFront _ inBack)

theorem step_evict_node (run : DaemonRun) (config : LruConfig) (target : UInt64)
    (around : Circumstances) :
    (run.step ⟨.evict config target, around⟩).node =
      ((runCycle config target around.unlinked : Call (Halt DaemonError) BlockNode _)
        (run.node.under around)).2 := by
  simp only [DaemonRun.step, serve]
  rcases bind_cases (runCycle config target around.unlinked : Call (Halt DaemonError) BlockNode _)
    (fun outcome => pure (DaemonAnswer.cycled outcome)) (run.node.under around) with
    ⟨error, _, ran⟩ | ⟨answer, _, ran⟩
  · exact congrArg Prod.snd ran
  · exact congrArg Prod.snd ran

theorem indexed_iff {node : BlockNode} {hash : BlockHash} :
    node.Indexed hash ↔ ∃ block, node.metadataIndex.entries[hash]? = some block := by
  rw [Indexed, Std.ExtTreeMap.contains_eq_isSome_getElem?, Option.isSome_iff_exists]

/-- A cycle after block requests evicts no block that was used more recently than one it keeps. -/
theorem eviction_respects_recency {node : BlockNode} (fresh : node.metadataIndex.entries = ∅)
    {taken : List DaemonStep}
    (requests : ∀ step ∈ taken, step.call.isBlockRequest = true ∧ step.around.stepsLeft = none)
    (increasing : (DaemonRun.clockReadings ⟨node, []⟩ taken).Pairwise (· < ·))
    (unmoved : FetchesKeepOrder (DaemonRun.of node taken).history) (config : LruConfig)
    (target : UInt64) (around : Circumstances) {removed kept : BlockHash}
    (wasThere : (DaemonRun.of node taken).node.Indexed removed)
    (isRemoved : ¬((DaemonRun.of node taken).step ⟨.evict config target, around⟩).node.Indexed
      removed)
    (isKept : ((DaemonRun.of node taken).step ⟨.evict config target, around⟩).node.Indexed kept) :
    ¬MoreRecent (recentUses (DaemonRun.of node taken).history) removed kept := by
  have start : Stamped (recentPuts []) node.metadataIndex := by
    constructor
    · simp [fresh]
    · simp [fresh]
  have stamped : Stamped (recentPuts (DaemonRun.of node taken).history)
      (DaemonRun.of node taken).node.metadataIndex := by
    refine @Stamped.run taken requests ⟨node, []⟩ start ?_ increasing
    intro reading _ hash block present
    simp [fresh] at present
  generalize DaemonRun.of node taken = run at *
  rw [step_evict_node] at isRemoved isKept
  rcases ran : (runCycle config target around.unlinked : Call (Halt DaemonError) BlockNode _)
    (run.node.under around) with ⟨outcome, after⟩
  rw [ran] at isRemoved isKept
  obtain ⟨removedBlock, wasRemoved⟩ := indexed_iff.mp wasThere
  obtain ⟨keptBlock, present⟩ := indexed_iff.mp isKept
  have absent : after.metadataIndex.entries[removed]? = none := by
    cases found : after.metadataIndex.entries[removed]? with
    | none => rfl
    | some block => exact absurd (indexed_iff.mpr ⟨block, found⟩) isRemoved
  obtain ⟨wasKept, older⟩ := runCycle_oldest ran wasRemoved absent present
  intro moreRecent
  have removedPut := stamped.members removed removedBlock wasRemoved
  have keptPut := stamped.members kept keptBlock wasKept
  rcases Nat.lt_trichotomy ((recentPuts run.history).idxOf removed)
    ((recentPuts run.history).idxOf kept) with later | same | earlier
  · have newer := stamped.ordered removed kept removedBlock keptBlock wasRemoved wasKept later
    exact absurd newer (UInt64.not_lt.mpr older)
  · have equal : removed = kept := (idxOf_inj removedPut).mp same
    exact absurd moreRecent (by simp [MoreRecent, equal])
  · have kept := unmoved kept keptPut removed removedPut earlier
    exact absurd moreRecent (by simp only [MoreRecent] at kept ⊢; omega)

def twoBlocks (fetched : Bool) : List DaemonStep :=
  [quietlyAt 10 (.put "a".toList [uniformHex 'a'] [[1, 2]]),
    quietlyAt 20 (.put "a".toList [uniformHex 'b'] [[3, 4]])] ++
    if fetched then [quietlyAt 30 (.get "a".toList [uniformHex 'a'])] else []

def halfCycle : DaemonStep := quietlyAt 40 (.evict ⟨3, "a".toList⟩ 2)

theorem eviction_respects_recency_twoPuts :
    ¬MoreRecent (recentUses (DaemonRun.of (blockNode plainStore) (twoBlocks false)).history)
      (Vector.replicate 32 0xaa) (Vector.replicate 32 0xbb) := by
  refine eviction_respects_recency rfl (by decide +kernel) (by decide +kernel)
    (by decide +kernel) ⟨3, "a".toList⟩ 2 halfCycle.around ?_ ?_ ?_
  · unfold Indexed
    decide +kernel
  · unfold Indexed
    decide +kernel
  · unfold Indexed
    decide +kernel

theorem fetched_block_is_evicted :
    let run := DaemonRun.of (blockNode plainStore) (twoBlocks true)
    (DaemonRun.clockReadings ⟨blockNode plainStore, []⟩ (twoBlocks true)).Pairwise (· < ·) ∧
      run.node.Indexed (Vector.replicate 32 0xaa) ∧
      ¬(run.step halfCycle).node.Indexed (Vector.replicate 32 0xaa) ∧
      (run.step halfCycle).node.Indexed (Vector.replicate 32 0xbb) ∧
      MoreRecent (recentUses run.history) (Vector.replicate 32 0xaa) (Vector.replicate 32 0xbb) := by
  unfold Indexed
  decide +kernel

end WombatKV
