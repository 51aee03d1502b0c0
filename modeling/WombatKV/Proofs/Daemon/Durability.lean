import WombatKV.Proofs.Daemon.Eviction
import WombatKV.Proofs.Daemon.LookupIsolation

/-! A daemon that was restarted reports only blocks it has. -/

namespace WombatKV

open Call BlockNode

variable {ns : Text} {node before : BlockNode} {kept : List BlockHash}

structure Backed (ns : Text) (kept : List BlockHash) (node : BlockNode) : Prop where
  through : node.store.writeThroughS3 = true
  slate : node.slatedbIndex.isSome = true
  indexed : ∀ hash, node.Indexed hash → node.HasObject ns hash
  recorded : ∀ hash, node.Recorded hash → node.HasObject ns hash
  kept : ∀ hash ∈ kept, node.Recorded hash

theorem BlockNode.Unindexed.backed (empty : node.Unindexed) (ns : Text) : Backed ns [] node := by
  obtain ⟨slate, has, noRecords⟩ := empty.slate
  refine ⟨empty.through, by rw [has]; rfl, ?_, ?_, by simp⟩
  · intro hash found
    simp [Indexed, empty.noBlocks] at found
  · intro hash found
    rw [recorded_iff has] at found
    simp [SlateDbMetadataIndex.readMeta, noRecords] at found

theorem Backed.under (backed : Backed ns kept node) (around : Circumstances) :
    Backed ns kept (node.under around) :=
  ⟨backed.through, backed.slate, backed.indexed, backed.recorded, backed.kept⟩

theorem Backed.moreObjects {after : BlockNode} (backed : Backed ns kept before)
    (frame : StoreOnly before after) (setup : before.store.SameSetup after.store)
    (objects : ∀ name ∈ before.store.objectStore.objects, name ∈ after.store.objectStore.objects) :
    Backed ns kept after := by
  have stillThere (hash : BlockHash) (present : before.HasObject ns hash) :
      after.HasObject ns hash := by
    rw [HasObject, setup.objectKey]
    exact objects _ present
  refine ⟨setup.writeThroughS3.trans backed.through, frame.slatedbIndex ▸ backed.slate, ?_, ?_, ?_⟩
  · intro hash found
    rw [Indexed, frame.metadataIndex] at found
    exact stillThere hash (backed.indexed hash found)
  · intro hash found
    rw [Recorded, frame.slatedbIndex] at found
    exact stillThere hash (backed.recorded hash found)
  · intro hash owed
    rw [Recorded, frame.slatedbIndex]
    exact backed.kept hash owed

section Storing

variable {hexes : List Text} {hashes kept : List BlockHash} {before between after : BlockNode}

theorem hasObject_of_allPut (put : AllPut ns hexes between)
    (parsed : parseBlockHashList hexes = .ok hashes)
    (lower : ∀ hex ∈ hexes, ∀ char ∈ hex, char.isUpper = false) {hash : BlockHash}
    (member : hash ∈ hashes) : between.HasObject ns hash := by
  obtain ⟨hex, stored, read⟩ := (mem_parseBlockHashList parsed).mp member
  have spelled : blockKeyForHash hash = blockKeyFromHex hex := by
    rw [blockKeyForHash, blockKeyFromHex, hexLower_of_parse read (lower hex stored)]
  rw [HasObject, spelled]
  exact put hex stored

theorem Backed.enters (backed : Backed ns kept between) (put : AllPut ns hexes between)
    (parsed : parseBlockHashList hexes = .ok hashes)
    (lower : ∀ hex ∈ hexes, ∀ char ∈ hex, char.isUpper = false)
    (enters : Enters hashes between after) : Backed ns kept after := by
  have stillThere (hash : BlockHash) (present : between.HasObject ns hash) :
      after.HasObject ns hash := by
    rw [HasObject, enters.store]
    exact present
  refine ⟨enters.store ▸ backed.through, enters.slate ▸ backed.slate, ?_, ?_, ?_⟩
  · intro hash found
    rcases enters.indexed hash found with old | new
    · exact stillThere hash (backed.indexed hash old)
    · exact stillThere hash (hasObject_of_allPut put parsed lower new)
  · intro hash found
    rcases enters.recorded hash found with old | new
    · exact stillThere hash (backed.recorded hash old)
    · exact stillThere hash (hasObject_of_allPut put parsed lower new)
  · intro hash owed
    exact enters.stillRecorded hash (backed.kept hash owed)

theorem dispatchPut_backed (backed : Backed ns kept before)
    (lower : ∀ hex ∈ hexes, ∀ char ∈ hex, char.isUpper = false) (payloads : List Bytes)
    (schedule : Schedule) :
    (dispatchPutKvBlocksBatch ns hexes payloads schedule).Ensures (fun result after =>
      Backed ns kept after ∧ ∀ total, result = .ok total →
        Backed ns ((parseBlockHashList hexes).toOption.getD [] ++ kept) after) before := by
  have putting (between : BlockNode) (put : Putting (fun _ => True) before between) :
      Backed ns kept between :=
    backed.moreObjects put.frame put.setup put.kept
  have stored := @dispatchPut_storing before ns hexes payloads schedule (fun _ => True) trivial
    (fun _ _ setup => .inl (setup.writeThroughS3.trans backed.through)) fun _ _ _ _ _ _ _ => trivial
  refine stored.weaken fun result after ended => ?_
  match result with
  | .error (.failed _) => exact ⟨putting after ended, fun _ impossible => nomatch impossible⟩
  | .error .crashed =>
    refine ⟨?_, fun _ impossible => nomatch impossible⟩
    rcases ended.2 with put | ⟨between, hashes, put, objects, parsed, enters⟩
    · exact putting after put
    · exact (putting between put).enters objects parsed lower enters
  | .ok total =>
    obtain ⟨between, hashes, put, objects, parsed, enters, entered⟩ := ended
    have backedAfter := (putting between put).enters objects parsed lower enters
    refine ⟨backedAfter, fun _ _ => { backedAfter with kept := fun hash owed => ?_ }⟩
    rw [parsed] at owed
    rcases List.mem_append.mp owed with own | earlier
    · exact (entered hash own).2 backedAfter.slate
    · exact backedAfter.kept hash earlier

end Storing

theorem Backed.evicted {gone : List BlockHash} {after : BlockNode} (backed : Backed ns kept before)
    (evicted : Evicted ns gone before after) (present : ∀ hash ∈ gone, before.Indexed hash) :
    Backed ns (kept.filter fun hash => !(before.metadataIndex.entries.contains hash &&
      !after.metadataIndex.entries.contains hash)) after := by
  have out (hash : BlockHash) (lost : hash ∈ gone) :
      after.metadataIndex.entries.contains hash = false := by
    rw [Std.ExtTreeMap.contains_eq_isSome_getElem?, evicted.index, if_pos lost]
    rfl
  have stillThere (hash : BlockHash) (had : before.HasObject ns hash)
      (mentioned : after.Indexed hash ∨ after.Recorded hash) : after.HasObject ns hash := by
    rw [HasObject, evicted.setup.objectKey]
    rcases evicted.objects _ had with still | ⟨other, lost, unrecorded, same⟩
    · exact still
    · obtain rfl := objectKey_blockKeyForHash_inj same
      rcases mentioned with indexed | recorded
      · exact absurd (out hash lost) (by rw [indexed]; simp)
      · exact absurd recorded unrecorded
  refine ⟨evicted.setup.writeThroughS3.trans backed.through, evicted.slate ▸ backed.slate,
    ?_, ?_, ?_⟩
  · intro hash found
    have earlier : before.Indexed hash := by
      rw [Indexed, Std.ExtTreeMap.contains_eq_isSome_getElem?, evicted.index] at found
      rw [Indexed, Std.ExtTreeMap.contains_eq_isSome_getElem?]
      split at found
      · cases found
      · exact found
    exact stillThere hash (backed.indexed hash earlier) (.inl found)
  · intro hash found
    exact stillThere hash (backed.recorded hash (evicted.recorded hash found)) (.inr found)
  · intro hash owed
    obtain ⟨earlier, unremoved⟩ := List.mem_filter.mp owed
    rcases evicted.stillRecorded hash (backed.kept hash earlier) with still | lost
    · exact still
    · have indexed : before.metadataIndex.entries.contains hash = true := present hash lost
      simp [indexed, out hash lost] at unremoved

theorem runCycle_backed (backed : Backed ns kept before) {config : LruConfig}
    (same : config.ns = ns) (target : UInt64) (unlinked : BlockHash → Bool) :
    (runCycle config target unlinked : Call (Halt DaemonError) BlockNode _).Ensures
      (fun _ after => Backed ns (kept.filter fun hash =>
        !(before.metadataIndex.entries.contains hash &&
          !after.metadataIndex.entries.contains hash)) after) before := by
  subst same
  have present (gone : List BlockHash) (first : gone <+: before.evictionOrder.map Prod.fst) :
      ∀ hash ∈ gone, before.Indexed hash := by
    intro hash lost
    obtain ⟨entry, member, rfl⟩ := List.mem_map.mp (first.subset lost)
    have found := Std.ExtTreeMap.mem_toList_iff_getElem?_eq_some.mp ((mem_sortBy _).mp member)
    rw [Indexed, Std.ExtTreeMap.contains_eq_isSome_getElem?, found]
    rfl
  refine (runCycle_evicting config target unlinked).weaken fun result after ended => ?_
  cases result with
  | ok outcome =>
    obtain ⟨gone, first, evicted⟩ := ended
    exact backed.evicted evicted (present gone first)
  | error halt =>
    cases halt with
    | failed error => exact ended.elim
    | crashed =>
      obtain ⟨_, gone, first, evicted⟩ := ended
      exact backed.evicted evicted (present gone first)

theorem restart_indexed (slate : node.slatedbIndex.isSome = true) (flat : FlatFileKvBlobCache)
    (foyer : FoyerHybridCache) (hash : BlockHash) :
    (node.restart flat foyer).Indexed hash ↔ node.Recorded hash := by
  obtain ⟨slate, has⟩ := Option.isSome_iff_exists.mp slate
  rw [recorded_iff has, Option.isSome_iff_exists]
  simp only [Indexed, restart, has, bootstrapFromSlatedb,
    InMemoryMetadataIndex.contains_bulkLoad, SlateDbMetadataIndex.mem_entries]
  simp

theorem Backed.restart (backed : Backed ns kept node) (flat : FlatFileKvBlobCache)
    (foyer : FoyerHybridCache) : Backed ns kept (node.restart flat foyer) :=
  ⟨backed.through, backed.slate,
    fun hash found => backed.recorded hash ((restart_indexed backed.slate flat foyer hash).mp found),
    backed.recorded, backed.kept⟩

theorem Backed.step {run next : DurableRun} {taken : DurableStep}
    (backed : Backed ns run.kept run.node) (allowed : LowerCaseIn ns run taken)
    (made : run.step taken = some next) : Backed ns next.kept next.node := by
  cases taken with
  | restart flat foyer =>
    cases made
    exact backed.restart flat foyer
  | call taken =>
    simp only [DurableRun.step] at made
    split at made
    · cases made
    · have begun := backed.under taken.around
      generalize ready : run.node.under taken.around = started at begun
      have index : started.metadataIndex = run.node.metadataIndex := by rw [← ready]; rfl
      rcases ran : serve taken.call taken.around started with ⟨answer, after⟩
      cases made
      simp only [DurableRun.afterCall, ready, ran]
      simp only [LowerCaseIn] at allowed
      simp only [DurableRun.keptAfter]
      cases kind : taken.call with
      | lookup other hexes =>
        rw [kind, serve_lookup] at ran
        cases ran
        exact begun
      | get other hexes =>
        rw [kind] at ran
        obtain ⟨result, dispatched, -⟩ := answering_ran ran
        have fetched := @dispatchGet_undisturbed started other hexes taken.around.schedule _ _
          started.store.tiersMeet_any fun _ _ _ => id
        simp only [Ensures, dispatched] at fetched
        exact begun.moreObjects fetched.1 fetched.2.setup fun _ => fetched.2.objects ▸ id
      | put other hexes payloads =>
        rw [kind] at allowed ran
        obtain ⟨rfl, lower⟩ := allowed
        obtain ⟨result, dispatched, rfl⟩ := answering_ran ran
        have stored := dispatchPut_backed begun lower payloads taken.around.schedule
        simp only [Ensures, dispatched] at stored
        cases result with
        | ok total => exact stored.2 total rfl
        | error halt => exact stored.1
      | evict config target =>
        rw [kind] at allowed ran
        have cycled : (serve (.evict config target) taken.around).Ensures (fun _ after =>
            Backed ns (run.kept.filter fun hash =>
              !(started.metadataIndex.entries.contains hash &&
                !after.metadataIndex.entries.contains hash)) after) started := by
          simp only [serve, ensures_bind]
          refine (runCycle_backed begun allowed target taken.around.unlinked).weaken ?_
          intro result last backed
          cases result <;> exact backed
        simp only [Ensures, ran, index] at cycled
        exact cycled
      | kv call =>
        rw [kind] at allowed
        exact allowed.elim

theorem backed_of_reachable (empty : node.Unindexed) {run : DurableRun}
    (reached : (durableSystem node).Reachable (LowerCaseIn ns) run) : Backed ns run.kept run.node :=
  @System.Reachable.invariant _ _ _ _ (fun run => Backed ns run.kept run.node) (empty.backed ns)
    (fun _ _ _ backed allowed made => backed.step allowed made) _ reached

/-- A daemon that was started again reports only blocks it has, and every block it owes. -/
theorem restart_reports_backed {node : BlockNode} (empty : node.Unindexed) {run : DurableRun}
    (reached : (durableSystem node).Reachable (LowerCaseIn ns) run)
    (flat : FlatFileKvBlobCache) (foyer : FoyerHybridCache) (around : Circumstances) :
    let restarted := (run.node.restart flat foyer).under around
    (∀ otherNs hexes count, (serve (.lookup otherNs hexes) around restarted).1 =
        .ok (.matched count) →
      ∀ hex ∈ hexes.take count.toNat, ∃ hash, parseBlockHashHex hex = .ok hash ∧
        restarted.HasObject ns hash) ∧
    ∀ hash ∈ run.kept, ∀ hex, parseBlockHashHex hex = .ok hash →
      (serve (.lookup ns [hex]) around restarted).1 = .ok (.matched 1) := by
  intro restarted
  have backed : Backed ns run.kept restarted :=
    ((backed_of_reachable empty reached).restart flat foyer).under around
  have indexed (hash : BlockHash) : restarted.Indexed hash ↔ run.node.Recorded hash :=
    restart_indexed (backed_of_reachable empty reached).slate flat foyer hash
  refine ⟨?_, ?_⟩
  · intro otherNs hexes count answered hex reported
    rw [serve_lookup] at answered
    obtain ⟨hashes, -, leading⟩ := reported_texts answered
    rw [leading] at reported
    have judged := List.all_eq_true.mp (List.all_takeWhile ..) hex reported
    obtain ⟨hash, read, known⟩ := Option.any_eq_true _ _ |>.mp judged
    exact ⟨hash, parseBlockHashHex_toOption.mp read, backed.indexed hash known⟩
  · intro hash owed hex read
    have found : restarted.metadataIndex.entries.contains hash = true :=
      (indexed hash).mpr ((backed_of_reachable empty reached).kept hash owed)
    have parsed : parseBlockHashList [hex] = .ok [hash] :=
      parseBlockHashList_eq_ok.mpr (.cons read .nil)
    rw [serve_lookup]
    simp only [expectedAnswer, parsed, List.takeWhile_cons, found, if_true, List.takeWhile_nil]
    rfl

theorem called_reached {run : DurableRun}
    (reached : (durableSystem node).Reachable (LowerCaseIn ns) run) (up : run.down = false)
    (taken : DaemonStep) (allowed : LowerCaseIn ns run (.call taken)) :
    (durableSystem node).Reachable (LowerCaseIn ns) (run.afterCall taken) := by
  refine .step reached allowed ?_
  show (if run.down then none else some (run.afterCall taken)) = _
  rw [up]
  rfl

def dyingRun : DurableRun :=
  let first := (durableSystem durableNode).start.afterCall
    (quietly (.put "a".toList [uniformHex 'a'] [[1]]))
  first.afterCall (dyingAfter 2 (.put "a".toList [uniformHex 'b'] [[2]]))

theorem restart_reports_backed_dyingRun :
    dyingRun.down = true ∧ dyingRun.kept = [Vector.replicate 32 0xaa] ∧
      (serve (.lookup "a".toList [uniformHex 'a']) (quietly (.lookup [] [])).around
        ((dyingRun.node.restart ⟨∅⟩ ⟨∅⟩).under (quietly (.lookup [] [])).around)).1 =
          .ok (.matched 1) := by
  have empty : durableNode.Unindexed := ⟨rfl, ⟨_, rfl, rfl⟩, rfl⟩
  have lower (digit : Char) (small : digit.isUpper = false) :
      ∀ hex ∈ [uniformHex digit], ∀ char ∈ hex, char.isUpper = false := by
    intro hex member char inside
    rw [List.mem_singleton.mp member] at inside
    rw [List.eq_of_mem_replicate inside]
    exact small
  have first : (durableSystem durableNode).Reachable (LowerCaseIn "a".toList)
      ((durableSystem durableNode).start.afterCall
        (quietly (.put "a".toList [uniformHex 'a'] [[1]]))) :=
    called_reached .start rfl _ ⟨rfl, lower 'a' rfl⟩
  have reached : (durableSystem durableNode).Reachable (LowerCaseIn "a".toList) dyingRun :=
    called_reached first (by decide +kernel)
      (dyingAfter 2 (.put "a".toList [uniformHex 'b'] [[2]])) ⟨rfl, lower 'b' rfl⟩
  refine ⟨by decide +kernel, by decide +kernel, ?_⟩
  exact (restart_reports_backed empty reached ⟨∅⟩ ⟨∅⟩ _).2 (Vector.replicate 32 0xaa)
    (by decide +kernel) _ (by decide +kernel)

end WombatKV
