import WombatKV.Daemon.EvictionRace
import WombatKV.Proofs.Daemon.Blocks

/-! What a cycle takes out, made alone and step by step. -/

namespace WombatKV

open List

section

open Call

namespace WombatKVKvStore

theorem deleteObject_objects (store : WombatKVKvStore) (key : Text) :
    (onStore (ObjectStore.deleteObject key)).Ensures (fun _ after => SameSetup store after ∧
      ∀ name ∈ store.objectStore.objects, name ∈ after.objectStore.objects ∨ name = key)
      store := by
  simp only [onStore, ensures_on, ensures_mapError, ObjectStore.ensures_deleteObject]
  refine ⟨fun error _ => ⟨.of rfl, fun _ => .inl⟩, fun _ => ?_⟩
  refine ⟨.of rfl, fun name present => ?_⟩
  by_cases own : key = name
  · exact .inr own.symm
  · exact .inl (Std.ExtTreeMap.mem_erase.mpr ⟨by simpa using own, present⟩)

theorem deleteKv_objects (store : WombatKVKvStore) (ns key : Text) (removed : Bool) :
    (deleteKv ns key removed).Ensures (fun _ after => SameSetup store after ∧
      ∀ name ∈ store.objectStore.objects,
        name ∈ after.objectStore.objects ∨ name = store.objectKey ns key) store := by
  simp only [deleteKv, ensures_bind, ensures_get, andThen_ok, ensures_set]
  have unlinked : SameSetup store
      { store with flat := store.flat.remove (store.cacheKey ns key) removed } :=
    .of rfl
  refine (deleteObject_objects _ (store.objectKey ns key)).weaken fun _ after deleted => ?_
  exact ⟨unlinked.trans deleted.1, deleted.2⟩

end WombatKVKvStore

namespace BlockNode

variable {ε : Type} {node : BlockNode} {ns : Text} {hash : BlockHash}

def HasObject (node : BlockNode) (ns : Text) (hash : BlockHash) : Prop :=
  node.store.objectKey ns (blockKeyForHash hash) ∈ node.store.objectStore.objects

theorem objectKey_blockKeyForHash_inj {store : WombatKVKvStore} {other : BlockHash}
    (same : store.objectKey ns (blockKeyForHash hash) =
      store.objectKey ns (blockKeyForHash other)) : hash = other := by
  have digits : hexLower hash.toList = hexLower other.toList := by
    unfold WombatKVKvStore.objectKey blockKeyForHash at same
    split at same
    · simpa using same
    · simpa using same
  have read := congrArg (fun text => decodeHex32 (utf8 text)) digits
  simp only [decodeHex32_hexLower] at read
  exact Option.some.inj read

structure Unrecords (hash : BlockHash) (before after : BlockNode) : Prop where
  store : after.store = before.store
  metadataIndex : after.metadataIndex = before.metadataIndex
  slate : after.slatedbIndex.isSome = before.slatedbIndex.isSome
  lives : before.stepsLeft = none → after.stepsLeft = none
  recorded : ∀ other, after.Recorded other → before.Recorded other
  stillRecorded : ∀ other, before.Recorded other → after.Recorded other ∨ other = hash

theorem ensures_removeSlate {post : Except (Halt ε) PUnit → BlockNode → Prop}
    (dies : ∀ after, Unrecords hash node after → node.stepsLeft ≠ none →
      post (.error .crashed) after)
    (goes : ∀ after, Unrecords hash node after → ¬after.Recorded hash → post (.ok ()) after) :
    (removeSlate hash).Ensures post node := by
  simp only [removeSlate, ensures_bind, ensures_get, andThen_ok]
  cases has : node.slatedbIndex with
  | none =>
    refine goes node ⟨rfl, rfl, rfl, id, fun _ => id, fun _ => .inl⟩ ?_
    simp [Recorded, has]
  | some slate =>
    have unrecords (made : List DbWrite) (left : Option Nat)
        (part : made <+: (slate.remove hash).getD [])
        (lives : node.stepsLeft = none → left = none) :
        Unrecords hash node (node.written made left) := by
      have now : (node.written made left).slatedbIndex =
          some (made.foldl SlateDbMetadataIndex.write slate) := by
        rw [written, has, Option.map_some]
      refine ⟨rfl, rfl, by rw [now, has]; rfl, lives, ?_, ?_⟩
      · intro other found
        rw [recorded_iff now, SlateDbMetadataIndex.readMeta_remove part] at found
        split at found
        · cases found
        · exact (recorded_iff has).mpr found
      · intro other found
        rw [recorded_iff now, SlateDbMetadataIndex.readMeta_remove part]
        split
        · rename_i own
          exact .inr own.2.symm
        · exact .inl ((recorded_iff has).mp found)
    refine ensures_writeSlate ?_ ?_
    · intro made left part counted
      exact dies _ (unrecords made left part (absurd · counted)) counted
    · intro left lives
      refine goes _ (unrecords _ left (prefix_refl _) lives) ?_
      have now : (node.written ((slate.remove hash).getD []) left).slatedbIndex =
          some (((slate.remove hash).getD []).foldl SlateDbMetadataIndex.write slate) := by
        rw [written, has, Option.map_some]
      rw [recorded_iff now, SlateDbMetadataIndex.readMeta_removed]
      simp

structure Evicted (ns : Text) (gone : List BlockHash) (before after : BlockNode) : Prop where
  setup : before.store.SameSetup after.store
  slate : after.slatedbIndex.isSome = before.slatedbIndex.isSome
  lives : before.stepsLeft = none → after.stepsLeft = none
  index : ∀ hash, after.metadataIndex.entries[hash]? =
    if hash ∈ gone then none else before.metadataIndex.entries[hash]?
  recorded : ∀ hash, after.Recorded hash → before.Recorded hash
  stillRecorded : ∀ hash, before.Recorded hash → after.Recorded hash ∨ hash ∈ gone
  objects : ∀ name ∈ before.store.objectStore.objects, name ∈ after.store.objectStore.objects ∨
    ∃ hash ∈ gone, ¬after.Recorded hash ∧
      name = before.store.objectKey ns (blockKeyForHash hash)

theorem Evicted.refl (ns : Text) (node : BlockNode) : Evicted ns [] node node where
  setup := .refl _
  slate := rfl
  lives := id
  index := by simp
  recorded _ := id
  stillRecorded _ := .inl
  objects _ := .inl

theorem Evicted.trans {gone more : List BlockHash} {before between after : BlockNode}
    (first : Evicted ns gone before between) (second : Evicted ns more between after) :
    Evicted ns (gone ++ more) before after where
  setup := first.setup.trans second.setup
  slate := second.slate.trans first.slate
  lives := fun unlimited => second.lives (first.lives unlimited)
  index hash := by
    rw [second.index, first.index]
    by_cases later : hash ∈ more <;> simp [later]
  recorded hash found := first.recorded hash (second.recorded hash found)
  stillRecorded hash found := by
    rcases first.stillRecorded hash found with still | lost
    · exact (second.stillRecorded hash still).imp_right (mem_append_right _)
    · exact .inr (mem_append_left _ lost)
  objects name present := by
    rcases first.objects name present with still | ⟨hash, lost, unrecorded, same⟩
    · rcases second.objects name still with kept | ⟨hash, lost, unrecorded, same⟩
      · exact .inl kept
      · rw [first.setup.objectKey] at same
        exact .inr ⟨hash, mem_append_right _ lost, unrecorded, same⟩
    · exact .inr ⟨hash, mem_append_left _ lost,
        fun found => unrecorded (second.recorded hash found), same⟩

theorem evicted_of_unrecords {metadataIndex : InMemoryMetadataIndex} {left : Option Nat}
    {after : BlockNode} (erased : metadataIndex = ⟨node.metadataIndex.entries.erase hash⟩)
    (lives : node.stepsLeft = none → left = none)
    (unrecords : Unrecords hash { node with metadataIndex, stepsLeft := left } after) :
    Evicted ns [hash] node after where
  setup := by
    rw [unrecords.store]
    exact .refl _
  slate := unrecords.slate
  lives := fun unlimited => unrecords.lives (lives unlimited)
  index other := by
    rw [unrecords.metadataIndex, erased, Std.ExtTreeMap.getElem?_erase]
    by_cases own : hash = other
    · simp [own]
    · simp [own, Ne.symm own]
  recorded := unrecords.recorded
  stillRecorded other found :=
    (unrecords.stillRecorded other found).imp_right mem_singleton.mpr
  objects name present := by
    rw [unrecords.store]
    exact .inl present

def Evicting {α : Type} (ns : Text) (hashes : List BlockHash) (before : BlockNode) :
    Except (Halt ε) α → BlockNode → Prop
  | .ok _, after => ∃ gone, gone <+: hashes ∧ Evicted ns gone before after
  | .error (.failed _), _ => False
  | .error .crashed, after => before.stepsLeft ≠ none ∧
      ∃ gone, gone <+: hashes ∧ Evicted ns gone before after

theorem deleteBlock_evicting {block : BlockMeta} {unlinked : Bool} {outcome : EvictionCycleOutcome}
    {before : BlockNode} (gone : Evicted ns [hash] before node) (unrecorded : ¬node.Recorded hash)
    {post : Except (Halt ε) EvictionCycleOutcome → BlockNode → Prop}
    (dies : ∀ after, Evicted ns [hash] before after → node.stepsLeft ≠ none →
      post (.error .crashed) after)
    (goes : ∀ found after, Evicted ns [hash] before after → post (.ok found) after) :
    (deleteBlock ns hash block unlinked outcome).Ensures post node := by
  simp only [deleteBlock, ensures_bind, ensures_attempt]
  refine ensures_onStore (fun counted => dies node gone counted) fun left lives => ?_
  refine (WombatKVKvStore.deleteKv_objects node.store ns (blockKeyForHash hash) unlinked).weaken
    fun result store deleted => ?_
  have goneOn : Evicted ns [hash] before { node with store, stepsLeft := left } := by
    refine { gone with
      setup := gone.setup.trans deleted.1
      lives := fun unlimited => lives (gone.lives unlimited)
      objects := fun name present => ?_ }
    rcases gone.objects name present with still | lost
    · rcases deleted.2 name still with kept | own
      · exact .inl kept
      · rw [gone.setup.objectKey] at own
        exact .inr ⟨hash, mem_singleton_self _, unrecorded, own⟩
    · exact .inr lost
  cases result with
  | ok found => exact goes _ _ goneOn
  | error error => exact goes _ _ goneOn

theorem evictEntries_evicting {needToFree : UInt64} {unlinked : BlockHash → Bool}
    {entries : List (BlockHash × BlockMeta)} (distinct : (entries.map Prod.fst).Nodup)
    (current : ∀ entry ∈ entries, node.metadataIndex.entries[entry.1]? = some entry.2)
    (outcome : EvictionCycleOutcome) :
    (evictEntries ns needToFree unlinked entries outcome :
      Call (Halt ε) BlockNode EvictionCycleOutcome).Ensures
      (Evicting ns (entries.map Prod.fst) node) node := by
  induction entries generalizing node outcome with
  | nil => exact ⟨[], prefix_refl _, .refl ns node⟩
  | cons entry rest ih =>
    obtain ⟨hash, block⟩ := entry
    have untouched : ∃ gone, gone <+: hash :: rest.map Prod.fst ∧ Evicted ns gone node node :=
      ⟨[], nil_prefix, .refl ns node⟩
    rw [evictEntries]
    split
    · exact untouched
    · rw [ensures_bind]
      refine ensures_tick (fun counted => ⟨counted, untouched⟩) fun left lives => ?_
      have present : node.metadataIndex.entries[hash]? = some block :=
        current (hash, block) (mem_cons_self ..)
      have removed : node.metadataIndex.removeIfUnchanged hash block.lastAccessNs =
          (true, ⟨node.metadataIndex.entries.erase hash⟩) := by
        simp [InMemoryMetadataIndex.removeIfUnchanged, present]
      simp only [andThen_ok, ensures_bind, ensures_get, removed, ensures_set]
      have first : [hash] <+: hash :: rest.map Prod.fst := by simp
      refine ensures_removeSlate ?_ ?_
      · intro after unrecords counted
        exact ⟨fun unlimited => counted (lives unlimited), [hash], first,
          evicted_of_unrecords rfl lives unrecords⟩
      · intro between unrecords unrecorded
        have gone : Evicted ns [hash] node between := evicted_of_unrecords rfl lives unrecords
        simp only [andThen_ok, ensures_bind]
        refine deleteBlock_evicting gone unrecorded ?_ ?_
        · intro after goneOn counted
          exact ⟨fun unlimited => counted (gone.lives unlimited), [hash], first, goneOn⟩
        · intro found after goneOn
          rw [map_cons, nodup_cons] at distinct
          have later : ∀ entry ∈ rest, after.metadataIndex.entries[entry.1]? = some entry.2 := by
            intro entry member
            have other : entry.1 ≠ hash := by
              intro own
              exact distinct.1 (mem_map.mpr ⟨entry, member, own⟩)
            rw [goneOn.index, if_neg (by simpa using other)]
            exact current entry (mem_cons_of_mem _ member)
          rw [andThen_ok]
          refine (ih distinct.2 later found).weaken fun result last ended => ?_
          cases result with
          | ok outcome =>
            obtain ⟨more, part, evicted⟩ := ended
            exact ⟨hash :: more, prefix_cons_inj hash |>.mpr part, goneOn.trans evicted⟩
          | error halt =>
            cases halt with
            | failed error => exact ended.elim
            | crashed =>
              obtain ⟨counted, more, part, evicted⟩ := ended
              exact ⟨fun unlimited => counted (goneOn.lives unlimited), hash :: more,
                prefix_cons_inj hash |>.mpr part, goneOn.trans evicted⟩

def evictionOrder (node : BlockNode) : List (BlockHash × BlockMeta) :=
  sortBy (compareOn fun entry => entry.2.lastAccessNs) node.metadataIndex.entries.toList

theorem runCycle_evicting (config : LruConfig) (target : UInt64) (unlinked : BlockHash → Bool) :
    (runCycle config target unlinked : Call (Halt ε) BlockNode EvictionCycleOutcome).Ensures
      (Evicting config.ns (node.evictionOrder.map Prod.fst) node) node := by
  simp only [runCycle, ensures_bind, ensures_get, andThen_ok]
  split
  · exact ⟨[], nil_prefix, .refl _ node⟩
  · refine evictEntries_evicting ?_ ?_ _
    · have sorted := (sortBy_perm (compareOn fun entry : BlockHash × BlockMeta =>
        entry.2.lastAccessNs) node.metadataIndex.entries.toList).map Prod.fst
      rw [sorted.nodup_iff, Std.ExtTreeMap.map_fst_toList_eq_keys]
      exact Std.ExtTreeMap.nodup_keys
    · intro entry member
      exact Std.ExtTreeMap.mem_toList_iff_getElem?_eq_some.mp ((mem_sortBy _).mp member)

end BlockNode

end

open Call BlockNode

section Alone

variable {ε : Type} {node : BlockNode} {config : LruConfig} {target : UInt64} {unlinked : Bool}

variable (lives : node.stepsLeft = none)

include lives

theorem tick_alone : (tick : Call (Halt ε) BlockNode PUnit) node = (.ok (), node) := by
  simp only [tick, lives]

omit lives in
theorem nowNs_alone : (nowNs : Call (Halt ε) BlockNode UInt64) node =
    (.ok (node.clock 0), (BatchPhase.readClock node).2) := rfl

theorem written_nil : node.written [] none = node := by
  cases node
  cases lives
  simp [written]

omit lives in
theorem written_cons (write : DbWrite) (rest : List DbWrite) :
    BlockNode.written { node with slatedbIndex := node.slatedbIndex.map (·.write write) } rest none =
      node.written (write :: rest) none := by
  simp [written, Function.comp_def]

theorem writeSlate_alone (writes : List DbWrite) :
    (writeSlate writes : Call (Halt ε) BlockNode PUnit) node =
      (.ok (), node.written writes none) := by
  induction writes generalizing node with
  | nil =>
    rw [written_nil lives]
    rfl
  | cons write rest ih =>
    rw [writeSlate, bind_ok (tick_alone lives), modify_bind_apply, ← written_cons]
    exact ih lives

theorem removeSlate_alone (hash : BlockHash) :
    (removeSlate hash : Call (Halt ε) BlockNode PUnit) node =
      (.ok (), node.withEvictor (node.evictor.removeSlate hash)) := by
  obtain ⟨store, metadataIndex, slatedbIndex, clock, stepsLeft⟩ := node
  cases lives
  cases slatedbIndex with
  | none => rfl
  | some slate => exact writeSlate_alone rfl _

theorem deleteBlock_alone (ns : Text) (hash : BlockHash) (block : BlockMeta)
    (outcome : EvictionCycleOutcome) :
    let made := Evictor.deleteBlock (kvStoreEvictionDeleter unlinked) ns hash block outcome
      node.evictor
    (deleteBlock ns hash block unlinked outcome : Call (Halt ε) BlockNode _) node =
      (.ok made.1, node.withEvictor made.2) := by
  rcases ran : WombatKVKvStore.deleteKv ns (blockKeyForHash hash) unlinked node.store with
    ⟨result, store⟩
  have deleted : BlockNode.onStore (WombatKVKvStore.deleteKv ns (blockKeyForHash hash) unlinked)
      node = (result.mapError Halt.failed, { node with store }) := by
    rw [BlockNode.onStore, bind_ok (tick_alone lives)]
    simp only [Call.on, Call.mapError, ran]
    cases result <;> rfl
  have attempted : (attempt (BlockNode.onStore (WombatKVKvStore.deleteKv ns (blockKeyForHash hash)
      unlinked)) : Call (Halt ε) BlockNode _) node = (.ok result, { node with store }) := by
    simp only [attempt, deleted]
    cases result <;> rfl
  rw [deleteBlock, bind_ok attempted]
  simp only [Evictor.deleteBlock, kvStoreEvictionDeleter, BlockNode.evictor, ran]
  cases result <;> rfl

theorem evictEntries_alone (ns : Text) (needToFree : UInt64)
    (rest : List (BlockHash × BlockMeta)) (outcome : EvictionCycleOutcome) :
    let made := Evictor.evictEntries (kvStoreEvictionDeleter unlinked) ns needToFree rest outcome
      node.evictor
    (evictEntries ns needToFree (fun _ => unlinked) rest outcome : Call (Halt ε) BlockNode _) node =
      (.ok made.1, node.withEvictor made.2) := by
  induction rest generalizing node outcome with
  | nil => rfl
  | cons entry rest ih =>
    obtain ⟨hash, block⟩ := entry
    rw [evictEntries, Evictor.evictEntries]
    by_cases enough : needToFree ≤ outcome.bytesFreed
    · rw [if_pos enough, if_pos enough]
      rfl
    · rw [if_neg enough, if_neg enough, bind_ok (tick_alone lives), get_bind_apply]
      have same : node.evictor.index = node.metadataIndex := rfl
      rw [same]
      rcases removed : node.metadataIndex.removeIfUnchanged hash block.lastAccessNs with
        ⟨_ | _, metadataIndex⟩
      · exact ih lives _
      · -- What the node does to its parts between two steps is what the evictor does to its own.
        let taken : BlockNode := { node with metadataIndex }
        have unrecorded := @removeSlate_alone ε taken lives hash
        have deleted := @deleteBlock_alone ε (taken.withEvictor (taken.evictor.removeSlate hash))
          unlinked lives ns hash block outcome
        simp only
        rw [set_bind_apply, bind_ok unrecorded, bind_ok deleted]
        exact ih (by exact lives) _

/-- An uninterrupted cycle of a process is a cycle that has the store as its deleter. -/
theorem runCycle_eq_evictor :
    (runCycle config target (fun _ => unlinked) : Call (Halt ε) BlockNode _) node =
      (.ok (Evictor.runCycle (kvStoreEvictionDeleter unlinked) config target node.evictor).1,
        node.withEvictor
          (Evictor.runCycle (kvStoreEvictionDeleter unlinked) config target node.evictor).2) := by
  rw [runCycle, get_bind_apply, Evictor.runCycle]
  have same : node.evictor.index = node.metadataIndex := rfl
  simp only [same]
  split
  · rfl
  · exact evictEntries_alone lives _ _ _ _

abbrev BatchLeads : BatchPhase × BlockNode → BatchPhase × BlockNode → Prop :=
  Relation.ReflTransGen fun before after => before.1.step before.2 = some after

theorem flushing_leads (writes : List DbWrite) (rest : List (BlockHash × Bytes)) (total : UInt64) :
    BatchLeads (.flushing writes rest total, node)
      (.indexing rest total, node.written writes none) := by
  induction writes generalizing node with
  | nil =>
    rw [written_nil lives]
    exact .single rfl
  | cons write writes ih =>
    rw [← written_cons]
    exact .head rfl (ih lives)

theorem insertSlate_alone (hash : BlockHash) (block : BlockMeta)
    (rest : List (BlockHash × Bytes)) (total : UInt64) :
    ∃ after, (insertSlate hash block : Call (Halt ε) BlockNode PUnit) node = (.ok (), after) ∧
      after.stepsLeft = none ∧
      BatchLeads (.recording hash block rest total, node) (.indexing rest total, after) := by
  rw [insertSlate, get_bind_apply]
  cases has : node.slatedbIndex with
  | none =>
    refine ⟨node, rfl, lives, .single ?_⟩
    simp only [BatchPhase.step, has]
  | some slate =>
    let read := (BatchPhase.readClock node).2
    have written := @writeSlate_alone ε read lives (slate.insert hash block (node.clock 0))
    have leads := @flushing_leads read lives (slate.insert hash block (node.clock 0)) rest total
    refine ⟨_, written, rfl, .head ?_ leads⟩
    simp only [BatchPhase.step, has]
    rfl

theorem indexBlocks_alone (items : List (BlockHash × Bytes)) (total : UInt64) :
    ∃ final after, indexBlocks items total node = (.ok final, after) ∧
      BatchLeads (.indexing items total, node) (.over (.ok final), after) := by
  induction items generalizing node total with
  | nil => exact ⟨total, node, rfl, .single rfl⟩
  | cons item rest ih =>
    obtain ⟨hash, payload⟩ := item
    let size := UInt64.ofNat payload.length
    let block := BlockMeta.newRoot size (Vector.replicate 24 0) (Vector.replicate 16 0) (node.clock 0)
    let entered : BlockNode := { node with
      clock := fun reading => node.clock (reading + 1 + 1)
      metadataIndex := node.metadataIndex.insert hash block (node.clock 1) }
    have indexed : (insertIndex hash block : Call (Halt BlockError) BlockNode PUnit)
        (BatchPhase.readClock node).2 = (.ok (), entered) := by
      have alive : (BatchPhase.readClock (BatchPhase.readClock node).2).2.stepsLeft = none := lives
      rw [insertIndex, bind_ok nowNs_alone, bind_ok (tick_alone alive)]
      rfl
    obtain ⟨between, recorded, alive, leads⟩ :=
      @insertSlate_alone BlockError entered lives hash block rest (saturatingAdd total size)
    obtain ⟨final, after, ran, later⟩ := ih alive (saturatingAdd total size)
    refine ⟨final, after, ?_, .head rfl (leads.trans later)⟩
    rw [indexBlocks, bind_ok nowNs_alone, bind_ok indexed, bind_ok recorded]
    exact ran

end Alone

def oneBlockNode : BlockNode :=
  (DaemonRun.of (blockNode plainStore)
    [quietly (.put "a".toList [uniformHex 'a'] [[1, 2]])]).node

theorem runCycle_eq_evictor_full :
    ((runCycle ⟨1, "a".toList⟩ 0 fun _ => true : Call (Halt Unit) BlockNode _)
      oneBlockNode).1.toOption.map (·.blocksFreed) = some 1 := by
  rw [runCycle_eq_evictor rfl]
  decide +kernel

end WombatKV
