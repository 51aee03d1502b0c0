import WombatKV.Daemon.Runs
import WombatKV.Proofs.Node.BlockNode
import WombatKV.Proofs.Node.KvStore
import WombatKV.Proofs.Radix.MetadataIndex

/-! What block requests do to the store and to the indexes. -/

namespace WombatKV

open Call List

structure WombatKVKvStore.PutInto (before : WombatKVKvStore) (ns key : Text) (payload : Bytes)
    (result : Except EmbedError Unit) (after : WombatKVKvStore) : Prop where
  setup : before.SameSetup after
  healthy : before.objectStore.Healthy → after.objectStore.Healthy
  kept : ∀ name ∈ before.objectStore.objects, name ∈ after.objectStore.objects
  stored : before.writeThroughS3 = true ∨ before.objectStore.Healthy → result = .ok () →
    before.objectKey ns key ∈ after.objectStore.objects
  succeeds : before.objectStore.Healthy → (result = .ok () ↔ before.encodes payload = true)

theorem WombatKVKvStore.encodes_iff {store : WombatKVKvStore} {payload : Bytes} :
    store.encodes payload = true ↔
      ∃ stored, encodeWithHeader store.zstd payload store.compression = .ok stored := by
  unfold WombatKVKvStore.encodes
  cases encodeWithHeader store.zstd payload store.compression with
  | ok stored => simp [Except.isOk, Except.toBool]
  | error error => simp [Except.isOk, Except.toBool]

theorem putKv_putInto (store : WombatKVKvStore) (ns key : Text) (payload : Bytes) (written : Bool) :
    (WombatKVKvStore.putKv ns key payload written).Ensures (store.PutInto ns key payload) store := by
  apply WombatKVKvStore.ensures_putKv
  · -- The encoder refuses, and no request is made.
    intro error unencoded
    refine ⟨.of rfl, id, fun _ => id, fun _ impossible => (nomatch impossible), ?_⟩
    intro _
    refine ⟨fun impossible => (nomatch impossible), fun encodes => ?_⟩
    obtain ⟨stored, encoded⟩ := WombatKVKvStore.encodes_iff.mp encodes
    rw [encodeForStorage_eq_ok.mpr encoded] at unencoded
    cases unencoded
  · -- The request fails, which a healthy store's does not.
    intro stored error encoded fault
    have unhealthy : ¬ store.objectStore.Healthy := by
      intro healthy
      rw [healthy] at fault
      cases fault
    refine ⟨.of rfl, (absurd · unhealthy), fun _ => id, ?_, (absurd · unhealthy)⟩
    intro through answered
    rw [if_pos (through.resolve_right unhealthy)] at answered
    cases answered
  · intro stored encoded clear
    refine ⟨.of rfl, ?_, fun name present => ?_, fun _ _ => ?_, fun _ => ?_⟩
    · intro healthy
      rw [healthy.advance]
      exact healthy
    · exact ObjectStore.mem_putInto.mpr (.inr present)
    · exact ObjectStore.mem_putInto.mpr (.inl rfl)
    · exact ⟨fun _ => WombatKVKvStore.encodes_iff.mpr ⟨stored, encoded⟩, fun _ => rfl⟩

namespace BlockNode

variable {ε α : Type} {node : BlockNode} {after before : BlockNode} {hashes : List BlockHash}
  {call : Call (Halt ε) BlockNode α}

def Indexed (node : BlockNode) (hash : BlockHash) : Prop :=
  node.metadataIndex.entries.contains hash = true

def Recorded (node : BlockNode) (hash : BlockHash) : Prop :=
  ∃ slate ∈ node.slatedbIndex, (slate.readMeta hash).isSome = true

def answered (answer : α → DaemonAnswer) :
    Except (Halt BlockError) α → Except (Halt DaemonError) DaemonAnswer
  | .ok result => .ok (answer result)
  | .error halt => .error (halt.map .blocks)

theorem answering_ran {answer : α → DaemonAnswer} {call : Call (Halt BlockError) BlockNode α}
    {found : Except (Halt DaemonError) DaemonAnswer}
    (ran : answering answer call node = (found, after)) :
    ∃ result, call node = (result, after) ∧ found = answered answer result := by
  rcases run : call node with ⟨_ | _, last⟩
  · rename_i halt
    have stopped : Call.mapError (Halt.map DaemonError.blocks) call node =
        (.error (halt.map .blocks), last) := by simp only [Call.mapError, run]
    rw [answering, Call.bind_error stopped] at ran
    cases ran
    exact ⟨_, rfl, rfl⟩
  · rename_i result
    have answers : Call.mapError (Halt.map DaemonError.blocks) call node = (.ok result, last) := by
      simp only [Call.mapError, run]
    rw [answering, Call.bind_ok answers] at ran
    cases ran
    exact ⟨_, rfl, rfl⟩

theorem ensures_answering {answer : α → DaemonAnswer} {call : Call (Halt BlockError) BlockNode α}
    {post : Except (Halt DaemonError) DaemonAnswer → BlockNode → Prop} :
    (answering answer call).Ensures post node ↔
      call.Ensures (fun result after => post (answered answer result) after) node := by
  simp only [answering, ensures_bind, ensures_mapError]
  unfold Ensures
  rcases call node with ⟨_ | _, after⟩ <;> rfl

structure Enters (hashes : List BlockHash) (before after : BlockNode) : Prop where
  store : after.store = before.store
  slate : after.slatedbIndex.isSome = before.slatedbIndex.isSome
  lives : before.stepsLeft = none → after.stepsLeft = none
  indexed : ∀ hash, after.Indexed hash → before.Indexed hash ∨ hash ∈ hashes
  stillIndexed : ∀ hash, before.Indexed hash → after.Indexed hash
  recorded : ∀ hash, after.Recorded hash → before.Recorded hash ∨ hash ∈ hashes
  stillRecorded : ∀ hash, before.Recorded hash → after.Recorded hash

theorem Enters.refl (hashes : List BlockHash) (node : BlockNode) : Enters hashes node node :=
  ⟨rfl, rfl, id, fun _ => .inl, fun _ => id, fun _ => .inl, fun _ => id⟩

theorem Enters.clock (hashes : List BlockHash) (node : BlockNode) (clock : Nat → UInt64) :
    Enters hashes node { node with clock } :=
  ⟨rfl, rfl, id, fun _ => .inl, fun _ => id, fun _ => .inl, fun _ => id⟩

theorem Enters.trans {between : BlockNode} (first : Enters hashes before between)
    (second : Enters hashes between after) :
    Enters hashes before after where
  store := second.store.trans first.store
  slate := second.slate.trans first.slate
  lives := fun unlimited => second.lives (first.lives unlimited)
  indexed := fun hash found => (second.indexed hash found).elim (first.indexed hash) .inr
  stillIndexed := fun hash found => second.stillIndexed hash (first.stillIndexed hash found)
  recorded := fun hash found => (second.recorded hash found).elim (first.recorded hash) .inr
  stillRecorded := fun hash found => second.stillRecorded hash (first.stillRecorded hash found)

theorem Enters.widen {few many : List BlockHash} (enters : Enters few before after)
    (among : ∀ hash ∈ few, hash ∈ many) : Enters many before after :=
  { enters with
    indexed := fun hash found => (enters.indexed hash found).imp_right (among hash)
    recorded := fun hash found => (enters.recorded hash found).imp_right (among hash) }

def Entering (hashes : List BlockHash) (done : BlockNode → Prop) (before : BlockNode) :
    Except (Halt ε) α → BlockNode → Prop
  | .ok _, after => Enters hashes before after ∧ done after
  | .error (.failed _), _ => False
  | .error .crashed, after => Enters hashes before after ∧ before.stepsLeft ≠ none

theorem Entering.later {done : BlockNode → Prop} {between : BlockNode}
    (begun : Enters hashes before between)
    (ran : call.Ensures (Entering hashes done between) between) :
    call.Ensures (Entering hashes done before) between := by
  refine ran.weaken fun result after ended => ?_
  match result with
  | .ok _ => exact ⟨begun.trans ended.1, ended.2⟩
  | .error (.failed _) => exact ended.elim
  | .error .crashed =>
    exact ⟨begun.trans ended.1, fun unlimited => ended.2 (begun.lives unlimited)⟩

theorem Entering.widen {few many : List BlockHash} {some all : BlockNode → Prop}
    (ran : call.Ensures (Entering few some node) node) (among : ∀ hash ∈ few, hash ∈ many)
    (leads : ∀ after, Enters few node after → some after → all after) :
    call.Ensures (Entering many all node) node := by
  refine ran.weaken fun result after ended => ?_
  match result with
  | .ok _ => exact ⟨ended.1.widen among, leads after ended.1 ended.2⟩
  | .error (.failed _) => exact ended.elim
  | .error .crashed => exact ⟨ended.1.widen among, ended.2⟩

theorem Entering.bind {β : Type} {middle done : BlockNode → Prop}
    {next : α → Call (Halt ε) BlockNode β} (first : call.Ensures (Entering hashes middle node) node)
    (second : ∀ answer between, middle between → (next answer).Ensures (Entering hashes done
      between) between) : (call >>= next).Ensures (Entering hashes done node) node := by
  rw [ensures_bind]
  refine first.weaken fun result between ended => ?_
  match result with
  | .ok answer => exact Entering.later ended.1 (second answer between ended.2)
  | .error (.failed _) => exact ended.elim
  | .error .crashed => exact ended

theorem insertIndex_enters (hash : BlockHash) (block : BlockMeta) :
    (insertIndex hash block : Call (Halt ε) BlockNode PUnit).Ensures
      (Entering [hash] (·.Indexed hash) node) node := by
  simp only [insertIndex, ensures_bind, ensures_nowNs, andThen_ok]
  refine ensures_tick ?_ ?_
  · intro counted
    exact ⟨.clock _ node _, counted⟩
  · intro left lives
    simp only [andThen_ok, ensures_modify]
    refine ⟨⟨rfl, rfl, lives, ?_, ?_, fun _ => .inl, fun _ => id⟩, ?_⟩
    · intro other found
      rcases (InMemoryMetadataIndex.contains_insert ..).mp found with rfl | found
      · exact .inr (mem_singleton_self _)
      · exact .inl found
    · intro other found
      exact (InMemoryMetadataIndex.contains_insert ..).mpr (.inr found)
    · exact (InMemoryMetadataIndex.contains_insert ..).mpr (.inl rfl)

theorem recorded_iff {slate : SlateDbMetadataIndex} {hash : BlockHash}
    (has : node.slatedbIndex = some slate) :
    node.Recorded hash ↔ (slate.readMeta hash).isSome = true := by
  simp [Recorded, has]

theorem insertSlate_enters (hash : BlockHash) (block : BlockMeta) :
    (insertSlate hash block : Call (Halt ε) BlockNode PUnit).Ensures
      (Entering [hash] (fun after => after.slatedbIndex.isSome = true → after.Recorded hash) node)
      node := by
  simp only [insertSlate, ensures_bind, ensures_get, andThen_ok]
  cases has : node.slatedbIndex with
  | none => exact ⟨.refl _ node, by simp [has]⟩
  | some slate =>
    simp only [ensures_bind, ensures_nowNs, andThen_ok]
    generalize reading : { node with clock := fun reading => node.clock (reading + 1) } = ready
    have readyHas : ready.slatedbIndex = some slate := by rw [← reading, ← has]
    have entered (made : List DbWrite) (left : Option Nat)
        (part : made <+: slate.insert hash block (node.clock 0))
        (lives : node.stepsLeft = none → left = none) : Enters [hash] node (ready.written made left) := by
      have now : (ready.written made left).slatedbIndex =
          some (made.foldl SlateDbMetadataIndex.write slate) := by
        rw [written, readyHas, Option.map_some]
      refine ⟨by rw [← reading]; rfl, by rw [now, has]; rfl, lives, ?_, ?_, ?_, ?_⟩
      · intro other found
        exact .inl (by rw [← reading] at found; exact found)
      · intro other found
        rw [← reading]
        exact found
      · intro other found
        rw [recorded_iff now, SlateDbMetadataIndex.readMeta_insert part] at found
        split at found
        · rename_i same
          exact .inr (mem_singleton.mpr same.2.symm)
        · exact .inl ((recorded_iff has).mpr found)
      · intro other found
        rw [recorded_iff now, SlateDbMetadataIndex.readMeta_insert part]
        split
        · rfl
        · exact (recorded_iff has).mp found
    have counts : ready.stepsLeft = node.stepsLeft := by rw [← reading]
    refine ensures_writeSlate ?_ ?_
    · intro made left part counted
      rw [counts] at counted
      exact ⟨entered made left part (absurd · counted), counted⟩
    · intro left lives
      rw [counts] at lives
      refine ⟨entered _ left (prefix_refl _) lives, fun _ => ?_⟩
      have now : (ready.written (slate.insert hash block (node.clock 0)) left).slatedbIndex =
          some ((slate.insert hash block (node.clock 0)).foldl SlateDbMetadataIndex.write slate) := by
        rw [written, readyHas, Option.map_some]
      rw [recorded_iff now, SlateDbMetadataIndex.readMeta_insert (prefix_refl _),
        if_pos ⟨by simp [SlateDbMetadataIndex.insert, SlateDbMetadataIndex.putMeta], rfl⟩]
      rfl

def Entered (hashes : List BlockHash) (node : BlockNode) : Prop :=
  ∀ hash ∈ hashes, node.Indexed hash ∧ (node.slatedbIndex.isSome = true → node.Recorded hash)

theorem indexBlocks_enters (items : List (BlockHash × Bytes)) (total : UInt64) :
    (indexBlocks items total).Ensures
      (Entering (items.map Prod.fst) (Entered (items.map Prod.fst)) node) node := by
  induction items generalizing node total with
  | nil => exact ⟨.refl _ node, fun hash member => nomatch member⟩
  | cons item rest ih =>
    obtain ⟨hash, payload⟩ := item
    have own : ∀ other ∈ [hash], other ∈ hash :: rest.map Prod.fst := by simp
    rw [indexBlocks, ensures_bind, ensures_nowNs, andThen_ok]
    refine Entering.later (.clock _ node _) ?_
    refine Entering.bind (Entering.widen (insertIndex_enters hash _) own fun _ _ => id)
      fun _ between indexed => ?_
    refine Entering.bind (Entering.widen (insertSlate_enters hash _) own fun after enters recorded =>
      (⟨enters.stillIndexed hash indexed, recorded⟩ :
        after.Indexed hash ∧ (after.slatedbIndex.isSome = true → after.Recorded hash)))
      fun _ between mine => ?_
    refine Entering.widen (ih _) (fun other member => mem_cons_of_mem _ member) ?_
    intro after enters others other member
    rcases mem_cons.mp member with rfl | member
    · refine ⟨enters.stillIndexed _ mine.1, fun has => ?_⟩
      exact enters.stillRecorded _ (mine.2 (enters.slate ▸ has))
    · exact others other member

structure StoreOnly (before after : BlockNode) : Prop where
  metadataIndex : after.metadataIndex = before.metadataIndex
  slatedbIndex : after.slatedbIndex = before.slatedbIndex
  clock : after.clock = before.clock
  lives : before.stepsLeft = none → after.stepsLeft = none

theorem StoreOnly.refl (node : BlockNode) : StoreOnly node node := ⟨rfl, rfl, rfl, id⟩

theorem StoreOnly.onStore {now : BlockNode} (frame : StoreOnly before now) (store : WombatKVKvStore)
    {left : Option Nat} (lives : now.stepsLeft = none → left = none) :
    StoreOnly before { now with store, stepsLeft := left } :=
  ⟨frame.metadataIndex, frame.slatedbIndex, frame.clock,
    fun unlimited => lives (frame.lives unlimited)⟩

theorem storeBlock_settles {held : WombatKVKvStore → Prop} {dead : BlockNode → Prop}
    {settled : Nat → Except BlockError Unit → WombatKVKvStore → Prop} {number : Nat}
    {ns key : Text} {payload : Bytes} {fileOk : Bool}
    (dies : ∀ now, StoreOnly node now → held now.store → now.stepsLeft ≠ none → dead now)
    (puts : ∀ store, held store → (WombatKVKvStore.putKv ns key payload fileOk).Ensures
      (fun result after => held after ∧
        (∀ other found, settled other found store → settled other found after) ∧
        settled number (result.mapError (.putKv key)) after) store) :
    Settles (fun now => StoreOnly node now ∧ held now.store) dead
      (fun other found now => settled other found now.store) number
      (storeBlock ns key payload fileOk) := by
  intro now begun
  obtain ⟨frame, holds⟩ := begun
  rw [storeBlock, ensures_mapError]
  refine ensures_onStore (fun counted => dies now frame holds counted) fun left lives => ?_
  refine (puts now.store holds).weaken fun result after put => ?_
  obtain ⟨kept, carries, mine⟩ := put
  have frameOn := frame.onStore after lives
  cases result with
  | ok answer => exact ⟨⟨frameOn, kept⟩, carries, mine⟩
  | error error => exact ⟨⟨frameOn, kept⟩, carries, mine⟩

theorem storeThreads_getElem? {ns : Text} {hexes : List Text} {payloads : List Bytes}
    {schedule : Schedule} {number : Nat} {thread : Call (Halt BlockError) BlockNode Unit}
    (found : (storeThreads ns hexes payloads schedule)[number]? = some thread) :
    ∃ hex payload, hexes[number]? = some hex ∧ payloads[number]? = some payload ∧
      thread = storeBlock ns (blockKeyFromHex hex) payload (schedule.fileOk number) := by
  rw [storeThreads, List.getElem?_mapIdx, Option.map_eq_some_iff] at found
  obtain ⟨⟨key, payload⟩, pair, rfl⟩ := found
  obtain ⟨isKey, isPayload⟩ := List.getElem?_zip_eq_some.mp pair
  rw [List.getElem?_map, Option.map_eq_some_iff] at isKey
  obtain ⟨hex, isHex, rfl⟩ := isKey
  exact ⟨hex, payload, isHex, isPayload, rfl⟩

theorem firstError_cases (results : List (Except BlockError Unit)) :
    firstError results = .ok () ∧ (∀ result ∈ results, result = .ok ()) ∨
      ∃ (number : Nat) (error : BlockError), results[number]? = some (.error error) ∧
        firstError results = .error error := by
  induction results with
  | nil => exact .inl ⟨rfl, by simp⟩
  | cons result rest ih =>
    cases result with
    | error error => exact .inr ⟨0, error, rfl, rfl⟩
    | ok answer =>
      rcases ih with ⟨clean, every⟩ | ⟨number, error, found, first⟩
      · exact .inl ⟨clean, by simpa using every⟩
      · exact .inr ⟨number + 1, error, found, first⟩

section Batches

variable {ns : Text} {hexes : List Text} {payloads : List Bytes} {schedule : Schedule}

theorem ensures_dispatchPut {held dead : BlockNode → Prop}
    {settled : Nat → Except BlockError Unit → BlockNode → Prop}
    {post : Except (Halt BlockError) UInt64 → BlockNode → Prop}
    (refused : ∀ error, (hexes.length = payloads.length →
        ∀ hashes, parseBlockHashList hexes ≠ .ok hashes) → post (.error (.failed error)) node)
    (begun : held node)
    (settles : ∀ number hex payload, hexes[number]? = some hex → payloads[number]? = some payload →
      Settles held dead settled number
        (storeBlock ns (blockKeyFromHex hex) payload (schedule.fileOk number)))
    (crashed : ∀ between, dead between → post (.error .crashed) between)
    (failed : ∀ between number error, number < payloads.length → held between →
      settled number (.error error) between → post (.error (.failed error)) between)
    (stored : ∀ between hashes, hexes.length = payloads.length →
      parseBlockHashList hexes = .ok hashes → held between →
      (∀ number < payloads.length, settled number (.ok ()) between) →
      (indexBlocks (hashes.zip payloads) 0).Ensures post between) :
    (dispatchPutKvBlocksBatch ns hexes payloads schedule).Ensures post node := by
  unfold dispatchPutKvBlocksBatch
  by_cases matched : hexes.length = payloads.length
  · simp only [matched, ne_eq, not_true_eq_false, if_false, ensures_bind, parseHashes, ensures_lift]
    cases parsed : parseBlockHashList hexes with
    | error error => exact refused _ fun _ hashes same => by rw [parsed] at same; cases same
    | ok hashes =>
      have count : (storeThreads ns hexes payloads schedule).length = payloads.length := by
        simp [storeThreads, matched]
      have ran : (fanOut schedule.turns (storeThreads ns hexes payloads schedule) :
          Call (Halt BlockError) BlockNode _).Ensures
          (Returns held dead settled payloads.length) node := by
        rw [← count]
        refine fanOut_returns (fun number thread found => ?_) begun
        obtain ⟨hex, payload, isHex, isPayload, rfl⟩ := storeThreads_getElem? found
        exact settles number hex payload isHex isPayload
      simp only [Except.mapError, andThen_ok, ensures_bind]
      refine ran.weaken fun result between ended => ?_
      cases result with
      | error halt =>
        cases halt with
        | failed error => exact ended.elim
        | crashed => exact crashed between ended
      | ok results =>
        obtain ⟨holds, length, each⟩ := ended
        simp only [andThen_ok, ensures_bind, ensures_lift]
        rcases firstError_cases results with ⟨clean, every⟩ | ⟨number, error, found, first⟩
        · -- Every thread has put its block.
          rw [clean]
          refine stored between hashes matched parsed holds fun number inside => ?_
          have present : results[number]? = some (.ok ()) := by
            rw [List.getElem?_eq_getElem (by omega)]
            exact congrArg some (every _ (getElem_mem ..))
          exact each number _ present
        · rw [first]
          have inside : number < results.length := (List.getElem?_eq_some_iff.mp found).1
          exact failed between number error (by omega) holds (each number _ found)
  · simp only [ne_eq, matched, not_false_eq_true, if_true]
    exact refused _ fun same => absurd same matched

structure Putting (held : WombatKVKvStore → Prop) (before between : BlockNode) : Prop where
  frame : StoreOnly before between
  setup : before.store.SameSetup between.store
  kept : ∀ name ∈ before.store.objectStore.objects, name ∈ between.store.objectStore.objects
  held : held between.store

def AllPut (ns : Text) (hexes : List Text) (node : BlockNode) : Prop :=
  ∀ hex ∈ hexes, node.store.objectKey ns (blockKeyFromHex hex) ∈ node.store.objectStore.objects

def Storing (held : WombatKVKvStore → Prop) (ns : Text) (hexes : List Text) (before : BlockNode) :
    Except (Halt BlockError) UInt64 → BlockNode → Prop
  | .ok _, after => ∃ between hashes, Putting held before between ∧ AllPut ns hexes between ∧
      parseBlockHashList hexes = .ok hashes ∧ Enters hashes between after ∧ Entered hashes after
  | .error (.failed _), after => Putting held before after
  | .error .crashed, after => before.stepsLeft ≠ none ∧ (Putting held before after ∨
      ∃ between hashes, Putting held before between ∧ AllPut ns hexes between ∧
        parseBlockHashList hexes = .ok hashes ∧ Enters hashes between after)

theorem dispatchPut_storing {held : WombatKVKvStore → Prop} (begun : held node.store)
    (through : ∀ store, held store → node.store.SameSetup store →
      store.writeThroughS3 = true ∨ store.objectStore.Healthy)
    (puts : ∀ store hex payload fileOk, hex ∈ hexes → held store → node.store.SameSetup store →
      (WombatKVKvStore.putKv ns (blockKeyFromHex hex) payload fileOk).Ensures
        (fun _ => held) store) :
    (dispatchPutKvBlocksBatch ns hexes payloads schedule).Ensures (Storing held ns hexes node)
      node := by
  have unput : Putting held node node := ⟨.refl node, .refl _, fun _ => id, begun⟩
  let settled (number : Nat) (result : Except BlockError Unit) (store : WombatKVKvStore) : Prop :=
    result = .ok () → ∀ hex, hexes[number]? = some hex →
      node.store.objectKey ns (blockKeyFromHex hex) ∈ store.objectStore.objects
  let putting (store : WombatKVKvStore) : Prop := held store ∧ node.store.SameSetup store ∧
    ∀ name ∈ node.store.objectStore.objects, name ∈ store.objectStore.objects
  refine @ensures_dispatchPut node ns hexes payloads schedule
    (fun now => StoreOnly node now ∧ putting now.store)
    (fun now => node.stepsLeft ≠ none ∧ Putting held node now)
    (fun number result now => settled number result now.store) _ (fun _ _ => unput)
    ⟨.refl node, begun, .refl _, fun _ => id⟩ ?_ (fun _ dead => ⟨dead.1, .inl dead.2⟩)
    (fun _ _ _ _ now _ => ⟨now.1, now.2.2.1, now.2.2.2, now.2.1⟩) ?_
  · intro number hex payload isHex _
    refine @storeBlock_settles node putting _ settled number _ _ _ _ ?_ ?_
    · rintro now frame ⟨holds, setup, kept⟩ counted
      exact ⟨fun unlimited => counted (frame.lives unlimited), frame, setup, kept, holds⟩
    · rintro store ⟨holds, setup, kept⟩
      have stays := puts store hex payload (schedule.fileOk number)
        (mem_of_getElem? isHex) holds setup
      have put := putKv_putInto store ns (blockKeyFromHex hex) payload (schedule.fileOk number)
      refine ⟨⟨stays, setup.trans put.setup, fun name present => put.kept name (kept name present)⟩,
        fun other found earlier answered text isText =>
          put.kept _ (earlier answered text isText), ?_⟩
      intro answered text isText
      cases isHex.symm.trans isText
      have succeeded : (WombatKVKvStore.putKv ns (blockKeyFromHex hex) payload
          (schedule.fileOk number) store).1 = .ok () := by
        cases result : (WombatKVKvStore.putKv ns (blockKeyFromHex hex) payload
          (schedule.fileOk number) store).1 with
        | ok answer => rfl
        | error error => simp [result, Except.mapError] at answered
      rw [← setup.objectKey]
      exact put.stored (through store holds setup) succeeded
  · intro between hashes matched parsed now each
    have putAll : Putting held node between := ⟨now.1, now.2.2.1, now.2.2.2, now.2.1⟩
    have objects : AllPut ns hexes between := by
      intro hex member
      obtain ⟨number, inside, rfl⟩ := getElem_of_mem member
      rw [putAll.setup.objectKey]
      exact each number (matched ▸ inside) rfl _ (List.getElem?_eq_getElem inside)
    have names : (hashes.zip payloads).map Prod.fst = hashes := by
      apply map_fst_zip
      rw [← matched, (parseBlockHashList_eq_ok.mp parsed).length_eq]
    refine (indexBlocks_enters (hashes.zip payloads) 0).weaken fun result after ended => ?_
    rw [names] at ended
    match result with
    | .error (.failed _) => exact ended.elim
    | .error .crashed =>
      exact ⟨fun unlimited => ended.2 (putAll.frame.lives unlimited),
        .inr ⟨between, hashes, putAll, objects, parsed, ended.1⟩⟩
    | .ok _ => exact ⟨between, hashes, putAll, objects, parsed, ended.1, ended.2⟩

theorem fetchBlock_settles {held : WombatKVKvStore → Bool → Prop} {dead : BlockNode × Bool → Prop}
    {settled : Nat → Except BlockError (Option Bytes) → Prop} {number : Nat} {hex : Text}
    {fileOk sees : Bool}
    (dies : ∀ now missed, StoreOnly node now → held now.store missed → now.stepsLeft ≠ none →
      dead (now, missed)) (skips : ∀ store, held store true → settled number (.ok none))
    (gets : ∀ store missed, held store missed →
      (WombatKVKvStore.getKv ns (blockKeyFromHex hex) fileOk).Ensures (fun result after =>
        match result with
        | .ok (.hit _ payload) => held after missed ∧ settled number (.ok (some payload))
        | .ok .miss => held after true ∧ settled number (.ok none)
        | .error error =>
          held after missed ∧ settled number (.error (.getKv (blockKeyFromHex hex) error))) store) :
    Settles (fun shared => StoreOnly node shared.1 ∧ held shared.1.store shared.2) dead
      (fun other found _ => settled other found) number (fetchBlock ns hex fileOk sees) := by
  rintro ⟨now, missed⟩ ⟨frame, holds⟩
  simp only [fetchBlock, ensures_bind, ensures_get, andThen_ok]
  split
  · -- The flag is up and seen.
    rename_i seen
    obtain ⟨-, rfl⟩ : sees = true ∧ missed = true := by simpa using seen
    exact ⟨⟨frame, holds⟩, fun _ _ => id, skips now.store holds⟩
  · simp only [ensures_bind, ensures_on, ensures_mapError]
    refine ensures_onStore (fun counted => dies now missed frame holds counted) fun left lives => ?_
    refine (gets now.store missed holds).weaken fun result after got => ?_
    have frameOn := frame.onStore after lives
    cases result with
    | error error => exact ⟨⟨frameOn, got.1⟩, fun _ _ => id, got.2⟩
    | ok found =>
      cases found with
      | hit tier payload => exact ⟨⟨frameOn, got.1⟩, fun _ _ => id, got.2⟩
      | miss => exact ⟨⟨frameOn, got.1⟩, fun _ _ => id, got.2⟩

theorem ensures_dispatchGet {held dead : BlockNode × Bool → Prop}
    {settled : Nat → Except BlockError (Option Bytes) → BlockNode × Bool → Prop}
    {post : Except (Halt BlockError) (Option (List Bytes)) → BlockNode → Prop}
    (refused : ∀ error, (∀ hashes, parseBlockHashList hexes ≠ .ok hashes) →
      post (.error (.failed error)) node) (begun : held (node, false))
    (settles : ∀ number hex, hexes[number]? = some hex → Settles held dead settled number
      (fetchBlock ns hex (schedule.fileOk number) (schedule.sees number)))
    (crashed : ∀ shared, dead shared → post (.error .crashed) shared.1)
    (fetched : ∀ results shared, held shared → results.length = hexes.length →
      (∀ number result, results[number]? = some result → settled number result shared) →
      post ((collectPayloads results).mapError .failed) shared.1) :
    (dispatchGetKvBlocksBatch ns hexes schedule).Ensures post node := by
  simp only [dispatchGetKvBlocksBatch, ensures_bind, parseHashes, ensures_lift]
  cases parsed : parseBlockHashList hexes with
  | error error => exact refused _ fun hashes same => by rw [parsed] at same; cases same
  | ok hashes =>
    have count : (fetchThreads ns hexes schedule).length = hexes.length := by simp [fetchThreads]
    have ran : (fanOut schedule.turns (fetchThreads ns hexes schedule) :
        Call (Halt BlockError) (BlockNode × Bool) _).Ensures
        (Returns held dead settled hexes.length) (node, false) := by
      rw [← count]
      refine fanOut_returns (fun number thread found => ?_) begun
      rw [fetchThreads, List.getElem?_mapIdx, Option.map_eq_some_iff] at found
      obtain ⟨hex, isHex, rfl⟩ := found
      exact settles number hex isHex
    simp only [Except.mapError, andThen_ok, ensures_bind, ensures_on]
    refine ran.weaken fun result shared ended => ?_
    cases result with
    | error halt =>
      cases halt with
      | failed error => exact ended.elim
      | crashed => exact crashed shared ended
    | ok results => exact fetched results shared ended.1 ended.2.1 ended.2.2

theorem dispatchGet_undisturbed {onFile onKey : Text → Bytes → Prop}
    (meets : node.store.TiersMeet onFile onKey)
    (carries : ∀ (store : WombatKVKvStore) (key : Text) (payload : Bytes),
      onKey (store.objectKey ns key) payload → onFile (store.fileName ns key) payload) :
    (dispatchGetKvBlocksBatch ns hexes schedule).Ensures (fun _ after =>
      StoreOnly node after ∧ node.store.Undisturbed onFile onKey after.store) node := by
  let kept (now : BlockNode) : Prop :=
    StoreOnly node now ∧ node.store.Undisturbed onFile onKey now.store
  have begun : kept node := ⟨.refl node, .refl meets⟩
  refine @ensures_dispatchGet node ns hexes schedule (fun shared => kept shared.1)
    (fun shared => kept shared.1) (fun _ _ _ => True) _ (fun _ _ => begun) begun ?_
    (fun _ dead => dead) fun _ _ held _ _ => held
  intro number hex _
  refine @fetchBlock_settles node ns
    (fun store _ => node.store.Undisturbed onFile onKey store) (fun shared => kept shared.1)
    (fun _ _ => True) _ _ _ _ (fun _ _ frame held _ => ⟨frame, held⟩) (fun _ _ => trivial) ?_
  intro store missed held
  refine (WombatKVKvStore.getKv_meets held.meets (carries store _) _).weaken ?_
  intro result after got
  have now := held.trans got.1
  match result with
  | .ok (.hit _ _) => exact ⟨now, trivial⟩
  | .ok .miss => exact ⟨now, trivial⟩
  | .error _ => exact ⟨now, trivial⟩

end Batches

end BlockNode

end WombatKV
