import WombatKV.Proofs.Daemon.Eviction

/-! When no block stays in the index without its object. -/

namespace WombatKV

open Call BlockNode List

def BlockNode.HasBlock (node : BlockNode) (ns : Text) (hash : BlockHash) : Prop :=
  ∃ hex, parseBlockHashHex hex = .ok hash ∧
    node.store.objectKey ns (blockKeyFromHex hex) ∈ node.store.objectStore.objects

def CyclePhase.victim : CyclePhase → Option BlockHash
  | .evicting _ hash _ _ => some hash
  | _ => none

def BatchPhase.pending : BatchPhase → List BlockHash
  | .putting hashes _ => hashes
  | .indexing rest _ | .recording _ _ rest _ | .flushing _ rest _ => rest.map Prod.fst
  | .over _ => []

section Names

variable {store : WombatKVKvStore} {ns : Text} {hex : Text} {hash other : BlockHash}

theorem objectKey_ne_of_hash_ne (parsed : parseBlockHashHex hex = .ok hash) (apart : hash ≠ other) :
    store.objectKey ns (blockKeyFromHex hex) ≠ store.objectKey ns (blockKeyForHash other) := by
  intro same
  have spelled : hex = hexLower other.toList := by
    unfold WombatKVKvStore.objectKey blockKeyFromHex blockKeyForHash at same
    split at same
    · simpa using same
    · simpa using same
  rw [spelled, parseBlockHashHex_hexLower] at parsed
  cases parsed
  exact apart rfl

end Names

def KeepsBlocks (safe : BlockHash → Prop) (ns : Text) (before after : WombatKVKvStore) : Prop :=
  ∀ hash hex, safe hash → parseBlockHashHex hex = .ok hash →
    before.objectKey ns (blockKeyFromHex hex) ∈ before.objectStore.objects →
    after.objectKey ns (blockKeyFromHex hex) ∈ after.objectStore.objects

variable {after : WombatKVKvStore} {ns : Text} {safe : BlockHash → Prop} {hash : BlockHash}

theorem keepsBlocks_of_kept {before : WombatKVKvStore} (setup : before.SameSetup after)
    (kept : ∀ name ∈ before.objectStore.objects, name ∈ after.objectStore.objects) :
    KeepsBlocks safe ns before after := by
  intro hash hex _ _ present
  rw [setup.objectKey]
  exact kept _ present

theorem BlockNode.HasBlock.keep {before after : BlockNode} (has : before.HasBlock ns hash)
    (keeps : KeepsBlocks safe ns before.store after.store) (isSafe : safe hash) :
    after.HasBlock ns hash :=
  has.imp fun hex found => ⟨found.1, keeps hash hex isSafe found.1 found.2⟩

structure CycleSteps (ns : Text) (phase next : CyclePhase) (before after : BlockNode) : Prop where
  setup : before.store.SameSetup after.store
  keeps : KeepsBlocks (fun hash => phase.victim ≠ some hash) ns before.store after.store
  indexed : ∀ hash, after.Indexed hash → before.Indexed hash
  victim : ∀ hash, next.victim = some hash →
    phase.victim = some hash ∨ before.Indexed hash ∧ ¬after.Indexed hash

theorem cycleSteps_of_idle {phase next : CyclePhase} {before after : BlockNode}
    (setup : before.store.SameSetup after.store)
    (objects : after.store.objectStore.objects = before.store.objectStore.objects)
    (index : after.metadataIndex = before.metadataIndex)
    (victim : ∀ hash, next.victim = some hash → phase.victim = some hash) :
    CycleSteps ns phase next before after where
  setup := setup
  keeps := keepsBlocks_of_kept setup fun _ => objects ▸ id
  indexed hash found := by
    rw [Indexed, index] at found
    exact found
  victim hash turned := .inl (victim hash turned)

theorem CyclePhase.choose_steps (ns : Text) (work : CycleWork) (node : BlockNode) :
    CycleSteps ns (.choosing work) (choose work node).1 node (choose work node).2 := by
  have idle (next : CyclePhase) (none : next.victim = none) :
      CycleSteps ns (.choosing work) next node node :=
    cycleSteps_of_idle (.refl _) rfl rfl fun hash turned => by rw [none] at turned; cases turned
  unfold choose
  split
  · exact idle _ rfl
  · split
    · exact idle _ rfl
    · split
      · exact idle _ rfl
      · rename_i hash block rest chosen unfinished metadataIndex removed
        obtain ⟨present, rfl⟩ := InMemoryMetadataIndex.removeIfUnchanged_true removed
        refine ⟨.refl _, keepsBlocks_of_kept (.refl _) fun _ => id, ?_, ?_⟩
        · intro other found
          simp only [Indexed, Std.ExtTreeMap.contains_erase, Bool.and_eq_true] at found
          exact found.2
        · rintro other ⟨⟩
          refine .inr ⟨present, ?_⟩
          simp [Indexed]

theorem CyclePhase.evict_steps (ns : Text) (unlinked : Bool) (stage : EvictStage)
    (hash : BlockHash) (block : BlockMeta) (work : CycleWork) (node : BlockNode) :
    CycleSteps ns (.evicting stage hash block work)
      (evict ns unlinked stage hash block work node).1 node
      (evict ns unlinked stage hash block work node).2 := by
  unfold evict
  cases stage with
  | reading => exact cycleSteps_of_idle (.refl _) rfl rfl fun _ => id
  | unrecording writes =>
    cases writes with
    | nil => exact cycleSteps_of_idle (.refl _) rfl rfl fun _ => id
    | cons write rest => exact cycleSteps_of_idle (.refl _) rfl rfl fun _ => id
  | unlinking => exact cycleSteps_of_idle (.of rfl) rfl rfl fun _ => id
  | deleting =>
    have deleted := WombatKVKvStore.deleteObject_objects node.store
      (node.store.objectKey ns (blockKeyForHash hash))
    rcases ran : WombatKVKvStore.onStore (ObjectStore.deleteObject
      (node.store.objectKey ns (blockKeyForHash hash))) node.store with ⟨result, store⟩
    simp only [Ensures, ran] at deleted
    simp only [ran]
    refine ⟨deleted.1, ?_, fun _ => id, by intro _ turned; cases turned⟩
    intro other hex apart parsed present
    rw [deleted.1.objectKey]
    refine (deleted.2 _ present).resolve_right (objectKey_ne_of_hash_ne parsed ?_)
    rintro rfl
    exact apart rfl

theorem CyclePhase.step_steps {config : LruConfig} {target : UInt64} {unlinked : Bool}
    {node after : BlockNode} {phase next : CyclePhase}
    (made : phase.step config target unlinked node = some (next, after)) :
    CycleSteps config.ns phase next node after := by
  cases phase with
  | idle =>
    cases made
    refine cycleSteps_of_idle (.refl _) rfl rfl fun hash turned => ?_
    unfold begin at turned
    simp only at turned
    split at turned <;> cases turned
  | choosing work =>
    have steps := choose_steps config.ns work node
    rwa [Option.some.inj made] at steps
  | evicting stage hash block work =>
    have steps := evict_steps config.ns unlinked stage hash block work node
    rwa [Option.some.inj made] at steps
  | _ => cases made

def BatchPhase.Stored (ns : Text) (store : WombatKVKvStore) : BatchPhase → Prop
  | .putting hashes threads => hashes.length = threads.length ∧
      ∀ (number : Nat) hash thread, hashes[number]? = some hash → threads[number]? = some thread →
        ∃ hex, parseBlockHashHex hex = .ok hash ∧ thread.key = blockKeyFromHex hex ∧
          (thread.phase = .done (.ok ()) →
            store.objectKey ns (blockKeyFromHex hex) ∈ store.objectStore.objects)
  | phase => ∀ hash ∈ phase.pending, ∃ hex, parseBlockHashHex hex = .ok hash ∧
      store.objectKey ns (blockKeyFromHex hex) ∈ store.objectStore.objects

theorem BatchPhase.Stored.keep {before : WombatKVKvStore} {batch : BatchPhase}
    (stored : batch.Stored ns before) (keeps : KeepsBlocks safe ns before after)
    (areSafe : ∀ hash ∈ batch.pending, safe hash) : batch.Stored ns after := by
  cases batch with
  | putting hashes threads =>
    refine ⟨stored.1, fun number hash thread isHash isThread => ?_⟩
    obtain ⟨hex, parsed, named, put⟩ := stored.2 number hash thread isHash isThread
    refine ⟨hex, parsed, named, fun done => ?_⟩
    exact keeps hash hex (areSafe hash (mem_of_getElem? isHash)) parsed (put done)
  | _ =>
    intro hash member
    obtain ⟨hex, parsed, present⟩ := stored hash member
    exact ⟨hex, parsed, keeps hash hex (areSafe hash member) parsed present⟩

theorem PutThread.putObject_stores {ns key : Text} {payload : Bytes} {store : WombatKVKvStore}
    (through : store.writeThroughS3 = true) :
    (putObject ns key payload).Ensures (fun result after => store.SameSetup after ∧
      (∀ name ∈ store.objectStore.objects, name ∈ after.objectStore.objects) ∧
      (result = .ok () → store.objectKey ns key ∈ after.objectStore.objects)) store := by
  simp only [putObject, ensures_bind, ensures_get, andThen_ok, ensures_lift]
  cases encodeForStorage store.zstd payload store.compression key with
  | error error => exact ⟨.refl _, fun _ => id, by simp⟩
  | ok onWire =>
    simp only [andThen_ok, through, if_true, WombatKVKvStore.onStore, ensures_on,
      ensures_mapError, ObjectStore.ensures_putObject]
    refine ⟨fun error _ => ?_, fun _ => ?_⟩
    · exact ⟨.of rfl, fun _ => id, by intro impossible; cases impossible⟩
    · exact ⟨.of rfl, fun _ present => ObjectStore.mem_putInto.mpr (.inr present),
        fun _ => ObjectStore.mem_putInto.mpr (.inl rfl)⟩

theorem PutThread.step_stores {fileOk : Bool} {thread next : PutThread} {store : WombatKVKvStore}
    (through : store.writeThroughS3 = true)
    (made : thread.step ns fileOk store = some (next, after)) :
    store.SameSetup after ∧
      (∀ name ∈ store.objectStore.objects, name ∈ after.objectStore.objects) ∧
      next.key = thread.key ∧ (next.phase = .done (.ok ()) →
        store.objectKey ns thread.key ∈ after.objectStore.objects) := by
  obtain ⟨key, payload, phase⟩ := thread
  cases phase with
  | waiting =>
    cases made
    exact ⟨.of rfl, fun _ => id, rfl, fun impossible => nomatch impossible⟩
  | inFlat =>
    cases made
    exact ⟨.of rfl, fun _ => id, rfl, fun impossible => nomatch impossible⟩
  | inFoyer =>
    have stores := @putObject_stores ns key payload store through
    rcases ran : putObject ns key payload store with ⟨result, last⟩
    simp only [Ensures, ran] at stores
    simp only [step, ran, Option.some.injEq, Prod.mk.injEq] at made
    obtain ⟨rfl, rfl⟩ := made
    refine ⟨stores.1, stores.2.1, rfl, fun done => stores.2.2 ?_⟩
    cases result with
    | ok answer => rfl
    | error error => simp [Except.mapError] at done
  | done result => cases made

theorem joined_ok {threads : List PutThread} {results : List (Except BlockError Unit)}
    (joined : BatchPhase.joined threads = some results) (clean : firstError results = .ok ()) :
    ∀ thread ∈ threads, thread.phase = .done (.ok ()) := by
  fun_induction BatchPhase.joined threads generalizing results with
  | case1 => simp
  | case2 key payload result rest ih =>
    obtain ⟨others, later, rfl⟩ := Option.map_eq_some_iff.mp joined
    cases result with
    | error error => cases clean
    | ok answer =>
      intro thread member
      rcases mem_cons.mp member with rfl | member
      · rfl
      · exact ih later clean thread member
  | case3 => cases joined

structure Orderly (ns : Text) (race : Race) : Prop where
  through : race.node.store.writeThroughS3 = true
  blocks : ∀ hash, race.node.Indexed hash → race.node.HasBlock ns hash
  victim : ∀ hash, race.cycle.victim = some hash →
    ¬race.node.Indexed hash ∧ hash ∉ race.batch.pending
  distinct : race.batch.pending.Nodup
  absent : ∀ hash ∈ race.batch.pending, ¬race.node.Indexed hash
  stored : race.batch.Stored ns race.node.store

section Races

variable {ns : Text} {race : Race} {after : BlockNode}

theorem Orderly.cycle {next : CyclePhase} (orderly : Orderly ns race)
    (steps : CycleSteps ns race.cycle next race.node after) :
    Orderly ns { race with cycle := next, node := after } where
  through := steps.setup.writeThroughS3.trans orderly.through
  blocks hash found := by
    have earlier := steps.indexed hash found
    refine (orderly.blocks hash earlier).keep steps.keeps fun isVictim => ?_
    exact (orderly.victim hash isVictim).1 earlier
  victim hash turned := by
    rcases steps.victim hash turned with same | ⟨indexed, removed⟩
    · obtain ⟨out, unwanted⟩ := orderly.victim hash same
      exact ⟨fun found => out (steps.indexed hash found), unwanted⟩
    · exact ⟨removed, fun wanted => orderly.absent hash wanted indexed⟩
  distinct := orderly.distinct
  absent hash wanted found := orderly.absent hash wanted (steps.indexed hash found)
  stored := orderly.stored.keep steps.keeps fun hash wanted isVictim =>
    (orderly.victim hash isVictim).2 wanted

theorem Orderly.thread {hashes : List BlockHash} {threads : List PutThread} {number : Nat}
    {fileOk : Bool} {thread next : PutThread} {store : WombatKVKvStore} (orderly : Orderly ns race)
    (isPutting : race.batch = .putting hashes threads) (isThread : threads[number]? = some thread)
    (made : thread.step ns fileOk race.node.store = some (next, store)) :
    Orderly ns { race with
      node := { race.node with store }
      batch := .putting hashes (threads.set number next) } := by
  obtain ⟨setup, kept, named, put⟩ := PutThread.step_stores orderly.through made
  have keeps : KeepsBlocks (fun _ => True) ns race.node.store store := keepsBlocks_of_kept setup kept
  have stored := orderly.stored.keep keeps fun _ _ => trivial
  have pending : race.batch.pending = hashes := by rw [isPutting]; rfl
  refine ⟨setup.writeThroughS3.trans orderly.through,
    fun hash found => (orderly.blocks hash found).keep keeps trivial, ?_, ?_, ?_, ?_⟩
  · exact fun hash turned => pending ▸ orderly.victim hash turned
  · exact pending ▸ orderly.distinct
  · exact pending ▸ orderly.absent
  · rw [isPutting] at stored
    refine ⟨by simpa using stored.1, fun place hash other isHash isOther => ?_⟩
    by_cases own : place = number
    · -- The thread that has made the step.
      subst own
      obtain ⟨hex, parsed, isKey, _⟩ := stored.2 place hash thread isHash isThread
      rw [List.getElem?_set_self (List.getElem?_eq_some_iff.mp isThread).1] at isOther
      cases isOther
      refine ⟨hex, parsed, named.trans isKey, fun done => ?_⟩
      rw [setup.objectKey, ← isKey]
      exact put done
    · rw [List.getElem?_set_ne (Ne.symm own)] at isOther
      exact stored.2 place hash other isHash isOther

theorem Orderly.batchIdle {next : BatchPhase} (orderly : Orderly ns race)
    (store : after.store = race.node.store) (index : after.metadataIndex = race.node.metadataIndex)
    (pending : next.pending = race.batch.pending ∨ next.pending = [])
    (stored : next.Stored ns race.node.store) :
    Orderly ns { race with batch := next, node := after } := by
  have fewer : ∀ hash ∈ next.pending, hash ∈ race.batch.pending := by
    intro hash member
    rcases pending with same | none
    · exact same ▸ member
    · rw [none] at member
      cases member
  have indexed (hash : BlockHash) : after.Indexed hash ↔ race.node.Indexed hash := by
    simp only [Indexed, index]
  refine ⟨store ▸ orderly.through, ?_, ?_, ?_, ?_, store ▸ stored⟩
  · intro hash found
    have has := orderly.blocks hash ((indexed hash).mp found)
    rw [HasBlock, store]
    exact has
  · intro hash turned
    obtain ⟨out, unwanted⟩ := orderly.victim hash turned
    exact ⟨fun found => out ((indexed hash).mp found), fun wanted => unwanted (fewer hash wanted)⟩
  · rcases pending with same | none
    · exact same ▸ orderly.distinct
    · rw [none]
      exact nodup_nil
  · intro hash wanted found
    exact orderly.absent hash (fewer hash wanted) ((indexed hash).mp found)

theorem Orderly.enter {hash : BlockHash} {payload : Bytes} {rest : List (BlockHash × Bytes)}
    {total later : UInt64} {block : BlockMeta} {now : UInt64} (orderly : Orderly ns race)
    (isIndexing : race.batch = .indexing ((hash, payload) :: rest) total)
    (store : after.store = race.node.store)
    (index : after.metadataIndex = race.node.metadataIndex.insert hash block now) :
    Orderly ns { race with batch := .recording hash block rest later, node := after } := by
  have pending : race.batch.pending = hash :: rest.map Prod.fst := by rw [isIndexing]; rfl
  have stored := orderly.stored
  rw [isIndexing] at stored
  have distinct := orderly.distinct
  rw [pending, nodup_cons] at distinct
  have indexed (other : BlockHash) : after.Indexed other ↔ hash = other ∨ race.node.Indexed other := by
    rw [Indexed, index]
    exact InMemoryMetadataIndex.contains_insert ..
  have blockAfter (other : BlockHash) (has : race.node.HasBlock ns other) :
      after.HasBlock ns other := by
    rw [HasBlock, store]
    exact has
  refine ⟨store ▸ orderly.through, ?_, ?_, distinct.2, ?_, ?_⟩
  · intro other found
    rcases (indexed other).mp found with rfl | earlier
    · exact blockAfter hash (stored hash (mem_cons_self ..))
    · exact blockAfter other (orderly.blocks other earlier)
  · -- What the cycle is about to delete is not wanted, so it is not what was entered.
    intro other turned
    obtain ⟨out, unwanted⟩ := orderly.victim other turned
    rw [pending] at unwanted
    refine ⟨fun found => ?_, fun wanted => unwanted (mem_cons_of_mem _ wanted)⟩
    rcases (indexed other).mp found with rfl | earlier
    · exact unwanted (mem_cons_self ..)
    · exact out earlier
  · intro other wanted found
    rcases (indexed other).mp found with rfl | earlier
    · exact distinct.1 wanted
    · exact orderly.absent other (pending ▸ mem_cons_of_mem _ wanted) earlier
  · intro other wanted
    rw [store]
    exact stored other (mem_cons_of_mem _ wanted)

theorem stored_of_joined {store : WombatKVKvStore} {hashes : List BlockHash}
    {threads : List PutThread} (stored : BatchPhase.Stored ns store (.putting hashes threads))
    (done : ∀ thread ∈ threads, thread.phase = .done (.ok ())) {hash : BlockHash}
    (member : hash ∈ hashes) : ∃ hex, parseBlockHashHex hex = .ok hash ∧
      store.objectKey ns (blockKeyFromHex hex) ∈ store.objectStore.objects := by
  obtain ⟨number, inside, rfl⟩ := getElem_of_mem member
  have within : number < threads.length := stored.1 ▸ inside
  obtain ⟨hex, parsed, _, put⟩ := stored.2 number _ _ (List.getElem?_eq_getElem inside)
    (List.getElem?_eq_getElem within)
  exact ⟨hex, parsed, put (done _ (getElem_mem within))⟩

theorem Orderly.batch {next : BatchPhase} (orderly : Orderly ns race)
    (made : race.batch.step race.node = some (next, after)) :
    Orderly ns { race with batch := next, node := after } := by
  have stored := orderly.stored
  cases stands : race.batch with
  | putting hashes threads =>
    rw [stands] at made stored
    obtain ⟨results, joined, made⟩ := Option.bind_eq_some_iff.mp made
    cases first : firstError results with
    | error error =>
      rw [first] at made
      cases made
      exact orderly.batchIdle rfl rfl (.inr rfl) fun _ impossible => nomatch impossible
    | ok answer =>
      rw [first] at made
      cases made
      have names : (hashes.zip (threads.map (·.payload))).map Prod.fst = hashes := by
        apply map_fst_zip
        simpa using stored.1.le
      have done := joined_ok joined first
      refine orderly.batchIdle rfl rfl (.inl ?_) ?_
      · rw [stands]
        exact names
      · intro hash member
        exact stored_of_joined stored done (names ▸ member)
  | indexing rest total =>
    rw [stands] at made
    cases rest with
    | nil =>
      cases made
      exact orderly.batchIdle rfl rfl (.inr rfl) fun _ impossible => nomatch impossible
    | cons item rest =>
      obtain ⟨hash, payload⟩ := item
      cases made
      exact orderly.enter stands rfl rfl
  | recording hash block rest total =>
    rw [stands] at made stored
    simp only [BatchPhase.step] at made
    split at made
    · cases made
      exact orderly.batchIdle rfl rfl (.inl (by rw [stands]; rfl)) stored
    · cases made
      exact orderly.batchIdle rfl rfl (.inl (by rw [stands]; rfl)) stored
  | flushing writes rest total =>
    rw [stands] at made stored
    cases writes with
    | nil =>
      cases made
      exact orderly.batchIdle rfl rfl (.inl (by rw [stands]; rfl)) stored
    | cons write writes =>
      cases made
      exact orderly.batchIdle rfl rfl (.inl (by rw [stands]; rfl)) stored
  | _ =>
    rw [stands] at made
    cases made

theorem Orderly.step {calls : RaceCalls} {next : Race} {turn : RaceTurn}
    (orderly : Orderly calls.ns race) (same : calls.config.ns = calls.ns)
    (made : race.step calls turn = some next) : Orderly calls.ns next := by
  cases turn with
  | cycle unlinked =>
    obtain ⟨⟨cycle, node⟩, stepped, made⟩ := Option.bind_eq_some_iff.mp made
    cases made
    exact orderly.cycle (same ▸ CyclePhase.step_steps stepped)
  | thread number fileOk =>
    simp only [Race.step] at made
    split at made
    · rename_i hashes threads stands
      obtain ⟨thread, isThread, made⟩ := Option.bind_eq_some_iff.mp made
      obtain ⟨⟨moved, store⟩, stepped, made⟩ := Option.bind_eq_some_iff.mp made
      cases made
      exact orderly.thread stands isThread stepped
    · cases made
  | batch =>
    obtain ⟨⟨batch, node⟩, stepped, made⟩ := Option.bind_eq_some_iff.mp made
    cases made
    exact orderly.batch stepped

theorem orderly_start {node : BlockNode} {calls : RaceCalls}
    (through : node.store.writeThroughS3 = true)
    (backed : ∀ hash, node.Indexed hash → node.HasBlock calls.ns hash)
    (apart : ∀ hashes, parseBlockHashList calls.hexes = .ok hashes →
      hashes.Nodup ∧ ∀ hash ∈ hashes, ¬node.Indexed hash) :
    Orderly calls.ns (raceSystem node calls).start := by
  have refused (error : BlockError) :
      Orderly calls.ns ⟨node, .idle, .over (.error error)⟩ :=
    ⟨through, backed, (fun _ impossible => nomatch impossible), nodup_nil,
      (fun _ impossible => nomatch impossible), fun _ impossible => nomatch impossible⟩
  simp only [raceSystem, BatchPhase.begin]
  split
  · exact refused _
  · rename_i matched
    split
    · exact refused _
    · rename_i hashes parsed
      obtain ⟨distinct, absent⟩ := apart hashes parsed
      have pairs := parseBlockHashList_eq_ok.mp parsed
      refine ⟨through, backed, (fun _ impossible => nomatch impossible), distinct, absent, ?_, ?_⟩
      · have lengths := pairs.length_eq
        simp only [ne_eq, not_not] at matched
        simp only [length_map, length_zip]
        omega
      · intro number hash thread isHash isThread
        simp only [List.getElem?_map, Option.map_eq_some_iff] at isThread
        obtain ⟨⟨key, payload⟩, isPair, rfl⟩ := isThread
        obtain ⟨isKey, _⟩ := List.getElem?_zip_eq_some.mp isPair
        rw [List.getElem?_map, Option.map_eq_some_iff] at isKey
        obtain ⟨hex, isHex, rfl⟩ := isKey
        obtain ⟨inside, rfl⟩ := List.getElem?_eq_some_iff.mp isHash
        obtain ⟨within, rfl⟩ := List.getElem?_eq_some_iff.mp isHex
        exact ⟨_, pairs.get within inside, rfl, fun impossible => nomatch impossible⟩

/-- However a cycle and a batch go along with each other, no block is in the index without its object. -/
theorem race_keeps_blocks {node : BlockNode} {calls : RaceCalls}
    (through : node.store.writeThroughS3 = true) (same : calls.config.ns = calls.ns)
    (backed : ∀ hash, node.Indexed hash → node.HasBlock calls.ns hash)
    (apart : ∀ hashes, parseBlockHashList calls.hexes = .ok hashes →
      hashes.Nodup ∧ ∀ hash ∈ hashes, ¬node.Indexed hash) {race : Race}
    (reached : (raceSystem node calls).Reachable (fun _ _ => True) race) {hash : BlockHash}
    (found : race.node.Indexed hash) : race.node.HasBlock calls.ns hash := by
  have orderly : Orderly calls.ns race :=
    reached.invariant (orderly_start through backed apart) fun _ _ _ before _ made =>
      before.step same made
  exact orderly.blocks hash found

end Races

def oneBlockCalls (hex : Text) : RaceCalls where
  config := ⟨1, "a".toList⟩
  target := 0
  ns := "a".toList
  hexes := [hex]
  payloads := [[1, 2]]

def lateDelete : List RaceTurn :=
  [.cycle true, .cycle true, .thread 0 true, .thread 0 true, .thread 0 true, .batch, .batch,
    .batch, .batch, .cycle true, .cycle true, .cycle true, .cycle true, .cycle true]

def raceAfter (calls : RaceCalls) (turns : List RaceTurn) : Option Race :=
  (raceSystem oneBlockNode calls).run (fun _ _ => true) (raceSystem oneBlockNode calls).start turns

theorem raceAfter_reached {calls : RaceCalls} {turns : List RaceTurn} {race : Race}
    (ran : raceAfter calls turns = some race) :
    (raceSystem oneBlockNode calls).Reachable (fun _ _ => True) race :=
  System.Reachable.run (fun _ _ _ => trivial) .start ran

theorem oneBlockNode_indexed (found : oneBlockNode.Indexed hash) :
    hash = Vector.replicate 32 0xaa := by
  have only : oneBlockNode.metadataIndex.entries.keys = [Vector.replicate 32 0xaa] := by
    decide +kernel
  have member := Std.ExtTreeMap.mem_keys.mpr (Std.ExtTreeMap.contains_iff_mem.mp found)
  rw [only] at member
  exact mem_singleton.mp member

theorem oneBlockNode_backed (found : oneBlockNode.Indexed hash) :
    oneBlockNode.HasBlock "a".toList hash := by
  rw [oneBlockNode_indexed found]
  exact ⟨uniformHex 'a', by decide +kernel, by decide +kernel⟩

theorem race_keeps_blocks_otherBlock :
    ∃ race, raceAfter (oneBlockCalls (uniformHex 'b')) lateDelete = some race ∧
      race.finished = true ∧ race.node.HasBlock "a".toList (Vector.replicate 32 0xbb) := by
  have ends : (raceAfter (oneBlockCalls (uniformHex 'b')) lateDelete).any (fun race =>
      race.finished && race.node.metadataIndex.entries.contains (Vector.replicate 32 0xbb)) =
      true := by decide +kernel
  obtain ⟨race, ran, holds⟩ := Option.any_eq_true _ _ |>.mp ends
  obtain ⟨finished, indexed⟩ := Bool.and_eq_true_iff.mp holds
  have parsed : parseBlockHashList [uniformHex 'b'] = .ok [Vector.replicate 32 0xbb] := by
    decide +kernel
  refine ⟨race, ran, finished, race_keeps_blocks rfl rfl (fun _ => oneBlockNode_backed) ?_
    (raceAfter_reached ran) indexed⟩
  intro hashes read
  cases parsed.symm.trans read
  refine ⟨by simp, fun hash member found => ?_⟩
  rw [mem_singleton.mp member] at found
  exact absurd (oneBlockNode_indexed found) (by decide +kernel)

theorem evicted_block_is_indexed :
    (∀ hash, oneBlockNode.Indexed hash → oneBlockNode.HasBlock "a".toList hash) ∧
    ∃ race, (raceSystem oneBlockNode (oneBlockCalls (uniformHex 'a'))).Reachable
        (fun _ _ => True) race ∧ race.finished = true ∧
      race.node.Indexed (Vector.replicate 32 0xaa) ∧
      ¬race.node.HasBlock "a".toList (Vector.replicate 32 0xaa) := by
  have ends : (raceAfter (oneBlockCalls (uniformHex 'a')) lateDelete).any (fun race =>
      race.finished && (race.node.metadataIndex.entries.contains (Vector.replicate 32 0xaa) &&
        race.node.store.objectStore.objects.isEmpty)) = true := by decide +kernel
  obtain ⟨race, ran, holds⟩ := Option.any_eq_true _ _ |>.mp ends
  obtain ⟨finished, holds⟩ := Bool.and_eq_true_iff.mp holds
  obtain ⟨indexed, empty⟩ := Bool.and_eq_true_iff.mp holds
  refine ⟨fun _ => oneBlockNode_backed, race, raceAfter_reached ran, finished, indexed, ?_⟩
  rintro ⟨hex, -, present⟩
  rw [Std.ExtTreeMap.isEmpty_iff.mp empty] at present
  exact Std.ExtTreeMap.not_mem_empty present

end WombatKV
