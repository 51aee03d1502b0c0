import WombatKV.Proofs.Daemon.LookupIsolation

/-! Whether what a lookup reports can be fetched. -/

namespace WombatKV

open Call BlockNode WombatKVKvStore List

section Names

variable {store : WombatKVKvStore} {ns hex other : Text} {hash otherHash : BlockHash}

theorem objectKey_append (store : WombatKVKvStore) (ns front back : Text) :
    store.objectKey ns (front ++ back) = store.objectKey ns front ++ back := by
  unfold WombatKVKvStore.objectKey
  split
  · simp
  · simp

theorem fileName_block (store : WombatKVKvStore) (ns : Text)
    (parsed : parseBlockHashHex hex = .ok hash) :
    store.fileName ns (blockKeyFromHex hex) =
      (store.objectKey ns blockKeyPrefix).map (fun char =>
        if FlatFileKvBlobCache.isFileNameChar char then char else '_') ++ (hex ++ ".kv".toList) := by
  have kept : hex.map (fun char =>
      if FlatFileKvBlobCache.isFileNameChar char then char else '_') = hex := by
    rw [map_congr_left (g := id), map_id]
    intro char member
    have plain := parseBlockHashHex_alphanumeric parsed char member
    simp [FlatFileKvBlobCache.isFileNameChar, plain]
  rw [fileName, cacheKey, blockKeyFromHex, objectKey_append, FlatFileKvBlobCache.pathForKey,
    map_append, kept, append_assoc]

theorem fileName_block_inj (parsed : parseBlockHashHex hex = .ok hash)
    (otherParsed : parseBlockHashHex other = .ok otherHash)
    (same : store.fileName ns (blockKeyFromHex hex) = store.fileName ns (blockKeyFromHex other)) :
    hex = other := by
  rw [fileName_block store ns parsed, fileName_block store ns otherParsed] at same
  exact append_cancel_right (append_cancel_left same)

end Names

section Runs

variable {origin : WombatKVKvStore} {ns : Text}

def NamedBy (name : Text → Text → Text) (ns : Text) (texts : List Text) (named : Text)
    (_payload : Bytes) : Prop :=
  ∃ hex ∈ texts, name ns (blockKeyFromHex hex) = named

def OnlyBlocks (origin : WombatKVKvStore) (ns : Text) (texts : List Text)
    (store : WombatKVKvStore) : Prop :=
  store.TiersMeet (NamedBy origin.fileName ns texts) (NamedBy origin.objectKey ns texts)

structure BlocksKept (origin : WombatKVKvStore) (ns : Text) (run : DaemonRun) : Prop where
  setup : origin.SameSetup run.node.store
  parsed : ∀ hex ∈ storedTexts ns run.history, ∃ hash, parseBlockHashHex hex = .ok hash
  indexed : ∀ hash, run.node.Indexed hash ↔ hashStored ns run.history hash = true
  objects : ∀ hex ∈ storedTexts ns run.history,
    origin.objectKey ns (blockKeyFromHex hex) ∈ run.node.store.objectStore.objects
  tiers : OnlyBlocks origin ns (storedTexts ns run.history) run.node.store
  lookups : ∀ later hexes answer earlier, run.history = later ++ (.lookup ns hexes, answer) :: earlier →
    answer = expectedAnswer (hashStored ns earlier) hexes

theorem hashStored_iff {history : DaemonHistory} {hash : BlockHash} :
    hashStored ns history hash = true ↔
      ∃ hex ∈ storedTexts ns history, parseBlockHashHex hex = .ok hash := by
  simp only [hashStored, any_eq_true, decide_eq_true_eq, parseBlockHashHex_toOption]

theorem storedTexts_put (ns : Text) (hexes : List Text) (payloads : List Bytes)
    (answer : DaemonAnswer) (history : DaemonHistory) :
    storedTexts ns ((.put ns hexes payloads, .ok answer) :: history) =
      hexes ++ storedTexts ns history := by
  simp [storedTexts]

theorem OnlyBlocks.widen {few many : List Text} {store : WombatKVKvStore}
    (only : OnlyBlocks origin ns few store) (among : ∀ hex ∈ few, hex ∈ many) :
    OnlyBlocks origin ns many store where
  flat file payload present :=
    (only.flat file payload present).imp fun hex named => ⟨among hex named.1, named.2⟩
  foyer key payload present :=
    (only.foyer key payload present).imp fun hex named => ⟨among hex named.1, named.2⟩
  objects key stored present :=
    (only.objects key stored present).imp fun hex named => ⟨among hex named.1, named.2⟩

theorem NamedBy.filed {texts : List Text} {store : WombatKVKvStore} {otherNs key : Text}
    {payload : Bytes}
    (named : NamedBy origin.objectKey ns texts (store.objectKey otherNs key) payload) :
    NamedBy origin.fileName ns texts (store.fileName otherNs key) payload := by
  obtain ⟨hex, member, same⟩ := named
  exact ⟨hex, member, congrArg FlatFileKvBlobCache.pathForKey same⟩

theorem dispatchPut_keeps {node : BlockNode} {texts hexes : List Text} {payloads : List Bytes}
    {schedule : Schedule} (setup : origin.SameSetup node.store)
    (healthy : node.store.objectStore.Healthy) (only : OnlyBlocks origin ns texts node.store) :
    (dispatchPutKvBlocksBatch ns hexes payloads schedule).Ensures
      (Storing (fun store => store.objectStore.Healthy ∧
        OnlyBlocks origin ns (hexes ++ texts) store) ns hexes node) node := by
  refine dispatchPut_storing ⟨healthy, only.widen fun hex => mem_append_right _⟩
    (fun _ held _ => .inr held.1) ?_
  intro store hex payload fileOk member held same
  have now := setup.trans same
  have named : NamedBy origin.objectKey ns (hexes ++ texts)
      (store.objectKey ns (blockKeyFromHex hex)) payload :=
    ⟨hex, mem_append_left _ member, (now.objectKey ns _).symm⟩
  have put := putKv_putInto store ns (blockKeyFromHex hex) payload fileOk
  have meets := putKv_meets held.2 named named.filed (fun _ _ => named) fileOk
  exact ⟨put.healthy held.1, meets.2⟩

theorem BlocksKept.idle {run : DaemonRun} (before : BlocksKept origin ns run) {call : DaemonCall}
    {answer : Except (Halt DaemonError) DaemonAnswer} {after : BlockNode}
    (none : storedTexts ns ((call, answer) :: run.history) = storedTexts ns run.history)
    (index : after.metadataIndex = run.node.metadataIndex)
    (kept : Undisturbed (NamedBy origin.fileName ns (storedTexts ns run.history))
      (NamedBy origin.objectKey ns (storedTexts ns run.history)) run.node.store after.store)
    (looked : ∀ hexes, call = .lookup ns hexes →
      answer = expectedAnswer (hashStored ns run.history) hexes) :
    BlocksKept origin ns ⟨after, (call, answer) :: run.history⟩ where
  setup := before.setup.trans kept.setup
  parsed := none ▸ before.parsed
  indexed hash := by
    simp only [Indexed, hashStored, none, index]
    exact before.indexed hash
  objects := by
    rw [none]
    intro hex member
    rw [kept.objects]
    exact before.objects hex member
  tiers := none ▸ kept.meets
  lookups := by
    intro later hexes found earlier split
    cases later with
    | nil =>
      obtain ⟨same, rfl⟩ := List.cons.inj split
      cases same
      exact looked hexes rfl
    | cons head later =>
      obtain ⟨-, split⟩ := List.cons.inj split
      exact before.lookups later hexes found earlier split

theorem BlocksKept.put {run : DaemonRun} (before : BlocksKept origin ns run) {begun : BlockNode}
    (setup : run.node.store.SameSetup begun.store)
    (objects : begun.store.objectStore.objects = run.node.store.objectStore.objects)
    (index : begun.metadataIndex = run.node.metadataIndex) {hexes : List Text}
    {payloads : List Bytes} {total : UInt64} {after : BlockNode}
    (stored : Storing (fun store => store.objectStore.Healthy ∧
      OnlyBlocks origin ns (hexes ++ storedTexts ns run.history) store) ns hexes begun
      (.ok total) after) (answer : DaemonAnswer) :
    BlocksKept origin ns ⟨after, (.put ns hexes payloads, .ok answer) :: run.history⟩ := by
  obtain ⟨between, hashes, putting, put, parsed, enters, entered⟩ := stored
  have originNow : origin.SameSetup between.store :=
    (before.setup.trans setup).trans putting.setup
  have texts := storedTexts_put ns hexes payloads answer run.history
  refine ⟨enters.store ▸ originNow, ?_, ?_, ?_, ?_, ?_⟩
  · -- Every text of the batch has been read.
    intro hex member
    rw [texts, mem_append] at member
    rcases member with own | earlier
    · obtain ⟨hash, _, read⟩ := parsed_of_mem parsed own
      exact ⟨hash, read⟩
    · exact before.parsed hex earlier
  · intro hash
    have known : between.Indexed hash ↔ hashStored ns run.history hash = true := by
      simp only [Indexed, putting.frame.metadataIndex, index]
      exact before.indexed hash
    rw [hashStored_iff, texts]
    simp only [mem_append, or_and_right, exists_or]
    rw [← mem_parseBlockHashList parsed, ← hashStored_iff, ← known, or_comm]
    exact ⟨enters.indexed hash, fun found => found.elim (enters.stillIndexed hash)
      fun member => (entered hash member).1⟩
  · intro hex member
    rw [texts, mem_append] at member
    rw [enters.store]
    rcases member with own | earlier
    · rw [← originNow.objectKey]
      exact put hex own
    · exact putting.kept _ (objects ▸ before.objects hex earlier)
  · rw [texts, OnlyBlocks, enters.store]
    exact putting.held.2
  · intro later texts found earlier split
    cases later with
    | nil => cases split
    | cons head later =>
      obtain ⟨-, split⟩ := List.cons.inj split
      exact before.lookups later texts found earlier split

theorem BlocksKept.step {run : DaemonRun} (before : BlocksKept origin ns run) {taken : DaemonStep}
    (stores : StoresInto ns run taken) : BlocksKept origin ns (run.step taken) := by
  obtain ⟨calm, among⟩ := stores
  generalize ready : run.node.under taken.around = begun at among
  have healthy : begun.store.objectStore.Healthy := by
    rw [← ready]
    exact calm.served
  have lives : begun.stepsLeft = none := by
    rw [← ready]
    exact calm.lives
  have index : begun.metadataIndex = run.node.metadataIndex := by rw [← ready]; rfl
  have started : Undisturbed (NamedBy origin.fileName ns (storedTexts ns run.history))
      (NamedBy origin.objectKey ns (storedTexts ns run.history)) run.node.store begun.store := by
    rw [← ready]
    exact ⟨.of rfl, rfl, before.tiers.withObjectStore rfl⟩
  rcases ran : serve taken.call taken.around begun with ⟨answer, after⟩
  have stepped : run.step taken = ⟨after, (taken.call, answer) :: run.history⟩ := by
    simp only [DaemonRun.step, ready, ran]
  rw [stepped]
  cases kind : taken.call with
  | lookup other hexes =>
    rw [kind, serve_lookup, index] at ran
    cases ran
    refine before.idle rfl index started ?_
    rintro texts ⟨⟩
    congr 1
    funext hash
    rw [Bool.eq_iff_iff]
    exact before.indexed hash
  | get other hexes =>
    rw [kind] at ran
    obtain ⟨result, run, rfl⟩ := answering_ran ran
    have fetched := @dispatchGet_undisturbed begun other hexes taken.around.schedule _ _
      started.meets fun _ _ _ named => named.filed
    simp only [Ensures, run] at fetched
    exact before.idle rfl (fetched.1.metadataIndex.trans index) (started.trans fetched.2) (by simp)
  | put other hexes payloads =>
    rw [kind] at among ran
    obtain ⟨rfl, total, success⟩ := among
    rw [ran] at success
    cases success
    obtain ⟨result, ran, same⟩ := answering_ran ran
    have stored := @dispatchPut_keeps origin other begun _ hexes payloads taken.around.schedule
      (before.setup.trans started.setup) healthy started.meets
    simp only [Ensures, ran] at stored
    cases result with
    | error halt => cases halt <;> cases same
    | ok found => exact before.put started.setup started.objects index stored _
  | kv call =>
    rw [kind] at among ran
    have reads : call.changesObjects = false := by
      cases call <;> simp_all [KvCall.losesOnly, KvCall.changesObjects]
    have kept : (serve (.kv call) taken.around).Ensures (fun _ after =>
        after.metadataIndex = begun.metadataIndex ∧
          Undisturbed (NamedBy origin.fileName ns (storedTexts ns run.history))
            (NamedBy origin.objectKey ns (storedTexts ns run.history)) begun.store after.store)
        begun := by
      simp only [serve, ensures_bind, ensures_mapError]
      refine ensures_onStore (absurd lives) fun left _ => ?_
      refine (perform_reads started.meets reads (by
        rintro otherNs key payload rfl
        cases among) _).weaken fun result store kept => ?_
      cases result <;> exact ⟨rfl, kept.1⟩
    simp only [Ensures, ran] at kept
    exact before.idle rfl (kept.1.trans index) (started.trans kept.2) (by simp)
  | evict config target =>
    rw [kind] at among
    exact among.elim

theorem collectPayloads_iff (results : List (Except BlockError (Option Bytes))) :
    (∃ payloads, collectPayloads results = .ok (some payloads)) ↔
      ∀ result ∈ results, ∃ payload, result = .ok (some payload) := by
  induction results with
  | nil => simp [collectPayloads]
  | cons result rest ih =>
    match result with
    | .error error => simp [collectPayloads]
    | .ok none => simp [collectPayloads]
    | .ok (some payload) =>
      simp only [forall_mem_cons, ← ih, collectPayloads]
      cases collectPayloads rest with
      | error error => simp [Except.map]
      | ok found => cases found <;> simp [Except.map]

theorem getKv_decides {store : WombatKVKvStore} (healthy : store.objectStore.Healthy)
    (key : Text) (written : Bool) :
    (getKv ns key written).Ensures (fun result after => after.objectStore.Healthy ∧
      match result with
      | .ok (.hit _ _) => True
      | .ok .miss => store.objectKey ns key ∉ store.objectStore.objects
      | .error _ => False) store := by
  simp only [getKv, ensures_bind, ensures_get, andThen_ok]
  split
  · exact ⟨healthy, trivial⟩
  · split
    · exact ⟨healthy, trivial⟩
    · rw [ensures_bind, Ensures, fetchObject_healthy healthy]
      cases found : store.objectStore.objects[store.objectKey ns key]? with
      | none =>
        refine ⟨healthy, fun present => ?_⟩
        rw [Std.ExtTreeMap.getElem?_eq_some_getElem present] at found
        cases found
      | some stored => exact ⟨healthy, trivial⟩

theorem dispatchGet_iff {node : BlockNode} {texts hexes : List Text} {schedule : Schedule}
    (lives : node.stepsLeft = none) (healthy : node.store.objectStore.Healthy)
    (setup : origin.SameSetup node.store)
    (objects : ∀ hex ∈ texts,
      origin.objectKey ns (blockKeyFromHex hex) ∈ node.store.objectStore.objects)
    (only : OnlyBlocks origin ns texts node.store)
    (textsParsed : ∀ hex ∈ texts, ∃ hash, parseBlockHashHex hex = .ok hash)
    {hashes : List BlockHash} (parsed : parseBlockHashList hexes = .ok hashes) :
    (∃ payloads, (dispatchGetKvBlocksBatch ns hexes schedule node).1 = .ok (some payloads)) ↔
      ∀ hex ∈ hexes, hex ∈ texts := by
  let held (store : WombatKVKvStore) (missed : Bool) : Prop := store.objectStore.Healthy ∧
    Undisturbed (NamedBy origin.fileName ns texts) (NamedBy origin.objectKey ns texts)
      node.store store ∧ (missed = true → ∃ hex ∈ hexes, hex ∉ texts)
  let settled (number : Nat) (result : Except BlockError (Option Bytes)) : Prop :=
    ∀ hex, hexes[number]? = some hex → match result with
      | .ok (some _) => hex ∈ texts
      | .ok none => ∃ hex ∈ hexes, hex ∉ texts
      | .error _ => False
  have fetched : (dispatchGetKvBlocksBatch ns hexes schedule).Ensures (fun result _ =>
      (∃ payloads, result = .ok (some payloads)) ↔ ∀ hex ∈ hexes, hex ∈ texts) node := by
    refine @ensures_dispatchGet node ns hexes schedule
      (fun shared => StoreOnly node shared.1 ∧ held shared.1.store shared.2) (fun _ => False)
      (fun number result _ => settled number result) _
      (fun _ unparsed => absurd parsed (unparsed hashes))
      ⟨.refl node, healthy, .refl only, by simp⟩ ?_
      (fun _ dead => dead.elim) ?_
    · intro number hex isHex
      refine @fetchBlock_settles node ns held (fun _ => False) settled number hex _ _ ?_ ?_ ?_
      · intro now _ frame _ counted
        exact counted (frame.lives lives)
      · intro store missing text _
        exact missing.2.2 rfl
      · rintro store missed ⟨calm, kept, missing⟩
        have decides := @getKv_decides ns store calm (blockKeyFromHex hex) (schedule.fileOk number)
        have meets := @getKv_meets store _ _ kept.meets ns (blockKeyFromHex hex)
          (fun _ named => named.filed) (schedule.fileOk number)
        refine (decides.and meets).weaken fun result after got => ?_
        obtain ⟨⟨calmOn, outcome⟩, undisturbed, hits⟩ := got
        have now := kept.trans undisturbed
        have originNow := setup.trans kept.setup
        rcases result with error | ⟨tier, payload⟩ | -
        · exact outcome.elim
        · -- The file that was hit belongs to a stored text, and to no other text than this.
          refine ⟨⟨calmOn, now, missing⟩, fun text isText => ?_⟩
          cases isHex.symm.trans isText
          obtain ⟨stored, member, same⟩ := hits tier payload rfl
          obtain ⟨storedHash, storedParsed⟩ := textsParsed stored member
          obtain ⟨hash, _, hexParsed⟩ := parsed_of_mem parsed (mem_of_getElem? isHex)
          have named : origin.fileName ns (blockKeyFromHex stored) =
              origin.fileName ns (blockKeyFromHex hex) := by
            rw [same, fileName, cacheKey, originNow.objectKey]
            rfl
          exact fileName_block_inj storedParsed hexParsed named ▸ member
        · -- A stored text has its object, so this one was not stored.
          have unstored : ∃ hex ∈ hexes, hex ∉ texts := by
            refine ⟨hex, mem_of_getElem? isHex, fun member => outcome ?_⟩
            rw [originNow.objectKey, kept.objects]
            exact objects hex member
          exact ⟨⟨calmOn, now, fun _ => unstored⟩, fun _ _ => unstored⟩
    · intro results shared _ length each
      have answers : (∃ payloads, (collectPayloads results).mapError Halt.failed =
          .ok (some payloads)) ↔ ∃ payloads, collectPayloads results = .ok (some payloads) := by
        cases collectPayloads results <;> simp [Except.mapError]
      rw [answers, collectPayloads_iff]
      constructor
      · intro every hex member
        obtain ⟨number, inside, rfl⟩ := getElem_of_mem member
        have place : number < results.length := by omega
        obtain ⟨payload, found⟩ := every _ (getElem_mem place)
        exact each number (.ok (some payload)) (by rw [List.getElem?_eq_getElem place, found]) _
          (List.getElem?_eq_getElem inside)
      · intro every result member
        obtain ⟨number, inside, rfl⟩ := getElem_of_mem member
        have place : number < hexes.length := by omega
        have outcome := each number _ (List.getElem?_eq_getElem inside) _
          (List.getElem?_eq_getElem place)
        cases found : results[number] with
        | error error =>
          rw [found] at outcome
          exact outcome.elim
        | ok answer =>
          cases answer with
          | some payload => exact ⟨payload, rfl⟩
          | none =>
            rw [found] at outcome
            obtain ⟨hex, member, unstored⟩ := outcome
            exact absurd (every hex member) unstored
  exact fetched

theorem BlockNode.Fresh.blocksKept {node : BlockNode} (fresh : node.Fresh) (ns : Text) :
    BlocksKept node.store ns ⟨node, []⟩ where
  setup := .refl _
  parsed := by simp [storedTexts]
  indexed hash := by simp [Indexed, fresh.noBlocks, hashStored, storedTexts]
  objects := by simp [storedTexts]
  tiers :=
    { flat := by simp [fresh.noFiles]
      foyer := by simp [fresh.noEntries]
      objects := by simp [fresh.noObjects] }
  lookups := by simp

/-- What a lookup reports can be fetched exactly when it was stored in the spelling that is asked for. -/
theorem lookup_fetch_iff {node : BlockNode} (fresh : node.Fresh) {ns : Text} {run : DaemonRun}
    (reached : (daemonSystem node).Reachable (StoresInto ns) run) {hexes : List Text}
    {count : UInt32} {later before : DaemonHistory}
    (looked : run.history = later ++ (.lookup ns hexes, .ok (.matched count)) :: before)
    {around : Circumstances} (calm : DaemonStep.Calm ⟨.get ns (hexes.take count.toNat), around⟩) :
    (∃ payloads, (serve (.get ns (hexes.take count.toNat)) around (run.node.under around)).1 =
        .ok (.fetched (some payloads))) ↔
      SpelledAsStored ns before run.history hexes := by
  have kept : BlocksKept node.store ns run := by
    refine reached.invariant (fresh.blocksKept ns) ?_
    rintro earlier taken _ held stores ⟨⟩
    exact held.step stores
  have answer := kept.lookups later hexes _ before looked
  obtain ⟨hashes, parsed, reported⟩ := reported_texts answer.symm
  have asked := parseBlockHashList_eq_ok.mpr
    (forall₂_take count.toNat (parseBlockHashList_eq_ok.mp parsed))
  rw [reported] at calm asked ⊢
  have started : OnlyBlocks node.store ns (storedTexts ns run.history)
      (run.node.under around).store := kept.tiers.withObjectStore rfl
  have fetch := @dispatchGet_iff node.store ns (run.node.under around) _ _ around.schedule
    calm.lives calm.served (kept.setup.trans (.of rfl)) kept.objects started
    kept.parsed _ asked
  rw [SpelledAsStored, ← fetch]
  generalize ready : run.node.under around = begun
  rcases ran : serve (.get ns ((hexes.take (2 ^ 32 - 1)).takeWhile
      (fun hex => (parseBlockHashHex hex).toOption.any (hashStored ns before)))) around begun
    with ⟨served, after⟩
  obtain ⟨result, fetched, rfl⟩ := answering_ran ran
  rw [fetched]
  cases result with
  | error halt => simp [answered]
  | ok payloads => simp [answered]

end Runs

theorem blockNode_fresh : (blockNode plainStore).Fresh := ⟨rfl, rfl, rfl, rfl⟩

def storeAndLook (stored asked : Text) : DaemonRun :=
  DaemonRun.of (blockNode plainStore)
    ([.put "a".toList [stored] [[1]], .lookup "a".toList [asked]].map quietly)

theorem storeAndLook_reached {stored asked : Text} {answer : Except (Halt DaemonError) DaemonAnswer}
    {total : UInt64} (looked : (storeAndLook stored asked).history =
      [(.lookup "a".toList [asked], answer),
        (.put "a".toList [stored] [[1]], .ok (.stored total))]) :
    (daemonSystem (blockNode plainStore)).Reachable (StoresInto "a".toList)
      (storeAndLook stored asked) := by
  have success := congrArg Prod.snd (List.cons.inj (List.cons.inj looked).2).1
  have put : StoresInto "a".toList ⟨blockNode plainStore, []⟩
      (quietly (.put "a".toList [stored] [[1]])) := ⟨⟨rfl, rfl⟩, rfl, total, success⟩
  have lookup (run : DaemonRun) : StoresInto "a".toList run
      (quietly (.lookup "a".toList [asked])) := ⟨⟨rfl, rfl⟩, trivial⟩
  exact .step (.step .start put rfl) (lookup _) rfl

def fetchAtEnd (run : DaemonRun) (asked : Text) : Except (Halt DaemonError) DaemonAnswer :=
  let taken := quietly (.get "a".toList [asked])
  (serve taken.call taken.around (run.node.under taken.around)).1

theorem lookup_fetch_iff_sameSpelling :
    ∃ payloads, fetchAtEnd (storeAndLook (uniformHex 'a') (uniformHex 'a')) (uniformHex 'a') =
      .ok (.fetched (some payloads)) := by
  have looked : (storeAndLook (uniformHex 'a') (uniformHex 'a')).history =
      [] ++ (.lookup "a".toList [uniformHex 'a'], .ok (.matched 1)) ::
        [(.put "a".toList [uniformHex 'a'] [[1]], .ok (.stored 1))] := by decide +kernel
  refine (lookup_fetch_iff blockNode_fresh (storeAndLook_reached looked) looked ⟨rfl, rfl⟩).mpr ?_
  unfold SpelledAsStored
  decide +kernel

theorem reported_block_is_missed :
    (daemonSystem (blockNode plainStore)).Reachable (StoresInto "a".toList)
        (storeAndLook (uniformHex 'a') (uniformHex 'A')) ∧
      (storeAndLook (uniformHex 'a') (uniformHex 'A')).history =
        [(.lookup "a".toList [uniformHex 'A'], .ok (.matched 1)),
          (.put "a".toList [uniformHex 'a'] [[1]], .ok (.stored 1))] ∧
      fetchAtEnd (storeAndLook (uniformHex 'a') (uniformHex 'A')) (uniformHex 'A') =
        .ok (.fetched none) := by
  have looked : (storeAndLook (uniformHex 'a') (uniformHex 'A')).history =
      [(.lookup "a".toList [uniformHex 'A'], .ok (.matched 1)),
        (.put "a".toList [uniformHex 'a'] [[1]], .ok (.stored 1))] := by decide +kernel
  exact ⟨storeAndLook_reached looked, looked, by decide +kernel⟩

end WombatKV
