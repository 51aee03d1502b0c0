import WombatKV.Proofs.Daemon.Blocks

/-! What a namespace's lookups tell about the blocks of others. -/

namespace WombatKV

open Call BlockNode List

section Counting

variable {α : Type} {few many : α → Bool}

theorem takeWhile_length_eq_iff (wider : ∀ item, few item = true → many item = true)
    (items : List α) :
    (items.takeWhile many).length = (items.takeWhile few).length ↔
      ∀ item, items.find? (!few ·) = some item → many item = false := by
  induction items with
  | nil => simp
  | cons item rest ih =>
    cases known : few item with
    | true =>
      simp only [takeWhile_cons, known, wider item known, if_true, length_cons,
        Nat.add_right_cancel_iff, List.find?_cons_of_neg, Bool.not_true, Bool.false_eq_true,
        not_false_eq_true]
      exact ih
    | false =>
      cases more : many item with
      | true => simp [known, more]
      | false => simp [known, more]

theorem takeWhile_take_length (limit : Nat) (items : List α) :
    ((items.take limit).takeWhile few).length = min (items.takeWhile few).length limit := by
  induction items generalizing limit with
  | nil => simp
  | cons item rest ih =>
    cases limit with
    | zero => simp
    | succ limit =>
      cases known : few item with
      | true => simp [known, ih]
      | false => simp [known]

end Counting

theorem matchedCount_toNat (count : Nat) : (matchedCount count).toNat = min count (2 ^ 32 - 1) := by
  unfold matchedCount
  split
  · rw [UInt32.toNat_ofNat', Nat.mod_eq_of_lt (by assumption)]
    omega
  · change 2 ^ 32 - 1 = _
    omega

theorem matchedCount_eq_iff {left right : Nat} :
    matchedCount left = matchedCount right ↔ min left (2 ^ 32 - 1) = min right (2 ^ 32 - 1) := by
  rw [← UInt32.toNat_inj, matchedCount_toNat, matchedCount_toNat]

structure Follows (call : DaemonCall) (before after : BlockNode) : Prop where
  setup : before.store.SameSetup after.store
  indexed : ∀ hash, after.Indexed hash ↔
    before.Indexed hash ∨ hash ∈ call.blocksStored before.store

def expectedAnswer (known : BlockHash → Bool) (hexes : List Text) :
    Except (Halt DaemonError) DaemonAnswer :=
  match parseBlockHashList hexes with
  | .error (index, error) => .error (.failed (.blocks (.hash index error)))
  | .ok hashes => .ok (.matched (matchedCount (hashes.takeWhile known).length))

theorem take_matchedCount {hexes : List Text} {hashes : List BlockHash}
    (parsed : parseBlockHashList hexes = .ok hashes) (known : BlockHash → Bool) :
    hexes.take (matchedCount (hashes.takeWhile known).length).toNat =
      (hexes.take (2 ^ 32 - 1)).takeWhile
        (fun hex => (parseBlockHashHex hex).toOption.any known) := by
  have pairs := parseBlockHashList_eq_ok.mp parsed
  have alike : (hexes.takeWhile (fun hex => (parseBlockHashHex hex).toOption.any known)).length =
      (hashes.takeWhile known).length := by
    clear parsed
    induction pairs with
    | nil => rfl
    | @cons hex hash _ _ read _ ih =>
      have judged : (parseBlockHashHex hex).toOption.any known = known hash := by
        rw [read]
        rfl
      simp only [takeWhile_cons, judged]
      cases known hash with
      | true => simp [ih]
      | false => rfl
  have leading := (List.takeWhile_prefix (fun hex => (parseBlockHashHex hex).toOption.any known)
    (l := hexes.take (2 ^ 32 - 1))).trans (List.take_prefix _ hexes)
  rw [prefix_iff_eq_take.mp leading, takeWhile_take_length, alike, matchedCount_toNat]

theorem reported_texts {known : BlockHash → Bool} {hexes : List Text} {count : UInt32}
    (answer : expectedAnswer known hexes = .ok (.matched count)) :
    ∃ hashes, parseBlockHashList hexes = .ok hashes ∧
      hexes.take count.toNat = (hexes.take (2 ^ 32 - 1)).takeWhile
        (fun hex => (parseBlockHashHex hex).toOption.any known) := by
  unfold expectedAnswer at answer
  cases parsed : parseBlockHashList hexes with
  | error error =>
    rw [parsed] at answer
    cases answer
  | ok hashes =>
    rw [parsed] at answer
    cases answer
    exact ⟨hashes, rfl, take_matchedCount parsed known⟩

section Calls

variable {node : BlockNode}

theorem follows_of_storeOnly {call : DaemonCall} {after : BlockNode} (frame : StoreOnly node after)
    (setup : node.store.SameSetup after.store) (none : call.blocksStored node.store = []) :
    Follows call node after := by
  refine ⟨setup, fun hash => ?_⟩
  simp [Indexed, frame.metadataIndex, none]

theorem serve_lookup (ns : Text) (hexes : List Text) (around : Circumstances) :
    serve (.lookup ns hexes) around node =
      (expectedAnswer node.metadataIndex.entries.contains hexes, node) := by
  simp only [serve, answering, expectedAnswer]
  cases parsed : parseBlockHashList hexes with
  | error error =>
    apply Call.bind_error
    simp only [Call.mapError, dispatchLookupBlockPrefix, parseHashes, parsed, Except.mapError,
      Call.lift_error_bind_apply, Halt.map]
  | ok hashes =>
    have ran : Call.mapError (Halt.map DaemonError.blocks) (dispatchLookupBlockPrefix ns hexes) node =
        (.ok (matchedCount (node.metadataIndex.longestPrefix hashes)), node) := by
      simp only [Call.mapError, dispatchLookupBlockPrefix, parseHashes, parsed, Except.mapError,
        Call.lift_ok_bind_apply, Call.get_bind_apply, Call.pure_apply]
    rw [Call.bind_ok ran, InMemoryMetadataIndex.longestPrefix_eq]
    rfl

theorem dispatchGet_follows (ns : Text) (hexes : List Text) (schedule : Schedule) :
    (dispatchGetKvBlocksBatch ns hexes schedule).Ensures (fun _ => Follows (.get ns hexes) node)
      node :=
  (dispatchGet_undisturbed node.store.tiersMeet_any fun _ _ _ => id).weaken fun _ _ kept =>
    follows_of_storeOnly kept.1 kept.2.setup rfl

theorem dispatchPut_follows (healthy : node.store.objectStore.Healthy)
    (lives : node.stepsLeft = none) (ns : Text) (hexes : List Text) (payloads : List Bytes)
    (schedule : Schedule) :
    (dispatchPutKvBlocksBatch ns hexes payloads schedule).Ensures
      (fun _ => Follows (.put ns hexes payloads) node) node := by
  let settled (number : Nat) (result : Except BlockError Unit) (_ : BlockNode) : Prop :=
    ∀ payload, payloads[number]? = some payload → (result = .ok () ↔ node.store.encodes payload = true)
  refine @ensures_dispatchPut node ns hexes payloads schedule
    (fun now => StoreOnly node now ∧ node.store.SameSetup now.store ∧ now.store.objectStore.Healthy)
    (fun _ => False) settled _ ?_ ⟨.refl node, .refl _, healthy⟩ ?_ (fun _ dead => dead.elim) ?_ ?_
  · -- A batch that does not parse stores nothing.
    intro error unparsed
    refine follows_of_storeOnly (.refl node) (.refl _) ?_
    simp only [DaemonCall.blocksStored]
    split
    · rename_i matched
      cases parsed : parseBlockHashList hexes with
      | ok hashes => exact absurd parsed (unparsed matched.1 hashes)
      | error error => rfl
    · rfl
  · -- A put on a healthy store fails only if its payload cannot be encoded.
    intro number hex payload _ isPayload
    refine @storeBlock_settles node
      (fun store => node.store.SameSetup store ∧ store.objectStore.Healthy) (fun _ => False)
      (fun number result _ => ∀ payload, payloads[number]? = some payload →
        (result = .ok () ↔ node.store.encodes payload = true)) number _ _ _ _ ?_ ?_
    · intro now frame _ counted
      exact counted (frame.lives lives)
    · rintro store ⟨setup, calm⟩
      refine (putKv_putInto store ns _ payload _).weaken fun result after put => ?_
      refine ⟨⟨setup.trans put.setup, put.healthy calm⟩, fun _ _ => id, ?_⟩
      intro other same
      cases isPayload.symm.trans same
      have encoding : store.encodes payload = node.store.encodes payload := by
        simp only [WombatKVKvStore.encodes, setup.zstd, setup.compression]
      rw [← encoding, ← put.succeeds calm]
      cases result <;> simp [Except.mapError]
  · -- A thread that failed had a payload that cannot be encoded.
    intro between number error inside held failed
    refine follows_of_storeOnly held.1 held.2.1 ?_
    have found : payloads[number]? = some payloads[number] := List.getElem?_eq_getElem inside
    have refused : node.store.encodes payloads[number] ≠ true :=
      fun encodes => nomatch (failed _ found).mpr encodes
    simp only [DaemonCall.blocksStored]
    rw [if_neg]
    rintro ⟨_, every⟩
    exact refused (all_eq_true.mp every _ (getElem_mem inside))
  · -- All threads have stored their blocks, which are entered now.
    intro between hashes matched parsed held each
    have encodes : payloads.all node.store.encodes = true := by
      rw [all_eq_true]
      intro payload member
      obtain ⟨number, inside, rfl⟩ := getElem_of_mem member
      exact (each number inside _ (List.getElem?_eq_getElem inside)).mp rfl
    have entered : DaemonCall.blocksStored node.store (.put ns hexes payloads) = hashes := by
      simp only [DaemonCall.blocksStored, matched, encodes, and_self, if_true, parsed]
      rfl
    have names : (hashes.zip payloads).map Prod.fst = hashes := by
      apply map_fst_zip
      rw [← matched, (parseBlockHashList_eq_ok.mp parsed).length_eq]
    refine (indexBlocks_enters (hashes.zip payloads) 0).weaken fun result after ended => ?_
    rw [names] at ended
    match result with
    | .error (.failed _) => exact ended.elim
    | .error .crashed => exact absurd (held.1.lives lives) ended.2
    | .ok _ =>
      obtain ⟨enters, done⟩ := ended
      refine ⟨by rw [enters.store]; exact held.2.1, fun hash => ?_⟩
      have unchanged : between.Indexed hash ↔ node.Indexed hash := by
        simp only [Indexed, held.1.metadataIndex]
      rw [entered, ← unchanged]
      exact ⟨enters.indexed hash, fun found => found.elim (enters.stillIndexed hash)
        fun member => (done hash member).1⟩

theorem serve_follows (healthy : node.store.objectStore.Healthy) (lives : node.stepsLeft = none)
    (call : DaemonCall) (keeps : ∀ config target, call ≠ .evict config target)
    (around : Circumstances) : (serve call around).Ensures (fun _ => Follows call node) node := by
  cases call with
  | lookup ns hexes =>
    rw [Ensures, serve_lookup]
    exact follows_of_storeOnly (.refl node) (.refl _) rfl
  | get ns hexes =>
    exact ensures_answering.mpr (dispatchGet_follows ns hexes around.schedule)
  | put ns hexes payloads =>
    exact ensures_answering.mpr (dispatchPut_follows healthy lives ns hexes payloads around.schedule)
  | kv call =>
    simp only [serve, ensures_bind, ensures_mapError]
    refine ensures_onStore (absurd lives) fun left _ => ?_
    refine (WombatKVKvStore.perform_setup call _).weaken fun result after setup => ?_
    have follows : Follows (.kv call) node { node with store := after, stepsLeft := left } :=
      ⟨setup, fun hash => by simp [Indexed, DaemonCall.blocksStored]⟩
    cases result <;> exact follows
  | evict config target => exact absurd rfl (keeps config target)

end Calls

def answerTo (ns : Text) (known : BlockHash → Bool) :
    DaemonCall → Option (Except (Halt DaemonError) DaemonAnswer)
  | .lookup other hexes => if other = ns then some (expectedAnswer known hexes) else none
  | _ => none

def expectedAnswers (ns : Text) (stored : DaemonCall → List BlockHash) :
    (BlockHash → Bool) → List DaemonCall → List (Except (Halt DaemonError) DaemonAnswer)
  | _, [] => []
  | known, call :: rest => (answerTo ns known call).toList ++
      expectedAnswers ns stored (fun hash => known hash || hash ∈ stored call) rest

theorem blocksStored_setup {left right : WombatKVKvStore} (setup : left.SameSetup right)
    (call : DaemonCall) : call.blocksStored right = call.blocksStored left := by
  have encodes : right.encodes = left.encodes := by
    funext payload
    simp only [WombatKVKvStore.encodes, setup.zstd, setup.compression]
  cases call <;> simp only [DaemonCall.blocksStored, encodes]

theorem lookupAnswers_step {run : DaemonRun} {taken : DaemonStep} (calm : taken.Calm)
    (keeps : ∀ config target, taken.call ≠ .evict config target) (ns : Text) :
    Follows taken.call run.node (run.step taken).node ∧
      lookupAnswers ns (run.step taken).history = lookupAnswers ns run.history ++
        (answerTo ns run.node.metadataIndex.entries.contains taken.call).toList := by
  generalize ready : run.node.under taken.around = begun
  have healthy : begun.store.objectStore.Healthy := by
    rw [← ready]
    exact calm.served
  have lives : begun.stepsLeft = none := by
    rw [← ready]
    exact calm.lives
  have index : begun.metadataIndex = run.node.metadataIndex := by rw [← ready]; rfl
  have setup : run.node.store.SameSetup begun.store := by
    rw [← ready]
    exact .of rfl
  have follows := serve_follows healthy lives taken.call keeps taken.around
  rcases ran : serve taken.call taken.around begun with ⟨answer, after⟩
  have stepped : run.step taken = ⟨after, (taken.call, answer) :: run.history⟩ := by
    simp only [DaemonRun.step, ready, ran]
  simp only [Ensures, ran] at follows
  rw [stepped]
  refine ⟨⟨setup.trans follows.setup, fun hash => ?_⟩, ?_⟩
  · rw [follows.indexed, blocksStored_setup setup]
    simp only [Indexed, index]
  · cases kind : taken.call with
    | lookup other hexes =>
      rw [kind, serve_lookup, index] at ran
      cases ran
      simp only [lookupAnswers, reverse_cons, filterMap_append, answerTo]
      split <;> simp [*]
    | get other hexes | put other hexes payloads | kv call | evict config target =>
      simp [lookupAnswers, answerTo]

theorem lookupAnswers_run {node : BlockNode} (ns : Text) {taken : List DaemonStep}
    (undisturbed : Undisturbing taken) {run : DaemonRun}
    (setup : node.store.SameSetup run.node.store) :
    lookupAnswers ns (taken.foldl DaemonRun.step run).history = lookupAnswers ns run.history ++
      expectedAnswers ns (·.blocksStored node.store) run.node.metadataIndex.entries.contains
        (taken.map (·.call)) := by
  induction taken generalizing run with
  | nil => simp [expectedAnswers]
  | cons step rest ih =>
    obtain ⟨calm, keeps⟩ := undisturbed step (mem_cons_self ..)
    obtain ⟨follows, answers⟩ := @lookupAnswers_step run step calm keeps ns
    have known : (run.step step).node.metadataIndex.entries.contains = fun hash =>
        run.node.metadataIndex.entries.contains hash ||
          decide (hash ∈ step.call.blocksStored node.store) := by
      funext hash
      rw [Bool.eq_iff_iff]
      have indexed := follows.indexed hash
      rw [blocksStored_setup setup] at indexed
      simpa [Indexed] using indexed
    rw [foldl_cons, ih (fun other member => undisturbed other (mem_cons_of_mem _ member))
      (setup.trans follows.setup), answers, known]
    simp only [map_cons, expectedAnswers, append_assoc]

section Leading

variable {ns : Text} {stored : DaemonCall → List BlockHash} {few many : BlockHash → Bool}

theorem expectedAnswer_eq_iff (wider : ∀ hash, few hash = true → many hash = true)
    (hexes : List Text) :
    expectedAnswer many hexes = expectedAnswer few hexes ↔
      ∀ hashes, parseBlockHashList hexes = .ok hashes →
        ∀ hash, firstUnknown few hashes = some hash → many hash = false := by
  unfold expectedAnswer
  cases parsed : parseBlockHashList hexes with
  | error error => simp
  | ok hashes =>
    simp only [Except.ok.injEq, DaemonAnswer.matched.injEq, matchedCount_eq_iff, forall_eq']
    rw [← takeWhile_take_length, ← takeWhile_take_length, takeWhile_length_eq_iff wider]
    rfl

def UnledFrom (ns : Text) (stored : DaemonCall → List BlockHash) (few many : BlockHash → Bool)
    (calls : List DaemonCall) : Prop :=
  ∀ earlier hexes later hashes, calls = earlier ++ .lookup ns hexes :: later →
    parseBlockHashList hexes = .ok hashes →
    ∀ hash, firstUnknown (fun hash =>
        few hash || hash ∈ (earlier.filter (·.seenBy ns)).flatMap stored) hashes = some hash →
      (many hash || hash ∈ earlier.flatMap stored) = false

theorem known_cons (call : DaemonCall) (earlier : List DaemonCall) :
    (fun hash => few hash ||
        decide (hash ∈ ((call :: earlier).filter (·.seenBy ns)).flatMap stored)) =
      fun hash => (few hash || call.seenBy ns && decide (hash ∈ stored call)) ||
        decide (hash ∈ (earlier.filter (·.seenBy ns)).flatMap stored) := by
  funext hash
  rw [Bool.eq_iff_iff]
  cases seen : call.seenBy ns with
  | true => simp [seen, or_assoc]
  | false => simp [seen]

theorem unledFrom_cons {call : DaemonCall} {rest : List DaemonCall} :
    UnledFrom ns stored few many (call :: rest) ↔
      (∀ hexes, call = .lookup ns hexes → ∀ hashes, parseBlockHashList hexes = .ok hashes →
        ∀ hash, firstUnknown few hashes = some hash → many hash = false) ∧
      UnledFrom ns stored
        (fun hash => few hash || call.seenBy ns && decide (hash ∈ stored call))
        (fun hash => many hash || hash ∈ stored call) rest := by
  constructor
  · intro unled
    refine ⟨?_, ?_⟩
    · rintro hexes rfl hashes parsed hash unknown
      simpa using unled [] hexes rest hashes rfl parsed hash (by simpa using unknown)
    · rintro earlier hexes later hashes rfl parsed hash unknown
      rw [← known_cons] at unknown
      have led := unled (call :: earlier) hexes later hashes rfl parsed hash unknown
      simpa [and_assoc] using led
  · rintro ⟨first, others⟩ earlier hexes later hashes split parsed hash unknown
    cases earlier with
    | nil =>
      obtain ⟨rfl, rfl⟩ := List.cons.inj split
      simpa using first hexes rfl hashes parsed hash (by simpa using unknown)
    | cons head earlier =>
      obtain ⟨rfl, rfl⟩ := List.cons.inj split
      rw [known_cons] at unknown
      have led := others earlier hexes later hashes rfl parsed hash unknown
      simpa [and_assoc] using led

theorem expectedAnswers_filter_iff (wider : ∀ hash, few hash = true → many hash = true)
    (calls : List DaemonCall) :
    expectedAnswers ns stored many calls =
        expectedAnswers ns stored few (calls.filter (·.seenBy ns)) ↔
      UnledFrom ns stored few many calls := by
  induction calls generalizing few many with
  | nil =>
    refine ⟨fun _ earlier hexes later hashes split => ?_, fun _ => rfl⟩
    simp at split
  | cons call rest ih =>
    have widerOn : ∀ hash, (few hash || call.seenBy ns && decide (hash ∈ stored call)) = true →
        (many hash || decide (hash ∈ stored call)) = true := by
      intro hash known
      simp only [Bool.or_eq_true, Bool.and_eq_true] at known ⊢
      exact known.imp (wider hash) (·.2)
    have rested := ih widerOn
    rw [unledFrom_cons, ← rested]
    cases seen : call.seenBy ns with
    | false =>
      cases call with
      | put other hexes payloads =>
        simp [seen, expectedAnswers, answerTo]
      | lookup other hexes | get other hexes | kv call | evict config target => cases seen
    | true =>
      rw [filter_cons_of_pos seen, expectedAnswers, expectedAnswers]
      simp only [Bool.true_and]
      cases call with
      | lookup other hexes =>
        by_cases mine : other = ns
        · subst mine
          simp only [answerTo, if_true, Option.toList_some, singleton_append, List.cons.injEq,
            expectedAnswer_eq_iff wider, DaemonCall.lookup.injEq, true_and, forall_eq']
        · simp [answerTo, mine]
      | get other hexes | put other hexes payloads | kv call | evict config target =>
        simp [answerTo]

end Leading

theorem unled_iff {node : BlockNode} {ns : Text} {calls : List DaemonCall} :
    Unled node ns calls ↔ UnledFrom ns (·.blocksStored node.store)
      node.metadataIndex.entries.contains node.metadataIndex.entries.contains calls := by
  have others (earlier : List DaemonCall) (hashes : List BlockHash) (hash : BlockHash)
      (unknown : firstUnknown (fun hash => node.metadataIndex.entries.contains hash ||
        decide (hash ∈ (earlier.filter (·.seenBy ns)).flatMap (·.blocksStored node.store)))
        hashes = some hash) :
      (node.metadataIndex.entries.contains hash ||
        decide (hash ∈ earlier.flatMap (·.blocksStored node.store))) = false ↔
      hash ∉ (earlier.filter (!·.seenBy ns)).flatMap (·.blocksStored node.store) := by
    have missing := List.find?_some unknown
    simp only [Bool.not_eq_true', Bool.or_eq_false_iff, decide_eq_false_iff_not] at missing
    simp only [missing.1, Bool.false_or, decide_eq_false_iff_not, mem_flatMap,
      mem_filter, not_exists, not_and, Bool.not_eq_true'] at missing ⊢
    refine ⟨fun absent call member => absent call member.1, fun absent call member => ?_⟩
    by_cases seen : call.seenBy ns = true
    · exact missing.2 call ⟨member, seen⟩
    · exact absent call ⟨member, by simpa using seen⟩
  constructor
  · intro unled earlier hexes later hashes split parsed hash unknown
    exact (others earlier hashes hash unknown).mpr
      (unled earlier hexes later hashes split parsed hash unknown)
  · intro unled earlier hexes later hashes split parsed own foreign hash unknown
    exact (others earlier hashes hash unknown).mp
      (unled earlier hexes later hashes split parsed hash unknown)

theorem lookupAnswers_of (node : BlockNode) (ns : Text) {taken : List DaemonStep}
    (undisturbed : Undisturbing taken) :
    lookupAnswers ns (DaemonRun.of node taken).history =
      expectedAnswers ns (·.blocksStored node.store) node.metadataIndex.entries.contains
        (taken.map (·.call)) :=
  @lookupAnswers_run node ns taken undisturbed ⟨node, []⟩ (.refl _)

/-- A namespace's lookups show nothing of other namespaces' batches exactly when none is led on. -/
theorem lookups_isolated_iff (node : BlockNode) (ns : Text) {left right : List DaemonStep}
    (leftUndisturbed : Undisturbing left) (rightUndisturbed : Undisturbing right)
    (same : (left.map (·.call)).filter (·.seenBy ns) = (right.map (·.call)).filter (·.seenBy ns)) :
    (lookupAnswers ns (DaemonRun.of node left).history =
        lookupAnswers ns (DaemonRun.of node (left.filter (·.call.seenBy ns))).history ↔
      Unled node ns (left.map (·.call))) ∧
    (Unled node ns (left.map (·.call)) → Unled node ns (right.map (·.call)) →
      lookupAnswers ns (DaemonRun.of node left).history =
        lookupAnswers ns (DaemonRun.of node right).history) := by
  have purged : Undisturbing (left.filter (·.call.seenBy ns)) :=
    fun step member => leftUndisturbed step (mem_of_mem_filter member)
  have calls : (left.filter (·.call.seenBy ns)).map (·.call) =
      (left.map (·.call)).filter (·.seenBy ns) := by
    rw [filter_map]
    rfl
  rw [lookupAnswers_of node ns leftUndisturbed, lookupAnswers_of node ns rightUndisturbed,
    lookupAnswers_of node ns purged, calls, unled_iff, unled_iff,
    expectedAnswers_filter_iff fun _ => id]
  refine ⟨Iff.rfl, fun leftUnled rightUnled => ?_⟩
  rw [(expectedAnswers_filter_iff (fun _ => id) _).mpr leftUnled,
    (expectedAnswers_filter_iff (fun _ => id) _).mpr rightUnled, same]

theorem undisturbing_quietly {calls : List DaemonCall}
    (keeps : ∀ call ∈ calls, ∀ config target, call ≠ .evict config target) :
    Undisturbing (calls.map quietly) := by
  intro step member
  obtain ⟨call, inside, rfl⟩ := mem_map.mp member
  exact ⟨⟨rfl, rfl⟩, keeps call inside⟩

def ownBlockCalls : List DaemonCall :=
  [.put "b".toList [uniformHex 'b'] [[2]], .put "a".toList [uniformHex 'a'] [[1]],
    .lookup "a".toList [uniformHex 'a']]

theorem lookups_isolated_iff_ownBlock :
    Unled (blockNode plainStore) "a".toList ((ownBlockCalls.map quietly).map (·.call)) :=
  (@lookups_isolated_iff (blockNode plainStore) "a".toList (ownBlockCalls.map quietly)
    ((ownBlockCalls.drop 1).map quietly) (undisturbing_quietly (by simp [ownBlockCalls]))
    (undisturbing_quietly (by simp [ownBlockCalls])) (by decide +kernel)).1.mp (by decide +kernel)

theorem foreign_block_is_reported :
    lookupAnswers "a".toList (DaemonRun.of (blockNode plainStore)
        ([.put "b".toList [uniformHex 'b'] [[2]], .lookup "a".toList [uniformHex 'b']].map
          quietly)).history = [.ok (.matched 1)] ∧
      lookupAnswers "a".toList (DaemonRun.of (blockNode plainStore)
        ([.lookup "a".toList [uniformHex 'b']].map quietly)).history = [.ok (.matched 0)] := by
  decide +kernel

end WombatKV
