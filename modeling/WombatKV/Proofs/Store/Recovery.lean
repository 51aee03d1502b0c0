import WombatKV.Proofs.Store.Accounts

/-! When replay of one node's log returns what was published. -/

namespace WombatKV

section

open ObjectStore

theorem WalObjectName.walKeyEpoch_key (namespacePrefix : Text) (name : WalObjectName) :
    walKeyEpoch namespacePrefix (name.key namespacePrefix) = some name.epochMs := by
  obtain ⟨filename, keyed, parses⟩ := key_eq namespacePrefix name
  simp [walKeyEpoch, keyed, dropPrefix?_namespace, parseCanonicalTail_epoch, parses]

namespace NodeHistory

variable {namespacePrefix nodeId : Text} {earlier : List Segment} {history : NodeHistory}

theorem Sound.permit {node : NodeId}
    (sound : Sound namespacePrefix node earlier (fun _ => False) history) :
    Sound namespacePrefix node earlier
      (fun reading => history.movedOn namespacePrefix reading = true) history := by
  obtain ⟨segments, unflushed, low, account, split⟩ := sound.accounted
  refine ⟨⟨segments, unflushed, low, { account with named := ?_ }, split⟩, sound.unbuffered⟩
  intro segment member
  obtain ⟨name, keyed, -⟩ := account.named segment member
  refine ⟨name, keyed, fun none reading moved => ?_⟩
  have atZero : history.nextAtZero = true := by
    simp [nextAtZero, account.next, none]
  have present := Std.ExtTreeMap.mem_keys.mpr (account.arranged.present member)
  simp only [movedOn, atZero, Bool.not_true, Bool.false_or, epochsBefore, List.all_eq_true]
    at moved
  have past := moved segment.key present
  rw [keyed, WalObjectName.walKeyEpoch_key] at past
  simpa using past

theorem Sound.forget {node : NodeId} {readings : UInt64 → Prop}
    (sound : Sound namespacePrefix node earlier readings history) :
    Sound namespacePrefix node earlier (fun _ => False) history := by
  obtain ⟨segments, unflushed, low, account, split⟩ := sound.accounted
  refine ⟨⟨segments, unflushed, low, { account with named := ?_ }, split⟩, sound.unbuffered⟩
  intro segment member
  obtain ⟨name, keyed, -⟩ := account.named segment member
  exact ⟨name, keyed, fun _ _ never => never.elim⟩

theorem Sound.restartUnlisted
    (sound : Sound namespacePrefix (sanitizeNodeId nodeId) earlier (fun _ => False) history)
    (zeros : startAtZero namespacePrefix history.live.walStore.objects = true)
    (policy : Option WalBatchPolicy) (error : WalStoreError) :
    Sound namespacePrefix (sanitizeNodeId nodeId) earlier (fun _ => False)
      (history.restartUnlisted namespacePrefix nodeId policy error) := by
  obtain ⟨segments, unflushed, low, account, split⟩ := sound.accounted
  obtain ⟨store, empty, unbuffered⟩ := LiveStore.opened_eq namespacePrefix nodeId
    (history.live.walStore.objectStore.failingOnce error) policy
  have recovered : WalStore.withNodeId namespacePrefix nodeId
      (history.live.walStore.objectStore.failingOnce error) =
        { namespacePrefix, nodeId := sanitizeNodeId nodeId, nextSeq := 0,
          objectStore := { history.live.walStore.objectStore with faults := fun _ => none } } := rfl
  rw [NodeHistory.restartUnlisted, (written_eq account.encodings split).1]
  refine ⟨⟨segments, [], 0, ?_, by simp⟩, unbuffered⟩
  show Account _ _ _ _ (LiveStore.opened ..).walStore (LiveStore.opened ..).buffer _ _ _
  rw [store, empty, recovered]
  refine ⟨rfl, rfl, rfl, account.arranged, account.kept, ?_, ?_, account.bounded, trivial, rfl,
    .nil⟩
  · intro segment member
    obtain ⟨name, keyed, -⟩ := account.named segment member
    exact ⟨name, keyed, fun _ _ never => never.elim⟩
  · intro segment member
    obtain ⟨parsed, named, -, start, -⟩ := (account.arranged.valid segment member).named
    have present := Std.ExtTreeMap.mem_keys.mpr (account.arranged.present member)
    simp only [startAtZero, List.all_eq_true] at zeros
    have zero := zeros segment.key present
    simp only [named, Option.all_some, decide_eq_true_eq] at zero
    refine .inr ⟨?_, rfl⟩
    rw [← start, zero]
    rfl

theorem movedOn_of_le {reading later : UInt64}
    (moved : history.movedOn namespacePrefix reading = true) (behind : reading ≤ later) :
    history.movedOn namespacePrefix later = true := by
  simp only [movedOn, epochsBefore, Bool.or_eq_true, List.all_eq_true] at moved ⊢
  refine moved.imp id fun epochs key member => ?_
  have before := epochs key member
  cases named : walKeyEpoch namespacePrefix key with
  | none => rfl
  | some epochMs =>
    simp only [named, Option.all_some, decide_eq_true_eq] at before ⊢
    exact UInt64.lt_of_lt_of_le before behind

theorem Sound.recoveryStep
    (sound : Sound namespacePrefix (sanitizeNodeId nodeId) earlier (fun _ => False) history)
    {taken : RecoveryStep} (ordered : history.keepsOrder namespacePrefix taken = true)
    {after : NodeHistory} (made : history.recoveryStep namespacePrefix nodeId taken = some after) :
    Sound namespacePrefix (sanitizeNodeId nodeId) earlier (fun _ => False) after := by
  cases taken with
  | restartUnlisted policy error =>
    cases made
    exact sound.restartUnlisted ordered policy error
  | act taken =>
    have allowed : history.NumbersLeft taken ∧
        Reads (fun reading => history.movedOn namespacePrefix reading = true) taken := by
      cases taken with
      | publish record nowMs clock turns =>
        simp only [keepsOrder, Bool.and_eq_true, decide_eq_true_eq] at ordered
        obtain ⟨⟨left, first⟩, second⟩ := ordered
        exact ⟨left, first, movedOn_of_le first Std.right_le_max, second⟩
      | flushDue nowMs currentEpochMs => exact ⟨trivial, ordered⟩
      | flushNow nowMs currentEpochMs => exact ⟨trivial, ordered⟩
      | restart policy => exact ⟨trivial, trivial⟩
    exact (sound.permit.step allowed.1 allowed.2 made).forget

theorem Sound.of_recovery {putPolicy : PutPolicy} {first : Option WalBatchPolicy}
    (reached : (recoverySystem namespacePrefix nodeId putPolicy first).Reachable
      (fun history taken => history.keepsOrder namespacePrefix taken = true) history) :
    Sound namespacePrefix (sanitizeNodeId nodeId) [] (fun _ => False) history := by
  have initial : Sound namespacePrefix (sanitizeNodeId nodeId) [] (fun _ => False)
      (recoverySystem namespacePrefix nodeId putPolicy first).start := .start ..
  exact reached.invariant initial fun _ _ _ sound ordered made => sound.recoveryStep ordered made

end NodeHistory

/-- The log of a node whose listings failed only where they may is replayed in order: what was
written before such a restart, then what was written after it. -/
theorem unlisted_restarts_keep_order (namespacePrefix nodeId : Text) (putPolicy : PutPolicy)
    (first policy : Option WalBatchPolicy) (error : WalStoreError) {before after : NodeHistory}
    (reached : (recoverySystem namespacePrefix nodeId putPolicy first).Reachable
      (fun history taken => history.keepsOrder namespacePrefix taken = true) before)
    (failed : before.keepsOrder namespacePrefix (.restartUnlisted policy error) = true)
    (onward : ((recoverySystem namespacePrefix nodeId putPolicy first).startingAt
        (before.restartUnlisted namespacePrefix nodeId policy error)).Reachable
      (fun history taken => history.keepsOrder namespacePrefix taken = true) after) :
    ∃ later, after.written = before.written ++ later ∧
      after.live.replayRecords = .ok (before.written ++ later) := by
  have sound := NodeHistory.Sound.of_recovery reached
  obtain ⟨segments, unflushed, low, account, split⟩ := sound.accounted
  have written := (NodeHistory.written_eq account.encodings split).1
  have marked : before.Sound namespacePrefix (sanitizeNodeId nodeId) segments fun _ => False :=
    ⟨⟨segments, unflushed, low, { account with kept := List.prefix_rfl }, split⟩,
      sound.unbuffered⟩
  have ended : after.Sound namespacePrefix (sanitizeNodeId nodeId) segments fun _ => False :=
    onward.invariant (marked.restartUnlisted failed policy error)
      fun _ _ _ sound ordered made => sound.recoveryStep ordered made
  obtain ⟨all, waiting, _, last, whole⟩ := ended.accounted
  obtain ⟨more, rfl⟩ := last.kept
  have all := (NodeHistory.written_eq last.encodings whole).1
  have arranged := last.arranged
  rw [← last.sameNamespace] at arranged
  refine ⟨more.flatMap Segment.records, ?_, ?_⟩
  · rw [all, written, List.flatMap_append]
  · rw [LiveStore.replayRecords_eq, arranged.replay last.healthy, written, List.flatMap_append]

theorem unlisted_restarts_keep_order_zero :
    ∃ before after : NodeHistory, before.written = [⟨[65], [], []⟩] ∧
      after.written = [⟨[65], [], []⟩, ⟨[66], [], []⟩] ∧
      ∃ later, after.written = before.written ++ later ∧
        after.live.replayRecords = .ok (before.written ++ later) := by
  let node := recoverySystem "wal".toList "n".toList .replace none
  let check := fun (history : NodeHistory) taken => history.keepsOrder "wal".toList taken
  have ran : (node.run check node.start
      [.restartUnlisted none .objectStorePoisoned,
        .act (.publish ⟨[65], [], []⟩ 9 (fun _ => 5) 1)]).map (fun before =>
          (before.written, before.keepsOrder "wal".toList (.restartUnlisted none .objectStorePoisoned),
            ((node.run check (before.restartUnlisted "wal".toList "n".toList none
              .objectStorePoisoned)
            [.act (.publish ⟨[66], [], []⟩ 9 (fun _ => 6) 1)]).map NodeHistory.written))) =
      some ([⟨[65], [], []⟩], true, some [⟨[65], [], []⟩, ⟨[66], [], []⟩]) := by decide +kernel
  obtain ⟨before, ran, rest⟩ := Option.map_eq_some_iff.mp ran
  simp only [Prod.mk.injEq] at rest
  obtain ⟨written, failed, rest⟩ := rest
  obtain ⟨after, onward, both⟩ := Option.map_eq_some_iff.mp rest
  have reached := System.Reachable.start.run (fun _ _ passed => passed) ran
  have further : (node.startingAt (before.restartUnlisted "wal".toList "n".toList none
      .objectStorePoisoned)).Reachable (fun history taken =>
        history.keepsOrder "wal".toList taken = true) after := by
    rw [← System.run_startingAt (before.restartUnlisted ..)] at onward
    exact System.Reachable.start.run (fun _ _ passed => passed) onward
  exact ⟨before, after, written, both,
    unlisted_restarts_keep_order _ _ _ _ none .objectStorePoisoned reached failed further⟩

theorem unlisted_restart_reorders :
    ∃ history, (recoverySystem "wal".toList "n".toList .replace none).Reachable
        (fun _ _ => True) history ∧
      history.written = [⟨[65], [], []⟩, ⟨[66], [], []⟩] ∧
      history.live.replayRecords = .ok [⟨[66], [], []⟩, ⟨[65], [], []⟩] := by
  let node := recoverySystem "wal".toList "n".toList .replace none
  have ran : (node.run (fun _ _ => true) node.start
      [.act (.publish ⟨[65], [], []⟩ 9 (fun _ => 5) 1), .restartUnlisted none .objectStorePoisoned,
        .act (.publish ⟨[66], [], []⟩ 9 (fun _ => 6) 1)]).map (fun history =>
          (history.written, history.live.replayRecords.toOption)) =
      some ([⟨[65], [], []⟩, ⟨[66], [], []⟩],
        some [⟨[66], [], []⟩, ⟨[65], [], []⟩]) := by decide +kernel
  obtain ⟨history, ran, rest⟩ := Option.map_eq_some_iff.mp ran
  simp only [Prod.mk.injEq] at rest
  obtain ⟨written, replayed⟩ := rest
  refine ⟨history, System.Reachable.start.run (fun _ _ _ => trivial) ran, written, ?_⟩
  cases answer : history.live.replayRecords with
  | error error => simp [answer, Except.toOption] at replayed
  | ok records =>
    rw [answer] at replayed
    rw [Option.some.inj replayed]

/-- Where no object starts at zero, the next record after a failed listing is replayed before all
that was written, whatever the clock reads. -/
theorem unlisted_publish_comes_first (namespacePrefix nodeId : Text) (putPolicy : PutPolicy)
    (first : Option WalBatchPolicy) (error : WalStoreError) {before : NodeHistory}
    (reached : (recoverySystem namespacePrefix nodeId putPolicy first).Reachable
      (fun history taken => history.keepsOrder namespacePrefix taken = true) before)
    (numbered : ∀ key ∈ before.live.walStore.objects, ∀ parsed,
      parseWalObjectKey namespacePrefix key = some parsed → parsed.startSeq ≠ 0)
    {record : WalRecord} {bytes : Bytes} (encoded : encodeWalRecord record = .ok bytes)
    (nowMs : UInt64) (clock : Nat → UInt64) (turns : Nat) :
    ∃ after, (before.restartUnlisted namespacePrefix nodeId none error).live.publishRecord
        (turns + 1) clock record nowMs = some after ∧
      after.replayRecords = .ok (record :: before.written) := by
  have sound := NodeHistory.Sound.of_recovery reached
  obtain ⟨segments, unflushed, low, account, split⟩ := sound.accounted
  let opened := WalStore.withNodeId namespacePrefix nodeId
    (before.live.walStore.objectStore.failingOnce error)
  let segment : Segment := ⟨buildCanonicalWalKey namespacePrefix (sanitizeNodeId nodeId).text
    (clock 0) 0, bytes, [record], (0 : UInt64).toNat⟩
  have valid : segment.Valid namespacePrefix (sanitizeNodeId nodeId) :=
    Segment.valid_of_publish _ _ _ _ encoded
  -- All segments have larger numbers, so the new one goes in front of them.
  have behind : ∀ other ∈ segments,
      compareWalObjectKeys namespacePrefix segment.key other.key = .lt := by
    intro other member
    have otherValid := account.arranged.valid other member
    obtain ⟨parsed, named, -, start, -⟩ := otherValid.named
    have positive : parsed.startSeq.toNat ≠ 0 := by
      intro zero
      exact numbered other.key (account.arranged.present member) parsed named (UInt64.toNat_inj.mp zero)
    apply valid.compare_lt otherValid
    show 0 < other.start
    omega
  have objects : Arranged namespacePrefix (sanitizeNodeId nodeId) before.live.walStore.objects
    ([] ++ segments) := account.arranged
  obtain ⟨free, arranged⟩ := objects.put valid (by simp) behind
    before.live.walStore.objectStore.putPolicy
  have healthy : opened.objectStore.Healthy := rfl
  have ran : WalStore.publishRecord (turns + 1) clock record opened =
      (.ok (some segment.key), { opened.takeSeq with
        objectStore := opened.objectStore.withPut segment.key bytes }) :=
    WalStore.publishRecord_free healthy rfl free encoded turns
  refine ⟨.plain { opened.takeSeq with
    objectStore := opened.objectStore.withPut segment.key bytes }, ?_, ?_⟩
  · show LiveStore.publishRecord (turns + 1) clock record nowMs (.plain opened) = _
    rw [LiveStore.publishRecord, ran]
  · rw [LiveStore.replayRecords_eq, (NodeHistory.written_eq account.encodings split).1]
    exact congrArg Prod.fst (arranged.replay healthy.withPut)

theorem unlisted_publish_comes_first_restarted :
    ∃ after : LiveStore, after.replayRecords = .ok [⟨[66], [], []⟩, ⟨[65], [], []⟩] := by
  let node := recoverySystem "wal".toList "n".toList .replace none
  have ran : (node.run (fun history taken => history.keepsOrder "wal".toList taken) node.start
      [.act (.publish ⟨[65], [], []⟩ 9 (fun _ => 5) 1)]).map (fun before =>
        (before.written, before.live.walStore.objects.keys.all fun key =>
          (parseWalObjectKey "wal".toList key).all (·.startSeq ≠ 0))) =
      some ([⟨[65], [], []⟩], true) := by decide +kernel
  obtain ⟨before, ran, seen⟩ := Option.map_eq_some_iff.mp ran
  obtain ⟨written, numbered⟩ := Prod.mk.injEq .. ▸ seen
  obtain ⟨after, -, replayed⟩ := unlisted_publish_comes_first "wal".toList "n".toList .replace none
    .objectStorePoisoned (System.Reachable.start.run (fun _ _ passed => passed) ran)
    (fun key member parsed named => by
      have passed := List.all_eq_true.mp numbered key (Std.ExtTreeMap.mem_keys.mpr member)
      rw [named] at passed
      exact of_decide_eq_true passed)
    (rfl : encodeWalRecord ⟨[66], [], []⟩ = _) 9 (fun _ => 6) 0
  exact ⟨after, written ▸ replayed⟩

end

/-- Replay returns exactly the records written to objects, in the order they were published. -/
theorem replay_exact (namespacePrefix nodeId : Text) (putPolicy : PutPolicy)
    (first : Option WalBatchPolicy) {history : NodeHistory}
    (reached : (nodeSystem namespacePrefix nodeId putPolicy first).Reachable
      NodeHistory.NumbersLeft history) :
    history.live.replayRecords = .ok history.written ∧
      List.Forall₂ Encodes history.live.buffer
        (history.published.drop (history.published.length - history.live.buffer.length)) ∧
      ∀ record nowMs clock turns, history.NumbersLeft (.publish record nowMs clock (turns + 1)) →
        (history.live.publishRecord (turns + 1) clock record nowMs).isSome := by
  have sound : history.Sound namespacePrefix (sanitizeNodeId nodeId) [] fun _ => True := by
    refine reached.invariant (NodeHistory.Sound.start namespacePrefix nodeId putPolicy first) ?_
    intro before taken after sound left made
    refine sound.step left ?_ made
    cases taken <;> simp [NodeHistory.Reads]
  obtain ⟨segments, unflushed, low, account, split⟩ := sound.accounted
  obtain ⟨written, rest⟩ := NodeHistory.written_eq account.encodings split
  refine ⟨?_, ?_, fun record nowMs clock turns left =>
    (accounted_keeps.live_publish sound.accounted sound.unbuffered left record trivial trivial
      trivial (turns + 1)).1 (Nat.succ_pos _)⟩
  · have arranged := account.arranged
    rw [← account.sameNamespace] at arranged
    rw [written, LiveStore.replayRecords_eq, arranged.replay account.healthy]
  · rw [rest]
    exact account.encodings

theorem replay_exact_restarted :
    ∃ history, (nodeSystem "wal".toList "n".toList .replace (some ⟨0, 2, 1000⟩)).Reachable
        NodeHistory.NumbersLeft history ∧
      history.live.replayRecords =
        .ok [⟨[65], [], []⟩, ⟨[66], [], []⟩, ⟨[67], [], []⟩] := by
  let node := nodeSystem "wal".toList "n".toList .replace (some ⟨0, 2, 1000⟩)
  have ran : (node.run (fun history _ => decide (history.live.walStore.nextSeq < wordMax)) node.start
      [.publish ⟨[65], [], []⟩ 9 (fun _ => 5) 1, .publish ⟨[66], [], []⟩ 9 (fun _ => 5) 1,
        .restart none, .publish ⟨[67], [], []⟩ 2 (fun _ => 1) 1]).map NodeHistory.written =
      some [⟨[65], [], []⟩, ⟨[66], [], []⟩, ⟨[67], [], []⟩] := by decide +kernel
  obtain ⟨history, ran, written⟩ := Option.map_eq_some_iff.mp ran
  have reached : node.Reachable NodeHistory.NumbersLeft history := by
    refine System.Reachable.start.run (fun history taken passed => ?_) ran
    cases taken with
    | publish => simpa [NodeHistory.NumbersLeft] using passed
    | flushDue => trivial
    | flushNow => trivial
    | restart => trivial
  exact ⟨history, reached, written ▸ (replay_exact _ _ _ _ reached).1⟩

end WombatKV
