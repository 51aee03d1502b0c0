import WombatKV.Proofs.Store.GroupCommit
import WombatKV.Store.NodeHistory

/-! What survives a publish or a flush, with a buffer or without. -/

namespace WombatKV

open Call

abbrev LogFact := WalStore → List BufferedWalRecord → List WalRecord → Prop

structure Keeps (holds : LogFact) (readings : UInt64 → Prop) : Prop where
  publish : ∀ {walStore : WalStore} {published : List WalRecord}, holds walStore [] published →
    walStore.nextSeq.toNat < wordLimit - 1 → ∀ {record : WalRecord} {bytes : Bytes},
    encodeWalRecord record = .ok bytes → ∀ (turns : Nat) (clock : Nat → UInt64),
    readings (clock 0) → ∃ key after,
      WalStore.publishRecord (turns + 1) clock record walStore = (.ok (some key), after) ∧
        after.nextSeq.toNat = walStore.nextSeq.toNat + 1 ∧ holds after [] (published ++ [record])
  flush : ∀ {store : WalGroupCommitStore} {published : List WalRecord},
    holds store.walStore store.buffer published →
    ∀ {epochMs : UInt64} {result : Except WalStoreError (Option Text)}
      {after : WalGroupCommitStore}, readings epochMs →
    WalGroupCommitStore.FlushOutcome epochMs store result after →
      holds after.walStore after.buffer published ∧
        after.walStore.nextSeq = store.walStore.nextSeq ∧ after.policy = store.policy ∧
          (store.buffer = [] → after.buffer = [])
  push : ∀ {store : WalGroupCommitStore} {published : List WalRecord},
    holds store.walStore store.buffer published →
    store.walStore.nextSeq.toNat < wordLimit - 1 → ∀ {record : WalRecord} {encoded : Bytes},
    encodeWalRecord record = .ok encoded → ∀ nowMs : UInt64,
      holds (store.push encoded nowMs).walStore (store.push encoded nowMs).buffer
        (published ++ [record])

def Advances (holds : LogFact) (record : WalRecord) (published : List WalRecord)
    (before after : WalStore) (buffer : List BufferedWalRecord) : Prop :=
  after.nextSeq = before.nextSeq ∧ holds after buffer published ∨
    before.nextSeq < after.nextSeq ∧ holds after buffer (published ++ [record])

def LiveStore.Unbuffered (live : LiveStore) : Prop :=
  ∀ store, live = .grouped store → store.policy.isSingleRecordMode = true → store.buffer = []

theorem WalGroupCommitStore.FlushOutcome.keepsFact {holds : LogFact} {store after : WalGroupCommitStore}
    {published : List WalRecord} {epochMs : UInt64} {result : Except WalStoreError (Option Text)}
    (healthy : store.walStore.objectStore.Healthy)
    (held : holds store.walStore store.buffer published)
    (writes : ∀ key payload, store.buffer ≠ [] → store.flushObject epochMs = .ok (key, payload) →
      store.walStore.objects[key]? = none ∧
        holds { store.walStore with
          objectStore := store.walStore.objectStore.withPut key payload } [] published)
    (outcome : WalGroupCommitStore.FlushOutcome epochMs store result after) :
    holds after.walStore after.buffer published ∧
      after.walStore.nextSeq = store.walStore.nextSeq ∧ after.policy = store.policy ∧
        (store.buffer = [] → after.buffer = []) := by
  cases outcome with
  | idle empty => exact ⟨held, rfl, rfl, id⟩
  | refused unfit => exact ⟨held, rfl, rfl, id⟩
  | failed object occupied wrote =>
    obtain ⟨free, -⟩ := writes _ _ occupied object
    rw [WalGroupCommitStore.writeObject_free healthy free] at wrote
    cases wrote
  | written object occupied wrote =>
    obtain ⟨free, held⟩ := writes _ _ occupied object
    rw [WalGroupCommitStore.writeObject_free healthy free] at wrote
    cases wrote
    exact ⟨held, rfl, rfl, fun _ => rfl⟩

namespace Keeps

variable {holds : LogFact} {readings : UInt64 → Prop} {published : List WalRecord}
  {clock : Nat → UInt64} {nowMs : UInt64}

variable (keeps : Keeps holds readings)

include keeps

theorem publishRecord {walStore : WalStore}
    (held : holds walStore [] published) (left : walStore.nextSeq.toNat < wordLimit - 1)
    (turns : Nat) (read : readings (clock 0)) (record : WalRecord) :
    (WalStore.publishRecord turns clock record).Ensures (fun result after =>
      (0 < turns → result ≠ .ok none) ∧ (result ≠ .ok none →
        Advances holds record published walStore after [])) walStore := by
  cases encoded : encodeWalRecord record with
  | error error =>
    rw [Call.Ensures, WalStore.publishRecord_refused encoded]
    exact ⟨by simp, fun _ => .inl ⟨rfl, held⟩⟩
  | ok bytes =>
    cases turns with
    | zero =>
      simp only [WalStore.publishRecord, WalStore.publishLoop, corrupt_eq_ok.mpr encoded,
        ensures_bind, ensures_lift, andThen_ok, ensures_pure]
      simp
    | succ turns =>
      obtain ⟨key, after, ran, next, held⟩ := keeps.publish held left encoded turns clock read
      rw [Call.Ensures, ran]
      refine ⟨by simp, fun _ => .inr ⟨?_, held⟩⟩
      rw [UInt64.lt_iff_toNat_lt, next]
      exact Nat.lt_succ_self _

theorem flushWhen {store : WalGroupCommitStore} (held : holds store.walStore store.buffer published)
    (condition : Bool) {currentEpochMs : UInt64} (read : readings (max nowMs currentEpochMs)) :
    (WalGroupCommitStore.flushWhen condition nowMs currentEpochMs).Ensures (fun _ after =>
      holds after.walStore after.buffer published ∧
        after.walStore.nextSeq = store.walStore.nextSeq ∧ after.policy = store.policy ∧
          (store.buffer = [] → after.buffer = [])) store := by
  cases condition with
  | false => exact ⟨held, rfl, rfl, id⟩
  | true =>
    exact (WalGroupCommitStore.flushBufferAsObject_outcome nowMs currentEpochMs store).weaken
      fun _ _ outcome => keeps.flush held read outcome

theorem publish_grouped {store : WalGroupCommitStore}
    (held : holds store.walStore store.buffer published)
    (unbuffered : store.policy.isSingleRecordMode = true → store.buffer = [])
    (left : store.walStore.nextSeq.toNat < wordLimit - 1) (turns : Nat) (plain : readings (clock 0))
    (first : readings (max nowMs (clock 0))) (second : readings (max nowMs (clock 1)))
    (record : WalRecord) :
    (WalGroupCommitStore.publishRecord turns clock record nowMs).Ensures (fun result after =>
      (0 < turns → result ≠ .ok none) ∧ (result ≠ .ok none →
        (after.policy.isSingleRecordMode = true → after.buffer = []) ∧
          Advances holds record published store.walStore after.walStore after.buffer)) store := by
  simp only [WalGroupCommitStore.publishRecord, ensures_bind, ensures_get, andThen_ok]
  split
  · rename_i mode
    have empty := unbuffered mode
    rw [empty] at held
    simp only [ensures_bind, WalGroupCommitStore.onWal, ensures_on]
    refine (keeps.publishRecord held left turns plain record).weaken ?_
    rintro (error | _ | key) after ⟨returns, advances⟩
    · exact ⟨by simp, fun _ => ⟨fun _ => empty, by simpa [empty] using advances⟩⟩
    · exact ⟨fun positive => absurd rfl (returns positive), by simp⟩
    · exact ⟨by simp, fun _ => ⟨fun _ => empty, by simpa [empty] using advances⟩⟩
  · rename_i mode
    simp only [ensures_bind, ensures_lift]
    cases encoded : encodeWalRecord record with
    | error error => exact ⟨by simp, fun _ => ⟨unbuffered, .inl ⟨rfl, held⟩⟩⟩
    | ok bytes =>
      simp only [corrupt, Except.mapError, andThen_ok, ensures_bind]
      refine (keeps.flushWhen held _ first).weaken ?_
      rintro (error | flushed) between ⟨held, sameSeq, samePolicy, empty⟩
      · refine ⟨by simp, fun _ => ⟨fun single => ?_, .inl ⟨sameSeq, held⟩⟩⟩
        exact absurd (samePolicy ▸ single) mode
      · simp only [andThen_ok, ensures_bind, ensures_modify, ensures_get]
        have left : between.walStore.nextSeq.toNat < wordLimit - 1 := sameSeq ▸ left
        refine (keeps.flushWhen (keeps.push held left encoded nowMs) _ second).weaken ?_
        rintro result after ⟨held, pushedSeq, pushedPolicy, _⟩
        have advances : Advances holds record published store.walStore after.walStore
            after.buffer := by
          refine .inr ⟨?_, held⟩
          rw [UInt64.lt_iff_toNat_lt, pushedSeq, ← sameSeq, WalGroupCommitStore.push_walStore,
            WalStore.takeSeq_nextSeq left]
          exact Nat.lt_succ_self _
        have grouped : after.policy.isSingleRecordMode = true → after.buffer = [] := fun single =>
          absurd ((pushedPolicy.trans samePolicy) ▸ single) mode
        cases result with
        | error error => exact ⟨by simp, fun _ => ⟨grouped, advances⟩⟩
        | ok answer => exact ⟨by simp, fun _ => ⟨grouped, advances⟩⟩

theorem live_publish {live : LiveStore}
    (held : holds live.walStore live.buffer published) (unbuffered : live.Unbuffered)
    (left : live.walStore.nextSeq < wordMax) (record : WalRecord) (plain : readings (clock 0))
    (first : readings (max nowMs (clock 0))) (second : readings (max nowMs (clock 1))) (turns : Nat) :
    (0 < turns → (live.publishRecord turns clock record nowMs).isSome) ∧
      ∀ after, live.publishRecord turns clock record nowMs = some after →
        Advances holds record published live.walStore after.walStore after.buffer ∧
          after.Unbuffered := by
  have left : live.walStore.nextSeq.toNat < wordLimit - 1 := by
    simpa [UInt64.lt_iff_toNat_lt] using left
  cases live with
  | plain store =>
    have ensured := keeps.publishRecord held left turns plain record
    simp only [LiveStore.publishRecord]
    rcases ran : WalStore.publishRecord turns clock record store with ⟨error | _ | key, walStore⟩
    all_goals
      simp only [Call.Ensures, LiveStore.walStore, ran] at ensured
      obtain ⟨returns, advances⟩ := ensured
    · refine ⟨fun _ => rfl, fun after made => ?_⟩
      cases made
      exact ⟨advances (by simp), by simp [LiveStore.Unbuffered]⟩
    · exact ⟨fun positive => absurd rfl (returns positive), by simp⟩
    · refine ⟨fun _ => rfl, fun after made => ?_⟩
      cases made
      exact ⟨advances (by simp), by simp [LiveStore.Unbuffered]⟩
  | grouped store =>
    have ensured := keeps.publish_grouped held (unbuffered store rfl) left turns plain first
      second record
    simp only [LiveStore.publishRecord]
    rcases ran : WalGroupCommitStore.publishRecord turns clock record nowMs store with
      ⟨error | _ | answer, group⟩
    all_goals
      simp only [Call.Ensures, ran] at ensured
      obtain ⟨returns, advances⟩ := ensured
    · refine ⟨fun _ => rfl, fun after made => ?_⟩
      cases made
      obtain ⟨unbuffered, advances⟩ := advances (by simp)
      exact ⟨advances, fun store same => by cases same; exact unbuffered⟩
    · exact ⟨fun positive => absurd rfl (returns positive), by simp⟩
    · refine ⟨fun _ => rfl, fun after made => ?_⟩
      cases made
      obtain ⟨unbuffered, advances⟩ := advances (by simp)
      exact ⟨advances, fun store same => by cases same; exact unbuffered⟩

theorem live_flush {live : LiveStore} (held : holds live.walStore live.buffer published)
    (unbuffered : live.Unbuffered) (condition : WalGroupCommitStore → Bool)
    {currentEpochMs : UInt64} (read : readings (max nowMs currentEpochMs))
    {call : Call WalStoreError WalGroupCommitStore (Option Text)}
    (flushes : ∀ store, call store = WalGroupCommitStore.flushWhen (condition store) nowMs
      currentEpochMs store) {after : LiveStore} (made : live.flush call = some after) :
    holds after.walStore after.buffer published ∧ after.Unbuffered := by
  cases live with
  | plain store => cases made
  | grouped store =>
    cases made
    obtain ⟨held, _, samePolicy, empty⟩ := keeps.flushWhen held (condition store) read
    rw [← flushes] at held samePolicy empty
    refine ⟨held, fun group same single => ?_⟩
    cases same
    exact empty (unbuffered store rfl (samePolicy ▸ single))

end Keeps

theorem LiveStore.replayRecords_eq (live : LiveStore) : live.replayRecords =
    (WalStore.replayFrom live.walStore.namespacePrefix live.walStore.objectStore).1 := by
  cases live <;> rfl

theorem LiveStore.opened_eq (namespacePrefix nodeId : Text) (objectStore : ObjectStore)
    (policy : Option WalBatchPolicy) :
    (LiveStore.opened namespacePrefix nodeId objectStore policy).walStore =
        .withNodeId namespacePrefix nodeId objectStore ∧
      (LiveStore.opened namespacePrefix nodeId objectStore policy).buffer = [] ∧
      (LiveStore.opened namespacePrefix nodeId objectStore policy).Unbuffered := by
  cases policy with
  | none => exact ⟨rfl, rfl, by simp [LiveStore.opened, LiveStore.Unbuffered]⟩
  | some policy =>
    refine ⟨rfl, rfl, fun store same _ => ?_⟩
    cases same
    rfl

theorem NodeHistory.written_eq {history : NodeHistory} {front unflushed : List WalRecord}
    (encodings : List.Forall₂ Encodes history.live.buffer unflushed)
    (split : history.published = front ++ unflushed) :
    history.written = front ∧
      history.published.drop (history.published.length - history.live.buffer.length) =
        unflushed := by
  have length : history.published.length - history.live.buffer.length = front.length := by
    rw [split, encodings.length_eq, List.length_append, Nat.add_sub_cancel]
  rw [NodeHistory.written, length, split]
  exact ⟨List.take_left, List.drop_left⟩

end WombatKV

