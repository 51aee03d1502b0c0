import WombatKV.Proofs.Store.Ledger
import WombatKV.Proofs.Store.Segments

/-! The account of one node's log: its objects and its numbers. -/

namespace WombatKV

open ObjectStore

namespace WalObjectName

theorem compare_key {namespacePrefix : Text} {left right : WalObjectName}
    (earlier : left.epochMs < right.epochMs) :
    compare (left.key namespacePrefix) (right.key namespacePrefix) = .lt := by
  obtain ⟨leftName, leftKey, -⟩ := key_eq namespacePrefix left
  obtain ⟨rightName, rightKey, -⟩ := key_eq namespacePrefix right
  rw [leftKey, rightKey, compare_append_left, List.compare_cons_cons, Std.compare_self,
    Ordering.eq_then]
  exact compare_append_of_lt (by simp) (compare_paddedWord earlier) _ _

end WalObjectName

theorem Segment.Valid.compare_lt_of_epoch {namespacePrefix : Text} {nodeId : NodeId}
    {left right : Segment} (leftValid : left.Valid namespacePrefix nodeId)
    (rightValid : right.Valid namespacePrefix nodeId) (starts : left.start = right.start)
    {leftName rightName : WalObjectName} (leftKey : left.key = leftName.key namespacePrefix)
    (rightKey : right.key = rightName.key namespacePrefix)
    (earlier : leftName.epochMs < rightName.epochMs) :
    compareWalObjectKeys namespacePrefix left.key right.key = .lt := by
  obtain ⟨leftParsed, leftNamed, -, leftStart, -⟩ := leftValid.named
  obtain ⟨rightParsed, rightNamed, -, rightStart, -⟩ := rightValid.named
  have same : leftParsed.startSeq = rightParsed.startSeq := by
    rw [← UInt64.toNat_inj, leftStart, rightStart, starts]
  have texts : compare left.key right.key = .lt := by
    rw [leftKey, rightKey]
    exact WalObjectName.compare_key earlier
  simp only [compareWalObjectKeys, leftNamed, rightNamed]
  rw [same, Std.compare_self, Ordering.eq_then, texts]

structure Account (namespacePrefix : Text) (nodeId : NodeId) (earlier : List Segment)
    (readings : UInt64 → Prop) (walStore : WalStore) (buffer : List BufferedWalRecord)
    (segments : List Segment) (unflushed : List WalRecord) (low : Nat) : Prop where
  sameNamespace : walStore.namespacePrefix = namespacePrefix
  sameNode : walStore.nodeId = nodeId
  healthy : walStore.objectStore.Healthy
  arranged : Arranged namespacePrefix nodeId walStore.objects segments
  kept : earlier <+: segments
  named : ∀ segment ∈ segments, ∃ name : WalObjectName, segment.key = name.key namespacePrefix ∧
    (low = 0 → ∀ reading, readings reading → name.epochMs < reading)
  room : ∀ segment ∈ segments, segment.start < low ∨ segment.start = 0 ∧ low = 0
  bounded : ∀ segment ∈ segments, segment.stop < wordLimit
  counted : Consecutive low buffer
  next : walStore.nextSeq.toNat = low + buffer.length
  encodings : List.Forall₂ Encodes buffer unflushed

def Accounted (namespacePrefix : Text) (nodeId : NodeId) (earlier : List Segment)
    (readings : UInt64 → Prop) : LogFact := fun walStore buffer published =>
  ∃ segments unflushed low,
    Account namespacePrefix nodeId earlier readings walStore buffer segments unflushed low ∧
      published = segments.flatMap Segment.records ++ unflushed

section Accounts

variable {namespacePrefix : Text} {nodeId : NodeId} {earlier : List Segment}
  {readings : UInt64 → Prop} {walStore : WalStore} {buffer : List BufferedWalRecord}
  {segments : List Segment} {unflushed : List WalRecord} {low : Nat} {published : List WalRecord}

theorem Account.append (account : Account namespacePrefix nodeId earlier readings walStore
      buffer segments unflushed low) {segment : Segment}
    (valid : segment.Valid namespacePrefix nodeId) (starts : segment.start = low)
    (name : WalObjectName) (keyed : segment.key = name.key namespacePrefix)
    (read : readings name.epochMs) (after : WalStore)
    (sameNamespace : after.namespacePrefix = namespacePrefix) (sameNode : after.nodeId = nodeId)
    (written : after.objectStore = walStore.objectStore.withPut segment.key segment.payload)
    (next : after.nextSeq.toNat = segment.stop) :
    walStore.objects[segment.key]? = none ∧
      Account namespacePrefix nodeId earlier readings after [] (segments ++ [segment]) []
        segment.stop := by
  have occupied := valid.start_lt_stop
  have before : ∀ other ∈ segments,
      compareWalObjectKeys namespacePrefix other.key segment.key = .lt := by
    intro other member
    have otherValid := account.arranged.valid other member
    rcases account.room other member with below | ⟨zero, none⟩
    · exact otherValid.compare_lt valid (by omega)
    · -- Both start at zero, and the epochs decide.
      obtain ⟨otherName, otherKey, past⟩ := account.named other member
      exact otherValid.compare_lt_of_epoch valid (by omega) otherKey keyed (past none _ read)
  obtain ⟨free, arranged⟩ :=
    account.arranged.append valid before walStore.objectStore.putPolicy
  refine ⟨free, sameNamespace, sameNode, ?_, ?_, ?_, ?_, ?_, ?_, trivial, next, .nil⟩
  · rw [written]
    exact account.healthy.withPut
  · rw [WalStore.objects, written]
    exact arranged
  · exact account.kept.trans (List.prefix_append segments [segment])
  · intro other member
    rcases List.mem_append.mp member with early | last
    · obtain ⟨otherName, otherKey, -⟩ := account.named other early
      exact ⟨otherName, otherKey, fun none => by omega⟩
    · rw [List.mem_singleton.mp last]
      exact ⟨name, keyed, fun none => by omega⟩
  · intro other member
    rcases List.mem_append.mp member with early | last
    · rcases account.room other early with below | ⟨zero, none⟩
      · exact .inl (by omega)
      · exact .inl (by omega)
    · rw [List.mem_singleton.mp last]
      exact .inl occupied
  · intro other member
    rcases List.mem_append.mp member with early | last
    · exact account.bounded other early
    · rw [List.mem_singleton.mp last, ← next]
      exact after.nextSeq.toNat_lt

theorem Accounted.publish
    (accounted : Accounted namespacePrefix nodeId earlier readings walStore [] published)
    (left : walStore.nextSeq.toNat < wordLimit - 1) {record : WalRecord} {bytes : Bytes}
    (encoded : encodeWalRecord record = .ok bytes) (turns : Nat) (clock : Nat → UInt64)
    (read : readings (clock 0)) :
    ∃ key after, WalStore.publishRecord (turns + 1) clock record walStore =
        (.ok (some key), after) ∧ after.nextSeq.toNat = walStore.nextSeq.toNat + 1 ∧
      Accounted namespacePrefix nodeId earlier readings after [] (published ++ [record]) := by
  obtain ⟨segments, unflushed, low, account, rfl⟩ := accounted
  obtain rfl := List.forall₂_nil_left_iff.mp account.encodings
  obtain rfl := account.sameNamespace
  obtain rfl := account.sameNode
  have next : walStore.nextSeq.toNat = low := account.next
  subst next
  let segment : Segment := ⟨buildCanonicalWalKey walStore.namespacePrefix walStore.nodeId.text
    (clock 0) walStore.nextSeq, bytes, [record], walStore.nextSeq.toNat⟩
  have valid : segment.Valid walStore.namespacePrefix walStore.nodeId :=
    Segment.valid_of_publish _ _ _ _ encoded
  have taken := WalStore.takeSeq_nextSeq left
  obtain ⟨free, appended⟩ := account.append valid rfl
    (.single walStore.nodeId (clock 0) walStore.nextSeq) rfl read
    { walStore.takeSeq with
      objectStore := walStore.objectStore.withPut segment.key segment.payload }
    rfl rfl rfl taken
  refine ⟨segment.key, _, WalStore.publishRecord_free account.healthy rfl free encoded turns,
    taken, segments ++ [segment], [], segment.stop, appended, ?_⟩
  simp [segment]

theorem Accounted.flush {store : WalGroupCommitStore}
    (accounted : Accounted namespacePrefix nodeId earlier readings store.walStore store.buffer
      published) {epochMs : UInt64} (read : readings epochMs)
    {result : Except WalStoreError (Option Text)} {after : WalGroupCommitStore}
    (outcome : WalGroupCommitStore.FlushOutcome epochMs store result after) :
    Accounted namespacePrefix nodeId earlier readings after.walStore after.buffer published ∧
      after.walStore.nextSeq = store.walStore.nextSeq ∧ after.policy = store.policy ∧
        (store.buffer = [] → after.buffer = []) := by
  obtain ⟨segments, unflushed, low, account, split⟩ := accounted
  refine outcome.keepsFact account.healthy ⟨segments, unflushed, low, account, split⟩ ?_
  intro key payload occupied object
  have valid := Segment.valid_of_flush occupied account.counted account.encodings object
  obtain ⟨name, keyed, rfl⟩ := WalGroupCommitStore.flushObject_name object
  rw [account.sameNamespace] at keyed
  rw [account.sameNamespace, account.sameNode] at valid
  have next : store.walStore.nextSeq.toNat = (Segment.mk key payload unflushed low).stop := by
    rw [account.next, account.encodings.length_eq]
    rfl
  obtain ⟨free, appended⟩ := account.append valid rfl name keyed read
    { store.walStore with objectStore := store.walStore.objectStore.withPut key payload }
    account.sameNamespace account.sameNode rfl next
  exact ⟨free, _, [], _, appended, by simp [split]⟩

theorem Accounted.push {store : WalGroupCommitStore}
    (accounted : Accounted namespacePrefix nodeId earlier readings store.walStore store.buffer
      published) (left : store.walStore.nextSeq.toNat < wordLimit - 1) {record : WalRecord}
    {encoded : Bytes} (encodes : encodeWalRecord record = .ok encoded) (nowMs : UInt64) :
    Accounted namespacePrefix nodeId earlier readings (store.push encoded nowMs).walStore
      (store.push encoded nowMs).buffer (published ++ [record]) := by
  obtain ⟨segments, unflushed, low, account, rfl⟩ := accounted
  refine ⟨segments, unflushed ++ [record], low,
    { account with
      counted := account.counted.append account.next
      next := ?_
      encodings := List.rel_append account.encodings (.cons encodes .nil) }, by simp⟩
  simp [WalStore.takeSeq_nextSeq left, account.next, Nat.add_assoc]

theorem accounted_keeps : Keeps (Accounted namespacePrefix nodeId earlier readings) readings where
  publish accounted left _ _ encoded turns clock read :=
    accounted.publish left encoded turns clock read
  flush accounted _ _ _ read outcome := accounted.flush read outcome
  push accounted left _ _ encodes nowMs := accounted.push left encodes nowMs

end Accounts

namespace NodeHistory

structure Sound (namespacePrefix : Text) (nodeId : NodeId) (earlier : List Segment)
    (readings : UInt64 → Prop) (history : NodeHistory) : Prop where
  accounted : Accounted namespacePrefix nodeId earlier readings history.live.walStore
    history.live.buffer history.published
  unbuffered : history.live.Unbuffered

def Reads (readings : UInt64 → Prop) : NodeStep → Prop
  | .publish _ nowMs clock _ =>
    readings (clock 0) ∧ readings (max nowMs (clock 0)) ∧ readings (max nowMs (clock 1))
  | .flushDue nowMs currentEpochMs => readings (max nowMs currentEpochMs)
  | .flushNow nowMs currentEpochMs => readings (max nowMs currentEpochMs)
  | .restart _ => True

variable {namespacePrefix nodeId : Text} {earlier : List Segment} {readings : UInt64 → Prop}
  {history : NodeHistory}

theorem Sound.opened {objectStore : ObjectStore} {segments : List Segment}
    (healthy : objectStore.Healthy)
    (arranged : Arranged namespacePrefix (sanitizeNodeId nodeId) objectStore.objects segments)
    (kept : earlier <+: segments)
    (named : ∀ segment ∈ segments, ∃ name : WalObjectName, segment.key = name.key namespacePrefix)
    (bounded : ∀ segment ∈ segments, segment.stop < wordLimit) (policy : Option WalBatchPolicy) :
    Sound namespacePrefix (sanitizeNodeId nodeId) earlier readings
      ⟨.opened namespacePrefix nodeId objectStore policy, segments.flatMap Segment.records⟩ := by
  have recovered := WalStore.withNodeId_healthy healthy namespacePrefix nodeId
  obtain ⟨store, empty, unbuffered⟩ :=
    LiveStore.opened_eq namespacePrefix nodeId objectStore policy
  have passed : ∀ segment ∈ segments, segment.start <
      (WalStore.withNodeId namespacePrefix nodeId objectStore).nextSeq.toNat := by
    intro segment member
    obtain ⟨parsed, parses, node, -, ends⟩ := (arranged.valid segment member).named
    have seq : parseSeqForNode namespacePrefix (sanitizeNodeId nodeId).text segment.key =
        some parsed.endSeq := by
      simp [parseSeqForNode, parses, node]
    have listed := le_max?_getD
      (WalStore.mem_listedSeqs.mpr ⟨segment.key, arranged.present member, seq⟩)
    have occupied := (arranged.valid segment member).start_lt_stop
    have below := bounded segment member
    rw [recovered, saturatingAdd_toNat, UInt64.toNat_one]
    omega
  refine ⟨⟨segments, [], (WalStore.withNodeId namespacePrefix nodeId objectStore).nextSeq.toNat, ?_,
    by simp⟩, unbuffered⟩
  show Account _ _ _ _ (LiveStore.opened ..).walStore (LiveStore.opened ..).buffer _ _ _
  rw [store, empty]
  refine ⟨by rw [recovered], by rw [recovered], by rwa [recovered], by rwa [recovered], kept, ?_,
    fun segment member => .inl (passed segment member), bounded, trivial, rfl, .nil⟩
  intro segment member
  obtain ⟨name, keyed⟩ := named segment member
  exact ⟨name, keyed, fun zero => by have := passed segment member; omega⟩

theorem Sound.step (sound : Sound namespacePrefix (sanitizeNodeId nodeId) earlier readings history)
    {taken : NodeStep} (left : history.NumbersLeft taken) (reads : Reads readings taken)
    {after : NodeHistory} (made : history.step namespacePrefix nodeId taken = some after) :
    Sound namespacePrefix (sanitizeNodeId nodeId) earlier readings after := by
  cases taken with
  | publish record nowMs clock turns =>
    obtain ⟨plain, first, second⟩ := reads
    obtain ⟨live, ran, rest⟩ := Option.bind_eq_some_iff.mp made
    obtain ⟨advances, unbuffered⟩ := (accounted_keeps.live_publish sound.accounted
      sound.unbuffered left record plain first second turns).2 live ran
    rcases advances with ⟨same, accounted⟩ | ⟨grown, accounted⟩
    · rw [if_neg (by simp [same])] at rest
      cases rest
      exact ⟨accounted, unbuffered⟩
    · rw [if_pos grown] at rest
      cases rest
      exact ⟨accounted, unbuffered⟩
  | flushDue nowMs currentEpochMs =>
    obtain ⟨live, ran, rest⟩ := Option.bind_eq_some_iff.mp made
    cases rest
    obtain ⟨accounted, unbuffered⟩ := accounted_keeps.live_flush sound.accounted
      sound.unbuffered (fun store => store.isDue nowMs) reads (fun _ => rfl) ran
    exact ⟨accounted, unbuffered⟩
  | flushNow nowMs currentEpochMs =>
    obtain ⟨live, ran, rest⟩ := Option.bind_eq_some_iff.mp made
    cases rest
    obtain ⟨accounted, unbuffered⟩ := accounted_keeps.live_flush sound.accounted
      sound.unbuffered (fun _ => true) reads (fun _ => rfl) ran
    exact ⟨accounted, unbuffered⟩
  | restart policy =>
    cases made
    obtain ⟨segments, unflushed, low, account, split⟩ := sound.accounted
    rw [(written_eq account.encodings split).1]
    refine .opened account.healthy account.arranged account.kept ?_ account.bounded policy
    intro segment member
    obtain ⟨name, keyed, -⟩ := account.named segment member
    exact ⟨name, keyed⟩

theorem Sound.start (namespacePrefix nodeId : Text) (putPolicy : PutPolicy)
    (first : Option WalBatchPolicy) :
    (nodeSystem namespacePrefix nodeId putPolicy first).start.Sound namespacePrefix
      (sanitizeNodeId nodeId) [] readings := by
  have healthy : ObjectStore.Healthy { putPolicy, objects := ∅ } := rfl
  have arranged : Arranged namespacePrefix (sanitizeNodeId nodeId) ∅ [] :=
    ⟨by simp, by simp, by simp⟩
  exact .opened healthy arranged List.prefix_rfl (by simp) (by simp) first

end NodeHistory

end WombatKV
