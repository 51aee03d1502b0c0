import WombatKV.Proofs.Store.GroupCommit

/-! When no acknowledged record leaves both buffer and store. -/

namespace WombatKV

open ObjectStore Call

def Settled (namespacePrefix : Text) (objects : Objects) (bound : Nat) (record : WalRecord) :
    Prop :=
  ∃ key payload records parsed, objects[key]? = some payload ∧
    parseWalObjectKey namespacePrefix key = some parsed ∧ parsed.endSeq.toNat < bound ∧
      decodeWalObjectRecords payload = .ok records ∧ record ∈ records

def EndsBelow (chosen : ParsedWalObjectKey → Prop) (namespacePrefix : Text) (objects : Objects)
    (bound : Nat) : Prop :=
  ∀ key payload parsed, objects[key]? = some payload →
    parseWalObjectKey namespacePrefix key = some parsed → chosen parsed →
      parsed.endSeq.toNat < bound

section Objects

variable {namespacePrefix key : Text} {payload : Bytes} {objects : Objects}
  {policy : PutPolicy} {bound higher : Nat} {record : WalRecord} {parsed : ParsedWalObjectKey}
  {chosen : ParsedWalObjectKey → Prop}

theorem Settled.raise (settled : Settled namespacePrefix objects bound record)
    (above : bound ≤ higher) : Settled namespacePrefix objects higher record := by
  obtain ⟨key, payload, records, parsed, found, named, below, rest⟩ := settled
  exact ⟨key, payload, records, parsed, found, named, by omega, rest⟩

theorem Settled.put (settled : Settled namespacePrefix objects bound record)
    (named : parseWalObjectKey namespacePrefix key = some parsed)
    (above : bound ≤ parsed.endSeq.toNat) :
    Settled namespacePrefix (putInto policy objects key payload) bound record := by
  obtain ⟨other, held, records, otherParsed, found, otherNamed, below, rest⟩ := settled
  have different : key ≠ other := by
    rintro rfl
    obtain rfl : parsed = otherParsed := Option.some.inj (named.symm.trans otherNamed)
    omega
  refine ⟨other, held, records, otherParsed, ?_, otherNamed, below, rest⟩
  rw [putInto_of_ne different, found]

variable (ends : EndsBelow chosen namespacePrefix objects bound)

include ends

theorem EndsBelow.raise
    (above : bound ≤ higher) : EndsBelow chosen namespacePrefix objects higher :=
  fun key payload parsed found named own =>
    (ends key payload parsed found named own).trans_le above

theorem EndsBelow.put (named : parseWalObjectKey namespacePrefix key = some parsed)
    (below : chosen parsed → parsed.endSeq.toNat < bound) :
    EndsBelow chosen namespacePrefix (putInto policy objects key payload) bound := by
  intro other held otherParsed found otherNamed own
  rcases putInto_cases found with earlier | ⟨rfl, _⟩
  · exact ends other held otherParsed earlier otherNamed own
  · obtain rfl : parsed = otherParsed := Option.some.inj (named.symm.trans otherNamed)
    exact below own

theorem EndsBelow.free (named : parseWalObjectKey namespacePrefix key = some parsed)
    (own : chosen parsed) (above : bound ≤ parsed.endSeq.toNat) : objects[key]? = none := by
  rw [Option.eq_none_iff_forall_ne_some]
  intro held found
  have under := ends key held parsed found named own
  omega

end Objects

namespace WalGroupCommitStore

def low (store : WalGroupCommitStore) : Nat :=
  store.walStore.nextSeq.toNat - store.buffer.length

def Tracked (store : WalGroupCommitStore) (record : WalRecord) : Prop :=
  store.Buffered record ∨ Settled store.walStore.namespacePrefix store.objects store.low record

variable {record : WalRecord} {epochMs : UInt64} {key : Text} {payload : Bytes}

theorem Tracked.retained {store : WalGroupCommitStore} (tracked : store.Tracked record) :
    store.Retained record := by
  rcases tracked with buffered | ⟨key, payload, records, parsed, found, named, _, rest⟩
  · exact .inl buffered
  · exact .inr ⟨key, payload, records, found, by simp [named], rest⟩

abbrev OwnBelow (store : WalGroupCommitStore) (chosen : ParsedWalObjectKey → Prop)
    (objects : Objects) (bound : Nat) : Prop :=
  EndsBelow (fun parsed => parsed.nodeId = store.walStore.nodeId.text ∧ chosen parsed)
    store.walStore.namespacePrefix objects bound

structure Numbered (chosen : ParsedWalObjectKey → Prop) (store : WalGroupCommitStore)
    (pending : List WalRecord) : Prop where
  taken : store.buffer.length ≤ store.walStore.nextSeq.toNat
  counted : Consecutive store.low store.buffer
  encodings : List.Forall₂ Encodes store.buffer pending
  below : store.buffer ≠ [] ∨ store.walStore.nextSeq.toNat < wordLimit - 1 →
    store.OwnBelow chosen store.objects store.low

def Orderly (store : WalGroupCommitStore) : Prop :=
  ∃ pending, store.Numbered (·.kind = .single) pending

structure FlushKeeps {α : Type} (before : WalGroupCommitStore) (result : Except WalStoreError α)
    (after : WalGroupCommitStore) : Prop where
  sameSeq : after.walStore.nextSeq = before.walStore.nextSeq
  samePolicy : after.policy = before.policy
  orderly : after.Orderly
  settled : ∀ record, Settled before.walStore.namespacePrefix before.objects before.low record →
    Settled after.walStore.namespacePrefix after.objects after.low record
  buffered : ∀ record, before.Buffered record →
    (∃ answer, result = .ok answer) ∨ before.buffer.length ≠ 1 ∨
      before.walStore.objectStore.faults 0 = none → after.Tracked record

variable {store : WalGroupCommitStore}

namespace Numbered

variable {chosen : ParsedWalObjectKey → Prop} {pending : List WalRecord}

theorem of_empty (empty : store.buffer = [])
    (below : store.walStore.nextSeq.toNat < wordLimit - 1 →
      store.OwnBelow chosen store.objects store.walStore.nextSeq.toNat) :
    store.Numbered chosen [] where
  taken := by simp [empty]
  counted := by simp [empty, Consecutive]
  encodings := by simp [empty]
  below live := by
    simp only [empty, ne_eq, not_true, false_or] at live
    simpa [low, empty] using below live

theorem opened (namespacePrefix nodeId : Text) (putPolicy : PutPolicy) (objects : Objects)
    (policy : WalBatchPolicy) :
    (WalGroupCommitStore.new namespacePrefix nodeId { putPolicy, objects } policy).Numbered chosen
      [] := by
  have healthy : ObjectStore.Healthy { putPolicy, objects } := rfl
  have opened := WalStore.withNodeId_healthy healthy namespacePrefix nodeId
  refine .of_empty rfl fun left => ?_
  change EndsBelow (fun parsed => parsed.nodeId = (WalStore.withNodeId ..).nodeId.text ∧ _)
    (WalStore.withNodeId ..).namespacePrefix (WalStore.withNodeId ..).objects _
  rw [opened]
  intro key payload parsed found named own
  have present : key ∈ objects := by
    rw [← Std.ExtTreeMap.isSome_getElem?_iff_mem, found]
    rfl
  refine WalStore.recovered_above healthy left present ?_
  simp only [parseSeqForNode, named, Option.bind_eq_bind, Option.bind_some, own.1]
  simp

variable (numbered : store.Numbered chosen pending)

include numbered

theorem withObjectStore {objectStore : ObjectStore}
    (below : store.buffer ≠ [] ∨ store.walStore.nextSeq.toNat < wordLimit - 1 →
      store.OwnBelow chosen objectStore.objects store.low) :
    (store.withObjectStore objectStore).Numbered chosen pending :=
  ⟨numbered.taken, numbered.counted, numbered.encodings, below⟩

theorem range (occupied : store.buffer ≠ []) :
    store.bufferRange.1.toNat = store.low ∧
      store.bufferRange.2.toNat + 1 = store.walStore.nextSeq.toNat ∧
        store.low ≤ store.bufferRange.2.toNat := by
  obtain ⟨first, last⟩ := bufferRange_consecutive numbered.counted occupied
  have positive := List.length_pos_iff.mpr occupied
  have taken := numbered.taken
  simp only [low] at *
  omega

section Flush

variable (occupied : store.buffer ≠ [])
  (object : store.flushObject epochMs = .ok (key, payload))

include occupied object

theorem free (own : chosen ⟨.canonicalEpochPartitioned, store.flushKind, store.bufferRange.1,
      store.bufferRange.2, store.walStore.nodeId.text⟩) : store.objects[key]? = none :=
  (numbered.below (.inl occupied)).free (flushObject_parsed object) ⟨rfl, own⟩
    (numbered.range occupied).2.2

theorem settled_of_stored {objects : Objects} (stored : objects[key]? = some payload)
    (buffered : store.Buffered record) :
    Settled store.walStore.namespacePrefix objects store.walStore.nextSeq.toNat record := by
  have decoded := flushObject_decoded object numbered.encodings numbered.counted
  have ends := (numbered.range occupied).2.1
  refine ⟨key, payload, pending, _, stored, flushObject_parsed object, ?_, decoded, ?_⟩
  · show store.bufferRange.2.toNat < _
    omega
  · obtain ⟨entry, member, encodes⟩ := buffered
    exact mem_of_encodes numbered.encodings member encodes

variable {result : Except WalStoreError Text} {objectStore : ObjectStore}
  (wrote : WriteOutcome key payload store.walStore.objectStore result objectStore)

include wrote

theorem settled_write
    (settled : Settled store.walStore.namespacePrefix store.objects store.low record) :
    Settled store.walStore.namespacePrefix objectStore.objects store.low record := by
  rcases wrote.objects with ⟨_, same⟩ | ⟨_, put⟩
  · rw [same]
    exact settled
  · rw [put]
    exact settled.put (flushObject_parsed object) (numbered.range occupied).2.2

theorem write {bound : Nat} (above : store.low ≤ bound)
    (below : (∀ parsed, chosen parsed → parsed.kind ≠ store.flushKind) ∨
      store.bufferRange.2.toNat < bound) : store.OwnBelow chosen objectStore.objects bound := by
  have raised := (numbered.below (.inl occupied)).raise above
  rcases wrote.objects with ⟨_, same⟩ | ⟨_, put⟩
  · rw [same]
    exact raised
  · rw [put]
    refine raised.put (flushObject_parsed object) fun own => ?_
    rcases below with other | under
    · exact absurd rfl (other _ own.2)
    · exact under

theorem write_next : store.OwnBelow chosen objectStore.objects store.walStore.nextSeq.toNat := by
  have ends := (numbered.range occupied).2.1
  exact numbered.write occupied object wrote (Nat.sub_le _ _) (.inr (by omega))

end Flush

end Numbered

theorem Orderly.idle {α : Type} (orderly : store.Orderly) (result : Except WalStoreError α) :
    FlushKeeps store result store :=
  ⟨rfl, rfl, orderly, fun _ settled => settled, fun _ buffered _ => .inl buffered⟩

theorem FlushOutcome.keeps {result : Except WalStoreError (Option Text)}
    {after : WalGroupCommitStore} (orderly : store.Orderly)
    (outcome : FlushOutcome epochMs store result after) : FlushKeeps store result after := by
  obtain ⟨pending, numbered⟩ := orderly
  cases outcome with
  | idle empty => exact Orderly.idle ⟨pending, numbered⟩ _
  | refused unfit => exact Orderly.idle ⟨pending, numbered⟩ _
  | @failed key payload error objectStore object occupied wrote =>
    have wrote := WriteOutcome.of_eq wrote
    rcases bufferAfterFailure_cases occupied with ⟨lone, emptied⟩ | ⟨several, kept⟩
    · -- The record left the buffer before the write; only a put that was made keeps it.
      refine ⟨rfl, rfl, ⟨[], .of_empty emptied fun _ => numbered.write_next occupied object wrote⟩,
        fun record settled => ?_, fun record buffered kept => .inr ?_⟩
      · refine (numbered.settled_write occupied object wrote settled).raise ?_
        simp [low, withObjectStore, emptied]
      · have clear : store.walStore.objectStore.faults 0 = none := by simpa [lone] using kept
        have put : objectStore.objects = putInto store.walStore.objectStore.putPolicy
            store.objects key payload := by
          rcases wrote.objects with ⟨failed, _⟩ | ⟨_, put⟩
          · exact absurd clear failed
          · exact put
        have stored : objectStore.objects[key]? = some payload := by
          rw [put]
          exact putInto_absent (numbered.free occupied object (flushKind_single_iff.mpr lone))
        simpa [low, withObjectStore, emptied] using
          numbered.settled_of_stored occupied object stored buffered
    · -- Several records stay buffered, so only the objects may have changed.
      rw [kept]
      refine ⟨rfl, rfl, ⟨pending, numbered.withObjectStore fun _ =>
          numbered.write occupied object wrote le_rfl (.inl ?_)⟩,
        fun record => numbered.settled_write occupied object wrote,
        fun record buffered _ => .inl buffered⟩
      intro parsed single same
      have lone := flushKind_single_iff.mp (same.symm.trans single)
      omega
  | @written key payload objectStore object occupied wrote =>
    have wrote := WriteOutcome.of_eq wrote
    refine ⟨rfl, rfl, ⟨[], .of_empty rfl fun _ => numbered.write_next occupied object wrote⟩,
      fun record settled => ?_, fun record buffered _ => .inr ?_⟩
    · exact (numbered.settled_write occupied object wrote settled).raise (Nat.sub_le _ _)
    · exact numbered.settled_of_stored occupied object (wrote.confirmed key rfl).2 buffered

theorem flushWhen_keeps (orderly : store.Orderly) (condition : Bool)
    (nowMs currentEpochMs : UInt64) :
    (flushWhen condition nowMs currentEpochMs).Ensures (FlushKeeps store) store := by
  unfold flushWhen
  split
  · exact (flushBufferAsObject_outcome nowMs currentEpochMs store).weaken
      fun _ _ outcome => outcome.keeps orderly
  · exact orderly.idle _

section Push

variable {encoded : Bytes} {nowMs : UInt64} {record : WalRecord}

theorem push_low (left : store.walStore.nextSeq.toNat < wordLimit - 1) :
    (store.push encoded nowMs).low = store.low := by
  simp [low, WalStore.takeSeq_nextSeq left]

theorem Numbered.push {chosen : ParsedWalObjectKey → Prop} {pending : List WalRecord}
    (numbered : store.Numbered chosen pending) (left : store.walStore.nextSeq.toNat < wordLimit - 1)
    (encodes : encodeWalRecord record = .ok encoded) :
    (store.push encoded nowMs).Numbered chosen (pending ++ [record]) where
  taken := by
    simpa [WalStore.takeSeq_nextSeq left] using numbered.taken
  counted := by
    rw [push_low left]
    refine numbered.counted.append ?_
    have taken := numbered.taken
    simp only [low]
    omega
  encodings := List.rel_append numbered.encodings (.cons encodes .nil)
  below _ := by
    rw [push_low left]
    exact numbered.below (.inr left)

theorem push_buffered (store : WalGroupCommitStore) (encoded : Bytes) (nowMs : UInt64)
    (record : WalRecord) : (store.push encoded nowMs).Buffered record ↔
      store.Buffered record ∨ encodeWalRecord record = .ok encoded := by
  simp [Buffered, or_and_right, exists_or]

end Push

theorem flushWhen_tracks (orderly : store.Orderly) {condition : Bool}
    (careful : condition = true → store.buffer.length = 1 →
      store.walStore.objectStore.faults 0 = none) (nowMs currentEpochMs : UInt64) :
    (flushWhen condition nowMs currentEpochMs).Ensures (fun result after =>
      FlushKeeps store result after ∧ ∀ record, store.Tracked record → after.Tracked record)
      store := by
  cases condition with
  | false => exact ⟨orderly.idle _, fun _ tracked => tracked⟩
  | true =>
    refine (flushWhen_keeps orderly true nowMs currentEpochMs).weaken fun result after keeps =>
      ⟨keeps, fun record tracked => ?_⟩
    rcases tracked with buffered | settled
    · refine keeps.buffered record buffered (.inr ?_)
      by_cases lone : store.buffer.length = 1
      · exact .inr (careful rfl lone)
      · exact .inl lone
    · exact .inr (keeps.settled record settled)

theorem flushWhen_push (orderly : store.Orderly)
    (left : store.walStore.nextSeq.toNat < wordLimit - 1) {encoded : Bytes}
    (encodes : encodeWalRecord record = .ok encoded) (condition : Bool)
    (nowMs currentEpochMs : UInt64) :
    (flushWhen condition nowMs currentEpochMs).Ensures (fun result after => after.Orderly ∧
      after.policy = store.policy ∧ (∀ other, store.Tracked other → after.Tracked other) ∧
        ∀ answer, result = .ok answer → after.Tracked record) (store.push encoded nowMs) := by
  obtain ⟨pending, numbered⟩ := orderly
  refine (flushWhen_keeps ⟨_, numbered.push left encodes⟩ condition nowMs currentEpochMs).weaken
    fun result after keeps => ⟨keeps.orderly, keeps.samePolicy, fun other tracked => ?_,
      fun answer answered => ?_⟩
  · rcases tracked with buffered | settled
    · -- Another record is buffered, so the flushed buffer holds at least two.
      have several : (store.push encoded nowMs).buffer.length ≠ 1 := by
        obtain ⟨entry, member, _⟩ := buffered
        have positive := List.length_pos_of_mem member
        simp only [push_buffer, List.length_append, List.length_singleton]
        omega
      exact keeps.buffered other ((push_buffered ..).mpr (.inl buffered)) (.inr (.inl several))
    · refine .inr (keeps.settled other ?_)
      rw [push_low left]
      exact settled
  · exact keeps.buffered record ((push_buffered ..).mpr (.inr encodes)) (.inl ⟨answer, answered⟩)

structure PublishKeeps (record : WalRecord) (before : WalGroupCommitStore)
    (result : Except WalStoreError (Option GroupCommitPublishResult))
    (after : WalGroupCommitStore) : Prop where
  samePolicy : after.policy = before.policy
  orderly : after.Orderly
  tracked : ∀ other, before.Tracked other → after.Tracked other
  acknowledged : ∀ answer, result = .ok (some answer) → after.Tracked record

theorem publishRecord_keeps (orderly : store.Orderly)
    (buffers : store.policy.isSingleRecordMode = false)
    (left : store.walStore.nextSeq.toNat < wordLimit - 1)
    (careful : ∀ encoded, encodeWalRecord record = .ok encoded → store.overflowsWith encoded.length
      = true → store.buffer.length = 1 → store.walStore.objectStore.faults 0 = none) (turns : Nat)
    (clock : Nat → UInt64) (nowMs : UInt64) :
    (publishRecord turns clock record nowMs).Ensures (PublishKeeps record store) store := by
  simp only [publishRecord, ensures_bind, ensures_get, andThen_ok, buffers, Bool.false_eq_true,
    if_false, ensures_lift]
  cases encodes : encodeWalRecord record with
  | error error => exact ⟨rfl, orderly, fun _ tracked => tracked, by simp⟩
  | ok encoded =>
    simp only [corrupt, Except.mapError, andThen_ok, ensures_bind]
    refine (flushWhen_tracks orderly (careful encoded encodes) nowMs (clock 0)).weaken ?_
    rintro (error | before) between ⟨keeps, tracks⟩
    · exact ⟨keeps.samePolicy, keeps.orderly, tracks, by simp⟩
    · have left : between.walStore.nextSeq.toNat < wordLimit - 1 := keeps.sameSeq ▸ left
      simp only [andThen_ok, ensures_bind, ensures_modify, ensures_get]
      refine (flushWhen_push keeps.orderly left encodes _ nowMs (clock 1)).weaken ?_
      rintro (error | flushed) after ⟨orderly, samePolicy, tracked, acknowledged⟩
      · exact ⟨samePolicy.trans keeps.samePolicy, orderly,
          fun other held => tracked other (tracks other held), by simp⟩
      · exact ⟨samePolicy.trans keeps.samePolicy, orderly,
          fun other held => tracked other (tracks other held), fun _ _ => acknowledged flushed rfl⟩

end WalGroupCommitStore

namespace WalGroupCommitStore

variable {store : WalGroupCommitStore}

theorem publishRecord_single (mode : store.policy.isSingleRecordMode = true) (turns : Nat)
    (clock : Nat → UInt64) (record : WalRecord) (nowMs : UInt64) :
    (publishRecord turns clock record nowMs).Ensures (fun result after =>
      after.policy = store.policy ∧ after.buffer = store.buffer ∧
        (∀ other, store.Retained other → after.Retained other) ∧
          ∀ answer, result = .ok (some answer) → after.Retained record) store := by
  simp only [publishRecord, ensures_bind, ensures_get, andThen_ok, mode, if_true, onWal, ensures_on]
  cases encodes : encodeWalRecord record with
  | error error =>
    simp only [Call.Ensures, WalStore.publishRecord_refused encodes, andThen_error]
    exact ⟨trivial, trivial, fun _ retained => retained, by simp⟩
  | ok bytes =>
    refine (WalStore.publishRecord_outcome encodes turns clock store.walStore).weaken ?_
    intro result walStore outcome
    have kept (other : WalRecord) (retained : store.Retained other) :
        ({ store with walStore } : WalGroupCommitStore).Retained other := by
      rcases retained with buffered | ⟨key, payload, records, found, rest⟩
      · exact .inl buffered
      · refine .inr ⟨key, payload, records, outcome.grows key payload found, ?_⟩
        rw [outcome.sameNamespace]
        exact rest
    rcases result with error | none | key
    · exact ⟨rfl, rfl, kept, by simp⟩
    · exact ⟨rfl, rfl, kept, by simp⟩
    · obtain ⟨stored, epochMs, seq, named⟩ := outcome.stored key rfl
      simp only [andThen_ok, ensures_pure]
      refine ⟨trivial, trivial, kept, fun _ _ => .inr ⟨key, bytes, [record], stored, ?_,
        decodeWalObjectRecords_single encodes, by simp⟩⟩
      rw [outcome.sameNamespace, named, parseWalObjectKey_chunk]
      rfl

theorem flushWhen_empty (empty : store.buffer = []) (condition : Bool)
    (nowMs currentEpochMs : UInt64) :
    flushWhen condition nowMs currentEpochMs store = (.ok none, store) := by
  cases condition with
  | false => rfl
  | true => simp [flushWhen, flushBufferAsObject, empty]

theorem Orderly.withFaults (orderly : store.Orderly) (faults : Nat → Option WalStoreError) :
    (store.withFaults faults).Orderly := by
  obtain ⟨pending, numbered⟩ := orderly
  exact ⟨pending, numbered.withObjectStore numbered.below⟩

end WalGroupCommitStore

namespace CommitRun

open WalGroupCommitStore

inductive Kept (run : CommitRun) : Prop
  | single (mode : run.store.policy.isSingleRecordMode = true) (empty : run.store.buffer = [])
      (retained : ∀ record ∈ run.acknowledged, run.store.Retained record)
  | grouped (mode : run.store.policy.isSingleRecordMode = false) (orderly : run.store.Orderly)
      (tracked : ∀ record ∈ run.acknowledged, run.store.Tracked record)

variable {run : CommitRun}

theorem Kept.retained (kept : run.Kept) :
    ∀ record ∈ run.acknowledged, run.store.Retained record := by
  cases kept with
  | single _ _ retained => exact retained
  | grouped _ _ tracked => exact fun record member => (tracked record member).retained

theorem Kept.flush (kept : run.Kept) {condition : Bool} {faults : Nat → Option WalStoreError}
    (careful : condition = true → run.store.buffer.length = 1 → faults 0 = none)
    (nowMs currentEpochMs : UInt64) :
    (flushWhen condition nowMs currentEpochMs).Ensures (fun _ after =>
      Kept ⟨after, run.acknowledged⟩ ∧ ∀ record, run.store.Buffered record → after.Retained record)
      (run.store.withFaults faults) := by
  cases kept with
  | single mode empty retained =>
    have idle : (run.store.withFaults faults).buffer = [] := empty
    rw [Call.Ensures, flushWhen_empty idle]
    exact ⟨.single mode idle retained, fun _ buffered => .inl buffered⟩
  | grouped mode orderly tracked =>
    refine (flushWhen_tracks (orderly.withFaults faults) careful nowMs currentEpochMs).weaken ?_
    rintro result after ⟨keeps, tracks⟩
    refine ⟨.grouped (by rw [keeps.samePolicy]; exact mode) keeps.orderly fun record member =>
      tracks record (tracked record member), fun record buffered => ?_⟩
    exact (tracks record (.inl buffered)).retained

theorem Kept.publish (kept : run.Kept) {record : WalRecord} {nowMs : UInt64} {clock : Nat → UInt64}
    {turns : Nat} {faults : Nat → Option WalStoreError}
    (careful : Careful run ⟨.publish record nowMs clock turns, faults⟩) :
    (publishRecord turns clock record nowMs).Ensures (fun result after =>
      (Kept ⟨after, run.acknowledged⟩ ∧
        ∀ answer, result = .ok (some answer) → Kept ⟨after, record :: run.acknowledged⟩) ∧
        ∀ other, run.store.Buffered other → after.Retained other)
      (run.store.withFaults faults) := by
  cases kept with
  | single mode empty retained =>
    have ready : (run.store.withFaults faults).policy.isSingleRecordMode = true := mode
    refine (publishRecord_single ready turns clock record nowMs).weaken ?_
    rintro result after ⟨samePolicy, sameBuffer, kept, acknowledged⟩
    have mode : after.policy.isSingleRecordMode = true := by rw [samePolicy]; exact mode
    have empty : after.buffer = [] := sameBuffer.trans empty
    refine ⟨⟨.single mode empty fun other member => kept other (retained other member),
      fun answer answered => .single mode empty ?_⟩, fun other buffered => kept other (.inl buffered)⟩
    simp only [List.mem_cons, forall_eq_or_imp]
    exact ⟨acknowledged answer answered, fun other member => kept other (retained other member)⟩
  | grouped mode orderly tracked =>
    obtain ⟨lone, left⟩ := careful
    have left : run.store.walStore.nextSeq.toNat < wordLimit - 1 := by
      simpa [UInt64.lt_iff_toNat_lt] using left (by simp [buffersRecord, mode])
    refine (publishRecord_keeps (orderly.withFaults faults) mode left ?_ turns clock nowMs).weaken ?_
    · intro encoded encodes overflows single
      have overflows : run.store.overflowsWith encoded.length = true := overflows
      have single : run.store.buffer.length = 1 := single
      exact lone (by simp [flushesLoneRecord, encodes, mode, overflows, single])
    · intro result after keeps
      have mode : after.policy.isSingleRecordMode = false := by rw [keeps.samePolicy]; exact mode
      refine ⟨⟨.grouped mode keeps.orderly fun other member =>
          keeps.tracked other (tracked other member), fun answer answered =>
          .grouped mode keeps.orderly ?_⟩,
        fun other buffered => (keeps.tracked other (.inl buffered)).retained⟩
      simp only [List.mem_cons, forall_eq_or_imp]
      exact ⟨keeps.acknowledged answer answered, fun other member =>
        keeps.tracked other (tracked other member)⟩

theorem Kept.step {run : CommitRun} (kept : run.Kept) {taken : CommitStep}
    (careful : Careful run taken) :
    (run.step taken).Kept ∧
      ∀ record, run.store.Buffered record → (run.step taken).store.Retained record := by
  obtain ⟨call, faults⟩ := taken
  cases call with
  | flushDue nowMs currentEpochMs =>
    refine kept.flush (fun due lone => careful.1 ?_) nowMs currentEpochMs
    have due : run.store.isDue nowMs = true := due
    simp [flushesLoneRecord, lone, due]
  | flushNow nowMs currentEpochMs =>
    refine kept.flush (fun (_ : true = true) lone => careful.1 ?_) nowMs currentEpochMs
    simp [flushesLoneRecord, lone]
  | publish record nowMs clock turns =>
    have ensured := kept.publish careful
    simp only [CommitRun.step]
    rcases ran : publishRecord turns clock record nowMs (run.store.withFaults faults) with
      ⟨error | _ | answer, after⟩
    all_goals rw [Call.Ensures, ran] at ensured
    · exact ⟨ensured.1.1, ensured.2⟩
    · exact ⟨ensured.1.1, ensured.2⟩
    · exact ⟨ensured.1.2 answer rfl, ensured.2⟩

theorem kept_start (namespacePrefix nodeId : Text) (putPolicy : PutPolicy) (objects : Objects)
    (policy : WalBatchPolicy) :
    (commitSystem namespacePrefix nodeId putPolicy objects policy).start.Kept := by
  cases mode : policy.isSingleRecordMode with
  | true => exact .single mode rfl (by simp [commitSystem])
  | false =>
    exact .grouped mode ⟨[], .opened namespacePrefix nodeId putPolicy objects policy⟩
      (by simp [commitSystem])

end CommitRun

/-- An acknowledged record is buffered or in a log object, in every state of every careful run. -/
theorem acknowledged_retained (namespacePrefix nodeId : Text) (putPolicy : PutPolicy)
    (objects : Objects) (policy : WalBatchPolicy) {run : CommitRun}
    (reached : (commitSystem namespacePrefix nodeId putPolicy objects policy).Reachable Careful run)
    :
    (∀ record ∈ run.acknowledged, run.store.Retained record) ∧
      ∀ taken, Careful run taken → ∀ record, run.store.Buffered record →
        (run.step taken).store.Retained record := by
  have kept : run.Kept := by
    refine reached.invariant (CommitRun.kept_start ..) ?_
    intro before taken after kept careful made
    cases made
    exact (kept.step careful).1
  exact ⟨kept.retained, fun taken careful => (kept.step careful).2⟩

def pairingSystem : System CommitRun CommitStep :=
  commitSystem "wal".toList "n".toList .replace ∅ ⟨0, 2, 1000⟩

def publishOne : CommitStep := ⟨.publish ⟨[65], [], []⟩ 0 (fun _ => 0) 1, fun _ => none⟩

theorem acknowledged_retained_one :
    ((pairingSystem.start.step publishOne).step ⟨.flushNow 0 0, fun _ => none⟩).store.Retained
      ⟨[65], [], []⟩ := by
  have published : Careful pairingSystem.start publishOne :=
    ⟨fun _ => rfl, fun _ => by decide⟩
  have flushed : Careful (pairingSystem.start.step publishOne) ⟨.flushNow 0 0, fun _ => none⟩ :=
    ⟨fun _ => rfl, by decide⟩
  refine (acknowledged_retained "wal".toList "n".toList .replace ∅ ⟨0, 2, 1000⟩
    (.step (.step .start published rfl) flushed rfl)).1 _ ?_
  decide

theorem lone_flush_loses_record :
    let run := (pairingSystem.start.step publishOne).step
      ⟨.flushNow 0 0, fun index => if index = 0 then some (.s3 "put failed") else none⟩
    ⟨[65], [], []⟩ ∈ run.acknowledged ∧ ¬ run.store.Retained ⟨[65], [], []⟩ := by
  refine ⟨by decide, ?_⟩
  rintro (⟨_, member, _⟩ | ⟨key, payload, _, found, _⟩)
  · change _ ∈ ([] : List BufferedWalRecord) at member
    cases member
  · change (∅ : Objects)[key]? = some payload at found
    simp at found

end WombatKV

