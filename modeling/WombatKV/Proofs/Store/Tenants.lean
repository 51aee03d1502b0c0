import WombatKV.Proofs.Store.GroupCommit
import WombatKV.Store.NodeHistory

/-! What a log instance may write, and what it can tell apart. -/

namespace WombatKV

open ObjectStore Call List

structure SameView (start : Text) (left right : ObjectStore) : Prop where
  putPolicy : left.putPolicy = right.putPolicy
  faults : left.faults = right.faults
  objects : ∀ key, start <+: key → left.objects[key]? = right.objects[key]?

namespace SameView

variable {start : Text} {key : Text}

theorem request {α : Type} {left right : Call WalStoreError ObjectStore α}
    (operation : Lockstep (SameView start) left right) :
    Lockstep (SameView start) (ObjectStore.request left) (ObjectStore.request right) := by
  intro s t view
  have advanced : SameView start s.advance t.advance :=
    ⟨view.putPolicy, by simp [advance, view.faults], view.objects⟩
  cases fault : s.faults 0 with
  | some error =>
    have same : t.faults 0 = some error := by rw [← view.faults, fault]
    simp only [ObjectStore.request, fault, same]
    exact ⟨trivial, advanced⟩
  | none =>
    have same : t.faults 0 = none := by rw [← view.faults, fault]
    simp only [ObjectStore.request, fault, same]
    exact operation _ _ advanced

theorem putObject (seen : start <+: key) (payload : Bytes) :
    Respects (SameView start) (ObjectStore.putObject key payload) := by
  refine request fun s t view => ⟨rfl, view.putPolicy, view.faults, fun other visible => ?_⟩
  show (putInto s.putPolicy s.objects key payload)[other]? =
    (putInto t.putPolicy t.objects key payload)[other]?
  by_cases same : key = other
  · subst same
    rw [putInto_self, putInto_self, view.putPolicy, view.objects key seen]
  · rw [putInto_of_ne same, putInto_of_ne same, view.objects other visible]

theorem getObject (seen : start <+: key) :
    Respects (SameView start) (ObjectStore.getObject key) := by
  refine request fun s t view => ?_
  simp only [view.objects key seen]
  cases t.objects[key]? with
  | none => exact ⟨rfl, view⟩
  | some payload => exact ⟨rfl, view⟩

theorem headObject (seen : start <+: key) :
    Respects (SameView start) (ObjectStore.headObject key) := by
  refine request fun s t view => ⟨?_, view⟩
  simp only [Std.ExtTreeMap.contains_eq_isSome_getElem?, view.objects key seen]

theorem listPrefix : Respects (SameView start) (ObjectStore.listPrefix start) := by
  refine request fun s t view => ⟨congrArg Except.ok ?_, view⟩
  show WalStore.listed start s.objects = WalStore.listed start t.objects
  have ordered (objects : Objects) :
      (WalStore.listed start objects).Pairwise fun left right => compare left right = .lt :=
    Std.ExtTreeMap.ordered_keys.filter _
  have distinct (objects : Objects) : (WalStore.listed start objects).Nodup :=
    Std.ExtTreeMap.nodup_keys.filter _
  have members : (WalStore.listed start s.objects).Perm (WalStore.listed start t.objects) := by
    refine (perm_ext_iff_of_nodup (distinct _) (distinct _)).mpr fun key => ?_
    simp only [WalStore.mem_listed, ← Std.ExtTreeMap.isSome_getElem?_iff_mem]
    exact and_congr_left fun seen => by rw [view.objects key seen]
  exact (sortBy_eq_of_perm compare (ordered s.objects) (.refl _)).symm.trans
    (sortBy_eq_of_perm compare (ordered t.objects) members)

end SameView

theorem prefix_buildCanonicalWalKey (namespacePrefix nodeId : Text) (epochMs seq : UInt64) :
    namespacePrefix <+: buildCanonicalWalKey namespacePrefix nodeId epochMs seq :=
  prefix_append _ _

theorem prefix_buildCanonicalWalBatchKey (namespacePrefix nodeId : Text)
    (epochMs startSeq endSeq : UInt64) :
    namespacePrefix <+: buildCanonicalWalBatchKey namespacePrefix nodeId epochMs startSeq endSeq :=
  prefix_append _ _

namespace WalStore

structure Twins (start : Text) (left right : WalStore) : Prop where
  namespaced : left.namespacePrefix = start
  same : ∀ objectStore, { left with objectStore } = { right with objectStore }
  view : SameView start left.objectStore right.objectStore

namespace Twins

variable {start : Text} {left right : WalStore}

theorem fields (twins : Twins start left right) :
    right.namespacePrefix = start ∧ left.nodeId = right.nodeId ∧ left.nextSeq = right.nextSeq := by
  have same := twins.same left.objectStore
  simp only [WalStore.mk.injEq, true_and] at same
  exact ⟨same.1.symm.trans twins.namespaced, same.2⟩

theorem onStore {α : Type} {call : Call WalStoreError ObjectStore α}
    (requests : Respects (SameView start) call) : Respects (Twins start) (WalStore.onStore call) :=
  .on requests (fun _ _ twins => twins.view) fun _ _ _ _ twins view =>
    ⟨twins.namespaced, twins.same, view⟩

theorem takeSeq :
    Respects (Twins start) (modify WalStore.takeSeq : Call WalStoreError WalStore PUnit) := by
  refine .modify fun left right twins => ?_
  obtain ⟨_, sameNode, sameSeq⟩ := twins.fields
  refine ⟨twins.namespaced, fun objectStore => ?_, twins.view⟩
  have same := twins.same objectStore
  simp only [WalStore.mk.injEq] at same
  simp [WalStore.takeSeq, same]

end Twins

theorem publishLoop_twins (start : Text) (bytes : Bytes) (turns : Nat) (clock : Nat → UInt64) :
    Respects (Twins start) (publishLoop bytes turns clock) := by
  induction turns generalizing clock with
  | zero => exact .pure none
  | succ turns ih =>
    have again : Respects (Twins start)
        (modify takeSeq >>= fun _ => publishLoop bytes turns fun turn => clock (turn + 1)) :=
      .bind Twins.takeSeq fun _ => ih _
    refine .get_bind fun left right twins => ?_
    obtain ⟨namespaced, sameNode, sameSeq⟩ := twins.fields
    rw [twins.namespaced, namespaced, sameNode, sameSeq]
    generalize named : buildCanonicalWalKey start right.nodeId.text (clock 0) right.nextSeq =
      candidate
    have seen : start <+: candidate := named ▸ prefix_buildCanonicalWalKey ..
    refine Lockstep.bind (Twins.onStore (SameView.headObject seen)) (fun taken => ?_) left right twins
    split
    · exact again
    · refine .bind (Twins.onStore (SameView.putObject seen bytes)) fun _ =>
        .bind (Twins.onStore (SameView.getObject seen)) fun stored => ?_
      split
      · exact .pure _
      · exact again

theorem publishRecord_twins (start : Text) (turns : Nat) (clock : Nat → UInt64)
    (record : WalRecord) :
    Respects (Twins start) (publishRecord turns clock record) := by
  refine .bind (.lift _) fun bytes => ?_
  refine .bind_where (publishLoop_twins start bytes turns clock)
    (fun left right twins answer answered => ?_ : ∀ left right, Twins start left right →
      ∀ answer, (publishLoop bytes turns clock left).1 = .ok answer →
        ∀ key, answer = some key → start <+: key) fun answer seen => ?_
  · rintro key rfl
    obtain ⟨_, epochMs, seq, named⟩ :=
      (publishLoop_outcome bytes turns clock left).stored key answered
    rw [named, twins.namespaced]
    exact prefix_buildCanonicalWalKey ..
  · cases answer with
    | none => exact .pure none
    | some key =>
      refine .bind Twins.takeSeq fun _ =>
        .bind (Twins.onStore (SameView.headObject (seen key rfl))) fun present => ?_
      split
      · exact .pure _
      · exact .throw _

theorem readObjects_view {start : Text} {keys : List Text} (seen : ∀ key ∈ keys, start <+: key) :
    Respects (SameView start) (readObjects keys) := by
  induction keys with
  | nil => exact .pure []
  | cons key rest ih =>
    refine .bind (SameView.getObject (seen key (by simp))) fun bytes => .bind (.lift _) fun records =>
      .bind (ih fun other member => seen other (mem_cons_of_mem _ member)) fun others => .pure _

theorem replayFrom_view (start : Text) : Respects (SameView start) (replayFrom start) := by
  refine .bind_where SameView.listPrefix
    (fun left right view keys listed => ?_ : ∀ left right, SameView start left right →
      ∀ keys, (listPrefix start left).1 = .ok keys → ∀ key ∈ keys, start <+: key)
    fun keys seen => readObjects_view fun key member => seen key (by simpa using member)
  have lists : (listPrefix start).Ensures (fun result _ => ∀ keys, result = .ok keys →
      ∀ key ∈ keys, start <+: key) left := by
    refine ensures_request.mpr ⟨by simp, fun _ => ?_⟩
    rintro keys ⟨⟩ key member
    simpa using (mem_filter.mp member).2
  exact lists keys listed

end WalStore

namespace WalGroupCommitStore

structure Twins (start : Text) (left right : WalGroupCommitStore) : Prop where
  policy : left.policy = right.policy
  buffer : left.buffer = right.buffer
  bufferedBytes : left.bufferedBytes = right.bufferedBytes
  firstBufferedAtMs : left.firstBufferedAtMs = right.firstBufferedAtMs
  walStore : WalStore.Twins start left.walStore right.walStore

variable {start : Text}

theorem Twins.onWal {α : Type} {call : Call WalStoreError WalStore α}
    (calls : Respects (WalStore.Twins start) call) :
    Respects (Twins start) (WalGroupCommitStore.onWal call) :=
  .on calls (fun _ _ twins => twins.walStore) fun _ _ _ _ twins walStore =>
    ⟨twins.policy, twins.buffer, twins.bufferedBytes, twins.firstBufferedAtMs, walStore⟩

theorem writeObject_view {key : Text} (seen : start <+: key) (payload : Bytes) :
    Respects (SameView start) (writeObject key payload) := by
  refine .bind (SameView.putObject seen payload) fun _ =>
    .bind (SameView.getObject seen) fun stored => ?_
  split
  · exact .pure _
  · exact .throw _

theorem writeSingleObjectWithSeq_twins (seq : UInt64) (payload : Bytes) (epochMs : UInt64) :
    Respects (WalStore.Twins start) (writeSingleObjectWithSeq seq payload epochMs) := by
  intro left right twins
  obtain ⟨namespaced, sameNode, _⟩ := twins.fields
  simp only [writeSingleObjectWithSeq, twins.namespaced, namespaced, sameNode]
  exact WalStore.Twins.onStore (writeObject_view (prefix_buildCanonicalWalKey ..) payload) _ _ twins

theorem writeBatchObject_twins (startSeq endSeq : UInt64) (payload : Bytes) (epochMs : UInt64) :
    Respects (WalStore.Twins start) (writeBatchObject startSeq endSeq payload epochMs) := by
  intro left right twins
  obtain ⟨namespaced, sameNode, _⟩ := twins.fields
  simp only [writeBatchObject, twins.namespaced, namespaced, sameNode]
  exact WalStore.Twins.onStore (writeObject_view (prefix_buildCanonicalWalBatchKey ..) payload) _ _
    twins

theorem writeBuffer_twins (epochMs : UInt64) : Respects (Twins start) (writeBuffer epochMs) := by
  refine .get_bind fun left right twins => ?_
  have emptied : Twins start { left with buffer := [] } { right with buffer := [] } :=
    ⟨twins.policy, rfl, twins.bufferedBytes, twins.firstBufferedAtMs, twins.walStore⟩
  rw [twins.buffer]
  rcases right.buffer with _ | ⟨only, _ | ⟨second, rest⟩⟩
  · exact ⟨rfl, twins⟩
  · exact Twins.onWal (writeSingleObjectWithSeq_twins _ _ epochMs) _ _ emptied
  · exact Lockstep.bind (.lift _) (fun payload =>
      Twins.onWal (writeBatchObject_twins _ _ payload epochMs)) _ _ twins

theorem flushBufferAsObject_twins (nowMs currentEpochMs : UInt64) :
    Respects (Twins start) (flushBufferAsObject nowMs currentEpochMs) := by
  refine .get_bind fun left right twins => ?_
  rw [twins.buffer]
  split
  · exact ⟨rfl, twins⟩
  · refine Lockstep.bind (writeBuffer_twins _) (fun key => ?_) _ _ twins
    refine .bind (.modify fun left right twins => ?_) fun _ => .pure _
    exact ⟨twins.policy, rfl, rfl, rfl, twins.walStore⟩

theorem flushWhen_twins (condition : Bool) (nowMs currentEpochMs : UInt64) :
    Respects (Twins start) (flushWhen condition nowMs currentEpochMs) := by
  cases condition with
  | false => exact .pure none
  | true => exact flushBufferAsObject_twins nowMs currentEpochMs

theorem flushDue_twins (nowMs currentEpochMs : UInt64) :
    Respects (Twins start) (flushDue nowMs currentEpochMs) := by
  refine .get_bind fun left right twins => ?_
  have due : left.isDue nowMs = right.isDue nowMs := by
    simp only [isDue, twins.policy, twins.buffer, twins.firstBufferedAtMs]
  rw [due]
  exact flushWhen_twins _ nowMs currentEpochMs _ _ twins

theorem push_twins (encoded : Bytes) (nowMs : UInt64) :
    Respects (Twins start)
      (modify (push · encoded nowMs) : Call WalStoreError WalGroupCommitStore PUnit) := by
  refine .modify fun left right twins => ?_
  obtain ⟨_, _, sameSeq⟩ := twins.walStore.fields
  refine ⟨twins.policy, ?_, ?_, ?_, (WalStore.Twins.takeSeq _ _ twins.walStore).2⟩
  · simp [twins.buffer, sameSeq]
  · simp [push, twins.buffer]
  · simp [push, twins.firstBufferedAtMs]

theorem publishRecord_twins (turns : Nat) (clock : Nat → UInt64) (record : WalRecord)
    (nowMs : UInt64) : Respects (Twins start) (publishRecord turns clock record nowMs) := by
  refine .get_bind fun left right twins => ?_
  rw [twins.policy]
  split
  · exact Lockstep.bind (Twins.onWal (WalStore.publishRecord_twins start turns clock record))
      (fun published => .pure _) _ _ twins
  · refine Lockstep.bind (.lift _) (fun encoded => ?_) _ _ twins
    have overflows : left.overflowsWith encoded.length = right.overflowsWith encoded.length := by
      simp only [overflowsWith, twins.policy, twins.buffer, twins.bufferedBytes]
    rw [overflows]
    refine .bind (flushWhen_twins _ nowMs (clock 0)) fun before => .bind (push_twins encoded nowMs) fun _ =>
      .get_bind fun left right twins => ?_
    have full : left.isFull = right.isFull := by
      simp only [isFull, twins.policy, twins.buffer, twins.bufferedBytes]
    rw [full]
    refine Lockstep.bind (flushWhen_twins _ nowMs (clock 1)) (fun after => .get_bind fun left right twins => ?_)
      _ _ twins
    rw [twins.buffer, twins.bufferedBytes]
    exact ⟨rfl, twins⟩

end WalGroupCommitStore

namespace LiveStore

inductive Twins (start : Text) : LiveStore → LiveStore → Prop
  | plain {left right : WalStore} (twins : WalStore.Twins start left right) :
      Twins start (.plain left) (.plain right)
  | grouped {left right : WalGroupCommitStore} (twins : WalGroupCommitStore.Twins start left right) :
      Twins start (.grouped left) (.grouped right)

variable {start : Text} {left right : LiveStore}

theorem Twins.afterCall (twins : Twins start left right) (call : TenantCall) :
    Twins start (left.afterCall call) (right.afterCall call) := by
  cases twins with
  | plain twins =>
    cases call with
    | publish record nowMs clock turns =>
      exact .plain (WalStore.publishRecord_twins start turns clock record _ _ twins).2
    | _ => exact .plain twins
  | grouped twins =>
    cases call with
    | publish record nowMs clock turns =>
      exact .grouped (WalGroupCommitStore.publishRecord_twins turns clock record nowMs _ _ twins).2
    | flushDue nowMs currentEpochMs =>
      exact .grouped (WalGroupCommitStore.flushDue_twins nowMs currentEpochMs _ _ twins).2
    | flushNow nowMs currentEpochMs =>
      exact .grouped (WalGroupCommitStore.flushBufferAsObject_twins nowMs currentEpochMs _ _ twins).2
    | opened => exact .grouped twins

theorem Twins.of_same
    (same : ∀ objectStore, left.withObjectStore objectStore = right.withObjectStore objectStore)
    (namespaced : left.walStore.namespacePrefix = start) {first second : ObjectStore}
    (view : SameView start first second) :
    Twins start (left.withObjectStore first) (right.withObjectStore second) := by
  rcases left with left | left <;> rcases right with right | right
  · exact .plain ⟨namespaced, fun objectStore => by simpa [withObjectStore] using same objectStore,
      view⟩
  · cases same first
  · cases same first
  · have fields := same first
    simp only [withObjectStore, WalGroupCommitStore.withObjectStore, grouped.injEq,
      WalGroupCommitStore.mk.injEq] at fields
    obtain ⟨walStore, policy, buffer, bytes, firstAt⟩ := fields
    simp only [WalStore.mk.injEq, true_and] at walStore
    exact .grouped ⟨policy, buffer, bytes, firstAt, namespaced, by
      simp [WalGroupCommitStore.withObjectStore, walStore], view⟩

theorem Twins.same (twins : Twins start left right) (objectStore : ObjectStore) :
    left.withObjectStore objectStore = right.withObjectStore objectStore := by
  cases twins with
  | plain twins => simp [withObjectStore, twins.same]
  | grouped twins =>
    simp [withObjectStore, WalGroupCommitStore.withObjectStore, twins.walStore.same, twins.policy,
      twins.buffer, twins.bufferedBytes, twins.firstBufferedAtMs]

theorem Twins.namespaced (twins : Twins start left right) :
    left.walStore.namespacePrefix = start := by
  cases twins with
  | plain twins => exact twins.namespaced
  | grouped twins => exact twins.walStore.namespaced

theorem Twins.opened {first second : ObjectStore} (view : SameView start first second)
    (nodeId : Text) (policy : Option WalBatchPolicy) :
    Twins start (.opened start nodeId first policy) (.opened start nodeId second policy) := by
  have recovered : Respects (SameView start)
      (WalStore.recoverNextSeq start (sanitizeNodeId nodeId)) :=
    .bind SameView.listPrefix fun keys => .pure _
  obtain ⟨sameAnswer, sameView⟩ := recovered first second view
  have twins : WalStore.Twins start (.withNodeId start nodeId first)
      (.withNodeId start nodeId second) :=
    ⟨rfl, fun objectStore => by simp [WalStore.withNodeId, sameAnswer], sameView⟩
  cases policy with
  | none => exact .plain twins
  | some policy => exact .grouped ⟨rfl, rfl, rfl, rfl, twins⟩

theorem Twins.view (twins : Twins start left right) :
    SameView start left.walStore.objectStore right.walStore.objectStore := by
  cases twins with
  | plain twins => exact twins.view
  | grouped twins => exact twins.walStore.view

end LiveStore

structure Wrote (allowed : Text → Bytes → Prop) (before after : ObjectStore) : Prop where
  samePolicy : after.putPolicy = before.putPolicy
  objects : ∀ key : Text, after.objects[key]? = before.objects[key]? ∨
    ∃ payload, allowed key payload ∧ after.objects[key]? = some payload

namespace Wrote

variable {allowed : Text → Bytes → Prop} {before between after : ObjectStore}

theorem refl (store : ObjectStore) : Wrote allowed store store := ⟨rfl, fun _ => .inl rfl⟩

theorem trans (first : Wrote allowed before between) (second : Wrote allowed between after) :
    Wrote allowed before after where
  samePolicy := second.samePolicy.trans first.samePolicy
  objects key := by
    rcases second.objects key with same | written
    · rw [same]
      exact first.objects key
    · exact .inr written

theorem put {key : Text} {payload : Bytes} (samePolicy : after.putPolicy = before.putPolicy)
    (put : after.objects = putInto before.putPolicy before.objects key payload)
    (permitted : allowed key payload) : Wrote allowed before after where
  samePolicy := samePolicy
  objects other := by
    by_cases same : key = other
    · subst same
      cases found : after.objects[key]? with
      | none =>
        rw [put, putInto_self] at found
        cases policy : before.putPolicy <;> simp [policy] at found
      | some held =>
        rw [put] at found
        rcases putInto_cases found with earlier | ⟨_, rfl⟩
        · exact .inl earlier.symm
        · exact .inr ⟨held, permitted, rfl⟩
    · rw [put, putInto_of_ne same]
      exact .inl rfl

end Wrote

def LogObject (namespacePrefix : Text) (sources : WalRecord → Prop) (key : Text) (payload : Bytes) :
    Prop :=
  (∃ (nodeId : NodeId) (epochMs startSeq endSeq : UInt64),
    key = buildCanonicalWalKey namespacePrefix nodeId.text epochMs startSeq ∨
      key = buildCanonicalWalBatchKey namespacePrefix nodeId.text epochMs startSeq endSeq) ∧
    ∀ records, decodeWalObjectRecords payload = .ok records → ∀ record ∈ records, sources record

def Feeds (sources : WalRecord → Prop) (buffer : List BufferedWalRecord) : Prop :=
  ∀ entry ∈ buffer, ∃ record, sources record ∧ Encodes entry record

section Sources

variable {sources : WalRecord → Prop} {store : WalGroupCommitStore}

theorem Feeds.records {buffer : List BufferedWalRecord} (feeds : Feeds sources buffer) :
    ∃ records, List.Forall₂ Encodes buffer records ∧ ∀ record ∈ records, sources record := by
  induction buffer with
  | nil => exact ⟨[], .nil, by simp⟩
  | cons entry rest ih =>
    obtain ⟨record, source, encodes⟩ := feeds entry (by simp)
    obtain ⟨records, encodings, known⟩ := ih fun other member =>
      feeds other (mem_cons_of_mem _ member)
    refine ⟨record :: records, .cons encodes encodings, ?_⟩
    simpa using ⟨source, known⟩

theorem publishRecord_wrote (turns : Nat) (clock : Nat → UInt64) {record : WalRecord}
    (source : sources record) (store : WalStore) :
    (WalStore.publishRecord turns clock record).Ensures (fun _ after =>
      after.namespacePrefix = store.namespacePrefix ∧
        Wrote (LogObject store.namespacePrefix sources) store.objectStore after.objectStore)
      store := by
  cases encoded : encodeWalRecord record with
  | error error =>
    rw [Call.Ensures, WalStore.publishRecord_refused encoded]
    exact ⟨rfl, .refl _⟩
  | ok bytes =>
    refine (WalStore.publishRecord_outcome encoded turns clock store).weaken fun result after outcome =>
      ⟨outcome.sameNamespace, outcome.samePolicy, fun key => ?_⟩
    cases found : after.objects[key]? with
    | none =>
      refine .inl ?_
      cases earlier : store.objects[key]? with
      | none => rfl
      | some payload => rw [outcome.grows key payload earlier] at found; cases found
    | some payload =>
      rcases outcome.added key payload found with earlier | ⟨rfl, epochMs, seq, named⟩
      · exact .inl earlier.symm
      · refine .inr ⟨payload, ⟨⟨store.nodeId, epochMs, seq, seq, .inl named⟩, ?_⟩, rfl⟩
        rintro records decoded other member
        rw [decodeWalObjectRecords_single encoded] at decoded
        cases decoded
        rw [mem_singleton.mp member]
        exact source

open WalGroupCommitStore

theorem Feeds.flushObject (feeds : Feeds sources store.buffer) {epochMs : UInt64} {key : Text}
    {payload : Bytes} (object : store.flushObject epochMs = .ok (key, payload)) :
    LogObject store.walStore.namespacePrefix sources key payload := by
  obtain ⟨records, encodings, known⟩ := feeds.records
  rcases flushObject_cases object with ⟨only, lone, rfl, named⟩ | ⟨_, encoded, named⟩
  · refine ⟨⟨store.walStore.nodeId, epochMs, only.seq, only.seq, .inl named⟩, ?_⟩
    rw [lone] at encodings
    obtain ⟨record, _, encodes, none, rfl⟩ := forall₂_cons_left_iff.mp encodings
    rw [forall₂_nil_left_iff.mp none] at known
    intro read decoded
    rw [decodeWalObjectRecords_single encodes] at decoded
    cases decoded
    exact known
  · refine ⟨⟨store.walStore.nodeId, epochMs, store.bufferRange.1, store.bufferRange.2, .inr named⟩,
      fun read decoded => ?_⟩
    obtain ⟨nonempty, _⟩ := encodeWalBatchPayload_ok encoded
    rw [decodeWalObjectRecords_range encodings encoded nonempty] at decoded
    split at decoded
    · cases decoded
      exact known
    · cases decoded

structure Supplied (sources : WalRecord → Prop) (before after : WalGroupCommitStore) : Prop where
  sameNamespace : after.walStore.namespacePrefix = before.walStore.namespacePrefix
  feeds : Feeds sources after.buffer
  wrote : Wrote (LogObject before.walStore.namespacePrefix sources) before.walStore.objectStore
    after.walStore.objectStore

theorem Supplied.trans {before between after : WalGroupCommitStore}
    (first : Supplied sources before between) (second : Supplied sources between after) :
    Supplied sources before after where
  sameNamespace := second.sameNamespace.trans first.sameNamespace
  feeds := second.feeds
  wrote := first.wrote.trans (first.sameNamespace ▸ second.wrote)

theorem Feeds.flushWhen (feeds : Feeds sources store.buffer) (condition : Bool)
    (nowMs currentEpochMs : UInt64) :
    (flushWhen condition nowMs currentEpochMs).Ensures (fun _ => Supplied sources store) store := by
  cases condition with
  | false => exact ⟨rfl, feeds, .refl _⟩
  | true =>
    refine (flushBufferAsObject_outcome nowMs currentEpochMs store).weaken fun result after outcome =>
      ?_
    have wrote {epochMs : UInt64} {key : Text} {payload : Bytes}
        {result : Except WalStoreError Text} {objectStore : ObjectStore}
        (object : store.flushObject epochMs = .ok (key, payload))
        (wrote : writeObject key payload store.walStore.objectStore = (result, objectStore)) :
        Wrote (LogObject store.walStore.namespacePrefix sources) store.walStore.objectStore
          objectStore := by
      have outcome := WriteOutcome.of_eq wrote
      rcases outcome.objects with ⟨_, same⟩ | ⟨_, put⟩
      · exact ⟨outcome.samePolicy, fun key => .inl (by rw [same])⟩
      · exact .put outcome.samePolicy put (feeds.flushObject object)
    cases outcome with
    | idle => exact ⟨rfl, feeds, .refl _⟩
    | refused => exact ⟨rfl, feeds, .refl _⟩
    | failed object _ ran =>
      refine ⟨rfl, fun entry member => feeds entry ?_, wrote object ran⟩
      change entry ∈ store.bufferAfterFailure at member
      unfold bufferAfterFailure at member
      split at member
      · cases member
      · exact member
    | written object _ ran => exact ⟨rfl, by simp [Feeds, cleared], wrote object ran⟩

theorem Feeds.publishRecord (feeds : Feeds sources store.buffer) {record : WalRecord}
    (source : sources record) (turns : Nat) (clock : Nat → UInt64) (nowMs : UInt64) :
    (publishRecord turns clock record nowMs).Ensures (fun _ => Supplied sources store) store := by
  simp only [WalGroupCommitStore.publishRecord, ensures_bind, ensures_get, andThen_ok]
  split
  · simp only [ensures_bind, onWal, ensures_on]
    refine (publishRecord_wrote turns clock source store.walStore).weaken ?_
    rintro (error | key) after ⟨sameNamespace, wrote⟩
    · exact ⟨sameNamespace, feeds, wrote⟩
    · exact ⟨sameNamespace, feeds, wrote⟩
  · simp only [ensures_bind, ensures_lift]
    cases encoded : encodeWalRecord record with
    | error error => exact ⟨rfl, feeds, .refl _⟩
    | ok bytes =>
      simp only [corrupt, Except.mapError, andThen_ok, ensures_bind]
      refine (feeds.flushWhen _ nowMs (clock 0)).weaken ?_
      rintro (error | flushed) between supplied
      · exact supplied
      · simp only [andThen_ok, ensures_bind, ensures_modify, ensures_get]
        have pushed : Feeds sources (between.push bytes nowMs).buffer := by
          intro entry member
          rw [push_buffer, mem_append, mem_singleton] at member
          rcases member with earlier | rfl
          · exact supplied.feeds entry earlier
          · exact ⟨record, source, encoded⟩
        refine (pushed.flushWhen _ nowMs (clock 1)).weaken ?_
        have between : Supplied sources store (between.push bytes nowMs) :=
          ⟨supplied.sameNamespace, pushed, supplied.wrote⟩
        rintro (error | answer) after last
        · exact between.trans last
        · exact between.trans last

end Sources

namespace LiveStore

theorem afterCall_supplied {sources : WalRecord → Prop} {live : LiveStore}
    (feeds : Feeds sources live.buffer) (call : TenantCall)
    (known : ∀ record nowMs clock turns, call = .publish record nowMs clock turns → sources record)
    :
    (live.afterCall call).walStore.namespacePrefix = live.walStore.namespacePrefix ∧
      Feeds sources (live.afterCall call).buffer ∧
        Wrote (LogObject live.walStore.namespacePrefix sources) live.walStore.objectStore
          (live.afterCall call).walStore.objectStore := by
  cases live with
  | plain store =>
    cases call with
    | publish record nowMs clock turns =>
      obtain ⟨sameNamespace, wrote⟩ :=
        publishRecord_wrote turns clock (known record nowMs clock turns rfl) store
      exact ⟨sameNamespace, feeds, wrote⟩
    | _ => exact ⟨rfl, feeds, .refl _⟩
  | grouped store =>
    cases call with
    | publish record nowMs clock turns =>
      have supplied := feeds.publishRecord (known record nowMs clock turns rfl) turns clock nowMs
      exact ⟨supplied.sameNamespace, supplied.feeds, supplied.wrote⟩
    | flushDue nowMs currentEpochMs =>
      have supplied := feeds.flushWhen (store.isDue nowMs) nowMs currentEpochMs
      exact ⟨supplied.sameNamespace, supplied.feeds, supplied.wrote⟩
    | flushNow nowMs currentEpochMs =>
      have supplied := feeds.flushWhen true nowMs currentEpochMs
      exact ⟨supplied.sameNamespace, supplied.feeds, supplied.wrote⟩
    | opened => exact ⟨rfl, feeds, .refl _⟩

@[simp] theorem withObjectStore_objectStore (live : LiveStore) (objectStore : ObjectStore) :
    (live.withObjectStore objectStore).walStore.objectStore = objectStore := by
  cases live <;> rfl

@[simp] theorem withObjectStore_namespacePrefix (live : LiveStore) (objectStore : ObjectStore) :
    (live.withObjectStore objectStore).walStore.namespacePrefix = live.walStore.namespacePrefix := by
  cases live <;> rfl

@[simp] theorem withObjectStore_buffer (live : LiveStore) (objectStore : ObjectStore) :
    (live.withObjectStore objectStore).buffer = live.buffer := by
  cases live <;> rfl

theorem opened_supplied (namespacePrefix nodeId : Text) (objectStore : ObjectStore)
    (policy : Option WalBatchPolicy) :
    (opened namespacePrefix nodeId objectStore policy).walStore.namespacePrefix = namespacePrefix ∧
      (opened namespacePrefix nodeId objectStore policy).buffer = [] ∧
      (opened namespacePrefix nodeId objectStore policy).walStore.objectStore.putPolicy =
        objectStore.putPolicy ∧
      (opened namespacePrefix nodeId objectStore policy).walStore.objects = objectStore.objects := by
  have listing : (WalStore.recoverNextSeq namespacePrefix (sanitizeNodeId nodeId)).Ensures
      (fun _ after => after.putPolicy = objectStore.putPolicy ∧
        after.objects = objectStore.objects) objectStore := by
    simp only [WalStore.recoverNextSeq, ensures_bind]
    exact ensures_request.mpr ⟨fun _ _ => ⟨rfl, rfl⟩, fun _ => ⟨rfl, rfl⟩⟩
  cases policy with
  | none => exact ⟨rfl, rfl, listing⟩
  | some policy => exact ⟨rfl, rfl, listing⟩

end LiveStore

end WombatKV
