import WombatKV.Proofs.Store.Retention

/-! When no publish stores its record twice. -/

namespace WombatKV

open ObjectStore Call List

namespace WalStore

variable {namespacePrefix key : Text} {objects : Objects} {payload : Bytes}
  {records : List WalRecord}

theorem keys_putInto_perm (policy : PutPolicy) (payload : Bytes) (free : objects[key]? = none) :
    (putInto policy objects key payload).keys.Perm (key :: objects.keys) := by
  have fresh : key ∉ objects.keys := by
    rw [Std.ExtTreeMap.mem_keys]
    intro present
    have held := Std.ExtTreeMap.mem_iff_isSome_getElem?.mp present
    simp [free] at held
  rw [perm_ext_iff_of_nodup Std.ExtTreeMap.nodup_keys
    (nodup_cons.mpr ⟨fresh, Std.ExtTreeMap.nodup_keys⟩)]
  intro other
  rw [Std.ExtTreeMap.mem_keys, mem_putInto, mem_cons, Std.ExtTreeMap.mem_keys]
  tauto

theorem recordsAt_of_decoded (found : objects[key]? = some payload)
    (decoded : decodeWalObjectRecords payload = .ok records) : recordsAt objects key = records := by
  simp [recordsAt, found, decoded, Except.toOption]

theorem count_storedRecords_putInto (policy : PutPolicy) (free : objects[key]? = none)
    (behind : namespacePrefix <+: key) (decoded : decodeWalObjectRecords payload = .ok records)
    (record : WalRecord) :
    (storedRecords namespacePrefix (putInto policy objects key payload)).count record =
      (storedRecords namespacePrefix objects).count record + records.count record := by
  have own : recordsAt (putInto policy objects key payload) key = records :=
    recordsAt_of_decoded (putInto_absent free) decoded
  have listing : (listed namespacePrefix (putInto policy objects key payload)).Perm
      (key :: listed namespacePrefix objects) := by
    have perm := (keys_putInto_perm policy payload free).filter
      (namespacePrefix.isPrefixOf ·)
    rwa [filter_cons_of_pos (List.isPrefixOf_iff_prefix.mpr behind)] at perm
  have others : (listed namespacePrefix objects).flatMap
      (recordsAt (putInto policy objects key payload)) = storedRecords namespacePrefix objects := by
    refine flatMap_congr fun other member => ?_
    have different : key ≠ other := by
      rintro rfl
      have present := Std.ExtTreeMap.mem_iff_isSome_getElem?.mp (mem_listed.mp member).1
      simp [free] at present
    simp only [recordsAt, putInto_of_ne different]
  rw [storedRecords, (listing.flatMap_right _).count_eq, flatMap_cons, count_append, own,
    others, Nat.add_comm]

theorem readObjects_stored (keys : List Text) (store : ObjectStore) :
    (readObjects keys).Ensures (fun result _ => ∀ records, result = .ok records →
      records = keys.flatMap (recordsAt store.objects)) store := by
  induction keys generalizing store with
  | nil =>
    rintro records ⟨⟩
    rfl
  | cons key rest ih =>
    simp only [readObjects, ensures_bind, ensures_getObject, andThen_error]
    refine ⟨fun _ _ => by simp, fun _ => ?_⟩
    cases found : store.objects[key]? with
    | none => simp
    | some payload =>
      simp only [andThen_ok, ensures_bind, ensures_lift]
      cases decoded : decodeWalObjectRecords payload with
      | error error => simp
      | ok own =>
        simp only [andThen_ok, ensures_bind]
        refine (ih store.advance).weaken fun result after read => ?_
        cases result with
        | error error => simp
        | ok others =>
          rintro records ⟨⟩
          rw [flatMap_cons, recordsAt_of_decoded found decoded, read others rfl]
          rfl

theorem replayRecords_stored {store : WalStore} (replayed : (replayRecords store).1 = .ok records) :
    records.Perm (storedRecords store.namespacePrefix store.objects) := by
  have ensured : (replayFrom store.namespacePrefix).Ensures (fun result _ => ∀ records,
      result = .ok records → records.Perm (storedRecords store.namespacePrefix store.objects))
      store.objectStore := by
    simp only [replayFrom, ensures_bind, ensures_listPrefix, andThen_ok, andThen_error]
    refine ⟨fun _ _ => by simp, fun _ => ?_⟩
    refine (readObjects_stored _ _).weaken fun result after read records answered => ?_
    rw [read records answered]
    exact (sortBy_perm _ _).flatMap_right _
  exact ensured records replayed

end WalStore

namespace WalGroupCommitStore

section Writes

variable {key answer : Text} {payload : Bytes} {store after : ObjectStore}

theorem writeObject_served (payload : Bytes) (put : store.faults 0 = none)
    (read : store.faults 1 = none) (free : store.objects[key]? = none) :
    (writeObject key payload store).1 = .ok key := by
  suffices ensured : (writeObject key payload).Ensures (fun result _ => result = .ok key) store from
    ensured
  have stored : (putInto store.putPolicy store.objects key payload)[key]? = some payload :=
    putInto_absent free
  simp only [writeObject, ensures_bind, ensures_putObject, ensures_getObject, andThen_ok,
    andThen_error]
  refine ⟨fun error failed => ?_, fun _ => ⟨fun error failed => ?_, fun _ => ?_⟩⟩
  · cases failed.symm.trans put
  · cases failed.symm.trans read
  · rw [stored]
    simp

theorem writeObject_faults (wrote : writeObject key payload store = (.ok answer, after)) :
    after.faults = fun index => store.faults (index + 2) := by
  suffices ensured : (writeObject key payload).Ensures (fun result after => ∀ answer,
      result = .ok answer → after.faults = fun index => store.faults (index + 2)) store by
    rw [Call.Ensures, wrote] at ensured
    exact ensured answer rfl
  simp only [writeObject, ensures_bind, ensures_putObject, ensures_getObject, andThen_ok,
    andThen_error]
  refine ⟨fun _ _ => by simp, fun _ => ⟨fun _ _ => by simp, fun _ => ?_⟩⟩
  split
  · split
    · intro _ _
      rfl
    · simp
  · simp

end Writes

theorem encodeWalBatchBody_append {buffer more : List BufferedWalRecord} {body : Bytes}
    (encoded : encodeWalBatchBody (buffer ++ more) = .ok body) :
    ∃ front, encodeWalBatchBody buffer = .ok front := by
  induction buffer generalizing body with
  | nil => exact ⟨[], rfl⟩
  | cons first rest ih =>
    simp only [cons_append, encodeWalBatchBody, except_bind_eq_ok] at encoded ⊢
    obtain ⟨length, fits, behind, tail, _⟩ := encoded
    obtain ⟨front, written⟩ := ih tail
    exact ⟨_, length, fits, front, written, rfl⟩

theorem encodeWalBatchPayload_append {buffer more : List BufferedWalRecord} {payload : Bytes}
    (nonempty : buffer ≠ []) (encoded : encodeWalBatchPayload (buffer ++ more) = .ok payload) :
    ∃ front, encodeWalBatchPayload buffer = .ok front := by
  obtain ⟨_, body, countFits, written, _⟩ := encodeWalBatchPayload_ok encoded
  obtain ⟨front, fits⟩ := encodeWalBatchBody_append written
  cases buffer with
  | nil => exact absurd rfl nonempty
  | cons first rest =>
    have short : (first :: rest).length < 256 ^ 4 := by
      simp only [length_append] at countFits
      omega
    simp only [encodeWalBatchPayload, except_bind_eq_ok, corrupt_eq_ok, tryLength_eq_ok]
    exact ⟨_, _, ⟨short, rfl⟩, front, fits, rfl⟩

def Writable (store : WalGroupCommitStore) : Prop :=
  store.buffer.length = 1 ∨ ∃ payload, encodeWalBatchPayload store.buffer = .ok payload

variable {store : WalGroupCommitStore} {epochMs : UInt64}

theorem writable_of_object {object : Text × Bytes} (found : store.flushObject epochMs = .ok object)
    : store.Writable := by
  rcases flushObject_cases found with ⟨only, lone, _⟩ | ⟨_, encoded, _⟩
  · exact .inl (by simp [lone])
  · exact .inr ⟨_, encoded⟩

theorem not_writable_of_refused {error : WalStoreError}
    (unfit : store.flushObject epochMs = .error error) : ¬ store.Writable := by
  obtain ⟨walStore, policy, _ | ⟨first, _ | ⟨second, rest⟩⟩, bytes, firstAt⟩ := store
  · rintro (lone | ⟨payload, encoded⟩)
    · cases lone
    · cases encoded
  · cases unfit
  · change (encodeWalBatchPayload (first :: second :: rest)).map _ = _ at unfit
    rintro (lone | ⟨payload, encoded⟩)
    · simp at lone
    · have encoded : encodeWalBatchPayload (first :: second :: rest) = .ok payload := encoded
      rw [encoded] at unfit
      cases unfit

theorem writable_of_push {encoded : Bytes} {nowMs : UInt64} (occupied : store.buffer ≠ [])
    (writable : (store.push encoded nowMs).Writable) : store.Writable := by
  rcases writable with lone | ⟨payload, fits⟩
  · have positive := length_pos_iff.mpr occupied
    simp only [push_buffer, length_append, length_singleton] at lone
    omega
  · rw [push_buffer] at fits
    exact .inr (encodeWalBatchPayload_append occupied fits)

structure Accounted (allowed : List WalRecord) (store : WalGroupCommitStore)
    (pending : List WalRecord) : Prop extends Numbered (fun _ => True) store pending where
  stored : ∀ record, (WalStore.storedRecords store.walStore.namespacePrefix store.objects).count
    record ≤ allowed.count record
  waiting : store.Writable → ∀ record, (WalStore.storedRecords store.walStore.namespacePrefix
    store.objects).count record + pending.count record ≤ allowed.count record

namespace Accounted

variable {allowed pending : List WalRecord} {after : WalGroupCommitStore}

theorem of_empty (empty : after.buffer = [])
    (below : after.walStore.nextSeq.toNat < wordLimit - 1 →
      after.OwnBelow (fun _ => True) after.objects after.walStore.nextSeq.toNat)
    (stored : ∀ record, (WalStore.storedRecords after.walStore.namespacePrefix after.objects).count
      record ≤ allowed.count record) : after.Accounted allowed [] :=
  ⟨.of_empty empty below, stored, fun _ record => by simpa using stored record⟩

variable (accounted : store.Accounted allowed pending)

include accounted

theorem allow (record : WalRecord) : store.Accounted (record :: allowed) pending :=
  ⟨accounted.toNumbered, fun other => (accounted.stored other).trans count_le_count_cons,
    fun writable other => (accounted.waiting writable other).trans count_le_count_cons⟩

theorem pending_eq_nil (empty : store.buffer = []) : pending = [] := by
  have encodings := accounted.encodings
  rw [empty] at encodings
  exact forall₂_nil_left_iff.mp encodings

theorem flushed (occupied : store.buffer ≠ []) {key : Text} {payload : Bytes}
    (object : store.flushObject epochMs = .ok (key, payload)) {result : Except WalStoreError Text}
    {objectStore : ObjectStore}
    (wrote : WriteOutcome key payload store.walStore.objectStore result objectStore)
    (empty : after.buffer = []) (same : after.walStore = { store.walStore with objectStore }) :
    after.Accounted allowed [] := by
  have below := accounted.write_next occupied object wrote
  refine .of_empty empty (fun _ => ?_) fun record => ?_
  · rw [OwnBelow, objects, same]
    exact below
  · rw [objects, same]
    change (WalStore.storedRecords _ objectStore.objects).count record ≤ _
    rcases wrote.objects with ⟨_, kept⟩ | ⟨_, put⟩
    · rw [kept]
      exact accounted.stored record
    · have parsed := flushObject_parsed object
      rw [put, WalStore.count_storedRecords_putInto _ (accounted.free occupied object trivial)
        (WalStore.prefix_of_parseWalObjectKey parsed)
        (flushObject_decoded object accounted.encodings accounted.counted)]
      exact accounted.waiting (writable_of_object object) record

theorem withObjectStore {objectStore : ObjectStore} (same : objectStore.objects = store.objects) :
    (store.withObjectStore objectStore).Accounted allowed pending := by
  obtain ⟨numbered, stored, waiting⟩ := accounted
  refine ⟨numbered.withObjectStore ?_, ?_, ?_⟩
  · rw [same]
    exact numbered.below
  · change ∀ record, (WalStore.storedRecords _ objectStore.objects).count record ≤ _
    rw [same]
    exact stored
  · change store.Writable → ∀ record, (WalStore.storedRecords _ objectStore.objects).count record
      + _ ≤ _
    rw [same]
    exact waiting

end Accounted

theorem FlushOutcome.accounted {allowed pending : List WalRecord}
    {result : Except WalStoreError (Option Text)} {after : WalGroupCommitStore}
    (accounted : store.Accounted allowed pending)
    (readBack : BatchReadBack store.buffer.length store.walStore.objectStore.faults)
    (outcome : FlushOutcome epochMs store result after) : ∃ left, after.Accounted allowed left := by
  cases outcome with
  | idle empty => exact ⟨pending, accounted⟩
  | refused unfit => exact ⟨pending, accounted⟩
  | @failed key payload error objectStore object occupied wrote =>
    have outcome := WriteOutcome.of_eq wrote
    rcases bufferAfterFailure_cases occupied with ⟨_, emptied⟩ | ⟨several, kept⟩
    · -- A lone record is gone from the buffer, and in the store if it was put.
      exact ⟨[], accounted.flushed occupied object outcome emptied rfl⟩
    · -- A batch stays in the buffer, so it must not have been put.
      rcases outcome.objects with ⟨_, same⟩ | ⟨served, _⟩
      · rw [kept]
        exact ⟨pending, accounted.withObjectStore same⟩
      · have confirmed := writeObject_served payload served
          (readBack several served) (accounted.free occupied object trivial)
        rw [wrote] at confirmed
        cases confirmed
  | @written key payload objectStore object occupied wrote =>
    exact ⟨[], accounted.flushed occupied object (WriteOutcome.of_eq wrote) rfl rfl⟩

section Push

variable {allowed pending : List WalRecord} {encoded : Bytes} {nowMs : UInt64} {record : WalRecord}
  {faults : Nat → Option WalStoreError}

def FillsSafely (store : WalGroupCommitStore) (encoded : Bytes) (nowMs : UInt64)
    (faults : Nat → Option WalStoreError) : Prop :=
  (store.push encoded nowMs).isFull = true →
    (2 ≤ (store.push encoded nowMs).buffer.length → faults 0 = none) ∧
      (faults 0 = none → faults 1 = none)

def PublishAccounted (allowed : List WalRecord) (record : WalRecord)
    (result : Except WalStoreError (Option GroupCommitPublishResult))
    (after : WalGroupCommitStore) : Prop :=
  (∃ left, after.Accounted allowed left) ∨
    (∃ answer, result = .ok (some answer)) ∧ ∃ left, after.Accounted (record :: allowed) left

variable (accounted : store.Accounted allowed pending)
  (left : store.walStore.nextSeq.toNat < wordLimit - 1)
  (encodes : encodeWalRecord record = .ok encoded)

include accounted left

section Filled

include encodes

theorem Accounted.push :
    (store.push encoded nowMs).Accounted (record :: allowed) (pending ++ [record]) := by
  refine ⟨accounted.toNumbered.push left encodes,
    fun other => (accounted.stored other).trans count_le_count_cons,
    fun writable other => ?_⟩
  rw [count_append, ← Nat.add_assoc, count_singleton, count_cons]
  refine Nat.add_le_add_right ?_ _
  by_cases occupied : store.buffer = []
  · rw [accounted.pending_eq_nil occupied]
    exact accounted.stored other
  · exact accounted.waiting (writable_of_push occupied writable) other

theorem FlushOutcome.rejected {error : WalStoreError} {after : WalGroupCommitStore}
    (several : 2 ≤ (store.push encoded nowMs).buffer.length →
      store.walStore.objectStore.faults 0 = none)
    (readBack : store.walStore.objectStore.faults 0 = none →
      store.walStore.objectStore.faults 1 = none)
    (outcome : FlushOutcome epochMs (store.push encoded nowMs) (.error error) after) :
    ∃ left, after.Accounted allowed left := by
  have pushed : (store.push encoded nowMs).Accounted (record :: allowed) (pending ++ [record]) :=
    accounted.push left encodes
  cases outcome with
  | refused unfit =>
    exact ⟨pending ++ [record], pushed.toNumbered, accounted.stored,
      fun writable => absurd writable (not_writable_of_refused unfit)⟩
  | @failed key payload _ objectStore object occupied wrote =>
    have outcome := WriteOutcome.of_eq wrote
    rcases outcome.objects with ⟨failed, same⟩ | ⟨served, _⟩
    · rcases bufferAfterFailure_cases occupied with ⟨_, emptied⟩ | ⟨batch, _⟩
      · refine ⟨[], .of_empty emptied (fun _ => pushed.write_next occupied object outcome) ?_⟩
        change ∀ record, (WalStore.storedRecords store.walStore.namespacePrefix
          objectStore.objects).count record ≤ _
        rw [same]
        exact accounted.stored
      · exact absurd (several batch) failed
    · have confirmed := writeObject_served payload served (readBack served)
        (pushed.free occupied object trivial)
      rw [wrote] at confirmed
      cases confirmed

theorem flushWhen_filled (safe : store.FillsSafely encoded nowMs store.walStore.objectStore.faults)
    (currentEpochMs : UInt64) :
    (flushWhen (store.push encoded nowMs).isFull nowMs currentEpochMs).Ensures
      (fun result after => (∃ left, after.Accounted allowed left) ∨
        (∃ answer, result = .ok answer) ∧ ∃ left, after.Accounted (record :: allowed) left)
      (store.push encoded nowMs) := by
  have pushed : (store.push encoded nowMs).Accounted (record :: allowed) (pending ++ [record]) :=
    accounted.push left encodes
  unfold flushWhen
  split
  · rename_i full
    obtain ⟨several, readBack⟩ := safe full
    refine (flushBufferAsObject_outcome nowMs currentEpochMs _).weaken
      fun result after outcome => ?_
    cases result with
    | ok answer =>
      exact .inr ⟨⟨answer, rfl⟩, outcome.accounted pushed fun _ served => readBack served⟩
    | error error => exact .inl (outcome.rejected accounted left encodes several readBack)
  · exact .inr ⟨⟨none, rfl⟩, _, pushed⟩

theorem push_accounted (safe : store.FillsSafely encoded nowMs store.walStore.objectStore.faults)
    (before : Option Text) (currentEpochMs : UInt64) :
    (do
      modify (push · encoded nowMs)
      let pushed ← get
      let after ← flushWhen pushed.isFull nowMs currentEpochMs
      let last ← get
      return some ⟨before.toList ++ after.toList, last.buffer.length, last.bufferedBytes⟩ :
        Call WalStoreError WalGroupCommitStore (Option GroupCommitPublishResult)).Ensures
      (PublishAccounted allowed record) store := by
  simp only [ensures_bind, ensures_modify, andThen_ok, ensures_get]
  refine (flushWhen_filled accounted left encodes safe currentEpochMs).weaken ?_
  rintro (error | answer) after (rejected | ⟨⟨_, answered⟩, accepted⟩)
  · exact .inl rejected
  · cases answered
  · exact .inl rejected
  · exact .inr ⟨⟨_, rfl⟩, accepted⟩

end Filled

omit accounted left in
theorem flushWhen_room {answer : Option Text} {after : WalGroupCommitStore}
    (overflows : store.overflowsWith encoded.length = true)
    (outcome : FlushOutcome epochMs store (.ok answer) after) :
    after.walStore.nextSeq = store.walStore.nextSeq ∧
      (∀ nowMs, (after.push encoded nowMs).isFull = (store.cleared.push encoded nowMs).isFull) ∧
      after.buffer = [] ∧
      after.walStore.objectStore.faults =
        fun index => store.walStore.objectStore.faults (index + 2) := by
  cases outcome with
  | idle empty => simp [overflowsWith, empty] at overflows
  | written object occupied wrote => exact ⟨rfl, fun _ => rfl, rfl, writeObject_faults wrote⟩

theorem publishRecord_accounted (buffers : store.policy.isSingleRecordMode = false)
    (conclusive : ∀ encoded, encodeWalRecord record = .ok encoded →
      PublishConclusive store encoded nowMs store.walStore.objectStore.faults)
    (turns : Nat) (clock : Nat → UInt64) :
    (publishRecord turns clock record nowMs).Ensures (PublishAccounted allowed record) store := by
  simp only [publishRecord, ensures_bind, ensures_get, andThen_ok, buffers, Bool.false_eq_true,
    if_false, ensures_lift]
  cases encodes : encodeWalRecord record with
  | error error => exact .inl ⟨pending, accounted⟩
  | ok encoded =>
    obtain ⟨making, filling⟩ := conclusive encoded encodes
    rw [corrupt_eq_ok.mpr rfl, andThen_ok, ensures_bind]
    cases overflows : store.overflowsWith encoded.length with
    | false =>
      simp only [roomFor, overflows, Bool.false_eq_true, if_false] at filling
      exact push_accounted accounted left encodes filling none (clock 1)
    | true =>
      simp only [roomFor, overflows, if_true] at filling
      refine (flushBufferAsObject_outcome nowMs (clock 0) store).weaken ?_
      intro result between outcome
      obtain ⟨held, room⟩ := outcome.accounted accounted (making overflows)
      cases result with
      | error error => exact .inl ⟨held, room⟩
      | ok answer =>
        obtain ⟨sameSeq, sameFull, empty, faults⟩ := flushWhen_room overflows outcome
        refine push_accounted room (by rw [sameSeq]; exact left) encodes ?_ answer (clock 1)
        rw [FillsSafely, sameFull, faults, push_buffer, empty]
        exact filling

end Push

end WalGroupCommitStore

inductive WalStore.PublishedWhole (bytes : Bytes) (before : WalStore) :
    Except WalStoreError (Option Text) → WalStore → Prop
  | untouched {result : Except WalStoreError (Option Text)} {objectStore : ObjectStore}
      (same : objectStore.objects = before.objects) :
      PublishedWhole bytes before result { before with objectStore }
  | stored {epochMs : UInt64} {key : Text} {objectStore : ObjectStore}
      (named : key = buildCanonicalWalKey before.namespacePrefix before.nodeId.text epochMs
        before.nextSeq)
      (put : objectStore.objects =
        putInto before.objectStore.putPolicy before.objects key bytes) :
      PublishedWhole bytes before (.ok (some key)) { before.takeSeq with objectStore }

theorem WalStore.publishRecord_whole {store : WalStore}
    (free : ∀ epochMs, store.objects[buildCanonicalWalKey store.namespacePrefix store.nodeId.text
      epochMs store.nextSeq]? = none)
    (conclusive : store.objectStore.faults 0 = none → store.objectStore.faults 1 = none →
      store.objectStore.faults 2 = none ∧ store.objectStore.faults 3 = none)
    {record : WalRecord} {bytes : Bytes} (encoded : encodeWalRecord record = .ok bytes)
    (turns : Nat) (clock : Nat → UInt64) :
    (publishRecord turns clock record).Ensures (PublishedWhole bytes store) store := by
  simp only [publishRecord, ensures_bind, ensures_lift, corrupt_eq_ok.mpr encoded, andThen_ok]
  cases turns with
  | zero => exact .untouched rfl
  | succ turns =>
    replace free := free (clock 0)
    generalize named : buildCanonicalWalKey store.namespacePrefix store.nodeId.text (clock 0)
      store.nextSeq = candidate at free
    have absent : store.objects.contains candidate = false := by
      rw [Std.ExtTreeMap.contains_eq_isSome_getElem?, free]
      rfl
    have found : (putInto store.objectStore.putPolicy store.objects candidate bytes)[candidate]? =
        some bytes := putInto_absent free
    simp only [publishLoop, ensures_bind, ensures_get, andThen_ok, onStore, ensures_on,
      ensures_headObject, andThen_error, named]
    refine ⟨fun error _ => .untouched rfl, fun head => ?_⟩
    simp only [absent, Bool.false_eq_true, if_false, ensures_bind, ensures_on, ensures_putObject,
      andThen_ok, andThen_error, ensures_getObject]
    refine ⟨fun error _ => .untouched rfl, fun put => ?_⟩
    obtain ⟨read, last⟩ := conclusive head put
    refine ⟨fun error failed => ?_, fun _ => ?_⟩
    · cases failed.symm.trans read
    · have present : (putInto store.objectStore.putPolicy store.objects candidate
          bytes).contains candidate = true := by
        rw [Std.ExtTreeMap.contains_eq_isSome_getElem?, found]
        rfl
      simp only [advance_putPolicy, advance_objects, found, if_true, ensures_pure, andThen_ok,
        ensures_bind, ensures_modify, ensures_on, ensures_headObject, andThen_error]
      refine ⟨fun error failed => ?_, fun _ => ?_⟩
      · cases failed.symm.trans last
      · split
        · exact .stored named.symm rfl
        · rename_i missing
          exact absurd present missing

namespace WalGroupCommitStore

variable {store : WalGroupCommitStore}

theorem publishRecord_single_accounted {allowed : List WalRecord} (record : WalRecord)
    (accounted : store.Accounted allowed []) (empty : store.buffer = [])
    (mode : store.policy.isSingleRecordMode = true)
    (left : store.walStore.nextSeq.toNat < wordLimit - 1)
    (conclusive : store.walStore.objectStore.faults 0 = none →
      store.walStore.objectStore.faults 1 = none → store.walStore.objectStore.faults 2 = none ∧
        store.walStore.objectStore.faults 3 = none)
    (turns : Nat) (clock : Nat → UInt64) (nowMs : UInt64) :
    (publishRecord turns clock record nowMs).Ensures (PublishAccounted allowed record) store := by
  simp only [publishRecord, ensures_bind, ensures_get, andThen_ok, mode, if_true, onWal, ensures_on]
  have below := (accounted.below (.inr left)).raise (Nat.sub_le _ _)
  have parsed (epochMs : UInt64) : parseWalObjectKey store.walStore.namespacePrefix
      (buildCanonicalWalKey store.walStore.namespacePrefix store.walStore.nodeId.text epochMs
        store.walStore.nextSeq) = some ⟨.canonicalEpochPartitioned, .single, store.walStore.nextSeq,
          store.walStore.nextSeq, store.walStore.nodeId.text⟩ := parseWalObjectKey_chunk ..
  have free (epochMs : UInt64) := below.free (parsed epochMs) ⟨rfl, trivial⟩ le_rfl
  cases encodes : encodeWalRecord record with
  | error error =>
    rw [Call.Ensures, WalStore.publishRecord_refused encodes]
    exact .inl ⟨[], accounted⟩
  | ok bytes =>
    refine (WalStore.publishRecord_whole free conclusive encodes turns clock).weaken ?_
    intro result walStore whole
    cases whole with
    | untouched same =>
      have kept := accounted.withObjectStore same
      cases result with
      | error error => exact .inl ⟨[], kept⟩
      | ok answer => exact .inl ⟨[], kept⟩
    | @stored epochMs key objectStore named put =>
      subst named
      refine .inr ⟨⟨_, rfl⟩, [], .of_empty empty (fun _ => ?_) fun other => ?_⟩
      · change store.OwnBelow _ objectStore.objects store.walStore.takeSeq.nextSeq.toNat
        rw [put, WalStore.takeSeq_nextSeq left]
        exact (below.raise (Nat.le_succ _)).put (parsed _) fun _ => Nat.lt_succ_self _
      · change (WalStore.storedRecords store.walStore.namespacePrefix objectStore.objects).count
          other ≤ _
        rw [put, WalStore.count_storedRecords_putInto _ (free _)
          (WalStore.prefix_of_parseWalObjectKey (parsed _)) (decodeWalObjectRecords_single encodes),
          count_singleton, count_cons]
        exact Nat.add_le_add_right (accounted.stored other) _

theorem flushWhen_policy (store : WalGroupCommitStore) (condition : Bool)
    (nowMs currentEpochMs : UInt64) :
    (flushWhen condition nowMs currentEpochMs).Ensures (fun _ after =>
      after.policy = store.policy ∧ (store.buffer = [] → after.buffer = [])) store := by
  unfold flushWhen
  split
  · refine (flushBufferAsObject_outcome nowMs currentEpochMs store).weaken ?_
    intro result after outcome
    cases outcome with
    | idle empty => exact ⟨rfl, id⟩
    | refused unfit => exact ⟨rfl, id⟩
    | failed object occupied wrote => exact ⟨rfl, fun empty => absurd empty occupied⟩
    | written object occupied wrote => exact ⟨rfl, fun _ => rfl⟩
  · exact ⟨rfl, id⟩

theorem publishRecord_policy (buffers : store.policy.isSingleRecordMode = false) (turns : Nat)
    (clock : Nat → UInt64) (record : WalRecord) (nowMs : UInt64) :
    (publishRecord turns clock record nowMs).Ensures (fun _ after =>
      after.policy = store.policy) store := by
  simp only [publishRecord, ensures_bind, ensures_get, andThen_ok, buffers, Bool.false_eq_true,
    if_false, ensures_lift]
  cases corrupt (encodeWalRecord record) with
  | error error => rfl
  | ok encoded =>
    simp only [andThen_ok, ensures_bind]
    refine (flushWhen_policy store _ nowMs (clock 0)).weaken ?_
    rintro (error | before) between ⟨same, _⟩
    · exact same
    · simp only [andThen_ok, ensures_bind, ensures_modify, ensures_get]
      refine (flushWhen_policy _ _ nowMs (clock 1)).weaken ?_
      rintro (error | flushed) after ⟨again, _⟩
      · exact again.trans same
      · exact again.trans same

theorem publishConclusive_withFaults {encoded : Bytes} {nowMs : UInt64}
    {faults other : Nat → Option WalStoreError} :
    PublishConclusive (store.withFaults other) encoded nowMs faults ↔
      PublishConclusive store encoded nowMs faults := by
  have same : (store.withFaults other).overflowsWith encoded.length =
      store.overflowsWith encoded.length := rfl
  unfold PublishConclusive roomFor
  rw [same]
  cases store.overflowsWith encoded.length with
  | false => rfl
  | true => rfl

end WalGroupCommitStore

namespace CommitRun

open WalGroupCommitStore

structure Once (initial : List WalRecord) (run : CommitRun) : Prop where
  accounted : ∃ pending, run.store.Accounted (run.acknowledged ++ initial) pending
  idle : run.store.policy.isSingleRecordMode = true → run.store.buffer = []

variable {initial : List WalRecord} {run : CommitRun}

theorem Once.flush (once : run.Once initial) (condition : Bool)
    {faults : Nat → Option WalStoreError}
    (readBack : condition = true → BatchReadBack run.store.buffer.length faults)
    (nowMs currentEpochMs : UInt64) :
    (flushWhen condition nowMs currentEpochMs).Ensures (fun _ after =>
      Once initial ⟨after, run.acknowledged⟩) (run.store.withFaults faults) := by
  obtain ⟨⟨pending, accounted⟩, idle⟩ := once
  have ready : (run.store.withFaults faults).Accounted (run.acknowledged ++ initial) pending :=
    accounted.withObjectStore rfl
  have policy := flushWhen_policy (run.store.withFaults faults) condition nowMs currentEpochMs
  have copies : (flushWhen condition nowMs currentEpochMs).Ensures (fun _ after =>
      ∃ left, after.Accounted (run.acknowledged ++ initial) left)
      (run.store.withFaults faults) := by
    unfold flushWhen
    split
    · exact (flushBufferAsObject_outcome nowMs currentEpochMs _).weaken fun _ _ outcome =>
        outcome.accounted ready (readBack ‹_›)
    · exact ⟨pending, ready⟩
  refine (copies.and policy).weaken ?_
  rintro result after ⟨accounted, samePolicy, empty⟩
  refine ⟨accounted, fun mode => empty (idle ?_)⟩
  rw [← mode, samePolicy]
  rfl

theorem Once.publish (once : run.Once initial) {record : WalRecord}
    {nowMs : UInt64} {clock : Nat → UInt64} {turns : Nat} {faults : Nat → Option WalStoreError}
    (conclusive : Conclusive run ⟨.publish record nowMs clock turns, faults⟩) :
    (publishRecord turns clock record nowMs).Ensures (fun result after =>
      Once initial ⟨after, run.acknowledged⟩ ∨ (∃ answer, result = .ok (some answer)) ∧
        Once initial ⟨after, record :: run.acknowledged⟩) (run.store.withFaults faults) := by
  obtain ⟨⟨pending, accounted⟩, idle⟩ := once
  obtain ⟨numbers, conclusive⟩ := conclusive
  have ready : (run.store.withFaults faults).Accounted (run.acknowledged ++ initial) pending :=
    accounted.withObjectStore rfl
  have left : run.store.walStore.nextSeq.toNat < wordLimit - 1 := by
    simpa [UInt64.lt_iff_toNat_lt] using numbers
  cases mode : run.store.policy.isSingleRecordMode with
  | true =>
    simp only [mode, if_true] at conclusive
    have empty := idle mode
    obtain rfl := accounted.pending_eq_nil empty
    have single : (run.store.withFaults faults).policy.isSingleRecordMode = true := mode
    have copies := publishRecord_single_accounted record ready empty single left conclusive turns
      clock nowMs
    refine (copies.and (publishRecord_single single turns clock record nowMs)).weaken ?_
    rintro result after ⟨counted, samePolicy, sameBuffer, _⟩
    have still : after.buffer = [] := sameBuffer.trans empty
    rcases counted with kept | ⟨answered, added⟩
    · exact .inl ⟨kept, fun _ => still⟩
    · exact .inr ⟨answered, added, fun _ => still⟩
  | false =>
    simp only [mode, Bool.false_eq_true, if_false] at conclusive
    have buffers : (run.store.withFaults faults).policy.isSingleRecordMode = false := mode
    have copies := publishRecord_accounted ready left buffers (fun encoded encodes =>
      publishConclusive_withFaults.mpr (conclusive encoded encodes)) turns clock
    refine (copies.and (publishRecord_policy buffers turns clock record nowMs)).weaken ?_
    rintro result after ⟨counted, samePolicy⟩
    have grouped : ¬ after.policy.isSingleRecordMode = true := by
      rw [samePolicy, buffers]
      simp
    rcases counted with kept | ⟨answered, added⟩
    · exact .inl ⟨kept, fun single => absurd single grouped⟩
    · exact .inr ⟨answered, added, fun single => absurd single grouped⟩

theorem Once.acknowledge (once : run.Once initial) (record : WalRecord) :
    Once initial ⟨run.store, record :: run.acknowledged⟩ := by
  obtain ⟨⟨pending, accounted⟩, idle⟩ := once
  exact ⟨⟨pending, accounted.allow record⟩, idle⟩

theorem Once.step (once : run.Once initial) {taken : CommitStep}
    (conclusive : Conclusive run taken) : (run.step taken).Once initial := by
  obtain ⟨call, faults⟩ := taken
  cases call with
  | flushDue nowMs currentEpochMs => exact once.flush _ conclusive nowMs currentEpochMs
  | flushNow nowMs currentEpochMs =>
    exact once.flush true (fun _ => conclusive) nowMs currentEpochMs
  | publish record nowMs clock turns =>
    have ensured := once.publish conclusive
    simp only [CommitRun.step]
    rcases ran : publishRecord turns clock record nowMs (run.store.withFaults faults) with
      ⟨error | _ | answer, after⟩
    all_goals rw [Call.Ensures, ran] at ensured
    · rcases ensured with kept | ⟨⟨_, answered⟩, _⟩
      · exact kept
      · cases answered
    · rcases ensured with kept | ⟨⟨_, answered⟩, _⟩
      · exact kept
      · cases answered
    · rcases ensured with kept | ⟨_, added⟩
      · exact kept.acknowledge record
      · exact added

theorem once_start (namespacePrefix nodeId : Text) (putPolicy : PutPolicy) (objects : Objects)
    (policy : WalBatchPolicy) :
    (commitSystem namespacePrefix nodeId putPolicy objects policy).start.Once
      (WalStore.storedRecords namespacePrefix objects) := by
  have healthy : ObjectStore.Healthy { putPolicy, objects } := rfl
  have recovered := WalStore.withNodeId_healthy healthy namespacePrefix nodeId
  have stored (record : WalRecord) :
      let opened := WalStore.withNodeId namespacePrefix nodeId { putPolicy, objects }
      (WalStore.storedRecords opened.namespacePrefix opened.objects).count record ≤
        (WalStore.storedRecords namespacePrefix objects).count record := by
    intro opened
    rw [show opened = _ from recovered]
  exact ⟨⟨[], .opened namespacePrefix nodeId putPolicy objects policy, stored,
    fun _ record => stored record⟩, fun _ => rfl⟩

end CommitRun

/-- A replay shows a record at most as often as it was there before, and once per acknowledgement. -/
theorem published_at_most_once (namespacePrefix nodeId : Text) (putPolicy : PutPolicy)
    (objects : Objects) (policy : WalBatchPolicy) {run : CommitRun}
    (reached : (commitSystem namespacePrefix nodeId putPolicy objects policy).Reachable Conclusive
      run) (faults : Nat → Option WalStoreError) {records : List WalRecord}
    (replayed : (WalGroupCommitStore.replayRecords (run.store.withFaults faults)).1 = .ok records)
    (record : WalRecord) :
    records.count record ≤ (WalStore.storedRecords namespacePrefix objects).count record +
      run.acknowledged.count record := by
  have once : run.Once (WalStore.storedRecords namespacePrefix objects) := by
    refine reached.invariant (CommitRun.once_start ..) ?_
    intro before taken after once conclusive made
    cases made
    exact once.step conclusive
  obtain ⟨⟨pending, accounted⟩, _⟩ := once
  have stored := accounted.stored record
  rw [count_append, Nat.add_comm] at stored
  exact ((WalStore.replayRecords_stored replayed).count_eq record).trans_le stored

theorem published_at_most_once_pair :
    let run := (pairingSystem.start.step publishOne).step publishOne
    (WalGroupCommitStore.replayRecords (run.store.withFaults fun _ => none)).1 =
        .ok [⟨[65], [], []⟩, ⟨[65], [], []⟩] ∧
      [⟨[65], [], []⟩, ⟨[65], [], []⟩].count (⟨[65], [], []⟩ : WalRecord) ≤
        (WalStore.storedRecords "wal".toList ∅).count ⟨[65], [], []⟩ +
          run.acknowledged.count ⟨[65], [], []⟩ := by
  intro run
  have replayed : (WalGroupCommitStore.replayRecords (run.store.withFaults fun _ => none)).1 =
      .ok [⟨[65], [], []⟩, ⟨[65], [], []⟩] := by
    decide +kernel
  have served (store : CommitRun) (numbers : store.store.walStore.nextSeq < wordMax)
      (grouped : store.store.policy.isSingleRecordMode = false) : Conclusive store publishOne := by
    refine ⟨numbers, ?_⟩
    rw [if_neg (by simp [grouped])]
    exact fun encoded _ => ⟨fun _ _ _ => rfl, fun _ => ⟨fun _ => rfl, fun _ => rfl⟩⟩
  refine ⟨replayed, published_at_most_once "wal".toList "n".toList .replace ∅ ⟨0, 2, 1000⟩
    (.step (.step .start (served _ ?_ rfl) rfl) (served _ ?_ rfl) rfl) _ replayed _⟩
  all_goals decide +kernel

theorem failed_publish_is_replayed :
    let single := commitSystem "wal".toList "n".toList .replace ∅ .singleRecordFallback
    let run := single.start.step ⟨.publish ⟨[65], [], []⟩ 0 (fun _ => 0) 1,
      fun index => if index = 2 then some (.s3 "get failed") else none⟩
    run.acknowledged = [] ∧
      (WalGroupCommitStore.replayRecords (run.store.withFaults fun _ => none)).1 =
        .ok [⟨[65], [], []⟩] := by
  decide +kernel

end WombatKV
