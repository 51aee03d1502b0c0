import WombatKV.Proofs.Store.GroupCommit

/-! A log as the list of its objects, in the order of replay. -/

namespace WombatKV

open ObjectStore Call List

structure Segment where
  key : Text
  payload : Bytes
  records : List WalRecord
  start : Nat

namespace Segment

def stop (segment : Segment) : Nat := segment.start + segment.records.length

structure Valid (namespacePrefix : Text) (nodeId : NodeId) (segment : Segment) : Prop where
  named : ∃ parsed, parseWalObjectKey namespacePrefix segment.key = some parsed ∧
    parsed.nodeId = nodeId.text ∧ parsed.startSeq.toNat = segment.start ∧
      parsed.endSeq.toNat + 1 = segment.stop
  nonempty : segment.records ≠ []
  decoded : decodeWalObjectRecords segment.payload = .ok segment.records

theorem Valid.start_lt_stop {namespacePrefix : Text} {nodeId : NodeId} {segment : Segment}
    (valid : segment.Valid namespacePrefix nodeId) : segment.start < segment.stop :=
  Nat.lt_add_of_pos_right (length_pos_iff.mpr valid.nonempty)

end Segment

theorem Segment.valid_of_publish (namespacePrefix : Text) (nodeId : NodeId) (epochMs seq : UInt64)
    {record : WalRecord} {bytes : Bytes} (encoded : encodeWalRecord record = .ok bytes) :
    (Segment.mk (buildCanonicalWalKey namespacePrefix nodeId.text epochMs seq) bytes [record]
      seq.toNat).Valid namespacePrefix nodeId where
  named := ⟨_, parseWalObjectKey_chunk namespacePrefix nodeId epochMs seq, rfl, rfl, rfl⟩
  nonempty := by simp
  decoded := decodeWalObjectRecords_single encoded

theorem Segment.valid_of_flush {store : WalGroupCommitStore} {epochMs : UInt64} {key : Text}
    {payload : Bytes} {records : List WalRecord} {low : Nat} (occupied : store.buffer ≠ [])
    (counted : Consecutive low store.buffer) (encodings : List.Forall₂ Encodes store.buffer records)
    (object : store.flushObject epochMs = .ok (key, payload)) :
    (Segment.mk key payload records low).Valid store.walStore.namespacePrefix
      store.walStore.nodeId := by
  obtain ⟨first, last⟩ := WalGroupCommitStore.bufferRange_consecutive counted occupied
  have length := encodings.length_eq
  refine ⟨⟨_, WalGroupCommitStore.flushObject_parsed object, rfl, first, ?_⟩, ?_,
    WalGroupCommitStore.flushObject_decoded object encodings counted⟩
  · simpa [Segment.stop, ← length] using last
  · apply ne_nil_of_length_pos
    rw [← length]
    exact length_pos_iff.mpr occupied

structure Arranged (namespacePrefix : Text) (nodeId : NodeId) (objects : Objects)
    (segments : List Segment) : Prop where
  valid : ∀ segment ∈ segments, segment.Valid namespacePrefix nodeId
  increasing : segments.Pairwise fun left right =>
    compareWalObjectKeys namespacePrefix left.key right.key = .lt
  objects_iff : ∀ (key : Text) (payload : Bytes), objects[key]? = some payload ↔
    ∃ segment ∈ segments, segment.key = key ∧ segment.payload = payload

namespace Arranged

variable {namespacePrefix : Text} {nodeId : NodeId} {objects : Objects} {segments : List Segment}
  {segment : Segment}

variable (arranged : Arranged namespacePrefix nodeId objects segments)

include arranged

theorem present (member : segment ∈ segments) : segment.key ∈ objects := by
  have found := (arranged.objects_iff _ _).mpr ⟨segment, member, rfl, rfl⟩
  rw [← Std.ExtTreeMap.isSome_getElem?_iff_mem, found]
  rfl

theorem free {key : Text}
    (other : ∀ segment ∈ segments, segment.key ≠ key) : objects[key]? = none := by
  rw [Option.eq_none_iff_forall_ne_some]
  intro payload found
  obtain ⟨segment, member, same, -⟩ := (arranged.objects_iff _ _).mp found
  exact other segment member same

omit arranged in
theorem put {front back : List Segment}
    (arranged : Arranged namespacePrefix nodeId objects (front ++ back))
    (valid : segment.Valid namespacePrefix nodeId)
    (before : ∀ other ∈ front, compareWalObjectKeys namespacePrefix other.key segment.key = .lt)
    (behind : ∀ other ∈ back, compareWalObjectKeys namespacePrefix segment.key other.key = .lt)
    (policy : PutPolicy) :
    objects[segment.key]? = none ∧
      Arranged namespacePrefix nodeId (putInto policy objects segment.key segment.payload)
        (front ++ segment :: back) := by
  have free : objects[segment.key]? = none := by
    apply arranged.free
    intro other member same
    rcases mem_append.mp member with early | late
    · have less := before other early
      simp [same, Std.ReflCmp.compare_self] at less
    · have less := behind other late
      simp [same, Std.ReflCmp.compare_self] at less
  refine ⟨free, ⟨?_, ?_, ?_⟩⟩
  · intro other member
    rcases mem_append.mp member with early | rest
    · exact arranged.valid other (mem_append_left back early)
    · rcases mem_cons.mp rest with rfl | late
      · exact valid
      · exact arranged.valid other (mem_append_right front late)
  · obtain ⟨fronts, backs, across⟩ := pairwise_append.mp arranged.increasing
    refine pairwise_append.mpr ⟨fronts, pairwise_cons.mpr ⟨behind, backs⟩, ?_⟩
    intro left early right rest
    rcases mem_cons.mp rest with rfl | late
    · exact before left early
    · exact across left early right late
  · intro key payload
    have spread : (∃ other ∈ front ++ segment :: back, other.key = key ∧ other.payload = payload) ↔
        (∃ other ∈ front ++ back, other.key = key ∧ other.payload = payload) ∨
          segment.key = key ∧ segment.payload = payload := by
      simp only [perm_middle.mem_iff, mem_cons, or_and_right, exists_or, exists_eq_left]
      rw [or_comm]
    rw [spread, ← arranged.objects_iff]
    constructor
    · intro found
      rcases putInto_cases found with earlier | ⟨rfl, rfl⟩
      · exact .inl earlier
      · exact .inr ⟨rfl, rfl⟩
    · rintro (earlier | ⟨rfl, rfl⟩)
      · exact Extends.putInto free key payload earlier
      · exact putInto_absent free

theorem append (valid : segment.Valid namespacePrefix nodeId)
    (before : ∀ other ∈ segments, compareWalObjectKeys namespacePrefix other.key segment.key = .lt)
    (policy : PutPolicy) :
    objects[segment.key]? = none ∧
      Arranged namespacePrefix nodeId (putInto policy objects segment.key segment.payload)
        (segments ++ [segment]) := by
  rw [← append_nil segments] at arranged
  exact arranged.put valid before (by simp) policy

theorem sorted :
    sortBy (compareWalObjectKeys namespacePrefix) (WalStore.listed namespacePrefix objects) =
      segments.map Segment.key := by
  have strictKeys : (segments.map Segment.key).Pairwise fun left right =>
      compareWalObjectKeys namespacePrefix left right = .lt :=
    pairwise_map.mpr arranged.increasing
  refine sortBy_eq_of_perm _ strictKeys ?_
  have distinct : (segments.map Segment.key).Nodup := strictKeys.imp fun less same => by
    simp [same, Std.ReflCmp.compare_self] at less
  have listedOnce : (WalStore.listed namespacePrefix objects).Nodup :=
    Std.ExtTreeMap.nodup_keys.filter _
  refine (perm_ext_iff_of_nodup listedOnce distinct).mpr fun key => ?_
  rw [WalStore.mem_listed, mem_map]
  constructor
  · rintro ⟨present, _⟩
    obtain ⟨payload, found⟩ := Option.isSome_iff_exists.mp
      (Std.ExtTreeMap.isSome_getElem?_iff_mem.mpr present)
    obtain ⟨segment, member, same, _⟩ := (arranged.objects_iff _ _).mp found
    exact ⟨segment, member, same⟩
  · rintro ⟨segment, member, rfl⟩
    obtain ⟨parsed, named, _⟩ := (arranged.valid segment member).named
    exact ⟨arranged.present member, WalStore.prefix_of_parseWalObjectKey named⟩

end Arranged

theorem Arranged.replay {namespacePrefix : Text} {nodeId : NodeId} {store : ObjectStore}
    {segments : List Segment} (healthy : store.Healthy)
    (arranged : Arranged namespacePrefix nodeId store.objects segments) :
    WalStore.replayFrom namespacePrefix store = (.ok (segments.flatMap Segment.records), store) := by
  rw [WalStore.replayFrom, Call.bind_ok (WalStore.listPrefix_healthy healthy namespacePrefix),
    arranged.sorted]
  refine WalStore.readObjects_healthy healthy Segment.key Segment.records ?_
  intro segment member
  exact ⟨segment.payload, (arranged.objects_iff _ _).mpr ⟨segment, member, rfl, rfl⟩,
    (arranged.valid segment member).decoded⟩

theorem Segment.Valid.compare_lt {namespacePrefix : Text} {nodeId : NodeId} {left right : Segment}
    (leftValid : left.Valid namespacePrefix nodeId) (rightValid : right.Valid namespacePrefix nodeId)
    (less : left.start < right.start) :
    compareWalObjectKeys namespacePrefix left.key right.key = .lt := by
  obtain ⟨leftParsed, leftNamed, -, leftStart, -⟩ := leftValid.named
  obtain ⟨rightParsed, rightNamed, -, rightStart, -⟩ := rightValid.named
  exact compareWalObjectKeys_lt leftNamed rightNamed (by omega)

end WombatKV

