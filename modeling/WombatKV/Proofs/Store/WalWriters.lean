import WombatKV.Proofs.Store.WalStore
import WombatKV.Store.WalWriters

/-! When the writers of one namespace keep out of each other's way. -/

namespace WombatKV

open ObjectStore List

def HoldsRecord (namespacePrefix : Text) (objects : Objects) (record : WalRecord) (key : Text) :
    Prop :=
  namespacePrefix <+: key ∧ ∃ bytes, encodeWalRecord record = .ok bytes ∧ objects[key]? = some bytes

theorem HoldsRecord.after {namespacePrefix : Text} {objects after : Objects} {record : WalRecord}
    {key : Text} (holds : HoldsRecord namespacePrefix objects record key)
    (same : after[key]? = objects[key]?) : HoldsRecord namespacePrefix after record key := by
  obtain ⟨behind, bytes, encoded, found⟩ := holds
  exact ⟨behind, bytes, encoded, same.trans found⟩

def PublishPhase.Sound (namespacePrefix : Text) (objects : Objects) : PublishPhase → Prop
  | .idle => True
  | .check record bytes => encodeWalRecord record = .ok bytes
  | .write record bytes candidate | .readBack record bytes candidate =>
    encodeWalRecord record = .ok bytes ∧ namespacePrefix <+: candidate
  | .confirm record objectKey => HoldsRecord namespacePrefix objects record objectKey

namespace WalWriter

variable {namespacePrefix : Text} {epochMs : UInt64} {objects : Objects} {writer : WalWriter}

theorem request_objects {key : Text}
    (elsewhere : ∀ record bytes, writer.phase ≠ .write record bytes key) :
    (writer.request namespacePrefix epochMs objects).objects[key]? = objects[key]? := by
  cases phase : writer.phase with
  | idle => simp only [request, phase]
  | check record bytes =>
    simp only [request, phase]
    split <;> rfl
  | write record bytes candidate =>
    have different : candidate ≠ key := by
      rintro rfl
      exact elsewhere record bytes phase
    simp only [request, phase]
    exact putInto_of_ne different
  | readBack record bytes candidate =>
    simp only [request, phase]
    split
    · rfl
    · split <;> rfl
  | confirm record objectKey =>
    simp only [request, phase]
    split <;> rfl

theorem request_readable (sound : writer.phase.Sound namespacePrefix objects)
    (readable : WalStore.Readable namespacePrefix objects) :
    WalStore.Readable namespacePrefix (writer.request namespacePrefix epochMs objects).objects := by
  intro key payload found behind
  by_cases writes : ∃ record bytes, writer.phase = .write record bytes key
  · obtain ⟨record, bytes, phase⟩ := writes
    simp only [phase, PublishPhase.Sound] at sound
    simp only [request, phase, putInto_self, Option.some.injEq] at found
    subst found
    exact ⟨[record], decodeWalObjectRecords_single sound.1⟩
  · push Not at writes
    rw [request_objects writes] at found
    exact readable key payload found behind

theorem behind_canonical (nodeId : Text) (seq : UInt64) :
    namespacePrefix <+: buildCanonicalWalKey namespacePrefix nodeId epochMs seq :=
  prefix_append _ _

theorem request_sound (sound : writer.phase.Sound namespacePrefix objects) :
    (writer.request namespacePrefix epochMs objects).writer.phase.Sound namespacePrefix
      (writer.request namespacePrefix epochMs objects).objects := by
  cases phase : writer.phase with
  | idle =>
    simp only [request, phase]
    trivial
  | check record bytes =>
    simp only [phase, PublishPhase.Sound] at sound
    simp only [request, phase]
    split
    · exact sound
    · exact ⟨sound, behind_canonical _ _⟩
  | write record bytes candidate =>
    simp only [phase, PublishPhase.Sound] at sound
    simp only [request, phase]
    exact sound
  | readBack record bytes candidate =>
    simp only [phase, PublishPhase.Sound] at sound
    simp only [request, phase]
    split
    · trivial
    · rename_i stored found
      split
      · -- The bytes read back are the record's own, so the bucket holds it now.
        rename_i same
        exact ⟨sound.2, bytes, sound.1, same ▸ found⟩
      · exact sound.1
  | confirm record objectKey =>
    simp only [request, phase]
    split <;> trivial

theorem request_answer {key : Text}
    (answered : (writer.request namespacePrefix epochMs objects).answer = some (.ok key)) :
    ∃ record, writer.phase = .confirm record key := by
  cases phase : writer.phase with
  | idle => simp [request, phase] at answered
  | check record bytes =>
    simp only [request, phase] at answered
    split at answered <;> simp at answered
  | write record bytes candidate => simp [request, phase] at answered
  | readBack record bytes candidate =>
    simp only [request, phase] at answered
    split at answered
    · simp at answered
    · split at answered <;> simp at answered
  | confirm record objectKey =>
    simp only [request, phase] at answered
    split at answered
    · simp only [Option.some.injEq, Except.ok.injEq] at answered
      exact ⟨record, by rw [answered]⟩
    · simp at answered

end WalWriter

namespace WriterPool

variable {namespacePrefix : Text} {pool : WriterPool}

theorem claimed_iff {key : Text} : pool.claimed key = true ↔
    (∃ record, (record, key) ∈ pool.acknowledged) ∨
      ∃ writer ∈ pool.writers, ∃ record, writer.phase = .confirm record key := by
  rw [claimed, Bool.or_eq_true, any_eq_true, any_eq_true]
  apply or_congr
  · constructor
    · rintro ⟨⟨record, told⟩, member, same⟩
      exact ⟨record, of_decide_eq_true same ▸ member⟩
    · rintro ⟨record, member⟩
      exact ⟨_, member, decide_eq_true rfl⟩
  · -- Only a confirming writer claims a name, and only its own.
    refine exists_congr fun writer => and_congr_right fun _ => ?_
    cases phase : writer.phase <;> simp

theorem step_cases {label : WriterStep} {next : WriterPool}
    (made : pool.step namespacePrefix label = some next) :
    (∃ nodeId faults, label = .openLog nodeId faults ∧ next =
      { pool with writers := pool.writers ++ [pool.opened namespacePrefix nodeId faults] }) ∨
    (∃ (index : Nat) (old new : WalWriter), pool.writers[index]? = some old ∧
      next = pool.withWriter index new ∧ new.nodeId = old.nodeId ∧
        (new.phase = .idle ∨ ∃ record bytes, new.phase = .check record bytes ∧
          encodeWalRecord record = .ok bytes)) ∨
    next = pool ∨
    ∃ index epochMs writer, label = .request index epochMs ∧ pool.writers[index]? = some writer ∧
      next = pool.after index writer (writer.request namespacePrefix epochMs pool.objects) := by
  cases label with
  | openLog nodeId faults =>
    cases made
    exact .inl ⟨nodeId, faults, rfl, rfl⟩
  | restart index faults =>
    obtain ⟨writer, found, made⟩ := Option.bind_eq_some_iff.mp made
    cases made
    exact .inr (.inl ⟨index, writer, _, found, rfl, sanitizeNodeId_text writer.nodeId, .inl rfl⟩)
  | publish index record =>
    obtain ⟨writer, found, made⟩ := Option.bind_eq_some_iff.mp made
    split at made
    · split at made
      · rename_i bytes encoded
        cases made
        exact .inr (.inl ⟨index, writer, _, found, rfl, rfl, .inr ⟨record, bytes, rfl, encoded⟩⟩)
      · -- A record that does not encode is refused before any request.
        cases made
        exact .inr (.inr (.inl rfl))
    · cases made
  | request index epochMs =>
    obtain ⟨writer, found, made⟩ := Option.bind_eq_some_iff.mp made
    cases made
    exact .inr (.inr (.inr ⟨index, epochMs, writer, rfl, found, rfl⟩))
  | fail index =>
    obtain ⟨writer, found, made⟩ := Option.bind_eq_some_iff.mp made
    cases made
    exact .inr (.inl ⟨index, writer, _, found, rfl, rfl, .inl rfl⟩)

structure Sound (namespacePrefix : Text) (pool : WriterPool) : Prop where
  readable : WalStore.Readable namespacePrefix pool.objects
  phases : ∀ writer ∈ pool.writers, writer.phase.Sound namespacePrefix pool.objects
  acknowledged : ∀ record key, (record, key) ∈ pool.acknowledged →
    HoldsRecord namespacePrefix pool.objects record key

theorem Sound.request (sound : pool.Sound namespacePrefix) {index : Nat} {epochMs : UInt64}
    {writer : WalWriter} (found : pool.writers[index]? = some writer)
    (unclaimed : pool.putsUnclaimed (.request index epochMs) = true) :
    (pool.after index writer (writer.request namespacePrefix epochMs pool.objects)).Sound
      namespacePrefix := by
  have member := mem_of_getElem? found
  have own := sound.phases writer member
  have kept {key : Text} (claimed : pool.claimed key = true) :
      (writer.request namespacePrefix epochMs pool.objects).objects[key]? = pool.objects[key]? := by
    apply WalWriter.request_objects
    intro record bytes phase
    simp [putsUnclaimed, found, phase, claimed] at unclaimed
  constructor
  case readable => exact WalWriter.request_readable own sound.readable
  case phases =>
    intro other present
    rcases mem_or_eq_of_mem_set present with earlier | rfl
    · have standing := sound.phases other earlier
      cases phase : other.phase with
      | idle => trivial
      | check record bytes | write record bytes candidate | readBack record bytes candidate =>
        simpa only [phase, PublishPhase.Sound] using standing
      | confirm record objectKey =>
        rw [phase] at standing
        exact HoldsRecord.after standing
          (kept (claimed_iff.mpr (.inr ⟨other, earlier, record, phase⟩)))
    · exact WalWriter.request_sound own
  case acknowledged =>
    intro record key told
    have old (earlier : (record, key) ∈ pool.acknowledged) := HoldsRecord.after
      (sound.acknowledged record key earlier) (kept (claimed_iff.mpr (.inl ⟨record, earlier⟩)))
    simp only [WriterPool.after] at told
    split at told
    · rename_i confirmed objectKey phase answered
      rcases mem_cons.mp told with new | earlier
      · -- The record just acknowledged was read back before, and is still there.
        obtain ⟨rfl, rfl⟩ := Prod.mk.injEq .. ▸ new
        obtain ⟨_, confirming⟩ := WalWriter.request_answer answered
        obtain ⟨rfl, rfl⟩ := PublishPhase.confirm.inj (phase.symm.trans confirming)
        rw [phase] at own
        exact HoldsRecord.after own (kept (claimed_iff.mpr (.inr ⟨writer, member, _, phase⟩)))
      · exact old earlier
    · exact old told

theorem Sound.step (sound : pool.Sound namespacePrefix) {label : WriterStep} {next : WriterPool}
    (unclaimed : pool.putsUnclaimed label = true)
    (made : pool.step namespacePrefix label = some next) : next.Sound namespacePrefix := by
  rcases step_cases made with ⟨nodeId, faults, rfl, rfl⟩ |
    ⟨index, old, new, found, rfl, sameNode, phase⟩ | rfl |
    ⟨index, epochMs, writer, rfl, found, rfl⟩
  · refine ⟨sound.readable, ?_, sound.acknowledged⟩
    intro writer member
    rcases mem_append.mp member with earlier | opened
    · exact sound.phases writer earlier
    · -- A log that was just opened has nothing to rely on yet.
      obtain rfl := mem_singleton.mp opened
      trivial
  · refine ⟨sound.readable, ?_, sound.acknowledged⟩
    intro writer member
    rcases mem_or_eq_of_mem_set member with earlier | rfl
    · exact sound.phases writer earlier
    · rcases phase with idle | ⟨record, bytes, checks, encoded⟩
      · rw [idle]
        trivial
      · rw [checks]
        exact encoded
  · exact sound
  · exact sound.request found unclaimed

theorem sound_start {objects : Objects} (readable : WalStore.Readable namespacePrefix objects) :
    (writerSystem namespacePrefix objects).start.Sound namespacePrefix :=
  ⟨readable, fun _ member => (nomatch member), fun _ _ member => (nomatch member)⟩

theorem Sound.present (sound : pool.Sound namespacePrefix) {key : Text}
    (claimed : pool.claimed key = true) : pool.objects[key]? ≠ none := by
  have holds : ∃ record, HoldsRecord namespacePrefix pool.objects record key := by
    rcases claimed_iff.mp claimed with ⟨record, member⟩ | ⟨writer, member, record, phase⟩
    · exact ⟨record, sound.acknowledged record key member⟩
    · have own := sound.phases writer member
      rw [phase] at own
      exact ⟨record, own⟩
  obtain ⟨_, _, bytes, _, found⟩ := holds
  simp [found]

/-- What a writer found free has stayed free until its put. -/
def Free (pool : WriterPool) : Prop :=
  ∀ writer ∈ pool.writers, ∀ record bytes candidate,
    writer.phase = .write record bytes candidate → pool.objects[candidate]? = none

theorem request_next {objects : Objects} {epochMs : UInt64} {writer : WalWriter} :
    let made := writer.request namespacePrefix epochMs objects
    made.writer.nodeId = writer.nodeId ∧ ∀ record bytes candidate,
      made.writer.phase = .write record bytes candidate → made.objects[candidate]? = none ∧
        ∃ seq, candidate = buildCanonicalWalKey namespacePrefix writer.nodeId.text epochMs seq := by
  -- Only a check that finds its name free goes on to a write.
  cases phase : writer.phase with
  | idle => simp [WalWriter.request, phase]
  | check checked encoded =>
    simp only [WalWriter.request, phase]
    split
    · simp [WalWriter.takeSeq]
    · rename_i reported
      refine ⟨rfl, ?_⟩
      rintro record bytes _ ⟨⟩
      exact ⟨WalStore.free_of_head reported, _, rfl⟩
  | write written encoded target => simp [WalWriter.request, phase]
  | readBack written encoded target =>
    simp only [WalWriter.request, phase]
    split
    · simp
    · split <;> simp [WalWriter.takeSeq]
  | confirm confirmed target =>
    simp only [WalWriter.request, phase]
    split <;> simp

theorem putsAlone_request {index position : Nat} {epochMs : UInt64} {writer other : WalWriter}
    (alone : pool.putsAlone (.request index epochMs) = true)
    (found : pool.writers[index]? = some writer) (located : pool.writers[position]? = some other)
    (different : index ≠ position) {record written : WalRecord} {bytes encoded : Bytes}
    {candidate : Text} (phase : writer.phase = .write written encoded candidate) :
    other.phase ≠ .write record bytes candidate := by
  intro pending
  simp only [putsAlone, found, Option.map_some, phase, all_eq_true] at alone
  have listed := mem_eraseIdx_iff_getElem?.mpr ⟨position, different.symm, located⟩
  simpa [WalWriter.awaits, pending] using alone other listed

theorem Free.step (free : pool.Free) {label : WriterStep} {next : WriterPool}
    (alone : pool.putsAlone label = true) (made : pool.step namespacePrefix label = some next) :
    next.Free := by
  intro other member record bytes candidate pending
  rcases step_cases made with ⟨nodeId, faults, rfl, rfl⟩ |
    ⟨index, old, new, found, rfl, sameNode, phase⟩ | rfl |
    ⟨index, epochMs, writer, rfl, found, rfl⟩
  · rcases mem_append.mp member with earlier | opened
    · exact free other earlier record bytes candidate pending
    · obtain rfl := mem_singleton.mp opened
      cases pending
  · rcases mem_or_eq_of_mem_set member with earlier | rfl
    · exact free other earlier record bytes candidate pending
    · -- The changed writer is idle or about to check, so it has no write pending.
      rcases phase with idle | ⟨_, _, checks, _⟩
      · cases idle.symm.trans pending
      · cases checks.symm.trans pending
  · exact free other member record bytes candidate pending
  · obtain ⟨position, located⟩ := mem_iff_getElem?.mp member
    by_cases same : index = position
    · -- The writer itself: it has just seen that the name is free.
      subst same
      have within := (List.getElem?_eq_some_iff.mp found).1
      simp only [WriterPool.after, List.getElem?_set_self within, Option.some.injEq] at located
      subst located
      exact (request_next.2 record bytes candidate pending).1
    · -- Another writer: the name it waits for is not the one that is put.
      simp only [WriterPool.after, List.getElem?_set_ne same] at located
      show (writer.request namespacePrefix epochMs pool.objects).objects[candidate]? = none
      rw [WalWriter.request_objects]
      · exact free other (mem_of_getElem? located) record bytes candidate pending
      · exact fun written encoded phase =>
          putsAlone_request alone found located same phase pending

theorem Free.putsUnclaimed (free : pool.Free) (sound : pool.Sound namespacePrefix)
    (label : WriterStep) : pool.putsUnclaimed label = true := by
  cases label with
  | request index epochMs =>
    simp only [WriterPool.putsUnclaimed]
    split
    · -- A claimed name is taken, and this one is free.
      rename_i record bytes candidate located
      obtain ⟨writer, found, phase⟩ := Option.map_eq_some_iff.mp located
      rw [Bool.not_eq_true', ← Bool.not_eq_true]
      exact fun claimed => sound.present claimed
        (free writer (mem_of_getElem? found) record bytes candidate phase)
    · rfl
  | openLog nodeId faults | restart index faults | publish index record | fail index => rfl

end WriterPool

/-- Every acknowledged record is replayed, in every state of every run in which nobody puts a name
between another writer's head and put of it. -/
theorem acknowledged_replayed (namespacePrefix : Text) (objects : Objects)
    (readable : WalStore.Readable namespacePrefix objects) {pool : WriterPool}
    (reached : (writerSystem namespacePrefix objects).Reachable
      (fun pool label => pool.putsAlone label = true) pool)
    {record : WalRecord} {key : Text} (acknowledged : (record, key) ∈ pool.acknowledged) :
    ∃ records, (WalStore.replayFrom namespacePrefix
      { putPolicy := .replace, objects := pool.objects }).1 = .ok records ∧ record ∈ records := by
  have kept : pool.Sound namespacePrefix ∧ pool.Free := by
    apply reached.invariant ⟨WriterPool.sound_start readable, fun _ member => nomatch member⟩
    rintro before label after ⟨sound, free⟩ alone made
    exact ⟨sound.step (free.putsUnclaimed sound label) made, free.step alone made⟩
  obtain ⟨sound, -⟩ := kept
  obtain ⟨behind, bytes, encoded, found⟩ := sound.acknowledged record key acknowledged
  have healthy : Healthy { putPolicy := .replace, objects := pool.objects } := rfl
  exact WalStore.mem_replayFrom healthy sound.readable behind found encoded

def racingWriters : List WriterStep :=
  [.openLog "n".toList fun _ => none, .openLog "n".toList fun _ => none,
    .publish 0 ⟨[65], [], []⟩, .publish 1 ⟨[66], [], []⟩]

def takingTurns : List WriterStep :=
  racingWriters ++ [.request 0 0, .request 0 0, .request 0 0, .request 0 0,
    .request 1 0, .request 1 0, .request 1 0, .request 1 0, .request 1 0]

def checkingTogether : List WriterStep :=
  racingWriters ++ [.request 0 0, .request 1 0, .request 0 0, .request 0 0, .request 0 0,
    .request 1 0]

theorem acknowledged_replayed_turns : ∃ pool records,
    (writerSystem "wal".toList ∅).run WriterPool.putsAlone
      (writerSystem "wal".toList ∅).start takingTurns = some pool ∧
    (WalStore.replayFrom "wal".toList
      { putPolicy := .replace, objects := pool.objects }).1 = .ok records ∧
    (⟨[65], [], []⟩ : WalRecord) ∈ records := by
  have told : ((writerSystem "wal".toList ∅).run WriterPool.putsAlone
      (writerSystem "wal".toList ∅).start takingTurns).map (fun pool =>
        pool.acknowledged.map Prod.fst) = some [⟨[66], [], []⟩, ⟨[65], [], []⟩] := by
    decide +kernel
  obtain ⟨pool, ran, acknowledged⟩ := Option.map_eq_some_iff.mp told
  have member : (⟨[65], [], []⟩ : WalRecord) ∈ pool.acknowledged.map Prod.fst := by
    simp [acknowledged]
  obtain ⟨⟨record, key⟩, acknowledged, rfl⟩ := mem_map.mp member
  obtain ⟨records, replayed, present⟩ := acknowledged_replayed "wal".toList ∅
    (fun _ _ found => by simp at found)
    (System.Reachable.run (fun _ _ passed => passed) .start ran) acknowledged
  exact ⟨pool, records, ran, replayed, present⟩

def poolAfter (labels : List WriterStep) : Option WriterPool :=
  (writerSystem "wal".toList ∅).run (fun _ _ => true) (writerSystem "wal".toList ∅).start labels

theorem late_put_overwrites_acknowledged :
    ∃ pool, poolAfter checkingTogether = some pool ∧
      (⟨[65], [], []⟩ : WalRecord) ∈ pool.acknowledged.map Prod.fst ∧
        (WalStore.replayFrom "wal".toList
          { putPolicy := .replace, objects := pool.objects }).1 = .ok [⟨[66], [], []⟩] := by
  have ran : (poolAfter checkingTogether).map (fun pool => (pool.acknowledged.map Prod.fst,
      (WalStore.replayFrom "wal".toList { putPolicy := .replace, objects := pool.objects }).1)) =
        some ([⟨[65], [], []⟩], .ok [⟨[66], [], []⟩]) := by decide +kernel
  obtain ⟨pool, reached, seen⟩ := Option.map_eq_some_iff.mp ran
  obtain ⟨acknowledged, replayed⟩ := Prod.mk.injEq .. ▸ seen
  exact ⟨pool, reached, by simp [acknowledged], replayed⟩

namespace WriterPool

variable {namespacePrefix : Text} {pool : WriterPool} {epochMs : UInt64} {writer : WalWriter}

/-- No log is opened under the node id of another writer. -/
def opensApart (pool : WriterPool) : WriterStep → Bool
  | .openLog nodeId _ => pool.writers.all fun writer => writer.nodeId ≠ sanitizeNodeId nodeId
  | _ => true

def nodeOf (namespacePrefix key : Text) : Option Text :=
  (parseWalObjectKey namespacePrefix key).map fun parsed => parsed.nodeId

/-- Different writers have different node ids, and a writer's names carry its own. -/
structure Apart (namespacePrefix : Text) (pool : WriterPool) : Prop where
  nodes : (pool.writers.map WalWriter.nodeId).Nodup
  named : ∀ writer ∈ pool.writers, ∀ record bytes candidate,
    writer.phase = .write record bytes candidate →
      nodeOf namespacePrefix candidate = some writer.nodeId.text

theorem nodes_set {writers : List WalWriter} {index : Nat} {old new : WalWriter}
    (found : writers[index]? = some old) (sameNode : new.nodeId = old.nodeId) :
    (writers.set index new).map WalWriter.nodeId = writers.map WalWriter.nodeId := by
  obtain ⟨within, rfl⟩ := List.getElem?_eq_some_iff.mp found
  rw [map_set, sameNode, ← getElem_map WalWriter.nodeId, set_getElem_self]
  rwa [length_map]

theorem Apart.same (apart : pool.Apart namespacePrefix) {index position : Nat} {other : WalWriter}
    (found : pool.writers[index]? = some writer) (located : pool.writers[position]? = some other)
    (sameNode : some other.nodeId.text = some writer.nodeId.text) : index = position := by
  have ids : (pool.writers.map WalWriter.nodeId)[index]? =
      (pool.writers.map WalWriter.nodeId)[position]? := by
    have same := congrArg sanitizeNodeId (Option.some.inj sameNode)
    rw [sanitizeNodeId_text, sanitizeNodeId_text] at same
    simp only [List.getElem?_map, found, located, Option.map_some, same]
  have within : index < (pool.writers.map WalWriter.nodeId).length := by
    rw [length_map]
    exact (List.getElem?_eq_some_iff.mp found).1
  exact (List.getElem?_inj within apart.nodes).mp ids

theorem Apart.step (apart : pool.Apart namespacePrefix) {label : WriterStep} {next : WriterPool}
    (opens : pool.opensApart label = true) (made : pool.step namespacePrefix label = some next) :
    next.Apart namespacePrefix := by
  rcases step_cases made with ⟨nodeId, faults, rfl, rfl⟩ |
    ⟨index, old, new, found, rfl, sameNode, phase⟩ | rfl |
    ⟨index, epochMs, writer, rfl, found, rfl⟩
  · constructor
    · rw [map_append, map_singleton, nodup_append]
      refine ⟨apart.nodes, nodup_singleton _, ?_⟩
      intro node member other opened
      obtain ⟨writer, earlier, rfl⟩ := mem_map.mp member
      obtain rfl := mem_singleton.mp opened
      exact of_decide_eq_true (all_eq_true.mp opens writer earlier)
    · intro writer member record bytes candidate pending
      rcases mem_append.mp member with earlier | opened
      · exact apart.named writer earlier record bytes candidate pending
      · obtain rfl := mem_singleton.mp opened
        cases pending
  · refine ⟨(nodes_set found sameNode).symm ▸ apart.nodes, ?_⟩
    intro writer member record bytes candidate pending
    rcases mem_or_eq_of_mem_set member with earlier | rfl
    · exact apart.named writer earlier record bytes candidate pending
    · rcases phase with idle | ⟨_, _, checks, _⟩
      · cases idle.symm.trans pending
      · cases checks.symm.trans pending
  · exact apart
  · refine ⟨(nodes_set found request_next.1).symm ▸ apart.nodes, ?_⟩
    intro other member record bytes candidate pending
    rcases mem_or_eq_of_mem_set member with earlier | rfl
    · exact apart.named other earlier record bytes candidate pending
    · obtain ⟨-, seq, rfl⟩ := request_next.2 record bytes candidate pending
      rw [request_next.1, nodeOf, parseWalObjectKey_chunk]
      rfl

/-- Two writers never wait for one name, because the names carry their node ids. -/
theorem Apart.putsAlone (apart : pool.Apart namespacePrefix) (label : WriterStep) :
    pool.putsAlone label = true := by
  cases label with
  | request index epochMs =>
    simp only [WriterPool.putsAlone]
    split
    · rename_i record bytes candidate waits
      obtain ⟨writer, found, phase⟩ := Option.map_eq_some_iff.mp waits
      have own := apart.named writer (mem_of_getElem? found) record bytes candidate phase
      rw [all_eq_true]
      intro other listed
      obtain ⟨position, different, located⟩ := mem_eraseIdx_iff_getElem?.mp listed
      cases pending : other.phase with
      | write written encoded target =>
        have named := apart.named other (mem_of_getElem? located) _ _ _ pending
        have unlike : target ≠ candidate := by
          rintro rfl
          exact different (apart.same found located (named.symm.trans own)).symm
        simp [WalWriter.awaits, pending, unlike]
      | idle | check _ _ | readBack _ _ _ | confirm _ _ => simp [WalWriter.awaits, pending]
    · rfl
  | openLog nodeId faults | restart index faults | publish index record | fail index => rfl

end WriterPool

/-- Writers whose node ids differ after sanitizing never put under a claimed name, in any order, so
whatever they acknowledge is replayed. -/
theorem ownNodes_putUnclaimed (namespacePrefix : Text) (objects : Objects)
    (readable : WalStore.Readable namespacePrefix objects) {pool : WriterPool}
    (reached : (writerSystem namespacePrefix objects).Reachable
      (fun pool label => pool.opensApart label = true) pool) :
    (writerSystem namespacePrefix objects).Reachable
        (fun pool label => pool.putsUnclaimed label = true) pool ∧
      ∀ record key, (record, key) ∈ pool.acknowledged → ∃ records,
        (WalStore.replayFrom namespacePrefix ⟨.replace, pool.objects, fun _ => none⟩).1 =
          .ok records ∧ record ∈ records := by
  -- The invariants travel together: soundness needs the free names that apartness keeps.
  have kept : pool.Sound namespacePrefix ∧ (pool.Free ∧ pool.Apart namespacePrefix) ∧
      (writerSystem namespacePrefix objects).Reachable
        (fun pool label => pool.putsUnclaimed label = true) pool := by
    apply reached.invariant
    · exact ⟨WriterPool.sound_start readable, ⟨fun _ member => (nomatch member),
        nodup_nil, fun _ member => (nomatch member)⟩, .start⟩
    · rintro before label after ⟨sound, ⟨free, apart⟩, careful⟩ opens made
      have unclaimed := free.putsUnclaimed sound label
      exact ⟨sound.step unclaimed made, ⟨free.step (apart.putsAlone label) made,
        apart.step opens made⟩, .step careful unclaimed made⟩
  refine ⟨kept.2.2, fun record key acknowledged => ?_⟩
  obtain ⟨behind, bytes, encoded, found⟩ := kept.1.acknowledged record key acknowledged
  exact WalStore.mem_replayFrom rfl kept.1.readable behind found encoded

def ownNodes : List WriterStep :=
  [.openLog "n".toList fun _ => none, .openLog "m".toList fun _ => none,
    .publish 0 ⟨[65], [], []⟩, .publish 1 ⟨[66], [], []⟩] ++
      (List.replicate 4 [.request 0 0, .request 1 0]).flatten

theorem ownNodes_putUnclaimed_together : ∃ pool : WriterPool, pool.acknowledged.length = 2 ∧
    (writerSystem "wal".toList ∅).Reachable
      (fun pool label => pool.putsUnclaimed label = true) pool := by
  have told : ((writerSystem "wal".toList ∅).run WriterPool.opensApart
      (writerSystem "wal".toList ∅).start ownNodes).map (·.acknowledged.length) = some 2 := by
    decide +kernel
  obtain ⟨pool, ran, acknowledged⟩ := Option.map_eq_some_iff.mp told
  exact ⟨pool, acknowledged, (ownNodes_putUnclaimed _ ∅ (fun _ _ found => by simp at found)
    (System.Reachable.run (fun _ _ passed => passed) .start ran)).1⟩

end WombatKV
