import WombatKV.Foundation.Counting
import WombatKV.Proofs.Radix.MetadataIndex

/-! The SlateDB index answers as in memory, and by namespace. -/

namespace WombatKV

open List

def IndexRequest.effect (record : Option BlockMeta) : IndexRequest → Option BlockMeta
  | insert _ block now => some (block.touch now)
  | get _ => record
  | getAndTouch _ now => record.map (·.touch now)
  | remove _ => none

namespace SlateDbMetadataIndex

variable {index left right : SlateDbMetadataIndex} {hash : BlockHash} {op : IndexRequest}

theorem foldl_write_rkyv (made : List DbWrite) : (made.foldl write index).rkyv = index.rkyv := by
  induction made generalizing index with
  | nil => rfl
  | cons first rest ih =>
    rw [foldl_cons, ih]
    cases first <;> rfl

theorem readMeta_perform_self :
    (index.perform op).readMeta op.hash = op.effect (index.readMeta op.hash) := by
  cases op with
  | insert hash block now =>
    have read := readMeta_insert (prefix_refl (index.insert hash block now)) hash
    exact read.trans (if_pos ⟨cons_ne_nil _ _, rfl⟩)
  | get hash => rfl
  | getAndTouch hash now =>
    show (index.perform (.getAndTouch hash now)).readMeta hash = (index.readMeta hash).map (·.touch now)
    cases found : index.readMeta hash with
    | none =>
      have same : index.perform (.getAndTouch hash now) = index := by
        simp [perform, changes, getAndTouch, found]
      rw [same, found]
      rfl
    | some block =>
      have read := readMeta_insert (prefix_refl (index.insert hash block now)) hash
      have same : index.changes (.getAndTouch hash now) = index.insert hash block now := by
        simp [changes, getAndTouch, found, insert]
      rw [perform, same]
      exact read.trans (if_pos ⟨cons_ne_nil _ _, rfl⟩)
  | remove hash => exact readMeta_removed

theorem readMeta_perform_other {other : BlockHash} (apart : op.hash ≠ other) :
    (index.perform op).readMeta other = index.readMeta other := by
  cases op with
  | insert hash block now =>
    have read := readMeta_insert (prefix_refl (index.insert hash block now)) other
    exact read.trans (if_neg fun both => apart both.2)
  | get hash => rfl
  | getAndTouch hash now =>
    cases found : index.readMeta hash with
    | none =>
      have same : index.perform (.getAndTouch hash now) = index := by
        simp [perform, changes, getAndTouch, found]
      rw [same]
    | some block =>
      have read := readMeta_insert (prefix_refl (index.insert hash block now)) other
      have same : index.changes (.getAndTouch hash now) = index.insert hash block now := by
        simp [changes, getAndTouch, found, insert]
      rw [perform, same]
      exact read.trans (if_neg fun both => apart both.2)
  | remove hash =>
    have read := readMeta_remove (prefix_refl ((index.remove hash).getD [])) other
    exact read.trans (if_neg fun both => apart both.2)

def WellFormed (rkyv : Rkyv) (db : Std.ExtTreeMap Bytes Bytes) : Prop :=
  ∀ key value, db[key]? = some value → hashKeyStart ≤ key ∧ key < hashKeyEnd →
    ∃ hash block, key = keyByHash hash ∧ value = encodeMetaValue rkyv block

theorem keyTopological_unscanned {block : BlockMeta} :
    ¬ index.keyTopological hash block < hashKeyEnd := by
  have later : ¬ ((0x74 : UInt8) < 0x68) := by decide
  have apart : (0x74 : UInt8) ≠ 0x68 := by decide
  show ¬ ((0x74 : UInt8) :: _ < (0x68 : UInt8) :: _)
  rw [cons_lt_cons_iff]
  rintro (less | ⟨same, -⟩)
  · exact later less
  · exact apart same

section

variable (formed : WellFormed index.rkyv index.db)

include formed

theorem WellFormed.putMeta {block : BlockMeta} :
    WellFormed index.rkyv ((index.putMeta hash block).foldl write index).db := by
  intro key value stored scanned
  simp only [SlateDbMetadataIndex.putMeta, foldl_cons, foldl_nil, write,
    Std.ExtTreeMap.getElem?_insert, Std.LawfulEqCmp.compare_eq_iff_eq] at stored
  split at stored
  · rename_i topological
    rw [← topological] at scanned
    exact absurd scanned.2 keyTopological_unscanned
  · split at stored
    · rename_i named
      exact ⟨hash, block, named.symm, (Option.some.inj stored).symm⟩
    · exact formed key value stored scanned

theorem WellFormed.deletes (keys : List Bytes) :
    WellFormed index.rkyv ((keys.map DbWrite.delete).foldl write index).db := by
  induction keys generalizing index with
  | nil => exact formed
  | cons first rest ih =>
    have formedThen : WellFormed index.rkyv (index.write (.delete first)).db := ?_
    · exact ih formedThen
    intro key value stored scanned
    simp only [write, Std.ExtTreeMap.getElem?_erase] at stored
    split at stored
    · cases stored
    · exact formed key value stored scanned

theorem WellFormed.perform (op : IndexRequest) : WellFormed index.rkyv (index.perform op).db := by
  cases op with
  | insert hash block now => exact formed.putMeta
  | get hash => exact formed
  | getAndTouch hash now =>
    rw [SlateDbMetadataIndex.perform, changes, getAndTouch]
    cases index.readMeta hash with
    | none => exact formed
    | some block => exact formed.putMeta
  | remove hash =>
    rw [SlateDbMetadataIndex.perform, changes, remove]
    cases index.readMeta hash with
    | none => exact formed
    | some block =>
      exact formed.deletes [keyByHash hash, index.keyTopological hash block]

theorem WellFormed.getElem? (hash : BlockHash) :
    index.db[keyByHash hash]? = (index.readMeta hash).map (encodeMetaValue index.rkyv) := by
  cases stored : index.db[keyByHash hash]? with
  | none => simp [readMeta, stored]
  | some value =>
    obtain ⟨_, block, -, rfl⟩ := formed _ _ stored (keyByHash_scanned hash)
    simp [readMeta, stored, decodeMetaValue_encodeMetaValue]

end

theorem scanned_eq (archive : left.rkyv = right.rkyv) (leftFormed : WellFormed left.rkyv left.db)
    (rightFormed : WellFormed right.rkyv right.db)
    (same : ∀ hash, left.readMeta hash = right.readMeta hash) :
    left.db.toList.filter (fun entry => decide (hashKeyStart ≤ entry.1 ∧ entry.1 < hashKeyEnd)) =
      right.db.toList.filter
        (fun entry => decide (hashKeyStart ≤ entry.1 ∧ entry.1 < hashKeyEnd)) := by
  refine filter_toList_eq (fun key => decide (hashKeyStart ≤ key ∧ key < hashKeyEnd)) ?_
  intro key chosen
  have scanned := of_decide_eq_true chosen
  by_cases named : ∃ hash, key = keyByHash hash
  · obtain ⟨hash, rfl⟩ := named
    rw [leftFormed.getElem?, rightFormed.getElem?, same, archive]
  · -- A scanned key that belongs to no hash is in neither database.
    have absent {index : SlateDbMetadataIndex} (formed : WellFormed index.rkyv index.db) :
        index.db[key]? = none := by
      rw [Option.eq_none_iff_forall_not_mem]
      intro value stored
      obtain ⟨hash, _, same, -⟩ := formed key value stored scanned
      exact named ⟨hash, same⟩
    rw [absent leftFormed, absent rightFormed]

theorem answers_eq (archive : left.rkyv = right.rkyv) (leftFormed : WellFormed left.rkyv left.db)
    (rightFormed : WellFormed right.rkyv right.db)
    (same : ∀ hash, left.readMeta hash = right.readMeta hash) :
    (∀ chain, left.longestPrefix chain = right.longestPrefix chain) ∧ left.len = right.len ∧
      left.entries = right.entries := by
  have scanned := scanned_eq archive leftFormed rightFormed same
  refine ⟨?_, ?_, ?_⟩
  · intro chain
    induction chain with
    | nil => rfl
    | cons hash rest ih => rw [longestPrefix, longestPrefix, same, ih]
  · rw [len, len]
    exact congrArg List.length scanned
  · rw [entries, entries, archive]
    exact congrArg (List.filterMap (scannedEntry right.rkyv)) scanned

end SlateDbMetadataIndex

section Histories

open SlateDbMetadataIndex

variable {rkyv : Rkyv} {db : Std.ExtTreeMap Bytes Bytes} {ns : Text} {call : IndexCall}

def storedRecord (rkyv : Rkyv) (db : Std.ExtTreeMap Bytes Bytes) (hash : BlockHash) :
    Option BlockMeta :=
  db[keyByHash hash]?.bind (decodeMetaValue rkyv)

theorem openWithObjectStore_eq_some {index : SlateDbMetadataIndex}
    (opened : openWithObjectStore db ns rkyv = some index) :
    index.db = db ∧ index.rkyv = rkyv ∧ ns ≠ [] ∧ '/' ∉ ns := by
  unfold openWithObjectStore at opened
  split at opened
  · split at opened
    · rename_i named slashless
      cases opened
      exact ⟨rfl, rfl, named, slashless⟩
    · cases opened
  · cases opened

def Opens (ns : Text) : Prop := ns ≠ [] ∧ '/' ∉ ns

theorem Opens.handle (opens : Opens ns) (db : Std.ExtTreeMap Bytes Bytes) (rkyv : Rkyv) :
    openWithObjectStore db ns rkyv = some ⟨db, ns, opens.1, opens.2, rkyv⟩ := by
  rw [openWithObjectStore, dif_pos opens.1, dif_pos opens.2]

def LeavesRecord (rkyv : Rkyv) (db : Std.ExtTreeMap Bytes Bytes) (call : IndexCall) : Prop :=
  Opens call.ns →
    call.op.effect (storedRecord rkyv db call.op.hash) = storedRecord rkyv db call.op.hash

def SameAnswers (rkyv : Rkyv) (ns : Text) (left right : Std.ExtTreeMap Bytes Bytes) : Prop :=
  ∀ leftIndex rightIndex, openWithObjectStore left ns rkyv = some leftIndex →
    openWithObjectStore right ns rkyv = some rightIndex →
    (∀ hash, leftIndex.get hash = rightIndex.get hash) ∧
      (∀ chain, leftIndex.longestPrefix chain = rightIndex.longestPrefix chain) ∧
      leftIndex.len = rightIndex.len ∧ leftIndex.entries = rightIndex.entries

theorem storedRecord_eq (index : SlateDbMetadataIndex) (hash : BlockHash) :
    storedRecord index.rkyv index.db hash = index.readMeta hash := rfl

theorem storedRecord_operate (opens : Opens call.ns) (hash : BlockHash) :
    storedRecord rkyv (operate rkyv db call) hash =
      (SlateDbMetadataIndex.perform ⟨db, call.ns, opens.1, opens.2, rkyv⟩ call.op).readMeta
        hash := by
  have archive : (SlateDbMetadataIndex.perform ⟨db, call.ns, opens.1, opens.2, rkyv⟩
      call.op).rkyv = rkyv := foldl_write_rkyv _
  rw [← storedRecord_eq, archive, operate, opens.handle]

theorem operate_refused (refused : ¬ Opens call.ns) : operate rkyv db call = db := by
  cases opened : openWithObjectStore db call.ns rkyv with
  | none => rw [operate, opened]
  | some index => exact absurd (openWithObjectStore_eq_some opened).2.2 refused

theorem storedRecord_operate_self (opens : Opens call.ns) :
    storedRecord rkyv (operate rkyv db call) call.op.hash =
      call.op.effect (storedRecord rkyv db call.op.hash) := by
  rw [storedRecord_operate opens, readMeta_perform_self]
  rfl

theorem storedRecord_operate_other {hash : BlockHash} (apart : call.op.hash ≠ hash) :
    storedRecord rkyv (operate rkyv db call) hash = storedRecord rkyv db hash := by
  by_cases opens : Opens call.ns
  · rw [storedRecord_operate opens, readMeta_perform_other apart]
    rfl
  · rw [operate_refused opens]

theorem wellFormed_operate (formed : WellFormed rkyv db) (call : IndexCall) :
    WellFormed rkyv (operate rkyv db call) := by
  cases opened : openWithObjectStore db call.ns rkyv with
  | none =>
    rw [operate, opened]
    exact formed
  | some index =>
    obtain ⟨rfl, rfl, -, -⟩ := openWithObjectStore_eq_some opened
    rw [operate, opened]
    exact formed.perform call.op

theorem wellFormed_databaseAfter (rkyv : Rkyv) (calls : List IndexCall) :
    WellFormed rkyv (databaseAfter rkyv calls) := by
  induction calls using List.reverseRecOn with
  | nil =>
    intro key value stored
    simp [databaseAfter] at stored
  | append_singleton before call ih =>
    rw [databaseAfter, foldl_append]
    exact wellFormed_operate ih call

theorem sameAnswers_iff (opens : Opens ns) {left right : Std.ExtTreeMap Bytes Bytes}
    (leftFormed : WellFormed rkyv left) (rightFormed : WellFormed rkyv right) :
    SameAnswers rkyv ns left right ↔
      ∀ hash, storedRecord rkyv left hash = storedRecord rkyv right hash := by
  constructor
  · intro same hash
    exact (same _ _ (opens.handle left rkyv) (opens.handle right rkyv)).1 hash
  · intro same leftIndex rightIndex leftOpened rightOpened
    obtain ⟨rfl, rfl, -, -⟩ := openWithObjectStore_eq_some leftOpened
    obtain ⟨rfl, archive, -, -⟩ := openWithObjectStore_eq_some rightOpened
    rw [← archive] at rightFormed
    have read (hash : BlockHash) : leftIndex.readMeta hash = rightIndex.readMeta hash := by
      have records := same hash
      rw [storedRecord, storedRecord] at records
      rw [readMeta, readMeta, records, archive]
    exact ⟨read, answers_eq archive.symm leftFormed rightFormed read⟩

theorem databaseAfter_append (calls : List IndexCall) (call : IndexCall) :
    databaseAfter rkyv (calls ++ [call]) = operate rkyv (databaseAfter rkyv calls) call := by
  rw [databaseAfter, foldl_append]
  rfl

/--
A handle sees, after every part of a history, what the calls of its own namespace alone would
have left, exactly when every call of another namespace finds the record it would leave.
-/
theorem index_namespaces_are_isolated (rkyv : Rkyv) (ns : Text) (opens : Opens ns)
    (calls : List IndexCall) :
    (∀ made, made <+: calls → SameAnswers rkyv ns (databaseAfter rkyv made)
      (databaseAfter rkyv (made.filter fun call => decide (call.ns = ns)))) ↔
    ∀ made call, made ++ [call] <+: calls → call.ns ≠ ns →
      LeavesRecord rkyv (databaseAfter rkyv made) call := by
  have view (made : List IndexCall) := sameAnswers_iff opens (wellFormed_databaseAfter rkyv made)
    (wellFormed_databaseAfter rkyv (made.filter fun call => decide (call.ns = ns)))
  simp only [view]
  constructor
  · intro same made call part foreign accepted
    have before := same made ((prefix_append made [call]).trans part) call.op.hash
    have after := same (made ++ [call]) part call.op.hash
    rw [filter_append, filter_singleton, decide_eq_false foreign] at after
    simp only [cond_false, append_nil] at after
    rw [← storedRecord_operate_self accepted, ← databaseAfter_append, after, before]
  · intro leaves made part
    induction made using List.reverseRecOn with
    | nil =>
      intro hash
      rfl
    | append_singleton before call ih =>
      have same := ih ((prefix_append before [call]).trans part)
      intro hash
      rw [filter_append, filter_singleton, databaseAfter_append]
      by_cases own : call.ns = ns
      · rw [decide_eq_true own, cond_true, databaseAfter_append]
        have accepted : Opens call.ns := by rwa [own]
        by_cases named : call.op.hash = hash
        · subst named
          rw [storedRecord_operate_self accepted, storedRecord_operate_self accepted, same]
        · rw [storedRecord_operate_other named, storedRecord_operate_other named, same]
      · rw [decide_eq_false own, cond_false, append_nil, ← same hash]
        by_cases named : call.op.hash = hash
        · subst named
          by_cases accepted : Opens call.ns
          · rw [storedRecord_operate_self accepted, leaves before call part own accepted]
          · rw [operate_refused accepted]
        · exact storedRecord_operate_other named

def smallRoot : BlockMeta := .newRoot 1 (Vector.replicate 24 0) (Vector.replicate 16 0) 0

def emptyIndex : SlateDbMetadataIndex := ⟨∅, ['a'], by decide, by decide, fieldArchive⟩

theorem index_namespaces_are_isolated_removal :
    Opens ['b'] ∧ ∀ made, made <+: [⟨['a'], .remove BlockMeta.zeroHash⟩,
        ⟨['b'], .insert BlockMeta.zeroHash smallRoot 1⟩] →
      SameAnswers fieldArchive ['b'] (databaseAfter fieldArchive made)
        (databaseAfter fieldArchive (made.filter fun call => decide (call.ns = ['b']))) := by
  have opens : Opens ['b'] := by simp [Opens]
  refine ⟨opens, (index_namespaces_are_isolated fieldArchive ['b'] opens _).mpr ?_⟩
  intro made call part foreign _
  rcases prefix_cons_iff.mp part with empty | ⟨rest, whole, behind⟩
  · simp at empty
  · cases made with
    | nil =>
      cases whole
      rfl
    | cons first others =>
      cases whole
      rcases prefix_cons_iff.mp behind with empty | ⟨rest, whole, nothing⟩
      · simp at empty
      · cases prefix_nil.mp nothing
        cases others with
        | nil =>
          cases whole
          exact absurd rfl foreign
        | cons second others => simp at whole

theorem insert_is_seen_by_other_namespace :
    ∃ index, openWithObjectStore
        (databaseAfter fieldArchive [⟨['a'], .insert BlockMeta.zeroHash smallRoot 1⟩]) ['b']
          fieldArchive = some index ∧
      index.get BlockMeta.zeroHash = some (smallRoot.touch 1) ∧
      index.longestPrefix [BlockMeta.zeroHash] = 1 ∧ index.len = 1 ∧
      index.entries = [(BlockMeta.zeroHash, smallRoot.touch 1)] := by
  refine ⟨_, Opens.handle (by simp [Opens]) _ _, ?_⟩
  decide +kernel

end Histories

open SlateDbMetadataIndex

structure Represents (index : SlateDbMetadataIndex) (memory : InMemoryMetadataIndex) : Prop where
  formed : WellFormed index.rkyv index.db
  records : ∀ hash, index.readMeta hash = memory.entries[hash]?

namespace Represents

variable {index : SlateDbMetadataIndex} {memory : InMemoryMetadataIndex}

variable (represents : Represents index memory)

include represents

theorem scanned :
    index.db.toList.filter (fun entry => decide (hashKeyStart ≤ entry.1 ∧ entry.1 < hashKeyEnd)) =
      memory.entries.toList.map fun entry =>
        (keyByHash entry.1, encodeMetaValue index.rkyv entry.2) := by
  refine filter_toList_eq_map (fun key => decide (hashKeyStart ≤ key ∧ key < hashKeyEnd))
    keyByHash (encodeMetaValue index.rkyv) compare_keyByHash ?_
  intro key value
  constructor
  · rintro ⟨chosen, stored⟩
    obtain ⟨hash, block, rfl, rfl⟩ :=
      represents.formed key value stored (of_decide_eq_true chosen)
    have read : index.readMeta hash = some block := by
      rw [readMeta, stored]
      exact decodeMetaValue_encodeMetaValue index.rkyv block
    exact ⟨hash, block, (represents.records hash).symm.trans read, rfl, rfl⟩
  · rintro ⟨hash, block, present, rfl, rfl⟩
    refine ⟨decide_eq_true (keyByHash_scanned hash), ?_⟩
    rw [represents.formed.getElem?, represents.records, present]
    rfl

theorem entries : index.entries = memory.entryList := by
  have decoded (entry : BlockHash × BlockMeta) :
      scannedEntry index.rkyv (keyByHash entry.1, encodeMetaValue index.rkyv entry.2) =
        some entry := by
    rw [scannedEntry_keyByHash, decodeMetaValue_encodeMetaValue]
    rfl
  have found := represents.scanned
  rw [SlateDbMetadataIndex.entries]
  simp only [found, filterMap_map, Function.comp_def, decoded, filterMap_some]
  rfl

theorem len : index.len = memory.len := by
  have counted := congrArg List.length represents.scanned
  rw [length_map, Std.ExtTreeMap.length_toList] at counted
  exact counted

theorem isSome (hash : BlockHash) :
    (index.readMeta hash).isSome = memory.entries.contains hash := by
  rw [represents.records, Std.ExtTreeMap.contains_eq_isSome_getElem?]

theorem longestPrefix (chain : List BlockHash) :
    index.longestPrefix chain = memory.longestPrefix chain := by
  induction chain with
  | nil => rfl
  | cons hash rest ih =>
    rw [SlateDbMetadataIndex.longestPrefix, InMemoryMetadataIndex.longestPrefix,
      represents.isSome, ih]

theorem perform {op : IndexRequest} {after : InMemoryMetadataIndex}
    (self : after.entries[op.hash]? = op.effect memory.entries[op.hash]?)
    (others : ∀ hash, op.hash ≠ hash → after.entries[hash]? = memory.entries[hash]?) :
    Represents (index.perform op) after := by
  constructor
  · have archive : (index.perform op).rkyv = index.rkyv := foldl_write_rkyv _
    rw [archive]
    exact represents.formed.perform op
  · intro hash
    by_cases same : op.hash = hash
    · subst same
      rw [readMeta_perform_self, self, represents.records]
    · rw [readMeta_perform_other same, others hash same, represents.records]

theorem insert (hash : BlockHash) (block : BlockMeta) (now : UInt64) :
    Represents (index.perform (.insert hash block now)) (memory.insert hash block now) := by
  refine represents.perform Std.ExtTreeMap.getElem?_insert_self fun other apart => ?_
  exact Std.ExtTreeMap.getElem?_insert.trans (if_neg (by simpa [IndexRequest.hash] using apart))

theorem touch (hash : BlockHash) (now : UInt64) :
    (index.answer (.onHash (.getAndTouch hash now))).1 = (memory.answer (.onHash (.getAndTouch hash now))).1 ∧
      Represents (index.answer (.onHash (.getAndTouch hash now))).2
        (memory.answer (.onHash (.getAndTouch hash now))).2 := by
  have read := represents.records hash
  simp only [SlateDbMetadataIndex.answer, InMemoryMetadataIndex.answer,
    SlateDbMetadataIndex.getAndTouch, InMemoryMetadataIndex.getAndTouch]
  cases found : memory.entries[hash]? with
  | none =>
    rw [read, found]
    exact ⟨rfl, represents⟩
  | some block =>
    rw [read, found]
    exact ⟨rfl, represents.insert hash block now⟩

theorem remove (hash : BlockHash) :
    (index.answer (.onHash (.remove hash))).1 = (memory.answer (.onHash (.remove hash))).1 ∧
      Represents (index.answer (.onHash (.remove hash))).2 (memory.answer (.onHash (.remove hash))).2 := by
  have there := represents.isSome hash
  have removed : Represents (index.perform (.remove hash)) (memory.remove hash).2 := by
    refine represents.perform ?_ fun other apart => ?_
    · exact Std.ExtTreeMap.getElem?_erase_self
    · exact Std.ExtTreeMap.getElem?_erase.trans (if_neg (by simpa [IndexRequest.hash] using apart))
  have changes : index.perform (.remove hash) = ((index.remove hash).getD []).foldl write index :=
    rfl
  rw [changes, SlateDbMetadataIndex.remove] at removed
  simp only [SlateDbMetadataIndex.answer, InMemoryMetadataIndex.answer, SlateDbMetadataIndex.remove]
  cases found : index.readMeta hash with
  | none =>
    rw [found] at removed there
    exact ⟨congrArg IndexAnswer.removed there, removed⟩
  | some block =>
    rw [found] at removed there
    exact ⟨congrArg IndexAnswer.removed there, removed⟩

theorem answer (command : IndexCommand) :
    (index.answer command).1 = (memory.answer command).1 ∧
      Represents (index.answer command).2 (memory.answer command).2 := by
  cases command with
  | onHash request =>
    cases request with
    | insert hash block now => exact ⟨rfl, represents.insert hash block now⟩
    | get hash => exact ⟨congrArg IndexAnswer.record (represents.records hash), represents⟩
    | getAndTouch hash now => exact represents.touch hash now
    | remove hash => exact represents.remove hash
  | longestPrefix chain =>
    exact ⟨congrArg IndexAnswer.count (represents.longestPrefix chain), represents⟩
  | len => exact ⟨congrArg IndexAnswer.count represents.len, represents⟩
  | entries => exact ⟨congrArg IndexAnswer.records represents.entries, represents⟩

theorem reopen {ns : Text} (opens : Opens ns) :
    ∃ reopened, openWithObjectStore index.db ns index.rkyv = some reopened ∧
      Represents reopened memory :=
  ⟨_, opens.handle index.db index.rkyv, represents.formed, represents.records⟩

theorem answers {history : List IndexEvent} (accepted : ∀ ns, .reopen ns ∈ history → Opens ns) :
    index.answers history = some (memory.answers history) := by
  induction history generalizing index memory with
  | nil => rfl
  | cons event rest ih =>
    have later (ns : Text) (member : .reopen ns ∈ rest) : Opens ns :=
      accepted ns (mem_cons_of_mem _ member)
    cases event with
    | call command =>
      obtain ⟨same, alike⟩ := represents.answer command
      rw [SlateDbMetadataIndex.answers, InMemoryMetadataIndex.answers, ih alike later, same]
      rfl
    | reopen ns =>
      obtain ⟨reopened, opened, alike⟩ := represents.reopen (accepted ns mem_cons_self)
      rw [SlateDbMetadataIndex.answers, opened]
      exact ih alike later

end Represents

/--
Whatever is called, and wherever the database is closed and opened again in between, an index in
SlateDB that was empty returns what an empty index in memory returns.
-/
theorem slatedb_index_refines_memory (rkyv : Rkyv) {ns : Text} (opens : Opens ns)
    (history : List IndexEvent) (accepted : ∀ name, .reopen name ∈ history → Opens name) :
    (openWithObjectStore ∅ ns rkyv).bind (·.answers history) =
      some (InMemoryMetadataIndex.new.answers history) := by
  rw [opens.handle]
  have empty : Represents ⟨∅, ns, opens.1, opens.2, rkyv⟩ InMemoryMetadataIndex.new := by
    constructor
    · intro key value stored
      simp at stored
    · intro hash
      simp [readMeta, InMemoryMetadataIndex.new]
  exact empty.answers accepted

theorem slatedb_index_refines_memory_reopened :
    (openWithObjectStore ∅ ['a'] fieldArchive).bind (·.answers
      [.call (.onHash (.insert (Vector.replicate 32 200) smallRoot 1)),
        .call (.onHash (.insert (Vector.replicate 32 7) smallRoot 2)), .reopen ['b'],
        .call .entries]) =
      some [.inserted, .inserted, .records [(Vector.replicate 32 7, smallRoot.touch 2),
        (Vector.replicate 32 200, smallRoot.touch 1)]] := by
  have opens {char : Char} (other : char ≠ '/') : Opens [char] :=
    ⟨cons_ne_nil _ _, by simpa using other.symm⟩
  rw [slatedb_index_refines_memory fieldArchive (opens (by decide)) _ ?_]
  · decide +kernel
  · intro name member
    simp only [mem_cons, reduceCtorEq, not_mem_nil, or_false, false_or,
      IndexEvent.reopen.injEq] at member
    rw [member]
    exact opens (by decide)

end WombatKV



