import WombatKV.Proofs.Radix.IndexHistory

/-! When the topological keys mirror the keys by hash. -/

namespace WombatKV

open List

namespace SlateDbMetadataIndex

variable {index : SlateDbMetadataIndex} {hash other : BlockHash} {block placed : BlockMeta}

theorem keyTopological_eq : index.keyTopological hash block =
    index.topologicalPrefix ++ (utf8 (hexLower block.modelDigest.toList) ++ (utf8 ['/'] ++
      (utf8 (hexLower (leBytes 4 block.blockSeq.toNat).reverse) ++ (utf8 ['/'] ++
        utf8 (hexLower hash.toList))))) := by
  have text : "t/".toList ++ index.ns ++ ('/' :: hexLower block.modelDigest.toList) ++
      ('/' :: hexLower (leBytes 4 block.blockSeq.toNat).reverse) ++ ('/' :: hexLower hash.toList) =
      ("t/".toList ++ index.ns ++ ['/']) ++ (hexLower block.modelDigest.toList ++ (['/'] ++
        (hexLower (leBytes 4 block.blockSeq.toNat).reverse ++ (['/'] ++ hexLower hash.toList)))) := by
    simp
  rw [keyTopological]
  simp only [text]
  rw [utf8_append, utf8_append (hexLower block.modelDigest.toList), utf8_append ['/'],
    utf8_append (hexLower (leBytes 4 block.blockSeq.toNat).reverse), utf8_append ['/']]
  rfl

theorem prefix_keyTopological : index.topologicalPrefix <+: index.keyTopological hash block := by
  rw [keyTopological_eq]
  exact prefix_append _ _

theorem topologicalHash_keyTopological :
    topologicalHash (index.keyTopological hash block) = some hash := by
  have digits : (utf8 (hexLower hash.toList)).length = 64 := by
    rw [utf8_hexLower_length, Vector.length_toList]
  have ends : ∃ front, index.keyTopological hash block = front ++ utf8 (hexLower hash.toList) := by
    rw [keyTopological_eq]
    exact ⟨index.topologicalPrefix ++ (utf8 (hexLower block.modelDigest.toList) ++ (utf8 ['/'] ++
      (utf8 (hexLower (leBytes 4 block.blockSeq.toNat).reverse) ++ utf8 ['/']))),
      by simp only [append_assoc]⟩
  obtain ⟨front, whole⟩ := ends
  rw [topologicalHash, whole, length_append, digits, Nat.add_sub_cancel, drop_left,
    decodeHex32_hexLower]

theorem utf8_hexLower_inj {left right : Bytes}
    (same : utf8 (hexLower left) = utf8 (hexLower right)) : left = right := by
  have order := compare_hexLower left right
  rw [utf8_injective same, Std.compare_self] at order
  exact Std.LawfulEqOrd.eq_of_compare order.symm

theorem keyTopological_inj :
    index.keyTopological hash block = index.keyTopological hash placed ↔
      block.SameTopology placed := by
  constructor
  · intro same
    rw [keyTopological_eq, keyTopological_eq] at same
    have behind := append_cancel_left same
    obtain ⟨digest, behind⟩ := append_inj behind (by simp [utf8_hexLower_length])
    have behind := append_cancel_left behind
    obtain ⟨sequence, -⟩ := append_inj behind (by simp [utf8_hexLower_length])
    have numbers := reverse_injective (utf8_hexLower_inj sequence)
    have read := congrArg fromLe numbers
    rw [fromLe_leBytes_of_lt block.blockSeq.toNat_lt,
      fromLe_leBytes_of_lt placed.blockSeq.toNat_lt] at read
    exact ⟨UInt32.toNat_inj.mp read, Vector.toList_inj.mp (utf8_hexLower_inj digest)⟩
  · rintro ⟨sequence, digest⟩
    rw [keyTopological, keyTopological, sequence, digest]

theorem keyTopological_ne_of_ne (apart : hash ≠ other) :
    index.keyTopological hash block ≠ index.keyTopological other placed := by
  intro same
  have named := congrArg topologicalHash same
  rw [topologicalHash_keyTopological, topologicalHash_keyTopological] at named
  exact apart (Option.some.inj named)

theorem not_prefix_keyByHash : ¬ index.topologicalPrefix <+: keyByHash hash := by
  rintro ⟨rest, same⟩
  have letters : (some 0x74 : Option UInt8) = some 0x68 := congrArg List.head? same
  exact absurd letters (by decide)

section Changes

variable {key : Bytes}

theorem db_insert {now : UInt64} (begins : index.topologicalPrefix <+: key) :
    (index.perform (.insert hash block now)).db[key]? =
      if index.keyTopological hash block = key then
        some (encodeMetaValue index.rkyv (block.touch now))
      else index.db[key]? := by
  have apart : keyByHash hash ≠ key := by
    rintro rfl
    exact not_prefix_keyByHash begins
  have unstamped : index.keyTopological hash (block.touch now) = index.keyTopological hash block :=
    rfl
  simp only [perform, changes, insert, putMeta, foldl_cons, foldl_nil, write,
    Std.ExtTreeMap.getElem?_insert, Std.LawfulEqCmp.compare_eq_iff_eq, if_neg apart, unstamped]

theorem db_remove (begins : index.topologicalPrefix <+: key)
    (stored : index.readMeta hash = some block) :
    (index.perform (.remove hash)).db[key]? =
      if index.keyTopological hash block = key then none else index.db[key]? := by
  have apart : keyByHash hash ≠ key := by
    rintro rfl
    exact not_prefix_keyByHash begins
  simp only [perform, changes, remove, stored, Option.map_some, Option.getD_some, foldl_cons,
    foldl_nil, write, Std.ExtTreeMap.getElem?_erase, Std.LawfulEqCmp.compare_eq_iff_eq,
    if_neg apart]

end Changes

theorem perform_setup (op : IndexRequest) :
    (index.perform op).ns = index.ns ∧ (index.perform op).rkyv = index.rkyv := by
  have kept (made : List DbWrite) (index : SlateDbMetadataIndex) :
      (made.foldl write index).ns = index.ns := by
    induction made generalizing index with
    | nil => rfl
    | cons first rest ih =>
      rw [foldl_cons, ih]
      cases first <;> rfl
  exact ⟨kept _ _, foldl_write_rkyv _⟩

structure Mirror (index : SlateDbMetadataIndex) : Prop where
  formed : WellFormed index.rkyv index.db
  topological : ∀ key value, index.topologicalPrefix <+: key →
    (index.db[key]? = some value ↔ ∃ hash block, index.readMeta hash = some block ∧
      index.keyTopological hash block = key ∧ encodeMetaValue index.rkyv block = value)

theorem mem_topologicalKeys {key : Bytes} : key ∈ index.topologicalKeys hash ↔
    (index.db[key]?).isSome = true ∧ index.topologicalPrefix <+: key ∧
      topologicalHash key = some hash := by
  rw [topologicalKeys, mem_filter, Std.ExtTreeMap.mem_keys, Std.ExtTreeMap.mem_iff_isSome_getElem?,
    Bool.and_eq_true, List.isPrefixOf_iff_prefix, decide_eq_true_eq]

variable (mirror : Mirror index)

include mirror

theorem Mirror.stored (read : index.readMeta hash = some block) :
    index.db[index.keyTopological hash block]? = some (encodeMetaValue index.rkyv block) :=
  (mirror.topological _ _ prefix_keyTopological).mpr ⟨hash, block, read, rfl, rfl⟩

theorem Mirror.mem_keys (key : Bytes) :
    key ∈ index.topologicalKeys hash ↔
      ∃ block, index.readMeta hash = some block ∧ index.keyTopological hash block = key := by
  rw [mem_topologicalKeys]
  constructor
  · rintro ⟨there, begins, ends⟩
    obtain ⟨value, stored⟩ := Option.isSome_iff_exists.mp there
    obtain ⟨other, block, read, rfl, -⟩ := (mirror.topological key value begins).mp stored
    rw [topologicalHash_keyTopological] at ends
    cases ends
    exact ⟨block, read, rfl⟩
  · rintro ⟨block, read, rfl⟩
    refine ⟨?_, prefix_keyTopological, topologicalHash_keyTopological⟩
    rw [mirror.stored read]
    rfl

theorem Mirror.mirrored : index.Mirrored where
  present hash there := by
    obtain ⟨block, read⟩ := Option.isSome_iff_exists.mp there
    have members (key : Bytes) : key ∈ index.topologicalKeys hash ↔
        key ∈ [index.keyTopological hash block] := by
      rw [mirror.mem_keys, mem_singleton]
      simp only [read, Option.some.injEq, exists_eq_left']
      exact eq_comm
    refine ⟨index.keyTopological hash block, ?_, ?_⟩
    · have distinct : (index.topologicalKeys hash).Nodup := Std.ExtTreeMap.nodup_keys.filter _
      exact perm_singleton.mp
        ((perm_ext_iff_of_nodup distinct (pairwise_singleton _ _)).mpr members)
    · rw [mirror.stored read, mirror.formed.getElem?, read]
      rfl
  absent hash missing := by
    rw [eq_nil_iff_forall_not_mem]
    intro key member
    obtain ⟨block, read, -⟩ := (mirror.mem_keys key).mp member
    rw [missing] at read
    cases read
  named key there begins := by
    obtain ⟨value, stored⟩ := Option.isSome_iff_exists.mp
      (Std.ExtTreeMap.mem_iff_isSome_getElem?.mp there)
    obtain ⟨hash, block, -, rfl, -⟩ := (mirror.topological key value begins).mp stored
    rw [topologicalHash_keyTopological]
    rfl

theorem Mirror.change {next : SlateDbMetadataIndex} {record : Option BlockMeta}
    (sameNs : next.ns = index.ns) (archive : next.rkyv = index.rkyv)
    (formed : WellFormed index.rkyv next.db) (own : next.readMeta hash = record)
    (others : ∀ named, hash ≠ named → next.readMeta named = index.readMeta named)
    (ownKeys : ∀ placed value, next.db[index.keyTopological hash placed]? = some value ↔
      ∃ block, record = some block ∧ block.SameTopology placed ∧
        encodeMetaValue index.rkyv block = value)
    (otherKeys : ∀ key, index.topologicalPrefix <+: key →
      (∀ placed, index.keyTopological hash placed ≠ key) → next.db[key]? = index.db[key]?) :
    Mirror next := by
  have sameKey (named : BlockHash) (block : BlockMeta) :
      next.keyTopological named block = index.keyTopological named block := by
    rw [keyTopological, keyTopological, sameNs]
  refine ⟨archive ▸ formed, ?_⟩
  intro key value begins
  have begins : index.topologicalPrefix <+: key := by
    rwa [topologicalPrefix, sameNs] at begins
  simp only [sameKey, archive]
  by_cases mine : ∃ placed, index.keyTopological hash placed = key
  · -- A key of the hash stands for a record of the hash.
    obtain ⟨placed, rfl⟩ := mine
    rw [ownKeys]
    constructor
    · rintro ⟨block, new, same, encoded⟩
      exact ⟨hash, block, own.trans new, keyTopological_inj.mpr same, encoded⟩
    · rintro ⟨named, block, read, same, encoded⟩
      by_cases isHash : hash = named
      · subst isHash
        exact ⟨block, own.symm.trans read, keyTopological_inj.mp same, encoded⟩
      · exact absurd same.symm (keyTopological_ne_of_ne isHash)
  · -- Any other key stands for the record of another hash, which is as it was.
    have foreign (named : BlockHash) (block : BlockMeta)
        (same : index.keyTopological named block = key) : hash ≠ named := by
      rintro rfl
      exact mine ⟨block, same⟩
    rw [otherKeys key begins fun placed same => mine ⟨placed, same⟩,
      mirror.topological key value begins]
    constructor
    · rintro ⟨named, block, read, same, encoded⟩
      exact ⟨named, block, (others named (foreign named block same)).trans read, same, encoded⟩
    · rintro ⟨named, block, read, same, encoded⟩
      exact ⟨named, block, (others named (foreign named block same)).symm.trans read, same, encoded⟩

theorem Mirror.insert {now : UInt64}
    (keeps : ∀ stored, index.readMeta hash = some stored → stored.SameTopology block) :
    Mirror (index.perform (.insert hash block now)) := by
  obtain ⟨sameNs, archive⟩ := @perform_setup index (.insert hash block now)
  have self : (index.perform (.insert hash block now)).readMeta hash = some (block.touch now) :=
    readMeta_perform_self
  refine mirror.change sameNs archive (mirror.formed.perform _) self
    (fun named apart => readMeta_perform_other apart) ?_ ?_
  · intro placed value
    rw [db_insert prefix_keyTopological]
    split
    · rename_i same
      have there : (block.touch now).SameTopology placed := keyTopological_inj.mp same
      simp [there]
    · -- No record was there under another key of the hash.
      rename_i apart
      have elsewhere : ¬ (block.touch now).SameTopology placed := apart ∘ keyTopological_inj.mpr
      rw [mirror.topological _ _ prefix_keyTopological]
      constructor
      · rintro ⟨named, old, read, sameKey, -⟩
        by_cases isHash : hash = named
        · subst isHash
          obtain ⟨sequence, digest⟩ := keeps old read
          obtain ⟨placedSequence, placedDigest⟩ := keyTopological_inj.mp sameKey
          exact absurd ⟨sequence.symm.trans placedSequence, digest.symm.trans placedDigest⟩
            elsewhere
        · exact absurd sameKey.symm (keyTopological_ne_of_ne isHash)
      · rintro ⟨found, isBlock, there, -⟩
        cases isBlock
        exact absurd there elsewhere
  · intro key begins apart
    exact (db_insert begins).trans (if_neg (apart _))

theorem Mirror.remove (stored : index.readMeta hash = some block) :
    Mirror (index.perform (.remove hash)) := by
  obtain ⟨sameNs, archive⟩ := @perform_setup index (.remove hash)
  have self : (index.perform (.remove hash)).readMeta hash = none := readMeta_perform_self
  refine mirror.change sameNs archive (mirror.formed.perform _) self
    (fun named apart => readMeta_perform_other apart) ?_ ?_
  · intro placed value
    simp only [reduceCtorEq, false_and, exists_false, iff_false]
    rw [db_remove prefix_keyTopological stored]
    split
    · exact Option.some_ne_none value ∘ Eq.symm
    · -- The record of the hash was under one key only.
      rename_i apart
      rw [mirror.topological _ _ prefix_keyTopological]
      rintro ⟨named, old, read, sameKey, -⟩
      by_cases isHash : hash = named
      · subst isHash
        rw [stored] at read
        cases read
        exact apart sameKey
      · exact keyTopological_ne_of_ne isHash sameKey.symm
  · intro key begins apart
    exact (db_remove begins stored).trans (if_neg (apart _))

theorem Mirror.perform {op : IndexRequest} (keeps : index.KeepsTopology op) :
    Mirror (index.perform op) := by
  cases op with
  | insert hash block now => exact mirror.insert keeps
  | get hash => exact mirror
  | getAndTouch hash now =>
    cases found : index.readMeta hash with
    | none =>
      have same : index.perform (.getAndTouch hash now) = index := by
        simp [SlateDbMetadataIndex.perform, changes, getAndTouch, found]
      rw [same]
      exact mirror
    | some block =>
      have same : index.perform (.getAndTouch hash now) = index.perform (.insert hash block now) := by
        simp [SlateDbMetadataIndex.perform, changes, getAndTouch, found,
          SlateDbMetadataIndex.insert]
      rw [same]
      refine mirror.insert fun stored read => ?_
      rw [found] at read
      cases read
      exact ⟨rfl, rfl⟩
  | remove hash =>
    cases found : index.readMeta hash with
    | none =>
      have same : index.perform (.remove hash) = index := by
        simp [SlateDbMetadataIndex.perform, changes, SlateDbMetadataIndex.remove, found]
      rw [same]
      exact mirror
    | some block => exact mirror.remove found

theorem Mirror.not_mirrored {op : IndexRequest}
    (moves : ¬ index.KeepsTopology op) : ¬ (index.perform op).Mirrored := by
  intro mirrored
  cases op with
  | get hash => exact moves trivial
  | getAndTouch hash now => exact moves trivial
  | remove hash => exact moves trivial
  | insert hash block now =>
    simp only [KeepsTopology, not_forall] at moves
    obtain ⟨stored, read, apart⟩ := moves
    obtain ⟨sameNs, -⟩ := @perform_setup index (.insert hash block now)
    have self : (index.perform (.insert hash block now)).readMeta hash = some (block.touch now) :=
      readMeta_perform_self
    have listed (placed : BlockMeta)
        (there : ((index.perform (.insert hash block now)).db[index.keyTopological hash
          placed]?).isSome = true) :
        index.keyTopological hash placed ∈
          (index.perform (.insert hash block now)).topologicalKeys hash := by
      have begins := @prefix_keyTopological index hash placed
      rw [topologicalPrefix, ← sameNs] at begins
      exact mem_topologicalKeys.mpr ⟨there, begins, topologicalHash_keyTopological⟩
    have differ : index.keyTopological hash block ≠ index.keyTopological hash stored := by
      intro same
      obtain ⟨sequence, digest⟩ := keyTopological_inj.mp same
      exact apart ⟨sequence.symm, digest.symm⟩
    have newKey := listed block (by rw [db_insert prefix_keyTopological, if_pos rfl]; rfl)
    have oldKey := listed stored (by
      rw [db_insert prefix_keyTopological, if_neg differ, mirror.stored read]
      rfl)
    obtain ⟨key, only, -⟩ := mirrored.present hash (by rw [self]; rfl)
    rw [only, mem_singleton] at newKey oldKey
    exact differ (newKey.trans oldKey.symm)

omit mirror in
theorem after_append (index : SlateDbMetadataIndex) (made : List IndexRequest) (op : IndexRequest) :
    index.after (made ++ [op]) = (index.after made).perform op := by
  rw [after, foldl_append]
  rfl

theorem Mirror.after {ops : List IndexRequest}
    (keeps : ∀ made op, made ++ [op] <+: ops → (index.after made).KeepsTopology op) :
    Mirror (index.after ops) := by
  induction ops using List.reverseRecOn with
  | nil => exact mirror
  | append_singleton before op ih =>
    rw [after_append]
    have earlier := ih fun made op part => keeps made op (part.trans (prefix_append _ _))
    exact earlier.perform (keeps before op (prefix_refl _))

end SlateDbMetadataIndex

open SlateDbMetadataIndex

/--
The topological keys mirror the keys by hash after every part of a history, exactly when no insert
replaces a record by one with another sequence number or model.
-/
theorem topological_keys_mirror (index : SlateDbMetadataIndex) (empty : index.db = ∅)
    (ops : List IndexRequest) :
    (∀ made, made <+: ops → (index.after made).Mirrored) ↔
      ∀ made op, made ++ [op] <+: ops → (index.after made).KeepsTopology op := by
  have start : Mirror index := by
    constructor
    · intro key value stored
      simp [empty] at stored
    · intro key value _
      simp [empty, readMeta]
  constructor
  · intro mirrored
    induction ops using List.reverseRecOn with
    | nil =>
      intro made op part
      simp at part
    | append_singleton before last ih =>
      have earlier := ih fun made part => mirrored made (part.trans (prefix_append _ _))
      intro made op part
      rcases prefix_concat_iff.mp part with whole | inside
      · obtain ⟨rfl, same⟩ := append_inj' whole rfl
        cases same
        by_contra moves
        refine (start.after earlier).not_mirrored moves ?_
        rw [← after_append]
        exact mirrored _ (prefix_refl _)
      · exact earlier made op inside
  · intro keeps made part
    exact (start.after fun first op inside => keeps first op (inside.trans part)).mirrored

theorem topological_keys_mirror_same_place :
    (emptyIndex.after [.insert BlockMeta.zeroHash smallRoot 1,
      .insert BlockMeta.zeroHash smallRoot 2, .remove BlockMeta.zeroHash]).Mirrored := by
  refine (topological_keys_mirror emptyIndex rfl _).mpr ?_ _ (prefix_refl _)
  intro made op part
  rcases made with _ | ⟨first, _ | ⟨second, rest⟩⟩
  · obtain ⟨rfl, -⟩ := cons_prefix_cons.mp part
    intro stored read
    have nothing : emptyIndex.readMeta BlockMeta.zeroHash = none := by simp [readMeta, emptyIndex]
    rw [show (emptyIndex.after []).readMeta _ = none from nothing] at read
    cases read
  · obtain ⟨rfl, behind⟩ := cons_prefix_cons.mp part
    obtain ⟨rfl, -⟩ := cons_prefix_cons.mp behind
    intro stored read
    have found : some (smallRoot.touch 1) = some stored := readMeta_perform_self.symm.trans read
    cases found
    exact ⟨rfl, rfl⟩
  · obtain ⟨rfl, behind⟩ := cons_prefix_cons.mp part
    obtain ⟨rfl, tail⟩ := cons_prefix_cons.mp behind
    have last : op ∈ [IndexRequest.remove BlockMeta.zeroHash] :=
      tail.subset (mem_append_right rest (mem_singleton_self op))
    rw [mem_singleton.mp last]
    trivial

theorem topological_key_left_behind :
    ¬ (emptyIndex.after [.insert BlockMeta.zeroHash smallRoot 1,
      .insert BlockMeta.zeroHash { smallRoot with blockSeq := 1 } 2]).Mirrored := by
  intro mirrored
  have there : ((emptyIndex.after [.insert BlockMeta.zeroHash smallRoot 1,
      .insert BlockMeta.zeroHash { smallRoot with blockSeq := 1 } 2]).readMeta
        BlockMeta.zeroHash).isSome = true := by
    decide +kernel
  have two : ((emptyIndex.after [.insert BlockMeta.zeroHash smallRoot 1,
      .insert BlockMeta.zeroHash { smallRoot with blockSeq := 1 } 2]).topologicalKeys
        BlockMeta.zeroHash).length = 2 := by
    decide +kernel
  obtain ⟨key, only, -⟩ := mirrored.present _ there
  rw [only] at two
  cases two

end WombatKV

