import WombatKV.Proofs.Radix.BlockHash
import WombatKV.Radix.MetadataIndex

/-! What the two indexes hold after each change. -/

namespace WombatKV

open List

namespace InMemoryMetadataIndex

variable {index : InMemoryMetadataIndex}

theorem contains_insert (hash other : BlockHash) (block : BlockMeta) (now : UInt64) :
    (index.insert hash block now).entries.contains other = true ↔
      hash = other ∨ index.entries.contains other = true := by
  simp [insert, Std.ExtTreeMap.contains_insert]

theorem longestPrefix_eq (hashes : List BlockHash) :
    index.longestPrefix hashes = (hashes.takeWhile index.entries.contains).length := by
  induction hashes with
  | nil => rfl
  | cons hash rest ih =>
    rw [longestPrefix, takeWhile_cons, ih]
    split
    · rfl
    · rfl

theorem contains_bulkLoad (items : List (BlockHash × BlockMeta)) (hash : BlockHash) :
    (index.bulkLoad items).entries.contains hash = true ↔
      index.entries.contains hash = true ∨ ∃ block, (hash, block) ∈ items := by
  induction items generalizing index with
  | nil => simp [bulkLoad]
  | cons item rest ih =>
    obtain ⟨found, loaded⟩ := item
    have next : index.bulkLoad ((found, loaded) :: rest) =
        bulkLoad ⟨index.entries.insertIfNew found loaded⟩ rest := rfl
    rw [next, ih]
    constructor
    · rintro (present | ⟨block, member⟩)
      · rcases (by simpa using present : found = hash ∨ hash ∈ index.entries) with rfl | present
        · exact .inr ⟨loaded, mem_cons_self ..⟩
        · exact .inl (by simpa using present)
      · exact .inr ⟨block, mem_cons_of_mem _ member⟩
    · rintro (present | ⟨block, member⟩)
      · exact .inl (by simp_all)
      · rcases mem_cons.mp member with same | member
        · cases same
          exact .inl (by simp)
        · exact .inr ⟨block, member⟩

theorem removeIfUnchanged_true {hash : BlockHash} {expected : UInt64}
    {after : InMemoryMetadataIndex} (removed : index.removeIfUnchanged hash expected = (true, after)) :
    index.entries.contains hash = true ∧ after = ⟨index.entries.erase hash⟩ := by
  unfold removeIfUnchanged at removed
  split at removed
  · rename_i block present
    split at removed
    · cases removed
      refine ⟨?_, rfl⟩
      rw [Std.ExtTreeMap.contains_eq_isSome_getElem?, present]
      rfl
    · cases removed
  · cases removed

end InMemoryMetadataIndex

namespace SlateDbMetadataIndex

variable {index origin : SlateDbMetadataIndex} {hash other : BlockHash} {block : BlockMeta}

theorem keyByHash_inj : keyByHash hash = keyByHash other ↔ hash = other := by
  constructor
  · intro same
    have digits := append_cancel_left same
    have read := congrArg decodeHex32 digits
    rw [decodeHex32_hexLower, decodeHex32_hexLower] at read
    exact Option.some.inj read
  · rintro rfl
    rfl

theorem compare_keyByHash (left right : BlockHash) :
    compare (keyByHash left) (keyByHash right) = compare left right := by
  rw [keyByHash, keyByHash, compare_append_left, compare_utf8, compare_hexLower,
    Vector.compare_eq_compare_toList]

theorem keyTopological_ne : index.keyTopological hash block ≠ keyByHash other := by
  intro same
  have letters : (some 0x74 : Option UInt8) = some 0x68 := congrArg List.head? same
  exact absurd letters (by decide)

theorem decodeMetaValue_encodeMetaValue (rkyv : Rkyv) (block : BlockMeta) :
    decodeMetaValue rkyv (encodeMetaValue rkyv block) = some block := by
  simp [decodeMetaValue, encodeMetaValue, rkyv.fromBytes_toBytes]

theorem readMeta_putHash :
    (index.write (.put (keyByHash hash) (encodeMetaValue index.rkyv block))).readMeta other =
      if hash = other then some block else index.readMeta other := by
  simp only [readMeta, write, Std.ExtTreeMap.getElem?_insert, Std.LawfulEqCmp.compare_eq_iff_eq,
    keyByHash_inj]
  split
  · exact decodeMetaValue_encodeMetaValue index.rkyv block
  · rfl

theorem readMeta_putTopological {value : Bytes} :
    (index.write (.put (origin.keyTopological hash block) value)).readMeta other =
      index.readMeta other := by
  simp only [readMeta, write, Std.ExtTreeMap.getElem?_insert, Std.LawfulEqCmp.compare_eq_iff_eq,
    keyTopological_ne, if_false]

theorem readMeta_deleteHash :
    (index.write (.delete (keyByHash hash))).readMeta other =
      if hash = other then none else index.readMeta other := by
  simp only [readMeta, write, Std.ExtTreeMap.getElem?_erase, Std.LawfulEqCmp.compare_eq_iff_eq,
    keyByHash_inj]
  split
  · rfl
  · rfl

theorem readMeta_deleteTopological :
    (index.write (.delete (origin.keyTopological hash block))).readMeta other =
      index.readMeta other := by
  simp only [readMeta, write, Std.ExtTreeMap.getElem?_erase, Std.LawfulEqCmp.compare_eq_iff_eq,
    keyTopological_ne, if_false]

theorem readMeta_insert {made : List DbWrite} {now : UInt64}
    (part : made <+: index.insert hash block now) (other : BlockHash) :
    (made.foldl write index).readMeta other =
      if made ≠ [] ∧ hash = other then some (block.touch now) else index.readMeta other := by
  have first := @readMeta_putHash index hash other (block.touch now)
  rcases prefix_cons_iff.mp part with rfl | ⟨more, rfl, tail⟩
  · rfl
  · rw [foldl_cons]
    simp only [ne_eq, cons_ne_nil, not_false_eq_true, true_and]
    rcases prefix_cons_iff.mp tail with rfl | ⟨rest, rfl, last⟩
    · exact first
    · -- The second write changes nothing that is read.
      cases prefix_nil.mp last
      exact readMeta_putTopological.trans first

theorem readMeta_remove {made : List DbWrite} (part : made <+: (index.remove hash).getD [])
    (other : BlockHash) :
    (made.foldl write index).readMeta other =
      if made ≠ [] ∧ hash = other then none else index.readMeta other := by
  unfold remove at part
  cases read : index.readMeta hash with
  | none =>
    rw [read] at part
    cases prefix_nil.mp part
    rfl
  | some found =>
    rw [read] at part
    have first := @readMeta_deleteHash index hash other
    rcases prefix_cons_iff.mp part with rfl | ⟨more, rfl, tail⟩
    · rfl
    · rw [foldl_cons]
      simp only [ne_eq, cons_ne_nil, not_false_eq_true, true_and]
      rcases prefix_cons_iff.mp tail with rfl | ⟨rest, rfl, last⟩
      · exact first
      · cases prefix_nil.mp last
        exact readMeta_deleteTopological.trans first

theorem readMeta_removed :
    (((index.remove hash).getD []).foldl write index).readMeta hash = none := by
  cases read : index.readMeta hash with
  | none =>
    rw [remove, read]
    exact read
  | some found =>
    rw [remove, read]
    exact readMeta_deleteTopological.trans (readMeta_deleteHash.trans (if_pos rfl))

theorem keyByHash_scanned (hash : BlockHash) :
    hashKeyStart ≤ keyByHash hash ∧ keyByHash hash < hashKeyEnd := by
  constructor
  · exact le_append_left
  · simp only [keyByHash, hashKeyStart, hashKeyEnd, cons_append, nil_append, cons_lt_cons_iff]
    exact .inr ⟨trivial, .inl (by decide)⟩

theorem keyByHash_length (hash : BlockHash) : (keyByHash hash).length = 66 := by
  simp [keyByHash, hashKeyStart, utf8_hexLower_length]

theorem scannedEntry_keyByHash (rkyv : Rkyv) (value : Bytes) :
    scannedEntry rkyv (keyByHash hash, value) =
      (decodeMetaValue rkyv value).map fun block => (hash, block) := by
  have digits : (keyByHash hash).drop 2 = utf8 (hexLower hash.toList) := rfl
  rw [scannedEntry, if_pos ⟨keyByHash_length hash, rfl⟩, digits, decodeHex32_hexLower]
  cases decodeMetaValue rkyv value with
  | none => rfl
  | some block => rfl

theorem key_of_scannedEntry {rkyv : Rkyv} {key value : Bytes}
    (scanned : scannedEntry rkyv (key, value) = some (hash, block)) : key = keyByHash hash := by
  unfold scannedEntry at scanned
  split at scanned
  · rename_i shape
    obtain ⟨found, decoded, rest⟩ := Option.bind_eq_some_iff.mp scanned
    obtain ⟨_, _, same⟩ := Option.bind_eq_some_iff.mp rest
    cases same
    rw [keyByHash, utf8_hexLower_of_decodeHex32 decoded, ← shape.2, take_append_drop]
  · cases scanned

theorem mem_entries : (hash, block) ∈ index.entries ↔ index.readMeta hash = some block := by
  rw [entries, mem_filterMap]
  constructor
  · rintro ⟨⟨key, value⟩, member, scanned⟩
    cases key_of_scannedEntry scanned
    have stored := Std.ExtTreeMap.mem_toList_iff_getElem?_eq_some.mp (mem_of_mem_filter member)
    rw [scannedEntry_keyByHash] at scanned
    obtain ⟨found, decoded, same⟩ := Option.map_eq_some_iff.mp scanned
    cases same
    rw [readMeta, stored]
    exact decoded
  · intro read
    obtain ⟨value, stored, decoded⟩ := Option.bind_eq_some_iff.mp read
    refine ⟨(keyByHash hash, value), ?_, ?_⟩
    · rw [mem_filter]
      exact ⟨Std.ExtTreeMap.mem_toList_iff_getElem?_eq_some.mpr stored,
        by simpa using keyByHash_scanned hash⟩
    · rw [scannedEntry_keyByHash, decoded]
      rfl

end SlateDbMetadataIndex

end WombatKV
