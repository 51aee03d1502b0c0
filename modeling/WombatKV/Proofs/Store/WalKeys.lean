import WombatKV.Store.WalStore

/-! Object names are read back, and their order is total. -/

namespace WombatKV

theorem sanitizeNodeId_text (node : NodeId) : sanitizeNodeId node.text = node := by
  have same : (node.text.map fun char => if isNodeIdChar char then char else '-') = node.text := by
    refine (List.map_congr_left fun char member => ?_).trans (List.map_id _)
    simp [node.plain char member]
  have nonempty := node.nonempty
  cases node
  simp_all [sanitizeNodeId]

theorem paddedWord_separators (word : UInt64) : '/' ∉ paddedWord word ∧ '-' ∉ paddedWord word :=
  ⟨not_mem_decimal (by decide) 20 word.toNat, not_mem_decimal (by decide) 20 word.toNat⟩

theorem parseCanonicalTail_epoch (epochMs : UInt64) (filename : Text) :
    parseCanonicalTail (paddedWord epochMs ++ ('/' :: filename)) =
      (parseFilenameToParsedKey filename .canonicalEpochPartitioned).map
        fun parsed => (epochMs, parsed) := by
  have nonempty : paddedWord epochMs ≠ [] := List.ne_nil_of_length_pos (by simp)
  have digits : (paddedWord epochMs).all Char.isDigit = true := by
    simpa [List.all_eq_true] using paddedWord_isDigit epochMs
  rw [parseCanonicalTail, splitOnce_append (paddedWord_separators epochMs).1]
  simp only [Option.bind_eq_bind, Option.bind_some, nonempty, digits, not_true, or_self, if_false,
    parseWord_paddedWord]
  cases parseFilenameToParsedKey filename .canonicalEpochPartitioned <;> rfl

theorem dropPrefix?_namespace (namespacePrefix tail : Text) :
    (namespacePrefix ++ ('/' :: tail)).dropPrefix? (namespacePrefix ++ ['/']) = some tail := by
  have joined : namespacePrefix ++ ('/' :: tail) = (namespacePrefix ++ ['/']) ++ tail := by simp
  rw [joined, dropPrefix?_append_left]

theorem parseWalObjectKey_canonical (namespacePrefix : Text) (epochMs : UInt64) (filename : Text)
    {parsed : ParsedWalObjectKey}
    (named : parseFilenameToParsedKey filename .canonicalEpochPartitioned = some parsed) :
    parseWalObjectKey namespacePrefix
      (namespacePrefix ++ ('/' :: (paddedWord epochMs ++ ('/' :: filename)))) = some parsed := by
  simp [parseWalObjectKey, dropPrefix?_namespace, parseCanonicalTail_epoch, named]

theorem parseNodeSeqFilename_chunk (node : NodeId) (seq : UInt64) :
    parseNodeSeqFilename ("chunk-".toList ++
      (node.text ++ ('-' :: paddedWord seq) ++ ".bin".toList)) = some (node.text, seq) := by
  rw [parseNodeSeqFilename, dropPrefix?_append_left]
  simp only [Option.bind_eq_bind, Option.bind_some, dropSuffix?_append_right,
    rsplitOnce_append (paddedWord_separators seq).2, node.nonempty, if_false,
    parseWord_paddedWord, Option.pure_def]

theorem parseBatchSeqFilename_batch (node : NodeId) (startSeq endSeq : UInt64) :
    parseBatchSeqFilename ("batch-".toList ++
      (node.text ++ ('-' :: (paddedWord startSeq ++ ('-' :: paddedWord endSeq))) ++
        ".bin".toList)) = some (node.text, startSeq, endSeq) := by
  have last : rsplitOnce '-' (node.text ++ ('-' :: (paddedWord startSeq ++
      ('-' :: paddedWord endSeq)))) =
      some (node.text ++ ('-' :: paddedWord startSeq), paddedWord endSeq) := by
    have joined : node.text ++ ('-' :: (paddedWord startSeq ++ ('-' :: paddedWord endSeq))) =
        (node.text ++ ('-' :: paddedWord startSeq)) ++ ('-' :: paddedWord endSeq) := by simp
    rw [joined, rsplitOnce_append (paddedWord_separators endSeq).2]
  have pieces : rsplitn '-' 3 (node.text ++ ('-' :: (paddedWord startSeq ++
      ('-' :: paddedWord endSeq)))) = [paddedWord endSeq, paddedWord startSeq, node.text] := by
    simp [rsplitn, last, rsplitOnce_append (paddedWord_separators startSeq).2]
  rw [parseBatchSeqFilename, dropPrefix?_append_left]
  simp only [Option.bind_eq_bind, Option.bind_some, dropSuffix?_append_right, pieces,
    parseWord_paddedWord, node.nonempty, if_false, Option.pure_def]

theorem parseFilenameToParsedKey_chunk (node : NodeId) (seq : UInt64) (layout : WalKeyLayout) :
    parseFilenameToParsedKey ("chunk-".toList ++
        (node.text ++ ('-' :: paddedWord seq) ++ ".bin".toList)) layout =
      some ⟨layout, .single, seq, seq, node.text⟩ := by
  rw [parseFilenameToParsedKey, parseNodeSeqFilename_chunk]

theorem parseFilenameToParsedKey_batch (node : NodeId) (startSeq endSeq : UInt64)
    (layout : WalKeyLayout) :
    parseFilenameToParsedKey ("batch-".toList ++
        (node.text ++ ('-' :: (paddedWord startSeq ++ ('-' :: paddedWord endSeq))) ++
          ".bin".toList)) layout =
      some ⟨layout, .batch, startSeq, endSeq, node.text⟩ := by
  have other : parseNodeSeqFilename ("batch-".toList ++
      (node.text ++ ('-' :: (paddedWord startSeq ++ ('-' :: paddedWord endSeq))) ++
        ".bin".toList)) = none := by
    simp [parseNodeSeqFilename, List.dropPrefix?]
  rw [parseFilenameToParsedKey, other, parseBatchSeqFilename_batch]

theorem parseWalObjectKey_chunk (namespacePrefix : Text) (node : NodeId) (epochMs seq : UInt64) :
    parseWalObjectKey namespacePrefix (buildCanonicalWalKey namespacePrefix node.text epochMs seq) =
      some ⟨.canonicalEpochPartitioned, .single, seq, seq, node.text⟩ :=
  parseWalObjectKey_canonical namespacePrefix epochMs _ (parseFilenameToParsedKey_chunk node seq _)

theorem parseWalObjectKey_batch (namespacePrefix : Text) (node : NodeId)
    (epochMs startSeq endSeq : UInt64) :
    parseWalObjectKey namespacePrefix
      (buildCanonicalWalBatchKey namespacePrefix node.text epochMs startSeq endSeq) =
      some ⟨.canonicalEpochPartitioned, .batch, startSeq, endSeq, node.text⟩ :=
  parseWalObjectKey_canonical namespacePrefix epochMs _
    (parseFilenameToParsedKey_batch node startSeq endSeq _)

def walKeyRank (namespacePrefix key : Text) : Nat :=
  match parseWalObjectKey namespacePrefix key with
  | some parsed => parsed.startSeq.toNat
  | none => wordLimit

theorem compare_toNat (left right : UInt64) : compare left right = compare left.toNat right.toNat := by
  simp [compare, compareOfLessAndEq, UInt64.lt_iff_toNat_lt, ← UInt64.toNat_inj]

theorem compareWalObjectKeys_eq (namespacePrefix : Text) :
    compareWalObjectKeys namespacePrefix =
      compareLex (compareOn (walKeyRank namespacePrefix)) compare := by
  funext left right
  simp only [compareWalObjectKeys, compareLex, compareOn, walKeyRank]
  cases leftParse : parseWalObjectKey namespacePrefix left with
  | none =>
    cases rightParse : parseWalObjectKey namespacePrefix right with
    | none => simp
    | some rightParsed =>
      have below := rightParsed.startSeq.toNat_lt
      simp [Nat.compare_eq_gt.mpr below]
  | some leftParsed =>
    cases rightParse : parseWalObjectKey namespacePrefix right with
    | none =>
      have below := leftParsed.startSeq.toNat_lt
      simp [Nat.compare_eq_lt.mpr below]
    | some rightParsed => simp only [compare_toNat]

instance (namespacePrefix : Text) : Std.TransCmp (compareWalObjectKeys namespacePrefix) := by
  rw [compareWalObjectKeys_eq]
  infer_instance

instance (namespacePrefix : Text) : Std.LawfulEqCmp (compareWalObjectKeys namespacePrefix) where
  eq_of_compare {left right} same := by
    rw [compareWalObjectKeys_eq, compareLex, Ordering.then_eq_eq] at same
    exact Std.LawfulEqCmp.eq_of_compare same.2

theorem compareWalObjectKeys_lt {namespacePrefix left right : Text}
    {leftParsed rightParsed : ParsedWalObjectKey}
    (leftParse : parseWalObjectKey namespacePrefix left = some leftParsed)
    (rightParse : parseWalObjectKey namespacePrefix right = some rightParsed)
    (less : leftParsed.startSeq.toNat < rightParsed.startSeq.toNat) :
    compareWalObjectKeys namespacePrefix left right = .lt := by
  have ordered : compare (walKeyRank namespacePrefix left) (walKeyRank namespacePrefix right) =
      .lt := by
    simpa [walKeyRank, leftParse, rightParse] using Nat.compare_eq_lt.mpr less
  rw [compareWalObjectKeys_eq, compareLex, compareOn, ordered, Ordering.lt_then]

theorem NodeId.text_injective : Function.Injective NodeId.text := by
  intro left right same
  cases left
  cases right
  cases same
  rfl

inductive WalObjectName
  | single (node : NodeId) (epochMs seq : UInt64)
  | batch (node : NodeId) (epochMs startSeq endSeq : UInt64)

namespace WalObjectName

def key (namespacePrefix : Text) : WalObjectName → Text
  | single node epochMs seq => buildCanonicalWalKey namespacePrefix node.text epochMs seq
  | batch node epochMs startSeq endSeq =>
    buildCanonicalWalBatchKey namespacePrefix node.text epochMs startSeq endSeq

def epochMs : WalObjectName → UInt64
  | single _ epochMs _ => epochMs
  | batch _ epochMs _ _ => epochMs

def parsed : WalObjectName → ParsedWalObjectKey
  | single node _ seq => ⟨.canonicalEpochPartitioned, .single, seq, seq, node.text⟩
  | batch node _ startSeq endSeq =>
    ⟨.canonicalEpochPartitioned, .batch, startSeq, endSeq, node.text⟩

theorem key_eq (namespacePrefix : Text) (name : WalObjectName) :
    ∃ filename, name.key namespacePrefix =
        namespacePrefix ++ ('/' :: (paddedWord name.epochMs ++ ('/' :: filename))) ∧
      parseFilenameToParsedKey filename .canonicalEpochPartitioned = some name.parsed := by
  cases name with
  | single node epochMs seq => exact ⟨_, rfl, parseFilenameToParsedKey_chunk node seq _⟩
  | batch node epochMs startSeq endSeq =>
    exact ⟨_, rfl, parseFilenameToParsedKey_batch node startSeq endSeq _⟩

theorem parseWalObjectKey_key (namespacePrefix : Text) (name : WalObjectName) :
    parseWalObjectKey namespacePrefix (name.key namespacePrefix) = some name.parsed := by
  obtain ⟨filename, keyed, parses⟩ := key_eq namespacePrefix name
  rw [keyed]
  exact parseWalObjectKey_canonical namespacePrefix name.epochMs filename parses

theorem epochMs_eq_of_key {namespacePrefix : Text} {left right : WalObjectName}
    (same : left.key namespacePrefix = right.key namespacePrefix) :
    left.epochMs = right.epochMs := by
  obtain ⟨leftName, leftKey, -⟩ := key_eq namespacePrefix left
  obtain ⟨rightName, rightKey, -⟩ := key_eq namespacePrefix right
  rw [leftKey, rightKey] at same
  have tails := (List.cons.inj (List.append_cancel_left same)).2
  have padded := (List.append_inj tails (by simp)).1
  have words := congrArg parseWord padded
  rw [parseWord_paddedWord, parseWord_paddedWord] at words
  exact Option.some.inj words

theorem key_injective (namespacePrefix : Text) : Function.Injective (key namespacePrefix) := by
  intro left right same
  have epochs := epochMs_eq_of_key same
  have reads := congrArg (parseWalObjectKey namespacePrefix) same
  rw [parseWalObjectKey_key, parseWalObjectKey_key, Option.some.injEq] at reads
  cases left with
  | single node epochMs seq =>
    cases right with
    | single other otherEpoch otherSeq =>
      simp only [parsed, ParsedWalObjectKey.mk.injEq, true_and] at reads
      obtain ⟨rfl, -, text⟩ := reads
      rw [NodeId.text_injective text, show epochMs = otherEpoch from epochs]
    | batch other otherEpoch startSeq endSeq => simp [parsed] at reads
  | batch node epochMs startSeq endSeq =>
    cases right with
    | single other otherEpoch otherSeq => simp [parsed] at reads
    | batch other otherEpoch otherStart otherEnd =>
      simp only [parsed, ParsedWalObjectKey.mk.injEq, true_and] at reads
      obtain ⟨rfl, rfl, text⟩ := reads
      rw [NodeId.text_injective text, show epochMs = otherEpoch from epochs]

end WalObjectName

/-- Canonical names read back as what they were built from, different ones are different texts,
and the order of names is total. -/
theorem wal_names_parse_back (namespacePrefix : Text) :
    (∀ (nodeId : Text) (epochMs seq : UInt64),
      parseWalObjectKey namespacePrefix
          (buildCanonicalWalKey namespacePrefix (sanitizeNodeId nodeId).text epochMs seq) =
        some ⟨.canonicalEpochPartitioned, .single, seq, seq, (sanitizeNodeId nodeId).text⟩) ∧
    (∀ (nodeId : Text) (epochMs startSeq endSeq : UInt64),
      parseWalObjectKey namespacePrefix
          (buildCanonicalWalBatchKey namespacePrefix (sanitizeNodeId nodeId).text epochMs startSeq
            endSeq) =
        some ⟨.canonicalEpochPartitioned, .batch, startSeq, endSeq,
          (sanitizeNodeId nodeId).text⟩) ∧
    Function.Injective (WalObjectName.key namespacePrefix) ∧
    (∀ left right : Text, compareWalObjectKeys namespacePrefix left right = .eq ↔ left = right) ∧
    (∀ left right : Text, compareWalObjectKeys namespacePrefix right left =
      (compareWalObjectKeys namespacePrefix left right).swap) ∧
    (∀ left middle right : Text,
      (compareWalObjectKeys namespacePrefix left middle).isLE = true →
      (compareWalObjectKeys namespacePrefix middle right).isLE = true →
        (compareWalObjectKeys namespacePrefix left right).isLE = true) ∧
    ∀ left right : Text, (compareWalObjectKeys namespacePrefix left right).isLE = true ∨
      (compareWalObjectKeys namespacePrefix right left).isLE = true := by
  refine ⟨fun nodeId => parseWalObjectKey_chunk namespacePrefix (sanitizeNodeId nodeId),
    fun nodeId => parseWalObjectKey_batch namespacePrefix (sanitizeNodeId nodeId),
    WalObjectName.key_injective namespacePrefix, ?_, ?_, ?_, ?_⟩
  · exact fun left right => Std.LawfulEqCmp.compare_eq_iff_eq
  · exact fun left right => Std.OrientedCmp.eq_swap
  · exact fun left middle right => Std.TransCmp.isLE_trans
  · intro left right
    have swapped : compareWalObjectKeys namespacePrefix right left =
        (compareWalObjectKeys namespacePrefix left right).swap := Std.OrientedCmp.eq_swap
    rw [swapped]
    cases compareWalObjectKeys namespacePrefix left right
    · exact .inl rfl
    · exact .inl rfl
    · exact .inr rfl

theorem wal_names_parse_back_dashes :
    parseWalObjectKey ['w'] (buildCanonicalWalKey ['w'] (sanitizeNodeId "a_0-1".toList).text 5 2) =
        some ⟨.canonicalEpochPartitioned, .single, 2, 2, "a-0-1".toList⟩ ∧
      (compareWalObjectKeys ['w'] "w/chunk-1.bin".toList "w/chunk-2.bin".toList).isLE = true ∧
      (compareWalObjectKeys ['w'] "w/chunk-2.bin".toList "w/other".toList).isLE = true ∧
      (compareWalObjectKeys ['w'] "w/chunk-1.bin".toList "w/other".toList).isLE = true := by
  have first : (compareWalObjectKeys ['w'] "w/chunk-1.bin".toList "w/chunk-2.bin".toList).isLE =
      true := by decide +kernel
  have second : (compareWalObjectKeys ['w'] "w/chunk-2.bin".toList "w/other".toList).isLE =
      true := by decide +kernel
  obtain ⟨chunk, -, -, -, -, trans, -⟩ := wal_names_parse_back ['w']
  have node : (sanitizeNodeId "a_0-1".toList).text = "a-0-1".toList := by decide +kernel
  have reads := chunk "a_0-1".toList 5 2
  rw [node] at reads
  rw [node]
  exact ⟨reads, first, second, trans _ _ _ first second⟩

end WombatKV
