import WombatKV.Core.Metadata

/-! Which lists of delta facts replay the same in any order. -/

namespace WombatKV

open List

section

def digestClash (winner delta : DeltaFactV1) : Option DeltaConflictRow :=
  if winner.payloadDigest = delta.payloadDigest then none else some (conflictRow winner delta)

def saturated (count : Nat) : Nat := min count (wordLimit - 1)

theorem saturatingPlus_saturated (count : Nat) :
    saturatingPlus (saturated count) 1 = saturated (count + 1) := by
  unfold saturatingPlus saturated
  omega

def replayed (ordered : List DeltaFactV1) : DeltaReplay :=
  ordered.foldl replayDelta ⟨∅, ⟨0, 0, 0, []⟩⟩

theorem replayed_append (ordered : List DeltaFactV1) (delta : DeltaFactV1) :
    replayed (ordered ++ [delta]) = replayDelta (replayed ordered) delta := by
  rw [replayed, foldl_append]
  rfl

structure ReplayOf (ordered : List DeltaFactV1) (replay : DeltaReplay) : Prop where
  winners : ∀ key, replay.winners[key]? = firstOf DeltaFactV1.logicalKey ordered key
  rows : replay.stats.conflictRows = clashes DeltaFactV1.logicalKey digestClash ordered
  conflict : replay.stats.duplicatesConflict = saturated replay.stats.conflictRows.length
  idempotent : ∃ count, replay.stats.duplicatesIdempotent = saturated count ∧
    replay.winners.size + replay.stats.conflictRows.length + count = ordered.length

variable {delta : DeltaFactV1} {deltas : List DeltaFactV1}

theorem ReplayOf.vacant {ordered : List DeltaFactV1} {replay : DeltaReplay}
    (holds : ReplayOf ordered replay) (none : replay.winners[delta.logicalKey]? = none) :
    ReplayOf (ordered ++ [delta])
      { replay with winners := replay.winners.insert delta.logicalKey delta } := by
  have absent := none
  rw [holds.winners] at absent
  constructor
  · intro key
    rw [firstOf_append, ← holds.winners]
    simp only [Std.ExtTreeMap.getElem?_insert, Std.LawfulEqCmp.compare_eq_iff_eq]
    by_cases named : delta.logicalKey = key
    · rw [if_pos named, if_pos named, ← named, none]
      rfl
    · rw [if_neg named, if_neg named, Option.or_none]
  · -- The winner of a key does not clash with itself.
    have won : firstOf DeltaFactV1.logicalKey (ordered ++ [delta]) delta.logicalKey =
        some delta := by
      rw [firstOf_append, absent, if_pos rfl]
      rfl
    rw [clashes_append, won, ← holds.rows]
    simp [digestClash]
  · exact holds.conflict
  · obtain ⟨count, counted, total⟩ := holds.idempotent
    refine ⟨count, counted, ?_⟩
    have fresh : replay.winners.contains delta.logicalKey = false := by
      rw [Std.ExtTreeMap.contains_eq_isSome_getElem?, none]
      rfl
    have grown : (replay.winners.insert delta.logicalKey delta).size = replay.winners.size + 1 := by
      rw [Std.ExtTreeMap.size_insert, fresh]
      rfl
    rw [length_append, length_singleton]
    simp only [grown]
    omega

theorem ReplayOf.occupied {ordered : List DeltaFactV1} {replay : DeltaReplay}
    (holds : ReplayOf ordered replay) {winner : DeltaFactV1}
    (won : replay.winners[delta.logicalKey]? = some winner) (key : DeltaLogicalKey) :
    firstOf DeltaFactV1.logicalKey (ordered ++ [delta]) key =
      firstOf DeltaFactV1.logicalKey ordered key := by
  rw [firstOf_append]
  by_cases named : delta.logicalKey = key
  · rw [← named, ← holds.winners, won]
    rfl
  · rw [if_neg named, Option.or_none]

theorem ReplayOf.step {ordered : List DeltaFactV1} {replay : DeltaReplay}
    (holds : ReplayOf ordered replay) (delta : DeltaFactV1) :
    ReplayOf (ordered ++ [delta]) (replayDelta replay delta) := by
  unfold replayDelta
  cases won : replay.winners[delta.logicalKey]? with
  | none => exact holds.vacant won
  | some winner =>
    have kept := holds.occupied won
    have added : clashes DeltaFactV1.logicalKey digestClash (ordered ++ [delta]) =
        replay.stats.conflictRows ++ (digestClash winner delta).toList := by
      rw [clashes_append, kept, ← holds.winners, won, holds.rows]
      rfl
    obtain ⟨count, counted, total⟩ := holds.idempotent
    by_cases same : winner.payloadDigest = delta.payloadDigest
    · -- The same digest again.
      have silent : digestClash winner delta = none := if_pos same
      simp only [if_pos same]
      refine ⟨fun key => (holds.winners key).trans (kept key).symm, ?_, holds.conflict,
        count + 1, ?_, ?_⟩
      · rw [added, silent]
        simp
      · rw [counted, saturatingPlus_saturated]
      · simp only [length_append, length_singleton]
        omega
    · -- Another digest.
      have noted : digestClash winner delta = some (conflictRow winner delta) := if_neg same
      simp only [if_neg same]
      refine ⟨fun key => (holds.winners key).trans (kept key).symm, ?_, ?_, count, counted, ?_⟩
      · rw [added, noted]
        rfl
      · rw [holds.conflict, saturatingPlus_saturated, length_append, length_singleton]
      · simp only [length_append, length_singleton]
        omega

theorem replayed_spec (ordered : List DeltaFactV1) : ReplayOf ordered (replayed ordered) := by
  induction ordered using List.reverseRecOn with
  | nil => exact ⟨fun key => by simp [replayed, firstOf], rfl, rfl, 0, rfl, rfl⟩
  | append_singleton before delta ih =>
    rw [replayed_append]
    exact ih.step delta

def DeltaReplay.outcome (replay : DeltaReplay) : DeltaReplayOutcome where
  winners := replay.winners.toList.map Prod.snd
  stats :=
    { winners := (replay.winners.toList.map Prod.snd).length
      duplicatesIdempotent := replay.stats.duplicatesIdempotent
      duplicatesConflict := replay.stats.duplicatesConflict
      conflictRows := replay.stats.conflictRows }

theorem replayDeltaFacts_eq (deltas : List DeltaFactV1) :
    replayDeltaFactsWithObservability deltas =
      (replayed (sortBy compareDeltas deltas)).outcome := rfl

theorem mem_winners {fact : DeltaFactV1} :
    fact ∈ (replayDeltaFactsWithObservability deltas).winners ↔
      firstOf DeltaFactV1.logicalKey (sortBy compareDeltas deltas) fact.logicalKey = some fact := by
  have spec := replayed_spec (sortBy compareDeltas deltas)
  rw [replayDeltaFacts_eq, DeltaReplay.outcome, mem_map]
  constructor
  · rintro ⟨⟨key, found⟩, member, rfl⟩
    have stored := Std.ExtTreeMap.mem_toList_iff_getElem?_eq_some.mp member
    rw [spec.winners] at stored
    rw [(firstOf_eq_some stored).2]
    exact stored
  · intro first
    rw [← spec.winners] at first
    exact ⟨(fact.logicalKey, fact), Std.ExtTreeMap.mem_toList_iff_getElem?_eq_some.mpr first, rfl⟩

theorem replay_eq_iff {other : List DeltaFactV1} (same : other.Perm deltas) :
    replayDeltaFactsWithObservability other = replayDeltaFactsWithObservability deltas ↔
      (∀ key, firstOf DeltaFactV1.logicalKey (sortBy compareDeltas other) key =
        firstOf DeltaFactV1.logicalKey (sortBy compareDeltas deltas) key) ∧
      clashes DeltaFactV1.logicalKey digestClash (sortBy compareDeltas other) =
        clashes DeltaFactV1.logicalKey digestClash (sortBy compareDeltas deltas) := by
  have left := replayed_spec (sortBy compareDeltas other)
  have right := replayed_spec (sortBy compareDeltas deltas)
  constructor
  · intro equal
    have winners := congrArg DeltaReplayOutcome.winners equal
    have rows := congrArg (fun outcome => outcome.stats.conflictRows) equal
    refine ⟨?_, left.rows.symm.trans (rows.trans right.rows)⟩
    intro key
    cases found : firstOf DeltaFactV1.logicalKey (sortBy compareDeltas other) key with
    | none =>
      refine (firstOf_eq_none.mpr fun fact member => ?_).symm
      rw [mem_sortBy] at member
      exact firstOf_eq_none.mp found fact
        ((mem_sortBy compareDeltas).mpr (same.mem_iff.mpr member))
    | some fact =>
      have named := (firstOf_eq_some found).2
      have won : fact ∈ (replayDeltaFactsWithObservability other).winners := by
        rw [mem_winners, named]
        exact found
      rw [winners, mem_winners, named] at won
      exact won.symm
  · rintro ⟨firsts, clashes⟩
    have maps : (replayed (sortBy compareDeltas other)).winners =
        (replayed (sortBy compareDeltas deltas)).winners := by
      apply Std.ExtTreeMap.ext_getElem?
      intro key
      rw [left.winners, right.winners, firsts]
    have rows : (replayed (sortBy compareDeltas other)).stats.conflictRows =
        (replayed (sortBy compareDeltas deltas)).stats.conflictRows := by
      rw [left.rows, right.rows, clashes]
    have conflicts : (replayed (sortBy compareDeltas other)).stats.duplicatesConflict =
        (replayed (sortBy compareDeltas deltas)).stats.duplicatesConflict := by
      rw [left.conflict, right.conflict, rows]
    have idempotents : (replayed (sortBy compareDeltas other)).stats.duplicatesIdempotent =
        (replayed (sortBy compareDeltas deltas)).stats.duplicatesIdempotent := by
      obtain ⟨count, counted, total⟩ := left.idempotent
      obtain ⟨others, otherCounted, otherTotal⟩ := right.idempotent
      have lengths : (sortBy compareDeltas other).length = (sortBy compareDeltas deltas).length :=
        ((sortBy_perm compareDeltas other).trans
          (same.trans (sortBy_perm compareDeltas deltas).symm)).length_eq
      rw [maps, rows] at total
      have equal : count = others := by omega
      rw [counted, otherCounted, equal]
    rw [replayDeltaFacts_eq, replayDeltaFacts_eq, DeltaReplay.outcome, DeltaReplay.outcome, maps,
      rows, conflicts, idempotents]

def LosesTo (deltas : List DeltaFactV1) (fact winner : DeltaFactV1) : Prop :=
  LeadsKey DeltaFactV1.logicalKey compareDeltas deltas winner ∧
    winner.logicalKey = fact.logicalKey ∧ winner.payloadDigest ≠ fact.payloadDigest

structure TiesAgree (deltas : List DeltaFactV1) : Prop where
  leaders : ∀ first second, LeadsKey DeltaFactV1.logicalKey compareDeltas deltas first →
    LeadsKey DeltaFactV1.logicalKey compareDeltas deltas second →
    first.logicalKey = second.logicalKey → first = second
  losers : ∀ first ∈ deltas, ∀ second ∈ deltas, compareDeltas first second = .eq →
    (∃ winner, LosesTo deltas first winner) → (∃ winner, LosesTo deltas second winner) →
    first.logicalKey = second.logicalKey ∧ first.payloadDigest = second.payloadDigest

theorem compareDeltas_eq {first second : DeltaFactV1} (tied : compareDeltas first second = .eq) :
    first.epochMs = second.epochMs ∧ first.seq = second.seq ∧ first.writeId = second.writeId := by
  simpa only [compareDeltas, compareLex, compareOn, Ordering.then_eq_eq,
    Std.LawfulEqCmp.compare_eq_iff_eq] using tied

theorem digestClash_eq_some {winner : DeltaFactV1} {row : DeltaConflictRow} :
    digestClash winner delta = some row ↔
      winner.payloadDigest ≠ delta.payloadDigest ∧ conflictRow winner delta = row := by
  unfold digestClash
  split
  · simp_all
  · simp_all

theorem tiesAgree_iff_orderFree :
    TiesAgree deltas ↔ OrderFree DeltaFactV1.logicalKey compareDeltas digestClash deltas := by
  constructor
  · intro agree
    refine ⟨agree.leaders, ?_⟩
    intro first firsts second seconds tied leader otherLeader row otherRow leads named clashed
      otherLeads otherNamed otherClashed
    obtain ⟨differs, rfl⟩ := digestClash_eq_some.mp clashed
    obtain ⟨otherDiffers, rfl⟩ := digestClash_eq_some.mp otherClashed
    obtain ⟨keys, digests⟩ := agree.losers first firsts second seconds tied
      ⟨leader, leads, named, differs⟩ ⟨otherLeader, otherLeads, otherNamed, otherDiffers⟩
    obtain ⟨epoch, seq, write⟩ := compareDeltas_eq tied
    have one := agree.leaders leader otherLeader leads otherLeads
      (named.trans (keys.trans otherNamed.symm))
    simp only [DeltaFactV1.logicalKey, Prod.mk.injEq] at keys
    simp only [conflictRow, one, epoch, seq, write, digests, keys]
  · intro free
    refine ⟨free.leader, ?_⟩
    rintro first firsts second seconds tied ⟨leader, leads, named, differs⟩
      ⟨otherLeader, otherLeads, otherNamed, otherDiffers⟩
    have rows := free.clash first firsts second seconds tied leader otherLeader _ _ leads named
      (digestClash_eq_some.mpr ⟨differs, rfl⟩) otherLeads otherNamed
      (digestClash_eq_some.mpr ⟨otherDiffers, rfl⟩)
    simp only [conflictRow, DeltaConflictRow.mk.injEq] at rows
    obtain ⟨tenant, fingerprint, hash, -, digest, -⟩ := rows
    exact ⟨by simp only [DeltaFactV1.logicalKey, tenant, fingerprint, hash], digest⟩

/-- Replay gives the same outcome in every order of the facts exactly when ties agree. -/
theorem delta_replay_ignores_order (deltas : List DeltaFactV1) :
    (∀ other, other.Perm deltas →
      replayDeltaFactsWithObservability other = replayDeltaFactsWithObservability deltas) ↔
    TiesAgree deltas := by
  rw [tiesAgree_iff_orderFree]
  constructor
  · intro equal
    exact orderFree_of_same fun other moved => (replay_eq_iff moved).mp (equal other moved)
  · intro free other moved
    have arranged := (sortBy_perm compareDeltas other).trans moved
    have given := sortBy_perm compareDeltas deltas
    have sorted := sortBy_pairwise compareDeltas other
    have givenSorted := sortBy_pairwise compareDeltas deltas
    exact (replay_eq_iff moved).mpr ⟨free.firstOf_eq arranged given sorted givenSorted,
      free.clashes_eq arranged given sorted givenSorted⟩

def factWithDigest (digest : Text) : DeltaFactV1 :=
  ⟨1, 1, 1, ['t'], ['f'], ['p'], digest, ['w']⟩

theorem tied_facts_replay_differently :
    [factWithDigest ['a'], factWithDigest ['b']].Perm
        [factWithDigest ['b'], factWithDigest ['a']] ∧
      (replayDeltaFactsWithObservability [factWithDigest ['a'], factWithDigest ['b']]).winners =
        [factWithDigest ['a']] ∧
      (replayDeltaFactsWithObservability [factWithDigest ['b'], factWithDigest ['a']]).winners =
        [factWithDigest ['b']] :=
  ⟨List.Perm.swap _ _ _, by decide +kernel, by decide +kernel⟩

end

section

def DeltaFactV1.stamp (fact : DeltaFactV1) : UInt64 × UInt64 × Text :=
  (fact.epochMs, fact.seq, fact.writeId)

variable {deltas : List DeltaFactV1}

theorem eq_of_compareDeltas_eq (stamped : (deltas.map DeltaFactV1.stamp).Nodup) :
    ∀ first ∈ deltas, ∀ second ∈ deltas, compareDeltas first second = .eq → first = second := by
  intro first firsts second seconds tied
  obtain ⟨epoch, seq, write⟩ := compareDeltas_eq tied
  apply inj_on_of_nodup_map stamped firsts seconds
  simp only [DeltaFactV1.stamp, epoch, seq, write]

theorem mem_winners_iff_leadsKey (stamped : (deltas.map DeltaFactV1.stamp).Nodup)
    (fact : DeltaFactV1) :
    fact ∈ replayDeltaFactsDeterministic deltas ↔
      LeadsKey DeltaFactV1.logicalKey compareDeltas deltas fact := by
  rw [replayDeltaFactsDeterministic, mem_winners,
    firstOf_sortBy_eq_some (eq_of_compareDeltas_eq stamped)]
  exact and_iff_left rfl

theorem mem_of_mem_winners {fact : DeltaFactV1} (won : fact ∈ replayDeltaFactsDeterministic deltas)
    : fact ∈ deltas :=
  (mem_sortBy compareDeltas).mp (firstOf_eq_some (mem_winners.mp won)).1

theorem logicalKey_inj_of_winners {first second : DeltaFactV1}
    (won : first ∈ replayDeltaFactsDeterministic deltas)
    (also : second ∈ replayDeltaFactsDeterministic deltas)
    (same : first.logicalKey = second.logicalKey) : first = second := by
  have found := mem_winners.mp won
  rw [same, mem_winners.mp also] at found
  exact (Option.some.inj found).symm

theorem firstOf_winners (deltas : List DeltaFactV1) (key : DeltaLogicalKey) :
    firstOf DeltaFactV1.logicalKey (replayDeltaFactsDeterministic deltas) key =
      firstOf DeltaFactV1.logicalKey (sortBy compareDeltas deltas) key := by
  cases found : firstOf DeltaFactV1.logicalKey (sortBy compareDeltas deltas) key with
  | none =>
    refine firstOf_eq_none.mpr fun fact won => ?_
    exact firstOf_eq_none.mp found fact (firstOf_eq_some (mem_winners.mp won)).1
  | some winner =>
    obtain ⟨-, rfl⟩ := firstOf_eq_some found
    have won : winner ∈ replayDeltaFactsDeterministic deltas := mem_winners.mpr found
    cases met : firstOf DeltaFactV1.logicalKey (replayDeltaFactsDeterministic deltas)
        winner.logicalKey with
    | none => exact absurd rfl (firstOf_eq_none.mp met winner won)
    | some other =>
      obtain ⟨also, named⟩ := firstOf_eq_some met
      rw [logicalKey_inj_of_winners also won named]

theorem winners_eq_of_firstOf {other : List DeltaFactV1}
    (firsts : ∀ key, firstOf DeltaFactV1.logicalKey (sortBy compareDeltas deltas) key = firstOf
      DeltaFactV1.logicalKey (sortBy compareDeltas other) key) :
    replayDeltaFactsDeterministic deltas = replayDeltaFactsDeterministic other := by
  have maps : (replayed (sortBy compareDeltas deltas)).winners =
      (replayed (sortBy compareDeltas other)).winners := by
    apply Std.ExtTreeMap.ext_getElem?
    intro key
    rw [(replayed_spec _).winners, (replayed_spec _).winners, firsts]
  rw [replayDeltaFactsDeterministic, replayDeltaFactsDeterministic, replayDeltaFacts_eq,
    replayDeltaFacts_eq, DeltaReplay.outcome, DeltaReplay.outcome, maps]

theorem replay_winners_append {older newer : List DeltaFactV1}
    (stamped : ((older ++ newer).map DeltaFactV1.stamp).Nodup) :
    replayDeltaFactsDeterministic (replayDeltaFactsDeterministic older ++ newer) =
      replayDeltaFactsDeterministic (older ++ newer) := by
  have olderStamped : (older.map DeltaFactV1.stamp).Nodup := by
    rw [map_append] at stamped
    exact stamped.of_append_left
  have apart := eq_of_compareDeltas_eq stamped
  have keptApart : ∀ first ∈ replayDeltaFactsDeterministic older ++ newer,
      ∀ second ∈ replayDeltaFactsDeterministic older ++ newer,
        compareDeltas first second = .eq → first = second := by
    intro first firsts second seconds
    have inside {fact : DeltaFactV1}
        (member : fact ∈ replayDeltaFactsDeterministic older ++ newer) :
        fact ∈ older ++ newer := by
      rcases mem_append.mp member with early | late
      · exact mem_append_left newer (mem_of_mem_winners early)
      · exact mem_append_right older late
    exact apart first (inside firsts) second (inside seconds)
  apply winners_eq_of_firstOf
  intro key
  apply Option.ext
  intro fact
  rw [firstOf_sortBy_eq_some keptApart, firstOf_sortBy_eq_some apart,
    leadsKey_compacted (mem_winners_iff_leadsKey olderStamped)]

structure Accounts (deltas : List DeltaFactV1) (outcome : DeltaReplayOutcome) : Prop where
  winners : outcome.stats.winners = outcome.winners.length
  total : outcome.stats.winners + outcome.stats.duplicatesIdempotent +
    outcome.stats.duplicatesConflict = deltas.length
  conflicts : outcome.stats.conflictRows.length = outcome.stats.duplicatesConflict
  rows : outcome.stats.conflictRows = (sortBy compareDeltas deltas).filterMap fun delta =>
    (firstOf DeltaFactV1.logicalKey outcome.winners delta.logicalKey).bind (digestClash · delta)
  named : ∀ row ∈ outcome.stats.conflictRows, ∃ winner ∈ outcome.winners, ∃ loser ∈ deltas,
    winner.logicalKey = loser.logicalKey ∧ winner.payloadDigest ≠ loser.payloadDigest ∧
      row = conflictRow winner loser

theorem replay_accounts (addressable : deltas.length < wordLimit) :
    Accounts deltas (replayDeltaFactsWithObservability deltas) := by
  have spec := replayed_spec (sortBy compareDeltas deltas)
  have length : (sortBy compareDeltas deltas).length = deltas.length :=
    (sortBy_perm compareDeltas deltas).length_eq
  have size : ((replayed (sortBy compareDeltas deltas)).winners.toList.map Prod.snd).length =
      (replayed (sortBy compareDeltas deltas)).winners.size := by
    rw [length_map, Std.ExtTreeMap.length_toList]
  obtain ⟨count, counted, total⟩ := spec.idempotent
  have idempotent : saturated count = count := by
    unfold saturated
    omega
  have conflict : saturated (replayed (sortBy compareDeltas deltas)).stats.conflictRows.length =
      (replayed (sortBy compareDeltas deltas)).stats.conflictRows.length := by
    unfold saturated
    omega
  have rows : (replayDeltaFactsWithObservability deltas).stats.conflictRows =
      (sortBy compareDeltas deltas).filterMap fun delta =>
        (firstOf DeltaFactV1.logicalKey (replayDeltaFactsWithObservability deltas).winners
          delta.logicalKey).bind (digestClash · delta) := by
    have winners := firstOf_winners deltas
    rw [replayDeltaFactsDeterministic] at winners
    simp only [winners]
    exact spec.rows
  constructor
  · rfl
  · rw [replayDeltaFacts_eq, DeltaReplay.outcome]
    simp only
    rw [size, counted, spec.conflict, idempotent, conflict]
    omega
  · rw [replayDeltaFacts_eq, DeltaReplay.outcome]
    simp only
    rw [spec.conflict, conflict]
  · exact rows
  · intro row member
    rw [rows, mem_filterMap] at member
    obtain ⟨loser, sorted, noted⟩ := member
    obtain ⟨winner, found, clashed⟩ := Option.bind_eq_some_iff.mp noted
    obtain ⟨won, same⟩ := firstOf_eq_some found
    obtain ⟨differs, rfl⟩ := digestClash_eq_some.mp clashed
    exact ⟨winner, won, loser, (mem_sortBy compareDeltas).mp sorted, same, differs, rfl⟩

/-- Replay composes: losing facts may be left out of a log before others are appended, and the
outcome accounts for every fact of a list. -/
theorem delta_replay_composes :
    (∀ older newer : List DeltaFactV1, ((older ++ newer).map DeltaFactV1.stamp).Nodup →
      replayDeltaFactsDeterministic (replayDeltaFactsDeterministic older ++ newer) =
        replayDeltaFactsDeterministic (older ++ newer)) ∧
    ∀ deltas : List DeltaFactV1, deltas.length < wordLimit →
      Accounts deltas (replayDeltaFactsWithObservability deltas) :=
  ⟨fun _ _ stamped => replay_winners_append stamped, fun _ addressable =>
    replay_accounts addressable⟩

def factAtEpoch (epochMs : UInt64) (digest : Text) : DeltaFactV1 :=
  { factWithDigest digest with epochMs }

theorem delta_replay_composes_thrice :
    replayDeltaFactsDeterministic [factAtEpoch 3 ['a'], factAtEpoch 2 ['b']] =
        [factAtEpoch 2 ['b']] ∧
      replayDeltaFactsDeterministic
          (replayDeltaFactsDeterministic [factAtEpoch 3 ['a'], factAtEpoch 2 ['b']] ++
            [factAtEpoch 1 ['c']]) =
        replayDeltaFactsDeterministic
          ([factAtEpoch 3 ['a'], factAtEpoch 2 ['b']] ++ [factAtEpoch 1 ['c']]) ∧
      Accounts [factAtEpoch 3 ['a'], factAtEpoch 2 ['b']]
        (replayDeltaFactsWithObservability [factAtEpoch 3 ['a'], factAtEpoch 2 ['b']]) :=
  ⟨by decide +kernel, delta_replay_composes.1 _ _ (by decide), delta_replay_composes.2 _ (by decide)⟩

end

theorem firstOf_eq_head? {deltas : List DeltaFactV1} {key : DeltaLogicalKey}
    (shared : ∀ fact ∈ deltas, fact.logicalKey = key) :
    firstOf DeltaFactV1.logicalKey deltas key = deltas.head? := by
  cases deltas with
  | nil => rfl
  | cons first rest =>
    have named := shared first mem_cons_self
    simp [firstOf, named]

theorem winners_eq_singleton {deltas : List DeltaFactV1} {key : DeltaLogicalKey}
    (shared : ∀ fact ∈ deltas, fact.logicalKey = key) (fact : DeltaFactV1) :
    (replayDeltaFactsWithObservability deltas).winners = [fact] ↔
      minBy compareDeltas deltas = some fact := by
  have sorted : ∀ fact ∈ sortBy compareDeltas deltas, fact.logicalKey = key :=
    fun fact member => shared fact ((mem_sortBy compareDeltas).mp member)
  rw [← head?_sortBy, ← firstOf_eq_head? sorted]
  constructor
  · intro alone
    have won : fact ∈ (replayDeltaFactsWithObservability deltas).winners := by
      rw [alone]
      exact mem_singleton.mpr rfl
    have first := mem_winners.mp won
    rwa [sorted fact (firstOf_eq_some first).1] at first
  · intro first
    have spec := replayed_spec (sortBy compareDeltas deltas)
    have single : (replayed (sortBy compareDeltas deltas)).winners =
        (∅ : Std.ExtTreeMap DeltaLogicalKey DeltaFactV1 compareLogicalKeys).insert key fact := by
      apply Std.ExtTreeMap.ext_getElem?
      intro other
      rw [spec.winners]
      simp only [Std.ExtTreeMap.getElem?_insert, Std.LawfulEqCmp.compare_eq_iff_eq]
      by_cases same : key = other
      · rw [if_pos same, ← same, first]
      · rw [if_neg same, Std.ExtTreeMap.getElem?_empty, firstOf_eq_none]
        intro fact member named
        exact same ((sorted fact member).symm.trans named)
    rw [replayDeltaFacts_eq, DeltaReplay.outcome, single]
    rfl

theorem picked_eq_minBy (facts : List SizedFact) :
    SizedFact.picked facts = minBy (fun left right => compareFacts left.ref right.ref) facts := by
  have chosen := minBy_map (fun left right : FactRef × Nat => compareFacts left.1 right.1)
    (Prod.map SizedFact.ref id) facts.zipIdx
  have plain := minBy_map (fun left right => compareFacts left.ref right.ref)
    (Prod.fst : SizedFact × Nat → SizedFact) facts.zipIdx
  rw [zipIdx_map_fst] at plain
  rw [SizedFact.picked, pickWinner, zipIdx_map, chosen, plain]
  simp only [Prod.map_fst]
  cases found : minBy (fun left right : SizedFact × Nat =>
      compareFacts left.1.ref right.1.ref) facts.zipIdx with
  | none => rfl
  | some entry =>
    have placed := mem_zipIdx_iff_getElem?.mp (mem_of_minBy _ found)
    exact placed

def compareByWriteId : DeltaFactV1 → DeltaFactV1 → Ordering :=
  compareLex (compareOn DeltaFactV1.epochMs) (compareOn DeltaFactV1.writeId)

instance transCmpByWriteId : Std.TransCmp compareByWriteId := by
  unfold compareByWriteId
  infer_instance

theorem compareFacts_ref (left right : SizedFact) :
    compareFacts left.ref right.ref = compareByWriteId left.fact right.fact := by
  simp only [compareFacts, compareByWriteId, compareLex, compareOn, SizedFact.ref, compare_utf8]

theorem picked_map_fact (facts : List SizedFact) :
    (SizedFact.picked facts).map SizedFact.fact =
      minBy compareByWriteId (facts.map SizedFact.fact) := by
  rw [picked_eq_minBy, minBy_map]
  simp only [compareFacts_ref]

def DeltaFactV1.Precedes (fact other : DeltaFactV1) : Prop :=
  fact.epochMs < other.epochMs ∨
    fact.epochMs = other.epochMs ∧ fact.seq ≤ other.seq ∧
      (compare fact.writeId other.writeId).isLE = true

theorem precedes_iff {fact other : DeltaFactV1} :
    fact.Precedes other ↔ (compareByWriteId fact other).isLE = true ∧
      (compareDeltas fact other).isLE = true := by
  simp only [DeltaFactV1.Precedes, compareByWriteId, compareDeltas, compareLex, compareOn,
    Ordering.isLE_then_iff_or, Std.compare_eq_lt, Std.LawfulEqCmp.compare_eq_iff_eq]
  have split : fact.seq ≤ other.seq ↔ fact.seq < other.seq ∨ fact.seq = other.seq := by
    rw [UInt64.le_iff_toNat_le, UInt64.lt_iff_toNat_lt, ← UInt64.toNat_inj]
    omega
  rw [split]
  tauto

def Undisputed (deltas : List DeltaFactV1) : Prop :=
  ∃ front fact back, deltas = front ++ fact :: back ∧ (∀ other ∈ deltas, fact.Precedes other) ∧
    ∀ other ∈ front, ¬ (other.epochMs = fact.epochMs ∧ other.writeId = fact.writeId)

theorem lt_of_precedes {fact other : DeltaFactV1} (precedes : fact.Precedes other)
    (differs : ¬ (other.epochMs = fact.epochMs ∧ other.writeId = fact.writeId)) :
    compareByWriteId fact other = .lt ∧ compareDeltas fact other = .lt := by
  obtain ⟨byWrite, bySeq⟩ := precedes_iff.mp precedes
  constructor
  · rcases Ordering.isLE_iff_eq_lt_or_eq_eq.mp byWrite with less | tied
    · exact less
    · simp only [compareByWriteId, compareLex, compareOn, Ordering.then_eq_eq,
        Std.LawfulEqCmp.compare_eq_iff_eq] at tied
      exact absurd ⟨tied.1.symm, tied.2.symm⟩ differs
  · rcases Ordering.isLE_iff_eq_lt_or_eq_eq.mp bySeq with less | tied
    · exact less
    · obtain ⟨epoch, -, write⟩ := compareDeltas_eq tied
      exact absurd ⟨epoch.symm, write.symm⟩ differs

/-- The references choose the winner of the replay exactly when it is undisputed. -/
theorem conflict_rules_agree (facts : List SizedFact) (key : DeltaLogicalKey)
    (shared : ∀ sized ∈ facts, sized.fact.logicalKey = key) :
    (∃ winner, (SizedFact.picked facts).map SizedFact.fact = some winner ∧
      (replayDeltaFactsWithObservability (facts.map SizedFact.fact)).winners = [winner]) ↔
    Undisputed (facts.map SizedFact.fact) := by
  have named : ∀ fact ∈ facts.map SizedFact.fact, fact.logicalKey = key := by
    intro fact member
    obtain ⟨sized, inside, rfl⟩ := mem_map.mp member
    exact shared sized inside
  simp only [picked_map_fact, winners_eq_singleton named]
  generalize facts.map SizedFact.fact = deltas
  constructor
  · rintro ⟨winner, byWrite, bySeq⟩
    obtain ⟨front, back, split, smaller, -⟩ := (minBy_eq_some _).mp byWrite
    refine ⟨front, winner, back, split, ?_, ?_⟩
    · intro other member
      exact precedes_iff.mpr ⟨isLE_of_minBy _ byWrite member, isLE_of_minBy _ bySeq member⟩
    · -- What stands before the winner is larger by the references.
      rintro other early ⟨epoch, write⟩
      have less := smaller other early
      simp [compareByWriteId, compareLex, compareOn, epoch, write] at less
  · rintro ⟨front, fact, back, rfl, precedes, differs⟩
    have before : ∀ other ∈ front,
        compareByWriteId fact other = .lt ∧ compareDeltas fact other = .lt :=
      fun other early => lt_of_precedes (precedes other (mem_append_left _ early))
        (differs other early)
    have behind : ∀ other ∈ back, (compareByWriteId fact other).isLE = true ∧
        (compareDeltas fact other).isLE = true :=
      fun other late => precedes_iff.mp
        (precedes other (mem_append_right front (mem_cons_of_mem fact late)))
    refine ⟨fact, (minBy_eq_some _).mpr ⟨front, back, rfl, ?_, ?_⟩,
      (minBy_eq_some _).mpr ⟨front, back, rfl, ?_, ?_⟩⟩
    · exact fun other early => (before other early).1
    · exact fun other late => (behind other late).1
    · exact fun other early => (before other early).2
    · exact fun other late => (behind other late).2

def factWithSeq (seq : UInt64) (digit : Char) (digest : Text) : DeltaFactV1 :=
  ⟨1, 1, seq, ['t'], ['f'], ['p'], digest, List.replicate 16 digit⟩

def disputedFacts : List SizedFact :=
  [⟨factWithSeq 2 'a' ['x'], by decide +kernel⟩, ⟨factWithSeq 1 'b' ['y'], by decide +kernel⟩]

theorem disputed_facts_have_two_winners :
    (∀ sized ∈ disputedFacts, sized.fact.logicalKey = (['t'], ['f'], ['p'])) ∧
      (SizedFact.picked disputedFacts).map SizedFact.fact = some (factWithSeq 2 'a' ['x']) ∧
      (replayDeltaFactsWithObservability (disputedFacts.map SizedFact.fact)).winners =
        [factWithSeq 1 'b' ['y']] := by
  refine ⟨?_, by decide +kernel, by decide +kernel⟩
  simp only [disputedFacts, forall_mem_cons]
  exact ⟨rfl, rfl, by simp⟩

def agreedFacts : List SizedFact :=
  [⟨factWithSeq 2 'b' ['x'], by decide +kernel⟩, ⟨factWithSeq 1 'a' ['y'], by decide +kernel⟩]

theorem conflict_rules_agree_lowest :
    Undisputed (agreedFacts.map SizedFact.fact) ∧
      ∃ winner, (SizedFact.picked agreedFacts).map SizedFact.fact = some winner ∧
        (replayDeltaFactsWithObservability (agreedFacts.map SizedFact.fact)).winners =
          [winner] := by
  have undisputed : Undisputed (agreedFacts.map SizedFact.fact) := by
    refine ⟨[factWithSeq 2 'b' ['x']], factWithSeq 1 'a' ['y'], [], rfl, ?_, by decide⟩
    intro other member
    rw [precedes_iff]
    revert other
    simp only [agreedFacts, map_cons, map_nil, forall_mem_cons]
    exact ⟨by decide +kernel, by decide +kernel, by simp⟩
  have shared : ∀ sized ∈ agreedFacts, sized.fact.logicalKey = (['t'], ['f'], ['p']) := by
    simp only [agreedFacts, forall_mem_cons]
    exact ⟨rfl, rfl, by simp⟩
  exact ⟨undisputed, (conflict_rules_agree agreedFacts _ shared).mpr undisputed⟩

end WombatKV
