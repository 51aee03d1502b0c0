import WombatKV.Foundation.Sorting
import WombatKV.Foundation.Text

/-! Replay of delta facts, in one order or by their references. -/

namespace WombatKV

structure DeltaFactV1 where
  schemaVersion : UInt16
  epochMs : UInt64
  seq : UInt64
  tenantId : Text
  fingerprint : Text
  prefixHash : Text
  payloadDigest : Text
  writeId : Text
  deriving DecidableEq, Repr

abbrev DeltaLogicalKey := Text × Text × Text

def compareLogicalKeys : DeltaLogicalKey → DeltaLogicalKey → Ordering :=
  compareLex (compareOn fun key => key.1)
    (compareLex (compareOn fun key => key.2.1) (compareOn fun key => key.2.2))

instance : Std.TransCmp compareLogicalKeys := by
  unfold compareLogicalKeys
  infer_instance

instance : Std.LawfulEqCmp compareLogicalKeys where
  eq_of_compare := by
    rintro ⟨tenant, fingerprint, hash⟩ ⟨tenant', fingerprint', hash'⟩ same
    simp only [compareLogicalKeys, compareLex, compareOn, Ordering.then_eq_eq,
      Std.LawfulEqCmp.compare_eq_iff_eq] at same
    rw [same.1, same.2.1, same.2.2]

def DeltaFactV1.logicalKey (fact : DeltaFactV1) : DeltaLogicalKey :=
  (fact.tenantId, fact.fingerprint, fact.prefixHash)

def compareDeltas : DeltaFactV1 → DeltaFactV1 → Ordering :=
  compareLex (compareOn DeltaFactV1.epochMs)
    (compareLex (compareOn DeltaFactV1.seq) (compareOn DeltaFactV1.writeId))

instance : Std.TransCmp compareDeltas := by
  unfold compareDeltas
  infer_instance

structure DeltaConflictRow where
  tenantId : Text
  fingerprint : Text
  prefixHash : Text
  winnerPayloadDigest : Text
  loserPayloadDigest : Text
  winnerWriteId : Text
  loserWriteId : Text
  winnerEpochMs : UInt64
  loserEpochMs : UInt64
  winnerSeq : UInt64
  loserSeq : UInt64
  deriving DecidableEq, Repr

structure DeltaReplayStats where
  winners : Nat
  duplicatesIdempotent : Nat
  duplicatesConflict : Nat
  conflictRows : List DeltaConflictRow
  deriving DecidableEq, Repr

structure DeltaReplayOutcome where
  winners : List DeltaFactV1
  stats : DeltaReplayStats
  deriving DecidableEq, Repr

structure DeltaReplay where
  winners : Std.ExtTreeMap DeltaLogicalKey DeltaFactV1 compareLogicalKeys
  stats : DeltaReplayStats

def conflictRow (winner delta : DeltaFactV1) : DeltaConflictRow where
  tenantId := delta.tenantId
  fingerprint := delta.fingerprint
  prefixHash := delta.prefixHash
  winnerPayloadDigest := winner.payloadDigest
  loserPayloadDigest := delta.payloadDigest
  winnerWriteId := winner.writeId
  loserWriteId := delta.writeId
  winnerEpochMs := winner.epochMs
  loserEpochMs := delta.epochMs
  winnerSeq := winner.seq
  loserSeq := delta.seq

def replayDelta (replay : DeltaReplay) (delta : DeltaFactV1) : DeltaReplay :=
  match replay.winners[delta.logicalKey]? with
  | none => { replay with winners := replay.winners.insert delta.logicalKey delta }
  | some winner =>
    let stats := replay.stats
    if winner.payloadDigest = delta.payloadDigest then
      { replay with stats :=
          { stats with duplicatesIdempotent := saturatingPlus stats.duplicatesIdempotent 1 } }
    else
      { replay with stats :=
          { stats with
            duplicatesConflict := saturatingPlus stats.duplicatesConflict 1
            conflictRows := stats.conflictRows ++ [conflictRow winner delta] } }

def replayDeltaFactsWithObservability (deltas : List DeltaFactV1) : DeltaReplayOutcome :=
  let ordered := sortBy compareDeltas deltas
  let replay := ordered.foldl replayDelta ⟨∅, ⟨0, 0, 0, []⟩⟩
  let winners := replay.winners.toList.map Prod.snd
  ⟨winners, { replay.stats with winners := winners.length }⟩

def replayDeltaFactsDeterministic (deltas : List DeltaFactV1) : List DeltaFactV1 :=
  (replayDeltaFactsWithObservability deltas).winners

abbrev WriteId := { bytes : Bytes // bytes.length = 16 }

structure FactRef where
  epochMs : UInt64
  writeId : WriteId
  deriving DecidableEq, Repr

def compareFacts : FactRef → FactRef → Ordering :=
  compareLex (compareOn FactRef.epochMs) (compareOn fun fact => fact.writeId.val)

instance transCmpFacts : Std.TransCmp compareFacts := by
  unfold compareFacts
  infer_instance

def pickWinner (facts : List FactRef) : Option (FactRef × Nat) :=
  minBy (fun left right => compareFacts left.1 right.1) facts.zipIdx

structure SizedFact where
  fact : DeltaFactV1
  sized : (utf8 fact.writeId).length = 16

namespace SizedFact

def ref (sized : SizedFact) : FactRef where
  epochMs := sized.fact.epochMs
  writeId := ⟨utf8 sized.fact.writeId, sized.sized⟩

def picked (facts : List SizedFact) : Option SizedFact := do
  let (_, index) ← pickWinner (facts.map ref)
  facts[index]?

end SizedFact

end WombatKV
