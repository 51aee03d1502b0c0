import WombatKV.Foundation.Text

/-! The seeded faults of the simulation, and when one fires. -/

namespace WombatKV

structure XorShift64 where
  state : UInt64
  deriving DecidableEq, Repr

namespace XorShift64

def new (seed : UInt64) : XorShift64 := ⟨if seed = 0 then 0xdeadbeefcafebabe else seed⟩

def phase (seed phase : UInt64) : XorShift64 := new (seed ^^^ phase * 0x9e3779b97f4a7c15)

def nextU64 : StateM XorShift64 UInt64 := fun rng =>
  let x := rng.state
  let x := x ^^^ x <<< 13
  let x := x ^^^ x >>> 7
  let x := x ^^^ x <<< 17
  (x, ⟨x⟩)

def step (rng : XorShift64) : XorShift64 := (nextU64 rng).2

def stream (rng : XorShift64) (position : Nat) : UInt64 := (nextU64 (step^[position] rng)).1

def between (lo hi : UInt64) : StateM XorShift64 UInt64 := do
  let span := hi - lo
  return lo + (← nextU64) % span

def betweenU32 (lo hi : UInt64) (default : UInt32) : StateM XorShift64 UInt32 := do
  let word ← between lo hi
  return if word.toNat < 2 ^ 32 then word.toUInt32 else default

end XorShift64

inductive WireEnvelopeBadKind
  | badMagic
  | badVersion
  | badCRC
  | oversizedLen
  | truncatedBody
  deriving DecidableEq, Repr

inductive OldVersionKind
  | sidecarV3
  | blockV1
  deriving DecidableEq, Repr

inductive SlateDbFaultKind
  | writeFailure
  | staleSnapshot
  | corruptManifest
  deriving DecidableEq, Repr

inductive S3ErrorKind
  | notFound
  | internalError
  | serviceUnavail
  | throttling
  | networkTimeout
  deriving DecidableEq, Repr

inductive WombatKvFaultEvent
  | s3GetLatency (ms : UInt64)
  | s3GetFailure (errorKind : S3ErrorKind)
  | s3GetCorrupt
  | s3PutLatency (ms : UInt64)
  | s3PutFailure (errorKind : S3ErrorKind)
  | killBeforeChainHead
  | killBeforeSidecar
  | evictBlockMidLease (blockHashPrefix : Text)
  | daemonRestart (afterNOps : UInt32)
  | transportConnectionDrop
  | transportPartialRead (returnN : UInt32)
  | transportSlowWrite (ms : UInt64)
  | wireBadEnvelope (kind : WireEnvelopeBadKind)
  | oldVersionInBucket (which : OldVersionKind)
  | slateDbFault (kind : SlateDbFaultKind)
  | multiEnginePrefixConflict
  | daemonTpcOnlyNoShmClient
  | resourceFdLimitTighten (softLimit : UInt64)
  | resourceMemoryPressure (failEveryNthAlloc : UInt32)
  | resourceDiskFull (failAfterBytes : UInt64)
  | platformShmHidden
  | platformIoUringJitter (p99Us : UInt64)
  | platformKqueueOnly
  deriving DecidableEq, Repr

inductive WombatKvFailureClass
  | transientS3Failure
  | corruptBlockBytes
  | partialChainSave
  | concurrentSameKeySave
  | daemonRestartMidLookup
  | sidecarDriftAfterChain
  | foyerEvictionMidGet
  | transportConnectionDropMidRPC
  | transportPartialReadOnHeader
  | transportSlowWrite
  | wireEnvelopeCorruption
  | oldSidecarV3InBucket
  | oldBlockV1InBucket
  | slateDbWriteFailure
  | slateDbManifestCorruption
  | multiEnginePrefixConflict
  | daemonTpcOnlyNoShmClient
  | resourceFdExhaustion
  | resourceMemoryPressure
  | resourceDiskFull
  | platformShmHidden
  | platformIoUringJitter
  | platformKqueueOnly
  deriving DecidableEq, Repr

inductive FaultTrigger
  | afterKvOp (n : UInt32)
  | afterS3Get (n : UInt32)
  | afterS3Put (n : UInt32)
  | afterBootstrapMs (ms : UInt64)
  deriving DecidableEq, Repr

structure ScheduledFault where
  trigger : FaultTrigger
  event : WombatKvFaultEvent
  deriving DecidableEq, Repr

structure FaultPlan where
  seed : UInt64
  failureClass : Option WombatKvFailureClass
  events : List ScheduledFault
  deriving DecidableEq, Repr

def hexWord (word : UInt64) : Text :=
  let digits := Nat.toDigits 16 word.toNat
  List.replicate (16 - digits.length) '0' ++ digits

def wireEnvelopeBadKinds : List WireEnvelopeBadKind :=
  [.badMagic, .badVersion, .badCRC, .oversizedLen, .truncatedBody]

open XorShift64 in
def eventsForClass : WombatKvFailureClass → StateM XorShift64 (List ScheduledFault)
  | .transientS3Failure => do
    return [⟨.afterS3Get (← betweenU32 1 20 1), .s3GetFailure .serviceUnavail⟩]
  | .corruptBlockBytes => do
    return [⟨.afterS3Get (← betweenU32 1 10 1), .s3GetCorrupt⟩]
  | .partialChainSave => do
    return [⟨.afterS3Put (← betweenU32 1 8 1), .killBeforeChainHead⟩]
  | .concurrentSameKeySave => do
    return [⟨.afterKvOp (← betweenU32 1 5 1), .s3PutLatency (← between 50 200)⟩,
      ⟨.afterKvOp (← betweenU32 1 5 1), .s3PutLatency (← between 50 200)⟩]
  | .daemonRestartMidLookup => do
    return [⟨.afterKvOp (← betweenU32 5 30 5), .daemonRestart (← betweenU32 1 5 1)⟩]
  | .sidecarDriftAfterChain => do
    return [⟨.afterS3Put (← betweenU32 2 8 2), .killBeforeSidecar⟩]
  | .foyerEvictionMidGet => do
    let prefixSeed ← nextU64
    return [⟨.afterKvOp (← betweenU32 3 15 3), .evictBlockMidLease (hexWord prefixSeed)⟩]
  | .transportConnectionDropMidRPC => do
    return [⟨.afterKvOp (← betweenU32 1 10 1), .transportConnectionDrop⟩]
  | .transportPartialReadOnHeader => do
    return [⟨.afterKvOp (← betweenU32 1 10 1), .transportPartialRead (← betweenU32 1 8 1)⟩]
  | .transportSlowWrite => do
    return [⟨.afterKvOp (← betweenU32 1 10 1), .transportSlowWrite (← between 10 100)⟩]
  | .wireEnvelopeCorruption => do
    let kinds := wireEnvelopeBadKinds
    let idx ← between 0 (UInt64.ofNat kinds.length - 1)
    return [⟨.afterKvOp (← betweenU32 1 10 1), .wireBadEnvelope (kinds[idx.toNat]?.getD .badMagic)⟩]
  | .oldSidecarV3InBucket => do
    return [⟨.afterBootstrapMs (← between 0 50), .oldVersionInBucket .sidecarV3⟩]
  | .oldBlockV1InBucket => do
    return [⟨.afterBootstrapMs (← between 0 50), .oldVersionInBucket .blockV1⟩]
  | .slateDbWriteFailure => do
    return [⟨.afterKvOp (← betweenU32 1 12 1), .slateDbFault .writeFailure⟩]
  | .slateDbManifestCorruption => return [⟨.afterBootstrapMs 0, .slateDbFault .corruptManifest⟩]
  | .multiEnginePrefixConflict => do
    return [⟨.afterKvOp (← betweenU32 0 5 0), .multiEnginePrefixConflict⟩]
  | .daemonTpcOnlyNoShmClient => return [⟨.afterBootstrapMs 0, .daemonTpcOnlyNoShmClient⟩]
  | .resourceFdExhaustion => do
    return [⟨.afterBootstrapMs 0, .resourceFdLimitTighten (← between 64 256)⟩]
  | .resourceMemoryPressure => do
    return [⟨.afterKvOp (← betweenU32 1 10 1), .resourceMemoryPressure (← betweenU32 50 500 100)⟩]
  | .resourceDiskFull => do
    return [⟨.afterS3Put (← betweenU32 1 5 1),
      .resourceDiskFull (← between ((1 : UInt64) <<< 20) ((100 : UInt64) <<< 20))⟩]
  | .platformShmHidden => return [⟨.afterBootstrapMs 0, .platformShmHidden⟩]
  | .platformIoUringJitter => do
    return [⟨.afterKvOp (← betweenU32 1 10 1), .platformIoUringJitter (← between 50 500)⟩]
  | .platformKqueueOnly => return [⟨.afterBootstrapMs 0, .platformKqueueOnly⟩]

def scheduleForClass (masterSeed : UInt64) (failure : WombatKvFailureClass) : FaultPlan :=
  ⟨masterSeed, some failure, (eventsForClass failure (.phase masterSeed 1)).1⟩

structure PlanState where
  plan : Option FaultPlan
  opCounter : UInt32

namespace PlanState

def setPlan (plan : FaultPlan) : PlanState := ⟨some plan, 0⟩

def advanceOp (state : PlanState) : PlanState :=
  { state with opCounter := saturatingNext state.opCounter }

def fireForCurrentOp (state : PlanState) : Option WombatKvFaultEvent := do
  let plan ← state.plan
  let opN := state.opCounter
  let sched ← plan.events.find? fun sched => sched.trigger = .afterKvOp (opN + 1)
  return sched.event

def dispatched {ρ : Type} (state : PlanState) : List ρ → List (Option WombatKvFaultEvent)
  | [] => []
  | _ :: rest => state.advanceOp.fireForCurrentOp :: dispatched state.advanceOp rest

end PlanState

end WombatKV
