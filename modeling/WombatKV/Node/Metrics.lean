import WombatKV.Foundation.Text

/-! Latency metrics: samples up to a cap, and a histogram. -/

namespace WombatKV

structure OpAccumulator where
  count : UInt64
  bytesTotal : UInt64
  microsTotal : UInt64
  samples : List UInt32
  maxSamples : Nat

namespace OpAccumulator

def new (maxSamples : Nat) : OpAccumulator := ⟨0, 0, 0, [], maxSamples⟩

/-- Drops a quarter of the cap, in whole samples, once the cap is reached. -/
def observe (acc : OpAccumulator) (micros bytes : UInt64) : OpAccumulator :=
  let kept := if acc.maxSamples ≤ acc.samples.length then acc.samples.drop (acc.maxSamples / 4)
    else acc.samples
  { acc with
    count := acc.count + 1
    bytesTotal := acc.bytesTotal + bytes
    microsTotal := acc.microsTotal + micros
    samples := kept ++ [if micros.toNat < 2 ^ 32 then micros.toUInt32 else 0xffffffff] }

end OpAccumulator

namespace EmbedMetrics

inductive Op
  | stash
  | loadFoyer
  | loadFoyerRam
  | loadFoyerSsd
  | loadS3
  | miss
  | restoreFromS3
  deriving DecidableEq, Repr

/-- The accumulators that an observation of an operation goes to. -/
def Op.recorded : Op → List Op
  | .loadFoyerRam => [.loadFoyer, .loadFoyerRam]
  | .loadFoyerSsd => [.loadFoyer, .loadFoyerSsd]
  | op => [op]

structure Observation where
  op : Op
  micros : UInt64
  bytes : UInt64

end EmbedMetrics

open EmbedMetrics

abbrev EmbedMetrics := Op → OpAccumulator

namespace EmbedMetrics

def withCap (cap : Nat) : EmbedMetrics := fun _ => .new cap

def new (maxSamples : Option Text) : EmbedMetrics :=
  withCap (((maxSamples.bind parseWord).map UInt64.toNat).getD 4096)

def observe (metrics : EmbedMetrics) (seen : Observation) : EmbedMetrics :=
  seen.op.recorded.foldl (fun metrics op =>
    Function.update metrics op ((metrics op).observe seen.micros seen.bytes)) metrics

end EmbedMetrics

def histogramBuckets : Nat := 30

def bucketFor (us : UInt64) : Nat :=
  if us ≤ 1 then 0
  else
    let bits := 64 - us.toBitVec.clz.toNat - 1
    min bits histogramBuckets

structure LatencyHistogram where
  buckets : Vector UInt64 histogramBuckets
  overflow : UInt64
  sumUs : UInt64
  count : UInt64
  maxUs : UInt64

namespace LatencyHistogram

def new : LatencyHistogram := ⟨.replicate _ 0, 0, 0, 0, 0⟩

def recordUs (histogram : LatencyHistogram) (us : UInt64) : LatencyHistogram :=
  let bucket := bucketFor us
  let counted := if inside : bucket < histogramBuckets then
      { histogram with buckets := histogram.buckets.set bucket (histogram.buckets[bucket] + 1) }
    else { histogram with overflow := histogram.overflow + 1 }
  { counted with
    sumUs := histogram.sumUs + us
    count := histogram.count + 1
    maxUs := if histogram.maxUs < us then us else histogram.maxUs }

def recorded (latencies : List UInt64) : LatencyHistogram := latencies.foldl recordUs new

/-- The walk over the buckets: the upper bound of the first that reaches the target. -/
def walkBuckets (target : UInt64) : Nat → UInt64 → List UInt64 → Option UInt64
  | _, _, [] => none
  | index, cumulative, held :: rest =>
    if target ≤ cumulative + held then some (1 <<< UInt64.ofNat (min (index + 1) 63))
    else walkBuckets target (index + 1) (cumulative + held) rest

/-- The percentile for a target that has been computed from the count. -/
def percentileAt (histogram : LatencyHistogram) (target : UInt64) : Option UInt64 :=
  if histogram.count = 0 then none
  else some ((walkBuckets target 0 0 histogram.buckets.toList).getD histogram.maxUs)

end LatencyHistogram

end WombatKV
