import WombatKV.Foundation.Runs
import WombatKV.Foundation.Text

/-! The names of a daemon prefix, and who holds its heartbeat file. -/

namespace WombatKV

def shmStart : Text := "wk".toList

def roleReq : Char := 'r'

def roleResp : Char := 's'

def reqConsumerId : Text := "dn".toList

def respConsumerId : Text := "cn".toList

def segmentNames (pre : Text) : Text × Text :=
  (shmStart ++ pre ++ [roleReq], shmStart ++ pre ++ [roleResp])

def shmSegmentNameMaxLenMacos : Nat := 30

def maxDisruptorInternalSuffixLen : Nat := 13

def segmentNameBudgetMessage (pre base : Text) (portableMax : Nat) : Text :=
  let derivedLen := (utf8 base).length + maxDisruptorInternalSuffixLen
  let fixed := (utf8 shmStart).length + 1 + maxDisruptorInternalSuffixLen
  "wombatkv: SHM segment '".toList ++ base ++ "_producer_seq' (".toList ++ natText derivedLen ++
    " chars) exceeds the macOS POSIX-SHM budget of ".toList ++
    natText shmSegmentNameMaxLenMacos ++ " chars. Shorten the daemon prefix '".toList ++ pre ++
    "' (".toList ++ natText (utf8 pre).length ++ " chars) to at most ".toList ++
    natText (shmSegmentNameMaxLenMacos - fixed) ++
    " chars. The internal disruptor-mp segments add up to ".toList ++
    natText maxDisruptorInternalSuffixLen ++
    " chars of suffix ('_producer_seq' is the longest); the wombatkv wrapper adds '".toList ++
    shmStart ++ "' + 1-char role. For strict cross-platform portability (Linux, FreeBSD), see ".toList ++
    "`myelon::portable_shm_segment_name`, recommends total name ≤ ".toList ++
    natText portableMax ++ " chars.".toList

def validateSegmentNameBudget (portableMax : Nat) (pre : Text) : Except Text Unit :=
  [(segmentNames pre).1, (segmentNames pre).2].forM fun base =>
    if (utf8 base).length + maxDisruptorInternalSuffixLen > shmSegmentNameMaxLenMacos then
      throw (segmentNameBudgetMessage pre base portableMax)
    else pure ()

def cleanupRingSegments (base consumerId : Text) : List Text :=
  [base, base ++ "_cr".toList, base ++ "_ci".toList, base ++ "_producer_seq".toList,
    base ++ ('_' :: consumerId ++ "_seq".toList)]

def cleanupPrefixSegments (pre : Text) : List Text :=
  cleanupRingSegments (segmentNames pre).1 reqConsumerId ++
    cleanupRingSegments (segmentNames pre).2 respConsumerId

def sanitizePrefix (pre : Text) : Text :=
  pre.map fun char =>
    if isAsciiAlphanumeric char || char == '-' || char == '_' then char else '_'

def joinPath (dir name : Text) : Text :=
  if dir = [] ∨ dir.getLast? = some '/' then dir ++ name else dir ++ '/' :: name

def heartbeatPath (dir pre : Text) : Text :=
  joinPath dir (sanitizePrefix pre ++ ".heartbeat".toList)

structure HeartbeatRecord where
  id : Text
  pid : UInt32
  updatedMs : Nat
  deriving DecidableEq, Repr

abbrev milliLimit : Nat := 2 ^ 128

def readRecordLine (found : Option Text × Option UInt32 × Option Nat) (line : Text) :
    Option Text × Option UInt32 × Option Nat :=
  match line.dropPrefix? "id=".toList with
  | some value => (some value, found.2)
  | none =>
    match line.dropPrefix? "pid=".toList with
    | some value => (found.1, (parseUnsigned (2 ^ 32) value).map UInt32.ofNat, found.2.2)
    | none =>
      match line.dropPrefix? "updated_ms=".toList with
      | some value => (found.1, found.2.1, parseUnsigned milliLimit value)
      | none => found

def readRecord (text : Text) : Option HeartbeatRecord := do
  let found := (lines text).foldl readRecordLine (none, none, none)
  return ⟨← found.1, ← found.2.1, ← found.2.2⟩

def heartbeatBody (id : Text) (pid : UInt32) (nowMs : Nat) : Text :=
  "id=".toList ++ id ++ '\n' :: ("pid=".toList ++ natText pid.toNat ++
    '\n' :: ("updated_ms=".toList ++ natText nowMs ++ ['\n']))

def connectionId (pid : UInt32) (nowMs : Nat) (seq : UInt64) : Text :=
  natText pid.toNat ++ '-' :: (natText nowMs ++ '-' :: natText seq.toNat)

structure HeartbeatHost where
  dir : Text
  pre : Text
  quotedPre : Text
  procExists : UInt32 → Bool
  notFound : Text

structure ClockReading where
  nowMs : Fin milliLimit
  instantNs : Nat

def pidMaybeAlive (host : HeartbeatHost) (pid : UInt32) : Bool := pid != 0 && host.procExists pid

def recordIsStale (clock : ClockReading) (staleAfterMs : Nat) (record : HeartbeatRecord) : Bool :=
  decide (staleAfterMs < clock.nowMs.val - record.updatedMs)

def recordIsActive (host : HeartbeatHost) (clock : ClockReading) (staleAfterMs : Nat)
    (record : HeartbeatRecord) : Bool :=
  pidMaybeAlive host record.pid && !recordIsStale clock staleAfterMs record

structure ClientHeartbeat where
  id : Text
  lastWriteNs : Nat
  deriving DecidableEq, Repr

inductive HeartbeatPhase
  | idle
  | reading
  | probing (names : List Text)
  | sweeping (names : List Text) (stale : Bool)
  | erasing
  | opening
  | writing (heartbeat : ClientHeartbeat) (first : Bool)
  | placing (heartbeat : ClientHeartbeat) (first : Bool)
  | held (heartbeat : ClientHeartbeat)
  | checking (heartbeat : ClientHeartbeat)
  | leaving (heartbeat : ClientHeartbeat) (failed : Option Text)
  | unlinking (heartbeat : ClientHeartbeat) (failed : Option Text)
  deriving DecidableEq, Repr

namespace HeartbeatPhase

def acquiring : HeartbeatPhase → Bool
  | reading | probing _ | sweeping _ _ | erasing | opening => true
  | writing _ first | placing _ first => first
  | leaving _ failed | unlinking _ failed => failed.isSome
  | idle | held _ | checking _ => false

def holding : HeartbeatPhase → Option ClientHeartbeat
  | writing heartbeat first | placing heartbeat first => if first then none else some heartbeat
  | held heartbeat | checking heartbeat => some heartbeat
  | leaving heartbeat failed | unlinking heartbeat failed =>
    if failed.isSome then none else some heartbeat
  | idle | reading | probing _ | sweeping _ _ | erasing | opening => none

end HeartbeatPhase

structure HeartbeatClient where
  pid : UInt32
  enabled : Bool
  intervalNs : Nat
  staleAfterMs : Nat
  phase : HeartbeatPhase := .idle
  answered : Option (Except Text Unit) := none

structure HeartbeatWorld (n : Nat) where
  file : Option Text
  temporary : UInt32 → Option Text
  segments : List Text
  connectionSeq : UInt32 → UInt64
  clients : Fin n → HeartbeatClient

inductive HeartbeatStep (n : Nat)
  | acquire (index : Fin n)
  | beat (index : Fin n)
  | remove (index : Fin n)
  | advance (index : Fin n) (clock : ClockReading)

namespace HeartbeatWorld

variable {n : Nat}

def record (world : HeartbeatWorld n) : Option HeartbeatRecord := world.file.bind readRecord

def moveTo (world : HeartbeatWorld n) (index : Fin n) (phase : HeartbeatPhase) :
    HeartbeatWorld n :=
  { world with
    clients := Function.update world.clients index { world.clients index with phase } }

def answer (world : HeartbeatWorld n) (index : Fin n) (phase : HeartbeatPhase)
    (answer : Except Text Unit) : HeartbeatWorld n :=
  { world with
    clients := Function.update world.clients index
      { world.clients index with phase, answered := some answer } }

def activeMessage (host : HeartbeatHost) (record : HeartbeatRecord) : Text :=
  "active SHM client for prefix ".toList ++ host.quotedPre ++ ": pid=".toList ++
    natText record.pid.toNat ++ " id=".toList ++ record.id

def replacedMessage (host : HeartbeatHost) (record : HeartbeatRecord) : Text :=
  "heartbeat ".toList ++ heartbeatPath host.dir host.pre ++
    " replaced by another client id=".toList ++ record.id

def temporaryPath (host : HeartbeatHost) (pid : UInt32) : Text :=
  let stem := if host.pre = [] then ".heartbeat".toList else sanitizePrefix host.pre
  joinPath host.dir (stem ++ ".tmp.".toList ++ natText pid.toNat)

def renameMessage (host : HeartbeatHost) (pid : UInt32) : Text :=
  "rename heartbeat ".toList ++ temporaryPath host pid ++ " -> ".toList ++
    heartbeatPath host.dir host.pre ++ ": ".toList ++ host.notFound

def beatFailed (world : HeartbeatWorld n) (index : Fin n) (heartbeat : ClientHeartbeat)
    (first : Bool) (message : Text) : HeartbeatWorld n :=
  if first then world.moveTo index (.leaving heartbeat (some message))
  else world.answer index (.held heartbeat) (.error message)

def beatReads (host : HeartbeatHost) (world : HeartbeatWorld n) (index : Fin n)
    (heartbeat : ClientHeartbeat) (first : Bool) : HeartbeatWorld n :=
  match world.record with
  | some record =>
    if record.id ≠ heartbeat.id then
      world.beatFailed index heartbeat first (replacedMessage host record)
    else world.moveTo index (.writing heartbeat first)
  | none => world.moveTo index (.writing heartbeat first)

def removed (world : HeartbeatWorld n) (index : Fin n) (failed : Option Text) :
    HeartbeatWorld n :=
  match failed with
  | some message => world.answer index .idle (.error message)
  | none => world.answer index .idle (.ok ())

def beatIsDue (clock : ClockReading) (intervalNs lastWriteNs : Nat) : Bool :=
  decide (¬ clock.instantNs - lastWriteNs < intervalNs)

def advance (host : HeartbeatHost) (clock : ClockReading) (world : HeartbeatWorld n)
    (index : Fin n) : HeartbeatWorld n :=
  let client := world.clients index
  match client.phase with
  | .idle | .held _ => world
  | .reading =>
    match world.record with
    | some record =>
      if recordIsActive host clock client.staleAfterMs record then
        world.answer index .idle (.error (activeMessage host record))
      else world.moveTo index (.sweeping (cleanupPrefixSegments host.pre) true)
    | none =>
      world.moveTo index (.probing [(segmentNames host.pre).1, (segmentNames host.pre).2])
  | .probing [] => world.moveTo index .opening
  | .probing (name :: rest) =>
    if name ∈ world.segments then
      world.moveTo index (.sweeping (cleanupPrefixSegments host.pre) false)
    else world.moveTo index (.probing rest)
  | .sweeping [] stale => world.moveTo index (if stale then .erasing else .opening)
  | .sweeping (name :: rest) stale =>
    { world with segments := world.segments.filter (· ≠ name) }.moveTo index (.sweeping rest stale)
  | .erasing => { world with file := none }.moveTo index .opening
  | .opening =>
    let seq := world.connectionSeq client.pid
    let counted := { world with
      connectionSeq := Function.update world.connectionSeq client.pid (seq + 1) }
    if client.intervalNs ≤ clock.instantNs then
      let heartbeat : ClientHeartbeat :=
        ⟨connectionId client.pid clock.nowMs seq, clock.instantNs - client.intervalNs⟩
      if beatIsDue clock client.intervalNs heartbeat.lastWriteNs then
        counted.beatReads host index heartbeat true
      else counted.answer index (.held heartbeat) (.ok ())
    else counted.moveTo index .idle
  | .checking heartbeat =>
    if beatIsDue clock client.intervalNs heartbeat.lastWriteNs then
      world.beatReads host index heartbeat false
    else world.answer index (.held heartbeat) (.ok ())
  | .writing heartbeat first =>
    { world with
      temporary := Function.update world.temporary client.pid
        (some (heartbeatBody heartbeat.id client.pid clock.nowMs)) }.moveTo index
      (.placing heartbeat first)
  | .placing heartbeat first =>
    match world.temporary client.pid with
    | some body =>
      { world with
        file := some body
        temporary := Function.update world.temporary client.pid none }.answer index
        (.held { heartbeat with lastWriteNs := clock.instantNs }) (.ok ())
    | none => world.beatFailed index heartbeat first (renameMessage host client.pid)
  | .leaving heartbeat failed =>
    match world.record with
    | some record =>
      if record.id = heartbeat.id then world.moveTo index (.unlinking heartbeat failed)
      else world.removed index failed
    | none => world.removed index failed
  | .unlinking _ failed => { world with file := none }.removed index failed

def step (host : HeartbeatHost) (world : HeartbeatWorld n) :
    HeartbeatStep n → Option (HeartbeatWorld n)
  | .acquire index =>
    if (world.clients index).phase = .idle then
      if (world.clients index).enabled then some (world.moveTo index .reading)
      else some (world.answer index .idle (.ok ()))
    else none
  | .beat index =>
    match (world.clients index).phase with
    | .held heartbeat => some (world.moveTo index (.checking heartbeat))
    | _ => none
  | .remove index =>
    match (world.clients index).phase with
    | .held heartbeat => some (world.moveTo index (.leaving heartbeat none))
    | _ => none
  | .advance index clock => some (world.advance host clock index)

def holds (world : HeartbeatWorld n) (index : Fin n) : Bool :=
  (world.clients index).phase.holding.isSome

def acquires (world : HeartbeatWorld n) (index : Fin n) : Bool :=
  (world.clients index).phase.acquiring

def holdersFresh (host : HeartbeatHost) (world : HeartbeatWorld n) : HeartbeatStep n → Bool
  | .advance index clock => decide (∀ holder,
      (match (world.clients holder).phase.holding, world.record with
      | some heartbeat, some record => record.id != heartbeat.id ||
          recordIsActive host clock (world.clients index).staleAfterMs record
      | _, _ => true) = true)
  | _ => true

def acquiresAlone (world : HeartbeatWorld n) : HeartbeatStep n → Bool
  | .acquire index => decide (∀ other, other ≠ index → world.acquires other = false)
  | _ => true

def system (host : HeartbeatHost) (start : HeartbeatWorld n) :
    System (HeartbeatWorld n) (HeartbeatStep n) where
  start := start
  step := step host

end HeartbeatWorld

end WombatKV
