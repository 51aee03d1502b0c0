import WombatKV.Daemon.RemoteClient

/-! Daemons with an arena: requests, workers, and slabs over time. -/

namespace WombatKV

def Daemon.readResponse {σ : Type} (daemon : Daemon σ) (response : WireResponse) : Option Bytes :=
  match parseArenaRef response.message with
  | none => some response.payload
  | some (offset, len) => daemon.arena.bind (·.writer.readPayload offset len)

structure ArenaRun (σ : Type) where
  daemon : Daemon σ
  puts : List ClientPut

section Run

variable {σ : Type} (backend : KvBackend σ) (display : WireCodecError → Text)

def arenaRun (start : Daemon σ) : System (ArenaRun σ) WireRequest where
  start := ⟨start, []⟩
  step run request :=
    if request.op ∈ [Op.put, Op.get, Op.getMany, Op.clear] then
      let (response?, daemon) := dispatch backend display request run.daemon
      -- A worker that panics ends the run.
      response?.map fun response => ⟨daemon,
        if request.op = Op.put ∧ response.status = Status.ok then
          run.puts ++ [⟨request.ns, request.key, request.payload⟩]
        else run.puts⟩
    else none

def newArenaDaemon (store : σ) (size minBytes : Nat) : Daemon σ :=
  ⟨store, some ⟨ArenaWriter.create size, ∅, minBytes⟩⟩

/-- A request that leaves no stale slab behind, and puts no manifest that is materialized. -/
structure Refreshes (run : ArenaRun σ) (request : WireRequest) : Prop where
  ns : '\x00' ∉ request.ns
  slab : request.op = Op.put → ∀ arena, run.daemon.arena = some arena →
    lookupArenaSlab arena request.ns request.key ≠ none →
    parseLargeManifest request.payload = none ∧ arena.minBytes ≤ request.payload.length ∧
      request.payload.length ≤ arena.writer.maxSlab
  manifest : request.op = Op.put → ∀ arena, run.daemon.arena = some arena →
    ∀ manifest, parseLargeManifest request.payload = some manifest →
      manifest.totalLen < arena.minBytes

end Run

inductive SlabWork
  | idle
  | writing (ns key : Text) (bytes : Bytes) (tier : UInt8)
  | inserting (ns key : Text) (slab : ArenaSlab)
  deriving DecidableEq, Repr

structure ArenaRace where
  arena : ArenaShared
  worker : Nat → SlabWork
  stored : List ClientPut

inductive LockStep
  | begin (worker : Nat) (ns key : Text) (bytes : Bytes) (tier : UInt8)
  | write (worker : Nat)
  | insert (worker : Nat)
  | lookup (ns key : Text)
  | batch (bytes : Bytes) (tier : UInt8)
  | clear
  deriving DecidableEq, Repr

namespace ArenaRace

def afterWrite (ns key : Text) : Except Text (Option ArenaSlab) → SlabWork
  | .ok (some slab) => .inserting ns key slab
  | .ok none => .idle
  | .error _ => .idle

def step (race : ArenaRace) : LockStep → Option ArenaRace
  | .begin worker ns key bytes tier =>
    match race.worker worker with
    | .idle => some { race with
        worker := Function.update race.worker worker (.writing ns key bytes tier)
        stored := race.stored ++ [⟨ns, key, bytes⟩] }
    | _ => none
  | .write worker =>
    match race.worker worker with
    | .writing ns key bytes tier =>
      let (result, arena) := writeArenaPayload bytes tier race.arena
      some { race with
        arena, worker := Function.update race.worker worker (afterWrite ns key result) }
    | _ => none
  | .insert worker =>
    match race.worker worker with
    | .inserting ns key slab => some { race with
        arena := insertArenaSlab ns key slab race.arena
        worker := Function.update race.worker worker .idle }
    | _ => none
  | .lookup _ _ => some race
  | .batch bytes tier => some { race with arena := (writeArenaPayload bytes tier race.arena).2 }
  | .clear => some { race with arena := { race.arena with slabs := ∅ } }

def Settled (race : ArenaRace) : Prop :=
  ∀ worker ns key slab, race.worker worker ≠ .inserting ns key slab

def Safe (race : ArenaRace) : LockStep → Prop
  | .begin _ ns _ _ _ => '\x00' ∉ ns
  | .write worker => ∀ ns key bytes tier, race.worker worker = .writing ns key bytes tier →
      race.arena.Wraps bytes → race.Settled
  | .batch bytes _ => race.arena.Wraps bytes → race.Settled
  | .insert _ => True
  | .lookup _ _ => True
  | .clear => True

end ArenaRace

def arenaRace (size minBytes : Nat) : System ArenaRace LockStep where
  start := ⟨⟨ArenaWriter.create size, ∅, minBytes⟩, fun _ => .idle, []⟩
  step := ArenaRace.step

structure WrittenSlab where
  offset : Nat
  len : UInt32
  epoch : Nat
  bytes : Bytes
  deriving DecidableEq, Repr

def WrittenSlab.stop (slab : WrittenSlab) : Nat := slab.offset + slab.bytes.length

structure ArenaLog where
  writer : ArenaWriter
  slabs : List WrittenSlab

namespace ArenaLog

def write (log : ArenaLog) (bytes : Bytes) : ArenaLog :=
  match log.writer.writePayload bytes with
  | none => log
  | some ((offset, len), writer) =>
    ⟨writer, ⟨offset, len, writer.wrapEpoch, bytes⟩ :: log.slabs⟩

def writes (size : Nat) (payloads : List Bytes) : ArenaLog :=
  payloads.foldl write ⟨.create size, []⟩

end ArenaLog

inductive ArenaError
  | outOfBounds (offset : UInt64) (len : UInt32) (arena : UInt64)
  deriving DecidableEq, Repr

structure ArenaReader where
  mmap : Bytes
  size : UInt64
  mapped : mmap.length = size.toNat

namespace ArenaReader

def readPayload (reader : ArenaReader) (offset : UInt64) (len : UInt32) :
    Checked ArenaError Bytes :=
  let stop := offset + len.toUInt64
  if reader.size < stop ∨ offset.toNat < arenaHeaderBytes then
    Checked.fail (.outOfBounds offset len reader.size)
  else Checked.range reader.mmap offset.toNat stop.toNat

def boundsChecked (reader : ArenaReader) (offset : UInt64) (len : UInt32) :
    Checked ArenaError Bytes :=
  if arenaHeaderBytes ≤ offset.toNat ∧ offset.toNat + len.toNat ≤ reader.size.toNat then
    .ok (slice reader.mmap offset.toNat (offset.toNat + len.toNat))
  else Checked.fail (.outOfBounds offset len reader.size)

end ArenaReader

structure PendingWrite where
  slabOffset : Nat
  bytes : Bytes
  didWrap : Bool

inductive WritePhase
  | idle
  | copied (write : PendingWrite)
  | stored (write : PendingWrite)

def WritePhase.pending : WritePhase → Option PendingWrite
  | idle => none
  | copied write | stored write => some write

inductive ReadPhase
  | idle
  | sampled (slab : WrittenSlab) (first : UInt64)
  | copied (slab : WrittenSlab) (first : UInt64) (bytes : Bytes)
  | over (slab : WrittenSlab) (first : UInt64) (bytes : Bytes) (second : UInt64)
  deriving DecidableEq, Repr

structure SharedArena extends ArenaLog where
  phase : WritePhase
  reading : ReadPhase

inductive ArenaTurn
  | copy (bytes : Bytes)
  | storeOffset
  | bumpEpoch
  | sample (index : Nat)
  | read
  | sampleAgain

def PendingWrite.apart (write : PendingWrite) (slab : WrittenSlab) : Bool :=
  write.slabOffset + write.bytes.length ≤ slab.offset || slab.stop ≤ write.slabOffset

namespace SharedArena

def wrapEpoch (arena : SharedArena) : UInt64 := UInt64.ofNat arena.writer.wrapEpoch

def step (arena : SharedArena) : ArenaTurn → Option SharedArena
  | .copy bytes =>
    match arena.phase with
    | .idle =>
      if arena.writer.maxSlab < bytes.length then none
      else
        let didWrap := decide (arena.writer.size < arena.writer.nextOffset + bytes.length)
        let slabOffset := if didWrap then arenaHeaderBytes else arena.writer.nextOffset
        let memory := ArenaWriter.copyIn arena.writer.memory slabOffset bytes
        some { arena with
          writer := { arena.writer with memory }, phase := .copied ⟨slabOffset, bytes, didWrap⟩ }
    | _ => none
  | .storeOffset =>
    match arena.phase with
    | .copied write =>
      let nextOffset := write.slabOffset + write.bytes.length
      some { arena with writer := { arena.writer with nextOffset }, phase := .stored write }
    | _ => none
  | .bumpEpoch =>
    match arena.phase with
    | .stored write =>
      let wrapEpoch :=
        if write.didWrap then arena.writer.wrapEpoch + 1 else arena.writer.wrapEpoch
      let slab := ⟨write.slabOffset, UInt32.ofNat write.bytes.length, wrapEpoch, write.bytes⟩
      some { arena with
        writer := { arena.writer with wrapEpoch }, slabs := slab :: arena.slabs, phase := .idle }
    | _ => none
  | .sample index =>
    arena.slabs[index]?.map fun slab => { arena with reading := .sampled slab arena.wrapEpoch }
  | .read =>
    match arena.reading with
    | .sampled slab first =>
      (arena.writer.readPayload slab.offset slab.len).map fun bytes =>
        { arena with reading := .copied slab first bytes }
    | _ => none
  | .sampleAgain =>
    match arena.reading with
    | .copied slab first bytes =>
      some { arena with reading := .over slab first bytes arena.wrapEpoch }
    | _ => none

def undisturbed (arena : SharedArena) : ArenaTurn → Bool
  | .read =>
    match arena.reading with
    | .sampled slab _ =>
      slab.bytes.length < 2 ^ 32 &&
        arena.phase.pending.all fun write => !write.didWrap || write.apart slab
    | _ => true
  | .sampleAgain => arena.writer.wrapEpoch < wordLimit
  | _ => true

end SharedArena

def sharedArenaSystem (size : Nat) : System SharedArena ArenaTurn where
  start := { writer := .create size, slabs := [], phase := .idle, reading := .idle }
  step := SharedArena.step

end WombatKV
