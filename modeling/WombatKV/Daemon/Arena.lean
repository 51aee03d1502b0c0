import Std.Data.ExtTreeMap.Lemmas
import WombatKV.Foundation.Effects
import WombatKV.Foundation.Text

/-! The arena shared with the clients: a bump allocator, and its slabs. -/

namespace WombatKV

open Call

def arenaHeaderBytes : Nat := 64

structure ArenaWriter where
  memory : Bytes
  size : Nat
  nextOffset : Nat
  wrapEpoch : Nat
  deriving DecidableEq, Repr

namespace ArenaWriter

def create (size : Nat) : ArenaWriter := ⟨List.replicate size 0, size, arenaHeaderBytes, 0⟩

def maxSlab (writer : ArenaWriter) : Nat := writer.size - arenaHeaderBytes

def copyIn (memory : Bytes) (offset : Nat) (bytes : Bytes) : Bytes :=
  memory.take offset ++ (bytes ++ memory.drop (offset + bytes.length))

def writePayload (writer : ArenaWriter) (bytes : Bytes) :
    Option ((Nat × UInt32) × ArenaWriter) :=
  let len := bytes.length
  if writer.maxSlab < len then none
  else
    let wraps := writer.size < writer.nextOffset + len
    let slabOffset := if wraps then arenaHeaderBytes else writer.nextOffset
    some ((slabOffset, UInt32.ofNat len),
      { writer with
        memory := copyIn writer.memory slabOffset bytes
        nextOffset := slabOffset + len
        wrapEpoch := if wraps then writer.wrapEpoch + 1 else writer.wrapEpoch })

def readPayload (writer : ArenaWriter) (offset : Nat) (len : UInt32) : Option Bytes :=
  let stop := offset + len.toNat
  if writer.size < stop ∨ offset < arenaHeaderBytes then none
  else some (slice writer.memory offset stop)

end ArenaWriter

structure ArenaSlab where
  offset : Nat
  len : UInt32
  tier : UInt8
  deriving DecidableEq, Repr

structure ArenaShared where
  writer : ArenaWriter
  slabs : Std.ExtTreeMap Text ArenaSlab
  minBytes : Nat

/-- The sizes that decide what goes into the arena. -/
structure ArenaSetup where
  minBytes : Nat
  maxSlab : Nat

def ArenaSetup.Takes (sizes : ArenaSetup) (length : Nat) : Prop :=
  sizes.minBytes ≤ length ∧ length ≤ sizes.maxSlab

def ArenaShared.setup (arena : ArenaShared) : ArenaSetup := ⟨arena.minBytes, arena.writer.maxSlab⟩

def ArenaShared.Wraps (arena : ArenaShared) (bytes : Bytes) : Prop :=
  arena.minBytes ≤ bytes.length ∧ bytes.length ≤ arena.writer.maxSlab ∧
    arena.writer.size < arena.writer.nextOffset + bytes.length

def arenaKey (ns key : Text) : Text := ns ++ ('\x00' :: key)

def lookupArenaSlab (arena : ArenaShared) (ns key : Text) : Option ArenaSlab :=
  arena.slabs[arenaKey ns key]?

def writeArenaPayload (bytes : Bytes) (tier : UInt8) :
    Call Text ArenaShared (Option ArenaSlab) := do
  let arena ← get
  if bytes.length < arena.minBytes then return none
  match arena.writer.writePayload bytes with
  | none =>
    throw ("arena write_payload: arena payload ".toList ++ (natText bytes.length ++
      (" > max_slab ".toList ++ natText arena.writer.maxSlab)))
  | some ((offset, len), writer) =>
    let slabs := if writer.wrapEpoch ≠ arena.writer.wrapEpoch then ∅ else arena.slabs
    set { arena with writer, slabs }
    return some ⟨offset, len, tier⟩

def insertArenaSlab (ns key : Text) (slab : ArenaSlab) (arena : ArenaShared) : ArenaShared :=
  { arena with slabs := arena.slabs.insert (arenaKey ns key) slab }

def rememberArenaSlab (ns key : Text) (bytes : Bytes) (tier : UInt8) :
    Call Text ArenaShared (Option ArenaSlab) := do
  match ← writeArenaPayload bytes tier with
  | none => return none
  | some slab =>
    modify (insertArenaSlab ns key slab)
    return some slab

end WombatKV
