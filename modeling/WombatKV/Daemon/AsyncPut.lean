import WombatKV.Daemon.Dispatch
import WombatKV.Foundation.WriteLog

/-! A daemon that acknowledges a put before a thread stores it. -/

namespace WombatKV

inductive AsyncPhase
  | waiting
  | storing
  | materializing
  | releasing
  | leaving
  | done
  deriving DecidableEq, Repr

def AsyncPhase.pending : AsyncPhase → Bool
  | waiting | storing => true
  | materializing | releasing | leaving | done => false

structure AsyncPut where
  request : WireRequest
  phase : AsyncPhase
  deriving DecidableEq, Repr

def AsyncPut.write (put : AsyncPut) : LoggedWrite (Text × Text) Bytes :=
  ⟨(put.request.ns, put.request.key), put.request.payload, !put.phase.pending⟩

structure AsyncDaemon (σ : Type) where
  daemon : Daemon σ
  puts : List AsyncPut
  locked : Bool
  inflight : Nat

inductive AsyncStep
  | put (request : WireRequest) (spawns : Bool)
  | run (thread : Nat)
  deriving DecidableEq, Repr

namespace AsyncDaemon

variable {σ : Type}

def count (state : AsyncDaemon σ) : AsyncDaemon σ := { state with inflight := state.inflight + 1 }

def uncount (state : AsyncDaemon σ) : AsyncDaemon σ := { state with inflight := state.inflight - 1 }

def spawn (state : AsyncDaemon σ) (request : WireRequest) : AsyncDaemon σ :=
  { state with puts := state.puts ++ [⟨request, .waiting⟩] }

def moveTo (state : AsyncDaemon σ) (thread : Nat) (put : AsyncPut) (phase : AsyncPhase) :
    AsyncDaemon σ :=
  { state with puts := state.puts.set thread { put with phase } }

variable (backend : KvBackend σ)

/-- A put on the worker itself; one whose worker panics is not followed any further. -/
def fallBack (state : AsyncDaemon σ) (request : WireRequest) : Option (AsyncDaemon σ) :=
  let (response?, daemon) := dispatchPut backend request state.daemon
  response?.map fun response => { state with
    daemon
    puts := if response.status = Status.ok then state.puts ++ [⟨request, .done⟩] else state.puts }

def run (state : AsyncDaemon σ) (thread : Nat) : Option (AsyncDaemon σ) := do
  let put ← state.puts[thread]?
  match put.phase with
  | .waiting =>
    if state.locked then none else some { state.moveTo thread put .storing with locked := true }
  | .storing =>
    match Daemon.onStore (backend.putKv put.request.ns put.request.key put.request.payload)
      state.daemon with
    | (.ok _, daemon) => some { state.moveTo thread put .materializing with daemon }
    | (.error _, daemon) => some { state.moveTo thread put .releasing with daemon }
  | .materializing =>
    -- A panic goes on alike: as it unwinds, the guards give up the lock and the count.
    some { state.moveTo thread put .releasing with
      daemon := (materializeLargePayload backend put.request.ns put.request.key
        put.request.payload 1 state.daemon).2 }
  | .releasing => some { state.moveTo thread put .leaving with locked := false }
  | .leaving => some (state.moveTo thread put .done).uncount
  | .done => none

def step (state : AsyncDaemon σ) : AsyncStep → Option (AsyncDaemon σ)
  | .put request true => some (state.count.spawn request)
  | .put request false => state.count.uncount.fallBack backend request
  | .run thread => state.run backend thread

def system (start : Daemon σ) : System (AsyncDaemon σ) AsyncStep where
  start := ⟨start, [], false, 0⟩
  step := step backend

end AsyncDaemon

def WireRequest.needs (request : WireRequest) (ns key : Text) : Prop :=
  ns = request.ns ∧ ∃ manifest, parseLargeManifest request.payload = some manifest ∧
    ∃ index < manifest.chunkCount, key = largeChunkKey manifest.id index

def WireRequest.follows (request earlier : WireRequest) : Prop :=
  (earlier.ns = request.ns ∧ earlier.key = request.key) ∨ request.needs earlier.ns earlier.key

namespace AsyncDaemon

variable {σ : Type}

def InOrder (state : AsyncDaemon σ) : AsyncStep → Prop
  | .put request spawns => spawns = false → ∀ put ∈ state.puts, put.phase.pending = true →
      ¬ request.follows put.request
  | .run thread => ∀ put, state.puts[thread]? = some put → put.phase = .waiting →
      ∀ earlier ∈ state.puts.take thread, earlier.phase.pending = true →
        ¬ put.request.follows earlier.request

def lastAcknowledged (state : AsyncDaemon σ) (ns key : Text) : Option Bytes :=
  LoggedWrite.lastPromised (state.puts.map AsyncPut.write) (ns, key)

end AsyncDaemon

end WombatKV
