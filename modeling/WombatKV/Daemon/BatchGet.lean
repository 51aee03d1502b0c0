import WombatKV.Daemon.Wire
import WombatKV.Foundation.Runs

/-! A batched get: a thread for each key, and the flag they share. -/

namespace WombatKV

inductive FetchOutcome (ε : Type)
  | hit (payload : Bytes)
  | miss
  | error (error : ε)

inductive WorkerPhase (ε : Type)
  | start
  | fetching
  | missed
  | done (result : Except ε (Option Bytes))

structure BatchGet (ε : Type) where
  sawMiss : Bool
  workers : List (WorkerPhase ε)

namespace BatchGet

variable {κ ε : Type}

def step (keys : List κ) (outcome : κ → FetchOutcome ε) (batch : BatchGet ε) :
    Nat × Bool → Option (BatchGet ε)
  | (index, sees) => do
    let key ← keys[index]?
    let move (phase : WorkerPhase ε) := { batch with workers := batch.workers.set index phase }
    match ← batch.workers[index]? with
    | .start =>
      if sees && batch.sawMiss then some (move (.done (.ok none))) else some (move .fetching)
    | .fetching =>
      match outcome key with
      | .hit payload => some (move (.done (.ok (some payload))))
      | .miss => some (move .missed)
      | .error error => some (move (.done (.error error)))
    | .missed => some { move (.done (.ok none)) with sawMiss := true }
    | .done _ => none

def join : List (WorkerPhase ε) → Option (List (Except ε (Option Bytes)))
  | [] => some []
  | .done result :: rest => (join rest).map (result :: ·)
  | .start :: _ | .fetching :: _ | .missed :: _ => none

def collect : List (Except ε (Option Bytes)) → Except ε (Option (List Bytes))
  | [] => .ok (some [])
  | .ok (some payload) :: rest => (collect rest).map (·.map (payload :: ·))
  | .ok none :: _ => .ok none
  | .error error :: _ => .error error

end BatchGet

inductive GetBlocksError (ε : Type)
  | batch (error : ε)
  | decode (error : WireCodecError)
  | count (decoded expected : Nat)

def getKvBlocks {ε : Type} (expected : Nat) :
    Except ε (Option (List Bytes)) → Except (GetBlocksError ε) (Option (List Bytes))
  | .error error => .error (.batch error)
  | .ok none => .ok none
  | .ok (some payloads) => do
    let items ← (decodeBytesBatch (encodeBytesBatch payloads)).mapError .decode
    if items.length ≠ expected then throw (.count items.length expected)
    else return some items

def batchGetSystem {κ ε : Type} (keys : List κ) (outcome : κ → FetchOutcome ε) :
    System (BatchGet ε) (Nat × Bool) where
  start := ⟨false, keys.map fun _ => .start⟩
  step := BatchGet.step keys outcome

end WombatKV
