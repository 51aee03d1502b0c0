import WombatKV.Node.KvRuns

/-! The reference oracle of the simulation, side by side with the store. -/

namespace WombatKV

inductive OracleGetOutcome
  | hit (payload : Bytes)
  | miss
  deriving DecidableEq, Repr

structure WombatKvOracle where
  store : Std.ExtTreeMap Text Bytes
  opsObserved : UInt64

def compositeKey (ns key : Text) : Text := ns ++ (Char.ofNat 1 :: key)

namespace WombatKvOracle

def new : WombatKvOracle := ⟨∅, 0⟩

def putKv (oracle : WombatKvOracle) (ns key : Text) (payload : Bytes) : WombatKvOracle where
  store := oracle.store.insert (compositeKey ns key) payload
  opsObserved := saturatingAdd oracle.opsObserved 1

def putKvFailed (oracle : WombatKvOracle) (_ns _key : Text) : WombatKvOracle where
  store := oracle.store
  opsObserved := saturatingAdd oracle.opsObserved 1

def getKv (oracle : WombatKvOracle) (ns key : Text) : OracleGetOutcome :=
  match oracle.store[compositeKey ns key]? with
  | some payload => .hit payload
  | none => .miss

end WombatKvOracle

def GetOutcome.observed : GetOutcome → OracleGetOutcome
  | .hit _ payload => .hit payload
  | .miss => .miss

inductive KvOp
  | put (ns key : Text) (payload : Bytes) (fault : Option WalStoreError)
  | get (ns key : Text)
  deriving DecidableEq

def firstFault (fault : Option WalStoreError) : Nat → Option WalStoreError
  | 0 => fault
  | _ + 1 => none

def driveOracle : WombatKVKvStore → WombatKvOracle → List KvOp →
    List (Except EmbedError OracleGetOutcome × OracleGetOutcome)
  | _, _, [] => []
  | store, oracle, .put ns key payload fault :: rest =>
    match WombatKVKvStore.putKv ns key payload true (store.withFaults (firstFault fault)) with
    | (.ok _, after) => driveOracle after (oracle.putKv ns key payload) rest
    | (.error _, after) => driveOracle after (oracle.putKvFailed ns key) rest
  | store, oracle, .get ns key :: rest =>
    match WombatKVKvStore.getKv ns key true (store.withFaults fun _ => none) with
    | (outcome, after) =>
      (outcome.map GetOutcome.observed, oracle.getKv ns key) :: driveOracle after oracle rest

def lastPayload (counts : Text → Text → Bytes → Option WalStoreError → Bool) (ops : List KvOp) :
    Option Bytes :=
  ops.foldl (fun last op => match op with
    | .put ns key payload fault => if counts ns key payload fault then some payload else last
    | .get _ _ => last) none

def commits (store : WombatKVKvStore) (payload : Bytes) (fault : Option WalStoreError) : Bool :=
  fault.isNone && (encodeWithHeader store.zstd payload store.compression).toBool

def lastAttempt (store : WombatKVKvStore) (file : Text) : List KvOp → Option Bytes :=
  lastPayload fun ns key _ _ => store.fileName ns key = file

def lastCommitted (store : WombatKVKvStore) (composite : Text) : List KvOp → Option Bytes :=
  lastPayload fun ns key payload fault => compositeKey ns key = composite ∧
    commits store payload fault = true

def AttemptsCommitted (store : WombatKVKvStore) (ops : List KvOp) : Prop :=
  ∀ before ns key after, ops = before ++ .get ns key :: after →
    lastAttempt store (store.fileName ns key) before =
      lastCommitted store (compositeKey ns key) before

end WombatKV
