import WombatKV.Daemon.AsyncPut

/-! How the daemon's main function ends. -/

namespace WombatKV

inductive HandlerStage
  | idle
  | counted (request : WireRequest)
  | spawned (thread : Nat)
  | exited (failed : Bool)
  deriving DecidableEq, Repr

def HandlerStage.isCounted : HandlerStage → Bool
  | counted _ => true
  | idle | spawned _ | exited _ => false

structure Handler where
  isWorker : Bool
  stage : HandlerStage
  deriving DecidableEq, Repr

structure ServeConfig where
  shmPrefixes : List Text
  tcpAddrs : List Text
  httpAddrs : List Text
  deriving DecidableEq, Repr

namespace ServeConfig

def servesRemote (config : ServeConfig) : Bool := config.tcpAddrs ≠ [] || config.httpAddrs ≠ []

def prefixes (config : ServeConfig) : List Text :=
  if config.shmPrefixes = [] ∧ config.servesRemote = false then ["default".toList]
  else config.shmPrefixes

end ServeConfig

inductive MainPhase
  | spawning (left : List Text) (handles : List Nat)
  | parked
  | joining (handles : List Nat) (anyFailure : Bool)
  | draining (anyFailure : Bool)
  | closing (anyFailure timedOut : Bool)
  | returned (success timedOut : Bool)
  deriving DecidableEq, Repr

structure DaemonProcess (σ : Type) where
  async : AsyncDaemon σ
  handlers : List Handler
  main : MainPhase
  signalled : Bool
  acknowledged : List Nat

inductive ProcessStep
  | signal
  | main (spawns elapsed : Bool)
  | connect
  | count (handler : Nat) (request : WireRequest)
  | spawn (handler : Nat) (spawns : Bool)
  | acknowledge (handler : Nat)
  | write (thread : Nat)
  | exit (handler : Nat) (failed : Bool)
  deriving DecidableEq, Repr

namespace DaemonProcess

variable {σ : Type} (backend : KvBackend σ) (config : ServeConfig)

def moveTo (process : DaemonProcess σ) (index : Nat) (handler : Handler) (stage : HandlerStage) :
    DaemonProcess σ :=
  { process with handlers := process.handlers.set index { handler with stage } }

def mainStep (process : DaemonProcess σ) (spawns elapsed : Bool) : Option (DaemonProcess σ) :=
  match process.main with
  | .spawning [] handles => some { process with main := .joining handles false }
  | .spawning (_ :: left) handles =>
    if spawns then
      some { process with
        handlers := process.handlers ++ [⟨true, .idle⟩]
        main := .spawning left (handles ++ [process.handlers.length]) }
    else some { process with main := .returned false false }
  | .parked =>
    some (if process.signalled then { process with main := .returned true false } else process)
  | .joining [] anyFailure => some { process with main := .draining anyFailure }
  | .joining (handle :: rest) anyFailure =>
    match process.handlers[handle]? with
    | some ⟨_, .exited failed⟩ =>
      some { process with main := .joining rest (anyFailure || failed) }
    | _ => none
  | .draining anyFailure =>
    if process.async.inflight = 0 then
      some { process with main := .closing anyFailure false }
    else if elapsed then some { process with main := .closing anyFailure true }
    else some process
  | .closing anyFailure timedOut =>
    some { process with main := .returned (!anyFailure) timedOut }
  | .returned _ _ => none

def liveStep (process : DaemonProcess σ) : ProcessStep → Option (DaemonProcess σ)
  | .signal => some { process with signalled := true }
  | .main spawns elapsed => process.mainStep spawns elapsed
  | .connect =>
    if config.servesRemote then
      some { process with handlers := process.handlers ++ [⟨false, .idle⟩] }
    else none
  | .count index request => do
    let handler ← process.handlers[index]?
    match handler.stage with
    | .idle =>
      some { process.moveTo index handler (.counted request) with async := process.async.count }
    | _ => none
  | .spawn index spawns => do
    let handler ← process.handlers[index]?
    match handler.stage with
    | .counted request =>
      if spawns then
        some { process.moveTo index handler (.spawned process.async.puts.length) with
          async := process.async.spawn request }
      else
        (process.async.uncount.fallBack backend request).map fun async =>
          { process.moveTo index handler .idle with async }
    | _ => none
  | .acknowledge index => do
    let handler ← process.handlers[index]?
    match handler.stage with
    | .spawned thread =>
      some { process.moveTo index handler .idle with
        acknowledged := process.acknowledged ++ [thread] }
    | _ => none
  | .write thread => do
    let async ← process.async.run backend thread
    return { process with async }
  | .exit index failed => do
    let handler ← process.handlers[index]?
    if handler.isWorker ∧ handler.stage = .idle then
      return process.moveTo index handler (.exited failed)
    else none

def step (process : DaemonProcess σ) (label : ProcessStep) : Option (DaemonProcess σ) :=
  match process.main with
  | .returned _ _ => none
  | _ => process.liveStep backend config label

def start (daemon : Daemon σ) : DaemonProcess σ where
  async := ⟨daemon, [], false, 0⟩
  handlers := []
  main := if config.prefixes = [] ∧ config.servesRemote then .parked
    else .spawning config.prefixes []
  signalled := false
  acknowledged := []

def system (daemon : Daemon σ) : System (DaemonProcess σ) ProcessStep where
  start := start config daemon
  step := step backend config

def allCompleted (process : DaemonProcess σ) : Bool :=
  process.acknowledged.all fun thread =>
    (process.async.puts[thread]?).any fun put => put.phase = .done

def calm (process : DaemonProcess σ) : ProcessStep → Bool
  | .main spawns _ => spawns
  | .count index _ =>
    match process.handlers[index]?, process.main with
    | some ⟨false, _⟩, .spawning _ _ => true
    | some ⟨false, _⟩, .joining _ _ => true
    | some ⟨false, _⟩, _ => false
    | _, _ => true
  | _ => true

end DaemonProcess

end WombatKV
