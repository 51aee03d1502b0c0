import WombatKV.Daemon.RemoteClient

/-! Large puts and gets of one key, one request at a time. -/

namespace WombatKV

open RemoteKvStoreClient

inductive WriterState
  | sending (next : Nat)
  | published
  | stopped
  deriving DecidableEq, Repr

inductive ReaderState
  | idle
  | fetching (manifest : LargeManifest) (next : Nat) (out : Bytes)
  | done (result : Except RemoteError (Option Bytes))
  deriving DecidableEq

structure PutRace (σ : Type) where
  session : Session σ
  writer : Nat → WriterState
  reader : Nat → ReaderState

inductive RaceStep
  | put (writer : Nat)
  | get (reader : Nat)
  deriving DecidableEq, Repr

section Race

variable {σ : Type} (backend : KvBackend σ) (display : WireCodecError → Text)
variable (blake3 : Bytes → BlockHash) (ns key : Text)

def WriterState.request (payload : Bytes) : WriterState → Option (Text × Bytes × WriterState)
  | .sending next =>
    if next < chunkCount payload then
      some (largeChunkKey (largePayloadId blake3 ns key payload) next, payloadChunk payload next,
        .sending (next + 1))
    else some (key, utf8 (manifestFor blake3 ns key payload), .published)
  | .published => none
  | .stopped => none

def ReaderState.asks : ReaderState → Option Text
  | .idle => some key
  | .fetching manifest next _ =>
    if next < manifest.chunkCount then some (largeChunkKey manifest.id next) else none
  | .done _ => none

def ReaderState.begin (session : Session σ) : Except RemoteError RemoteGetOutcome → ReaderState
  | .error error => .done (.error error)
  | .ok .miss => .done (.ok none)
  | .ok (.hit _ bytes) =>
    match parseLargeManifest (bytes.read session) with
    | some manifest =>
      if maxVecBytes < manifest.totalLen then .done (.error .panicked)
      else .fetching manifest 0 []
    | none => .done (.ok (some (bytes.read session)))

def ReaderState.fetch (manifest : LargeManifest) (next : Nat) (out : Bytes) (session : Session σ) :
    Except RemoteError RemoteGetOutcome → ReaderState
  | .error error => .done (.error error)
  | .ok .miss =>
    .done (.error (.daemonStatus Status.miss ("missing large-payload chunk ".toList ++
      (natText next ++ (" for ".toList ++ manifest.id)))))
  | .ok (.hit _ bytes) => .fetching manifest (next + 1) (out ++ bytes.read session)

def ReaderState.finish (manifest : LargeManifest) (out : Bytes) : ReaderState :=
  if out.length ≠ manifest.totalLen then
    .done (.error (.transport ("large-payload length mismatch: expected ".toList ++
      (natText manifest.totalLen ++ (" got ".toList ++ natText out.length)))))
  else .done (.ok (some out))

namespace PutRace

variable (state : PutRace σ)

def put (payload : Bytes) (writer : Nat) : Option (PutRace σ) :=
  ((state.writer writer).request blake3 ns key payload).map fun (key, value, next) =>
    let (result, session) := putSmallKv backend display ns key value state.session
    { state with
      session
      writer := Function.update state.writer writer (if result.isOk then next else .stopped) }

def get (reader : Nat) : Option (PutRace σ) :=
  match state.reader reader with
  | .idle =>
    let (result, session) := getSmallKv backend display ns key state.session
    some { state with
      session, reader := Function.update state.reader reader (.begin session result) }
  | .fetching manifest next out =>
    if next < manifest.chunkCount then
      let (result, session) :=
        getSmallKv backend display ns (largeChunkKey manifest.id next) state.session
      some { state with
        session
        reader := Function.update state.reader reader (.fetch manifest next out session result) }
    else some { state with
      reader := Function.update state.reader reader (.finish manifest out) }
  | .done _ => none

end PutRace

def putRace (payloads : List Bytes) (session : Session σ) : System (PutRace σ) RaceStep where
  start := ⟨session, fun _ => .sending 0, fun _ => .idle⟩
  step state
    | .put writer =>
      payloads[writer]?.bind fun payload => state.put backend display blake3 ns key payload writer
    | .get reader => state.get backend display ns key reader

variable (contents : σ → Contents)

def TiersAgree (asked : Text) (session : Session σ) : Prop :=
  let held := contents session.daemon.store
  match getSmallKv backend display ns asked session with
  | (.error _, _) => False
  | (.ok .miss, _) => held ns asked = none
  | (.ok (.hit _ bytes), after) =>
    held ns asked = some (bytes.read after) ∨
      (asked = key ∧ held.payloadAt ns key = some (bytes.read after))

def StepAgrees (state : PutRace σ) : RaceStep → Prop
  | .put _ => True
  | .get reader => ∀ asked, (state.reader reader).asks key = some asked →
      TiersAgree backend display ns key contents asked state.session

end Race

end WombatKV
