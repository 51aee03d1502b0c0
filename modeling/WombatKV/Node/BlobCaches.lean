import WombatKV.Foundation.Runs
import WombatKV.Foundation.Text

/-! The two local cache tiers, and puts that overlap on a flat file. -/

namespace WombatKV

structure FlatFileKvBlobCache where
  files : Std.ExtTreeMap Text Bytes

namespace FlatFileKvBlobCache

def isFileNameChar (char : Char) : Bool :=
  isAsciiAlphanumeric char || char = '-' || char = '_' || char = '.' || char = '='

def pathForKey (key : Text) : Text :=
  key.map (fun char => if isFileNameChar char then char else '_') ++ ".kv".toList

def get (cache : FlatFileKvBlobCache) (key : Text) : Option Bytes := cache.files[pathForKey key]?

def put (cache : FlatFileKvBlobCache) (key : Text) (payload : Bytes) (written : Bool) :
    FlatFileKvBlobCache :=
  if written then ⟨cache.files.insert (pathForKey key) payload⟩ else cache

def clear (_cache : FlatFileKvBlobCache) : FlatFileKvBlobCache := ⟨∅⟩

def remove (cache : FlatFileKvBlobCache) (key : Text) (removed : Bool) : FlatFileKvBlobCache :=
  if removed then ⟨cache.files.erase (pathForKey key)⟩ else cache

def lose (cache : FlatFileKvBlobCache) (file : Text) : FlatFileKvBlobCache :=
  ⟨cache.files.erase file⟩

end FlatFileKvBlobCache

structure FoyerHybridCache where
  entries : Std.ExtTreeMap Text Bytes

namespace FoyerHybridCache

def get (cache : FoyerHybridCache) (key : Text) : Option Bytes := cache.entries[key]?

def contains (cache : FoyerHybridCache) (key : Text) : Bool := cache.entries.contains key

def put (cache : FoyerHybridCache) (key : Text) (payload : Bytes) : FoyerHybridCache :=
  ⟨cache.entries.insert key payload⟩

def clear (_cache : FoyerHybridCache) : FoyerHybridCache := ⟨∅⟩

def lose (cache : FoyerHybridCache) (key : Text) : FoyerHybridCache := ⟨cache.entries.erase key⟩

end FoyerHybridCache

inductive FlatPhase
  | idle
  | writing (file position : Nat)
  | written
  | over
  deriving DecidableEq, Repr

structure FlatPut where
  payload : Bytes
  phase : FlatPhase
  deriving DecidableEq, Repr

def FlatPut.active (put : FlatPut) : Bool :=
  match put.phase with
  | .idle | .over => false
  | .writing _ _ | .written => true

structure FlatRace where
  contents : List Bytes
  tmp : Option Nat
  canonical : Option Nat
  puts : List FlatPut
  deriving DecidableEq, Repr

inductive FlatTurn
  | truncate (put : Nat)
  | append (put count : Nat)
  | close (put : Nat)
  | fail (put : Nat)
  | rename (put : Nat)

namespace FlatRace

def overlay (position : Nat) (part content : Bytes) : Bytes :=
  (content ++ List.replicate (position - content.length) 0).take position ++
    (part ++ content.drop (position + part.length))

def move (race : FlatRace) (index : Nat) (put : FlatPut) (phase : FlatPhase) : FlatRace :=
  { race with puts := race.puts.set index { put with phase } }

def step (race : FlatRace) : FlatTurn → Option FlatRace
  | .truncate index => do
    let put ← race.puts[index]?
    match put.phase, race.tmp with
    | .idle, some file =>
      some ({ race with contents := race.contents.set file [] }.move index put (.writing file 0))
    | .idle, none =>
      let file := race.contents.length
      some ({ race with contents := race.contents ++ [[]], tmp := some file }.move index put
        (.writing file 0))
    | _, _ => none
  | .append index count => do
    let put ← race.puts[index]?
    match put.phase with
    | .writing file position =>
      let part := slice put.payload position (position + count)
      let contents := race.contents.modify file (overlay position part)
      some ({ race with contents }.move index put (.writing file (position + part.length)))
    | _ => none
  | .close index => do
    let put ← race.puts[index]?
    match put.phase with
    | .writing _ position =>
      if position = put.payload.length then some (race.move index put .written) else none
    | _ => none
  | .fail index => do
    let put ← race.puts[index]?
    match put.phase with
    | .writing _ _ => some (race.move index put .over)
    | _ => none
  | .rename index => do
    let put ← race.puts[index]?
    match put.phase, race.tmp with
    | .written, some file =>
      some ({ race with tmp := none, canonical := some file }.move index put .over)
    | .written, none => some (race.move index put .over)
    | _, _ => none

def get (race : FlatRace) : Option Bytes := race.canonical.bind (race.contents[·]?)

def alone (race : FlatRace) : FlatTurn → Bool
  | .truncate _ => race.puts.all fun put => !put.active
  | _ => true

end FlatRace

def flatRaceSystem (payloads : List Bytes) : System FlatRace FlatTurn where
  start := ⟨[], none, none, payloads.map (⟨·, .idle⟩)⟩
  step := FlatRace.step

end WombatKV
