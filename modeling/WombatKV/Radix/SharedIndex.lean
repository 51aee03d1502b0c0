import WombatKV.Foundation.Linearizability
import WombatKV.Foundation.Runs
import WombatKV.Radix.MetadataIndex

/-! Overlapping calls on one SlateDB index, key by key. -/

namespace WombatKV

/-- Whether a request would still find what it found when it prepared its writes. -/
def IndexRequest.stillFinds (found current : Option BlockMeta) : IndexRequest → Bool
  | insert _ _ _ | get _ => true
  | getAndTouch _ now => decide (current.map (·.touch now) = found.map (·.touch now))
  | remove _ => current.isSome

inductive RequestPhase
  | started
  | changing (found : Option BlockMeta) (writes : List DbWrite) (answer : IndexAnswer)
  | settling (writes : List DbWrite) (answer : IndexAnswer)
  | returned

structure OpenRequest where
  request : IndexRequest
  phase : RequestPhase

structure SharedIndex where
  index : SlateDbMetadataIndex
  calls : List OpenRequest
  history : List (CallEvent IndexRequest IndexAnswer)

inductive SharedStep
  | invoke (request : IndexRequest)
  | run (number : Nat)

def SlateDbMetadataIndex.prepare (index : SlateDbMetadataIndex) : IndexRequest → RequestPhase
  | .insert hash block now => .changing none (index.insert hash block now) .inserted
  | .get hash => .settling [] (.record (index.get hash))
  | .getAndTouch hash now =>
    match index.getAndTouch hash now with
    | some (block, writes) => .changing (index.readMeta hash) writes (.record (some block))
    | none => .settling [] (.record none)
  | .remove hash =>
    match index.remove hash with
    | some writes => .changing (index.readMeta hash) writes (.removed true)
    | none => .settling [] (.removed false)

namespace SharedIndex

def moveTo (shared : SharedIndex) (number : Nat) (call : OpenRequest) (phase : RequestPhase) :
    SharedIndex :=
  { shared with calls := shared.calls.set number { call with phase } }

def run (shared : SharedIndex) (number : Nat) : Option SharedIndex := do
  let call ← shared.calls[number]?
  match call.phase with
  | .started => some (shared.moveTo number call (shared.index.prepare call.request))
  | .changing _ [] answer => some (shared.moveTo number call (.settling [] answer))
  | .changing _ (write :: rest) answer | .settling (write :: rest) answer =>
    some { shared.moveTo number call (.settling rest answer) with index := shared.index.write write }
  | .settling [] answer =>
    some { shared.moveTo number call .returned with
      history := shared.history ++ [.returned number answer] }
  | .returned => none

def step (shared : SharedIndex) : SharedStep → Option SharedIndex
  | .invoke request =>
    some { shared with
      calls := shared.calls ++ [⟨request, .started⟩]
      history := shared.history ++ [.invoked shared.calls.length request] }
  | .run number => shared.run number

def undisturbed (shared : SharedIndex) : SharedStep → Bool
  | .invoke _ => true
  | .run number =>
    match shared.calls[number]? with
    | some ⟨request, .changing found _ _⟩ =>
      request.stillFinds found (shared.index.readMeta request.hash)
    | _ => true

end SharedIndex

def sharedSystem (index : SlateDbMetadataIndex) : System SharedIndex SharedStep where
  start := ⟨index, [], []⟩
  step := SharedIndex.step

def indexObject (index : SlateDbMetadataIndex) :
    SequentialObject SlateDbMetadataIndex IndexRequest IndexAnswer where
  start := index
  apply state request := state.answer (.onHash request)

def RemovedForGood (history : List (CallEvent IndexRequest IndexAnswer)) (hash : BlockHash) :
    Prop :=
  ∃ call front back, history = front ++ .invoked call (.remove hash) :: back ∧
    .returned call (.removed true) ∈ back ∧
    ∀ other block now, .invoked other (.insert hash block now) ∈ history →
      ∃ answer, .returned other answer ∈ front

end WombatKV
