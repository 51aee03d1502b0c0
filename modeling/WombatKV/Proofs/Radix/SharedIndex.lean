import WombatKV.Proofs.Radix.IndexHistory
import WombatKV.Radix.SharedIndex

/-! When overlapping calls on one index seem to come in order. -/

namespace WombatKV

open List

section

open SlateDbMetadataIndex

def IndexRequest.answer (record : Option BlockMeta) : IndexRequest → IndexAnswer
  | insert _ _ _ => .inserted
  | get _ => .record record
  | getAndTouch _ now => .record (record.map (·.touch now))
  | remove _ => .removed record.isSome

variable {index state start : SlateDbMetadataIndex} {request : IndexRequest}

theorem answer_command : (state.answer (.onHash request)).1 =
    request.answer (state.readMeta request.hash) := by
  cases request with
  | insert hash block now => rfl
  | get hash => rfl
  | getAndTouch hash now =>
    simp only [answer, getAndTouch, IndexRequest.answer, IndexRequest.hash]
    cases state.readMeta hash with
    | none => rfl
    | some block => rfl
  | remove hash =>
    simp only [answer, remove, IndexRequest.answer, IndexRequest.hash]
    cases state.readMeta hash with
    | none => rfl
    | some block => rfl

theorem answer_performs : (state.answer (.onHash request)).2 = state.perform request := by
  cases request with
  | insert hash block now => rfl
  | get hash => rfl
  | getAndTouch hash now =>
    simp only [answer, perform, changes]
    cases state.getAndTouch hash now with
    | none => rfl
    | some written => rfl
  | remove hash =>
    simp only [answer, perform, changes]
    cases state.remove hash with
    | none => rfl
    | some writes => rfl

theorem readMeta_command (hash : BlockHash) :
    (state.answer (.onHash request)).2.readMeta hash =
      if request.hash = hash then request.effect (state.readMeta hash) else state.readMeta hash := by
  rw [answer_performs]
  split
  · rename_i isHash
    rw [← isHash]
    exact readMeta_perform_self
  · rename_i apart
    exact readMeta_perform_other apart

section Absence

variable {hash : BlockHash}

def IndexRequest.InsertsNot (request : IndexRequest) (hash : BlockHash) : Prop :=
  ∀ block now, request ≠ .insert hash block now

theorem readMeta_absent (missing : state.readMeta hash = none) (never : request.InsertsNot hash) :
    (state.answer (.onHash request)).2.readMeta hash = none := by
  rw [readMeta_command, missing]
  split
  · rename_i isHash
    cases request with
    | insert found block now => exact absurd (isHash ▸ rfl) (never block now)
    | get found => rfl
    | getAndTouch found now => rfl
    | remove found => rfl
  · rfl

theorem stateFrom_absent {rest : List (LoggedCall IndexRequest IndexAnswer)}
    (missing : state.readMeta hash = none) (never : ∀ entry ∈ rest, entry.op.InsertsNot hash) :
    ((indexObject start).stateFrom state rest).readMeta hash = none := by
  induction rest generalizing state with
  | nil => exact missing
  | cons entry others ih =>
    have next := readMeta_absent missing (never entry mem_cons_self)
    exact ih next fun other member => never other (mem_cons_of_mem _ member)

end Absence

def DbWrite.Topological (write : DbWrite) : Prop :=
  ∃ origin : SlateDbMetadataIndex, ∃ hash block,
    write = .delete (origin.keyTopological hash block) ∨
      ∃ value, write = .put (origin.keyTopological hash block) value

theorem DbWrite.Topological.readMeta {write : DbWrite} (topological : write.Topological)
    (hash : BlockHash) : (index.write write).readMeta hash = index.readMeta hash := by
  obtain ⟨origin, named, block, rfl | ⟨value, rfl⟩⟩ := topological
  · exact readMeta_deleteTopological
  · exact readMeta_putTopological

inductive Prepared (rkyv : Rkyv) :
    IndexRequest → Option BlockMeta → List DbWrite → IndexAnswer → Prop
  | insert {origin : SlateDbMetadataIndex} (archive : origin.rkyv = rkyv) (hash : BlockHash)
      (block : BlockMeta) (now : UInt64) :
      Prepared rkyv (.insert hash block now) none (origin.putMeta hash (block.touch now)) .inserted
  | touch {origin : SlateDbMetadataIndex} (archive : origin.rkyv = rkyv) (hash : BlockHash)
      (block : BlockMeta) (now : UInt64) :
      Prepared rkyv (.getAndTouch hash now) (some block) (origin.putMeta hash (block.touch now))
        (.record (some (block.touch now)))
  | remove (origin : SlateDbMetadataIndex) (hash : BlockHash) (block : BlockMeta) :
      Prepared rkyv (.remove hash) (some block)
        [.delete (keyByHash hash), .delete (origin.keyTopological hash block)] (.removed true)

theorem prepare_cases (index : SlateDbMetadataIndex) (request : IndexRequest) :
    (∃ found writes answer, index.prepare request = .changing found writes answer ∧
      Prepared index.rkyv request found writes answer) ∨
    (index.prepare request = .settling [] (request.answer (index.readMeta request.hash)) ∧
      request.effect (index.readMeta request.hash) = index.readMeta request.hash) := by
  cases request with
  | insert hash block now => exact .inl ⟨_, _, _, rfl, .insert rfl hash block now⟩
  | get hash => exact .inr ⟨rfl, rfl⟩
  | getAndTouch hash now =>
    simp only [prepare, getAndTouch, IndexRequest.answer, IndexRequest.effect, IndexRequest.hash]
    cases index.readMeta hash with
    | none => exact .inr ⟨rfl, rfl⟩
    | some block => exact .inl ⟨_, _, _, rfl, .touch rfl hash block now⟩
  | remove hash =>
    simp only [prepare, remove, IndexRequest.answer, IndexRequest.effect, IndexRequest.hash]
    cases index.readMeta hash with
    | none => exact .inr ⟨rfl, rfl⟩
    | some block => exact .inl ⟨_, _, _, rfl, .remove index hash block⟩

theorem Prepared.first {found : Option BlockMeta} {writes : List DbWrite} {answer : IndexAnswer}
    (prepared : Prepared index.rkyv request found writes answer)
    (undisturbed : request.stillFinds found (index.readMeta request.hash) = true) :
    ∃ write rest, writes = write :: rest ∧ (∀ later ∈ rest, later.Topological) ∧
      request.answer (index.readMeta request.hash) = answer ∧
      ∀ hash, (index.write write).readMeta hash =
        if request.hash = hash then request.effect (index.readMeta hash)
        else index.readMeta hash := by
  have mirrored (origin : SlateDbMetadataIndex) (hash : BlockHash) (block : BlockMeta)
      (value : Bytes) : ∀ later ∈ [DbWrite.put (origin.keyTopological hash block) value],
        later.Topological := by
    intro later member
    exact ⟨origin, hash, block, .inr ⟨value, mem_singleton.mp member⟩⟩
  cases prepared with
  | @insert origin archive hash block now =>
    refine ⟨_, _, rfl, mirrored origin hash _ _, rfl, fun other => ?_⟩
    rw [archive]
    exact readMeta_putHash
  | @touch origin archive hash block now =>
    have stamped : (index.readMeta hash).map (·.touch now) = some (block.touch now) :=
      of_decide_eq_true undisturbed
    refine ⟨_, _, rfl, mirrored origin hash _ _, congrArg IndexAnswer.record stamped,
      fun other => ?_⟩
    rw [archive, readMeta_putHash]
    by_cases isHash : hash = other
    · rw [if_pos isHash, ← isHash, ← stamped]
      exact (if_pos rfl).symm
    · exact (if_neg isHash).trans (if_neg isHash).symm
  | remove origin hash block =>
    refine ⟨_, _, rfl, ?_, congrArg IndexAnswer.removed undisturbed,
      fun other => readMeta_deleteHash⟩
    intro later member
    exact ⟨origin, hash, block, .inl (mem_singleton.mp member)⟩

end

open SlateDbMetadataIndex

variable {index start : SlateDbMetadataIndex}

def Placed (rkyv : Rkyv) (log : List (LoggedCall IndexRequest IndexAnswer)) (number : Nat)
    (call : OpenRequest) : Prop :=
  match call.phase with
  | .started => number ∉ callsOf log
  | .changing found writes answer =>
    number ∉ callsOf log ∧ Prepared rkyv call.request found writes answer
  | .settling writes answer =>
    ⟨number, call.request, answer⟩ ∈ log ∧ ∀ write ∈ writes, write.Topological
  | .returned => True

structure Ordered (start : SlateDbMetadataIndex) (shared : SharedIndex)
    (log : List (LoggedCall IndexRequest IndexAnswer)) : Prop where
  linear : Linearization (indexObject start) shared.history log
  archive : shared.index.rkyv = start.rkyv
  records : ∀ hash, shared.index.readMeta hash =
    ((indexObject start).stateFrom start log).readMeta hash
  known : ∀ number request, .invoked number request ∈ shared.history →
    ∃ call, shared.calls[number]? = some call ∧ call.request = request
  calls : ∀ number call, shared.calls[number]? = some call →
    .invoked number call.request ∈ shared.history ∧ Placed start.rkyv log number call

namespace Ordered

variable {shared next : SharedIndex} {log : List (LoggedCall IndexRequest IndexAnswer)}
  {number : Nat} {call : OpenRequest} {answer : IndexAnswer}

theorem placed_mono {rkyv : Rkyv} {entry : LoggedCall IndexRequest IndexAnswer}
    (placed : Placed rkyv log number call) (apart : number ≠ entry.call) :
    Placed rkyv (log ++ [entry]) number call := by
  have unplaced (absent : number ∉ callsOf log) : number ∉ callsOf (log ++ [entry]) := by
    simp only [callsOf, map_append, mem_append, map_cons, map_nil, mem_singleton, not_or]
    exact ⟨absent, apart⟩
  obtain ⟨request, phase⟩ := call
  cases phase with
  | started => exact unplaced placed
  | changing found writes answer => exact ⟨unplaced placed.1, placed.2⟩
  | settling writes answer => exact ⟨mem_append_left _ placed.1, placed.2⟩
  | returned => trivial

variable (ordered : Ordered start shared log)

include ordered

section

variable (there : shared.calls[number]? = some call)

include there

theorem move {phase : RequestPhase} {history : List (CallEvent IndexRequest IndexAnswer)}
    {longer : List (LoggedCall IndexRequest IndexAnswer)}
    (linear : Linearization (indexObject start) history longer) (archive : index.rkyv = start.rkyv)
    (records : ∀ hash, index.readMeta hash = ((indexObject start).stateFrom start longer).readMeta
      hash)
    (events : ∀ call request, .invoked call request ∈ history ↔ .invoked call request ∈
      shared.history)
    (others : ∀ other call, other ≠ number → Placed start.rkyv log other call → Placed start.rkyv
      longer other call) (own : Placed start.rkyv longer number { call with phase }) :
    Ordered start ⟨index, shared.calls.set number { call with phase }, history⟩ longer := by
  have inside := (List.getElem?_eq_some_iff.mp there).1
  refine ⟨linear, archive, records, ?_, ?_⟩
  · intro other request invoked
    obtain ⟨found, present, same⟩ := ordered.known other request ((events _ _).mp invoked)
    by_cases isNumber : number = other
    · subst isNumber
      rw [there] at present
      cases present
      exact ⟨_, List.getElem?_set_self inside, same⟩
    · exact ⟨found, (List.getElem?_set_ne isNumber).trans present, same⟩
  · intro other found present
    by_cases isNumber : number = other
    · subst isNumber
      rw [List.getElem?_set_self inside] at present
      cases present
      exact ⟨(events _ _).mpr (ordered.calls number call there).1, own⟩
    · rw [List.getElem?_set_ne isNumber] at present
      obtain ⟨invoked, placed⟩ := ordered.calls other found present
      exact ⟨(events _ _).mpr invoked, others other found (Ne.symm isNumber) placed⟩

theorem place {writes : List DbWrite} (unplaced : number ∉ callsOf log)
    (archive : index.rkyv = start.rkyv)
    (answers : call.request.answer (shared.index.readMeta call.request.hash) = answer)
    (changes : ∀ hash, index.readMeta hash = if call.request.hash = hash then call.request.effect
      (shared.index.readMeta hash) else shared.index.readMeta hash)
    (later : ∀ write ∈ writes, write.Topological) :
    Ordered start { shared.moveTo number call (.settling writes answer) with index }
      (log ++ [⟨number, call.request, answer⟩]) := by
  have invoked := (ordered.calls number call there).1
  refine ordered.move there ?_ archive ?_ (fun _ _ => Iff.rfl) ?_ ?_
  · refine ordered.linear.point invoked unplaced ?_
    show (SlateDbMetadataIndex.answer ((indexObject start).stateFrom start log)
      (.onHash call.request)).1 = answer
    rw [answer_command, ← ordered.records, answers]
  · intro hash
    rw [SequentialObject.stateFrom_append]
    show index.readMeta hash = (SlateDbMetadataIndex.answer
      ((indexObject start).stateFrom start log) (.onHash call.request)).2.readMeta hash
    rw [readMeta_command, changes, ordered.records]
  · intro other found apart placed
    exact placed_mono placed apart
  · exact ⟨mem_append_right _ (mem_singleton_self _), later⟩

omit there in
theorem invoke (request : IndexRequest) :
    Ordered start { shared with
      calls := shared.calls ++ [⟨request, .started⟩]
      history := shared.history ++ [.invoked shared.calls.length request] } log := by
  have fresh : shared.calls.length ∉ callsOf log := by
    intro member
    obtain ⟨entry, placed, same⟩ := mem_map.mp member
    obtain ⟨found, present, -⟩ := ordered.known _ _ (ordered.linear.invoked entry placed)
    have inside := (List.getElem?_eq_some_iff.mp present).1
    omega
  refine ⟨ordered.linear.invoke fresh, ordered.archive, ordered.records, ?_, ?_⟩
  · intro number found invoked
    rcases mem_append.mp invoked with earlier | last
    · obtain ⟨call, present, same⟩ := ordered.known number found earlier
      exact ⟨call, List.getElem?_append_left (List.getElem?_eq_some_iff.mp present).1 ▸ present,
        same⟩
    · cases mem_singleton.mp last
      exact ⟨⟨request, .started⟩, List.getElem?_concat_length, rfl⟩
  · intro number call present
    by_cases inside : number < shared.calls.length
    · rw [List.getElem?_append_left inside] at present
      obtain ⟨invoked, placed⟩ := ordered.calls number call present
      exact ⟨mem_append_left _ invoked, placed⟩
    · have last : number = shared.calls.length := by
        have bound := (List.getElem?_eq_some_iff.mp present).1
        rw [length_append, length_singleton] at bound
        omega
      subst last
      rw [List.getElem?_concat_length] at present
      cases present
      exact ⟨mem_append_right _ (mem_singleton_self _), fresh⟩

theorem mirror {write : DbWrite} {rest : List DbWrite}
    (settling : call.phase = .settling (write :: rest) answer) :
    Ordered start { shared.moveTo number call (.settling rest answer) with
      index := shared.index.write write } log := by
  have placed := (ordered.calls number call there).2
  rw [Placed, settling] at placed
  obtain ⟨logged, topological⟩ := placed
  have harmless := topological write mem_cons_self
  refine ordered.move there ordered.linear ?_ ?_ (fun _ _ => Iff.rfl) (fun _ _ _ => id) ?_
  · obtain ⟨origin, hash, block, rfl | ⟨value, rfl⟩⟩ := harmless
    · exact ordered.archive
    · exact ordered.archive
  · intro hash
    rw [harmless.readMeta, ordered.records]
  · exact ⟨logged, fun later member => topological later (mem_cons_of_mem _ member)⟩

theorem finish (settling : call.phase = .settling [] answer) :
    Ordered start { shared.moveTo number call .returned with
      history := shared.history ++ [.returned number answer] } log := by
  have placed := (ordered.calls number call there).2
  rw [Placed, settling] at placed
  refine ordered.move there (ordered.linear.finish placed.1) ordered.archive ordered.records
    (fun _ _ => by simp) (fun _ _ _ => id) trivial

theorem change {found : Option BlockMeta} {writes : List DbWrite}
    (changing : call.phase = .changing found writes answer)
    (undisturbed : call.request.stillFinds found (shared.index.readMeta call.request.hash) = true) :
    ∃ write rest, writes = write :: rest ∧
      Ordered start { shared.moveTo number call (.settling rest answer) with
        index := shared.index.write write } (log ++ [⟨number, call.request, answer⟩]) := by
  have placed := (ordered.calls number call there).2
  rw [Placed, changing] at placed
  obtain ⟨unplaced, prepared⟩ := placed
  rw [← ordered.archive] at prepared
  obtain ⟨write, rest, same, later, answers, changes⟩ := prepared.first undisturbed
  have archive : (shared.index.write write).rkyv = start.rkyv := by
    rw [← ordered.archive]
    cases write with
    | put key value => rfl
    | delete key => rfl
  exact ⟨write, rest, same, ordered.place there unplaced archive answers changes later⟩

theorem prepare (started : call.phase = .started) :
    ∃ longer, Ordered start (shared.moveTo number call (shared.index.prepare call.request))
      longer := by
  have unplaced := (ordered.calls number call there).2
  rw [Placed, started] at unplaced
  rcases prepare_cases shared.index call.request with
    ⟨found, writes, answer, ready, prepared⟩ | ⟨ready, unchanged⟩
  · refine ⟨log, ?_⟩
    rw [ready]
    rw [ordered.archive] at prepared
    exact ordered.move there ordered.linear ordered.archive ordered.records
      (fun _ _ => Iff.rfl) (fun _ _ _ => id) ⟨unplaced, prepared⟩
  · -- The read is all that the call does.
    refine ⟨log ++ [⟨number, call.request,
      call.request.answer (shared.index.readMeta call.request.hash)⟩], ?_⟩
    rw [ready]
    refine ordered.place there unplaced ordered.archive rfl ?_ (fun _ member => by cases member)
    intro hash
    split
    · rename_i isHash
      rw [← isHash, unchanged]
    · rfl

end

theorem step {label : SharedStep} (undisturbed : shared.undisturbed label = true)
    (made : shared.step label = some next) : ∃ longer, Ordered start next longer := by
  cases label with
  | invoke request =>
    cases made
    exact ⟨log, ordered.invoke request⟩
  | run number =>
    rw [SharedIndex.step, SharedIndex.run] at made
    obtain ⟨call, there, made⟩ := Option.bind_eq_some_iff.mp made
    obtain ⟨request, phase⟩ := call
    cases phase with
    | started =>
      cases made
      exact ordered.prepare there rfl
    | changing found writes answer =>
      simp only [SharedIndex.undisturbed, there] at undisturbed
      obtain ⟨write, rest, rfl, later⟩ := ordered.change there rfl undisturbed
      cases made
      exact ⟨_, later⟩
    | settling writes answer =>
      cases writes with
      | nil =>
        cases made
        exact ⟨log, ordered.finish there rfl⟩
      | cons write rest =>
        cases made
        exact ⟨log, ordered.mirror there rfl⟩
    | returned => cases made

end Ordered

section Removal

variable {hash : BlockHash} {log : List (LoggedCall IndexRequest IndexAnswer)}

theorem Linearization.removal {history : List (CallEvent IndexRequest IndexAnswer)}
    {call : Nat} {front back : List (CallEvent IndexRequest IndexAnswer)}
    (linear : Linearization (indexObject start) history log)
    (happened : history = front ++ .invoked call (.remove hash) :: back)
    (only : ∀ request, .invoked call request ∈ history → request = .remove hash)
    (returned : .returned call (.removed true) ∈ back)
    (inserts : ∀ other block now, .invoked other (.insert hash block now) ∈ history →
      ∃ answer, .returned other answer ∈ front) :
    ∃ first entry last, log = first ++ entry :: last ∧ entry.call = call ∧
      entry.op = .remove hash ∧ ∀ later ∈ last, later.op.InsertsNot hash := by
  have answered : .returned call (.removed true) ∈ history := by
    rw [happened]
    exact mem_append_right _ (mem_cons_of_mem _ returned)
  obtain ⟨entry, placed, isCall, -⟩ := linear.answered call _ answered
  subst isCall
  obtain ⟨first, last, split⟩ := append_of_mem placed
  refine ⟨first, entry, last, split, rfl, only _ (linear.invoked entry placed), ?_⟩
  intro later member block now inserted
  have inLog : later ∈ log := by
    rw [split]
    exact mem_append_right _ (mem_cons_of_mem _ member)
  have invoked := linear.invoked later inLog
  rw [inserted] at invoked
  obtain ⟨answer, before⟩ := inserts later.call block now invoked
  exact linear.not_behind split happened before (mem_map_of_mem member)

theorem stateFrom_removed {first last : List (LoggedCall IndexRequest IndexAnswer)}
    {entry : LoggedCall IndexRequest IndexAnswer} (removes : entry.op = .remove hash)
    (never : ∀ later ∈ last, later.op.InsertsNot hash) :
    ((indexObject start).stateFrom start (first ++ entry :: last)).readMeta hash = none := by
  rw [SequentialObject.stateFrom_append]
  have gone : (answer ((indexObject start).stateFrom start first)
      (.onHash entry.op)).2.readMeta hash = none := by
    rw [readMeta_command, removes]
    exact if_pos rfl
  show ((indexObject start).stateFrom (answer
    ((indexObject start).stateFrom start first) (.onHash entry.op)).2 last).readMeta hash = none
  exact stateFrom_absent gone never

theorem Linearization.get_removed {history : List (CallEvent IndexRequest IndexAnswer)}
    {call reader : Nat} {front back events others : List (CallEvent IndexRequest IndexAnswer)}
    {answer : IndexAnswer} (linear : Linearization (indexObject start) history log)
    (happened : history = front ++ .invoked call (.remove hash) :: back)
    (only : ∀ request, .invoked call request ∈ history → request = .remove hash)
    (returned : .returned call (.removed true) ∈ back)
    (inserts : ∀ other block now, .invoked other (.insert hash block now) ∈ history →
      ∃ answer, .returned other answer ∈ front)
    (later : history = events ++ .invoked reader (.get hash) :: others)
    (reads : ∀ request, .invoked reader request ∈ history → request = .get hash)
    (after : .returned call (.removed true) ∈ events)
    (answered : .returned reader answer ∈ history) : answer = .record none := by
  obtain ⟨first, entry, last, split, rfl, removes, never⟩ :=
    linear.removal happened only returned inserts
  obtain ⟨found, placed, rfl, rfl⟩ := linear.answered reader answer answered
  have behind := linear.behind split later after placed
  obtain ⟨between, rest, parts⟩ := append_of_mem behind
  have gone := @stateFrom_removed start hash first between entry removes fun other member =>
    never other (by rw [parts]; exact mem_append_left _ member)
  have explains := linear.explains
  rw [split, parts, ← cons_append, ← append_assoc] at explains
  have answers := (SequentialObject.explains_append.mp explains).2.1
  rw [← answers, reads _ (linear.invoked found placed)]
  show (answer ((indexObject start).stateFrom start (first ++ entry :: between))
    (.onHash (.get hash))).1 = .record none
  rw [answer_command]
  exact congrArg IndexAnswer.record gone

end Removal

/--
As long as no touch or removal writes where it would no longer find what it has read, the calls
answer as if they were made one after another in an order that keeps to real time, and a hash that
was removed for good is absent.
-/
theorem undisturbed_calls_linearize (start : SlateDbMetadataIndex) {shared : SharedIndex}
    (reached : (sharedSystem start).Reachable
      (fun shared label => shared.undisturbed label = true) shared) :
    Linearizable (indexObject start) shared.history ∧
      ∀ hash, RemovedForGood shared.history hash → shared.index.readMeta hash = none := by
  have initial : ∃ log, Ordered start (sharedSystem start).start log := by
    refine ⟨[], .nil, rfl, fun _ => rfl, ?_, ?_⟩
    · intro number request invoked
      cases invoked
    · intro number call present
      cases present
  have kept (before : SharedIndex) (label : SharedStep) (after : SharedIndex)
      (holds : ∃ log, Ordered start before log) (undisturbed : before.undisturbed label = true)
      (made : (sharedSystem start).step before label = some after) :
      ∃ log, Ordered start after log := by
    obtain ⟨log, ordered⟩ := holds
    exact ordered.step undisturbed made
  obtain ⟨log, ordered⟩ := reached.invariant initial kept
  refine ⟨⟨log, ordered.linear⟩, ?_⟩
  rintro hash ⟨call, front, back, happened, returned, inserts⟩
  have only (request : IndexRequest) (invoked : .invoked call request ∈ shared.history) :
      request = .remove hash := by
    have removal : .invoked call (.remove hash) ∈ shared.history := by
      rw [happened]
      exact mem_append_right _ mem_cons_self
    obtain ⟨found, present, same⟩ := ordered.known call request invoked
    obtain ⟨other, there, isRemoval⟩ := ordered.known call _ removal
    rw [present] at there
    cases there
    exact same.symm.trans isRemoval
  obtain ⟨first, entry, last, split, -, removes, never⟩ :=
    ordered.linear.removal happened only returned inserts
  rw [ordered.records, split]
  exact stateFrom_removed removes never

def wholeCall (number steps : Nat) (request : IndexRequest) : List SharedStep :=
  .invoke request :: List.replicate steps (.run number)

def touchAroundRemoval : List SharedStep :=
  wholeCall 0 4 (.insert BlockMeta.zeroHash smallRoot 1) ++
    (wholeCall 1 1 (.getAndTouch BlockMeta.zeroHash 2) ++
      (wholeCall 2 4 (.remove BlockMeta.zeroHash) ++
        (List.replicate 3 (.run 1) ++ wholeCall 3 2 (.get BlockMeta.zeroHash))))

def resurrection : List (CallEvent IndexRequest IndexAnswer) :=
  [.invoked 0 (.insert BlockMeta.zeroHash smallRoot 1), .returned 0 .inserted,
    .invoked 1 (.getAndTouch BlockMeta.zeroHash 2), .invoked 2 (.remove BlockMeta.zeroHash),
    .returned 2 (.removed true), .returned 1 (.record (some (smallRoot.touch 2))),
    .invoked 3 (.get BlockMeta.zeroHash), .returned 3 (.record (some (smallRoot.touch 2)))]

theorem resurrection_inserts (other : Nat) (block : BlockMeta) (now : UInt64)
    (invoked : .invoked other (.insert BlockMeta.zeroHash block now) ∈ resurrection) :
    ∃ answer, .returned other answer ∈ resurrection.take 3 := by
  have first : other = 0 := by
    simp only [resurrection, mem_cons, CallEvent.invoked.injEq, reduceCtorEq, and_false,
      or_false, not_mem_nil] at invoked
    exact invoked.1
  subst first
  exact ⟨.inserted, by simp [resurrection]⟩

theorem resurrection_not_linearizable (start : SlateDbMetadataIndex) :
    ¬ Linearizable (indexObject start) resurrection := by
  rintro ⟨log, linear⟩
  have removal (request : IndexRequest) (invoked : .invoked 2 request ∈ resurrection) :
      request = .remove BlockMeta.zeroHash := by
    simpa [resurrection] using invoked
  have reading (request : IndexRequest) (invoked : .invoked 3 request ∈ resurrection) :
      request = .get BlockMeta.zeroHash := by
    simpa [resurrection] using invoked
  have happened : resurrection = resurrection.take 3 ++ .invoked 2 (.remove BlockMeta.zeroHash) ::
      resurrection.drop 4 := rfl
  have later : resurrection = resurrection.take 6 ++ .invoked 3 (.get BlockMeta.zeroHash) ::
      resurrection.drop 7 := rfl
  have found : IndexAnswer.record (some (smallRoot.touch 2)) = .record none :=
    linear.get_removed happened removal (by simp [resurrection]) resurrection_inserts later reading
      (by simp [resurrection]) (by simp [resurrection])
  cases found

def observedAfter (check : SharedIndex → SharedStep → Bool) (labels : List SharedStep) :
    Option (List (CallEvent IndexRequest IndexAnswer) × Option BlockMeta) :=
  ((sharedSystem emptyIndex).run check (sharedSystem emptyIndex).start labels).map fun shared =>
    (shared.history, shared.index.readMeta BlockMeta.zeroHash)

theorem removed_hash_comes_back :
    ∃ shared, (sharedSystem emptyIndex).Reachable (fun _ _ => True) shared ∧
      ¬ Linearizable (indexObject emptyIndex) shared.history ∧
      RemovedForGood shared.history BlockMeta.zeroHash ∧
      shared.index.readMeta BlockMeta.zeroHash ≠ none := by
  have summary : observedAfter (fun _ _ => true) touchAroundRemoval =
      some (resurrection, some (smallRoot.touch 2)) := by
    decide +kernel
  obtain ⟨shared, ran, observed⟩ := Option.map_eq_some_iff.mp summary
  obtain ⟨history, stored⟩ := Prod.mk.injEq .. ▸ observed
  refine ⟨shared, System.Reachable.start.run (fun _ _ _ => trivial) ran, ?_, ?_, ?_⟩
  · rw [history]
    exact resurrection_not_linearizable emptyIndex
  · rw [history]
    exact ⟨2, resurrection.take 3, resurrection.drop 4, rfl, by simp [resurrection],
      resurrection_inserts⟩
  · rw [stored]
    exact Option.some_ne_none _

def touchesOverlap : List SharedStep :=
  wholeCall 0 4 (.insert BlockMeta.zeroHash smallRoot 1) ++
    (wholeCall 1 1 (.getAndTouch BlockMeta.zeroHash 2) ++
      (wholeCall 2 1 (.getAndTouch BlockMeta.zeroHash 3) ++
        (List.replicate 3 (.run 1) ++ List.replicate 3 (.run 2))))

theorem undisturbed_calls_linearize_overlap :
    ∃ shared, (sharedSystem emptyIndex).run SharedIndex.undisturbed (sharedSystem emptyIndex).start
        touchesOverlap = some shared ∧
      shared.history.length = 6 ∧ Linearizable (indexObject emptyIndex) shared.history := by
  have summary : ((sharedSystem emptyIndex).run SharedIndex.undisturbed
      (sharedSystem emptyIndex).start touchesOverlap).map
        (fun shared => shared.history.length) = some 6 := by
    decide +kernel
  obtain ⟨shared, ran, length⟩ := Option.map_eq_some_iff.mp summary
  have reached := System.Reachable.start.run (fun _ _ passed => passed) ran
  exact ⟨shared, ran, length, (undisturbed_calls_linearize emptyIndex reached).1⟩

end WombatKV



