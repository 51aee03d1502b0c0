import WombatKV.Store.S3Runs

/-! What holds of every thread while requests keep apart. -/

namespace WombatKV

open List

namespace S3Bucket

variable {bucket : S3Bucket} {key other : Text} {payload : Bytes}

theorem objects_store : (bucket.store key payload).objects[other]? =
    if key = other then some ⟨payload, bucket.nextVersion⟩ else bucket.objects[other]? := by
  simp [store, Std.ExtTreeMap.getElem?_insert]

@[simp] theorem scheme_store : (bucket.store key payload).scheme = bucket.scheme := rfl

@[simp] theorem current_store_self : (bucket.store key payload).current key = some payload := by
  simp [current, objects_store]

theorem not_admits_store (payload : Bytes) {condition : PutCondition}
    (conditional : condition ≠ .always) (admitted : bucket.admits key condition = true) :
    (bucket.store key payload).admits key condition = false := by
  cases condition with
  | always => exact absurd rfl conditional
  | ifNoneMatch => simp [admits, objects_store]
  | ifMatch header =>
    cases found : bucket.objects[key]? with
    | none => simp [admits, found] at admitted
    | some object =>
      have honoured : bucket.scheme.honours header object.version = true := by
        simpa [admits, found] using admitted
      rw [Bool.eq_false_iff]
      intro again
      have renewed : bucket.scheme.honours header bucket.nextVersion = true := by
        simpa [admits, objects_store] using again
      have same := bucket.scheme.single header _ _ honoured renewed
      have older := bucket.older key object found
      omega

end S3Bucket

open Dialogue S3ObjectStore

theorem S3ObjectStore.attempts_pos (store : S3ObjectStore) : ∃ more, store.attempts = more + 1 := by
  refine Nat.exists_eq_succ_of_ne_zero ?_
  simp only [S3ObjectStore.attempts]
  omega

section Replies

variable {bucket : S3Bucket} {delivery : Delivery} {key : Text}

theorem RefusedStatus.not_success (status : RefusedStatus) : isSuccess status.val = false := by
  simpa [isSuccess] using status.property.1

theorem getBody_ok {bytes : Bytes}
    (read : getBody key (bucket.reply delivery (.get key)) = .ok bytes) :
    bucket.current key = some bytes := by
  cases delivery with
  | answered =>
    simp only [S3Bucket.reply, S3Bucket.respond] at read
    cases found : bucket.objects[key]? with
    | none => simp [found, getBody] at read
    | some object => simpa [found, getBody, isSuccess, S3Bucket.current] using read
  | refused status =>
    simp [S3Bucket.reply, getBody, status.property.2, status.not_success] at read
  | lostRequest error => cases read
  | lostReply error => cases read

theorem getBody_absent {missing : Text}
    (read : getBody key (bucket.reply delivery (.get key)) = .error (.objectNotFound missing)) :
    bucket.current key = none := by
  cases delivery with
  | answered =>
    simp only [S3Bucket.reply, S3Bucket.respond] at read
    cases found : bucket.objects[key]? with
    | none => simp [S3Bucket.current, found]
    | some object => simp [found, getBody, isSuccess] at read
  | refused status =>
    simp [S3Bucket.reply, getBody, status.property.2, status.not_success] at read
  | lostRequest error => cases read
  | lostReply error => cases read

theorem putDone_ok {payload : Bytes} {condition : PutCondition}
    (done : putDone key (bucket.reply delivery (.put key payload condition)) = .ok ()) :
    delivery = .answered := by
  cases delivery with
  | answered => rfl
  | refused status =>
    simp [S3Bucket.reply, putDone, status.not_success] at done
  | lostRequest error => cases done
  | lostReply error => cases done

theorem headTag_some {etag : Text}
    (read : headTag key (bucket.reply delivery (.head key)) = .ok (some etag)) :
    ∃ object, bucket.objects[key]? = some object ∧ etag = bucket.scheme.tagOf object.version := by
  cases delivery with
  | answered =>
    simp only [S3Bucket.reply, S3Bucket.respond] at read
    cases found : bucket.objects[key]? with
    | none => simp [found, headTag] at read
    | some object =>
      refine ⟨object, rfl, ?_⟩
      simp [found, headTag, isSuccess, Option.filter_eq_some_iff] at read
      exact read.1.symm
  | refused status =>
    simp [S3Bucket.reply, headTag, status.property.2, status.not_success] at read
  | lostRequest error => cases read
  | lostReply error => cases read

theorem putStatus_success {payload : Bytes} {condition : PutCondition} {status : UInt16}
    (replied : putStatus key (bucket.reply delivery (.put key payload condition)) = .ok status)
    (success : isSuccess status = true) :
    delivery = .answered ∧ bucket.admits key condition = true := by
  cases delivery with
  | answered =>
    refine ⟨rfl, ?_⟩
    cases replied
    by_cases admitted : bucket.admits key condition = true
    · exact admitted
    · simp only [S3Bucket.respond, if_neg admitted] at success
      split at success <;> cases success
  | refused refusal =>
    cases replied
    cases refusal.not_success.symm.trans success
  | lostRequest error => cases replied
  | lostReply error => cases replied

end Replies

def S3Request.Reads : S3Request → Prop
  | .get _ | .head _ => True
  | .put .. => False

theorem currentTokenForKey_reads (store : S3ObjectStore) (key : Text) :
    (store.currentTokenForKey key).Asks S3Request.Reads := by
  refine asks_bind (asks_bind (asks_retry trivial _ _ _) ?_) ?_
  · intro found
    match found with
    | .ok bytes =>
      refine asks_bind (asks_retry trivial _ _ _) fun tag => ?_
      match tag with
      | .ok (some etag) => trivial
      | .ok none => trivial
      | .error error => trivial
    | .error (.objectNotFound _) => trivial
    | .error (.corruptWal _) => trivial
    | .error .objectStorePoisoned => trivial
    | .error (.invalidConfig _) => trivial
    | .error (.s3 _) => trivial
  · intro found
    cases found with
    | ok found => trivial
    | error error => trivial

namespace S3Run

variable {ι α : Type} {program : ι → S3Program α} {run after : S3Run ι α} {index : Nat}

theorem step_deliver {delivery : Delivery}
    (made : run.step program (.deliver index delivery) = some after) :
    ∃ input asked request next, run.threads[index]? = some ⟨input, asked, .ask request next⟩ ∧
      after.bucket = run.bucket.deliver delivery request ∧
      after.threads = run.threads.set index
        ⟨input, asked ++ [request], next (run.bucket.reply delivery request)⟩ ∧
      after.writes = run.writes ++ ((run.bucket.deliveredWrite delivery request).map fun write =>
        { write with thread := index : ThreadWrite }).toList := by
  simp only [step] at made
  split at made
  · rename_i input asked request next found
    cases made
    exact ⟨input, asked, request, next, found, rfl, rfl, rfl⟩
  · cases made

def ownWrites (run : S3Run ι α) (index : Nat) : List S3Write :=
  (run.writesOf index).map ThreadWrite.toS3Write

theorem ownWrites_self {write : Option S3Write}
    (grown : after.writes = run.writes ++ (write.map fun write => { write with thread := index :
      ThreadWrite }).toList) : after.ownWrites index = run.ownWrites index ++ write.toList := by
  cases write with
  | none => simp [ownWrites, writesOf, grown]
  | some write => simp [ownWrites, writesOf, grown]

theorem ownWrites_other {other : Nat} {write : Option S3Write}
    (grown : after.writes = run.writes ++ (write.map fun write => { write with thread := index :
      ThreadWrite }).toList) (different : other ≠ index) :
    after.ownWrites other = run.ownWrites other := by
  cases write with
  | none => simp [ownWrites, writesOf, grown]
  | some write => simp [ownWrites, writesOf, grown, different.symm]

structure Phased (phase : S3Bucket → List S3Write → S3Thread ι α → Prop) (run : S3Run ι α) :
    Prop where
  bounded : ∀ write ∈ run.writes, write.thread < run.threads.length
  phases : ∀ index thread, run.threads[index]? = some thread →
    phase run.bucket (run.ownWrites index) thread

variable {phase : S3Bucket → List S3Write → S3Thread ι α → Prop}

theorem Phased.begin (phased : run.Phased phase) {thread : S3Thread ι α}
    (begins : phase run.bucket [] thread) :
    Phased phase { run with threads := run.threads ++ [thread] } where
  bounded write member := by
    have inside := phased.bounded write member
    simp only [length_append, length_singleton]
    omega
  phases index found present := by
    by_cases old : index < run.threads.length
    · rw [List.getElem?_append_left old] at present
      exact phased.phases index found present
    · have new : index = run.threads.length ∧ thread = found := by
        rw [List.getElem?_append_right (by omega), List.getElem?_singleton] at present
        split at present
        · exact ⟨by omega, Option.some.inj present⟩
        · cases present
      obtain ⟨rfl, rfl⟩ := new
      have none : run.writesOf run.threads.length = [] := by
        rw [writesOf, filter_eq_nil_iff]
        intro write member
        have inside := phased.bounded write member
        simpa using inside.ne
      change phase run.bucket ((run.writesOf run.threads.length).map _) thread
      rw [none]
      exact begins

theorem Phased.deliver (phased : run.Phased phase) {delivery : Delivery}
    (made : run.step program (.deliver index delivery) = some after)
    (own : ∀ writes input asked request next, phase run.bucket writes ⟨input, asked, .ask request
      next⟩ → phase (run.bucket.deliver delivery request) (writes ++ (run.bucket.deliveredWrite
      delivery request).toList) ⟨input, asked ++ [request], next (run.bucket.reply delivery
      request)⟩)
    (others : ∀ writes request thread other rival, run.threads[index]? = some thread →
      thread.program.pending = some request → other ≠ index → run.threads[other]? = some rival →
      phase run.bucket writes rival → phase (run.bucket.deliver delivery request) writes rival) :
    after.Phased phase := by
  obtain ⟨input, asked, request, next, found, sameBucket, sameThreads, grown⟩ := step_deliver made
  have inside : index < run.threads.length := (List.getElem?_eq_some_iff.mp found).1
  refine ⟨fun write member => ?_, fun other thread present => ?_⟩
  · rw [sameThreads, length_set]
    rw [grown, mem_append, Option.mem_toList, Option.map_eq_some_iff] at member
    rcases member with earlier | ⟨made, _, rfl⟩
    · exact phased.bounded write earlier
    · exact inside
  · rw [sameThreads, List.getElem?_set] at present
    rw [sameBucket]
    by_cases same : index = other
    · subst same
      rw [if_pos rfl, if_pos inside] at present
      cases present
      rw [ownWrites_self grown]
      exact own _ _ _ _ _ (phased.phases index _ found)
    · rw [if_neg same] at present
      rw [ownWrites_other grown (Ne.symm same)]
      exact others _ _ _ other thread found rfl (Ne.symm same) present
        (phased.phases other thread present)

theorem reachable_phased {bucket : S3Bucket} {clash : S3Request → S3Thread ι α → Bool}
    (begins : ∀ bucket input, phase bucket [] ⟨input, [], program input⟩)
    (own : ∀ bucket writes input asked request next delivery,
      phase bucket writes ⟨input, asked, .ask request next⟩ →
        phase (bucket.deliver delivery request)
          (writes ++ (bucket.deliveredWrite delivery request).toList)
          ⟨input, asked ++ [request], next (bucket.reply delivery request)⟩)
    (others : ∀ bucket writes thread request delivery, clash request thread = false →
      phase bucket writes thread → phase (bucket.deliver delivery request) writes thread)
    (reached : (s3System program bucket).Reachable (Apart clash) run) : run.Phased phase := by
  refine reached.invariant ⟨by simp [s3System], by simp [s3System]⟩ ?_
  rintro before (input | ⟨index, delivery⟩) after phased apart made
  · cases made
    exact phased.begin (begins _ input)
  · have made : before.step program (.deliver index delivery) = some after := made
    refine phased.deliver made (fun writes input asked request next => own _ writes input asked
      request next delivery) ?_
    intro writes request thread other rival found pending different present
    exact others _ writes rival request delivery
      (apart thread request found pending other rival different present)

def isApart (clash : S3Request → S3Thread ι α → Bool) (run : S3Run ι α) : S3Step ι → Bool
  | .begin _ => true
  | .deliver index _ => match run.threads[index]?.bind fun thread => thread.program.pending with
    | some request => (List.range run.threads.length).all fun other =>
      other == index || run.threads[other]?.all fun rival => !clash request rival
    | none => true

theorem isApart_sound {clash : S3Request → S3Thread ι α → Bool} (run : S3Run ι α)
    (label : S3Step ι) (passed : run.isApart clash label = true) : Apart clash run label := by
  cases label with
  | begin input => trivial
  | deliver index delivery =>
    intro thread request found asked other rival different present
    have next : run.threads[index]?.bind (fun thread => thread.program.pending) = some request := by
      rw [found]
      exact asked
    simp only [isApart, next, all_eq_true] at passed
    have inside : other < run.threads.length := (List.getElem?_eq_some_iff.mp present).1
    have kept := passed other (mem_range.mpr inside)
    simpa [different, present] using kept

def answers (run : S3Run ι α) : List (ι × Option α) :=
  run.threads.map fun thread => (thread.input, thread.program.answer)

end S3Run

def valueAfter : Option Bytes → List ThreadWrite → Option Bytes
  | before, [] => before
  | _, write :: rest => valueAfter (some write.payload) rest

theorem valueAfter_append (before : Option Bytes) (writes : List ThreadWrite)
    (last : ThreadWrite) : valueAfter before (writes ++ [last]) = some last.payload := by
  induction writes generalizing before with
  | nil => rfl
  | cons write rest ih => exact ih _

theorem valueAfter_written (first : ThreadWrite) (writes : List ThreadWrite) :
    ∃ write ∈ first :: writes, valueAfter (some first.payload) writes = some write.payload := by
  induction writes generalizing first with
  | nil => exact ⟨first, mem_singleton_self _, rfl⟩
  | cons next rest ih =>
    obtain ⟨write, member, left⟩ := ih next
    exact ⟨write, mem_cons_of_mem _ member, left⟩

theorem chained_append {before : Option Bytes} {writes more : List ThreadWrite} :
    Chained before (writes ++ more) ↔
      Chained before writes ∧ Chained (valueAfter before writes) more := by
  induction writes generalizing before with
  | nil => simp [Chained, valueAfter]
  | cons write rest ih => simp [Chained, valueAfter, ih, and_assoc]

namespace S3Bucket

variable {bucket : S3Bucket} {delivery : Delivery} {request : S3Request} {write : S3Write}

theorem before_of_deliveredWrite (written : bucket.deliveredWrite delivery request = some write) :
    write.before = bucket.current write.key := by
  simp only [deliveredWrite] at written
  split at written
  · cases request with
    | get key => cases written
    | head key => cases written
    | put key payload condition =>
      simp only [writeOf] at written
      split at written
      · cases written
        rfl
      · cases written
  · cases written

theorem key_of_deliveredWrite {key : Text} {payload : Bytes} {condition : PutCondition}
    (written : bucket.deliveredWrite delivery (.put key payload condition) = some write) :
    write.key = key ∧ write.payload = payload := by
  simp only [deliveredWrite, writeOf] at written
  split at written
  · split at written
    · cases written
      exact ⟨rfl, rfl⟩
    · cases written
  · cases written

theorem deliver_of_write (written : bucket.deliveredWrite delivery request = some write) :
    bucket.deliver delivery request = bucket.store write.key write.payload := by
  simp only [deliveredWrite] at written
  split at written
  · rename_i arrives
    simp [deliver, arrives, apply, written]
  · cases written

theorem deliver_of_none (written : bucket.deliveredWrite delivery request = none) :
    bucket.deliver delivery request = bucket := by
  simp only [deliveredWrite] at written
  split at written
  · rename_i arrives
    simp [deliver, arrives, apply, written]
  · rename_i lost
    simp [deliver, lost]

theorem deliver_of_read (reads : request.isPut = false) :
    bucket.deliver delivery request = bucket ∧ bucket.deliveredWrite delivery request = none := by
  have none : bucket.deliveredWrite delivery request = none := by
    cases request with
    | get key => simp [deliveredWrite, writeOf]
    | head key => simp [deliveredWrite, writeOf]
    | put key payload condition => cases reads
  exact ⟨deliver_of_none none, none⟩

end S3Bucket

theorem S3Run.reachable_chained {ι α : Type} {program : ι → S3Program α} {bucket : S3Bucket}
    {allowed : S3Run ι α → S3Step ι → Prop} {run : S3Run ι α}
    (reached : (s3System program bucket).Reachable allowed run) (key : Text) :
    Chained (bucket.current key) (run.writesTo key) ∧
      run.bucket.current key = valueAfter (bucket.current key) (run.writesTo key) := by
  refine @System.Reachable.invariant _ _ (s3System program bucket) allowed (fun run =>
    Chained (bucket.current key) (run.writesTo key) ∧
      run.bucket.current key = valueAfter (bucket.current key) (run.writesTo key))
    ⟨trivial, rfl⟩ ?_ _ reached
  rintro before (input | ⟨index, delivery⟩) after ⟨chained, present⟩ _ made
  · cases made
    exact ⟨chained, present⟩
  · have made : before.step program (.deliver index delivery) = some after := made
    obtain ⟨_, _, request, _, _, sameBucket, _, grown⟩ := step_deliver made
    cases written : before.bucket.deliveredWrite delivery request with
    | none =>
      rw [S3Bucket.deliver_of_none written] at sameBucket
      have same : after.writes = before.writes := by simpa [written] using grown
      rw [writesTo, same, sameBucket]
      exact ⟨chained, present⟩
    | some write =>
      rw [S3Bucket.deliver_of_write written] at sameBucket
      have same : after.writes = before.writes ++ [⟨write, index⟩] := by
        simpa [written] using grown
      rw [writesTo, same, sameBucket, filter_append]
      by_cases own : write.key = key
      · have only : ([⟨write, index⟩] : List ThreadWrite).filter (·.key = key) =
            [⟨write, index⟩] := by simp [own]
        rw [only, chained_append, valueAfter_append, ← own, S3Bucket.current_store_self]
        refine ⟨⟨own ▸ chained, ?_, trivial⟩, rfl⟩
        rw [S3Bucket.before_of_deliveredWrite written, own]
        exact present
      · have other : ([⟨write, index⟩] : List ThreadWrite).filter (·.key = key) = [] := by
          simp [own]
        rw [other, append_nil]
        have same : (before.bucket.store write.key write.payload).current key =
            before.bucket.current key := by
          simp [S3Bucket.current, S3Bucket.objects_store, own]
        rw [same]
        exact ⟨chained, present⟩

end WombatKV
