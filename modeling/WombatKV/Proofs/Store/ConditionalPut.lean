import WombatKV.Proofs.Store.S3Runs

/-! When the verdict of a conditional put is the truth. -/

namespace WombatKV

open Dialogue S3ObjectStore

namespace S3Line

variable {bucket : S3Bucket} {tape : Nat → Delivery} {writes : List S3Write} {key : Text}
  {payload : Bytes} {condition : PutCondition}

def after (request : S3Request) (count : Nat) (line : S3Line) : S3Line :=
  (fun line => (serve request line).2)^[count] line

theorem after_quiet {request : S3Request} (count : Nat) (tape : Nat → Delivery)
    (quiet : ∀ index < count, (tape index).arrives = true → bucket.writeOf request = none) :
    after request count ⟨bucket, tape, writes⟩ =
      ⟨bucket, fun index => tape (index + count), writes⟩ := by
  induction count generalizing tape with
  | zero => rfl
  | succ count ih =>
    have first : (serve request ⟨bucket, tape, writes⟩).2 =
        ⟨bucket, fun index => tape (index + 1), writes⟩ := by
      simp only [serve, S3Bucket.deliver, S3Bucket.deliveredWrite]
      split
      · rename_i arrives
        simp [S3Bucket.apply, quiet 0 (Nat.zero_lt_succ _) arrives]
      · simp
    have rest := ih (fun index => tape (index + 1)) fun index inside =>
      quiet (index + 1) (Nat.succ_lt_succ inside)
    rw [after, Function.iterate_succ_apply, first]
    exact rest

theorem after_once (conditional : condition ≠ .always)
    (admitted : bucket.admits key condition = true) (count : Nat) (tape : Nat → Delivery)
    (lost : ∀ index < count, (tape index).isLost = true)
    (unheard : ∃ index < count, ∃ error, tape index = .lostReply error) :
    after (.put key payload condition) count ⟨bucket, tape, writes⟩ =
      ⟨bucket.store key payload, fun index => tape (index + count),
        writes ++ [⟨key, bucket.current key, payload⟩]⟩ := by
  induction count generalizing tape with
  | zero =>
    obtain ⟨index, inside, _⟩ := unheard
    exact absurd inside (Nat.not_lt_zero _)
  | succ count ih =>
    rw [after, Function.iterate_succ_apply]
    cases first : tape 0 with
    | lostReply error =>
      have stored : (serve (.put key payload condition) ⟨bucket, tape, writes⟩).2 =
          ⟨bucket.store key payload, fun index => tape (index + 1),
            writes ++ [⟨key, bucket.current key, payload⟩]⟩ := by
        simp [serve, first, S3Bucket.deliver, S3Bucket.deliveredWrite, Delivery.arrives,
          S3Bucket.apply, S3Bucket.writeOf, admitted]
      rw [stored]
      refine after_quiet count _ fun _ _ _ => ?_
      simp [S3Bucket.writeOf, S3Bucket.not_admits_store payload conditional admitted]
    | lostRequest error =>
      have same : (serve (.put key payload condition) ⟨bucket, tape, writes⟩).2 =
          ⟨bucket, fun index => tape (index + 1), writes⟩ := by
        simp [serve, first, S3Bucket.deliver, S3Bucket.deliveredWrite, Delivery.arrives]
      rw [same]
      refine ih (fun index => tape (index + 1))
        (fun index inside => lost (index + 1) (Nat.succ_lt_succ inside)) ?_
      obtain ⟨_ | index, inside, error, arrived⟩ := unheard
      · cases first.symm.trans arrived
      · exact ⟨index, Nat.lt_of_succ_lt_succ inside, error, arrived⟩
    | answered =>
      have gone := lost 0 (Nat.zero_lt_succ _)
      rw [first] at gone
      cases gone
    | refused status =>
      have gone := lost 0 (Nat.zero_lt_succ _)
      rw [first] at gone
      cases gone

end S3Line

theorem leadingLost_le (limit : Nat) (tape : Nat → Delivery) : leadingLost limit tape ≤ limit := by
  induction limit generalizing tape with
  | zero => exact le_rfl
  | succ limit ih =>
    rw [leadingLost]
    split
    · exact Nat.succ_le_succ (ih _)
    · exact Nat.zero_le _

variable {limit : Nat} {tape : Nat → Delivery}

theorem isLost_of_lt_leadingLost {index : Nat} (before : index < leadingLost limit tape) :
    (tape index).isLost = true := by
  induction limit generalizing tape index with
  | zero => exact absurd before (Nat.not_lt_zero _)
  | succ limit ih =>
    rw [leadingLost] at before
    split at before
    · rename_i first
      cases index with
      | zero => exact first
      | succ index => exact @ih (fun index => tape (index + 1)) index (Nat.lt_of_succ_lt_succ before)
    · exact absurd before (Nat.not_lt_zero _)

theorem isLost_leadingLost (replied : leadingLost limit tape < limit) :
    (tape (leadingLost limit tape)).isLost = false := by
  induction limit generalizing tape with
  | zero => exact absurd replied (Nat.not_lt_zero _)
  | succ limit ih =>
    rw [leadingLost] at replied ⊢
    split at replied
    · rename_i first
      rw [if_pos first]
      exact ih (Nat.lt_of_succ_lt_succ replied)
    · rename_i first
      rw [if_neg first]
      simpa using first

theorem leadingLost_congr {other : Nat → Delivery}
    (same : ∀ index ≤ leadingLost limit tape, other index = tape index) :
    leadingLost limit other = leadingLost limit tape := by
  induction limit generalizing tape other with
  | zero => rfl
  | succ limit ih =>
    have first := same 0 (Nat.zero_le _)
    rw [leadingLost, leadingLost, first]
    rw [leadingLost] at same
    split
    · rename_i lost
      rw [if_pos lost] at same
      rw [ih fun index inside => same (index + 1) (Nat.succ_le_succ inside)]
    · rfl

theorem S3Bucket.reply_of_heard (bucket : S3Bucket) {delivery : Delivery}
    (heard : delivery.isLost = false) (request : S3Request) :
    ∃ response, bucket.reply delivery request = .ok response := by
  cases delivery with
  | answered => exact ⟨_, rfl⟩
  | refused status => exact ⟨_, rfl⟩
  | lostRequest error => cases heard
  | lostReply error => cases heard

theorem S3Bucket.reply_of_lost (bucket : S3Bucket) {delivery : Delivery}
    (lost : delivery.isLost = true) (request : S3Request) :
    ∃ error, bucket.reply delivery request = .error error := by
  cases delivery with
  | answered => cases lost
  | refused status => cases lost
  | lostRequest error => exact ⟨error, rfl⟩
  | lostReply error => exact ⟨error, rfl⟩

theorem retry_put_run (key : Text) (request : S3Request) (left : Nat) (last : WalStoreError)
    (line : S3Line) :
    let lost := leadingLost left line.tape
    let before := S3Line.after request lost line
    (lost < left → ∃ response,
        before.bucket.reply (line.tape lost) request = .ok response ∧
          (retry request (putStatus key) left last).run S3Line.serve line =
            (.ok response.status, (S3Line.serve request before).2)) ∧
      (lost = left → ∃ error,
        (retry request (putStatus key) left last).run S3Line.serve line = (.error error, before)) := by
  induction left generalizing line last with
  | zero => exact ⟨fun inside => absurd inside (Nat.not_lt_zero _), fun _ => ⟨last, rfl⟩⟩
  | succ left ih =>
    cases first : (line.tape 0).isLost with
    | false =>
      obtain ⟨response, replied⟩ := line.bucket.reply_of_heard first request
      have none : leadingLost (left + 1) line.tape = 0 := by simp [leadingLost, first]
      rw [none]
      refine ⟨fun _ => ⟨response, replied, ?_⟩, fun zero => absurd zero.symm (Nat.succ_ne_zero _)⟩
      simp [retry, Dialogue.run, S3Line.serve, replied, putStatus, S3Line.after]
    | true =>
      obtain ⟨error, failed⟩ := line.bucket.reply_of_lost first request
      have one : leadingLost (left + 1) line.tape =
          leadingLost left (S3Line.serve request line).2.tape + 1 := by
        simp only [leadingLost, first, if_true]
        rfl
      obtain ⟨failure, parsed⟩ : ∃ failure, putStatus key (.error error) = .error failure :=
        ⟨_, rfl⟩
      have again : (retry request (putStatus key) (left + 1) last).run S3Line.serve line =
          (retry request (putStatus key) left failure).run S3Line.serve
            (S3Line.serve request line).2 := by
        simp only [retry, Dialogue.run, S3Line.serve, failed, parsed]
      obtain ⟨heard, unheard⟩ := ih _ (S3Line.serve request line).2
      rw [one, again]
      exact ⟨fun inside => heard (Nat.lt_of_succ_lt_succ inside),
        fun same => unheard (Nat.succ.inj same)⟩

theorem Dialogue.Asks.run_writes {α : Type} {program : S3Program α}
    (reads : program.Asks S3Request.Reads) (line : S3Line) :
    (program.run S3Line.serve line).2.writes = line.writes := by
  have kept (request : S3Request) (state : S3Line) (reads : request.Reads)
      (same : state.writes = line.writes) :
      (S3Line.serve request state).2.writes = line.writes := by
    cases request with
    | get key => simpa [S3Line.serve, S3Bucket.deliveredWrite, S3Bucket.writeOf] using same
    | head key => simpa [S3Line.serve, S3Bucket.deliveredWrite, S3Bucket.writeOf] using same
    | put key payload condition => exact reads.elim
  exact reads.run_keeps kept rfl

theorem verdictOf_run (store : S3ObjectStore) (key : Text) (caller : String) (status : UInt16)
    (line : S3Line) :
    let ended := (store.verdictOf key caller (.ok status)).run S3Line.serve line
    ended.2.writes = line.writes ∧
      (ended.1 = .ok .success ↔ isSuccess status = true) ∧
      ∀ token, ended.1 = .ok (.conflict token) →
        isSuccess status = false ∧ (status = 404 ∨ status = 409 ∨ status = 412) := by
  simp only [verdictOf]
  split
  · rename_i success
    exact ⟨rfl, iff_of_true rfl success, by rintro token ⟨⟩⟩
  · rename_i failure
    have failure : isSuccess status = false := by simpa using failure
    split
    · rename_i conflict
      have writes := (currentTokenForKey_reads store key).run_writes line
      rw [run_bind]
      cases ((store.currentTokenForKey key).run S3Line.serve line).1 with
      | ok token => exact ⟨writes, by simp [Dialogue.run, failure], fun _ _ => ⟨failure, conflict⟩⟩
      | error error => exact ⟨writes, by simp [Dialogue.run, failure], by rintro token ⟨⟩⟩
    · split
      · exact ⟨rfl, by simp [Dialogue.run, failure], by rintro token ⟨⟩⟩
      · exact ⟨rfl, by simp [Dialogue.run, failure], by rintro token ⟨⟩⟩

namespace ConditionalCall

variable {call : ConditionalCall} {store : S3ObjectStore} {key : Text} {payload : Bytes}

theorem program_of_sends {condition : PutCondition} (key : Text) (payload : Bytes)
    (sends : call.sends store = some condition) :
    condition ≠ .always ∧ ∃ caller, call.program store key payload = (do
      let status ← store.conditionalPutWithHeaders key payload condition
      store.verdictOf key caller status) := by
  match call with
  | putIfAbsent =>
    simp only [ConditionalCall.sends] at sends
    split at sends
    · rename_i supported
      cases sends
      exact ⟨by simp, "put_if_absent", by simp [program, S3ObjectStore.putIfAbsent, supported]⟩
    · cases sends
  | putIfTokenMatches (.eTag etag) =>
    simp only [ConditionalCall.sends] at sends
    split at sends
    · rename_i supported
      simp only [Bool.and_eq_true] at supported
      cases sends
      exact ⟨by simp, "put_if_token_matches",
        by simp [program, S3ObjectStore.putIfTokenMatches, supported]⟩
    · cases sends
  | putIfTokenMatches (.contentHash hash) => cases sends

theorem program_of_silent (key : Text) (payload : Bytes) (silent : call.sends store = none) :
    ∃ answer, call.program store key payload = done answer ∧ answer ≠ .ok .success ∧
      ∀ token, answer ≠ .ok (.conflict token) := by
  match call with
  | putIfAbsent =>
    simp only [ConditionalCall.sends] at silent
    split at silent
    · cases silent
    · rename_i unsupported
      exact ⟨.ok .unsupported, by simp [program, S3ObjectStore.putIfAbsent, unsupported], by simp,
        by simp⟩
  | putIfTokenMatches (.eTag etag) =>
    simp only [ConditionalCall.sends] at silent
    split at silent
    · cases silent
    · rename_i unsupported
      simp only [program, S3ObjectStore.putIfTokenMatches]
      split
      · exact ⟨.ok .unsupported, rfl, by simp, by simp⟩
      · rename_i supported
        have invalid : ¬ isHeaderValue (etagIfMatchValue etag) = true := by
          intro valid
          exact unsupported (by simpa [valid] using supported)
        rw [if_neg invalid]
        exact ⟨.error _, rfl, by simp, by simp⟩
  | putIfTokenMatches (.contentHash hash) =>
    simp only [program, S3ObjectStore.putIfTokenMatches]
    split
    · exact ⟨.ok .unsupported, rfl, by simp, by simp⟩
    · exact ⟨.ok .unsupported, rfl, by simp, by simp⟩

theorem truthful_of_ended {bucket : S3Bucket} {tape : Nat → Delivery}
    {result : Except WalStoreError ConditionalPutResult} {after : S3Line}
    (ran : (call.program store key payload).run S3Line.serve ⟨bucket, tape, []⟩ = (result, after)) :
    call.Truthful store key payload bucket tape ↔
      (∀ token, result = .ok (.conflict token) →
        ¬ ∃ write ∈ after.writes, write.key = key ∧ write.payload = payload) ∧
      (result = .ok .success →
        ∃ write ∈ after.writes, write.key = key ∧ write.payload = payload) := by
  simp only [Truthful, ran]

variable {condition : PutCondition} {bucket : S3Bucket} {tape : Nat → Delivery} {line : S3Line}

theorem truthful_of_unheard (sends : call.sends store = some condition)
    (unheard : leadingLost store.attempts tape = store.attempts) :
    call.Truthful store key payload bucket tape := by
  obtain ⟨_, caller, shape⟩ := program_of_sends key payload sends
  obtain ⟨_, exhausted⟩ := retry_put_run key (.put key payload condition) store.attempts
    (.s3 "unknown retry failure") ⟨bucket, tape, []⟩
  obtain ⟨error, ran⟩ := exhausted unheard
  have ended : (call.program store key payload).run S3Line.serve ⟨bucket, tape, []⟩ =
      (.error error, S3Line.after (.put key payload condition) store.attempts
        ⟨bucket, tape, []⟩) := by
    rw [shape, run_bind, conditionalPutWithHeaders, withRetry, ran, unheard]
    rfl
  rw [truthful_of_ended ended]
  exact ⟨by simp, by simp⟩

theorem run_of_heard (key : Text) (payload : Bytes) (bucket : S3Bucket)
    (sends : call.sends store = some condition)
    (heard : leadingLost store.attempts tape < store.attempts) :
    ∃ caller response,
      let lost := leadingLost store.attempts tape
      let before := S3Line.after (.put key payload condition) lost ⟨bucket, tape, []⟩
      before.bucket.reply (tape lost) (.put key payload condition) = .ok response ∧
        (call.program store key payload).run S3Line.serve ⟨bucket, tape, []⟩ =
          (store.verdictOf key caller (.ok response.status)).run S3Line.serve
            (S3Line.serve (.put key payload condition) before).2 := by
  obtain ⟨_, caller, shape⟩ := program_of_sends key payload sends
  obtain ⟨replied, _⟩ := retry_put_run key (.put key payload condition) store.attempts
    (.s3 "unknown retry failure") ⟨bucket, tape, []⟩
  obtain ⟨response, reply, ran⟩ := replied heard
  refine ⟨caller, response, reply, ?_⟩
  rw [shape, run_bind, conditionalPutWithHeaders, withRetry, ran]

theorem refused_status {status : RefusedStatus} : isSuccess status.val = false ∧
    (status.val = 404 ∨ status.val = 409 ∨ status.val = 412 →
      (Delivery.refused status).seemsConflict = true) := by
  refine ⟨by simpa [isSuccess] using status.property.1, ?_⟩
  rintro (missing | conflict | conflict)
  · exact absurd missing status.property.2
  · simp [Delivery.seemsConflict, conflict]
  · simp [Delivery.seemsConflict, conflict]

theorem serve_put_cases {response : S3Response}
    (reply : line.bucket.reply (line.tape 0) (.put key payload condition) = .ok response) :
    let after := (S3Line.serve (.put key payload condition) line).2
    (line.bucket.admits key condition = true ∧ isSuccess response.status = true ∧
        after.writes = line.writes ++ [⟨key, line.bucket.current key, payload⟩]) ∨
      (isSuccess response.status = false ∧ after.writes = line.writes ∧
        (line.bucket.admits key condition = false ∨ ∃ status, line.tape 0 = .refused status ∧
          response.status = status.val)) := by
  cases delivery : line.tape 0 with
  | answered =>
    rw [delivery] at reply
    cases reply
    by_cases admitted : line.bucket.admits key condition = true
    · refine .inl ⟨admitted, ?_, ?_⟩
      · simp [S3Bucket.respond, admitted, isSuccess]
      · simp [S3Line.serve, delivery, S3Bucket.deliveredWrite, Delivery.arrives, S3Bucket.writeOf,
          admitted]
    · refine .inr ⟨?_, ?_, .inl (by simpa using admitted)⟩
      · simp only [S3Bucket.respond, if_neg admitted]
        split <;> decide
      · simp [S3Line.serve, S3Bucket.deliveredWrite, S3Bucket.writeOf, admitted]
  | refused status =>
    rw [delivery] at reply
    cases reply
    refine .inr ⟨refused_status.1, ?_, .inr ⟨status, rfl, rfl⟩⟩
    simp [S3Line.serve, delivery, S3Bucket.deliveredWrite, Delivery.arrives]
  | lostRequest error =>
    rw [delivery] at reply
    cases reply
  | lostReply error =>
    rw [delivery] at reply
    cases reply

theorem truthful_of_unwritten (sends : call.sends store = some condition)
    (heard : leadingLost store.attempts tape < store.attempts)
    (quiet : ∀ index < leadingLost store.attempts tape, (tape index).arrives = true →
      bucket.admits key condition = false) : call.Truthful store key payload bucket tape := by
  obtain ⟨caller, response, reply, ran⟩ := run_of_heard key payload bucket sends heard
  generalize leadingLost store.attempts tape = lost at *
  have before : S3Line.after (.put key payload condition) lost ⟨bucket, tape, []⟩ =
      ⟨bucket, fun index => tape (index + lost), []⟩ :=
    S3Line.after_quiet lost tape fun index inside arrives => by
      simp [S3Bucket.writeOf, quiet index inside arrives]
  rw [before] at reply ran
  have start : tape lost = tape (0 + lost) := by rw [Nat.zero_add]
  rw [start] at reply
  obtain ⟨writes, success, conflict⟩ := verdictOf_run store key caller response.status
    (S3Line.serve (.put key payload condition) ⟨bucket, fun index => tape (index + lost), []⟩).2
  rw [truthful_of_ended ran, writes]
  rcases serve_put_cases reply with ⟨_, good, written⟩ | ⟨bad, same, _⟩
  · rw [written]
    refine ⟨fun token reported => ?_, fun _ => ⟨_, List.mem_singleton_self _, rfl, rfl⟩⟩
    cases good.symm.trans (conflict token reported).1
  · rw [same]
    refine ⟨fun token _ => by simp, fun reported => ?_⟩
    cases bad.symm.trans (success.mp reported)

theorem run_of_written (payload : Bytes) (bucket : S3Bucket) (tape : Nat → Delivery)
    (sends : call.sends store = some condition)
    (heard : leadingLost store.attempts tape < store.attempts)
    (admitted : bucket.admits key condition = true)
    (unheard : ∃ index < leadingLost store.attempts tape, ∃ error, tape index = .lostReply error) :
    ∃ caller status line,
      (call.program store key payload).run S3Line.serve ⟨bucket, tape, []⟩ =
        (store.verdictOf key caller (.ok status)).run S3Line.serve line ∧
      line = ⟨bucket.store key payload,
        fun index => tape (index + leadingLost store.attempts tape + 1),
        [⟨key, bucket.current key, payload⟩]⟩ ∧
      isSuccess status = false ∧
      ((tape (leadingLost store.attempts tape)).seemsConflict = true ↔
        status = 404 ∨ status = 409 ∨ status = 412) := by
  obtain ⟨conditional, _⟩ := program_of_sends key payload sends
  obtain ⟨caller, response, reply, ran⟩ := run_of_heard key payload bucket sends heard
  have replied := isLost_leadingLost heard
  have before : S3Line.after (.put key payload condition) (leadingLost store.attempts tape)
      ⟨bucket, tape, []⟩ = ⟨bucket.store key payload,
        fun index => tape (index + leadingLost store.attempts tape),
        [⟨key, bucket.current key, payload⟩]⟩ :=
    S3Line.after_once conditional admitted _ tape (fun _ => isLost_of_lt_leadingLost) unheard
  rw [before] at reply ran
  generalize leadingLost store.attempts tape = lost at *
  have declined := S3Bucket.not_admits_store payload conditional admitted
  refine ⟨caller, response.status, _, ran, ?_, ?_⟩
  · simp [S3Line.serve, S3Bucket.deliver, S3Bucket.deliveredWrite, S3Bucket.apply,
      S3Bucket.writeOf, declined, Nat.add_right_comm]
  · cases delivery : tape lost with
    | answered =>
      rw [delivery] at reply
      cases reply
      have status : ((bucket.store key payload).respond (.put key payload condition)).status =
          412 := by
        simp [S3Bucket.respond, declined, S3Bucket.objects_store]
      rw [status]
      exact ⟨rfl, by simp [Delivery.seemsConflict]⟩
    | refused status =>
      rw [delivery] at reply
      cases reply
      refine ⟨refused_status.1, fun seems => ?_, refused_status.2⟩
      simp only [Delivery.seemsConflict, Bool.or_eq_true, decide_eq_true_eq] at seems
      exact .inr seems
    | lostRequest error =>
      rw [delivery] at replied
      cases replied
    | lostReply error =>
      rw [delivery] at replied
      cases replied

theorem currentTokenForKey_answered (store : S3ObjectStore)
    (answered : ∀ index, line.tape index = .answered) {object : S3Object}
    (found : line.bucket.objects[key]? = some object) :
    ∃ token, ((store.currentTokenForKey key).run S3Line.serve line).1 = .ok token := by
  obtain ⟨more, enough⟩ : ∃ more, store.attempts = more + 1 := by
    refine Nat.exists_eq_succ_of_ne_zero ?_
    simp only [S3ObjectStore.attempts]
    omega
  have get : (store.getObject key).run S3Line.serve line =
      (.ok object.payload, (S3Line.serve (.get key) line).2) := by
    simp [S3ObjectStore.getObject, withRetry, enough, retry, Dialogue.run, S3Line.serve, answered,
      S3Bucket.reply, S3Bucket.respond, found, getBody, isSuccess]
  have still : (S3Line.serve (.get key) line).2.bucket.objects[key]? = some object := by
    simpa [S3Line.serve, S3Bucket.deliver, S3Bucket.apply, S3Bucket.writeOf] using found
  have tag : ∃ etag, ((store.headEtag key).run S3Line.serve (S3Line.serve (.get key) line).2).1 =
      .ok etag := by
    have next : (S3Line.serve (.get key) line).2.tape 0 = .answered := answered 1
    generalize (S3Line.serve (.get key) line).2 = between at still next
    refine ⟨(some (between.bucket.scheme.tagOf object.version)).filter (· ≠ []), ?_⟩
    simp [headEtag, withRetry, enough, retry, Dialogue.run, S3Line.serve, next, S3Bucket.reply,
      S3Bucket.respond, still, headTag, isSuccess]
  obtain ⟨etag, tagged⟩ := tag
  simp only [currentTokenForKey, readWithToken, tokenAfterRead, run_bind, get, tagged]
  cases etag with
  | none => exact ⟨_, rfl⟩
  | some etag => exact ⟨_, rfl⟩

theorem verdictOf_conflict (store : S3ObjectStore) {status : UInt16} (caller : String)
    (failure : isSuccess status = false) (conflict : status = 404 ∨ status = 409 ∨ status = 412)
    (answered : ∀ index, line.tape index = .answered) {object : S3Object}
    (found : line.bucket.objects[key]? = some object) :
    ∃ token, ((store.verdictOf key caller (.ok status)).run S3Line.serve line).1 =
      .ok (.conflict token) := by
  obtain ⟨token, read⟩ := currentTokenForKey_answered store answered found
  simp only [verdictOf, failure, Bool.false_eq_true, if_false, if_pos conflict, run_bind, read]
  exact ⟨token, rfl⟩

theorem settles_congr {other : Nat → Delivery}
    (same : ∀ index ≤ leadingLost store.attempts tape, other index = tape index) :
    call.Settles store key bucket other ↔ call.Settles store key bucket tape := by
  have unheard : (∃ index < leadingLost store.attempts tape,
      ∃ error, other index = .lostReply error) ↔
        ∃ index < leadingLost store.attempts tape, ∃ error, tape index = .lostReply error := by
    refine exists_congr fun index => and_congr_right fun inside => ?_
    rw [same index inside.le]
  simp only [Settles, leadingLost_congr same, same _ le_rfl, unheard]

end ConditionalCall

/-- A conditional put reports a conflict only if it wrote nothing, and a success only if it wrote. -/
theorem verdict_is_truthful_iff (call : ConditionalCall) (store : S3ObjectStore) (key : Text)
    (payload : Bytes) (bucket : S3Bucket) (tape : Nat → Delivery) :
    (∀ other : Nat → Delivery,
        (∀ index ≤ leadingLost store.attempts tape, other index = tape index) →
          call.Truthful store key payload bucket other) ↔
      call.Settles store key bucket tape := by
  constructor
  · -- Answers to everything behind the first reply let the wrong conflict through.
    intro truthful condition sends admitted lost heard unheard
    rw [← Bool.not_eq_true]
    intro seems
    let answered : Nat → Delivery := fun index => if index ≤ lost then tape index else .answered
    have same : ∀ index ≤ lost, answered index = tape index := fun index inside => if_pos inside
    have place : leadingLost store.attempts answered = lost := leadingLost_congr same
    obtain ⟨caller, code, line, ran, shape, failure, conflict⟩ :=
      ConditionalCall.run_of_written payload bucket answered sends
        (by rw [place]; exact heard) admitted (by
          rw [place]
          obtain ⟨index, inside, error, arrived⟩ := unheard
          exact ⟨index, inside, error, (same index inside.le).trans arrived⟩)
    have status := conflict.mp (by rw [place, same _ le_rfl]; exact seems)
    have behind (index : Nat) : line.tape index = .answered := by
      rw [shape]
      exact if_neg (by omega)
    have found : line.bucket.objects[key]? = some ⟨payload, bucket.nextVersion⟩ := by
      rw [shape]
      exact S3Bucket.objects_store.trans (if_pos rfl)
    obtain ⟨token, reported⟩ :=
      ConditionalCall.verdictOf_conflict store caller failure status behind found
    obtain ⟨writes, _⟩ := verdictOf_run store key caller code line
    refine ((ConditionalCall.truthful_of_ended ran).mp (truthful answered same)).1 token reported ?_
    rw [writes, shape]
    exact ⟨_, List.mem_singleton_self _, rfl, rfl⟩
  · intro settles other same
    have settles := (ConditionalCall.settles_congr same).mpr settles
    cases sends : call.sends store with
    | none =>
      obtain ⟨answer, silent, success, conflict⟩ :=
        ConditionalCall.program_of_silent key payload sends
      have ran : (call.program store key payload).run S3Line.serve ⟨bucket, other, []⟩ =
          (answer, ⟨bucket, other, []⟩) := by
        rw [silent]
        rfl
      rw [ConditionalCall.truthful_of_ended ran]
      exact ⟨fun token reported => absurd reported (conflict token),
        fun reported => absurd reported success⟩
    | some condition =>
      rcases (leadingLost_le store.attempts other).eq_or_lt with exhausted | heard
      · exact ConditionalCall.truthful_of_unheard sends exhausted
      · by_cases written : bucket.admits key condition = true ∧
            ∃ index < leadingLost store.attempts other, ∃ error, other index = .lostReply error
        · obtain ⟨admitted, unheard⟩ := written
          have quiet := settles condition sends admitted heard unheard
          obtain ⟨caller, status, line, ran, rfl, failure, conflict⟩ :=
            ConditionalCall.run_of_written payload bucket other sends heard admitted unheard
          obtain ⟨_, success, reported⟩ := verdictOf_run store key caller status
            ⟨bucket.store key payload, _, _⟩
          rw [ConditionalCall.truthful_of_ended ran]
          refine ⟨fun token claimed => ?_, fun claimed => ?_⟩
          · have seems := conflict.mpr (reported token claimed).2
            cases quiet.symm.trans seems
          · cases failure.symm.trans (success.mp claimed)
        · refine ConditionalCall.truthful_of_unwritten sends heard fun index inside arrives => ?_
          rw [Bool.eq_false_iff]
          intro admitted
          refine written ⟨admitted, index, inside, ?_⟩
          have lost := isLost_of_lt_leadingLost inside
          cases delivery : other index with
          | lostReply error => exact ⟨error, rfl⟩
          | lostRequest error =>
            rw [delivery] at arrives
            cases arrives
          | answered =>
            rw [delivery] at lost
            cases lost
          | refused status =>
            rw [delivery] at lost
            cases lost

theorem verdict_is_truthful_iff_answered :
    ConditionalCall.Truthful .putIfAbsent twiceClient "k".toList [65] emptyBucket
      fun _ => .answered := by
  refine (verdict_is_truthful_iff .putIfAbsent twiceClient "k".toList [65] emptyBucket
    fun _ => .answered).mpr ?_ _ fun _ _ => rfl
  intro condition _ _ lost heard unheard
  obtain ⟨index, _, error, arrived⟩ := unheard
  cases arrived

theorem lost_reply_is_conflict :
    let line : S3Line := ⟨emptyBucket, fun index => if index = 0 then .lostReply "reset"
      else .answered, []⟩
    let (result, after) :=
      (twiceClient.putIfAbsent "k".toList [65]).run S3Line.serve line
    result = .ok (.conflict (some (.eTag "0".toList))) ∧
      after.writes = [⟨"k".toList, none, [65]⟩] := by
  decide +kernel

end WombatKV
