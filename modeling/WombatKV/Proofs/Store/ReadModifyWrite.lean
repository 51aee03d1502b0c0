import WombatKV.Proofs.Store.S3Runs

/-! When an update replaces the bytes it was made from. -/

namespace WombatKV

open Dialogue S3ObjectStore

abbrev Updated := Option (Bytes × Except WalStoreError ConditionalPutResult)

instance : DecidableEq Updated := inferInstance

section Phases

variable (store : S3ObjectStore) (key : Text) (update : Bytes → Bytes)

def updateToken : Except WalStoreError (Option (Bytes × CasToken)) → S3Program Updated
  | .ok (some (bytes, token)) => do
    let result ← store.putIfTokenMatches key (update bytes) token
    return some (bytes, result)
  | .ok none | .error _ => done none

def updateRead : Except WalStoreError Bytes → S3Program Updated
  | .ok bytes => store.tokenAfterRead key bytes >>= updateToken store key update
  | .error _ => done none

def updateTag (bytes : Bytes) : Except WalStoreError (Option Text) → S3Program Updated
  | .ok (some etag) => updateToken store key update (.ok (some (bytes, .eTag etag)))
  | .ok none => updateToken store key update (.ok (some (bytes, .contentHash (contentHash bytes))))
  | .error error => updateToken store key update (.error error)

def updateStatus (bytes : Bytes) (status : Except WalStoreError UInt16) : S3Program Updated := do
  let result ← store.verdictOf key "put_if_token_matches" status
  return some (bytes, result)

def Unsuccessful (answer : Updated) : Prop := ∀ bytes, answer ≠ some (bytes, .ok .success)

structure Untouched (bucket : S3Bucket) (version : Nat) (bytes : Bytes) (own : List S3Write) :
    Prop where
  known : version < bucket.nextVersion
  unchanged : ∀ object, bucket.objects[key]? = some object → object.version = version →
    object.payload = bytes ∧ own = []

inductive UpdatePhase (bucket : S3Bucket) (own : List S3Write) (asked : List S3Request) :
    S3Program Updated → Prop
  | reading {left : Nat} {last : WalStoreError} {program : S3Program Updated}
      (unwritten : own = []) (silent : asked.any S3Request.isPut = false)
      (shape : program =
        retry (.get key) (getBody key) (left + 1) last >>= updateRead store key update) :
      UpdatePhase bucket own asked program
  | tagging {bytes : Bytes} {left : Nat} {last : WalStoreError} {program : S3Program Updated}
      (unwritten : own = []) (silent : asked.any S3Request.isPut = false)
      (present : bucket.current key = some bytes)
      (shape : program =
        retry (.head key) (headTag key) (left + 1) last >>= updateTag store key update bytes) :
      UpdatePhase bucket own asked program
  | writing {bytes : Bytes} {version left : Nat} {last : WalStoreError}
      {program : S3Program Updated} (untouched : Untouched key bucket version bytes own)
      (shape : program =
        retry (.put key (update bytes)
          (.ifMatch (etagIfMatchValue (bucket.scheme.tagOf version)))) (putStatus key) (left + 1)
            last >>= updateStatus store key bytes) :
      UpdatePhase bucket own asked program
  | closing {program : S3Program Updated} (reads : program.Asks S3Request.Reads)
      (fails : program.Yields Unsuccessful) : UpdatePhase bucket own asked program
  | ended {bytes : Bytes} (made : own = [⟨key, some bytes, update bytes⟩]) :
      UpdatePhase bucket own asked (done (some (bytes, .ok .success)))

variable {store key update} {bucket : S3Bucket} {own : List S3Write} {asked : List S3Request}
  {bytes : Bytes} {version left : Nat} {delivery : Delivery}

theorem Untouched.stored {later : List S3Write} (untouched : Untouched key bucket version bytes own)
    {other : Text} (payload : Bytes) (elsewhere : other ≠ key → later = own) :
    Untouched key (bucket.store other payload) version bytes later := by
  refine ⟨untouched.known.trans (Nat.lt_succ_self _), fun object found named => ?_⟩
  rw [S3Bucket.objects_store] at found
  split at found
  · cases found
    exact absurd named untouched.known.ne'
  · rename_i different
    rw [elsewhere different]
    exact untouched.unchanged object found named

theorem Untouched.admitted (untouched : Untouched key bucket version bytes own)
    (admits : bucket.admits key (.ifMatch (etagIfMatchValue (bucket.scheme.tagOf version))) = true) :
    bucket.current key = some bytes ∧ own = [] := by
  simp only [S3Bucket.admits, Option.any_eq_true] at admits
  obtain ⟨object, found, honoured⟩ := admits
  have named := bucket.scheme.single _ _ _ honoured (bucket.scheme.own version)
  obtain ⟨same, unwritten⟩ := untouched.unchanged object found named
  exact ⟨by rw [S3Bucket.current, found, Option.map_some, same], unwritten⟩

theorem UpdatePhase.begins :
    UpdatePhase store key update bucket [] [] (readModifyWrite store key update) := by
  obtain ⟨more, enough⟩ := store.attempts_pos
  have shape : readModifyWrite store key update =
      retry (.get key) (getBody key) (more + 1) (.s3 "unknown retry failure") >>=
        updateRead store key update := by
    rw [← enough, readModifyWrite, readWithToken, bind_assoc]
    refine congrArg (store.getObject key >>= ·) (funext fun read => ?_)
    match read with
    | .ok bytes => exact congrArg _ (funext fun token => by rcases token with _ | _ | _ <;> rfl)
    | .error (.objectNotFound _) => rfl
    | .error (.corruptWal _) => rfl
    | .error .objectStorePoisoned => rfl
    | .error (.invalidConfig _) => rfl
    | .error (.s3 _) => rfl
  exact .reading rfl rfl shape

theorem UpdatePhase.failed {answer : Updated} (fails : Unsuccessful answer) :
    UpdatePhase store key update bucket own asked (done answer) :=
  .closing trivial fails

theorem UpdatePhase.read (unwritten : own = []) (silent : asked.any S3Request.isPut = false) :
    UpdatePhase store key update bucket own asked
      (afterReply (.get key) (getBody key) left (updateRead store key update)
        (bucket.reply delivery (.get key))) := by
  rw [afterReply]
  split
  · rename_i bytes read
    obtain ⟨more, enough⟩ := store.attempts_pos
    have shape : updateRead store key update (.ok bytes) =
        retry (.head key) (headTag key) (more + 1) (.s3 "unknown retry failure") >>=
          updateTag store key update bytes := by
      rw [← enough, updateRead, tokenAfterRead, bind_assoc]
      refine congrArg (store.headEtag key >>= ·) (funext fun tag => ?_)
      rcases tag with _ | _ | _ <;> rfl
    exact .tagging unwritten silent (getBody_ok read) shape
  · cases left with
    | succ left => exact .reading unwritten silent rfl
    | zero => exact .failed (by simp [Unsuccessful])

theorem UpdatePhase.tagged (unwritten : own = []) (silent : asked.any S3Request.isPut = false)
    (present : bucket.current key = some bytes) :
    UpdatePhase store key update bucket own asked
      (afterReply (.head key) (headTag key) left (updateTag store key update bytes)
        (bucket.reply delivery (.head key))) := by
  rw [afterReply]
  split
  · rename_i tag read
    cases tag with
    | none =>
      rw [updateTag, updateToken, putIfTokenMatches]
      split
      · exact .failed (by simp [Unsuccessful])
      · exact .failed (by simp [Unsuccessful])
    | some etag =>
      obtain ⟨object, found, rfl⟩ := headTag_some read
      have same : object.payload = bytes := by
        simpa [S3Bucket.current, found] using present
      have untouched : Untouched key bucket object.version bytes own := by
        refine ⟨bucket.older key object found, fun other there _ => ?_⟩
        cases found.symm.trans there
        exact ⟨same, unwritten⟩
      rw [updateTag, updateToken, putIfTokenMatches]
      split
      · exact .failed (by simp [Unsuccessful])
      · split
        · obtain ⟨more, enough⟩ := store.attempts_pos
          have shape : (store.conditionalPutWithHeaders key (update bytes)
              (.ifMatch (etagIfMatchValue (bucket.scheme.tagOf object.version))) >>=
                store.verdictOf key "put_if_token_matches" >>= fun result =>
                  pure (some (bytes, result))) =
              retry (.put key (update bytes)
                (.ifMatch (etagIfMatchValue (bucket.scheme.tagOf object.version))))
                (putStatus key) (more + 1) (.s3 "unknown retry failure") >>=
                  updateStatus store key bytes := by
            rw [← enough, bind_assoc]
            rfl
          exact .writing untouched shape
        · exact .failed (by simp [Unsuccessful])
  · cases left with
    | succ left => exact .tagging unwritten silent present rfl
    | zero => exact .failed (by simp [Unsuccessful])

theorem UpdatePhase.refused {status : UInt16} (failure : isSuccess status = false) :
    UpdatePhase store key update bucket own asked (updateStatus store key bytes (.ok status)) := by
  rw [updateStatus, verdictOf, if_neg (by simp [failure])]
  split
  · refine .closing (asks_bind (asks_bind (currentTokenForKey_reads store key) ?_)
      fun _ => trivial) ?_
    · rintro (error | token) <;> trivial
    · rw [bind_assoc]
      refine yields_bind _ ?_
      rintro (error | token)
      · simp [Yields, Unsuccessful]
      · simp [Yields, Unsuccessful]
  · split
    · exact .failed (by simp [Unsuccessful])
    · exact .failed (by simp [Unsuccessful])

theorem UpdatePhase.written (untouched : Untouched key bucket version bytes own) :
    let request : S3Request :=
      .put key (update bytes) (.ifMatch (etagIfMatchValue (bucket.scheme.tagOf version)))
    UpdatePhase store key update (bucket.deliver delivery request)
      (own ++ (bucket.deliveredWrite delivery request).toList) (asked ++ [request])
      (afterReply request (putStatus key) left (updateStatus store key bytes)
        (bucket.reply delivery request)) := by
  intro request
  rw [afterReply]
  split
  · rename_i status replied
    cases success : isSuccess status with
    | false => exact .refused success
    | true =>
      obtain ⟨rfl, admits⟩ := putStatus_success replied success
      obtain ⟨present, unwritten⟩ := untouched.admitted admits
      have carried : bucket.deliveredWrite .answered request =
          some ⟨key, some bytes, update bytes⟩ := by
        simp only [S3Bucket.deliveredWrite, Delivery.arrives, if_true, S3Bucket.writeOf, request,
          if_pos admits, present]
      have shape : updateStatus store key bytes (.ok status) =
          done (some (bytes, .ok .success)) := by
        rw [updateStatus, verdictOf, if_pos success]
        rfl
      rw [carried, shape, unwritten]
      exact .ended rfl
  · cases left with
    | zero => exact .failed (by simp [Unsuccessful])
    | succ left =>
      cases written : bucket.deliveredWrite delivery request with
      | none =>
        rw [S3Bucket.deliver_of_none written, Option.toList_none, List.append_nil]
        exact .writing untouched rfl
      | some write =>
        obtain ⟨same, _⟩ := S3Bucket.key_of_deliveredWrite written
        rw [S3Bucket.deliver_of_write written, same]
        exact .writing (untouched.stored _ fun different => absurd rfl different) rfl

theorem UpdatePhase.deliver {request : S3Request} {next : S3Reply → S3Program Updated}
    (phase : UpdatePhase store key update bucket own asked (.ask request next))
    (delivery : Delivery) :
    UpdatePhase store key update (bucket.deliver delivery request)
      (own ++ (bucket.deliveredWrite delivery request).toList) (asked ++ [request])
      (next (bucket.reply delivery request)) := by
  cases phase with
  | reading unwritten silent shape =>
    rw [retry_bind] at shape
    cases shape
    obtain ⟨same, none⟩ := @S3Bucket.deliver_of_read bucket delivery (.get key) rfl
    rw [same, none, Option.toList_none, List.append_nil]
    exact .read unwritten (by simp [silent, S3Request.isPut])
  | tagging unwritten silent present shape =>
    rw [retry_bind] at shape
    cases shape
    obtain ⟨same, none⟩ := @S3Bucket.deliver_of_read bucket delivery (.head key) rfl
    rw [same, none, Option.toList_none, List.append_nil]
    exact .tagged unwritten (by simp [silent, S3Request.isPut]) present
  | writing untouched shape =>
    rw [retry_bind] at shape
    cases shape
    exact .written untouched
  | closing reads fails => exact .closing (reads.2 _) (fails _)

theorem UpdatePhase.undisturbed {program : S3Program Updated} {request : S3Request}
    {input : Bytes → Bytes} (delivery : Delivery)
    (phase : UpdatePhase store key update bucket own asked program)
    (apart : readClash request ⟨input, asked, program⟩ = false) :
    UpdatePhase store key update (bucket.deliver delivery request) own asked program := by
  cases written : bucket.deliveredWrite delivery request with
  | none =>
    rw [S3Bucket.deliver_of_none written]
    exact phase
  | some write =>
    rw [S3Bucket.deliver_of_write written]
    cases phase with
    | reading unwritten silent shape => exact .reading unwritten silent shape
    | tagging unwritten silent present shape =>
      have isPut : request.isPut = true := by
        by_contra reads
        have none := (@S3Bucket.deliver_of_read bucket delivery request (by simpa using reads)).2
        cases none.symm.trans written
      rw [retry_bind] at shape
      simp [readClash, isPut, silent, shape, pending] at apart
    | writing untouched shape =>
      exact .writing (untouched.stored _ fun _ => rfl) shape
    | closing reads fails => exact .closing reads fails
    | ended made => exact .ended made

end Phases

/-- An update that reports success has replaced the bytes it was made from. -/
theorem updates_lose_no_update (store : S3ObjectStore) (key : Text) (bucket : S3Bucket)
    {run : S3Run (Bytes → Bytes) Updated}
    (reached : (updateSystem store key bucket).Reachable (Apart readClash) run) {index : Nat}
    {thread : S3Thread (Bytes → Bytes) Updated} (found : run.threads[index]? = some thread)
    {bytes : Bytes} (reported : thread.program.answer = some (some (bytes, .ok .success))) :
    run.writesOf index = [⟨⟨key, some bytes, thread.input bytes⟩, index⟩] := by
  have phased : run.Phased fun bucket own thread =>
      UpdatePhase store key thread.input bucket own thread.asked thread.program := by
    refine S3Run.reachable_phased ?_ ?_ ?_ reached
    · exact fun bucket update => .begins
    · exact fun bucket own update asked request next delivery phase => phase.deliver delivery
    · exact fun bucket own thread request delivery apart phase => phase.undisturbed delivery apart
  have phase := phased.phases index thread found
  have made : run.ownWrites index = [⟨key, some bytes, thread.input bytes⟩] := by
    generalize thread.program = program at phase reported
    cases phase with
    | reading unwritten silent shape =>
      rw [shape, retry_bind] at reported
      cases reported
    | tagging unwritten silent present shape =>
      rw [shape, retry_bind] at reported
      cases reported
    | writing untouched shape =>
      rw [shape, retry_bind] at reported
      cases reported
    | closing reads fails =>
      cases program with
      | done answer => exact absurd (Option.some.inj reported) (fails bytes)
      | ask request next => cases reported
    | ended made =>
      cases reported
      exact made
  obtain ⟨write, only, same⟩ := List.map_eq_singleton_iff.mp made
  have member : write ∈ run.writesOf index := by simp [only]
  have own : write.thread = index := by simpa using (List.mem_filter.mp member).2
  rw [only, ← own, ← same]

theorem updates_lose_no_update_raced :
    ∃ run first last,
      (updateSystem twiceClient "k".toList (emptyBucket.store "k".toList [65])).Reachable
        (Apart readClash) run ∧
      run.threads.map (·.program.answer) = [some (some ([65], .ok .success)),
        some (some ([65], .ok (.conflict (some (.eTag ['1']))))),
        some (some ([65, 1], .ok .success))] ∧
      run.threads[0]? = some first ∧ run.threads[2]? = some last ∧
      run.writesOf 0 = [⟨⟨"k".toList, some [65], first.input [65]⟩, 0⟩] ∧
      run.writesOf 2 = [⟨⟨"k".toList, some [65, 1], last.input [65, 1]⟩, 2⟩] := by
  -- Two clients read and tag together, one put is let through, and a third client goes on from it.
  obtain ⟨run, reached, answers⟩ : ∃ run, (updateSystem twiceClient "k".toList
      (emptyBucket.store "k".toList [65])).Reachable (Apart readClash) run ∧
        run.threads.map (·.program.answer) = [some (some ([65], .ok .success)),
          some (some ([65], .ok (.conflict (some (.eTag ['1']))))),
          some (some ([65, 1], .ok .success))] :=
    System.reaches (S3Run.isApart readClash) S3Run.isApart_sound
      [.begin (· ++ [1]), .begin (· ++ [2]), .deliver 0 .answered, .deliver 1 .answered,
        .deliver 0 .answered, .deliver 1 .answered, .deliver 0 .answered, .deliver 1 .answered,
        .deliver 1 .answered, .deliver 1 .answered, .begin (· ++ [3]), .deliver 2 .answered,
        .deliver 2 .answered, .deliver 2 .answered] (by decide +kernel)
  have first := congrArg (·[0]?) answers
  have third := congrArg (·[2]?) answers
  simp only [List.getElem?_map] at first third
  obtain ⟨one, found, reported⟩ := Option.map_eq_some_iff.mp first
  obtain ⟨three, found', reported'⟩ := Option.map_eq_some_iff.mp third
  exact ⟨run, one, three, reached, answers, found, found',
    updates_lose_no_update twiceClient "k".toList _ reached found reported,
    updates_lose_no_update twiceClient "k".toList _ reached found' reported'⟩

theorem unread_bytes_are_replaced :
    ∃ run, (updateSystem twiceClient "k".toList (emptyBucket.store "k".toList [65])).Reachable
        (fun _ _ => True) run ∧
      run.threads.map (·.program.answer) =
        [some (some ([65], .ok .success)), some (some ([65], .ok .success))] ∧
      run.writes = [⟨⟨"k".toList, some [65], [65, 2]⟩, 1⟩,
        ⟨⟨"k".toList, some [65, 2], [65, 1]⟩, 0⟩] :=
  System.reaches (fun _ _ => true) (fun _ _ _ => trivial)
    [.begin (· ++ [1]), .begin (· ++ [2]), .deliver 0 .answered, .deliver 1 .answered,
      .deliver 1 .answered, .deliver 1 .answered, .deliver 0 .answered, .deliver 0 .answered]
    (by decide +kernel)

end WombatKV
