import WombatKV.Proofs.Store.ObjectStore
import WombatKV.Proofs.Store.S3Runs
import WombatKV.Store.StandIn

/-! When the store in memory returns what the client of S3 returns. -/

namespace WombatKV

open List

section

open Dialogue S3ObjectStore

variable {client : S3ObjectStore} {bucket : S3Bucket} {key other : Text} {payload : Bytes}

theorem putObject_served : (client.putObject key payload).run S3Bucket.serve bucket =
    (.ok (), bucket.store key payload) := by
  obtain ⟨more, enough⟩ := client.attempts_pos
  rw [putObject, withRetry, enough]
  exact run_retry_ok rfl

theorem getObject_served (found : bucket.current key = some payload) :
    (client.getObject key).run S3Bucket.serve bucket = (.ok payload, bucket) := by
  obtain ⟨more, enough⟩ := client.attempts_pos
  obtain ⟨object, present, rfl⟩ := Option.map_eq_some_iff.mp found
  rw [getObject, withRetry, enough]
  refine run_retry_ok ?_
  simp [S3Bucket.serve, S3Bucket.respond, present, getBody, isSuccess]

theorem getObject_missing (missing : bucket.current key = none) :
    (client.getObject key).run S3Bucket.serve bucket = (.error (.objectNotFound key), bucket) := by
  obtain ⟨more, enough⟩ := client.attempts_pos
  have absent : bucket.objects[key]? = none := Option.map_eq_none_iff.mp missing
  rw [getObject, withRetry, enough]
  refine run_retry_error rfl ?_
  simp [S3Bucket.serve, S3Bucket.respond, absent, getBody]

theorem headObject_served : (client.headObject key).run S3Bucket.serve bucket =
    (.ok (bucket.current key).isSome, bucket) := by
  obtain ⟨more, enough⟩ := client.attempts_pos
  rw [headObject, withRetry, enough]
  refine run_retry_ok ?_
  cases found : bucket.objects[key]? with
  | none => simp [S3Bucket.serve, S3Bucket.respond, S3Bucket.current, found, headFound]
  | some object =>
    simp [S3Bucket.serve, S3Bucket.respond, S3Bucket.current, found, headFound, isSuccess]

theorem getObjectRange_served {start stop : Nat} (found : bucket.current key = some payload)
    (inside : stop ≤ payload.length) :
    (client.getObjectRange key start stop).run S3Bucket.serveRange bucket =
      (.ok (slice payload start stop), bucket) := by
  obtain ⟨more, enough⟩ := client.attempts_pos
  obtain ⟨object, present, rfl⟩ := Option.map_eq_some_iff.mp found
  rw [S3ObjectStore.getObjectRange]
  split
  · -- Nothing is requested for an empty range.
    have empty : slice object.payload start stop = [] := by
      rw [slice, Nat.sub_eq_zero_of_le (by assumption), take_zero]
    rw [empty]
    rfl
  · have begins : start < object.payload.length := by omega
    have ends : stop - 1 + 1 = stop := by omega
    rw [enough]
    refine run_retry_ok ?_
    simp [S3Bucket.serveRange, S3Bucket.respondRange, present, rangeBody, isSuccess, begins, ends]

theorem listPrefix_served (paging : Paging) (start : Text) :
    (client.listPrefix start).run (S3Bucket.serveList paging) bucket =
      (.ok (paging.pages (bucket.objects.keys.filter (start.isPrefixOf ·))).flatten, bucket) := by
  obtain ⟨more, enough⟩ := client.attempts_pos
  rw [listPrefix, enough]
  exact run_retry_ok rfl

theorem deleteObject_served : (client.deleteObject key).run S3Bucket.serveDelete bucket =
    (.ok true, bucket.remove key) := by
  obtain ⟨more, enough⟩ := client.attempts_pos
  rw [deleteObject, enough]
  exact run_retry_ok rfl

theorem compareAndSwapObject_served (expected : Option Bytes) (newPayload : Bytes) :
    (client.compareAndSwapObject key expected newPayload).run S3Bucket.serve bucket =
      if bucket.current key = expected then (.ok true, bucket.store key newPayload)
      else (.ok false, bucket) := by
  have swapped (current : Option Bytes) :
      (client.swapAfterRead key expected newPayload current).run S3Bucket.serve bucket =
        if current = expected then (.ok true, bucket.store key newPayload)
        else (.ok false, bucket) := by
    rw [swapAfterRead]
    split
    · rw [run_bind, putObjectOverwrite, putObject_served]
      rfl
    · rfl
  rw [compareAndSwapObject, run_bind]
  cases found : bucket.current key with
  | none =>
    rw [getObject_missing found]
    exact swapped none
  | some payload =>
    rw [getObject_served found]
    exact swapped (some payload)

theorem currentTokenForKey_served (found : bucket.current key = some payload) :
    ∃ token, (client.currentTokenForKey key).run S3Bucket.serve bucket =
      (.ok (some token), bucket) := by
  obtain ⟨more, enough⟩ := client.attempts_pos
  obtain ⟨object, present, -⟩ := Option.map_eq_some_iff.mp found
  have tagged : ∃ etag, (client.headEtag key).run S3Bucket.serve bucket = (.ok etag, bucket) := by
    refine ⟨(some (bucket.scheme.tagOf object.version)).filter (· ≠ []), ?_⟩
    rw [headEtag, withRetry, enough]
    refine run_retry_ok ?_
    simp [S3Bucket.serve, S3Bucket.respond, present, headTag, isSuccess]
  obtain ⟨etag, head⟩ := tagged
  rw [currentTokenForKey, run_bind, readWithToken, run_bind, getObject_served found]
  simp only [tokenAfterRead, run_bind, head]
  cases etag with
  | none => exact ⟨_, rfl⟩
  | some tag => exact ⟨_, rfl⟩

theorem putIfAbsent_free (capable : client.conditionalCreate = true)
    (missing : bucket.current key = none) :
    (client.putIfAbsent key payload).run S3Bucket.serve bucket =
      (.ok .success, bucket.store key payload) := by
  obtain ⟨more, enough⟩ := client.attempts_pos
  have absent : bucket.objects[key]? = none := Option.map_eq_none_iff.mp missing
  have put : (client.conditionalPutWithHeaders key payload .ifNoneMatch).run S3Bucket.serve bucket =
      (.ok 200, bucket.store key payload) := by
    rw [conditionalPutWithHeaders, withRetry, enough]
    have stored : bucket.apply (.put key payload .ifNoneMatch) = bucket.store key payload := by
      simp [S3Bucket.apply, S3Bucket.writeOf, S3Bucket.admits, absent]
    rw [← stored]
    refine run_retry_ok ?_
    simp [S3Bucket.serve, S3Bucket.respond, S3Bucket.admits, absent, putStatus]
  rw [putIfAbsent, if_neg (by simp [capable]), run_bind, put]
  rfl

theorem putIfAbsent_taken (capable : client.conditionalCreate = true) {current : Bytes}
    (found : bucket.current key = some current) :
    ∃ token, (client.putIfAbsent key payload).run S3Bucket.serve bucket =
      (.ok (.conflict (some token)), bucket) := by
  obtain ⟨more, enough⟩ := client.attempts_pos
  obtain ⟨object, present, -⟩ := Option.map_eq_some_iff.mp found
  have put : (client.conditionalPutWithHeaders key payload .ifNoneMatch).run S3Bucket.serve bucket =
      (.ok 412, bucket) := by
    rw [conditionalPutWithHeaders, withRetry, enough]
    have kept : bucket.apply (.put key payload .ifNoneMatch) = bucket := by
      simp [S3Bucket.apply, S3Bucket.writeOf, S3Bucket.admits, present]
    have served : (S3Bucket.serve (.put key payload .ifNoneMatch) bucket).2 = bucket := kept
    nth_rewrite 2 [← served]
    refine run_retry_ok ?_
    simp [S3Bucket.serve, S3Bucket.respond, S3Bucket.admits, present, putStatus]
  obtain ⟨token, read⟩ := @currentTokenForKey_served client bucket key current found
  have failure : isSuccess 412 = false := by decide
  refine ⟨token, ?_⟩
  rw [putIfAbsent, if_neg (by simp [capable]), run_bind, put]
  simp only [verdictOf, failure, Bool.false_eq_true, if_false, or_true, if_true, run_bind, read]
  rfl

theorem putIfAbsent_incapable (incapable : client.conditionalCreate = false) :
    (client.putIfAbsent key payload).run S3Bucket.serve bucket = (.ok .unsupported, bucket) := by
  rw [putIfAbsent, if_pos (by simp [incapable])]
  rfl

end

open Dialogue S3ObjectStore

structure Same (store : ObjectStore) (session : S3Session) : Prop where
  healthy : store.Healthy
  policy : store.putPolicy = .keepExisting
  objects : ∀ key, session.bucket.current key = store.objects[key]?

namespace Same

variable {store : ObjectStore} {session : S3Session} {key : Text} {payload : Bytes}

theorem answer_client (session : S3Session) (call : StoreCall) :
    (session.answer call).2.client = session.client := by
  cases call <;> rfl

variable (same : Same store session)

include same

theorem clear : store.faults 0 = none := congrFun same.healthy 0

theorem put (key : Text) (payload : Bytes) :
    Same { store with objects := store.objects.insert key payload }
      { session with bucket := session.bucket.store key payload } := by
  refine ⟨same.healthy, same.policy, fun other => ?_⟩
  simp only [S3Bucket.current, S3Bucket.objects_store, Std.ExtTreeMap.getElem?_insert,
    Std.LawfulEqCmp.compare_eq_iff_eq]
  split
  · rfl
  · exact same.objects other

theorem remove (key : Text) : Same { store with objects := store.objects.erase key }
      { session with bucket := session.bucket.remove key } := by
  refine ⟨same.healthy, same.policy, fun other => ?_⟩
  simp only [S3Bucket.current, S3Bucket.remove, Std.ExtTreeMap.getElem?_erase,
    Std.LawfulEqCmp.compare_eq_iff_eq]
  split
  · rfl
  · exact same.objects other

theorem isSome (key : Text) : (session.bucket.current key).isSome = store.objects.contains key := by
  rw [same.objects, Std.ExtTreeMap.contains_eq_isSome_getElem?]

theorem keys : session.bucket.objects.keys.Perm store.objects.keys := by
  rw [perm_ext_iff_of_nodup Std.ExtTreeMap.nodup_keys Std.ExtTreeMap.nodup_keys]
  intro key
  have there := same.isSome key
  rw [S3Bucket.current, Option.isSome_map, ← Std.ExtTreeMap.contains_eq_isSome_getElem?] at there
  rw [Std.ExtTreeMap.mem_keys, Std.ExtTreeMap.mem_keys, ← Std.ExtTreeMap.contains_iff_mem,
    ← Std.ExtTreeMap.contains_iff_mem, there]

def Alike (store : ObjectStore) (session : S3Session) (call : StoreCall) : Prop :=
  SameResult (store.answer call).1 (session.answer call).1 ∧
    Same (store.answer call).2 (session.answer call).2

section

variable (slashless : Slashless key)

include slashless

theorem getObject : Alike store session (.getObject key) := by
  have objects := same.objects key
  simp only [Alike, ObjectStore.answer, ObjectStore.getObject, ObjectStore.request, same.clear,
    same.healthy.advance, S3Session.answer, S3Session.after, normalizeKey_slashless slashless]
  cases found : store.objects[key]? with
  | none =>
    rw [getObject_missing (objects.trans found)]
    exact ⟨rfl, same⟩
  | some payload =>
    rw [getObject_served (objects.trans found)]
    exact ⟨rfl, same⟩

theorem putObject (free : ∀ stored, store.objects[key]? = some stored → stored = payload) :
    Alike store session (.putObject key payload) := by
  have replaced : store.objects.insertIfNew key payload = store.objects.insert key payload := by
    apply Std.ExtTreeMap.ext_getElem?
    intro other
    have kept := ObjectStore.putInto_self .keepExisting store.objects key payload
    have others := @ObjectStore.putInto_of_ne key payload .keepExisting store.objects other
    simp only [ObjectStore.putInto] at kept others
    by_cases isKey : key = other
    · subst isKey
      rw [kept, Std.ExtTreeMap.getElem?_insert_self]
      cases found : store.objects[key]? with
      | none => rfl
      | some stored => exact congrArg some (free stored found)
    · rw [others isKey, Std.ExtTreeMap.getElem?_insert, if_neg (by simpa using isKey)]
  have stored : ObjectStore.putInto store.putPolicy store.objects key payload =
      store.objects.insert key payload := by
    rw [same.policy]
    exact replaced
  simp only [Alike, ObjectStore.answer, ObjectStore.putObject, ObjectStore.request, same.clear,
    same.healthy.advance, stored, S3Session.answer, S3Session.after,
    normalizeKey_slashless slashless, putObject_served]
  exact ⟨rfl, same.put key payload⟩

theorem putObjectOverwrite : Alike store session (.putObjectOverwrite key payload) := by
  simp only [Alike, ObjectStore.answer, ObjectStore.putObjectOverwrite, ObjectStore.request, same.clear,
    same.healthy.advance, S3Session.answer, S3Session.after, normalizeKey_slashless slashless,
    S3ObjectStore.putObjectOverwrite, putObject_served]
  exact ⟨rfl, same.put key payload⟩

theorem getObjectRange {start stop : Nat} (found : store.objects[key]? = some payload)
    (inside : stop ≤ payload.length) : Alike store session (.getObjectRange key start stop) := by
  simp only [Alike, ObjectStore.answer, ObjectStore.getObjectRange, ObjectStore.request, same.clear,
    same.healthy.advance, found, S3Session.answer, S3Session.after,
    normalizeKey_slashless slashless, getObjectRange_served ((same.objects key).trans found) inside]
  split
  · -- What is cut out of nothing is empty in the bucket as well.
    rename_i empty
    have nothing : slice payload start stop = [] := by
      rw [slice, take_eq_nil_iff, drop_eq_nil_iff]
      omega
    rw [nothing]
    exact ⟨rfl, same⟩
  · rw [Nat.min_eq_left inside]
    exact ⟨rfl, same⟩

theorem headObject : Alike store session (.headObject key) := by
  simp only [Alike, ObjectStore.answer, ObjectStore.headObject, ObjectStore.request, same.clear,
    same.healthy.advance, S3Session.answer, S3Session.after, normalizeKey_slashless slashless, headObject_served,
    same.isSome]
  exact ⟨rfl, same⟩

theorem listPrefix : Alike store session (.listPrefix key) := by
  simp only [Alike, ObjectStore.answer, ObjectStore.listPrefix, ObjectStore.request, same.clear,
    same.healthy.advance, S3Session.answer, S3Session.after, normalizeKey_slashless slashless, listPrefix_served]
  refine ⟨?_, same⟩
  exact ((session.paging.complete _).trans (same.keys.filter _)).symm

theorem deleteObject (there : key ∈ store.objects) : Alike store session (.deleteObject key) := by
  simp only [Alike, ObjectStore.answer, ObjectStore.deleteObject, ObjectStore.request, same.clear,
    same.healthy.advance, S3Session.answer, S3Session.after, normalizeKey_slashless slashless, deleteObject_served,
    Std.ExtTreeMap.contains_iff_mem.mpr there]
  exact ⟨rfl, same.remove key⟩

theorem compareAndSwapObject (expected : Option Bytes) (newPayload : Bytes) :
    Alike store session (.compareAndSwapObject key expected newPayload) := by
  simp only [Alike, ObjectStore.answer, ObjectStore.compareAndSwapObject, ObjectStore.request, same.clear,
    same.healthy.advance, S3Session.answer, S3Session.after, normalizeKey_slashless slashless,
    compareAndSwapObject_served, same.objects]
  split
  · exact ⟨rfl, same.put key newPayload⟩
  · exact ⟨rfl, same⟩

theorem putIfAbsent (capable : session.client.conditionalCreate = true) :
    Alike store session (.putIfAbsent key payload) := by
  have objects := same.objects key
  simp only [Alike, ObjectStore.answer, ObjectStore.putIfAbsent, ObjectStore.request, same.clear,
    same.healthy.advance, S3Session.answer, S3Session.after, normalizeKey_slashless slashless]
  cases found : store.objects[key]? with
  | none =>
    rw [putIfAbsent_free capable (objects.trans found)]
    exact ⟨rfl, same.put key payload⟩
  | some current =>
    obtain ⟨token, ran⟩ := @putIfAbsent_taken _ _ _ payload capable _ (objects.trans found)
    rw [ran]
    exact ⟨rfl, same⟩

end

theorem alike {call : StoreCall} (proper : store.Proper call)
    (standsIn : store.StandsIn session.client call) : Alike store session call := by
  cases call with
  | putObject key payload => exact same.putObject proper standsIn
  | putObjectOverwrite key payload => exact same.putObjectOverwrite proper
  | getObject key => exact same.getObject proper
  | getObjectRange key start stop =>
    obtain ⟨slashless, payload, found, -, inside⟩ := proper
    exact same.getObjectRange slashless found inside
  | headObject key => exact same.headObject proper
  | listPrefix start => exact same.listPrefix proper
  | deleteObject key => exact same.deleteObject proper standsIn
  | compareAndSwapObject key expected newPayload =>
    exact same.compareAndSwapObject proper expected newPayload
  | putIfAbsent key payload => exact same.putIfAbsent proper standsIn

theorem differs {call : StoreCall} (proper : store.Proper call)
    (fails : ¬ store.StandsIn session.client call)
    (results : SameResult (store.answer call).1 (session.answer call).1) :
    ∃ key, Slashless key ∧ ¬ SameResult ((store.answer call).2.answer (.getObject key)).1
      ((session.answer call).2.answer (.getObject key)).1 := by
  cases call with
  | putObject key payload =>
    simp only [ObjectStore.StandsIn, not_forall] at fails
    obtain ⟨stored, found, other⟩ := fails
    have slashless : Slashless key := proper
    refine ⟨key, slashless, ?_⟩
    have kept : (store.withPut key payload).objects[key]? = some stored := by
      rw [ObjectStore.withPut, same.policy]
      show (ObjectStore.putInto .keepExisting store.objects key payload)[key]? = some stored
      rw [ObjectStore.putInto_self, found]
      rfl
    have inMemory : ((store.answer (.putObject key payload)).2.answer (.getObject key)).1 =
        .ok (.payload stored) := by
      show ((ObjectStore.putObject key payload store).2.answer (.getObject key)).1 = _
      rw [ObjectStore.putObject_healthy same.healthy]
      show Except.map _ (ObjectStore.getObject key (store.withPut key payload)).1 = _
      rw [ObjectStore.getObject_healthy same.healthy.withPut kept]
      rfl
    have inBucket : ((session.answer (.putObject key payload)).2.answer (.getObject key)).1 =
        .ok (.payload payload) := by
      simp only [S3Session.answer, S3Session.after, normalizeKey_slashless slashless,
        putObject_served, getObject_served S3Bucket.current_store_self]
      rfl
    rw [inMemory, inBucket]
    intro equal
    cases equal
    exact other rfl
  | deleteObject key =>
    have slashless : Slashless key := proper
    have missing : store.objects.contains key = false := by
      rw [Bool.eq_false_iff, ne_eq, Std.ExtTreeMap.contains_iff_mem]
      exact fails
    simp only [ObjectStore.answer, ObjectStore.deleteObject, ObjectStore.request, same.clear,
    same.healthy.advance, missing, S3Session.answer, S3Session.after,
    normalizeKey_slashless slashless, deleteObject_served] at results
    cases results
  | putIfAbsent key payload =>
    have slashless : Slashless key := proper
    have incapable : session.client.conditionalCreate = false := by
      simpa [ObjectStore.StandsIn] using fails
    simp only [ObjectStore.answer, ObjectStore.putIfAbsent, ObjectStore.request, same.clear,
    same.healthy.advance, S3Session.answer, S3Session.after, normalizeKey_slashless slashless,
    putIfAbsent_incapable incapable] at results
    split at results
    all_goals cases results
  | putObjectOverwrite | getObject | getObjectRange | headObject | listPrefix
  | compareAndSwapObject => exact absurd trivial fails

theorem answerAlike_iff {calls : List StoreCall}
    (proper : ∀ made call, made ++ [call] <+: calls → (store.afterCalls made).Proper call) :
    (∀ made key, made <+: calls → Slashless key →
      AnswerAlike store session (made ++ [.getObject key])) ↔
    ∀ made call, made ++ [call] <+: calls →
      (store.afterCalls made).StandsIn session.client call := by
  induction calls generalizing store session with
  | nil =>
    constructor
    · intro _ made call part
      simp at part
    · intro _ made key part slashless
      cases prefix_nil.mp part
      exact ⟨(same.getObject slashless).1, trivial⟩
  | cons call rest ih =>
    have first : store.Proper call := proper [] call (prefix_append [call] rest)
    have later (made : List StoreCall) (next : StoreCall) (part : made ++ [next] <+: rest) :
        ((store.answer call).2.afterCalls made).Proper next :=
      proper (call :: made) next (cons_prefix_cons.mpr ⟨rfl, part⟩)
    have sameClient := answer_client session call
    constructor
    · intro alike
      have answered (key : Text) (slashless : Slashless key) :=
        alike [call] key (prefix_append [call] rest) slashless
      have standsIn : store.StandsIn session.client call := by
        by_contra fails
        have results := (answered [] (by simp [Slashless])).1
        obtain ⟨key, slashless, differ⟩ := same.differs first fails results
        exact differ (answered key slashless).2.1
      have inner := (ih (same.alike first standsIn).2 later).mp fun made key part slashless =>
        (alike (call :: made) key (cons_prefix_cons.mpr ⟨rfl, part⟩) slashless).2
      intro made next part
      cases made with
      | nil =>
        obtain ⟨rfl, -⟩ := cons_prefix_cons.mp part
        exact standsIn
      | cons earlier made =>
        obtain ⟨rfl, behind⟩ := cons_prefix_cons.mp part
        have stands := inner made next behind
        rw [sameClient] at stands
        exact stands
    · intro stands made key part slashless
      obtain ⟨results, objects⟩ := same.alike first (stands [] call (prefix_append [call] rest))
      cases made with
      | nil => exact ⟨(same.getObject slashless).1, trivial⟩
      | cons earlier made =>
        obtain ⟨rfl, behind⟩ := cons_prefix_cons.mp part
        refine ⟨results, (ih objects later).mpr ?_ made key behind slashless⟩
        intro first next inside
        rw [sameClient]
        exact stands (earlier :: first) next (cons_prefix_cons.mpr ⟨rfl, inside⟩)

end Same

/--
The store in memory and the client of S3, started with the same objects, return the same to a
sequence of calls, and to any get behind a part of it, exactly when every put under a key that is
there repeats its payload, every deletion finds its object, and conditional puts are supported.
-/
theorem stand_in_answers_alike (client : S3ObjectStore) (paging : Paging) (bucket : S3Bucket)
    (objects : Objects) (same : ∀ key, bucket.current key = objects[key]?) (calls : List StoreCall)
    (proper : ∀ made call, made ++ [call] <+: calls →
      ((ObjectStore.inMemory objects).afterCalls made).Proper call) :
    (∀ made key, made <+: calls → Slashless key →
      AnswerAlike (.inMemory objects) ⟨client, paging, bucket⟩ (made ++ [.getObject key])) ↔
    ∀ made call, made ++ [call] <+: calls →
      ((ObjectStore.inMemory objects).afterCalls made).StandsIn client call := by
  have start : Same (.inMemory objects) ⟨client, paging, bucket⟩ := ⟨rfl, rfl, same⟩
  exact start.answerAlike_iff proper

def onePage : Paging := ⟨fun keys => [keys], fun keys => by simp⟩

def lastResults (client : S3ObjectStore) (calls : List StoreCall) (last : StoreCall) :
    StoreResult × StoreResult :=
  (((ObjectStore.inMemory ∅).afterCalls calls).answer last |>.1,
    (calls.foldl (fun session call => (S3Session.answer session call).2)
      ⟨client, onePage, emptyBucket⟩).answer last |>.1)

theorem stand_in_answers_alike_deleted :
    AnswerAlike (.inMemory ∅) ⟨twiceClient, onePage, emptyBucket⟩
      ([.putIfAbsent ['k'] [1], .deleteObject ['k']] ++ [.getObject ['k']]) := by
  have slashless : Slashless ['k'] := by simp [Slashless]
  have inside {made : List StoreCall} {call : StoreCall}
      (part : made ++ [call] <+: [.putIfAbsent ['k'] [1], .deleteObject ['k']]) :
      made = [] ∧ call = .putIfAbsent ['k'] [1] ∨
        made = [.putIfAbsent ['k'] [1]] ∧ call = .deleteObject ['k'] := by
    rcases made with _ | ⟨first, rest⟩
    · obtain ⟨rfl, -⟩ := cons_prefix_cons.mp part
      exact .inl ⟨rfl, rfl⟩
    · obtain ⟨rfl, tail⟩ := cons_prefix_cons.mp part
      rcases rest with _ | ⟨second, others⟩
      · obtain ⟨rfl, -⟩ := cons_prefix_cons.mp tail
        exact .inr ⟨rfl, rfl⟩
      · have short := tail.length_le
        simp at short
  refine (stand_in_answers_alike twiceClient onePage emptyBucket ∅ (fun key => ?_) _ ?_).mpr ?_ _ _
    (prefix_refl _) slashless
  · simp [S3Bucket.current, emptyBucket]
  · intro made call part
    rcases inside part with ⟨rfl, rfl⟩ | ⟨rfl, rfl⟩
    · exact slashless
    · exact slashless
  · intro made call part
    rcases inside part with ⟨rfl, rfl⟩ | ⟨rfl, rfl⟩
    · exact rfl
    · show ['k'] ∈ ((ObjectStore.inMemory ∅).afterCalls [.putIfAbsent ['k'] [1]]).objects
      rw [← Std.ExtTreeMap.contains_iff_mem]
      decide +kernel

theorem stand_in_differs :
    ¬ AnswerAlike (.inMemory ∅) ⟨twiceClient, onePage, emptyBucket⟩
        [.putObject ['k'] [1], .putObject ['k'] [2], .getObject ['k']] ∧
      ¬ AnswerAlike (.inMemory ∅) ⟨twiceClient, onePage, emptyBucket⟩ [.deleteObject ['k']] ∧
      ¬ AnswerAlike (.inMemory ∅) ⟨⟨1, false, false⟩, onePage, emptyBucket⟩
        [.putIfAbsent ['k'] [1]] := by
  have fetched : lastResults twiceClient [.putObject ['k'] [1], .putObject ['k'] [2]]
      (.getObject ['k']) = (.ok (.payload [1]), .ok (.payload [2])) := by
    decide +kernel
  have deleted : lastResults twiceClient [] (.deleteObject ['k']) =
      (.ok (.flag false), .ok (.flag true)) := by
    decide +kernel
  have created : lastResults ⟨1, false, false⟩ [] (.putIfAbsent ['k'] [1]) =
      (.ok (.verdict .success), .ok (.verdict .unsupported)) := by
    decide +kernel
  obtain ⟨memoryFetched, bucketFetched⟩ := Prod.mk.injEq .. ▸ fetched
  obtain ⟨memoryDeleted, bucketDeleted⟩ := Prod.mk.injEq .. ▸ deleted
  obtain ⟨memoryCreated, bucketCreated⟩ := Prod.mk.injEq .. ▸ created
  refine ⟨?_, ?_, ?_⟩
  · rintro ⟨-, -, results, -⟩
    have same : SameResult (.ok (.payload [1])) (.ok (.payload [2])) := by
      rw [← memoryFetched, ← bucketFetched]
      exact results
    cases same
  · rintro ⟨results, -⟩
    have same : SameResult (.ok (.flag false)) (.ok (.flag true)) := by
      rw [← memoryDeleted, ← bucketDeleted]
      exact results
    cases same
  · rintro ⟨results, -⟩
    have same : SameResult (.ok (.verdict .success)) (.ok (.verdict .unsupported)) := by
      rw [← memoryCreated, ← bucketCreated]
      exact results
    cases same

end WombatKV
