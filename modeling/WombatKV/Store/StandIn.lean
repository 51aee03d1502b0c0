import WombatKV.Store.S3Client

/-! The object store in memory and over S3, operation by operation. -/

namespace WombatKV

section

open Dialogue

structure RangeRequest where
  key : Text
  first : Nat
  last : Nat
  deriving DecidableEq, Repr

structure Paging where
  pages : List Text → List (List Text)
  complete : ∀ keys, (pages keys).flatten.Perm keys

namespace S3Bucket

def serve (request : S3Request) (bucket : S3Bucket) : S3Reply × S3Bucket :=
  (.ok (bucket.respond request), bucket.apply request)

def respondRange (bucket : S3Bucket) (request : RangeRequest) : S3Response :=
  match bucket.objects[request.key]? with
  | some object =>
    if request.first < object.payload.length then
      ⟨206, slice object.payload request.first (request.last + 1),
        some (bucket.scheme.tagOf object.version)⟩
    else ⟨416, [], none⟩
  | none => ⟨404, [], none⟩

def serveRange (request : RangeRequest) (bucket : S3Bucket) : S3Reply × S3Bucket :=
  (.ok (bucket.respondRange request), bucket)

def serveList (paging : Paging) (start : Text) (bucket : S3Bucket) :
    Except String (List (List Text)) × S3Bucket :=
  (.ok (paging.pages (bucket.objects.keys.filter (start.isPrefixOf ·))), bucket)

def remove (bucket : S3Bucket) (key : Text) : S3Bucket where
  scheme := bucket.scheme
  objects := bucket.objects.erase key
  nextVersion := bucket.nextVersion
  older other object found := by
    rw [Std.ExtTreeMap.getElem?_erase] at found
    split at found
    · cases found
    · exact bucket.older other object found

def serveDelete (key : Text) (bucket : S3Bucket) : S3Reply × S3Bucket :=
  (.ok ⟨204, [], none⟩, bucket.remove key)

end S3Bucket

namespace S3ObjectStore

variable (store : S3ObjectStore) (key : Text)

def headFound : S3Reply → Except WalStoreError Bool
  | .error err =>
    let shown := String.ofList key
    .error (.s3 s!"head_object failed: key={shown}: {err}")
  | .ok response =>
    if response.status = 404 then .ok false
    else if ¬ isSuccess response.status then
      let shown := String.ofList key
      let status := response.status
      .error (.s3 s!"head_object failed: key={shown} status={status}")
    else .ok true

def headObject : S3Program (Except WalStoreError Bool) :=
  store.withRetry (.head key) (headFound key)

def rangeBody (first last : Nat) : S3Reply → Except WalStoreError Bytes
  | .error err =>
    let shown := String.ofList key
    .error (.s3 s!"get_object_range failed: key={shown} start={first} end={last}: {err}")
  | .ok response =>
    if response.status = 404 then .error (.objectNotFound key)
    else if ¬ isSuccess response.status then
      let shown := String.ofList key
      let status := response.status
      .error (.s3 s!"get_object_range failed: key={shown} status={status}")
    else .ok response.body

def getObjectRange (start stop : Nat) :
    Dialogue RangeRequest S3Reply (Except WalStoreError Bytes) :=
  if stop ≤ start then return .ok []
  else retry ⟨key, start, stop - 1⟩ (rangeBody key start (stop - 1)) store.attempts
    (.s3 "unknown retry failure")

def listedKeys (start : Text) :
    Except String (List (List Text)) → Except WalStoreError (List Text)
  | .error err =>
    let shown := String.ofList start
    .error (.s3 s!"list failed: prefix={shown}: {err}")
  | .ok pages => .ok pages.flatten

def listPrefix (start : Text) :
    Dialogue Text (Except String (List (List Text))) (Except WalStoreError (List Text)) :=
  retry start (listedKeys start) store.attempts (.s3 "unknown retry failure")

def deleted : S3Reply → Except WalStoreError Bool
  | .error err =>
    let shown := String.ofList key
    .error (.s3 s!"delete_object failed: key={shown}: {err}")
  | .ok response =>
    if response.status = 404 then .ok false
    else if ¬ isSuccess response.status then
      let shown := String.ofList key
      let status := response.status
      .error (.s3 s!"delete_object failed: key={shown} status={status}")
    else .ok true

def deleteObject : Dialogue Text S3Reply (Except WalStoreError Bool) :=
  retry key (deleted key) store.attempts (.s3 "unknown retry failure")

end S3ObjectStore

end

namespace ObjectStore

def putObjectOverwrite (key : Text) (payload : Bytes) : Call WalStoreError ObjectStore Unit :=
  request fun store => (.ok (), { store with objects := store.objects.insert key payload })

def getObjectRange (key : Text) (start stop : Nat) : Call WalStoreError ObjectStore Bytes :=
  request fun store =>
    match store.objects[key]? with
    | none => (.error (.objectNotFound key), store)
    | some bytes =>
      if bytes.length ≤ start ∨ stop ≤ start then (.ok [], store)
      else (.ok (slice bytes start (min stop bytes.length)), store)

def compareAndSwapObject (key : Text) (expected : Option Bytes) (newPayload : Bytes) :
    Call WalStoreError ObjectStore Bool :=
  request fun store =>
    if store.objects[key]? = expected then
      (.ok true, { store with objects := store.objects.insert key newPayload })
    else (.ok false, store)

def putIfAbsent (key : Text) (payload : Bytes) :
    Call WalStoreError ObjectStore ConditionalPutResult :=
  request fun store =>
    match store.objects[key]? with
    | some current => (.ok (.conflict (some (.contentHash (contentHash current)))), store)
    | none => (.ok .success, { store with objects := store.objects.insert key payload })

def inMemory (objects : Objects) : ObjectStore := ⟨.keepExisting, objects, fun _ => none⟩

end ObjectStore

inductive StoreCall
  | putObject (key : Text) (payload : Bytes)
  | putObjectOverwrite (key : Text) (payload : Bytes)
  | getObject (key : Text)
  | getObjectRange (key : Text) (start stop : Nat)
  | headObject (key : Text)
  | listPrefix (start : Text)
  | deleteObject (key : Text)
  | compareAndSwapObject (key : Text) (expected : Option Bytes) (newPayload : Bytes)
  | putIfAbsent (key : Text) (payload : Bytes)
  deriving DecidableEq, Repr

inductive StoreAnswer
  | done
  | payload (bytes : Bytes)
  | flag (value : Bool)
  | keys (listed : List Text)
  | verdict (result : ConditionalPutResult)
  deriving DecidableEq, Repr

abbrev StoreResult := Except WalStoreError StoreAnswer

def SameResult : StoreResult → StoreResult → Prop
  | .ok (.keys left), .ok (.keys right) => left.Perm right
  | .ok (.verdict (.conflict left)), .ok (.verdict (.conflict right)) => left.isSome = right.isSome
  | left, right => left = right

namespace ObjectStore

def answer (store : ObjectStore) : StoreCall → StoreResult × ObjectStore
  | .putObject key payload => (putObject key payload store).map (·.map fun _ => .done) id
  | .putObjectOverwrite key payload =>
    (putObjectOverwrite key payload store).map (·.map fun _ => .done) id
  | .getObject key => (getObject key store).map (·.map .payload) id
  | .getObjectRange key start stop => (getObjectRange key start stop store).map (·.map .payload) id
  | .headObject key => (headObject key store).map (·.map .flag) id
  | .listPrefix start => (listPrefix start store).map (·.map .keys) id
  | .deleteObject key => (deleteObject key store).map (·.map .flag) id
  | .compareAndSwapObject key expected newPayload =>
    (compareAndSwapObject key expected newPayload store).map (·.map .flag) id
  | .putIfAbsent key payload => (putIfAbsent key payload store).map (·.map .verdict) id

def afterCalls (store : ObjectStore) (calls : List StoreCall) : ObjectStore :=
  calls.foldl (fun store call => (store.answer call).2) store

end ObjectStore

structure S3Session where
  client : S3ObjectStore
  paging : Paging
  bucket : S3Bucket

namespace S3Session

open S3ObjectStore

def after {ρ π α : Type} (session : S3Session) (serve : ρ → S3Bucket → π × S3Bucket)
    (program : Dialogue ρ π (Except WalStoreError α)) (shape : α → StoreAnswer) :
    StoreResult × S3Session :=
  let (result, bucket) := program.run serve session.bucket
  (result.map shape, { session with bucket })

def answer (session : S3Session) : StoreCall → StoreResult × S3Session
  | .putObject key payload => session.after S3Bucket.serve
      (session.client.putObject (normalizeKey key) payload) fun _ => .done
  | .putObjectOverwrite key payload => session.after S3Bucket.serve
      (session.client.putObjectOverwrite (normalizeKey key) payload) fun _ => .done
  | .getObject key => session.after S3Bucket.serve
      (session.client.getObject (normalizeKey key)) .payload
  | .getObjectRange key start stop => session.after S3Bucket.serveRange
      (session.client.getObjectRange (normalizeKey key) start stop) .payload
  | .headObject key => session.after S3Bucket.serve
      (session.client.headObject (normalizeKey key)) .flag
  | .listPrefix start => session.after (S3Bucket.serveList session.paging)
      (session.client.listPrefix (normalizeKey start)) .keys
  | .deleteObject key => session.after S3Bucket.serveDelete
      (session.client.deleteObject (normalizeKey key)) .flag
  | .compareAndSwapObject key expected newPayload => session.after S3Bucket.serve
      (session.client.compareAndSwapObject (normalizeKey key) expected newPayload) .flag
  | .putIfAbsent key payload => session.after S3Bucket.serve
      (session.client.putIfAbsent (normalizeKey key) payload) .verdict

end S3Session

def AnswerAlike : ObjectStore → S3Session → List StoreCall → Prop
  | _, _, [] => True
  | store, session, call :: rest =>
    SameResult (store.answer call).1 (session.answer call).1 ∧
      AnswerAlike (store.answer call).2 (session.answer call).2 rest

def ObjectStore.Proper (store : ObjectStore) : StoreCall → Prop
  | .getObjectRange key start stop => Slashless key ∧
    ∃ payload, store.objects[key]? = some payload ∧ start ≤ stop ∧ stop ≤ payload.length
  | .putObject key _ | .putObjectOverwrite key _ | .getObject key | .headObject key
  | .listPrefix key | .deleteObject key | .compareAndSwapObject key _ _ | .putIfAbsent key _ =>
    Slashless key

def ObjectStore.StandsIn (store : ObjectStore) (client : S3ObjectStore) : StoreCall → Prop
  | .putObject key payload => ∀ stored, store.objects[key]? = some stored → stored = payload
  | .deleteObject key => key ∈ store.objects
  | .putIfAbsent _ _ => client.conditionalCreate = true
  | _ => True

end WombatKV
