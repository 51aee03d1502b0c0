import WombatKV.Store.S3Bucket

/-! The object store over S3: requests and responses. -/

namespace WombatKV

open Dialogue

abbrev S3Program (α : Type) := Dialogue S3Request S3Reply α

inductive CasToken
  | eTag (etag : Text)
  | contentHash (hash : UInt64)
  deriving DecidableEq, Repr

inductive ConditionalPutResult
  | success
  | conflict (currentToken : Option CasToken)
  | unsupported
  deriving DecidableEq, Repr

structure S3ObjectStore where
  maxRetries : UInt32
  conditionalCreate : Bool
  conditionalUpdate : Bool
  deriving DecidableEq, Repr

def contentHash (payload : Bytes) : UInt64 :=
  payload.foldl (fun hash byte => (hash ^^^ byte.toUInt64) * 0x100000001b3) 0xcbf29ce484222325

def isHeaderValue (value : Text) : Bool :=
  value.all fun letter => (32 ≤ letter.toNat && letter.toNat < 127) || letter = '\t'

def isSuccess (status : UInt16) : Bool := 200 ≤ status && status < 300

namespace S3ObjectStore

def attempts (store : S3ObjectStore) : Nat := min (store.maxRetries.toNat + 1) (2 ^ 32 - 1)

def withRetry {α : Type} (store : S3ObjectStore) (request : S3Request)
    (parse : S3Reply → Except WalStoreError α) : S3Program (Except WalStoreError α) :=
  retry request parse store.attempts (.s3 "unknown retry failure")

variable (store : S3ObjectStore) (key : Text)

def putStatus : S3Reply → Except WalStoreError UInt16
  | .error err =>
    let shown := String.ofList key
    .error (.s3 s!"conditional put failed: key={shown}: {err}")
  | .ok response => .ok response.status

def conditionalPutWithHeaders (payload : Bytes) (condition : PutCondition) :
    S3Program (Except WalStoreError UInt16) :=
  store.withRetry (.put key payload condition) (putStatus key)

def headTag : S3Reply → Except WalStoreError (Option Text)
  | .error err =>
    let shown := String.ofList key
    .error (.s3 s!"head_object failed: key={shown}: {err}")
  | .ok response =>
    if response.status = 404 then .ok none
    else if ¬ isSuccess response.status then
      let shown := String.ofList key
      let status := response.status
      .error (.s3 s!"head_object failed: key={shown} status={status}")
    else .ok (response.eTag.filter (· ≠ []))

def headEtag : S3Program (Except WalStoreError (Option Text)) :=
  store.withRetry (.head key) (headTag key)

def putDone : S3Reply → Except WalStoreError Unit
  | .error err =>
    let shown := String.ofList key
    .error (.s3 s!"put_object failed: key={shown}: {err}")
  | .ok response =>
    if isSuccess response.status then .ok ()
    else
      let shown := String.ofList key
      let status := response.status
      .error (.s3 s!"put_object failed: key={shown} status={status}")

def putObject (payload : Bytes) : S3Program (Except WalStoreError Unit) :=
  store.withRetry (.put key payload .always) (putDone key)

def putObjectOverwrite (payload : Bytes) : S3Program (Except WalStoreError Unit) :=
  store.putObject key payload

def getBody : S3Reply → Except WalStoreError Bytes
  | .error err =>
    let shown := String.ofList key
    .error (.s3 s!"get_object failed: key={shown}: {err}")
  | .ok response =>
    if response.status = 404 then .error (.objectNotFound key)
    else if ¬ isSuccess response.status then
      let shown := String.ofList key
      let status := response.status
      .error (.s3 s!"get_object failed: key={shown} status={status}")
    else .ok response.body

def getObject : S3Program (Except WalStoreError Bytes) :=
  store.withRetry (.get key) (getBody key)

def swapAfterRead (expected : Option Bytes) (newPayload : Bytes) (current : Option Bytes) :
    S3Program (Except WalStoreError Bool) :=
  if current = expected then do
    match ← store.putObjectOverwrite key newPayload with
    | .ok () => return .ok true
    | .error error => return .error error
  else return .ok false

def compareAndSwapObject (expected : Option Bytes) (newPayload : Bytes) :
    S3Program (Except WalStoreError Bool) := do
  match ← store.getObject key with
  | .ok bytes => store.swapAfterRead key expected newPayload (some bytes)
  | .error (.objectNotFound _) => store.swapAfterRead key expected newPayload none
  | .error error => return .error error

def tokenAfterRead (bytes : Bytes) :
    S3Program (Except WalStoreError (Option (Bytes × CasToken))) := do
  match ← store.headEtag key with
  | .ok (some etag) => return .ok (some (bytes, .eTag etag))
  | .ok none => return .ok (some (bytes, .contentHash (contentHash bytes)))
  | .error error => return .error error

def readWithToken : S3Program (Except WalStoreError (Option (Bytes × CasToken))) := do
  match ← store.getObject key with
  | .ok bytes => store.tokenAfterRead key bytes
  | .error (.objectNotFound _) => return .ok none
  | .error error => return .error error

def currentTokenForKey : S3Program (Except WalStoreError (Option CasToken)) := do
  match ← store.readWithToken key with
  | .ok found => return .ok (found.map Prod.snd)
  | .error error => return .error error

def verdictOf (caller : String) :
    Except WalStoreError UInt16 → S3Program (Except WalStoreError ConditionalPutResult)
  | .error error => return .error error
  | .ok status =>
    if isSuccess status then return .ok .success
    else if status = 404 ∨ status = 409 ∨ status = 412 then do
      match ← store.currentTokenForKey key with
      | .ok currentToken => return .ok (.conflict currentToken)
      | .error error => return .error error
    else if status = 400 ∨ status = 405 ∨ status = 501 then return .ok .unsupported
    else
      let shown := String.ofList key
      return .error (.s3 s!"{caller} failed: key={shown} status={status}")

def putIfTokenMatches (payload : Bytes) (token : CasToken) :
    S3Program (Except WalStoreError ConditionalPutResult) :=
  if ¬ store.conditionalUpdate then return .ok .unsupported
  else
    match token with
    | .contentHash _ => return .ok .unsupported
    | .eTag etag =>
      if isHeaderValue (etagIfMatchValue etag) then do
        let status ← store.conditionalPutWithHeaders key payload (.ifMatch (etagIfMatchValue etag))
        store.verdictOf key "put_if_token_matches" status
      else return .error (.s3 "invalid etag header value: failed to parse header value")

def putIfAbsent (payload : Bytes) : S3Program (Except WalStoreError ConditionalPutResult) :=
  if ¬ store.conditionalCreate then return .ok .unsupported
  else do
    let status ← store.conditionalPutWithHeaders key payload .ifNoneMatch
    store.verdictOf key "put_if_absent" status

end S3ObjectStore

end WombatKV
