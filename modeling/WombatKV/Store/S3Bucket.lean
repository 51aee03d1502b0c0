import WombatKV.Foundation.Dialogue
import WombatKV.Store.WalStore

/-! A bucket that serves one request at a time. -/

namespace WombatKV

def etagIfMatchValue (etag : Text) : Text :=
  if '"' ∈ etag ∨ "W/".toList.isPrefixOf etag then etag else '"' :: (etag ++ ['"'])

structure TagScheme where
  tagOf : Nat → Text
  honours : Text → Nat → Bool
  single : ∀ header first second, honours header first = true → honours header second = true →
    first = second
  own : ∀ version, honours (etagIfMatchValue (tagOf version)) version = true

inductive PutCondition
  | always
  | ifNoneMatch
  | ifMatch (header : Text)
  deriving DecidableEq, Repr

inductive S3Request
  | get (key : Text)
  | head (key : Text)
  | put (key : Text) (payload : Bytes) (condition : PutCondition)
  deriving DecidableEq, Repr

structure S3Response where
  status : UInt16
  body : Bytes
  eTag : Option Text
  deriving DecidableEq, Repr

abbrev S3Reply := Except String S3Response

structure S3Object where
  payload : Bytes
  version : Nat
  deriving DecidableEq, Repr

structure S3Bucket where
  scheme : TagScheme
  objects : Std.ExtTreeMap Text S3Object
  nextVersion : Nat
  older : ∀ (key : Text) (object : S3Object), objects[key]? = some object →
    object.version < nextVersion

structure S3Write where
  key : Text
  before : Option Bytes
  payload : Bytes
  deriving DecidableEq, Repr

namespace S3Bucket

def current (bucket : S3Bucket) (key : Text) : Option Bytes :=
  bucket.objects[key]?.map (·.payload)

def admits (bucket : S3Bucket) (key : Text) : PutCondition → Bool
  | .always => true
  | .ifNoneMatch => bucket.objects[key]?.isNone
  | .ifMatch header => bucket.objects[key]?.any fun object =>
    bucket.scheme.honours header object.version

def store (bucket : S3Bucket) (key : Text) (payload : Bytes) : S3Bucket where
  scheme := bucket.scheme
  objects := bucket.objects.insert key ⟨payload, bucket.nextVersion⟩
  nextVersion := bucket.nextVersion + 1
  older other object found := by
    rw [Std.ExtTreeMap.getElem?_insert] at found
    split at found
    · cases found
      exact Nat.lt_succ_self _
    · exact (bucket.older other object found).trans (Nat.lt_succ_self _)

def writeOf (bucket : S3Bucket) : S3Request → Option S3Write
  | .put key payload condition =>
    if bucket.admits key condition then some ⟨key, bucket.current key, payload⟩ else none
  | _ => none

def apply (bucket : S3Bucket) (request : S3Request) : S3Bucket :=
  match bucket.writeOf request with
  | some write => bucket.store write.key write.payload
  | none => bucket

def respond (bucket : S3Bucket) : S3Request → S3Response
  | .get key => match bucket.objects[key]? with
    | some object => ⟨200, object.payload, some (bucket.scheme.tagOf object.version)⟩
    | none => ⟨404, [], none⟩
  | .head key => match bucket.objects[key]? with
    | some object => ⟨200, [], some (bucket.scheme.tagOf object.version)⟩
    | none => ⟨404, [], none⟩
  | .put key _ condition =>
    if bucket.admits key condition then ⟨200, [], none⟩
    else if bucket.objects[key]?.isSome then ⟨412, [], none⟩ else ⟨404, [], none⟩

end S3Bucket

abbrev RefusedStatus := { status : UInt16 // ¬ (200 ≤ status ∧ status < 300) ∧ status ≠ 404 }

inductive Delivery
  | answered
  | lostRequest (error : String)
  | lostReply (error : String)
  | refused (status : RefusedStatus)
  deriving DecidableEq, Repr

namespace Delivery

def arrives : Delivery → Bool
  | answered | lostReply _ => true
  | lostRequest _ | refused _ => false

def isLost : Delivery → Bool
  | lostRequest _ | lostReply _ => true
  | answered | refused _ => false

end Delivery

namespace S3Bucket

def reply (bucket : S3Bucket) (delivery : Delivery) (request : S3Request) : S3Reply :=
  match delivery with
  | .answered => .ok (bucket.respond request)
  | .lostRequest error | .lostReply error => .error error
  | .refused status => .ok ⟨status.val, [], none⟩

def deliveredWrite (bucket : S3Bucket) (delivery : Delivery) (request : S3Request) :
    Option S3Write :=
  if delivery.arrives then bucket.writeOf request else none

def deliver (bucket : S3Bucket) (delivery : Delivery) (request : S3Request) : S3Bucket :=
  if delivery.arrives then bucket.apply request else bucket

end S3Bucket

end WombatKV
