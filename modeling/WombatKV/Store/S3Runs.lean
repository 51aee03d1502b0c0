import WombatKV.Foundation.Runs
import WombatKV.Store.S3Client

/-! One client on a lossy line, and many clients interleaved. -/

namespace WombatKV

structure S3Line where
  bucket : S3Bucket
  tape : Nat → Delivery
  writes : List S3Write

namespace S3Line

def serve (request : S3Request) (line : S3Line) : S3Reply × S3Line :=
  (line.bucket.reply (line.tape 0) request,
    { bucket := line.bucket.deliver (line.tape 0) request
      tape := fun index => line.tape (index + 1)
      writes := line.writes ++ (line.bucket.deliveredWrite (line.tape 0) request).toList })

end S3Line

inductive ConditionalCall
  | putIfAbsent
  | putIfTokenMatches (token : CasToken)
  deriving DecidableEq, Repr

namespace ConditionalCall

def program (call : ConditionalCall) (store : S3ObjectStore) (key : Text) (payload : Bytes) :
    S3Program (Except WalStoreError ConditionalPutResult) :=
  match call with
  | putIfAbsent => store.putIfAbsent key payload
  | putIfTokenMatches token => store.putIfTokenMatches key payload token

def sends (call : ConditionalCall) (store : S3ObjectStore) : Option PutCondition :=
  match call with
  | putIfAbsent => if store.conditionalCreate then some .ifNoneMatch else none
  | putIfTokenMatches (.eTag etag) =>
    if store.conditionalUpdate && isHeaderValue (etagIfMatchValue etag) then
      some (.ifMatch (etagIfMatchValue etag))
    else none
  | putIfTokenMatches (.contentHash _) => none

def Truthful (call : ConditionalCall) (store : S3ObjectStore) (key : Text) (payload : Bytes)
    (bucket : S3Bucket) (tape : Nat → Delivery) : Prop :=
  let (result, after) := (call.program store key payload).run S3Line.serve ⟨bucket, tape, []⟩
  let wrote := ∃ write ∈ after.writes, write.key = key ∧ write.payload = payload
  (∀ token, result = .ok (.conflict token) → ¬ wrote) ∧ (result = .ok .success → wrote)

end ConditionalCall

def leadingLost : Nat → (Nat → Delivery) → Nat
  | 0, _ => 0
  | limit + 1, tape =>
    if (tape 0).isLost then leadingLost limit (fun index => tape (index + 1)) + 1 else 0

def Delivery.seemsConflict : Delivery → Bool
  | answered => true
  | refused status => status.val = 409 || status.val = 412
  | lostRequest _ | lostReply _ => false

def ConditionalCall.Settles (call : ConditionalCall) (store : S3ObjectStore) (key : Text)
    (bucket : S3Bucket) (tape : Nat → Delivery) : Prop :=
  ∀ condition, call.sends store = some condition → bucket.admits key condition = true →
    let lost := leadingLost store.attempts tape
    lost < store.attempts → (∃ index < lost, ∃ error, tape index = .lostReply error) →
      (tape lost).seemsConflict = false

structure S3Thread (ι α : Type) where
  input : ι
  asked : List S3Request
  program : S3Program α

structure ThreadWrite extends S3Write where
  thread : Nat
  deriving DecidableEq, Repr

structure S3Run (ι α : Type) where
  bucket : S3Bucket
  threads : List (S3Thread ι α)
  writes : List ThreadWrite

inductive S3Step (ι : Type)
  | begin (input : ι)
  | deliver (index : Nat) (delivery : Delivery)

namespace S3Run

variable {ι α : Type}

def step (program : ι → S3Program α) (run : S3Run ι α) : S3Step ι → Option (S3Run ι α)
  | .begin input => some { run with threads := run.threads ++ [⟨input, [], program input⟩] }
  | .deliver index delivery =>
    match run.threads[index]? with
    | some ⟨input, asked, .ask request next⟩ =>
      let reply := run.bucket.reply delivery request
      let written := (run.bucket.deliveredWrite delivery request).map fun write =>
        { write with thread := index : ThreadWrite }
      some {
        bucket := run.bucket.deliver delivery request
        threads := run.threads.set index ⟨input, asked ++ [request], next reply⟩
        writes := run.writes ++ written.toList }
    | _ => none

def writesTo (run : S3Run ι α) (key : Text) : List ThreadWrite := run.writes.filter (·.key = key)

def writesOf (run : S3Run ι α) (index : Nat) : List ThreadWrite :=
  run.writes.filter (·.thread = index)

end S3Run

def s3System {ι α : Type} (program : ι → S3Program α) (bucket : S3Bucket) :
    System (S3Run ι α) (S3Step ι) where
  start := ⟨bucket, [], []⟩
  step := S3Run.step program

def Apart {ι α : Type} (clash : S3Request → S3Thread ι α → Bool) (run : S3Run ι α) :
    S3Step ι → Prop
  | .begin _ => True
  | .deliver index _ => ∀ thread request, run.threads[index]? = some thread →
    thread.program.pending = some request → ∀ other rival, other ≠ index →
      run.threads[other]? = some rival → clash request rival = false

def S3Request.isPut : S3Request → Bool
  | .put .. => true
  | .get _ | .head _ => false

def Chained : Option Bytes → List ThreadWrite → Prop
  | _, [] => True
  | before, write :: rest => write.before = before ∧ Chained (some write.payload) rest

structure SwapCall where
  expected : Option Bytes
  newPayload : Bytes
  deriving DecidableEq, Repr

def swapSystem (store : S3ObjectStore) (key : Text) (bucket : S3Bucket) :
    System (S3Run SwapCall (Except WalStoreError Bool)) (S3Step SwapCall) :=
  s3System (fun call => store.compareAndSwapObject key call.expected call.newPayload) bucket

def swapClash {ι α : Type} (request : S3Request) (rival : S3Thread ι α) : Bool :=
  request.isPut && rival.program.pending.any S3Request.isPut

def Swapped (run : S3Run SwapCall (Except WalStoreError Bool)) (index : Nat) (call : SwapCall) :
    Prop :=
  ∃ thread, run.threads[index]? = some thread ∧ thread.input = call ∧
    thread.program.answer = some (.ok true)

def readModifyWrite (store : S3ObjectStore) (key : Text) (update : Bytes → Bytes) :
    S3Program (Option (Bytes × Except WalStoreError ConditionalPutResult)) := do
  match ← store.readWithToken key with
  | .ok (some (bytes, token)) =>
    let result ← store.putIfTokenMatches key (update bytes) token
    return some (bytes, result)
  | .ok none | .error _ => return none

def updateSystem (store : S3ObjectStore) (key : Text) (bucket : S3Bucket) :
    System (S3Run (Bytes → Bytes) (Option (Bytes × Except WalStoreError ConditionalPutResult)))
      (S3Step (Bytes → Bytes)) :=
  s3System (readModifyWrite store key) bucket

def readClash {ι α : Type} (request : S3Request) (rival : S3Thread ι α) : Bool :=
  request.isPut && !rival.asked.any S3Request.isPut &&
    rival.program.pending.any fun pending => match pending with
      | .head _ => true
      | _ => false

theorem etagIfMatchValue_natText (version : Nat) :
    etagIfMatchValue (natText version) = '"' :: (natText version ++ ['"']) := by
  have quoteless : '"' ∉ natText version := not_mem_natText (by decide) version
  have strong : ¬ "W/".toList.isPrefixOf (natText version) = true := by
    rw [List.isPrefixOf_iff_prefix]
    intro weak
    exact @not_mem_natText 'W' (by decide) version (weak.subset (by decide))
  rw [etagIfMatchValue, if_neg (not_or.mpr ⟨quoteless, strong⟩)]

def countingTags : TagScheme where
  tagOf := natText
  honours header version := header = etagIfMatchValue (natText version)
  single header first second named again := by
    simp only [decide_eq_true_eq, etagIfMatchValue_natText] at named again
    have same : natText first = natText second := by
      simpa using named.symm.trans again
    have value := digitsValue_natText first
    rw [same, digitsValue_natText second] at value
    exact (Option.some.inj value).symm
  own version := by simp

def emptyBucket : S3Bucket := ⟨countingTags, ∅, 0, by simp⟩

def twiceClient : S3ObjectStore := ⟨1, true, true⟩

end WombatKV
