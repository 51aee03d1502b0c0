import WombatKV.Foundation.Counting
import WombatKV.Proofs.Store.S3Runs

/-! When swaps lose no update. -/

namespace WombatKV

open Dialogue S3ObjectStore List

section Phases

variable (store : S3ObjectStore) (key : Text) (call : SwapCall)

def swapRead : Except WalStoreError Bytes → S3Program (Except WalStoreError Bool)
  | .ok bytes => store.swapAfterRead key call.expected call.newPayload (some bytes)
  | .error (.objectNotFound _) => store.swapAfterRead key call.expected call.newPayload none
  | .error error => done (.error error)

def swapWritten : Except WalStoreError Unit → S3Program (Except WalStoreError Bool)
  | .ok () => done (.ok true)
  | .error error => done (.error error)

inductive SwapPhase (current : Option Bytes) (own : List S3Write) :
    S3Program (Except WalStoreError Bool) → Prop
  | reading {left : Nat} {last : WalStoreError} {program : S3Program (Except WalStoreError Bool)}
      (unwritten : own = [])
      (shape : program = retry (.get key) (getBody key) (left + 1) last >>= swapRead store key call) :
      SwapPhase current own program
  | writing {left : Nat} {last : WalStoreError} {program : S3Program (Except WalStoreError Bool)}
      (fresh : own = [] → current = call.expected)
      (first : ∀ write ∈ own.head?, write.before = call.expected)
      (shape : program =
        retry (.put key call.newPayload .always) (putDone key) (left + 1) last >>= swapWritten) :
      SwapPhase current own program
  | ended {answer : Except WalStoreError Bool}
      (made : answer = .ok true → ∃ write ∈ own.head?, write.before = call.expected) :
      SwapPhase current own (done answer)

variable {store key call} {current : Option Bytes} {own : List S3Write} {bucket : S3Bucket}

theorem SwapPhase.begins : SwapPhase store key call current []
    (store.compareAndSwapObject key call.expected call.newPayload) := by
  obtain ⟨more, enough⟩ := store.attempts_pos
  have shape : store.compareAndSwapObject key call.expected call.newPayload =
      retry (.get key) (getBody key) (more + 1) (.s3 "unknown retry failure") >>=
        swapRead store key call := by
    rw [← enough]
    rfl
  exact .reading rfl shape

theorem SwapPhase.afterRead (unwritten : own = []) :
    SwapPhase store key call current own
      (store.swapAfterRead key call.expected call.newPayload current) := by
  obtain ⟨more, enough⟩ := store.attempts_pos
  rw [swapAfterRead]
  split
  · rename_i expected
    have shape : (do
        match ← store.putObjectOverwrite key call.newPayload with
        | .ok () => return .ok true
        | .error error => return .error error : S3Program (Except WalStoreError Bool)) =
        retry (.put key call.newPayload .always) (putDone key) (more + 1)
          (.s3 "unknown retry failure") >>= swapWritten := by
      rw [← enough]
      rfl
    exact .writing (fun _ => expected) (by simp [unwritten]) shape
  · exact .ended (by simp)

theorem SwapPhase.read {delivery : Delivery} {left : Nat} (unwritten : own = []) :
    SwapPhase store key call (bucket.current key) own
      (afterReply (.get key) (getBody key) left (swapRead store key call)
        (bucket.reply delivery (.get key))) := by
  rw [afterReply]
  split
  · rename_i bytes read
    rw [swapRead, ← getBody_ok read]
    exact .afterRead unwritten
  · rename_i error failed
    cases left with
    | succ left => exact .reading unwritten rfl
    | zero =>
      cases error with
      | objectNotFound missing =>
        show SwapPhase store key call (bucket.current key) own
          (store.swapAfterRead key call.expected call.newPayload none)
        rw [getBody_absent failed]
        exact .afterRead unwritten
      | corruptWal _ | objectStorePoisoned | invalidConfig _ | s3 _ => exact .ended (by simp)

theorem SwapPhase.written {delivery : Delivery} {left : Nat}
    (fresh : own = [] → bucket.current key = call.expected)
    (first : ∀ write ∈ own.head?, write.before = call.expected) :
    let request : S3Request := .put key call.newPayload .always
    SwapPhase store key call ((bucket.deliver delivery request).current key)
      (own ++ (bucket.deliveredWrite delivery request).toList)
      (afterReply request (putDone key) left swapWritten (bucket.reply delivery request)) := by
  intro request
  have firstStill (write : S3Write)
      (leads : write ∈ (own ++ (bucket.deliveredWrite delivery request).toList).head?) :
      write.before = call.expected := by
    cases own with
    | cons earlier rest => exact first write leads
    | nil =>
      rw [nil_append, Option.head?_toList] at leads
      rw [S3Bucket.before_of_deliveredWrite leads, (S3Bucket.key_of_deliveredWrite leads).1]
      exact fresh rfl
  have freshStill : own ++ (bucket.deliveredWrite delivery request).toList = [] →
      (bucket.deliver delivery request).current key = call.expected := by
    intro unwritten
    obtain ⟨before, none⟩ := append_eq_nil_iff.mp unwritten
    rw [S3Bucket.deliver_of_none (by simpa using none)]
    exact fresh before
  rw [afterReply]
  split
  · rename_i written
    have carried : bucket.deliveredWrite delivery request =
        some ⟨key, bucket.current key, call.newPayload⟩ := by
      rw [putDone_ok written]
      rfl
    refine .ended fun _ => ?_
    cases leads : (own ++ (bucket.deliveredWrite delivery request).toList).head? with
    | none => simp [carried] at leads
    | some write => exact ⟨write, rfl, firstStill write leads⟩
  · cases left with
    | succ left => exact .writing freshStill firstStill rfl
    | zero => exact .ended (by simp)

theorem SwapPhase.deliver {request : S3Request}
    {next : S3Reply → S3Program (Except WalStoreError Bool)}
    (phase : SwapPhase store key call (bucket.current key) own (.ask request next))
    (delivery : Delivery) :
    SwapPhase store key call ((bucket.deliver delivery request).current key)
        (own ++ (bucket.deliveredWrite delivery request).toList)
        (next (bucket.reply delivery request)) ∧
      ∀ write, bucket.deliveredWrite delivery request = some write →
        write.key = key ∧ write.payload = call.newPayload := by
  cases phase with
  | reading unwritten shape =>
    rw [retry_bind] at shape
    cases shape
    obtain ⟨same, none⟩ := @S3Bucket.deliver_of_read bucket delivery (.get key) rfl
    rw [same, none, Option.toList_none, append_nil]
    exact ⟨.read unwritten, by simp⟩
  | writing fresh first shape =>
    rw [retry_bind] at shape
    cases shape
    refine ⟨.written fresh first, fun write written => ?_⟩
    exact S3Bucket.key_of_deliveredWrite written

theorem SwapPhase.undisturbed {other : Option Bytes}
    {program : S3Program (Except WalStoreError Bool)}
    (phase : SwapPhase store key call current own program)
    (elsewhere : program.pending.any S3Request.isPut = false) :
    SwapPhase store key call other own program := by
  cases phase with
  | reading unwritten shape => exact .reading unwritten shape
  | ended made => exact .ended made
  | writing fresh first shape =>
    rw [shape, retry_bind] at elsewhere
    cases elsewhere

end Phases

def SwapThread (store : S3ObjectStore) (key : Text) (bucket : S3Bucket) (own : List S3Write)
    (thread : S3Thread SwapCall (Except WalStoreError Bool)) : Prop :=
  SwapPhase store key thread.input (bucket.current key) own thread.program ∧
    ∀ write ∈ own, write.key = key ∧ write.payload = thread.input.newPayload

section Runs

variable {store : S3ObjectStore} {key : Text} {bucket : S3Bucket}
  {run : S3Run SwapCall (Except WalStoreError Bool)}

theorem swaps_phased (reached : (swapSystem store key bucket).Reachable (Apart swapClash) run) :
    run.Phased (SwapThread store key) := by
  refine S3Run.reachable_phased ?_ ?_ ?_ reached
  · exact fun bucket call => ⟨.begins, by simp⟩
  · rintro bucket own call asked request next delivery ⟨phase, puts⟩
    obtain ⟨moved, carried⟩ := phase.deliver delivery
    refine ⟨moved, fun write member => ?_⟩
    rcases mem_append.mp member with earlier | new
    · exact puts write earlier
    · exact carried write (Option.mem_toList.mp new)
  · rintro bucket own thread request delivery apart ⟨phase, puts⟩
    refine ⟨?_, puts⟩
    cases isPut : request.isPut with
    | false =>
      rw [(S3Bucket.deliver_of_read isPut).1]
      exact phase
    | true =>
      simp only [swapClash, isPut, Bool.true_and] at apart
      exact phase.undisturbed apart

theorem writesTo_eq (phased : run.Phased (SwapThread store key)) :
    run.writesTo key = run.writes := by
  rw [S3Run.writesTo, filter_eq_self]
  intro write member
  have inside := phased.bounded write member
  obtain ⟨_, puts⟩ := phased.phases write.thread _ (List.getElem?_eq_getElem inside)
  have own : write.toS3Write ∈ run.ownWrites write.thread :=
    mem_map.mpr ⟨write, mem_filter.mpr ⟨member, by simp⟩, rfl⟩
  simpa using (puts _ own).1

theorem swapped_first (phased : run.Phased (SwapThread store key)) {index : Nat} {call : SwapCall}
    (swapped : Swapped run index call) :
    ∃ write, run.writes.find? (·.thread = index) = some write ∧ write.thread = index ∧
      write.before = call.expected ∧ write.payload = call.newPayload := by
  obtain ⟨thread, found, rfl, answered⟩ := swapped
  obtain ⟨phase, puts⟩ := phased.phases index thread found
  have heads : (run.ownWrites index).head? =
      (run.writes.find? (·.thread = index)).map ThreadWrite.toS3Write := by
    rw [S3Run.ownWrites, S3Run.writesOf, List.head?_map, List.head?_filter]
  have made : ∃ write ∈ (run.ownWrites index).head?, write.before = thread.input.expected := by
    generalize thread.program = program at phase answered
    cases phase with
    | reading unwritten shape =>
      rw [shape, retry_bind] at answered
      cases answered
    | writing fresh first shape =>
      rw [shape, retry_bind] at answered
      cases answered
    | ended made => exact made (Option.some.inj answered)
  obtain ⟨own, member, before⟩ := made
  have payload := (puts own (mem_of_mem_head? member)).2
  rw [heads] at member
  obtain ⟨write, first, rfl⟩ := Option.map_eq_some_iff.mp member
  exact ⟨write, first, by simpa using List.find?_some first, before, payload⟩

end Runs

/-- The swaps that return true can be put in an order in which each replaces what it expected. -/
theorem swaps_lose_no_update (store : S3ObjectStore) (key : Text) (bucket : S3Bucket)
    {run : S3Run SwapCall (Except WalStoreError Bool)}
    (reached : (swapSystem store key bucket).Reachable (Apart swapClash) run) :
    Chained (bucket.current key) run.writes ∧
      (∃ picked : List ThreadWrite, picked.Sublist run.writes ∧
        (picked.map (·.thread)).Nodup ∧
        (∀ index, index ∈ picked.map (·.thread) ↔ ∃ call, Swapped run index call) ∧
        ∀ write ∈ picked, ∃ call, Swapped run write.thread call ∧
          write.before = call.expected ∧ write.payload = call.newPayload) ∧
      ∀ one two expected payload other, one ≠ two →
        Swapped run one ⟨expected, payload⟩ → Swapped run two ⟨expected, other⟩ →
          ∃ earlier first between second later,
            run.writes = earlier ++ first :: (between ++ second :: later) ∧
            (first.thread = one ∧ second.thread = two ∨
              first.thread = two ∧ second.thread = one) ∧
            ∃ back ∈ first :: between, some back.payload = expected := by
  have phased := swaps_phased reached
  have chained := (S3Run.reachable_chained reached key).1
  rw [writesTo_eq phased] at chained
  refine ⟨chained, ?_, ?_⟩
  · -- The order is that of the first puts of the swaps that were made.
    classical
    refine ⟨(firstsBy (·.thread) run.writes).filter fun write =>
      ∃ call, Swapped run write.thread call, ?_, ?_, ?_, ?_⟩
    · exact filter_sublist.trans (firstsBy_sublist _ _)
    · exact (nodup_firstsBy _ _).sublist (filter_sublist.map _)
    · intro index
      constructor
      · intro member
        obtain ⟨write, picked, rfl⟩ := mem_map.mp member
        simpa using (mem_filter.mp picked).2
      · rintro ⟨call, swapped⟩
        obtain ⟨write, first, rfl, _⟩ := swapped_first phased swapped
        refine mem_map.mpr ⟨write, mem_filter.mpr ⟨?_, ?_⟩, rfl⟩
        · exact (mem_firstsBy _).mpr first
        · simpa using ⟨call, swapped⟩
    · intro write member
      obtain ⟨isFirst, chosen⟩ := mem_filter.mp member
      obtain ⟨call, swapped⟩ := of_decide_eq_true chosen
      obtain ⟨own, first, _, before, payload⟩ := swapped_first phased swapped
      have same : own = write :=
        Option.some.inj (first.symm.trans ((mem_firstsBy _).mp isFirst))
      subst same
      exact ⟨call, swapped, before, payload⟩
  · intro one two expected payload other different swappedOne swappedTwo
    obtain ⟨writeOne, foundOne, threadOne, beforeOne, _⟩ := swapped_first phased swappedOne
    obtain ⟨writeTwo, foundTwo, threadTwo, beforeTwo, _⟩ := swapped_first phased swappedTwo
    have apart : writeOne ≠ writeTwo := by
      rintro rfl
      exact different (threadOne.symm.trans threadTwo)
    obtain ⟨earlier, first, between, second, later, shape, order⟩ := split_at_two apart
      (mem_of_find?_eq_some foundOne) (mem_of_find?_eq_some foundTwo)
    refine ⟨earlier, first, between, second, later, shape, ?_, ?_⟩
    · rcases order with ⟨rfl, rfl⟩ | ⟨rfl, rfl⟩
      · exact .inl ⟨threadOne, threadTwo⟩
      · exact .inr ⟨threadTwo, threadOne⟩
    · -- The later of the two replaced what the writes before it had left.
      have expects : second.before = expected := by
        rcases order with ⟨rfl, rfl⟩ | ⟨rfl, rfl⟩
        · exact beforeTwo
        · exact beforeOne
      rw [shape, chained_append] at chained
      obtain ⟨_, _, behind⟩ := chained
      rw [chained_append] at behind
      obtain ⟨back, member, left⟩ := valueAfter_written first between
      exact ⟨back, member, left.symm.trans (behind.2.1.symm.trans expects)⟩

theorem swaps_lose_no_update_pair :
    ∃ run, (swapSystem twiceClient "k".toList emptyBucket).Reachable (Apart swapClash) run ∧
      run.answers = [(⟨none, [65]⟩, some (.ok true)), (⟨some [65], [66]⟩, some (.ok true))] ∧
      Chained (emptyBucket.current "k".toList) run.writes := by
  obtain ⟨run, reached, answers⟩ : ∃ run,
      (swapSystem twiceClient "k".toList emptyBucket).Reachable (Apart swapClash) run ∧
        run.answers = [(⟨none, [65]⟩, some (.ok true)), (⟨some [65], [66]⟩, some (.ok true))] :=
    System.reaches (S3Run.isApart swapClash) S3Run.isApart_sound
      [.begin ⟨none, [65]⟩, .deliver 0 .answered, .deliver 0 .answered, .deliver 0 .answered,
        .begin ⟨some [65], [66]⟩, .deliver 1 .answered, .deliver 1 .answered] (by decide +kernel)
  exact ⟨run, reached, answers, (swaps_lose_no_update twiceClient _ emptyBucket reached).1⟩

theorem both_swaps_are_made :
    ∃ run, (swapSystem twiceClient "k".toList emptyBucket).Reachable (fun _ _ => True) run ∧
      run.answers = [(⟨none, [65]⟩, some (.ok true)), (⟨none, [66]⟩, some (.ok true))] ∧
      run.writes = [⟨⟨"k".toList, none, [65]⟩, 0⟩, ⟨⟨"k".toList, some [65], [66]⟩, 1⟩] :=
  System.reaches (fun _ _ => true) (fun _ _ _ => trivial)
    [.begin ⟨none, [65]⟩, .begin ⟨none, [66]⟩, .deliver 0 .answered, .deliver 1 .answered,
      .deliver 0 .answered, .deliver 1 .answered, .deliver 0 .answered, .deliver 1 .answered]
    (by decide +kernel)

end WombatKV
