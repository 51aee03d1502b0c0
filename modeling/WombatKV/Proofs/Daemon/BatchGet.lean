import WombatKV.Daemon.BatchGet
import WombatKV.Proofs.Daemon.Wire

/-! A batched get is all or nothing, however its threads run. -/

namespace WombatKV

open List

theorem flatten_injective {items payloads : List Bytes}
    (shorter : List.Forall₂ (fun item payload => item.length ≤ payload.length) items payloads)
    (same : items.flatten = payloads.flatten) : items = payloads := by
  induction shorter with
  | nil => rfl
  | cons first rest ih =>
    rename_i item payload items payloads
    rw [flatten_cons, flatten_cons] at same
    have others : items.flatten.length ≤ payloads.flatten.length := by
      clear ih same
      induction rest with
      | nil => exact le_rfl
      | cons head _ ih =>
        simp only [flatten_cons, length_append]
        omega
    have total := congrArg List.length same
    rw [length_append, length_append] at total
    obtain ⟨heads, tails⟩ := append_inj same (by omega)
    rw [heads, ih tails]

theorem forall₂_of_lengthWords {items payloads : List Bytes}
    (count : items.length = payloads.length) (small : ∀ item ∈ items, item.length < 2 ^ 32)
    (words : items.flatMap (fun item => lengthWord item.length) =
      payloads.flatMap (fun payload => lengthWord payload.length)) :
    List.Forall₂ (fun item payload => item.length ≤ payload.length) items payloads := by
  induction items generalizing payloads with
  | nil =>
    obtain rfl := length_eq_zero_iff.mp count.symm
    exact .nil
  | cons item items ih =>
    obtain ⟨payload, payloads, rfl⟩ := exists_cons_of_length_eq_add_one count.symm
    obtain ⟨here, later⟩ := forall_mem_cons.mp small
    rw [flatMap_cons, flatMap_cons] at words
    obtain ⟨first, rest⟩ := append_inj words (by simp)
    refine .cons ?_ (ih (by simpa using count) later rest)
    have word := congrArg fromU32Le first
    rw [lengthWord, lengthWord, fromU32Le_u32Le, fromU32Le_u32Le] at word
    have numbers := congrArg UInt32.toNat word
    rw [UInt32.toNat_ofNat', UInt32.toNat_ofNat', Nat.mod_eq_of_lt here] at numbers
    rw [numbers]
    exact Nat.mod_le _ _

theorem decodeBytesBatch_encode_eq {items payloads : List Bytes}
    (read : decodeBytesBatch (encodeBytesBatch payloads) = .ok items)
    (count : items.length = payloads.length) : items = payloads := by
  obtain ⟨same, small⟩ := encodeBytesBatch_decoded read
  rw [encodeBytesBatch, encodeBytesBatch, count] at same
  obtain ⟨words, pieces⟩ := append_inj
    (append_cancel_left (append_cancel_left same)) (by simp [count])
  exact flatten_injective (forall₂_of_lengthWords count small words) pieces

namespace BatchGet

variable {κ ε : Type} {keys : List κ} {outcome : κ → FetchOutcome ε} {batch after : BatchGet ε}

def Missed (keys : List κ) (outcome : κ → FetchOutcome ε) : Prop :=
  ∃ key ∈ keys, outcome key = .miss

def Tells (keys : List κ) (outcome : κ → FetchOutcome ε) (key : κ) : WorkerPhase ε → Prop
  | .start | .fetching => True
  | .missed | .done (.ok none) => Missed keys outcome
  | .done (.ok (some payload)) => outcome key = .hit payload
  | .done (.error error) => outcome key = .error error

structure Sound (keys : List κ) (outcome : κ → FetchOutcome ε) (batch : BatchGet ε) : Prop where
  flag : batch.sawMiss = true → Missed keys outcome
  workers : List.Forall₂ (Tells keys outcome) keys batch.workers

theorem forall₂_set {index : Nat} {key : κ} {phase : WorkerPhase ε}
    (told : List.Forall₂ (Tells keys outcome) keys batch.workers)
    (at_ : keys[index]? = some key) (tells : Tells keys outcome key phase) :
    List.Forall₂ (Tells keys outcome) keys (batch.workers.set index phase) := by
  obtain ⟨length, each⟩ := forall₂_iff_get.mp told
  refine forall₂_iff_get.mpr ⟨by simpa using length, fun place inKeys inWorkers => ?_⟩
  rw [get_eq_getElem, get_eq_getElem, getElem_set]
  split
  · rename_i here
    subst here
    obtain ⟨_, rfl⟩ := List.getElem?_eq_some_iff.mp at_
    exact tells
  · exact each place inKeys (by simpa using inWorkers)

theorem Sound.step {turn : Nat × Bool} (sound : batch.Sound keys outcome)
    (made : batch.step keys outcome turn = some after) : after.Sound keys outcome := by
  obtain ⟨index, sees⟩ := turn
  obtain ⟨key, at_, made⟩ := Option.bind_eq_some_iff.mp made
  obtain ⟨phase, held, made⟩ := Option.bind_eq_some_iff.mp made
  cases phase with
  | start =>
    simp only at made
    split at made
    · rename_i seen
      cases made
      exact ⟨sound.flag, forall₂_set sound.workers at_
        (sound.flag (Bool.and_eq_true_iff.mp seen).2)⟩
    · cases made
      exact ⟨sound.flag, forall₂_set sound.workers at_ trivial⟩
  | fetching =>
    simp only at made
    split at made
    · rename_i payload hit
      cases made
      exact ⟨sound.flag, forall₂_set sound.workers at_ hit⟩
    · rename_i miss
      cases made
      exact ⟨sound.flag, forall₂_set sound.workers at_ ⟨key, mem_of_getElem? at_, miss⟩⟩
    · rename_i error failed
      cases made
      exact ⟨sound.flag, forall₂_set sound.workers at_ failed⟩
  | missed =>
    cases made
    have missed : Missed keys outcome := by
      obtain ⟨inWorkers, is⟩ := List.getElem?_eq_some_iff.mp held
      obtain ⟨inKeys, -⟩ := List.getElem?_eq_some_iff.mp at_
      have tells := (forall₂_iff_get.mp sound.workers).2 index inKeys inWorkers
      rwa [get_eq_getElem, get_eq_getElem, is] at tells
    exact ⟨fun _ => missed, forall₂_set sound.workers at_ missed⟩
  | done result => cases made

theorem Sound.start (keys : List κ) (outcome : κ → FetchOutcome ε) :
    (batchGetSystem keys outcome).start.Sound keys outcome := by
  refine ⟨nofun, forall₂_iff_get.mpr ⟨by simp [batchGetSystem], fun _ _ _ => ?_⟩⟩
  simp [batchGetSystem, Tells]

theorem collect_tells {wanted : List κ} {workers : List (WorkerPhase ε)}
    (told : List.Forall₂ (Tells keys outcome) wanted workers)
    {results : List (Except ε (Option Bytes))} (joined : join workers = some results) :
    (∀ payloads, collect results = .ok (some payloads) → wanted.map outcome = payloads.map .hit) ∧
    (collect results = .ok none → Missed keys outcome) := by
  induction told generalizing results with
  | nil =>
    cases joined
    refine ⟨?_, nofun⟩
    rintro _ ⟨⟩
    rfl
  | cons tells rest ih =>
    rename_i phase _ _
    cases phase with
    | start => cases joined
    | fetching => cases joined
    | missed => cases joined
    | done result =>
      obtain ⟨others, later, rfl⟩ := Option.map_eq_some_iff.mp joined
      obtain ⟨hits, misses⟩ := ih later
      rcases result with error | (_ | payload)
      · exact ⟨nofun, nofun⟩
      · exact ⟨nofun, fun _ => tells⟩
      · -- The first key was hit, and the rest decides.
        have hit : outcome _ = .hit payload := tells
        rw [collect]
        cases answer : collect others with
        | error error => exact ⟨nofun, nofun⟩
        | ok payloads =>
          cases payloads with
          | none => exact ⟨nofun, fun _ => misses answer⟩
          | some payloads =>
            refine ⟨?_, nofun⟩
            rintro _ ⟨⟩
            rw [map_cons, map_cons, hit, hits payloads answer]

end BatchGet

theorem getKvBlocks_eq_none {ε : Type} {expected : Nat} {batch : Except ε (Option (List Bytes))}
    (got : getKvBlocks expected batch = .ok none) : batch = .ok none := by
  rcases batch with error | (_ | payloads)
  · cases got
  · rfl
  · obtain ⟨items, -, got⟩ := except_bind_eq_ok.mp got
    split at got <;> cases got

theorem getKvBlocks_eq_some {ε : Type} {expected : Nat} {batch : Except ε (Option (List Bytes))}
    {items : List Bytes} (got : getKvBlocks expected batch = .ok (some items))
    (count : ∀ payloads, batch = .ok (some payloads) → payloads.length = expected) :
    batch = .ok (some items) := by
  rcases batch with error | (_ | payloads)
  · cases got
  · cases got
  · obtain ⟨decoded, read, got⟩ := except_bind_eq_ok.mp got
    split at got
    · cases got
    · rename_i whole
      cases got
      have length : items.length = payloads.length :=
        (not_not.mp whole).trans (count payloads rfl).symm
      cases answer : decodeBytesBatch (encodeBytesBatch payloads) with
      | error error =>
        rw [answer] at read
        cases read
      | ok found =>
        rw [answer] at read
        cases read
        rw [decodeBytesBatch_encode_eq answer length]

/--
However the threads run, a batch gives payloads only if every key was hit, in the order of the keys,
and reports a miss only if some key was missed; the blocks that come by way of an encoded batch are
the same.
-/
theorem batched_get_all_or_nothing {κ ε : Type} (keys : List κ) (outcome : κ → FetchOutcome ε)
    {batch : BatchGet ε} (reached : (batchGetSystem keys outcome).Reachable (fun _ _ => True) batch)
    {results : List (Except ε (Option Bytes))}
    (joined : BatchGet.join batch.workers = some results) :
    (∀ payloads, BatchGet.collect results = .ok (some payloads) →
      keys.map outcome = payloads.map .hit) ∧
    (BatchGet.collect results = .ok none → ∃ key ∈ keys, outcome key = .miss) ∧
    (∀ items, getKvBlocks keys.length (BatchGet.collect results) = .ok (some items) →
      keys.map outcome = items.map .hit) ∧
    (getKvBlocks keys.length (BatchGet.collect results) = .ok none →
      ∃ key ∈ keys, outcome key = .miss) := by
  have initial := BatchGet.Sound.start keys outcome
  have kept : ∀ (before : BatchGet ε) turn after, before.Sound keys outcome → True →
      before.step keys outcome turn = some after → after.Sound keys outcome :=
    fun _ _ _ sound _ made => sound.step made
  have sound : batch.Sound keys outcome := reached.invariant initial kept
  obtain ⟨hits, misses⟩ := BatchGet.collect_tells sound.workers joined
  refine ⟨hits, misses, fun items got => hits items ?_,
    fun got => misses (getKvBlocks_eq_none got)⟩
  refine getKvBlocks_eq_some got fun payloads collected => ?_
  have lengths := congrArg List.length (hits payloads collected)
  rw [length_map, length_map] at lengths
  exact lengths.symm

theorem batched_get_all_or_nothing_repeated :
    ∃ batch results, (batchGetSystem [7, 7] fun _ : Nat =>
          (.hit [1] : FetchOutcome Unit)).Reachable (fun _ _ => True) batch ∧
      BatchGet.join batch.workers = some results ∧
      BatchGet.collect results = .ok (some [[1], [1]]) ∧
      [7, 7].map (fun _ : Nat => (.hit [1] : FetchOutcome Unit)) = [[1], [1]].map .hit := by
  obtain ⟨batch, reached, joined⟩ : ∃ batch,
      (batchGetSystem [7, 7] fun _ : Nat => (.hit [1] : FetchOutcome Unit)).Reachable
        (fun _ _ => True) batch ∧
      BatchGet.join batch.workers = some [.ok (some [1]), .ok (some [1])] :=
    System.reaches (fun _ _ => true) (fun _ _ _ => trivial)
      [(1, true), (1, true), (0, true), (0, true)] (by decide)
  exact ⟨batch, _, reached, joined, rfl, (batched_get_all_or_nothing _ _ reached joined).1 _ rfl⟩

end WombatKV
