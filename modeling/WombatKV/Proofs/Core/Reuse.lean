import WombatKV.Proofs.Core.Publish

/-! A lookup finds the longest published prefix. -/

namespace WombatKV

open List

section Lookup

variable {blake3 : Bytes → BlockHash} {store : InMemoryKvStore} {tenantId : Text}
  {fingerprint : Fingerprint} {hashes : List BlockHash} {index : Nat}

def keysFrom (tenantId : Text) (fingerprint : Fingerprint) (index : Nat)
    (hashes : List BlockHash) : List BlockKey :=
  (hashes.zipIdx index).map fun entry =>
    ⟨tenantId, fingerprint, entry.1, UInt32.ofNat entry.2⟩

def hits (store : InMemoryKvStore) (keys : List BlockKey) : List (Option Bytes) :=
  (keys.map (store.blocks[·]?)).takeWhile Option.isSome

theorem lookupBlocks_missing {result : LookupResult}
    (room : index + hashes.length ≤ blockIndexLimit) (missing : result.missingKeys ≠ []) :
    store.lookupBlocks tenantId fingerprint index hashes result = some { result with
      missingKeys := result.missingKeys ++ keysFrom tenantId fingerprint index hashes } := by
  induction hashes generalizing index result with
  | nil => simp [InMemoryKvStore.lookupBlocks, keysFrom]
  | cons hash rest ih =>
    rw [length_cons] at room
    rw [InMemoryKvStore.lookupBlocks, if_pos (by omega)]
    simp only [if_neg missing]
    rw [ih (by omega) (by simp)]
    simp [keysFrom]

theorem lookupBlocks_eq {count : Nat} {payloads : List Bytes}
    (room : index + hashes.length ≤ blockIndexLimit) :
    store.lookupBlocks tenantId fingerprint index hashes ⟨count, payloads, []⟩ = some
      ⟨count + (hits store (keysFrom tenantId fingerprint index hashes)).length,
        payloads ++ (hits store (keysFrom tenantId fingerprint index hashes)).filterMap id,
        (keysFrom tenantId fingerprint index hashes).drop
          (hits store (keysFrom tenantId fingerprint index hashes)).length⟩ := by
  induction hashes generalizing index count payloads with
  | nil => simp [InMemoryKvStore.lookupBlocks, keysFrom, hits]
  | cons hash rest ih =>
    rw [length_cons] at room
    rw [InMemoryKvStore.lookupBlocks, if_pos (by omega)]
    have keys : keysFrom tenantId fingerprint index (hash :: rest) =
        ⟨tenantId, fingerprint, hash, UInt32.ofNat index⟩ ::
          keysFrom tenantId fingerprint (index + 1) rest := rfl
    simp only [if_true]
    cases found : store.blocks[(⟨tenantId, fingerprint, hash, UInt32.ofNat index⟩ : BlockKey)]? with
    | none =>
      have nothing : hits store (keysFrom tenantId fingerprint index (hash :: rest)) = [] := by
        simp [hits, keys, found]
      dsimp only
      rw [lookupBlocks_missing (by omega) (by simp), nothing, keys]
      simp
    | some payload =>
      have more : hits store (keysFrom tenantId fingerprint index (hash :: rest)) =
          some payload :: hits store (keysFrom tenantId fingerprint (index + 1) rest) := by
        simp [hits, keys, found]
      have grown (rest : Nat) : count + 1 + rest = count + (rest + 1) := by omega
      dsimp only
      rw [ih (by omega), more, keys, length_cons, drop_succ_cons, grown]
      simp

theorem lookupBlocks_panics (result : LookupResult) (start : index ≤ blockIndexLimit)
    (full : blockIndexLimit < index + hashes.length) :
    store.lookupBlocks tenantId fingerprint index hashes result = none := by
  induction hashes generalizing index result with
  | nil =>
    rw [length_nil] at full
    omega
  | cons hash rest ih =>
    rw [length_cons] at full
    rw [InMemoryKvStore.lookupBlocks]
    split
    · rename_i small
      exact ih _ small (by omega)
    · rfl

theorem lookupPrefix_panics (blake3 : Bytes → BlockHash) (store : InMemoryKvStore)
    (tenantId : Text) (fingerprint : Fingerprint) {blocks : List (List UInt32)}
    (full : blockIndexLimit < blocks.length) :
    store.lookupPrefix blake3 tenantId fingerprint blocks = none := by
  refine lookupBlocks_panics _ (Nat.zero_le _) ?_
  rw [InMemoryKvStore.chainedPrefixHashes_length]
  omega

theorem keysFrom_chained (blocks : List (List UInt32)) :
    keysFrom tenantId fingerprint 0 (chainedPrefixHashes blake3 tenantId fingerprint blocks) =
      (List.range blocks.length).map fun place =>
        frontKey blake3 tenantId fingerprint (blocks.take (place + 1)) := by
  apply ext_getElem?
  intro place
  rw [keysFrom, chainedPrefixHashes_eq, List.getElem?_map, List.getElem?_zipIdx, List.getElem?_map,
    List.getElem?_map]
  by_cases inside : place < blocks.length
  · have last : min (place + 1) blocks.length - 1 = place := by omega
    simp [List.getElem?_range inside, frontKey, last]
  · have none : (List.range blocks.length)[place]? = none :=
      List.getElem?_eq_none (by rw [length_range]; omega)
    rw [none]
    rfl

end Lookup

theorem takeWhile_range {β : Type} (value : Nat → Option β) (count : Nat) :
    ∃ found ≤ count, ((List.range count).map value).takeWhile Option.isSome =
        (List.range found).map value ∧
      (∀ place < found, (value place).isSome = true) ∧ (found < count → value found = none) := by
  induction count generalizing value with
  | zero => exact ⟨0, Nat.le_refl 0, rfl, by simp, by simp⟩
  | succ count ih =>
    rw [range_succ_eq_map, map_cons, map_map]
    cases first : value 0 with
    | none => exact ⟨0, Nat.zero_le _, by simp, by simp, fun _ => first⟩
    | some given =>
      obtain ⟨found, bounded, taken, present, ends⟩ := ih (value ∘ Nat.succ)
      refine ⟨found + 1, by omega, ?_, ?_, ?_⟩
      · rw [takeWhile_cons_of_pos (by simp), taken, range_succ_eq_map, map_cons, map_map, first]
      · intro place less
        cases place with
        | zero => simp [first]
        | succ place => exact present place (by omega)
      · intro less
        exact ends (by omega)

structure ExactReuse (blake3 : Bytes → BlockHash) (history : List Publish) (tenantId : Text)
    (fingerprint : Fingerprint) (blocks : List (List UInt32)) (result : LookupResult) : Prop where
  bounded : result.matchedBlocks ≤ blocks.length
  longest : ∀ count ≤ blocks.length, (count = 0 ∨ ∃ given ∈ history,
    Shares tenantId fingerprint (blocks.take count) given = true) ↔ count ≤ result.matchedBlocks
  payloads : result.payloads.map some = (List.range result.matchedBlocks).map fun place =>
    latestPayload history tenantId fingerprint (blocks.take (place + 1))
  missing : result.missingKeys = ((List.range blocks.length).map fun place =>
    frontKey blake3 tenantId fingerprint (blocks.take (place + 1))).drop result.matchedBlocks

section Exact

variable {blake3 : Bytes → BlockHash} {history : List Publish} {store : InMemoryKvStore}
  {tenantId : Text} {fingerprint : Fingerprint} {blocks : List (List UInt32)}

theorem Published.lookup_exact (published : Published blake3 history store)
    (free : (reuseChain blake3).FreeOn (HashedIn blake3 history tenantId fingerprint blocks))
    (room : blocks.length ≤ blockIndexLimit) :
    ∃ result, store.lookupPrefix blake3 tenantId fingerprint blocks = some result ∧
      ExactReuse blake3 history tenantId fingerprint blocks result := by
  have value (place : Nat) (inside : place < blocks.length) :
      store.blocks[frontKey blake3 tenantId fingerprint (blocks.take (place + 1))]? =
        latestPayload history tenantId fingerprint (blocks.take (place + 1)) := by
    refine published.getElem?_frontKey (List.take_prefix _ _) ?_ ?_ free
    · exact ne_nil_of_length_pos (by rw [length_take]; omega)
    · rw [length_take]
      omega
  have shared (place : Nat) (inside : place < blocks.length) :
      (latestPayload history tenantId fingerprint (blocks.take (place + 1))).isSome = true ↔
        ∃ given ∈ history, Shares tenantId fingerprint (blocks.take (place + 1)) given = true :=
    published.latestPayload_isSome
      (ne_nil_of_length_pos (by rw [length_take]; omega))
  obtain ⟨found, bounded, taken, present, ends⟩ := takeWhile_range
    (fun place => latestPayload history tenantId fingerprint (blocks.take (place + 1)))
    blocks.length
  have matched : hits store (keysFrom tenantId fingerprint 0
      (chainedPrefixHashes blake3 tenantId fingerprint blocks)) =
      (List.range found).map fun place =>
        latestPayload history tenantId fingerprint (blocks.take (place + 1)) := by
    rw [hits, keysFrom_chained, map_map, ← taken]
    congr 1
    refine map_congr_left fun place member => ?_
    exact value place (mem_range.mp member)
  have counted : 0 + (chainedPrefixHashes blake3 tenantId fingerprint blocks).length ≤
      blockIndexLimit := by
    rw [InMemoryKvStore.chainedPrefixHashes_length]
    omega
  refine ⟨_, lookupBlocks_eq counted, ?_⟩
  rw [matched, keysFrom_chained]
  simp only [length_map, length_range, Nat.zero_add, nil_append]
  refine ⟨bounded, ?_, ?_, rfl⟩
  · intro count within
    cases count with
    | zero => simp
    | succ place =>
      simp only [Nat.add_eq_zero_iff, one_ne_zero, and_false, false_or]
      rw [← shared place (by omega)]
      constructor
      · intro some
        by_contra beyond
        have less : found < blocks.length := by omega
        obtain ⟨given, member, shares⟩ := (shared place (by omega)).mp some
        have first : ∃ given ∈ history,
            Shares tenantId fingerprint (blocks.take (found + 1)) given = true := by
          refine ⟨given, member, ?_⟩
          simp only [Shares, Bool.and_eq_true, decide_eq_true_eq] at shares ⊢
          exact ⟨shares.1, (take_prefix_take_left (by omega)).trans shares.2⟩
        have there := (shared found less).mpr first
        rw [ends less] at there
        cases there
      · intro less
        exact present place less
  · -- Everything before the first missing block is there.
    have all : ∀ option ∈ (List.range found).map (fun place =>
        latestPayload history tenantId fingerprint (blocks.take (place + 1))),
        option.isSome = true := by
      intro option member
      obtain ⟨place, inside, rfl⟩ := mem_map.mp member
      exact present place (mem_range.mp inside)
    generalize (List.range found).map (fun place =>
      latestPayload history tenantId fingerprint (blocks.take (place + 1))) = options at all
    induction options with
    | nil => rfl
    | cons option rest ih =>
      obtain ⟨payload, rfl⟩ := Option.isSome_iff_exists.mp (all _ mem_cons_self)
      simpa using ih fun other member => all other (mem_cons_of_mem _ member)

theorem ExactReuse.unique {left right : LookupResult}
    (first : ExactReuse blake3 history tenantId fingerprint blocks left)
    (second : ExactReuse blake3 history tenantId fingerprint blocks right) : left = right := by
  have up := (second.longest _ first.bounded).mp ((first.longest _ first.bounded).mpr le_rfl)
  have down := (first.longest _ second.bounded).mp ((second.longest _ second.bounded).mpr le_rfl)
  have counts : left.matchedBlocks = right.matchedBlocks := Nat.le_antisymm up down
  have payloads : left.payloads = right.payloads := by
    refine map_injective_iff.mpr (Option.some_injective _) ?_
    rw [first.payloads, second.payloads, counts]
  have missing : left.missingKeys = right.missingKeys := by
    rw [first.missing, second.missing, counts]
  cases left
  cases right
  simp_all

theorem ExactReuse.of_filter {result : LookupResult}
    (exact : ExactReuse blake3 (history.filter (SameCache tenantId fingerprint)) tenantId
      fingerprint blocks result) :
    ExactReuse blake3 history tenantId fingerprint blocks result := by
  have sharing (front : List (List UInt32)) :
      (history.filter (SameCache tenantId fingerprint)).filter
        (Shares tenantId fingerprint front) =
        history.filter (Shares tenantId fingerprint front) := by
    rw [filter_filter]
    refine filter_congr fun given _ => ?_
    cases same : SameCache tenantId fingerprint given <;> simp [Shares, same]
  have latest (front : List (List UInt32)) :
      latestPayload (history.filter (SameCache tenantId fingerprint)) tenantId fingerprint front =
        latestPayload history tenantId fingerprint front := by
    rw [latestPayload, latestPayload, sharing]
  have exists_iff (front : List (List UInt32)) :
      (∃ given ∈ history.filter (SameCache tenantId fingerprint),
        Shares tenantId fingerprint front given = true) ↔
      ∃ given ∈ history, Shares tenantId fingerprint front given = true := by
    constructor
    · rintro ⟨given, member, shares⟩
      exact ⟨given, (mem_filter.mp member).1, shares⟩
    · rintro ⟨given, member, shares⟩
      have same : SameCache tenantId fingerprint given = true :=
        (Bool.and_eq_true_iff.mp shares).1
      exact ⟨given, mem_filter.mpr ⟨member, same⟩, shares⟩
  refine ⟨exact.bounded, ?_, ?_, exact.missing⟩
  · intro count within
    rw [← exact.longest count within, exists_iff]
  · rw [exact.payloads]
    simp only [latest]

/--
After publishes that all succeeded, and without collisions on what was hashed, a lookup finds
exactly the longest published prefix with its latest payloads, whatever other tenants and
fingerprints published, if and only if every block looked up has an index.
-/
theorem prefix_reuse_is_exact (published : Published blake3 history store)
    (free : (reuseChain blake3).FreeOn (HashedIn blake3 history tenantId fingerprint blocks)) :
    (∃ result, store.lookupPrefix blake3 tenantId fingerprint blocks = some result ∧
      ExactReuse blake3 history tenantId fingerprint blocks result ∧
      ∃ alone, Published blake3 (history.filter (SameCache tenantId fingerprint)) alone ∧
        alone.lookupPrefix blake3 tenantId fingerprint blocks = some result) ↔
    blocks.length ≤ blockIndexLimit := by
  constructor
  · rintro ⟨result, found, -⟩
    by_contra full
    rw [lookupPrefix_panics blake3 store tenantId fingerprint (Nat.lt_of_not_le full)] at found
    cases found
  · intro room
    obtain ⟨result, found, exact⟩ := published.lookup_exact free room
    refine ⟨result, found, exact, ?_⟩
    have fits : ∀ given ∈ history.filter (SameCache tenantId fingerprint),
        given.tokenBlocks.length = given.payloads.length ∧
          given.tokenBlocks.length ≤ blockIndexLimit := fun given member =>
      published.lengths given (mem_filter.mp member).1
    obtain ⟨alone, publishedAlone⟩ := published_of_lengths blake3 fits
    have narrowed : (reuseChain blake3).FreeOn (HashedIn blake3
        (history.filter (SameCache tenantId fingerprint)) tenantId fingerprint blocks) := by
      intro input other used otherUsed
      refine free input other (used.imp_right ?_) (otherUsed.imp_right ?_) <;>
        exact fun ⟨given, member, hashed⟩ => ⟨given, (mem_filter.mp member).1, hashed⟩
    obtain ⟨same, foundAlone, exactAlone⟩ := publishedAlone.lookup_exact narrowed room
    refine ⟨alone, publishedAlone, ?_⟩
    rw [foundAlone, exact.unique exactAlone.of_filter]

def tagHash (input : Bytes) : BlockHash := Vector.replicate 32 (input.getD 3 0)

theorem prefix_reuse_is_exact_one :
    ∃ store, Published tagHash [⟨['t'], Vector.replicate 32 0, [[1]], [[7]]⟩] store ∧
      ∃ result, store.lookupPrefix tagHash ['t'] (Vector.replicate 32 0) [[1]] = some result ∧
        ExactReuse tagHash [⟨['t'], Vector.replicate 32 0, [[1]], [[7]]⟩] ['t']
          (Vector.replicate 32 0) [[1]] result := by
  have fits : ∀ given ∈ [(⟨['t'], Vector.replicate 32 0, [[1]], [[7]]⟩ : Publish)],
      given.tokenBlocks.length = given.payloads.length ∧
        given.tokenBlocks.length ≤ blockIndexLimit := by
    simp [blockIndexLimit]
  obtain ⟨store, published⟩ := published_of_lengths tagHash fits
  have only {input : Bytes} (hashed : (reuseChain tagHash).Hashed
      (['t'], Vector.replicate 32 0) [[1]] input) :
      input = (reuseChain tagHash).seedInput (['t'], Vector.replicate 32 0) ∨
        input = (reuseChain tagHash).mixInput
          ((reuseChain tagHash).digest (['t'], Vector.replicate 32 0) []) [1] := by
    cases hashed with
    | seed => exact .inl rfl
    | @link front link part =>
      have short := part.length_le
      rw [length_append, length_singleton, length_singleton] at short
      obtain rfl : front = [] := length_eq_zero_iff.mp (by omega)
      obtain rfl : link = [1] := by simpa using part
      exact .inr rfl
  have different (prev : BlockHash) : tagHash (seedHashInput (utf8 ['t']) (Vector.replicate 32 0)) ≠
      tagHash (mixHashInput prev (blockBytes [1])) := by
    intro same
    have first : (0x73 : UInt8) = 0x63 := congrArg (·[0]) same
    exact absurd first (by decide)
  have free : (reuseChain tagHash).FreeOn (HashedIn tagHash
      [⟨['t'], Vector.replicate 32 0, [[1]], [[7]]⟩] ['t'] (Vector.replicate 32 0) [[1]]) := by
    have one {input : Bytes} (used : HashedIn tagHash
        [⟨['t'], Vector.replicate 32 0, [[1]], [[7]]⟩] ['t'] (Vector.replicate 32 0) [[1]]
          input) := only (used.elim id fun ⟨given, member, hashed⟩ => by
      rw [mem_singleton.mp member] at hashed
      exact hashed)
    intro input other used otherUsed same
    rcases one used with rfl | rfl <;> rcases one otherUsed with rfl | rfl
    · rfl
    · exact absurd same (different _)
    · exact absurd same.symm (different _)
    · rfl
  obtain ⟨result, found, exact, -⟩ := (prefix_reuse_is_exact published free).mpr
    (by simp [blockIndexLimit])
  exact ⟨store, published, result, found, exact⟩

theorem lookup_beyond_indexes_panics :
    InMemoryKvStore.lookupPrefix tagHash ⟨∅⟩ ['t'] (Vector.replicate 32 0)
      (List.replicate (2 ^ 32 + 1) []) = none := by
  refine lookupPrefix_panics tagHash ⟨∅⟩ ['t'] (Vector.replicate 32 0) ?_
  rw [length_replicate, blockIndexLimit]
  omega

end Exact

end WombatKV
