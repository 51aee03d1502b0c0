import WombatKV.Core.Reuse
import WombatKV.Foundation.HashChain

/-! Hashes of prefixes, and what publishes store under them. -/

namespace WombatKV

open List

theorem blockBytes_injective : Function.Injective blockBytes := by
  intro block
  induction block with
  | nil =>
    intro other same
    cases other with
    | nil => rfl
    | cons token rest =>
      have length := congrArg List.length same
      simp only [blockBytes, flatMap_cons, flatMap_nil, length_append,
        u32Le_length, length_nil] at length
      omega
  | cons token rest ih =>
    intro other same
    cases other with
    | nil =>
      have length := congrArg List.length same
      simp [blockBytes] at length
    | cons otherToken others =>
      simp only [blockBytes, flatMap_cons] at same
      obtain ⟨tokens, rests⟩ := append_inj same (by simp)
      have word := congrArg fromU32Le tokens
      rw [fromU32Le_u32Le, fromU32Le_u32Le] at word
      rw [word, ih rests]

theorem seedHashInput_inj {tenant other : Text} {fingerprint otherFingerprint : Fingerprint}
    (same : seedHashInput (utf8 tenant) fingerprint = seedHashInput (utf8 other) otherFingerprint) :
    tenant = other ∧ fingerprint = otherFingerprint := by
  obtain ⟨tenants, fingerprints⟩ := append_inj' (append_cancel_left same) (by simp)
  exact ⟨utf8_injective tenants, Vector.toList_inj.mp fingerprints⟩

theorem mixHashInput_inj {prev other : BlockHash} {data otherData : Bytes}
    (same : mixHashInput prev data = mixHashInput other otherData) :
    prev = other ∧ data = otherData := by
  obtain ⟨prevs, behind⟩ := append_inj (append_cancel_left same) (by simp)
  obtain ⟨-, datas⟩ := append_inj behind (by simp)
  exact ⟨Vector.toList_inj.mp prevs, datas⟩

theorem seedHashInput_ne {tenant data : Bytes} {fingerprint : Fingerprint} {prev : BlockHash} :
    seedHashInput tenant fingerprint ≠ mixHashInput prev data := by
  intro same
  have letters : (some 0x73 : Option UInt8) = some 0x63 := congrArg (·[3]?) same
  exact absurd letters (by decide)

def reuseChain (blake3 : Bytes → BlockHash) :
    HashChain Bytes BlockHash (Text × Fingerprint) (List UInt32) where
  hash := blake3
  seedInput seed := seedHashInput (utf8 seed.1) seed.2
  mixInput prev block := mixHashInput prev (blockBytes block)
  seedInput_inj seed other same := by
    obtain ⟨tenants, fingerprints⟩ := seedHashInput_inj same
    exact Prod.ext tenants fingerprints
  mixInput_inj prev block other otherBlock same := by
    obtain ⟨prevs, blocks⟩ := mixHashInput_inj same
    exact ⟨prevs, blockBytes_injective blocks⟩
  apart _ _ _ := seedHashInput_ne

section Hashes

variable {blake3 : Bytes → BlockHash}

theorem prefixHashesFrom_eq (seed : Text × Fingerprint) (front blocks : List (List UInt32)) :
    prefixHashesFrom blake3 ((reuseChain blake3).digest seed front) blocks =
      (List.range blocks.length).map fun place =>
        (reuseChain blake3).digest seed (front ++ blocks.take (place + 1)) := by
  induction blocks generalizing front with
  | nil => rfl
  | cons block rest ih =>
    have next : mixHash blake3 ((reuseChain blake3).digest seed front) (blockBytes block) =
        (reuseChain blake3).digest seed (front ++ [block]) := by
      rw [HashChain.digest_append]
      rfl
    rw [prefixHashesFrom, next, ih, length_cons, range_succ_eq_map, map_cons, map_map]
    simp [Function.comp_def]

theorem chainedPrefixHashes_eq (tenantId : Text) (fingerprint : Fingerprint)
    (blocks : List (List UInt32)) :
    chainedPrefixHashes blake3 tenantId fingerprint blocks =
      (List.range blocks.length).map fun place =>
        (reuseChain blake3).digest (tenantId, fingerprint) (blocks.take (place + 1)) :=
  prefixHashesFrom_eq (tenantId, fingerprint) [] blocks

end Hashes

structure Publish where
  tenantId : Text
  fingerprint : Fingerprint
  tokenBlocks : List (List UInt32)
  payloads : List Bytes

inductive Published (blake3 : Bytes → BlockHash) : List Publish → InMemoryKvStore → Prop
  | none : Published blake3 [] ⟨∅⟩
  | publish {history : List Publish} {store after : InMemoryKvStore} (next : Publish) :
      Published blake3 history store →
      InMemoryKvStore.publishPrefix blake3 next.tenantId next.fingerprint next.tokenBlocks
        next.payloads store = (.ok (), after) →
      Published blake3 (history ++ [next]) after

def SameCache (tenantId : Text) (fingerprint : Fingerprint) (publish : Publish) : Bool :=
  decide (publish.tenantId = tenantId ∧ publish.fingerprint = fingerprint)

def Shares (tenantId : Text) (fingerprint : Fingerprint) (front : List (List UInt32))
    (publish : Publish) : Bool :=
  SameCache tenantId fingerprint publish && decide (front <+: publish.tokenBlocks)

def latestPayload (history : List Publish) (tenantId : Text) (fingerprint : Fingerprint)
    (front : List (List UInt32)) : Option Bytes :=
  (history.filter (Shares tenantId fingerprint front)).getLast?.bind
    (·.payloads[front.length - 1]?)

namespace InMemoryKvStore

variable {tenantId : Text} {fingerprint : Fingerprint} {index : Nat}

def placed (tenantId : Text) (fingerprint : Fingerprint) (index : Nat)
    (entries : List (BlockHash × Bytes)) (key : BlockKey) : Option Bytes :=
  if key.tenantId = tenantId ∧ key.fingerprint = fingerprint ∧ index ≤ key.blockIndex.toNat then
    entries[key.blockIndex.toNat - index]?.bind fun entry =>
      if entry.1 = key.prefixHash then some entry.2 else none
  else none

theorem placed_cons (small : index < blockIndexLimit) (hash : BlockHash) (payload : Bytes)
    (rest : List (BlockHash × Bytes)) (key : BlockKey) :
    placed tenantId fingerprint index ((hash, payload) :: rest) key =
      (placed tenantId fingerprint (index + 1) rest key).or
        (if (⟨tenantId, fingerprint, hash, UInt32.ofNat index⟩ : BlockKey) = key then some payload
          else none) := by
  have word : (UInt32.ofNat index).toNat = index := UInt32.toNat_ofNat_of_lt' small
  obtain ⟨tenant, other, prefixHash, blockIndex⟩ := key
  by_cases same : tenant = tenantId ∧ other = fingerprint
  · obtain ⟨rfl, rfl⟩ := same
    simp only [placed, true_and, BlockKey.mk.injEq]
    rcases Nat.lt_trichotomy blockIndex.toNat index with less | equal | more
    · have unlike : UInt32.ofNat index ≠ blockIndex := by
        rintro rfl
        omega
      rw [if_neg (by omega), if_neg (by omega), if_neg (by simp [unlike])]
      rfl
    · have named : UInt32.ofNat index = blockIndex := by
        rw [← equal, UInt32.ofNat_toNat]
      rw [if_pos (by omega), if_neg (by omega), equal, Nat.sub_self]
      simp [named]
    · have unlike : UInt32.ofNat index ≠ blockIndex := by
        rintro rfl
        omega
      obtain ⟨later, step⟩ : ∃ later, blockIndex.toNat - index = later + 1 :=
        ⟨blockIndex.toNat - index - 1, by omega⟩
      rw [if_pos (by omega), if_pos (by omega), if_neg (by simp [unlike]), step,
        List.getElem?_cons_succ, show blockIndex.toNat - (index + 1) = later by omega,
        Option.or_none]
  · -- Keys of another tenant or fingerprint are not touched.
    have unlike : (⟨tenantId, fingerprint, hash, UInt32.ofNat index⟩ : BlockKey) ≠
        ⟨tenant, other, prefixHash, blockIndex⟩ := by
      rintro equal
      cases equal
      exact same ⟨rfl, rfl⟩
    rw [placed, placed, if_neg (fun all => same ⟨all.1, all.2.1⟩),
      if_neg (fun all => same ⟨all.1, all.2.1⟩), if_neg unlike]
    rfl

theorem putBlocks_ok (tenantId : Text) (fingerprint : Fingerprint)
    {entries : List (BlockHash × Bytes)} (room : index + entries.length ≤ blockIndexLimit)
    (store : InMemoryKvStore) :
    ∃ after, putBlocks tenantId fingerprint index entries store = (.ok (), after) ∧
      ∀ key, after.blocks[key]? =
        (placed tenantId fingerprint index entries key).or store.blocks[key]? := by
  induction entries generalizing index store with
  | nil => exact ⟨store, rfl, fun key => by simp [placed]⟩
  | cons entry rest ih =>
    obtain ⟨hash, payload⟩ := entry
    rw [length_cons] at room
    have small : index < blockIndexLimit := by omega
    obtain ⟨after, ran, stored⟩ := ih (by omega : index + 1 + rest.length ≤ blockIndexLimit)
      (putBlock ⟨tenantId, fingerprint, hash, UInt32.ofNat index⟩ payload store)
    refine ⟨after, ?_, ?_⟩
    · rw [putBlocks, if_pos small]
      exact ran
    · intro key
      have put : (putBlock ⟨tenantId, fingerprint, hash, UInt32.ofNat index⟩ payload
          store).blocks[key]? =
          (if (⟨tenantId, fingerprint, hash, UInt32.ofNat index⟩ : BlockKey) = key
            then some payload else none).or store.blocks[key]? := by
        simp only [putBlock, Std.ExtTreeMap.getElem?_insert, Std.LawfulEqCmp.compare_eq_iff_eq]
        split <;> rfl
      rw [stored, put, placed_cons small, Option.or_assoc]

theorem putBlocks_error (tenantId : Text) (fingerprint : Fingerprint)
    {entries : List (BlockHash × Bytes)} (start : index ≤ blockIndexLimit)
    (full : blockIndexLimit < index + entries.length) (store : InMemoryKvStore) :
    (putBlocks tenantId fingerprint index entries store).1 = .error "block index overflow" := by
  induction entries generalizing index store with
  | nil =>
    rw [length_nil] at full
    omega
  | cons entry rest ih =>
    rw [length_cons] at full
    rw [putBlocks]
    split
    · rename_i small
      exact ih small (by omega) _
    · rfl

variable {blake3 : Bytes → BlockHash}

theorem chainedPrefixHashes_length (tokenBlocks : List (List UInt32)) :
    (chainedPrefixHashes blake3 tenantId fingerprint tokenBlocks).length = tokenBlocks.length := by
  rw [chainedPrefixHashes_eq, length_map, length_range]

theorem publishPrefix_ok {tokenBlocks : List (List UInt32)} {payloads : List Bytes}
    (lengths : tokenBlocks.length = payloads.length)
    (room : tokenBlocks.length ≤ blockIndexLimit) (store : InMemoryKvStore) :
    ∃ after, publishPrefix blake3 tenantId fingerprint tokenBlocks payloads store =
        (.ok (), after) ∧
      ∀ key, after.blocks[key]? = (placed tenantId fingerprint 0
        ((chainedPrefixHashes blake3 tenantId fingerprint tokenBlocks).zip payloads) key).or
          store.blocks[key]? := by
  rw [publishPrefix, if_neg (by simpa using lengths)]
  refine putBlocks_ok tenantId fingerprint ?_ store
  rw [length_zip, chainedPrefixHashes_length]
  omega

theorem publishPrefix_of_ok {tokenBlocks : List (List UInt32)} {payloads : List Bytes}
    {store after : InMemoryKvStore}
    (ran : publishPrefix blake3 tenantId fingerprint tokenBlocks payloads store = (.ok (), after)) :
    tokenBlocks.length = payloads.length ∧ tokenBlocks.length ≤ blockIndexLimit := by
  unfold publishPrefix at ran
  split at ran
  · cases ran
  · rename_i lengths
    rw [not_not] at lengths
    refine ⟨lengths, ?_⟩
    by_contra full
    have counted : blockIndexLimit < 0 +
        ((chainedPrefixHashes blake3 tenantId fingerprint tokenBlocks).zip payloads).length := by
      rw [length_zip, chainedPrefixHashes_length]
      omega
    have refused := putBlocks_error tenantId fingerprint (Nat.zero_le _) counted store
    rw [ran] at refused
    cases refused

end InMemoryKvStore

section Lookup

variable {blake3 : Bytes → BlockHash} {history : List Publish} {store : InMemoryKvStore}
  {tenantId : Text} {fingerprint : Fingerprint} {front : List (List UInt32)}

theorem Published.lengths (published : Published blake3 history store) :
    ∀ publish ∈ history, publish.tokenBlocks.length = publish.payloads.length ∧
      publish.tokenBlocks.length ≤ blockIndexLimit := by
  induction published with
  | none => simp
  | publish next _ ran ih =>
    intro publish member
    rcases mem_append.mp member with earlier | last
    · exact ih publish earlier
    · rw [mem_singleton.mp last]
      exact InMemoryKvStore.publishPrefix_of_ok ran

theorem published_of_lengths (blake3 : Bytes → BlockHash) (fits : ∀ publish ∈ history,
    publish.tokenBlocks.length = publish.payloads.length ∧
      publish.tokenBlocks.length ≤ blockIndexLimit) :
    ∃ store, Published blake3 history store := by
  induction history using List.reverseRecOn with
  | nil => exact ⟨_, .none⟩
  | append_singleton before next ih =>
    obtain ⟨store, published⟩ := ih fun publish member =>
      fits publish (mem_append_left _ member)
    obtain ⟨lengths, room⟩ := fits next (by simp)
    obtain ⟨after, ran, -⟩ := InMemoryKvStore.publishPrefix_ok lengths room store
    exact ⟨after, .publish next published ran⟩

def frontKey (blake3 : Bytes → BlockHash) (tenantId : Text) (fingerprint : Fingerprint)
    (front : List (List UInt32)) : BlockKey :=
  ⟨tenantId, fingerprint, (reuseChain blake3).digest (tenantId, fingerprint) front,
    UInt32.ofNat (front.length - 1)⟩

def HashedIn (blake3 : Bytes → BlockHash) (history : List Publish) (tenantId : Text)
    (fingerprint : Fingerprint) (blocks : List (List UInt32)) (input : Bytes) : Prop :=
  (reuseChain blake3).Hashed (tenantId, fingerprint) blocks input ∨
    ∃ publish ∈ history,
      (reuseChain blake3).Hashed (publish.tenantId, publish.fingerprint) publish.tokenBlocks input

theorem placed_frontKey {blocks : List (List UInt32)} (part : front <+: blocks)
    (nonempty : front ≠ []) (room : front.length ≤ blockIndexLimit)
    (free : (reuseChain blake3).FreeOn (HashedIn blake3 history tenantId fingerprint blocks))
    {publish : Publish} (member : publish ∈ history)
    (lengths : publish.tokenBlocks.length = publish.payloads.length) :
    InMemoryKvStore.placed publish.tenantId publish.fingerprint 0
        ((chainedPrefixHashes blake3 publish.tenantId publish.fingerprint
          publish.tokenBlocks).zip publish.payloads) (frontKey blake3 tenantId fingerprint front) =
      if Shares tenantId fingerprint front publish then publish.payloads[front.length - 1]?
      else none := by
  have positive := length_pos_iff.mpr nonempty
  have small : front.length - 1 < 2 ^ 32 := by
    unfold blockIndexLimit at room
    omega
  have word : (UInt32.ofNat (front.length - 1)).toNat = front.length - 1 :=
    UInt32.toNat_ofNat_of_lt' small
  by_cases same : publish.tenantId = tenantId ∧ publish.fingerprint = fingerprint
  · obtain ⟨rfl, rfl⟩ := same
    have shares : Shares publish.tenantId publish.fingerprint front publish =
        decide (front <+: publish.tokenBlocks) := by
      simp [Shares, SameCache]
    have digests : (reuseChain blake3).digest (publish.tenantId, publish.fingerprint)
          (publish.tokenBlocks.take front.length) =
        (reuseChain blake3).digest (publish.tenantId, publish.fingerprint) front ↔
        front <+: publish.tokenBlocks := by
      rw [prefix_iff_eq_take]
      constructor
      · -- Equal hashes are those of the same blocks.
        intro equal
        exact (HashChain.digest_inj free
          (fun input hashed => .inr ⟨publish, member, hashed.mono (List.take_prefix _ _)⟩)
          (fun input hashed => .inl (hashed.mono part)) equal).2.symm
      · intro equal
        rw [← equal]
    rw [InMemoryKvStore.placed, if_pos ⟨rfl, rfl, Nat.zero_le _⟩, shares]
    simp only [frontKey, word, Nat.sub_zero, decide_eq_true_eq]
    by_cases inside : front.length ≤ publish.tokenBlocks.length
    · obtain ⟨payload, found⟩ : ∃ payload, publish.payloads[front.length - 1]? = some payload :=
        ⟨_, List.getElem?_eq_getElem (by omega)⟩
      have hashed : (chainedPrefixHashes blake3 publish.tenantId publish.fingerprint
          publish.tokenBlocks)[front.length - 1]? =
          some ((reuseChain blake3).digest (publish.tenantId, publish.fingerprint)
            (publish.tokenBlocks.take front.length)) := by
        have last : front.length - 1 < publish.tokenBlocks.length := by omega
        rw [chainedPrefixHashes_eq, List.getElem?_map, List.getElem?_range last,
          Option.map_some, Nat.sub_add_cancel positive]
      have entry : ((chainedPrefixHashes blake3 publish.tenantId publish.fingerprint
          publish.tokenBlocks).zip publish.payloads)[front.length - 1]? =
          some ((reuseChain blake3).digest (publish.tenantId, publish.fingerprint)
            (publish.tokenBlocks.take front.length), payload) :=
        List.getElem?_zip_eq_some.mpr ⟨hashed, found⟩
      rw [entry, Option.bind_some, found]
      simp only [digests]
    · -- A shorter chain has no hash at the index and does not start with the blocks.
      have missing : ((chainedPrefixHashes blake3 publish.tenantId publish.fingerprint
          publish.tokenBlocks).zip publish.payloads)[front.length - 1]? = none := by
        rw [List.getElem?_eq_none_iff, length_zip, InMemoryKvStore.chainedPrefixHashes_length]
        omega
      rw [missing, if_neg fun start => inside start.length_le]
      rfl
  · have other : Shares tenantId fingerprint front publish = false := by
      simp [Shares, SameCache, same]
    rw [InMemoryKvStore.placed, if_neg fun all => same ⟨all.1.symm, all.2.1.symm⟩, other]
    rfl

theorem Published.getElem?_frontKey (published : Published blake3 history store)
    {blocks : List (List UInt32)} (part : front <+: blocks) (nonempty : front ≠ [])
    (room : front.length ≤ blockIndexLimit)
    (free : (reuseChain blake3).FreeOn (HashedIn blake3 history tenantId fingerprint blocks)) :
    store.blocks[frontKey blake3 tenantId fingerprint front]? =
      latestPayload history tenantId fingerprint front := by
  induction published with
  | none => simp [latestPayload]
  | @publish earlier before after next published ran ih =>
    have narrowed : (reuseChain blake3).FreeOn
        (HashedIn blake3 earlier tenantId fingerprint blocks) := by
      intro input other used otherUsed
      refine free input other (used.imp_right ?_) (otherUsed.imp_right ?_) <;>
        exact fun ⟨given, member, hashed⟩ => ⟨given, mem_append_left _ member, hashed⟩
    obtain ⟨lengths, fits⟩ := InMemoryKvStore.publishPrefix_of_ok ran
    obtain ⟨stored, again, found⟩ := InMemoryKvStore.publishPrefix_ok lengths fits before
    rw [ran] at again
    cases again
    rw [found, placed_frontKey part nonempty room free (by simp) lengths, ih narrowed,
      latestPayload, latestPayload, filter_append]
    cases shares : Shares tenantId fingerprint front next with
    | false => simp [shares]
    | true =>
      have inside : front.length ≤ next.tokenBlocks.length := by
        simp only [Shares, Bool.and_eq_true, decide_eq_true_eq] at shares
        exact shares.2.length_le
      have positive := length_pos_iff.mpr nonempty
      have present : next.payloads[front.length - 1]? =
          some (next.payloads.get ⟨front.length - 1, by omega⟩) :=
        List.getElem?_eq_getElem (by omega)
      simp [shares, present]

theorem Published.latestPayload_isSome (published : Published blake3 history store)
    (nonempty : front ≠ []) :
    (latestPayload history tenantId fingerprint front).isSome = true ↔
      ∃ given ∈ history, Shares tenantId fingerprint front given = true := by
  rw [latestPayload]
  cases last : (history.filter (Shares tenantId fingerprint front)).getLast? with
  | none =>
    rw [List.getLast?_eq_none_iff, filter_eq_nil_iff] at last
    simp only [Option.bind_none, Option.isSome_none, Bool.false_eq_true, false_iff, not_exists,
      not_and]
    exact last
  | some given =>
    obtain ⟨member, shares⟩ := mem_filter.mp (mem_of_getLast? last)
    refine ⟨fun _ => ⟨given, member, shares⟩, fun _ => ?_⟩
    simp only [Shares, Bool.and_eq_true, decide_eq_true_eq] at shares
    have inside := shares.2.length_le
    have lengths := (published.lengths given member).1
    have positive := length_pos_iff.mpr nonempty
    rw [Option.bind_some, List.getElem?_eq_getElem (by omega)]
    rfl

end Lookup

end WombatKV
