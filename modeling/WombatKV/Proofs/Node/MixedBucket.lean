import WombatKV.Proofs.Node.KvStore

/-! What the storage encoding reads back. -/

namespace WombatKV

open ObjectStore Call WombatKVKvStore

variable {zstd : Zstd} {payload : Bytes} {cfg : BlockCompressionConfig}

theorem decodeIfCompressed_raw (zstd : Zstd) (payload : Bytes) :
    decodeIfCompressed zstd payload = payload ↔ takenForEnvelope zstd payload = false := by
  unfold decodeIfCompressed takenForEnvelope
  split
  · -- Too short for a header, or another magic: both sides see no envelope.
    rename_i plain
    simp only [Bool.or_eq_true, decide_eq_true_eq] at plain
    rcases plain with short | other
    · simp [Nat.not_le.mpr short]
    · simp [other]
  · rename_i framed
    simp only [Bool.or_eq_true, decide_eq_true_eq, not_or, Decidable.not_not] at framed
    have long : compressHeaderSize ≤ payload.length := Nat.not_lt.mp framed.1
    simp only [long, framed.2, decide_true, Bool.true_and]
    cases CompressAlgo.fromU8 (payload.getD 4 0) with
    | none => simp
    | some algo =>
      cases algo with
      | none =>
        have shorter : payload.drop compressHeaderSize ≠ payload := by
          intro same
          have lengths := congrArg List.length same
          rw [List.length_drop] at lengths
          simp only [compressHeaderSize] at lengths long
          omega
        simp [shorter]
      | lz4 => simp
      | zstd =>
        simp only
        cases zstd.decompress (payload.drop compressHeaderSize)
          (fromLe (slice payload 6 compressHeaderSize)) with
        | error error => simp
        | ok decoded =>
          by_cases exact : decoded.length = fromLe (slice payload 6 compressHeaderSize)
          · simp [exact]
          · simp [exact]

theorem decodeIfCompressed_envelope (inverts : zstd.Inverts) {level : Int} {compressed : Bytes}
    (fits : payload.length < rawLenLimit) (ran : zstd.compress payload level = .ok compressed) :
    decodeIfCompressed zstd (compressMagic ++ [CompressAlgo.zstd.toU8, headerLevel level] ++
      leBytes 4 payload.length ++ compressed) = payload := by
  have length : (compressMagic ++ [CompressAlgo.zstd.toU8, headerLevel level] ++
      leBytes 4 payload.length).length = compressHeaderSize := by
    simp [compressMagic, compressHeaderSize]
  have body : (compressMagic ++ [CompressAlgo.zstd.toU8, headerLevel level] ++
      leBytes 4 payload.length ++ compressed).drop compressHeaderSize = compressed :=
    List.drop_left' length
  have rawLen : fromLe (slice (compressMagic ++ [CompressAlgo.zstd.toU8, headerLevel level] ++
      leBytes 4 payload.length ++ compressed) 6 compressHeaderSize) = payload.length := by
    rw [List.append_assoc, slice_append_right (by simp [compressMagic])]
    simp only [compressMagic, compressHeaderSize, List.length_append, List.length_cons,
      List.length_nil]
    rw [slice_append_left (leBytes_length 4 _)]
    exact fromLe_leBytes_of_lt fits
  have framed : ¬ ((compressMagic ++ [CompressAlgo.zstd.toU8, headerLevel level] ++
      leBytes 4 payload.length ++ compressed).length < compressHeaderSize ∨
      (compressMagic ++ [CompressAlgo.zstd.toU8, headerLevel level] ++
        leBytes 4 payload.length ++ compressed).take 4 ≠ compressMagic) := by
    rw [List.length_append, length]
    simp [compressMagic]
  have tagged : CompressAlgo.fromU8 ((compressMagic ++ [CompressAlgo.zstd.toU8,
      headerLevel level] ++ leBytes 4 payload.length ++ compressed).getD 4 0) = some .zstd := rfl
  unfold decodeIfCompressed
  rw [if_neg (by simpa only [Bool.or_eq_true, decide_eq_true_eq] using framed)]
  simp only [tagged, body, rawLen, inverts payload level compressed ran, if_true]

theorem roundTrip_iff (inverts : zstd.Inverts) (payload : Bytes) (cfg : BlockCompressionConfig) :
    (∀ stored, encodeWithHeader zstd payload cfg = .ok stored →
        decodeIfCompressed zstd stored = payload) ↔
      (cfg.algo = .none → takenForEnvelope zstd payload = false) := by
  unfold encodeWithHeader
  cases algo : cfg.algo with
  | none =>
    simp only [Except.ok.injEq, forall_eq', forall_const]
    exact decodeIfCompressed_raw zstd payload
  | lz4 => simp
  | zstd =>
    refine ⟨fun _ other => (nomatch other), fun _ stored encoded => ?_⟩
    simp only at encoded
    split at encoded
    · rename_i fits
      split at encoded
      · rename_i compressed ran
        cases encoded
        exact decodeIfCompressed_envelope inverts fits ran
      · cases encoded
    · cases encoded

namespace WombatKVKvStore

variable {store : WombatKVKvStore}

structure SameBucket (before after : WombatKVKvStore) : Prop where
  s3Prefix : after.s3Prefix = before.s3Prefix
  zstd : after.zstd = before.zstd
  putPolicy : after.objectStore.putPolicy = before.objectStore.putPolicy
  faults : after.objectStore.faults = before.objectStore.faults

def readBack (store : WombatKVKvStore) (objectKey : Text) : Option Bytes :=
  store.objectStore.objects[objectKey]?.map (decodeIfCompressed store.zstd)

theorem putKv_readBack (healthy : store.objectStore.Healthy)
    (replaces : store.objectStore.putPolicy = .replace) (put : MixedPut)
    (roundTrips : ∀ stored, encodeWithHeader store.zstd put.payload put.compression = .ok stored →
      decodeIfCompressed store.zstd stored = put.payload) :
    (putKv put.ns put.key put.payload put.written).Ensures (fun _ after =>
      SameBucket store after ∧ ∀ objectKey, after.readBack objectKey =
        (store.lastMixedPut objectKey [put]).or (store.readBack objectKey))
      (store.withCompression put.compression) := by
  have clear : store.objectStore.faults 0 = none := congrFun healthy 0
  apply ensures_putKv
  · intro error refused
    refine ⟨⟨rfl, rfl, rfl, rfl⟩, fun objectKey => ?_⟩
    have failed : (encodeWithHeader store.zstd put.payload put.compression).toBool = false := by
      cases encoded : encodeWithHeader store.zstd put.payload put.compression with
      | error _ => rfl
      | ok stored =>
        have stores : encodeForStorage store.zstd put.payload put.compression put.key =
          .ok stored := encodeForStorage_eq_ok.mpr encoded
        cases refused.symm.trans stores
    simp only [lastMixedPut, failed, Bool.false_eq_true, and_false, if_false, Option.or_none,
      Option.none_or]
    rfl
  · intro stored error encoded fault
    cases fault.symm.trans clear
  · intro stored encoded _
    have made : (encodeWithHeader store.zstd put.payload put.compression).toBool = true := by
      rw [show encodeWithHeader store.zstd put.payload put.compression = .ok stored from encoded]
      rfl
    have stays := healthy.advance
    have faults : store.objectStore.advance.faults = store.objectStore.faults :=
      congrArg ObjectStore.faults stays
    refine ⟨⟨rfl, rfl, rfl, faults⟩, fun objectKey => ?_⟩
    have objects : (store.objectStore.advance.withPut (store.objectKey put.ns put.key)
        stored).objects = store.objectStore.objects.insert (store.objectKey put.ns put.key)
          stored := by
      rw [stays, withPut, replaces]
      rfl
    change ((store.objectStore.advance.withPut (store.objectKey put.ns put.key)
      stored).objects[objectKey]?).map (decodeIfCompressed store.zstd) = _
    rw [objects, Std.ExtTreeMap.getElem?_insert]
    by_cases same : store.objectKey put.ns put.key = objectKey
    · simp [lastMixedPut, same, made, roundTrips stored encoded]
    · simp [lastMixedPut, same, readBack]

theorem lastMixedPut_cons (put : MixedPut) (rest : List MixedPut) (objectKey : Text) :
    store.lastMixedPut objectKey (put :: rest) =
      (store.lastMixedPut objectKey rest).or (store.lastMixedPut objectKey [put]) := by
  simp only [lastMixedPut, Option.none_or]

theorem SameBucket.lastMixedPut {after : WombatKVKvStore} (same : SameBucket store after)
    (named : Text) (puts : List MixedPut) :
    after.lastMixedPut named puts = store.lastMixedPut named puts := by
  induction puts with
  | nil => rfl
  | cons put rest ih =>
    have name : after.objectKey put.ns put.key = store.objectKey put.ns put.key := by
      simp only [objectKey, same.s3Prefix]
    simp only [WombatKVKvStore.lastMixedPut, ih, name, same.zstd]

theorem putMixed_readBack (healthy : store.objectStore.Healthy)
    (replaces : store.objectStore.putPolicy = .replace) (puts : List MixedPut)
    (roundTrips : ∀ put ∈ puts, ∀ stored,
      encodeWithHeader store.zstd put.payload put.compression = .ok stored →
        decodeIfCompressed store.zstd stored = put.payload) :
    SameBucket store (store.putMixed puts) ∧ ∀ objectKey, (store.putMixed puts).readBack objectKey =
      (store.lastMixedPut objectKey puts).or (store.readBack objectKey) := by
  induction puts generalizing store with
  | nil => exact ⟨⟨rfl, rfl, rfl, rfl⟩, fun _ => rfl⟩
  | cons put rest ih =>
    obtain ⟨first, found⟩ := putKv_readBack healthy replaces put (roundTrips put List.mem_cons_self)
    have others : ∀ other ∈ rest, ∀ stored, encodeWithHeader (putKv put.ns put.key put.payload
        put.written (store.withCompression put.compression)).2.zstd other.payload
          other.compression = .ok stored →
        decodeIfCompressed (putKv put.ns put.key put.payload put.written
          (store.withCompression put.compression)).2.zstd stored = other.payload := by
      rw [first.zstd]
      exact fun other later => roundTrips other (List.mem_cons_of_mem put later)
    obtain ⟨second, read⟩ := ih (first.faults.trans healthy) (first.putPolicy.trans replaces) others
    refine ⟨⟨second.s3Prefix.trans first.s3Prefix, second.zstd.trans first.zstd,
      second.putPolicy.trans first.putPolicy, second.faults.trans first.faults⟩, fun objectKey => ?_⟩
    rw [lastMixedPut_cons, Option.or_assoc, ← found objectKey, ← first.lastMixedPut]
    exact read objectKey

theorem getKv_cold (healthy : store.objectStore.Healthy) {ns key : Text}
    (found : store.readBack (store.objectKey ns key) = some payload)
    (compression : BlockCompressionConfig) (written : Bool) :
    (getKv ns key written (store.withCompression compression).cold).1 =
      .ok (.hit .objectStore payload) := by
  obtain ⟨stored, present, decoded⟩ := Option.map_eq_some_iff.mp found
  have unfiled : (store.withCompression compression).cold.flat.files[
      (store.withCompression compression).cold.fileName ns key]? = none :=
    Std.ExtTreeMap.getElem?_empty
  have uncached : (store.withCompression compression).cold.foyer.entries[
      (store.withCompression compression).cold.objectKey ns key]? = none :=
    Std.ExtTreeMap.getElem?_empty
  have same : (store.withCompression compression).cold.objectStore.objects[
      (store.withCompression compression).cold.objectKey ns key]? = some stored := present
  have served : (store.withCompression compression).cold.objectStore.Healthy := healthy
  rw [getKv_objects served unfiled uncached written, same]
  exact congrArg (fun payload => Except.ok (GetOutcome.hit .objectStore payload)) decoded

end WombatKVKvStore

/-- The storage encoding reads back exactly the payloads that are not left raw as a seeming envelope. -/
theorem storage_encoding_reads_back (zstd : Zstd) (inverts : zstd.Inverts) :
    (∀ payload cfg, (∀ stored, encodeWithHeader zstd payload cfg = .ok stored →
        decodeIfCompressed zstd stored = payload) ↔
          (cfg.algo = .none → takenForEnvelope zstd payload = false)) ∧
      ∀ (store : WombatKVKvStore) (puts : List MixedPut), store.zstd = zstd →
        store.objectStore.Healthy → store.objectStore.putPolicy = .replace →
        (∀ put ∈ puts, put.compression.algo = .none → takenForEnvelope zstd put.payload = false) →
        ∀ ns key payload, store.lastMixedPut (store.objectKey ns key) puts = some payload →
          ∀ compression written,
            (getKv ns key written ((store.putMixed puts).withCompression compression).cold).1 =
              .ok (.hit .objectStore payload) := by
  refine ⟨roundTrip_iff inverts, ?_⟩
  rintro store puts rfl healthy replaces plain ns key payload last compression written
  have roundTrips := fun put chosen =>
    (roundTrip_iff inverts put.payload put.compression).mpr (plain put chosen)
  obtain ⟨same, read⟩ := putMixed_readBack healthy replaces puts roundTrips
  have found : (store.putMixed puts).readBack ((store.putMixed puts).objectKey ns key) =
      some payload := by
    rw [read, objectKey, same.s3Prefix]
    change (store.lastMixedPut (store.objectKey ns key) puts).or _ = some payload
    rw [last, Option.some_or]
  exact getKv_cold (same.faults.trans healthy) found compression written

theorem storage_encoding_reads_back_twoSettings :
    let puts : List MixedPut := [⟨⟨.none, 3⟩, "a".toList, "k".toList, [65], true⟩,
      ⟨⟨.zstd, 3⟩, "a".toList, "l".toList, [66], true⟩]
    (getKv "a".toList "k".toList true
        ((plainStore.putMixed puts).withCompression ⟨.zstd, 1⟩).cold).1 =
          .ok (.hit .objectStore [65]) ∧
      (getKv "a".toList "l".toList true
        ((plainStore.putMixed puts).withCompression ⟨.none, 1⟩).cold).1 =
          .ok (.hit .objectStore [66]) := by
  intro puts
  have inverts : plainStore.zstd.Inverts := by
    rintro payload level compressed ⟨⟩
    rfl
  have plain : ∀ put ∈ puts, put.compression.algo = .none →
      takenForEnvelope plainStore.zstd put.payload = false := by decide
  have read := (storage_encoding_reads_back plainStore.zstd inverts).2 plainStore puts rfl rfl rfl
    plain
  exact ⟨read "a".toList "k".toList [65] (by decide +kernel) _ true,
    read "a".toList "l".toList [66] (by decide +kernel) _ true⟩

theorem seeming_envelope_is_stripped :
    let payload : Bytes := compressMagic ++ [0, 0, 0, 0, 0, 0, 65]
    encodeWithHeader plainStore.zstd payload ⟨.none, 3⟩ = .ok payload ∧
      decodeIfCompressed plainStore.zstd payload = [65] := by
  decide

end WombatKV
