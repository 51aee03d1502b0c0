import WombatKV.Dst.Oracle
import WombatKV.Proofs.Node.KvStore

/-! When the store and its reference oracle agree. -/

namespace WombatKV

open ObjectStore Call WombatKVKvStore

theorem lastPayload_snoc_put {counts : Text → Text → Bytes → Option WalStoreError → Bool}
    {ops : List KvOp} {ns key : Text} {payload : Bytes} {fault : Option WalStoreError} :
    lastPayload counts (ops ++ [.put ns key payload fault]) =
      if counts ns key payload fault then some payload else lastPayload counts ops := by
  simp only [lastPayload, List.foldl_append, List.foldl_cons, List.foldl_nil]

theorem lastPayload_snoc_get {counts : Text → Text → Bytes → Option WalStoreError → Bool}
    {ops : List KvOp} {ns key : Text} :
    lastPayload counts (ops ++ [.get ns key]) = lastPayload counts ops := by
  simp only [lastPayload, List.foldl_append, List.foldl_cons, List.foldl_nil]

structure Driven (store : WombatKVKvStore) (ops : List KvOp) (now : WombatKVKvStore)
    (oracle : WombatKvOracle) : Prop where
  setup : SameSetup store now
  files : ∀ file, now.flat.files[file]? = lastAttempt store file ops
  covered : now.TiersMeet (fun _ _ => True) fun name _ =>
    now.flat.files[FlatFileKvBlobCache.pathForKey name]? ≠ none
  expected : ∀ composite, oracle.store[composite]? = lastCommitted store composite ops

section Steps

variable {store now after : WombatKVKvStore} {ops : List KvOp} {oracle : WombatKvOracle}
  {ns key : Text} {payload : Bytes} {fault : Option WalStoreError}

theorem putKv_commits (through : now.writeThroughS3 = true) :
    (putKv ns key payload true).Ensures (fun result after =>
      result.toBool = commits now payload fault ∧ ∀ (name : Text) (stored : Bytes),
        after.objectStore.objects[name]? = some stored →
          now.objectStore.objects[name]? = some stored ∨ name = now.objectKey ns key)
      (now.withFaults (firstFault fault)) := by
  apply ensures_putKv
  · -- The encoder refuses the payload.
    intro error refused
    have unfit : (encodeWithHeader now.zstd payload now.compression).toBool = false := by
      cases encoded : encodeWithHeader now.zstd payload now.compression with
      | error error => rfl
      | ok stored =>
        change encodeForStorage now.zstd payload now.compression key = .error error at refused
        rw [encodeForStorage_eq_ok.mpr encoded] at refused
        cases refused
    refine ⟨?_, fun name stored present => .inl present⟩
    rw [commits, unfit, Bool.and_false]
    rfl
  · -- The request fails, and the failure is reported.
    intro stored error encoded failed
    have faulty : fault = some error := failed
    have reported : (now.withFaults (firstFault fault)).writeThroughS3 = true := through
    refine ⟨?_, fun name stored present => .inl present⟩
    rw [if_pos reported, commits, faulty]
    rfl
  · intro stored encoded clear
    have faultless : fault = none := clear
    change encodeWithHeader now.zstd payload now.compression = .ok stored at encoded
    refine ⟨?_, fun name found present => ?_⟩
    · rw [commits, faultless, encoded]
      rfl
    · rcases putInto_cases present with earlier | ⟨same, _⟩
      · exact .inl earlier
      · exact .inr same

theorem Driven.put (driven : Driven store ops now oracle) (through : store.writeThroughS3 = true)
    {result : Except EmbedError Unit}
    (ran : putKv ns key payload true (now.withFaults (firstFault fault)) = (result, after)) :
    Driven store (ops ++ [.put ns key payload fault]) after (match result with
      | .ok _ => oracle.putKv ns key payload
      | .error _ => oracle.putKvFailed ns key) := by
  have caches := @putKv_caches (now.withFaults (firstFault fault)) ns key payload true
  have committed := @putKv_commits now ns key payload fault
    (driven.setup.writeThroughS3.trans through)
  simp only [Ensures, ran] at caches committed
  obtain ⟨setup, flat, foyer⟩ := caches
  obtain ⟨answered, added⟩ := committed
  have named : now.fileName ns key = store.fileName ns key :=
    congrArg FlatFileKvBlobCache.pathForKey (driven.setup.objectKey ns key)
  have files (file : Text) : after.flat.files[file]? =
      if store.fileName ns key = file then some payload else now.flat.files[file]? := by
    have inserted : (now.flat.files.insert (now.fileName ns key) payload)[file]? =
        if now.fileName ns key = file then some payload else now.flat.files[file]? := by
      simp [Std.ExtTreeMap.getElem?_insert]
    rw [flat, ← named, ← inserted]
    rfl
  have kept {name : Text}
      (covered : now.flat.files[FlatFileKvBlobCache.pathForKey name]? ≠ none) :
      after.flat.files[FlatFileKvBlobCache.pathForKey name]? ≠ none := by
    rw [files]
    split
    · simp
    · exact covered
  have own : after.flat.files[FlatFileKvBlobCache.pathForKey (now.objectKey ns key)]? ≠ none := by
    rw [files, ← named]
    simp [fileName, cacheKey]
  have begun : SameSetup now (now.withFaults (firstFault fault)) := .of rfl
  refine ⟨driven.setup.trans (begun.trans setup), ?_, ⟨?_, ?_, ?_⟩, ?_⟩
  · intro file
    rw [files, lastAttempt, lastPayload_snoc_put, driven.files file]
    simp [lastAttempt]
  · exact fun _ _ _ => trivial
  · intro name found present
    rw [foyer] at present
    rcases FoyerHybridCache.put_cases present with earlier | ⟨rfl, _⟩
    · exact kept (driven.covered.foyer name found earlier)
    · exact own
  · intro name stored present
    rcases added name stored present with earlier | rfl
    · exact kept (driven.covered.objects name stored earlier)
    · exact own
  · intro composite
    have sameCommits : commits store payload fault = commits now payload fault := by
      rw [commits, commits, driven.setup.zstd, driven.setup.compression]
    rw [lastCommitted, lastPayload_snoc_put, sameCommits, ← answered]
    cases result with
    | ok answer =>
      have inserted : (oracle.putKv ns key payload).store[composite]? =
          if compositeKey ns key = composite then some payload else oracle.store[composite]? :=
        (Std.ExtTreeMap.getElem?_insert).trans (by simp)
      rw [inserted, driven.expected composite]
      simp [lastCommitted, Except.toBool]
    | error error =>
      rw [WombatKvOracle.putKvFailed, driven.expected composite]
      simp [lastCommitted, Except.toBool]

theorem Driven.get (driven : Driven store ops now oracle) :
    getKv ns key true (now.withFaults fun _ => none) =
      (.ok (match lastAttempt store (store.fileName ns key) ops with
        | some payload => .hit .foyer payload
        | none => .miss), now.withFaults fun _ => none) := by
  have named : now.fileName ns key = store.fileName ns key :=
    congrArg FlatFileKvBlobCache.pathForKey (driven.setup.objectKey ns key)
  rw [← driven.files, ← named]
  have healthy : (now.withFaults fun _ => none).objectStore.Healthy := rfl
  cases filed : now.flat.files[now.fileName ns key]? with
  | some payload => exact @getKv_flat (now.withFaults fun _ => none) ns key payload filed true
  | none =>
    have uncached : now.foyer.entries[now.objectKey ns key]? = none := by
      rw [Option.eq_none_iff_forall_ne_some]
      intro found present
      exact driven.covered.foyer _ found present filed
    have unstored : now.objectStore.objects[now.objectKey ns key]? = none := by
      rw [Option.eq_none_iff_forall_ne_some]
      intro found present
      exact driven.covered.objects _ found present filed
    exact getKv_missing healthy filed uncached unstored true

end Steps

theorem forall_split_cons {α : Type} {holds : List α → α → Prop} {before : List α} {first : α}
    {items : List α} :
    (∀ middle item rest, first :: items = middle ++ item :: rest → holds (before ++ middle) item) ↔
      holds before first ∧ ∀ middle item rest, items = middle ++ item :: rest →
        holds (before ++ [first] ++ middle) item := by
  constructor
  · intro all
    refine ⟨by simpa using all [] first items rfl, ?_⟩
    intro middle item rest split
    simpa using all (first :: middle) item rest (by rw [split]; rfl)
  · rintro ⟨here, later⟩ middle item rest split
    cases middle with
    | nil =>
      cases split
      simpa using here
    | cons head tail =>
      cases split
      simpa using later tail item rest rfl

def AgreesAt (store : WombatKVKvStore) (before : List KvOp) : KvOp → Prop
  | .get ns key => lastAttempt store (store.fileName ns key) before =
      lastCommitted store (compositeKey ns key) before
  | .put .. => True

theorem Driven.agrees {store now : WombatKVKvStore} {before : List KvOp} {oracle : WombatKvOracle}
    (driven : Driven store before now oracle) (through : store.writeThroughS3 = true)
    (ops : List KvOp) :
    (∀ seen ∈ driveOracle now oracle ops, seen.1 = .ok seen.2) ↔
      ∀ middle op rest, ops = middle ++ op :: rest → AgreesAt store (before ++ middle) op := by
  induction ops generalizing before now oracle with
  | nil => simp [driveOracle]
  | cons op ops ih =>
    rw [forall_split_cons]
    cases op with
    | put ns key payload fault =>
      rcases ran : putKv ns key payload true (now.withFaults (firstFault fault)) with
        ⟨result, after⟩
      have next := ih (driven.put through ran)
      cases result with
      | error error => simpa only [driveOracle, ran, AgreesAt, true_and] using next
      | ok answer => simpa only [driveOracle, ran, AgreesAt, true_and] using next
    | get ns key =>
      have looked := @Driven.get _ _ _ _ ns key driven
      have settled : Driven store (before ++ [.get ns key]) (now.withFaults fun _ => none) oracle :=
        ⟨driven.setup.trans (.of rfl),
          fun file => (driven.files file).trans lastPayload_snoc_get.symm,
          driven.covered.withObjectStore rfl,
          fun composite => (driven.expected composite).trans lastPayload_snoc_get.symm⟩
      rw [driveOracle, looked, List.forall_mem_cons, ih settled]
      refine and_congr_left fun _ => ?_
      rw [AgreesAt, WombatKvOracle.getKv, driven.expected]
      cases lastAttempt store (store.fileName ns key) before with
      | none =>
        cases lastCommitted store (compositeKey ns key) before <;>
          simp [Except.map, GetOutcome.observed]
      | some payload =>
        cases lastCommitted store (compositeKey ns key) before <;>
          simp [Except.map, GetOutcome.observed]

/-- The outcomes of a run are the oracle's exactly when every attempt that a lookup sees was committed. -/
theorem oracle_agrees_iff {config : EmbedConfig} {zstd : Zstd} {putPolicy : PutPolicy}
    {store : WombatKVKvStore} (created : freshStore config zstd putPolicy = .ok store)
    (through : config.writeThroughS3 = true) (ops : List KvOp) :
    (∀ seen ∈ driveOracle store .new ops, seen.1 = .ok seen.2) ↔ AttemptsCommitted store ops := by
  obtain ⟨noFiles, noEntries, noObjects, _⟩ := freshStore_empty created
  have writesThrough : store.writeThroughS3 = true := by
    rw [freshStore_writeThroughS3 created, through]
  have start : Driven store [] store .new := by
    refine ⟨.refl store, ?_, ⟨?_, ?_, ?_⟩, ?_⟩
    · intro file
      rw [noFiles]
      exact Std.ExtTreeMap.getElem?_empty
    · exact fun _ _ _ => trivial
    · intro name payload present
      simp [noEntries] at present
    · intro name stored present
      simp [noObjects] at present
    · exact fun composite => Std.ExtTreeMap.getElem?_empty
  rw [start.agrees writesThrough]
  constructor
  · intro agrees before ns key after split
    exact agrees before (.get ns key) after split
  · intro committed middle op rest split
    cases op with
    | put ns key payload fault => trivial
    | get ns key => exact committed middle ns key rest split

theorem oracle_agrees_iff_repeated :
    let ops : List KvOp := [.put "a".toList "k".toList [65] none,
      .put "a".toList "k".toList [65] (some (.s3 "put failed")), .get "a".toList "k".toList]
    driveOracle plainStore .new ops = [(.ok (.hit [65]), .hit [65])] ∧
      AttemptsCommitted plainStore ops := by
  have created : freshStore ⟨"p".toList, true, ⟨.none, 3⟩⟩ plainStore.zstd .replace =
      .ok plainStore := rfl
  exact ⟨by decide +kernel, (oracle_agrees_iff created rfl _).mp (by decide +kernel)⟩

theorem failed_put_is_served :
    driveOracle plainStore .new [.put "a".toList "k".toList [65] (some (.s3 "put failed")),
      .get "a".toList "k".toList] = [(.ok (.hit [65]), .miss)] := by
  decide +kernel

end WombatKV
