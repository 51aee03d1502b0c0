import WombatKV.Proofs.Node.KvStore

/-! A lookup returns the last acknowledged put. -/

namespace WombatKV

open ObjectStore Call WombatKVKvStore

def lastPuts (history : List (KvCall × Except EmbedError KvAnswer)) (ns key : Text) :
    Option Bytes := lastPut ns key history

section History

variable {earlier : List (KvCall × Except EmbedError KvAnswer)}

theorem lastPuts_of_reads {call : KvCall} {answer : Except EmbedError KvAnswer}
    (reads : call.changesObjects = false) :
    lastPuts ((call, answer) :: earlier) = lastPuts earlier := by
  funext ns key
  cases call <;> first | rfl | cases reads

theorem lastPuts_put {ns key otherNs otherKey : Text} {payload : Bytes} {answer : KvAnswer} :
    lastPuts ((.put ns key payload, .ok answer) :: earlier) otherNs otherKey =
      if ns = otherNs ∧ key = otherKey then some payload
      else lastPuts earlier otherNs otherKey := rfl

end History

section Coherence

variable (store : WombatKVKvStore) (pairs : Set (Text × Text))

def IsLast (lasts : Text → Text → Option Bytes) (name : Text → Text → Text) (named : Text)
    (payload : Bytes) : Prop :=
  ∀ ns key, (ns, key) ∈ pairs → name ns key = named → ∀ last, lasts ns key = some last →
    payload = last

structure Coherent (lasts : Text → Text → Option Bytes) (now : WombatKVKvStore) : Prop where
  setup : SameSetup store now
  tiers : now.TiersMeet (IsLast pairs lasts store.fileName) (IsLast pairs lasts store.objectKey)
  stored : ∀ ns key, (ns, key) ∈ pairs → ∀ last, lasts ns key = some last →
    ∃ stored, now.objectStore.objects[store.objectKey ns key]? = some stored ∧
      decodeIfCompressed store.zstd stored = last

end Coherence

section Steps

variable {store now : WombatKVKvStore} {pairs : Set (Text × Text)} {payloads : Set Bytes}
  {lasts : Text → Text → Option Bytes} {key ns : Text} {payload : Bytes}

theorem Coherent.withFaults (coherent : Coherent store pairs lasts now)
    (faults : Nat → Option WalStoreError) : Coherent store pairs lasts (now.withFaults faults) :=
  ⟨coherent.setup.trans (.of rfl), coherent.tiers.withObjectStore rfl, coherent.stored⟩

theorem IsLast.filed (injective : Set.InjOn (fun pair => store.fileName pair.1 pair.2) pairs)
    (used : (ns, key) ∈ pairs)
    (last : IsLast pairs lasts store.objectKey (store.objectKey ns key) payload) :
    IsLast pairs lasts store.fileName (store.fileName ns key) payload := by
  intro otherNs otherKey otherUsed sameFile
  have samePair : (otherNs, otherKey) = (ns, key) := injective otherUsed used sameFile
  cases samePair
  exact last ns key used rfl

theorem Coherent.read (coherent : Coherent store pairs lasts now)
    (injective : Set.InjOn (fun pair => store.fileName pair.1 pair.2) pairs) {call : KvCall}
    (within : call.Within pairs payloads) (reads : call.changesObjects = false) (fileOk : Bool) :
    (perform call fileOk).Ensures (fun _ => Coherent store pairs lasts) now := by
  have kept := perform_reads coherent.tiers reads (by
    intro ns key payload isGet last
    have used : (ns, key) ∈ pairs := by simpa only [isGet, KvCall.Within] using within
    simp only [fileName, cacheKey, coherent.setup.objectKey] at last ⊢
    exact last.filed injective used) fileOk
  refine kept.weaken fun _ after kept => ?_
  refine ⟨coherent.setup.trans kept.1.setup, kept.1.meets, ?_⟩
  intro ns key used last isLast
  rw [kept.1.objects]
  exact coherent.stored ns key used last isLast

structure LastsAfter (ns key : Text) (payload : Bytes) (lasts after : Text → Text → Option Bytes) :
    Prop where
  latest : after ns key = some payload
  others : ∀ otherNs otherKey, (otherNs, otherKey) ≠ (ns, key) →
    after otherNs otherKey = lasts otherNs otherKey

theorem IsLast.put {after : Text → Text → Option Bytes}
    (moved : LastsAfter ns key payload lasts after) {name : Text → Text → Text}
    (apart : Set.InjOn (fun pair : Text × Text => name pair.1 pair.2) pairs)
    (used : (ns, key) ∈ pairs) {named : Text} {found : Bytes}
    (written : named = name ns key → found = payload)
    (earlier : named ≠ name ns key → IsLast pairs lasts name named found) :
    IsLast pairs after name named found := by
  rintro otherNs otherKey otherUsed rfl last isLast
  by_cases same : (otherNs, otherKey) = (ns, key)
  · cases same
    rw [moved.latest] at isLast
    exact (written rfl).trans (Option.some.inj isLast)
  · -- Another pair has another name here, so the entry is an earlier one.
    rw [moved.others _ _ same] at isLast
    have differs : name otherNs otherKey ≠ name ns key :=
      fun sameName => same (apart otherUsed used sameName)
    exact earlier differs otherNs otherKey otherUsed rfl last isLast

theorem objectKey_injOn (injective : Set.InjOn (fun pair => store.fileName pair.1 pair.2) pairs) :
    Set.InjOn (fun pair : Text × Text => store.objectKey pair.1 pair.2) pairs :=
  fun _ used _ otherUsed same =>
    injective used otherUsed (congrArg FlatFileKvBlobCache.pathForKey same)

theorem Coherent.put (coherent : Coherent store pairs lasts now)
    (replaces : store.objectStore.putPolicy = .replace)
    (injective : Set.InjOn (fun pair => store.fileName pair.1 pair.2) pairs)
    (used : (ns, key) ∈ pairs) {stored : Bytes}
    (decoded : decodeIfCompressed store.zstd stored = payload) {fileOk : Bool}
    (fresh : fileOk = false → ∀ old, now.flat.files[now.fileName ns key]? = some old → old =
      payload) {after : Text → Text → Option Bytes} (moved : LastsAfter ns key payload lasts after) :
    Coherent store pairs after ((now.cached ns key payload fileOk).withObjectStore
      (now.objectStore.withPut (now.objectKey ns key) stored)) := by
  have sameKey := coherent.setup.objectKey ns key
  have sameFile := coherent.setup.fileName ns key
  have replaced : (now.objectStore.withPut (now.objectKey ns key) stored).objects[now.objectKey ns
      key]? = some stored := by
    have policy : now.objectStore.putPolicy = .replace := coherent.setup.putPolicy.trans replaces
    rw [withPut, policy]
    exact putInto_self _ _ _ _
  refine ⟨coherent.setup.trans (.of rfl), ⟨?_, ?_, ?_⟩, ?_⟩
  · intro file found present
    refine IsLast.put moved injective used ?_ ?_
    · rintro rfl
      rw [← sameFile] at present
      cases fileOk with
      | true => exact Option.some.inj (present.symm.trans (cached_file now ns key payload))
      | false => exact fresh rfl found present
    · intro differs
      rcases FlatFileKvBlobCache.put_cases present with earlier | ⟨same, _⟩
      · exact coherent.tiers.flat file found earlier
      · exact absurd (same.trans sameFile) differs
  · intro name found present
    refine IsLast.put moved (objectKey_injOn injective) used ?_ ?_
    · rintro rfl
      rw [← sameKey] at present
      exact Option.some.inj (present.symm.trans Std.ExtTreeMap.getElem?_insert_self)
    · intro differs
      rcases FoyerHybridCache.put_cases present with earlier | ⟨same, _⟩
      · exact coherent.tiers.foyer name found earlier
      · exact absurd (same.trans sameKey) differs
  · intro name found present
    refine IsLast.put moved (objectKey_injOn injective) used ?_ ?_
    · -- The object was replaced just now, and decodes to the payload.
      rintro rfl
      rw [← sameKey] at present
      cases present.symm.trans replaced
      exact (congrArg (decodeIfCompressed · stored) coherent.setup.zstd).trans decoded
    · intro differs
      rcases putInto_cases present with earlier | ⟨same, _⟩
      · exact coherent.tiers.objects name found earlier
      · exact absurd (same.trans sameKey) differs
  · intro otherNs otherKey otherUsed last isLast
    by_cases same : (otherNs, otherKey) = (ns, key)
    · cases same
      rw [moved.latest] at isLast
      exact ⟨stored, sameKey ▸ replaced, decoded.trans (Option.some.inj isLast)⟩
    · rw [moved.others _ _ same] at isLast
      obtain ⟨kept, found, decodes⟩ := coherent.stored otherNs otherKey otherUsed last isLast
      refine ⟨kept, (putInto_of_ne ?_).trans found, decodes⟩
      rw [sameKey]
      exact fun sameName => same (objectKey_injOn injective used otherUsed sameName).symm

theorem Coherent.lookup (coherent : Coherent store pairs lasts now)
    (healthy : now.objectStore.Healthy) (used : (ns, key) ∈ pairs) {last : Bytes}
    (isLast : lasts ns key = some last) (written : Bool) :
    ∃ tier, (getKv ns key written now).1 = .ok (.hit tier last) := by
  have sameKey := coherent.setup.objectKey ns key
  have sameFile := coherent.setup.fileName ns key
  cases filed : now.flat.files[now.fileName ns key]? with
  | some payload =>
    have same := coherent.tiers.flat _ payload filed ns key used sameFile.symm last isLast
    exact ⟨.foyer, same ▸ congrArg Prod.fst (getKv_flat filed written)⟩
  | none =>
    cases cached : now.foyer.entries[now.objectKey ns key]? with
    | some payload =>
      have same := coherent.tiers.foyer _ payload cached ns key used sameKey.symm last isLast
      exact ⟨.foyer, same ▸ getKv_foyer filed cached written⟩
    | none =>
      obtain ⟨stored, found, decoded⟩ := coherent.stored ns key used last isLast
      refine ⟨.objectStore, (getKv_objects healthy filed cached written).trans ?_⟩
      rw [sameKey, found, coherent.setup.zstd]
      exact congrArg (fun payload => Except.ok (GetOutcome.hit .objectStore payload)) decoded

theorem Coherent.step {run : KvRun} (coherent : Coherent store pairs (lastPuts run.history) run.store)
    (replaces : store.objectStore.putPolicy = .replace)
    (injective : Set.InjOn (fun pair => store.fileName pair.1 pair.2) pairs)
    (encodes : ∀ payload ∈ payloads,
      ∃ stored, encodeWithHeader store.zstd payload store.compression = .ok stored)
    (roundTrips : ∀ payload ∈ payloads, store.RoundTrips payload) {taken : KvStep}
    (served : ServedCall pairs payloads taken) (fresh : run.leavesNoStaleFile taken = true) :
    Coherent store pairs (lastPuts (run.step taken).history) (run.step taken).store := by
  have ready := coherent.withFaults taken.faults
  by_cases reads : taken.call.changesObjects = false
  · have kept := ready.read injective served.within reads taken.fileOk
    simp only [KvRun.step]
    rw [lastPuts_of_reads reads]
    exact kept
  · obtain ⟨call, fileOk, faults⟩ := taken
    cases call with
    | get ns key | clearFoyer | clearFlat | restore ns | loseFoyer cacheKey | loseFlat file =>
      exact absurd rfl reads
    | delete ns key => exact absurd rfl (served.keeps ns key)
    | put ns key payload =>
      obtain ⟨used, chosen⟩ := served.within
      obtain ⟨stored, encoded⟩ := encodes payload chosen
      have healthy : (run.store.withFaults faults).objectStore.Healthy := served.served
      have put : perform (.put ns key payload) fileOk (run.store.withFaults faults) = (.ok .done,
          ((run.store.withFaults faults).cached ns key payload fileOk).withObjectStore
            ((run.store.withFaults faults).objectStore.withPut
              ((run.store.withFaults faults).objectKey ns key) stored)) := by
        rw [← ready.setup.zstd, ← ready.setup.compression] at encoded
        rw [perform, Call.bind_ok (putKv_healthy healthy encoded fileOk)]
        rfl
      simp only [KvRun.step, put]
      refine ready.put replaces injective used (roundTrips payload chosen stored encoded) ?_ ?_
      · intro unwritten old present
        subst unwritten
        simp only [KvRun.leavesNoStaleFile, Bool.false_or] at fresh
        have stale : run.store.flat.files[run.store.fileName ns key]? = some old := present
        simpa [stale] using fresh
      · refine ⟨by simp [lastPuts_put], ?_⟩
        intro otherNs otherKey different
        rw [lastPuts_put, if_neg]
        rintro ⟨rfl, rfl⟩
        exact different rfl

end Steps

/-- A lookup returns the payload of the last acknowledged put of its key, in every state reached. -/
theorem get_returns_last_put (store : WombatKVKvStore)
    (replaces : store.objectStore.putPolicy = .replace) {pairs : Set (Text × Text)}
    {payloads : Set Bytes} (injective : Set.InjOn (fun pair => store.fileName pair.1 pair.2) pairs)
    (encodes : ∀ payload ∈ payloads,
      ∃ stored, encodeWithHeader store.zstd payload store.compression = .ok stored)
    (roundTrips : ∀ payload ∈ payloads, store.RoundTrips payload) {run : KvRun}
    (reached : (kvSystem store).Reachable (fun run taken =>
      ServedCall pairs payloads taken ∧ run.leavesNoStaleFile taken = true) run) {ns key : Text}
    (used : (ns, key) ∈ pairs) {payload : Bytes} (last : lastPut ns key run.history = some payload)
    (fileOk : Bool) :
    ∃ tier, (perform (.get ns key) fileOk (run.store.withFaults fun _ => none)).1 =
      .ok (.got (.hit tier payload)) := by
  have start : Coherent store pairs (lastPuts (kvSystem store).start.history)
      (kvSystem store).start.store :=
    ⟨.refl store, ⟨fun _ _ _ _ _ _ _ _ isLast => (nomatch isLast),
      fun _ _ _ _ _ _ _ _ isLast => (nomatch isLast),
      fun _ _ _ _ _ _ _ _ isLast => (nomatch isLast)⟩, fun _ _ _ _ isLast => (nomatch isLast)⟩
  have coherent : Coherent store pairs (lastPuts run.history) run.store := by
    refine @System.Reachable.invariant _ _ _ _
      (fun run => Coherent store pairs (lastPuts run.history) run.store) start ?_ _ reached
    rintro before taken after coherent ⟨served, fresh⟩ made
    cases made
    exact coherent.step replaces injective encodes roundTrips served fresh
  obtain ⟨tier, hit⟩ := (coherent.withFaults fun _ => none).lookup rfl used last fileOk
  refine ⟨tier, ?_⟩
  rw [perform, Call.bind_ok (Prod.ext hit rfl)]
  rfl

theorem get_returns_last_put_overwritten :
    ∃ tier, (perform (.get "a".toList "k".toList) true
      ((((KvRun.step ⟨plainStore, []⟩ (calmly (.put "a".toList "k".toList [65]))).step
        (calmly (.put "a".toList "k".toList [66]))).step
          (calmly .clearFlat)).store.withFaults fun _ => none)).1 =
            .ok (.got (.hit tier [66])) := by
  have served {call : KvCall} (within : call.Within {("a".toList, "k".toList)} {[65], [66]})
      (keeps : ∀ ns key, call ≠ .delete ns key) :
      ServedCall {("a".toList, "k".toList)} {[65], [66]} (calmly call) := ⟨within, rfl, keeps⟩
  have begun : (kvSystem plainStore).Reachable (fun run taken =>
      ServedCall {("a".toList, "k".toList)} {[65], [66]} taken ∧
        run.leavesNoStaleFile taken = true) ⟨plainStore, []⟩ := .start
  have first := begun.calmly (.put "a".toList "k".toList [65])
    ⟨served ⟨rfl, .inl rfl⟩ (by simp), rfl⟩
  have second := first.calmly (.put "a".toList "k".toList [66])
    ⟨served ⟨rfl, .inr rfl⟩ (by simp), rfl⟩
  have third := second.calmly .clearFlat ⟨served trivial (by simp), rfl⟩
  refine get_returns_last_put plainStore rfl ?_ ?_ ?_ third rfl ?_ true
  · rintro _ rfl _ rfl _
    rfl
  · exact fun payload _ => ⟨payload, rfl⟩
  · rintro payload (rfl | rfl) stored encoded
    · cases encoded
      decide
    · cases encoded
      decide
  · decide +kernel

theorem stale_file_answers :
    let run := (KvRun.step ⟨plainStore, []⟩ (calmly (.put "a".toList "k".toList [65]))).step
      ⟨.put "a".toList "k".toList [66], false, fun _ => none⟩
    lastPut "a".toList "k".toList run.history = some [66] ∧
      (perform (.get "a".toList "k".toList) true run.store).1 = .ok (.got (.hit .foyer [65])) := by
  decide +kernel

end WombatKV
