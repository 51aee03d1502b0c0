import WombatKV.Proofs.Store.Tenants

/-! When namespaces do not see each other's records. -/

namespace WombatKV

open ObjectStore Call

namespace SharedStore

variable {first second : Text} {left right : SharedStore}

def twoNamespaces (first second : Text) : Tenant → Text
  | .first => first
  | .second => second

def callOn (shared : SharedStore) (tenant : Tenant) (slot : Nat) (faults : Nat → Option WalStoreError)
    (call : TenantCall) : SharedStore :=
  match shared.instances tenant slot with
  | none => shared
  | some live => shared.install tenant slot
      ((live.withObjectStore { shared.objectStore with faults }).afterCall call)

structure LooksLike (first second : Text) (left right : SharedStore) : Prop where
  samePolicy : left.objectStore.putPolicy = right.objectStore.putPolicy
  objects : ∀ key : Text, first <+: key →
    left.objectStore.objects[key]? = right.objectStore.objects[key]?
  twins : ∀ slot objectStore, (left.instances .first slot).map (·.withObjectStore objectStore) =
    (right.instances .first slot).map (·.withObjectStore objectStore)
  namespaced : ∀ slot live, left.instances .first slot = some live →
    live.walStore.namespacePrefix = first
  others : ∀ slot live, left.instances .second slot = some live →
    live.walStore.namespacePrefix = second ∧ Feeds (fun _ => True) live.buffer

section

variable (alike : LooksLike first second left right)

include alike

theorem LooksLike.install (slot : Nat)
    {leftLive rightLive : LiveStore} (twins : LiveStore.Twins first leftLive rightLive) :
    LooksLike first second (left.install .first slot leftLive)
      (right.install .first slot rightLive) where
  samePolicy := twins.view.putPolicy
  objects := twins.view.objects
  twins index objectStore := by
    by_cases same : index = slot
    · simp [SharedStore.install, same, twins.same objectStore]
    · simpa [SharedStore.install, same] using alike.twins index objectStore
  namespaced index live found := by
    by_cases same : index = slot
    · simp only [SharedStore.install, same, and_self, if_true, Option.some.injEq] at found
      rw [← found]
      exact twins.namespaced
    · exact alike.namespaced index live (by simpa [SharedStore.install, same] using found)
  others index live found :=
    alike.others index live (by simpa [SharedStore.install] using found)

theorem LooksLike.both {event : TenantEvent} (seen : event.tenant = .first) :
    LooksLike first second (left.step (twoNamespaces first second) event)
      (right.step (twoNamespaces first second) event) := by
  obtain ⟨tenant, slot, call, faults⟩ := event
  obtain rfl : tenant = .first := seen
  have view : SameView first { left.objectStore with faults } { right.objectStore with faults } :=
    ⟨alike.samePolicy, rfl, alike.objects⟩
  have called (call : TenantCall) : LooksLike first second (left.callOn .first slot faults call)
      (right.callOn .first slot faults call) := by
    unfold callOn
    have twins := alike.twins slot
    have namespaced := alike.namespaced slot
    cases leftFound : left.instances .first slot with
    | none =>
      cases rightFound : right.instances .first slot with
      | none => exact alike
      | some rightLive =>
        have missing := twins left.objectStore
        simp [leftFound, rightFound] at missing
    | some leftLive =>
      cases rightFound : right.instances .first slot with
      | none =>
        have missing := twins left.objectStore
        simp [leftFound, rightFound] at missing
      | some rightLive =>
        refine alike.install slot (LiveStore.Twins.afterCall ?_ call)
        refine .of_same (fun objectStore => ?_) (namespaced leftLive leftFound) view
        simpa [leftFound, rightFound] using twins objectStore
  cases call with
  | opened nodeId policy => exact alike.install slot (.opened view nodeId policy)
  | publish record nowMs clock turns => exact called _
  | flushDue nowMs currentEpochMs => exact called _
  | flushNow nowMs currentEpochMs => exact called _

theorem LooksLike.install_other (slot : Nat)
    {live : LiveStore} (namespaced : live.walStore.namespacePrefix = second)
    (feeds : Feeds (fun _ => True) live.buffer)
    (samePolicy : live.walStore.objectStore.putPolicy = left.objectStore.putPolicy)
    (unseen : ∀ key : Text, first <+: key → live.walStore.objects[key]? =
      left.objectStore.objects[key]?) :
    LooksLike first second (left.install .second slot live) right where
  samePolicy := samePolicy.trans alike.samePolicy
  objects key seen := (unseen key seen).trans (alike.objects key seen)
  twins index objectStore := by simpa [SharedStore.install] using alike.twins index objectStore
  namespaced index other found :=
    alike.namespaced index other (by simpa [SharedStore.install] using found)
  others index other found := by
    by_cases same : index = slot
    · simp only [SharedStore.install, same, and_self, if_true, Option.some.injEq] at found
      rw [← found]
      exact ⟨namespaced, feeds⟩
    · exact alike.others index other (by simpa [SharedStore.install, same] using found)

omit alike in
theorem LooksLike.hidden (separated : Separated first second)
    (alike : LooksLike first second left right) {event : TenantEvent}
    (unseen : event.tenant = .second) :
    LooksLike first second (left.step (twoNamespaces first second) event) right := by
  obtain ⟨tenant, slot, call, faults⟩ := event
  obtain rfl : tenant = .second := unseen
  have called (call : TenantCall) :
      LooksLike first second (left.callOn .second slot faults call) right := by
    unfold callOn
    cases found : left.instances .second slot with
    | none => exact alike
    | some live =>
      obtain ⟨namespaced, feeds⟩ := alike.others slot live found
      have fed : Feeds (fun _ => True)
          (live.withObjectStore { left.objectStore with faults }).buffer := by simpa using feeds
      have supplied := LiveStore.afterCall_supplied fed call (by simp)
      simp only [LiveStore.withObjectStore_namespacePrefix,
        LiveStore.withObjectStore_objectStore, namespaced] at supplied
      obtain ⟨sameNamespace, fed, wrote⟩ := supplied
      refine alike.install_other slot sameNamespace fed wrote.samePolicy fun key seen => ?_
      rcases wrote.objects key with same | ⟨payload, ⟨⟨nodeId, epochMs, startSeq, endSeq, named⟩, _⟩, _⟩
      · exact same
      · -- Whatever the second namespace writes is out of sight of the first.
        obtain ⟨notChunk, notBatch⟩ := separated nodeId epochMs startSeq endSeq
        rcases named with rfl | rfl
        · exact absurd seen notChunk
        · exact absurd seen notBatch
  cases call with
  | opened nodeId policy =>
    obtain ⟨namespaced, empty, samePolicy, same⟩ := LiveStore.opened_supplied second nodeId
      { left.objectStore with faults } policy
    refine alike.install_other slot namespaced (fun entry member => ?_) samePolicy
      fun key _ => congrArg (·[key]?) same
    change entry ∈ (LiveStore.opened second nodeId { left.objectStore with faults } policy).buffer
      at member
    simp [empty] at member
  | publish record nowMs clock turns => exact called _
  | flushDue nowMs currentEpochMs => exact called _
  | flushNow nowMs currentEpochMs => exact called _

theorem LooksLike.replay (faults : Nat → Option WalStoreError) :
    left.replay first faults = right.replay first faults := by
  have view : SameView first { left.objectStore with faults } { right.objectStore with faults } :=
    ⟨alike.samePolicy, rfl, alike.objects⟩
  exact (WalStore.replayFrom_view first _ _ view).1

end

theorem looksLike_purged (separated : Separated first second) (putPolicy : PutPolicy)
    (events : List TenantEvent) :
    LooksLike first second (run (twoNamespaces first second) putPolicy events)
      (run (twoNamespaces first second) putPolicy (events.filter (·.tenant = .first))) := by
  have start : LooksLike first second (empty putPolicy) (empty putPolicy) :=
    ⟨rfl, fun _ _ => rfl, fun _ _ => rfl, by simp [empty], by simp [empty]⟩
  refine purge_related (fun event => event.tenant = .first) ?_ ?_ events start
  · intro left right event seen alike
    exact alike.both (by simpa using seen)
  · intro left right event unseen alike
    refine alike.hidden separated ?_
    cases tenant : event.tenant with
    | first => simp [tenant] at unseen
    | second => rfl

structure Sourced (sources : WalRecord → Prop) (shared : SharedStore) : Prop where
  objects : ∀ (key : Text) (payload : Bytes), shared.objectStore.objects[key]? = some payload →
    ∀ records, decodeWalObjectRecords payload = .ok records → ∀ record ∈ records, sources record
  feeds : ∀ slot live, shared.instances .first slot = some live → Feeds sources live.buffer

theorem Sourced.install {sources : WalRecord → Prop} {shared : SharedStore}
    (sourced : shared.Sourced sources) (slot : Nat) {live : LiveStore}
    (feeds : Feeds sources live.buffer) {namespacePrefix : Text}
    (wrote : Wrote (LogObject namespacePrefix sources) shared.objectStore
      live.walStore.objectStore) : (shared.install .first slot live).Sourced sources where
  objects key payload found records decoded := by
    change live.walStore.objectStore.objects[key]? = some payload at found
    rcases wrote.objects key with same | ⟨written, ⟨_, reads⟩, stored⟩
    · exact sourced.objects key payload (same ▸ found) records decoded
    · rw [stored, Option.some.injEq] at found
      exact reads records (found ▸ decoded)
  feeds index other found := by
    by_cases same : index = slot
    · simp only [SharedStore.install, same, and_self, if_true, Option.some.injEq] at found
      exact found ▸ feeds
    · exact sourced.feeds index other (by simpa [SharedStore.install, same] using found)

theorem Sourced.step {sources : WalRecord → Prop} {shared : SharedStore}
    (sourced : shared.Sourced sources) {event : TenantEvent} (seen : event.tenant = .first)
    (known : ∀ record nowMs clock turns, event.call = .publish record nowMs clock turns →
      sources record) (namespaces : Tenant → Text) :
    (shared.step namespaces event).Sourced sources := by
  obtain ⟨tenant, slot, call, faults⟩ := event
  obtain rfl : tenant = .first := seen
  have called (call : TenantCall) (known : ∀ record nowMs clock turns,
      call = .publish record nowMs clock turns → sources record) :
      Sourced sources (shared.callOn .first slot faults call) := by
    unfold callOn
    cases found : shared.instances .first slot with
    | none => exact sourced
    | some live =>
      have fed : Feeds sources
          (live.withObjectStore { shared.objectStore with faults }).buffer := by
        simpa using sourced.feeds slot live found
      have supplied := LiveStore.afterCall_supplied fed call known
      simp only [LiveStore.withObjectStore_objectStore] at supplied
      obtain ⟨_, fed, wrote⟩ := supplied
      exact sourced.install slot fed ⟨wrote.samePolicy, wrote.objects⟩
  cases call with
  | opened nodeId policy =>
    obtain ⟨_, empty, samePolicy, same⟩ := LiveStore.opened_supplied (namespaces .first) nodeId
      { shared.objectStore with faults } policy
    have fed : Feeds sources (LiveStore.opened (namespaces .first) nodeId
        { shared.objectStore with faults } policy).buffer := by
      simp [Feeds, empty]
    have wrote : Wrote (LogObject (namespaces .first) sources) shared.objectStore
        (LiveStore.opened (namespaces .first) nodeId { shared.objectStore with faults }
          policy).walStore.objectStore :=
      ⟨samePolicy, fun key => .inl (congrArg (·[key]?) same)⟩
    exact sourced.install slot fed wrote
  | publish record nowMs clock turns => exact called _ known
  | flushDue nowMs currentEpochMs => exact called _ known
  | flushNow nowMs currentEpochMs => exact called _ known

theorem sourced_run {namespaces : Tenant → Text} {putPolicy : PutPolicy}
    {events : List TenantEvent} (own : ∀ event ∈ events, event.tenant = .first) :
    (run namespaces putPolicy events).Sourced (· ∈ publishedUnder .first events) := by
  have kept : ∀ (later : List TenantEvent) (shared : SharedStore), (∀ event ∈ later,
      event ∈ events) → shared.Sourced (· ∈ publishedUnder .first events) →
        (later.foldl (step namespaces) shared).Sourced (· ∈ publishedUnder .first events) := by
    intro later
    induction later with
    | nil => exact fun _ _ sourced => sourced
    | cons event rest ih =>
      intro shared within sourced
      have member := within event (by simp)
      refine ih _ (fun other later => within other (List.mem_cons_of_mem _ later))
        (sourced.step (own event member) (fun record nowMs clock turns call => ?_) namespaces)
      exact List.mem_filterMap.mpr ⟨event, member, by simp [own event member, call]⟩
  exact kept events (empty putPolicy) (fun _ member => member) ⟨by simp [empty], by simp [empty]⟩

theorem Sourced.replay {sources : WalRecord → Prop} {shared : SharedStore}
    (sourced : shared.Sourced sources) {namespacePrefix : Text}
    {faults : Nat → Option WalStoreError} {records : List WalRecord}
    (replayed : shared.replay namespacePrefix faults = .ok records) :
    ∀ record ∈ records, sources record := by
  have reads : ∀ (keys : List Text) (store : ObjectStore),
      store.objects = shared.objectStore.objects → (WalStore.readObjects keys).Ensures
        (fun result _ => ∀ records, result = .ok records → ∀ record ∈ records, sources record)
        store := by
    intro keys
    induction keys with
    | nil => simp [WalStore.readObjects]
    | cons key rest ih =>
      intro store same
      simp only [WalStore.readObjects, ensures_bind, ensures_getObject]
      refine ⟨by simp, fun _ => ?_⟩
      split
      · rename_i payload found
        simp only [andThen_ok, ensures_bind, ensures_lift]
        cases decoded : decodeWalObjectRecords payload with
        | error error => simp
        | ok front =>
          simp only [andThen_ok, ensures_bind]
          refine (ih store.advance same).weaken ?_
          rintro (error | others) _ known
          · simp
          · rintro _ ⟨⟩ record member
            rcases List.mem_append.mp member with inFront | inOthers
            · exact sourced.objects key payload (same ▸ found) front decoded record inFront
            · exact known others rfl record inOthers
      · simp
  have whole : (WalStore.replayFrom namespacePrefix).Ensures (fun result _ => ∀ records,
      result = .ok records → ∀ record ∈ records, sources record)
      { shared.objectStore with faults } := by
    simp only [WalStore.replayFrom, ensures_bind]
    refine ensures_request.mpr ⟨by simp, fun _ => ?_⟩
    exact reads _ _ rfl
  exact whole records replayed

end SharedStore

open SharedStore in
/-- Replay of one namespace depends on that namespace's part of the history alone. -/
theorem namespaces_isolated {first second : Text} (separated : Separated first second)
    (putPolicy : PutPolicy) {events others : List TenantEvent}
    (same : events.filter (·.tenant = .first) = others.filter (·.tenant = .first))
    (faults : Nat → Option WalStoreError) :
    (run (twoNamespaces first second) putPolicy events).replay first faults =
        (run (twoNamespaces first second) putPolicy others).replay first faults ∧
      ∀ records, (run (twoNamespaces first second) putPolicy events).replay first faults =
        .ok records → ∀ record ∈ records, record ∈ publishedUnder .first events := by
  have purged := (looksLike_purged separated putPolicy events).replay faults
  refine ⟨?_, fun records replayed record member => ?_⟩
  · rw [purged, (looksLike_purged separated putPolicy others).replay faults, same]
  · -- Seen from the first namespace, only its own events have happened.
    have own : ∀ event ∈ events.filter (·.tenant = .first), event.tenant = .first := by simp
    rw [purged] at replayed
    have known := (sourced_run own).replay replayed record member
    obtain ⟨event, published, call⟩ := List.mem_filterMap.mp known
    exact List.mem_filterMap.mpr ⟨event, (List.mem_filter.mp published).1, call⟩

theorem separated_of_apart {first second : Text} (notBelow : ¬ first <+: second ++ ['/'])
    (notAbove : ¬ second ++ ['/'] <+: first) : Separated first second := by
  have apart (tail : Text) : ¬ first <+: second ++ ('/' :: tail) := by
    intro start
    rw [← List.singleton_append, ← List.append_assoc] at start
    rcases prefix_or_prefix_of_append start with below | above
    · exact notBelow below
    · exact notAbove above
  exact fun _ _ _ _ => ⟨apart _, apart _⟩

def openAndPublish (tenant : Tenant) (byte : UInt8) : List TenantEvent :=
  [⟨tenant, 0, .opened "n".toList none, fun _ => none⟩,
    ⟨tenant, 0, .publish ⟨[byte], [], []⟩ 0 (fun _ => 0) 1, fun _ => none⟩]

theorem namespaces_isolated_apart :
    (SharedStore.run (SharedStore.twoNamespaces "a".toList "b".toList) .replace
        (openAndPublish .first 65 ++ openAndPublish .second 66)).replay "a".toList (fun _ => none) =
      (SharedStore.run (SharedStore.twoNamespaces "a".toList "b".toList) .replace
        (openAndPublish .first 65)).replay "a".toList (fun _ => none) :=
  (namespaces_isolated (separated_of_apart (by decide) (by decide)) .replace rfl _).1

theorem sibling_namespace_replayed :
    (SharedStore.run (SharedStore.twoNamespaces "a".toList "ab".toList) .replace
        (openAndPublish .second 66)).replay "a".toList (fun _ => none) = .ok [⟨[66], [], []⟩] ∧
      (SharedStore.run (SharedStore.twoNamespaces "a".toList "ab".toList) .replace
        []).replay "a".toList (fun _ => none) = .ok [] := by
  decide +kernel

end WombatKV

