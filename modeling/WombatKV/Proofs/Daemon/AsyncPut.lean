import WombatKV.Daemon.AsyncPut
import WombatKV.Proofs.Daemon.ArenaRuns

/-! When puts are stored in the order of their acknowledgements. -/

namespace WombatKV

open List

variable {α : Type}

theorem exists_split_of_getElem? {list : List α} {index : Nat} {element : α}
    (found : list[index]? = some element) :
    ∃ back, list = list.take index ++ element :: back ∧
      ∀ other, list.set index other = list.take index ++ other :: back := by
  obtain ⟨inside, rfl⟩ := List.getElem?_eq_some_iff.mp found
  refine ⟨list.drop (index + 1), ?_, fun other => set_eq_take_append_cons_drop ▸ if_pos inside⟩
  rw [← drop_eq_getElem_cons inside, take_append_drop]

theorem countP_set {list : List α} {index : Nat} {element : α} (found : list[index]? = some element)
    (counts : α → Bool) (other : α) :
    (list.set index other).countP counts + (if counts element then 1 else 0) =
      list.countP counts + (if counts other then 1 else 0) := by
  obtain ⟨back, split, replaced⟩ := exists_split_of_getElem? found
  rw [replaced]
  conv_rhs => rw [split]
  simp only [countP_append, countP_cons]
  omega

theorem pairwise_replace {related : α → α → Prop} {front back : List α} {element other : α}
    (ordered : (front ++ element :: back).Pairwise related)
    (before : ∀ earlier ∈ front, related earlier other)
    (behind : ∀ later ∈ back, related element later → related other later) :
    (front ++ other :: back).Pairwise related := by
  rw [pairwise_append, pairwise_cons] at ordered ⊢
  obtain ⟨fronts, ⟨elements, backs⟩, across⟩ := ordered
  refine ⟨fronts, ⟨fun later member => behind later member (elements later member), backs⟩, ?_⟩
  intro earlier member later listed
  rcases mem_cons.mp listed with rfl | listed
  · exact before earlier member
  · exact across earlier member later (mem_cons_of_mem _ listed)

namespace AsyncDaemon

variable {σ : Type} {backend : KvBackend σ} {contents : σ → Contents} {start : Contents}
  {state after : AsyncDaemon σ} {thread : Nat} {put : AsyncPut}

theorem run_cases (made : state.run backend thread = some after) :
    ∃ put phase, state.puts[thread]? = some put ∧
      after.puts = state.puts.set thread { put with phase } ∧ put.phase ≠ .done ∧
      ((phase ≠ .done ∧ after.inflight = state.inflight) ∨
        (phase = .done ∧ after.inflight = state.inflight - 1)) := by
  obtain ⟨put, found, made⟩ := Option.bind_eq_some_iff.mp made
  cases was : put.phase with
  | waiting =>
    simp only [was] at made
    split at made
    · cases made
    · cases made
      exact ⟨put, .storing, found, rfl, by simp [was], .inl ⟨by decide, rfl⟩⟩
  | storing =>
    simp only [was] at made
    split at made
    · cases made
      exact ⟨put, .materializing, found, rfl, by simp [was], .inl ⟨by decide, rfl⟩⟩
    · cases made
      exact ⟨put, .releasing, found, rfl, by simp [was], .inl ⟨by decide, rfl⟩⟩
  | materializing =>
    simp only [was] at made
    cases made
    exact ⟨put, .releasing, found, rfl, by simp [was], .inl ⟨by decide, rfl⟩⟩
  | releasing =>
    simp only [was] at made
    cases made
    exact ⟨put, .leaving, found, rfl, by simp [was], .inl ⟨by decide, rfl⟩⟩
  | leaving =>
    simp only [was] at made
    cases made
    exact ⟨put, .done, found, rfl, by simp [was], .inr ⟨rfl, rfl⟩⟩
  | done =>
    simp only [was] at made
    cases made

theorem run_counted {others : Nat} (made : state.run backend thread = some after)
    (counted : state.inflight = state.puts.countP (fun put => put.phase ≠ .done) + others) :
    after.inflight = after.puts.countP (fun put => put.phase ≠ .done) + others := by
  obtain ⟨put, phase, found, puts, unfinished, step⟩ := run_cases made
  have total := countP_set found (fun put => decide (put.phase ≠ .done)) { put with phase }
  simp only [decide_eq_true_eq, if_pos unfinished] at total
  rw [puts]
  rcases step with ⟨notDone, same⟩ | ⟨done, less⟩
  · rw [if_pos notDone] at total
    omega
  · rw [if_neg (by simp [done])] at total
    omega

def Apart (earlier later : AsyncPut) : Prop :=
  later.phase ≠ .waiting → earlier.phase.pending = true → ¬ later.request.follows earlier.request

structure Ordered (contents : σ → Contents) (start : Contents) (state : AsyncDaemon σ) : Prop where
  counted : state.inflight = state.puts.countP fun put => put.phase ≠ .done
  apart : state.puts.Pairwise Apart
  holds : ∀ ns key, contents state.daemon.store ns key =
    (LoggedWrite.lastApplied (state.puts.map AsyncPut.write) (ns, key)).or (start ns key)

section

variable (ordered : state.Ordered contents start)

include ordered

theorem Ordered.drained (idle : state.inflight = 0) (ns key : Text) :
    contents state.daemon.store ns key = (state.lastAcknowledged ns key).or (start ns key) := by
  have done : ∀ put ∈ state.puts, put.phase = .done := by
    have none_ := ordered.counted.symm.trans idle
    rw [countP_eq_zero] at none_
    simpa using none_
  have applied : ∀ write ∈ state.puts.map AsyncPut.write, write.applied = true := by
    intro write member
    obtain ⟨put, listed, rfl⟩ := mem_map.mp member
    simp [AsyncPut.write, done put listed, AsyncPhase.pending]
  rw [ordered.holds, LoggedWrite.lastApplied_eq_lastPromised applied]
  rfl

theorem Ordered.stored_ne_none (member : put ∈ state.puts) (stored : put.phase.pending = false) :
    contents state.daemon.store put.request.ns put.request.key ≠ none := by
  have applied : put.write.applied = true := by simp [AsyncPut.write, stored]
  have value := LoggedWrite.lastApplied_ne_none (mem_map_of_mem member) applied
  rw [ordered.holds]
  intro missing
  exact value (Option.or_eq_none_iff.mp missing).1

theorem Ordered.ahead (found : state.puts[thread]? = some put) (left : put.phase ≠ .waiting) :
    ∀ earlier ∈ state.puts.take thread, earlier.phase.pending = true →
      ¬ put.request.follows earlier.request := by
  intro earlier member pending
  obtain ⟨back, split, -⟩ := exists_split_of_getElem? found
  have apart := ordered.apart
  rw [split, pairwise_append] at apart
  exact apart.2.2 earlier member put mem_cons_self left pending

theorem Ordered.needed_ne_none {front back : List AsyncPut}
    (split : state.puts = front ++ put :: back) (stored : put.phase.pending = false) {ns key : Text}
    (needs : put.request.needs ns key)
    (behind : ∃ earlier ∈ front, earlier.request.ns = ns ∧ earlier.request.key = key) :
    contents state.daemon.store ns key ≠ none := by
  obtain ⟨earlier, member, rfl, rfl⟩ := behind
  have listed : earlier ∈ state.puts := by
    rw [split]
    exact mem_append_left _ member
  refine ordered.stored_ne_none listed ?_
  cases pending : earlier.phase.pending with
  | false => rfl
  | true =>
    have apart := ordered.apart
    rw [split, pairwise_append] at apart
    have left : put.phase ≠ .waiting := by
      intro waiting
      rw [waiting] at stored
      cases stored
    exact absurd (.inr needs)
      (apart.2.2 earlier member put mem_cons_self left pending)

theorem Ordered.replace {phase : AsyncPhase} (found : state.puts[thread]? = some put)
    (puts : after.puts = state.puts.set thread { put with phase })
    (pending : phase.pending = true → put.phase.pending = true)
    (count : after.inflight + (if put.phase ≠ .done then 1 else 0) = state.inflight + (if phase ≠
      .done then 1 else 0))
    (leaves : ∀ earlier ∈ state.puts.take thread, earlier.phase.pending = true → ¬
      put.request.follows earlier.request)
    (holds : ∀ ns key, contents after.daemon.store ns key = (LoggedWrite.lastApplied (after.puts.map
      AsyncPut.write) (ns, key)).or (start ns key)) : after.Ordered contents start := by
  refine ⟨?_, ?_, holds⟩
  · have total := countP_set found (fun put => decide (put.phase ≠ .done)) { put with phase }
    rw [← puts, ← ordered.counted] at total
    simp only [decide_eq_true_eq] at total
    omega
  · obtain ⟨back, split, replaced⟩ := exists_split_of_getElem? found
    have apart := ordered.apart
    rw [split] at apart
    rw [puts, replaced]
    exact pairwise_replace apart (fun earlier member _ => leaves earlier member)
      fun later _ before left now => before left (pending now)

theorem Ordered.move {phase : AsyncPhase} (found : state.puts[thread]? = some put)
    (puts : after.puts = state.puts.set thread { put with phase })
    (same : contents after.daemon.store = contents state.daemon.store)
    (pending : phase.pending = put.phase.pending)
    (count : after.inflight + (if put.phase ≠ .done then 1 else 0) = state.inflight + (if phase ≠
      .done then 1 else 0))
    (leaves : ∀ earlier ∈ state.puts.take thread, earlier.phase.pending = true → ¬
      put.request.follows earlier.request) : after.Ordered contents start := by
  refine ordered.replace found puts (fun now => pending ▸ now) count leaves ?_
  obtain ⟨back, split, replaced⟩ := exists_split_of_getElem? found
  have writes : after.puts.map AsyncPut.write = state.puts.map AsyncPut.write := by
    conv_rhs => rw [split]
    simp only [puts, replaced, map_append, map_cons, AsyncPut.write, pending]
  intro ns key
  rw [same, writes, ordered.holds]

omit ordered in
theorem store_eq_or {held before : Contents} {request : WireRequest} {ns key : Text}
    {value : Option Bytes} (holds : held ns key = value.or (before ns key)) :
    held.store request.ns request.key request.payload ns key =
      (if (ns, key) = (request.ns, request.key) then some request.payload else value).or
        (before ns key) := by
  unfold Contents.store
  by_cases same : ns = request.ns ∧ key = request.key
  · rw [if_pos same, if_pos (Prod.ext same.1 same.2)]
    rfl
  · rw [if_neg same, if_neg fun pair => same (Prod.mk.inj pair), holds]

theorem Ordered.apply (found : state.puts[thread]? = some put) (storing : put.phase = .storing)
    (puts : after.puts = state.puts.set thread { put with phase := .materializing })
    (stored : contents after.daemon.store = (contents state.daemon.store).store put.request.ns
      put.request.key put.request.payload) (count : after.inflight = state.inflight) :
    after.Ordered contents start := by
  have ahead := ordered.ahead found (by simp [storing])
  obtain ⟨back, split, replaced⟩ := exists_split_of_getElem? found
  refine ordered.replace found puts nofun (by simp [storing, count]) ahead ?_
  have later : ∀ other ∈ back.map AsyncPut.write, other.applied = true →
      other.key ≠ put.write.key := by
    intro other member applied same
    obtain ⟨behind, listed, rfl⟩ := mem_map.mp member
    have apart := ordered.apart
    rw [split, pairwise_append, pairwise_cons] at apart
    have left : behind.phase ≠ .waiting := by
      intro waiting
      simp [AsyncPut.write, waiting, AsyncPhase.pending] at applied
    refine apart.2.1.1 behind listed left (by rw [storing]; rfl) (.inl ?_)
    obtain ⟨sameNs, sameKey⟩ := Prod.mk.inj same
    exact ⟨sameNs.symm, sameKey.symm⟩
  have unapplied : put.write.applied = false := by
    simp [AsyncPut.write, storing, AsyncPhase.pending]
  intro ns key
  have writes : state.puts.map AsyncPut.write =
      (state.puts.take thread).map AsyncPut.write ++ put.write :: back.map AsyncPut.write := by
    conv_lhs => rw [split]
    rw [map_append, map_cons]
  have now : after.puts.map AsyncPut.write = (state.puts.take thread).map AsyncPut.write ++
      { put.write with applied := true } :: back.map AsyncPut.write := by
    rw [puts, replaced, map_append, map_cons]
    rfl
  rw [stored, now, LoggedWrite.lastApplied_apply unapplied later, ← writes]
  exact store_eq_or (ordered.holds ns key)

end

section Steps

variable (exact : backend.Exact contents)
  (stores : ∀ ns key payload store, (backend.putKv ns key payload store).1 = .ok ())

include exact stores

theorem Ordered.run (ordered : state.Ordered contents start) {thread : Nat}
    (turn : state.InOrder (.run thread)) (made : state.run backend thread = some after) :
    after.Ordered contents start := by
  obtain ⟨put, found, made⟩ := Option.bind_eq_some_iff.mp made
  cases phase : put.phase with
  | waiting =>
    simp only [phase] at made
    split at made
    · cases made
    · cases made
      exact ordered.move found rfl rfl (by rw [phase]; rfl) (by simp [phase, moveTo])
        (turn put found phase)
  | storing =>
    simp only [phase] at made
    have ok := stores put.request.ns put.request.key put.request.payload state.daemon.store
    have put_ok := exact.put_ok put.request.ns put.request.key put.request.payload
      state.daemon.store ok
    rw [Daemon.onStore, Call.on_apply, ok] at made
    cases made
    exact ordered.apply found phase rfl put_ok rfl
  | materializing =>
    simp only [phase] at made
    cases made
    have kept := (materializeLargePayload_exact exact put.request.ns put.request.key
      put.request.payload 1 state.daemon).1
    exact ordered.move found rfl kept (by rw [phase]; rfl) (by simp [phase, moveTo])
      (ordered.ahead found (by simp [phase]))
  | releasing =>
    simp only [phase] at made
    cases made
    exact ordered.move found rfl rfl (by rw [phase]; rfl) (by simp [phase, moveTo])
      (ordered.ahead found (by simp [phase]))
  | leaving =>
    simp only [phase] at made
    cases made
    have counted : 0 < state.inflight := by
      rw [ordered.counted, countP_pos_iff]
      exact ⟨put, mem_of_getElem? found, by simp [phase]⟩
    refine ordered.move found rfl rfl (by rw [phase]; rfl) ?_
      (ordered.ahead found (by simp [phase]))
    simp only [phase, uncount, moveTo]
    rw [if_pos (by decide), if_neg (by decide)]
    omega
  | done =>
    simp only [phase] at made
    cases made

omit exact stores in
theorem Ordered.spawn (ordered : state.Ordered contents start) (request : WireRequest) :
    (state.count.spawn request).Ordered contents start := by
  refine ⟨?_, ?_, ?_⟩
  · have counted := ordered.counted
    have one : [(⟨request, .waiting⟩ : AsyncPut)].countP (fun put => put.phase ≠ .done) = 1 := rfl
    simp only [AsyncDaemon.spawn, count, countP_append, one]
    omega
  · -- The new put is still in the queue.
    refine pairwise_append.mpr ⟨ordered.apart, pairwise_singleton _ _, ?_⟩
    intro earlier _ later listed left
    rw [mem_singleton] at listed
    exact absurd (congrArg AsyncPut.phase listed) left
  · intro ns key
    simp only [AsyncDaemon.spawn, count, map_append, map_singleton]
    rw [LoggedWrite.lastApplied_promise rfl, ordered.holds]

theorem Ordered.fallBack (ordered : state.Ordered contents start) {request : WireRequest}
    (turn : state.InOrder (.put request false))
    (made : state.count.uncount.fallBack backend request = some after) :
    after.Ordered contents start := by
  have ok := stores request.ns request.key request.payload state.daemon.store
  have put_ok := exact.put_ok request.ns request.key request.payload state.daemon.store ok
  have answered : dispatchPut backend request state.daemon = _ := dispatchPut_ok (Prod.ext ok rfl)
  have kept := (materializeLargePayload_exact exact request.ns request.key request.payload 1
    { state.daemon with
      store := (backend.putKv request.ns request.key request.payload state.daemon.store).2 }).1
  have stored := kept.trans put_ok
  have good : (okResponse request.id Op.put []).status = Status.ok := rfl
  simp only [AsyncDaemon.fallBack, count, uncount, answered] at made
  rcases unlessCrashed_cases (materializeLargePayload backend request.ns request.key
      request.payload 1 { state.daemon with store := (backend.putKv request.ns request.key
        request.payload state.daemon.store).2 }).1 (okResponse request.id Op.put []) with
    ⟨answers, -⟩ | ⟨answers, -⟩
  all_goals
    simp only [Nat.add_sub_cancel, answers, Option.map_some, Option.map_none, good, if_true,
      Option.some.injEq, reduceCtorEq] at made
  subst made
  refine ⟨?_, ?_, ?_⟩
  · have none_ : [(⟨request, .done⟩ : AsyncPut)].countP (fun put => put.phase ≠ .done) = 0 := rfl
    simp only [countP_append, none_]
    exact ordered.counted
  · refine pairwise_append.mpr ⟨ordered.apart, pairwise_singleton _ _, ?_⟩
    intro earlier member later listed _ pending
    rw [mem_singleton.mp listed]
    exact turn rfl earlier member pending
  · intro ns key
    rw [stored, map_append, map_singleton, LoggedWrite.lastApplied_concat rfl]
    exact store_eq_or (ordered.holds ns key)

theorem Ordered.step (ordered : state.Ordered contents start) {label : AsyncStep}
    (turn : state.InOrder label)
    (made : state.step backend label = some after) : after.Ordered contents start := by
  cases label with
  | put request spawns =>
    cases spawns with
    | true =>
      cases made
      exact ordered.spawn request
    | false => exact ordered.fallBack exact stores turn made
  | run thread => exact ordered.run exact stores turn made

end Steps

end AsyncDaemon

open AsyncDaemon in
/-- Puts that are acknowledged before they are stored keep their order. -/
theorem acknowledged_puts_keep_order {σ : Type} {backend : KvBackend σ} {contents : σ → Contents}
    (exact : backend.Exact contents)
    (stores : ∀ ns key payload store, (backend.putKv ns key payload store).1 = .ok ())
    {start : Daemon σ} {state : AsyncDaemon σ}
    (reached : (system backend start).Reachable InOrder state) :
    (state.inflight = 0 → ∀ ns key, contents state.daemon.store ns key =
      (state.lastAcknowledged ns key).or (contents start.store ns key)) ∧
    ∀ front put back manifest, state.puts = front ++ put :: back → put.phase.pending = false →
      parseLargeManifest put.request.payload = some manifest →
      (∀ index < manifest.chunkCount, ∃ earlier ∈ front, earlier.request.ns = put.request.ns ∧
        earlier.request.key = largeChunkKey manifest.id index) →
      ∀ index < manifest.chunkCount,
        contents state.daemon.store put.request.ns (largeChunkKey manifest.id index) ≠ none := by
  have initial : (system backend start).start.Ordered contents (contents start.store) :=
    ⟨rfl, List.Pairwise.nil, fun _ _ => rfl⟩
  have kept (before : AsyncDaemon σ) (label : AsyncStep) (after : AsyncDaemon σ)
      (ordered : before.Ordered contents (contents start.store)) (turn : before.InOrder label)
      (made : (system backend start).step before label = some after) :
      after.Ordered contents (contents start.store) :=
    ordered.step exact stores turn made
  have ordered : state.Ordered contents (contents start.store) := reached.invariant initial kept
  refine ⟨ordered.drained, ?_⟩
  intro front put back manifest split stored parsed acknowledged index inside
  exact ordered.needed_ne_none split stored ⟨rfl, manifest, parsed, index, inside, rfl⟩
    (acknowledged index inside)

def bytePut (byte : UInt8) : WireRequest := ⟨0, Op.put, ['n'], ['k'], [byte]⟩

def chunkedPuts : WireRequest × WireRequest :=
  (⟨0, Op.put, ['n'], largeChunkKey ['x'] 0, [7]⟩,
    ⟨1, Op.put, ['n'], ['k'], utf8 (largeManifest ['x'] 1 1)⟩)

def emptyDaemon : Daemon Contents := ⟨fun _ _ => none, none⟩

def AsyncDaemon.inTurn {σ : Type} (state : AsyncDaemon σ) : AsyncStep → Bool
  | .put _ spawns => spawns
  | .run thread => (state.puts.take thread).all fun put => !put.phase.pending

theorem AsyncDaemon.inOrder_of_inTurn {σ : Type} (state : AsyncDaemon σ) (label : AsyncStep)
    (turn : state.inTurn label = true) : state.InOrder label := by
  cases label with
  | put request spawns =>
    intro failed
    rw [inTurn, failed] at turn
    cases turn
  | run thread =>
    intro put _ _ earlier member pending
    have stored := all_eq_true.mp turn earlier member
    rw [pending] at stored
    cases stored

open AsyncDaemon in
theorem acknowledged_puts_keep_order_large :
    ∃ state, (system memoryBackend emptyDaemon).Reachable InOrder state ∧
      (state.puts, state.inflight) = ([⟨chunkedPuts.1, .done⟩, ⟨chunkedPuts.2, .done⟩], 0) ∧
      (∀ ns key, state.daemon.store ns key = (state.lastAcknowledged ns key).or none) ∧
      state.daemon.store ['n'] (largeChunkKey ['x'] 0) ≠ none := by
  obtain ⟨state, reached, outcome⟩ : ∃ state,
      (system memoryBackend emptyDaemon).Reachable InOrder state ∧
        (state.puts, state.inflight) = ([⟨chunkedPuts.1, .done⟩, ⟨chunkedPuts.2, .done⟩], 0) :=
    System.reaches inTurn inOrder_of_inTurn
      ([.put chunkedPuts.1 true, .put chunkedPuts.2 true] ++ List.replicate 5 (.run 0) ++
        List.replicate 5 (.run 1)) (by decide +kernel)
  obtain ⟨puts, idle⟩ := Prod.mk.inj outcome
  obtain ⟨last, complete⟩ :=
    acknowledged_puts_keep_order memoryBackend_exact (fun _ _ _ _ => rfl) reached
  refine ⟨state, reached, outcome, last idle, ?_⟩
  have parsed : parseLargeManifest chunkedPuts.2.payload = some ⟨['x'], 1, 1⟩ := by decide +kernel
  refine complete [⟨chunkedPuts.1, .done⟩] ⟨chunkedPuts.2, .done⟩ [] ⟨['x'], 1, 1⟩ puts rfl parsed
    ?_ 0 Nat.one_pos
  intro index inside
  obtain rfl : index = 0 := Nat.lt_one_iff.mp inside
  exact ⟨⟨chunkedPuts.1, .done⟩, mem_singleton_self _, rfl, rfl⟩

open AsyncDaemon in
theorem acknowledged_puts_are_overtaken :
    (∃ state, (system memoryBackend emptyDaemon).Reachable (fun _ _ => True) state ∧
      (state.puts.map AsyncPut.request, state.inflight, state.lastAcknowledged ['n'] ['k'],
        state.daemon.store ['n'] ['k']) = ([bytePut 1, bytePut 2], 0, some [2], some [1])) ∧
    parseLargeManifest chunkedPuts.2.payload = some ⟨['x'], 1, 1⟩ ∧
    ∃ state, (system memoryBackend emptyDaemon).Reachable (fun _ _ => True) state ∧
      (state.puts.map AsyncPut.request, state.daemon.store ['n'] ['k'],
        state.daemon.store ['n'] (largeChunkKey ['x'] 0)) =
        ([chunkedPuts.1, chunkedPuts.2], some chunkedPuts.2.payload, none) := by
  refine ⟨?_, by decide +kernel, ?_⟩
  · exact System.reaches (fun _ _ => true) (fun _ _ _ => trivial)
      ([.put (bytePut 1) true, .put (bytePut 2) true] ++ List.replicate 5 (.run 1) ++
        List.replicate 5 (.run 0)) (by decide +kernel)
  · exact System.reaches (fun _ _ => true) (fun _ _ _ => trivial)
      [.put chunkedPuts.1 true, .put chunkedPuts.2 true, .run 1, .run 1] (by decide +kernel)

end WombatKV

