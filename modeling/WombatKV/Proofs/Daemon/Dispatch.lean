import WombatKV.Daemon.Dispatch
import WombatKV.Proofs.Daemon.Wire

/-! What requests do over a store that keeps what it is given. -/

namespace WombatKV

open Call

variable {σ : Type} {backend : KvBackend σ} {display : WireCodecError → Text}
variable {contents : σ → Contents} {held : Contents} {ns : Text}

theorem dispatch_put {request : WireRequest} (op : request.op = Op.put) (daemon : Daemon σ) :
    dispatch backend display request daemon = dispatchPut backend request daemon := by
  simp [dispatch, op, Op.put, Op.ping]

theorem dispatch_get {request : WireRequest} (op : request.op = Op.get) (daemon : Daemon σ) :
    dispatch backend display request daemon = dispatchGet backend request daemon := by
  simp [dispatch, op, Op.get, Op.put, Op.ping]

theorem dispatch_getMany {request : WireRequest} (op : request.op = Op.getMany)
    (daemon : Daemon σ) :
    dispatch backend display request daemon = dispatchGetMany backend display request daemon := by
  simp [dispatch, op, Op.getMany, Op.get, Op.put, Op.ping]

theorem dispatch_clear {request : WireRequest} (op : request.op = Op.clear) (daemon : Daemon σ) :
    dispatch backend display request daemon = alwaysAnswers (dispatchClear backend request daemon) := by
  simp [dispatch, op, Op.clear, Op.getMany, Op.get, Op.put, Op.ping, Op.existsKey, Op.list,
    Op.stats]

@[simp] theorem Contents.store_same (held : Contents) (ns key : Text) (payload : Bytes) :
    held.store ns key payload ns key = some payload := by simp [Contents.store]

theorem Contents.store_other {key otherNs otherKey : Text} {payload : Bytes}
    (other : ¬ (otherNs = ns ∧ otherKey = key)) :
    held.store ns key payload otherNs otherKey = held otherNs otherKey := if_neg other

theorem Contents.chunks_eq_some {held : Contents} {ns id : Text} {chunk : Nat → Bytes}
    {left index : Nat} {out : Bytes}
    (present : ∀ number < left,
      held ns (largeChunkKey id (index + number)) = some (chunk (index + number))) :
    held.chunks ns id left index out =
      some (out ++ (List.range left).flatMap fun number => chunk (index + number)) := by
  induction left generalizing index out with
  | zero => simp [Contents.chunks]
  | succ left ih =>
    have first := present 0 (Nat.succ_pos left)
    rw [Nat.add_zero] at first
    have others := @ih (index + 1) (out ++ chunk index) fun number below => by
      have next := present (number + 1) (by omega)
      rwa [show index + (number + 1) = index + 1 + number by omega] at next
    rw [Contents.chunks, first, Option.bind_some, others, List.range_succ_eq_map,
      List.flatMap_cons, List.flatMap_map, List.append_assoc]
    simp only [Nat.succ_eq_add_one, Nat.add_assoc, Nat.add_comm 1, Nat.add_zero]

theorem Contents.assemble_eq_some {manifest : LargeManifest} {payload : Bytes} :
    held.assemble ns manifest = some payload ↔
      held.chunks ns manifest.id manifest.chunkCount 0 [] = some payload ∧
        payload.length = manifest.totalLen ∧ manifest.totalLen ≤ maxVecBytes := by
  rw [Contents.assemble]
  split
  · simp only [reduceCtorEq, false_iff, not_and]
    omega
  · rw [Option.filter_eq_some_iff, decide_eq_true_eq]
    exact and_congr_right fun _ => ⟨fun length => ⟨length, by omega⟩, And.left⟩

theorem Daemon.onArena_store {α : Type} (call : Call Text ArenaShared (Option α))
    (daemon : Daemon σ) : (Daemon.onArena call daemon).2.store = daemon.store := by
  rw [Daemon.onArena]
  cases daemon.arena <;> rfl

theorem Daemon.setup_eq_none {daemon : Daemon σ} : daemon.setup = none ↔ daemon.arena = none :=
  Option.map_eq_none_iff

/-- A payload that announces more than a vector can hold, and that the arena is to take. -/
def Crashes (setup : Option ArenaSetup) (payload : Bytes) : Prop :=
  ∃ sizes manifest, setup = some sizes ∧ parseLargeManifest payload = some manifest ∧
    sizes.minBytes ≤ manifest.totalLen ∧ maxVecBytes < manifest.totalLen

/-- The bytes that a materialization of the payload writes to the arena. -/
def Taken (held : Contents) (setup : Option ArenaSetup) (ns : Text) (payload whole : Bytes) :
    Prop :=
  ∃ sizes, setup = some sizes ∧ held.resolve ns payload = some whole ∧ sizes.Takes whole.length

theorem failed_ne_crashed {α : Type} {result : Except Text α} {claim : Prop}
    (crashed : result.mapError Halt.failed = .error .crashed) : claim := by
  cases result <;> cases crashed

section Exact

variable (exact : backend.Exact contents)

include exact

theorem loadChunks_exact (ns : Text) (manifest : LargeManifest) (left index : Nat) (out : Bytes)
    (store : σ) :
    (loadChunks backend ns manifest left index out).Ensures (fun result after =>
      result.toOption = (contents store).chunks ns manifest.id left index out ∧
        contents after = contents store) store := by
  induction left generalizing index out store with
  | zero => exact ⟨rfl, rfl⟩
  | succ left ih =>
    obtain ⟨outcome, answered, found⟩ := exact.get_ok ns (largeChunkKey manifest.id index) store
    have kept := exact.get_kept ns (largeChunkKey manifest.id index) store
    rw [loadChunks, ensures_bind, ensures_mapError, Ensures, answered, Contents.chunks, ← found]
    cases outcome with
    | miss => exact ⟨rfl, kept⟩
    | hit tier payload =>
      have rest := ih (index + 1) (out ++ payload)
        (backend.getKv ns (largeChunkKey manifest.id index) store).2
      rw [kept] at rest
      exact rest

theorem loadLargePayload_exact (ns : Text) (manifest : LargeManifest) (store : σ) :
    (loadLargePayload backend ns manifest).Ensures (fun result after =>
      result.toOption = (contents store).assemble ns manifest ∧ contents after = contents store ∧
        (result = .error .crashed → maxVecBytes < manifest.totalLen)) store := by
  rw [loadLargePayload, Contents.assemble]
  split
  · rename_i long
    exact ⟨rfl, rfl, fun _ => long⟩
  beta_reduce
  rw [ensures_bind, ensures_mapError]
  refine (loadChunks_exact exact ns manifest manifest.chunkCount 0 [] store).weaken ?_
  rintro (error | out) after ⟨read, kept⟩
  · refine ⟨?_, kept, by rintro ⟨⟩⟩
    rw [← read]
    rfl
  · simp only [Except.mapError, andThen_ok]
    have said : (Except.ok out : Except Text Bytes).toOption = some out := rfl
    rw [← read, said, Option.filter_some]
    by_cases length : out.length = manifest.totalLen
    · rw [if_neg (not_not.mpr length), if_pos (by simpa using length)]
      exact ⟨rfl, kept, by rintro ⟨⟩⟩
    · rw [if_pos length, if_neg (by simpa using length)]
      exact ⟨rfl, kept, by rintro ⟨⟩⟩

theorem resolveLargePayload_kept (ns : Text) (payload : Bytes) (store : σ) :
    (resolveLargePayload backend ns payload).Ensures (fun _ after =>
      contents after = contents store) store := by
  rw [resolveLargePayload]
  cases parseLargeManifest payload with
  | none => rfl
  | some manifest =>
    exact (loadLargePayload_exact exact ns manifest store).weaken fun _ _ loaded => loaded.2.1

theorem materializeLargePayload_exact (ns key : Text) (payload : Bytes) (tier : UInt8)
    (daemon : Daemon σ) :
    (materializeLargePayload backend ns key payload tier).Ensures (fun result after =>
      contents after.store = contents daemon.store ∧
        (daemon.arena = none → after.arena = none) ∧
        (result = .error .crashed → Crashes daemon.setup payload)) daemon := by
  rw [materializeLargePayload, ensures_bind, ensures_get, andThen_ok]
  cases held : daemon.arena with
  | none => exact ⟨rfl, fun _ => held, by rintro ⟨⟩⟩
  | some arena =>
    cases parsed : parseLargeManifest payload with
    | none =>
      simp only [ensures_mapError]
      exact ⟨congrArg contents (Daemon.onArena_store _ _), by simp, failed_ne_crashed⟩
    | some manifest =>
      simp only
      split
      · exact ⟨rfl, by simp, by rintro ⟨⟩⟩
      rename_i large
      rw [ensures_bind, Daemon.onStore, ensures_on]
      refine (loadLargePayload_exact exact ns manifest daemon.store).weaken ?_
      rintro (halt | out) store ⟨-, kept, long⟩
      · refine ⟨kept, by simp, ?_⟩
        rintro ⟨⟩
        exact ⟨arena.setup, manifest, by rw [Daemon.setup, held]; rfl, parsed, not_lt.mp large,
          long rfl⟩
      · simp only [andThen_ok, ensures_mapError]
        exact ⟨(congrArg contents (Daemon.onArena_store _ _)).trans kept, by simp,
          failed_ne_crashed⟩

end Exact

section Answers

variable {request : WireRequest} {daemon : Daemon σ} {store : σ}

theorem dispatchPut_ok
    (ran : backend.putKv request.ns request.key request.payload daemon.store = (.ok (), store)) :
    dispatchPut backend request daemon =
      (unlessCrashed (materializeLargePayload backend request.ns request.key request.payload 1
        { daemon with store := store }).1 (okResponse request.id Op.put []),
      (materializeLargePayload backend request.ns request.key request.payload 1
        { daemon with store := store }).2) := by
  simp only [dispatchPut, Daemon.onStore, on_apply, ran]

theorem dispatchPut_error {error : Text}
    (ran : backend.putKv request.ns request.key request.payload daemon.store =
      (.error error, store)) :
    dispatchPut backend request daemon =
      (some (errResponse request.id Op.put ("put: ".toList ++ error)),
        { daemon with store := store }) := by
  simp only [dispatchPut, Daemon.onStore, on_apply, ran]

theorem unlessCrashed_cases {α : Type} (result : Except (Halt Text) α) (response : WireResponse) :
    unlessCrashed result response = some response ∧ result ≠ .error .crashed ∨
      unlessCrashed result response = none ∧ result = .error .crashed := by
  rcases result with (error | _) | answer
  · exact .inl ⟨rfl, by rintro ⟨⟩⟩
  · exact .inr ⟨rfl, rfl⟩
  · exact .inl ⟨rfl, by rintro ⟨⟩⟩

theorem dispatchGet_slab {slab : ArenaSlab}
    (found : (daemon.arena.bind fun arena => lookupArenaSlab arena request.ns request.key) =
      some slab) :
    dispatchGet backend request daemon = (some (arenaResponse request.id Op.get slab), daemon) := by
  simp only [dispatchGet, found]

variable (absent : (daemon.arena.bind fun arena =>
  lookupArenaSlab arena request.ns request.key) = none)

include absent

theorem dispatchGet_miss
    (ran : backend.getKv request.ns request.key daemon.store = (.ok .miss, store)) :
    dispatchGet backend request daemon =
      (some (missResponse request.id Op.get []), { daemon with store := store }) := by
  simp only [dispatchGet, absent, Daemon.onStore, on_apply, ran]

def inlineResponse (request : WireRequest) (tier : HitTier) (payload : Bytes) : WireResponse :=
  ⟨request.id, Status.ok, Op.get, payload, tierMessage (tierByte tier)⟩

variable {tier : HitTier} {payload : Bytes}
  (ran : backend.getKv request.ns request.key daemon.store = (.ok (.hit tier payload), store))
  {after : Daemon σ}

include ran

theorem dispatchGet_referred {slab : ArenaSlab}
    (made : materializeLargePayload backend request.ns request.key payload (tierByte tier)
      { daemon with store := store } = (.ok (some slab), after)) :
    dispatchGet backend request daemon = (some (arenaResponse request.id Op.get slab), after) := by
  simp only [dispatchGet, absent, Daemon.onStore, on_apply, ran, made]

theorem dispatchGet_inline {result : Except (Halt Text) (Option ArenaSlab)}
    (noSlab : ∀ slab, result ≠ .ok (some slab))
    (made : materializeLargePayload backend request.ns request.key payload (tierByte tier)
      { daemon with store := store } = (result, after)) :
    dispatchGet backend request daemon =
      (unlessCrashed result (inlineResponse request tier payload), after) := by
  simp only [dispatchGet, absent, Daemon.onStore, on_apply, ran, made]
  rcases result with error | _ | slab
  · rfl
  · rfl
  · exact absurd rfl (noSlab slab)

end Answers

section Effects

variable (exact : backend.Exact contents)

include exact

theorem dispatchPut_exact (request : WireRequest) (daemon : Daemon σ) :
    ∃ answer after, dispatchPut backend request daemon = (answer, after) ∧
      (daemon.arena = none → after.arena = none) ∧
      ((∃ response, answer = some response ∧ response.id = request.id ∧
          ((response.status = Status.ok ∧ contents after.store =
              (contents daemon.store).store request.ns request.key request.payload) ∨
            (response.status ≠ Status.ok ∧ contents after.store = contents daemon.store))) ∨
        (answer = none ∧ Crashes daemon.setup request.payload ∧ contents after.store =
          (contents daemon.store).store request.ns request.key request.payload)) := by
  have made := exact.put_ok request.ns request.key request.payload daemon.store
  have failed := exact.put_error request.ns request.key request.payload daemon.store
  rcases ran : backend.putKv request.ns request.key request.payload daemon.store with
    ⟨error | _, store⟩
  · rw [ran] at failed
    have unlike : Status.error ≠ Status.ok := by decide
    exact ⟨_, _, dispatchPut_error ran, id, .inl ⟨_, rfl, rfl, .inr ⟨unlike, failed error rfl⟩⟩⟩
  · rw [ran] at made
    obtain ⟨kept, plain, crashes⟩ := materializeLargePayload_exact exact request.ns request.key
      request.payload 1 { daemon with store }
    have stored := kept.trans (made rfl)
    refine ⟨_, _, dispatchPut_ok ran, plain, ?_⟩
    rcases unlessCrashed_cases (materializeLargePayload backend request.ns request.key
      request.payload 1 { daemon with store }).1 (okResponse request.id Op.put []) with
      ⟨answers, -⟩ | ⟨answers, crashed⟩
    · exact .inl ⟨_, answers, rfl, .inl ⟨rfl, stored⟩⟩
    · exact .inr ⟨answers, crashes crashed, stored⟩

theorem dispatchGet_kept (request : WireRequest) (daemon : Daemon σ) :
    contents (dispatchGet backend request daemon).2.store = contents daemon.store := by
  have kept := exact.get_kept request.ns request.key daemon.store
  cases found : daemon.arena.bind fun arena => lookupArenaSlab arena request.ns request.key with
  | some slab => rw [dispatchGet_slab found]
  | none =>
    obtain ⟨outcome, answered, -⟩ := exact.get_ok request.ns request.key daemon.store
    have ran : backend.getKv request.ns request.key daemon.store =
        (.ok outcome, (backend.getKv request.ns request.key daemon.store).2) :=
      Prod.ext answered rfl
    generalize (backend.getKv request.ns request.key daemon.store).2 = store at kept ran
    cases outcome with
    | miss => rw [dispatchGet_miss found ran, kept]
    | hit tier payload =>
      obtain ⟨same, -⟩ := materializeLargePayload_exact exact request.ns request.key payload
        (tierByte tier) { daemon with store }
      rcases made : materializeLargePayload backend request.ns request.key payload (tierByte tier)
        { daemon with store } with ⟨error | _ | slab, after⟩
      all_goals rw [made] at same
      · rw [dispatchGet_inline found ran (by simp) made, same, kept]
      · rw [dispatchGet_inline found ran (by simp) made, same, kept]
      · rw [dispatchGet_referred found ran made, same, kept]

theorem collectMany_kept (request : WireRequest) (keys : List Text) (items : List Bytes)
    (tier : UInt8) (daemon : Daemon σ) :
    (collectMany backend request keys items tier).Ensures (fun _ after =>
      after.arena = daemon.arena ∧ contents after.store = contents daemon.store) daemon := by
  induction keys generalizing items tier daemon with
  | nil => exact ⟨rfl, rfl⟩
  | cons key keys ih =>
    have kept := exact.get_kept request.ns key daemon.store
    obtain ⟨outcome, answered, -⟩ := exact.get_ok request.ns key daemon.store
    rw [collectMany, ensures_bind, ensures_mapError, Daemon.onStore, ensures_on, Ensures, answered]
    cases outcome with
    | miss => exact ⟨rfl, kept⟩
    | hit from_ value =>
      simp only [Except.mapError, andThen_ok]
      rw [ensures_bind, ensures_mapError, Daemon.onStore, ensures_on]
      refine (resolveLargePayload_kept exact request.ns value _).weaken ?_
      rintro (halt | resolved) store kept'
      · exact ⟨rfl, kept'.trans kept⟩
      · simp only [Except.mapError, andThen_ok]
        refine (ih _ _ { daemon with store }).weaken ?_
        rintro result after ⟨arena, same⟩
        exact ⟨arena, same.trans (kept'.trans kept)⟩

end Effects

theorem materializeLargePayload_plain {daemon : Daemon σ} (plain : daemon.arena = none)
    (ns key : Text) (payload : Bytes) (tier : UInt8) :
    materializeLargePayload backend ns key payload tier daemon = (.ok none, daemon) := by
  rw [materializeLargePayload, get_bind_apply, plain]
  rfl

end WombatKV
