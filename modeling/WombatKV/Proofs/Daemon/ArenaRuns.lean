import WombatKV.Daemon.ArenaRuns
import WombatKV.Proofs.Daemon.Arena
import WombatKV.Proofs.Daemon.Dispatch

/-! What the arena serves, and when a get is never answered with a stale slab. -/

namespace WombatKV

open Call

variable {σ : Type} {backend : KvBackend σ} {display : WireCodecError → Text}
variable {contents : σ → Contents} {key ns : Text} {payload : Bytes}
variable {meaning meaning' : Text → Bytes → Prop}

theorem arenaKey_inj {ns' key' : Text} (plain : '\x00' ∉ ns) (plain' : '\x00' ∉ ns')
    (same : arenaKey ns key = arenaKey ns' key') : ns = ns' ∧ key = key' :=
  append_separator_inj plain plain' same

theorem lastClientPut_append (made : List ClientPut) (put : ClientPut) :
    lastClientPut (made ++ [put]) = (lastClientPut made).store put.ns put.key put.payload := by
  simp [lastClientPut]

theorem memoryBackend_exact : memoryBackend.Exact id where
  put_ok _ _ _ _ _ := rfl
  put_error _ _ _ _ _ failed := by cases failed
  get_ok ns key store := by
    cases held : store ns key with
    | none => exact ⟨.miss, by simp [memoryBackend, get_bind_apply, held], held.symm⟩
    | some payload =>
      exact ⟨.hit .objectStore payload, by simp [memoryBackend, get_bind_apply, held],
        held.symm⟩
  get_kept ns key store := by
    cases held : store ns key <;> simp [memoryBackend, get_bind_apply, held]
  clear_kept _ := rfl

namespace RemoteKvStoreClient

theorem parseArenaRef_tierMessage (tier : UInt8) : parseArenaRef (tierMessage tier) = none := by
  have digit : ';'.isDigit = false := by decide
  have whole : splitChar ';' (tierMessage tier) = [tierMessage tier] :=
    splitChar_of_not_mem (by simp [tierMessage, not_mem_natText digit])
  have other : (tierMessage tier).dropPrefix? "arena:".toList = none := by
    simp [tierMessage, List.dropPrefix?]
  simp only [parseArenaRef, whole, List.findSome?_cons, List.findSome?_nil, other]
  rfl

theorem parseArenaRef_arenaResponse (id : UInt64) (op : UInt8) {slab : ArenaSlab}
    (word : slab.offset < wordLimit) :
    parseArenaRef (arenaResponse id op slab).message = some (slab.offset, slab.len) := by
  have digit : ';'.isDigit = false := by decide
  have colon : ':'.isDigit = false := by decide
  have tier : ';' ∉ tierMessage slab.tier := by simp [tierMessage, not_mem_natText digit]
  let ref : Text := natText slab.offset ++ (':' :: natText slab.len.toNat)
  have pieces : splitChar ';' (arenaResponse id op slab).message =
      [tierMessage slab.tier, "arena:".toList ++ ref] := by
    have last : ';' ∉ "arena:".toList ++ ref := by simp [ref, not_mem_natText digit]
    have parts : (arenaResponse id op slab).message =
        tierMessage slab.tier ++ ';' :: ("arena:".toList ++ ref) := rfl
    rw [parts, splitChar_append tier, splitChar_of_not_mem last]
  have numbers : splitChar ':' ref = [natText slab.offset, natText slab.len.toNat] := by
    rw [splitChar_append (not_mem_natText colon _), splitChar_of_not_mem (not_mem_natText colon _)]
  have found : [tierMessage slab.tier, "arena:".toList ++ ref].findSome?
      (·.dropPrefix? "arena:".toList) = some ref := by
    have first : (tierMessage slab.tier).dropPrefix? "arena:".toList = none := by
      simp [tierMessage, List.dropPrefix?]
    have second : ("arena:".toList ++ ref).dropPrefix? "arena:".toList = some ref := by
      simp [List.dropPrefix?]
    simp only [List.findSome?_cons, first, second]
  have small : slab.len.toNat < 2 ^ 32 := slab.len.toNat_lt
  simp only [parseArenaRef, pieces, found, Option.bind_eq_bind, Option.bind_some, numbers,
    parseUsize_natText word, parseUnsigned_natText small]
  simp

end RemoteKvStoreClient

theorem Daemon.onArena_some {α : Type} {call : Call Text ArenaShared (Option α)}
    {daemon : Daemon σ} {arena : ArenaShared} (there : daemon.arena = some arena)
    {post : Except Text (Option α) → Daemon σ → Prop}
    (ensures : call.Ensures (fun result after =>
      post result { daemon with arena := some after }) arena) :
    (Daemon.onArena call).Ensures post daemon := by
  rw [Ensures, Daemon.onArena, there]
  exact ensures

/-- Every slab of the arena, if the daemon has one, means what it should. -/
def Daemon.Backed (meaning : Text → Bytes → Prop) (daemon : Daemon σ) : Prop :=
  ∀ arena, daemon.arena = some arena → arena.Backed meaning

theorem Daemon.setup_some {daemon : Daemon σ} {arena : ArenaShared}
    (there : daemon.arena = some arena) : daemon.setup = some arena.setup := by
  rw [Daemon.setup, there]
  rfl

theorem ArenaShared.setup_eq {arena after : ArenaShared} (least : after.minBytes = arena.minBytes)
    (size : after.writer.size = arena.writer.size) : after.setup = arena.setup := by
  simp only [ArenaShared.setup, ArenaWriter.maxSlab, least, size]

section Exact

variable (exact : backend.Exact contents) {daemon : Daemon σ}

include exact

/-- Materializing leaves every slab right, if the payload's own one is right or gets replaced. -/
theorem materializeLargePayload_backed
    (backed : daemon.Backed fun name bytes => meaning name bytes ∨ (name = arenaKey ns key ∧
      ∃ whole, Taken (contents daemon.store) daemon.setup ns payload whole))
    (own : ∀ whole, Taken (contents daemon.store) daemon.setup ns payload whole →
      meaning (arenaKey ns key) whole) (tier : UInt8) :
    (materializeLargePayload backend ns key payload tier).Ensures (fun result after =>
      contents after.store = contents daemon.store ∧ after.setup = daemon.setup ∧
      after.Backed meaning ∧ ∀ slab, result = .ok (some slab) → ∃ arena whole,
        after.arena = some arena ∧ arena.writer.Holds slab whole ∧
          meaning (arenaKey ns key) whole) daemon := by
  rw [materializeLargePayload, ensures_bind, ensures_get, andThen_ok]
  cases there : daemon.arena with
  | none =>
    refine ⟨rfl, rfl, fun arena other => ?_, by simp⟩
    cases there.symm.trans other
  | some arena =>
    have setup := Daemon.setup_some there
    have slabs := backed arena there
    have untouched (unfit : ∀ whole, (contents daemon.store).resolve ns payload = some whole →
        ¬ arena.setup.Takes whole.length) : arena.Backed meaning := by
      refine slabs.mono fun name slab bytes found means => means.resolve_right ?_
      rintro ⟨-, whole, sizes, same, stands, takes⟩
      cases setup.symm.trans same
      exact unfit whole stands takes
    have remember (whole : Bytes) (store : σ)
        (stands : (contents daemon.store).resolve ns payload = some whole)
        (kept : contents store = contents daemon.store) :
        (mapError Halt.failed (Daemon.onArena (rememberArenaSlab ns key whole tier))).Ensures
          (fun result after => contents after.store = contents daemon.store ∧
            after.setup = daemon.setup ∧ after.Backed meaning ∧
            ∀ slab, result = .ok (some slab) → ∃ arena whole, after.arena = some arena ∧
              arena.writer.Holds slab whole ∧ meaning (arenaKey ns key) whole)
          { daemon with store } := by
      rw [ensures_mapError]
      refine Daemon.onArena_some (by exact there) ?_
      have slabs' : arena.Backed fun name held => meaning name held ∨ (name = arenaKey ns key ∧
          arena.setup.Takes whole.length) := by
        refine slabs.mono fun name slab bytes found means => means.imp id ?_
        rintro ⟨same, other, sizes, fixed, stands', takes⟩
        cases setup.symm.trans fixed
        cases stands.symm.trans stands'
        exact ⟨same, takes⟩
      have means (takes : arena.setup.Takes whole.length) : meaning (arenaKey ns key) whole :=
        own whole ⟨_, setup, stands, takes⟩
      refine (rememberArenaSlab_backed slabs' means tier).weaken ?_
      rintro result after ⟨least, size, backed', holds⟩
      refine ⟨kept, ?_, ?_, fun slab made => ?_⟩
      · rw [setup, ← ArenaShared.setup_eq least size]
        rfl
      · rintro _ ⟨⟩
        exact backed'
      · rcases result with error | _ | other
        · cases made
        · cases made
        · cases made
          exact ⟨after, whole, rfl, holds slab rfl⟩
    cases parsed : parseLargeManifest payload with
    | none => exact remember payload daemon.store (by rw [Contents.resolve, parsed]) rfl
    | some manifest =>
      have stands : (contents daemon.store).resolve ns payload =
          (contents daemon.store).assemble ns manifest := by rw [Contents.resolve, parsed]
      have same (kept : arena.Backed meaning) : ∀ store : σ,
          Daemon.Backed meaning { daemon with store } := by
        intro store other found
        cases there.symm.trans found
        exact kept
      simp only
      split
      · -- The payload that the manifest announces is too small.
        rename_i small
        refine ⟨rfl, rfl, same (untouched fun whole read => ?_) daemon.store, by simp⟩
        rw [stands, Contents.assemble_eq_some] at read
        rw [read.2.1]
        exact fun takes => absurd takes.1 (not_le.mpr small)
      · rw [ensures_bind, Daemon.onStore, ensures_on]
        refine (loadLargePayload_exact exact ns manifest daemon.store).weaken ?_
        rintro (halt | out) store ⟨loaded, kept, -⟩
        · -- A chunk is missing or the worker is gone: the manifest stands for nothing.
          refine ⟨kept, rfl, same (untouched fun whole read => ?_) store, by simp⟩
          rw [stands, ← loaded] at read
          cases read
        · exact remember out store (stands.trans loaded.symm) kept

theorem dispatchPut_slabs {request : WireRequest} (backed : daemon.Backed meaning)
    (keeps : ∀ (arena : ArenaShared) (name : Text) slab bytes, daemon.arena = some arena →
      arena.slabs[name]? = some slab → meaning name bytes →
      meaning' name bytes ∨ (name = arenaKey request.ns request.key ∧ ∃ whole,
        Taken ((contents daemon.store).store request.ns request.key request.payload) daemon.setup
          request.ns request.payload whole))
    (own : ∀ whole, Taken ((contents daemon.store).store request.ns request.key request.payload)
      daemon.setup request.ns request.payload whole →
        meaning' (arenaKey request.ns request.key) whole) :
    ∃ answer after, dispatchPut backend request daemon = (answer, after) ∧
      after.setup = daemon.setup ∧
      ((∃ response, answer = some response ∧ response.id = request.id ∧
          response.status ≠ Status.ok ∧ contents after.store = contents daemon.store ∧
          after.Backed meaning ∧ (backend.putKv request.ns request.key request.payload
            daemon.store).1 ≠ .ok ()) ∨
        (contents after.store = (contents daemon.store).store request.ns request.key
            request.payload ∧ after.Backed meaning' ∧
          ((∃ response, answer = some response ∧ response.id = request.id ∧
              response.status = Status.ok) ∨
            (answer = none ∧ Crashes daemon.setup request.payload)))) := by
  have made := exact.put_ok request.ns request.key request.payload daemon.store
  have failed := exact.put_error request.ns request.key request.payload daemon.store
  rcases ran : backend.putKv request.ns request.key request.payload daemon.store with
    ⟨error | _, store⟩
  · rw [ran] at failed
    have unlike : Status.error ≠ Status.ok := by decide
    exact ⟨_, _, dispatchPut_error ran, rfl,
      .inl ⟨_, rfl, rfl, unlike, failed error rfl, backed, by simp⟩⟩
  · rw [ran] at made
    have stored := made rfl
    simp only at stored
    have slabs : Daemon.Backed (fun name bytes => meaning' name bytes ∨
        (name = arenaKey request.ns request.key ∧ ∃ whole,
          Taken (contents store) daemon.setup request.ns request.payload whole))
        { daemon with store } := by
      intro arena there
      refine (backed arena there).mono fun name slab bytes found means => ?_
      rw [stored]
      exact keeps arena name slab bytes there found means
    obtain ⟨kept, setup, backed', -⟩ : (materializeLargePayload backend request.ns request.key
        request.payload 1).Ensures _ { daemon with store } :=
      materializeLargePayload_backed exact slabs (by rw [stored]; exact own) 1
    obtain ⟨-, -, crashes⟩ := materializeLargePayload_exact exact request.ns request.key
      request.payload 1 { daemon with store }
    refine ⟨_, _, dispatchPut_ok ran, setup, .inr ⟨kept.trans stored, backed', ?_⟩⟩
    rcases unlessCrashed_cases (materializeLargePayload backend request.ns request.key
        request.payload 1 { daemon with store }).1 (okResponse request.id Op.put []) with
      ⟨answers, -⟩ | ⟨answers, crashed⟩
    · exact .inl ⟨_, answers, rfl, rfl⟩
    · exact .inr ⟨answers, crashes crashed⟩

omit exact in
theorem readResponse_arenaResponse {arena : ArenaShared} (there : daemon.arena = some arena)
    (backed : arena.Backed meaning) {slab : ArenaSlab} {bytes : Bytes}
    (holds : arena.writer.Holds slab bytes) (id : UInt64) (op : UInt8) :
    daemon.readResponse (arenaResponse id op slab) = some bytes := by
  have word : slab.offset < wordLimit := by
    have behind := holds.behind
    have inside := backed.formed.inside
    have words := backed.words
    unfold wordLimit
    omega
  rw [Daemon.readResponse, RemoteKvStoreClient.parseArenaRef_arenaResponse id op word]
  simp only [there, Option.bind_some]
  exact holds.readPayload backed.formed

/-- A get is answered with what the store has, or with what a slab under the name means. -/
theorem dispatchGet_slabs (backed : daemon.Backed meaning) {request : WireRequest}
    (own : ∀ value whole, contents daemon.store request.ns request.key = some value →
      Taken (contents daemon.store) daemon.setup request.ns value whole →
        meaning (arenaKey request.ns request.key) whole) :
    ∃ answer after, dispatchGet backend request daemon = (answer, after) ∧
      contents after.store = contents daemon.store ∧ after.setup = daemon.setup ∧
      after.Backed meaning ∧
      ((answer = none ∧ ∃ value, contents daemon.store request.ns request.key = some value ∧
          Crashes daemon.setup value) ∨
        (answer = some (missResponse request.id Op.get []) ∧
          contents daemon.store request.ns request.key = none) ∨
        ∃ response seen, answer = some response ∧ response.id = request.id ∧
          response.status = Status.ok ∧ after.readResponse response = some seen ∧
          ((parseArenaRef response.message = none ∧
              contents daemon.store request.ns request.key = some seen) ∨
            (daemon.setup ≠ none ∧ meaning (arenaKey request.ns request.key) seen))) := by
  cases found : daemon.arena.bind fun arena => lookupArenaSlab arena request.ns request.key with
  | some slab =>
    obtain ⟨arena, there, entered⟩ := Option.bind_eq_some_iff.mp found
    obtain ⟨bytes, means, holds⟩ := (backed arena there).slabs _ slab entered
    refine ⟨_, _, dispatchGet_slab found, rfl, rfl, backed, .inr (.inr ⟨_, bytes, rfl, rfl, rfl,
      readResponse_arenaResponse there (backed arena there) holds _ _, .inr ⟨?_, means⟩⟩)⟩
    rw [Daemon.setup_some there]
    exact Option.some_ne_none _
  | none =>
    have kept := exact.get_kept request.ns request.key daemon.store
    obtain ⟨outcome, answered, held⟩ := exact.get_ok request.ns request.key daemon.store
    have ran : backend.getKv request.ns request.key daemon.store =
        (.ok outcome, (backend.getKv request.ns request.key daemon.store).2) :=
      Prod.ext answered rfl
    generalize (backend.getKv request.ns request.key daemon.store).2 = store at kept ran
    cases outcome with
    | miss =>
      exact ⟨_, _, dispatchGet_miss found ran, kept, rfl, backed, .inr (.inl ⟨rfl, held.symm⟩)⟩
    | hit tier payload =>
      have stored : contents daemon.store request.ns request.key = some payload := held.symm
      have effect : (materializeLargePayload backend request.ns request.key payload
          (tierByte tier)).Ensures _ { daemon with store } :=
        @materializeLargePayload_backed _ _ _ _ _ _ _ exact { daemon with store }
          (fun arena there => (backed arena there).mono fun _ _ _ _ means => .inl means)
          (fun whole taken => own payload whole stored (kept ▸ taken)) (tierByte tier)
      obtain ⟨-, -, crashes⟩ := materializeLargePayload_exact exact request.ns request.key payload
        (tierByte tier) { daemon with store }
      rw [Ensures] at effect
      rcases made : materializeLargePayload backend request.ns request.key payload (tierByte tier)
        { daemon with store } with ⟨result, after⟩
      rw [made] at effect crashes
      obtain ⟨same, setup, backed', holds⟩ := effect
      by_cases referred : ∃ slab, result = .ok (some slab)
      · obtain ⟨slab, rfl⟩ := referred
        obtain ⟨arena, whole, there, lies, means⟩ := holds slab rfl
        refine ⟨_, _, dispatchGet_referred found ran made, same.trans kept, setup, backed',
          .inr (.inr ⟨_, whole, rfl, rfl, rfl,
            readResponse_arenaResponse there (backed' arena there) lies _ _, .inr ⟨?_, means⟩⟩)⟩
        rw [← show after.setup = daemon.setup from setup, Daemon.setup_some there]
        exact Option.some_ne_none _
      · -- Without a slab the response carries the stored value itself.
        have noSlab : ∀ slab, result ≠ .ok (some slab) := fun slab made => referred ⟨slab, made⟩
        refine ⟨_, _, dispatchGet_inline found ran noSlab made, same.trans kept, setup, backed', ?_⟩
        rcases unlessCrashed_cases result (inlineResponse request tier payload) with
          ⟨answers, -⟩ | ⟨answers, crashed⟩
        · have inline := RemoteKvStoreClient.parseArenaRef_tierMessage (tierByte tier)
          refine .inr (.inr ⟨_, payload, answers, rfl, rfl, ?_, .inl ⟨inline, stored⟩⟩)
          rw [Daemon.readResponse, inlineResponse, inline]
        · exact .inl ⟨answers, payload, stored, crashes crashed⟩

omit exact in
theorem answerMany_slabs (backed : daemon.Backed meaning) (request : WireRequest)
    (items : List Bytes) (tier : UInt8) :
    (answerMany request items tier daemon).2.Backed meaning ∧
      (answerMany request items tier daemon).2.setup = daemon.setup ∧
      (answerMany request items tier daemon).2.store = daemon.store := by
  have same : (answerMany request items tier daemon).2 =
      (Daemon.onArena (writeArenaPayload (encodeBytesBatch items) tier) daemon).2 := by
    rw [answerMany]
    split
    · simp only [*]
    · split <;> simp only [*]
  rw [same]
  cases there : daemon.arena with
  | none =>
    rw [Daemon.onArena, there]
    exact ⟨backed, rfl, rfl⟩
  | some arena =>
    have effect : (writeArenaPayload (encodeBytesBatch items) tier).Ensures _ arena :=
      writeArenaPayload_backed (backed arena there) (encodeBytesBatch items) tier
    obtain ⟨least, size, backed', -⟩ := effect
    rw [Daemon.onArena, there]
    refine ⟨?_, ?_, rfl⟩
    · rintro _ ⟨⟩
      exact backed'
    · rw [Daemon.setup_some there, ← ArenaShared.setup_eq least size]
      rfl

theorem dispatchGetMany_slabs (backed : daemon.Backed meaning) (request : WireRequest) :
    (dispatchGetMany backend display request daemon).2.Backed meaning ∧
      (dispatchGetMany backend display request daemon).2.setup = daemon.setup ∧
      contents (dispatchGetMany backend display request daemon).2.store =
        contents daemon.store := by
  cases decoded : decodeKeyBatch request.payload with
  | error error =>
    have same : (dispatchGetMany backend display request daemon).2 = daemon := by
      simp only [dispatchGetMany, decoded]
    rw [same]
    exact ⟨backed, rfl, rfl⟩
  | ok keys =>
    obtain ⟨same, kept⟩ : (collectMany backend request keys [] 1).Ensures _ daemon :=
      collectMany_kept exact request keys [] 1 daemon
    rcases ran : collectMany backend request keys [] 1 daemon with
      ⟨(response | _) | ⟨items, tier⟩, middle⟩
    all_goals
      rw [ran] at same kept
      have setup : middle.setup = daemon.setup := congrArg (Option.map ArenaShared.setup) same
      have slabs : middle.Backed meaning := fun arena there => backed arena (same ▸ there)
      simp only [dispatchGetMany, decoded, ran]
    · exact ⟨slabs, setup, kept⟩
    · exact ⟨slabs, setup, kept⟩
    · obtain ⟨slabs', setup', store⟩ := answerMany_slabs slabs request items tier
      exact ⟨slabs', setup'.trans setup, (congrArg contents store).trans kept⟩

theorem dispatchClear_slabs (backed : daemon.Backed meaning) (request : WireRequest) :
    (dispatchClear backend request daemon).2.Backed meaning ∧
      (dispatchClear backend request daemon).2.setup = daemon.setup ∧
      contents (dispatchClear backend request daemon).2.store = contents daemon.store := by
  refine ⟨fun arena there => ?_, ?_, exact.clear_kept daemon.store⟩
  · obtain ⟨before, found, rfl⟩ := Option.map_eq_some_iff.mp there
    exact (backed before found).cleared _
  · simp only [dispatchClear, Daemon.setup, Option.map_map]
    rfl

/-- A slab under a key that was put holds what was put there last. -/
def PutMeaning (puts : List ClientPut) (name : Text) (bytes : Bytes) : Prop :=
  ∀ ns key value, '\x00' ∉ ns → name = arenaKey ns key →
    lastClientPut puts ns key = some value → bytes = value

structure ArenaRun.Fresh (contents : σ → Contents) (sizes : ArenaSetup) (run : ArenaRun σ) :
    Prop where
  setup : run.daemon.setup = some sizes
  backed : run.daemon.Backed (PutMeaning run.puts)
  puts : ∀ ns key value, lastClientPut run.puts ns key = some value →
    contents run.daemon.store ns key = some value ∧ ∀ manifest,
      parseLargeManifest value = some manifest → manifest.totalLen < sizes.minBytes

section Steps

variable {sizes : ArenaSetup} {run after : ArenaRun σ} {request : WireRequest}
  (fresh : run.Fresh contents sizes)

include fresh

omit exact in
/-- What is taken into the arena is the payload itself, since no manifest is large enough. -/
theorem ArenaRun.Fresh.whole {held : Contents} {value whole : Bytes}
    (small : ∀ manifest, parseLargeManifest value = some manifest →
      manifest.totalLen < sizes.minBytes) (taken : Taken held run.daemon.setup ns value whole) :
    whole = value := by
  obtain ⟨_, same, stands, large, -⟩ := taken
  cases fresh.setup.symm.trans same
  rw [Contents.resolve] at stands
  cases parsed : parseLargeManifest value with
  | none => simpa [parsed] using stands.symm
  | some manifest =>
    simp only [parsed, Contents.assemble_eq_some] at stands
    have less := small manifest parsed
    omega

theorem ArenaRun.Fresh.put (put : request.op = Op.put) (refreshes : Refreshes run request) :
    ∃ response daemon, dispatch backend display request run.daemon = (some response, daemon) ∧
      ArenaRun.Fresh contents sizes ⟨daemon, if response.status = Status.ok then
        run.puts ++ [⟨request.ns, request.key, request.payload⟩] else run.puts⟩ := by
  obtain ⟨arena, there, rfl⟩ := Option.map_eq_some_iff.mp fresh.setup
  have small := refreshes.manifest put arena there
  have last : lastClientPut (run.puts ++ [⟨request.ns, request.key, request.payload⟩]) =
      (lastClientPut run.puts).store request.ns request.key request.payload :=
    lastClientPut_append _ _
  have keeps (other : ArenaShared) (name : Text) (slab : ArenaSlab) (bytes : Bytes)
      (found : run.daemon.arena = some other) (entered : other.slabs[name]? = some slab)
      (means : PutMeaning run.puts name bytes) :
      PutMeaning (run.puts ++ [⟨request.ns, request.key, request.payload⟩]) name bytes ∨
        (name = arenaKey request.ns request.key ∧ ∃ whole,
          Taken ((contents run.daemon.store).store request.ns request.key request.payload)
            run.daemon.setup request.ns request.payload whole) := by
    cases there.symm.trans found
    by_cases own : name = arenaKey request.ns request.key
    · -- The slab under the key itself is replaced by the new payload.
      subst own
      obtain ⟨shape, takes⟩ := refreshes.slab put arena there
        (by rw [lookupArenaSlab, entered]; simp)
      exact .inr ⟨rfl, request.payload, _, fresh.setup, by rw [Contents.resolve, shape], takes⟩
    · refine .inl fun ns key value plain same found => ?_
      rw [last, Contents.store_other] at found
      · exact means ns key value plain same found
      · rintro ⟨rfl, rfl⟩
        exact own same
  have own (whole : Bytes)
      (taken : Taken ((contents run.daemon.store).store request.ns request.key request.payload)
        run.daemon.setup request.ns request.payload whole) :
      PutMeaning (run.puts ++ [⟨request.ns, request.key, request.payload⟩])
        (arenaKey request.ns request.key) whole := by
    intro ns key value plain same found
    obtain ⟨rfl, rfl⟩ := arenaKey_inj refreshes.ns plain same
    rw [last, Contents.store_same] at found
    cases found
    exact fresh.whole small taken
  have calm : ¬ Crashes run.daemon.setup request.payload := by
    rintro ⟨sizes, manifest, same, parsed, large, -⟩
    cases fresh.setup.symm.trans same
    exact absurd (small manifest parsed) (not_lt.mpr large)
  obtain ⟨_, daemon, ran, setup, ⟨response, rfl, -, failed, stored, backed, -⟩ |
    ⟨stored, backed, ⟨response, rfl, -, ok⟩ | ⟨rfl, crashes⟩⟩⟩ :=
    dispatchPut_slabs exact fresh.backed keeps own
  · refine ⟨response, daemon, (dispatch_put put _).trans ran, setup.trans fresh.setup, ?_, ?_⟩
    · rw [if_neg failed]
      exact backed
    · rw [if_neg failed, stored]
      exact fresh.puts
  · refine ⟨response, daemon, (dispatch_put put _).trans ran, setup.trans fresh.setup, ?_, ?_⟩
    · rw [if_pos ok]
      exact backed
    · intro ns key value found
      rw [if_pos ok, last] at found
      rw [stored]
      by_cases own : ns = request.ns ∧ key = request.key
      · obtain ⟨rfl, rfl⟩ := own
        rw [Contents.store_same] at found ⊢
        cases found
        exact ⟨rfl, small⟩
      · rw [Contents.store_other own] at found ⊢
        exact fresh.puts ns key value found
  · exact absurd crashes calm

theorem ArenaRun.Fresh.get (get : request.op = Op.get) (plain : '\x00' ∉ request.ns) :
    ∃ answer daemon, dispatch backend display request run.daemon = (answer, daemon) ∧
      ArenaRun.Fresh contents sizes ⟨daemon, run.puts⟩ ∧
      ∀ value, lastClientPut run.puts request.ns request.key = some value → ∃ response,
        answer = some response ∧ response.status = Status.ok ∧
          daemon.readResponse response = some value := by
  obtain ⟨answer, daemon, ran, kept, setup, backed, told⟩ :=
    @dispatchGet_slabs _ _ _ _ exact _ fresh.backed request (by
      intro value whole stored taken ns key other plain' same last
      obtain ⟨rfl, rfl⟩ := arenaKey_inj plain plain' same
      obtain ⟨held, small⟩ := fresh.puts _ _ _ last
      cases stored.symm.trans held
      exact fresh.whole small taken)
  refine ⟨answer, daemon, (dispatch_get get _).trans ran,
    ⟨setup.trans fresh.setup, backed, by rw [kept]; exact fresh.puts⟩, fun value last => ?_⟩
  obtain ⟨held, small⟩ := fresh.puts _ _ _ last
  rcases told with ⟨-, other, stored, sizes, manifest, same, parsed, large, -⟩ |
    ⟨-, missing⟩ | ⟨response, seen, answers, -, ok, read, ⟨-, stored⟩ | ⟨-, means⟩⟩
  · cases held.symm.trans stored
    cases fresh.setup.symm.trans same
    exact absurd (small manifest parsed) (not_lt.mpr large)
  · cases held.symm.trans missing
  · cases held.symm.trans stored
    exact ⟨response, answers, ok, read⟩
  · obtain rfl := means _ _ _ plain rfl last
    exact ⟨response, answers, ok, read⟩

theorem ArenaRun.Fresh.step {start : Daemon σ} (refreshes : Refreshes run request)
    (made : (arenaRun backend display start).step run request = some after) :
    after.Fresh contents sizes := by
  simp only [arenaRun] at made
  split at made
  case isFalse => cases made
  case isTrue known =>
    simp only [List.mem_cons, List.not_mem_nil, or_false] at known
    have unlike : Op.get ≠ Op.put ∧ Op.getMany ≠ Op.put ∧ Op.clear ≠ Op.put := by decide
    obtain ⟨response, answers, rfl⟩ := Option.map_eq_some_iff.mp made
    have others (notPut : request.op ≠ Op.put) (kept : ArenaRun.Fresh contents sizes
        ⟨(dispatch backend display request run.daemon).2, run.puts⟩) :
        ArenaRun.Fresh contents sizes ⟨(dispatch backend display request run.daemon).2,
          if request.op = Op.put ∧ response.status = Status.ok then
            run.puts ++ [⟨request.ns, request.key, request.payload⟩]
          else run.puts⟩ := by
      rwa [if_neg fun both => notPut both.1]
    rcases known with put | get | getMany | clear
    · obtain ⟨told, daemon, ran, kept⟩ := @ArenaRun.Fresh.put _ _ display _ exact _ _ _ fresh put
        refreshes
      rw [ran] at answers ⊢
      cases answers
      simpa only [put, true_and] using kept
    · obtain ⟨answer, daemon, ran, kept, -⟩ := @ArenaRun.Fresh.get _ _ display _ exact _ _ _ fresh
        get refreshes.ns
      exact others (get ▸ unlike.1) (by rw [ran]; exact kept)
    · obtain ⟨backed, setup, kept⟩ :=
        @dispatchGetMany_slabs _ _ display _ _ exact _ fresh.backed request
      refine others (getMany ▸ unlike.2.1) ?_
      rw [dispatch_getMany getMany]
      exact ⟨setup.trans fresh.setup, backed, by rw [kept]; exact fresh.puts⟩
    · obtain ⟨backed, setup, kept⟩ := dispatchClear_slabs exact fresh.backed request
      refine others (clear ▸ unlike.2.2) ?_
      rw [dispatch_clear clear]
      exact ⟨setup.trans fresh.setup, backed, by rw [alwaysAnswers, kept]; exact fresh.puts⟩

end Steps

end Exact

theorem dispatchPut_memory (id : UInt64) (ns key : Text) (shape : parseLargeManifest payload = none)
    (store : Contents) (arena : ArenaShared) :
    dispatch memoryBackend display ⟨id, Op.put, ns, key, payload⟩ ⟨store, some arena⟩ =
      (some (okResponse id Op.put []),
        ⟨store.store ns key payload, some (rememberArenaSlab ns key payload 1 arena).2⟩) := by
  have answered := @dispatchPut_ok _ memoryBackend ⟨id, Op.put, ns, key, payload⟩
    ⟨store, some arena⟩ _ rfl
  have made : materializeLargePayload memoryBackend ns key payload 1
      ⟨store.store ns key payload, some arena⟩ =
      mapError Halt.failed (Daemon.onArena (rememberArenaSlab ns key payload 1))
        ⟨store.store ns key payload, some arena⟩ := by
    simp only [materializeLargePayload, get_bind_apply, shape]
  simp only at answered
  rw [made] at answered
  rw [dispatch_put rfl, answered]
  rcases ran : rememberArenaSlab ns key payload 1 arena with ⟨error | slab, after⟩
  all_goals
    simp only [mapError, Daemon.onArena, ran]
    rfl

theorem arenaRun_put_memory {start : Daemon Contents} (id : UInt64) (ns key : Text)
    (shape : parseLargeManifest payload = none) (store : Contents) (arena : ArenaShared)
    (puts : List ClientPut) :
    (arenaRun memoryBackend display start).step ⟨⟨store, some arena⟩, puts⟩
        ⟨id, Op.put, ns, key, payload⟩ =
      some ⟨(dispatch memoryBackend display ⟨id, Op.put, ns, key, payload⟩
        ⟨store, some arena⟩).2, puts ++ [⟨ns, key, payload⟩]⟩ := by
  have ok : (okResponse id Op.put []).status = Status.ok := rfl
  simp only [arenaRun, dispatchPut_memory id ns key shape, ok, List.mem_cons, true_or, and_self,
    if_true, Option.map_some]

end WombatKV
