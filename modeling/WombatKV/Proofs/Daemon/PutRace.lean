import WombatKV.Daemon.PutRace
import WombatKV.Proofs.Daemon.RemoteClient

/-! A get finds nothing, or one payload that was put whole. -/

namespace WombatKV

open List

section

open Call RemoteKvStoreClient

variable {σ : Type} {backend : KvBackend σ} {display : WireCodecError → Text}
variable {blake3 : Bytes → BlockHash} {ns key : Text} {payloads : List Bytes}
variable {start : Session σ} {system : System (PutRace σ) RaceStep}
  (isRace : system = putRace backend display blake3 ns key payloads start)

namespace PutRace

def setWriter (state : PutRace σ) (session : Session σ) (writer : Nat) (stands : WriterState) :
    PutRace σ := ⟨session, Function.update state.writer writer stands, state.reader⟩

def setReader (state : PutRace σ) (session : Session σ) (reader : Nat) (stands : ReaderState) :
    PutRace σ := ⟨session, state.writer, Function.update state.reader reader stands⟩

@[simp] theorem setWriter_writer (state : PutRace σ) (session : Session σ) (writer : Nat)
    (stands : WriterState) : (state.setWriter session writer stands).writer writer = stands :=
  Function.update_self ..

@[simp] theorem setReader_reader (state : PutRace σ) (session : Session σ) (reader : Nat)
    (stands : ReaderState) : (state.setReader session reader stands).reader reader = stands :=
  Function.update_self ..

@[simp] theorem setWriter_setWriter (state : PutRace σ) (first second : Session σ) (writer : Nat)
    (before after : WriterState) :
    (state.setWriter first writer before).setWriter second writer after =
      state.setWriter second writer after := by
  simp [setWriter]

@[simp] theorem setReader_setReader (state : PutRace σ) (first second : Session σ) (reader : Nat)
    (before after : ReaderState) :
    (state.setReader first reader before).setReader second reader after =
      state.setReader second reader after := by
  simp [setReader]

theorem setWriter_self {state : PutRace σ} {writer : Nat} {stands : WriterState}
    (there : state.writer writer = stands) :
    state.setWriter state.session writer stands = state := by
  simp [setWriter, ← there]

theorem setReader_self {state : PutRace σ} {reader : Nat} {stands : ReaderState}
    (there : state.reader reader = stands) :
    state.setReader state.session reader stands = state := by
  simp [setReader, ← there]

end PutRace

section Put

variable {writer : Nat} {payload : Bytes} (own : payloads[writer]? = some payload)

include isRace own

theorem put_leads {state : PutRace σ} {asked : Text} {value : Bytes} {next : WriterState}
    (request : (state.writer writer).request blake3 ns key payload = some (asked, value, next))
    {result : Except RemoteError Unit} {session : Session σ}
    (ran : putSmallKv backend display ns asked value state.session = (result, session)) :
    system.Repeats (.put writer) state
      (state.setWriter session writer (if result.isOk then next else .stopped)) := by
  refine .one ?_
  simp only [isRace, putRace, own, Option.bind_some, PutRace.put, request, Option.map_some, ran,
    PutRace.setWriter]

theorem putChunks_leads {left index : Nat} (rest : index + left = chunkCount payload)
    {state : PutRace σ} (stands : state.writer writer = .sending index)
    {result : Except RemoteError Unit} {session : Session σ}
    (ran : putChunks backend display ns (largePayloadId blake3 ns key payload) payload left index
      state.session = (result, session)) :
    system.Repeats (.put writer) state
      (state.setWriter session writer
        (if result.isOk then .sending (chunkCount payload) else .stopped)) := by
  induction left generalizing index state with
  | zero =>
    cases ran
    obtain rfl : index = chunkCount payload := rest
    refine ⟨0, congrArg some ?_⟩
    simp only [Except.isOk, Except.toBool, if_true]
    rw [PutRace.setWriter_self stands]
  | succ left ih =>
    have request : (state.writer writer).request blake3 ns key payload =
        some (largeChunkKey (largePayloadId blake3 ns key payload) index,
          payloadChunk payload index, .sending (index + 1)) := by
      rw [stands]
      exact if_pos (by omega)
    rcases first : putSmallKv backend display ns
      (largeChunkKey (largePayloadId blake3 ns key payload) index) (payloadChunk payload index)
      state.session with ⟨error | _, between⟩
    all_goals
      have step := put_leads isRace own request first
      rw [putChunks] at ran
    · -- The put ends with the request that fails, as the loop does.
      rw [bind_error first] at ran
      cases ran
      simpa only [Except.isOk, Except.toBool, Bool.false_eq_true, if_false] using step
    · rw [bind_ok first] at ran
      have later := @ih (index + 1) (by omega) (state.setWriter between writer (.sending (index + 1)))
        (by simp) ran
      rw [PutRace.setWriter_setWriter] at later
      exact step.trans later

theorem putLargeKv_leads {state : PutRace σ} (stands : state.writer writer = .sending 0)
    {result : Except RemoteError Unit} {session : Session σ}
    (ran : putLargeKv backend display blake3 ns key payload state.session = (result, session)) :
    system.Repeats (.put writer) state
      (state.setWriter session writer (if result.isOk then .published else .stopped)) := by
  rw [putLargeKv] at ran
  rcases first : putChunks backend display ns (largePayloadId blake3 ns key payload) payload
    (chunkCount payload) 0 state.session with ⟨error | _, between⟩
  all_goals
    have chunks := putChunks_leads isRace own (Nat.zero_add _) stands first
  · rw [bind_error first] at ran
    cases ran
    simpa only [Except.isOk, Except.toBool, Bool.false_eq_true, if_false] using chunks
  · rw [bind_ok first] at ran
    have request : ((state.setWriter between writer (.sending (chunkCount payload))).writer
        writer).request blake3 ns key payload =
        some (key, utf8 (manifestFor blake3 ns key payload), .published) := by
      rw [PutRace.setWriter_writer]
      exact if_neg (Nat.lt_irrefl _)
    have last := put_leads isRace own request ran
    rw [PutRace.setWriter_setWriter] at last
    exact chunks.trans last

end Put

def RemoteGetOutcome.look (session : Session σ) : RemoteGetOutcome → Option Bytes
  | .miss => none
  | .hit _ bytes => some (bytes.read session)

def ReaderState.fetched (manifest : LargeManifest) : Except RemoteError Bytes → ReaderState
  | .ok joined => .fetching manifest manifest.chunkCount joined
  | .error error => .done (.error error)

section Get

variable {reader : Nat} {state : PutRace σ}

include isRace

theorem getChunks_leads {manifest : LargeManifest} {left index : Nat} {out : Bytes}
    (rest : index + left = manifest.chunkCount)
    (stands : state.reader reader = .fetching manifest index out)
    {result : Except RemoteError Bytes} {session : Session σ}
    (ran : getChunks backend display ns manifest left index out state.session = (result, session)) :
    system.Repeats (.get reader) state
      (state.setReader session reader (.fetched manifest result)) := by
  induction left generalizing index out state with
  | zero =>
    cases ran
    obtain rfl : index = manifest.chunkCount := rest
    exact ⟨0, congrArg some (PutRace.setReader_self stands).symm⟩
  | succ left ih =>
    have more : index < manifest.chunkCount := by omega
    have step : ∀ {answer between}, getSmallKv backend display ns (largeChunkKey manifest.id index)
        state.session = (answer, between) → system.Repeats (.get reader) state
          (state.setReader between reader (.fetch manifest index out between answer)) := by
      intro answer between first
      refine .one ?_
      simp only [isRace, putRace, PutRace.get, stands, if_pos more, first, PutRace.setReader]
    rw [getChunks] at ran
    rcases first : getSmallKv backend display ns (largeChunkKey manifest.id index) state.session
      with ⟨error | ⟨tier, bytes⟩ | _, between⟩
    · rw [bind_error first] at ran
      cases ran
      exact step first
    · rw [bind_ok first] at ran
      simp only [get_bind_apply] at ran
      have later := @ih (state.setReader between reader
        (.fetching manifest (index + 1) (out ++ bytes.read between))) _ _ (by omega) (by simp) ran
      rw [PutRace.setReader_setReader] at later
      exact (step first).trans later
    · rw [bind_ok first] at ran
      cases ran
      exact step first

theorem getKv_leads (stands : state.reader reader = .idle)
    {result : Except RemoteError RemoteGetOutcome} {session : Session σ}
    (ran : getKv backend display ns key state.session = (result, session)) :
    system.Repeats (.get reader) state
      (state.setReader session reader (.done (result.map (·.look session)))) := by
  have step : ∀ {answer between}, getSmallKv backend display ns key state.session =
      (answer, between) → system.Repeats (.get reader) state
        (state.setReader between reader (.begin between answer)) := by
    intro answer between first
    refine .one ?_
    simp only [isRace, putRace, PutRace.get, stands, first, PutRace.setReader]
  rw [getKv] at ran
  rcases first : getSmallKv backend display ns key state.session with
    ⟨error | ⟨tier, bytes⟩ | _, between⟩
  · rw [bind_error first] at ran
    cases ran
    exact step first
  · rw [bind_ok first] at ran
    simp only [get_bind_apply] at ran
    have begun := step first
    rw [ReaderState.begin] at begun
    cases shape : parseLargeManifest (bytes.read between) with
    | none =>
      simp only [shape] at ran begun
      cases ran
      exact begun
    | some manifest =>
      simp only [shape] at ran begun
      rw [getLargeKv] at ran
      by_cases long : maxVecBytes < manifest.totalLen
      · rw [if_pos long] at ran begun
        cases ran
        exact begun
      rw [if_neg long] at ran begun
      beta_reduce at ran
      rcases fetched : getChunks backend display ns manifest manifest.chunkCount 0 [] between with
        ⟨error | joined, later⟩
      all_goals
        have chunks := @getChunks_leads _ backend display blake3 ns key payloads start system isRace
          reader (state.setReader between reader (.fetching manifest 0 [])) manifest
          manifest.chunkCount 0 [] (Nat.zero_add _) (by simp) _ _ fetched
        rw [PutRace.setReader_setReader] at chunks
      · rw [bind_error fetched] at ran
        cases ran
        exact begun.trans chunks
      · -- With the last chunk, only the length is looked at.
        rw [bind_ok fetched] at ran
        have last : system.step
            (state.setReader later reader (.fetching manifest manifest.chunkCount joined))
            (.get reader) = some (state.setReader session reader
              (.done (result.map (·.look session)))) := by
          simp only [isRace, putRace, PutRace.get, PutRace.setReader_reader, lt_irrefl, if_false,
            ReaderState.finish]
          split at ran
          all_goals
            rename_i length
            cases ran
            simp only [length, ne_eq, not_false_eq_true, if_true, if_false,
              PutRace.setReader, Function.update_idem]
            rfl
        exact (begun.trans chunks).trans (.one last)
  · rw [bind_ok first] at ran
    cases ran
    exact step first

end Get

end

open Call RemoteKvStoreClient

variable {σ : Type} {backend : KvBackend σ} {display : WireCodecError → Text}
variable {contents : σ → Contents} {blake3 : Bytes → BlockHash} {ns key : Text}
variable {payloads : List Bytes} {payload : Bytes} {published : Bytes → Prop}

theorem parseLargeManifest_manifestFor (word : payload.length ≤ maxVecBytes) :
    parseLargeManifest (utf8 (manifestFor blake3 ns key payload)) =
      some ⟨largePayloadId blake3 ns key payload, payload.length, chunkCount payload⟩ :=
  have word : payload.length < wordLimit := Nat.lt_of_le_of_lt word (by decide)
  parseLargeManifest_largeManifest (not_mem_hexLower (by decide) _)
    (not_mem_hexLower (by decide) _) word (Nat.lt_of_le_of_lt (chunkCount_le payload) word)

theorem not_crashes_manifestFor {setup : Option ArenaSetup}
    (word : payload.length ≤ maxVecBytes) :
    ¬ Crashes setup (utf8 (manifestFor blake3 ns key payload)) := by
  rintro ⟨-, manifest, -, parsed, -, long⟩
  cases (parseLargeManifest_manifestFor word).symm.trans parsed
  exact absurd long (not_lt.mpr word)

theorem Contents.assemble_chunks {held : Contents} {ns id : Text} {payload : Bytes}
    (present : ∀ index < chunkCount payload,
      held ns (largeChunkKey id index) = some (payloadChunk payload index))
    (word : payload.length ≤ maxVecBytes) :
    held.assemble ns ⟨id, payload.length, chunkCount payload⟩ = some payload := by
  have all := @Contents.chunks_eq_some held ns id (payloadChunk payload) (chunkCount payload) 0 []
    (by simpa using present)
  have joined : held.chunks ns id (chunkCount payload) 0 [] = some payload := by
    simpa [flatMap_payloadChunk] using all
  exact Contents.assemble_eq_some.mpr ⟨joined, rfl, word⟩

def Chunked (blake3 : Bytes → BlockHash) (ns key : Text) (held : Contents) (payload : Bytes)
    (count : Nat) : Prop :=
  ∀ index < count, held ns (largeChunkKey (largePayloadId blake3 ns key payload) index) =
    some (payloadChunk payload index)

def WriterState.Backed (blake3 : Bytes → BlockHash) (ns key : Text) (held : Contents)
    (payload : Bytes) : WriterState → Prop
  | .sending next => next ≤ chunkCount payload ∧ Chunked blake3 ns key held payload next
  | .published => Chunked blake3 ns key held payload (chunkCount payload)
  | .stopped => True

def ReaderState.Backed (blake3 : Bytes → BlockHash) (ns key : Text) (published : Bytes → Prop) :
    ReaderState → Prop
  | .idle => True
  | .fetching manifest next out => ∃ payload, published payload ∧
      manifest = ⟨largePayloadId blake3 ns key payload, payload.length, chunkCount payload⟩ ∧
      next ≤ chunkCount payload ∧ out = (List.range next).flatMap (payloadChunk payload)
  | .done result => result = .ok none ∨ ∃ payload, published payload ∧ result = .ok (some payload)

def PutRace.Published (payloads : List Bytes) (state : PutRace σ) (payload : Bytes) : Prop :=
  ∃ writer, payloads[writer]? = some payload ∧ state.writer writer = .published

def Visible (blake3 : Bytes → BlockHash) (ns key : Text) (published : Bytes → Prop)
    (held : Contents) : Prop :=
  held ns key = none ∨ ∃ payload, published payload ∧
    held ns key = some (utf8 (manifestFor blake3 ns key payload))

structure PutRace.Coherent (contents : σ → Contents) (blake3 : Bytes → BlockHash) (ns key : Text)
    (payloads : List Bytes) (state : PutRace σ) : Prop where
  writers : ∀ writer payload, payloads[writer]? = some payload →
    (state.writer writer).Backed blake3 ns key (contents state.session.daemon.store) payload
  visible : Visible blake3 ns key (state.Published payloads) (contents state.session.daemon.store)
  readers : ∀ reader, (state.reader reader).Backed blake3 ns key (state.Published payloads)

theorem PutRace.Coherent.chunked {state : PutRace σ}
    (coherent : state.Coherent contents blake3 ns key payloads)
    (published : state.Published payloads payload) :
    Chunked blake3 ns key (contents state.session.daemon.store) payload (chunkCount payload) := by
  obtain ⟨writer, own, there⟩ := published
  have backed := coherent.writers writer payload own
  rw [there] at backed
  exact backed

theorem Visible.mono {wider : Bytes → Prop} (implied : ∀ payload, published payload → wider payload)
    {held : Contents} (visible : Visible blake3 ns key published held) :
    Visible blake3 ns key wider held :=
  visible.imp id fun ⟨payload, there, seen⟩ => ⟨payload, implied payload there, seen⟩

theorem ReaderState.Backed.mono {wider : Bytes → Prop}
    (implied : ∀ payload, published payload → wider payload) {reader : ReaderState}
    (backed : reader.Backed blake3 ns key published) : reader.Backed blake3 ns key wider := by
  cases reader with
  | idle => trivial
  | fetching manifest next out =>
    obtain ⟨payload, there, rest⟩ := backed
    exact ⟨payload, implied payload there, rest⟩
  | done result =>
    refine backed.imp id ?_
    rintro ⟨payload, there, rest⟩
    exact ⟨payload, implied payload there, rest⟩

theorem WriterState.request_cases {from_ next : WriterState} {asked : Text} {value : Bytes}
    (request : from_.request blake3 ns key payload = some (asked, value, next)) :
    (∃ index, from_ = .sending index ∧ index < chunkCount payload ∧
      asked = largeChunkKey (largePayloadId blake3 ns key payload) index ∧
      value = payloadChunk payload index ∧ next = .sending (index + 1)) ∨
    (∃ index, from_ = .sending index ∧ chunkCount payload ≤ index ∧ asked = key ∧
      value = utf8 (manifestFor blake3 ns key payload) ∧ next = .published) := by
  cases from_ with
  | published => cases request
  | stopped => cases request
  | sending index =>
    simp only [WriterState.request] at request
    split at request
    · rename_i below
      cases request
      exact .inl ⟨index, rfl, below, rfl, rfl, rfl⟩
    · rename_i all
      cases request
      exact .inr ⟨index, rfl, not_lt.mp all, rfl, rfl, rfl⟩

theorem PutRace.put_cases {state after : PutRace σ} {writer : Nat}
    (made : state.put backend display blake3 ns key payload writer = some after) :
    ∃ asked value next session,
      (state.writer writer).request blake3 ns key payload = some (asked, value, next) ∧
      ((∃ error, putSmallKv backend display ns asked value state.session = (.error error, session) ∧
        after = ⟨session, Function.update state.writer writer .stopped, state.reader⟩) ∨
      (putSmallKv backend display ns asked value state.session = (.ok (), session) ∧
        after = ⟨session, Function.update state.writer writer next, state.reader⟩)) := by
  obtain ⟨⟨asked, value, next⟩, request, rfl⟩ := Option.map_eq_some_iff.mp made
  rcases ran : putSmallKv backend display ns asked value state.session with ⟨error | _, session⟩
  · exact ⟨asked, value, next, session, request, .inl ⟨error, ran, by simp only [ran]; rfl⟩⟩
  · exact ⟨asked, value, next, session, request, .inr ⟨ran, by simp only [ran]; rfl⟩⟩

theorem ReaderState.Backed.finish {manifest : LargeManifest} {next : Nat} {out : Bytes}
    (backed : (ReaderState.fetching manifest next out).Backed blake3 ns key published)
    (all : ¬ next < manifest.chunkCount) :
    (ReaderState.finish manifest out).Backed blake3 ns key published := by
  obtain ⟨payload, there, rfl, upTo, rfl⟩ := backed
  obtain rfl : next = chunkCount payload := Nat.le_antisymm upTo (not_lt.mp all)
  simp only [ReaderState.finish, flatMap_payloadChunk, ne_eq, not_true_eq_false, if_false]
  exact .inr ⟨payload, there, rfl⟩

structure RacePayloads (blake3 : Bytes → BlockHash) (ns key : Text) (payloads : List Bytes) :
    Prop where
  user : ¬ largeChunkKeyPrefix <+: key
  word : ∀ payload ∈ payloads, payload.length ≤ maxVecBytes
  shape : ∀ payload ∈ payloads, parseLargeManifest payload = none
  collisionFree : ∀ payload ∈ payloads, ∀ other ∈ payloads,
    blake3 (largePayloadInput ns key payload) = blake3 (largePayloadInput ns key other) →
      largePayloadInput ns key payload = largePayloadInput ns key other

section Steps

variable (given : RacePayloads blake3 ns key payloads) {held : Contents} {payload value : Bytes}
  {state : PutRace σ}

include given

theorem Chunked.store_chunk {other : Bytes} {count : Nat} (member : payload ∈ payloads)
    (member' : other ∈ payloads) (index : Nat) (chunked : Chunked blake3 ns key held payload count) :
    Chunked blake3 ns key (held.store ns (largeChunkKey (largePayloadId blake3 ns key other) index)
      (payloadChunk other index)) payload count := by
  intro number below
  by_cases same : largeChunkKey (largePayloadId blake3 ns key payload) number =
      largeChunkKey (largePayloadId blake3 ns key other) index
  · -- Chunks under one key are the same chunk of one payload.
    obtain ⟨name, rfl⟩ := largeChunkKey_inj (by simp) same
    have hashed := given.collisionFree payload member other member'
      (blake3_eq_of_largePayloadId blake3 name)
    rw [same, Contents.store_same, largePayloadInput_payload hashed]
  · rw [Contents.store_other fun both => same both.2]
    exact chunked number below

theorem Chunked.store_key {count : Nat} (chunked : Chunked blake3 ns key held payload count) :
    Chunked blake3 ns key (held.store ns key value) payload count := by
  intro number below
  have apart : ¬ (ns = ns ∧ largeChunkKey (largePayloadId blake3 ns key payload) number = key) :=
    fun both => given.user (both.2 ▸ largeChunkKey_reserved _ _)
  rw [Contents.store_other apart]
  exact chunked number below

theorem WriterState.Backed.store {other : Bytes} (member : payload ∈ payloads)
    (member' : other ∈ payloads) {from_ next : WriterState} {asked : Text}
    (request : from_.request blake3 ns key other = some (asked, value, next)) {writer : WriterState}
    (backed : writer.Backed blake3 ns key held payload) :
    writer.Backed blake3 ns key (held.store ns asked value) payload := by
  have stays : ∀ count, Chunked blake3 ns key held payload count →
      Chunked blake3 ns key (held.store ns asked value) payload count := by
    intro count chunked
    rcases WriterState.request_cases request with
      ⟨index, -, -, rfl, rfl, -⟩ | ⟨index, -, -, rfl, rfl, -⟩
    · exact chunked.store_chunk given member member' index
    · exact chunked.store_key given
  cases writer with
  | sending next => exact ⟨backed.1, stays next backed.2⟩
  | published => exact stays _ backed
  | stopped => trivial

theorem WriterState.Backed.next (member : payload ∈ payloads) {from_ next : WriterState}
    {asked : Text} (request : from_.request blake3 ns key payload = some (asked, value, next))
    (backed : from_.Backed blake3 ns key held payload) :
    next.Backed blake3 ns key (held.store ns asked value) payload := by
  have kept := backed.store given member member request
  rcases WriterState.request_cases request with
    ⟨index, rfl, below, rfl, rfl, rfl⟩ | ⟨index, rfl, all, rfl, rfl, rfl⟩
  · refine ⟨below, fun number upTo => ?_⟩
    rcases Nat.lt_succ_iff_lt_or_eq.mp upTo with before | rfl
    · exact kept.2 number before
    · exact Contents.store_same _ _ _ _
  · have whole : index = chunkCount payload := Nat.le_antisymm backed.1 all
    have chunked := kept.2
    rw [whole] at chunked
    exact chunked

omit given in
/-- A chunk goes under a key of its own. -/
theorem Visible.store_chunk (user : ¬ largeChunkKeyPrefix <+: key) {id : Text} {index : Nat}
    (visible : Visible blake3 ns key published held) :
    Visible blake3 ns key published (held.store ns (largeChunkKey id index) value) := by
  have apart : ¬ (ns = ns ∧ key = largeChunkKey id index) := fun both =>
    user (both.2 ▸ largeChunkKey_reserved _ _)
  rwa [Visible, Contents.store_other apart]

theorem PutRace.Coherent.put (exact : backend.Exact contents) {after : PutRace σ}
    (coherent : state.Coherent contents blake3 ns key payloads) {writer : Nat}
    (own : payloads[writer]? = some payload)
    (made : state.put backend display blake3 ns key payload writer = some after) :
    after.Coherent contents blake3 ns key payloads := by
  obtain ⟨asked, value, next, session, request, outcome⟩ := PutRace.put_cases made
  have member : payload ∈ payloads := mem_of_getElem? own
  have effect : (putSmallKv backend display ns asked value).Ensures _ state.session :=
    putSmallKv_exact exact ns asked value state.session
  rw [Ensures] at effect
  replace effect := effect.2
  have published : ∀ (stands : WriterState) (other : Bytes), state.Published payloads other →
      PutRace.Published payloads
        ⟨session, Function.update state.writer writer stands, state.reader⟩ other := by
    rintro stands other ⟨by_, their, there⟩
    have unlike : by_ ≠ writer := by
      rintro rfl
      rw [there] at request
      cases request
    exact ⟨by_, their, (Function.update_of_ne unlike _ _).trans there⟩
  have readers := fun (stands : WriterState) reader =>
    (coherent.readers reader).mono (published stands)
  rcases outcome with ⟨error, ran, rfl⟩ | ⟨ran, rfl⟩
  · simp only [ran] at effect
    have others (by_ : Nat) (other : Bytes) (their : payloads[by_]? = some other)
        (backed : (state.writer by_).Backed blake3 ns key (contents session.daemon.store) other) :
        (Function.update state.writer writer .stopped by_).Backed blake3 ns key
          (contents session.daemon.store) other := by
      by_cases same : by_ = writer
      · simp only [same, Function.update_self, WriterState.Backed]
      · rwa [Function.update_of_ne same]
    rcases effect with effect | ⟨crashes, effect⟩
    · -- A request that fails changes nothing in the store.
      refine ⟨fun by_ other their => others by_ other their ?_, ?_, readers _⟩
      · rw [effect]
        exact coherent.writers by_ other their
      · rw [effect]
        exact coherent.visible.mono (published _)
    · -- A worker that dies of its arena has stored the chunk; a manifest is no such request.
      refine ⟨fun by_ other their => others by_ other their ?_, ?_, readers _⟩
      · rw [effect]
        exact (coherent.writers by_ other their).store given (mem_of_getElem? their) member
          request
      · rcases WriterState.request_cases request with
          ⟨index, -, -, rfl, -, -⟩ | ⟨index, -, -, -, rfl, -⟩
        · rw [effect]
          exact (coherent.visible.mono (published _)).store_chunk given.user
        · exact absurd crashes (not_crashes_manifestFor (given.word payload member))
  · simp only [ran] at effect
    refine ⟨fun by_ other their => ?_, ?_, readers _⟩
    · by_cases same : by_ = writer
      · subst same
        cases own.symm.trans their
        simp only [Function.update_self, effect]
        exact (coherent.writers by_ payload own).next given member request
      · simp only [Function.update_of_ne same, effect]
        exact (coherent.writers by_ other their).store given (mem_of_getElem? their) member
          request
    · simp only [effect]
      rcases WriterState.request_cases request with
        ⟨index, -, -, rfl, -, -⟩ | ⟨index, -, -, rfl, rfl, rfl⟩
      · exact (coherent.visible.mono (published _)).store_chunk given.user
      · exact .inr ⟨payload, ⟨writer, own, Function.update_self ..⟩, Contents.store_same _ _ _ _⟩

theorem PutRace.Coherent.seen (coherent : state.Coherent contents blake3 ns key payloads)
    (held : contents state.session.daemon.store ns key = some value) :
    ∃ payload, state.Published payloads payload ∧
      parseLargeManifest value =
        some ⟨largePayloadId blake3 ns key payload, payload.length, chunkCount payload⟩ ∧
      (contents state.session.daemon.store).payloadAt ns key = some payload := by
  rcases coherent.visible with nothing | ⟨payload, published, there⟩
  · rw [nothing] at held
    cases held
  · obtain rfl : utf8 (manifestFor blake3 ns key payload) = value := by
      rw [there] at held
      exact Option.some.inj held
    have member : payload ∈ payloads := mem_of_getElem? published.choose_spec.1
    have parsed := @parseLargeManifest_manifestFor blake3 ns key payload (given.word payload member)
    refine ⟨payload, published, parsed, ?_⟩
    rw [Contents.payloadAt, held, Option.bind_some, Contents.resolve, parsed]
    exact Contents.assemble_chunks (coherent.chunked published) (given.word payload member)

theorem PutRace.Coherent.begin (coherent : state.Coherent contents blake3 ns key payloads)
    (agrees : TiersAgree backend display ns key contents key state.session)
    {result : Except RemoteError RemoteGetOutcome} {session : Session σ}
    (ran : getSmallKv backend display ns key state.session = (result, session)) :
    (ReaderState.begin session result).Backed blake3 ns key (state.Published payloads) := by
  simp only [TiersAgree, ran] at agrees
  rcases result with error | ⟨tier, bytes⟩ | _
  · exact agrees.elim
  · rcases agrees with inline | ⟨-, referred⟩
    · obtain ⟨payload, published, parsed, -⟩ := coherent.seen given inline
      have word := given.word payload (mem_of_getElem? published.choose_spec.1)
      simp only [ReaderState.begin, parsed, if_neg (not_lt.mpr word)]
      exact ⟨payload, published, rfl, Nat.zero_le _, rfl⟩
    · -- Where the answer is the payload itself, it is not taken for a manifest.
      obtain ⟨value, held, -⟩ := Option.bind_eq_some_iff.mp referred
      obtain ⟨payload, published, -, stands⟩ := coherent.seen given held
      obtain rfl : payload = bytes.read session := Option.some.inj (stands.symm.trans referred)
      have member := mem_of_getElem? published.choose_spec.1
      simp only [ReaderState.begin, given.shape _ member]
      exact .inr ⟨_, published, rfl⟩
  · exact .inl rfl

theorem PutRace.Coherent.fetch (coherent : state.Coherent contents blake3 ns key payloads)
    {manifest : LargeManifest} {next : Nat} {out : Bytes}
    (backed : (ReaderState.fetching manifest next out).Backed blake3 ns key (state.Published
      payloads)) (more : next < manifest.chunkCount)
    (agrees : TiersAgree backend display ns key contents (largeChunkKey manifest.id next)
      state.session) {result : Except RemoteError RemoteGetOutcome} {session : Session σ}
    (ran : getSmallKv backend display ns (largeChunkKey manifest.id next) state.session = (result,
      session)) :
    (ReaderState.fetch manifest next out session result).Backed blake3 ns key
      (state.Published payloads) := by
  obtain ⟨payload, published, rfl, -, rfl⟩ := backed
  have there := coherent.chunked published next more
  simp only [TiersAgree, ran, there] at agrees
  rcases result with error | ⟨tier, bytes⟩ | _
  · exact agrees.elim
  · have chunk : payloadChunk payload next = bytes.read session := by
      rcases agrees with inline | ⟨same, -⟩
      · exact Option.some.inj inline
      · exact absurd (same ▸ largeChunkKey_reserved _ _) given.user
    refine ⟨payload, published, rfl, more, ?_⟩
    rw [range_succ, flatMap_append, flatMap_singleton, chunk]
  · cases agrees

theorem PutRace.Coherent.get (exact : backend.Exact contents) {state after : PutRace σ}
    (coherent : state.Coherent contents blake3 ns key payloads) {reader : Nat}
    (agrees : StepAgrees backend display ns key contents state (.get reader))
    (made : state.get backend display ns key reader = some after) :
    after.Coherent contents blake3 ns key payloads := by
  have reached : ∀ (session : Session σ) (stands : ReaderState),
      contents session.daemon.store = contents state.session.daemon.store →
      stands.Backed blake3 ns key (state.Published payloads) →
      PutRace.Coherent contents blake3 ns key payloads
        ⟨session, state.writer, Function.update state.reader reader stands⟩ := by
    intro session stands kept backed
    refine ⟨?_, ?_, fun other => ?_⟩
    · rw [kept]
      exact coherent.writers
    · rw [kept]
      exact coherent.visible
    · by_cases same : other = reader
      · simp only [same, Function.update_self]
        exact backed
      · simp only [Function.update_of_ne same]
        exact coherent.readers other
  have backed := coherent.readers reader
  rw [PutRace.get] at made
  rw [StepAgrees] at agrees
  cases stands : state.reader reader with
  | idle =>
    simp only [stands, Option.some.injEq] at made agrees
    subst made
    exact reached _ _ (getSmallKv_kept exact ns key state.session)
      (coherent.begin given (agrees key rfl) rfl)
  | fetching manifest next out =>
    rw [stands] at backed
    simp only [stands] at made agrees
    split at made
    · rename_i more
      cases made
      exact reached _ _ (getSmallKv_kept exact ns _ state.session)
        (coherent.fetch given backed more (agrees _ (if_pos more)) rfl)
    · rename_i all
      cases made
      exact reached _ _ rfl (backed.finish all)
  | done result =>
    simp only [stands] at made
    cases made

end Steps

theorem tiersAgree_plain (exact : backend.Exact contents) {session : Session σ}
    (plain : session.Plain) (asked : Text) :
    TiersAgree backend display ns key contents asked session := by
  have found : (getSmallKv backend display ns asked).Ensures _ session :=
    getSmallKv_plain exact plain ns asked
  rw [Ensures] at found
  obtain ⟨-, -, found⟩ := found
  rw [TiersAgree]
  cases held : contents session.daemon.store ns asked with
  | none =>
    simp only [held] at found
    rw [← Prod.eta (getSmallKv backend display ns asked session), found]
  | some payload =>
    simp only [held] at found
    obtain ⟨tier, found⟩ := found
    rw [← Prod.eta (getSmallKv backend display ns asked session), found]
    exact .inl rfl

def newSession : Session Contents := ⟨⟨fun _ _ => none, none⟩, 0, false, false⟩

section Memory

/-- The race is in this state, over a store that holds just this. -/
def RaceAt (blake3 : Bytes → BlockHash) (payloads : List Bytes) (held : Contents)
    (writer : Nat → WriterState) (reader : Nat → ReaderState) : Prop :=
  ∃ session : Session Contents, session.Plain ∧ session.daemon.store = held ∧
    (putRace memoryBackend (fun _ => []) blake3 ['n'] ['k'] payloads newSession).Reachable
      (StepAgrees memoryBackend (fun _ => []) ['n'] ['k'] id) ⟨session, writer, reader⟩

theorem stepAgrees_get {state : PutRace Contents} (reader : Nat) (plain : state.session.Plain) :
    StepAgrees memoryBackend (fun _ => []) ['n'] ['k'] id state (.get reader) :=
  fun asked _ => tiersAgree_plain memoryBackend_exact plain asked

variable {held : Contents} {writer : Nat → WriterState} {reader : Nat → ReaderState}
  (at_ : RaceAt blake3 payloads held writer reader) (index : Nat)

include at_

theorem RaceAt.put (own : payloads[index]? = some payload) {asked : Text} {value : Bytes}
    {next : WriterState} (request : (writer index).request blake3 ['n'] ['k'] payload =
      some (asked, value, next)) :
    RaceAt blake3 payloads (held.store ['n'] asked value) (Function.update writer index next)
      reader := by
  obtain ⟨session, plain, rfl, reached⟩ := at_
  obtain ⟨plain', stored, made⟩ := @putSmallKv_plain _ _ (fun _ => []) _ memoryBackend_exact session
    plain ['n'] asked value
  have ok := made rfl
  simp only [ok] at stored
  have agrees : StepAgrees memoryBackend (fun _ => []) ['n'] ['k'] id ⟨session, writer, reader⟩
      (.put index) := trivial
  refine ⟨_, plain', stored, .step reached agrees ?_⟩
  simp only [putRace, own, Option.bind_some, PutRace.put, request, Option.map_some, ok]
  rfl

theorem RaceAt.asks (idle : reader index = .idle) {value : Bytes}
    (there : held ['n'] ['k'] = some value) {manifest : LargeManifest}
    (parsed : parseLargeManifest value = some manifest) (word : manifest.totalLen ≤ maxVecBytes) :
    RaceAt blake3 payloads held writer
      (Function.update reader index (.fetching manifest 0 [])) := by
  obtain ⟨session, plain, rfl, reached⟩ := at_
  obtain ⟨plain', kept, found⟩ := @getSmallKv_plain _ _ (fun _ => []) _ memoryBackend_exact session
    plain ['n'] ['k']
  simp only [id, there] at found
  obtain ⟨tier, found⟩ := found
  refine ⟨_, plain', kept, .step reached (stepAgrees_get index plain) ?_⟩
  simp only [putRace, PutRace.get, idle, found, ReaderState.begin, ClientBytes.read, parsed,
    if_neg (not_lt.mpr word)]

theorem RaceAt.fetches {manifest : LargeManifest} {next : Nat} {out : Bytes} (chunk : Bytes)
    (stands : reader index = .fetching manifest next out) (more : next < manifest.chunkCount)
    (there : held ['n'] (largeChunkKey manifest.id next) = some chunk) :
    RaceAt blake3 payloads held writer
      (Function.update reader index (.fetching manifest (next + 1) (out ++ chunk))) := by
  obtain ⟨session, plain, rfl, reached⟩ := at_
  obtain ⟨plain', kept, found⟩ := @getSmallKv_plain _ _ (fun _ => []) _ memoryBackend_exact session
    plain ['n'] (largeChunkKey manifest.id next)
  simp only [id, there] at found
  obtain ⟨tier, found⟩ := found
  refine ⟨_, plain', kept, .step reached (stepAgrees_get index plain) ?_⟩
  simp only [putRace, PutRace.get, stands, if_pos more, found, ReaderState.fetch, ClientBytes.read]

theorem RaceAt.finishes {manifest : LargeManifest} {next : Nat} {out : Bytes}
    (stands : reader index = .fetching manifest next out) (all : ¬ next < manifest.chunkCount)
    (length : out.length = manifest.totalLen) :
    RaceAt blake3 payloads held writer
      (Function.update reader index (.done (.ok (some out)))) := by
  obtain ⟨session, plain, rfl, reached⟩ := at_
  refine ⟨session, plain, rfl, .step reached (stepAgrees_get index plain) ?_⟩
  simp only [putRace, PutRace.get, stands, if_neg all, ReaderState.finish, length, ne_eq,
    not_true_eq_false, if_false]

end Memory

/-- Two writers take turns; a reader that finds the first manifest fetches past the second. -/
theorem raceAt_crossed {first second : Bytes} (count : chunkCount first = 2)
    (count' : chunkCount second = 2) (word : first.length ≤ maxVecBytes)
    (word' : second.length ≤ maxVecBytes)
    (unlike : largePayloadId blake3 ['n'] ['k'] first ≠ largePayloadId blake3 ['n'] ['k'] second) :
    ∃ held writer reader, RaceAt blake3 [first, second] held writer reader ∧
      reader 0 = .done (.ok (some first)) ∧ reader 1 = .done (.ok (some second)) := by
  have start : RaceAt blake3 [first, second] (fun _ _ => none) (fun _ => .sending 0)
      (fun _ => .idle) := ⟨newSession, ⟨rfl, rfl⟩, rfl, .start⟩
  have parsed := @parseLargeManifest_manifestFor blake3 ['n'] ['k'] first word
  have parsed' := @parseLargeManifest_manifestFor blake3 ['n'] ['k'] second word'
  have joined : payloadChunk first 0 ++ payloadChunk first 1 = first := by
    simpa [count, range_succ] using flatMap_payloadChunk first
  have joined' : payloadChunk second 0 ++ payloadChunk second 1 = second := by
    simpa [count', range_succ] using flatMap_payloadChunk second
  -- Chunks of the two payloads go under four keys, and none is the key that is put.
  have lengths : (largePayloadId blake3 ['n'] ['k'] first).length =
      (largePayloadId blake3 ['n'] ['k'] second).length := by simp
  have crossed (index number : Nat) :
      largeChunkKey (largePayloadId blake3 ['n'] ['k'] first) index ≠
        largeChunkKey (largePayloadId blake3 ['n'] ['k'] second) number :=
    fun same => unlike (largeChunkKey_inj lengths same).1
  have apart (id : Text) : largeChunkKey id 0 ≠ largeChunkKey id 1 := fun same =>
    absurd (largeChunkKey_inj rfl same).2 Nat.zero_ne_one
  have user (id : Text) (index : Nat) : largeChunkKey id index ≠ ['k'] := fun same =>
    absurd (same ▸ largeChunkKey_reserved id index) (by decide)
  have sent := (((start.put 0 rfl (if_pos (by omega))).put 1 rfl (if_pos (by omega))).put 0 rfl
    (if_pos (by omega))).put 1 rfl (if_pos (by omega))
  have published := sent.put 0 rfl (if_neg (by omega))
  have asked := published.asks 0 rfl (Contents.store_same _ _ _ _) parsed word
  have fetching := asked.fetches 0 (payloadChunk first 0) rfl (by simp [count])
    (by simp [Contents.store, crossed, apart, user])
  have replaced := fetching.put 1 rfl (if_neg (by omega))
  have fetched := replaced.fetches 0 (payloadChunk first 1) rfl (by simp [count])
    (by simp [Contents.store, crossed, user])
  have read := fetched.finishes 0 rfl (by simp [count]) (by simp [joined])
  have asked' := read.asks 1 rfl (Contents.store_same _ _ _ _) parsed' word'
  have fetching' := asked'.fetches 1 (payloadChunk second 0) rfl (by simp [count'])
    (by simp [Contents.store, (crossed _ _).symm, apart, user])
  have fetched' := fetching'.fetches 1 (payloadChunk second 1) rfl (by simp [count'])
    (by simp [Contents.store, user])
  have read' := fetched'.finishes 1 rfl (by simp [count']) (by simp [joined'])
  refine ⟨_, _, _, read', ?_, ?_⟩
  · simp [joined]
  · simp [joined']

/-- A stand-in for the hash that tells payloads with a seven from those without. -/
def sevenHash (bytes : Bytes) : BlockHash := Vector.replicate 32 (if 7 ∈ bytes then 1 else 0)

end WombatKV
