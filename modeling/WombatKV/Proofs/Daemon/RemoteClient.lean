import WombatKV.Proofs.Daemon.ArenaRuns

/-! What the calls of the client do, with an arena or without. -/

namespace WombatKV

open Call

variable {σ : Type} {backend : KvBackend σ} {display : WireCodecError → Text}
variable {contents : σ → Contents} {meaning meaning' : Text → Bytes → Prop}

/-- A client whose calls go on, with slabs that mean what they should. -/
structure Session.Serves (meaning : Text → Bytes → Prop) (session : Session σ) : Prop where
  alive : session.dead = false
  mapped : session.daemon.setup ≠ none → session.arenaMapped = true
  backed : session.daemon.Backed meaning

theorem Session.Serves.next {session : Session σ} (serves : session.Serves meaning)
    {daemon : Daemon σ} (setup : daemon.setup = session.daemon.setup)
    (backed : daemon.Backed meaning') (nextId : UInt64) :
    Session.Serves meaning' { session with daemon, nextId } :=
  ⟨serves.alive, fun there => serves.mapped (setup ▸ there), backed⟩

/-- A client whose calls go on, of a daemon without an arena. -/
structure Session.Plain (session : Session σ) : Prop where
  alive : session.dead = false
  arena : session.daemon.arena = none

theorem Session.Plain.serves {session : Session σ} (plain : session.Plain) :
    session.Serves fun _ _ => True := by
  refine ⟨plain.alive, fun there => absurd (Daemon.setup_eq_none.mpr plain.arena) there, ?_⟩
  intro arena there
  cases plain.arena.symm.trans there

theorem Session.Serves.plain {session : Session σ} (serves : session.Serves meaning)
    (setup : session.daemon.setup = none) : session.Plain :=
  ⟨serves.alive, Daemon.setup_eq_none.mp setup⟩

namespace RemoteKvStoreClient

theorem roundTrip_ok {op : UInt8} {ns key : Text} {payload : Bytes} {session : Session σ}
    {response : WireResponse} {after : Daemon σ} (alive : session.dead = false)
    (ran : dispatch backend display ⟨session.nextId, op, ns, key, payload⟩ session.daemon =
      (some response, after)) (own : response.id = session.nextId) :
    roundTrip backend display op ns key payload session =
      (.ok response, { session with daemon := after, nextId := session.nextId + 1 }) := by
  simp only [roundTrip, get_bind_apply, alive, Bool.false_eq_true, if_false, ran, set_bind_apply,
    own, ne_eq, not_true_eq_false]
  rfl

theorem roundTrip_none {op : UInt8} {ns key : Text} {payload : Bytes} {session : Session σ}
    {after : Daemon σ} (alive : session.dead = false)
    (ran : dispatch backend display ⟨session.nextId, op, ns, key, payload⟩ session.daemon =
      (none, after)) :
    roundTrip backend display op ns key payload session = (.error .timeout,
      { session with daemon := after, nextId := session.nextId + 1, dead := true }) := by
  simp only [roundTrip, get_bind_apply, alive, Bool.false_eq_true, if_false, ran, set_bind_apply]
  rfl

theorem roundTrip_dead {op : UInt8} {ns key : Text} {payload : Bytes} {session : Session σ}
    (dead : session.dead = true) :
    roundTrip backend display op ns key payload session =
      (.error .backendUnavailable, session) := by
  simp only [roundTrip, get_bind_apply, dead, if_true]
  rfl

theorem roundTrip_daemon (op : UInt8) (ns key : Text) (payload : Bytes) (session : Session σ) :
    (roundTrip backend display op ns key payload).Ensures (fun _ after =>
      after.daemon = session.daemon ∨ after.daemon = (dispatch backend display
        ⟨session.nextId, op, ns, key, payload⟩ session.daemon).2) session := by
  cases dead : session.dead with
  | true =>
    rw [Ensures, roundTrip_dead dead]
    exact .inl rfl
  | false =>
    rcases ran : dispatch backend display ⟨session.nextId, op, ns, key, payload⟩ session.daemon with
      ⟨_ | response, after⟩
    · rw [Ensures, roundTrip_none dead ran]
      exact .inr rfl
    · simp only [roundTrip, ensures_bind, ensures_get, andThen_ok, dead, Bool.false_eq_true,
        if_false, ran, ensures_set]
      split <;> exact .inr rfl

theorem responseBytes_state (response : WireResponse) (session : Session σ) :
    (responseBytes response).Ensures (fun _ after => after = session) session := by
  rw [responseBytes]
  split
  · rfl
  · simp only [ensures_bind, ensures_get, andThen_ok]
    split
    · rfl
    · split <;> rfl

theorem responseBytes_read {response : WireResponse} {session : Session σ} {seen : Bytes}
    (mapped : session.daemon.setup ≠ none → session.arenaMapped = true)
    (read : session.daemon.readResponse response = some seen) :
    ∃ bytes, responseBytes response session = (.ok bytes, session) ∧ bytes.read session = seen ∧
      (parseArenaRef response.message = none → bytes = .owned seen) := by
  rw [Daemon.readResponse] at read
  cases parsed : parseArenaRef response.message with
  | none =>
    simp only [parsed, Option.some.injEq] at read
    subst read
    refine ⟨.owned response.payload, ?_, rfl, fun _ => rfl⟩
    rw [responseBytes, parsed]
    rfl
  | some reference =>
    obtain ⟨offset, len⟩ := reference
    simp only [parsed] at read
    obtain ⟨arena, there, -⟩ := Option.bind_eq_some_iff.mp read
    have shared : session.arenaMapped = true :=
      mapped (by rw [Daemon.setup_some there]; exact Option.some_ne_none _)
    refine ⟨.mapped offset len, ?_, ?_, by simp⟩
    · simp only [responseBytes, parsed, get_bind_apply, shared, not_true_eq_false, if_false, read]
      rfl
    · rw [ClientBytes.read, read]
      rfl

theorem getSmallKv_inline {ns key : Text} {session after : Session σ} {response : WireResponse}
    (ran : roundTrip backend display Op.get ns key [] session = (.ok response, after))
    (ok : response.status = Status.ok) (inline : parseArenaRef response.message = none) :
    getSmallKv backend display ns key session =
      (.ok (.hit (parseTier response.message) (.owned response.payload)), after) := by
  rw [getSmallKv, bind_ok ran, if_pos ok, responseBytes, inline]
  rfl

section Effects

variable (exact : backend.Exact contents)

include exact

theorem putSmallKv_exact (ns key : Text) (payload : Bytes) (session : Session σ) :
    (putSmallKv backend display ns key payload).Ensures (fun result after =>
      (session.daemon.arena = none → after.daemon.arena = none) ∧
        match result with
        | .ok _ => contents after.daemon.store =
            (contents session.daemon.store).store ns key payload
        | .error _ => contents after.daemon.store = contents session.daemon.store ∨
            (Crashes session.daemon.setup payload ∧ contents after.daemon.store =
              (contents session.daemon.store).store ns key payload)) session := by
  cases dead : session.dead with
  | true =>
    rw [Ensures, putSmallKv, bind_error (roundTrip_dead dead)]
    exact ⟨id, .inl rfl⟩
  | false =>
    obtain ⟨_, after, ran, kept, ⟨response, rfl, own, made⟩ | ⟨rfl, crashes, stored⟩⟩ :=
      dispatchPut_exact exact ⟨session.nextId, Op.put, ns, key, payload⟩ session.daemon
    · rw [← dispatch_put rfl] at ran
      rw [Ensures, putSmallKv, bind_ok (roundTrip_ok dead ran own)]
      rcases made with ⟨ok, stored⟩ | ⟨failed, same⟩
      · rw [if_pos ok]
        exact ⟨kept, stored⟩
      · rw [if_neg failed]
        exact ⟨kept, .inl same⟩
    · rw [← dispatch_put rfl] at ran
      rw [Ensures, putSmallKv, bind_error (roundTrip_none dead ran)]
      exact ⟨kept, .inr ⟨crashes, stored⟩⟩

theorem getSmallKv_kept (ns key : Text) (session : Session σ) :
    contents (getSmallKv backend display ns key session).2.daemon.store =
      contents session.daemon.store := by
  have kept := dispatchGet_kept exact ⟨session.nextId, Op.get, ns, key, []⟩ session.daemon
  rw [← @dispatch_get _ _ display _ rfl] at kept
  have stays : (getSmallKv backend display ns key).Ensures (fun _ after =>
      contents after.daemon.store = contents session.daemon.store) session := by
    rw [getSmallKv, ensures_bind]
    refine (roundTrip_daemon _ _ _ _ session).weaken fun result after same => ?_
    have same : contents after.daemon.store = contents session.daemon.store := by
      rcases same with same | same
      · rw [same]
      · rw [same, kept]
    rcases result with error | response
    · exact same
    · rw [andThen_ok]
      split
      · rw [ensures_bind]
        refine (responseBytes_state response after).weaken ?_
        rintro (error | bytes) last rfl
        · exact same
        · exact same
      · split <;> exact same
  exact stays

variable {session : Session σ} (serves : session.Serves meaning) {ns key : Text}

include serves

/-- A put stores the payload and leaves right slabs, fails without effect, or kills the worker. -/
theorem putSmallKv_backed {payload : Bytes}
    (keeps : ∀ (arena : ArenaShared) (name : Text) slab bytes,
      session.daemon.arena = some arena → arena.slabs[name]? = some slab → meaning name bytes →
      meaning' name bytes ∨ (name = arenaKey ns key ∧ ∃ whole,
        Taken ((contents session.daemon.store).store ns key payload) session.daemon.setup ns
          payload whole))
    (own : ∀ whole, Taken ((contents session.daemon.store).store ns key payload)
      session.daemon.setup ns payload whole → meaning' (arenaKey ns key) whole) :
    (putSmallKv backend display ns key payload).Ensures (fun result after =>
      after.daemon.setup = session.daemon.setup ∧
        (((∃ error, result = .error error) ∧ after.Serves meaning ∧
            contents after.daemon.store = contents session.daemon.store ∧
            (backend.putKv ns key payload session.daemon.store).1 ≠ .ok ()) ∨
          (result = .ok () ∧ after.Serves meaning' ∧ contents after.daemon.store =
            (contents session.daemon.store).store ns key payload) ∨
          ((∃ error, result = .error error) ∧ Crashes session.daemon.setup payload))) session := by
  obtain ⟨_, after, ran, setup, ⟨response, rfl, id, failed, same, backed, refused⟩ |
    ⟨stored, backed, ⟨response, rfl, id, ok⟩ | ⟨rfl, crashes⟩⟩⟩ :=
    @dispatchPut_slabs _ _ _ _ _ exact _ ⟨session.nextId, Op.put, ns, key, payload⟩ serves.backed
      keeps own
  all_goals rw [← dispatch_put rfl] at ran
  · rw [Ensures, putSmallKv, bind_ok (roundTrip_ok serves.alive ran id), if_neg failed]
    exact ⟨setup, .inl ⟨⟨_, rfl⟩, serves.next setup backed _, same, refused⟩⟩
  · rw [Ensures, putSmallKv, bind_ok (roundTrip_ok serves.alive ran id), if_pos ok]
    exact ⟨setup, .inr (.inl ⟨rfl, serves.next setup backed _, stored⟩)⟩
  · rw [Ensures, putSmallKv, bind_error (roundTrip_none serves.alive ran)]
    exact ⟨setup, .inr (.inr ⟨⟨_, rfl⟩, crashes⟩)⟩

/-- A get is a miss, a hit with what is stored or with what a slab means, or its end. -/
theorem getSmallKv_backed (own : ∀ value whole, contents session.daemon.store ns key = some value →
      Taken (contents session.daemon.store) session.daemon.setup ns value whole →
        meaning (arenaKey ns key) whole) :
    (getSmallKv backend display ns key).Ensures (fun result after =>
      after.daemon.setup = session.daemon.setup ∧
        contents after.daemon.store = contents session.daemon.store ∧
        (((∃ error, result = .error error) ∧ ∃ value,
            contents session.daemon.store ns key = some value ∧
              Crashes session.daemon.setup value) ∨
          (after.Serves meaning ∧
            ((result = .ok .miss ∧ contents session.daemon.store ns key = none) ∨
              ∃ tier bytes, result = .ok (.hit tier bytes) ∧
                ((∃ value, contents session.daemon.store ns key = some value ∧
                    bytes = .owned value) ∨
                  (session.daemon.setup ≠ none ∧
                    meaning (arenaKey ns key) (bytes.read after))))))) session := by
  obtain ⟨_, after, ran, kept, setup, backed, ⟨rfl, crashes⟩ | ⟨rfl, missing⟩ |
    ⟨response, seen, rfl, id, ok, read, found⟩⟩ :=
    @dispatchGet_slabs _ _ _ _ exact _ serves.backed ⟨session.nextId, Op.get, ns, key, []⟩ own
  all_goals rw [← dispatch_get rfl] at ran
  · rw [Ensures, getSmallKv, bind_error (roundTrip_none serves.alive ran)]
    exact ⟨setup, kept, .inl ⟨⟨_, rfl⟩, crashes⟩⟩
  · rw [Ensures, getSmallKv, bind_ok (roundTrip_ok serves.alive ran rfl)]
    exact ⟨setup, kept, .inr ⟨serves.next setup backed _, .inl ⟨rfl, missing⟩⟩⟩
  · have serves' := serves.next setup backed (session.nextId + 1)
    obtain ⟨bytes, answers, reads, inline⟩ := responseBytes_read serves'.mapped read
    rw [Ensures, getSmallKv, bind_ok (roundTrip_ok serves.alive ran id), if_pos ok, bind_ok answers]
    refine ⟨setup, kept, .inr ⟨serves', .inr ⟨_, bytes, rfl, ?_⟩⟩⟩
    rcases found with ⟨plain, stored⟩ | ⟨there, means⟩
    · exact .inl ⟨seen, stored, inline plain⟩
    · exact .inr ⟨there, reads.symm ▸ means⟩

end Effects

section Plain

variable (exact : backend.Exact contents) {session : Session σ} (plain : session.Plain)

include exact plain

theorem putSmallKv_plain (ns key : Text) (payload : Bytes) :
    (putSmallKv backend display ns key payload).Ensures (fun result after =>
      after.Plain ∧ (contents after.daemon.store =
        match result with
        | .ok _ => (contents session.daemon.store).store ns key payload
        | .error _ => contents session.daemon.store) ∧
      ((backend.putKv ns key payload session.daemon.store).1 = .ok () → result = .ok ()))
      session := by
  have setup := Daemon.setup_eq_none.mpr plain.arena
  refine (putSmallKv_backed exact plain.serves
    (fun _ _ _ _ _ _ means => .inl means) fun _ _ => trivial).weaken ?_
  rintro _ after ⟨same, ⟨⟨error, rfl⟩, serves, kept, refused⟩ | ⟨rfl, serves, stored⟩ |
    ⟨-, sizes, -, there, -⟩⟩
  · exact ⟨serves.plain (same.trans setup), kept, fun stores => absurd stores refused⟩
  · exact ⟨serves.plain (same.trans setup), stored, fun _ => rfl⟩
  · cases setup.symm.trans there

theorem getSmallKv_plain (ns key : Text) :
    (getSmallKv backend display ns key).Ensures (fun result after =>
      after.Plain ∧ contents after.daemon.store = contents session.daemon.store ∧
        match contents session.daemon.store ns key with
        | none => result = .ok .miss
        | some payload => ∃ tier, result = .ok (.hit tier (.owned payload))) session := by
  have setup := Daemon.setup_eq_none.mpr plain.arena
  refine (getSmallKv_backed exact plain.serves
    fun _ _ _ _ => trivial).weaken ?_
  rintro _ after ⟨same, kept, ⟨-, value, -, sizes, -, there, -⟩ | ⟨serves, ⟨rfl, missing⟩ |
    ⟨tier, bytes, rfl, ⟨value, held, rfl⟩ | ⟨there, -⟩⟩⟩⟩
  · cases setup.symm.trans there
  · exact ⟨serves.plain (same.trans setup), kept, by simp only [missing]⟩
  · exact ⟨serves.plain (same.trans setup), kept, by simp only [held]; exact ⟨tier, rfl⟩⟩
  · exact absurd setup there

end Plain

end RemoteKvStoreClient

end WombatKV
