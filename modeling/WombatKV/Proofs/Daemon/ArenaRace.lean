import WombatKV.Proofs.Daemon.ArenaRuns

/-! Slabs never cross keys, if no wrap overtakes one on its way. -/

namespace WombatKV

open Call

namespace ArenaRace

def StoredMeaning (stored : List ClientPut) (name : Text) (bytes : Bytes) : Prop :=
  ∃ ns key, '\x00' ∉ ns ∧ name = arenaKey ns key ∧ ⟨ns, key, bytes⟩ ∈ stored

def Pending (stored : List ClientPut) (writer : ArenaWriter) : SlabWork → Prop
  | .idle => True
  | .writing ns key bytes _ => StoredMeaning stored (arenaKey ns key) bytes
  | .inserting ns key slab =>
    ∃ bytes, StoredMeaning stored (arenaKey ns key) bytes ∧ writer.Holds slab bytes

structure Sound (race : ArenaRace) : Prop where
  backed : race.arena.Backed (StoredMeaning race.stored)
  pending : ∀ worker, Pending race.stored race.arena.writer (race.worker worker)

variable {stored : List ClientPut}

theorem StoredMeaning.append {name : Text} {bytes : Bytes} (put : ClientPut)
    (means : StoredMeaning stored name bytes) : StoredMeaning (stored ++ [put]) name bytes := by
  obtain ⟨ns, key, plain, same, member⟩ := means
  exact ⟨ns, key, plain, same, List.mem_append_left _ member⟩

theorem Pending.append {writer : ArenaWriter} {work : SlabWork} (put : ClientPut)
    (pending : Pending stored writer work) : Pending (stored ++ [put]) writer work := by
  cases work with
  | idle => trivial
  | writing ns key bytes tier => exact StoredMeaning.append put pending
  | inserting ns key slab =>
    obtain ⟨bytes, means, holds⟩ := pending
    exact ⟨bytes, means.append put, holds⟩

theorem Pending.kept {writer after : ArenaWriter} {work : SlabWork}
    (stays : (∃ ns key slab, work = .inserting ns key slab) → ∀ slab bytes, writer.Holds slab bytes
      → after.Holds slab bytes) (pending : Pending stored writer work) :
    Pending stored after work := by
  cases work with
  | idle => trivial
  | writing ns key bytes tier => exact pending
  | inserting ns key slab =>
    obtain ⟨bytes, means, holds⟩ := pending
    exact ⟨bytes, means, stays ⟨ns, key, slab, rfl⟩ slab bytes holds⟩

variable {race after : ArenaRace}

theorem Sound.written (sound : race.Sound) {bytes : Bytes}
    (safe : race.arena.Wraps bytes → race.Settled) (tier : UInt8) :
    (writeArenaPayload bytes tier).Ensures (fun result arena =>
      arena.Backed (StoredMeaning race.stored) ∧
      (∀ worker, Pending race.stored arena.writer (race.worker worker)) ∧
      ∀ slab, result = .ok (some slab) → arena.writer.Holds slab bytes) race.arena := by
  refine (writeArenaPayload_backed sound.backed bytes tier).weaken ?_
  rintro result arena ⟨-, -, backed, stays, written⟩
  refine ⟨backed, fun worker => (sound.pending worker).kept ?_, ?_⟩
  · rintro ⟨ns, key, slab, work⟩
    exact stays fun wraps => safe wraps worker ns key slab work
  · rintro slab rfl
    rcases written with ⟨-, none, -⟩ | ⟨other, same, -, holds, -⟩
    · exact absurd rfl (none slab)
    · cases same
      exact holds

theorem Sound.step {label : LockStep} (sound : race.Sound) (safe : race.Safe label)
    (made : race.step label = some after) : after.Sound := by
  cases label with
  | begin worker ns key bytes tier =>
    simp only [ArenaRace.step] at made
    split at made
    case h_2 => cases made
    cases made
    refine ⟨sound.backed.mono fun name slab bytes _ means => means.append _, fun other => ?_⟩
    by_cases same : other = worker
    · simp only [same, Function.update_self]
      exact ⟨ns, key, safe, rfl, List.mem_append_right _ (List.mem_singleton.mpr rfl)⟩
    · simp only [Function.update_of_ne same]
      exact (sound.pending other).append _
  | write worker =>
    simp only [ArenaRace.step] at made
    split at made
    case h_2 => cases made
    rename_i ns key bytes tier work
    have effect : (writeArenaPayload bytes tier).Ensures _ race.arena :=
      sound.written (safe ns key bytes tier work) tier
    have means : StoredMeaning race.stored (arenaKey ns key) bytes := by
      have pending := sound.pending worker
      rwa [work] at pending
    rcases ran : writeArenaPayload bytes tier race.arena with ⟨result, arena⟩
    rw [Ensures, ran] at effect
    simp only [ran] at made
    cases made
    obtain ⟨backed, pending, holds⟩ := effect
    refine ⟨backed, fun other => ?_⟩
    by_cases same : other = worker
    · simp only [same, Function.update_self]
      rcases result with error | _ | slab
      · trivial
      · trivial
      · exact ⟨bytes, means, holds slab rfl⟩
    · simp only [Function.update_of_ne same]
      exact pending other
  | insert worker =>
    simp only [ArenaRace.step] at made
    split at made
    case h_2 => cases made
    rename_i ns key slab work
    cases made
    have pending := sound.pending worker
    rw [work] at pending
    obtain ⟨bytes, means, holds⟩ := pending
    have except : race.arena.Backed fun name bytes =>
        name ≠ arenaKey ns key → StoredMeaning race.stored name bytes :=
      sound.backed.mono fun _ _ _ _ means _ => means
    refine ⟨except.insert holds means, fun other => ?_⟩
    by_cases same : other = worker
    · simp only [same, Function.update_self]
      trivial
    · simp only [Function.update_of_ne same]
      exact sound.pending other
  | lookup ns key =>
    cases made
    exact sound
  | batch bytes tier =>
    have effect : (writeArenaPayload bytes tier).Ensures _ race.arena := sound.written safe tier
    cases made
    exact ⟨effect.1, effect.2.1⟩
  | clear =>
    cases made
    exact ⟨sound.backed.cleared _, sound.pending⟩

end ArenaRace

/-- Slabs never cross keys. -/
theorem slabs_hold_their_keys {size minBytes : Nat} (room : arenaHeaderBytes < size)
    (words : size ≤ 2 ^ 32) {race : ArenaRace}
    (reached : (arenaRace size minBytes).Reachable ArenaRace.Safe race) {ns key : Text}
    (plain : '\x00' ∉ ns) {slab : ArenaSlab}
    (found : lookupArenaSlab race.arena ns key = some slab) :
    ∃ bytes, ⟨ns, key, bytes⟩ ∈ race.stored ∧
      race.arena.writer.readPayload slab.offset slab.len = some bytes := by
  have sound : race.Sound := by
    refine reached.invariant ⟨⟨ArenaWriter.create_wellFormed room, words, ?_⟩, fun _ => trivial⟩
      fun before label after sound safe made => sound.step safe made
    intro name slab none
    simp [arenaRace] at none
  obtain ⟨bytes, ⟨ns', key', plain', same, member⟩, holds⟩ := sound.backed.slabs _ slab found
  obtain ⟨rfl, rfl⟩ := arenaKey_inj plain plain' same
  exact ⟨bytes, member, holds.readPayload sound.backed.formed⟩

def ArenaRace.straight (race : ArenaRace) : LockStep → Bool
  | .begin _ ns _ _ _ => !ns.contains '\x00'
  | .write worker =>
    match race.worker worker with
    | .writing _ _ bytes _ => race.arena.writer.nextOffset + bytes.length ≤ race.arena.writer.size
    | _ => true
  | .batch bytes _ => race.arena.writer.nextOffset + bytes.length ≤ race.arena.writer.size
  | _ => true

theorem ArenaRace.straight_safe (race : ArenaRace) (label : LockStep)
    (straight : race.straight label = true) : race.Safe label := by
  cases label with
  | begin worker ns key bytes tier => simpa [ArenaRace.straight, ArenaRace.Safe] using straight
  | write worker =>
    intro ns key bytes tier work wraps
    simp only [ArenaRace.straight, work, decide_eq_true_eq] at straight
    exact absurd wraps.2.2 (not_lt.mpr straight)
  | batch bytes tier =>
    intro wraps
    simp only [ArenaRace.straight, decide_eq_true_eq] at straight
    exact absurd wraps.2.2 (not_lt.mpr straight)
  | insert worker => trivial
  | lookup ns key => trivial
  | clear => trivial

theorem slabs_hold_their_keys_twoWorkers :
    ∃ race, (arenaRace 80 4).run ArenaRace.straight (arenaRace 80 4).start
        [.begin 0 ['n'] ['a'] (List.replicate 8 1) 1, .begin 1 ['n'] ['b'] (List.replicate 8 2) 1,
          .write 0, .write 1, .insert 0, .insert 1] = some race ∧
      (∃ bytes, ⟨['n'], ['a'], bytes⟩ ∈ race.stored ∧
        race.arena.writer.readPayload 64 8 = some bytes) ∧
      ∃ bytes, ⟨['n'], ['b'], bytes⟩ ∈ race.stored ∧
        race.arena.writer.readPayload 72 8 = some bytes := by
  have entered : ((arenaRace 80 4).run ArenaRace.straight (arenaRace 80 4).start
      [.begin 0 ['n'] ['a'] (List.replicate 8 1) 1, .begin 1 ['n'] ['b'] (List.replicate 8 2) 1,
        .write 0, .write 1, .insert 0, .insert 1]).map (fun race =>
      (lookupArenaSlab race.arena ['n'] ['a'], lookupArenaSlab race.arena ['n'] ['b'])) =
      some (some ⟨64, 8, 1⟩, some ⟨72, 8, 1⟩) := by decide +kernel
  obtain ⟨race, ran, found⟩ := Option.map_eq_some_iff.mp entered
  have reached := System.Reachable.run ArenaRace.straight_safe .start ran
  refine ⟨race, ran, ?_, ?_⟩
  · exact slabs_hold_their_keys (by decide) (by decide) reached (by decide)
      (congrArg Prod.fst found)
  · exact slabs_hold_their_keys (by decide) (by decide) reached (by decide)
      (congrArg Prod.snd found)

theorem overwritten_slab_is_entered :
    ∃ race, (arenaRace 72 4).run (fun _ _ => true) (arenaRace 72 4).start
        [.begin 0 ['n'] ['a'] (List.replicate 8 1) 1, .begin 1 ['n'] ['b'] (List.replicate 8 2) 1,
          .write 0, .write 1, .insert 0] = some race ∧
      ∃ slab, lookupArenaSlab race.arena ['n'] ['a'] = some slab ∧
        race.arena.writer.readPayload slab.offset slab.len = some (List.replicate 8 2) ∧
        race.stored = [⟨['n'], ['a'], List.replicate 8 1⟩, ⟨['n'], ['b'], List.replicate 8 2⟩] := by
  refine ⟨_, rfl, ⟨64, 8, 1⟩, by decide +kernel, by decide +kernel, by decide +kernel⟩

/-- The sections of one worker, run with nothing between them, store as the plain call does. -/
theorem remember_alone (race : ArenaRace) {worker : Nat} (idle : race.worker worker = .idle)
    (ns key : Text) (bytes : Bytes) (tier : UInt8) (size minBytes : Nat) :
    ∃ labels, (arenaRace size minBytes).run (fun _ _ => true) race
        (.begin worker ns key bytes tier :: labels) =
      some ⟨(rememberArenaSlab ns key bytes tier race.arena).2, race.worker,
        race.stored ++ [⟨ns, key, bytes⟩]⟩ := by
  have back : Function.update race.worker worker .idle = race.worker := by
    rw [← idle, Function.update_eq_self]
  rcases ran : writeArenaPayload bytes tier race.arena with ⟨result, arena⟩
  -- Whatever the write answers, the first two sections end here.
  have written (rest : List LockStep) : (arenaRace size minBytes).run (fun _ _ => true) race
      (.begin worker ns key bytes tier :: .write worker :: rest) =
      (arenaRace size minBytes).run (fun _ _ => true)
        ⟨arena, Function.update race.worker worker (ArenaRace.afterWrite ns key result),
          race.stored ++ [⟨ns, key, bytes⟩]⟩ rest := by
    simp only [System.run, arenaRace, ArenaRace.step, idle, Option.bind_some, if_true,
      Function.update_self, ran, Function.update_idem]
  rcases result with error | _ | slab
  · refine ⟨[.write worker], ?_⟩
    rw [written, ArenaRace.afterWrite, back, rememberArenaSlab, bind_error ran, System.run]
  · refine ⟨[.write worker], ?_⟩
    rw [written, ArenaRace.afterWrite, back, rememberArenaSlab, bind_ok ran]
    rfl
  · refine ⟨[.write worker, .insert worker], ?_⟩
    rw [written, ArenaRace.afterWrite, rememberArenaSlab, bind_ok ran]
    simp only [System.run, arenaRace, ArenaRace.step, Option.bind_some, if_true,
      Function.update_self, Function.update_idem, back]
    rfl

end WombatKV
