import WombatKV.Daemon.Heartbeat

/-! When two prefixes share nothing, not even a heartbeat file. -/

namespace WombatKV

open List

def OneLine (text : Text) : Prop := '\n' ∉ text ∧ '\r' ∉ text

instance (text : Text) : Decidable (OneLine text) := inferInstanceAs (Decidable (_ ∧ _))

theorem OneLine.append {left right : Text} (leftLine : OneLine left) (rightLine : OneLine right) :
    OneLine (left ++ right) := by
  simp only [OneLine, mem_append, not_or]
  exact ⟨⟨leftLine.1, rightLine.1⟩, leftLine.2, rightLine.2⟩

theorem natText_oneLine (number : Nat) : OneLine (natText number) :=
  ⟨not_mem_natText (by decide) number, not_mem_natText (by decide) number⟩

theorem connectionId_oneLine (pid : UInt32) (nowMs : Nat) (seq : UInt64) :
    OneLine (connectionId pid nowMs seq) := by
  have dash : OneLine ['-'] := by decide
  exact (natText_oneLine _).append
    (dash.append ((natText_oneLine _).append (dash.append (natText_oneLine _))))

theorem readRecord_heartbeatBody {id : Text} (named : OneLine id) (pid : UInt32) {nowMs : Nat}
    (small : nowMs < milliLimit) :
    readRecord (heartbeatBody id pid nowMs) = some ⟨id, pid, nowMs⟩ := by
  have idLine : OneLine ("id=".toList ++ id) := OneLine.append (by decide) named
  have pidLine : OneLine ("pid=".toList ++ natText pid.toNat) :=
    OneLine.append (by decide) (natText_oneLine _)
  have updatedLine : OneLine ("updated_ms=".toList ++ natText nowMs) :=
    OneLine.append (by decide) (natText_oneLine _)
  have split : lines (heartbeatBody id pid nowMs) = ["id=".toList ++ id,
      "pid=".toList ++ natText pid.toNat, "updated_ms=".toList ++ natText nowMs] := by
    rw [heartbeatBody, lines_append idLine.1 idLine.2, lines_append pidLine.1 pidLine.2,
      lines_append updatedLine.1 updatedLine.2]
    rfl
  have pidRead : parseUnsigned (2 ^ 32) (natText pid.toNat) = some pid.toNat :=
    parseUnsigned_natText pid.toNat_lt
  have updatedRead : parseUnsigned milliLimit (natText nowMs) = some nowMs :=
    parseUnsigned_natText small
  have notId : ("pid=".toList ++ natText pid.toNat).dropPrefix? "id=".toList = none := rfl
  have notIdEither : ("updated_ms=".toList ++ natText nowMs).dropPrefix? "id=".toList = none := rfl
  have notPid : ("updated_ms=".toList ++ natText nowMs).dropPrefix? "pid=".toList = none := rfl
  simp only [readRecord, split, foldl_cons, foldl_nil, readRecordLine, dropPrefix?_append_left,
    notId, notIdEither, notPid, pidRead, updatedRead, Option.map_some, UInt32.ofNat_toNat]
  rfl

namespace HeartbeatPhase

def engaged : HeartbeatPhase → Bool
  | idle | reading => false
  | _ => true

theorem acquiring_or_holding {phase : HeartbeatPhase} (engaged : phase.engaged = true) :
    phase.acquiring = true ∨ ∃ heartbeat, phase.holding = some heartbeat := by
  cases phase with
  | idle => cases engaged
  | reading => cases engaged
  | probing names => exact .inl rfl
  | sweeping names stale => exact .inl rfl
  | erasing => exact .inl rfl
  | opening => exact .inl rfl
  | writing heartbeat first => cases first <;> simp [acquiring, holding]
  | placing heartbeat first => cases first <;> simp [acquiring, holding]
  | held heartbeat => exact .inr ⟨heartbeat, rfl⟩
  | checking heartbeat => exact .inr ⟨heartbeat, rfl⟩
  | leaving heartbeat failed => cases failed <;> simp [acquiring, holding]
  | unlinking heartbeat failed => cases failed <;> simp [acquiring, holding]

theorem engaged_of_holding {phase : HeartbeatPhase} (holds : phase.holding.isSome = true) :
    phase.engaged = true := by
  cases phase with
  | idle => cases holds
  | reading => cases holds
  | _ => rfl

end HeartbeatPhase

namespace HeartbeatWorld

variable {n : Nat} {host : HeartbeatHost} {clock : ClockReading} {world : HeartbeatWorld n}
  {index : Fin n} {phase : HeartbeatPhase} {first : Bool} {heartbeat : ClientHeartbeat}
  {message : Text} {client : HeartbeatClient}

@[simp] theorem moveTo_self :
    (world.moveTo index phase).clients index = { world.clients index with phase } :=
  Function.update_self ..

@[simp] theorem answer_self {result : Except Text Unit} :
    (world.answer index phase result).clients index =
      { world.clients index with phase, answered := some result } :=
  Function.update_self ..

theorem record_of_file {text : Text} (placed : world.file = some text) :
    world.record = readRecord text := by
  rw [record, placed, Option.bind_some]

def OnlyMoves (index : Fin n) (world after : HeartbeatWorld n) : Prop :=
  ∀ other, other ≠ index → after.clients other = world.clients other

theorem onlyMoves_moveTo : OnlyMoves index world (world.moveTo index phase) :=
  fun _ different => Function.update_of_ne different ..

theorem onlyMoves_answer {result : Except Text Unit} :
    OnlyMoves index world (world.answer index phase result) :=
  fun _ different => Function.update_of_ne different ..

theorem onlyMoves_beatFailed :
    OnlyMoves index world (world.beatFailed index heartbeat first message) := by
  unfold beatFailed
  split
  · exact onlyMoves_moveTo
  · exact onlyMoves_answer

theorem onlyMoves_beatReads :
    OnlyMoves index world (world.beatReads host index heartbeat first) := by
  unfold beatReads
  split
  · split
    · exact onlyMoves_beatFailed
    · exact onlyMoves_moveTo
  · exact onlyMoves_moveTo

theorem onlyMoves_removed {failed : Option Text} :
    OnlyMoves index world (world.removed index failed) := by
  unfold removed
  split <;> exact onlyMoves_answer

theorem onlyMoves_advance : OnlyMoves index world (world.advance host clock index) := by
  unfold advance
  dsimp only
  split
  · exact fun _ _ => rfl
  · exact fun _ _ => rfl
  · split
    · split
      · exact onlyMoves_answer
      · exact onlyMoves_moveTo
    · exact onlyMoves_moveTo
  · exact onlyMoves_moveTo
  · split <;> exact onlyMoves_moveTo
  · exact onlyMoves_moveTo
  · exact onlyMoves_moveTo
  · exact onlyMoves_moveTo
  · split
    · split
      · exact onlyMoves_beatReads
      · exact onlyMoves_answer
    · exact onlyMoves_moveTo
  · split
    · exact onlyMoves_beatReads
    · exact onlyMoves_answer
  · exact onlyMoves_moveTo
  · split
    · exact onlyMoves_answer
    · exact onlyMoves_beatFailed
  · split
    · split
      · exact onlyMoves_moveTo
      · exact onlyMoves_removed
    · exact onlyMoves_removed
  · exact onlyMoves_removed

def Records (world : HeartbeatWorld n) (heartbeat : ClientHeartbeat) : Prop :=
  ∃ record, world.record = some record ∧ record.id = heartbeat.id

def Stages (world : HeartbeatWorld n) (pid : UInt32) (heartbeat : ClientHeartbeat) : Prop :=
  ∃ nowMs : Fin milliLimit, world.temporary pid = some (heartbeatBody heartbeat.id pid nowMs)

def Sound (world : HeartbeatWorld n) (client : HeartbeatClient) : Prop :=
  match client.phase with
  | .idle | .reading | .probing _ | .sweeping _ _ | .erasing | .opening => True
  | .writing heartbeat first =>
    OneLine heartbeat.id ∧ (first = false → world.Records heartbeat)
  | .placing heartbeat first =>
    OneLine heartbeat.id ∧ (first = false → world.Records heartbeat) ∧
      world.Stages client.pid heartbeat
  | .held heartbeat | .checking heartbeat => OneLine heartbeat.id ∧ world.Records heartbeat
  | .leaving heartbeat failed | .unlinking heartbeat failed =>
    OneLine heartbeat.id ∧ (failed = none → world.Records heartbeat)

theorem sound_of_not_engaged (out : client.phase.engaged = false) : world.Sound client := by
  unfold Sound
  cases phase : client.phase with
  | idle => trivial
  | reading => trivial
  | _ => simp [phase, HeartbeatPhase.engaged] at out

theorem Sound.records (sound : world.Sound client) (holds : client.phase.holding = some heartbeat) :
    world.Records heartbeat := by
  unfold Sound at sound
  cases phase : client.phase with
  | writing found first =>
    cases first <;> simp_all [HeartbeatPhase.holding]
  | placing found first =>
    cases first <;> simp_all [HeartbeatPhase.holding]
  | held found => simp_all [HeartbeatPhase.holding]
  | checking found => simp_all [HeartbeatPhase.holding]
  | leaving found failed => cases failed <;> simp_all [HeartbeatPhase.holding]
  | unlinking found failed => cases failed <;> simp_all [HeartbeatPhase.holding]
  | _ => simp [phase, HeartbeatPhase.holding] at holds

theorem Sound.of_same_files {after : HeartbeatWorld n} (sound : world.Sound client)
    (record : after.record = world.record) (temporary : after.temporary = world.temporary) :
    after.Sound client := by
  unfold Sound Records Stages at *
  rw [record, temporary]
  exact sound

theorem beatFailed_sound (named : OneLine heartbeat.id)
    (records : first = false → world.Records heartbeat) :
    (world.beatFailed index heartbeat first message).Sound
      ((world.beatFailed index heartbeat first message).clients index) := by
  unfold beatFailed
  cases first with
  | true =>
    rw [if_pos rfl, moveTo_self]
    exact ⟨named, nofun⟩
  | false =>
    rw [if_neg (by decide), answer_self]
    exact ⟨named, records rfl⟩

theorem beatReads_sound (named : OneLine heartbeat.id)
    (records : first = false → world.Records heartbeat) :
    (world.beatReads host index heartbeat first).Sound
      ((world.beatReads host index heartbeat first).clients index) := by
  unfold beatReads
  split
  · split
    · exact beatFailed_sound named records
    · rw [moveTo_self]
      exact ⟨named, records⟩
  · rw [moveTo_self]
    exact ⟨named, records⟩

theorem removed_phase {failed : Option Text} :
    ((world.removed index failed).clients index).phase = .idle := by
  cases failed <;> simp [removed]

theorem beatFailed_acquires :
    (world.beatFailed index heartbeat first message).acquires index = first := by
  cases first <;> simp [beatFailed, acquires, HeartbeatPhase.acquiring]

theorem beatReads_acquires :
    (world.beatReads host index heartbeat first).acquires index = first := by
  unfold beatReads
  split
  · split
    · exact beatFailed_acquires
    · simp [acquires, HeartbeatPhase.acquiring]
  · simp [acquires, HeartbeatPhase.acquiring]

theorem beatIsDue_first {intervalNs : Nat} (up : intervalNs ≤ clock.instantNs) :
    beatIsDue clock intervalNs (clock.instantNs - intervalNs) = true := by
  have elapsed : clock.instantNs - (clock.instantNs - intervalNs) =
      intervalNs := Nat.sub_sub_self up
  rw [beatIsDue, elapsed]
  exact decide_eq_true (Nat.lt_irrefl _)

theorem advance_sound (sound : world.Sound (world.clients index))
    (engaged : (world.clients index).phase.engaged = true) :
    (world.advance host clock index).Sound ((world.advance host clock index).clients index) := by
  unfold advance
  unfold Sound at sound
  dsimp only
  cases phase : (world.clients index).phase with
  | idle => simp [phase, HeartbeatPhase.engaged] at engaged
  | reading => simp [phase, HeartbeatPhase.engaged] at engaged
  | probing names =>
    cases names with
    | nil => simp [Sound]
    | cons name rest => dsimp only; split <;> simp [Sound]
  | sweeping names stale =>
    cases names with
    | nil => cases stale <;> simp [Sound]
    | cons name rest => simp [Sound]
  | erasing => simp [Sound]
  | opening =>
    dsimp only
    split
    · rename_i up
      rw [if_pos (beatIsDue_first up)]
      exact beatReads_sound (connectionId_oneLine ..) nofun
    · simp [Sound]
  | writing heartbeat first =>
    rw [phase] at sound
    obtain ⟨named, records⟩ := sound
    rw [moveTo_self]
    exact ⟨named, records, clock.nowMs, Function.update_self ..⟩
  | placing heartbeat first =>
    rw [phase] at sound
    obtain ⟨named, -, nowMs, staged⟩ := sound
    dsimp only
    rw [staged]
    dsimp only
    rw [answer_self]
    exact ⟨named, _, (record_of_file rfl).trans (readRecord_heartbeatBody named _ nowMs.isLt), rfl⟩
  | held heartbeat =>
    rw [phase] at sound
    simpa only [Sound, phase] using sound
  | checking heartbeat =>
    rw [phase] at sound
    obtain ⟨named, records⟩ := sound
    dsimp only
    split
    · exact beatReads_sound named fun _ => records
    · rw [answer_self]
      exact ⟨named, records⟩
  | leaving heartbeat failed =>
    rw [phase] at sound
    obtain ⟨named, records⟩ := sound
    dsimp only
    split
    · split
      · rw [moveTo_self]
        exact ⟨named, records⟩
      · exact sound_of_not_engaged (by rw [removed_phase]; rfl)
    · exact sound_of_not_engaged (by rw [removed_phase]; rfl)
  | unlinking heartbeat failed => exact sound_of_not_engaged (by rw [removed_phase]; rfl)

theorem advance_acquires (after : (world.advance host clock index).acquires index = true) :
    world.acquires index = true := by
  unfold acquires
  unfold advance at after
  dsimp only at after
  cases phase : (world.clients index).phase with
  | idle => simp_all [acquires, HeartbeatPhase.acquiring]
  | held heartbeat => simp_all [acquires, HeartbeatPhase.acquiring]
  | writing heartbeat first =>
    simp only [phase] at after
    simpa [acquires, HeartbeatPhase.acquiring] using after
  | placing heartbeat first =>
    simp only [phase] at after
    split at after
    · simp [acquires, HeartbeatPhase.acquiring] at after
    · rwa [beatFailed_acquires] at after
  | checking heartbeat =>
    simp only [phase] at after
    split at after
    · rw [beatReads_acquires] at after
      cases after
    · simp [acquires, HeartbeatPhase.acquiring] at after
  | leaving heartbeat failed =>
    simp only [phase] at after
    split at after
    · split at after
      · simpa [acquires, HeartbeatPhase.acquiring] using after
      · simp [acquires, removed_phase, HeartbeatPhase.acquiring] at after
    · simp [acquires, removed_phase, HeartbeatPhase.acquiring] at after
  | unlinking heartbeat failed =>
    simp only [phase] at after
    simp [acquires, removed_phase, HeartbeatPhase.acquiring] at after
  | _ => rfl

def engages (world : HeartbeatWorld n) (index : Fin n) : Bool :=
  (world.clients index).phase.engaged

structure Exclusive (world : HeartbeatWorld n) : Prop where
  oneAcquires : AtMostOne world.acquires
  oneEngages : AtMostOne world.engages
  sound : ∀ each, world.Sound (world.clients each)

variable {after : HeartbeatWorld n}

variable (exclusive : world.Exclusive)

include exclusive

theorem Exclusive.change (moves : OnlyMoves index world after)
    (begins : after.acquires index = true → ∀ other, other ≠ index → world.acquires other = false)
    (enters : after.engages index = true → ∀ other, other ≠ index → world.engages other = false)
    (sound : after.Sound (after.clients index))
    (files : (after.record = world.record ∧ after.temporary = world.temporary) ∨
      ∀ other, other ≠ index → world.engages other = false) :
    after.Exclusive where
  oneAcquires := exclusive.oneAcquires.change
    (fun other different => by rw [acquires, acquires, moves other different]) begins
  oneEngages := exclusive.oneEngages.change
    (fun other different => by rw [engages, engages, moves other different]) enters
  sound each := by
    by_cases same : each = index
    · rw [same]
      exact sound
    · rw [moves each same]
      rcases files with ⟨record, temporary⟩ | alone
      · exact (exclusive.sound each).of_same_files record temporary
      · exact sound_of_not_engaged (alone each same)

section

variable (fresh : world.holdersFresh host (.advance index clock) = true)

include fresh

theorem Exclusive.active {other : Fin n}
    (holds : (world.clients other).phase.holding = some heartbeat) :
    ∃ record, world.record = some record ∧
      recordIsActive host clock (world.clients index).staleAfterMs record = true := by
  obtain ⟨record, found, named⟩ := (exclusive.sound other).records holds
  have seen := of_decide_eq_true fresh other
  rw [holds, found] at seen
  refine ⟨record, found, ?_⟩
  simpa [named] using seen

theorem Exclusive.reads (phase : (world.clients index).phase = .reading) :
    (world.advance host clock index).Exclusive := by
  have acquiring : world.acquires index = true := by
    simp [acquires, phase, HeartbeatPhase.acquiring]
  have others := exclusive.oneAcquires.alone acquiring
  have alone (inactive : ∀ record, world.record = some record →
      recordIsActive host clock (world.clients index).staleAfterMs record ≠ true) :
      ∀ other, other ≠ index → world.engages other = false := by
    intro other different
    cases engaged : world.engages other with
    | false => rfl
    | true =>
      rcases HeartbeatPhase.acquiring_or_holding engaged with acquires | ⟨heartbeat, holds⟩
      · exact absurd (others other different) (by simp [HeartbeatWorld.acquires, acquires])
      · obtain ⟨record, found, active⟩ := exclusive.active fresh holds
        exact absurd active (inactive record found)
  simp only [HeartbeatWorld.advance, phase]
  split
  · rename_i record found
    split
    · -- An active record: the call returns its error.
      refine exclusive.change onlyMoves_answer (fun _ => others) (fun engaged => ?_) ?_
        (.inl ⟨rfl, rfl⟩)
      · simp [engages, HeartbeatPhase.engaged] at engaged
      · simp [Sound]
    · rename_i inactive
      refine exclusive.change onlyMoves_moveTo (fun _ => others) (fun _ => alone ?_) ?_
        (.inl ⟨rfl, rfl⟩)
      · intro other same
        rw [found] at same
        cases same
        exact inactive
      · simp [Sound]
  · rename_i missing
    refine exclusive.change onlyMoves_moveTo (fun _ => others) (fun _ => alone ?_) ?_
      (.inl ⟨rfl, rfl⟩)
    · intro other same
      rw [missing] at same
      cases same
    · simp [Sound]

theorem Exclusive.advance : (world.advance host clock index).Exclusive := by
  have acquires : (world.advance host clock index).acquires index = true →
      ∀ other, other ≠ index → world.acquires other = false :=
    fun begun => exclusive.oneAcquires.alone (advance_acquires begun)
  by_cases engaged : world.engages index = true
  · -- It may change the file already, so it is alone in that.
    have alone := exclusive.oneEngages.alone engaged
    exact exclusive.change onlyMoves_advance acquires (fun _ => alone)
      (advance_sound (exclusive.sound index) engaged) (.inr alone)
  · cases phase : (world.clients index).phase with
    | idle =>
      have still : world.advance host clock index = world := by simp only [HeartbeatWorld.advance, phase]
      rw [still]
      exact exclusive
    | reading => exact exclusive.reads fresh phase
    | _ => exact absurd (by simp [engages, phase, HeartbeatPhase.engaged]) engaged

end

theorem Exclusive.step {label : HeartbeatStep n}
    (fresh : world.holdersFresh host label = true) (turns : world.acquiresAlone label = true)
    (made : HeartbeatWorld.step host world label = some after) : after.Exclusive := by
  cases label with
  | acquire index =>
    have alone := of_decide_eq_true turns
    simp only [HeartbeatWorld.step] at made
    split at made
    · rename_i idle
      split at made
      · cases made
        refine exclusive.change onlyMoves_moveTo (fun _ => alone) (fun engaged => ?_) ?_
          (.inl ⟨rfl, rfl⟩)
        · simp [engages, HeartbeatPhase.engaged] at engaged
        · simp [Sound]
      · cases made
        refine exclusive.change onlyMoves_answer (fun _ => alone) (fun engaged => ?_) ?_
          (.inl ⟨rfl, rfl⟩)
        · simp [engages, HeartbeatPhase.engaged] at engaged
        · simp [Sound]
    · cases made
  | beat index =>
    simp only [HeartbeatWorld.step] at made
    split at made
    · rename_i heartbeat phase
      cases made
      have engaged : world.engages index = true := by simp [engages, phase, HeartbeatPhase.engaged]
      have sound := exclusive.sound index
      simp only [Sound, phase] at sound
      refine exclusive.change onlyMoves_moveTo (fun acquires => ?_)
        (fun _ => exclusive.oneEngages.alone engaged) ?_ (.inl ⟨rfl, rfl⟩)
      · simp [HeartbeatWorld.acquires, HeartbeatPhase.acquiring] at acquires
      · rw [moveTo_self]
        exact sound
    · cases made
  | remove index =>
    simp only [HeartbeatWorld.step] at made
    split at made
    · rename_i heartbeat phase
      cases made
      have engaged : world.engages index = true := by simp [engages, phase, HeartbeatPhase.engaged]
      have sound := exclusive.sound index
      simp only [Sound, phase] at sound
      refine exclusive.change onlyMoves_moveTo (fun acquires => ?_)
        (fun _ => exclusive.oneEngages.alone engaged) ?_ (.inl ⟨rfl, rfl⟩)
      · simp [HeartbeatWorld.acquires, HeartbeatPhase.acquiring] at acquires
      · rw [moveTo_self]
        exact ⟨sound.1, fun _ => sound.2⟩
    · cases made
  | advance index clock =>
    cases made
    exact exclusive.advance fresh

end HeartbeatWorld

open HeartbeatWorld in
/-- At most one client of a prefix holds its heartbeat. -/
theorem heartbeat_has_one_holder {n : Nat} (host : HeartbeatHost) (start world : HeartbeatWorld n)
    (quiet : ∀ index, (start.clients index).phase = .idle)
    (reached : (system host start).Reachable (fun world label =>
      world.holdersFresh host label = true ∧ world.acquiresAlone label = true) world) :
    ∀ one other, world.holds one = true → world.holds other = true → one = other := by
  have initial : start.Exclusive := by
    refine ⟨?_, ?_, ?_⟩
    · intro one other acquires
      simp [HeartbeatWorld.acquires, quiet, HeartbeatPhase.acquiring] at acquires
    · intro one other engages
      simp [HeartbeatWorld.engages, quiet, HeartbeatPhase.engaged] at engages
    · intro each
      exact sound_of_not_engaged (by rw [quiet]; rfl)
  have kept (before : HeartbeatWorld n) (label : HeartbeatStep n) (after : HeartbeatWorld n)
      (exclusive : before.Exclusive)
      (allowed : before.holdersFresh host label = true ∧ before.acquiresAlone label = true)
      (made : (system host start).step before label = some after) : after.Exclusive :=
    exclusive.step allowed.1 allowed.2 made
  have exclusive : world.Exclusive := reached.invariant initial kept
  intro one other oneHolds otherHolds
  exact exclusive.oneEngages one other (HeartbeatPhase.engaged_of_holding oneHolds)
    (HeartbeatPhase.engaged_of_holding otherHolds)

def busyHost : HeartbeatHost := ⟨"/tmp".toList, "p".toList, "\"p\"".toList, fun _ => true, []⟩

def twoClients (file : Option Text) : HeartbeatWorld 2 :=
  ⟨file, fun _ => none, [], fun _ => 0,
    fun index => { pid := if index = 0 then 11 else 12, enabled := true, intervalNs := 500,
                   staleAfterMs := 3000 }⟩

def tenSeconds : ClockReading := ⟨⟨10000, by decide⟩, 1000⟩

open HeartbeatWorld in
theorem heartbeat_has_one_holder_takeover :
    ∃ world, (system busyHost (twoClients (some (heartbeatBody "9-0-0".toList 9 0)))).Reachable
        (fun world label =>
          world.holdersFresh busyHost label = true ∧ world.acquiresAlone label = true) world ∧
      (world.holds 0, (world.clients 1).answered) =
        (true, some (.error "active SHM client for prefix \"p\": pid=11 id=11-10000-0".toList)) ∧
      ∀ one other, world.holds one = true → world.holds other = true → one = other := by
  obtain ⟨world, reached, outcome⟩ : ∃ world,
      (system busyHost (twoClients (some (heartbeatBody "9-0-0".toList 9 0)))).Reachable
        (fun world label =>
          world.holdersFresh busyHost label = true ∧ world.acquiresAlone label = true) world ∧
      (world.holds 0, (world.clients 1).answered) =
        (true, some (.error "active SHM client for prefix \"p\": pid=11 id=11-10000-0".toList)) :=
    System.reaches (fun world label => world.holdersFresh busyHost label && world.acquiresAlone label)
      (fun _ _ passed => by simpa only [Bool.and_eq_true] using passed)
      (.acquire 0 :: List.replicate 16 (.advance 0 tenSeconds) ++
        [.acquire 1, .advance 1 tenSeconds]) (by decide +kernel)
  exact ⟨world, reached, outcome, heartbeat_has_one_holder busyHost _ world (fun _ => rfl) reached⟩

open HeartbeatWorld in
theorem two_clients_hold_one_heartbeat :
    ∃ world, (system busyHost (twoClients none)).Reachable
        (fun world label => world.holdersFresh busyHost label = true) world ∧
      (world.holds 0, (world.clients 0).answered) = (true, some (.ok ())) ∧
      (world.holds 1, (world.clients 1).answered) = (true, some (.ok ())) :=
  System.reaches (holdersFresh busyHost) (fun _ _ passed => passed)
    (.acquire 0 :: .acquire 1 :: List.replicate 5 (.advance 0 tenSeconds) ++
      List.replicate 5 (.advance 1 tenSeconds) ++ List.replicate 2 (.advance 0 tenSeconds) ++
      List.replicate 2 (.advance 1 tenSeconds)) (by decide +kernel)

def nameTails : List Text :=
  ["r".toList, "r_cr".toList, "r_ci".toList, "r_producer_seq".toList, "r_dn_seq".toList,
    "s".toList, "s_cr".toList, "s_ci".toList, "s_producer_seq".toList, "s_cn_seq".toList]

def ExtendsByRing (pre other : Text) : Prop :=
  other = pre ++ "r_c".toList ∨ other = pre ++ "s_c".toList

def Blank (char : Char) : Prop :=
  char = '_' ∨ (isAsciiAlphanumeric char = false ∧ char ≠ '-')

def SameFileName (pre other : Text) : Prop :=
  List.Forall₂ (fun char differing => char = differing ∨ (Blank char ∧ Blank differing)) pre other

variable {pre other : Text}

theorem mem_cleanupPrefixSegments {name : Text} :
    name ∈ cleanupPrefixSegments pre ↔ ∃ tail ∈ nameTails, name = shmStart ++ (pre ++ tail) := by
  simp [cleanupPrefixSegments, cleanupRingSegments, segmentNames, nameTails, roleReq, roleResp,
    reqConsumerId, respConsumerId]

theorem tail_suffix : ∀ tail ∈ nameTails, ∀ other ∈ nameTails, other <:+ tail →
    tail = other ∨ (other = "r".toList ∧ (tail = "r_cr".toList ∨ tail = "s_cr".toList)) := by
  decide

theorem extendsByRing_of_tails {more tail : Text} (tails : tail ∈ nameTails)
    (others : other ∈ nameTails) (same : tail = more ++ other) (longer : more ≠ []) :
    ExtendsByRing pre (pre ++ more) := by
  rcases tail_suffix tail tails other others ⟨more, same.symm⟩ with equal | ⟨short, long⟩
  · -- The tails are equal only if nothing stands between them.
    rw [equal] at same
    exact absurd (append_left_eq_self.mp same.symm) longer
  · subst short
    rcases long with rfl | rfl
    · have cut : "r_c".toList = more := append_cancel_right same
      exact .inl (by rw [cut])
    · have cut : "s_c".toList = more := append_cancel_right same
      exact .inr (by rw [cut])

theorem shared_name_iff :
    (∃ name, name ∈ cleanupPrefixSegments pre ∧ name ∈ cleanupPrefixSegments other) ↔
      pre = other ∨ ExtendsByRing pre other ∨ ExtendsByRing other pre := by
  simp only [mem_cleanupPrefixSegments]
  constructor
  · rintro ⟨_, ⟨tail, tails, rfl⟩, back, backs, same⟩
    rcases append_eq_append_iff.mp (append_cancel_left same) with
      ⟨more, rfl, joined⟩ | ⟨more, rfl, joined⟩
    · by_cases longer : more = []
      · exact .inl (by simp [longer])
      · exact .inr (.inl (extendsByRing_of_tails tails backs joined longer))
    · by_cases longer : more = []
      · exact .inl (by simp [longer])
      · exact .inr (.inr (extendsByRing_of_tails backs tails joined longer))
  · -- The ring of the longer prefix is the `_cr` segment of the shorter one.
    have shared {pre other : Text} (longer : ExtendsByRing pre other) :
        ∃ tail ∈ nameTails, pre ++ tail = other ++ "r".toList := by
      rcases longer with rfl | rfl
      · exact ⟨"r_cr".toList, by decide, by simp⟩
      · exact ⟨"s_cr".toList, by decide, by simp⟩
    have short : "r".toList ∈ nameTails := by decide
    rintro (rfl | longer | longer)
    · exact ⟨_, ⟨_, short, rfl⟩, _, short, rfl⟩
    · obtain ⟨tail, tails, same⟩ := shared longer
      exact ⟨_, ⟨tail, tails, rfl⟩, _, short, by rw [same]⟩
    · obtain ⟨tail, tails, same⟩ := shared longer
      exact ⟨_, ⟨_, short, rfl⟩, tail, tails, by rw [same]⟩

theorem sanitizePrefix_cons (char : Char) (rest : Text) :
    (Blank char ∧ sanitizePrefix (char :: rest) = '_' :: sanitizePrefix rest) ∨
      (¬ Blank char ∧ sanitizePrefix (char :: rest) = char :: sanitizePrefix rest) := by
  simp only [sanitizePrefix, map_cons, Blank]
  by_cases under : char = '_'
  · exact .inl ⟨.inl under, by simp [under]⟩
  · cases letter : isAsciiAlphanumeric char with
    | true => exact .inr ⟨by simp [under], by simp⟩
    | false =>
      by_cases dash : char = '-'
      · exact .inr ⟨by simp [dash], by simp [dash]⟩
      · exact .inl ⟨.inr ⟨rfl, dash⟩, by simp [under, dash]⟩

theorem ne_of_not_blank {char : Char} (dark : ¬ Blank char) : char ≠ '_' := by
  intro under
  exact dark (.inl under)

theorem sanitizePrefix_eq_iff :
    sanitizePrefix pre = sanitizePrefix other ↔ SameFileName pre other := by
  induction pre generalizing other with
  | nil =>
    cases other with
    | nil => exact ⟨fun _ => .nil, fun _ => rfl⟩
    | cons char rest => exact ⟨fun same => (nomatch same), fun same => (nomatch same)⟩
  | cons char rest ih =>
    cases other with
    | nil => exact ⟨fun same => (nomatch same), fun same => (nomatch same)⟩
    | cons differing others =>
      rw [SameFileName, forall₂_cons, ← SameFileName, ← ih]
      rcases sanitizePrefix_cons char rest with ⟨blank, first⟩ | ⟨dark, first⟩ <;>
        rcases sanitizePrefix_cons differing others with ⟨otherBlank, second⟩ | ⟨otherDark, second⟩
      · rw [first, second, List.cons.injEq]
        simp [blank, otherBlank]
      · rw [first, second, List.cons.injEq]
        have apart : char ≠ differing := by
          rintro rfl
          exact otherDark blank
        simp [otherDark, apart, (ne_of_not_blank otherDark).symm]
      · rw [first, second, List.cons.injEq]
        have apart : char ≠ differing := by
          rintro rfl
          exact dark otherBlank
        simp [dark, apart, ne_of_not_blank dark]
      · rw [first, second, List.cons.injEq]
        simp [dark]

theorem joinPath_inj {dir name : Text} : joinPath dir name = joinPath dir other ↔ name = other := by
  unfold joinPath
  split
  · rw [append_cancel_left_eq]
  · constructor
    · intro same
      exact (List.cons.inj (append_cancel_left same)).2
    · rintro rfl
      rfl

/--
The names that two prefixes clean up are different ones and so are their heartbeat files, exactly
when neither extends the other by a ring and their file names do not fall together.
-/
theorem prefixes_do_not_share_resources (dir pre other : Text) :
    ((∀ name ∈ cleanupPrefixSegments pre, name ∉ cleanupPrefixSegments other) ∧
      heartbeatPath dir pre ≠ heartbeatPath dir other) ↔
    ¬ ExtendsByRing pre other ∧ ¬ ExtendsByRing other pre ∧ ¬ SameFileName pre other := by
  have paths : heartbeatPath dir pre = heartbeatPath dir other ↔ SameFileName pre other := by
    rw [heartbeatPath, heartbeatPath, joinPath_inj, append_cancel_right_eq, sanitizePrefix_eq_iff]
  have names : (∀ name ∈ cleanupPrefixSegments pre, name ∉ cleanupPrefixSegments other) ↔
      ¬ (pre = other ∨ ExtendsByRing pre other ∨ ExtendsByRing other pre) := by
    rw [← shared_name_iff]
    simp
  have apart : ¬ SameFileName pre other → pre ≠ other := by
    rintro different rfl
    exact different (sanitizePrefix_eq_iff.mp rfl)
  rw [names, Ne, paths]
  tauto

theorem accepted_prefixes_share :
    (validateSegmentNameBudget 31 "a".toList = .ok () ∧
      validateSegmentNameBudget 31 "ar_c".toList = .ok () ∧
      "wkar_cr".toList ∈ cleanupPrefixSegments "a".toList ∧
      (segmentNames "ar_c".toList).1 = "wkar_cr".toList) ∧
    validateSegmentNameBudget 31 "a.b".toList = .ok () ∧
      validateSegmentNameBudget 31 "a_b".toList = .ok () ∧
      heartbeatPath "/tmp".toList "a.b".toList = heartbeatPath "/tmp".toList "a_b".toList := by
  decide +kernel

end WombatKV



