import WombatKV.Node.BlobCaches

/-! Flat-cache puts that do not overlap expose whole payloads. -/

namespace WombatKV

open List

namespace FlatRace

variable {payloads : List Bytes} {race after : FlatRace} {index : Nat} {put : FlatPut}

theorem overlay_take (payload : Bytes) {position : Nat} (count : Nat)
    (inside : position ≤ payload.length) :
    overlay position (slice payload position (position + count)) (payload.take position) =
      payload.take (position + (slice payload position (position + count)).length) := by
  have length : (payload.take position).length = position := length_take_of_le inside
  rw [overlay, length, Nat.sub_self, replicate_zero, append_nil,
    take_of_length_le length.le, drop_eq_nil_of_le (by omega), append_nil, slice,
    Nat.add_sub_cancel_left, length_take, length_drop, take_add]
  congr 1
  rw [← length_drop, ← take_eq_take_min]

def Follows (race : FlatRace) (put : FlatPut) : Prop :=
  match put.phase with
  | .idle | .over => True
  | .writing file position => race.tmp = some file ∧ position ≤ put.payload.length ∧
      race.contents[file]? = some (put.payload.take position)
  | .written => ∃ file, race.tmp = some file ∧ race.contents[file]? = some put.payload

theorem Follows.of_inactive (inactive : put.active = false) : race.Follows put := by
  rw [FlatPut.active] at inactive
  rw [Follows]
  split
  · trivial
  · trivial
  · rename_i is
    rw [is] at inactive
    cases inactive
  · rename_i is
    rw [is] at inactive
    cases inactive

structure Sound (payloads : List Bytes) (race : FlatRace) : Prop where
  puts : race.puts.map (·.payload) = payloads
  one : ∀ (first second : Nat) (put other : FlatPut), race.puts[first]? = some put →
    race.puts[second]? = some other → put.active = true → other.active = true → first = second
  follows : ∀ (index : Nat) put, race.puts[index]? = some put → race.Follows put
  tmp : ∀ file, race.tmp = some file → file < race.contents.length ∧ race.canonical ≠ some file
  shown : ∀ file, race.canonical = some file →
    ∃ payload ∈ payloads, race.contents[file]? = some payload

section

variable (sound : race.Sound payloads)

include sound

theorem Sound.move (found : race.puts[index]? = some put)
    (others : ∀ (other : Nat) held, other ≠ index → race.puts[other]? = some held →
      held.active = false) (same : after.puts = race.puts) (phase : FlatPhase)
    (follows : (after.move index put phase).Follows { put with phase })
    (tmp : ∀ file, after.tmp = some file →
      file < after.contents.length ∧ after.canonical ≠ some file)
    (shown : ∀ file, after.canonical = some file →
      ∃ payload ∈ payloads, after.contents[file]? = some payload) :
    (after.move index put phase).Sound payloads := by
  have place : ∀ (other : Nat) held, (after.move index put phase).puts[other]? = some held →
      (other = index ∧ held = { put with phase }) ∨ held.active = false := by
    intro other held at_
    simp only [FlatRace.move, same, List.getElem?_set] at at_
    split at at_
    · rename_i here
      split at at_
      · exact .inl ⟨here.symm, (Option.some.inj at_).symm⟩
      · cases at_
    · rename_i elsewhere
      exact .inr (others other held (Ne.symm elsewhere) at_)
  refine ⟨?_, ?_, ?_, tmp, shown⟩
  · obtain ⟨inside, rfl⟩ := List.getElem?_eq_some_iff.mp found
    have mapped : index < (race.puts.map (·.payload)).length := by rwa [length_map]
    rw [← sound.puts, FlatRace.move, same, map_set]
    simpa using set_getElem_self mapped
  · intro first second one other firstAt secondAt firstActive secondActive
    rcases place first one firstAt with ⟨rfl, -⟩ | inactive
    · rcases place second other secondAt with ⟨rfl, -⟩ | inactive
      · rfl
      · rw [secondActive] at inactive
        cases inactive
    · rw [firstActive] at inactive
      cases inactive
  · intro other held at_
    rcases place other held at_ with ⟨-, rfl⟩ | inactive
    · exact follows
    · exact .of_inactive inactive

theorem Sound.others (found : race.puts[index]? = some put)
    (active : put.active = true) (other : Nat) (held : FlatPut) (different : other ≠ index)
    (at_ : race.puts[other]? = some held) : held.active = false := by
  cases also : held.active with
  | false => rfl
  | true => exact absurd (sound.one other index held put at_ found also active) different

theorem Sound.truncate (alone : race.alone (.truncate index) = true)
    (made : race.step (.truncate index) = some after) : after.Sound payloads := by
  obtain ⟨put, found, made⟩ := Option.bind_eq_some_iff.mp made
  have others : ∀ (other : Nat) held, other ≠ index → race.puts[other]? = some held →
      held.active = false := by
    intro other held _ at_
    simpa using all_eq_true.mp alone held (mem_of_getElem? at_)
  split at made
  · -- The file that is there is emptied; the canonical path names another.
    rename_i file _ named
    cases made
    obtain ⟨inside, unlike⟩ := sound.tmp file named
    refine sound.move found others (by rfl) _ ⟨named, Nat.zero_le _, ?_⟩ ?_ ?_
    · simp [FlatRace.move, inside]
    · intro other is
      simpa using sound.tmp other is
    · intro shown is
      obtain ⟨payload, member, there⟩ := sound.shown shown is
      refine ⟨payload, member, ?_⟩
      rw [List.getElem?_set_ne (by rintro rfl; exact unlike is)]
      exact there
  · cases made
    refine sound.move found others (by rfl) _ ⟨rfl, Nat.zero_le _, ?_⟩ ?_ ?_
    · simp [FlatRace.move]
    · rintro _ ⟨⟩
      refine ⟨by simp, fun is => ?_⟩
      obtain ⟨_, _, there⟩ := sound.shown _ is
      simp at there
    · intro shown is
      obtain ⟨payload, member, there⟩ := sound.shown shown is
      obtain ⟨inside, -⟩ := List.getElem?_eq_some_iff.mp there
      exact ⟨payload, member, by rw [List.getElem?_append_left inside]; exact there⟩
  · cases made

theorem Sound.append {count : Nat}
    (made : race.step (.append index count) = some after) : after.Sound payloads := by
  obtain ⟨put, found, made⟩ := Option.bind_eq_some_iff.mp made
  split at made
  · rename_i file position phase
    cases made
    have active : put.active = true := by rw [FlatPut.active, phase]
    have follows := sound.follows index put found
    rw [Follows, phase] at follows
    obtain ⟨named, inside, content⟩ := follows
    obtain ⟨-, unlike⟩ := sound.tmp file named
    refine sound.move found (sound.others found active) (by rfl) _ ⟨named, ?_, ?_⟩ ?_ ?_
    · simp only [slice, length_take, length_drop]
      omega
    · simp only [FlatRace.move, List.getElem?_modify_eq, content, Option.map_eq_map,
        Option.map_some, overlay_take _ _ inside]
    · intro other is
      simpa using sound.tmp other is
    · intro shown is
      obtain ⟨payload, member, there⟩ := sound.shown shown is
      refine ⟨payload, member, ?_⟩
      rw [List.getElem?_modify_ne _ _ (by rintro rfl; exact unlike is)]
      exact there
  · cases made

theorem Sound.close (made : race.step (.close index) = some after) : after.Sound payloads := by
  obtain ⟨put, found, made⟩ := Option.bind_eq_some_iff.mp made
  split at made
  · rename_i file position phase
    split at made
    · rename_i whole
      cases made
      have active : put.active = true := by rw [FlatPut.active, phase]
      have follows := sound.follows index put found
      rw [Follows, phase] at follows
      obtain ⟨named, -, content⟩ := follows
      rw [whole, take_length] at content
      exact sound.move found (sound.others found active) (by rfl) _ ⟨file, named, content⟩ sound.tmp
        sound.shown
    · cases made
  · cases made

theorem Sound.fail (made : race.step (.fail index) = some after) : after.Sound payloads := by
  obtain ⟨put, found, made⟩ := Option.bind_eq_some_iff.mp made
  split at made
  · rename_i phase
    cases made
    have active : put.active = true := by rw [FlatPut.active, phase]
    exact sound.move found (sound.others found active) (by rfl) _ trivial sound.tmp sound.shown
  · cases made

theorem Sound.rename (made : race.step (.rename index) = some after) : after.Sound payloads := by
  obtain ⟨put, found, made⟩ := Option.bind_eq_some_iff.mp made
  split at made
  · rename_i file phase named
    cases made
    have active : put.active = true := by rw [FlatPut.active, phase]
    have follows := sound.follows index put found
    rw [Follows, phase] at follows
    obtain ⟨written, is, content⟩ := follows
    obtain rfl : written = file := Option.some.inj (is.symm.trans named)
    refine sound.move found (sound.others found active) (by rfl) _ trivial (fun _ is => by cases is) ?_
    rintro _ ⟨⟩
    have member : put.payload ∈ payloads := by
      rw [← sound.puts]
      exact mem_map_of_mem (mem_of_getElem? found)
    exact ⟨put.payload, member, content⟩
  · rename_i phase gone
    cases made
    have active : put.active = true := by rw [FlatPut.active, phase]
    exact sound.move found (sound.others found active) (by rfl) _ trivial sound.tmp sound.shown
  · cases made

end

theorem Sound.start (payloads : List Bytes) : (flatRaceSystem payloads).start.Sound payloads where
  puts := by simp [flatRaceSystem, Function.comp_def]
  one := by
    intro first _ put _ at_ _ active
    obtain ⟨payload, -, rfl⟩ := mem_map.mp (mem_of_getElem? at_)
    cases active
  follows := by
    intro index put at_
    obtain ⟨payload, -, rfl⟩ := mem_map.mp (mem_of_getElem? at_)
    trivial
  tmp := nofun
  shown := nofun

end FlatRace

/-- If no put opens the temporary file beside another, every get that hits reads a whole payload. -/
theorem flat_gets_complete (payloads : List Bytes) {race : FlatRace}
    (reached : (flatRaceSystem payloads).Reachable (fun race turn => race.alone turn = true) race) :
    ∀ bytes, race.get = some bytes → bytes ∈ payloads := by
  have initial := FlatRace.Sound.start payloads
  have kept : ∀ (before : FlatRace) turn after, before.Sound payloads →
      before.alone turn = true → before.step turn = some after → after.Sound payloads := by
    intro before turn after sound alone made
    cases turn with
    | truncate _ => exact sound.truncate alone made
    | append _ _ => exact sound.append made
    | close _ => exact sound.close made
    | fail _ => exact sound.fail made
    | rename _ => exact sound.rename made
  have sound : race.Sound payloads := reached.invariant initial kept
  intro bytes hit
  obtain ⟨file, named, there⟩ := Option.bind_eq_some_iff.mp hit
  obtain ⟨payload, member, content⟩ := sound.shown file named
  obtain rfl : payload = bytes := Option.some.inj (content.symm.trans there)
  exact member

theorem flat_gets_complete_two :
    ∃ race bytes, (flatRaceSystem [[1, 2], [3]]).Reachable
        (fun race turn => race.alone turn = true) race ∧
      race.get = some bytes ∧ bytes ∈ [[1, 2], [3]] := by
  obtain ⟨race, reached, hit⟩ : ∃ race, (flatRaceSystem [[1, 2], [3]]).Reachable
      (fun race turn => race.alone turn = true) race ∧ race.get = some [3] :=
    System.reaches FlatRace.alone (fun _ _ alone => alone)
      [.truncate 0, .append 0 1, .append 0 1, .close 0, .rename 0, .truncate 1, .append 1 9,
        .close 1, .rename 1] (by decide +kernel)
  exact ⟨race, [3], reached, hit, flat_gets_complete _ reached _ hit⟩

theorem flat_gets_complete_emptied :
    ∃ race bytes, (flatRaceSystem [[1, 2], [3]]).Reachable (fun _ _ => True) race ∧
      race.get = some bytes ∧ bytes ∉ [[1, 2], [3]] := by
  obtain ⟨race, reached, hit⟩ : ∃ race, (flatRaceSystem [[1, 2], [3]]).Reachable
      (fun _ _ => True) race ∧ race.get = some [] :=
    System.reaches (fun _ _ => true) (fun _ _ _ => trivial)
      [.truncate 0, .append 0 2, .close 0, .truncate 1, .rename 0] (by decide +kernel)
  exact ⟨race, [], reached, hit, by decide⟩

end WombatKV

