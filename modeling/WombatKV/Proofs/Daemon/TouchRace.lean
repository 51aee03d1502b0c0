import WombatKV.Proofs.Daemon.Eviction

/-! When an entry touched during an eviction cycle survives it. -/

namespace WombatKV

inductive TakesOut (remaining : List (BlockHash × BlockMeta)) :
    InMemoryMetadataIndex → InMemoryMetadataIndex → Prop
  | nothing (index : InMemoryMetadataIndex) : TakesOut remaining index index
  | entry {hash : BlockHash} {block : BlockMeta} {before after : InMemoryMetadataIndex}
      (looked : (hash, block) ∈ remaining)
      (removed : before.removeIfUnchanged hash block.lastAccessNs = (true, after)) :
      TakesOut remaining before after

theorem TakesOut.keeps {remaining : List (BlockHash × BlockMeta)}
    {before after : InMemoryMetadataIndex} (takes : TakesOut remaining before after)
    {hash : BlockHash} {block : BlockMeta} (present : before.entries[hash]? = some block)
    (fresh : ∀ old, (hash, old) ∈ remaining → block.lastAccessNs ≠ old.lastAccessNs) :
    after.entries[hash]? = some block := by
  cases takes with
  | nothing => exact present
  | @entry other old _ _ looked removed =>
    obtain ⟨-, rfl⟩ := InMemoryMetadataIndex.removeIfUnchanged_true removed
    by_cases same : other = hash
    · -- It was expected to have the stamp it has, so it is not one of the fresh ones.
      subst same
      have stamped : block.lastAccessNs = old.lastAccessNs := by
        unfold InMemoryMetadataIndex.removeIfUnchanged at removed
        rw [present] at removed
        simp only [Prod.ext_iff] at removed
        split at removed
        · assumption
        · cases removed.1
      exact absurd stamped (fresh old looked)
    · rw [Std.ExtTreeMap.getElem?_erase, if_neg (by simpa using same), present]

namespace CyclePhase

variable {config : LruConfig} {target : UInt64} {unlinked : Bool} {phase next : CyclePhase}
  {before after : BlockNode}

theorem choose_takesOut (work : CycleWork) (node : BlockNode) :
    (choose work node).1.begun = true ∧ (choose work node).1.remaining ⊆ work.rest ∧
      TakesOut work.rest node.metadataIndex (choose work node).2.metadataIndex := by
  unfold choose
  split
  · exact ⟨rfl, List.nil_subset _, .nothing _⟩
  · rename_i hash block rest snapshot
    split
    · exact ⟨rfl, List.nil_subset _, .nothing _⟩
    · split
      · exact ⟨rfl, snapshot ▸ List.subset_cons_self _ rest, .nothing _⟩
      · rename_i removed
        refine ⟨rfl, snapshot ▸ List.subset_cons_self _ rest, .entry ?_ removed⟩
        exact snapshot ▸ List.mem_cons_self

theorem evict_metadataIndex (ns : Text) (stage : EvictStage) (hash : BlockHash)
    (block : BlockMeta) (work : CycleWork) (node : BlockNode) :
    (evict ns unlinked stage hash block work node).1.begun = true ∧
      (evict ns unlinked stage hash block work node).1.remaining = work.rest ∧
      (evict ns unlinked stage hash block work node).2.metadataIndex = node.metadataIndex := by
  unfold evict
  cases stage with
  | reading => exact ⟨rfl, rfl, rfl⟩
  | unrecording writes =>
    cases writes with
    | nil => exact ⟨rfl, rfl, rfl⟩
    | cons write rest => exact ⟨rfl, rfl, rfl⟩
  | unlinking => exact ⟨rfl, rfl, rfl⟩
  | deleting => exact ⟨rfl, rfl, rfl⟩

theorem step_takesOut (begun : phase.begun = true)
    (made : phase.step config target unlinked before = some (next, after)) :
    next.begun = true ∧ next.remaining ⊆ phase.remaining ∧
      TakesOut phase.remaining before.metadataIndex after.metadataIndex := by
  cases phase with
  | idle => cases begun
  | choosing work =>
    have taken := choose_takesOut work before
    rw [step, Option.some.injEq] at made
    rw [made] at taken
    exact taken
  | evicting stage hash block work =>
    have evicted := @evict_metadataIndex unlinked config.ns stage hash block work before
    rw [step, Option.some.injEq] at made
    rw [made] at evicted
    obtain ⟨begun, remaining, index⟩ := evicted
    exact ⟨begun, remaining ▸ List.Subset.refl _, index ▸ .nothing _⟩
  | _ => cases made

end CyclePhase

namespace TouchRace

variable {config : LruConfig} {target : UInt64} {race next : TouchRace}

structure Survives (race : TouchRace) : Prop where
  before : race.cycle.begun = false → race.renewed = []
  present : ∀ hash ∈ race.renewed, ∃ block, race.node.metadataIndex.entries[hash]? = some block ∧
    ∀ old, (hash, old) ∈ race.cycle.remaining → block.lastAccessNs ≠ old.lastAccessNs

theorem Survives.cycle {unlinked : Bool} (survives : race.Survives)
    (made : race.step config target (.cycle unlinked) = some next) : next.Survives := by
  simp only [TouchRace.step, Option.bind_eq_bind, Option.bind_eq_some_iff, Option.pure_def,
    Option.some.injEq] at made
  obtain ⟨⟨cycle, node⟩, moved, rfl⟩ := made
  cases begun : race.cycle.begun with
  | false =>
    have none := survives.before begun
    exact ⟨fun _ => none, fun hash renewed => by rw [none] at renewed; cases renewed⟩
  | true =>
    obtain ⟨later, fewer, takes⟩ := CyclePhase.step_takesOut begun moved
    constructor
    · intro idle
      rw [later] at idle
      cases idle
    · intro hash renewed
      obtain ⟨block, there, fresh⟩ := survives.present hash renewed
      exact ⟨block, takes.keeps there fresh, fun old looked => fresh old (fewer looked)⟩

theorem Survives.renew {hash : BlockHash} {block : BlockMeta} (survives : race.Survives)
    (fresh : ∀ old, (hash, old) ∈ race.cycle.remaining → block.lastAccessNs ≠ old.lastAccessNs) :
    (race.renew hash ⟨race.node.metadataIndex.entries.insert hash block⟩).Survives := by
  cases begun : race.cycle.begun with
  | false =>
    have none : (race.renew hash ⟨race.node.metadataIndex.entries.insert hash block⟩).renewed =
        [] := by
      simp [TouchRace.renew, begun, survives.before begun]
    exact ⟨fun _ => none, fun hash renewed => by rw [none] at renewed; cases renewed⟩
  | true =>
    constructor
    · intro idle
      exact absurd (begun.symm.trans idle) (by decide)
    · intro other renewed
      show ∃ found, (race.node.metadataIndex.entries.insert hash block)[other]? = some found ∧ _
      by_cases same : hash = other
      · subst same
        exact ⟨block, Std.ExtTreeMap.getElem?_insert_self, fresh⟩
      · have earlier : other ∈ race.renewed := by
          simp only [TouchRace.renew, begun, if_true, List.mem_cons] at renewed
          exact renewed.resolve_left (Ne.symm same)
        obtain ⟨found, there, expected⟩ := survives.present other earlier
        refine ⟨found, ?_, expected⟩
        rw [Std.ExtTreeMap.getElem?_insert, if_neg (by simpa using same), there]

theorem Survives.step {turn : TouchTurn} (survives : race.Survives)
    (fresh : race.freshStamp turn = true) (made : race.step config target turn = some next) :
    next.Survives := by
  have unexpected {hash : BlockHash} {block : BlockMeta} {now : UInt64}
      (apart : race.cycle.remaining.all
        (fun entry => entry.1 ≠ hash || entry.2.lastAccessNs ≠ now) = true) :
      ∀ old, (hash, old) ∈ race.cycle.remaining →
        (block.touch now).lastAccessNs ≠ old.lastAccessNs := by
    intro old looked same
    have either := List.all_eq_true.mp apart (hash, old) looked
    simp only [ne_eq, not_true_eq_false, decide_false, Bool.false_or, decide_not,
      Bool.not_eq_true', decide_eq_false_iff_not] at either
    exact either same.symm
  cases turn with
  | cycle unlinked => exact survives.cycle made
  | insert hash block now =>
    cases made
    exact survives.renew (unexpected fresh)
  | getAndTouch hash now =>
    simp only [TouchRace.step, InMemoryMetadataIndex.getAndTouch] at made
    cases found : race.node.metadataIndex.entries[hash]? with
    | none =>
      rw [found] at made
      cases made
      exact survives
    | some block =>
      rw [found] at made
      cases made
      exact survives.renew (unexpected fresh)

end TouchRace

/--
Whatever is inserted or touched during a cycle is still in the index, as long as no insert or
touch stamps an entry with the stamp that the cycle expects the entry to have.
-/
theorem touched_entries_survive (node : BlockNode) (config : LruConfig) (target : UInt64)
    {race : TouchRace}
    (reached : (touchRaceSystem node config target).Reachable
      (fun race turn => race.freshStamp turn = true) race) :
    ∀ hash ∈ race.renewed, race.node.metadataIndex.entries.contains hash = true := by
  have initial : (touchRaceSystem node config target).start.Survives :=
    ⟨fun _ => rfl, fun _ renewed => by cases renewed⟩
  have kept (before : TouchRace) (turn : TouchTurn) (after : TouchRace)
      (survives : before.Survives) (fresh : before.freshStamp turn = true)
      (made : (touchRaceSystem node config target).step before turn = some after) :
      after.Survives := survives.step fresh made
  have survives := reached.invariant initial kept
  intro hash renewed
  obtain ⟨block, there, -⟩ := survives.present hash renewed
  rw [Std.ExtTreeMap.contains_eq_isSome_getElem?, there]
  rfl

def oneBlockHash : BlockHash := Vector.replicate 32 0xaa

def touchedMeanwhile (now : UInt64) : List TouchTurn :=
  [.cycle true, .getAndTouch oneBlockHash now, .cycle true]

def touchRaceAfter (check : TouchRace → TouchTurn → Bool) (turns : List TouchTurn) :
    Option TouchRace :=
  (touchRaceSystem oneBlockNode ⟨1, "a".toList⟩ 0).run check
    (touchRaceSystem oneBlockNode ⟨1, "a".toList⟩ 0).start turns

theorem touched_entries_survive_new_stamp :
    ∃ race, touchRaceAfter TouchRace.freshStamp (touchedMeanwhile 99) = some race ∧
      oneBlockHash ∈ race.renewed ∧
      race.node.metadataIndex.entries.contains oneBlockHash = true := by
  have summary : (touchRaceAfter TouchRace.freshStamp (touchedMeanwhile 99)).map
      TouchRace.renewed = some [oneBlockHash] := by
    decide +kernel
  obtain ⟨race, ran, renewed⟩ := Option.map_eq_some_iff.mp summary
  have member : oneBlockHash ∈ race.renewed := by rw [renewed]; exact List.mem_singleton_self _
  have reached := System.Reachable.start.run (fun _ _ passed => passed) ran
  exact ⟨race, ran, member, touched_entries_survive _ _ _ reached _ member⟩

theorem touched_entry_taken_out :
    ∃ race, (touchRaceSystem oneBlockNode ⟨1, "a".toList⟩ 0).Reachable (fun _ _ => True) race ∧
      oneBlockHash ∈ race.renewed ∧
      race.node.metadataIndex.entries.contains oneBlockHash = false := by
  have summary : (touchRaceAfter (fun _ _ => true) (touchedMeanwhile 0)).map
      (fun race => (race.renewed, race.node.metadataIndex.entries.contains oneBlockHash)) =
        some ([oneBlockHash], false) := by
    decide +kernel
  obtain ⟨race, ran, seen⟩ := Option.map_eq_some_iff.mp summary
  obtain ⟨renewed, gone⟩ := Prod.mk.injEq .. ▸ seen
  refine ⟨race, System.Reachable.start.run (fun _ _ _ => trivial) ran, ?_, gone⟩
  rw [renewed]
  exact List.mem_singleton_self _

end WombatKV
