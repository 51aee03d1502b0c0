import WombatKV.Node.BlockNode

/-! The single steps of a process, and where it may die. -/

namespace WombatKV

open Call

namespace BlockNode

variable {ε α : Type} {node : BlockNode} {post : Except (Halt ε) PUnit → BlockNode → Prop}

theorem ensures_tick (dies : node.stepsLeft ≠ none → post (.error .crashed) node)
    (goes : ∀ left, (node.stepsLeft = none → left = none) → post (.ok ()) { node with stepsLeft :=
      left }) : tick.Ensures post node := by
  unfold Ensures tick
  split
  · rename_i unlimited
    have same : node = { node with stepsLeft := none } := by rw [← unlimited]
    rw [same]
    exact goes none fun _ => rfl
  · rename_i spent
    exact dies (by simp [spent])
  · rename_i left more
    exact goes (some left) (by simp [more])

@[simp] theorem ensures_nowNs {post : Except (Halt ε) UInt64 → BlockNode → Prop} :
    nowNs.Ensures post node ↔ post (.ok (node.clock 0))
      { node with clock := fun reading => node.clock (reading + 1) } := Iff.rfl

theorem ensures_onStore {call : Call EmbedError WombatKVKvStore α}
    {post : Except (Halt EmbedError) α → BlockNode → Prop}
    (dies : node.stepsLeft ≠ none → post (.error .crashed) node)
    (ran : ∀ left, (node.stepsLeft = none → left = none) → call.Ensures (fun result store =>
      post (result.mapError Halt.failed) { node with store, stepsLeft := left }) node.store) :
    (onStore call).Ensures post node := by
  simp only [onStore, ensures_bind]
  refine ensures_tick dies fun left lives => ?_
  simp only [andThen_ok, ensures_on, ensures_mapError]
  exact ran left lives

def written (node : BlockNode) (writes : List DbWrite) (left : Option Nat) : BlockNode :=
  { node with
    slatedbIndex := node.slatedbIndex.map (writes.foldl SlateDbMetadataIndex.write)
    stepsLeft := left }

theorem ensures_writeSlate {writes : List DbWrite}
    (dies : ∀ made left, made <+: writes → node.stepsLeft ≠ none → post (.error .crashed)
      (node.written made left))
    (goes : ∀ left, (node.stepsLeft = none → left = none) → post (.ok ()) (node.written writes
      left)) : (writeSlate writes).Ensures post node := by
  induction writes generalizing node with
  | nil =>
    have same : node.written [] node.stepsLeft = node := by
      cases node
      simp [written]
    exact same ▸ goes node.stepsLeft id
  | cons write rest ih =>
    have next (made : List DbWrite) (left last : Option Nat) :
        (node.written [write] left).written made last = node.written (write :: made) last := by
      simp [written, Function.comp_def]
    simp only [writeSlate, ensures_bind]
    refine ensures_tick ?_ fun left lives => ?_
    · intro counted
      have same : node.written [] node.stepsLeft = node := by
        cases node
        simp [written]
      exact same ▸ dies [] node.stepsLeft (List.nil_prefix ..) counted
    · simp only [andThen_ok]
      refine @ih (node.written [write] left) ?_ ?_
      · intro made last part counted
        rw [next]
        exact dies (write :: made) last (List.prefix_cons_inj write |>.mpr part)
          fun unlimited => counted (lives unlimited)
      · intro last livesOn
        rw [next]
        exact goes last fun unlimited => livesOn (lives unlimited)

theorem ensures_tick_of_lives (lives : node.stepsLeft = none) :
    tick.Ensures post node ↔ post (.ok ()) node := by
  unfold Ensures tick
  rw [lives]

end BlockNode

end WombatKV
