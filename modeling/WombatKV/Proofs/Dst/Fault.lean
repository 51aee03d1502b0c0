import Mathlib.Data.Fintype.EquivFin
import Mathlib.Tactic.IntervalCases
import WombatKV.Dst.Fault
import WombatKV.Foundation.XorShift

/-! When planned faults fire, and what the schedules can draw. -/

namespace WombatKV

namespace PlanState

variable {ρ : Type} {plan : FaultPlan}

theorem opCounter_iterate (plan : FaultPlan) (count : Nat) :
    (advanceOp^[count] (setPlan plan)).plan = some plan ∧
      (advanceOp^[count] (setPlan plan)).opCounter.toNat = min count (2 ^ 32 - 1) := by
  induction count with
  | zero => exact ⟨rfl, rfl⟩
  | succ count ih =>
    rw [Function.iterate_succ_apply', advanceOp]
    refine ⟨ih.1, ?_⟩
    simp only [saturatingNext_toNat]
    omega

theorem dispatched_getElem? (state : PlanState) (requests : List ρ) (index : Nat) :
    (state.dispatched requests)[index]? =
      if index < requests.length then some (advanceOp^[index + 1] state).fireForCurrentOp
      else none := by
  induction requests generalizing state index with
  | nil => simp [dispatched]
  | cons request rest ih =>
    cases index with
    | zero => simp [dispatched]
    | succ index => simp [dispatched, ih]

theorem dispatched_fires (plan : FaultPlan) (requests : List ρ) {index : Nat}
    (made : index < requests.length) (short : index + 1 < 2 ^ 32) :
    ((setPlan plan).dispatched requests)[index]? =
      some ((plan.events.find? fun sched =>
        sched.trigger = .afterKvOp (UInt32.ofNat (index + 1) + 1)).map (·.event)) := by
  obtain ⟨loaded, counter⟩ := opCounter_iterate plan (index + 1)
  have count : (advanceOp^[index + 1] (setPlan plan)).opCounter = UInt32.ofNat (index + 1) := by
    refine UInt32.toNat.inj ?_
    rw [counter, UInt32.toNat_ofNat']
    omega
  rw [dispatched_getElem?, if_pos made, fireForCurrentOp, loaded, count, Option.map_eq_bind]
  rfl

theorem later_entry {requests : List ρ}
    (numbered : ∀ sched ∈ plan.events, ∀ n, sched.trigger = .afterKvOp n → 1 ≤ n.toNat)
    (enough : ∀ sched ∈ plan.events, ∀ n, sched.trigger = .afterKvOp n → n.toNat ≤ requests.length)
    (fires : ∀ sched ∈ plan.events, ∀ n, sched.trigger = .afterKvOp n →
      ((setPlan plan).dispatched requests)[n.toNat - 1]? = some (some sched.event))
    {sched : ScheduledFault} (member : sched ∈ plan.events) {n : UInt32}
    (due : sched.trigger = .afterKvOp n) :
    ∃ later ∈ plan.events, ∃ next, later.trigger = .afterKvOp next ∧ next.toNat = n.toNat + 1 := by
  have least := numbered sched member n due
  have made := enough sched member n due
  have word := n.toNat_lt
  have fired := fires sched member n due
  rw [dispatched_fires plan requests (by omega) (by omega), Nat.sub_add_cancel least,
    UInt32.ofNat_toNat] at fired
  obtain ⟨later, found, -⟩ := Option.map_eq_some_iff.mp (Option.some.inj fired)
  have inPlan := List.mem_of_find?_eq_some found
  have trigger : later.trigger = .afterKvOp (n + 1) := by
    simpa using List.find?_some found
  refine ⟨later, inPlan, n + 1, trigger, ?_⟩
  have positive := numbered later inPlan _ trigger
  rw [UInt32.toNat_add, UInt32.toNat_one] at positive ⊢
  omega

end PlanState

/--
During a request the first entry fires whose trigger is the number of the request after it, so the
entries fire at their own requests exactly if the plan has no such entry at all.
-/
theorem planned_faults_fire {ρ : Type} (plan : FaultPlan) (requests : List ρ)
    (numbered : ∀ sched ∈ plan.events, ∀ n, sched.trigger = .afterKvOp n → 1 ≤ n.toNat)
    (enough : ∀ sched ∈ plan.events, ∀ n, sched.trigger = .afterKvOp n → n.toNat ≤ requests.length)
    :
    (∀ index < requests.length, index + 1 < 2 ^ 32 →
      ((PlanState.setPlan plan).dispatched requests)[index]? =
        some ((plan.events.find? fun sched =>
          sched.trigger = .afterKvOp (UInt32.ofNat (index + 1) + 1)).map (·.event))) ∧
    ((∀ sched ∈ plan.events, ∀ n, sched.trigger = .afterKvOp n → ∀ index < requests.length,
        (((PlanState.setPlan plan).dispatched requests)[index]? = some (some sched.event) ↔
          index + 1 = n.toNat)) ↔
      ∀ sched ∈ plan.events, ∀ n, sched.trigger ≠ .afterKvOp n) := by
  refine ⟨fun index made short => PlanState.dispatched_fires plan requests made short, ?_, ?_⟩
  · intro fires sched member n due
    have own : ∀ sched ∈ plan.events, ∀ n, sched.trigger = .afterKvOp n →
        ((PlanState.setPlan plan).dispatched requests)[n.toNat - 1]? = some (some sched.event) := by
      intro sched member n due
      have least := numbered sched member n due
      have made := enough sched member n due
      exact (fires sched member n due (n.toNat - 1) (by omega)).mpr (by omega)
    have all : ∀ more, ∃ later ∈ plan.events, ∃ next, later.trigger = .afterKvOp next ∧
        next.toNat = n.toNat + more := by
      intro more
      induction more with
      | zero => exact ⟨sched, member, n, due, rfl⟩
      | succ more ih =>
        obtain ⟨later, inPlan, next, trigger, number⟩ := ih
        obtain ⟨last, inPlan, after, trigger, following⟩ :=
          PlanState.later_entry numbered enough own inPlan trigger
        exact ⟨last, inPlan, after, trigger, by omega⟩
    obtain ⟨-, -, next, -, number⟩ := all (2 ^ 32)
    have word := next.toNat_lt
    omega
  · intro none sched member n due
    exact absurd due (none sched member n)

theorem planned_faults_fire_one :
    ((PlanState.setPlan ⟨7, none, [⟨.afterKvOp 2, .s3GetCorrupt⟩]⟩).dispatched [(), (), ()])[0]? =
      some (some .s3GetCorrupt) :=
  (planned_faults_fire ⟨7, none, [⟨.afterKvOp 2, .s3GetCorrupt⟩]⟩ [(), (), ()]
    (by simp) (by simp)).1 0 (by decide) (by decide)

theorem planned_faults_fire_early :
    (PlanState.setPlan ⟨7, none, [⟨.afterKvOp 2, .s3GetCorrupt⟩]⟩).dispatched [(), ()] =
      [some .s3GetCorrupt, none] := by
  decide

namespace XorShift64

variable {lo hi : UInt64} {default : UInt32}

theorem between_mem (ordered : lo.toNat < hi.toNat) (rng : XorShift64) :
    (between lo hi rng).1.toNat = lo.toNat + (nextU64 rng).1.toNat % (hi.toNat - lo.toNat) := by
  have word := hi.toNat_lt
  have span : (hi - lo).toNat = hi.toNat - lo.toNat :=
    UInt64.toNat_sub_of_le _ _ (UInt64.le_iff_toNat_le.mpr ordered.le)
  have rest : (nextU64 rng).1.toNat % (hi.toNat - lo.toNat) < hi.toNat - lo.toNat :=
    Nat.mod_lt _ (by omega)
  change (lo + (nextU64 rng).1 % (hi - lo)).toNat = _
  rw [UInt64.toNat_add, UInt64.toNat_mod, span]
  omega

theorem betweenU32_mem (ordered : lo.toNat < hi.toNat) (short : hi.toNat ≤ 2 ^ 32)
    (rng : XorShift64) :
    (betweenU32 lo hi default rng).1.toNat =
      lo.toNat + (nextU64 rng).1.toNat % (hi.toNat - lo.toNat) := by
  have value := between_mem ordered rng
  have rest : (nextU64 rng).1.toNat % (hi.toNat - lo.toNat) < hi.toNat - lo.toNat :=
    Nat.mod_lt _ (by omega)
  change (if (between lo hi rng).1.toNat < 2 ^ 32 then (between lo hi rng).1.toUInt32
    else default).toNat = _
  rw [if_pos (by omega), UInt64.toNat_toUInt32, value]
  omega

theorem betweenU32_pos (least : 1 ≤ lo.toNat) (ordered : lo.toNat < hi.toNat)
    (short : hi.toNat ≤ 2 ^ 32) (rng : XorShift64) :
    1 ≤ (betweenU32 lo hi default rng).1.toNat := by
  rw [betweenU32_mem ordered short]
  omega

end XorShift64

def CanFire (events : List ScheduledFault) : Prop :=
  ∀ sched ∈ events, ∀ n, sched.trigger = .afterKvOp n → 1 ≤ n.toNat

theorem canFire_nil : CanFire [] := by
  simp [CanFire]

theorem canFire_cons {trigger : FaultTrigger} {event : WombatKvFaultEvent}
    {rest : List ScheduledFault} :
    CanFire (⟨trigger, event⟩ :: rest) ↔
      (∀ n, trigger = .afterKvOp n → 1 ≤ n.toNat) ∧ CanFire rest := by
  simp [CanFire]

theorem draw_bind {α β : Type} (draw : StateM XorShift64 α) (next : α → StateM XorShift64 β)
    (rng : XorShift64) : (draw >>= next) rng = next (draw rng).1 (draw rng).2 := rfl

theorem draw_pure {α : Type} (value : α) (rng : XorShift64) :
    (pure value : StateM XorShift64 α) rng = (value, rng) := rfl

theorem canFire_eventsForClass {failure : WombatKvFailureClass}
    (other : failure ≠ .multiEnginePrefixConflict) (rng : XorShift64) :
    CanFire (eventsForClass failure rng).1 := by
  cases failure
  all_goals simp only [eventsForClass, draw_bind, draw_pure, canFire_cons, canFire_nil,
    reduceCtorEq, false_implies, implies_true, and_true, FaultTrigger.afterKvOp.injEq, forall_eq']
  case multiEnginePrefixConflict => exact absurd rfl other
  case concurrentSameKeySave =>
    exact ⟨XorShift64.betweenU32_pos (by decide) (by decide) (by decide) _,
      XorShift64.betweenU32_pos (by decide) (by decide) (by decide) _⟩
  all_goals exact XorShift64.betweenU32_pos (by decide) (by decide) (by decide) _

theorem canFire_multiEnginePrefixConflict (rng : XorShift64) :
    CanFire (eventsForClass .multiEnginePrefixConflict rng).1 ↔
      (XorShift64.nextU64 rng).1.toNat % 5 ≠ 0 := by
  have drawn : (XorShift64.betweenU32 0 5 0 rng).1.toNat =
      0 + (XorShift64.nextU64 rng).1.toNat % (5 - 0) :=
    XorShift64.betweenU32_mem (by decide) (by decide) rng
  simp only [eventsForClass, draw_bind, draw_pure, canFire_cons, canFire_nil, and_true,
    FaultTrigger.afterKvOp.injEq, forall_eq', drawn]
  omega

theorem wireEnvelopeCorruption_events (rng : XorShift64) :
    (eventsForClass .wireEnvelopeCorruption rng).1.map (·.event) =
      [.wireBadEnvelope
        (wireEnvelopeBadKinds[(XorShift64.nextU64 rng).1.toNat % 4]?.getD .badMagic)] := by
  have index : (XorShift64.between 0 (UInt64.ofNat wireEnvelopeBadKinds.length - 1) rng).1.toNat =
      0 + (XorShift64.nextU64 rng).1.toNat % (4 - 0) :=
    XorShift64.between_mem (by decide) rng
  simp only [eventsForClass, draw_bind, draw_pure, index, Nat.zero_add, Nat.sub_zero,
    List.map_cons, List.map_nil]

theorem truncatedBody_unreached (seed : UInt64) :
    ∀ sched ∈ (scheduleForClass seed .wireEnvelopeCorruption).events,
      sched.event ≠ .wireBadEnvelope .truncatedBody := by
  intro sched member event
  have drawn : sched.event ∈ (eventsForClass .wireEnvelopeCorruption (.phase seed 1)).1.map
      (·.event) := List.mem_map_of_mem member
  rw [wireEnvelopeCorruption_events, List.mem_singleton, event] at drawn
  have index : (XorShift64.nextU64 (.phase seed 1)).1.toNat % 4 < 4 := Nat.mod_lt _ (by decide)
  generalize (XorShift64.nextU64 (.phase seed 1)).1.toNat % 4 = place at drawn index
  interval_cases place <;> cases drawn

/--
Every trigger of a plan can fire, but for those of one class that are drawn as zero, and the seeds
reach every kind of corruption but the last.
-/
theorem fault_schedules_reach (failure : WombatKvFailureClass) (seed : UInt64)
    (kind : WireEnvelopeBadKind) :
    (CanFire (scheduleForClass seed failure).events ↔
      ¬ (failure = .multiEnginePrefixConflict ∧
        (XorShift64.nextU64 (.phase seed 1)).1.toNat % 5 = 0)) ∧
    ((∃ seed, ∃ sched ∈ (scheduleForClass seed .wireEnvelopeCorruption).events,
      sched.event = .wireBadEnvelope kind) ↔ kind ≠ .truncatedBody) := by
  refine ⟨?_, ?_, fun other => ?_⟩
  · by_cases one : failure = .multiEnginePrefixConflict
    · subst one
      simpa [scheduleForClass] using canFire_multiEnginePrefixConflict (.phase seed 1)
    · exact iff_of_true (canFire_eventsForClass one _) (fun both => one both.1)
  · rintro ⟨seed, sched, member, event⟩ rfl
    exact truncatedBody_unreached seed sched member event
  · cases kind with
    | badMagic => exact ⟨1, _, .head _, by decide +kernel⟩
    | badVersion => exact ⟨0, _, .head _, by decide +kernel⟩
    | badCRC => exact ⟨3, _, .head _, by decide +kernel⟩
    | oversizedLen => exact ⟨2, _, .head _, by decide +kernel⟩
    | truncatedBody => exact absurd rfl other

theorem fault_schedules_reach_gaps :
    (scheduleForClass 2 .multiEnginePrefixConflict).events =
        [⟨.afterKvOp 0, .multiEnginePrefixConflict⟩] ∧
      ∀ seed, ∀ sched ∈ (scheduleForClass seed .wireEnvelopeCorruption).events,
        sched.event ≠ .wireBadEnvelope .truncatedBody :=
  ⟨by decide +kernel, truncatedBody_unreached⟩

namespace XorShift64

theorem step_injective : Function.Injective step := by
  rintro ⟨left⟩ ⟨right⟩ same
  have third : (step ⟨left⟩).state.toBitVec = (step ⟨right⟩).state.toBitVec := by rw [same]
  have second := xorShiftLeft_injective (by decide) third
  have first := xorShiftRight_injective (by decide) second
  exact congrArg mk (UInt64.toBitVec_inj.mp (xorShiftLeft_injective (by decide) first))

theorem step_ne_zero {rng : XorShift64} (nonzero : rng.state ≠ 0) : (step rng).state ≠ 0 := by
  intro zero
  have same : step rng = step ⟨0⟩ := congrArg mk zero
  exact nonzero (congrArg state (step_injective same))

theorem iterate_ne_zero {rng : XorShift64} (nonzero : rng.state ≠ 0) (position : Nat) :
    (step^[position] rng).state ≠ 0 := by
  induction position with
  | zero => exact nonzero
  | succ position ih =>
    rw [Function.iterate_succ_apply']
    exact step_ne_zero ih

theorem stream_eq (rng : XorShift64) (position : Nat) :
    stream rng position = (step^[position + 1] rng).state := by
  rw [Function.iterate_succ_apply']
  rfl

theorem phase_ne_zero (seed key : UInt64) : (phase seed key).state ≠ 0 := by
  unfold phase new
  split
  · decide
  · assumption

end XorShift64

open XorShift64 in
/-- The states and outputs of a stream are never zero, and different states stay different. -/
theorem random_streams_never_degenerate :
    (∀ seed key position, (step^[position] (phase seed key)).state ≠ 0 ∧
        stream (phase seed key) position ≠ 0) ∧
      Set.BijOn step {rng | rng.state ≠ 0} {rng | rng.state ≠ 0} ∧
      ∀ left right, left ≠ right → ∀ position, stream left position ≠ stream right position := by
  have word : Function.Injective state := fun _ _ same => congrArg mk same
  have finite : Finite XorShift64 := .of_injective (UInt64.toFin ∘ state) fun _ _ same =>
    word (UInt64.toFin_inj.mp same)
  refine ⟨fun seed key position => ?_, ?_, fun left right different position same => ?_⟩
  · have nonzero := iterate_ne_zero (phase_ne_zero seed key)
    exact ⟨nonzero position, stream_eq _ position ▸ nonzero (position + 1)⟩
  · refine ⟨fun rng nonzero => step_ne_zero nonzero, step_injective.injOn, fun rng nonzero => ?_⟩
    obtain ⟨earlier, rfl⟩ := (Finite.injective_iff_surjective.mp step_injective) rng
    refine ⟨earlier, fun zero => nonzero ?_, rfl⟩
    rw [show earlier = ⟨0⟩ from congrArg mk zero]
    rfl
  · rw [stream_eq, stream_eq] at same
    exact different (step_injective.iterate _ (word same))

end WombatKV
