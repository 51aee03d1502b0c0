import Mathlib.Data.List.Basic

/-! Runs of a system, and what an observer sees of them. -/

namespace WombatKV

section

structure System (σ ι : Type) where
  start : σ
  step : σ → ι → Option σ

namespace System

variable {σ ι : Type} (system : System σ ι) (allowed : σ → ι → Prop)

inductive Reachable : σ → Prop
  | start : Reachable system.start
  | step {before after : σ} {label : ι} (reached : Reachable before) (meets : allowed before label)
      (made : system.step before label = some after) : Reachable after

variable {system allowed}

theorem Reachable.invariant {property : σ → Prop} (initial : property system.start)
    (kept : ∀ before label after, property before → allowed before label →
      system.step before label = some after → property after)
    {state : σ} (reached : system.Reachable allowed state) : property state := by
  induction reached with
  | start => exact initial
  | step _ meets made ih => exact kept _ _ _ ih meets made

variable (system) in
def run (check : σ → ι → Bool) : σ → List ι → Option σ
  | state, [] => some state
  | state, label :: rest =>
    if check state label then (system.step state label).bind (run check · rest) else none

theorem run_append {check : σ → ι → Bool} (first second : List ι) (state : σ) :
    system.run check state (first ++ second) =
      (system.run check state first).bind (system.run check · second) := by
  induction first generalizing state with
  | nil => rfl
  | cons label rest ih =>
    simp only [List.cons_append, run]
    split
    · cases system.step state label with
      | none => rfl
      | some between => exact ih between
    · rfl

theorem Reachable.run_of_invariant {check : σ → ι → Bool} {property : σ → Prop}
    (allows : ∀ state label, property state → check state label = true → allowed state label)
    (kept : ∀ before label after, property before → system.step before label = some after →
      property after) {labels : List ι} {before after : σ}
    (reached : system.Reachable allowed before) (holds : property before)
    (ran : system.run check before labels = some after) :
    system.Reachable allowed after ∧ property after := by
  induction labels generalizing before with
  | nil =>
    cases ran
    exact ⟨reached, holds⟩
  | cons label rest ih =>
    simp only [System.run] at ran
    split at ran
    · rename_i passed
      obtain ⟨between, made, ran⟩ := Option.bind_eq_some_iff.mp ran
      exact ih (.step reached (allows _ _ holds passed) made) (kept _ _ _ holds made) ran
    · cases ran

theorem Reachable.run {check : σ → ι → Bool}
    (sound : ∀ state label, check state label = true → allowed state label) {labels : List ι}
    {before after : σ} (reached : system.Reachable allowed before)
    (ran : system.run check before labels = some after) : system.Reachable allowed after :=
  (reached.run_of_invariant (fun state label _ => sound state label) (fun _ _ _ _ _ => trivial)
    trivial ran).1

theorem reaches (check : σ → ι → Bool)
    (sound : ∀ state label, check state label = true → allowed state label) (labels : List ι)
    {property : σ → Prop} [DecidablePred property]
    (tested : (system.run check system.start labels).any (fun state => property state) = true) :
    ∃ state, system.Reachable allowed state ∧ property state := by
  obtain ⟨state, ran, holds⟩ := (Option.any_eq_true ..).mp tested
  exact ⟨state, .run sound .start ran, of_decide_eq_true holds⟩

variable (system) in
def startingAt (state : σ) : System σ ι := { system with start := state }

theorem run_startingAt {check : σ → ι → Bool} (start state : σ) (labels : List ι) :
    (system.startingAt start).run check state labels = system.run check state labels := by
  induction labels generalizing state with
  | nil => rfl
  | cons label rest ih =>
    simp only [run, startingAt]
    split
    · cases system.step state label with
      | none => rfl
      | some between => exact ih between
    · rfl

variable (system) in
def Repeats (label : ι) (before after : σ) : Prop :=
  ∃ count, system.run (fun _ _ => true) before (List.replicate count label) = some after

variable {label : ι} {before middle after : σ}

theorem Repeats.one (made : system.step before label = some after) :
    system.Repeats label before after :=
  ⟨1, by simp [System.run, made]⟩

theorem Repeats.trans (first : system.Repeats label before middle)
    (second : system.Repeats label middle after) : system.Repeats label before after := by
  obtain ⟨count, ran⟩ := first
  obtain ⟨count', ran'⟩ := second
  refine ⟨count + count', ?_⟩
  rw [← List.replicate_append_replicate, System.run_append, ran, Option.bind_some, ran']

end System

def AtMostOne {ι : Type} (property : ι → Bool) : Prop :=
  ∀ one other, property one = true → property other = true → one = other

variable {ι : Type} {before after : ι → Bool} {index : ι}

theorem AtMostOne.alone (one : AtMostOne before) (has : before index = true) :
    ∀ other, other ≠ index → before other = false := by
  intro other different
  cases also : before other with
  | false => rfl
  | true => exact absurd (one other index also has) different

theorem AtMostOne.change (one : AtMostOne before)
    (others : ∀ other, other ≠ index → after other = before other)
    (enters : after index = true → ∀ other, other ≠ index → before other = false) :
    AtMostOne after := by
  intro left right leftHas rightHas
  by_cases leftSame : left = index
  · by_cases rightSame : right = index
    · rw [leftSame, rightSame]
    · -- The changed party has it, so this one did not have it before, and does not now.
      rw [leftSame] at leftHas
      rw [others right rightSame, enters leftHas right rightSame] at rightHas
      cases rightHas
  · by_cases rightSame : right = index
    · rw [rightSame] at rightHas
      rw [others left leftSame, enters rightHas left leftSame] at leftHas
      cases leftHas
    · rw [others left leftSame] at leftHas
      rw [others right rightSame] at rightHas
      exact one left right leftHas rightHas

end

variable {σ ι : Type} {step : σ → ι → σ} {related : σ → σ → Prop}

theorem purge_related (visible : ι → Bool)
    (both : ∀ left right event, visible event = true → related left right →
      related (step left event) (step right event))
    (hidden : ∀ left right event, visible event = false → related left right →
      related (step left event) right)
    (events : List ι) {left right : σ} (start : related left right) :
    related (events.foldl step left) ((events.filter visible).foldl step right) := by
  induction events generalizing left right with
  | nil => exact start
  | cons event rest ih =>
    cases seen : visible event with
    | true =>
      rw [List.filter_cons_of_pos seen, List.foldl_cons, List.foldl_cons]
      exact ih (both left right event seen start)
    | false =>
      rw [List.filter_cons_of_neg (by simp [seen]), List.foldl_cons]
      exact ih (hidden left right event seen start)

end WombatKV
