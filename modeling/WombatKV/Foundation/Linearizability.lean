import Mathlib.Data.List.Nodup

/-! Overlapping calls, and sequential orders that explain them. -/

namespace WombatKV

open List

structure SequentialObject (σ ω ρ : Type) where
  start : σ
  apply : σ → ω → ρ × σ

inductive CallEvent (ω ρ : Type)
  | invoked (call : Nat) (op : ω)
  | returned (call : Nat) (answer : ρ)
  deriving DecidableEq

structure LoggedCall (ω ρ : Type) where
  call : Nat
  op : ω
  answer : ρ

def callsOf {ω ρ : Type} (log : List (LoggedCall ω ρ)) : List Nat := log.map LoggedCall.call

namespace SequentialObject

variable {σ ω ρ : Type} (object : SequentialObject σ ω ρ)

def stateFrom (state : σ) (log : List (LoggedCall ω ρ)) : σ :=
  log.foldl (fun state entry => (object.apply state entry.op).2) state

def Explains (state : σ) : List (LoggedCall ω ρ) → Prop
  | [] => True
  | entry :: rest =>
    (object.apply state entry.op).1 = entry.answer ∧ Explains (object.apply state entry.op).2 rest

variable {object} {state : σ} {front back : List (LoggedCall ω ρ)}

theorem explains_append : object.Explains state (front ++ back) ↔
    object.Explains state front ∧ object.Explains (object.stateFrom state front) back := by
  induction front generalizing state with
  | nil => simp [Explains, stateFrom]
  | cons entry rest ih =>
    simp only [cons_append, Explains, ih, stateFrom, foldl_cons, and_assoc]

theorem stateFrom_append :
    object.stateFrom state (front ++ back) = object.stateFrom (object.stateFrom state front) back :=
  foldl_append

end SequentialObject

variable {σ ω ρ : Type} {object : SequentialObject σ ω ρ} {history : List (CallEvent ω ρ)}
  {log : List (LoggedCall ω ρ)}

structure Linearization (object : SequentialObject σ ω ρ) (history : List (CallEvent ω ρ))
    (log : List (LoggedCall ω ρ)) : Prop where
  explains : object.Explains object.start log
  distinct : (callsOf log).Nodup
  invoked : ∀ entry ∈ log, .invoked entry.call entry.op ∈ history
  answered : ∀ call answer, .returned call answer ∈ history →
    ∃ entry ∈ log, entry.call = call ∧ entry.answer = answer
  ordered : ∀ front earlier answer later op back,
    history = front ++ .invoked later op :: back → .returned earlier answer ∈ front →
      later ∈ callsOf log → [earlier, later].Sublist (callsOf log)

def Linearizable (object : SequentialObject σ ω ρ) (history : List (CallEvent ω ρ)) : Prop :=
  ∃ log, Linearization object history log

theorem split_concat {α : Type} {items front back : List α} {last item : α}
    (split : items ++ [last] = front ++ item :: back) :
    last = item ∨ ∃ others, items = front ++ item :: others := by
  rcases eq_nil_or_concat' back with rfl | ⟨others, final, rfl⟩
  · obtain ⟨-, same⟩ := append_inj' split rfl
    exact .inl (singleton_inj.mp same)
  · have shape : items ++ [last] = (front ++ item :: others) ++ [final] := by
      rw [split, append_assoc, cons_append]
    exact .inr ⟨others, (append_inj' shape rfl).1⟩

namespace Linearization

theorem nil : Linearization object [] [] where
  explains := trivial
  distinct := nodup_nil
  invoked _ member := by cases member
  answered _ _ member := by cases member
  ordered _ _ _ _ _ _ _ _ member := by cases member

variable {op : ω} {answer : ρ} {entry : LoggedCall ω ρ}

variable (linear : Linearization object history log)

include linear

theorem invoke {call : Nat} (fresh : call ∉ callsOf log)
    : Linearization object (history ++ [.invoked call op]) log where
  explains := linear.explains
  distinct := linear.distinct
  invoked entry member := mem_append_left _ (linear.invoked entry member)
  answered answeredCall answer member := by
    have earlier : .returned answeredCall answer ∈ history := by simpa using member
    exact linear.answered answeredCall answer earlier
  ordered front earlier answer later laterOp back split returned placed := by
    rcases split_concat split with same | ⟨others, inside⟩
    · cases same
      exact absurd placed fresh
    · exact linear.ordered front earlier answer later laterOp others inside returned placed

theorem point {call : Nat} (invoked : .invoked call op ∈ history) (unplaced : call ∉ callsOf log)
    (answers : (object.apply (object.stateFrom object.start log) op).1 = answer) :
    Linearization object history (log ++ [⟨call, op, answer⟩]) where
  explains := SequentialObject.explains_append.mpr ⟨linear.explains, answers, trivial⟩
  distinct := by
    rw [callsOf, map_append]
    exact nodup_append.mpr ⟨linear.distinct, nodup_singleton _, by
      rintro placed member _ last rfl
      cases mem_singleton.mp last
      exact unplaced member⟩
  invoked entry member := by
    rcases mem_append.mp member with earlier | last
    · exact linear.invoked entry earlier
    · cases mem_singleton.mp last
      exact invoked
  answered answeredCall found member := by
    obtain ⟨entry, placed, same⟩ := linear.answered answeredCall found member
    exact ⟨entry, mem_append_left _ placed, same⟩
  ordered front earlier found later laterOp back split returned placed := by
    rw [callsOf, map_append] at placed ⊢
    rcases mem_append.mp placed with before | last
    · have inner := linear.ordered front earlier found later laterOp back split returned before
      exact inner.trans (sublist_append_left _ _)
    · -- Whatever has returned has a place already.
      cases mem_singleton.mp last
      have member : .returned earlier found ∈ history := by
        rw [split]
        exact mem_append_left _ returned
      obtain ⟨entry, there, rfl, -⟩ := linear.answered earlier found member
      have single : [entry.call].Sublist (log.map LoggedCall.call) :=
        singleton_sublist.mpr (mem_map_of_mem there)
      exact single.append (List.Sublist.refl [call])

theorem finish (placed : entry ∈ log) :
    Linearization object (history ++ [.returned entry.call entry.answer]) log where
  explains := linear.explains
  distinct := linear.distinct
  invoked other member := mem_append_left _ (linear.invoked other member)
  answered call answer member := by
    rcases mem_append.mp member with earlier | last
    · exact linear.answered call answer earlier
    · cases mem_singleton.mp last
      exact ⟨entry, placed, rfl, rfl⟩
  ordered front earlier answer later op back split returned there := by
    rcases split_concat split with same | ⟨others, inside⟩
    · cases same
    · exact linear.ordered front earlier answer later op others inside returned there

omit linear in
theorem not_both_orders {α : Type} {items : List α} {left right : α} (distinct : items.Nodup)
    (forwards : [left, right].Sublist items) : ¬ [right, left].Sublist items := by
  intro backwards
  induction items with
  | nil => cases forwards
  | cons first rest ih =>
    obtain ⟨absent, behind⟩ := nodup_cons.mp distinct
    cases forwards with
    | cons _ inner =>
      cases backwards with
      | cons _ other => exact ih behind inner other
      | cons_cons _ _ =>
        exact absent (inner.subset (mem_cons_of_mem _ (mem_singleton_self _)))
    | cons_cons _ inner =>
      cases backwards with
      | cons _ other =>
        exact absent (other.subset (mem_cons_of_mem _ (mem_singleton_self _)))
      | cons_cons _ _ => exact absent (inner.subset (mem_singleton_self _))

theorem not_behind {first last : List (LoggedCall ω ρ)} {events rest : List (CallEvent ω ρ)}
    {earlier : Nat} (split : log = first ++ entry :: last)
    (happened : history = events ++ .invoked entry.call op :: rest)
    (returned : .returned earlier answer ∈ events) : earlier ∉ callsOf last := by
  intro behind
  have placed : entry.call ∈ callsOf log := by simp [callsOf, split]
  have forwards := linear.ordered events earlier answer entry.call op rest happened returned placed
  have backwards : [entry.call, earlier].Sublist (callsOf log) := by
    have pair : [entry.call, earlier].Sublist (entry.call :: callsOf last) :=
      (singleton_sublist.mpr behind).cons_cons _
    rw [split, callsOf, map_append]
    exact pair.trans (sublist_append_right _ _)
  exact not_both_orders linear.distinct forwards backwards

theorem behind {first last : List (LoggedCall ω ρ)} {events rest : List (CallEvent ω ρ)}
    {later : LoggedCall ω ρ} (split : log = first ++ entry :: last)
    (happened : history = events ++ .invoked later.call op :: rest)
    (returned : .returned entry.call answer ∈ events) (placed : later ∈ log) : later ∈ last := by
  have there : later.call ∈ callsOf log := mem_map_of_mem placed
  have forwards := linear.ordered events entry.call answer later.call op rest happened returned there
  have distinct := linear.distinct
  rw [split, mem_append, mem_cons] at placed
  rcases placed with before | rfl | last
  · -- The other order would hold as well.
    have backwards : [later.call, entry.call].Sublist (callsOf log) := by
      have pair : [later.call].Sublist (callsOf first) :=
        singleton_sublist.mpr (mem_map_of_mem before)
      have single : [entry.call].Sublist (entry.call :: callsOf last) :=
        (nil_sublist _).cons_cons _
      rw [split, callsOf, map_append]
      exact pair.append single
    exact absurd backwards (not_both_orders distinct forwards)
  · exact absurd forwards (not_both_orders distinct forwards)
  · exact last

end Linearization

end WombatKV

