import Mathlib.Logic.Basic

/-! Programs that make one request after another. -/

namespace WombatKV

inductive Dialogue (ρ π α : Type)
  | done (answer : α)
  | ask (request : ρ) (next : π → Dialogue ρ π α)

namespace Dialogue

variable {ρ π σ ε α β : Type} {request : ρ} {serve : ρ → σ → π × σ} {state : σ} {allowed : ρ → Prop}

def bind : Dialogue ρ π α → (α → Dialogue ρ π β) → Dialogue ρ π β
  | done answer, after => after answer
  | ask request next, after => ask request fun reply => (next reply).bind after

instance : Monad (Dialogue ρ π) where
  pure := done
  bind := bind

@[simp] theorem pure_eq (answer : α) : (pure answer : Dialogue ρ π α) = done answer := rfl

@[simp] theorem done_bind (answer : α) (after : α → Dialogue ρ π β) :
    (done answer : Dialogue ρ π α) >>= after = after answer := rfl

@[simp] theorem ask_bind (request : ρ) (next : π → Dialogue ρ π α) (after : α → Dialogue ρ π β) :
    ask request next >>= after = ask request fun reply => next reply >>= after := rfl

theorem bind_assoc {γ : Type} (program : Dialogue ρ π α) (after : α → Dialogue ρ π β)
    (last : β → Dialogue ρ π γ) :
    program >>= after >>= last = program >>= fun answer => after answer >>= last := by
  induction program with
  | done answer => rfl
  | ask request next ih =>
    simp only [ask_bind]
    exact congrArg (ask request) (funext ih)

def pending : Dialogue ρ π α → Option ρ
  | done _ => none
  | ask request _ => some request

def answer : Dialogue ρ π α → Option α
  | done answer => some answer
  | ask _ _ => none

def run (serve : ρ → σ → π × σ) : Dialogue ρ π α → σ → α × σ
  | done answer, state => (answer, state)
  | ask request next, state =>
    let (reply, after) := serve request state
    (next reply).run serve after

theorem run_bind (serve : ρ → σ → π × σ) (program : Dialogue ρ π α)
    (after : α → Dialogue ρ π β) (state : σ) :
    (program >>= after).run serve state =
      (after (program.run serve state).1).run serve (program.run serve state).2 := by
  induction program generalizing state with
  | done answer => rfl
  | ask request next ih => exact ih _ _

def retry (request : ρ) (parse : π → Except ε α) : Nat → ε → Dialogue ρ π (Except ε α)
  | 0, last => done (.error last)
  | left + 1, _ => ask request fun reply =>
    match parse reply with
    | .ok answer => done (.ok answer)
    | .error error => retry request parse left error

theorem run_retry_ok {parse : π → Except ε α} {left : Nat} {last : ε} {answer : α}
    (usable : parse (serve request state).1 = .ok answer) :
    (retry request parse (left + 1) last).run serve state =
      (.ok answer, (serve request state).2) := by
  simp only [retry, run, usable]

theorem run_retry_error {parse : π → Except ε α} {left : Nat} {last error : ε}
    (unchanged : (serve request state).2 = state)
    (unusable : parse (serve request state).1 = .error error) :
    (retry request parse (left + 1) last).run serve state = (.error error, state) := by
  induction left generalizing last with
  | zero => simp only [retry, run, unusable, unchanged]
  | succ left ih =>
    rw [retry, run]
    simp only [unusable, unchanged]
    exact ih

def afterReply (request : ρ) (parse : π → Except ε α) (left : Nat)
    (after : Except ε α → Dialogue ρ π β) (reply : π) : Dialogue ρ π β :=
  match parse reply with
  | .ok answer => after (.ok answer)
  | .error error => retry request parse left error >>= after

theorem retry_bind (request : ρ) (parse : π → Except ε α) (left : Nat) (last : ε)
    (after : Except ε α → Dialogue ρ π β) :
    retry request parse (left + 1) last >>= after =
      ask request (afterReply request parse left after) := by
  rw [retry, ask_bind]
  congr 1
  funext reply
  rw [afterReply]
  cases parse reply with
  | ok answer => rfl
  | error error => rfl

def Asks (allowed : ρ → Prop) : Dialogue ρ π α → Prop
  | done _ => True
  | ask request next => allowed request ∧ ∀ reply, (next reply).Asks allowed

theorem asks_bind {program : Dialogue ρ π α} {after : α → Dialogue ρ π β}
    (first : program.Asks allowed) (later : ∀ answer, (after answer).Asks allowed) :
    (program >>= after).Asks allowed := by
  induction program with
  | done answer => exact later answer
  | ask request next ih => exact ⟨first.1, fun reply => ih reply (first.2 reply)⟩

theorem asks_retry (allows : allowed request) (parse : π → Except ε α) (left : Nat) (last : ε) :
    (retry request parse left last).Asks allowed := by
  induction left generalizing last with
  | zero => exact trivial
  | succ left ih =>
    refine ⟨allows, fun reply => ?_⟩
    dsimp only
    split
    · exact trivial
    · exact ih _

def Yields (expected : α → Prop) : Dialogue ρ π α → Prop
  | done answer => expected answer
  | ask _ next => ∀ reply, (next reply).Yields expected

theorem yields_bind {expected : β → Prop} (program : Dialogue ρ π α) {after : α → Dialogue ρ π β}
    (later : ∀ answer, (after answer).Yields expected) : (program >>= after).Yields expected := by
  induction program with
  | done answer => exact later answer
  | ask request next ih => exact fun reply => ih reply

theorem Asks.run_keeps {property : σ → Prop}
    (kept : ∀ request state, allowed request → property state → property (serve request state).2)
    {program : Dialogue ρ π α} (asks : program.Asks allowed) (holds : property state) :
    property (program.run serve state).2 := by
  induction program generalizing state with
  | done answer => exact holds
  | ask request next ih => exact ih _ (asks.2 _) (kept request state asks.1 holds)

end Dialogue

end WombatKV
