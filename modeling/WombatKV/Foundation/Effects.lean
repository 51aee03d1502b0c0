import WombatKV.Foundation.Bytes

/-! Calls that may fail without undoing what they did before. -/

namespace WombatKV

def Call (ε σ α : Type) : Type := σ → Except ε α × σ

namespace Call

variable {ε ε' σ τ α β : Type} {after state : σ} {call : Call ε σ α}

instance : Monad (Call ε σ) where
  pure answer := fun state => (.ok answer, state)
  bind call next := fun state =>
    match call state with
    | (.ok answer, after) => next answer after
    | (.error error, after) => (.error error, after)

instance : MonadExceptOf ε (Call ε σ) where
  throw error := fun state => (.error error, state)
  tryCatch call handler := fun state =>
    match call state with
    | (.ok answer, after) => (.ok answer, after)
    | (.error error, after) => handler error after

instance : MonadStateOf σ (Call ε σ) where
  get := fun state => (.ok state, state)
  set after := fun _ => (.ok (), after)
  modifyGet change := fun state =>
    let (answer, after) := change state
    (.ok answer, after)

def on (field : σ → τ) (store : τ → σ → σ) (call : Call ε τ α) : Call ε σ α := fun state =>
  let (answer, after) := call (field state)
  (answer, store after state)

def mapError (change : ε → ε') (call : Call ε σ α) : Call ε' σ α := fun state =>
  match call state with
  | (.ok answer, after) => (.ok answer, after)
  | (.error error, after) => (.error (change error), after)

def lift (result : Except ε α) : Call ε σ α := fun state => (result, state)

@[simp] theorem pure_apply (answer : α) (state : σ) :
    (pure answer : Call ε σ α) state = (.ok answer, state) := rfl

@[simp] theorem throw_apply (error : ε) (state : σ) :
    (throw error : Call ε σ α) state = (.error error, state) := rfl

theorem tryCatch_apply (call : Call ε σ α) (handler : ε → Call ε σ α) (state : σ) :
    (tryCatch call handler) state = match call state with
      | (.ok answer, after) => (.ok answer, after)
      | (.error error, after) => handler error after := rfl

@[simp] theorem get_apply (state : σ) : (get : Call ε σ σ) state = (.ok state, state) := rfl

@[simp] theorem set_apply (after state : σ) :
    (set after : Call ε σ PUnit) state = (.ok (), after) := rfl

@[simp] theorem modify_apply (change : σ → σ) (state : σ) :
    (modify change : Call ε σ PUnit) state = (.ok (), change state) := rfl

@[simp] theorem lift_apply (result : Except ε α) (state : σ) :
    (lift result : Call ε σ α) state = (result, state) := rfl

@[simp] theorem on_apply (field : σ → τ) (store : τ → σ → σ) (call : Call ε τ α) (state : σ) :
    on field store call state = ((call (field state)).1, store (call (field state)).2 state) := rfl

theorem bind_ok {next : α → Call ε σ β} {answer : α} (first : call state = (.ok answer, after)) :
    (call >>= next) state = next answer after := by
  show (match call state with
    | (.ok answer, after) => next answer after
    | (.error error, after) => (.error error, after)) = _
  rw [first]

theorem bind_error {next : α → Call ε σ β} {error : ε} (first : call state = (.error error, after)) :
    (call >>= next) state = (.error error, after) := by
  show (match call state with
    | (.ok answer, after) => next answer after
    | (.error error, after) => (.error error, after)) = _
  rw [first]

theorem tryCatch_ok {handler : ε → Call ε σ α} {answer : α} (ran : call state = (.ok answer, after)) :
    tryCatch call handler state = (.ok answer, after) := by
  rw [tryCatch_apply, ran]

theorem tryCatch_error {handler : ε → Call ε σ α} {error : ε}
    (ran : call state = (.error error, after)) :
    tryCatch call handler state = handler error after := by
  rw [tryCatch_apply, ran]

@[simp] theorem pure_bind_apply (answer : α) (next : α → Call ε σ β) (state : σ) :
    (pure answer >>= next) state = next answer state := rfl

@[simp] theorem throw_bind_apply (error : ε) (next : α → Call ε σ β) (state : σ) :
    ((throw error : Call ε σ α) >>= next) state = (.error error, state) := rfl

@[simp] theorem lift_ok_bind_apply (answer : α) (next : α → Call ε σ β) (state : σ) :
    ((lift (.ok answer) : Call ε σ α) >>= next) state = next answer state := rfl

@[simp] theorem lift_error_bind_apply (error : ε) (next : α → Call ε σ β) (state : σ) :
    ((lift (.error error) : Call ε σ α) >>= next) state = (.error error, state) := rfl

@[simp] theorem get_bind_apply (next : σ → Call ε σ β) (state : σ) :
    ((get : Call ε σ σ) >>= next) state = next state state := rfl

@[simp] theorem set_bind_apply (after : σ) (next : PUnit → Call ε σ β) (state : σ) :
    ((set after : Call ε σ PUnit) >>= next) state = next () after := rfl

@[simp] theorem modify_bind_apply (change : σ → σ) (next : PUnit → Call ε σ β) (state : σ) :
    ((modify change : Call ε σ PUnit) >>= next) state = next () (change state) := rfl

theorem bind_eq {first second : Call ε σ α} {state other : σ} (same : first state = second other)
    (next : α → Call ε σ β) : (first >>= next) state = (second >>= next) other := by
  rcases ran : second other with ⟨error | answer, after⟩
  · rw [bind_error (same.trans ran), bind_error ran]
  · rw [bind_ok (same.trans ran), bind_ok ran]

theorem bind_cases (call : Call ε σ α) (next : α → Call ε σ β) (state : σ) :
    (∃ error, (call state).1 = .error error ∧
        (call >>= next) state = (.error error, (call state).2)) ∨
      (∃ answer, (call state).1 = .ok answer ∧
        (call >>= next) state = next answer (call state).2) := by
  rcases ran : call state with ⟨_ | _, after⟩
  · exact .inl ⟨_, rfl, bind_error ran⟩
  · exact .inr ⟨_, rfl, bind_ok ran⟩

end Call

theorem except_bind_eq_ok {ε α β : Type} {first : Except ε α} {next : α → Except ε β} {answer : β} :
    (first >>= next) = .ok answer ↔ ∃ middle, first = .ok middle ∧ next middle = .ok answer := by
  cases first with
  | error error => simp [Bind.bind, Except.bind]
  | ok middle => simp [Bind.bind, Except.bind]

namespace Call

variable {ε ε' σ τ α β : Type}

def Ensures (call : Call ε σ α) (post : Except ε α → σ → Prop) (state : σ) : Prop :=
  post (call state).1 (call state).2

def andThen (next : α → σ → Prop) (post : Except ε β → σ → Prop) : Except ε α → σ → Prop
  | .ok answer, after => next answer after
  | .error error, after => post (.error error) after

variable {post : Except ε α → σ → Prop} {state : σ} {call : Call ε σ α}

@[simp] theorem andThen_ok {next : α → σ → Prop} {post : Except ε β → σ → Prop} {answer : α} :
    andThen next post (.ok answer) state ↔ next answer state := Iff.rfl

@[simp] theorem andThen_error {next : α → σ → Prop} {post : Except ε β → σ → Prop} {error : ε} :
    andThen next post (.error error) state ↔ post (.error error) state := Iff.rfl

@[simp] theorem ensures_pure {answer : α} :
    (pure answer : Call ε σ α).Ensures post state ↔ post (.ok answer) state := Iff.rfl

@[simp] theorem ensures_throw {error : ε} :
    (throw error : Call ε σ α).Ensures post state ↔ post (.error error) state := Iff.rfl

@[simp] theorem ensures_lift {result : Except ε α} :
    (lift result : Call ε σ α).Ensures post state ↔ post result state := Iff.rfl

@[simp] theorem ensures_get {post : Except ε σ → σ → Prop} :
    (get : Call ε σ σ).Ensures post state ↔ post (.ok state) state := Iff.rfl

@[simp] theorem ensures_set {post : Except ε PUnit → σ → Prop} {after : σ} :
    (set after : Call ε σ PUnit).Ensures post state ↔ post (.ok ()) after := Iff.rfl

@[simp] theorem ensures_modify {post : Except ε PUnit → σ → Prop} {change : σ → σ} :
    (modify change : Call ε σ PUnit).Ensures post state ↔ post (.ok ()) (change state) := Iff.rfl

@[simp] theorem ensures_mapError {change : ε → ε'} {post : Except ε' α → σ → Prop} :
    (mapError change call).Ensures post state ↔
      call.Ensures (fun result after => post (result.mapError change) after) state := by
  unfold Ensures mapError
  rcases call state with ⟨_ | _, after⟩ <;> rfl

@[simp] theorem ensures_tryCatch {handler : ε → Call ε σ α} :
    (tryCatch call handler).Ensures post state ↔ call.Ensures (fun result after =>
      match result with
      | .ok answer => post (.ok answer) after
      | .error error => (handler error).Ensures post after) state := by
  rw [Ensures, tryCatch_apply, Ensures]
  rcases call state with ⟨_ | _, after⟩ <;> rfl

@[simp] theorem ensures_on {field : σ → τ} {store : τ → σ → σ} {call : Call ε τ α} :
    (on field store call).Ensures post state ↔
      call.Ensures (fun result after => post result (store after state)) (field state) := Iff.rfl

@[simp] theorem ensures_bind {next : α → Call ε σ β} {post : Except ε β → σ → Prop} :
    (call >>= next).Ensures post state ↔
      call.Ensures (andThen (fun answer => (next answer).Ensures post) post) state := by
  rcases bind_cases call next state with ⟨error, failed, ran⟩ | ⟨answer, answered, ran⟩
  · simp only [Ensures, ran, failed, andThen_error]
  · simp only [Ensures, ran, answered, andThen_ok]

theorem Ensures.weaken {wider : Except ε α → σ → Prop} (ensured : call.Ensures post state)
    (implied : ∀ result after, post result after → wider result after) : call.Ensures wider state :=
  implied _ _ ensured

theorem Ensures.and {other : Except ε α → σ → Prop} (ensured : call.Ensures post state)
    (too : call.Ensures other state) :
    call.Ensures (fun result after => post result after ∧ other result after) state :=
  ⟨ensured, too⟩

end Call

def Lockstep {ε σ τ α : Type} (related : σ → τ → Prop) (left : Call ε σ α) (right : Call ε τ α) :
    Prop :=
  ∀ s t, related s t → (left s).1 = (right t).1 ∧ related (left s).2 (right t).2

abbrev Respects {ε σ α : Type} (related : σ → σ → Prop) (call : Call ε σ α) : Prop :=
  Lockstep related call call

namespace Lockstep

variable {ε σ τ α β : Type} {related : σ → τ → Prop}

theorem pure (answer : α) :
    Lockstep related (pure answer : Call ε σ α) (pure answer : Call ε τ α) :=
  fun _ _ start => ⟨rfl, start⟩

theorem throw (error : ε) :
    Lockstep related (throw error : Call ε σ α) (throw error : Call ε τ α) :=
  fun _ _ start => ⟨rfl, start⟩

theorem lift (result : Except ε α) :
    Lockstep related (Call.lift result : Call ε σ α) (Call.lift result : Call ε τ α) :=
  fun _ _ start => ⟨rfl, start⟩

theorem modify {left : σ → σ} {right : τ → τ}
    (kept : ∀ s t, related s t → related (left s) (right t)) :
    Lockstep related (modify left : Call ε σ PUnit) (modify right : Call ε τ PUnit) :=
  fun s t start => ⟨rfl, kept s t start⟩

theorem get_bind {left : σ → Call ε σ α} {right : τ → Call ε τ α}
    (rest : ∀ s t, related s t → (left s s).1 = (right t t).1 ∧ related (left s s).2 (right t t).2)
    :
    Lockstep related (get >>= left) (get >>= right) :=
  fun s t start => rest s t start

theorem on {υ ω : Type} {inner : υ → ω → Prop} {leftField : σ → υ} {leftStore : υ → σ → σ}
    {rightField : τ → ω} {rightStore : ω → τ → τ} {left : Call ε υ α} {right : Call ε ω α}
    (calls : Lockstep inner left right)
    (fields : ∀ s t, related s t → inner (leftField s) (rightField t))
    (stored : ∀ s t u v, related s t → inner u v → related (leftStore u s) (rightStore v t)) :
    Lockstep related (Call.on leftField leftStore left) (Call.on rightField rightStore right) :=
  fun s t start =>
    have ran := calls _ _ (fields s t start)
    ⟨ran.1, stored s t _ _ start ran.2⟩

theorem bind_where {answers : α → Prop} {left : Call ε σ α} {right : Call ε τ α}
    {leftNext : α → Call ε σ β} {rightNext : α → Call ε τ β} (first : Lockstep related left right)
    (given : ∀ s t, related s t → ∀ answer, (left s).1 = .ok answer → answers answer)
    (rest : ∀ answer, answers answer → Lockstep related (leftNext answer) (rightNext answer)) :
    Lockstep related (left >>= leftNext) (right >>= rightNext) := by
  intro s t start
  obtain ⟨same, between⟩ := first s t start
  rcases Call.bind_cases left leftNext s with ⟨error, failed, ran⟩ | ⟨answer, answered, ran⟩
  · -- The same failure stops both sides.
    have stopped : right t = (.error error, (right t).2) := Prod.ext (same.symm.trans failed) rfl
    rw [ran, Call.bind_error stopped]
    exact ⟨rfl, between⟩
  · -- The same answer hands both sides over to their continuations.
    have passed : right t = (.ok answer, (right t).2) := Prod.ext (same.symm.trans answered) rfl
    rw [ran, Call.bind_ok passed]
    exact rest answer (given s t start answer answered) _ _ between

theorem bind {left : Call ε σ α} {right : Call ε τ α} {leftNext : α → Call ε σ β}
    {rightNext : α → Call ε τ β} (first : Lockstep related left right)
    (rest : ∀ answer, Lockstep related (leftNext answer) (rightNext answer)) :
    Lockstep related (left >>= leftNext) (right >>= rightNext) :=
  bind_where first (fun _ _ _ _ _ => trivial) fun answer _ => rest answer

end Lockstep

inductive Trap (ε : Type)
  | failed (error : ε)
  | outOfBounds
  deriving DecidableEq, Repr

abbrev Checked (ε α : Type) := Except (Trap ε) α

namespace Checked

variable {ε ε' α β : Type}

def fail (error : ε) : Checked ε α := .error (.failed error)

def range (bytes : Bytes) (start stop : Nat) : Checked ε Bytes :=
  if start ≤ stop ∧ stop ≤ bytes.length then .ok (slice bytes start stop) else .error .outOfBounds

def mapError (change : ε → ε') : Checked ε α → Checked ε' α
  | .ok value => .ok value
  | .error (.failed error) => .error (.failed (change error))
  | .error .outOfBounds => .error .outOfBounds

def Inside (result : Checked ε α) : Prop := result ≠ .error .outOfBounds

theorem range_eq_ok {bytes : Bytes} {start stop : Nat} (ordered : start ≤ stop)
    (inside : stop ≤ bytes.length) :
    (range bytes start stop : Checked ε Bytes) = .ok (slice bytes start stop) :=
  if_pos ⟨ordered, inside⟩

theorem inside_ok (value : α) : Inside (.ok value : Checked ε α) := by
  simp [Inside]

theorem inside_fail (error : ε) : Inside (fail error : Checked ε α) := by
  simp [Inside, fail]

theorem inside_bind {first : Checked ε α} {next : α → Checked ε β} (inside : Inside first)
    (then_ : ∀ value, first = .ok value → Inside (next value)) : Inside (first >>= next) := by
  cases first with
  | ok value => exact then_ value rfl
  | error trap =>
    intro outside
    exact inside (congrArg Except.error (Except.error.inj outside))

theorem inside_range_bind {bytes : Bytes} {start stop : Nat} {next : Bytes → Checked ε β}
    (ordered : start ≤ stop) (within : stop ≤ bytes.length)
    (then_ : Inside (next (slice bytes start stop))) :
    Inside (range bytes start stop >>= next) := by
  rw [range_eq_ok ordered within]
  exact then_

theorem inside_mapError {change : ε → ε'} {result : Checked ε α} (inside : Inside result) :
    Inside (mapError change result) := by
  rcases result with (_ | _) | _
  · simp [Inside, mapError]
  · exact absurd rfl inside
  · simp [Inside, mapError]

end Checked

namespace Call

variable {ε σ α β : Type} {property : α → Prop}

def Contained (call : Call (Trap ε) σ α) (property : α → Prop) : Prop :=
  ∀ state, Checked.Inside (call state).1 ∧ ∀ answer, (call state).1 = .ok answer → property answer

theorem contained_pure {answer : α} (holds : property answer) :
    (pure answer : Call (Trap ε) σ α).Contained property := by
  intro state
  refine ⟨Checked.inside_ok answer, ?_⟩
  rintro _ ⟨⟩
  exact holds

theorem contained_throw {error : ε} :
    (throw (.failed error) : Call (Trap ε) σ α).Contained property :=
  fun _ => ⟨Checked.inside_fail error, nofun⟩

theorem contained_lift {result : Checked ε α} (inside : Checked.Inside result)
    (holds : ∀ answer, result = .ok answer → property answer) :
    (lift result : Call (Trap ε) σ α).Contained property :=
  fun _ => ⟨inside, holds⟩

theorem contained_bind {call : Call (Trap ε) σ α} {next : α → Call (Trap ε) σ β}
    {middle : α → Prop} {property : β → Prop} (first : call.Contained middle)
    (later : ∀ between, middle between → (next between).Contained property) :
    (call >>= next).Contained property := by
  intro state
  rcases bind_cases call next state with ⟨error, failed, ran⟩ | ⟨between, passed, ran⟩
  · rw [ran]
    refine ⟨?_, nofun⟩
    intro outside
    exact (first state).1 (failed.trans (congrArg Except.error (Except.error.inj outside)))
  · rw [ran]
    exact later between ((first state).2 between passed) _

end Call

end WombatKV
