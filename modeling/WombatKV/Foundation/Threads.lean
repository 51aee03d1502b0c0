import WombatKV.Foundation.Effects
import WombatKV.Foundation.Sorting

/-! Threads of a process that may die between any two steps. -/

namespace WombatKV

open List

/-- How a call ends without an answer: with an error, or with its thread or process gone. -/
inductive Halt (ε : Type)
  | failed (error : ε)
  | crashed
  deriving DecidableEq, Repr

def Halt.map {ε ε' : Type} (change : ε → ε') : Halt ε → Halt ε'
  | .failed error => .failed (change error)
  | .crashed => .crashed

namespace Call

variable {ε ε' σ α : Type}

def attempt (call : Call (Halt ε) σ α) : Call (Halt ε') σ (Except ε α) := fun state =>
  match call state with
  | (.ok answer, after) => (.ok (.ok answer), after)
  | (.error (.failed error), after) => (.ok (.error error), after)
  | (.error .crashed, after) => (.error .crashed, after)

def runThreads : List (Nat × Call (Halt ε) σ α) → Call (Halt ε') σ (List (Nat × Except ε α))
  | [] => return []
  | (number, thread) :: rest => do
    let result ← attempt thread
    let results ← runThreads rest
    return (number, result) :: results

def fanOut (turns : Nat → Nat) (threads : List (Call (Halt ε) σ α)) :
    Call (Halt ε') σ (List (Except ε α)) := do
  let numbered := threads.zipIdx.map fun (thread, number) => (number, thread)
  let results ← runThreads (sortBy (compareOn fun thread => turns thread.1) numbered)
  return (sortBy (compareOn Prod.fst) results).map Prod.snd

def attempted (post : Except (Halt ε') (Except ε α) → σ → Prop) :
    Except (Halt ε) α → σ → Prop
  | .ok answer, after => post (.ok (.ok answer)) after
  | .error (.failed error), after => post (.ok (.error error)) after
  | .error .crashed, after => post (.error .crashed) after

@[simp] theorem ensures_attempt {call : Call (Halt ε) σ α} {state : σ}
    {post : Except (Halt ε') (Except ε α) → σ → Prop} :
    (attempt call).Ensures post state ↔ call.Ensures (attempted post) state := by
  unfold Ensures attempt attempted
  rcases call state with ⟨_ | _, after⟩
  · rename_i halt
    cases halt <;> rfl
  · rfl

section Rules

variable {held dead : σ → Prop} {settled : Nat → Except ε α → σ → Prop}

def Carries (settled : Nat → Except ε α → σ → Prop) (before after : σ) : Prop :=
  ∀ number result, settled number result before → settled number result after

def Settles (held dead : σ → Prop) (settled : Nat → Except ε α → σ → Prop) (number : Nat)
    (thread : Call (Halt ε) σ α) : Prop :=
  ∀ state, held state → thread.Ensures (fun result after =>
    match result with
    | .ok answer => held after ∧ Carries settled state after ∧ settled number (.ok answer) after
    | .error (.failed error) =>
      held after ∧ Carries settled state after ∧ settled number (.error error) after
    | .error .crashed => dead after) state

def AllSettled (held dead : σ → Prop) (settled : Nat → Except ε α → σ → Prop) (numbers : List Nat)
    (before : σ) : Except (Halt ε') (List (Nat × Except ε α)) → σ → Prop
  | .ok results, after => held after ∧ Carries settled before after ∧
      results.map Prod.fst = numbers ∧
      ∀ number result, (number, result) ∈ results → settled number result after
  | .error (.failed _), _ => False
  | .error .crashed, after => dead after

theorem runThreads_settles {threads : List (Nat × Call (Halt ε) σ α)}
    (settles : ∀ number thread, (number, thread) ∈ threads → Settles held dead settled number thread)
    {state : σ} (begun : held state) :
    (runThreads threads : Call (Halt ε') σ _).Ensures
      (AllSettled held dead settled (threads.map Prod.fst) state) state := by
  induction threads generalizing state with
  | nil =>
    refine ⟨begun, fun _ _ found => found, rfl, ?_⟩
    intro number result member
    cases member
  | cons entry rest ih =>
    obtain ⟨number, thread⟩ := entry
    simp only [runThreads, ensures_bind, ensures_attempt]
    have ran := settles number thread (mem_cons_self ..) state begun
    refine ran.weaken fun result after first => ?_
    have others (found : Except ε α) (kept : held after) (earlier : Carries settled state after)
        (mine : settled number found after) :
        (runThreads rest >>= fun results => pure ((number, found) :: results) :
          Call (Halt ε') σ _).Ensures
          (AllSettled held dead settled (number :: rest.map Prod.fst) state) after := by
      rw [ensures_bind]
      have rested := ih (fun number thread member =>
        settles number thread (mem_cons_of_mem _ member)) kept
      refine rested.weaken fun outcome last second => ?_
      cases outcome with
      | error halt =>
        cases halt with
        | failed error => exact second.elim
        | crashed => exact second
      | ok results =>
        obtain ⟨keptOn, later, numbers, each⟩ := second
        refine ⟨keptOn, fun other was found => later other was (earlier other was found),
          by simp [numbers], ?_⟩
        intro other result member
        rcases mem_cons.mp member with same | member
        · cases same
          exact later number found mine
        · exact each other result member
    cases result with
    | ok answer => exact others (.ok answer) first.1 first.2.1 first.2.2
    | error halt =>
      cases halt with
      | failed error => exact others (.error error) first.1 first.2.1 first.2.2
      | crashed => exact first

theorem sorted_results {results : List (Nat × Except ε α)} {count : Nat}
    (numbers : (results.map Prod.fst).Perm (List.range count)) :
    (sortBy (compareOn Prod.fst) results).map Prod.fst = List.range count := by
  refine List.Perm.eq_of_pairwise (fun _ _ _ _ => Nat.le_antisymm) ?_
    pairwise_le_range (((sortBy_perm _ results).map Prod.fst).trans numbers)
  rw [pairwise_map]
  refine (sortBy_pairwise (compareOn Prod.fst) results).imp fun up => ?_
  simpa [compareOn, Nat.isLE_compare] using up

def Returns (held dead : σ → Prop) (settled : Nat → Except ε α → σ → Prop) (count : Nat) :
    Except (Halt ε') (List (Except ε α)) → σ → Prop
  | .ok results, after => held after ∧ results.length = count ∧
      ∀ number result, results[number]? = some result → settled number result after
  | .error (.failed _), _ => False
  | .error .crashed, after => dead after

theorem fanOut_returns {turns : Nat → Nat} {threads : List (Call (Halt ε) σ α)}
    (settles : ∀ number thread, threads[number]? = some thread →
      Settles held dead settled number thread) {state : σ} (begun : held state) :
    (fanOut turns threads : Call (Halt ε') σ _).Ensures
      (Returns held dead settled threads.length) state := by
  generalize order : sortBy (compareOn fun thread : Nat × Call (Halt ε) σ α => turns thread.1)
    (threads.zipIdx.map fun (thread, number) => (number, thread)) = scheduled
  have members (number : Nat) (thread : Call (Halt ε) σ α)
      (member : (number, thread) ∈ scheduled) : threads[number]? = some thread := by
    rw [← order, mem_sortBy] at member
    obtain ⟨⟨found, place⟩, inside, same⟩ := mem_map.mp member
    cases same
    exact mem_zipIdx_iff_getElem?.mp inside
  have numbers : (scheduled.map Prod.fst).Perm (List.range threads.length) := by
    rw [← order]
    refine ((sortBy_perm _ _).map Prod.fst).trans ?_
    rw [map_map]
    have second : (Prod.fst ∘ fun entry : Call (Halt ε) σ α × Nat => (entry.2, entry.1)) =
        Prod.snd := rfl
    rw [second, zipIdx_map_snd, range_eq_range']
  simp only [fanOut, ensures_bind, order]
  refine (runThreads_settles (fun number thread member =>
    settles number thread (members number thread member)) begun).weaken fun outcome after ran => ?_
  cases outcome with
  | error halt =>
    cases halt with
    | failed error => exact ran.elim
    | crashed => exact ran
  | ok results =>
    obtain ⟨kept, -, same, each⟩ := ran
    have places := sorted_results (same ▸ numbers)
    refine ⟨kept, ?_, ?_⟩
    · simpa using congrArg List.length places
    · intro number result found
      rw [List.getElem?_map, Option.map_eq_some_iff] at found
      obtain ⟨⟨place, value⟩, here, rfl⟩ := found
      have placed := congrArg (·[number]?) places
      simp only [List.getElem?_map, here, Option.map_some] at placed
      have inside : number < threads.length := by
        by_contra outside
        rw [List.getElem?_eq_none (by simpa using outside)] at placed
        cases placed
      rw [List.getElem?_range inside] at placed
      cases placed
      exact each number value ((mem_sortBy _).mp (mem_of_getElem? here))

end Rules

end Call

end WombatKV
