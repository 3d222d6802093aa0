import Mathlib.Logic.Relation

/-!
Runs of a machine whose steps can fail, and the rule that carries an invariant along a run whose
steps all meet a guard.
-/

namespace Runs

variable {ε State Input : Type}

def run (step : State → Input → Except ε State) (state : State) : List Input → Except ε State
  | [] => .ok state
  | input :: rest =>
    match step state input with
    | .ok next => run step next rest
    | .error fault => .error fault

def Along (step : State → Input → Except ε State) (guard : State → Input → Prop) :
    State → List Input → Prop
  | _, [] => True
  | state, input :: rest =>
    guard state input ∧ ∀ next, step state input = .ok next → Along step guard next rest

variable {step : State → Input → Except ε State} {guard : State → Input → Prop}

theorem run_cons {state next : State} {input : Input} (ok : step state input = .ok next)
    (rest : List Input) : run step state (input :: rest) = run step next rest := by
  simp only [run, ok]

theorem run_cons_ok {state final : State} {input : Input} {rest : List Input}
    (ok : run step state (input :: rest) = .ok final) :
    ∃ next, step state input = .ok next ∧ run step next rest = .ok final := by
  cases result : step state input with
  | ok next => exact ⟨next, rfl, by simpa only [run, result] using ok⟩
  | error fault => simp [run, result] at ok

theorem run_append (state : State) (first second : List Input) :
    run step state (first ++ second) = (run step state first).bind fun next =>
      run step next second := by
  induction first generalizing state with
  | nil => rfl
  | cons input rest ih =>
      simp only [List.cons_append, run]
      cases step state input with
      | ok next => exact ih next
      | error fault => rfl

theorem along_cons {state next : State} {input : Input} {rest : List Input}
    (meets : guard state input) (ok : step state input = .ok next)
    (later : Along step guard next rest) :
    Along step guard state (input :: rest) := by
  refine ⟨meets, fun other stepped => ?_⟩
  rw [ok] at stepped
  cases stepped
  exact later

theorem along_of_forall {allowed : Input → Prop} (state : State) {inputs : List Input}
    (all : ∀ input ∈ inputs, allowed input) :
    Along step (fun _ input => allowed input) state inputs := by
  induction inputs generalizing state with
  | nil => trivial
  | cons input rest ih =>
      exact ⟨all input (by simp), fun next _ => ih next fun other member =>
        all other (List.mem_cons_of_mem _ member)⟩

/-- An invariant that each guarded step keeps holds at the end of every guarded run. -/
theorem run_invariant {invariant : State → Prop}
    (keeps : ∀ state input next, invariant state → guard state input →
      step state input = .ok next → invariant next)
    {state final : State} {inputs : List Input} (start : invariant state)
    (along : Along step guard state inputs) (ok : run step state inputs = .ok final) :
    invariant final := by
  induction inputs generalizing state with
  | nil =>
      cases ok
      exact start
  | cons input rest ih =>
      obtain ⟨next, stepped, ran⟩ := run_cons_ok ok
      exact ih (keeps _ _ _ start along.1 stepped) (along.2 next stepped) ran

/-- A run gets to its end when no guarded step fails in a state that meets the invariant. -/
theorem run_total {invariant : State → Prop}
    (progress : ∀ state input, invariant state → guard state input →
      ∃ next, step state input = .ok next ∧ invariant next)
    {state : State} {inputs : List Input} (start : invariant state)
    (along : Along step guard state inputs) :
    ∃ final, run step state inputs = .ok final ∧ invariant final := by
  induction inputs generalizing state with
  | nil => exact ⟨state, rfl, start⟩
  | cons input rest ih =>
      obtain ⟨next, stepped, holds⟩ := progress _ _ start along.1
      obtain ⟨final, ran, last⟩ := ih holds (along.2 next stepped)
      exact ⟨final, by rw [run_cons stepped, ran], last⟩

theorem run_map {Choice : Type} (choose : Choice → Input) (state : State) (choices : List Choice) :
    run step state (choices.map choose) =
      run (fun state choice => step state (choose choice)) state choices := by
  induction choices generalizing state with
  | nil => rfl
  | cons choice rest ih =>
      simp only [List.map_cons, run]
      cases step state (choose choice) with
      | ok next => exact ih next
      | error fault => rfl

/-! Work that runs out. Each step for an input that waits does some of the work, and a step for an
input that does not wait does nothing. -/

section

variable {Ghost : Type} {holds : State → Ghost → Prop} {work : Ghost → Nat}
  {waits : Ghost → Input → Prop}
variable (progress : ∀ state ghost input, holds state ghost →
    ∃ next later, step state input = .ok next ∧ holds next later ∧
      (waits ghost input → work later < work ghost) ∧ (¬waits ghost input → later = ghost))

include progress

theorem run_round {state : State} {ghost : Ghost} (start : holds state ghost)
    (inputs : List Input) :
    ∃ final last, run step state inputs = .ok final ∧ holds final last ∧ work last ≤ work ghost ∧
      ∀ input ∈ inputs, waits ghost input → work last < work ghost := by
  induction inputs generalizing state ghost with
  | nil => exact ⟨state, ghost, rfl, start, Nat.le_refl _, nofun⟩
  | cons input rest ih =>
      obtain ⟨next, later, stepped, held, less, same⟩ := progress state ghost input start
      obtain ⟨final, last, ran, ends, atMost, each⟩ := ih held
      refine ⟨final, last, by rw [run_cons stepped, ran], ends, ?_⟩
      by_cases busy : waits ghost input
      · have fewer := less busy
        exact ⟨by omega, fun _ _ _ => by omega⟩
      · obtain rfl := same busy
        refine ⟨atMost, fun other member waiting => ?_⟩
        rcases List.mem_cons.mp member with rfl | later
        · exact absurd waiting busy
        · exact each other later waiting

/-- Rounds that leave out no input finish the work, in whatever order each round takes them. -/
theorem run_rounds
    (idle : ∀ state ghost, holds state ghost → (∀ input, ¬waits ghost input) → work ghost = 0)
    {state : State} {ghost : Ghost} (start : holds state ghost) {rounds : List (List Input)}
    (fair : ∀ round ∈ rounds, ∀ input, input ∈ round) (enough : work ghost ≤ rounds.length) :
    ∃ final last, run step state rounds.flatten = .ok final ∧ holds final last ∧
      ∀ input, ¬waits last input := by
  induction rounds generalizing state ghost with
  | nil =>
      refine ⟨state, ghost, rfl, start, fun input waiting => ?_⟩
      obtain ⟨-, later, -, -, less, -⟩ := progress state ghost input start
      have fewer := less waiting
      rw [List.length_nil] at enough
      omega
  | cons round rest ih =>
      obtain ⟨next, later, ran, held, atMost, each⟩ := run_round progress start round
      rw [List.length_cons] at enough
      -- a round in which nothing waits leaves no work, any other does some of it
      have fewer : work later ≤ rest.length := by
        by_cases busy : ∃ input, waits ghost input
        · obtain ⟨input, waiting⟩ := busy
          have less := each input (fair round (by simp) input) waiting
          omega
        · have zero := idle state ghost start fun input waiting => busy ⟨input, waiting⟩
          omega
      obtain ⟨final, last, rested, ends, done⟩ := ih held
        (fun other member => fair other (List.mem_cons_of_mem _ member)) fewer
      refine ⟨final, last, ?_, ends, done⟩
      rw [List.flatten_cons, run_append, ran]
      exact rested

end

end Runs
