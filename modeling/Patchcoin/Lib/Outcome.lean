import Mathlib.Tactic

/-!
# Checks that change a state and stop at the first failure

A check written in an imperative language returns early when it fails, and what
it wrote until then stays written.  `Outcome` keeps the two things apart: the
state that the check left behind, and whether it passed.

`andThen` runs a second check after a first one that passed, and `forEach` runs
a check on every element of a list.  The rules below are what a proof about
such a loop needs: an invariant of the state (which failure does not break),
what holds of every element once the loop has passed, and the comparison of
two loops.
-/

/-- The state a check leaves behind, and its verdict. -/
structure Outcome (σ ε α : Type*) where
  state : σ
  result : Except ε α

namespace Outcome

variable {σ τ ε α β γ : Type*}
variable {first : Outcome σ ε α} {next : α → σ → Outcome σ ε β}

/-- A check that passes and writes nothing. -/
def pass (state : σ) : Outcome σ ε Unit := ⟨state, .ok ()⟩

/-- A check that fails and writes nothing. -/
def fail (state : σ) (failure : ε) : Outcome σ ε α := ⟨state, .error failure⟩

/-- A check that only reads. -/
def lift (state : σ) (result : Except ε α) : Outcome σ ε α := ⟨state, result⟩

/-- Go on only if the first check passed. -/
def andThen (first : Outcome σ ε α) (next : α → σ → Outcome σ ε β) : Outcome σ ε β :=
  match first.result with
  | .ok value => next value first.state
  | .error failure => ⟨first.state, .error failure⟩

/-- Run a check on the elements of a list, up to the first failure. -/
def forEach (step : γ → σ → Outcome σ ε Unit) : List γ → σ → Outcome σ ε Unit
  | [], state => pass state
  | element :: rest, state => (step element state).andThen fun _ next => forEach step rest next

/-- The same outcome, with the state seen through a function. -/
def mapState (view : σ → τ) (outcome : Outcome σ ε α) : Outcome τ ε α :=
  ⟨view outcome.state, outcome.result⟩

/-! ## One check after another -/

@[simp] theorem state_pass (state : σ) : (pass state : Outcome σ ε Unit).state = state := rfl

@[simp] theorem result_pass (state : σ) : (pass state : Outcome σ ε Unit).result = .ok () := rfl

@[simp] theorem state_fail (state : σ) (failure : ε) :
    (fail state failure : Outcome σ ε α).state = state := rfl

@[simp] theorem result_fail (state : σ) (failure : ε) :
    (fail state failure : Outcome σ ε α).result = .error failure := rfl

@[simp] theorem state_lift (state : σ) (result : Except ε α) :
    (lift state result).state = state := rfl

@[simp] theorem result_lift (state : σ) (result : Except ε α) :
    (lift state result).result = result := rfl

theorem eq_pass {outcome : Outcome σ ε Unit} (h : outcome.result = .ok ()) :
    outcome = pass outcome.state := by
  rw [pass, ← h]

theorem andThen_of_ok {value : α} (h : first.result = .ok value) :
    first.andThen next = next value first.state := by
  rw [andThen, h]

theorem andThen_of_error {failure : ε} (h : first.result = .error failure) :
    first.andThen next = ⟨first.state, .error failure⟩ := by
  rw [andThen, h]

/-- A sequence passed exactly if both parts did. -/
theorem andThen_eq_ok_iff {value : β} : (first.andThen next).result = .ok value ↔
      ∃ middle, first.result = .ok middle ∧ (next middle first.state).result = .ok value := by
  cases h : first.result with
  | ok middle => simp [andThen_of_ok h]
  | error failure => simp [andThen_of_error h]

/-- What both parts preserve, the sequence preserves, whether it passes or not. -/
theorem andThen_invariant {P : σ → Prop} (hfirst : P first.state)
    (hnext : ∀ value, first.result = .ok value → P first.state → P (next value first.state).state) :
    P (first.andThen next).state := by
  cases h : first.result with
  | ok value => rw [andThen_of_ok h]; exact hnext value h hfirst
  | error failure => rw [andThen_of_error h]; exact hfirst

@[simp] theorem state_mapState (view : σ → τ) (outcome : Outcome σ ε α) :
    (outcome.mapState view).state = view outcome.state := rfl

@[simp] theorem result_mapState (view : σ → τ) (outcome : Outcome σ ε α) :
    (outcome.mapState view).result = outcome.result := rfl

/-- The frame rule: if both parts commute with a change of the state, so does the
sequence. -/
theorem andThen_mapState {view : σ → τ} {next' : α → τ → Outcome τ ε β}
    (h : ∀ value state, next' value (view state) = (next value state).mapState view) :
    (first.mapState view).andThen next' = (first.andThen next).mapState view := by
  cases hfirst : first.result with
  | ok value =>
    have hmapped : (first.mapState view).result = .ok value := hfirst
    rw [andThen_of_ok hmapped, andThen_of_ok hfirst, state_mapState, h]
  | error failure =>
    have hmapped : (first.mapState view).result = .error failure := hfirst
    rw [andThen_of_error hmapped, andThen_of_error hfirst]
    rfl

/-! ## Loops -/

section Loop

variable {step : γ → σ → Outcome σ ε Unit}
variable {elements rest : List γ} {element : γ} {failure : ε} {state : σ} {P : σ → Prop}

@[simp] theorem forEach_nil (state : σ) : forEach step [] state = pass state := rfl

theorem forEach_cons (element : γ) (rest : List γ) (state : σ) :
    forEach step (element :: rest) state =
      (step element state).andThen fun _ next => forEach step rest next := rfl

theorem forEach_cons_eq_ok_iff : (forEach step (element :: rest) state).result = .ok () ↔
      (step element state).result = .ok () ∧
        (forEach step rest (step element state).state).result = .ok () := by
  rw [forEach_cons, andThen_eq_ok_iff]
  constructor
  · rintro ⟨⟨⟩, hfirst, hrest⟩
    exact ⟨hfirst, hrest⟩
  · rintro ⟨hfirst, hrest⟩
    exact ⟨(), hfirst, hrest⟩

theorem state_forEach_cons_of_ok (h : (step element state).result = .ok ()) :
    (forEach step (element :: rest) state).state =
      (forEach step rest (step element state).state).state := by
  rw [forEach_cons, andThen_of_ok h]

theorem state_forEach_cons_of_error (h : (step element state).result = .error failure) :
    (forEach step (element :: rest) state).state = (step element state).state := by
  rw [forEach_cons, andThen_of_error h]

/-- An invariant of every step is an invariant of the loop, also if it fails. -/
theorem forEach_invariant
    (hstep : ∀ element ∈ elements, ∀ state, P state → P (step element state).state)
    (hstate : P state) : P (forEach step elements state).state := by
  induction elements generalizing state with
  | nil => exact hstate
  | cons element rest ih =>
    rw [forEach_cons]
    refine andThen_invariant (hstep element (.head _) state hstate) ?_
    intro _ _ hnext
    exact ih (fun other hother => hstep other (.tail _ hother)) hnext

/-- After a loop that passed, `Q` holds of every element, if a passing step
establishes `Q` for its own element and keeps it for the others. -/
theorem forEach_forall {Q : γ → σ → Prop}
    (hstep : ∀ element ∈ elements, ∀ state, P state → (step element state).result = .ok () →
      P (step element state).state ∧ Q element (step element state).state ∧
        ∀ other, Q other state → Q other (step element state).state) (hstate : P state)
    (hok : (forEach step elements state).result = .ok ()) : P (forEach step elements state).state ∧
      (∀ element ∈ elements, Q element (forEach step elements state).state) ∧
      ∀ other, Q other state → Q other (forEach step elements state).state := by
  induction elements generalizing state with
  | nil => exact ⟨hstate, by simp, fun _ h => h⟩
  | cons element rest ih =>
    obtain ⟨hfirst, hrest⟩ := forEach_cons_eq_ok_iff.mp hok
    obtain ⟨hP, hQ, hkeep⟩ := hstep element (.head _) state hstate hfirst
    obtain ⟨hPend, hall, hkeepEnd⟩ := ih (fun other hother => hstep other (.tail _ hother)) hP hrest
    rw [state_forEach_cons_of_ok hfirst]
    refine ⟨hPend, ?_, fun other h => hkeepEnd other (hkeep other h)⟩
    intro other hother
    rcases List.mem_cons.mp hother with rfl | hmem
    · exact hkeepEnd other hQ
    · exact hall other hmem

/-- If the steps of one loop are followed by the steps of another one, a pass of
the first loop is a pass of the second. -/
theorem forEach_simulation {R : σ → τ → Prop} {other : γ → τ → Outcome τ ε Unit}
    (hstep : ∀ element ∈ elements, ∀ state state', R state state' →
      (step element state).result = .ok () →
      (other element state').result = .ok () ∧
        R (step element state).state (other element state').state) {state' : τ}
    (hstate : R state state') (hok : (forEach step elements state).result = .ok ()) :
    (forEach other elements state').result = .ok () ∧
      R (forEach step elements state).state (forEach other elements state').state := by
  induction elements generalizing state state' with
  | nil => exact ⟨rfl, hstate⟩
  | cons element rest ih =>
    obtain ⟨hfirst, hrest⟩ := forEach_cons_eq_ok_iff.mp hok
    obtain ⟨hother, hnext⟩ := hstep element (.head _) state state' hstate hfirst
    obtain ⟨hotherRest, hend⟩ := ih (fun a ha => hstep a (.tail _ ha)) hnext hrest
    refine ⟨forEach_cons_eq_ok_iff.mpr ⟨hother, hotherRest⟩, ?_⟩
    rw [state_forEach_cons_of_ok hfirst, state_forEach_cons_of_ok hother]
    exact hend

theorem forEach_append (before after : List γ) (state : σ) : forEach step (before ++ after) state =
      (forEach step before state).andThen fun _ next => forEach step after next := by
  induction before generalizing state with
  | nil => rfl
  | cons element rest ih =>
    rw [List.cons_append, forEach_cons, forEach_cons]
    cases h : (step element state).result with
    | ok value => rw [andThen_of_ok h, andThen_of_ok h, ih]
    | error failure =>
      rw [andThen_of_error h, andThen_of_error h]
      rfl

/-- A loop fails exactly if some element fails after all those before it have passed. -/
theorem forEach_eq_error_iff : (forEach step elements state).result = .error failure ↔
      ∃ before element after, elements = before ++ element :: after ∧
        (forEach step before state).result = .ok () ∧
        (step element (forEach step before state).state).result = .error failure := by
  constructor
  · intro hfails
    induction elements generalizing state with
    | nil => cases hfails
    | cons element rest ih =>
      cases h : (step element state).result with
      | error other =>
        rw [forEach_cons, andThen_of_error h] at hfails
        exact ⟨[], element, rest, rfl, rfl, h.trans hfails⟩
      | ok value =>
        rw [forEach_cons, andThen_of_ok h] at hfails
        obtain ⟨before, last, after, rfl, hpassed, hlast⟩ := ih hfails
        refine ⟨element :: before, last, after, rfl, ?_, ?_⟩
        · exact forEach_cons_eq_ok_iff.mpr ⟨h, hpassed⟩
        · rwa [state_forEach_cons_of_ok h]
  · rintro ⟨before, element, after, rfl, hpassed, hlast⟩
    rw [forEach_append, andThen_of_ok hpassed, forEach_cons, andThen_of_error hlast]

end Loop

end Outcome

/-- The result is there exactly under the condition, and then as described. -/
def SomeIff {α : Type*} (condition : Prop) (result : Option α) (described : α → Prop) : Prop :=
  (condition ∧ ∃ value, result = some value ∧ described value) ∨ (¬ condition ∧ result = none)

theorem SomeIff.of_iff {α : Type*} {condition condition' : Prop} {result : Option α}
    {described described' : α → Prop} (h : SomeIff condition result described)
    (hcondition : condition' ↔ condition)
    (hdescribed : ∀ value, described value → described' value) :
    SomeIff condition' result described' := by
  rcases h with ⟨hc, value, hvalue, hholds⟩ | ⟨hc, hnone⟩
  · exact .inl ⟨hcondition.mpr hc, value, hvalue, hdescribed value hholds⟩
  · exact .inr ⟨hcondition.not.mpr hc, hnone⟩
