import Mathlib.Data.List.Infix

/-!
# Runs of a state machine

A machine takes a step for each action.  `Always step P actions start` says that
`P` holds at the start, at the end and at every state in between, and
`Each step G actions start` that every action meets the condition `G` in the state
it is taken in.  If `G` tells exactly the steps that keep `P`, the two agree
(`always_iff_each`): a property of whole runs is then settled step by step.
-/

namespace Run

variable {σ α : Type*} {step : σ → α → σ} {P I : σ → Prop} {G : σ → α → Prop}

/-- The state after a list of actions. -/
def after (step : σ → α → σ) (actions : List α) (start : σ) : σ := actions.foldl step start

/-- The property holds after every part of the actions. -/
def Always (step : σ → α → σ) (P : σ → Prop) (actions : List α) (start : σ) : Prop :=
  ∀ done, done <+: actions → P (after step done start)

/-- Every action meets the condition in the state in which it is taken. -/
def Each (step : σ → α → σ) (G : σ → α → Prop) : List α → σ → Prop
  | [], _ => True
  | action :: rest, state => G state action ∧ Each step G rest (step state action)

@[simp] theorem after_nil (start : σ) : after step [] start = start := rfl

@[simp] theorem after_cons (action : α) (rest : List α) (start : σ) :
    after step (action :: rest) start = after step rest (step start action) := rfl

theorem Always.start {actions : List α} {start : σ} (h : Always step P actions start) : P start :=
  h [] List.nil_prefix

theorem Always.last {actions : List α} {start : σ} (h : Always step P actions start) :
    P (after step actions start) := h actions List.prefix_rfl

theorem always_nil_iff {start : σ} : Always step P [] start ↔ P start := by
  refine ⟨Always.start, fun h done hdone => ?_⟩
  rw [List.prefix_nil.mp hdone]
  exact h

theorem always_cons_iff {action : α} {rest : List α} {start : σ} :
    Always step P (action :: rest) start ↔ P start ∧ Always step P rest (step start action) := by
  constructor
  · intro h
    refine ⟨h.start, fun done hdone => ?_⟩
    exact h (action :: done) (List.cons_prefix_cons.mpr ⟨rfl, hdone⟩)
  · rintro ⟨hstart, hrest⟩ done hdone
    cases done with
    | nil => exact hstart
    | cons first done =>
      obtain ⟨rfl, hdone'⟩ := List.cons_prefix_cons.mp hdone
      exact hrest done hdone'

/-- What every step keeps holds after a run. -/
theorem after_invariant (hstep : ∀ state action, I state → I (step state action))
    {actions : List α} {start : σ} (hstart : I start) : I (after step actions start) := by
  induction actions generalizing start with
  | nil => exact hstart
  | cons action rest ih => exact ih (hstep start action hstart)

/-- The rule for a condition that tells exactly the steps that keep a property, on a run
along which an invariant holds. -/
theorem always_iff_each_of_always
    (hstep : ∀ state action, I state → P state → (P (step state action) ↔ G state action))
    {actions : List α} {start : σ} (hI : Always step I actions start) (hP : P start) :
    Always step P actions start ↔ Each step G actions start := by
  induction actions generalizing start with
  | nil => exact iff_of_true (always_nil_iff.mpr hP) trivial
  | cons action rest ih =>
    obtain ⟨hfirst, hrest⟩ := always_cons_iff.mp hI
    have hkeeps := hstep start action hfirst hP
    rw [always_cons_iff, Each]
    constructor
    · rintro ⟨-, halways⟩
      exact ⟨hkeeps.mp halways.start, (ih hrest halways.start).mp halways⟩
    · rintro ⟨hcondition, heach⟩
      exact ⟨hP, (ih hrest (hkeeps.mpr hcondition)).mpr heach⟩

/-- The same rule for an invariant that every step keeps. -/
theorem always_iff_each (hinvariant : ∀ state action, I state → I (step state action))
    (hstep : ∀ state action, I state → P state → (P (step state action) ↔ G state action))
    {actions : List α} {start : σ} (hI : I start) (hP : P start) :
    Always step P actions start ↔ Each step G actions start :=
  always_iff_each_of_always hstep (fun _ _ => after_invariant hinvariant hI) hP

/-- The rule for a condition under which a step keeps a property. -/
theorem always_of_each (hstep : ∀ state action, P state → G state action → P (step state action))
    {actions : List α} {start : σ} (hP : P start) (heach : Each step G actions start) :
    Always step P actions start := by
  induction actions generalizing start with
  | nil => exact always_nil_iff.mpr hP
  | cons action rest ih =>
    obtain ⟨hfirst, hrest⟩ := heach
    exact always_cons_iff.mpr ⟨hP, ih (hstep start action hP hfirst) hrest⟩

/-- Conditions that agree on every step that meets a third one agree on runs of such steps. -/
theorem each_iff_each {H G' : σ → α → Prop}
    (hinvariant : ∀ state action, I state → I (step state action))
    (h : ∀ state action, I state → H state action → (G state action ↔ G' state action))
    {actions : List α} {start : σ} (hI : I start) (hH : Each step H actions start) :
    Each step G actions start ↔ Each step G' actions start := by
  induction actions generalizing start with
  | nil => exact Iff.rfl
  | cons action rest ih =>
    exact and_congr (h start action hI hH.1) (ih (hinvariant start action hI) hH.2)

/-- A property that follows from another one holds wherever that one does. -/
theorem Always.imp {Q : σ → Prop} (h : ∀ state, P state → Q state) {actions : List α} {start : σ}
    (halways : Always step P actions start) : Always step Q actions start :=
  fun done hdone => h _ (halways done hdone)

/-- A condition that follows from the property of the state is met by every action. -/
theorem Always.each (h : ∀ state action, P state → G state action) {actions : List α} {start : σ}
    (halways : Always step P actions start) : Each step G actions start := by
  induction actions generalizing start with
  | nil => trivial
  | cons action rest ih =>
    obtain ⟨hstart, hrest⟩ := always_cons_iff.mp halways
    exact ⟨h start action hstart, ih hrest⟩

end Run
