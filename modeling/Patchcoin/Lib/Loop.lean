import Mathlib.Order.WellFounded
import Mathlib.Tactic

/-!
# Loops that are left from inside

A loop repeats its body until a round leaves it, with a result.  Whether that ever happens
is not clear from its form, so the loop is run with so many rounds (`run`), and `Ends` says
that some number of them is enough.

Three rules: what a loop returns has the property that its rounds leave it with
(`run_induction`), a loop ends whose rounds decrease a measure (`ends_of_wellFounded`), and a
loop does not end if its states stay among some of which no round leaves it
(`not_ends_of_invariant`).
-/

namespace Loop

variable {σ α : Type*}
variable {Q : α → Prop} {I : σ → Prop} {n rounds : ℕ}

/-- What a round does: the loop goes on, or it is left. -/
inductive Round (σ α : Type*) where
  | again (next : σ)
  | leave (result : α)

variable (body : σ → Round σ α)

/-- The result of the loop, if so many rounds are enough. -/
def run : ℕ → σ → Option α
  | 0, _ => none
  | rounds + 1, st =>
    match body st with
    | .again next => run rounds next
    | .leave result => some result

/-- The state before a round, if the loop comes so far. -/
def before : ℕ → σ → Option σ
  | 0, st => some st
  | n + 1, st =>
    match body st with
    | .again next => before n next
    | .leave _ => none

def Ends (st : σ) : Prop := ∃ rounds result, run body rounds st = some result

variable {body} {st next : σ} {result : α}

theorem run_of_again (h : body st = .again next) :
    run body (rounds + 1) st = run body rounds next := by
  rw [run, h]

theorem run_of_leave (h : body st = .leave result) : run body (rounds + 1) st = some result := by
  rw [run, h]

theorem ends_of_leave (h : body st = .leave result) : Ends body st :=
  ⟨1, result, run_of_leave h⟩

theorem ends_iff_of_again (h : body st = .again next) : Ends body st ↔ Ends body next := by
  constructor
  · rintro ⟨rounds, result, hrun⟩
    cases rounds with
    | zero => cases hrun
    | succ rounds => exact ⟨rounds, result, (run_of_again h).symm.trans hrun⟩
  · rintro ⟨rounds, result, hrun⟩
    exact ⟨rounds + 1, result, (run_of_again h).trans hrun⟩

/-- The rule of invariants: they hold when the loop is left, with what the round says. -/
theorem run_induction (hagain : ∀ st next, I st → body st = .again next → I next)
    (hleave : ∀ st result, I st → body st = .leave result → Q result) (hst : I st)
    (h : run body rounds st = some result) : Q result := by
  induction rounds generalizing st with
  | zero => cases h
  | succ rounds ih =>
    cases hbody : body st with
    | again next =>
      rw [run_of_again hbody] at h
      exact ih (hagain st next hst hbody) h
    | leave found =>
      rw [run_of_leave hbody] at h
      exact Option.some.inj h ▸ hleave st found hst hbody

/-- The same for loops that can fail, about what they return if they do not. -/
theorem run_ok_induction {ε : Type*} {body : σ → Round σ (Except ε α)}
    (hagain : ∀ st next, I st → body st = .again next → I next)
    (hleave : ∀ st result, I st → body st = .leave (.ok result) → Q result) (hst : I st)
    (h : run body rounds st = some (.ok result)) : Q result :=
  run_induction (Q := fun returned => ∀ result, returned = .ok result → Q result) hagain
    (fun st _ hst hbody result hresult => hleave st result hst (hresult ▸ hbody)) hst h result rfl

/-- A loop ends if its rounds descend in a well-founded relation. -/
theorem ends_of_wellFounded {r : σ → σ → Prop} (hwf : WellFounded r)
    (hagain : ∀ st next, I st → body st = .again next → I next ∧ r next st) (hst : I st) :
    Ends body st := by
  induction st using hwf.induction with
  | _ st ih =>
    cases hbody : body st with
    | again next =>
      obtain ⟨hnext, hless⟩ := hagain st next hst hbody
      exact (ends_iff_of_again hbody).mpr (ih next hless hnext)
    | leave result => exact ends_of_leave hbody

/-- A loop does not end among states that no round leaves. -/
theorem not_ends_of_invariant (hagain : ∀ st, I st → ∃ next, body st = .again next ∧ I next)
    (hst : I st) : ¬ Ends body st := by
  rintro ⟨rounds, result, hrun⟩
  induction rounds generalizing st with
  | zero => cases hrun
  | succ rounds ih =>
    obtain ⟨next, hbody, hnext⟩ := hagain st hst
    exact ih hnext ((run_of_again hbody).symm.trans hrun)

/-! ## The states of the rounds -/

theorem before_of_again (h : body st = .again next) :
    before body (n + 1) st = before body n next := by
  rw [before, h]

theorem before_of_leave (h : body st = .leave result) : before body (n + 1) st = none := by
  rw [before, h]

/-- The state before the next round is what the round makes of the state before it. -/
theorem before_succ {at_n : σ} (h : before body n st = some at_n) :
    before body (n + 1) st = match body at_n with
      | .again next => some next
      | .leave _ => none := by
  induction n generalizing st with
  | zero =>
    cases h
    rw [before]
    cases body at_n <;> rfl
  | succ n ih =>
    cases hbody : body st with
    | again next =>
      rw [before_of_again hbody] at h ⊢
      exact ih h
    | leave result =>
      rw [before_of_leave hbody] at h
      cases h

/-- A loop ends exactly if it does not come to every round. -/
theorem ends_iff_before : Ends body st ↔ ∃ n, before body n st = none := by
  constructor
  · rintro ⟨rounds, result, hrun⟩
    refine ⟨rounds, ?_⟩
    induction rounds generalizing st with
    | zero => cases hrun
    | succ rounds ih =>
      cases hbody : body st with
      | again next =>
        rw [before_of_again hbody]
        exact ih ((run_of_again hbody).symm.trans hrun)
      | leave found => exact before_of_leave hbody
  · rintro ⟨n, hnone⟩
    induction n generalizing st with
    | zero => cases hnone
    | succ n ih =>
      cases hbody : body st with
      | again next =>
        rw [before_of_again hbody] at hnone
        exact (ends_iff_of_again hbody).mpr (ih hnone)
      | leave result => exact ends_of_leave hbody

/-- A loop that was left does not come to later rounds. -/
theorem before_none_mono {m : ℕ} (hle : n ≤ m) (h : before body n st = none) :
    before body m st = none := by
  induction n generalizing st m with
  | zero => cases h
  | succ n ih =>
    obtain ⟨m, rfl⟩ : ∃ k, m = k + 1 := ⟨m - 1, by omega⟩
    cases hbody : body st with
    | again second =>
      rw [before_of_again hbody] at h ⊢
      exact ih (by omega) h
    | leave result => exact before_of_leave hbody

/-- A loop ends if it ends from a state that it comes to. -/
theorem ends_iff_of_before (h : before body n st = some next) : Ends body st ↔ Ends body next := by
  induction n generalizing st with
  | zero =>
    cases h
    exact Iff.rfl
  | succ n ih =>
    cases hbody : body st with
    | again second =>
      rw [before_of_again hbody] at h
      exact (ends_iff_of_again hbody).trans (ih h)
    | leave result =>
      rw [before_of_leave hbody] at h
      cases h

end Loop
