/-
Machines that take one step at a time, and the induction over their runs.

A step function says for every state and action whether the action is blocked,
fails an assertion, or leads to a next state. [`ReachableIf`] are the states of
the runs whose steps all meet a condition, and [`ReachableIf.invariant`] the
one induction over runs from which every safety property here is derived.
-/
import Mathlib.Logic.Function.Basic

namespace Stmgc.Lib

/-- What an action does: it cannot be taken now, it fails an assertion, or it
leads to a state. -/
inductive Outcome (σ : Type) where
  | blocked
  | fault
  | next (s : σ)

namespace Outcome

variable {σ τ : Type}

/-- A step that goes on with `f`. -/
def bind (r : Outcome σ) (f : σ → Outcome τ) : Outcome τ :=
  match r with
  | .blocked => .blocked
  | .fault => .fault
  | .next s => f s

/-- A computation that may fail an assertion. -/
def ofOption (r : Option σ) : Outcome σ :=
  match r with
  | none => .fault
  | some s => .next s

theorem bind_eq_next {r : Outcome σ} {f : σ → Outcome τ} {t : τ} :
    r.bind f = .next t ↔ ∃ s, r = .next s ∧ f s = .next t := by
  constructor
  · intro h
    cases r with
    | next s => exact ⟨s, rfl, h⟩
    | blocked => cases h
    | fault => cases h
  · rintro ⟨s, rfl, h⟩
    exact h

theorem ofOption_eq_next {r : Option σ} {s : σ} : ofOption r = .next s ↔ r = some s := by
  cases r with
  | none => simp [ofOption]
  | some t => simp [ofOption]

end Outcome

/-- A guarded step. -/
def guarded {σ : Type} (p : Prop) [Decidable p] (r : Outcome σ) : Outcome σ :=
  if p then r else .blocked

theorem guarded_eq_next {σ : Type} {p : Prop} [Decidable p] {r : Outcome σ} {s : σ} :
    guarded p r = .next s ↔ p ∧ r = .next s := by
  unfold guarded
  by_cases hp : p
  · rw [if_pos hp]
    exact ⟨fun h => ⟨hp, h⟩, fun h => h.2⟩
  · rw [if_neg hp]
    exact ⟨fun h => (by cases h), fun h => absurd h.1 hp⟩

namespace Outcome

variable {σ : Type} {r : Outcome σ} {Q R : σ → Prop}

/-- The action fails no assertion, and the state it leads to meets `Q`. -/
def Safe (r : Outcome σ) (Q : σ → Prop) : Prop :=
  match r with
  | .blocked => True
  | .fault => False
  | .next s => Q s

theorem Safe.ne_fault (h : r.Safe Q) : r ≠ .fault := by
  rintro rfl
  exact h

theorem Safe.of_next {s : σ} (h : r.Safe Q) (hr : r = .next s) : Q s := by
  subst hr
  exact h

theorem Safe.mono (h : r.Safe Q) (hQ : ∀ s, Q s → R s) : r.Safe R := by
  cases r with
  | blocked => trivial
  | fault => exact h
  | next s => exact hQ s h

theorem Safe.guarded {p : Prop} [Decidable p] (h : p → r.Safe Q) :
    (guarded p r).Safe Q := by
  unfold Lib.guarded
  by_cases hp : p
  · rw [if_pos hp]
    exact h hp
  · rw [if_neg hp]
    trivial

end Outcome

section Machine

variable {σ α : Type}

/-- The states of the runs from `init` whose steps all meet `ok`. -/
inductive ReachableIf (init : σ → Prop) (step : σ → α → Outcome σ) (ok : σ → α → Prop) :
    σ → Prop where
  | start {s : σ} : init s → ReachableIf init step ok s
  | step {s s' : σ} {a : α} : ReachableIf init step ok s → ok s a → step s a = .next s' →
      ReachableIf init step ok s'

/-- The states of all runs. -/
abbrev Reachable (init : σ → Prop) (step : σ → α → Outcome σ) : σ → Prop :=
  ReachableIf init step (fun _ _ => True)

variable {init : σ → Prop} {step : σ → α → Outcome σ} {ok : σ → α → Prop}

/-- What holds at the start and is kept by every step holds in every run. -/
theorem ReachableIf.invariant {inv : σ → Prop} (h0 : ∀ s, init s → inv s)
    (hstep : ∀ s a s', inv s → ok s a → step s a = .next s' → inv s') {s : σ}
    (h : ReachableIf init step ok s) : inv s := by
  induction h with
  | start hs => exact h0 _ hs
  | step _ hok hs ih => exact hstep _ _ _ ih hok hs

theorem ReachableIf.trans {s t : σ} (h : ReachableIf init step ok s)
    (ht : ReachableIf (· = s) step ok t) : ReachableIf init step ok t := by
  induction ht with
  | start hs => exact hs ▸ h
  | step _ hok hs ih => exact ih.step hok hs

/-- The state after a list of actions, each of which has to meet `ok`. -/
def run (step : σ → α → Outcome σ) (ok : σ → α → Prop) [∀ s a, Decidable (ok s a)] :
    σ → List α → Outcome σ
  | s, [] => .next s
  | s, a :: as =>
    if ok s a then
      match step s a with
      | .next s' => run step ok s' as
      | r => r
    else .blocked

theorem ReachableIf.run [∀ s a, Decidable (ok s a)] {s s' : σ}
    (h : ReachableIf init step ok s) (as : List α)
    (hrun : Lib.run step ok s as = .next s') : ReachableIf init step ok s' := by
  induction as generalizing s with
  | nil =>
      cases hrun
      exact h
  | cons a as ih =>
      rw [Lib.run] at hrun
      by_cases hok : ok s a
      · rw [if_pos hok] at hrun
        cases hs : step s a with
        | next t =>
            rw [hs] at hrun
            exact ih (h.step hok hs) hrun
        | blocked =>
            rw [hs] at hrun
            cases hrun
        | fault =>
            rw [hs] at hrun
            cases hrun
      · rw [if_neg hok] at hrun
        cases hrun

/-- The outcome is a state that passes a test. -/
def Outcome.test (r : Outcome σ) (p : σ → Bool) : Bool :=
  match r with
  | .next s => p s
  | _ => false

theorem Outcome.of_test {r : Outcome σ} {p : σ → Bool} (h : r.test p = true) :
    ∃ s, r = .next s ∧ p s = true := by
  cases r with
  | next s => exact ⟨s, rfl, h⟩
  | blocked => cases h
  | fault => cases h

end Machine

end Stmgc.Lib
