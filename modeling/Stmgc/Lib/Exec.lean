/-
Code that runs while it holds a lock, and the rules by which it is verified.

Such code reads and writes a shared state. It returns; or it leaves for good
the functions that are running, because it waits on a condition variable or
jumps away; or it fails an assertion. [`Exec.wp`] is the weakest precondition:
no assertion fails, a return ends in the one postcondition and a leave in the
other. A step of a machine is the whole run of such code, [`Exec.outcome`].
-/
import Stmgc.Lib.Machine

namespace Stmgc.Lib

/-- How a run of the code ends. -/
inductive Exit (σ α : Type) where
  | ret (a : α) (s : σ)
  | leave (s : σ)
  | fault

/-- Code with state `σ` that returns an `α`. -/
def Exec (σ α : Type) : Type := σ → Exit σ α

namespace Exec

variable {σ α β ι : Type}

protected def pure (a : α) : Exec σ α := fun s => .ret a s

protected def bind (x : Exec σ α) (f : α → Exec σ β) : Exec σ β := fun s =>
  match x s with
  | .ret a s => f a s
  | .leave s => .leave s
  | .fault => .fault

instance : Monad (Exec σ) where
  pure := Exec.pure
  bind := Exec.bind

def get : Exec σ σ := fun s => .ret s s

def modify (f : σ → σ) : Exec σ Unit := fun s => .ret () (f s)

/-- Control does not come back to the caller. -/
def leave : Exec σ α := fun s => .leave s

/-- A C `assert`. -/
def assert (p : Prop) [Decidable p] : Exec σ Unit := fun s => if p then .ret () s else .fault

/-- An `if` without `else`. -/
def ifThen (p : Prop) [Decidable p] (x : Exec σ Unit) : Exec σ Unit := if p then x else pure ()

/-- A `for` loop over a list. -/
def forEach : List ι → (ι → Exec σ Unit) → Exec σ Unit
  | [], _ => pure ()
  | x :: xs, f => do
    f x
    forEach xs f

/-- What a machine sees of a run of the code. -/
def outcome (x : Exec σ Unit) (s : σ) : Outcome σ :=
  match x s with
  | .ret _ s => .next s
  | .leave s => .next s
  | .fault => .fault

/-! ## Weakest preconditions -/

/-- From `s` the code fails no assertion, returns only with `Q`, and leaves
only in `R`. -/
def wp (x : Exec σ α) (Q : α → σ → Prop) (R : σ → Prop) (s : σ) : Prop :=
  match x s with
  | .ret a s => Q a s
  | .leave s => R s
  | .fault => False

variable {Q : α → σ → Prop} {R : σ → Prop} {s : σ}

@[simp] theorem wp_pure {a : α} : wp (pure a) Q R s ↔ Q a s := Iff.rfl

@[simp] theorem wp_bind {x : Exec σ β} {f : β → Exec σ α} :
    wp (x >>= f) Q R s ↔ wp x (fun b => wp (f b) Q R) R s := by
  show wp (Exec.bind x f) Q R s ↔ _
  unfold wp Exec.bind
  cases hx : x s with
  | ret b t => simp
  | leave t => simp
  | fault => simp

@[simp] theorem wp_get {Q : σ → σ → Prop} : wp get Q R s ↔ Q s s := Iff.rfl

@[simp] theorem wp_modify {f : σ → σ} {Q : Unit → σ → Prop} : wp (modify f) Q R s ↔ Q () (f s) := Iff.rfl

@[simp] theorem wp_leave : wp (leave : Exec σ α) Q R s ↔ R s := Iff.rfl

@[simp] theorem wp_assert {p : Prop} [Decidable p] {Q : Unit → σ → Prop} :
    wp (assert p) Q R s ↔ p ∧ Q () s := by
  by_cases hp : p
  · simp [wp, assert, hp]
  · simp [wp, assert, hp]

@[simp] theorem wp_ite {p : Prop} [Decidable p] {x y : Exec σ α} :
    wp (if p then x else y) Q R s ↔ if p then wp x Q R s else wp y Q R s := by
  by_cases hp : p
  · simp [hp]
  · simp [hp]

@[simp] theorem wp_ifThen {p : Prop} [Decidable p] {x : Exec σ Unit} {Q : Unit → σ → Prop} :
    wp (ifThen p x) Q R s ↔ if p then wp x Q R s else Q () s := by
  by_cases hp : p
  · simp [ifThen, hp]
  · simp only [ifThen, hp, if_false]
    exact wp_pure

/-- An assertion under a condition that implies it. -/
theorem wp_ifThen_assert {p q : Prop} [Decidable p] [Decidable q] {Q : Unit → σ → Prop}
    (h : p → q) : wp (ifThen p (assert q)) Q R s ↔ Q () s := by
  rw [wp_ifThen, wp_assert]
  by_cases hp : p
  · simp [hp, h hp]
  · simp [hp]

/-- The rule of consequence. -/
theorem wp.mono {x : Exec σ α} {Q' : α → σ → Prop} {R' : σ → Prop} (h : wp x Q R s)
    (hQ : ∀ a t, Q a t → Q' a t) (hR : ∀ t, R t → R' t) : wp x Q' R' s := by
  unfold wp at h ⊢
  split at h <;> simp_all

/-- The rule for a `for` loop: `inv` says what holds when a list is left to do. -/
theorem wp_forEach {f : ι → Exec σ Unit} {xs : List ι} (inv : List ι → σ → Prop)
    (hstep : ∀ x xs s, inv (x :: xs) s → wp (f x) (fun _ => inv xs) R s) (h0 : inv xs s) :
    wp (forEach xs f) (fun _ => inv []) R s := by
  induction xs generalizing s with
  | nil =>
      rw [forEach, wp_pure]
      exact h0
  | cons x xs ih =>
      rw [forEach, wp_bind]
      exact (hstep x xs s h0).mono (fun _ _ ht => ih ht) (fun _ ht => ht)

/-- An assertion fails where no postcondition can be ensured. -/
theorem eq_fault {x : Exec σ α} : x s = .fault ↔ ¬ wp x (fun _ _ => True) (fun _ => True) s := by
  unfold wp
  cases hx : x s with
  | ret a t => simp
  | leave t => simp
  | fault => simp

theorem outcome_eq_fault {x : Exec σ Unit} : x.outcome s = .fault ↔ x s = .fault := by
  unfold Exec.outcome
  cases hx : x s with
  | ret a t => simp
  | leave t => simp
  | fault => simp

/-- A run of the code takes the machine to a state that meets the
postcondition. -/
theorem wp.outcome {x : Exec σ Unit} (h : wp x (fun _ => R) R s) :
    ∃ s', x.outcome s = .next s' ∧ R s' := by
  unfold wp at h
  unfold Exec.outcome
  split at h
  · rename_i t heq
    exact ⟨t, by rw [heq], h⟩
  · rename_i t heq
    exact ⟨t, by rw [heq], h⟩
  · exact absurd h (fun h => h)

/-! ## Frames -/

/-- The code keeps `P`, as far as it runs. -/
def Keeps (P : σ → Prop) (x : Exec σ α) : Prop :=
  ∀ s, P s → match x s with
    | .ret _ t => P t
    | .leave t => P t
    | .fault => True

section Keeps

variable {P : σ → Prop} {x : Exec σ α} {y : Exec σ Unit}

theorem keeps_pure {a : α} : Keeps P (pure a : Exec σ α) := fun _ h => h

theorem keeps_get : Keeps P (get : Exec σ σ) := fun _ h => h

theorem keeps_leave : Keeps P (leave : Exec σ α) := fun _ h => h

theorem keeps_modify {f : σ → σ} (h : ∀ s, P s → P (f s)) : Keeps P (modify f) := h

theorem keeps_assert {p : Prop} [Decidable p] : Keeps P (assert p : Exec σ Unit) := by
  intro s h
  unfold assert
  by_cases hp : p
  · rw [if_pos hp]
    exact h
  · rw [if_neg hp]
    trivial

theorem Keeps.bind {f : α → Exec σ β} (hx : Keeps P x) (hf : ∀ a, Keeps P (f a)) :
    Keeps P (x >>= f) := by
  intro s h
  have hstep := hx s h
  show match Exec.bind x f s with
    | .ret _ t => P t
    | .leave t => P t
    | .fault => True
  unfold Exec.bind
  cases hxs : x s with
  | ret a t =>
      rw [hxs] at hstep
      exact hf a t hstep
  | leave t =>
      rw [hxs] at hstep
      exact hstep
  | fault => trivial

/-- Code that reads the state first. -/
theorem keeps_get_bind {f : σ → Exec σ α} (h : ∀ s, Keeps P (f s)) : Keeps P (get >>= f) :=
  keeps_get.bind h

theorem keeps_ite {p : Prop} [Decidable p] {z : Exec σ α} (hx : Keeps P x) (hz : Keeps P z) :
    Keeps P (if p then x else z) := by
  by_cases hp : p
  · rw [if_pos hp]
    exact hx
  · rw [if_neg hp]
    exact hz

theorem keeps_ifThen {p : Prop} [Decidable p] (hy : Keeps P y) : Keeps P (ifThen p y) :=
  keeps_ite hy keeps_pure

theorem keeps_forEach {f : ι → Exec σ Unit} {xs : List ι} (h : ∀ x, Keeps P (f x)) :
    Keeps P (forEach xs f) := by
  induction xs with
  | nil => exact keeps_pure
  | cons x xs ih => exact (h x).bind fun _ => ih

/-- Code that fails an assertion where `P` holds. -/
theorem keeps_of_fault (h : ∀ s, P s → x s = .fault) : Keeps P x := by
  intro s hs
  rw [h s hs]
  trivial

theorem Keeps.outcome (h : Keeps P y) {t : σ} (hs : P s) (ht : y.outcome s = .next t) : P t := by
  have hstep := h s hs
  unfold Exec.outcome at ht
  cases hys : y s with
  | ret a u =>
      rw [hys] at hstep ht
      cases ht
      exact hstep
  | leave u =>
      rw [hys] at hstep ht
      cases ht
      exact hstep
  | fault =>
      rw [hys] at ht
      cases ht

end Keeps

end Exec

end Stmgc.Lib
