/-
Programs that may fail an assertion, as computations in `Option`, and the
rules by which the rest of the development reasons about them.

A C function whose `assert`s matter is translated to a function into `Option`:
`none` is a failed assertion (or a loop that never ends), `some r` a normal
return. [`Returns`] is the total-correctness judgement over such a
computation, so every statement made with it also says that no assertion
fails and that every loop ends.

`while` loops go through [`loop`], and each is verified by
[`loop.spec_decr_nat`] from an invariant and a measure. Nothing here depends
on what the programs compute.
-/
import Mathlib.Data.Nat.Basic
import Mathlib.Data.List.Basic

namespace Stmgc.Lib

/-! ## The judgement -/

section Returns

variable {α β : Type}

/-- `m` returns, and its result satisfies `P`. -/
def Returns (m : Option α) (P : α → Prop) : Prop := ∃ r, m = some r ∧ P r

/-- A C `assert`. -/
def c_assert (p : Prop) [Decidable p] : Option Unit := if p then some () else none

theorem returns_some {r : α} {P : α → Prop} (h : P r) : Returns (some r) P := ⟨r, rfl, h⟩

theorem Returns.mono {m : Option α} {P Q : α → Prop} (h : Returns m P)
    (hPQ : ∀ r, P r → Q r) : Returns m Q := by
  obtain ⟨r, hr, hP⟩ := h
  exact ⟨r, hr, hPQ r hP⟩

/-- The sequencing rule. -/
theorem Returns.bind {m : Option α} {f : α → Option β} {P : α → Prop} {Q : β → Prop}
    (h : Returns m P) (hf : ∀ r, P r → Returns (f r) Q) : Returns (m >>= f) Q := by
  obtain ⟨r, hr, hP⟩ := h
  obtain ⟨r', hr', hQ⟩ := hf r hP
  exact ⟨r', by rw [hr]; exact hr', hQ⟩

theorem returns_assert {p : Prop} [Decidable p] {f : Unit → Option β} {Q : β → Prop}
    (hp : p) (h : Returns (f ()) Q) : Returns (c_assert p >>= f) Q := by
  obtain ⟨r, hr, hQ⟩ := h
  exact ⟨r, by simp only [c_assert, if_pos hp]; exact hr, hQ⟩

/-- What follows from a normal return past an assertion. -/
theorem c_assert_eq_some {p : Prop} [Decidable p] {f : Unit → Option β} {r : β} :
    (c_assert p >>= f) = some r ↔ p ∧ f () = some r := by
  by_cases hp : p
  · simp [c_assert, hp]
  · simp [c_assert, hp]

/-- The `for` rule: an invariant indexed by what has been processed and what
is left carries over a monadic fold. -/
theorem foldlM_spec {σ : Type} {f : σ → α → Option σ} (inv : List α → List α → σ → Prop)
    (hstep : ∀ done x todo s, inv done (x :: todo) s →
      Returns (f s x) (inv (done ++ [x]) todo)) :
    ∀ (todo done : List α) (s : σ), inv done todo s →
      Returns (todo.foldlM f s) (inv (done ++ todo) []) := by
  intro todo
  induction todo with
  | nil =>
      intro done s h
      rw [List.append_nil]
      exact returns_some h
  | cons x todo ih =>
      intro done s h
      rw [List.foldlM_cons]
      refine (hstep done x todo s h).bind (fun s' hs' => ?_)
      have := ih (done ++ [x]) s' hs'
      rwa [List.append_assoc, List.singleton_append] at this

/-- The rule for a `for` loop over a list without assertions. -/
theorem foldl_spec {σ : Type} {f : σ → α → σ} (inv : List α → σ → Prop) {lst : List α}
    (hstep : ∀ done x s, x ∈ lst → inv done s → inv (done ++ [x]) (f s x)) {s : σ}
    (h0 : inv [] s) : inv lst (lst.foldl f s) := by
  have hgen : ∀ (todo done : List α) (s : σ), lst = done ++ todo → inv done s →
      inv lst (todo.foldl f s) := by
    intro todo
    induction todo with
    | nil =>
        intro done s hlst hinv
        rw [hlst, List.append_nil]
        exact hinv
    | cons x todo ih =>
        intro done s hlst hinv
        rw [List.foldl_cons]
        refine ih (done ++ [x]) (f s x) ?_ (hstep done x s (by simp [hlst]) hinv)
        rw [hlst, List.append_assoc, List.singleton_append]
  exact hgen lst [] s rfl h0

/-- The rule for a `for` loop over a list that has returned. -/
theorem foldlM_some {σ : Type} {f : σ → α → Option σ} (inv : List α → σ → Prop) {lst : List α}
    (hstep : ∀ done x todo s s', lst = done ++ x :: todo → inv done s → f s x = some s' →
      inv (done ++ [x]) s')
    {s s' : σ} (h0 : inv [] s) (h : lst.foldlM f s = some s') : inv lst s' := by
  have hgen : ∀ (todo done : List α) (s : σ), lst = done ++ todo → inv done s →
      todo.foldlM f s = some s' → inv lst s' := by
    intro todo
    induction todo with
    | nil =>
        intro done s hlst hinv hs
        rw [List.foldlM_nil, Option.pure_def, Option.some.injEq] at hs
        rw [hlst, List.append_nil, ← hs]
        exact hinv
    | cons x todo ih =>
        intro done s hlst hinv hs
        rw [List.foldlM_cons, Option.bind_eq_bind, Option.bind_eq_some_iff] at hs
        obtain ⟨t, ht, hrest⟩ := hs
        refine ih (done ++ [x]) t ?_ (hstep done x todo s t hlst hinv ht) hrest
        rw [hlst, List.append_assoc, List.singleton_append]
  exact hgen lst [] s rfl h0 h

/-- The rule for a counting `for` loop that has returned. -/
theorem foldlM_range'_some {σ : Type} {f : σ → ℕ → Option σ} (inv : ℕ → σ → Prop) {a n : ℕ}
    (hstep : ∀ i s s', a ≤ i → i < a + n → inv i s → f s i = some s' → inv (i + 1) s')
    {s s' : σ} (h0 : inv a s) (h : (List.range' a n).foldlM f s = some s') : inv (a + n) s' := by
  induction n generalizing a s with
  | zero =>
      rw [List.range'_zero, List.foldlM_nil, Option.pure_def, Option.some.injEq] at h
      exact h ▸ h0
  | succ n ih =>
      rw [List.range'_succ, List.foldlM_cons, Option.bind_eq_bind, Option.bind_eq_some_iff] at h
      obtain ⟨t, ht, hrest⟩ := h
      have hnext := hstep a s t (le_refl a) (by omega) h0 ht
      have hend := ih (fun i u u' hi hi' => hstep i u u' (by omega) (by omega)) hnext hrest
      rwa [show a + 1 + n = a + (n + 1) by omega] at hend

/-- The rule for a counting `for` loop. -/
theorem foldlM_range'_spec {σ : Type} {f : σ → ℕ → Option σ} (inv : ℕ → σ → Prop) {a n : ℕ}
    (hstep : ∀ i s, a ≤ i → i < a + n → inv i s → Returns (f s i) (inv (i + 1)))
    {s : σ} (h0 : inv a s) : Returns ((List.range' a n).foldlM f s) (inv (a + n)) := by
  induction n generalizing a s with
  | zero => exact returns_some h0
  | succ n ih =>
      rw [List.range'_succ, List.foldlM_cons]
      refine (hstep a s (le_refl a) (by omega) h0).bind fun t ht => ?_
      have hend := ih (fun i u hi hi' => hstep i u (by omega) (by omega)) ht
      rwa [show a + 1 + n = a + (n + 1) by omega] at hend

end Returns

/-! ## `while` loops -/

/-- What one turn of a loop decides: go on with a new state, or leave. -/
inductive ControlFlow (α β : Type) where
  | cont (a : α)
  | done (b : β)

/-- What comes after a turn: the next turns, or the end of the loop. -/
def ControlFlow.run {α β : Type} (body : α → Option (ControlFlow α β)) :
    ControlFlow α β → Option β
  | .cont x => do (← body x) |>.run body
  | .done r => some r
partial_fixpoint

/-- A loop whose turns may fail an assertion. -/
def loop {α β : Type} (body : α → Option (ControlFlow α β)) (x : α) : Option β :=
  (ControlFlow.cont x).run body

theorem loop_eq {α β : Type} (body : α → Option (ControlFlow α β)) (x : α) :
    loop body x = body x >>= fun turn => match turn with
      | .cont y => loop body y
      | .done r => some r := by
  unfold loop
  rw [ControlFlow.run]
  congr 1
  funext turn
  cases turn with
  | cont y => rfl
  | done r => rw [ControlFlow.run]

theorem loop_cont {α β : Type} {body : α → Option (ControlFlow α β)} {x y : α}
    (h : body x = some (.cont y)) : loop body x = loop body y := by
  rw [loop_eq, h]
  rfl

theorem loop_done {α β : Type} {body : α → Option (ControlFlow α β)} {x : α} {r : β}
    (h : body x = some (.done r)) : loop body x = some r := by
  rw [loop_eq, h]
  rfl

/-- What a turn must establish: the loop goes on with the invariant kept and
the measure decreased, or it leaves with the postcondition. -/
def Turn {α β : Type} (measure : α → ℕ) (inv : α → Prop) (post : β → Prop) (x : α) :
    ControlFlow α β → Prop
  | .cont y => inv y ∧ measure y < measure x
  | .done r => post r

/-- **The loop rule.** An invariant kept by every turn and a natural-number
measure that every turn decreases give the postcondition, termination
included. The induction is on the measure. -/
theorem loop.spec_decr_nat {α β : Type} {body : α → Option (ControlFlow α β)}
    (measure : α → ℕ) (inv : α → Prop) {post : β → Prop} {x : α}
    (hbody : ∀ x, inv x → Returns (body x) (Turn measure inv post x))
    (h0 : inv x) : Returns (loop body x) post := by
  induction hm : measure x using Nat.strong_induction_on generalizing x with
  | _ m ih =>
    rw [loop_eq]
    obtain ⟨r, hr, hturn⟩ := hbody x h0
    cases r with
    | cont y =>
        obtain ⟨hinv, hlt⟩ := hturn
        simp only [hr, Option.bind_eq_bind, Option.bind_some]
        exact ih (measure y) (by omega) hinv rfl
    | done r =>
        simp only [hr, Option.bind_eq_bind, Option.bind_some]
        exact returns_some hturn

/-- The loop rule with a measure that the state does not show: `inv n x` says
that `n` turns are left at most. -/
theorem loop.spec_turns {α β : Type} {body : α → Option (ControlFlow α β)} (inv : ℕ → α → Prop)
    {post : β → Prop} {n : ℕ} {x : α}
    (hbody : ∀ n x, inv n x → Returns (body x) fun
      | .cont y => ∃ m < n, inv m y
      | .done r => post r)
    (h0 : inv n x) : Returns (loop body x) post := by
  induction n using Nat.strong_induction_on generalizing x with
  | _ n ih =>
    rw [loop_eq]
    obtain ⟨r, hr, hturn⟩ := hbody n x h0
    cases r with
    | cont y =>
        obtain ⟨m, hlt, hinv⟩ := hturn
        simp only [hr, Option.bind_eq_bind, Option.bind_some]
        exact ih m hlt hinv
    | done r =>
        simp only [hr, Option.bind_eq_bind, Option.bind_some]
        exact returns_some hturn

/-- The rule for a loop that fails an assertion in one of its turns. -/
theorem loop.fails {α β : Type} {body : α → Option (ControlFlow α β)} (inv : ℕ → α → Prop) {n : ℕ} {x : α}
    (hbody : ∀ n x, inv n x → body x = none ∨ ∃ y, body x = some (.cont y) ∧ ∃ m < n, inv m y)
    (h0 : inv n x) : loop body x = none := by
  induction n using Nat.strong_induction_on generalizing x with
  | _ n ih =>
    rw [loop_eq]
    rcases hbody n x h0 with hnone | ⟨y, hy, m, hlt, hinv⟩
    · rw [hnone]
      rfl
    · simp only [hy, Option.bind_eq_bind, Option.bind_some]
      exact ih m hlt hinv

end Stmgc.Lib
