/-
Serial histories: what it means that transactions could have run one at a time.

A [`Txn`] records what a transaction has found where, and what it has left.
A list of them is [`Serial`] from a store when each one finds what the ones
before it have left.
-/
import Mathlib.Data.List.Basic

namespace Stmgc.Lib

/-- What a transaction has found where, and what it has left. -/
structure Txn (Key Val : Type) where
  found : List (Key × Val)
  left : Key → Option Val

variable {Key Val : Type}

/-- The store after a transaction. -/
def Txn.apply (t : Txn Key Val) (store : Key → Val) : Key → Val :=
  fun key => (t.left key).getD (store key)

/-- The store after transactions that run one at a time. -/
def after (store : Key → Val) (ts : List (Txn Key Val)) : Key → Val :=
  ts.foldl (fun store t => t.apply store) store

/-- Each transaction finds what the ones before it have left. -/
def Serial : (Key → Val) → List (Txn Key Val) → Prop
  | _, [] => True
  | store, t :: ts => (∀ x ∈ t.found, x.2 = store x.1) ∧ Serial (t.apply store) ts

theorem after_append (store : Key → Val) (ts us : List (Txn Key Val)) :
    after store (ts ++ us) = after (after store ts) us :=
  List.foldl_append

/-- A history is serial if each transaction finds the store of its place. -/
theorem serial_of_forall {store : Key → Val} {ts : List (Txn Key Val)}
    (h : ∀ (k : ℕ) t, ts[k]? = some t → ∀ x ∈ t.found, x.2 = after store (ts.take k) x.1) :
    Serial store ts := by
  induction ts generalizing store with
  | nil => trivial
  | cons t ts ih =>
      refine ⟨h 0 t rfl, ih fun k u hu => ?_⟩
      have hk := h (k + 1) u hu
      rwa [List.take_succ_cons] at hk

end Stmgc.Lib
