/-
Pointers beside the names of what they point to.

A collector that moves objects changes pointers, but not what they refer to:
with a function that gives the name of the object at an address, `NULL` refers
to nothing and any other pointer to the object with the name of its address
([`Refers`]).
-/
import Mathlib.Data.List.Forall2

namespace Stmgc.Lib

variable {α β : Type}

/-- The pointer refers to the object of that name, or both are `NULL`. -/
def Refers (name : α → Option β) (p : Option α) (q : Option β) : Prop :=
  p.map name = q.map some

/-- The addresses that have a name keep it. -/
def KeepsNames (name name' : α → Option β) : Prop :=
  ∀ x n, name x = some n → name' x = some n

section

variable {name name' name'' : α → Option β} {p : Option α} {q : Option β} {ps : List (Option α)}
  {qs : List (Option β)} {x : α} {n : β}

@[simp] theorem refers_none : Refers name none q ↔ q = none := by
  cases q with
  | none => simp [Refers]
  | some n => simp [Refers]

@[simp] theorem refers_some : Refers name (some x) q ↔ ∃ n, q = some n ∧ name x = some n := by
  cases q with
  | none => simp [Refers]
  | some n => simp [Refers]

theorem KeepsNames.refl (name : α → Option β) : KeepsNames name name := fun _ _ h => h

theorem KeepsNames.trans (h : KeepsNames name name') (h' : KeepsNames name' name'') :
    KeepsNames name name'' := fun x n hx => h' x n (h x n hx)

theorem KeepsNames.update [DecidableEq α] (hx : ∀ m, name x = some m → m = n) :
    KeepsNames name (Function.update name x (some n)) := by
  intro y m hy
  by_cases hyx : y = x
  · subst hyx
    rw [Function.update_self, hx m hy]
  · exact (Function.update_of_ne hyx ..).trans hy

theorem KeepsNames.isSome (h : KeepsNames name name') (hx : (name x).isSome) : (name' x).isSome := by
  obtain ⟨n, hn⟩ := Option.isSome_iff_exists.mp hx
  rw [h x n hn]
  rfl

theorem Refers.mono (h : Refers name p q)
    (hp : ∀ x, p = some x → ∀ n, name x = some n → name' x = some n) : Refers name' p q := by
  cases p with
  | none =>
      rw [refers_none] at h ⊢
      exact h
  | some x =>
      rw [refers_some] at h ⊢
      obtain ⟨n, hq, hn⟩ := h
      exact ⟨n, hq, hp x rfl n hn⟩

/-- Only the names of the addresses in the list matter. -/
theorem refers_list_mono (h : List.Forall₂ (Refers name) ps qs)
    (hps : ∀ x, some x ∈ ps → ∀ n, name x = some n → name' x = some n) :
    List.Forall₂ (Refers name') ps qs := by
  induction h with
  | nil => exact .nil
  | cons hpq hrest ih =>
      refine .cons (hpq.mono (fun x hx => hps x (by rw [hx]; exact List.mem_cons_self)))
        (ih (fun x hx => hps x (List.mem_cons_of_mem _ hx)))

theorem KeepsNames.refers_list (hk : KeepsNames name name') (h : List.Forall₂ (Refers name) ps qs) :
    List.Forall₂ (Refers name') ps qs := refers_list_mono h (fun x _ => hk x)

/-! ## Lists of pointers -/

theorem forall₂_getElem? {γ δ : Type} {r : γ → δ → Prop} {as : List γ} {bs : List δ}
    (h : List.Forall₂ r as bs) {k : ℕ} {a : γ} (ha : as[k]? = some a) :
    ∃ b, bs[k]? = some b ∧ r a b := by
  obtain ⟨hk, rfl⟩ := List.getElem?_eq_some_iff.mp ha
  have hk' : k < bs.length := h.length_eq ▸ hk
  exact ⟨bs[k], List.getElem?_eq_getElem hk', h.get hk hk'⟩

theorem refers_list_name (h : List.Forall₂ (Refers name) ps qs) (hx : some x ∈ ps) : ∃ n, name x = some n := by
  obtain ⟨i, hi⟩ := List.mem_iff_getElem?.mp hx
  obtain ⟨q, -, href⟩ := forall₂_getElem? h hi
  exact (refers_some.mp href).imp fun _ hn => hn.2

theorem forall₂_set {γ δ : Type} {r : γ → δ → Prop} {as : List γ} {bs : List δ}
    (h : List.Forall₂ r as bs) (k : ℕ) {a : γ} {b : δ} (hab : r a b) :
    List.Forall₂ r (as.set k a) (bs.set k b) := by
  induction h generalizing k with
  | nil => exact .nil
  | cons hcd hrest ih =>
      cases k with
      | zero => exact .cons hab hrest
      | succ k => exact .cons hcd (ih k)

theorem refers_replicate_none (k : ℕ) :
    List.Forall₂ (Refers name) (List.replicate k none) (List.replicate k none) := by
  induction k with
  | zero => exact .nil
  | succ k ih => exact .cons (refers_none.mpr rfl) ih

end

end Stmgc.Lib
