/-
Open addressing: tables in which a key says itself where to look for it.

A table is a partial function from slots to values; every value has a key, and
every key an infinite sequence of slots in which it is searched. A search goes
past the values of other keys and ends at the value of its own key or at an
empty slot. In a [`WellPlaced`] table it finds every value; values are only
added, and only where a search for them ends.
-/
import Mathlib.Tactic.Ring
import Mathlib.Data.Nat.ModEq

namespace Stmgc.Lib.Probe

section Table

variable {K V : Type} (slot : K → ℕ → ℕ) (key : V → K)

/-- The first `n` slots of the search for `k` hold values of other keys. -/
def Passed (t : ℕ → Option V) (k : K) (n : ℕ) : Prop :=
  ∀ m < n, ∃ w, t (slot k m) = some w ∧ key w ≠ k

/-- The search for `k` comes to slot `i`. -/
def Reaches (t : ℕ → Option V) (k : K) (i : ℕ) : Prop := ∃ n, slot k n = i ∧ Passed slot key t k n

/-- Every value is found by the search for its key. -/
def WellPlaced (t : ℕ → Option V) : Prop := ∀ i v, t i = some v → Reaches slot key t (key v) i

/-- Values have been added. -/
def Extends (t t' : ℕ → Option V) : Prop := ∀ i v, t i = some v → t' i = some v

variable {slot key} {t t' : ℕ → Option V} {k : K} {n i j : ℕ} {v w : V}

theorem Extends.refl : Extends t t := fun _ _ h => h

theorem Extends.insert (hi : t i = none) : Extends t (Function.update t i (some v)) := by
  intro j w hj
  rw [Function.update_of_ne]
  · exact hj
  · rintro rfl
    rw [hi] at hj
    cases hj

theorem passed_zero : Passed slot key t k 0 := fun m hm => absurd hm (Nat.not_lt_zero m)

theorem Passed.succ (h : Passed slot key t k n) (hw : t (slot k n) = some w) (hne : key w ≠ k) :
    Passed slot key t k (n + 1) := by
  intro m hm
  rcases Nat.lt_succ_iff_lt_or_eq.mp hm with hlt | rfl
  · exact h m hlt
  · exact ⟨w, hw, hne⟩

theorem Passed.mono (h : Passed slot key t k n) (hext : Extends t t') :
    Passed slot key t' k n := by
  intro m hm
  obtain ⟨w, hw, hne⟩ := h m hm
  exact ⟨w, hext _ _ hw, hne⟩

theorem Reaches.mono (h : Reaches slot key t k i) (hext : Extends t t') :
    Reaches slot key t' k i := by
  obtain ⟨n, hn, hpassed⟩ := h
  exact ⟨n, hn, hpassed.mono hext⟩

theorem wellPlaced_empty : WellPlaced slot key (fun _ => none) := by
  intro i v h
  cases h

/-- A key is in one slot at most. -/
theorem WellPlaced.unique (h : WellPlaced slot key t) (hv : t i = some v) (hw : t j = some w)
    (hkey : key v = key w) : i = j := by
  obtain ⟨n, rfl, hn⟩ := h i v hv
  obtain ⟨m, hm, hpassed⟩ := h j w hw
  rw [← hkey] at hm hpassed
  rcases Nat.lt_trichotomy n m with hlt | heq | hgt
  · obtain ⟨u, hu, hne⟩ := hpassed n hlt
    rw [hv] at hu
    cases hu
    exact absurd rfl hne
  · rw [heq, hm]
  · obtain ⟨u, hu, hne⟩ := hn m hgt
    rw [hm, hw] at hu
    cases hu
    exact absurd hkey.symm hne

/-- A value is added where the search for it ends. -/
theorem WellPlaced.insert (h : WellPlaced slot key t) (hreach : Reaches slot key t (key v) i)
    (hi : t i = none) : WellPlaced slot key (Function.update t i (some v)) := by
  intro j w hj
  rw [Function.update_apply] at hj
  split_ifs at hj with hji
  · cases hj
    exact hji ▸ hreach.mono (Extends.insert hi)
  · exact (h j w hj).mono (Extends.insert hi)

end Table

/-! ## A probe sequence that visits every slot -/

/-- The step from slot to slot, before it is reduced. -/
def next_slot (x : ℕ) : ℕ := 5 * x + 1

/-- After `2 ^ k` steps the low `k` bits are back, and the next one is
flipped. -/
theorem next_slot_two_pow (k : ℕ) : ∃ a b : ℕ, ∀ x,
    next_slot^[2 ^ k] x = (1 + 2 ^ (k + 2) * a) * x + 2 ^ k * (1 + 2 * b) := by
  induction k with
  | zero => exact ⟨1, 0, fun x => by show 5 * x + 1 = _; ring⟩
  | succ k ih =>
      obtain ⟨a, b, h⟩ := ih
      refine ⟨a + 2 ^ (k + 1) * a * a, b + 2 ^ k * a * (1 + 2 * b), fun x => ?_⟩
      rw [pow_succ 2 k, mul_two, Function.iterate_add_apply, h, h]
      ring

/-- From any slot the steps lead to every other. By induction on the number of
bits: `2 ^ k` steps correct bit `k`. -/
theorem exists_next_slot_modEq (k x y : ℕ) : ∃ n, next_slot^[n] x ≡ y [MOD 2 ^ k] := by
  induction k with
  | zero => exact ⟨0, by rw [pow_zero]; exact Nat.modEq_one⟩
  | succ k ih =>
      obtain ⟨n, hn⟩ := ih
      obtain ⟨a, b, hpow⟩ := next_slot_two_pow k
      generalize hz : next_slot^[n] x = z at hn
      have hbit : z ≡ y [MOD 2 ^ (k + 1)] ∨ z + 2 ^ k ≡ y [MOD 2 ^ (k + 1)] := by
        have hpos : 0 < 2 ^ k := Nat.two_pow_pos k
        unfold Nat.ModEq at hn ⊢
        rw [Nat.mod_pow_succ, Nat.mod_pow_succ, Nat.mod_pow_succ, Nat.add_mod_right,
          Nat.add_div_right _ hpos, hn]
        have hz2 := Nat.mod_two_eq_zero_or_one (z / 2 ^ k)
        have hy2 := Nat.mod_two_eq_zero_or_one (y / 2 ^ k)
        by_cases hsame : z / 2 ^ k % 2 = y / 2 ^ k % 2
        · exact .inl (by rw [hsame])
        · refine .inr ?_
          have hflip : (z / 2 ^ k).succ % 2 = y / 2 ^ k % 2 := by omega
          rw [hflip]
      rcases hbit with hbit | hbit
      · exact ⟨n, hz ▸ hbit⟩
      · refine ⟨2 ^ k + n, ?_⟩
        rw [Function.iterate_add_apply, hz, hpow]
        refine Nat.ModEq.trans ?_ hbit
        have hsum : (1 + 2 ^ (k + 2) * a) * z + 2 ^ k * (1 + 2 * b)
            = z + 2 ^ k + 2 ^ (k + 1) * (2 * a * z + b) := by
          ring
        rw [hsum]
        exact Nat.add_mul_mod_self_left _ _ _

theorem next_slot_iterate_congr {m x y : ℕ} (h : x ≡ y [MOD m]) (n : ℕ) :
    next_slot^[n] x ≡ next_slot^[n] y [MOD m] := by
  induction n with
  | zero => exact h
  | succ n ih =>
      rw [Function.iterate_succ_apply', Function.iterate_succ_apply']
      exact (ih.mul_left 5).add_right 1

/-- `2 ^ k` steps lead back. -/
theorem next_slot_period (k x : ℕ) : next_slot^[2 ^ k] x ≡ x [MOD 2 ^ k] := by
  obtain ⟨a, b, hpow⟩ := next_slot_two_pow k
  rw [hpow]
  have hsum : (1 + 2 ^ (k + 2) * a) * x + 2 ^ k * (1 + 2 * b)
      = x + 2 ^ k * (4 * a * x + (1 + 2 * b)) := by
    ring
  rw [hsum]
  exact Nat.add_mul_mod_self_left _ _ _

/-- The first `2 ^ k` steps visit every slot. -/
theorem exists_lt_next_slot_modEq (k x y : ℕ) :
    ∃ n < 2 ^ k, next_slot^[n] x ≡ y [MOD 2 ^ k] := by
  obtain ⟨n, hn⟩ := exists_next_slot_modEq k x y
  refine ⟨n % 2 ^ k, Nat.mod_lt _ (Nat.two_pow_pos k), Nat.ModEq.trans ?_ hn⟩
  have hperiods : ∀ q, next_slot^[2 ^ k * q] x ≡ x [MOD 2 ^ k] := by
    intro q
    induction q with
    | zero => rfl
    | succ q ih =>
        rw [Nat.mul_succ, Nat.add_comm, Function.iterate_add_apply]
        exact (next_slot_period k _).trans ih
  have hsplit : next_slot^[n] x = next_slot^[n % 2 ^ k] (next_slot^[2 ^ k * (n / 2 ^ k)] x) := by
    rw [← Function.iterate_add_apply, Nat.mod_add_div]
  rw [hsplit]
  exact next_slot_iterate_congr (hperiods _).symm _

end Stmgc.Lib.Probe
