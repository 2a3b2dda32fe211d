/-
Binary search in an array whose keys increase, and insertion of an item where
the search has ended.

An array is a function from indices, with its length given beside it. The
search gives the index of the key, or the index where the key belongs.
-/
import Mathlib.Order.Lattice
import Mathlib.Data.List.Basic

namespace Stmgc.Lib

section Search

variable {α : Type} [LinearOrder α] {key : ℕ → α} {x : α} {n left right i : ℕ}

/-- The half-open interval from `left` to `right` is left to search. -/
def binary_search (key : ℕ → α) (x : α) (left right : ℕ) : ℕ ⊕ ℕ :=
  if right > left then
    let middle := (left + right) / 2
    if x < key middle then binary_search key x left middle
    else if x = key middle then .inl middle
    else binary_search key x (middle + 1) right
  else .inr left
termination_by right - left

/-- The first `n` keys increase. -/
def Increasing (key : ℕ → α) (n : ℕ) : Prop := ∀ i j, i < j → j < n → key i < key j

theorem Increasing.inj {j : ℕ} (h : Increasing key n) (hi : i < n) (hj : j < n) (hkey : key i = key j) :
    i = j := by
  rcases lt_trichotomy i j with hlt | heq | hgt
  · exact absurd hkey (h i j hlt hj).ne
  · exact heq
  · exact absurd hkey.symm (h j i hgt hi).ne

/-- Where a search has ended. -/
inductive SearchEnd (key : ℕ → α) (n : ℕ) (x : α) : ℕ ⊕ ℕ → Prop where
  | found (i : ℕ) (bound : i < n) (eq : x = key i) : SearchEnd key n x (.inl i)
  | missing (i : ℕ) (bound : i ≤ n) (below : ∀ j < i, key j < x)
      (above : ∀ j, i ≤ j → j < n → x < key j) : SearchEnd key n x (.inr i)

/-- The keys outside of the interval are known to be too small or too large. -/
theorem binary_search_spec (h : Increasing key n) (hle : left ≤ right) (hright : right ≤ n)
    (hbelow : ∀ j < left, key j < x) (habove : ∀ j, right ≤ j → j < n → x < key j) :
    SearchEnd key n x (binary_search key x left right) := by
  induction left, right using binary_search.induct key x with
  | case1 left right hlt middle hx ih =>
      rw [binary_search, if_pos hlt]
      dsimp only
      rw [if_pos hx]
      have hmiddle : middle < right := by omega
      refine ih (by omega) (by omega) hbelow fun j hj hjn => ?_
      rcases Nat.eq_or_lt_of_le hj with rfl | hj
      · exact hx
      · exact hx.trans (h middle j hj hjn)
  | case2 left right hlt middle hx heq =>
      rw [binary_search, if_pos hlt]
      dsimp only
      rw [if_neg hx, if_pos heq]
      have hmiddle : middle < right := by omega
      exact .found _ (hmiddle.trans_le hright) heq
  | case3 left right hlt middle hx hne ih =>
      rw [binary_search, if_pos hlt]
      dsimp only
      rw [if_neg hx, if_neg hne]
      have hmiddle : middle < right := by omega
      have hgt : key middle < x := lt_of_le_of_ne (not_lt.mp hx) (Ne.symm hne)
      refine ih (by omega) hright (fun j hj => ?_) habove
      rcases Nat.eq_or_lt_of_le (Nat.le_of_lt_succ hj) with rfl | hj
      · exact hgt
      · exact (h j middle hj (hmiddle.trans_le hright)).trans hgt
  | case4 left right hlt =>
      rw [binary_search, if_neg hlt]
      have heq : left = right := by omega
      exact .missing _ (hle.trans hright) hbelow (heq ▸ habove)

/-- The search in the whole array. -/
theorem binary_search_ends (h : Increasing key n) (x : α) :
    SearchEnd key n x (binary_search key x 0 n) :=
  binary_search_spec h (Nat.zero_le n) le_rfl (fun j hj => absurd hj (Nat.not_lt_zero j))
    fun _ hj hjn => absurd (hj.trans_lt hjn) (lt_irrefl n)

end Search

section Insertion

variable {β : Type} {items copy : ℕ → β} {new : β} {left n i : ℕ}

/-- The array with a new item in front of the one at `left`. -/
def insert_at (items : ℕ → β) (left : ℕ) (new : β) (i : ℕ) : β :=
  if i < left then items i else if i = left then new else items (i - 1)

theorem insert_at_of_lt (h : i < left) : insert_at items left new i = items i := if_pos h

theorem insert_at_self : insert_at items left new left = new := by
  rw [insert_at, if_neg (lt_irrefl left), if_pos rfl]

theorem insert_at_succ (h : left ≤ i) : insert_at items left new (i + 1) = items i := by
  rw [insert_at, if_neg (by omega), if_neg (by omega), Nat.add_sub_cancel]

/-- The items of the new array are those of the old one and the new one. -/
theorem exists_insert_at (h : left ≤ n) {P : β → Prop} :
    (∃ i < n + 1, P (insert_at items left new i)) ↔ P new ∨ ∃ i < n, P (items i) := by
  constructor
  · rintro ⟨i, hi, hP⟩
    rcases lt_trichotomy i left with hlt | rfl | hgt
    · rw [insert_at_of_lt hlt] at hP
      exact .inr ⟨i, by omega, hP⟩
    · rw [insert_at_self] at hP
      exact .inl hP
    · obtain ⟨j, rfl⟩ : ∃ j, i = j + 1 := ⟨i - 1, by omega⟩
      rw [insert_at_succ (by omega)] at hP
      exact .inr ⟨j, by omega, hP⟩
  · rintro (hP | ⟨i, hi, hP⟩)
    · exact ⟨left, by omega, insert_at_self.symm ▸ hP⟩
    · rcases Nat.lt_or_ge i left with hlt | hge
      · exact ⟨i, by omega, (insert_at_of_lt hlt).symm ▸ hP⟩
      · exact ⟨i + 1, by omega, (insert_at_succ hge).symm ▸ hP⟩

/-- The keys still increase when the new one belongs there. -/
theorem Increasing.insert_at {α : Type} [LinearOrder α] {f : β → α}
    (h : Increasing (fun i => f (items i)) n) (hle : left ≤ n) (hbelow : ∀ j < left, f (items j) < f new)
    (habove : ∀ j, left ≤ j → j < n → f new < f (items j)) :
    Increasing (fun i => f (insert_at items left new i)) (n + 1) := by
  intro i j hij hj
  dsimp only
  rcases lt_trichotomy j left with hlt | rfl | hgt
  · rw [insert_at_of_lt hlt, insert_at_of_lt (hij.trans hlt)]
    exact h i j hij (by omega)
  · rw [insert_at_self, insert_at_of_lt hij]
    exact hbelow i hij
  · obtain ⟨j', rfl⟩ : ∃ j', j = j' + 1 := ⟨j - 1, by omega⟩
    rw [insert_at_succ (by omega)]
    rcases lt_trichotomy i left with hlt | rfl | hgt'
    · rw [insert_at_of_lt hlt]
      exact h i j' (by omega) (by omega)
    · rw [insert_at_self]
      exact habove j' (by omega) (by omega)
    · obtain ⟨i', rfl⟩ : ∃ i', i = i' + 1 := ⟨i - 1, by omega⟩
      rw [insert_at_succ (by omega)]
      exact h i' j' (by omega) (by omega)

/-- A loop that fills a part of an array. -/
theorem foldl_update_range' {f : ℕ → β} {start count : ℕ} :
    (List.range' start count).foldl (fun copy i => Function.update copy i (f i)) copy i
      = if start ≤ i ∧ i < start + count then f i else copy i := by
  induction count generalizing start copy with
  | zero =>
      rw [List.range'_zero, List.foldl_nil, if_neg (by omega)]
  | succ count ih =>
      rw [List.range'_succ, List.foldl_cons, ih]
      by_cases hi : i = start
      · rw [hi, Function.update_self, if_neg (by omega), if_pos (by omega)]
      · rw [Function.update_of_ne hi]
        exact if_congr (by omega) rfl rfl

end Insertion

end Stmgc.Lib
