/-
Memories as functions of the address, what a range of them holds, and copying
a range from one place to another.
-/
import Mathlib.Data.List.Range

namespace Stmgc.Lib.Memory

variable {α : Type}

/-- What a memory holds from address `start` on and before `stop`. -/
def range (m : ℕ → α) (start stop : ℕ) : List α :=
  (List.range' start (stop - start)).map m

/-- Copy a list of cells to an address. -/
def memcpy (m : ℕ → α) (target : ℕ) (src : List α) : ℕ → α :=
  fun a => if target ≤ a then (src[a - target]?).getD (m a) else m a

variable {m f : ℕ → α} {a b c k : ℕ} {xs ys : List α}

@[simp] theorem length_range : (range m a b).length = b - a := by
  unfold range
  rw [List.length_map, List.length_range']

theorem getElem?_range (h : k < b - a) : (range m a b)[k]? = some (m (a + k)) := by
  unfold range
  rw [List.getElem?_map, List.getElem?_range' h, Option.map_some, Nat.one_mul]

/-- Below and behind the target nothing changes. -/
theorem memcpy_of_lt (h : k < a) : memcpy m a xs k = m k := if_neg (Nat.not_le.mpr h)

theorem memcpy_of_ge (h : a + xs.length ≤ k) : memcpy m a xs k = m k := by
  unfold memcpy
  rw [if_pos (by omega), List.getElem?_eq_none (by omega), Option.getD_none]

/-- Inside the target only what is copied counts. -/
theorem memcpy_of_mem {m' : ℕ → α} (ha : a ≤ k) (hk : k < a + xs.length) :
    memcpy m a xs k = memcpy m' a xs k := by
  have hlt : k - a < xs.length := by omega
  unfold memcpy
  rw [if_pos ha, if_pos ha, List.getElem?_eq_getElem hlt, Option.getD_some, Option.getD_some]

@[simp] theorem memcpy_nil : memcpy m a [] = m := by
  funext k
  unfold memcpy
  split
  · rfl
  · rfl

/-- One copy behind the other. -/
theorem memcpy_append : memcpy m a (xs ++ ys) = memcpy (memcpy m a xs) (a + xs.length) ys := by
  funext k
  by_cases hxs : k < a + xs.length
  · rw [memcpy_of_lt (a := a + xs.length) hxs]
    unfold memcpy
    split
    · rw [List.getElem?_append_left (by omega)]
    · rfl
  · unfold memcpy
    rw [if_pos (by omega), if_pos (by omega), if_pos (by omega),
      List.getElem?_append_right (by omega), List.getElem?_eq_none (l := xs) (by omega),
      Option.getD_none, Nat.sub_sub]

/-- The second of two copies to adjacent targets may come first. -/
theorem memcpy_comm (h : b = a + xs.length) :
    memcpy (memcpy m b ys) a xs = memcpy (memcpy m a xs) b ys := by
  subst h
  funext k
  by_cases hxs : k < a + xs.length
  · rw [memcpy_of_lt (a := a + xs.length) hxs]
    by_cases ha : a ≤ k
    · exact memcpy_of_mem ha hxs
    · rw [memcpy_of_lt (by omega), memcpy_of_lt (by omega), memcpy_of_lt (by omega)]
  · rw [memcpy_of_ge (by omega)]
    by_cases hys : k < a + xs.length + ys.length
    · exact memcpy_of_mem (by omega) hys
    · rw [memcpy_of_ge (by omega), memcpy_of_ge (by omega), memcpy_of_ge (by omega)]

/-- Copying what is already there. -/
theorem memcpy_range_self : memcpy m a (range m a b) = m := by
  funext k
  unfold memcpy
  split
  · by_cases hk : k - a < b - a
    · rw [getElem?_range hk, Option.getD_some]
      congr 1
      omega
    · rw [List.getElem?_eq_none (by rw [length_range]; omega), Option.getD_none]
  · rfl

/-- A second copy changes nothing more. -/
theorem memcpy_idem : memcpy (memcpy m a xs) a xs = memcpy m a xs := by
  funext k
  by_cases ha : a ≤ k
  · by_cases hk : k < a + xs.length
    · exact memcpy_of_mem ha hk
    · exact memcpy_of_ge (by omega)
  · exact memcpy_of_lt (by omega)

/-- Copies of memories that agree outside the target. -/
theorem memcpy_congr {m' : ℕ → α} (h : k < a ∨ a + xs.length ≤ k → m k = m' k) :
    memcpy m a xs k = memcpy m' a xs k := by
  by_cases ha : a ≤ k
  · by_cases hk : k < a + xs.length
    · exact memcpy_of_mem ha hk
    · rw [memcpy_of_ge (by omega), memcpy_of_ge (by omega)]
      exact h (.inr (by omega))
  · rw [memcpy_of_lt (by omega), memcpy_of_lt (by omega)]
    exact h (.inl (by omega))

end Stmgc.Lib.Memory
