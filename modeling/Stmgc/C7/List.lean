/-
`c7/stm/list.h`: the growable arrays `struct list_s`.

A `list_s` is the `List` of its `count` items, in order. Growing is invisible
(`_list_grow` only reallocates), so `LIST_APPEND` adds at the end and
`list_pop_item` takes from the end; a loop that pops until the list is empty
therefore runs last-in first-out.
-/
import Mathlib.Data.List.Basic

namespace Stmgc.C7

variable {α : Type}

/-- `LIST_APPEND`. -/
def list_append (lst : List α) (item : α) : List α := lst ++ [item]

/-- `list_pop_item`, on a list that may be empty. -/
def list_pop_item (lst : List α) : Option (List α × α) :=
  match lst.reverse with
  | [] => none
  | item :: rest => some (rest.reverse, item)

@[simp] theorem mem_list_append {lst : List α} {a b : α} :
    a ∈ list_append lst b ↔ a ∈ lst ∨ a = b := by
  simp [list_append]

@[simp] theorem length_list_append (lst : List α) (a : α) :
    (list_append lst a).length = lst.length + 1 := by
  simp [list_append]

theorem list_pop_item_eq_none {lst : List α} : list_pop_item lst = none ↔ lst = [] := by
  unfold list_pop_item
  constructor
  · intro h
    split at h
    · exact List.reverse_eq_nil_iff.mp ‹_›
    · cases h
  · rintro rfl
    rfl

theorem list_pop_item_eq_some {lst rest : List α} {item : α}
    (h : list_pop_item lst = some (rest, item)) : lst = rest ++ [item] := by
  unfold list_pop_item at h
  split at h
  · cases h
  · rename_i x r hr
    simp only [Option.some.injEq, Prod.mk.injEq] at h
    obtain ⟨rfl, rfl⟩ := h
    rw [← List.reverse_reverse lst, hr, List.reverse_cons]

end Stmgc.C7
