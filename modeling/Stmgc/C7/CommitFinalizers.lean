/-
`c7/stm/list.c` and `_commit_finalizers` (c7/stm/finalizer.c), down to the memory
of the lists.

`List.lean` takes a `list_s` for the list of its items. Here it is what it is
in the source: a count, and a block of memory of which the first `count` slots
are in use. `list_extend` counts the new items first, moves to a larger block
when the last of them does not fit, and copies; a copy to or from a slot that
is not in the block is an error, and so is a read through `NULL`.
-/
import Stmgc.C7.FinalizerRun
import Mathlib.Algebra.Ring.Nat

namespace Stmgc.C7

open Stmgc.Lib

/-! ## Growable arrays -/

/-- `struct list_s`: the slots of the block, `none` where nothing was written yet.
`last_allocated` is their number minus one. -/
structure list_s (α : Type) where
  count : ℕ
  items : List (Option α)

namespace list_s

variable {α : Type}

def last_allocated (lst : list_s α) : ℕ := lst.items.length - 1

def LIST_OVERCNT (n : ℕ) : ℕ := 33 + (n / 2 * 3 ||| 1)

def list_create : list_s α where
  count := 0
  items := List.replicate 32 none

/-- `realloc` keeps the slots that are in both blocks. -/
def _list_grow (lst : list_s α) (nalloc : ℕ) : list_s α :=
  let nalloc := LIST_OVERCNT nalloc
  { lst with items := lst.items.take nalloc ++ List.replicate (nalloc - lst.items.length) none }

/-- `memcpy(lst->items + i, lst2->items + j, n * sizeof(uintptr_t))` -/
def memcpy (lst : list_s α) (i : ℕ) (lst2 : list_s α) (j n : ℕ) : Option (list_s α) := do
  c_assert (i + n ≤ lst.items.length)
  c_assert (j + n ≤ lst2.items.length)
  return { lst with
    items := lst.items.take i ++ (lst2.items.drop j).take n ++ lst.items.drop (i + n) }

/-- `list_extend`, on a list that is not `NULL` -/
def list_extend (lst lst2 : list_s α) (slicestart : ℕ) : Option (list_s α) :=
  if lst2.count ≤ slicestart then some lst
  else
    let baseindex := lst.count
    let lst := { lst with count := baseindex + lst2.count - slicestart }
    let lastindex := lst.count - 1
    let lst := if lst.last_allocated < lastindex then lst._list_grow lastindex else lst
    lst.memcpy baseindex lst2 slicestart (lst2.count - slicestart)

/-- What the list contains. -/
def content (lst : list_s α) : List α := (lst.items.take lst.count).reduceOption

/-- The slots in use are in the block, and they have been written. -/
structure Ok (lst : list_s α) : Prop where
  count_le : lst.count ≤ lst.items.length
  pos : 0 < lst.items.length
  written : ∀ x ∈ lst.items.take lst.count, x.isSome = true

variable {lst lst2 : list_s α} {k n : ℕ}

theorem lt_LIST_OVERCNT (n : ℕ) : n < LIST_OVERCNT n := by
  have hle : n / 2 * 3 ≤ n / 2 * 3 ||| 1 := Nat.left_le_or
  unfold LIST_OVERCNT
  omega

theorem ok_list_create : (list_create : list_s α).Ok := by
  refine ⟨Nat.zero_le _, ?_, ?_⟩
  · simp [list_create]
  · simp [list_create]

/-- In what has been written, reading on skips nothing. -/
theorem reduceOption_of_written {l : List (Option α)} (h : ∀ x ∈ l, x.isSome = true) :
    l.reduceOption.map some = l := by
  induction l with
  | nil => rfl
  | cons x l ih =>
      obtain ⟨a, ha⟩ := Option.isSome_iff_exists.mp (h x List.mem_cons_self)
      have hrest := ih fun y hy => h y (List.mem_cons_of_mem _ hy)
      rw [ha, List.reduceOption_cons_of_some, List.map_cons, hrest]

theorem Ok.map_content (h : lst.Ok) : lst.content.map some = lst.items.take lst.count :=
  reduceOption_of_written h.written

theorem Ok.length_content (h : lst.Ok) : lst.content.length = lst.count := by
  have hlen := congrArg List.length h.map_content
  rw [List.length_map, List.length_take] at hlen
  have hle := h.count_le
  omega

theorem reduceOption_map_some (l : List α) : (l.map some).reduceOption = l := by
  simp [List.reduceOption]

theorem length_list_grow (lst : list_s α) (n : ℕ) :
    (lst._list_grow n).items.length = LIST_OVERCNT n := by
  unfold _list_grow
  rw [List.length_append, List.length_take, List.length_replicate]
  omega

/-- Growing keeps the slots of a smaller block. -/
theorem take_list_grow (lst : list_s α) (hk : k ≤ lst.items.length) (hn : k ≤ n) :
    (lst._list_grow n).items.take k = lst.items.take k := by
  have hlt := lt_LIST_OVERCNT n
  unfold _list_grow
  dsimp only
  rw [List.take_append_of_le_length (by rw [List.length_take]; omega), List.take_take]
  rw [show min k (LIST_OVERCNT n) = k by omega]

/-- `memcpy` behind the slots in use. -/
theorem memcpy_spec (h2 : lst2.Ok) {i : ℕ} (hk : k ≤ lst2.count) (hi : i ≤ lst.items.length)
    (hpos : 0 < lst.items.length) (hwritten : ∀ x ∈ lst.items.take i, x.isSome = true)
    (hcount : lst.count = i + (lst2.count - k)) (hroom : lst.count ≤ lst.items.length) :
    ∃ l, lst.memcpy i lst2 k (lst2.count - k) = some l ∧ l.Ok
      ∧ l.content = (lst.items.take i).reduceOption ++ lst2.content.drop k := by
  have hle := h2.count_le
  have hnew : (lst2.items.drop k).take (lst2.count - k) = (lst2.content.drop k).map some := by
    rw [← List.drop_take, ← h2.map_content, List.map_drop]
  have hlen : ((lst2.content.drop k).map some).length = lst2.count - k := by
    rw [List.length_map, List.length_drop, h2.length_content]
  have htake : (lst.items.take i ++ (lst2.content.drop k).map some
      ++ lst.items.drop (i + (lst2.count - k))).take lst.count
      = lst.items.take i ++ (lst2.content.drop k).map some := by
    refine List.take_left' ?_
    rw [List.length_append, List.length_take, hlen]
    omega
  have hlength : (lst.items.take i ++ (lst2.content.drop k).map some
      ++ lst.items.drop (i + (lst2.count - k))).length = lst.items.length := by
    rw [List.length_append, List.length_append, List.length_take, List.length_drop, hlen]
    omega
  refine ⟨{ lst with items := lst.items.take i ++ (lst2.content.drop k).map some
    ++ lst.items.drop (i + (lst2.count - k)) }, ?_, ⟨?_, ?_, ?_⟩, ?_⟩
  · unfold memcpy
    rw [← hnew]
    simp only [c_assert]
    rw [if_pos (by omega), if_pos (by omega)]
    rfl
  · exact le_of_le_of_eq hroom hlength.symm
  · exact lt_of_lt_of_eq hpos hlength.symm
  · dsimp only
    rw [htake]
    intro x hx
    rcases List.mem_append.mp hx with hx | hx
    · exact hwritten x hx
    · obtain ⟨a, -, rfl⟩ := List.mem_map.mp hx
      rfl
  · rw [content]
    dsimp only
    rw [htake, List.reduceOption_append, reduceOption_map_some]

/-- `list_extend` appends the rest of the other list, and copies within the blocks only. -/
theorem list_extend_spec (h : lst.Ok) (h2 : lst2.Ok) (k : ℕ) :
    ∃ l, lst.list_extend lst2 k = some l ∧ l.Ok
      ∧ l.content = lst.content ++ lst2.content.drop k := by
  have hle := h.count_le
  have hpos := h.pos
  by_cases hk : lst2.count ≤ k
  · refine ⟨lst, if_pos hk, h, ?_⟩
    rw [List.drop_eq_nil_of_le (by rw [h2.length_content]; exact hk), List.append_nil]
  have hdef : lst.list_extend lst2 k
      = (if last_allocated { lst with count := lst.count + lst2.count - k }
            < lst.count + lst2.count - k - 1 then
          _list_grow { lst with count := lst.count + lst2.count - k } (lst.count + lst2.count - k - 1)
        else { lst with count := lst.count + lst2.count - k }).memcpy
          lst.count lst2 k (lst2.count - k) := if_neg hk
  rw [hdef]
  by_cases hgrow : last_allocated { lst with count := lst.count + lst2.count - k }
      < lst.count + lst2.count - k - 1
  · -- the last new item does not fit
    have hfull : lst.items.length - 1 < lst.count + lst2.count - k - 1 := hgrow
    rw [if_pos hgrow]
    have hlt := lt_LIST_OVERCNT (lst.count + lst2.count - k - 1)
    have hlen := length_list_grow { lst with count := lst.count + lst2.count - k }
      (lst.count + lst2.count - k - 1)
    have htake := take_list_grow { lst with count := lst.count + lst2.count - k } hle
      (show lst.count ≤ lst.count + lst2.count - k - 1 by omega)
    obtain ⟨l, hl, hok, hcontent⟩ := @memcpy_spec α (_list_grow
      { lst with count := lst.count + lst2.count - k } (lst.count + lst2.count - k - 1)) lst2 k h2
      lst.count (by omega) (by omega) (by omega) (by rw [htake]; exact h.written)
      (show lst.count + lst2.count - k = _ by omega)
      (show lst.count + lst2.count - k ≤ _ by omega)
    refine ⟨l, hl, hok, ?_⟩
    rw [hcontent, htake]
    rfl
  · have hfits : ¬ lst.items.length - 1 < lst.count + lst2.count - k - 1 := hgrow
    rw [if_neg hgrow]
    exact @memcpy_spec α { lst with count := lst.count + lst2.count - k } lst2 k h2 lst.count
      (by omega) hle hpos h.written (show lst.count + lst2.count - k = _ by omega)
      (show lst.count + lst2.count - k ≤ lst.items.length by omega)

end list_s

/-! ## `_commit_finalizers` -/

/-- `struct finalizers_s` with its lists in memory. `running_next` is the variable `next` of the
loop of `_execute_finalizers` that is suspended in a callback. -/
structure finalizers_mem (Obj : Type) where
  objects_with_finalizers : list_s Obj
  count_non_young : ℕ
  run_finalizers : Option (list_s (Option Obj))
  running_next : Option ℕ

namespace finalizers_mem

variable {Obj : Type}

/-- The lists are in order, and the loop has not gone beyond the end of its list. -/
structure Ok (f : finalizers_mem Obj) : Prop where
  objects_with_finalizers : f.objects_with_finalizers.Ok
  run_finalizers : ∀ lst, f.run_finalizers = some lst → lst.Ok
  running_next : ∀ next, f.running_next = some next →
    ∃ lst, f.run_finalizers = some lst ∧ next ≤ lst.count

/-- The same lists, without their memory. -/
def lists (f : finalizers_mem Obj) : finalizers_s Obj where
  objects_with_finalizers := f.objects_with_finalizers.content
  count_non_young := f.count_non_young
  run_finalizers := f.run_finalizers.map list_s.content
  running_next := f.running_next

end finalizers_mem

section Commit

variable {Obj : Type}

def UINTPTR_MAX : ℕ := 2 ^ 64 - 1

/-- `_commit_finalizers`, for the lists `f` of the segment that commits. The results are
`g_finalizers` and the variable `next` of the loop that is suspended, if there is one; `f` is
freed. `none` is a failed assertion or a read through `NULL`. -/
def _commit_finalizers (f g_finalizers : finalizers_mem Obj) :
    Option (finalizers_mem Obj × Option ℕ) := do
  let (g_finalizers, next) ←
    match f.run_finalizers with
    | none => some (g_finalizers, f.running_next)
    | some src => do
      let frm := f.running_next.getD 0
      c_assert (frm ≤ src.count)
      let next := f.running_next.map fun _ => UINTPTR_MAX
      if frm < src.count then do
        let lst ← g_finalizers.run_finalizers
        let lst ← lst.list_extend src frm
        some ({ g_finalizers with run_finalizers := some lst }, next)
      else some (g_finalizers, next)
  let objects ← g_finalizers.objects_with_finalizers.list_extend f.objects_with_finalizers 0
  return ({ g_finalizers with objects_with_finalizers := objects }, next)

/-- The entries whose finalizer the suspended loop has not called yet. -/
def finalizers_mem.not_yet_run (f : finalizers_mem Obj) : List (Option Obj) :=
  (f.run_finalizers.elim [] list_s.content).drop (f.running_next.getD 0)

/-- Both lists of `g_finalizers` go on with what the segment has left, and the suspended loop
calls nothing any more. -/
def CommitsAsClaimed (f g_finalizers : finalizers_mem Obj) : Prop :=
  ∃ g next, _commit_finalizers f g_finalizers = some (g, next) ∧ g.Ok
    ∧ g.run_finalizers.elim [] list_s.content
      = g_finalizers.run_finalizers.elim [] list_s.content ++ f.not_yet_run
    ∧ g.objects_with_finalizers.content
      = g_finalizers.objects_with_finalizers.content ++ f.objects_with_finalizers.content
    ∧ g.running_next = g_finalizers.running_next
    ∧ ∀ total < UINTPTR_MAX, ∀ k, next = some k → ¬ k < total

variable {f g : finalizers_mem Obj}

/-- A longer list of finalizers to run is as good. -/
theorem finalizers_mem.Ok.extend_run {lst l : list_s (Option Obj)} (hg : g.Ok)
    (hlst : g.run_finalizers = some lst) (hl : l.Ok) (hle : lst.content <+: l.content) :
    ({ g with run_finalizers := some l } : finalizers_mem Obj).Ok := by
  refine ⟨hg.objects_with_finalizers, ?_, fun next hnext => ⟨l, rfl, ?_⟩⟩
  · rintro lst' ⟨⟩
    exact hl
  · obtain ⟨lst', hlst', hcount⟩ := hg.running_next next hnext
    rw [hlst, Option.some.injEq] at hlst'
    subst hlst'
    have h1 := (hg.run_finalizers lst hlst).length_content
    have h2 := hl.length_content
    have h3 := hle.length_le
    omega

/-- The second half: the list of the objects that have a finalizer. -/
theorem commit_objects (hf : f.Ok) (hg : g.Ok) :
    ∃ objects, g.objects_with_finalizers.list_extend f.objects_with_finalizers 0 = some objects
      ∧ ({ g with objects_with_finalizers := objects } : finalizers_mem Obj).Ok
      ∧ objects.content = g.objects_with_finalizers.content ++ f.objects_with_finalizers.content := by
  obtain ⟨objects, hobj, hok, hcontent⟩ :=
    list_s.list_extend_spec hg.objects_with_finalizers hf.objects_with_finalizers 0
  exact ⟨objects, hobj, ⟨hok, hg.run_finalizers, hg.running_next⟩, hcontent⟩

theorem not_lt_of_stopped {next : Option ℕ} {total k : ℕ} (ht : total < UINTPTR_MAX)
    (hk : next.map (fun _ => UINTPTR_MAX) = some k) : ¬ k < total := by
  obtain ⟨-, -, rfl⟩ := Option.map_eq_some_iff.mp hk
  omega

/-- `_commit_finalizers` does what it is for if and only if no finalizer is left to run or
`g_finalizers` has a list for it. -/
theorem commit_finalizers_iff (f g_finalizers : finalizers_mem Obj) (hf : f.Ok)
    (hg : g_finalizers.Ok) : CommitsAsClaimed f g_finalizers ↔
      f.not_yet_run = [] ∨ g_finalizers.run_finalizers ≠ none := by
  unfold CommitsAsClaimed _commit_finalizers finalizers_mem.not_yet_run
  cases hsrc : f.run_finalizers with
  | none =>
      obtain ⟨objects, hobj, hok, hcontent⟩ := commit_objects hf hg
      have hnext : f.running_next = none := by
        cases hnext : f.running_next with
        | none => rfl
        | some next =>
            obtain ⟨lst, hlst, -⟩ := hf.running_next next hnext
            rw [hsrc] at hlst
            exact absurd hlst (by simp)
      simp [hobj, hnext, hok, hcontent]
  | some src =>
      have hsrcok := hf.run_finalizers src hsrc
      have hfrm : f.running_next.getD 0 ≤ src.count := by
        cases hnext : f.running_next with
        | none => exact Nat.zero_le _
        | some next =>
            obtain ⟨lst, hlst, hle⟩ := hf.running_next next hnext
            rw [hsrc, Option.some.injEq] at hlst
            rw [hlst]
            exact hle
      have hlen := hsrcok.length_content
      dsimp only [Option.elim]
      rw [show c_assert (f.running_next.getD 0 ≤ src.count) = some () from if_pos hfrm]
      by_cases hlt : f.running_next.getD 0 < src.count
      · -- some finalizers have not been called
        have hne : src.content.drop (f.running_next.getD 0) ≠ [] := by
          rw [Ne, List.drop_eq_nil_iff]
          omega
        cases hg' : g_finalizers.run_finalizers with
        | none => simp [hlt, hne]
        | some lst =>
            obtain ⟨l, hl, hlok, hlcontent⟩ :=
              list_s.list_extend_spec (hg.run_finalizers lst hg') hsrcok (f.running_next.getD 0)
            have hg1 : ({ g_finalizers with run_finalizers := some l } : finalizers_mem Obj).Ok :=
              hg.extend_run hg' hlok (by rw [hlcontent]; exact List.prefix_append _ _)
            obtain ⟨objects, hobj, hok, hcontent⟩ := commit_objects hf hg1
            have hstop : ∀ total < UINTPTR_MAX, ∀ k,
                f.running_next.map (fun _ => UINTPTR_MAX) = some k → ¬ k < total :=
              fun total ht k hk => not_lt_of_stopped ht hk
            simp only [hlt, hl, hg', Option.bind_eq_bind, Option.bind_some, if_true]
            refine iff_of_true ⟨_, _, ?_, hok, hlcontent, hcontent, rfl, hstop⟩ (Or.inr (by simp))
            rw [hobj]
            rfl
      · have hnil : src.content.drop (f.running_next.getD 0) = [] := by
          rw [List.drop_eq_nil_iff]
          omega
        obtain ⟨objects, hobj, hok, hcontent⟩ := commit_objects hf hg
        have hstop : ∀ total < UINTPTR_MAX, ∀ k,
            f.running_next.map (fun _ => UINTPTR_MAX) = some k → ¬ k < total :=
          fun total ht k hk => not_lt_of_stopped ht hk
        simp only [hlt, hnil, Option.bind_eq_bind, Option.bind_some, if_false, List.append_nil]
        refine iff_of_true ⟨_, _, ?_, hok, rfl, hcontent, rfl, hstop⟩ (Or.inl trivial)
        rw [hobj]
        rfl

/-- Without their memory, the lists are those of `commit_finalizers`. -/
theorem commit_finalizers_lists (hf : f.Ok) (hg : g.Ok) :
    (_commit_finalizers f g).map (fun r => r.1.lists) = commit_finalizers f.lists g.lists := by
  unfold _commit_finalizers commit_finalizers finalizers_mem.lists
  cases hsrc : f.run_finalizers with
  | none =>
      obtain ⟨objects, hobj, -, hcontent⟩ := commit_objects hf hg
      simp [hobj, hcontent]
  | some src =>
      have hsrcok := hf.run_finalizers src hsrc
      have hlen := hsrcok.length_content
      dsimp only [Option.map]
      rw [hlen]
      by_cases hfrm : f.running_next.getD 0 ≤ src.count
      · rw [show c_assert (f.running_next.getD 0 ≤ src.count) = some () from if_pos hfrm]
        by_cases hlt : f.running_next.getD 0 < src.count
        · cases hg' : g.run_finalizers with
          | none => simp [hlt]
          | some lst =>
              obtain ⟨l, hl, hlok, hlcontent⟩ :=
                list_s.list_extend_spec (hg.run_finalizers lst hg') hsrcok (f.running_next.getD 0)
              have hg1 : ({ g with run_finalizers := some l } : finalizers_mem Obj).Ok :=
                hg.extend_run hg' hlok (by rw [hlcontent]; exact List.prefix_append _ _)
              obtain ⟨objects, hobj, -, hcontent⟩ := commit_objects hf hg1
              simp [hlt, hl, hlcontent, hobj, hcontent]
        · obtain ⟨objects, hobj, -, hcontent⟩ := commit_objects hf hg
          simp [hlt, hobj, hcontent]
      · rw [show c_assert (f.running_next.getD 0 ≤ src.count) = none from if_neg hfrm]
        rfl

/-- A list with one item. -/
def one_item {α : Type} (x : α) : list_s α := ⟨1, some x :: List.replicate 31 none⟩

theorem ok_one_item {α : Type} (x : α) : (one_item x).Ok := by
  refine ⟨?_, ?_, ?_⟩ <;> simp [one_item]

/-- Objects 7 and 8 have died, the finalizer of 7 is running, and 9 lives. -/
def suspended : finalizers_mem ℕ where
  objects_with_finalizers := one_item 9
  count_non_young := 0
  run_finalizers := some ⟨2, some none :: some (some 8) :: List.replicate 30 none⟩
  running_next := some 1

theorem ok_suspended : suspended.Ok := by
  refine ⟨ok_one_item 9, ?_, ?_⟩
  · rintro lst ⟨⟩
    refine ⟨?_, ?_, ?_⟩ <;> simp
  · rintro next ⟨⟩
    exact ⟨_, rfl, Nat.le_succ 1⟩

/-- `g_finalizers` with and without finalizers to run. -/
def global_lists (run_finalizers : Option (list_s (Option ℕ))) : finalizers_mem ℕ where
  objects_with_finalizers := list_s.list_create
  count_non_young := 0
  run_finalizers := run_finalizers
  running_next := none

theorem ok_global_lists {run_finalizers : Option (list_s (Option ℕ))}
    (h : ∀ lst, run_finalizers = some lst → lst.Ok) : (global_lists run_finalizers).Ok :=
  ⟨list_s.ok_list_create, h, fun _ hnext => absurd hnext (by simp [global_lists])⟩

theorem suspended_lists :
    (_commit_finalizers suspended (global_lists (some (one_item none)))).map (fun r => r.1.lists)
      = commit_finalizers suspended.lists (global_lists (some (one_item none))).lists :=
  commit_finalizers_lists ok_suspended (ok_global_lists (by rintro lst ⟨⟩; exact ok_one_item _))

theorem commit_finalizers_iff_suspended :
    (CommitsAsClaimed suspended (global_lists (some (one_item (some 5)))) ↔
      suspended.not_yet_run = [] ∨ (global_lists (some (one_item (some 5)))).run_finalizers ≠ none)
    ∧ CommitsAsClaimed suspended (global_lists (some (one_item (some 5)))) := by
  have hiff := commit_finalizers_iff suspended (global_lists (some (one_item (some 5))))
    ok_suspended (ok_global_lists (by rintro lst ⟨⟩; exact ok_one_item _))
  exact ⟨hiff, hiff.mpr (Or.inr (by simp [global_lists]))⟩

/-- `list_extend` reads through `NULL` when `g_finalizers` has no list yet. -/
theorem not_commit_finalizers : ¬ ∀ f g_finalizers : finalizers_mem ℕ, f.Ok → g_finalizers.Ok →
    CommitsAsClaimed f g_finalizers := by
  intro h
  obtain ⟨g, next, hcommit, -⟩ := h suspended (global_lists none) ok_suspended
    (ok_global_lists (by simp))
  have hnone : _commit_finalizers suspended (global_lists none) = none := rfl
  rw [hnone] at hcommit
  exact absurd hcommit (by simp)

end Commit

end Stmgc.C7
