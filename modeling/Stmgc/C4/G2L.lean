/-
The `g2l_xx` tables of `lists.h` and `lists.c`.

A `G2L` maps addresses of public objects to addresses of local ones. It is a
tree of nodes with `TREE_ARITY` slots, indexed by four bits of the key a level,
the least significant ones first. [`G2L.keys_eq_iff`] is what `AcquireLocks`
needs of it: the order in which `G2L_LOOP_FORWARD` meets the keys does not
depend on what the table went through before.

The memory blocks of a table are not modelled. `_g2l_grow` may run before any
insertion, and does to the entries what `_g2l_compress` does.
-/
import Mathlib.Data.Nat.ModEq
import Stmgc.Lib.DigitTree

open Stmgc.Lib

namespace Stmgc.C4

/-- The address of an object, in words: objects are aligned. -/
abbrev gcptr : Type := Fin (2 ^ 61)

instance gcptr_neZero : NeZero (2 ^ 61) := ⟨by decide⟩

def TREE_BITS : ℕ := 4

def TREE_ARITY : ℕ := 2 ^ TREE_BITS

def TREE_DEPTH_MAX : ℕ := (64 - 2 + TREE_BITS - 1) / TREE_BITS

/-- `(key >> shift) & TREE_MASK`, as an index of `items`, at the level `shift / TREE_BITS`. -/
def digit (addr : gcptr) (level : ℕ) : Fin TREE_ARITY :=
  ⟨addr.val / TREE_ARITY ^ level % TREE_ARITY, Nat.mod_lt _ (by decide)⟩

/-- The order of the addresses by their digits, the least significant one first. -/
def Before (a b : gcptr) : Prop := DigitTree.Before digit 0 a b

theorem Before.trans {a b c : gcptr} (hab : Before a b) (hbc : Before b c) : Before a c :=
  DigitTree.Before.trans hab hbc

theorem Before.irrefl {a : gcptr} : ¬ Before a a := DigitTree.Before.irrefl

/-- A `wlog_t`. -/
abbrev wlog_t : Type := gcptr × gcptr

/-- `struct G2L`: the toplevel node, with every entry where its address says. -/
structure G2L where
  toplevel : DigitTree TREE_ARITY gcptr gcptr
  placed : toplevel.Placed digit 0
  depth : toplevel.DepthLe TREE_DEPTH_MAX

namespace G2L

variable {g h : G2L} {addr val : gcptr} {x : wlog_t}

/-- The items that `G2L_LOOP_FORWARD` meets, in its order. -/
def loop_forward (g : G2L) : List wlog_t := g.toplevel.toList

def keys (g : G2L) : List gcptr := g.loop_forward.map Prod.fst

/-- The table after `memset` or `g2l_clear`. -/
def g2l_clear : G2L where
  toplevel := .node fun _ => .null
  placed := fun _ => ⟨by simp [DigitTree.toList], by simp [DigitTree.Placed]⟩
  depth := fun _ => by simp [DigitTree.DepthLe]

/-- `g2l_insert`. It fails the assertion that the key is not already present. -/
def g2l_insert (g : G2L) (addr val : gcptr) : Option G2L :=
  match h : g.toplevel.insert digit addr val TREE_DEPTH_MAX 0 with
  | none => none
  | some t => some ⟨t, (DigitTree.insert_spec h g.placed).1, g.depth.insert h⟩

/-- `g2l_delete_item`, and `G2L_LOOP_DELETE` of the item with this key. -/
def g2l_delete_item (g : G2L) (addr : gcptr) : G2L where
  toplevel := g.toplevel.erase digit addr 0
  placed := (DigitTree.erase_spec g.placed).1
  depth := g.depth.erase

/-- `G2L_FIND`: the `val` of the item with this key. -/
def g2l_find (g : G2L) (addr : gcptr) : Option gcptr := g.toplevel.lookup digit addr 0

/-! ## The order of the loop -/

theorem keys_sorted : g.keys.Pairwise Before := g.placed.pairwise

theorem keys_nodup : g.keys.Nodup := g.placed.nodup

theorem mem_keys : addr ∈ g.keys ↔ ∃ val, (addr, val) ∈ g.loop_forward := by
  simp [keys]

/-- The loop visits the same addresses in the same order, however the two
tables came about. -/
theorem keys_eq_iff : g.keys = h.keys ↔ ∀ a, a ∈ g.keys ↔ a ∈ h.keys := by
  constructor
  · rintro heq a
    rw [heq]
  · exact DigitTree.eq_of_pairwise_before keys_sorted keys_sorted

/-- A key has one item. -/
theorem eq_of_mem {val' : gcptr} (h : (addr, val) ∈ g.loop_forward)
    (h' : (addr, val') ∈ g.loop_forward) : val = val' := by
  have hinj := List.inj_on_of_nodup_map g.keys_nodup h h' rfl
  exact congrArg Prod.snd hinj

/-- An item of the loop is later than those before it. -/
theorem before_of_split {done todo : List wlog_t} {x y : wlog_t}
    (hsplit : g.loop_forward = done ++ y :: todo) (hx : x ∈ done) : Before x.1 y.1 := by
  have hsorted := g.keys_sorted
  rw [keys, hsplit, List.map_append, List.pairwise_append] at hsorted
  exact hsorted.2.2 _ (List.mem_map_of_mem hx) _ (List.mem_map_of_mem List.mem_cons_self)

/-! ## What the operations do to the items -/

theorem loop_forward_g2l_clear : g2l_clear.loop_forward = [] := by
  simp [loop_forward, g2l_clear, DigitTree.toList]

theorem g2l_insert_spec (hins : g.g2l_insert addr val = some h) :
    (∀ x, x ∈ h.loop_forward ↔ x = (addr, val) ∨ x ∈ g.loop_forward)
      ∧ ∀ x ∈ g.loop_forward, x.1 ≠ addr := by
  unfold g2l_insert at hins
  split at hins
  · exact absurd hins (by simp)
  · rename_i t ht
    rw [Option.some.injEq] at hins
    subst hins
    exact (DigitTree.insert_spec ht g.placed).2

theorem mem_g2l_delete_item :
    x ∈ (g.g2l_delete_item addr).loop_forward ↔ x ∈ g.loop_forward ∧ x.1 ≠ addr :=
  (DigitTree.erase_spec g.placed).2 x

theorem g2l_find_eq_some : g.g2l_find addr = some val ↔ (addr, val) ∈ g.loop_forward :=
  DigitTree.lookup_eq_some g.placed

theorem g2l_find_eq_none : g.g2l_find addr = none ↔ addr ∉ g.keys := by
  rw [mem_keys, Option.eq_none_iff_forall_ne_some]
  simp [g2l_find_eq_some]

theorem foldlM_insert_spec {items : List wlog_t}
    (hins : items.foldlM (fun (copy : G2L) item => copy.g2l_insert item.1 item.2) g = some h) :
    ∀ x, x ∈ h.loop_forward ↔ x ∈ items ∨ x ∈ g.loop_forward := by
  induction items generalizing g with
  | nil =>
      rw [List.foldlM_nil, Option.pure_def, Option.some.injEq] at hins
      simp [hins]
  | cons item items ih =>
      rw [List.foldlM_cons, Option.bind_eq_bind, Option.bind_eq_some_iff] at hins
      obtain ⟨g', hg', hins⟩ := hins
      intro x
      rw [ih hins x, (g2l_insert_spec hg').1 x, List.mem_cons]
      tauto

end G2L

end Stmgc.C4
