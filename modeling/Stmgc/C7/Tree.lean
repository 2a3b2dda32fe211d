/-
`struct tree_s` of `list.h` and `list.c`.

A tree maps `addr`s to `val`s. It is a tree of nodes with `TREE_ARITY` slots,
indexed by four bits of the hash of the `addr` a level. Its nodes and items are
cut out of one block of memory. When the block is full, [`_tree_grow`] inserts
the live items in a new tree, and the insertion that needed the room begins
again. [`tree_is_finite_map`] is the main result: after any operations the tree
holds the map that they describe.

Of the block of memory only the offsets of `raw_current` and `raw_end` from
`raw_start` are kept. What `p` points into in `tree_insert` is the argument of
the recursion here, and is put back when it returns. An item without `addr` is
one with `addr == 0`.
-/
import Stmgc.Lib.DigitTree
import Stmgc.Lib.Loop
import Mathlib.Data.BitVec

open Stmgc.Lib

namespace Stmgc.C7.Tree

abbrev uintptr_t : Type := BitVec 64

def TREE_BITS : ℕ := 4

def TREE_ARITY : ℕ := 1 <<< TREE_BITS

def TREE_DEPTH_MAX : ℕ := (8 * 8 + TREE_BITS - 1) / TREE_BITS

def TREE_HASH (key : uintptr_t) : uintptr_t := key ^^^ (key <<< 4)

def TREE_MASK : uintptr_t := (TREE_ARITY - 1) * 8

/-- `key & TREE_MASK`, an offset in bytes, as an index of `items`. -/
def slot (key : uintptr_t) : Fin TREE_ARITY :=
  ⟨(key &&& TREE_MASK).toNat / 8, by
    have hle : (key &&& TREE_MASK).toNat ≤ TREE_MASK.toNat := by
      rw [BitVec.toNat_and]
      exact Nat.and_le_right
    have hmask : TREE_MASK.toNat / 8 < TREE_ARITY := by decide
    omega⟩

/-- The slot of a key in a node of a level, `shift` being `level * TREE_BITS`. -/
def digit (addr : uintptr_t) (level : ℕ) : Fin TREE_ARITY :=
  slot (TREE_HASH addr >>> (level * TREE_BITS))

/-- What a slot points to: nothing, a `wlog_t`, or a `wlog_node_t`. -/
abbrev entry_t : Type := DigitTree TREE_ARITY uintptr_t uintptr_t

/-- `addr` and `val`. -/
abbrev wlog_t : Type := uintptr_t × uintptr_t

def SIZEOF_WLOG : ℕ := 2 * 8

def SIZEOF_WLOG_NODE : ℕ := TREE_ARITY * 8

structure tree_s where
  raw_current : ℕ
  raw_end : ℕ
  /-- `toplevel.items`. -/
  toplevel : Fin TREE_ARITY → entry_t

namespace tree_s

def tree_create : tree_s where
  raw_current := 0
  raw_end := 0
  toplevel := fun _ => .null

def tree_clear (tree : tree_s) : tree_s :=
  if tree.raw_current ≠ 0 then { tree with raw_current := 0, toplevel := fun _ => .null } else tree

end tree_s

/-! ## `_TREE_LOOP` -/

section TreeLoop

variable {σ β : Type}

/-- The slots from `INITIAL` on, in the direction `_PLUS_`. -/
def slots (backward : Bool) (items : Fin TREE_ARITY → β) : List β :=
  if backward then (List.ofFn items).reverse else List.ofFn items

/-- The variables of the loop, and those of its body. -/
structure loop_t (σ : Type) where
  /-- The slots from `_next` up to `_end`. -/
  next : List entry_t
  stack : List (List entry_t)
  deleted_factor : ℤ
  locals : σ

def loop_turn (backward : Bool) (body : σ → wlog_t → Option σ) (s : loop_t σ) :
    Option (ControlFlow (loop_t σ) (σ × ℤ)) :=
  match s.next with
  | [] =>
      match s.stack with
      | [] => some (.done (s.locals, s.deleted_factor))
      | next :: stack => some (.cont { s with next := next, stack := stack })
  | .null :: next => some (.cont { s with next := next })
  | .node items :: next => do
      c_assert (s.stack.length < TREE_DEPTH_MAX)
      some (.cont { s with next := slots backward items, stack := next :: s.stack })
  | .item none _ :: next =>
      some (.cont { s with next := next, deleted_factor := s.deleted_factor + 3 })
  | .item (some addr) val :: next => do
      let locals ← body s.locals (addr, val)
      some (.cont { s with next := next, deleted_factor := s.deleted_factor - 4, locals := locals })

/-- `TREE_LOOP_FORWARD` and `TREE_LOOP_BACKWARD`, up to `TREE_LOOP_END`: the
variables of the body, and `_deleted_factor`. -/
def tree_loop (backward : Bool) (tree : tree_s) (body : σ → wlog_t → Option σ) (locals : σ) :
    Option (σ × ℤ) :=
  loop (loop_turn backward body) ⟨slots backward tree.toplevel, [], 0, locals⟩

end TreeLoop

/-! ## The operations -/

/-- `_tree_find`, with the `key` that leads to the entry. -/
def _tree_find : entry_t → uintptr_t → Option wlog_t
  | .null, _ => none
  | .item addr val, _ => some (addr.getD 0, val)
  | .node items, key => _tree_find (items (slot (key >>> TREE_BITS))) (key >>> TREE_BITS)

/-- `TREE_FIND`. -/
def TREE_FIND (tree : tree_s) (addr1 : uintptr_t) : Option wlog_t :=
  match tree.toplevel (slot (TREE_HASH addr1)) with
  | .null => none
  | entry =>
      match _tree_find entry (TREE_HASH addr1) with
      | none => none
      | some result => if result.1 ≠ addr1 then none else some result

def tree_contains (tree : tree_s) (addr : uintptr_t) : Bool := (TREE_FIND tree addr).isSome

/-- The item that `TREE_FIND` finds gets `addr == 0`. -/
def tree_delete_item (tree : tree_s) (addr : uintptr_t) : tree_s × Bool :=
  match TREE_FIND tree addr with
  | some _ =>
      let p := digit addr 0
      let entry := (tree.toplevel p).erase digit addr 1
      ({ tree with toplevel := Function.update tree.toplevel p entry }, true)
  | none => (tree, false)

/-- How the loop of `tree_insert` ends: with the item in its slot, or because
`_tree_grab` has no room for so many bytes. -/
inductive inserted_t where
  | done (raw_current : ℕ) (items : Fin TREE_ARITY → entry_t)
  | no_room (size : ℕ) (items : Fin TREE_ARITY → entry_t)

/-- The node that the loop went on in is put back in the slot `p`. -/
def inserted_t.below (items : Fin TREE_ARITY → entry_t) (p : Fin TREE_ARITY) : inserted_t → inserted_t
  | .done raw_current next => .done raw_current (Function.update items p (.node next))
  | .no_room size next => .no_room size (Function.update items p (.node next))

/-- The loop of `tree_insert` from the node with these `items` on. The first
argument is how many levels are left until `shift < TREE_DEPTH_MAX * TREE_BITS`
fails. -/
def insert_loop (addr val : uintptr_t) (raw_end : ℕ) :
    ℕ → ℕ → ℕ → (Fin TREE_ARITY → entry_t) → Option inserted_t
  | 0, _, _, _ => none
  | levels + 1, level, raw_current, items =>
      let p := digit addr level
      match items p with
      | .null =>
          if raw_current + SIZEOF_WLOG > raw_end then some (.no_room SIZEOF_WLOG items)
          else
            some (.done (raw_current + SIZEOF_WLOG)
              (Function.update items p (.item (some addr) val)))
      | .node next =>
          (insert_loop addr val raw_end levels (level + 1) raw_current next).map (·.below items p)
      -- reuse the deleted entry and that's it
      | .item none _ => some (.done raw_current (Function.update items p (.item (some addr) val)))
      | .item (some addr1) val1 =>
          -- the key must not already be present
          if addr1 = addr then none
          -- collision: there is already a different wlog here
          else if raw_current + SIZEOF_WLOG_NODE > raw_end then some (.no_room SIZEOF_WLOG_NODE items)
          else
            let node : Fin TREE_ARITY → entry_t :=
              Function.update (fun _ => .null) (digit addr1 (level + 1)) (.item (some addr1) val1)
            (insert_loop addr val raw_end levels (level + 1) (raw_current + SIZEOF_WLOG_NODE) node).map
              (·.below items p)

/-- `_tree_grow`, with the `tree_insert` that it calls. -/
def _tree_grow (tree_insert : tree_s → wlog_t → Option tree_s) (tree : tree_s) (extra : ℕ) :
    Option tree_s := do
  let alloc := tree.raw_end
  let newalloc := (alloc + extra + alloc / 4 + 31) / 16 * 16
  let newtree : tree_s := { raw_current := 0, raw_end := newalloc, toplevel := fun _ => .null }
  let (newtree, _) ← tree_loop false tree tree_insert newtree
  some newtree

/-- `tree_insert`, when it goes back to `retry` less often than the first argument says. -/
def tree_insert : ℕ → tree_s → wlog_t → Option tree_s
  | 0, _, _ => none
  | retries + 1, tree, item => do
      c_assert (item.1 ≠ 0)
      let inserted ← insert_loop item.1 item.2 tree.raw_end TREE_DEPTH_MAX 0 tree.raw_current
        tree.toplevel
      match inserted with
      | .done raw_current items => some { tree with raw_current := raw_current, toplevel := items }
      | .no_room size items =>
          let tree ← _tree_grow (tree_insert retries) { tree with toplevel := items } size
          tree_insert retries tree item

/-- `_tree_compress`. -/
def _tree_compress (retries : ℕ) (tree : tree_s) : Option tree_s := do
  let (tree_copy, _) ← tree_loop false tree (tree_insert retries) tree_s.tree_create
  some tree_copy

/-- A loop that ends with `TREE_LOOP_END_AND_COMPRESS`: the variables of its
body, and the tree. -/
def loop_end_and_compress {σ : Type} (retries : ℕ) (backward : Bool) (tree : tree_s)
    (body : σ → wlog_t → Option σ) (locals : σ) : Option (σ × tree_s) := do
  let (locals, deleted_factor) ← tree_loop backward tree body locals
  if deleted_factor > 9 then
    let tree ← _tree_compress retries tree
    some (locals, tree)
  else some (locals, tree)

/-! ## The hash -/

section Hash

variable {a b : uintptr_t}

/-- The bits of the hash from the third on, four a level. -/
theorem testBit_digit {level m : ℕ} (hm : m < TREE_BITS) :
    (digit a level).val.testBit m = (TREE_HASH a).getLsbD (level * TREE_BITS + (m + 3)) := by
  have hmask : ∀ m < TREE_BITS, TREE_MASK.getLsbD (m + 3) = true := by decide
  have hdiv : (digit a level).val
      = (TREE_HASH a >>> (level * TREE_BITS) &&& TREE_MASK).toNat / 2 ^ 3 := rfl
  rw [hdiv, Nat.testBit_div_two_pow, BitVec.testBit_toNat, BitVec.getLsbD_and, hmask m hm,
    Bool.and_true, BitVec.getLsbD_ushiftRight]

theorem getLsbD_hash_eq (h : ∀ j < TREE_DEPTH_MAX, digit a j = digit b j) {i : ℕ} (hi : 3 ≤ i)
    (hlt : i < 64) : (TREE_HASH a).getLsbD i = (TREE_HASH b).getLsbD i := by
  have hlevel : (i - 3) / TREE_BITS < TREE_DEPTH_MAX := by
    have hbits : TREE_DEPTH_MAX = 16 := rfl
    rw [hbits, TREE_BITS]
    omega
  have hm : (i - 3) % TREE_BITS < TREE_BITS := Nat.mod_lt _ (by decide)
  have hbit := congrArg (fun d => d.val.testBit ((i - 3) % TREE_BITS)) (h _ hlevel)
  simp only [testBit_digit hm] at hbit
  have hi' : (i - 3) / TREE_BITS * TREE_BITS + ((i - 3) % TREE_BITS + 3) = i := by
    have hdiv := Nat.div_add_mod' (i - 3) TREE_BITS
    omega
  rwa [hi'] at hbit

/-- A key below `2 ^ 60` is known from the digits of its hash: the bit `i` is
the bit `i + 4` of the hash, up to the bit `i + 4` of the key. -/
theorem eq_of_digit_eq (ha : a < 2 ^ 60) (hb : b < 2 ^ 60)
    (h : ∀ j < TREE_DEPTH_MAX, digit a j = digit b j) : a = b := by
  have hhigh : ∀ c : uintptr_t, c < 2 ^ 60 → ∀ i, 60 ≤ i → c.getLsbD i = false := by
    intro c hc i hi
    have h60 : (2 ^ 60 : uintptr_t).toNat = 2 ^ 60 := by decide +kernel
    have hlt : c.toNat < 2 ^ 60 := h60 ▸ BitVec.lt_def.mp hc
    exact Nat.testBit_lt_two_pow (lt_of_lt_of_le hlt (Nat.pow_le_pow_right (by decide) hi))
  -- from the highest bit down
  have hbits : ∀ n i, 60 ≤ i + n → a.getLsbD i = b.getLsbD i := by
    intro n
    induction n with
    | zero =>
        intro i hi
        rw [hhigh a ha i hi, hhigh b hb i hi]
    | succ n ih =>
        intro i hi
        by_cases hi60 : 60 ≤ i
        · rw [hhigh a ha i hi60, hhigh b hb i hi60]
        have hnext : a.getLsbD (i + 4) = b.getLsbD (i + 4) := ih (i + 4) (by omega)
        have hhash := getLsbD_hash_eq h (i := i + 4) (by omega) (by omega)
        have hdec : ∀ c : uintptr_t,
            (TREE_HASH c).getLsbD (i + 4) = ((c.getLsbD (i + 4)) ^^ (c.getLsbD i)) := by
          intro c
          have hlt : i + 4 < 64 := by omega
          rw [TREE_HASH, BitVec.getLsbD_xor, BitVec.getLsbD_shiftLeft]
          simp [hlt]
        rw [hdec, hdec, hnext] at hhash
        exact Bool.xor_right_inj.mp hhash
  exact BitVec.eq_of_getLsbD_eq fun i _ => hbits 60 i (by omega)

theorem exists_digit_ne (ha : a < 2 ^ 60) (hb : b < 2 ^ 60) (h : a ≠ b) :
    ∃ j, 0 ≤ j ∧ j < 0 + TREE_DEPTH_MAX ∧ digit a j ≠ digit b j := by
  by_contra hnot
  refine h (eq_of_digit_eq ha hb fun j hj => ?_)
  by_contra hne
  exact hnot ⟨j, Nat.zero_le j, by omega, hne⟩

end Hash

/-! ## What a loop visits -/

section Loop

variable {σ : Type} {backward : Bool} {body : σ → wlog_t → Option σ}

theorem map_slots {β γ : Type} (f : β → γ) (items : Fin TREE_ARITY → β) :
    (slots backward items).map f = slots backward (fun i => f (items i)) := by
  unfold slots
  cases backward with
  | false => simp [List.map_ofFn, Function.comp_def]
  | true => simp [List.map_ofFn, Function.comp_def, List.map_reverse]

theorem mem_slots {β : Type} {items : Fin TREE_ARITY → β} {x : β} :
    x ∈ slots backward items ↔ ∃ i, items i = x := by
  unfold slots
  cases backward with
  | false => simp [List.mem_ofFn']
  | true => simp [List.mem_ofFn']

/-- The live items below an entry, in the order of the loop. -/
def visits (backward : Bool) : entry_t → List wlog_t
  | .null => []
  | .item none _ => []
  | .item (some addr) val => [(addr, val)]
  | .node items => (slots backward fun i => visits backward (items i)).flatten

theorem visits_forward : ∀ e : entry_t, visits false e = e.toList
  | .null => rfl
  | .item none _ => rfl
  | .item (some _) _ => rfl
  | .node items => by
      have hchild : (fun i => visits false (items i)) = fun i => (items i).toList :=
        funext fun i => visits_forward (items i)
      rw [visits, hchild, DigitTree.toList]
      rfl

theorem visits_backward : ∀ e : entry_t, visits true e = e.toList.reverse
  | .null => rfl
  | .item none _ => rfl
  | .item (some _) _ => rfl
  | .node items => by
      have hchild : (fun i => visits true (items i)) = fun i => (items i).toList.reverse :=
        funext fun i => visits_backward (items i)
      rw [visits, hchild, DigitTree.toList, List.reverse_flatten, List.map_ofFn]
      rfl

/-- What an entry adds to `_deleted_factor`. -/
def factor (backward : Bool) : entry_t → ℤ
  | .null => 0
  | .item none _ => 3
  | .item (some _) _ => -4
  | .node items => (slots backward fun i => factor backward (items i)).sum

/-- The turns of the loop for one entry and all that is below it. -/
def Visited (backward : Bool) (body : σ → wlog_t → Option σ) (room : ℕ) (e : entry_t) : Prop :=
  ∀ next stack deleted_factor locals, stack.length + room ≤ TREE_DEPTH_MAX →
    loop (loop_turn backward body) ⟨e :: next, stack, deleted_factor, locals⟩
      = (visits backward e).foldlM body locals >>= fun locals =>
        loop (loop_turn backward body) ⟨next, stack, deleted_factor + factor backward e, locals⟩

/-- The entries of one node. -/
theorem visited_list {room : ℕ} {es : List entry_t} (hes : ∀ e ∈ es, Visited backward body room e)
    {stack : List (List entry_t)} (hroom : stack.length + room ≤ TREE_DEPTH_MAX)
    (deleted_factor : ℤ) (locals : σ) :
    loop (loop_turn backward body) ⟨es, stack, deleted_factor, locals⟩
      = (es.map (visits backward)).flatten.foldlM body locals >>= fun locals =>
        loop (loop_turn backward body)
          ⟨[], stack, deleted_factor + (es.map (factor backward)).sum, locals⟩ := by
  induction es generalizing deleted_factor locals with
  | nil => simp
  | cons e es ih =>
      have hrest := ih (fun e' he' => hes e' (List.mem_cons_of_mem _ he'))
      rw [hes e List.mem_cons_self es stack deleted_factor locals hroom]
      simp only [hrest, List.map_cons, List.flatten_cons, List.foldlM_append, List.sum_cons,
        add_assoc, Option.bind_eq_bind, Option.bind_assoc]

theorem visited_of_depthLe : ∀ {e : entry_t} {room : ℕ}, e.DepthLe room →
    Visited backward body room e
  | .null, _, _ => by
      intro next stack deleted_factor locals _
      rw [loop_eq]
      simp [loop_turn, visits, factor]
  | .item none _, _, _ => by
      intro next stack deleted_factor locals _
      rw [loop_eq]
      simp [loop_turn, visits, factor]
  | .item (some addr) val, _, _ => by
      intro next stack deleted_factor locals _
      rw [loop_eq]
      cases hbody : body locals (addr, val) with
      | none => simp [loop_turn, visits, factor, hbody]
      | some t => simp [loop_turn, visits, factor, hbody, sub_eq_add_neg]
  | .node _, 0, hd => by simp [DigitTree.DepthLe] at hd
  | .node items, room + 1, hd => by
      intro next stack deleted_factor locals hroom
      have hassert : stack.length < TREE_DEPTH_MAX := by omega
      have hchild : ∀ e ∈ slots backward items, Visited backward body room e := by
        intro e he
        obtain ⟨i, rfl⟩ := mem_slots.mp he
        exact visited_of_depthLe (hd i)
      have hbelow := @visited_list _ backward body room _ hchild (next :: stack)
        (by rw [List.length_cons]; omega) deleted_factor
      rw [loop_eq]
      simp only [loop_turn, c_assert, if_pos hassert, Option.bind_eq_bind, Option.bind_some]
      rw [hbelow, map_slots, map_slots, visits, factor]
      -- at the end of the node the loop goes back to the one above
      congr 1
      funext t
      rw [loop_eq]
      simp [loop_turn]

/-- A loop runs its body on the live items, one after the other. The assertion
about `_stackp` does not fail. -/
theorem tree_loop_eq {tree : tree_s} (hd : DigitTree.DepthLe TREE_DEPTH_MAX (.node tree.toplevel))
    (locals : σ) :
    tree_loop backward tree body locals
      = ((visits backward (.node tree.toplevel)).foldlM body locals).map
          (·, factor backward (.node tree.toplevel)) := by
  have hchild : ∀ e ∈ slots backward tree.toplevel, Visited backward body (TREE_DEPTH_MAX - 1) e := by
    intro e he
    obtain ⟨i, rfl⟩ := mem_slots.mp he
    exact visited_of_depthLe (hd i)
  unfold tree_loop
  rw [visited_list hchild (by simp) 0 locals, map_slots, map_slots]
  cases hvisits : (visits backward (.node tree.toplevel)).foldlM body locals with
  | none => simp [visits] at hvisits ⊢
            simp [hvisits]
  | some t =>
      rw [visits] at hvisits
      rw [hvisits, Option.bind_eq_bind, Option.bind_some, loop_eq]
      simp [loop_turn, factor]

end Loop

/-! ## The loop of `tree_insert` -/

section InsertLoop

/-- The bytes of an entry and all that is below it. -/
def bytes (e : entry_t) : ℕ := e.weight SIZEOF_WLOG SIZEOF_WLOG_NODE

/-- A tree with the same live items. -/
structure SameItems (levels level : ℕ) (e e' : entry_t) : Prop where
  placed : e'.Placed digit level
  depth : e'.DepthLe levels
  mem_iff : ∀ x, x ∈ e'.toList ↔ x ∈ e.toList

variable {addr val : uintptr_t} {raw_end : ℕ}

/-- What the loop does, `e'` being the tree with the item: there is room for it,
or the block is too small for `e'`. -/
def Inserts (raw_end levels level raw_current : ℕ) (e e' : entry_t) : inserted_t → Prop
  | .done raw_current' items =>
      .node items = e' ∧ raw_current' + bytes e = raw_current + bytes e' ∧ raw_current' ≤ raw_end
  | .no_room size items =>
      16 ≤ size ∧ raw_end + bytes e < raw_current + bytes e' ∧ SameItems levels level e (.node items)

theorem bytes_update {items : Fin TREE_ARITY → entry_t} {p : Fin TREE_ARITY} {e : entry_t} :
    bytes (.node (Function.update items p e)) + bytes (items p) = bytes (.node items) + bytes e :=
  DigitTree.weight_update

/-- One slot gets a tree with the same live items. -/
theorem SameItems.update {levels level : ℕ} {items : Fin TREE_ARITY → entry_t} {p : Fin TREE_ARITY}
    {e : entry_t} (hp : DigitTree.Placed digit level (.node items))
    (hd : DigitTree.DepthLe (levels + 1) (.node items))
    (he : SameItems levels (level + 1) (items p) e) :
    SameItems (levels + 1) level (.node items) (.node (Function.update items p e)) where
  placed := hp.update (fun x hx => (hp p).1 x ((he.mem_iff x).mp hx)) he.placed
  depth := hd.update he.depth
  mem_iff := by
    intro x
    rw [DigitTree.mem_toList_update, he.mem_iff, DigitTree.mem_toList_node]
    constructor
    · rintro (hx | ⟨j, -, hx⟩)
      · exact ⟨p, hx⟩
      · exact ⟨j, hx⟩
    · rintro ⟨j, hx⟩
      by_cases hj : j = p
      · exact Or.inl (hj ▸ hx)
      · exact Or.inr ⟨j, hj, hx⟩

/-- The loop in a node, from what it does in the node `next` that the slot of the
key leads to. The entry of the slot is `next` already, or the item that a new
node `next` of `extra` bytes is made for. -/
theorem inserts_below {levels level raw_current extra : ℕ} {items next : Fin TREE_ARITY → entry_t}
    {e' : entry_t} {r : inserted_t} (hp : DigitTree.Placed digit level (.node items))
    (hd : DigitTree.DepthLe (levels + 1) (.node items))
    (hnext : ∀ x, x ∈ (DigitTree.node next).toList ↔ x ∈ (items (digit addr level)).toList)
    (hbytes : bytes (.node next) = bytes (items (digit addr level)) + extra)
    (h : Inserts raw_end levels (level + 1) (raw_current + extra) (.node next) e' r) :
    Inserts raw_end (levels + 1) level raw_current (.node items)
      (.node (Function.update items (digit addr level) e')) (r.below items (digit addr level)) := by
  cases r with
  | done raw_current' next' =>
      obtain ⟨rfl, hcur, hroom⟩ := h
      have hupdate := @bytes_update items (digit addr level) (.node next')
      refine ⟨rfl, ?_, hroom⟩
      omega
  | no_room size next' =>
      obtain ⟨hsize, hfull, hsame⟩ := h
      have hupdate := @bytes_update items (digit addr level) e'
      refine ⟨hsize, by omega, SameItems.update hp hd ⟨hsame.placed, hsame.depth, fun x => ?_⟩⟩
      rw [hsame.mem_iff, hnext]

theorem insert_loop_spec : ∀ {levels level raw_current : ℕ} {items : Fin TREE_ARITY → entry_t},
    DigitTree.Placed digit level (.node items) → DigitTree.DepthLe levels (.node items) →
    (∀ x ∈ (DigitTree.node items).toList,
      ∃ j, level ≤ j ∧ j < level + levels ∧ digit addr j ≠ digit x.1 j) →
    raw_current ≤ raw_end →
    ∃ e', DigitTree.insert digit addr val levels level (.node items) = some e' ∧
      Returns (insert_loop addr val raw_end levels level raw_current items)
        (Inserts raw_end levels level raw_current (.node items) e')
  | 0, _, _, _, _, hd, _, _ => by simp [DigitTree.DepthLe] at hd
  | levels + 1, level, raw_current, items, hp, hd, hdiff, hroom => by
      have hupdate := @bytes_update items (digit addr level) (.item (some addr) val)
      have hitem : bytes (.item (some addr) val) = SIZEOF_WLOG := rfl
      have hsame : SameItems (levels + 1) level (.node items) (.node items) := ⟨hp, hd, fun _ => Iff.rfl⟩
      have hbelow := DigitTree.exists_insert.differs_below hp hdiff
      cases hslot : items (digit addr level) with
      | null =>
          have hnull : bytes (items (digit addr level)) = 0 := by
            rw [hslot]
            rfl
          refine ⟨.node (Function.update items (digit addr level) (.item (some addr) val)),
            by simp [DigitTree.insert, hslot], ?_⟩
          simp only [insert_loop, hslot]
          split
          · refine returns_some ⟨by decide, ?_, hsame⟩
            omega
          · refine returns_some ⟨rfl, ?_, by omega⟩
            omega
      | node next =>
          have hpn := hp.child (digit addr level)
          have hdn : (items (digit addr level)).DepthLe levels := hd (digit addr level)
          rw [hslot] at hpn hdn hbelow
          obtain ⟨e', he', hret⟩ := insert_loop_spec hpn hdn hbelow hroom
          refine ⟨.node (Function.update items (digit addr level) e'), ?_, ?_⟩
          · rw [DigitTree.insert, hslot, he', Option.map_some]
          · obtain ⟨r, hr, hins⟩ := hret
            simp only [insert_loop, hslot, hr, Option.map_some]
            refine returns_some (inserts_below hp hd ?_ ?_ (Nat.add_zero raw_current ▸ hins))
            · simp [hslot]
            · simp [hslot]
      | item addr1 val1 =>
          have hold : bytes (items (digit addr level)) = SIZEOF_WLOG := by
            rw [hslot]
            rfl
          cases addr1 with
          | none =>
              -- the deleted item is used again
              refine ⟨.node (Function.update items (digit addr level) (.item (some addr) val)),
                by simp [DigitTree.insert, hslot], ?_⟩
              simp only [insert_loop, hslot]
              refine returns_some ⟨rfl, ?_, hroom⟩
              omega
          | some addr1 =>
              have hdiff1 := hbelow (addr1, val1) (by simp [hslot, DigitTree.toList])
              obtain ⟨j, hj, hlt, hne⟩ := hdiff1
              have haddr : addr1 ≠ addr := by
                rintro rfl
                exact hne rfl
              obtain ⟨levels, rfl⟩ : ∃ m, levels = m + 1 := ⟨levels - 1, by omega⟩
              obtain ⟨hpc, hmemc⟩ :=
                @DigitTree.placed_collision TREE_ARITY uintptr_t uintptr_t digit (level + 1) addr1 val1
              have hdc : DigitTree.DepthLe (levels + 1)
                  (.node (DigitTree.collision digit (level + 1) addr1 val1)) := DigitTree.depthLe_collision
              have hcoll : bytes (.node (DigitTree.collision digit (level + 1) addr1 val1))
                  = SIZEOF_WLOG_NODE + SIZEOF_WLOG := DigitTree.weight_collision
              have hdiffc : ∀ x ∈ (DigitTree.node (DigitTree.collision digit (level + 1) addr1 val1)).toList,
                  ∃ j, level + 1 ≤ j ∧ j < level + 1 + (levels + 1) ∧ digit addr j ≠ digit x.1 j := by
                intro x hx
                rw [(hmemc x).mp hx]
                exact ⟨j, hj, hlt, hne⟩
              by_cases hgrab : raw_current + SIZEOF_WLOG_NODE > raw_end
              · obtain ⟨e', he'⟩ := DigitTree.exists_insert (a := val) hpc hdc hdiffc
                have hle : bytes (.node (DigitTree.collision digit (level + 1) addr1 val1)) ≤ bytes e' :=
                  DigitTree.le_weight_insert he'
                have hupdate' := @bytes_update items (digit addr level) e'
                refine ⟨.node (Function.update items (digit addr level) e'), ?_, ?_⟩
                · rw [DigitTree.insert, hslot, DigitTree.insert, if_neg haddr]
                  rw [DigitTree.insert] at he'
                  rw [he', Option.map_some]
                · simp only [insert_loop, hslot, if_neg haddr, if_pos hgrab]
                  refine returns_some ⟨by decide, ?_, hsame⟩
                  omega
              · obtain ⟨e', he', r, hr, hins⟩ := insert_loop_spec hpc hdc hdiffc
                  (Nat.not_lt.mp hgrab)
                refine ⟨.node (Function.update items (digit addr level) e'), ?_, ?_⟩
                · rw [DigitTree.insert, hslot, DigitTree.insert, if_neg haddr]
                  rw [DigitTree.insert] at he'
                  rw [he', Option.map_some]
                · rw [insert_loop]
                  simp only [hslot, if_neg haddr, if_neg hgrab]
                  rw [show Function.update (fun _ => DigitTree.null) (digit addr1 (level + 1))
                    (DigitTree.item (some addr1) val1) = DigitTree.collision digit (level + 1) addr1 val1
                    from rfl, hr]
                  refine returns_some (inserts_below hp hd (fun x => ?_) (by omega) hins)
                  rw [hmemc, hslot, DigitTree.toList, List.mem_singleton]

end InsertLoop

/-! ## `tree_insert` -/

section Insert

/-- The keys that a tree is made for. -/
def Key (addr : uintptr_t) : Prop := addr ≠ 0 ∧ addr < 2 ^ 60

instance {addr : uintptr_t} : Decidable (Key addr) := inferInstanceAs (Decidable (_ ∧ _))

namespace tree_s

/-- The live items. -/
def items (tree : tree_s) : List wlog_t := (DigitTree.node tree.toplevel).toList

structure Inv (tree : tree_s) : Prop where
  placed : DigitTree.Placed digit 0 (.node tree.toplevel)
  depth : DigitTree.DepthLe TREE_DEPTH_MAX (.node tree.toplevel)
  keys : ∀ x ∈ tree.items, Key x.1
  used : bytes (.node tree.toplevel) = tree.raw_current + SIZEOF_WLOG_NODE
  room : tree.raw_current ≤ tree.raw_end

theorem Inv.nodup {tree : tree_s} (h : tree.Inv) : (tree.items.map Prod.fst).Nodup := h.placed.nodup

theorem bytes_empty : bytes (.node fun _ => .null) = SIZEOF_WLOG_NODE := by
  simp [bytes, DigitTree.weight]

theorem items_empty {raw_current raw_end : ℕ} : (tree_s.mk raw_current raw_end fun _ => .null).items = [] := by
  simp [items, DigitTree.toList]

theorem inv_empty {raw_end : ℕ} : (tree_s.mk 0 raw_end fun _ => .null).Inv where
  placed := fun _ => ⟨by simp [DigitTree.toList], by simp [DigitTree.Placed]⟩
  depth := fun _ => by simp [DigitTree.DepthLe]
  keys := by simp [items_empty]
  used := by rw [bytes_empty, Nat.zero_add]
  room := Nat.zero_le _

end tree_s

variable {tree : tree_s} {item : wlog_t}

/-- The tree that an insertion ends with, if there is room for it. -/
theorem insert_loop_of_inv (hinv : tree.Inv) (hkey : Key item.1) (hnew : ∀ x ∈ tree.items, x.1 ≠ item.1) :
    ∃ items, DigitTree.insert digit item.1 item.2 TREE_DEPTH_MAX 0 (.node tree.toplevel)
        = some (.node items) ∧
      Returns (insert_loop item.1 item.2 tree.raw_end TREE_DEPTH_MAX 0 tree.raw_current tree.toplevel)
        (Inserts tree.raw_end TREE_DEPTH_MAX 0 tree.raw_current (.node tree.toplevel) (.node items)) := by
  have hdiff : ∀ x ∈ (DigitTree.node tree.toplevel).toList,
      ∃ j, 0 ≤ j ∧ j < 0 + TREE_DEPTH_MAX ∧ digit item.1 j ≠ digit x.1 j := fun x hx =>
    exists_digit_ne hkey.2 (hinv.keys x hx).2 fun heq => hnew x hx heq.symm
  obtain ⟨e', he', hret⟩ := @insert_loop_spec item.1 item.2 _ _ _ _ _ hinv.placed hinv.depth hdiff
    hinv.room
  have hnode := he'
  rw [show TREE_DEPTH_MAX = 15 + 1 from rfl, DigitTree.insert] at hnode
  obtain ⟨t, -, rfl⟩ := Option.map_eq_some_iff.mp hnode
  exact ⟨_, he', hret⟩

/-- The tree with the item, when there was room. -/
theorem inv_of_done {items : Fin TREE_ARITY → entry_t} {raw_current : ℕ} (hinv : tree.Inv)
    (hkey : Key item.1)
    (hins : DigitTree.insert digit item.1 item.2 TREE_DEPTH_MAX 0 (.node tree.toplevel)
      = some (.node items))
    (hbytes : raw_current + bytes (.node tree.toplevel) = tree.raw_current + bytes (.node items))
    (hroom : raw_current ≤ tree.raw_end) :
    (tree_s.mk raw_current tree.raw_end items).Inv ∧
      ∀ x, x ∈ (tree_s.mk raw_current tree.raw_end items).items ↔ x = item ∨ x ∈ tree.items := by
  obtain ⟨hplaced, hmem, -⟩ := DigitTree.insert_spec hins hinv.placed
  have hused := hinv.used
  refine ⟨⟨hplaced, DigitTree.DepthLe.insert hins hinv.depth, fun x hx => ?_, ?_, hroom⟩, hmem⟩
  · rcases (hmem x).mp hx with rfl | hx
    · exact hkey
    · exact hinv.keys x hx
  · show bytes (.node items) = raw_current + SIZEOF_WLOG_NODE
    omega

/-- A copy in the making: no node that `old` does not have, so that a block in
which `old` fits is not too small. -/
structure Copies (old : entry_t) (raw_end : ℕ) (done : List wlog_t) (newtree : tree_s) : Prop where
  inv : newtree.Inv
  raw_end_eq : newtree.raw_end = raw_end
  within : DigitTree.Within (.node newtree.toplevel) old
  mem_iff : ∀ x, x ∈ newtree.items ↔ x ∈ done

/-- Copying one item needs no room that `old` does not take. -/
theorem Copies.insert {old : entry_t} {raw_end retries : ℕ} {done : List wlog_t} {newtree : tree_s}
    (h : Copies old raw_end done newtree) (hold : old.Placed digit 0) (hmem : item ∈ old.toList)
    (hkey : Key item.1) (hnew : ∀ x ∈ done, x.1 ≠ item.1)
    (hroom : bytes old ≤ raw_end + SIZEOF_WLOG_NODE) :
    Returns (tree_insert (retries + 1) newtree item) (Copies old raw_end (done ++ [item])) := by
  obtain ⟨items, hins, r, hr, hres⟩ := insert_loop_of_inv h.inv hkey fun x hx =>
    hnew x ((h.mem_iff x).mp hx)
  have hwithin := DigitTree.Within.insert hins h.within hold hmem
  have hle : bytes (.node items) ≤ bytes old := hwithin.weight_le
  have hused := h.inv.used
  rw [tree_insert]
  refine returns_assert hkey.1 ?_
  rw [hr, Option.bind_eq_bind, Option.bind_some]
  cases r with
  | done raw_current items' =>
      obtain ⟨heq, hbytes, hfits⟩ := hres
      obtain rfl : items' = items := by simpa using heq
      obtain ⟨hinv', hmem'⟩ := inv_of_done h.inv hkey hins hbytes hfits
      refine returns_some ⟨hinv', h.raw_end_eq, hwithin, fun x => ?_⟩
      rw [hmem', h.mem_iff, List.mem_append, List.mem_singleton, or_comm]
  | no_room size items' =>
      obtain ⟨-, hfull, -⟩ := hres
      have hend := h.raw_end_eq
      omega

/-- The new tree has the same live items, takes no more room, and its block is larger. -/
theorem tree_grow_spec {items : Fin TREE_ARITY → entry_t} {retries size : ℕ} (hinv : tree.Inv)
    (hsame : SameItems TREE_DEPTH_MAX 0 (.node tree.toplevel) (.node items)) :
    Returns (_tree_grow (tree_insert (retries + 1)) { tree with toplevel := items } size)
      fun newtree => newtree.Inv ∧ (∀ x, x ∈ newtree.items ↔ x ∈ tree.items) ∧
        bytes (.node newtree.toplevel) ≤ bytes (.node tree.toplevel) ∧
        tree.raw_end + size + 16 ≤ newtree.raw_end := by
  have hused := hinv.used
  have hroom := hinv.room
  generalize hend : (tree.raw_end + size + tree.raw_end / 4 + 31) / 16 * 16 = newalloc
  have hlarger : tree.raw_end + size + 16 ≤ newalloc := by omega
  have hsplit := foldlM_spec (f := tree_insert (retries + 1))
    (fun done todo newtree => done ++ todo = (DigitTree.node items).toList ∧
      Copies (.node tree.toplevel) newalloc done newtree)
    (by
      rintro done x todo newtree ⟨hlist, hcopies⟩
      have hx : x ∈ tree.items := (hsame.mem_iff x).mp (hlist ▸ by simp)
      have hnodup := hsame.placed.nodup
      rw [← hlist, List.map_append, List.map_cons] at hnodup
      have hnew : ∀ y ∈ done, y.1 ≠ x.1 := by
        intro y hy heq
        exact List.disjoint_of_nodup_append hnodup (List.mem_map_of_mem hy) (by simp [heq])
      refine (hcopies.insert hinv.placed hx (hinv.keys x hx) hnew (by omega)).mono fun s hs => ⟨?_, hs⟩
      rw [List.append_assoc, List.singleton_append, hlist])
    (DigitTree.node items).toList [] ⟨0, newalloc, fun _ => .null⟩
    ⟨rfl, tree_s.inv_empty, rfl, fun i => by simp [DigitTree.Within], by simp [tree_s.items_empty]⟩
  obtain ⟨newtree, hfold, -, hcopies⟩ := hsplit
  refine ⟨newtree, ?_, hcopies.inv, fun x => ?_, hcopies.within.weight_le, hcopies.raw_end_eq ▸ hlarger⟩
  · have hloop := @tree_loop_eq _ false (tree_insert (retries + 1)) { tree with toplevel := items }
      hsame.depth ⟨0, newalloc, fun _ => .null⟩
    rw [visits_forward, hfold] at hloop
    simp only [_tree_grow, hend, hloop]
    rfl
  · rw [hcopies.mem_iff, List.nil_append]
    exact hsame.mem_iff x

/-- An insertion takes no more than one node a level and its item. -/
def MAX_BYTES : ℕ := TREE_DEPTH_MAX * SIZEOF_WLOG_NODE + SIZEOF_WLOG

/-- Either the item gets its place, or the block was too small and the tree grows. -/
theorem insert_attempt (hinv : tree.Inv) (hkey : Key item.1) (hnew : ∀ x ∈ tree.items, x.1 ≠ item.1)
    (retries : ℕ) :
    Returns (tree_insert (retries + 1) tree item)
        (fun tree' => tree'.Inv ∧ ∀ x, x ∈ tree'.items ↔ x = item ∨ x ∈ tree.items) ∨
      tree.raw_end + SIZEOF_WLOG_NODE < bytes (.node tree.toplevel) + MAX_BYTES ∧
        ∃ items size, 16 ≤ size ∧ SameItems TREE_DEPTH_MAX 0 (.node tree.toplevel) (.node items) ∧
          tree_insert (retries + 1) tree item
            = (_tree_grow (tree_insert retries) { tree with toplevel := items } size).bind
                (tree_insert retries · item) := by
  obtain ⟨items, hins, r, hr, hres⟩ := insert_loop_of_inv hinv hkey hnew
  have hused := hinv.used
  have hmax : bytes (.node items) ≤ bytes (.node tree.toplevel) + TREE_DEPTH_MAX * SIZEOF_WLOG_NODE
      + SIZEOF_WLOG := DigitTree.weight_insert hins
  have hassert : c_assert (item.1 ≠ 0) = some () := if_pos hkey.1
  cases r with
  | done raw_current items' =>
      obtain ⟨heq, hbytes, hfits⟩ := hres
      obtain rfl : items' = items := by simpa using heq
      refine Or.inl ⟨_, ?_, inv_of_done hinv hkey hins hbytes hfits⟩
      simp only [tree_insert, hassert, hr, Option.bind_eq_bind, Option.bind_some]
  | no_room size items' =>
      obtain ⟨hsize, hfull, hsame⟩ := hres
      refine Or.inr ⟨by rw [MAX_BYTES]; omega, items', size, hsize, hsame, ?_⟩
      simp only [tree_insert, hassert, hr, Option.bind_eq_bind, Option.bind_some]

/-- What is missing for the largest insertion gets smaller by 32 bytes whenever
the tree grows. -/
theorem tree_insert_of_missing : ∀ {n retries : ℕ} {tree : tree_s}, tree.Inv → Key item.1 →
    (∀ x ∈ tree.items, x.1 ≠ item.1) →
    bytes (.node tree.toplevel) + MAX_BYTES ≤ tree.raw_end + SIZEOF_WLOG_NODE + 32 * n →
    n + 1 ≤ retries →
    Returns (tree_insert retries tree item)
      fun tree' => tree'.Inv ∧ ∀ x, x ∈ tree'.items ↔ x = item ∨ x ∈ tree.items := by
  intro n
  induction n with
  | zero =>
      intro retries tree hinv hkey hnew hmissing hretries
      obtain ⟨retries, rfl⟩ : ∃ m, retries = m + 1 := ⟨retries - 1, by omega⟩
      rcases insert_attempt hinv hkey hnew retries with h | ⟨hfull, -⟩
      · exact h
      · omega
  | succ n ih =>
      intro retries tree hinv hkey hnew hmissing hretries
      obtain ⟨retries, rfl⟩ : ∃ m, retries = m + 2 := ⟨retries - 2, by omega⟩
      rcases insert_attempt hinv hkey hnew (retries + 1) with h | ⟨-, items, size, hsize, hsame, heq⟩
      · exact h
      · obtain ⟨newtree, hgrow, hinv', hmem, hbytes, hend⟩ :=
          @tree_grow_spec _ _ retries size hinv hsame
        obtain ⟨tree', hins, hinv'', hmem'⟩ := @ih (retries + 1) newtree hinv' hkey
          (fun x hx => hnew x ((hmem x).mp hx)) (by omega) (by omega)
        refine ⟨tree', ?_, hinv'', fun x => ?_⟩
        · rw [heq, hgrow, Option.bind_some, hins]
        · rw [hmem', hmem]

/-- How often an insertion goes back to `retry` at most, and once more. -/
def MAX_RETRIES : ℕ := 66

theorem tree_insert_spec {retries : ℕ} (hretries : MAX_RETRIES ≤ retries) (hinv : tree.Inv)
    (hkey : Key item.1) (hnew : ∀ x ∈ tree.items, x.1 ≠ item.1) :
    Returns (tree_insert retries tree item)
      fun tree' => tree'.Inv ∧ ∀ x, x ∈ tree'.items ↔ x = item ∨ x ∈ tree.items := by
  refine tree_insert_of_missing (n := 65) hinv hkey hnew ?_ hretries
  have hused := hinv.used
  have hroom := hinv.room
  have hmax : MAX_BYTES ≤ 32 * 65 := by decide
  omega

/-- A compressed tree has the same live items. -/
theorem tree_compress_spec {retries : ℕ} (hretries : MAX_RETRIES ≤ retries) (hinv : tree.Inv) :
    Returns (_tree_compress retries tree)
      fun tree' => tree'.Inv ∧ ∀ x, x ∈ tree'.items ↔ x ∈ tree.items := by
  have hsplit := foldlM_spec (f := tree_insert retries)
    (fun done todo copy => done ++ todo = tree.items ∧ copy.Inv ∧ ∀ x, x ∈ copy.items ↔ x ∈ done)
    (by
      rintro done x todo copy ⟨hlist, hcopy, hmem⟩
      have hx : x ∈ tree.items := hlist ▸ by simp
      have hnodup := hinv.nodup
      rw [← hlist, List.map_append, List.map_cons] at hnodup
      have hnew : ∀ y ∈ copy.items, y.1 ≠ x.1 := by
        intro y hy heq
        exact List.disjoint_of_nodup_append hnodup (List.mem_map_of_mem ((hmem y).mp hy)) (by simp [heq])
      refine (tree_insert_spec hretries hcopy (hinv.keys x hx) hnew).mono ?_
      rintro copy' ⟨hcopy', hmem'⟩
      refine ⟨?_, hcopy', fun y => ?_⟩
      · rw [List.append_assoc, List.singleton_append, hlist]
      · rw [hmem', hmem, List.mem_append, List.mem_singleton, or_comm])
    tree.items [] tree_s.tree_create
    ⟨rfl, tree_s.inv_empty, by simp [tree_s.tree_create, tree_s.items_empty]⟩
  obtain ⟨copy, hfold, -, hcopy, hmem⟩ := hsplit
  refine ⟨copy, ?_, hcopy, fun x => ?_⟩
  · have hloop := @tree_loop_eq _ false (tree_insert retries) tree hinv.depth tree_s.tree_create
    have hitems : (DigitTree.node tree.toplevel).toList = tree.items := rfl
    rw [visits_forward, hitems, hfold] at hloop
    simp only [_tree_compress, hloop]
    rfl
  · rw [hmem, List.nil_append]

end Insert

/-! ## The other operations -/

section Find

variable {tree : tree_s} {addr val : uintptr_t}

/-- The digits that `_tree_find` takes from its `key` are those of the levels. -/
theorem tree_find_eq (haddr : addr ≠ 0) : ∀ (e : entry_t) (level : ℕ),
    (match _tree_find e (TREE_HASH addr >>> (level * TREE_BITS)) with
      | none => none
      | some result => if result.1 ≠ addr then none else some result)
      = (DigitTree.lookup digit addr (level + 1) e).map (addr, ·)
  | .null, _ => rfl
  | .item none val, _ => by
      rw [_tree_find, DigitTree.lookup]
      exact if_pos haddr.symm
  | .item (some addr1) val, _ => by
      by_cases h : addr1 = addr
      · simp [_tree_find, DigitTree.lookup, h]
      · simp [_tree_find, DigitTree.lookup, h]
  | .node items, level => by
      have hshift : TREE_HASH addr >>> (level * TREE_BITS) >>> TREE_BITS
          = TREE_HASH addr >>> ((level + 1) * TREE_BITS) := by
        rw [← BitVec.shiftRight_add, Nat.succ_mul]
      have hbelow := tree_find_eq haddr (items (digit addr (level + 1))) (level + 1)
      rw [_tree_find, hshift, DigitTree.lookup, ← hbelow]
      rfl

theorem TREE_FIND_eq (haddr : addr ≠ 0) :
    TREE_FIND tree addr = (DigitTree.lookup digit addr 0 (.node tree.toplevel)).map (addr, ·) := by
  have hbelow := tree_find_eq haddr (tree.toplevel (digit addr 0)) 0
  have hhash : TREE_HASH addr >>> (0 * TREE_BITS) = TREE_HASH addr := by
    rw [Nat.zero_mul, BitVec.ushiftRight_zero]
  have hslot : slot (TREE_HASH addr) = digit addr 0 := by
    rw [digit, hhash]
  rw [hhash] at hbelow
  rw [DigitTree.lookup, ← hbelow]
  unfold TREE_FIND
  rw [hslot]
  cases tree.toplevel (digit addr 0) with
  | null => rfl
  | item addr1 val1 => rfl
  | node items => rfl

theorem TREE_FIND_eq_some (hinv : tree.Inv) (haddr : addr ≠ 0) {result : wlog_t} :
    TREE_FIND tree addr = some result ↔ result.1 = addr ∧ result ∈ tree.items := by
  rw [TREE_FIND_eq haddr, Option.map_eq_some_iff]
  constructor
  · rintro ⟨val, hval, rfl⟩
    exact ⟨rfl, (DigitTree.lookup_eq_some hinv.placed).mp hval⟩
  · rintro ⟨rfl, hmem⟩
    exact ⟨result.2, (DigitTree.lookup_eq_some hinv.placed).mpr hmem, rfl⟩

theorem tree_delete_item_spec (hinv : tree.Inv) (haddr : addr ≠ 0) :
    (tree_delete_item tree addr).1.Inv ∧
      (∀ x, x ∈ (tree_delete_item tree addr).1.items ↔ x ∈ tree.items ∧ x.1 ≠ addr) := by
  unfold tree_delete_item
  cases hfind : TREE_FIND tree addr with
  | none =>
      refine ⟨hinv, fun x => ⟨fun hx => ⟨hx, ?_⟩, fun hx => hx.1⟩⟩
      intro hkey
      have hsome := (TREE_FIND_eq_some hinv haddr).mpr ⟨hkey, hx⟩
      rw [hfind] at hsome
      exact absurd hsome (by simp)
  | some result =>
      obtain ⟨hplaced, hmem⟩ := DigitTree.erase_spec (k := addr) hinv.placed
      have hdepth := @DigitTree.DepthLe.erase _ _ _ _ digit addr _ 0 _ hinv.depth
      refine ⟨⟨hplaced, hdepth, fun x hx => hinv.keys x ((hmem x).mp hx).1, ?_, hinv.room⟩, hmem⟩
      have hweight : bytes (DigitTree.erase digit addr 0 (.node tree.toplevel))
          = bytes (.node tree.toplevel) := DigitTree.weight_erase
      rw [DigitTree.erase] at hweight
      exact hweight.trans hinv.used

/-- A block of which nothing is used holds no item. -/
theorem tree_clear_spec (hinv : tree.Inv) : tree.tree_clear.Inv ∧ tree.tree_clear.items = [] := by
  unfold tree_s.tree_clear
  by_cases h : tree.raw_current ≠ 0
  · rw [if_pos h]
    exact ⟨tree_s.inv_empty, tree_s.items_empty⟩
  · rw [if_neg h]
    refine ⟨hinv, List.eq_nil_iff_forall_not_mem.mpr fun x hx => ?_⟩
    obtain ⟨i, hi⟩ := DigitTree.mem_toList_node.mp hx
    have hslot : SIZEOF_WLOG ≤ (tree.toplevel i).weight SIZEOF_WLOG SIZEOF_WLOG_NODE :=
      DigitTree.le_weight_of_mem hi
    have hsum := Finset.single_le_sum
      (f := fun i => (tree.toplevel i).weight SIZEOF_WLOG SIZEOF_WLOG_NODE)
      (fun j _ => Nat.zero_le _) (Finset.mem_univ i)
    have hused := hinv.used
    rw [bytes, DigitTree.weight] at hused
    have hpos : 0 < SIZEOF_WLOG := by decide
    omega

end Find

/-! ## The finite map -/

section Map

/-- What a tree is for: the live keys and their values. -/
abbrev Map : Type := uintptr_t → Option uintptr_t

inductive op where
  | tree_insert (addr val : uintptr_t)
  | tree_delete_item (addr : uintptr_t)
  | tree_clear
  /-- A loop that ends with `TREE_LOOP_END_AND_COMPRESS`. -/
  | loop_and_compress (backward : Bool)

def op.live (m : Map) : op → Map
  | .tree_insert addr val => Function.update m addr (some val)
  | .tree_delete_item addr => Function.update m addr none
  | .tree_clear => fun _ => none
  | .loop_and_compress _ => m

/-- Only new keys are inserted. -/
def op.Ok (m : Map) : op → Prop
  | .tree_insert addr _ => Key addr ∧ m addr = none
  | .tree_delete_item addr => Key addr
  | _ => True

def op.run (retries : ℕ) (tree : tree_s) : op → Option tree_s
  | .tree_insert addr val => Tree.tree_insert retries tree (addr, val)
  | .tree_delete_item addr => some (Tree.tree_delete_item tree addr).1
  | .tree_clear => some tree.tree_clear
  | .loop_and_compress backward =>
      (loop_end_and_compress retries backward tree (fun _ _ => some ()) ()).map Prod.snd

def live (ops : List op) : Map := ops.foldl op.live fun _ => none

def AllOk : Map → List op → Prop
  | _, [] => True
  | m, o :: ops => o.Ok m ∧ AllOk (o.live m) ops

def run (retries : ℕ) (ops : List op) : Option tree_s := ops.foldlM (op.run retries) tree_s.tree_create

/-- The live items of the tree are those of the map. -/
def Holds (m : Map) (tree : tree_s) : Prop :=
  tree.Inv ∧ ∀ addr val, (addr, val) ∈ tree.items ↔ m addr = some val

variable {m : Map} {tree : tree_s} {retries : ℕ}

theorem Holds.insert {addr val : uintptr_t} (hretries : MAX_RETRIES ≤ retries) (h : Holds m tree)
    (hkey : Key addr) (hnew : m addr = none) :
    Returns (tree_insert retries tree (addr, val)) (Holds (Function.update m addr (some val))) := by
  obtain ⟨hinv, hmem⟩ := h
  have hfresh : ∀ x ∈ tree.items, x.1 ≠ addr := by
    rintro ⟨addr', val'⟩ hx rfl
    rw [hmem, hnew] at hx
    exact absurd hx (by simp)
  refine (tree_insert_spec hretries hinv hkey hfresh).mono ?_
  rintro tree' ⟨hinv', hmem'⟩
  refine ⟨hinv', fun addr' val' => ?_⟩
  rw [hmem', hmem, Prod.mk.injEq]
  by_cases haddr : addr' = addr
  · subst haddr
    rw [hnew, Function.update_self, Option.some.injEq]
    simp [eq_comm]
  · rw [Function.update_of_ne haddr]
    simp [haddr]

theorem Holds.delete_item {addr : uintptr_t} (h : Holds m tree) (hkey : Key addr) :
    Holds (Function.update m addr none) (tree_delete_item tree addr).1 := by
  obtain ⟨hinv, hmem⟩ := h
  obtain ⟨hinv', hmem'⟩ := tree_delete_item_spec hinv hkey.1
  refine ⟨hinv', fun addr' val' => ?_⟩
  rw [hmem', hmem]
  by_cases haddr : addr' = addr
  · subst haddr
    simp
  · simp [haddr]

/-- A loop with a body that does not touch the tree, and the compression after it. -/
theorem Holds.loop_and_compress {backward : Bool} (hretries : MAX_RETRIES ≤ retries) (h : Holds m tree) :
    Returns (op.run retries tree (.loop_and_compress backward)) (Holds m) := by
  obtain ⟨hinv, hmem⟩ := h
  have hvisits : ∀ l : List wlog_t, l.foldlM (fun (_ : Unit) _ => some ()) () = some () := by
    intro l
    induction l with
    | nil => rfl
    | cons x l ih => exact ih
  have hloop := @tree_loop_eq _ backward (fun _ _ => some ()) tree hinv.depth ()
  rw [hvisits, Option.map_some] at hloop
  simp only [op.run, loop_end_and_compress, hloop, Option.bind_eq_bind, Option.bind_some]
  split
  · obtain ⟨tree', hcompress, hinv', hmem'⟩ := tree_compress_spec hretries hinv
    rw [hcompress]
    exact returns_some ⟨hinv', fun addr val => (hmem' _).trans (hmem addr val)⟩
  · exact returns_some ⟨hinv, hmem⟩

/-- One operation does to the tree what it does to the map. -/
theorem Holds.step {o : op} (hretries : MAX_RETRIES ≤ retries) (h : Holds m tree) (hok : o.Ok m) :
    Returns (o.run retries tree) (Holds (o.live m)) := by
  cases o with
  | tree_insert addr val => exact h.insert hretries hok.1 hok.2
  | tree_delete_item addr => exact returns_some (h.delete_item hok)
  | tree_clear =>
      obtain ⟨hinv, hitems⟩ := tree_clear_spec h.1
      exact returns_some ⟨hinv, fun addr val => by simp [hitems, op.live]⟩
  | loop_and_compress backward => exact h.loop_and_compress hretries

theorem Holds.run (hretries : MAX_RETRIES ≤ retries) : ∀ {ops : List op} {m : Map} {tree : tree_s},
    Holds m tree → AllOk m ops →
    Returns (ops.foldlM (op.run retries) tree) (Holds (ops.foldl op.live m)) := by
  intro ops
  induction ops with
  | nil => exact fun h _ => returns_some h
  | cons o ops ih =>
      intro m tree h hok
      rw [List.foldlM_cons, List.foldl_cons]
      exact (h.step hretries hok.1).bind fun tree' htree' => ih htree' hok.2

theorem Holds.find (h : Holds m tree) {addr : uintptr_t} (haddr : addr ≠ 0) :
    TREE_FIND tree addr = (m addr).map (addr, ·) := by
  refine Option.ext fun result => ?_
  rw [TREE_FIND_eq_some h.1 haddr, Option.map_eq_some_iff]
  constructor
  · rintro ⟨rfl, hmem⟩
    exact ⟨result.2, (h.2 _ _).mp hmem, rfl⟩
  · rintro ⟨val, hval, rfl⟩
    exact ⟨rfl, (h.2 _ _).mpr hval⟩

/-- After any operations the tree is the finite map that they describe: lookups
agree with it, and a loop meets each of its entries once, in an order that
`TREE_LOOP_BACKWARD` reverses. No assertion fails on the way, of those about the
depth either. -/
theorem tree_is_finite_map (hretries : MAX_RETRIES ≤ retries) (ops : List op)
    (hops : AllOk (fun _ => none) ops) :
    ∃ tree, run retries ops = some tree ∧
      (∀ addr, addr ≠ 0 → TREE_FIND tree addr = (live ops addr).map (addr, ·) ∧
        tree_contains tree addr = (live ops addr).isSome ∧
        (tree_delete_item tree addr).2 = (live ops addr).isSome) ∧
      ∃ items : List wlog_t, (items.map Prod.fst).Nodup ∧
        (∀ addr val, (addr, val) ∈ items ↔ live ops addr = some val) ∧
        ∀ (σ : Type) (body : σ → wlog_t → Option σ) (locals : σ),
          (tree_loop false tree body locals).map Prod.fst = items.foldlM body locals ∧
          (tree_loop true tree body locals).map Prod.fst = items.reverse.foldlM body locals := by
  have hempty : Holds (fun _ => none) tree_s.tree_create :=
    ⟨tree_s.inv_empty, fun addr val => by simp [tree_s.tree_create, tree_s.items_empty]⟩
  obtain ⟨tree, hrun, h⟩ := hempty.run hretries hops
  refine ⟨tree, hrun, fun addr haddr => ?_, tree.items, h.1.nodup, h.2, fun σ body locals => ?_⟩
  · have hfind : TREE_FIND tree addr = (live ops addr).map (addr, ·) := h.find haddr
    refine ⟨hfind, ?_, ?_⟩
    · rw [tree_contains, hfind, Option.isSome_map]
    · unfold tree_delete_item
      rw [hfind]
      cases live ops addr with
      | none => rfl
      | some val => rfl
  · rw [tree_loop_eq h.1.depth, tree_loop_eq h.1.depth, visits_forward, visits_backward,
      Option.map_map, Option.map_map]
    exact ⟨Option.map_id_apply, Option.map_id_apply⟩

/-- Two insertions, and the first item deleted again. -/
theorem tree_is_finite_map_delete_item :
    ∃ tree, run MAX_RETRIES [.tree_insert 23 456, .tree_insert 42 34289, .tree_delete_item 23,
        .loop_and_compress true] = some tree ∧
      TREE_FIND tree 23 = none ∧ TREE_FIND tree 42 = some (42, 34289) := by
  have hkey : Key 23 ∧ Key 42 := by decide +kernel
  obtain ⟨tree, hrun, hfind, -⟩ := tree_is_finite_map le_rfl
    [.tree_insert 23 456, .tree_insert 42 34289, .tree_delete_item 23, .loop_and_compress true]
    ⟨⟨hkey.1, rfl⟩, ⟨hkey.2, rfl⟩, hkey.1, trivial, trivial⟩
  exact ⟨tree, hrun, (hfind 23 hkey.1.1).1.trans rfl, (hfind 42 hkey.2.1).1.trans rfl⟩

end Map

end Stmgc.C7.Tree
