/-
`c7/stm/hashtable.c`: the tables of one hashtable, from `stm_hashtable_create`
to `stm_hashtable_free`.

The lookups are those of [`SharedHashtable`], and everything around them is
added: entries that are allocated in the nursery, where a collection or an
abort can interrupt the lookup, what collections do to the items,
`_stm_compact_hashtable`, and the calls of `malloc` and `free` for the tables.

Which entries a compaction finds dead is left open here. So is what is read
through an item: entries move, and one that a collection has not traced is
overwritten.
-/
import Stmgc.C7.HashtableThreads

namespace Stmgc.C7

open Stmgc.Lib

/-! ## The heap of the tables -/

/-- The tables that are allocated, and the calls of `free` so far. -/
structure TableHeap where
  tables : ℕ → Option Table
  freed : List ℕ

/-- `free`, of a table that is allocated. -/
def TableHeap.free (m : TableHeap) (p : ℕ) : Option TableHeap :=
  match m.tables p with
  | none => none
  | some _ => some { tables := Function.update m.tables p none, freed := p :: m.freed }

/-- A turn of the loop of `stm_hashtable_free`. -/
def free_body (x : TableHeap × ℕ) : Option (ControlFlow (TableHeap × ℕ) TableHeap) :=
  if IS_EVEN x.2 then do
    c_assert (x.2 ≠ RESIZING_LOCK)
    let table ← x.1.tables x.2
    let m ← x.1.free x.2
    return .cont (m, table.resize_counter)
  else some (.done x.1)

/-- A turn of the loop of `_stm_compact_hashtable`, up to the current table. -/
def cut_body (table : ℕ) (x : TableHeap × ℕ) :
    Option (ControlFlow (TableHeap × ℕ) TableHeap) := do
  c_assert (IS_EVEN x.2)
  c_assert (x.2 ≠ RESIZING_LOCK)
  let old_table := x.2
  if old_table = table then return .done x.1
  else do
    let old ← x.1.tables old_table
    let m ← x.1.free old_table
    return .cont (m, old.resize_counter)

/-- Other pointers are written to the items, or something else is read through
them. -/
def Table.update_items (f : EntryPtr → EntryPtr) (t : Table) : Table :=
  { t with items := fun i => (t.items i).map f }

/-! ## The machine -/

/-- `stm_hashtable_t`. `initial_table` is the address of the field, which is
freed with the whole struct. -/
structure stm_hashtable_s where
  shared : SharedHashtable
  initial_table : ℕ
  additions : ℕ
  /-- the segment of the nursery that `hashtableobj` is in -/
  nursery : Option ℕ
  /-- the segment whose lookup is in `stm_allocate` -/
  in_allocate : Option ℕ
  /-- `hashtableobj` can still be passed to a call -/
  alive : Bool
  /-- the turns of the `while (1)` loop in the last search of each segment -/
  turns : ℕ → ℕ
  malloced : List ℕ
  freed : List ℕ

namespace stm_hashtable_s

inductive Act where
  | call (t index : ℕ)
  /-- the next step of segment `t`; the two allocations apart -/
  | step (t : ℕ)
  /-- segment `t` enters `stm_allocate` -/
  | allocate (t : ℕ)
  /-- the entry is allocated, in the nursery or outside -/
  | allocated (t addr : ℕ)
  | malloc (t biggertable : ℕ)
  /-- a minor collection moves `hashtableobj` out of the nursery -/
  | minor_collection (t : ℕ)
  /-- the items change, but not which slots are in use -/
  | update_items (f : EntryPtr → EntryPtr)
  /-- a major collection traces the hashtable -/
  | major_collection (biggertable : ℕ) (keep : EntryPtr → Bool)
  /-- segment `t` aborts in the middle of a lookup -/
  | abort (t : ℕ)
  | stm_hashtable_free

def heap (h : stm_hashtable_s) : TableHeap := { tables := h.shared.tables, freed := h.freed }

/-- What `free` has done. -/
def set_heap (h : stm_hashtable_s) (m : TableHeap) : stm_hashtable_s :=
  { h with shared := { h.shared with tables := m.tables }, freed := m.freed }

/-- The loop of `_stm_compact_hashtable` that computes the new size. -/
def compact_count (num_entries_times_6 : ℕ) : Option ℕ :=
  loop (fun count =>
    if count * 4 < num_entries_times_6 then some (.cont (count * 2)) else some (.done count))
    INITIAL_HASHTABLE_SIZE

/-- `_stm_rehash_hashtable`, when nobody else is looking at the tables. -/
def stm_rehash_hashtable (s : SharedHashtable) (biggertable biggercount : ℕ)
    (keep : EntryPtr → Bool) : Option SharedHashtable := do
  let table ← s.tables s.table
  let bigger := init_table biggercount
  let r ← (List.range' 0 (table.mask + 1)).foldlM (rehash_body keep table)
    (bigger, bigger.resize_counter)
  let s := s.set_table s.table { table with resize_counter := biggertable }
  let s := s.set_table biggertable { r.1 with resize_counter := r.2 }
  return { s with table := biggertable }

/-- The condition under which `_stm_compact_hashtable` makes a new table. -/
def compacts (h : stm_hashtable_s) (table : Table) : Prop :=
  (h.additions >>> 8) * 4 > table.mask

instance (h : stm_hashtable_s) (table : Table) : Decidable (h.compacts table) :=
  inferInstanceAs (Decidable (_ > _))

/-- The first half of `_stm_compact_hashtable`. -/
def compact (h : stm_hashtable_s) (biggertable : ℕ) (keep : EntryPtr → Bool) :
    Option stm_hashtable_s := do
  let table ← h.shared.tables h.shared.table
  c_assert (¬ IS_EVEN table.resize_counter)
  if h.compacts table then do
    let segment_num := h.additions &&& 0xFF
    let segment_num := if segment_num = 0 then 1 else segment_num
    let initial_rc := (table.mask + 1) * 4 + 1
    let num_entries_times_6 := initial_rc - table.resize_counter
    let count ← compact_count num_entries_times_6
    c_assert (count ≤ table.mask + 1)
    let shared ← stm_rehash_hashtable h.shared biggertable count keep
    return { h with
      shared := shared
      additions := segment_num
      malloced := biggertable :: h.malloced }
  else return h

/-- The second half: the tables before the current one are freed. -/
def cut_chain (h : stm_hashtable_s) : Option stm_hashtable_s := do
  let table ← h.shared.tables h.shared.table
  c_assert (¬ IS_EVEN table.resize_counter)
  if h.shared.table ≠ h.initial_table then do
    let initial ← h.shared.tables h.initial_table
    let m ← loop (cut_body h.shared.table) (h.heap, initial.resize_counter)
    let h := h.set_heap m
    return { h with
      shared := h.shared.set_table h.initial_table
        { initial with resize_counter := h.shared.table } }
  else return h

/-- `_stm_compact_hashtable`. -/
def stm_compact_hashtable (h : stm_hashtable_s) (biggertable : ℕ) (keep : EntryPtr → Bool) :
    Option stm_hashtable_s := do
  let h ← h.compact biggertable keep
  h.cut_chain

/-- What `malloc` may return to `_stm_compact_hashtable`. -/
def compact_malloc_ok (h : stm_hashtable_s) (biggertable : ℕ) : Prop :=
  ∀ table, h.shared.tables h.shared.table = some table → h.compacts table →
    h.shared.malloc_ok (table.mask + 1) biggertable

instance (h : stm_hashtable_s) (biggertable : ℕ) : Decidable (h.compact_malloc_ok biggertable) :=
  match hs : h.shared.tables h.shared.table with
  | none => .isTrue fun table htable => by rw [hs] at htable; cases htable
  | some table =>
    if hc : h.compacts table → h.shared.malloc_ok (table.mask + 1) biggertable then
      .isTrue fun t ht => by rw [hs] at ht; cases ht; exact hc
    else .isFalse fun hall => hc (hall table hs)

/-- `stm_hashtable_free`. -/
def stm_hashtable_free (h : stm_hashtable_s) : Option stm_hashtable_s := do
  let initial ← h.shared.tables h.initial_table
  let m ← loop free_body ({ h.heap with
    tables := Function.update h.shared.tables h.initial_table none }, initial.resize_counter)
  return { h.set_heap m with alive := false }

variable (NB_SEGMENTS : ℕ)

/-- Every segment is outside of the lookups, or at a safe point inside
`stm_allocate`. -/
def at_safe_points (h : stm_hashtable_s) : Prop :=
  ∀ t ∈ List.range' 1 NB_SEGMENTS, h.shared.threads t = .idle ∨ h.in_allocate = some t

instance (h : stm_hashtable_s) : Decidable (h.at_safe_points NB_SEGMENTS) :=
  inferInstanceAs (Decidable (∀ t ∈ _, _))

/-- The turns of the search loop, after a step of segment `t`. -/
def count_turns (h : stm_hashtable_s) (t : ℕ) : ℕ → ℕ :=
  match h.shared.threads t with
  | .first .. => Function.update h.turns t 0
  | .probing .. => Function.update h.turns t (h.turns t + 1)
  | _ => h.turns

def step (h : stm_hashtable_s) : Act → Outcome stm_hashtable_s
  | .call t index =>
    -- no other segment has a hashtable that is still in a nursery
    guarded (h.alive = true ∧ t ∈ List.range' 1 NB_SEGMENTS ∧ index < 2 ^ 64
      ∧ (h.nursery = none ∨ h.nursery = some t) ∧ h.in_allocate = none
      ∧ h.shared.threads t = .idle) <|
    .next { h with shared := h.shared.goto t (.restart index) }
  | .step t => (h.shared.thread_step t (h.shared.threads t)).bind fun shared =>
    .next { h with shared := shared, turns := h.count_turns t }
  | .allocate t =>
    match h.shared.threads t with
    | .allocate .. => guarded (h.nursery = some t ∧ h.in_allocate = none) <|
      .next { h with in_allocate := some t }
    | _ => .blocked
  | .allocated t addr =>
    match h.shared.threads t with
    | .allocate index table i rc =>
      let shared := h.shared.goto t (.store index table i rc { addr := addr, index := index })
      if h.in_allocate = some t then
        .next { h with shared := shared, in_allocate := none, additions := t }
      else guarded (h.nursery = none) <|
        .next { h with shared := shared, additions := (h.additions + 0x100) % 2 ^ 64 }
    | _ => .blocked
  | .malloc t biggertable => (h.shared.step (.malloc t biggertable)).bind fun shared =>
    .next { h with shared := shared, malloced := biggertable :: h.malloced }
  | .minor_collection t =>
    guarded (h.nursery = some t ∧ (h.shared.threads t = .idle ∨ h.in_allocate = some t)) <|
    .next { h with nursery := none }
  | .update_items f =>
    .next { h with shared := { h.shared with
      tables := fun p => (h.shared.tables p).map (Table.update_items f) } }
  | .major_collection biggertable keep =>
    -- all nurseries have been emptied before
    guarded (h.alive = true ∧ h.nursery = none ∧ h.at_safe_points NB_SEGMENTS
      ∧ h.compact_malloc_ok biggertable) <|
    .ofOption (h.stm_compact_hashtable biggertable keep)
  | .abort t => guarded (h.in_allocate = some t) <|
    .next { h with shared := h.shared.goto t .idle, in_allocate := none, alive := false }
  | .stm_hashtable_free =>
    guarded ((h.shared.tables h.initial_table).isSome = true
      ∧ ∀ t ∈ List.range' 1 NB_SEGMENTS, h.shared.threads t = .idle) <|
    .ofOption h.stm_hashtable_free

/-- `stm_hashtable_create`. -/
def stm_hashtable_create (initial_table : ℕ) (nursery : Option ℕ) : stm_hashtable_s where
  shared := SharedHashtable.create initial_table
  initial_table := initial_table
  additions := 0
  nursery := nursery
  in_allocate := none
  alive := true
  turns := fun _ => 0
  malloced := []
  freed := []

/-- A new hashtable, its object in a nursery or not. -/
def Initial (h : stm_hashtable_s) : Prop :=
  ∃ initial_table nursery, h = stm_hashtable_create initial_table nursery

end stm_hashtable_s

end Stmgc.C7
