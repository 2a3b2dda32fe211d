/-
The segments of `c7` at work: the write barriers, the collections, commit and
abort of `core.c`, `nursery.c` and `gcpage.c`, as one machine over the pages
and the `write_locks`.

One step of a thread is one compare-and-swap on a write lock (with the
`LIST_APPEND` that follows it under the marker lock), one call of
`page_privatize`, one critical section under a privatization lock, one turn of
a loop over a list of objects, or one store. Between two steps any other
segment may take some; the mutex and the safe points of the source allow fewer
interleavings than this. What runs with all other threads stopped is one step:
the end of a commit, and a major collection.

Objects are addresses outside the nursery. A reference into the nursery is
just bytes here, and evacuating an object creates it at its new address. What
tracing stores into an object is arbitrary. The objects which are freed by a
sweep are those that marking did not reach, and here marking may reach any
objects besides the modified ones.
-/
import Stmgc.Lib.Machine
import Stmgc.C7.Cards
import Stmgc.C7.Finalizer

namespace Stmgc.C7

open Stmgc.Lib

/-! ## Data -/

/-- What an address outside the nursery is the start of. -/
inductive Kind where
  | free
  /-- an object in `young_outside_nursery` of a segment -/
  | young (segment_num : ℕ)
  /-- one that its transaction has moved out of the nursery, or aged -/
  | overflow (segment_num : ℕ)
  | old
  /-- left behind by an aborted transaction -/
  | dead
  deriving DecidableEq

/-- Where the thread of a segment stands. -/
inductive Pc where
  | running
  /-- in `write_slowpath_common` with the lock just taken, and these pages
  still to be privatized -/
  | privatizing (obj : ℕ) (mark_card : Option ℕ) (pages : List ℕ)
  | collect_cardrefs (commit was_null : Bool)
  | collect_modified (commit : Bool) (todo : List ℕ)
  | collect_oldrefs (commit : Bool)
  /-- between the minor collection of a commit and the push of the overflow
  objects -/
  | collected
  /-- after that push -/
  | pushed
  /-- in `reset_modified_from_other_segments`, with so many items left -/
  | resetting (todo : ℕ)
  deriving DecidableEq

/-- `struct stm_priv_segment_info_s`. The items of `objects_pointing_to_nursery`
come with `FLAG_SYNC_LARGE`. The last field is not in the source: it collects
the objects of which a slow path of `stm_write` has removed
`GCFLAG_WRITE_BARRIER` while `GCFLAG_CARDS_SET` was clear. -/
structure Segment where
  pc : Pc
  modified_old_objects : List ℕ
  objects_pointing_to_nursery : Option (List (ℕ × Bool))
  old_objects_with_cards : List ℕ
  large_overflow_objects : List ℕ
  young_outside_nursery : List ℕ
  written : List ℕ

structure St where
  mem : Memory
  write_locks : ℕ → ℕ
  kind : ℕ → Kind
  layout : ℕ → Layout
  segs : ℕ → Segment

def St.set (s : St) (i : ℕ) (seg : Segment) : St :=
  { s with segs := Function.update s.segs i seg }

def GCFLAG_WRITE_BARRIER : UInt8 := 0x01
def GCFLAG_CARDS_SET : UInt8 := 0x08

/-- `stm_flags & flag`, seen through a segment; the flags are in the first of
the four bytes. -/
def has_flag (m : Memory) (segnum obj : ℕ) (flag : UInt8) : Bool :=
  read m segnum obj &&& flag != 0

/-- `stm_flags |= flags`. -/
def set_flags (m : Memory) (segnum obj : ℕ) (flags : UInt8) : Memory :=
  write m segnum obj (read m segnum obj ||| flags)

/-- `stm_flags &= ~flags`. -/
def clear_flags (m : Memory) (segnum obj : ℕ) (flags : UInt8) : Memory :=
  write m segnum obj (read m segnum obj &&& ~~~flags)

/-- The overflow number `GCFLAG_OVERFLOW_NUMBER_bit0 * k` in the 32 bits of
`stm_flags`. -/
def GCFLAG_OVERFLOW_NUMBER_bit0 : ℕ := 0x10

/-- A byte of a number, the lowest first. -/
def byte_of (n k : ℕ) : UInt8 := UInt8.ofNat (n / 256 ^ k)

/-- The four bytes `val` of `stm_flags`, after `stm_flags |= overflow_number`. -/
def or_overflow_number (overflow_number obj : ℕ) (val : ℕ → UInt8) (a : ℕ) : UInt8 :=
  if obj ≤ a ∧ a < obj + 4 then val a ||| byte_of overflow_number (a - obj) else val a

/-- The bytes of an object after `struct object_s`. -/
def in_body (obj : ℕ) (l : Layout) (a : ℕ) : Bool :=
  decide (obj + 4 ≤ a) && decide (a < obj + l.size)

/-- The pages of an object. -/
def object_pages (obj : ℕ) (l : Layout) : List ℕ :=
  List.range' (obj / 4096) ((obj + l.size - 1) / 4096 - obj / 4096 + 1)

/-- The memory of a new object overlaps with no other. -/
def is_fresh (s : St) (obj : ℕ) (l : Layout) : Prop :=
  ∀ o < obj + l.size, s.kind o ≠ .free → o + (s.layout o).size ≤ obj

instance (s : St) (obj : ℕ) (l : Layout) : Decidable (is_fresh s obj l) :=
  Nat.decidableBallLT (obj + l.size) (fun o _ => s.kind o ≠ .free → o + (s.layout o).size ≤ obj)

/-- No object has a byte at this address. -/
def is_unused (s : St) (a : ℕ) : Prop :=
  ∀ o < a + 1, s.kind o ≠ .free → o + (s.layout o).size ≤ a

instance (s : St) (a : ℕ) : Decidable (is_unused s a) :=
  Nat.decidableBallLT (a + 1) (fun o _ => s.kind o ≠ .free → o + (s.layout o).size ≤ a)

/-- A new object. -/
def St.allocate (s : St) (obj : ℕ) (l : Layout) (kind : Kind) : St :=
  { s with
    kind := Function.update s.kind obj kind
    layout := Function.update s.layout obj l }

/-- The overflow number in the flags of an object is the segment's. -/
def IS_OVERFLOW_OBJ (s : St) (i obj : ℕ) : Prop := obj ∈ (s.segs i).large_overflow_objects

instance (s : St) (i obj : ℕ) : Decidable (IS_OVERFLOW_OBJ s i obj) := by
  unfold IS_OVERFLOW_OBJ
  infer_instance

/-- A write through the mappings of all segments, one after the other. -/
def write_all_segments (NB_SEGMENTS : ℕ) (m : Memory) (range : ℕ → Bool) (val : ℕ → UInt8) :
    Memory :=
  (List.range (NB_SEGMENTS + 1)).foldl (fun m j => write_range m j range val) m

/-! ## Write barriers -/

/-- `write_slowpath_overflow_obj`. With a card to mark, it is marked by
`_stm_write_slowpath_card` right after. -/
def write_slowpath_overflow_obj (s : St) (i obj : ℕ) (mark_card : Option ℕ) : Outcome St :=
  let seg := s.segs i
  match mark_card with
  | none =>
    match seg.objects_pointing_to_nursery with
    | none => .fault
    | some lst =>
      .next { s.set i { seg with
            objects_pointing_to_nursery := some (list_append lst (obj, false)) } with
          write_locks := if has_flag s.mem i obj GCFLAG_CARDS_SET then
              reset_object_cards s.write_locks obj (s.layout obj) CARD_CLEAR false
            else s.write_locks
          mem := clear_flags s.mem i obj (GCFLAG_WRITE_BARRIER ||| GCFLAG_CARDS_SET) }
  | some card_index =>
    .next { s.set i { seg with
          old_objects_with_cards := list_append seg.old_objects_with_cards obj } with
        write_locks :=
          Function.update s.write_locks (get_write_lock_idx obj + card_index) CARD_MARKED
        mem := set_flags s.mem i obj GCFLAG_CARDS_SET }

/-- The part of `write_slowpath_common` that comes once the segment owns the
lock and the pages are private. -/
def write_slowpath_owned (s : St) (i obj : ℕ) (mark_card : Option ℕ) : Outcome St :=
  let seg := s.segs i
  -- check that we really have a private page
  if is_private_page s.mem i (obj / 4096) = true
      ∧ has_flag s.mem i obj GCFLAG_WRITE_BARRIER = true then
    match mark_card with
    | none =>
      let cards_set := has_flag s.mem i obj GCFLAG_CARDS_SET
      .next { s.set i { seg with
            pc := .running
            objects_pointing_to_nursery :=
              seg.objects_pointing_to_nursery.map (fun lst => list_append lst (obj, false))
            written := if cards_set then seg.written else obj :: seg.written } with
          write_locks := if cards_set then
              reset_object_cards s.write_locks obj (s.layout obj) CARD_MARKED_OLD true
            else s.write_locks
          mem := clear_flags s.mem i obj (GCFLAG_WRITE_BARRIER ||| GCFLAG_CARDS_SET) }
    | some card_index =>
      .next { s.set i { seg with
            pc := .running
            old_objects_with_cards := list_append seg.old_objects_with_cards obj } with
          write_locks :=
            Function.update s.write_locks (get_write_lock_idx obj + card_index) CARD_MARKED
          mem := set_flags s.mem i obj GCFLAG_CARDS_SET }
  else .fault

/-- `write_slowpath_common` up to the first `page_privatize`. -/
def write_slowpath_common (s : St) (i obj : ℕ) (mark_card : Option ℕ) : Outcome St :=
  let seg := s.segs i
  if IS_OVERFLOW_OBJ s i obj then
    if s.write_locks (get_write_lock_idx obj) = 0 then
      write_slowpath_overflow_obj s i obj mark_card
    else .fault
  else if s.write_locks (get_write_lock_idx obj) = 0 then
    .next { s.set i { seg with
          pc := .privatizing obj mark_card (object_pages obj (s.layout obj))
          modified_old_objects := list_append seg.modified_old_objects obj } with
        write_locks := Function.update s.write_locks (get_write_lock_idx obj) i }
  else if s.write_locks (get_write_lock_idx obj) = i then
    write_slowpath_owned s i obj mark_card
  else .blocked -- in write_write_contention_management

/-- `stm_write`. -/
def stm_write (s : St) (i obj : ℕ) : Outcome St :=
  if has_flag s.mem i obj GCFLAG_WRITE_BARRIER then write_slowpath_common s i obj none
  else .next s

/-- `stm_write_card` and `_stm_write_slowpath_card`. -/
def stm_write_card (s : St) (i obj index : ℕ) : Outcome St :=
  let l := s.layout obj
  if has_flag s.mem i obj GCFLAG_WRITE_BARRIER then
    if has_flag s.mem i obj GCFLAG_CARDS_SET then
      .next { s with
        write_locks := Function.update s.write_locks
          (get_write_lock_idx obj + get_index_to_card_index index) CARD_MARKED }
    else
      let mark_card := if obj_should_use_cards l then some (get_index_to_card_index index) else none
      write_slowpath_common s i obj mark_card
  else .next s

/-- The card of an offset is marked. -/
def card_is_marked (s : St) (obj off : ℕ) : Prop :=
  ∃ c ∈ card_indices (s.layout obj),
    s.write_locks (get_write_lock_idx obj + c) = CARD_MARKED ∧ in_card (s.layout obj) c off

instance (l : Layout) (c off : ℕ) : Decidable (in_card l c off) := by
  unfold in_card
  infer_instance

instance (s : St) (obj off : ℕ) : Decidable (card_is_marked s obj off) := by
  unfold card_is_marked
  infer_instance

/-- The barriers allow segment `i` a store at this offset. -/
def may_store (s : St) (i obj off : ℕ) : Prop :=
  4 ≤ off ∧ off < (s.layout obj).size ∧
    (s.kind obj = .young i ∨ s.kind obj = .overflow i ∨ s.kind obj = .old ∧
      (has_flag s.mem i obj GCFLAG_WRITE_BARRIER = false ∨
        has_flag s.mem i obj GCFLAG_CARDS_SET = true
          ∧ obj_should_use_cards (s.layout obj) = true ∧ card_is_marked s obj off))

instance (s : St) (i obj off : ℕ) : Decidable (may_store s i obj off) := by
  unfold may_store
  infer_instance

/-! ## Minor collections -/

/-- `_trace_card_object`, which rewrites references in marked cards. -/
def trace_card_object (s : St) (i obj : ℕ) (val : ℕ → UInt8) : Outcome St :=
  let mark_value := if IS_OVERFLOW_OBJ s i obj then CARD_CLEAR else CARD_MARKED_OLD
  if has_flag s.mem i obj GCFLAG_WRITE_BARRIER then
    .next { s with
      mem := clear_flags (write_range s.mem i (fun a => in_body obj (s.layout obj) a
        && decide (card_is_marked s obj (a - obj))) val) i obj GCFLAG_CARDS_SET
      write_locks := trace_cards s.write_locks obj (s.layout obj) mark_value }
  else .fault

/-- `_collect_now`, which rewrites references in the whole object. -/
def collect_now (s : St) (i obj : ℕ) (val : ℕ → UInt8) : Outcome St :=
  if has_flag s.mem i obj GCFLAG_CARDS_SET then .fault
  else if has_flag s.mem i obj GCFLAG_WRITE_BARRIER then .next s
  else .next { s with
    mem := set_flags (write_range s.mem i (in_body obj (s.layout obj)) val) i obj
      GCFLAG_WRITE_BARRIER }

/-- The start of `_do_minor_collection`. -/
def minor_collection (s : St) (i : ℕ) (commit : Bool) : St :=
  let seg := s.segs i
  s.set i { seg with
    pc := .collect_cardrefs commit seg.objects_pointing_to_nursery.isNone
    objects_pointing_to_nursery := some (seg.objects_pointing_to_nursery.getD []) }

/-- A turn of `collect_cardrefs_to_nursery`, or its end. -/
def collect_cardrefs_to_nursery (s : St) (i : ℕ) (commit was_null : Bool) (val : ℕ → UInt8) :
    Outcome St :=
  let seg := s.segs i
  match list_pop_item seg.old_objects_with_cards with
  | none =>
    .next (s.set i { seg with
      pc := if was_null then .collect_modified commit seg.modified_old_objects
        else .collect_oldrefs commit })
  | some (lst, obj) =>
    let s := s.set i { seg with old_objects_with_cards := lst }
    -- sometimes we remove the CARDS_SET in the WB slowpath
    if has_flag s.mem i obj GCFLAG_CARDS_SET then trace_card_object s i obj val
    else .next s

/-- A turn of `collect_modified_old_objects`, or its end. -/
def collect_modified_old_objects (s : St) (i : ℕ) (commit : Bool) (todo : List ℕ)
    (val : ℕ → UInt8) : Outcome St :=
  let seg := s.segs i
  match todo with
  | [] => .next (s.set i { seg with pc := .collect_oldrefs commit })
  | obj :: todo => collect_now (s.set i { seg with pc := .collect_modified commit todo }) i obj val

/-- `minor_trace_if_young` on an object of the nursery. -/
def evacuate (s : St) (i obj : ℕ) (l : Layout) (val : ℕ → UInt8) : St :=
  let seg := s.segs i
  { (s.allocate obj l (.overflow i)).set i { seg with
      objects_pointing_to_nursery :=
        seg.objects_pointing_to_nursery.map (fun lst => list_append lst (obj, true)) } with
    mem := write_range s.mem i (in_range obj l.size) val }

/-- `minor_trace_if_young` on a young object outside the nursery. The overflow
number is 0 if the minor collection commits. -/
def trace_young_outside_nursery (s : St) (i obj overflow_number : ℕ) : St :=
  let seg := s.segs i
  { s.set i { seg with
      young_outside_nursery := seg.young_outside_nursery.filter (· ≠ obj)
      objects_pointing_to_nursery :=
        seg.objects_pointing_to_nursery.map (fun lst => list_append lst (obj, true)) } with
    kind := Function.update s.kind obj (.overflow i)
    mem := write_range s.mem i (in_range obj (s.layout obj).size)
      (or_overflow_number overflow_number obj (read s.mem i)) }

/-- What `throw_away_nursery` does outside the nursery. -/
def throw_away_nursery (s : St) (i : ℕ) : St :=
  let seg := s.segs i
  { s.set i { seg with young_outside_nursery := [] } with
    kind := fun o => if o ∈ seg.young_outside_nursery then .free else s.kind o }

/-- After `_collect_now`: an object that was just moved out is either
synchronized at once or becomes an overflow object. -/
def age_object (NB_SEGMENTS : ℕ) (s : St) (i obj : ℕ) (commit : Bool) : Outcome St :=
  let seg := s.segs i
  if commit then
    if has_flag s.mem i obj GCFLAG_WRITE_BARRIER then
      match synchronize_object_now NB_SEGMENTS s.mem s.write_locks i obj (s.layout obj) true with
      | none => .fault
      | some (mem, write_locks) =>
        .next { s with
          mem := mem
          write_locks := write_locks
          kind := Function.update s.kind obj .old }
    else .fault
  else .next (s.set i { seg with
    large_overflow_objects := list_append seg.large_overflow_objects obj })

/-- A turn of `collect_oldrefs_to_nursery`, or the end of the minor
collection. -/
def collect_oldrefs_to_nursery (NB_SEGMENTS : ℕ) (s : St) (i : ℕ) (commit : Bool)
    (val : ℕ → UInt8) : Outcome St :=
  let seg := s.segs i
  match list_pop_item (seg.objects_pointing_to_nursery.getD []) with
  | none =>
    let s := throw_away_nursery s i
    .next (s.set i { s.segs i with pc := if commit then .collected else .running })
  | some (lst, obj, sync) =>
    match collect_now (s.set i { seg with objects_pointing_to_nursery := some lst }) i obj val with
    | .next s => if sync then age_object NB_SEGMENTS s i obj commit else .next s
    | r => r

/-! ## Commit and abort -/

/-- The lists of a segment at the end of a transaction. -/
def Segment.clear_lists (seg : Segment) : Segment :=
  { seg with
    pc := .running
    modified_old_objects := []
    objects_pointing_to_nursery := none
    old_objects_with_cards := []
    large_overflow_objects := []
    written := [] }

/-- One object in `push_overflow_objects_from_privatized_pages`. -/
def push_overflow_object (NB_SEGMENTS : ℕ) (s : St) (i : ℕ) (m : Memory) (obj : ℕ) :
    Option Memory := do
  c_assert (has_flag m i obj GCFLAG_WRITE_BARRIER = true)
  c_assert (has_flag m i obj GCFLAG_CARDS_SET = false)
  let (m, _) ← synchronize_object_now NB_SEGMENTS m s.write_locks i obj (s.layout obj) true
  return m

/-- `push_overflow_objects_from_privatized_pages`. -/
def push_overflow_objects_from_privatized_pages (NB_SEGMENTS : ℕ) (s : St) (i : ℕ) :
    Outcome St :=
  let seg := s.segs i
  match seg.large_overflow_objects.reverse.foldlM (push_overflow_object NB_SEGMENTS s i) s.mem with
  | none => .fault
  | some mem => .next { s.set i { seg with pc := .pushed } with mem := mem }

/-- One object in `push_modified_to_other_segments`. -/
def push_modified_object (NB_SEGMENTS : ℕ) (layout : ℕ → Layout) (i : ℕ)
    (ml : Memory × (ℕ → ℕ)) (obj : ℕ) : Option (Memory × (ℕ → ℕ)) := do
  let (m, write_locks) := ml
  c_assert (write_locks (get_write_lock_idx obj) = i)
  let write_locks := Function.update write_locks (get_write_lock_idx obj) 0
  c_assert (has_flag m i obj GCFLAG_WRITE_BARRIER = true)
  c_assert (has_flag m i obj GCFLAG_CARDS_SET = false)
  synchronize_object_now NB_SEGMENTS m write_locks i obj (layout obj) false

/-- The end of `stm_commit_transaction`: `push_modified_to_other_segments` and
`_finish_transaction`. -/
def commit_transaction (NB_SEGMENTS : ℕ) (s : St) (i : ℕ) : Outcome St :=
  let seg := s.segs i
  match seg.modified_old_objects.reverse.foldlM (push_modified_object NB_SEGMENTS s.layout i)
      (s.mem, s.write_locks) with
  | none => .fault
  | some (mem, write_locks) =>
    .next { s.set i seg.clear_lists with
        mem := mem
        write_locks := write_locks
        kind := fun o => if s.kind o = .overflow i then
            if o ∈ seg.large_overflow_objects then .old else .dead
          else s.kind o }

/-- `abort_data_structures_from_segment_num` up to the call of
`reset_modified_from_other_segments`. -/
def abort_data_structures (s : St) (i : ℕ) : St :=
  let s := throw_away_nursery s i
  let seg := s.segs i
  { s.set i { seg with pc := .resetting seg.modified_old_objects.length } with
    write_locks := seg.large_overflow_objects.reverse.foldl (fun wl obj =>
      if has_flag s.mem i obj GCFLAG_CARDS_SET then
        reset_object_cards wl obj (s.layout obj) CARD_CLEAR false
      else wl) s.write_locks }

/-- One turn of `reset_modified_from_other_segments`. -/
def reset_modified_object (s : St) (i obj todo : ℕ) : Outcome St :=
  let l := s.layout obj
  let mem := memcpy s.mem i 0 obj l.size
  let write_locks := if obj_should_use_cards l then
      reset_object_cards s.write_locks obj l CARD_CLEAR false
    else s.write_locks
  if has_flag mem i obj GCFLAG_WRITE_BARRIER = true
      ∧ write_locks (get_write_lock_idx obj) = i then
    .next { s.set i { s.segs i with pc := .resetting todo } with
      mem := mem
      write_locks := Function.update write_locks (get_write_lock_idx obj) 0 }
  else .fault

/-- A turn of `reset_modified_from_other_segments`, or the rest of the
abort. -/
def reset_modified_from_other_segments (s : St) (i : ℕ) : ℕ → Outcome St
  | 0 =>
    .next { s.set i (s.segs i).clear_lists with
        kind := fun o => if s.kind o = .overflow i then .dead else s.kind o }
  | todo + 1 =>
    match (s.segs i).modified_old_objects[todo]? with
    | none => .fault
    | some obj => reset_modified_object s i obj todo

/-! ## Major collections -/

/-- The page is one of a modified object of the segment. -/
def keeps_page_private (s : St) (i pagenum : ℕ) : Bool :=
  (s.segs i).modified_old_objects.any (fun o => decide (pagenum ∈ object_pages o (s.layout o)))

/-- `copy_object_to_shared`, with the private bits of the modified objects
hidden. -/
def copy_object_to_shared (s : St) (i : ℕ) (m : Memory) (obj : ℕ) : Memory :=
  write_range m 0 (fun a => in_range obj (s.layout obj).size a
    && is_private_page m i (a / 4096) && !keeps_page_private s i (a / 4096)) (read m i)

/-- `major_reshare_pages`. The masks there are made by shifts of an `int`,
which is as good as a set of bits for up to 31 segments; `STM_NB_SEGMENTS` is
4. -/
def major_reshare_pages (NB_SEGMENTS : ℕ) (s : St) : St :=
  let m := (segment_nums NB_SEGMENTS).foldl (fun m i =>
    (s.segs i).large_overflow_objects.reverse.foldl (copy_object_to_shared s i) m) s.mem
  { s with mem := { m with pages_privatized := fun p i => keeps_page_private s i p } }

/-- Marking, as the final state of the locks of the visited objects. -/
def mark_visited (write_locks : ℕ → ℕ) (visited : List ℕ) : ℕ → ℕ :=
  visited.foldl (fun wl o => Function.update wl (get_write_lock_idx o) WL_VISITED) write_locks

/-- `clean_up_segment_lists` on an item of `objects_pointing_to_nursery`. -/
def clean_up_object (i : ℕ) (m : Memory) (item : ℕ × Bool) : Option Memory := do
  c_assert (has_flag m i item.1 GCFLAG_WRITE_BARRIER = false)
  c_assert (has_flag m i item.1 GCFLAG_CARDS_SET = false)
  return set_flags m i item.1 GCFLAG_WRITE_BARRIER

/-- `clean_up_segment_lists` on an item of `old_objects_with_cards`. -/
def clean_up_cards (s : St) (i : ℕ) (ml : Memory × (ℕ → ℕ)) (obj : ℕ) :
    Option (Memory × (ℕ → ℕ)) := do
  let (m, write_locks) := ml
  c_assert (has_flag m i obj GCFLAG_CARDS_SET = true)
  c_assert (has_flag m i obj GCFLAG_WRITE_BARRIER = true)
  let mark_value := if IS_OVERFLOW_OBJ s i obj then CARD_CLEAR else CARD_MARKED_OLD
  return (clear_flags m i obj GCFLAG_CARDS_SET,
    reset_object_cards write_locks obj (s.layout obj) mark_value false)

/-- One turn of `clean_up_segment_lists`. -/
def clean_up_segment (s : St) (i : ℕ) : Option St := do
  let seg := s.segs i
  let m ← (seg.objects_pointing_to_nursery.getD []).reverse.foldlM (clean_up_object i) s.mem
  let (mem, write_locks) ←
    seg.old_objects_with_cards.reverse.foldlM (clean_up_cards s i) (m, s.write_locks)
  return { s.set i { seg with
        objects_pointing_to_nursery := seg.objects_pointing_to_nursery.map (fun _ => [])
        old_objects_with_cards := []
        large_overflow_objects := seg.large_overflow_objects.filter
          (fun o => write_locks (get_write_lock_idx o) == WL_VISITED) } with
      mem := mem
      write_locks := write_locks }

/-- `_stm_largemalloc_sweep` with `largemalloc_keep_object_at`. The address of
an object is one of the 16 that have the same lock. -/
def sweep_large_objects (s : St) : St :=
  { s with
    kind := fun o => if s.write_locks (get_write_lock_idx o) = WL_VISITED then s.kind o else .free
    write_locks := fun x => if s.write_locks x = WL_VISITED
        ∧ (List.range' (x * 16) 16).any (fun o => s.kind o ≠ .free) then 0 else s.write_locks x }

/-- `major_restore_write_locks`, for one object. -/
def restore_write_lock (i : ℕ) (write_locks : ℕ → ℕ) (obj : ℕ) : Option (ℕ → ℕ) := do
  c_assert (write_locks (get_write_lock_idx obj) = 0)
  return Function.update write_locks (get_write_lock_idx obj) i

def major_restore_write_locks (NB_SEGMENTS : ℕ) (s : St) : Option St := do
  let write_locks ← (segment_nums NB_SEGMENTS).foldlM (fun wl i =>
    (s.segs i).modified_old_objects.reverse.foldlM (restore_write_lock i) wl) s.write_locks
  return { s with write_locks := write_locks }

/-- `major_collection_now_at_safe_point` after its minor collections. -/
def major_collection_now (NB_SEGMENTS : ℕ) (s : St) (visited : List ℕ) : Option St := do
  let s := major_reshare_pages NB_SEGMENTS s
  let s := { s with write_locks := mark_visited s.write_locks visited }
  let s ← (segment_nums NB_SEGMENTS).foldlM clean_up_segment s
  major_restore_write_locks NB_SEGMENTS (sweep_large_objects s)

/-- All threads are at a safe point, with nothing left for a minor collection
to do, and the marking has visited the modified objects. -/
def may_collect (NB_SEGMENTS : ℕ) (s : St) (visited : List ℕ) : Prop :=
  (∀ i ∈ segment_nums NB_SEGMENTS,
    ((s.segs i).pc = .running ∨ (s.segs i).pc = .pushed)
      ∧ (s.segs i).young_outside_nursery = []
      ∧ ∀ o ∈ (s.segs i).modified_old_objects, o ∈ visited)
    ∧ ∀ o ∈ visited, s.kind o ≠ .free

instance (NB_SEGMENTS : ℕ) (s : St) (visited : List ℕ) :
    Decidable (may_collect NB_SEGMENTS s visited) := by
  unfold may_collect
  infer_instance

/-! ## The machine -/

inductive Act where
  /-- `largemalloc.c` writes into its headers and free lists -/
  | largemalloc_write (addr : ℕ) (b : UInt8)
  | allocate_external (i obj : ℕ) (l : Layout)
  | stm_write (i obj : ℕ)
  | stm_write_card (i obj index : ℕ)
  /-- the next `page_privatize` of a slow path -/
  | page_privatize (i : ℕ)
  | write_slowpath_owned (i : ℕ)
  | store (i obj off : ℕ) (b : UInt8)
  | minor_collection (i : ℕ) (commit : Bool)
  | evacuate (i obj : ℕ) (l : Layout) (val : ℕ → UInt8)
  | trace_young_outside_nursery (i obj overflow_number : ℕ)
  /-- the next turn of the minor collection -/
  | collect (i : ℕ) (val : ℕ → UInt8)
  | push_overflow_objects (i : ℕ)
  | restart_all (i : ℕ)
  | commit_transaction (i : ℕ)
  | abort_data_structures (i : ℕ)
  | reset_modified (i : ℕ)
  /-- `stm_hashtable_lookup` adds an entry to an old hashtable -/
  | hashtable_entry (i obj : ℕ) (l : Layout) (val : ℕ → UInt8)
  | set_weakref_in_all_segments (i obj : ℕ) (val : ℕ → UInt8)
  | major_collection (visited : List ℕ)

/-- The segment is in a minor collection. -/
def Pc.collecting : Pc → Bool
  | .collect_cardrefs .. | .collect_modified .. | .collect_oldrefs .. => true
  | _ => false

/-- The segment that acts. -/
def Act.segment_num : Act → Option ℕ
  | .largemalloc_write .. | .major_collection .. => none
  | .allocate_external i .. | .stm_write i .. | .stm_write_card i .. | .page_privatize i
  | .write_slowpath_owned i | .store i .. | .minor_collection i .. | .evacuate i ..
  | .trace_young_outside_nursery i .. | .collect i .. | .push_overflow_objects i
  | .restart_all i | .commit_transaction i | .abort_data_structures i | .reset_modified i
  | .hashtable_entry i .. | .set_weakref_in_all_segments i .. => some i

/-- One step, of a segment that exists. -/
def step_segment (NB_SEGMENTS : ℕ) (s : St) : Act → Outcome St
  | .largemalloc_write addr b => guarded (is_unused s addr) <|
    .next { s with mem := write s.mem 0 addr b }
  | .allocate_external i obj l =>
    guarded ((s.segs i).pc = .running ∧ s.kind obj = .free ∧ is_fresh s obj l) <|
    .next { (s.allocate obj l (.young i)).set i { s.segs i with
          young_outside_nursery := obj :: (s.segs i).young_outside_nursery } with
        mem := write_range s.mem i (in_range obj l.size) (fun _ => 0) }
  | .stm_write i obj =>
    guarded ((s.segs i).pc = .running ∧ (s.kind obj = .old ∨ IS_OVERFLOW_OBJ s i obj)) <|
    stm_write s i obj
  | .stm_write_card i obj index =>
    guarded ((s.segs i).pc = .running ∧ (s.kind obj = .old ∨ IS_OVERFLOW_OBJ s i obj)
      ∧ (obj_should_use_cards (s.layout obj) = true → index < real_idx_count (s.layout obj))) <|
    stm_write_card s i obj index
  | .page_privatize i =>
    match (s.segs i).pc with
    | .privatizing obj mark_card (p :: pages) =>
      .next { s.set i { s.segs i with pc := .privatizing obj mark_card pages } with
        mem := page_privatize s.mem i p }
    | _ => .blocked
  | .write_slowpath_owned i =>
    match (s.segs i).pc with
    | .privatizing obj mark_card [] => write_slowpath_owned s i obj mark_card
    | _ => .blocked
  | .store i obj off b =>
    guarded ((s.segs i).pc = .running ∧ may_store s i obj off) <|
    .next { s with mem := write s.mem i (obj + off) b }
  | .minor_collection i commit =>
    guarded ((s.segs i).pc = .running) <| .next (minor_collection s i commit)
  | .evacuate i obj l val =>
    guarded ((s.segs i).pc.collecting = true ∧ s.kind obj = .free ∧ is_fresh s obj l
      ∧ val obj &&& (GCFLAG_WRITE_BARRIER ||| GCFLAG_CARDS_SET) = 0) <|
    .next (evacuate s i obj l val)
  | .trace_young_outside_nursery i obj overflow_number =>
    guarded ((s.segs i).pc.collecting = true ∧ obj ∈ (s.segs i).young_outside_nursery
      ∧ GCFLAG_OVERFLOW_NUMBER_bit0 ∣ overflow_number) <|
    .next (trace_young_outside_nursery s i obj overflow_number)
  | .collect i val =>
    match (s.segs i).pc with
    | .collect_cardrefs commit was_null => collect_cardrefs_to_nursery s i commit was_null val
    | .collect_modified commit todo => collect_modified_old_objects s i commit todo val
    | .collect_oldrefs commit => collect_oldrefs_to_nursery NB_SEGMENTS s i commit val
    | _ => .blocked
  | .push_overflow_objects i =>
    guarded ((s.segs i).pc = .collected) <|
    push_overflow_objects_from_privatized_pages NB_SEGMENTS s i
  | .restart_all i =>
    guarded ((s.segs i).pc = .pushed) <| .next (s.set i { s.segs i with pc := .running })
  | .commit_transaction i =>
    guarded ((s.segs i).pc = .pushed) <| commit_transaction NB_SEGMENTS s i
  | .abort_data_structures i =>
    guarded ((s.segs i).pc = .running ∨ (s.segs i).pc = .collected ∨ (s.segs i).pc = .pushed) <|
    .next (abort_data_structures s i)
  | .reset_modified i =>
    match (s.segs i).pc with
    | .resetting todo => reset_modified_from_other_segments s i todo
    | _ => .blocked
  | .hashtable_entry i obj l val =>
    guarded ((s.segs i).pc = .running ∧ s.kind obj = .free ∧ is_fresh s obj l
      ∧ val obj = GCFLAG_WRITE_BARRIER
      ∧ val (obj + 1) = 0 ∧ val (obj + 2) = 0 ∧ val (obj + 3) = 0) <|
    .next { s.allocate obj l .old with
      mem := write_all_segments NB_SEGMENTS s.mem (in_range obj l.size) val }
  | .set_weakref_in_all_segments _ obj val =>
    guarded (s.kind obj ≠ .free ∧ (s.layout obj).size = 16) <|
    .next { s with mem := write_all_segments NB_SEGMENTS s.mem (in_range (obj + 8) 8) val }
  | .major_collection visited =>
    guarded (may_collect NB_SEGMENTS s visited) <|
    match major_collection_now NB_SEGMENTS s visited with
    | none => .fault
    | some s => .next s

def step (NB_SEGMENTS : ℕ) (s : St) (a : Act) : Outcome St :=
  guarded (∀ i ∈ a.segment_num, i ∈ segment_nums NB_SEGMENTS) (step_segment NB_SEGMENTS s a)

def Segment.initial : Segment where
  pc := .running
  modified_old_objects := []
  objects_pointing_to_nursery := none
  old_objects_with_cards := []
  large_overflow_objects := []
  young_outside_nursery := []
  written := []

/-- After the setup: there are prebuilt objects in shared pages, and nothing
else. -/
structure Initial (s : St) : Prop where
  pages : ∀ p i, s.mem.pages_privatized p i = false
  locks : ∀ x, s.write_locks x = 0
  prebuilt : ∀ o, s.kind o = .free ∨ s.kind o = .old
  apart : ∀ o o', s.kind o ≠ .free → s.kind o' ≠ .free → o < o' → o + (s.layout o).size ≤ o'
  flags : ∀ o, s.kind o = .old → s.mem.shared o &&& (GCFLAG_WRITE_BARRIER ||| GCFLAG_CARDS_SET)
    = GCFLAG_WRITE_BARRIER
  segs : ∀ i, s.segs i = Segment.initial

/-! ## Flags -/

section

theorem UInt8.forall_iff {P : UInt8 → Prop} : (∀ b, P b) ↔ ∀ n : Fin 256, P (UInt8.ofNat n) := by
  constructor
  · exact fun h n => h _
  · intro h b
    have hb := h ⟨b.toNat, b.toNat_lt⟩
    rwa [UInt8.ofNat_toNat] at hb

/-- The flags of an object that is neither written to nor has marked cards. -/
def clean_flags (b : UInt8) : Prop :=
  b &&& (GCFLAG_WRITE_BARRIER ||| GCFLAG_CARDS_SET) = GCFLAG_WRITE_BARRIER

theorem clean_flags_iff (b : UInt8) : clean_flags b ↔
    (b &&& GCFLAG_WRITE_BARRIER != 0) = true ∧ (b &&& GCFLAG_CARDS_SET != 0) = false := by
  unfold clean_flags
  revert b
  rw [UInt8.forall_iff]
  decide +kernel

/-- The other flags. -/
def other_flags (b : UInt8) : UInt8 := b &&& ~~~(GCFLAG_WRITE_BARRIER ||| GCFLAG_CARDS_SET)

theorem or_other_flags (b : UInt8) :
    other_flags b ||| (b &&& (GCFLAG_WRITE_BARRIER ||| GCFLAG_CARDS_SET)) = b := by
  unfold other_flags
  revert b
  rw [UInt8.forall_iff]
  decide +kernel

/-- Two clean objects with the same other flags have the same flags. -/
theorem clean_flags_ext {a b : UInt8} (ha : clean_flags a) (hb : clean_flags b)
    (h : other_flags a = other_flags b) : a = b := by
  rw [← or_other_flags a, ← or_other_flags b, h]
  unfold clean_flags at ha hb
  rw [ha, hb]

/-- What the updates of the flags do to them. -/
theorem or_write_barrier (b : UInt8) : other_flags (b ||| GCFLAG_WRITE_BARRIER) = other_flags b
    ∧ (b ||| GCFLAG_WRITE_BARRIER) &&& GCFLAG_WRITE_BARRIER ≠ 0
    ∧ (b ||| GCFLAG_WRITE_BARRIER) &&& GCFLAG_CARDS_SET = b &&& GCFLAG_CARDS_SET := by
  unfold other_flags
  revert b
  rw [UInt8.forall_iff]
  decide +kernel

theorem or_cards_set (b : UInt8) : other_flags (b ||| GCFLAG_CARDS_SET) = other_flags b
    ∧ (b ||| GCFLAG_CARDS_SET) &&& GCFLAG_WRITE_BARRIER = b &&& GCFLAG_WRITE_BARRIER
    ∧ (b ||| GCFLAG_CARDS_SET) &&& GCFLAG_CARDS_SET ≠ 0 := by
  unfold other_flags
  revert b
  rw [UInt8.forall_iff]
  decide +kernel

theorem clear_cards_set (b : UInt8) : other_flags (b &&& ~~~GCFLAG_CARDS_SET) = other_flags b
    ∧ (b &&& ~~~GCFLAG_CARDS_SET) &&& GCFLAG_WRITE_BARRIER = b &&& GCFLAG_WRITE_BARRIER
    ∧ (b &&& ~~~GCFLAG_CARDS_SET) &&& GCFLAG_CARDS_SET = 0 := by
  unfold other_flags
  revert b
  rw [UInt8.forall_iff]
  decide +kernel

theorem clear_both_flags (b : UInt8) :
    other_flags (b &&& ~~~(GCFLAG_WRITE_BARRIER ||| GCFLAG_CARDS_SET)) = other_flags b
    ∧ (b &&& ~~~(GCFLAG_WRITE_BARRIER ||| GCFLAG_CARDS_SET)) &&& GCFLAG_CARDS_SET = 0 := by
  unfold other_flags
  revert b
  rw [UInt8.forall_iff]
  decide +kernel

end

end Stmgc.C7
