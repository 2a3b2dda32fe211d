/-
`c8/stm/core.c`: transactions that synchronise through the commit log.

The log is a list that only grows at its end: `last_commit_log_entry` of a
segment is the number of entries that segment has applied (0 is
`commit_log_root`), and the `next` field of the last entry is either `NULL` or
the mark `-1` of an inevitable transaction.

One step of a thread is one compare-and-swap on a `next` field, one read of
such a field, one critical section under the `modified_objs_lock` of one
segment, or code that only its own segment can see. Between two steps any
other thread may run. The pages of a segment are seen through the object they
hold; sharing them between segments is invisible at this level, and a new old
object lies in pages of its own that all segments share.
-/
import Stmgc.Lib.Machine
import Mathlib.Data.List.AList

namespace Stmgc.C8

open Stmgc.Lib

/-! ## Data -/

/-- An object as it stands in some pages, or in a backup copy:
`GCFLAG_WRITE_BARRIER` and everything else. -/
structure object_s (Data : Type) where
  write_barrier : Bool
  data : Data
  deriving DecidableEq

/-- `stm_flags |= GCFLAG_WRITE_BARRIER`. -/
def object_s.set_write_barrier {Data : Type} (obj : object_s Data) : object_s Data :=
  { obj with write_barrier := true }

@[simp] theorem object_s.write_barrier_set {Data : Type} (obj : object_s Data) :
    obj.set_write_barrier.write_barrier = true := rfl

theorem object_s.set_write_barrier_self {Data : Type} {obj : object_s Data}
    (h : obj.write_barrier = true) : obj.set_write_barrier = obj := by
  rw [set_write_barrier, ← h]

theorem object_s.set_write_barrier_congr {Data : Type} {a b : object_s Data}
    (h : a.data = b.data) : a.set_write_barrier = b.set_write_barrier := by
  unfold set_write_barrier
  rw [h]

/-- `struct stm_commit_log_entry_s`, less its `next`. The last field is not in
the source: it records what the entry commits, that is what the pages of its
segment held when it was attached. -/
structure stm_commit_log_entry_s (Seg Obj Data : Type) where
  segment_num : Seg
  written : List Obj
  contents : Obj → object_s Data

/-- The value of a `next` field. -/
inductive Next (Seg Obj Data : Type) where
  | null
  | inevitable
  | entry (cl : stm_commit_log_entry_s Seg Obj Data)

inductive transaction_state where
  | TS_NONE
  | TS_REGULAR
  | TS_INEVITABLE
  deriving DecidableEq

/-- Who called `stm_validate`, and so what happens when it returns. A commit
has already collected its `written` array. -/
inductive Caller (Obj : Type) where
  | start
  | running
  | commit (written : List Obj)
  | inevitable

/-- Where the thread of a segment stands. -/
inductive Pc (Obj Data : Type) where
  | no_transaction
  | running
  /-- in `_stm_write_slowpath`, before the backup copy is registered -/
  | write_slowpath (obj : Obj) (bk_obj : object_s Data)
  /-- in `stm_validate`, at the head of its outer loop -/
  | validate (caller : Caller Obj) (needs_abort : Bool)
  /-- in its inner loop, before `_update_obj_from` for the rest of `written` -/
  | update (caller : Caller Obj) (needs_abort : Bool) (written : List Obj)
  /-- after `_update_obj_from (.., obj)`, before `_stm_was_read (obj)` -/
  | was_read (caller : Caller Obj) (needs_abort : Bool) (obj : Obj) (written : List Obj)
  /-- before the compare-and-swap of a commit, or of turning inevitable -/
  | attach_commit (written : List Obj)
  | attach_inevitable
  /-- the entry is in the log, but `modified_old_objects` is not yet cleared -/
  | attached
  | finish
  | abort

/-- `struct stm_priv_segment_info_s` with the pages and read markers of the
segment. -/
structure Segment (Obj Data : Type) where
  pc : Pc Obj Data
  transaction_state : transaction_state
  transaction_read_version : UInt8
  read_marker : Obj → UInt8
  page : Obj → object_s Data
  modified_old_objects : AList (fun _ : Obj => object_s Data)
  objects_pointing_to_nursery : List Obj
  last_commit_log_entry : ℕ

structure St (Seg Obj Data : Type) where
  log : List (stm_commit_log_entry_s Seg Obj Data)
  /-- the `next` field of the last entry is `-1` -/
  tail_inevitable : Bool
  /-- the old objects that exist -/
  allocated : Obj → Bool
  segs : Seg → Segment Obj Data

section Functions

variable {Seg Obj Data : Type} [DecidableEq Seg] [DecidableEq Obj]

/-- The `next` field of the entry with number `cl`. -/
def next (st : St Seg Obj Data) (cl : ℕ) : Next Seg Obj Data :=
  match st.log[cl]? with
  | some e => .entry e
  | none => if st.tail_inevitable then .inevitable else .null

/-- Replace the state of one segment. -/
def St.set (st : St Seg Obj Data) (s : Seg) (seg : Segment Obj Data) : St Seg Obj Data :=
  { st with segs := Function.update st.segs s seg }

/-! ## Barriers -/

def stm_read (seg : Segment Obj Data) (obj : Obj) : Segment Obj Data :=
  { seg with
    read_marker := Function.update seg.read_marker obj seg.transaction_read_version }

def stm_was_read (seg : Segment Obj Data) (obj : Obj) : Bool :=
  seg.read_marker obj == seg.transaction_read_version

/-- `_stm_write_slowpath` up to its last critical section. -/
def stm_write_slowpath (seg : Segment Obj Data) (obj : Obj) : Segment Obj Data :=
  let bk_obj := seg.page obj
  { stm_read seg obj with
    page := Function.update seg.page obj { bk_obj with write_barrier := false }
    objects_pointing_to_nursery := seg.objects_pointing_to_nursery ++ [obj]
    pc := .write_slowpath obj bk_obj }

/-- The last critical section of `_stm_write_slowpath`: a second backup copy of
the same object is not registered. -/
def register_backup (seg : Segment Obj Data) (obj : Obj) (bk_obj : object_s Data) :
    Segment Obj Data :=
  { seg with
    modified_old_objects :=
      if obj ∈ seg.modified_old_objects then seg.modified_old_objects
      else seg.modified_old_objects.insert obj bk_obj
    pc := .running }

/-- A store into an object whose write barrier flag is clear. -/
def store (seg : Segment Obj Data) (obj : Obj) (data : Data) : Segment Obj Data :=
  { seg with page := Function.update seg.page obj { write_barrier := false, data := data } }

/-! ## Collections -/

/-- `_collect_now`: the references of `obj` into the nursery are replaced,
which is some function `trace` of its contents, and it gets its flag back. -/
def collect_now (trace : Data → Data) (page : Obj → object_s Data) (obj : Obj) :
    Obj → object_s Data :=
  Function.update page obj { write_barrier := true, data := trace (page obj).data }

/-- `_do_minor_collection`, as far as old objects go. -/
def minor_collection (trace : Data → Data) (seg : Segment Obj Data) : Segment Obj Data :=
  { seg with
    page := seg.objects_pointing_to_nursery.foldl (collect_now trace) seg.page
    objects_pointing_to_nursery := [] }

/-! ## Validation -/

/-- `_update_obj_from`: the version of `obj` in another segment, from its
backup copy or else from its pages. `none` is the failure of the assertion on
the flag of the backup copy. -/
def update_obj_from (src : Segment Obj Data) (obj : Obj) : Option (object_s Data) :=
  match src.modified_old_objects.lookup obj with
  | some bk_obj => if bk_obj.write_barrier then some bk_obj else none
  | none => some (src.page obj).set_write_barrier

/-- The part of `stm_validate` after `_update_obj_from`: an object that was
read forces an abort, and leaves the set of modified objects so that the abort
does not overwrite it. -/
def check_was_read (seg : Segment Obj Data) (caller : Caller Obj) (needs_abort : Bool)
    (obj : Obj) (written : List Obj) : Segment Obj Data :=
  if stm_was_read seg obj then
    { seg with
      modified_old_objects := seg.modified_old_objects.erase obj
      pc := .update caller true written }
  else { seg with pc := .update caller needs_abort written }

/-- What the caller of `stm_validate` does next when it returns. -/
def Caller.return_pc : Caller Obj → Pc Obj Data
  | .start => .running
  | .running => .running
  | .commit written => .attach_commit written
  | .inevitable => .attach_inevitable

/-! ## Start, commit, abort -/

/-- `_stm_start_transaction`: a new read version, and all read markers reset
when the versions wrap around. -/
def start_transaction (seg : Segment Obj Data) : Segment Obj Data :=
  let old_rv := seg.transaction_read_version
  { seg with
    transaction_state := .TS_REGULAR
    transaction_read_version := if old_rv = 0xff then 1 else old_rv + 1
    read_marker := if old_rv = 0xff then fun _ => 0 else seg.read_marker
    pc := .validate .start false }

/-- `stm_commit_transaction` up to `stm_validate` (which an inevitable
transaction skips), with the `written` array of `_create_commit_log_entry`. -/
def commit_transaction (trace : Data → Data) (seg : Segment Obj Data) : Segment Obj Data :=
  let seg := minor_collection trace seg
  let written := seg.modified_old_objects.keys
  { seg with
    pc := if seg.transaction_state = .TS_INEVITABLE then .attach_commit written
      else .validate (.commit written) false }

/-- The critical section of `stm_commit_transaction`. -/
def clear_modified (seg : Segment Obj Data) : Segment Obj Data :=
  { seg with
    page := fun obj =>
      if obj ∈ seg.modified_old_objects then (seg.page obj).set_write_barrier
      else seg.page obj
    modified_old_objects := ∅
    pc := .finish }

/-- `_finish_transaction`. -/
def finish_transaction (seg : Segment Obj Data) : Segment Obj Data :=
  { seg with
    transaction_state := .TS_NONE
    objects_pointing_to_nursery := []
    pc := .no_transaction }

/-- `reset_modified_from_backup_copies`. -/
def reset_modified_from_backup_copies (seg : Segment Obj Data) : Segment Obj Data :=
  { seg with
    page := fun obj => (seg.modified_old_objects.lookup obj).getD (seg.page obj)
    modified_old_objects := ∅ }

/-- `stm_abort_transaction`. -/
def abort_transaction (seg : Segment Obj Data) : Segment Obj Data :=
  finish_transaction (reset_modified_from_backup_copies seg)

/-! ## Steps -/

/-- What a thread, or the program on it, can do next. -/
inductive Act (Seg Obj Data : Type) where
  | start_transaction (s : Seg)
  | read (s : Seg) (obj : Obj)
  | write (s : Seg) (obj : Obj)
  | store (s : Seg) (obj : Obj) (data : Data)
  /-- a new old object, by a minor collection or `_stm_allocate_old` -/
  | allocate_old (obj : Obj) (data : Data)
  | minor_collection (s : Seg) (trace : Data → Data)
  | validate (s : Seg)
  | become_inevitable (s : Seg)
  | commit_transaction (s : Seg) (trace : Data → Data)
  /-- `stm_abort_transaction`, also from a safe point -/
  | abort_transaction (s : Seg)
  /-- the next step inside one of the functions above -/
  | continue (s : Seg)

/-- The compare-and-swap that attaches the entry of a commit, in place of
`NULL` or of the mark of this inevitable transaction. -/
def attach_entry (st : St Seg Obj Data) (s : Seg) (written : List Obj) : St Seg Obj Data :=
  let cl : stm_commit_log_entry_s Seg Obj Data :=
    { segment_num := s, written := written, contents := (st.segs s).page }
  { st with
    log := st.log ++ [cl]
    tail_inevitable := false
    segs := Function.update st.segs s { st.segs s with pc := .attached } }

/-- The next step of a thread that is inside one of the functions of the
library. -/
def continue_step (st : St Seg Obj Data) (s : Seg) : Outcome (St Seg Obj Data) :=
  let seg := st.segs s
  let last := seg.last_commit_log_entry
  match seg.pc with
  | .no_transaction => .blocked
  | .running => .blocked
  | .write_slowpath obj bk_obj => .next (st.set s (register_backup seg obj bk_obj))
  | .validate caller needs_abort =>
    match next st last with
    | .entry cl => .next (st.set s { seg with pc := .update caller needs_abort cl.written })
    -- wait at a safe point, and look again
    | .inevitable => .next st
    | .null =>
      if needs_abort then .next (st.set s { seg with pc := .abort })
      else .next (st.set s { seg with pc := caller.return_pc })
  | .update caller needs_abort [] =>
    .next (st.set s { seg with
      last_commit_log_entry := last + 1
      pc := .validate caller needs_abort })
  | .update caller needs_abort (obj :: written) =>
    match next st last with
    | .entry cl =>
      match update_obj_from (st.segs cl.segment_num) obj with
      | some realobj => .next (st.set s { seg with
          page := Function.update seg.page obj realobj
          pc := .was_read caller needs_abort obj written })
      | none => .fault
    | _ => .fault
  | .was_read caller needs_abort obj written =>
    .next (st.set s (check_was_read seg caller needs_abort obj written))
  | .attach_commit written =>
    if seg.transaction_state = .TS_INEVITABLE then
      match next st last with
      | .inevitable => .next (attach_entry st s written)
      | _ => .fault
    else
      match next st last with
      | .null => .next (attach_entry st s written)
      | _ => .next (st.set s { seg with pc := .validate (.commit written) false })
  | .attach_inevitable =>
    match next st last with
    | .null => .next (({ st with tail_inevitable := true }).set s { seg with
        transaction_state := .TS_INEVITABLE
        pc := .running })
    | _ => .next (st.set s { seg with pc := .validate .inevitable false })
  | .attached => .next (st.set s (clear_modified seg))
  | .finish => .next (st.set s (finish_transaction seg))
  | .abort =>
    if seg.transaction_state = .TS_REGULAR then .next (st.set s (abort_transaction seg))
    else .fault

/-- One step. The program only acts in a running transaction, on objects that
exist, and stores only where the write barrier has been passed. -/
def step (st : St Seg Obj Data) : Act Seg Obj Data → Outcome (St Seg Obj Data)
  | .start_transaction s =>
    match (st.segs s).pc with
    | .no_transaction =>
      if (st.segs s).modified_old_objects.keys = []
          ∧ (st.segs s).objects_pointing_to_nursery = [] then
        .next (st.set s (start_transaction (st.segs s)))
      else .fault
    | _ => .blocked
  | .read s obj =>
    match (st.segs s).pc with
    | .running => .next (st.set s (stm_read (st.segs s) obj))
    | _ => .blocked
  | .write s obj =>
    match (st.segs s).pc with
    | .running =>
      if st.allocated obj then
        if ((st.segs s).page obj).write_barrier then
          .next (st.set s (stm_write_slowpath (st.segs s) obj))
        else .next st
      else .blocked
    | _ => .blocked
  | .store s obj data =>
    match (st.segs s).pc with
    | .running =>
      if ((st.segs s).page obj).write_barrier then .blocked
      else .next (st.set s (store (st.segs s) obj data))
    | _ => .blocked
  | .allocate_old obj data =>
    if st.allocated obj then .blocked
    else .next { st with
      allocated := Function.update st.allocated obj true
      segs := fun s => { st.segs s with
        page := Function.update (st.segs s).page obj { write_barrier := true, data := data } } }
  | .minor_collection s trace =>
    match (st.segs s).pc with
    | .running => .next (st.set s (minor_collection trace (st.segs s)))
    | _ => .blocked
  | .validate s =>
    match (st.segs s).pc with
    | .running =>
      if (st.segs s).transaction_state = .TS_INEVITABLE then
        match next st (st.segs s).last_commit_log_entry with
        | .inevitable => .next st
        | _ => .fault
      else .next (st.set s { st.segs s with pc := .validate .running false })
    | _ => .blocked
  | .become_inevitable s =>
    match (st.segs s).pc with
    | .running =>
      if (st.segs s).transaction_state = .TS_REGULAR then
        .next (st.set s { st.segs s with pc := .validate .inevitable false })
      else .next st
    | _ => .blocked
  | .commit_transaction s trace =>
    match (st.segs s).pc with
    | .running => .next (st.set s (commit_transaction trace (st.segs s)))
    | _ => .blocked
  | .abort_transaction s =>
    match (st.segs s).pc with
    | .running => .next (st.set s { st.segs s with pc := .abort })
    | .validate _ _ =>
      -- the safe point inside the loop, while an inevitable transaction runs
      match next st (st.segs s).last_commit_log_entry with
      | .inevitable => .next (st.set s { st.segs s with pc := .abort })
      | _ => .blocked
    | _ => .blocked
  | .continue s => continue_step st s

/-- `stm_setup`, with the prebuilt objects that exist from the start: their
pages are shared, so all segments see one version, with its flag set. -/
def Initial (st : St Seg Obj Data) : Prop :=
  st.log = [] ∧ st.tail_inevitable = false ∧
    ∃ data : Obj → Data, ∀ s,
      st.segs s =
        { pc := .no_transaction
          transaction_state := .TS_NONE
          transaction_read_version := 0xff
          read_marker := fun _ => 0
          page := fun obj => { write_barrier := true, data := data obj }
          modified_old_objects := ∅
          objects_pointing_to_nursery := []
          last_commit_log_entry := 0 }

end Functions

end Stmgc.C8
