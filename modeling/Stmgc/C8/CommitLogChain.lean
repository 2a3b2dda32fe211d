/-
`c8/stm/core.c`: the commit log as a chain of entries in memory.

The machine of `CommitLog` counts the entries that a segment has applied. Here
`last_commit_log_entry` is the address of an entry, `next` fields are words in
memory that are compared and swapped, and the entry of a commit is allocated
before `stm_validate` and freed if that aborts. [`Refines`] relates the two:
the entries of the log are those of the chain that starts at
`commit_log_root`, in order. Every step of this machine is a step of the other
one, and so what holds of its runs holds of the chain.
-/
import Stmgc.C8.CommitLog

namespace Stmgc.C8.Chain

open Stmgc.Lib

/-! ## Data -/

/-- The word in a `next` field. -/
inductive NextPtr where
  | null
  | inevitable
  | entry (addr : ℕ)
  deriving DecidableEq

/-- Its address is not one that `malloc` returns. -/
def commit_log_root : ℕ := 0

/-- `cl` is the local variable of `stm_validate`, and `new` the one of
`_validate_and_add_to_commit_log`. -/
structure PSt (Seg Obj Data : Type) where
  next : ℕ → NextPtr
  entry : ℕ → Option (stm_commit_log_entry_s Seg Obj Data)
  allocated : Obj → Bool
  segs : Seg → Segment Obj Data
  cl : Seg → ℕ
  new : Seg → ℕ

section Functions

variable {Seg Obj Data : Type} [DecidableEq Seg] [DecidableEq Obj]

def PSt.set (st : PSt Seg Obj Data) (s : Seg) (seg : Segment Obj Data) : PSt Seg Obj Data :=
  { st with segs := Function.update st.segs s seg }

/-- `__sync_bool_compare_and_swap`, with the memory after it if it succeeds. -/
def compare_and_swap (next : ℕ → NextPtr) (ptr : ℕ) (old new : NextPtr) : Option (ℕ → NextPtr) :=
  if next ptr = old then some (Function.update next ptr new) else none

/-- `free (free_if_abort)`. -/
def free_if_abort (st : PSt Seg Obj Data) (s : Seg) (caller : Caller Obj) :
    ℕ → Option (stm_commit_log_entry_s Seg Obj Data) :=
  match caller with
  | .commit _ => Function.update st.entry (st.new s) none
  | _ => st.entry

/-- `_create_commit_log_entry`, at the address that `malloc` returns. -/
def create_commit_log_entry (st : PSt Seg Obj Data) (s : Seg) (addr : ℕ) (written : List Obj) :
    PSt Seg Obj Data :=
  { st with
    next := Function.update st.next addr .null
    entry := Function.update st.entry addr
      (some { segment_num := s, written := written, contents := (st.segs s).page })
    new := Function.update st.new s addr }

/-- After the compare-and-swap of a commit. The entry records what it commits,
which is not in the source. -/
def attach_entry (st : PSt Seg Obj Data) (s : Seg) (next : ℕ → NextPtr) : PSt Seg Obj Data :=
  { st.set s { st.segs s with pc := .attached } with
    next := next
    entry := Function.update st.entry (st.new s)
      ((st.entry (st.new s)).map fun cl => { cl with contents := (st.segs s).page }) }

def continue_step (st : PSt Seg Obj Data) (s : Seg) : Outcome (PSt Seg Obj Data) :=
  let seg := st.segs s
  match seg.pc with
  | .no_transaction => .blocked
  | .running => .blocked
  | .write_slowpath obj bk_obj => .next (st.set s (register_backup seg obj bk_obj))
  | .validate caller needs_abort =>
    match st.next seg.last_commit_log_entry with
    | .entry addr =>
      match st.entry addr with
      | some cl => .next { st.set s { seg with pc := .update caller needs_abort cl.written } with
          cl := Function.update st.cl s addr }
      | none => .fault
    | .inevitable => .next st
    | .null =>
      if needs_abort then .next { st.set s { seg with pc := .abort } with
        entry := free_if_abort st s caller }
      else .next (st.set s { seg with pc := caller.return_pc })
  | .update caller needs_abort [] =>
    .next (st.set s { seg with
      last_commit_log_entry := st.cl s
      pc := .validate caller needs_abort })
  | .update caller needs_abort (obj :: written) =>
    match st.entry (st.cl s) with
    | some cl =>
      match update_obj_from (st.segs cl.segment_num) obj with
      | some realobj => .next (st.set s { seg with
          page := Function.update seg.page obj realobj
          pc := .was_read caller needs_abort obj written })
      | none => .fault
    | none => .fault
  | .was_read caller needs_abort obj written =>
    .next (st.set s (check_was_read seg caller needs_abort obj written))
  | .attach_commit written =>
    if seg.transaction_state = .TS_INEVITABLE then
      match compare_and_swap st.next seg.last_commit_log_entry .inevitable
          (.entry (st.new s)) with
      | some next => .next (attach_entry st s next)
      | none => .fault
    else
      match compare_and_swap st.next seg.last_commit_log_entry .null (.entry (st.new s)) with
      | some next => .next (attach_entry st s next)
      | none => .next (st.set s { seg with pc := .validate (.commit written) false })
  | .attach_inevitable =>
    match compare_and_swap st.next seg.last_commit_log_entry .null .inevitable with
    | some next => .next { st.set s { seg with
          transaction_state := .TS_INEVITABLE
          pc := .running } with
        next := next }
    | none => .next (st.set s { seg with pc := .validate .inevitable false })
  | .attached => .next (st.set s (clear_modified seg))
  | .finish => .next (st.set s (finish_transaction seg))
  | .abort =>
    if seg.transaction_state = .TS_REGULAR then .next (st.set s (abort_transaction seg))
    else .fault

/-- One step. `addr` is what `malloc` returns to a commit. -/
def step (st : PSt Seg Obj Data) : Act Seg Obj Data × ℕ → Outcome (PSt Seg Obj Data)
  | (.start_transaction s, _) =>
    match (st.segs s).pc with
    | .no_transaction =>
      if (st.segs s).modified_old_objects.keys = []
          ∧ (st.segs s).objects_pointing_to_nursery = [] then
        .next (st.set s (start_transaction (st.segs s)))
      else .fault
    | _ => .blocked
  | (.read s obj, _) =>
    match (st.segs s).pc with
    | .running => .next (st.set s (stm_read (st.segs s) obj))
    | _ => .blocked
  | (.write s obj, _) =>
    match (st.segs s).pc with
    | .running =>
      if st.allocated obj then
        if ((st.segs s).page obj).write_barrier then
          .next (st.set s (stm_write_slowpath (st.segs s) obj))
        else .next st
      else .blocked
    | _ => .blocked
  | (.store s obj data, _) =>
    match (st.segs s).pc with
    | .running =>
      if ((st.segs s).page obj).write_barrier then .blocked
      else .next (st.set s (store (st.segs s) obj data))
    | _ => .blocked
  | (.allocate_old obj data, _) =>
    if st.allocated obj then .blocked
    else .next { st with
      allocated := Function.update st.allocated obj true
      segs := fun s => { st.segs s with
        page := Function.update (st.segs s).page obj { write_barrier := true, data := data } } }
  | (.minor_collection s trace, _) =>
    match (st.segs s).pc with
    | .running => .next (st.set s (minor_collection trace (st.segs s)))
    | _ => .blocked
  | (.validate s, _) =>
    match (st.segs s).pc with
    | .running =>
      if (st.segs s).transaction_state = .TS_INEVITABLE then
        if st.next (st.segs s).last_commit_log_entry = .inevitable then .next st else .fault
      else .next (st.set s { st.segs s with pc := .validate .running false })
    | _ => .blocked
  | (.become_inevitable s, _) =>
    match (st.segs s).pc with
    | .running =>
      if (st.segs s).transaction_state = .TS_REGULAR then
        .next (st.set s { st.segs s with pc := .validate .inevitable false })
      else .next st
    | _ => .blocked
  | (.commit_transaction s trace, addr) =>
    match (st.segs s).pc with
    | .running =>
      guarded ((st.entry addr).isNone = true ∧ addr ≠ commit_log_root) <|
      .next (create_commit_log_entry (st.set s (commit_transaction trace (st.segs s))) s addr
        (commit_transaction trace (st.segs s)).modified_old_objects.keys)
    | _ => .blocked
  | (.abort_transaction s, _) =>
    match (st.segs s).pc with
    | .running => .next (st.set s { st.segs s with pc := .abort })
    | .validate _ _ =>
      if st.next (st.segs s).last_commit_log_entry = .inevitable then
        .next (st.set s { st.segs s with pc := .abort })
      else .blocked
    | _ => .blocked
  | (.continue s, _) => continue_step st s

/-- `stm_setup`. -/
def Initial (st : PSt Seg Obj Data) : Prop :=
  (∀ a, st.next a = .null) ∧ (∀ a, st.entry a = none) ∧
    ∃ data : Obj → Data, ∀ s,
      st.segs s =
        { pc := .no_transaction
          transaction_state := .TS_NONE
          transaction_read_version := 0xff
          read_marker := fun _ => 0
          page := fun obj => { write_barrier := true, data := data obj }
          modified_old_objects := ∅
          objects_pointing_to_nursery := []
          last_commit_log_entry := commit_log_root }

end Functions

end Stmgc.C8.Chain
