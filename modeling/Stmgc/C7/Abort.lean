/-
What a transaction keeps besides the objects outside the nursery, and how
`abort_data_structures_from_segment_num` gets rid of it.

The machine of `Transaction` has the pages, the `write_locks` and the lists of
written objects. Here each of its steps comes with what it does to the rest:
the nursery, the read markers, the finalizers, the overflow number and the
shadow stack. What only the machine of `Transaction` sees is left to it
([`Act.is_plain`]).

`abort_data_structures_from_segment_num` is one step here. It runs with the
mutex, on behalf of the segment itself or of one that aborts it, and the
aborted segment is at a safe point. Which segment runs it matters: it is in the
`gs` register, and `(obj)->stm_flags` is what that segment sees.
-/
import Stmgc.C7.ShadowStack
import Stmgc.C7.Coherence
import Stmgc.C7.Sync

namespace Stmgc.C7

open Stmgc.Lib

/-! ## Data -/

/-- A young object: in the nursery, by the number of its first word, or in
`young_outside_nursery`. Or any other object outside the nursery. -/
inductive ObjRef where
  | nursery (word : ℕ)
  | outside (obj : ℕ)
  deriving DecidableEq

/-- The other fields of `struct stm_priv_segment_info_s`. The words of the
nursery are counted from `_stm_nursery_start`, and the read markers are those
of the objects outside the nursery. The last three fields are not in the
source: whether `abort_data_structures_from_segment_num` has run, so that the
thread can only abort; and what the shadow stack and the list
`old_objects_with_light_finalizers` were when the transaction began, without
the objects that a major collection has freed since. -/
structure Priv where
  transaction_state : TransactionState
  nursery : ℕ → ℕ
  nursery_current : ℕ
  read_markers : ℕ → ℕ
  transaction_read_version : ℕ
  modified_old_objects_markers : List (ℕ × ℕ)
  young_weakrefs : List ℕ
  finalizers : Option (finalizers_s ℕ)
  young_objects_with_light_finalizers : List ObjRef
  old_objects_with_light_finalizers : List ℕ
  overflow_number : ℕ
  overflow_number_has_been_used : Bool
  running_thread : ThreadLocal
  shadowstack_at_start_of_transaction : ℕ
  threadlocal_at_start_of_transaction : ℕ
  aborted : Bool
  entries_at_start : ℕ → ℕ
  light_finalizers_at_start : List ℕ

structure Sys where
  st : St
  priv : ℕ → Priv
  highest_overflow_number : ℕ

def Sys.set (s : Sys) (i : ℕ) (p : Priv) : Sys :=
  { s with priv := Function.update s.priv i p }

/-- The size of the nursery, in words: `NB_NURSERY_PAGES` is 1024. -/
def NURSERY_WORDS : ℕ := 1024 * 4096 / 8

def GCWORD_MOVED : ℕ := 2 ^ 64 - 1

/-- The four bytes of `stm_flags`. -/
def stm_flags (byte : ℕ → UInt8) (obj : ℕ) : ℕ :=
  (byte obj).toNat + 256 * (byte (obj + 1)).toNat + 256 ^ 2 * (byte (obj + 2)).toNat
    + 256 ^ 3 * (byte (obj + 3)).toNat

/-- `IS_OVERFLOW_OBJ`, with the flags that segment `gs` sees. -/
def flags_say_overflow (m : Memory) (gs overflow_number obj : ℕ) : Bool :=
  stm_flags (read m gs) obj / GCFLAG_OVERFLOW_NUMBER_bit0 * GCFLAG_OVERFLOW_NUMBER_bit0
    == overflow_number

/-! ## Transactions -/

/-- The increment of `transaction_read_version` in `_stm_start_transaction`,
with `reset_transaction_read_version`. -/
def next_read_version (p : Priv) : Priv :=
  let old_rv := p.transaction_read_version
  if old_rv = 0xff then { p with read_markers := fun _ => 0, transaction_read_version := 1 }
  else { p with transaction_read_version := old_rv + 1 }

/-- `stm_start_transaction`, up to the return of `rewind_jmp_setjmp`. -/
def start_transaction (p : Priv) (tl : ThreadLocal) : Option Priv := do
  let t ← rewind_jmp_setjmp tl
  return next_read_version { p with
    transaction_state := .ts_regular
    running_thread := t
    shadowstack_at_start_of_transaction := t.shadowstack
    threadlocal_at_start_of_transaction := t.thread_local_obj
    entries_at_start := t.entries
    light_finalizers_at_start := p.old_objects_with_light_finalizers }

/-- `_stm_become_inevitable`. -/
def become_inevitable (p : Priv) : Priv :=
  { p with
    transaction_state := .ts_inevitable
    running_thread := rewind_jmp_forget p.running_thread }

def stm_read (p : Priv) (obj : ℕ) : Priv :=
  { p with
    read_markers :=
      Function.update p.read_markers (get_write_lock_idx obj) p.transaction_read_version }

/-- The read marker and the marker list in `write_slowpath_common`; there may
be no marker to record. -/
def record_write (p : Priv) (obj : ℕ) (marker : Option (ℕ × ℕ)) : Priv :=
  let p := stm_read p obj
  { p with modified_old_objects_markers := p.modified_old_objects_markers ++ marker.toList }

/-- `stm_write` comes to the `stm_read` of `write_slowpath_common`. -/
def stm_write_reads (st : St) (i obj : ℕ) : Bool :=
  has_flag st.mem i obj GCFLAG_WRITE_BARRIER && !decide (IS_OVERFLOW_OBJ st i obj)

/-- The same for `stm_write_card`. -/
def stm_write_card_reads (st : St) (i obj : ℕ) : Bool :=
  stm_write_reads st i obj && !has_flag st.mem i obj GCFLAG_CARDS_SET

/-- `stm_enable_light_finalizer`. -/
def stm_enable_light_finalizer (p : Priv) (young_outside_nursery : List ℕ) (obj : ObjRef) : Priv :=
  match obj with
  | .nursery _ => { p with
      young_objects_with_light_finalizers :=
        list_append p.young_objects_with_light_finalizers obj }
  | .outside o =>
    if o ∈ young_outside_nursery then { p with
      young_objects_with_light_finalizers :=
        list_append p.young_objects_with_light_finalizers obj }
    else { p with
      old_objects_with_light_finalizers := list_append p.old_objects_with_light_finalizers o }

/-- `_is_from_same_transaction`. -/
def is_from_same_transaction (m : Memory) (i : ℕ) (p : Priv) (young_outside_nursery : List ℕ) :
    ObjRef → Bool
  | .nursery w => decide (w < p.nursery_current)
  | .outside o => decide (o ∈ young_outside_nursery) || flags_say_overflow m i p.overflow_number o

/-- `stm_allocate_with_finalizer`, after the allocation. -/
def enable_finalizer (p : Priv) (obj : ℕ) : Priv :=
  let f := p.finalizers.getD ⟨[], 0, none, none⟩
  { p with
    finalizers := some { f with
      objects_with_finalizers := list_append f.objects_with_finalizers obj } }

/-! ## Collections -/

/-- `throw_away_nursery`. -/
def Priv.throw_away_nursery (p : Priv) (young_outside_nursery : List ℕ) : Priv :=
  let nursery_used := min p.nursery_current NURSERY_WORDS
  { p with
    nursery := fun w => if w < nursery_used then 0 else p.nursery w
    nursery_current := 0
    read_markers := fun x =>
      if x ∈ young_outside_nursery.map get_write_lock_idx then 0 else p.read_markers x }

/-- `minor_trace_if_young` moves an object of the nursery. -/
def forward (p : Priv) (word obj : ℕ) : Priv :=
  { p with
    nursery := Function.update (Function.update p.nursery word GCWORD_MOVED) (word + 1) obj }

/-- An object of `young_objects_with_light_finalizers` at the end of a minor
collection. One outside the nursery never has `GCWORD_MOVED`, so it dies. -/
def moved_location (nursery : ℕ → ℕ) : ObjRef → Option ℕ
  | .nursery w => if nursery w = GCWORD_MOVED then some (nursery (w + 1)) else none
  | .outside _ => none

/-- `deal_with_young_objects_with_finalizers`. -/
def deal_with_young_objects_with_finalizers (p : Priv) : Priv :=
  { p with
    old_objects_with_light_finalizers := p.old_objects_with_light_finalizers
      ++ p.young_objects_with_light_finalizers.filterMap (moved_location p.nursery)
    young_objects_with_light_finalizers := [] }

/-- The end of `_do_minor_collection`. -/
def end_minor_collection (p : Priv) (young_outside_nursery : List ℕ) : Priv :=
  (deal_with_young_objects_with_finalizers { p with young_weakrefs := [] }).throw_away_nursery
    young_outside_nursery

/-- There is nothing left in `objects_pointing_to_nursery`. -/
def is_traced (seg : Segment) : Bool :=
  match seg.pc with
  | .collect_oldrefs _ => (seg.objects_pointing_to_nursery.getD []).isEmpty
  | _ => false

/-- `minor_collect_will_commit_now`. -/
def Pc.will_commit_now : Pc → Bool
  | .collect_cardrefs commit _ | .collect_modified commit _ | .collect_oldrefs commit => commit
  | _ => false

/-- The overflow number that `minor_trace_if_young` puts into an object. -/
def new_overflow_number (s : Sys) (i : ℕ) : ℕ :=
  if (s.st.segs i).pc.will_commit_now then 0 else (s.priv i).overflow_number

/-- `mark_visited_test` after the marking. -/
def is_visited (st : St) (visited : List ℕ) (obj : ℕ) : Bool :=
  mark_visited st.write_locks visited (get_write_lock_idx obj) == WL_VISITED

/-- What a major collection does to the lists of
`deal_with_old_objects_with_finalizers`, and to the read markers of the objects
that it frees. -/
def end_major_collection (st : St) (visited : List ℕ) (p : Priv) : Priv :=
  { p with
    old_objects_with_light_finalizers :=
      p.old_objects_with_light_finalizers.filter (is_visited st visited)
    light_finalizers_at_start := p.light_finalizers_at_start.filter (is_visited st visited)
    read_markers := fun x => if (List.range' (x * 16) 16).any
        (fun o => decide (st.kind o ≠ .free) && !is_visited st visited o) then 0
      else p.read_markers x }

/-! ## Commit and abort -/

/-- The end of `stm_commit_transaction`. -/
def end_commit (s : Sys) (i : ℕ) : Option Sys := do
  let p := s.priv i
  let p := { p with
    transaction_state := .ts_none
    modified_old_objects_markers := []
    finalizers := none
    running_thread := rewind_jmp_forget p.running_thread }
  if p.overflow_number_has_been_used then
    let highest := s.highest_overflow_number + GCFLAG_OVERFLOW_NUMBER_bit0
    c_assert (highest ≠ 2 ^ 32 - GCFLAG_OVERFLOW_NUMBER_bit0)
    return { s.set i { p with
        overflow_number := highest
        overflow_number_has_been_used := false } with
      highest_overflow_number := highest }
  else return s.set i p

/-- The loop of `abort_finalizers` over `old_objects_with_light_finalizers`,
from its end. Once an object was forgotten, the `gs` register is the one of the
aborted segment `n`. -/
def forget_light_finalizers (m : Memory) (n overflow_number : ℕ) : ℕ → List ℕ → List ℕ
  | _, [] => []
  | gs, obj :: lst =>
    if flags_say_overflow m gs overflow_number obj then
      forget_light_finalizers m n overflow_number n lst
    else obj :: lst

/-- The `gs` register at the start of that loop: calling the finalizer of a
young object has set it. -/
def gs_after_young (p : Priv) (gs n : ℕ) : ℕ :=
  if p.young_objects_with_light_finalizers = [] then gs else n

/-- `abort_finalizers`. -/
def abort_finalizers (m : Memory) (gs n : ℕ) (p : Priv) : Priv :=
  { p with
    finalizers := none
    young_objects_with_light_finalizers := []
    old_objects_with_light_finalizers :=
      (forget_light_finalizers m n p.overflow_number (gs_after_young p gs n)
        p.old_objects_with_light_finalizers.reverse).reverse }

/-- All of `reset_modified_from_other_segments`. -/
def reset_all_modified (n : ℕ) : ℕ → St → Outcome St
  | 0, st => reset_modified_from_other_segments st n 0
  | todo + 1, st =>
    (reset_modified_from_other_segments st n (todo + 1)).bind (reset_all_modified n todo)

def abort_data_structures_from_segment_num (s : Sys) (gs n : ℕ) : Outcome Sys :=
  let p := s.priv n
  match p.transaction_state with
  | .ts_regular =>
    let p' := (abort_finalizers s.st.mem gs n p).throw_away_nursery
      (s.st.segs n).young_outside_nursery
    (reset_all_modified n (s.st.segs n).modified_old_objects.length
      (abort_data_structures s.st n)).bind fun st =>
    (Outcome.ofOption (restore_shadowstack p.running_thread)).bind fun tl =>
    if tl.shadowstack = p.shadowstack_at_start_of_transaction then
      .next ({ s with st := st }.set n { p' with
        modified_old_objects_markers := []
        young_weakrefs := []
        running_thread := { tl with thread_local_obj := p.threadlocal_at_start_of_transaction }
        aborted := true })
    else .fault
  | _ => .fault -- stm_fatalerror

/-! ## The machine -/

inductive SysAct where
  /-- a step that does nothing here -/
  | plain (a : Act)
  | start_transaction (i : ℕ) (tl : ThreadLocal)
  | become_inevitable (i : ℕ)
  | stm_read (i obj : ℕ)
  | stm_write (i obj : ℕ) (marker : Option (ℕ × ℕ))
  | stm_write_card (i obj index : ℕ) (marker : Option (ℕ × ℕ))
  | stm_allocate (i size : ℕ)
  /-- the program advances its `nursery_current` -/
  | advance_nursery (i size : ℕ)
  | stm_allocate_weakref (i : ℕ)
  | stm_allocate_with_finalizer (i obj : ℕ) (l : Layout)
  | stm_enable_light_finalizer (i : ℕ) (obj : ObjRef)
  | nursery_write (i word val : ℕ)
  | stack (i : ℕ) (a : StackAct)
  /-- finalizers are called, or moved to `run_finalizers` -/
  | execute_finalizers (i : ℕ) (finalizers : Option (finalizers_s ℕ))
  | minor_collection (i : ℕ) (commit : Bool)
  /-- `collect_roots_in_nursery` on one entry, and `thread_local_obj` -/
  | trace_root (i k x y : ℕ)
  | trace_markers (i : ℕ) (markers : List (ℕ × ℕ))
  | evacuate (i word obj : ℕ) (l : Layout) (val : ℕ → UInt8)
  | trace_young_outside_nursery (i obj : ℕ)
  | collect (i : ℕ) (val : ℕ → UInt8)
  | commit_transaction (i : ℕ)
  | abort_data_structures (gs n : ℕ)
  /-- `_finish_transaction` of an abort -/
  | finish_abort (n : ℕ)
  | major_collection (visited : List ℕ)

def Act.is_plain : Act → Bool
  | .largemalloc_write .. | .allocate_external .. | .page_privatize .. | .write_slowpath_owned ..
  | .store .. | .push_overflow_objects .. | .restart_all .. | .hashtable_entry ..
  | .set_weakref_in_all_segments .. => true
  | _ => false

/-- The segment runs a transaction. -/
def Priv.is_active (p : Priv) : Bool :=
  decide (p.transaction_state ≠ .ts_none) && !p.aborted

/-- A step of the machine of `Transaction`, with what it does to segment `i`. -/
def Sys.lift (NB_SEGMENTS : ℕ) (s : Sys) (a : Act) (i : ℕ) (p : Priv) : Outcome Sys :=
  (step NB_SEGMENTS s.st a).bind fun st => .next ({ s with st := st }.set i p)

def sys_step (NB_SEGMENTS : ℕ) (s : Sys) : SysAct → Outcome Sys
  | .plain a =>
    guarded (a.is_plain = true ∧ ∀ i ∈ a.segment_num, (s.priv i).is_active = true) <|
    (step NB_SEGMENTS s.st a).bind fun st => .next { s with st := st }
  | .start_transaction i tl =>
    guarded (i ∈ segment_nums NB_SEGMENTS ∧ (s.priv i).transaction_state = .ts_none
      ∧ frames_ordered tl) <|
    (Outcome.ofOption (start_transaction (s.priv i) tl)).bind fun p => .next (s.set i p)
  | .become_inevitable i =>
    guarded ((s.priv i).is_active = true ∧ (s.st.segs i).pc = .running
      ∧ (s.priv i).transaction_state = .ts_regular) <|
    .next (s.set i (become_inevitable (s.priv i)))
  | .stm_read i obj =>
    guarded ((s.priv i).is_active = true) <| .next (s.set i (stm_read (s.priv i) obj))
  | .stm_write i obj marker =>
    guarded ((s.priv i).is_active = true) <|
    s.lift NB_SEGMENTS (.stm_write i obj) i
      (if stm_write_reads s.st i obj then record_write (s.priv i) obj marker else s.priv i)
  | .stm_write_card i obj index marker =>
    guarded ((s.priv i).is_active = true) <|
    s.lift NB_SEGMENTS (.stm_write_card i obj index) i
      (if stm_write_card_reads s.st i obj then record_write (s.priv i) obj marker else s.priv i)
  | .stm_allocate i size =>
    let p := s.priv i
    guarded (p.is_active = true ∧ p.nursery_current + size ≤ NURSERY_WORDS) <|
    .next (s.set i { p with nursery_current := p.nursery_current + size })
  | .advance_nursery i size =>
    let p := s.priv i
    guarded (p.is_active = true) <|
    .next (s.set i { p with nursery_current := p.nursery_current + size })
  | .stm_allocate_weakref i =>
    let p := s.priv i
    guarded (p.is_active = true ∧ p.nursery_current + 2 ≤ NURSERY_WORDS) <|
    .next (s.set i { p with
      nursery_current := p.nursery_current + 2
      young_weakrefs := list_append p.young_weakrefs p.nursery_current })
  | .stm_allocate_with_finalizer i obj l =>
    guarded ((s.priv i).is_active = true) <|
    s.lift NB_SEGMENTS (.allocate_external i obj l) i (enable_finalizer (s.priv i) obj)
  | .stm_enable_light_finalizer i obj =>
    guarded ((s.priv i).is_active = true ∧ is_from_same_transaction s.st.mem i (s.priv i)
      (s.st.segs i).young_outside_nursery obj = true) <|
    .next (s.set i
      (stm_enable_light_finalizer (s.priv i) (s.st.segs i).young_outside_nursery obj))
  | .nursery_write i word val =>
    let p := s.priv i
    guarded (p.is_active = true ∧ word < p.nursery_current ∧ word < NURSERY_WORDS) <|
    .next (s.set i { p with nursery := Function.update p.nursery word val })
  | .stack i a =>
    let p := s.priv i
    guarded (p.is_active = true ∧ (p.transaction_state = .ts_regular → a = .leaveframe →
      p.running_thread.head.length ≠ 1)) <|
    (Outcome.ofOption (stack_step p.running_thread a)).bind fun tl =>
    .next (s.set i { p with running_thread := tl })
  | .execute_finalizers i finalizers =>
    guarded ((s.priv i).is_active = true) <|
    .next (s.set i { s.priv i with finalizers := finalizers })
  | .minor_collection i commit =>
    let p := s.priv i
    guarded (p.is_active = true) <|
    s.lift NB_SEGMENTS (.minor_collection i commit) i { p with
      overflow_number_has_been_used := !commit || p.overflow_number_has_been_used }
  | .trace_root i k x y =>
    let p := s.priv i
    let tl := p.running_thread
    guarded (p.is_active = true ∧ tl.moved_off_ssbase ≤ k ∧ k < tl.shadowstack) <|
    .next (s.set i { p with
      running_thread := { tl with
        entries := Function.update tl.entries k x
        thread_local_obj := y } })
  | .trace_markers i markers =>
    guarded ((s.priv i).is_active = true) <|
    .next (s.set i { s.priv i with modified_old_objects_markers := markers })
  | .evacuate i word obj l val =>
    let p := s.priv i
    guarded (p.is_active = true ∧ word + 1 < p.nursery_current ∧ word + 1 < NURSERY_WORDS
      ∧ p.nursery word ≠ GCWORD_MOVED ∧ stm_flags val obj < GCFLAG_OVERFLOW_NUMBER_bit0) <|
    s.lift NB_SEGMENTS
      (.evacuate i obj l (or_overflow_number (new_overflow_number s i) obj val)) i
      (forward p word obj)
  | .trace_young_outside_nursery i obj =>
    guarded ((s.priv i).is_active = true
      ∧ stm_flags (read s.st.mem i) obj < GCFLAG_OVERFLOW_NUMBER_bit0) <|
    s.lift NB_SEGMENTS (.trace_young_outside_nursery i obj (new_overflow_number s i)) i (s.priv i)
  | .collect i val =>
    let p := s.priv i
    guarded (p.is_active = true) <|
    s.lift NB_SEGMENTS (.collect i val) i
      (if is_traced (s.st.segs i) then
        end_minor_collection p (s.st.segs i).young_outside_nursery
      else p)
  | .commit_transaction i =>
    guarded ((s.priv i).is_active = true) <|
    (step NB_SEGMENTS s.st (.commit_transaction i)).bind fun st =>
    Outcome.ofOption (end_commit { s with st := st } i)
  | .abort_data_structures gs n =>
    guarded (gs ∈ segment_nums NB_SEGMENTS ∧ n ∈ segment_nums NB_SEGMENTS
      ∧ (s.priv n).transaction_state ≠ .ts_none ∧ ((s.st.segs n).pc = .running
        ∨ (s.st.segs n).pc = .collected ∨ (s.st.segs n).pc = .pushed)) <|
    abort_data_structures_from_segment_num s gs n
  | .finish_abort n =>
    guarded ((s.priv n).aborted = true) <|
    .next (s.set n { s.priv n with transaction_state := .ts_none, aborted := false })
  | .major_collection visited =>
    guarded (∀ i ∈ segment_nums NB_SEGMENTS, (s.priv i).nursery_current = 0) <|
    (step NB_SEGMENTS s.st (.major_collection visited)).bind fun st =>
    .next { s with
      st := st
      priv := fun i => end_major_collection s.st visited (s.priv i) }

/-- After the setup. -/
structure Priv.Initial (p : Priv) (i : ℕ) : Prop where
  transaction_state : p.transaction_state = .ts_none
  nursery : ∀ w, p.nursery w = 0
  nursery_current : p.nursery_current = 0
  read_markers : ∀ x, p.read_markers x = 0
  transaction_read_version : p.transaction_read_version = 0xff
  overflow_number : p.overflow_number = GCFLAG_OVERFLOW_NUMBER_bit0 * i
  lists : p.old_objects_with_light_finalizers = [] ∧ p.light_finalizers_at_start = []
  aborted : p.aborted = false

structure Sys.Initial (NB_SEGMENTS : ℕ) (s : Sys) : Prop where
  st : C7.Initial s.st
  priv : ∀ i, (s.priv i).Initial i
  highest_overflow_number :
    s.highest_overflow_number = GCFLAG_OVERFLOW_NUMBER_bit0 * NB_SEGMENTS

end Stmgc.C7
