/-
The synchronization of the segments: `sync.c`, `contention.c`, and what
`core.c` does with the mutex.

A thread is known by the segment it runs its transaction in. What it does
between acquiring the mutex and releasing it is one step, so every C function
below is `Exec` code over the state of all segments. It ends where the thread
releases the mutex: at the end of the function that acquired it, in a
`cond_wait`, or in `abort_with_mutex`. [`CondWait`] says what such a thread has
left to do when it wakes up. Only where `synchronize_all_threads` returns, and
at `goto restart`, does a step end with the mutex held.

An object is known by `obj >> 4`, the index of its read marker and of its
write lock.
-/
import Stmgc.Lib.Exec
import Stmgc.C7.Pages

namespace Stmgc.C7

open Stmgc.Lib

inductive TransactionState where
  | ts_none
  | ts_regular
  | ts_inevitable
  deriving DecidableEq

namespace Sync

/-! ## Data -/

/-- `nursery_end` is either `NURSERY_END` or one of `NSE_SIGxxx`. -/
inductive NurseryEnd where
  | nursery_end
  | nse_sigabort
  | nse_sigpause
  | nse_sigcommitsoon
  deriving DecidableEq

inductive SafePoint where
  | sp_no_transaction
  | sp_running
  | sp_wait_for_c_request_removed
  | sp_wait_for_c_at_safe_point
  | sp_wait_for_c_transaction_done
  deriving DecidableEq

/-- The condition variables a thread in a transaction waits on. -/
inductive CondType where
  | c_at_safe_point
  | c_request_removed
  | c_aborted
  | c_transaction_done
  deriving DecidableEq

/-- `STM_CONTENTION_xxx`. -/
inductive Contention where
  | write_write
  | write_read
  | inevitable
  deriving DecidableEq

/-- The callers of `synchronize_all_threads`. -/
inductive SyncCaller where
  | commit_transaction
  | major_collection
  | become_globally_unique_transaction
  deriving DecidableEq

/-- The callers of `enter_safe_point_if_requested`. -/
inductive SafePointCaller where
  | start_transaction
  | collectable_safe_point
  | become_inevitable
  | synchronize_all_threads (caller : SyncCaller)
  deriving DecidableEq

/-- The four `cond_wait`s of a thread in a transaction, with the caller that
goes on after it. -/
inductive CondWait where
  | request_removed (caller : SafePointCaller)
  | at_safe_point (caller : SyncCaller)
  | transaction_done (other : ℕ) (kind : Contention)
  | aborted (other : ℕ) (kind : Contention)
  deriving DecidableEq

def CondWait.cond_type : CondWait → CondType
  | .request_removed _ => .c_request_removed
  | .at_safe_point _ => .c_at_safe_point
  | .transaction_done .. => .c_transaction_done
  | .aborted .. => .c_aborted

/-- Where the thread of a segment is. `starting` is between `s_mutex_unlock`
and the increment of the read version in `_stm_start_transaction`; `blocked` is
inside `cond_wait`, and `woken` is too, but only the mutex is still missing;
`synchronized` is where `synchronize_all_threads` has returned to its caller. -/
inductive Pc where
  | no_transaction
  | starting
  | running
  | blocked (wait : CondWait)
  | woken (wait : CondWait)
  | has_mutex
  | synchronized (caller : SyncCaller)
  | restart_inevitable
  deriving DecidableEq

structure Segment where
  pc : Pc
  nursery_end : NurseryEnd
  safe_point : SafePoint
  transaction_state : TransactionState
  running_thread : Option ℕ
  unique_start_time : ℕ
  signalled_to_commit_soon : Bool
  signal_when_done : Bool
  transaction_read_version : ℕ
  read_markers : ℕ → ℕ
  modified_old_objects : List ℕ

/-- All segments, and the globals. `mutex` is the segment whose thread holds
the mutex. -/
@[ext] structure State where
  segs : ℕ → Segment
  mutex : Option ℕ
  in_use1 : ℕ → Bool
  write_locks : ℕ → ℕ
  pause_signalled : Bool
  globally_unique_transaction : Bool
  safe_points_requested : Bool
  global_start_time : ℕ

def State.set (s : State) (i : ℕ) (f : Segment → Segment) : State :=
  { s with segs := Function.update s.segs i (f (s.segs i)) }

/-- An assignment to fields of segment `i`. -/
def set_segment (i : ℕ) (f : Segment → Segment) : Exec State Unit := Exec.modify (·.set i f)

/-! ## The mutex and the condition variables -/

def s_mutex_lock (i : ℕ) : Exec State Unit :=
  Exec.modify fun s => { s.set i ({ · with pc := .has_mutex }) with mutex := some i }

/-- A thread that has kept the mutex goes on. -/
def go_on (i : ℕ) : Exec State Unit := set_segment i ({ · with pc := .has_mutex })

/-- `s_mutex_unlock`, by a thread that goes on at `pc`. -/
def s_mutex_unlock (i : ℕ) (pc : Pc) : Exec State Unit :=
  Exec.modify fun s => { s.set i ({ · with pc := pc }) with mutex := none }

/-- `cond_wait`, up to where the thread sleeps. -/
def cond_wait {α : Type} (i : ℕ) (wait : CondWait) : Exec State α := do
  Exec.modify fun s => { s.set i ({ · with pc := .blocked wait }) with mutex := none }
  Exec.leave

/-- A thread that waits on `c` is no longer blocked. -/
def Segment.wake (c : CondType) (seg : Segment) : Segment :=
  match seg.pc with
  | .blocked wait => if wait.cond_type = c then { seg with pc := .woken wait } else seg
  | _ => seg

/-- `cond_broadcast`; and `cond_signal`, of a condition variable on which one
thread waits at most. -/
def cond_broadcast (c : CondType) : Exec State Unit :=
  Exec.modify fun s => { s with segs := fun k => (s.segs k).wake c }

/-! ## Aborts -/

/-- `is_abort`. -/
def NurseryEnd.is_abort : NurseryEnd → Bool
  | .nse_sigabort => true
  | _ => false

def must_abort (s : State) (i : ℕ) : Bool := (s.segs i).nursery_end.is_abort

def is_aborting_now (s : State) (other : ℕ) : Bool :=
  (s.segs other).nursery_end.is_abort && decide ((s.segs other).safe_point ≠ .sp_running)

/-- The write locks of a list of objects, all of which segment `n` owns, are
released. -/
def clear_write_locks (n : ℕ) (objs : List ℕ) : Exec State Unit :=
  Exec.forEach objs fun lock_idx => do
    let s ← Exec.get
    Exec.assert (s.write_locks lock_idx = n)
    Exec.modify fun s => { s with write_locks := Function.update s.write_locks lock_idx 0 }

def reset_modified_from_other_segments (n : ℕ) : Exec State Unit := do
  let s ← Exec.get
  clear_write_locks n (s.segs n).modified_old_objects
  set_segment n ({ · with modified_old_objects := [] })

/-- The assertion is the two calls of `stm_fatalerror`. -/
def abort_data_structures_from_segment_num (n : ℕ) : Exec State Unit := do
  let s ← Exec.get
  Exec.assert ((s.segs n).transaction_state = .ts_regular)
  reset_modified_from_other_segments n

def release_thread_segment (i : ℕ) : Exec State Unit := do
  let s ← Exec.get
  Exec.ifThen ((s.segs i).signal_when_done = true) do
    cond_broadcast .c_transaction_done
    set_segment i ({ · with signal_when_done := false })
  Exec.assert ((s.segs i).running_thread.isSome = true)
  set_segment i ({ · with running_thread := none })
  Exec.assert (s.in_use1 i = true)
  Exec.modify fun s => { s with in_use1 := Function.update s.in_use1 i false }

def _finish_transaction (i : ℕ) : Exec State Unit := do
  set_segment i ({ · with
    safe_point := .sp_no_transaction
    transaction_state := .ts_none })
  release_thread_segment i

def abort_with_mutex {α : Type} (i : ℕ) : Exec State α := do
  abort_data_structures_from_segment_num i
  let s ← Exec.get
  Exec.ifThen (must_abort s i = true) <|
    set_segment i ({ · with
      nursery_end := if s.pause_signalled then .nse_sigpause else .nursery_end })
  _finish_transaction i
  cond_broadcast .c_aborted
  s_mutex_unlock i .no_transaction
  Exec.leave

/-! ## Safe points -/

def signal_other_to_commit_soon (other : ℕ) : Exec State Unit := do
  let s ← Exec.get
  Exec.ifThen ((s.segs other).signalled_to_commit_soon = false
      ∧ (s.segs other).nursery_end.is_abort = false ∧ s.pause_signalled = false) <|
    set_segment other ({ · with nursery_end := .nse_sigcommitsoon })

/-- The body of the `while (1)` of `enter_safe_point_if_requested`. It leaves
the loop, or ends in the `cond_wait`. -/
def enter_safe_point_turn (i : ℕ) (caller : SafePointCaller) : Exec State Unit := do
  let s ← Exec.get
  if must_abort s i then abort_with_mutex i
  else if (s.segs i).nursery_end = .nursery_end then pure ()
  else do
    Exec.ifThen ((s.segs i).nursery_end = .nse_sigcommitsoon) <|
      set_segment i ({ · with
        signalled_to_commit_soon := true
        nursery_end := if s.pause_signalled then .nse_sigpause else .nursery_end })
    if (s.segs i).nursery_end = .nse_sigcommitsoon ∧ s.pause_signalled = false then pure ()
    else do
      let s ← Exec.get
      Exec.assert ((s.segs i).nursery_end = .nse_sigpause)
      Exec.assert (s.pause_signalled = true)
      cond_broadcast .c_at_safe_point
      set_segment i ({ · with safe_point := .sp_wait_for_c_request_removed })
      cond_wait i (.request_removed caller)

def enter_safe_point_if_requested (i : ℕ) (caller : SafePointCaller) : Exec State Unit := do
  let s ← Exec.get
  if (s.segs i).nursery_end = .nursery_end then pure ()
  else do
    Exec.assert ((s.segs i).running_thread.isSome = true)
    Exec.assert (s.mutex = some i)
    enter_safe_point_turn i caller

section Synchronize

variable (NB_SEGMENTS : ℕ)

def signal_everybody_to_pause_running (i : ℕ) : Exec State Unit := do
  let s ← Exec.get
  Exec.assert (s.safe_points_requested = false)
  Exec.modify ({ · with safe_points_requested := true })
  Exec.assert (s.mutex = some i)
  Exec.forEach (segment_nums NB_SEGMENTS) fun k => do
    let s ← Exec.get
    Exec.ifThen ((s.segs k).nursery_end = .nursery_end) <|
      set_segment k ({ · with nursery_end := .nse_sigpause })
  Exec.assert (s.pause_signalled = false)
  Exec.modify ({ · with pause_signalled := true })

def count_other_threads_sp_running (i : ℕ) : Exec State ℕ := do
  let s ← Exec.get
  Exec.forEach (segment_nums NB_SEGMENTS) fun k =>
    Exec.ifThen (k ≠ i ∧ (s.segs k).safe_point = .sp_running) <|
      Exec.assert ((s.segs k).nursery_end ≠ .nursery_end)
  pure ((segment_nums NB_SEGMENTS).countP
    fun k => decide (k ≠ i ∧ (s.segs k).safe_point = .sp_running))

def remove_requests_for_safe_point : Exec State Unit := do
  let s ← Exec.get
  Exec.assert (s.pause_signalled = true)
  Exec.modify ({ · with pause_signalled := false })
  Exec.assert (s.safe_points_requested = true)
  Exec.modify ({ · with safe_points_requested := false })
  Exec.forEach (segment_nums NB_SEGMENTS) fun k => do
    let s ← Exec.get
    Exec.assert ((s.segs k).nursery_end ≠ .nursery_end)
    Exec.ifThen ((s.segs k).nursery_end = .nse_sigpause) <|
      set_segment k ({ · with nursery_end := .nursery_end })
  cond_broadcast .c_request_removed

/-- `synchronize_all_threads` returns to its caller, with the mutex. -/
def synchronized (i : ℕ) (caller : SyncCaller) : Exec State Unit := do
  set_segment i ({ · with pc := .synchronized caller })
  Exec.leave

/-- The `while` loop of `synchronize_all_threads` from one test to the next
`cond_wait`, and what follows it. -/
def synchronize_turn (i : ℕ) (caller : SyncCaller) : Exec State Unit := do
  let n ← count_other_threads_sp_running NB_SEGMENTS i
  if n > 0 then do
    set_segment i ({ · with safe_point := .sp_wait_for_c_at_safe_point })
    cond_wait i (.at_safe_point caller)
  else if caller = .become_globally_unique_transaction then do
    Exec.modify ({ · with globally_unique_transaction := true })
    let s ← Exec.get
    Exec.assert ((s.segs i).nursery_end = .nse_sigpause)
    set_segment i ({ · with nursery_end := .nursery_end })
    synchronized i caller
  else do
    remove_requests_for_safe_point NB_SEGMENTS
    synchronized i caller

/-- `synchronize_all_threads` after `enter_safe_point_if_requested`. -/
def synchronize_after_safe_point (i : ℕ) (caller : SyncCaller) : Exec State Unit := do
  let s ← Exec.get
  if s.globally_unique_transaction then do
    let n ← count_other_threads_sp_running NB_SEGMENTS i
    Exec.assert (n = 0)
    synchronized i caller
  else do
    signal_everybody_to_pause_running NB_SEGMENTS i
    synchronize_turn NB_SEGMENTS i caller

def synchronize_all_threads (i : ℕ) (caller : SyncCaller) : Exec State Unit := do
  enter_safe_point_if_requested i (.synchronize_all_threads caller)
  synchronize_after_safe_point NB_SEGMENTS i caller

def committed_globally_unique_transaction (i : ℕ) : Exec State Unit := do
  let s ← Exec.get
  Exec.assert (s.globally_unique_transaction = true)
  Exec.assert ((s.segs i).nursery_end = .nursery_end)
  set_segment i ({ · with nursery_end := .nse_sigpause })
  Exec.modify ({ · with globally_unique_transaction := false })
  remove_requests_for_safe_point NB_SEGMENTS

end Synchronize

/-! ## Contention -/

structure contmgr_s where
  abort_other : Bool
  try_sleep : Bool

def cm_pause_if_younger (s : State) (i other : ℕ) : contmgr_s :=
  if (s.segs i).unique_start_time ≥ (s.segs other).unique_start_time then
    { try_sleep := true, abort_other := false }
  else { try_sleep := false, abort_other := true }

/-- The choices that are found incorrect due to `TS_INEVITABLE` or
`is_abort()` are fixed. -/
def fix_choices (s : State) (i other : ℕ) (cm : contmgr_s) : contmgr_s :=
  if (s.segs other).nursery_end.is_abort then { abort_other := true, try_sleep := false }
  else if (s.segs i).transaction_state = .ts_inevitable then
    { abort_other := true, try_sleep := false }
  else if (s.segs other).transaction_state = .ts_inevitable then { cm with abort_other := false }
  else cm

/-- The end of `contention_management`, once the other thread has got its
`NSE_SIGABORT`. -/
def kill_other_thread (i other : ℕ) : Exec State Unit := do
  let s ← Exec.get
  Exec.ifThen (is_aborting_now s other = true) <|
    abort_data_structures_from_segment_num other
  Exec.ifThen ((s.segs i).signalled_to_commit_soon = false) <|
    set_segment i ({ · with signalled_to_commit_soon := true })

/-- `contention_management`. Where it returns, it has not waited:
`others_may_have_run` is false. -/
def contention_management (i other : ℕ) (kind : Contention) : Exec State Unit := do
  let s ← Exec.get
  Exec.assert (s.mutex = some i)
  Exec.assert (other ≠ i)
  if must_abort s i then abort_with_mutex i
  else do
    Exec.ifThen ((s.segs other).nursery_end.is_abort = false
        ∧ (s.segs i).transaction_state = .ts_inevitable) <|
      Exec.assert ((s.segs other).transaction_state ≠ .ts_inevitable)
    let cm := fix_choices s i other (cm_pause_if_younger s i other)
    if cm.try_sleep = true ∧ kind ≠ .write_write
        ∧ (s.segs other).safe_point ≠ .sp_wait_for_c_transaction_done then do
      set_segment other ({ · with signal_when_done := true })
      signal_other_to_commit_soon other
      cond_broadcast .c_at_safe_point
      set_segment i ({ · with safe_point := .sp_wait_for_c_transaction_done })
      cond_wait i (.transaction_done other kind)
    else if cm.abort_other = false then do
      signal_other_to_commit_soon other
      abort_with_mutex i
    else do
      set_segment other ({ · with nursery_end := .nse_sigabort })
      let s ← Exec.get
      match (s.segs other).safe_point with
      | .sp_running =>
        if must_abort s i then abort_with_mutex i
        else cond_wait i (.aborted other kind)
      | .sp_wait_for_c_request_removed => cond_broadcast .c_request_removed
      | .sp_wait_for_c_at_safe_point => cond_broadcast .c_at_safe_point
      | .sp_wait_for_c_transaction_done => cond_broadcast .c_transaction_done
      | .sp_no_transaction => Exec.assert False
      kill_other_thread i other

/-- `write_write_contention_management`. -/
def write_write_contention_management (i lock_idx : ℕ) : Exec State Unit := do
  s_mutex_lock i
  let s ← Exec.get
  let prev_owner := s.write_locks lock_idx
  Exec.ifThen (prev_owner ≠ 0 ∧ prev_owner ≠ i) <|
    contention_management i prev_owner .write_write
  s_mutex_unlock i .running

/-! ## Transactions -/

section Transactions

variable (NB_SEGMENTS : ℕ)

/-- `wait_for_end_of_inevitable_transaction`, up to `goto restart`, and what
follows it in `_stm_become_inevitable`. -/
def wait_for_end_of_inevitable_transaction (i : ℕ) : Exec State Unit := do
  let s ← Exec.get
  match (segment_nums NB_SEGMENTS).find?
    fun k => decide ((s.segs k).transaction_state = .ts_inevitable) with
  | some other =>
    contention_management i other .inevitable
    set_segment i ({ · with pc := .restart_inevitable })
  | none =>
    set_segment i ({ · with transaction_state := .ts_inevitable })
    s_mutex_unlock i .running

/-- `_stm_become_inevitable` after `enter_safe_point_if_requested`. -/
def become_inevitable_after_safe_point (i : ℕ) : Exec State Unit := do
  let s ← Exec.get
  if (s.segs i).transaction_state = .ts_regular then
    wait_for_end_of_inevitable_transaction NB_SEGMENTS i
  else do
    Exec.assert ((s.segs i).transaction_state = .ts_inevitable)
    s_mutex_unlock i .running

/-- What the callers of `enter_safe_point_if_requested` do after it. -/
def after_safe_point (i : ℕ) : SafePointCaller → Exec State Unit
  | .start_transaction => s_mutex_unlock i .starting
  | .collectable_safe_point => s_mutex_unlock i .running
  | .become_inevitable => become_inevitable_after_safe_point NB_SEGMENTS i
  | .synchronize_all_threads caller => synchronize_after_safe_point NB_SEGMENTS i caller

/-- A function that acquires the mutex and then calls
`enter_safe_point_if_requested`. -/
def lock_and_enter_safe_point (i : ℕ) (caller : SafePointCaller) : Exec State Unit := do
  s_mutex_lock i
  enter_safe_point_if_requested i caller
  after_safe_point NB_SEGMENTS i caller

/-- `_stm_start_transaction`, up to `s_mutex_unlock`, in the segment that
`acquire_thread_segment` has found free. -/
def _stm_start_transaction (tl i : ℕ) : Exec State Unit := do
  let s ← Exec.get
  Exec.assert ((s.segs i).running_thread = none)
  Exec.assert ((s.segs i).safe_point = .sp_no_transaction)
  Exec.assert ((s.segs i).transaction_state = .ts_none)
  Exec.modify fun s => { s.set i ({ · with
      pc := .has_mutex
      running_thread := some tl
      unique_start_time := s.global_start_time
      signalled_to_commit_soon := false
      safe_point := .sp_running
      transaction_state := .ts_regular }) with
    mutex := some i
    in_use1 := Function.update s.in_use1 i true
    global_start_time := s.global_start_time + 1 }
  enter_safe_point_if_requested i .start_transaction
  after_safe_point NB_SEGMENTS i .start_transaction

/-- The end of `_stm_start_transaction`, with `reset_transaction_read_version`. -/
def next_read_version (seg : Segment) : Segment :=
  let old_rv := seg.transaction_read_version
  if old_rv = 0xff then
    { seg with pc := .running, read_markers := fun _ => 0, transaction_read_version := 1 }
  else { seg with pc := .running, transaction_read_version := old_rv + 1 }

def stm_read (seg : Segment) (lock_idx : ℕ) : Segment :=
  { seg with
    read_markers := Function.update seg.read_markers lock_idx seg.transaction_read_version }

/-- `write_slowpath_common` on an old object that is not locked by another
segment. -/
def write_slowpath_common (s : State) (i lock_idx : ℕ) : State :=
  let s := s.set i (stm_read · lock_idx)
  if s.write_locks lock_idx = 0 then
    { s.set i (fun seg => { seg with
        modified_old_objects := seg.modified_old_objects ++ [lock_idx] }) with
      write_locks := Function.update s.write_locks lock_idx i }
  else s

def was_read_remote (remote : Segment) (lock_idx : ℕ) : Bool :=
  remote.read_markers lock_idx == remote.transaction_read_version

/-- `detect_write_read_conflicts` over the segments of a list. -/
def detect_write_read_conflicts (i : ℕ) (segments : List ℕ) : Exec State Unit :=
  Exec.forEach segments fun k => do
    let s ← Exec.get
    Exec.ifThen (k ≠ i ∧ (s.segs k).transaction_state ≠ .ts_none ∧ is_aborting_now s k = false
        ∧ ∃ item ∈ (s.segs i).modified_old_objects, was_read_remote (s.segs k) item = true) <|
      contention_management i k .write_read

def push_modified_to_other_segments (i : ℕ) : Exec State Unit := do
  let s ← Exec.get
  clear_write_locks i (s.segs i).modified_old_objects
  set_segment i ({ · with modified_old_objects := [] })

/-- `stm_commit_transaction`, from `detect_write_read_conflicts` on. -/
def commit_transaction_synchronized (i : ℕ) : Exec State Unit := do
  go_on i
  detect_write_read_conflicts i (segment_nums NB_SEGMENTS)
  let s ← Exec.get
  Exec.assert ((s.segs i).nursery_end = .nursery_end)
  push_modified_to_other_segments i
  Exec.ifThen ((s.segs i).transaction_state = .ts_inevitable
      ∧ s.globally_unique_transaction = true) <|
    committed_globally_unique_transaction NB_SEGMENTS i
  _finish_transaction i
  s_mutex_unlock i .no_transaction

/-- What the callers of `contention_management` do after it has waited. -/
def after_contention (i : ℕ) : Contention → Exec State Unit
  | .write_write => s_mutex_unlock i .running
  | .write_read => synchronize_all_threads NB_SEGMENTS i .commit_transaction
  | .inevitable => wait_for_end_of_inevitable_transaction NB_SEGMENTS i

/-- The thread has the mutex again and returns from `cond_wait`. In three of
the four cases it is `SP_RUNNING` from now on, in the fourth it still was. -/
def return_from_cond_wait (i : ℕ) (wait : CondWait) : Exec State Unit := do
  set_segment i ({ · with safe_point := .sp_running })
  s_mutex_lock i
  let s ← Exec.get
  match wait with
  | .request_removed caller => do
    enter_safe_point_turn i caller
    after_safe_point NB_SEGMENTS i caller
  | .at_safe_point caller =>
    if must_abort s i then do
      remove_requests_for_safe_point NB_SEGMENTS
      abort_with_mutex i
    else synchronize_turn NB_SEGMENTS i caller
  | .transaction_done _ kind =>
    if must_abort s i then abort_with_mutex i
    else after_contention NB_SEGMENTS i kind
  | .aborted other kind =>
    if must_abort s i then abort_with_mutex i
    else do
      kill_other_thread i other
      after_contention NB_SEGMENTS i kind

end Transactions

/-! ## The machine -/

inductive Act where
  | start_transaction (tl i : ℕ)
  | next_read_version (i : ℕ)
  | stm_read (i lock_idx : ℕ)
  | stm_write (i lock_idx : ℕ)
  /-- `stm_write`, where another segment owns the lock -/
  | write_write_contention (i lock_idx : ℕ)
  | collectable_safe_point (i : ℕ)
  | become_inevitable (i : ℕ)
  /-- `stm_become_globally_unique_transaction`, in an inevitable transaction -/
  | become_globally_unique (i : ℕ)
  | major_collection (i : ℕ)
  | commit_transaction (i : ℕ)
  | abort_transaction (i : ℕ)
  /-- `pthread_cond_wait` may return without a reason -/
  | spurious_wakeup (i : ℕ)
  | return_from_cond_wait (i : ℕ)
  /-- the caller of `synchronize_all_threads` has finished, or is a commit that
  has found local finalizers to run first -/
  | unlock (i : ℕ)
  | commit_transaction_synchronized (i : ℕ)
  | goto_restart (i : ℕ)

def Act.segment_num : Act → ℕ
  | .start_transaction _ i | .next_read_version i | .stm_read i _ | .stm_write i _
  | .write_write_contention i _ | .collectable_safe_point i | .become_inevitable i
  | .become_globally_unique i | .major_collection i | .commit_transaction i
  | .abort_transaction i | .spurious_wakeup i | .return_from_cond_wait i | .unlock i
  | .commit_transaction_synchronized i | .goto_restart i => i

/-- A running thread that gets the mutex. -/
def can_lock (s : State) (i : ℕ) : Prop := (s.segs i).pc = .running ∧ s.mutex = none

instance (s : State) (i : ℕ) : Decidable (can_lock s i) := inferInstanceAs (Decidable (_ ∧ _))

def step_segment (NB_SEGMENTS : ℕ) (s : State) : Act → Outcome State
  | .start_transaction tl i =>
    guarded (s.mutex = none ∧ s.in_use1 i = false
      ∧ ∀ k ∈ segment_nums NB_SEGMENTS, (s.segs k).running_thread ≠ some tl) <|
    (_stm_start_transaction NB_SEGMENTS tl i).outcome s
  | .next_read_version i =>
    guarded ((s.segs i).pc = .starting) <| .next (s.set i next_read_version)
  | .stm_read i lock_idx =>
    guarded ((s.segs i).pc = .running) <| .next (s.set i (stm_read · lock_idx))
  | .stm_write i lock_idx =>
    guarded ((s.segs i).pc = .running
      ∧ (s.write_locks lock_idx = 0 ∨ s.write_locks lock_idx = i)) <|
    .next (write_slowpath_common s i lock_idx)
  | .write_write_contention i lock_idx => guarded (can_lock s i) <|
    (write_write_contention_management i lock_idx).outcome (s.set i (stm_read · lock_idx))
  | .collectable_safe_point i => guarded (can_lock s i) <|
    (lock_and_enter_safe_point NB_SEGMENTS i .collectable_safe_point).outcome s
  | .become_inevitable i => guarded (can_lock s i) <|
    (lock_and_enter_safe_point NB_SEGMENTS i .become_inevitable).outcome s
  | .become_globally_unique i =>
    guarded (can_lock s i ∧ (s.segs i).transaction_state = .ts_inevitable) <|
    (lock_and_enter_safe_point NB_SEGMENTS i
      (.synchronize_all_threads .become_globally_unique_transaction)).outcome s
  | .major_collection i => guarded (can_lock s i) <|
    (lock_and_enter_safe_point NB_SEGMENTS i
      (.synchronize_all_threads .major_collection)).outcome s
  | .commit_transaction i => guarded (can_lock s i) <|
    (lock_and_enter_safe_point NB_SEGMENTS i
      (.synchronize_all_threads .commit_transaction)).outcome s
  | .abort_transaction i => guarded (can_lock s i) <|
    (do s_mutex_lock i; abort_with_mutex i : Exec State Unit).outcome s
  | .spurious_wakeup i =>
    match (s.segs i).pc with
    | .blocked wait => .next (s.set i ({ · with pc := .woken wait }))
    | _ => .blocked
  | .return_from_cond_wait i =>
    match (s.segs i).pc with
    | .woken wait => guarded (s.mutex = none) <| (return_from_cond_wait NB_SEGMENTS i wait).outcome s
    | _ => .blocked
  | .unlock i =>
    match (s.segs i).pc with
    | .synchronized _ => (s_mutex_unlock i .running).outcome s
    | _ => .blocked
  | .commit_transaction_synchronized i =>
    guarded ((s.segs i).pc = .synchronized .commit_transaction) <|
    (commit_transaction_synchronized NB_SEGMENTS i).outcome s
  | .goto_restart i => guarded ((s.segs i).pc = .restart_inevitable) <|
    (do go_on i; wait_for_end_of_inevitable_transaction NB_SEGMENTS i : Exec State Unit).outcome s

/-- One step, of a segment that exists. -/
def step (NB_SEGMENTS : ℕ) (s : State) (a : Act) : Outcome State :=
  guarded (a.segment_num ∈ segment_nums NB_SEGMENTS) (step_segment NB_SEGMENTS s a)

def Segment.initial : Segment where
  pc := .no_transaction
  nursery_end := .nursery_end
  safe_point := .sp_no_transaction
  transaction_state := .ts_none
  running_thread := none
  unique_start_time := 0
  signalled_to_commit_soon := false
  signal_when_done := false
  transaction_read_version := 0xff
  read_markers := fun _ => 0
  modified_old_objects := []

/-- After `stm_setup`. -/
def State.initial : State where
  segs := fun _ => Segment.initial
  mutex := none
  in_use1 := fun _ => false
  write_locks := fun _ => 0
  pause_signalled := false
  globally_unique_transaction := false
  safe_points_requested := false
  global_start_time := 1

end Sync

end Stmgc.C7
