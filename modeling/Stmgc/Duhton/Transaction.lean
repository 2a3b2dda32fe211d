/-
The transactions of duhton (duhton/transaction.c): how the pending `(code, frame)`
cells travel between the threads.

`Du_TransactionAdd` puts a cell in front of the list in the thread-local object.
`Du_TransactionRun` makes that list the global one and starts the threads, and
waits for them. Each thread asks `next_cell` for a cell and runs it in one
transaction. A thread that finds no cell counts itself as sleeping; the last
one to do so releases `mutex_sleep`, which is used as a semaphore, and all
threads return.

Inevitable transactions exclude each other, so what one does is one step. A
step of a thread is its next statement in `run_thread` and `next_cell`; what
the program does in its transaction, when it aborts and when memory is
collected is up to the scheduler. The interpreter is not part of it:
the body of a transaction is any sequence of `Du_TransactionAdd`s.
-/
import Stmgc.Lib.Machine
import Mathlib.Data.List.Basic

namespace Stmgc.Duhton

open Stmgc.Lib

/-- The address of a cell. The list cell that holds it, its code and its frame
live and die with it. -/
abbrev Cell := ℕ

/-- What `stm_thread_local.thread_local_obj` points to. -/
inductive Tlobj where
  | NULL
  | pending (cells : List Cell)
  | cell (c : Cell)
  deriving DecidableEq

/-- The cells that a thread-local object keeps alive. -/
def Tlobj.cells : Tlobj → List Cell
  | .NULL => []
  | .pending cells => cells
  | .cell c => [c]

/-- The next statement of a thread. -/
inductive Pc where
  /-- not created yet -/
  | unborn
  /-- `pending = TLOBJ` in `next_cell` -/
  | next_cell
  /-- waits to start the inevitable transaction that fishes in the global list -/
  | restart
  /-- waits to start the inevitable transaction, `pending` is in a C local -/
  | start_inevitable (pending : List Cell)
  /-- `__sync_add_and_fetch(&thread_sleeping, 1)` -/
  | nothing_to_do
  /-- `if (ts == all_threads_count)` after that -/
  | woke (ts : ℕ)
  /-- `pthread_mutex_lock(&mutex_sleep)` -/
  | mutex_lock
  /-- `ts = thread_sleeping` -/
  | sleeping
  /-- `__sync_bool_compare_and_swap(&thread_sleeping, ts, ts - 1)` -/
  | compare_and_swap (ts : ℕ)
  /-- `pthread_mutex_unlock(&mutex_sleep); return NULL` -/
  | return_NULL
  /-- `run_thread` has returned -/
  | done
  /-- waits to start the transaction of the cell in `TLOBJ` -/
  | start_transaction
  /-- in the transaction that runs a cell, or the program text (the main thread) -/
  | run_transaction (c : Option Cell) (inevitable : Bool)
  /-- at the start of `Du_TransactionRun` -/
  | TransactionRun (c : Option Cell)
  /-- in `pthread_join`, for the threads from `first` on -/
  | pthread_join (c : Option Cell) (first : ℕ)
  deriving DecidableEq

/-- A thread: its thread-local object and where it is. -/
structure Thread where
  TLOBJ : Tlobj
  pc : Pc
  deriving DecidableEq

/-- The state of the process. The main thread is thread 0. -/
structure State where
  threads : ℕ → Thread
  /-- the threads created so far, the main thread included -/
  nb_threads : ℕ
  /-- the list in `du_pending_transactions->cdr` -/
  du_pending_transactions : List Cell
  /-- is `mutex_sleep` locked? -/
  mutex_sleep : Bool
  thread_sleeping : ℕ
  /-- the cells allocated so far -/
  nb_cells : ℕ
  /-- the cells that a major collection has freed -/
  freed : Cell → Bool
  /-- the cells added by transactions that have committed -/
  added : List Cell
  /-- the cells that `run_transaction` executed, one entry a committed transaction -/
  executed : List Cell

/-- What can happen. -/
inductive Act where
  /-- the next statement of a thread -/
  | thread (t : ℕ)
  /-- `Du_TransactionAdd` in the transaction of a thread -/
  | TransactionAdd (t : ℕ)
  /-- the transaction of a thread ends -/
  | stm_commit_transaction (t : ℕ)
  | stm_abort_transaction (t : ℕ)
  /-- `(run-transactions)`, and `main` after it has run the program text -/
  | du_run_transactions (t : ℕ)
  | major_collection
  deriving DecidableEq

namespace State

/-- A thread goes on. -/
def set (s : State) (t : ℕ) (x : Thread) : State :=
  { s with threads := Function.update s.threads t x }

/-- The cell that a thread runs: its code and its frame are on the stack. -/
def running : Pc → List Cell
  | .run_transaction (some c) _ => [c]
  | .TransactionRun (some c) => [c]
  | .pthread_join (some c) _ => [c]
  | _ => []

/-- `mark_visit_from_roots`: the global list, and for each thread its
thread-local object and its shadow stack. -/
def roots (s : State) : List Cell :=
  s.du_pending_transactions ++ (List.range s.nb_threads).flatMap fun t =>
    (s.threads t).TLOBJ.cells ++ running (s.threads t).pc

/-- A major collection frees what no root leads to. -/
def major_collection (s : State) : State :=
  { s with freed := fun c => s.freed c || (decide (c < s.nb_cells) && !decide (c ∈ s.roots)) }

/-- `run_all_threads`, up to the first `pthread_join`. -/
def run_all_threads (s : State) (all_threads_count : ℕ) : State :=
  { s with
    thread_sleeping := 0
    threads := fun t =>
      if s.nb_threads ≤ t ∧ t < s.nb_threads + all_threads_count then ⟨.NULL, .next_cell⟩
      else s.threads t
    nb_threads := s.nb_threads + all_threads_count }

/-- The next statement of thread `t`. -/
def thread (all_threads_count : ℕ) (s : State) (t : ℕ) : Outcome State :=
  let x := s.threads t
  match x.pc with
  | .unborn => .blocked
  | .next_cell =>
    match x.TLOBJ with
    | .NULL => .next (s.set t ⟨.NULL, .restart⟩)
    -- from here on no root leads to the cells
    | .pending pending => .next (s.set t ⟨.NULL, .start_inevitable pending⟩)
    | .cell _ => .fault
  | .restart =>
    match s.du_pending_transactions with
    | [] => .next (s.set t { x with pc := .nothing_to_do })
    | result :: next =>
      if s.freed result ∨ x.TLOBJ ≠ .NULL then .fault
      else .next { s.set t ⟨.cell result, .start_transaction⟩ with du_pending_transactions := next }
  | .start_inevitable pending =>
    match pending with
    | [] => .fault
    | result :: next =>
      if (∃ c ∈ pending, s.freed c) ∨ x.TLOBJ ≠ .NULL then .fault
      else
        .next { s.set t ⟨.cell result, .start_transaction⟩ with
          -- more than one: add the others to the global list
          du_pending_transactions := next ++ s.du_pending_transactions }
  | .nothing_to_do =>
    .next { s.set t { x with pc := .woke (s.thread_sleeping + 1) } with
      thread_sleeping := s.thread_sleeping + 1 }
  | .woke ts =>
    .next { s.set t { x with pc := .mutex_lock } with
      mutex_sleep := if ts = all_threads_count then false else s.mutex_sleep }
  | .mutex_lock =>
    if s.mutex_sleep then .blocked
    else .next { s.set t { x with pc := .sleeping } with mutex_sleep := true }
  | .sleeping =>
    let ts := s.thread_sleeping
    if ts = all_threads_count then .next (s.set t { x with pc := .return_NULL })
    else if ts = 0 then .fault
    else .next (s.set t { x with pc := .compare_and_swap ts })
  | .compare_and_swap ts =>
    if s.thread_sleeping = ts then
      .next { s.set t { x with pc := .restart } with thread_sleeping := ts - 1 }
    else .next (s.set t { x with pc := .sleeping })
  | .return_NULL => .next { s.set t { x with pc := .done } with mutex_sleep := false }
  | .done => .blocked
  | .start_transaction =>
    match x.TLOBJ with
    | .cell c =>
      if s.freed c then .fault
      else .next (s.set t ⟨.NULL, .run_transaction (some c) false⟩)
    | _ => .fault
  | .run_transaction _ _ => .blocked
  | .TransactionRun c =>
    match x.TLOBJ with
    | .NULL => .next (s.set t { x with pc := .run_transaction c true })
    | .pending pending =>
      -- `root->cdr = TLOBJ`, whatever the global list was
      .next (run_all_threads
        { s.set t ⟨.NULL, .pthread_join c s.nb_threads⟩ with
          du_pending_transactions := pending } all_threads_count)
    | .cell _ => .fault
  | .pthread_join c first =>
    if ∀ u < all_threads_count, (s.threads (first + u)).pc = .done then
      .next (s.set t { x with pc := .run_transaction c true })
    else .blocked

/-- What an action does to the process. -/
def step (all_threads_count : ℕ) (s : State) : Act → Outcome State
  | .thread t => s.thread all_threads_count t
  | .TransactionAdd t =>
    let x := s.threads t
    match x.pc with
    | .run_transaction _ _ =>
      let s' := { s with nb_cells := s.nb_cells + 1 }
      match x.TLOBJ with
      | .NULL => .next (s'.set t { x with TLOBJ := .pending [s.nb_cells] })
      | .pending pending => .next (s'.set t { x with TLOBJ := .pending (s.nb_cells :: pending) })
      | .cell _ => .fault
    | _ => .blocked
  | .stm_commit_transaction t =>
    let x := s.threads t
    match x.pc with
    | .run_transaction (some c) _ =>
      .next { s.set t { x with pc := .next_cell } with
        added := x.TLOBJ.cells ++ s.added
        executed := c :: s.executed }
    | _ => .blocked
  | .stm_abort_transaction t =>
    match (s.threads t).pc with
    -- `TLOBJ` gets back its value from the start of the transaction
    | .run_transaction (some c) false => .next (s.set t ⟨.cell c, .start_transaction⟩)
    | _ => .blocked
  | .du_run_transactions t =>
    let x := s.threads t
    match x.pc with
    | .run_transaction c _ =>
      .next { s.set t { x with pc := .TransactionRun c } with
        added := x.TLOBJ.cells ++ s.added
        executed := c.toList ++ s.executed }
    | _ => .blocked
  | .major_collection => .next s.major_collection

/-- The main thread runs the program text, and there is nothing else. -/
def init : State where
  threads t := if t = 0 then ⟨.NULL, .run_transaction none true⟩ else ⟨.NULL, .unborn⟩
  nb_threads := 1
  du_pending_transactions := []
  mutex_sleep := false
  thread_sleeping := 0
  nb_cells := 0
  freed _ := false
  added := []
  executed := []

end State

end Stmgc.Duhton
