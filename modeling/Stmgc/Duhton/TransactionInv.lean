/-
What holds in every run in which only the main thread starts the threads and no
major collection finds a thread with its cells in a C local.

The invariant has two halves. [`Cells`] counts, for each cell, the places where
it is: every count is a sum over the threads, so that a step of one thread
changes one summand. [`Control`] says where the threads can be: how many of
them are counted as sleeping, and that as long as the global list has cells some
thread is still going to look at it.
-/
import Stmgc.Duhton.Transaction
import Mathlib.Algebra.BigOperators.Intervals
import Mathlib.Algebra.Order.BigOperators.Group.Finset

namespace Stmgc.Duhton

open Stmgc.Lib

/-! ## Where a thread can be -/

namespace Pc

/-- Is the thread counted in `thread_sleeping`? -/
def counted : Pc → Bool
  | .woke _ | .mutex_lock | .sleeping | .compare_and_swap _ | .return_NULL | .done => true
  | _ => false

/-- Does the thread look at the global list again before it is counted? -/
def looking : Pc → Bool
  | .next_cell | .restart | .start_inevitable _ | .start_transaction | .run_transaction _ _ => true
  | _ => false

/-- Are the cells of the thread in a C local only? -/
def in_local : Pc → Bool
  | .start_inevitable _ => true
  | _ => false

/-- Has the thread got `mutex_sleep` for the test of `thread_sleeping`? -/
def testing : Pc → Bool
  | .sleeping | .compare_and_swap _ | .return_NULL => true
  | _ => false

/-- Does `next_cell` return NULL? -/
def returned : Pc → Bool
  | .return_NULL | .done => true
  | _ => false

/-- Where a thread can be that `run_all_threads` has started. -/
def worker : Pc → Bool
  | .unborn | .run_transaction none _ | .TransactionRun _ | .pthread_join _ _ => false
  | _ => true

end Pc

/-! ## Where the cells are -/

/-- The cells that a thread has taken over, or has added in a transaction that has
committed. -/
def Thread.holds (x : Thread) : List Cell :=
  match x.pc with
  | .start_inevitable pending => pending
  | .run_transaction c _ => c.toList
  | .TransactionRun c => c.toList ++ x.TLOBJ.cells
  | .pthread_join c _ => c.toList
  | _ => x.TLOBJ.cells

/-- The cells that the running transaction of a thread has added. -/
def Thread.uncommitted (x : Thread) : List Cell :=
  match x.pc with
  | .run_transaction _ _ => x.TLOBJ.cells
  | _ => []

/-- What a thread-local object is, by where the thread is. -/
def Thread.Ok (x : Thread) : Prop :=
  match x.pc with
  | .next_cell | .run_transaction _ _ | .TransactionRun _ =>
    x.TLOBJ = .NULL ∨ ∃ c rest, x.TLOBJ = .pending (c :: rest)
  | .start_inevitable pending => x.TLOBJ = .NULL ∧ pending ≠ []
  | .start_transaction => ∃ c, x.TLOBJ = .cell c
  | _ => x.TLOBJ = .NULL

namespace State

/-- All cells that are still to be executed. -/
def pending (s : State) : List Cell :=
  s.du_pending_transactions ++ (List.range s.nb_threads).flatMap fun t => (s.threads t).holds

/-- A sum over the threads. -/
def total (s : State) (f : Thread → ℕ) : ℕ := ∑ t ∈ Finset.range s.nb_threads, f (s.threads t)

end State

section Sums

variable {s s' : State} {f : Thread → ℕ} {t : ℕ} {x : Thread} {c : Cell}

theorem count_flatMap_range (g : ℕ → List Cell) (n : ℕ) :
    ((List.range n).flatMap g).count c = ∑ t ∈ Finset.range n, (g t).count c := by
  induction n with
  | zero => simp
  | succ n ih =>
      rw [List.range_succ, List.flatMap_append, List.count_append, ih, Finset.sum_range_succ]
      simp

theorem count_pending (s : State) (c : Cell) :
    s.pending.count c = s.du_pending_transactions.count c
      + s.total (fun x => x.holds.count c) := by
  rw [State.pending, List.count_append, count_flatMap_range]
  rfl

theorem count_roots (s : State) (c : Cell) :
    s.roots.count c = s.du_pending_transactions.count c
      + s.total (fun x => (x.TLOBJ.cells ++ State.running x.pc).count c) := by
  rw [State.roots, List.count_append, count_flatMap_range]
  rfl

/-- A step of one thread changes one summand. -/
theorem sum_update {S : Finset ℕ} (threads : ℕ → Thread) (f : Thread → ℕ) (ht : t ∈ S) :
    ∑ u ∈ S, f (Function.update threads t x u) + f (threads t) = ∑ u ∈ S, f (threads u) + f x := by
  rw [← Finset.add_sum_erase S _ ht, ← Finset.add_sum_erase S (fun u => f (threads u)) ht,
    Function.update_self]
  have hrest : ∑ u ∈ S.erase t, f (Function.update threads t x u)
      = ∑ u ∈ S.erase t, f (threads u) := by
    refine Finset.sum_congr rfl fun u hu => ?_
    rw [Function.update_of_ne (Finset.ne_of_mem_erase hu)]
  rw [hrest]
  omega

theorem total_set (f : Thread → ℕ) (ht : t < s.nb_threads)
    (hthreads : s'.threads = Function.update s.threads t x) (hnb : s'.nb_threads = s.nb_threads) :
    s'.total f + f (s.threads t) = s.total f + f x := by
  rw [State.total, State.total, hthreads, hnb]
  exact sum_update s.threads f (Finset.mem_range.mpr ht)

theorem le_total (f : Thread → ℕ) (ht : t < s.nb_threads) : f (s.threads t) ≤ s.total f :=
  Finset.single_le_sum (f := fun u => f (s.threads u)) (fun _ _ => Nat.zero_le _)
    (Finset.mem_range.mpr ht)

/-- New threads have nothing. -/
theorem total_run_all_threads (f : Thread → ℕ) (n : ℕ) (h0 : f ⟨.NULL, .next_cell⟩ = 0) :
    (s.run_all_threads n).total f = s.total f := by
  show ∑ t ∈ Finset.range (s.nb_threads + n), _ = _
  rw [Finset.sum_range_add]
  have hnew : ∀ u ∈ Finset.range n, f ((s.run_all_threads n).threads (s.nb_threads + u)) = 0 := by
    intro u hu
    rw [Finset.mem_range] at hu
    show f (if _ then _ else _) = 0
    rw [if_pos (by omega)]
    exact h0
  rw [Finset.sum_eq_zero hnew, Nat.add_zero]
  refine Finset.sum_congr rfl fun u hu => ?_
  rw [Finset.mem_range] at hu
  show f (if _ then _ else _) = _
  rw [if_neg (by omega)]

end Sums

/-- How often an address can have been used. -/
def allocated (nb_cells c : ℕ) : ℕ := if c < nb_cells then 1 else 0

/-- For each cell, the places where it is. -/
structure Cells (s : State) : Prop where
  /-- no address is used twice -/
  fresh : ∀ c, s.added.count c + s.total (fun x => x.uncommitted.count c)
    ≤ allocated s.nb_cells c
  /-- what was added has been executed, or is to be executed -/
  once : ∀ c, s.added.count c = s.executed.count c + s.du_pending_transactions.count c
    + s.total (fun x => x.holds.count c)
  /-- what was freed is nowhere -/
  alive : ∀ c, s.freed c = true → c < s.nb_cells ∧ s.du_pending_transactions.count c
    + s.total (fun x => x.holds.count c + x.uncommitted.count c) = 0

section Cells

variable {s s' : State} {t : ℕ} {x : Thread}

/-- A step of one thread, by what it does to its own cells and to the lists. -/
theorem Cells.set (h : Cells s) (ht : t < s.nb_threads)
    (hthreads : s'.threads = Function.update s.threads t x) (hnb : s'.nb_threads = s.nb_threads)
    (hfreed : s'.freed = s.freed) (hcells : s.nb_cells ≤ s'.nb_cells)
    (hfresh : ∀ c, s'.added.count c + x.uncommitted.count c + allocated s.nb_cells c
      ≤ s.added.count c + (s.threads t).uncommitted.count c + allocated s'.nb_cells c)
    (honce : ∀ c, s'.added.count c + s.executed.count c + s.du_pending_transactions.count c
      + (s.threads t).holds.count c
      = s.added.count c + s'.executed.count c + s'.du_pending_transactions.count c
        + x.holds.count c)
    (halive : ∀ c < s.nb_cells, s'.du_pending_transactions.count c + x.holds.count c
        + x.uncommitted.count c
      ≤ s.du_pending_transactions.count c + (s.threads t).holds.count c
        + (s.threads t).uncommitted.count c) : Cells s' := by
  constructor
  · intro c
    have h1 := h.fresh c
    have h2 := total_set (fun x => x.uncommitted.count c) ht hthreads hnb
    have h3 := hfresh c
    omega
  · intro c
    have h1 := h.once c
    have h2 := total_set (fun x => x.holds.count c) ht hthreads hnb
    have h3 := honce c
    omega
  · intro c hc
    rw [hfreed] at hc
    obtain ⟨hlt, h1⟩ := h.alive c hc
    have h2 := total_set (fun x => x.holds.count c + x.uncommitted.count c) ht hthreads hnb
    have h3 := halive c hlt
    have h4 := le_total (fun x => x.holds.count c + x.uncommitted.count c) ht
    exact ⟨lt_of_lt_of_le hlt hcells, by omega⟩

/-- A major collection when no thread has cells in a C local. -/
theorem Cells.major_collection (h : Cells s)
    (hlocal : ∀ t < s.nb_threads, (s.threads t).pc.in_local = false) :
    Cells s.major_collection := by
  refine ⟨h.fresh, h.once, fun c hc => ?_⟩
  rw [State.major_collection, Bool.or_eq_true, Bool.and_eq_true, decide_eq_true_eq, Bool.not_eq_true',
    decide_eq_false_iff_not] at hc
  rcases hc with hc | ⟨hlt, hroots⟩
  · exact h.alive c hc
  · refine ⟨hlt, ?_⟩
    have hzero := List.count_eq_zero.mpr hroots
    rw [count_roots] at hzero
    -- what a thread has is in its thread-local object or on its stack
    have hle : s.total (fun x => x.holds.count c + x.uncommitted.count c)
        ≤ s.total (fun x => (x.TLOBJ.cells ++ State.running x.pc).count c) := by
      refine Finset.sum_le_sum fun t ht => ?_
      have hpc := hlocal t (Finset.mem_range.mp ht)
      show (s.threads t).holds.count c + (s.threads t).uncommitted.count c
        ≤ ((s.threads t).TLOBJ.cells ++ State.running (s.threads t).pc).count c
      unfold Thread.holds Thread.uncommitted
      rw [List.count_append]
      cases hx : (s.threads t).pc with
      | start_inevitable pending =>
          rw [hx] at hpc
          exact absurd hpc (by simp [Pc.in_local])
      | run_transaction c' inevitable => 
          cases c' with
          | none => simp [State.running]
          | some c' =>
              simp [State.running]
              omega
      | TransactionRun c' => 
          cases c' with
          | none => simp [State.running]
          | some c' => simp [State.running, List.count_cons]
      | pthread_join c' first => cases c' <;> simp [State.running]
      | _ => simp [State.running]
    show s.du_pending_transactions.count c
      + s.total (fun x => x.holds.count c + x.uncommitted.count c) = 0
    omega

end Cells

/-! ## Where the threads are -/

/-- The threads from `first` on are at work, the main thread waits for them. -/
structure Working (all_threads_count first : ℕ) (s : State) : Prop where
  count_pos : 0 < all_threads_count
  first_pos : 0 < first
  nb_threads : s.nb_threads = first + all_threads_count
  worker : ∀ t, first ≤ t → t < s.nb_threads → (s.threads t).pc.worker = true
  old : ∀ t, 0 < t → t < first → (s.threads t).pc = .done
  thread_sleeping : s.thread_sleeping
    = ∑ t ∈ Finset.Ico first s.nb_threads, if (s.threads t).pc.counted then 1 else 0
  looking : s.du_pending_transactions ≠ [] →
    ∃ t, first ≤ t ∧ t < s.nb_threads ∧ (s.threads t).pc.looking = true
  returned : ∀ t, first ≤ t → t < s.nb_threads → (s.threads t).pc.returned = true →
    s.thread_sleeping = all_threads_count
  compare_and_swap : ∀ t, first ≤ t → t < s.nb_threads → ∀ ts,
    (s.threads t).pc = .compare_and_swap ts → ts ≠ all_threads_count
  /-- the mutex is locked by a thread that tests the count, or will be released by the last -/
  mutex_sleep : s.mutex_sleep = true → s.thread_sleeping < all_threads_count
    ∨ ∃ t, first ≤ t ∧ t < s.nb_threads ∧ ((s.threads t).pc.testing = true
      ∨ (s.threads t).pc = .woke all_threads_count)

/-- The invariant. -/
structure Inv (all_threads_count : ℕ) (s : State) : Prop where
  cells : Cells s
  nb_pos : 0 < s.nb_threads
  unborn : ∀ t, s.nb_threads ≤ t → s.threads t = ⟨.NULL, .unborn⟩
  ok : ∀ t, (s.threads t).Ok
  main : (((s.threads 0).pc = .run_transaction none true
        ∨ ((s.threads 0).pc = .TransactionRun none ∧ 0 < all_threads_count))
      ∧ s.du_pending_transactions = [] ∧ ∀ t, 0 < t → t < s.nb_threads → (s.threads t).pc = .done)
    ∨ ∃ first, (s.threads 0).pc = .pthread_join none first ∧ Working all_threads_count first s

section Working

variable {n first t : ℕ} {s s' : State} {x : Thread}

/-- As long as a thread is not counted, not all are. -/
theorem Working.thread_sleeping_lt (h : Working n first s) (hft : first ≤ t) (ht : t < s.nb_threads)
    (hc : (s.threads t).pc.counted = false) : s.thread_sleeping < n := by
  rw [h.thread_sleeping]
  have hlt : ∑ u ∈ Finset.Ico first s.nb_threads, (if (s.threads u).pc.counted then 1 else 0)
      < ∑ _u ∈ Finset.Ico first s.nb_threads, 1 := by
    refine Finset.sum_lt_sum (fun u _ => ?_) ⟨t, Finset.mem_Ico.mpr ⟨hft, ht⟩, by simp [hc]⟩
    split <;> omega
  have hnb := h.nb_threads
  rw [← Finset.card_eq_sum_ones, Nat.card_Ico] at hlt
  exact lt_of_lt_of_eq hlt (by omega)

theorem Working.thread_sleeping_le (h : Working n first s) : s.thread_sleeping ≤ n := by
  rw [h.thread_sleeping]
  have hle : ∑ u ∈ Finset.Ico first s.nb_threads, (if (s.threads u).pc.counted then 1 else 0)
      ≤ ∑ _u ∈ Finset.Ico first s.nb_threads, 1 := by
    refine Finset.sum_le_sum fun u _ => ?_
    split <;> omega
  have hnb := h.nb_threads
  rw [← Finset.card_eq_sum_ones, Nat.card_Ico] at hle
  exact le_of_le_of_eq hle (by omega)

/-- Once all are counted there is nothing left to do. -/
theorem Working.counted (h : Working n first s) (hn : s.thread_sleeping = n) (hft : first ≤ t)
    (ht : t < s.nb_threads) : (s.threads t).pc.counted = true := by
  by_contra hc
  rw [Bool.not_eq_true] at hc
  have hlt := h.thread_sleeping_lt hft ht hc
  omega

/-- What a step of a thread at work can do. -/
structure Move (n : ℕ) (s s' : State) (t : ℕ) (x : Thread) : Prop where
  threads : s'.threads = Function.update s.threads t x
  nb_threads : s'.nb_threads = s.nb_threads
  freed : s'.freed = s.freed
  nb_cells : s.nb_cells ≤ s'.nb_cells
  fresh : ∀ c, s'.added.count c + x.uncommitted.count c + allocated s.nb_cells c
    ≤ s.added.count c + (s.threads t).uncommitted.count c + allocated s'.nb_cells c
  once : ∀ c, s'.added.count c + s.executed.count c + s.du_pending_transactions.count c
    + (s.threads t).holds.count c
    = s.added.count c + s'.executed.count c + s'.du_pending_transactions.count c + x.holds.count c
  alive : ∀ c < s.nb_cells, s'.du_pending_transactions.count c + x.holds.count c
      + x.uncommitted.count c
    ≤ s.du_pending_transactions.count c + (s.threads t).holds.count c
      + (s.threads t).uncommitted.count c
  ok : x.Ok
  worker : x.pc.worker = true
  thread_sleeping : s'.thread_sleeping + (if (s.threads t).pc.counted then 1 else 0)
    = s.thread_sleeping + if x.pc.counted then 1 else 0
  looking : s'.du_pending_transactions ≠ [] → x.pc.looking = true
    ∨ s.du_pending_transactions ≠ [] ∧ (s.threads t).pc.looking = false
  returned : x.pc.returned = true → s'.thread_sleeping = n
  all_counted : s.thread_sleeping = n → s'.thread_sleeping = n
  compare_and_swap : ∀ ts, x.pc = .compare_and_swap ts → ts ≠ n
  mutex_sleep : s'.mutex_sleep = true → s'.thread_sleeping < n ∨ x.pc.testing = true
    ∨ x.pc = .woke n ∨ (s.mutex_sleep = true ∧ s'.thread_sleeping = s.thread_sleeping
      ∧ (s.threads t).pc.testing = false ∧ (s.threads t).pc ≠ .woke n)

theorem Working.move (h : Working n first s) (hm : Move n s s' t x) (hft : first ≤ t)
    (ht : t < s.nb_threads) : Working n first s' := by
  have hself : s'.threads t = x := by rw [hm.threads, Function.update_self]
  have hother : ∀ u, u ≠ t → s'.threads u = s.threads u := by
    intro u hu
    rw [hm.threads, Function.update_of_ne hu]
  -- a property of all threads at work
  have hall : ∀ P : Thread → Prop, P x → (∀ u, first ≤ u → u < s.nb_threads → P (s.threads u)) →
      ∀ u, first ≤ u → u < s'.nb_threads → P (s'.threads u) := by
    intro P hx hrest u hfu hu
    rw [hm.nb_threads] at hu
    by_cases hut : u = t
    · rw [hut, hself]
      exact hx
    · rw [hother u hut]
      exact hrest u hfu hu
  constructor
  · exact h.count_pos
  · exact h.first_pos
  · rw [hm.nb_threads, h.nb_threads]
  · exact hall (fun y => y.pc.worker = true) hm.worker h.worker
  · intro u hpos hu
    rw [hother u (by omega)]
    exact h.old u hpos hu
  · have hsum := @sum_update t x (Finset.Ico first s.nb_threads) s.threads
      (fun y => if y.pc.counted then 1 else 0) (Finset.mem_Ico.mpr ⟨hft, ht⟩)
    have hts := hm.thread_sleeping
    have hold := h.thread_sleeping
    rw [hm.threads, hm.nb_threads]
    omega
  · intro hne
    rcases hm.looking hne with hx | ⟨hne', hnot⟩
    · exact ⟨t, hft, by rw [hm.nb_threads]; exact ht, by rw [hself]; exact hx⟩
    · obtain ⟨u, hfu, hu, hlook⟩ := h.looking hne'
      have hut : u ≠ t := by
        rintro rfl
        rw [hnot] at hlook
        exact absurd hlook (by simp)
      exact ⟨u, hfu, by rw [hm.nb_threads]; exact hu, by rw [hother u hut]; exact hlook⟩
  · exact hall (fun y => y.pc.returned = true → s'.thread_sleeping = n) hm.returned
      fun u hfu hu hret => hm.all_counted (h.returned u hfu hu hret)
  · exact hall (fun y => ∀ ts, y.pc = .compare_and_swap ts → ts ≠ n) hm.compare_and_swap
      h.compare_and_swap
  · intro hlocked
    rw [hm.nb_threads]
    rcases hm.mutex_sleep hlocked with hlt | htest | hwoke | ⟨hlocked', hts, htest, hwoke⟩
    · exact Or.inl hlt
    · exact Or.inr ⟨t, hft, ht, by rw [hself]; exact Or.inl htest⟩
    · exact Or.inr ⟨t, hft, ht, by rw [hself]; exact Or.inr hwoke⟩
    · rcases h.mutex_sleep hlocked' with hlt | ⟨u, hfu, hu, hcase⟩
      · exact Or.inl (by omega)
      · have hut : u ≠ t := by
          rintro rfl
          rcases hcase with hcase | hcase
          · rw [htest] at hcase
            exact absurd hcase (by simp)
          · exact hwoke hcase
        exact Or.inr ⟨u, hfu, hu, by rw [hother u hut]; exact hcase⟩

/-- A step of a thread at work keeps the invariant. -/
theorem Inv.move (h : Inv n s) (hmain : (s.threads 0).pc = .pthread_join none first)
    (hw : Working n first s) (hm : Move n s s' t x) (hft : first ≤ t) (ht : t < s.nb_threads) :
    Inv n s' := by
  have hfirst := hw.first_pos
  constructor
  · exact h.cells.set ht hm.threads hm.nb_threads hm.freed hm.nb_cells hm.fresh hm.once hm.alive
  · rw [hm.nb_threads]
    exact h.nb_pos
  · intro u hu
    rw [hm.nb_threads] at hu
    rw [hm.threads, Function.update_of_ne (by omega)]
    exact h.unborn u hu
  · intro u
    by_cases hut : u = t
    · rw [hut, hm.threads, Function.update_self]
      exact hm.ok
    · rw [hm.threads, Function.update_of_ne hut]
      exact h.ok u
  · refine Or.inr ⟨first, ?_, hw.move hm hft ht⟩
    rw [hm.threads, Function.update_of_ne (by omega)]
    exact hmain

/-- A thread other than the main one that is neither new nor at its end is at work. -/
theorem Inv.working (h : Inv n s) (h0 : t ≠ 0) (hdone : (s.threads t).pc ≠ .done)
    (hunborn : (s.threads t).pc ≠ .unborn) :
    ∃ first, (s.threads 0).pc = .pthread_join none first ∧ Working n first s ∧ first ≤ t
      ∧ t < s.nb_threads := by
  have ht : t < s.nb_threads := by
    by_contra hle
    rw [h.unborn t (by omega)] at hunborn
    exact hunborn rfl
  rcases h.main with ⟨-, -, hall⟩ | ⟨first, hmain, hw⟩
  · exact absurd (hall t (by omega) ht) hdone
  · refine ⟨first, hmain, hw, ?_, ht⟩
    by_contra hlt
    exact hdone (hw.old t (by omega) (by omega))

end Working

end Stmgc.Duhton
