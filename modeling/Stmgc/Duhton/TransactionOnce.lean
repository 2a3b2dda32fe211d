/-
Transactions run exactly once: what follows from the invariant for the cells, for the
end of `run_all_threads` and for the assertions of the code; and the run in which a
major collection frees the cells of a thread that waits.
-/
import Stmgc.Duhton.TransactionSteps

namespace Stmgc.Duhton

open Stmgc.Lib

/-- Each cell is executed in one committed transaction and stays alive until then, and the
threads do not give up before. -/
structure ExactlyOnce (all_threads_count : ℕ) (s : State) : Prop where
  /-- what a committed transaction has added was executed once, or waits at one place -/
  once : ∀ c ∈ s.added, s.executed.count c + s.pending.count c = 1
  /-- nothing else is executed -/
  executed : ∀ c ∈ s.executed, c ∈ s.added
  alive : ∀ c ∈ s.pending, s.freed c = false
  /-- where `next_cell` returns NULL -/
  return_NULL : ∀ t, (s.threads t).pc = .return_NULL → s.pending = []
  done : ∀ c first t, (s.threads 0).pc = .pthread_join c first → first ≤ t → t < s.nb_threads →
    (s.threads t).pc = .done → s.pending = []
  /-- a thread is in a transaction, or some thread is not blocked -/
  goes_on : ∃ t, (∃ c inevitable, (s.threads t).pc = .run_transaction c inevitable)
    ∨ ∃ s', s.thread all_threads_count t = .next s'

variable {n first t : ℕ} {s s' : State}

/-! ## The cells -/

section Cells

theorem mem_pending_of_holds {c : Cell} (ht : t < s.nb_threads) (hc : c ∈ (s.threads t).holds) :
    c ∈ s.pending := by
  rw [State.pending, List.mem_append, List.mem_flatMap]
  exact Or.inr ⟨t, List.mem_range.mpr ht, hc⟩

theorem Inv.count_eq_one (h : Inv n s) {c : Cell} (hc : c ∈ s.added) :
    s.executed.count c + s.pending.count c = 1 := by
  have hpos := List.count_pos_iff.mpr hc
  have hfresh := h.cells.fresh c
  have honce := h.cells.once c
  have hle : allocated s.nb_cells c ≤ 1 := by
    unfold allocated
    split <;> omega
  rw [count_pending]
  omega

theorem Inv.added_of_executed (h : Inv n s) {c : Cell} (hc : c ∈ s.executed) : c ∈ s.added := by
  have hpos := List.count_pos_iff.mpr hc
  have honce := h.cells.once c
  exact List.count_pos_iff.mp (by omega)

theorem Inv.not_freed (h : Inv n s) {c : Cell} (hc : c ∈ s.pending) : s.freed c = false := by
  have hpos := List.count_pos_iff.mpr hc
  rw [count_pending] at hpos
  by_contra hfreed
  rw [Bool.not_eq_false] at hfreed
  obtain ⟨-, hzero⟩ := h.cells.alive c hfreed
  have hle : s.total (fun x => x.holds.count c)
      ≤ s.total (fun x => x.holds.count c + x.uncommitted.count c) :=
    Finset.sum_le_sum fun _ _ => Nat.le_add_right _ _
  omega

end Cells

/-! ## The end -/

section End

/-- A thread that is counted has no cell. -/
theorem Thread.holds_of_counted {x : Thread} (hok : x.Ok) (hc : x.pc.counted = true) :
    x.holds = [] := by
  unfold Thread.Ok at hok
  unfold Thread.holds
  cases hpc : x.pc with
  | woke _ | mutex_lock | sleeping | compare_and_swap _ | return_NULL | done =>
      simp only [hpc] at hok
      rw [hok]
      rfl
  | _ => simp [hpc, Pc.counted] at hc

/-- When all threads are counted no cell is left. -/
theorem Inv.pending_eq_nil (h : Inv n s) (hmain : (s.threads 0).pc = .pthread_join none first)
    (hw : Working n first s) (hn : s.thread_sleeping = n) : s.pending = [] := by
  have hroot : s.du_pending_transactions = [] := by
    by_contra hne
    obtain ⟨t, hft, ht, hlook⟩ := hw.looking hne
    have hcounted := hw.counted hn hft ht
    cases hpc : (s.threads t).pc <;> simp [hpc, Pc.looking, Pc.counted] at hlook hcounted
  rw [State.pending, hroot, List.nil_append, List.flatMap_eq_nil_iff]
  intro t ht
  rw [List.mem_range] at ht
  by_cases h0 : t = 0
  · rw [h0, Thread.holds, hmain]
    rfl
  by_cases hlt : t < first
  · exact Thread.holds_of_counted (h.ok t) (by rw [hw.old t (by omega) hlt]; rfl)
  · exact Thread.holds_of_counted (h.ok t) (hw.counted hn (by omega) ht)

theorem Inv.pending_of_returned (h : Inv n s) (hmain : (s.threads 0).pc = .pthread_join none first)
    (hw : Working n first s) (hft : first ≤ t) (ht : t < s.nb_threads)
    (hret : (s.threads t).pc.returned = true) : s.pending = [] :=
  h.pending_eq_nil hmain hw (hw.returned t hft ht hret)

end End

/-! ## No assertion fails, and no thread waits for ever -/

section Progress

/-- The next statement of a thread fails no assertion and follows no dangling pointer. -/
theorem Inv.thread_ne_fault (h : Inv n s) (t : ℕ) : s.thread n t ≠ .fault := by
  have hok := h.ok t
  have hnb : (s.threads t).pc ≠ .unborn → t < s.nb_threads := by
    intro hpc
    by_contra hle
    rw [h.unborn t (by omega)] at hpc
    exact hpc rfl
  have halive : ∀ c ∈ (s.threads t).holds, t < s.nb_threads → s.freed c = false :=
    fun c hc ht => h.not_freed (mem_pending_of_holds ht hc)
  unfold Thread.Ok at hok
  unfold State.thread
  cases hpc : (s.threads t).pc with
  | next_cell =>
      simp only [hpc] at hok ⊢
      rcases hok with htl | ⟨c, rest, htl⟩
      · simp [htl]
      · simp [htl]
  | restart =>
      simp only [hpc] at hok ⊢
      cases hroot : s.du_pending_transactions with
      | nil => simp
      | cons result next =>
          have hfreed : s.freed result = false := h.not_freed (by simp [State.pending, hroot])
          simp [hfreed, hok]
  | start_inevitable pending =>
      simp only [hpc] at hok ⊢
      obtain ⟨htl, hne⟩ := hok
      have hfreed : ¬ ∃ c ∈ pending, s.freed c = true := by
        rintro ⟨c, hc, hfreed⟩
        rw [halive c (by rw [Thread.holds, hpc]; exact hc) (hnb (by simp [hpc]))] at hfreed
        exact absurd hfreed (by simp)
      cases pending with
      | nil => exact absurd rfl hne
      | cons result next =>
          dsimp only
          rw [if_neg (by rw [not_or]; exact ⟨hfreed, fun hnot => hnot htl⟩)]
          simp
  | sleeping =>
      simp only [hpc]
      by_cases hts : s.thread_sleeping = n
      · simp [hts]
      · -- the thread itself is counted
        have h0 : t ≠ 0 := by
          rintro rfl
          rcases h.main with ⟨hmain | ⟨hmain, -⟩, -⟩ | ⟨first, hmain, -⟩ <;> simp [hpc] at hmain
        obtain ⟨first, -, hw, hft, ht⟩ := h.working h0 (by simp [hpc]) (by simp [hpc])
        have hpos : 0 < s.thread_sleeping := by
          rw [hw.thread_sleeping]
          refine Finset.sum_pos' (fun _ _ => Nat.zero_le _) ⟨t, Finset.mem_Ico.mpr ⟨hft, ht⟩, ?_⟩
          simp [hpc, Pc.counted]
        rw [if_neg hts, if_neg (by omega)]
        simp
  | start_transaction =>
      simp only [hpc] at hok ⊢
      obtain ⟨c, htl⟩ := hok
      have hfreed := halive c (by simp [Thread.holds, hpc, htl, Tlobj.cells]) (hnb (by simp [hpc]))
      simp [htl, hfreed]
  | TransactionRun c =>
      simp only [hpc] at hok ⊢
      rcases hok with htl | ⟨c, rest, htl⟩
      · simp [htl]
      · simp [htl]
  | mutex_lock =>
      simp only [hpc]
      split <;> simp
  | compare_and_swap ts =>
      simp only [hpc]
      split <;> simp
  | pthread_join c first =>
      simp only [hpc]
      split <;> simp
  | _ => simp [hpc]

/-- No step fails an assertion. -/
theorem Inv.step_ne_fault (h : Inv n s) (a : Act) : State.step n s a ≠ .fault := by
  cases a with
  | thread t => exact h.thread_ne_fault t
  | TransactionAdd t =>
      have hok := h.ok t
      unfold Thread.Ok at hok
      unfold State.step
      cases hpc : (s.threads t).pc with
      | run_transaction c inevitable =>
          simp only [hpc] at hok ⊢
          rcases hok with htl | ⟨c, rest, htl⟩
          · simp [htl]
          · simp [htl]
      | _ => simp [hpc]
  | stm_commit_transaction t =>
      unfold State.step
      dsimp only
      split <;> simp
  | stm_abort_transaction t =>
      unfold State.step
      dsimp only
      split <;> simp
  | du_run_transactions t =>
      unfold State.step
      dsimp only
      split <;> simp
  | major_collection => simp [State.step]

/-- A thread that is not blocked goes on. -/
theorem Inv.thread_next (h : Inv n s) (hblocked : s.thread n t ≠ .blocked) :
    ∃ s', s.thread n t = .next s' := by
  cases hs : s.thread n t with
  | blocked => exact absurd hs hblocked
  | fault => exact absurd hs (h.thread_ne_fault t)
  | next s' => exact ⟨s', rfl⟩

/-- Where a statement can block. -/
theorem thread_blocked (hs : s.thread n t = .blocked) :
    (s.threads t).pc = .unborn ∨ (s.threads t).pc = .done
      ∨ ((s.threads t).pc = .mutex_lock ∧ s.mutex_sleep = true)
      ∨ (∃ c inevitable, (s.threads t).pc = .run_transaction c inevitable)
      ∨ ∃ c first, (s.threads t).pc = .pthread_join c first
        ∧ ¬ ∀ u < n, (s.threads (first + u)).pc = .done := by
  unfold State.thread at hs
  cases hpc : (s.threads t).pc with
  | unborn => exact Or.inl rfl
  | done => exact Or.inr (Or.inl rfl)
  | mutex_lock =>
      simp only [hpc] at hs
      by_cases hlocked : s.mutex_sleep = true
      · exact Or.inr (Or.inr (Or.inl ⟨rfl, hlocked⟩))
      · simp [hlocked] at hs
  | run_transaction c inevitable => exact Or.inr (Or.inr (Or.inr (Or.inl ⟨c, inevitable, rfl⟩)))
  | pthread_join c first =>
      simp only [hpc] at hs
      by_cases hall : ∀ u < n, (s.threads (first + u)).pc = .done
      · rw [if_pos hall] at hs
        exact absurd hs (by simp)
      · exact Or.inr (Or.inr (Or.inr (Or.inr ⟨c, first, rfl, hall⟩)))
  | restart =>
      simp only [hpc] at hs
      split at hs
      · exact absurd hs (by simp)
      · split at hs <;> exact absurd hs (by simp)
  | start_inevitable pending =>
      simp only [hpc] at hs
      split at hs
      · exact absurd hs (by simp)
      · split at hs <;> exact absurd hs (by simp)
  | sleeping =>
      simp only [hpc] at hs
      split at hs
      · exact absurd hs (by simp)
      · split at hs <;> exact absurd hs (by simp)
  | start_transaction =>
      simp only [hpc] at hs
      split at hs
      · split at hs <;> exact absurd hs (by simp)
      · exact absurd hs (by simp)
  | next_cell =>
      simp only [hpc] at hs
      split at hs <;> exact absurd hs (by simp)
  | compare_and_swap ts =>
      simp only [hpc] at hs
      split at hs <;> exact absurd hs (by simp)
  | TransactionRun c =>
      simp only [hpc] at hs
      split at hs <;> exact absurd hs (by simp)
  | nothing_to_do => simp [hpc] at hs
  | woke ts => simp [hpc] at hs
  | return_NULL => simp [hpc] at hs

/-- Not all threads wait. -/
theorem Inv.goes_on (h : Inv n s) :
    ∃ t, (∃ c inevitable, (s.threads t).pc = .run_transaction c inevitable)
      ∨ ∃ s', s.thread n t = .next s' := by
  by_contra hstuck
  rw [not_exists] at hstuck
  have hblocked : ∀ t, s.thread n t = .blocked := by
    intro t
    by_contra hnot
    exact hstuck t (Or.inr (h.thread_next hnot))
  have hcase : ∀ t, (s.threads t).pc = .unborn ∨ (s.threads t).pc = .done
      ∨ ((s.threads t).pc = .mutex_lock ∧ s.mutex_sleep = true)
      ∨ ∃ c first, (s.threads t).pc = .pthread_join c first
        ∧ ¬ ∀ u < n, (s.threads (first + u)).pc = .done := by
    intro t
    rcases thread_blocked (hblocked t) with hpc | hpc | hpc | hpc | hpc
    · exact Or.inl hpc
    · exact Or.inr (Or.inl hpc)
    · exact Or.inr (Or.inr (Or.inl hpc))
    · exact absurd (Or.inl hpc) (hstuck t)
    · exact Or.inr (Or.inr (Or.inr hpc))
  -- the main thread waits for the others
  rcases h.main with ⟨hmain | ⟨hmain, -⟩, -⟩ | ⟨first, hmain, hw⟩
  · have h0 := hcase 0
    simp [hmain] at h0
  · have h0 := hcase 0
    simp [hmain] at h0
  · have hcounted : ∀ t, first ≤ t → t < s.nb_threads → (s.threads t).pc = .done
        ∨ ((s.threads t).pc = .mutex_lock ∧ s.mutex_sleep = true) := by
      intro t hft ht
      have hworker := hw.worker t hft ht
      rcases hcase t with hpc | hpc | hpc | ⟨c, first', hpc, -⟩
      · rw [hpc] at hworker
        exact absurd hworker (by simp [Pc.worker])
      · exact Or.inl hpc
      · exact Or.inr hpc
      · rw [hpc] at hworker
        exact absurd hworker (by simp [Pc.worker])
    have hsleeping : s.thread_sleeping = n := by
      rw [hw.thread_sleeping]
      have hone : ∀ t ∈ Finset.Ico first s.nb_threads,
          (if (s.threads t).pc.counted then 1 else 0) = 1 := by
        intro t ht
        rw [Finset.mem_Ico] at ht
        rcases hcounted t ht.1 ht.2 with hpc | ⟨hpc, -⟩ <;> simp [hpc, Pc.counted]
      have hnb := hw.nb_threads
      rw [Finset.sum_congr rfl hone, ← Finset.card_eq_sum_ones, Nat.card_Ico]
      omega
    by_cases hall : ∀ u < n, (s.threads (first + u)).pc = .done
    · rcases hcase 0 with hpc | hpc | ⟨hpc, -⟩ | ⟨c, first', hpc, hnot⟩
      · rw [hmain] at hpc
        exact absurd hpc (by simp)
      · rw [hmain] at hpc
        exact absurd hpc (by simp)
      · rw [hmain] at hpc
        exact absurd hpc (by simp)
      · rw [hmain, Pc.pthread_join.injEq] at hpc
        rw [← hpc.2] at hnot
        exact hnot hall
    · rw [not_forall] at hall
      obtain ⟨u, hu⟩ := hall
      rw [Classical.not_imp] at hu
      have hnb := hw.nb_threads
      -- one of them waits for the mutex, that the last one to be counted has released
      have hlocked : s.mutex_sleep = true := by
        rcases hcounted (first + u) (by omega) (by omega) with hpc | hpc
        · exact absurd hpc hu.2
        · exact hpc.2
      rcases hw.mutex_sleep hlocked with hlt | ⟨t, hft, ht, htest⟩
      · omega
      · rcases hcounted t hft ht with hpc | ⟨hpc, -⟩ <;> simp [hpc, Pc.testing] at htest

end Progress

/-- In every run with at least one thread in which only the main thread calls
`(run-transactions)` and no major collection comes while a thread waits with its cells in a
C local, each cell is executed exactly once, and no assertion fails. -/
theorem transactions_run_exactly_once (n : ℕ) (s : State)
    (h : ReachableIf (· = State.init) (State.step n) (Undisturbed n) s) :
    ExactlyOnce n s ∧ ∀ a, State.step n s a ≠ .fault := by
  have hinv := Inv.reachable h
  refine ⟨⟨fun c hc => hinv.count_eq_one hc, fun c hc => hinv.added_of_executed hc,
    fun c hc => hinv.not_freed hc, ?_, ?_, hinv.goes_on⟩, hinv.step_ne_fault⟩
  · intro t hpc
    have h0 : t ≠ 0 := by
      rintro rfl
      rcases hinv.main with ⟨hmain | ⟨hmain, -⟩, -⟩ | ⟨first, hmain, -⟩ <;> simp [hpc] at hmain
    obtain ⟨first, hmain, hw, hft, ht⟩ := hinv.working h0 (by simp [hpc]) (by simp [hpc])
    exact hinv.pending_of_returned hmain hw hft ht (by rw [hpc]; rfl)
  · intro c first t hjoin hft ht hpc
    rcases hinv.main with ⟨hmain | ⟨hmain, -⟩, -⟩ | ⟨first', hmain, hw⟩
    · simp [hjoin] at hmain
    · simp [hjoin] at hmain
    · rw [hjoin, Pc.pthread_join.injEq] at hmain
      obtain ⟨rfl, rfl⟩ := hmain
      exact hinv.pending_of_returned hjoin hw hft ht (by rw [hpc]; rfl)

/-- One thread, and a cell that adds two more. -/
def one_thread : List Act :=
  [.TransactionAdd 0, .du_run_transactions 0, .thread 0, .thread 1, .thread 1, .thread 1,
    .TransactionAdd 1, .TransactionAdd 1, .stm_commit_transaction 1, .thread 1, .thread 1,
    .major_collection, .thread 1, .stm_abort_transaction 1, .thread 1, .stm_commit_transaction 1]

theorem transactions_run_exactly_once_one_thread :
    ∃ s, ReachableIf (· = State.init) (State.step 1) (Undisturbed 1) s ∧ s.added = [2, 1, 0]
      ∧ s.executed = [2, 0] ∧ (ExactlyOnce 1 s ∧ ∀ a, State.step 1 s a ≠ .fault) := by
  have htest : (run (State.step 1) (Undisturbed 1) State.init one_thread).test
      (fun s => decide (s.added = [2, 1, 0]) && decide (s.executed = [2, 0])) = true := by decide +kernel
  obtain ⟨s, hrun, hs⟩ := Outcome.of_test htest
  rw [Bool.and_eq_true, decide_eq_true_eq, decide_eq_true_eq] at hs
  have hreach : ReachableIf (· = State.init) (State.step 1) (Undisturbed 1) s :=
    ReachableIf.run (.start rfl) one_thread hrun
  exact ⟨s, hreach, hs.1, hs.2, transactions_run_exactly_once 1 s hreach⟩

/-- Thread 2 runs a long transaction while thread 1 runs one that adds two cells, and thread 1
waits to start the next one. -/
def waiting_thread : List Act :=
  [.TransactionAdd 0, .TransactionAdd 0, .du_run_transactions 0, .thread 0, .thread 1, .thread 1,
    .thread 2, .thread 2, .thread 2, .thread 1, .TransactionAdd 1, .TransactionAdd 1,
    .stm_commit_transaction 1, .thread 1, .major_collection]

/-- A major collection frees cells that are still to be executed, and the thread that has them
goes on with the freed memory. -/
theorem not_transactions_run_exactly_once :
    ¬ ∀ n s, Reachable (· = State.init) (State.step n) s →
      ExactlyOnce n s ∧ ∀ a, State.step n s a ≠ .fault := by
  intro h
  have htest : (run (State.step 2) (fun _ _ => True) State.init waiting_thread).test
      (fun s => s.freed 2 && decide (2 ∈ s.pending)) = true := by decide +kernel
  obtain ⟨s, hrun, hs⟩ := Outcome.of_test htest
  rw [Bool.and_eq_true, decide_eq_true_eq] at hs
  have halive := (h 2 s (ReachableIf.run (.start rfl) waiting_thread hrun)).1.alive 2 hs.2
  rw [hs.1] at halive
  exact absurd halive (by simp)

end Stmgc.Duhton
