/-
Each step keeps the invariant of `TransactionInv`: a statement of a thread at work
is a [`Move`], the others are taken one by one.
-/
import Stmgc.Duhton.TransactionInv

namespace Stmgc.Duhton

open Stmgc.Lib

/-- The steps that the claim is about: only the main thread calls
`(run-transactions)`, with threads to run them, and no major collection comes
while a thread waits with its cells in a C local. -/
def Undisturbed (all_threads_count : ℕ) (s : State) : Act → Prop
  | .du_run_transactions t => t = 0 ∧ 0 < all_threads_count
  | .major_collection => ∀ t < s.nb_threads, (s.threads t).pc.in_local = false
  | _ => True

instance (all_threads_count : ℕ) (s : State) (a : Act) :
    Decidable (Undisturbed all_threads_count s a) :=
  match a with
  | .du_run_transactions t => inferInstanceAs (Decidable (t = 0 ∧ 0 < all_threads_count))
  | .major_collection =>
    inferInstanceAs (Decidable (∀ t < s.nb_threads, (s.threads t).pc.in_local = false))
  | .thread _ | .TransactionAdd _ | .stm_commit_transaction _ | .stm_abort_transaction _ => .isTrue trivial

variable {n first t : ℕ} {s s' : State} {x : Thread}

/-! ## The statements of a thread at work -/

section Moves

/-- A statement that moves no cell, before which and after which the thread has none. -/
theorem Move.quiet (hthreads : s'.threads = Function.update s.threads t x)
    (hrest : s' = { s with
      threads := s'.threads
      thread_sleeping := s'.thread_sleeping
      mutex_sleep := s'.mutex_sleep })
    (hx : x.holds = [] ∧ x.uncommitted = [])
    (hy : (s.threads t).holds = [] ∧ (s.threads t).uncommitted = []) (hok : x.Ok)
    (hworker : x.pc.worker = true)
    (hts : s'.thread_sleeping + (if (s.threads t).pc.counted then 1 else 0)
      = s.thread_sleeping + if x.pc.counted then 1 else 0)
    (hlooking : s.du_pending_transactions ≠ [] → x.pc.looking = true
      ∨ (s.threads t).pc.looking = false)
    (hreturned : x.pc.returned = true → s'.thread_sleeping = n)
    (hall : s.thread_sleeping = n → s'.thread_sleeping = n)
    (hcas : ∀ ts, x.pc = .compare_and_swap ts → ts ≠ n)
    (hmutex : s'.mutex_sleep = true → s'.thread_sleeping < n ∨ x.pc.testing = true
      ∨ x.pc = .woke n ∨ (s.mutex_sleep = true ∧ s'.thread_sleeping = s.thread_sleeping
        ∧ (s.threads t).pc.testing = false ∧ (s.threads t).pc ≠ .woke n)) :
    Move n s s' t x := by
  have hroot : s'.du_pending_transactions = s.du_pending_transactions := by rw [hrest]
  have hadded : s'.added = s.added := by rw [hrest]
  have hexecuted : s'.executed = s.executed := by rw [hrest]
  have hnb : s'.nb_cells = s.nb_cells := by rw [hrest]
  constructor
  · exact hthreads
  · rw [hrest]
  · rw [hrest]
  · rw [hnb]
  · intro c
    rw [hadded, hnb, hx.2, hy.2]
  · intro c
    rw [hadded, hexecuted, hroot, hx.1, hy.1]
  · intro c _
    rw [hroot, hx.1, hx.2, hy.1, hy.2]
  · exact hok
  · exact hworker
  · exact hts
  · intro hne
    rw [hroot] at hne
    exact (hlooking hne).imp_right fun h => ⟨hne, h⟩
  · exact hreturned
  · exact hall
  · exact hcas
  · exact hmutex

/-- A statement that neither looks at the count nor at the mutex, of a thread that is going to
look at the global list. -/
theorem Move.busy (hthreads : s'.threads = Function.update s.threads t x)
    (hrest : s' = { s with
      threads := s'.threads
      du_pending_transactions := s'.du_pending_transactions
      nb_cells := s'.nb_cells
      added := s'.added
      executed := s'.executed })
    (hcells : s.nb_cells ≤ s'.nb_cells)
    (hfresh : ∀ c, s'.added.count c + x.uncommitted.count c + allocated s.nb_cells c
      ≤ s.added.count c + (s.threads t).uncommitted.count c + allocated s'.nb_cells c)
    (honce : ∀ c, s'.added.count c + s.executed.count c + s.du_pending_transactions.count c
      + (s.threads t).holds.count c
      = s.added.count c + s'.executed.count c + s'.du_pending_transactions.count c
        + x.holds.count c)
    (halive : ∀ c < s.nb_cells, s'.du_pending_transactions.count c + x.holds.count c
        + x.uncommitted.count c
      ≤ s.du_pending_transactions.count c + (s.threads t).holds.count c
        + (s.threads t).uncommitted.count c)
    (hok : x.Ok) (hworker : x.pc.worker = true) (hx : x.pc.looking = true)
    (hy : (s.threads t).pc.looking = true) : Move n s s' t x := by
  have hts : s'.thread_sleeping = s.thread_sleeping := by rw [hrest]
  have hmutex : s'.mutex_sleep = s.mutex_sleep := by rw [hrest]
  have hnot : ∀ pc : Pc, pc.looking = true → pc.counted = false ∧ pc.testing = false
      ∧ pc.returned = false := by
    intro pc hpc
    cases pc <;> first | exact ⟨rfl, rfl, rfl⟩ | cases hpc
  obtain ⟨hxc, -, hxr⟩ := hnot _ hx
  obtain ⟨hyc, hyt, -⟩ := hnot _ hy
  constructor
  · exact hthreads
  · rw [hrest]
  · rw [hrest]
  · exact hcells
  · exact hfresh
  · exact honce
  · exact halive
  · exact hok
  · exact hworker
  · rw [hts, hxc, hyc]
  · exact fun _ => Or.inl hx
  · rw [hxr]
    simp
  · rw [hts]
    exact id
  · intro ts hpc
    rw [hpc] at hx
    exact absurd hx (by simp [Pc.looking])
  · rw [hmutex, hts]
    refine fun hlocked => Or.inr (Or.inr (Or.inr ⟨hlocked, rfl, hyt, ?_⟩))
    intro hpc
    rw [hpc] at hy
    exact absurd hy (by simp [Pc.looking])

/-- A statement that moves cells which are already there. -/
theorem Move.pass (hthreads : s'.threads = Function.update s.threads t x)
    (hrest : s' = { s with
      threads := s'.threads
      du_pending_transactions := s'.du_pending_transactions })
    (hx : x.uncommitted = []) (hy : (s.threads t).uncommitted = [])
    (hcells : ∀ c, s'.du_pending_transactions.count c + x.holds.count c
      = s.du_pending_transactions.count c + (s.threads t).holds.count c)
    (hok : x.Ok) (hworker : x.pc.worker = true) (hlook : x.pc.looking = true)
    (hlook' : (s.threads t).pc.looking = true) : Move n s s' t x := by
  have hnb : s'.nb_cells = s.nb_cells := by rw [hrest]
  have hadded : s'.added = s.added := by rw [hrest]
  have hexecuted : s'.executed = s.executed := by rw [hrest]
  refine .busy hthreads (by rw [hrest]) (le_of_eq hnb.symm) ?_ ?_ ?_ hok hworker hlook hlook'
  · intro c
    rw [hnb, hadded, hx, hy]
  · intro c
    have hc := hcells c
    rw [hadded, hexecuted]
    omega
  · intro c _
    have hc := hcells c
    rw [hx, hy]
    omega

/-- A thread at work makes a move. -/
theorem Working.thread (h : Inv n s) (hw : Working n first s) (hft : first ≤ t)
    (ht : t < s.nb_threads) (hs : s.thread n t = .next s') : ∃ x, Move n s s' t x := by
  have hok := h.ok t
  have hworker := hw.worker t hft ht
  have hlt := hw.thread_sleeping_lt hft ht
  have hret := hw.returned t hft ht
  have hcas := hw.compare_and_swap t hft ht
  unfold Thread.Ok at hok
  unfold State.thread at hs
  cases hpc : (s.threads t).pc with
  | unborn => simp [hpc] at hs
  | next_cell =>
      simp only [hpc] at hs hok
      rcases hok with htl | ⟨c, rest, htl⟩
      · simp only [htl, Outcome.next.injEq] at hs
        subst hs
        refine ⟨⟨.NULL, .restart⟩, .pass rfl rfl ?_ ?_ ?_ rfl rfl rfl (by rw [hpc]; rfl)⟩
        all_goals simp [State.set, Thread.holds, Thread.uncommitted, Tlobj.cells, hpc, htl]
      · simp only [htl, Outcome.next.injEq] at hs
        subst hs
        refine ⟨⟨.NULL, .start_inevitable (c :: rest)⟩, .pass rfl rfl ?_ ?_ ?_
          ⟨rfl, by simp⟩ rfl rfl (by rw [hpc]; rfl)⟩
        all_goals simp [State.set, Thread.holds, Thread.uncommitted, Tlobj.cells, hpc, htl]
  | restart =>
      simp only [hpc] at hs hok
      cases hroot : s.du_pending_transactions with
      | nil =>
          simp only [hroot, Outcome.next.injEq] at hs
          subst hs
          refine ⟨⟨(s.threads t).TLOBJ, .nothing_to_do⟩, .quiet rfl rfl ?_ ?_ hok rfl ?_ ?_ ?_ ?_ ?_ ?_⟩
          all_goals simp [State.set, Thread.holds, Thread.uncommitted, Tlobj.cells, hpc, hok, hroot,
            Pc.counted, Pc.returned, Pc.testing]
          exact Or.inr
      | cons result next =>
          simp only [hroot] at hs
          split_ifs at hs with hbad
          rw [Outcome.next.injEq] at hs
          subst hs
          refine ⟨⟨.cell result, .start_transaction⟩, .pass rfl rfl ?_ ?_ ?_
            ⟨result, rfl⟩ rfl rfl (by rw [hpc]; rfl)⟩
          all_goals simp [Thread.holds, Thread.uncommitted, Tlobj.cells, hpc, hok, hroot,
            List.count_cons]
  | start_inevitable pending =>
      simp only [hpc] at hs hok
      obtain ⟨htl, hne⟩ := hok
      cases pending with
      | nil => exact absurd rfl hne
      | cons result next =>
          split_ifs at hs with hbad
          rw [Outcome.next.injEq] at hs
          subst hs
          refine ⟨⟨.cell result, .start_transaction⟩, .pass rfl rfl ?_ ?_ ?_
            ⟨result, rfl⟩ rfl rfl (by rw [hpc]; rfl)⟩
          all_goals simp [Thread.holds, Thread.uncommitted, Tlobj.cells, hpc, List.count_cons]
          all_goals omega
  | nothing_to_do =>
      simp only [hpc, Outcome.next.injEq] at hs hok
      subst hs
      have hlt' : s.thread_sleeping < n := hlt (by rw [hpc]; rfl)
      refine ⟨⟨(s.threads t).TLOBJ, .woke (s.thread_sleeping + 1)⟩,
        .quiet rfl rfl ?_ ?_ hok rfl ?_ ?_ ?_ ?_ ?_ ?_⟩
      all_goals simp [State.set, Thread.holds, Thread.uncommitted, Tlobj.cells, hpc, hok,
        Pc.counted, Pc.returned, Pc.testing, Pc.looking]
      all_goals omega
  | woke ts =>
      simp only [hpc, Outcome.next.injEq] at hs hok
      subst hs
      refine ⟨⟨(s.threads t).TLOBJ, .mutex_lock⟩, .quiet rfl rfl ?_ ?_ hok rfl ?_ ?_ ?_ ?_ ?_ ?_⟩
      all_goals simp [State.set, Thread.holds, Thread.uncommitted, Tlobj.cells, hpc, hok,
        Pc.counted, Pc.returned, Pc.testing, Pc.looking]
      intro hts hlocked
      exact Or.inr ⟨hlocked, hts⟩
  | mutex_lock =>
      simp only [hpc] at hs hok
      split_ifs at hs with hlocked
      rw [Outcome.next.injEq] at hs
      subst hs
      refine ⟨⟨(s.threads t).TLOBJ, .sleeping⟩, .quiet rfl rfl ?_ ?_ hok rfl ?_ ?_ ?_ ?_ ?_ ?_⟩
      all_goals simp [State.set, Thread.holds, Thread.uncommitted, Tlobj.cells, hpc, hok,
        Pc.counted, Pc.returned, Pc.testing, Pc.looking]
  | sleeping =>
      simp only [hpc] at hs hok
      split_ifs at hs with hts h0
      · rw [Outcome.next.injEq] at hs
        subst hs
        refine ⟨⟨(s.threads t).TLOBJ, .return_NULL⟩, .quiet rfl rfl ?_ ?_ hok rfl ?_ ?_ ?_ ?_ ?_ ?_⟩
        all_goals simp [State.set, Thread.holds, Thread.uncommitted, Tlobj.cells, hpc, hok, hts,
          Pc.counted, Pc.returned, Pc.testing, Pc.looking]
      · rw [Outcome.next.injEq] at hs
        subst hs
        refine ⟨⟨(s.threads t).TLOBJ, .compare_and_swap s.thread_sleeping⟩,
          .quiet rfl rfl ?_ ?_ hok rfl ?_ ?_ ?_ ?_ ?_ ?_⟩
        all_goals simp [State.set, Thread.holds, Thread.uncommitted, Tlobj.cells, hpc, hok, hts,
          Pc.counted, Pc.returned, Pc.testing, Pc.looking]
  | compare_and_swap ts =>
      simp only [hpc] at hs hok
      have hne := hcas ts hpc
      have hle := hw.thread_sleeping_le
      have hpos : 0 < s.thread_sleeping := by
        rw [hw.thread_sleeping]
        refine Finset.sum_pos' (fun _ _ => Nat.zero_le _) ⟨t, Finset.mem_Ico.mpr ⟨hft, ht⟩, ?_⟩
        simp [hpc, Pc.counted]
      split_ifs at hs with hts
      · rw [Outcome.next.injEq] at hs
        subst hs
        refine ⟨⟨(s.threads t).TLOBJ, .restart⟩, .quiet rfl rfl ?_ ?_ hok rfl ?_ ?_ ?_ ?_ ?_ ?_⟩
        all_goals simp [State.set, Thread.holds, Thread.uncommitted, Tlobj.cells, hpc, hok, hts,
          Pc.counted, Pc.returned, Pc.testing, Pc.looking]
        · omega
        · omega
        · intro _
          omega
      · rw [Outcome.next.injEq] at hs
        subst hs
        refine ⟨⟨(s.threads t).TLOBJ, .sleeping⟩, .quiet rfl rfl ?_ ?_ hok rfl ?_ ?_ ?_ ?_ ?_ ?_⟩
        all_goals simp [State.set, Thread.holds, Thread.uncommitted, Tlobj.cells, hpc, hok,
          Pc.counted, Pc.returned, Pc.testing, Pc.looking]
  | return_NULL =>
      simp only [hpc, Outcome.next.injEq] at hs hok
      subst hs
      refine ⟨⟨(s.threads t).TLOBJ, .done⟩, .quiet rfl rfl ?_ ?_ hok rfl ?_ ?_ ?_ ?_ ?_ ?_⟩
      all_goals simp [State.set, Thread.holds, Thread.uncommitted, Tlobj.cells, hpc, hok,
        Pc.counted, Pc.returned, Pc.testing, Pc.looking]
      exact hret (by rw [hpc]; rfl)
  | done => simp [hpc] at hs
  | start_transaction =>
      simp only [hpc] at hs hok
      obtain ⟨c, htl⟩ := hok
      simp only [htl] at hs
      split_ifs at hs with hfreed
      rw [Outcome.next.injEq] at hs
      subst hs
      refine ⟨⟨.NULL, .run_transaction (some c) false⟩, .pass rfl rfl ?_ ?_ ?_
        (Or.inl rfl) rfl rfl (by rw [hpc]; rfl)⟩
      all_goals simp [State.set, Thread.holds, Thread.uncommitted, Tlobj.cells, hpc, htl]
  | run_transaction c inevitable => simp [hpc] at hs
  | TransactionRun c => simp [hpc, Pc.worker] at hworker
  | pthread_join c first => simp [hpc, Pc.worker] at hworker

end Moves

/-! ## The main thread -/

section Main

/-- A step of the main thread while it is not waiting. -/
theorem Inv.main_step (h : Inv n s) (hthreads : s'.threads = Function.update s.threads 0 x)
    (hnb : s'.nb_threads = s.nb_threads) (hcells : Cells s') (hok : x.Ok)
    (hpc : x.pc = .run_transaction none true ∨ (x.pc = .TransactionRun none ∧ 0 < n))
    (hroot : s'.du_pending_transactions = [])
    (hdone : ∀ t, 0 < t → t < s.nb_threads → (s.threads t).pc = .done) : Inv n s' := by
  have hself : s'.threads 0 = x := by rw [hthreads, Function.update_self]
  have hother : ∀ t, t ≠ 0 → s'.threads t = s.threads t := by
    intro t ht
    rw [hthreads, Function.update_of_ne ht]
  have hpos := h.nb_pos
  constructor
  · exact hcells
  · rw [hnb]
    exact hpos
  · intro t ht
    rw [hnb] at ht
    rw [hother t (by omega)]
    exact h.unborn t ht
  · intro t
    by_cases ht : t = 0
    · rw [ht, hself]
      exact hok
    · rw [hother t ht]
      exact h.ok t
  · refine Or.inl ⟨by rw [hself]; exact hpc, hroot, fun t h0 ht => ?_⟩
    rw [hnb] at ht
    rw [hother t (by omega)]
    exact hdone t h0 ht

/-- A new thread has nothing. -/
theorem Cells.run_all_threads (h : Cells s) (n : ℕ) : Cells (s.run_all_threads n) := by
  refine ⟨fun c => ?_, fun c => ?_, fun c hc => ?_⟩
  · have hfresh := h.fresh c
    rw [total_run_all_threads _ n rfl]
    exact hfresh
  · have honce := h.once c
    rw [total_run_all_threads _ n rfl]
    exact honce
  · have halive := h.alive c hc
    rw [total_run_all_threads _ n rfl]
    exact halive

/-- The threads start, and none is counted. -/
theorem Inv.run_all_threads (hn : 0 < n) (hpos : 0 < s.nb_threads) (hcells : Cells s)
    (hunborn : ∀ t, s.nb_threads ≤ t → s.threads t = ⟨.NULL, .unborn⟩) (hok : ∀ t, (s.threads t).Ok)
    (hmain : (s.threads 0).pc = .pthread_join none s.nb_threads)
    (hdone : ∀ t, 0 < t → t < s.nb_threads → (s.threads t).pc = .done) :
    Inv n (s.run_all_threads n) := by
  have hnew : ∀ t, s.nb_threads ≤ t → t < s.nb_threads + n →
      (s.run_all_threads n).threads t = ⟨.NULL, .next_cell⟩ := fun t h1 h2 => if_pos ⟨h1, h2⟩
  have hold : ∀ t, t < s.nb_threads → (s.run_all_threads n).threads t = s.threads t :=
    fun t h1 => if_neg (by omega)
  have hlate : ∀ t, s.nb_threads + n ≤ t → (s.run_all_threads n).threads t = s.threads t :=
    fun t h1 => if_neg (by omega)
  have hnb : (s.run_all_threads n).nb_threads = s.nb_threads + n := rfl
  constructor
  · exact hcells.run_all_threads n
  · rw [hnb]
    omega
  · intro t ht
    rw [hnb] at ht
    rw [hlate t ht]
    exact hunborn t (by omega)
  · intro t
    by_cases h1 : t < s.nb_threads
    · rw [hold t h1]
      exact hok t
    by_cases h2 : t < s.nb_threads + n
    · rw [hnew t (by omega) h2]
      exact Or.inl rfl
    · rw [hlate t (by omega)]
      exact hok t
  · refine Or.inr ⟨s.nb_threads, by rw [hold 0 hpos]; exact hmain, ?_⟩
    constructor
    · exact hn
    · exact hpos
    · exact hnb
    · intro t h1 h2
      rw [hnew t h1 h2]
      rfl
    · intro t h0 h1
      rw [hold t h1]
      exact hdone t h0 h1
    · refine (Finset.sum_eq_zero fun t ht => ?_).symm
      rw [hnb, Finset.mem_Ico] at ht
      rw [hnew t ht.1 ht.2]
      rfl
    · intro _
      refine ⟨s.nb_threads, le_refl _, by omega, ?_⟩
      rw [hnew _ (le_refl _) (by omega)]
      rfl
    · intro t h1 h2 hret
      rw [hnew t h1 h2] at hret
      exact absurd hret (by simp [Pc.returned])
    · intro t h1 h2 ts hcas
      rw [hnew t h1 h2] at hcas
      exact absurd hcas (by simp)
    · exact fun _ => Or.inl hn

/-- The next statement of the main thread. -/
theorem Inv.main_thread (h : Inv n s) (hs : s.thread n 0 = .next s') : Inv n s' := by
  have hok := h.ok 0
  unfold Thread.Ok at hok
  unfold State.thread at hs
  rcases h.main with ⟨hpc | ⟨hpc, hn⟩, hroot, hdone⟩ | ⟨first, hpc, hw⟩
  · simp [hpc] at hs
  · simp only [hpc] at hs hok
    rcases hok with htl | ⟨c, rest, htl⟩
    · simp only [htl, Outcome.next.injEq] at hs
      subst hs
      refine h.main_step rfl rfl (h.cells.set h.nb_pos rfl rfl rfl (le_refl _) ?_ ?_ ?_)
        (Or.inl rfl) (Or.inl rfl) hroot hdone
      all_goals simp [State.set, Thread.holds, Thread.uncommitted, Tlobj.cells, hpc, htl]
    · simp only [htl, Outcome.next.injEq] at hs
      subst hs
      -- the list goes from the thread-local object to the global one
      refine Inv.run_all_threads hn h.nb_pos ?_ ?_ ?_ ?_ ?_
      · refine h.cells.set h.nb_pos rfl rfl rfl (le_refl _) ?_ ?_ ?_
        all_goals simp [State.set, Thread.holds, Thread.uncommitted, Tlobj.cells, hpc, htl, hroot]
      · intro t ht
        have hpos := h.nb_pos
        have ht' : s.nb_threads ≤ t := ht
        show Function.update s.threads 0 _ t = _
        rw [Function.update_of_ne (by omega)]
        exact h.unborn t ht'
      · intro t
        show (Function.update s.threads 0 _ t).Ok
        by_cases ht : t = 0
        · rw [ht, Function.update_self]
          rfl
        · rw [Function.update_of_ne ht]
          exact h.ok t
      · show (Function.update s.threads 0 _ 0).pc = _
        rw [Function.update_self]
        rfl
      · intro t h0 ht
        show (Function.update s.threads 0 _ t).pc = _
        rw [Function.update_of_ne (by omega)]
        exact hdone t h0 ht
  · simp only [hpc] at hs hok
    split_ifs at hs with hall
    rw [Outcome.next.injEq] at hs
    subst hs
    have hnb := hw.nb_threads
    have hdone : ∀ t, 0 < t → t < s.nb_threads → (s.threads t).pc = .done := by
      intro t h0 ht
      by_cases hlt : t < first
      · exact hw.old t h0 hlt
      · have hjoin := hall (t - first) (by omega)
        rwa [show first + (t - first) = t by omega] at hjoin
    have hroot : s.du_pending_transactions = [] := by
      by_contra hne
      obtain ⟨t, hft, ht, hlook⟩ := hw.looking hne
      have hfirst := hw.first_pos
      rw [hdone t (by omega) ht] at hlook
      exact absurd hlook (by simp [Pc.looking])
    refine h.main_step rfl rfl (h.cells.set h.nb_pos rfl rfl rfl (le_refl _) ?_ ?_ ?_)
      (Or.inl hok) (Or.inl rfl) hroot hdone
    all_goals simp [State.set, Thread.holds, Thread.uncommitted, Tlobj.cells, hpc, hok]

end Main

/-! ## All steps -/

section Steps

/-- The next statement of any thread. -/
theorem Inv.thread (h : Inv n s) (hs : s.thread n t = .next s') : Inv n s' := by
  by_cases h0 : t = 0
  · rw [h0] at hs
    exact h.main_thread hs
  have hdone : (s.threads t).pc ≠ .done := by
    intro hpc
    simp [State.thread, hpc] at hs
  have hunborn : (s.threads t).pc ≠ .unborn := by
    intro hpc
    simp [State.thread, hpc] at hs
  obtain ⟨first, hmain, hw, hft, ht⟩ := h.working h0 hdone hunborn
  obtain ⟨x, hm⟩ := hw.thread h hft ht hs
  exact h.move hmain hw hm hft ht

/-- What the main thread has in a transaction. -/
theorem Inv.main_run (h : Inv n s) {c : Option Cell} {inevitable : Bool}
    (hpc : (s.threads 0).pc = .run_transaction c inevitable) :
    c = none ∧ inevitable = true ∧ s.du_pending_transactions = []
      ∧ ∀ t, 0 < t → t < s.nb_threads → (s.threads t).pc = .done := by
  rcases h.main with ⟨hpc' | ⟨hpc', -⟩, hroot, hdone⟩ | ⟨first, hpc', -⟩
  · rw [hpc, Pc.run_transaction.injEq] at hpc'
    exact ⟨hpc'.1, hpc'.2, hroot, hdone⟩
  · rw [hpc] at hpc'
    exact absurd hpc' (by simp)
  · rw [hpc] at hpc'
    exact absurd hpc' (by simp)

theorem allocated_succ (k c : ℕ) : allocated (k + 1) c = allocated k c + if k = c then 1 else 0 := by
  unfold allocated
  split_ifs <;> omega

/-- `Du_TransactionAdd`, by what the thread-local object becomes. -/
theorem Inv.transaction_add (h : Inv n s) {c : Option Cell} {inevitable : Bool}
    (hpc : (s.threads t).pc = .run_transaction c inevitable) {tl : Tlobj}
    (hok : ∃ c rest, tl = .pending (c :: rest))
    (htl : tl.cells = s.nb_cells :: (s.threads t).TLOBJ.cells) :
    Inv n ({ s with nb_cells := s.nb_cells + 1 }.set t ⟨tl, (s.threads t).pc⟩) := by
  have hunc : (s.threads t).uncommitted = (s.threads t).TLOBJ.cells := by
    rw [Thread.uncommitted, hpc]
  have hunc' : (Thread.mk tl (s.threads t).pc).uncommitted
      = s.nb_cells :: (s.threads t).TLOBJ.cells := by
    rw [Thread.uncommitted, hpc]
    exact htl
  have hholds : (Thread.mk tl (s.threads t).pc).holds = (s.threads t).holds := by
    rw [Thread.holds, Thread.holds, hpc]
  have hfresh : ∀ c, s.added.count c + (Thread.mk tl (s.threads t).pc).uncommitted.count c
      + allocated s.nb_cells c ≤ s.added.count c + (s.threads t).uncommitted.count c
        + allocated (s.nb_cells + 1) c := by
    intro c
    rw [hunc, hunc', allocated_succ, List.count_cons]
    simp only [beq_iff_eq]
    omega
  have halive : ∀ c < s.nb_cells, s.du_pending_transactions.count c
        + (Thread.mk tl (s.threads t).pc).holds.count c
        + (Thread.mk tl (s.threads t).pc).uncommitted.count c
      ≤ s.du_pending_transactions.count c + (s.threads t).holds.count c
        + (s.threads t).uncommitted.count c := by
    intro c hc
    rw [hunc, hunc', hholds, List.count_cons_of_ne (ne_of_gt hc)]
  have honce : ∀ c, s.added.count c + s.executed.count c + s.du_pending_transactions.count c
      + (s.threads t).holds.count c
      = s.added.count c + s.executed.count c + s.du_pending_transactions.count c
        + (Thread.mk tl (s.threads t).pc).holds.count c := by
    intro c
    rw [hholds]
  have hxok : (Thread.mk tl (s.threads t).pc).Ok := by
    rw [Thread.Ok, hpc]
    exact Or.inr hok
  by_cases h0 : t = 0
  · subst h0
    obtain ⟨rfl, rfl, hroot, hdone⟩ := h.main_run hpc
    exact h.main_step rfl rfl (h.cells.set h.nb_pos rfl rfl rfl (Nat.le_succ _) hfresh honce halive)
      hxok (Or.inl hpc) hroot hdone
  · obtain ⟨first, hmain, hw, hft, ht⟩ := h.working h0 (by rw [hpc]; simp) (by rw [hpc]; simp)
    have hlook : (s.threads t).pc.looking = true := by rw [hpc]; rfl
    exact h.move hmain hw (.busy rfl rfl (Nat.le_succ _) hfresh honce halive hxok
      (hw.worker t hft ht) hlook hlook) hft ht

/-- Every step keeps the invariant. -/
theorem Inv.step {a : Act} (h : Inv n s) (hok : Undisturbed n s a)
    (hs : State.step n s a = .next s') : Inv n s' := by
  have hthread := h.ok
  cases a with
  | thread t => exact h.thread hs
  | TransactionAdd t =>
      have htl := h.ok t
      unfold Thread.Ok at htl
      unfold State.step at hs
      cases hpc : (s.threads t).pc with
      | run_transaction c inevitable =>
          simp only [hpc] at hs htl
          rcases htl with htl | ⟨c', rest, htl⟩
          · simp only [htl, Outcome.next.injEq] at hs
            rw [← hs, ← hpc]
            exact h.transaction_add hpc ⟨_, _, rfl⟩ (by rw [htl]; rfl)
          · simp only [htl, Outcome.next.injEq] at hs
            rw [← hs, ← hpc]
            exact h.transaction_add hpc ⟨_, _, rfl⟩ (by rw [htl]; rfl)
      | _ => simp [hpc] at hs
  | stm_commit_transaction t =>
      have htl := h.ok t
      unfold Thread.Ok at htl
      unfold State.step at hs
      cases hpc : (s.threads t).pc with
      | run_transaction c inevitable =>
          cases c with
          | none => simp [hpc] at hs
          | some c =>
              simp only [hpc, Outcome.next.injEq] at hs htl
              subst hs
              have h0 : t ≠ 0 := by
                rintro rfl
                exact absurd (h.main_run hpc).1 (by simp)
              obtain ⟨first, hmain, hw, hft, ht⟩ :=
                h.working h0 (by rw [hpc]; simp) (by rw [hpc]; simp)
              refine @Inv.move _ _ _ _ _ ⟨(s.threads t).TLOBJ, .next_cell⟩ h hmain hw
                (.busy rfl rfl (le_refl _) ?_ ?_ ?_ htl rfl rfl (by rw [hpc]; rfl)) hft ht
              · intro c'
                simp [State.set, Thread.uncommitted, hpc]
                omega
              · intro c'
                simp [State.set, Thread.holds, hpc, List.count_cons]
                omega
              · intro c' _
                simp [State.set, Thread.holds, Thread.uncommitted, hpc, List.count_cons]
      | _ => simp [hpc] at hs
  | stm_abort_transaction t =>
      unfold State.step at hs
      cases hpc : (s.threads t).pc with
      | run_transaction c inevitable =>
          cases c with
          | none => simp [hpc] at hs
          | some c =>
              cases inevitable with
              | true => simp [hpc] at hs
              | false =>
                  simp only [hpc, Outcome.next.injEq] at hs
                  subst hs
                  have h0 : t ≠ 0 := by
                    rintro rfl
                    exact absurd (h.main_run hpc).1 (by simp)
                  obtain ⟨first, hmain, hw, hft, ht⟩ :=
                    h.working h0 (by rw [hpc]; simp) (by rw [hpc]; simp)
                  refine @Inv.move _ _ _ _ _ ⟨.cell c, .start_transaction⟩ h hmain hw
                    (.busy rfl rfl (le_refl _) ?_ ?_ ?_ ⟨c, rfl⟩ rfl rfl (by rw [hpc]; rfl)) hft ht
                  all_goals simp [State.set, Thread.holds, Thread.uncommitted, Tlobj.cells, hpc]
      | _ => simp [hpc] at hs
  | du_run_transactions t =>
      obtain ⟨rfl, hn⟩ := hok
      have htl := h.ok 0
      unfold Thread.Ok at htl
      unfold State.step at hs
      cases hpc : (s.threads 0).pc with
      | run_transaction c inevitable =>
          obtain ⟨rfl, rfl, hroot, hdone⟩ := h.main_run hpc
          simp only [hpc, Outcome.next.injEq] at hs htl
          subst hs
          refine @Inv.main_step _ _ _ ⟨(s.threads 0).TLOBJ, .TransactionRun none⟩ h rfl rfl
            (h.cells.set h.nb_pos rfl rfl rfl (le_refl _) ?_ ?_ ?_) htl (Or.inr ⟨rfl, hn⟩) hroot hdone
          · intro c'
            simp [State.set, Thread.uncommitted, hpc]
            omega
          · intro c'
            simp [State.set, Thread.holds, hpc]
            omega
          · intro c' _
            simp [State.set, Thread.holds, Thread.uncommitted, hpc]
      | _ => simp [hpc] at hs
  | major_collection =>
      unfold State.step at hs
      rw [Outcome.next.injEq] at hs
      rw [← hs]
      exact ⟨h.cells.major_collection hok, h.nb_pos, h.unborn, h.ok, h.main.imp id
        fun ⟨first, hpc, hw⟩ => ⟨first, hpc, ⟨hw.count_pos, hw.first_pos, hw.nb_threads, hw.worker,
          hw.old, hw.thread_sleeping, hw.looking, hw.returned, hw.compare_and_swap, hw.mutex_sleep⟩⟩⟩

/-- The invariant holds at the start. -/
theorem Inv.init : Inv n State.init := by
  have htotal : ∀ f : Thread → ℕ, State.init.total f = f ⟨.NULL, .run_transaction none true⟩ :=
    fun f => Finset.sum_range_one _
  constructor
  · refine ⟨fun c => ?_, fun c => ?_, fun c hc => absurd hc (by simp [State.init])⟩
    · rw [htotal]
      simp [State.init, Thread.uncommitted, Tlobj.cells]
    · rw [htotal]
      simp [State.init, Thread.holds]
  · simp [State.init]
  · intro t ht
    exact if_neg (Nat.ne_of_gt ht)
  · intro t
    simp only [State.init]
    split
    · exact Or.inl rfl
    · rfl
  · refine Or.inl ⟨Or.inl rfl, rfl, fun t h0 ht => ?_⟩
    simp [State.init] at ht
    omega

/-- The invariant holds in every run whose steps are all undisturbed. -/
theorem Inv.reachable (h : ReachableIf (· = State.init) (State.step n) (Undisturbed n) s) :
    Inv n s :=
  h.invariant (fun _ hs => hs ▸ Inv.init) fun _ _ _ hinv hok hs => hinv.step hok hs

end Steps

end Stmgc.Duhton
