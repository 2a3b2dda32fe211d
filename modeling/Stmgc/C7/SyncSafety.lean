/-
What the synchronization guarantees in every run: the safe-point protocol, the
safety of inevitable transactions, and the absence of deadlocks.
-/
import Stmgc.C7.SyncFrame

namespace Stmgc.C7.Sync

open Stmgc.Lib

variable {NB_SEGMENTS : ℕ} {s : State} {i j k : ℕ}

/-- The states of all runs from `stm_setup` on. -/
abbrev Reached (NB_SEGMENTS : ℕ) : State → Prop :=
  Reachable (· = State.initial) (step NB_SEGMENTS)

theorem inv_step {s' : State} {a : Act} (h : Inv NB_SEGMENTS s)
    (hs : step NB_SEGMENTS s a = .next s') : Inv NB_SEGMENTS s' := by
  have hok := step_spec h a
  rw [hs] at hok
  exact hok

theorem inv_of_reached (h : Reached NB_SEGMENTS s) : Inv NB_SEGMENTS s := by
  refine h.invariant ?_ fun s a s' hinv _ hs => inv_step hinv hs
  rintro s rfl
  exact inv_initial

/-- The one assertion that fails in a run is the fatal error of a program that
aborts its inevitable transaction. -/
theorem fault_of_reached {a : Act} (h : Reached NB_SEGMENTS s)
    (hs : step NB_SEGMENTS s a = .fault) : aborts_inevitable s a := by
  have hok := step_spec (inv_of_reached h) a
  rw [hs] at hok
  exact hok

/-! ## Safe points -/

/-- Segment `i` runs the globally unique transaction, the one that is
inevitable. -/
def State.runs_globally_unique (NB_SEGMENTS : ℕ) (s : State) (i : ℕ) : Prop :=
  s.globally_unique_transaction = true
    ∧ ∀ k ∈ segment_nums NB_SEGMENTS, (s.segs k).transaction_state = .ts_inevitable ↔ k = i

theorem Inv.runs_globally_unique (h : Inv NB_SEGMENTS s) (hi : i ∈ segment_nums NB_SEGMENTS)
    (hsignalled : s.pause_signalled = true) (hne : (s.segs i).nursery_end = .nursery_end) :
    s.runs_globally_unique NB_SEGMENTS i := by
  obtain ⟨hu, hts⟩ := (h.seg i hi).paused hsignalled hne
  refine ⟨hu, fun k hk => ⟨fun hk' => h.one_inevitable k hk i hi hk' hts, ?_⟩⟩
  rintro rfl
  exact hts

theorem Inv.requester_of_safe_point (h : Inv NB_SEGMENTS s) (hi : i ∈ segment_nums NB_SEGMENTS)
    (hsp : (s.segs i).safe_point = .sp_wait_for_c_at_safe_point) :
    (s.segs i).pc.requester = true := by
  rw [(h.seg i hi).safe_point] at hsp
  unfold Pc.safe_point at hsp
  split at hsp
  · cases hsp
  · rename_i wait hpc
    cases wait with
    | at_safe_point caller => rw [hpc]; rfl
    | _ => cases hsp
  · rename_i wait hpc
    cases wait with
    | at_safe_point caller => rw [hpc]; rfl
    | _ => cases hsp
  · cases hsp

/-- The safe-point protocol: who has been told to pause, what
`synchronize_all_threads` has reached when it returns and until the mutex is
released, how many threads wait for the others, and that no assertion fails.
`stm_abort_transaction` is the one step that may end in a fatal error; it does
not call any function of the protocol. -/
theorem safe_point_protocol (h : Reached NB_SEGMENTS s) :
    (s.pause_signalled = true → ∀ i ∈ segment_nums NB_SEGMENTS,
      (s.segs i).nursery_end = .nursery_end → s.runs_globally_unique NB_SEGMENTS i)
    ∧ (∀ i ∈ segment_nums NB_SEGMENTS,
      (s.segs i).nursery_end = .nse_sigpause → s.pause_signalled = true)
    ∧ (∀ i ∈ segment_nums NB_SEGMENTS, ∀ caller, (s.segs i).pc = .synchronized caller →
      s.mutex = some i
      ∧ (∀ j ∈ segment_nums NB_SEGMENTS, j ≠ i → (s.segs j).safe_point ≠ .sp_running)
      ∧ ∀ a s', a.segment_num = i → step NB_SEGMENTS s a = .next s' →
        ∀ j, j ≠ i → (s'.segs j).safe_point = (s.segs j).safe_point)
    ∧ (∀ i ∈ segment_nums NB_SEGMENTS, ∀ j ∈ segment_nums NB_SEGMENTS,
      (s.segs i).safe_point = .sp_wait_for_c_at_safe_point →
      (s.segs j).safe_point = .sp_wait_for_c_at_safe_point → i = j)
    ∧ ∀ a, (∀ i, a ≠ .abort_transaction i) → step NB_SEGMENTS s a ≠ .fault := by
  have hinv := inv_of_reached h
  refine ⟨?_, ?_, ?_, ?_, ?_⟩
  · intro hsignalled i hi hne
    exact hinv.runs_globally_unique hi hsignalled hne
  · intro i hi hne
    exact (hinv.seg i hi).pause hne
  · intro i hi caller hpc
    refine ⟨?_, fun j hj hne => hinv.calm i hi j hj caller hpc hne, ?_⟩
    · apply (hinv.seg i hi).holder.mpr
      rw [hpc]
      rfl
    · rintro a s' rfl hs j hj
      exact (step_other hs hj).1
  · intro i hi j hj hspi hspj
    apply hinv.one_requester i hi j hj
    · exact hinv.requester_of_safe_point hi hspi
    · exact hinv.requester_of_safe_point hj hspj
  · intro a ha hs
    have habort := fault_of_reached h hs
    unfold aborts_inevitable at habort
    split at habort
    · exact ha _ rfl
    · exact habort

/-- Thread 1 commits and waits for thread 2, which comes to a safe point. -/
def commit_with_two_threads : List Act :=
  [.start_transaction 0 1, .next_read_version 1, .start_transaction 1 2, .next_read_version 2,
    .commit_transaction 1, .collectable_safe_point 2, .return_from_cond_wait 1]

theorem safe_point_protocol_commit : ∃ s,
    run (step 2) (fun _ _ => True) State.initial commit_with_two_threads = .next s
      ∧ (s.segs 1).pc = .synchronized .commit_transaction
      ∧ s.mutex = some 1 ∧ (s.segs 2).safe_point ≠ .sp_running := by
  have htest : (run (step 2) (fun _ _ => True) State.initial commit_with_two_threads).test
      (fun s => decide ((s.segs 1).pc = .synchronized .commit_transaction)) = true := by
    decide +kernel
  obtain ⟨s, hrun, hpc⟩ := Outcome.of_test htest
  have hpc := of_decide_eq_true hpc
  have h0 : Reached 2 State.initial := .start rfl
  have hcalm := (safe_point_protocol (h0.run _ hrun)).2.2.1 1 (by decide) _ hpc
  exact ⟨s, hrun, hpc, hcalm.1, hcalm.2.1 2 (by decide) (by decide)⟩

/-! ## Inevitable transactions -/

/-- Thread `i` is blocked in `contention_management` because of segment `j`, or
in `synchronize_all_threads` because `j` is `SP_RUNNING`. -/
def waits_for (NB_SEGMENTS : ℕ) (s : State) (i j : ℕ) : Prop :=
  i ∈ segment_nums NB_SEGMENTS ∧ match (s.segs i).pc with
    | .blocked (.transaction_done other _) | .blocked (.aborted other _) => j = other
    | .blocked (.at_safe_point _) =>
      j ∈ segment_nums NB_SEGMENTS ∧ j ≠ i ∧ (s.segs j).safe_point = .sp_running
    | _ => False

/-- A thread waits for the end of a transaction, or for the abort of a running
one, or it has paused itself and waits for a running one. -/
theorem Inv.waits_for_cases (h : Inv NB_SEGMENTS s) (hw : waits_for NB_SEGMENTS s i j) :
    j ∈ segment_nums NB_SEGMENTS
      ∧ ((Sync.awaits_done NB_SEGMENTS s i j ∧ (s.segs i).safe_point ≠ .sp_running)
        ∨ (Sync.awaits_abort NB_SEGMENTS s i j ∧ (s.segs j).safe_point = .sp_running)
        ∨ ((s.segs i).safe_point ≠ .sp_running ∧ (s.segs j).safe_point = .sp_running)) := by
  obtain ⟨hi, hw⟩ := hw
  have hsp := (h.seg i hi).safe_point
  split at hw
  · rename_i other kind hpc
    subst hw
    rw [hpc] at hsp
    refine ⟨h.other i hi j (by rw [hpc]; rfl), .inl ⟨⟨hi, by rw [hpc]; rfl⟩, ?_⟩⟩
    rw [hsp]
    nofun
  · rename_i other kind hpc
    subst hw
    have habort : (s.segs i).pc.awaits_abort = some j := by
      rw [hpc]
      rfl
    refine ⟨h.other i hi j (by rw [hpc]; rfl), .inr (.inl ⟨⟨hi, habort⟩, ?_⟩)⟩
    exact (h.awaits_abort i hi j habort).2
  · rename_i caller hpc
    rw [hpc] at hsp
    refine ⟨hw.1, .inr (.inr ⟨?_, hw.2.2⟩)⟩
    rw [hsp]
    nofun
  · exact absurd hw (fun h => h)

/-- The threads that wait for each other never do so in a circle: from a
running thread on they all wait for aborts, and before that for ends of
transactions. So whoever waits, waits in the end for a thread that does not. -/
theorem waits_for_acyclic (h : Reached NB_SEGMENTS s) :
    Acyclic (waits_for NB_SEGMENTS s)
      ∧ ∀ i j, waits_for NB_SEGMENTS s i j →
        ∃ k, Relation.TransGen (waits_for NB_SEGMENTS s) i k ∧ ∀ l, ¬ waits_for NB_SEGMENTS s k l := by
  have hinv := inv_of_reached h
  have hacyclic : Acyclic (waits_for NB_SEGMENTS s) := by
    refine Acyclic.of_region (T := fun k => (s.segs k).safe_point = .sp_running) ?_ ?_ ?_
    · intro a b ha hab
      rcases (hinv.waits_for_cases hab).2 with ⟨-, hstop⟩ | ⟨-, hrun⟩ | ⟨hstop, -⟩
      · exact absurd ha hstop
      · exact hrun
      · exact absurd ha hstop
    · refine hinv.acyclic_abort.mono fun a b hab => ?_
      rcases (hinv.waits_for_cases hab.2).2 with ⟨-, hstop⟩ | ⟨habort, -⟩ | ⟨hstop, -⟩
      · exact absurd hab.1 hstop
      · exact habort
      · exact absurd hab.1 hstop
    · refine hinv.acyclic_done.mono fun a b hab => ?_
      rcases (hinv.waits_for_cases hab.1).2 with ⟨hdone, -⟩ | ⟨-, hrun⟩ | ⟨-, hrun⟩
      · exact hdone
      · exact absurd hrun hab.2
      · exact absurd hrun hab.2
  refine ⟨hacyclic, fun i j hij => ?_⟩
  refine hacyclic.exists_sink (segment_nums NB_SEGMENTS).toFinset (fun a b hab => ?_) hij
  exact List.mem_toFinset.mpr (hinv.waits_for_cases hab).1

/-- Two regular transactions want each other's objects: thread 2 is older and
has told thread 1 to abort, for which it waits. -/
def write_write_wait : List Act :=
  [.start_transaction 1 2, .next_read_version 2, .start_transaction 0 1, .next_read_version 1,
    .stm_write 1 5, .write_write_contention 2 5]

theorem waits_for_acyclic_write_write : ∃ s,
    run (step 2) (fun _ _ => True) State.initial write_write_wait = .next s
      ∧ waits_for 2 s 2 1 ∧ ¬ Relation.TransGen (waits_for 2 s) 2 2 := by
  have htest : (run (step 2) (fun _ _ => True) State.initial write_write_wait).test
      (fun s => decide ((s.segs 2).pc = .blocked (.aborted 1 .write_write))) = true := by
    decide +kernel
  obtain ⟨s, hrun, hpc⟩ := Outcome.of_test htest
  have hpc := of_decide_eq_true hpc
  have h0 : Reached 2 State.initial := .start rfl
  refine ⟨s, hrun, ⟨by decide, ?_⟩, (waits_for_acyclic (h0.run _ hrun)).1 2⟩
  rw [hpc]

end Stmgc.C7.Sync
