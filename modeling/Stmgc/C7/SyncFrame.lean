/-
What a thread leaves alone: the part of the state that no function of `Sync`
touches on behalf of another segment.

A [`Frame`] is a predicate about a few fields of the segments that the thread
of segment `i` cannot break. One lemma for each C function says that it keeps
every frame; [`step_other`] and [`step_inevitable`] are the two uses.
-/
import Stmgc.C7.SyncSteps

namespace Stmgc.C7.Sync

open Stmgc.Lib Stmgc.Lib.Exec

variable {NB_SEGMENTS : ℕ} {s t : State} {i j k : ℕ} {P : State → Prop}

/-- What a transaction is to the others. -/
structure View where
  safe_point : SafePoint
  transaction_state : TransactionState
  unique_start_time : ℕ
  modified_old_objects : List ℕ

def Segment.view (seg : Segment) : View where
  safe_point := seg.safe_point
  transaction_state := seg.transaction_state
  unique_start_time := seg.unique_start_time
  modified_old_objects := seg.modified_old_objects

/-- `P` is about these fields only. -/
def ViewOnly (P : State → Prop) : Prop :=
  ∀ s t : State, (∀ k, (t.segs k).view = (s.segs k).view) → P s → P t

/-- The thread of segment `i` may change its own `safe_point`, modify objects
and become inevitable. It may abort segments, itself too, which `P` does not
see, or says to be inevitable. -/
structure Frame (i : ℕ) (P : State → Prop) : Prop where
  view : ViewOnly P
  safe_point : ∀ s v, P s → P (s.set i ({ · with safe_point := v }))
  inevitable : ∀ s, P s → P (s.set i ({ · with transaction_state := .ts_inevitable }))
  modify : ∀ s x, P s → P (s.set i fun seg => { seg with
    modified_old_objects := seg.modified_old_objects ++ [x] })
  own : (∀ s f, P s → P (s.set i f)) ∨ ∀ s, P s → (s.segs i).transaction_state = .ts_inevitable
  reset : ∀ n, (∀ s, P s → P (s.set n ({ · with modified_old_objects := [] })))
    ∨ ∀ s, P s → (s.segs n).transaction_state = .ts_inevitable

/-! ## Assignments -/

theorem ViewOnly.set (h : ViewOnly P) {n : ℕ} {f : Segment → Segment} (hf : ∀ seg, (f seg).view = seg.view)
    (hP : P s) : P (s.set n f) := by
  refine h s _ (fun k => ?_) hP
  rw [segs_set]
  split_ifs with hkn
  · rw [hf, hkn]
  · rfl

theorem ViewOnly.set_segment (h : ViewOnly P) {n : ℕ} {f : Segment → Segment}
    (hf : ∀ seg, (f seg).view = seg.view) : Keeps P (set_segment n f) :=
  keeps_modify fun _ hP => h.set hf hP

/-- An assignment to globals. -/
theorem ViewOnly.modify (h : ViewOnly P) {f : State → State} (hf : ∀ s, (f s).segs = s.segs) :
    Keeps P (Exec.modify f) :=
  keeps_modify fun s hP => h s _ (fun k => by rw [hf]) hP

theorem ViewOnly.s_mutex_lock (h : ViewOnly P) : Keeps P (s_mutex_lock i) :=
  keeps_modify fun s hP => h (s.set i ({ · with pc := .has_mutex })) _ (fun _ => rfl)
    (h.set (fun _ => rfl) hP)

theorem ViewOnly.s_mutex_unlock (h : ViewOnly P) {pc : Pc} : Keeps P (s_mutex_unlock i pc) :=
  keeps_modify fun s hP => h (s.set i ({ · with pc := pc })) _ (fun _ => rfl)
    (h.set (fun _ => rfl) hP)

theorem ViewOnly.cond_wait {α : Type} (h : ViewOnly P) {wait : CondWait} :
    Keeps P (cond_wait i wait : Exec State α) := by
  refine Keeps.bind (keeps_modify fun s hP => ?_) fun _ => keeps_leave
  exact h (s.set i ({ · with pc := .blocked wait })) _ (fun _ => rfl) (h.set (fun _ => rfl) hP)

theorem ViewOnly.cond_broadcast (h : ViewOnly P) {c : CondType} : Keeps P (cond_broadcast c) := by
  refine keeps_modify fun s hP => h s _ (fun k => ?_) hP
  show ((s.segs k).wake c).view = _
  unfold Segment.wake
  split
  · split_ifs <;> rfl
  · rfl

/-- `P` does not see segment `i`. -/
theorem ViewOnly.other (h : ViewOnly P) (hown : ∀ s f, P s → P (s.set i f))
    (ht : ∀ k, k ≠ i → t.segs k = s.segs k) (hP : P s) : P t := by
  refine h (s.set i fun _ => t.segs i) t (fun k => ?_) (hown s _ hP)
  rw [segs_set]
  split_ifs with hk
  · rw [hk]
  · rw [ht k hk]

/-! ## Aborts -/

theorem ViewOnly.clear_write_locks (h : ViewOnly P) {n : ℕ} {objs : List ℕ} :
    Keeps P (clear_write_locks n objs) := by
  refine keeps_forEach fun _ => keeps_get_bind fun _ => keeps_assert.bind fun _ => ?_
  exact h.modify fun _ => rfl

theorem Frame.abort_data_structures (h : Frame i P) {n : ℕ} :
    Keeps P (abort_data_structures_from_segment_num n) := by
  rcases h.reset n with hreset | hinev
  · refine keeps_get_bind fun _ => keeps_assert.bind fun _ => keeps_get_bind fun _ => ?_
    exact h.view.clear_write_locks.bind fun _ => keeps_modify fun s hP => hreset s hP
  · -- an inevitable transaction: stm_fatalerror
    refine keeps_of_fault fun s hP => ?_
    have hne : (s.segs n).transaction_state ≠ .ts_regular := by
      rw [hinev s hP]
      nofun
    rw [eq_fault]
    unfold abort_data_structures_from_segment_num
    simp only [wp_bind, wp_get, wp_assert]
    exact fun hwp => hne hwp.1

theorem ViewOnly.release_thread_segment (h : ViewOnly P) : Keeps P (release_thread_segment i) := by
  refine keeps_get_bind fun _ => Keeps.bind (keeps_ifThen (h.cond_broadcast.bind fun _ => ?_))
    fun _ => keeps_assert.bind fun _ => Keeps.bind ?_ fun _ => keeps_assert.bind fun _ => ?_
  · exact h.set_segment fun _ => rfl
  · exact h.set_segment fun _ => rfl
  · exact h.modify fun _ => rfl

theorem finish_transaction_keeps (h : ViewOnly P) (hown : ∀ s f, P s → P (s.set i f)) :
    Keeps P (_finish_transaction i) :=
  (keeps_modify fun s hP => hown s _ hP).bind fun _ => h.release_thread_segment

theorem Frame.abort_with_mutex {α : Type} (h : Frame i P) :
    Keeps P (abort_with_mutex i : Exec State α) := by
  rcases h.own with hown | hown
  · refine h.abort_data_structures.bind fun _ => keeps_get_bind fun _ =>
      Keeps.bind (keeps_ifThen ?_) fun _ => ?_
    · exact h.view.set_segment fun _ => rfl
    · refine (finish_transaction_keeps h.view hown).bind fun _ => ?_
      exact h.view.cond_broadcast.bind fun _ => h.view.s_mutex_unlock.bind fun _ => keeps_leave
  · refine keeps_of_fault fun s hP => ?_
    have hne : (s.segs i).transaction_state ≠ .ts_regular := by
      rw [hown s hP]
      nofun
    rw [eq_fault]
    unfold Sync.abort_with_mutex abort_data_structures_from_segment_num
    simp only [wp_bind, wp_get, wp_assert]
    exact fun hwp => hne hwp.1

/-! ## Safe points -/

theorem ViewOnly.signal_other_to_commit_soon (h : ViewOnly P) {other : ℕ} :
    Keeps P (signal_other_to_commit_soon other) := by
  refine keeps_get_bind fun _ => keeps_ifThen ?_
  exact h.set_segment fun _ => rfl

theorem Frame.enter_safe_point_turn (h : Frame i P) {caller : SafePointCaller} :
    Keeps P (enter_safe_point_turn i caller) := by
  refine keeps_get_bind fun _ => keeps_ite h.abort_with_mutex (keeps_ite keeps_pure ?_)
  refine Keeps.bind (keeps_ifThen ?_) fun _ => keeps_ite keeps_pure ?_
  · exact h.view.set_segment fun _ => rfl
  · refine keeps_get_bind fun _ => keeps_assert.bind fun _ => keeps_assert.bind fun _ => ?_
    refine h.view.cond_broadcast.bind fun _ => Keeps.bind ?_ fun _ => h.view.cond_wait
    exact keeps_modify fun s hP => h.safe_point s _ hP

theorem Frame.enter_safe_point_if_requested (h : Frame i P) {caller : SafePointCaller} :
    Keeps P (enter_safe_point_if_requested i caller) := by
  refine keeps_get_bind fun _ => keeps_ite keeps_pure ?_
  exact keeps_assert.bind fun _ => keeps_assert.bind fun _ => h.enter_safe_point_turn

theorem ViewOnly.signal_everybody_to_pause_running (h : ViewOnly P) :
    Keeps P (signal_everybody_to_pause_running NB_SEGMENTS i) := by
  refine keeps_get_bind fun _ => keeps_assert.bind fun _ => Keeps.bind ?_ fun _ =>
    keeps_assert.bind fun _ => Keeps.bind ?_ fun _ => keeps_assert.bind fun _ => ?_
  · exact h.modify fun _ => rfl
  · refine keeps_forEach fun _ => keeps_get_bind fun _ => keeps_ifThen ?_
    exact h.set_segment fun _ => rfl
  · exact h.modify fun _ => rfl

theorem count_other_threads_sp_running_keeps :
    Keeps P (count_other_threads_sp_running NB_SEGMENTS i) :=
  keeps_get_bind fun _ =>
    (keeps_forEach fun _ => keeps_ifThen keeps_assert).bind fun _ => keeps_pure

theorem ViewOnly.remove_requests_for_safe_point (h : ViewOnly P) :
    Keeps P (remove_requests_for_safe_point NB_SEGMENTS) := by
  refine keeps_get_bind fun _ => keeps_assert.bind fun _ => Keeps.bind ?_ fun _ =>
    keeps_assert.bind fun _ => Keeps.bind ?_ fun _ => Keeps.bind ?_ fun _ => h.cond_broadcast
  · exact h.modify fun _ => rfl
  · exact h.modify fun _ => rfl
  · refine keeps_forEach fun _ => keeps_get_bind fun _ => keeps_assert.bind fun _ =>
      keeps_ifThen ?_
    exact h.set_segment fun _ => rfl

theorem ViewOnly.synchronized (h : ViewOnly P) {caller : SyncCaller} : Keeps P (synchronized i caller) := by
  refine Keeps.bind ?_ fun _ => keeps_leave
  exact h.set_segment fun _ => rfl

theorem Frame.synchronize_turn (h : Frame i P) {caller : SyncCaller} :
    Keeps P (synchronize_turn NB_SEGMENTS i caller) := by
  refine count_other_threads_sp_running_keeps.bind fun _ => keeps_ite ?_ (keeps_ite ?_ ?_)
  · refine Keeps.bind ?_ fun _ => h.view.cond_wait
    exact keeps_modify fun s hP => h.safe_point s _ hP
  · refine Keeps.bind ?_ fun _ => keeps_get_bind fun _ => keeps_assert.bind fun _ =>
      Keeps.bind ?_ fun _ => h.view.synchronized
    · exact h.view.modify fun _ => rfl
    · exact h.view.set_segment fun _ => rfl
  · exact h.view.remove_requests_for_safe_point.bind fun _ => h.view.synchronized

theorem Frame.synchronize_after_safe_point (h : Frame i P) {caller : SyncCaller} :
    Keeps P (synchronize_after_safe_point NB_SEGMENTS i caller) := by
  refine keeps_get_bind fun _ => keeps_ite ?_ ?_
  · exact count_other_threads_sp_running_keeps.bind fun _ => keeps_assert.bind fun _ =>
      h.view.synchronized
  · exact h.view.signal_everybody_to_pause_running.bind fun _ => h.synchronize_turn

theorem Frame.synchronize_all_threads (h : Frame i P) {caller : SyncCaller} :
    Keeps P (synchronize_all_threads NB_SEGMENTS i caller) :=
  h.enter_safe_point_if_requested.bind fun _ => h.synchronize_after_safe_point

theorem ViewOnly.committed_globally_unique_transaction (h : ViewOnly P) :
    Keeps P (committed_globally_unique_transaction NB_SEGMENTS i) := by
  refine keeps_get_bind fun _ => keeps_assert.bind fun _ => keeps_assert.bind fun _ =>
    Keeps.bind ?_ fun _ => Keeps.bind ?_ fun _ => h.remove_requests_for_safe_point
  · exact h.set_segment fun _ => rfl
  · exact h.modify fun _ => rfl

/-! ## Contention -/

theorem Frame.kill_other_thread (h : Frame i P) {other : ℕ} :
    Keeps P (kill_other_thread i other) := by
  refine keeps_get_bind fun _ => Keeps.bind (keeps_ifThen h.abort_data_structures) fun _ =>
    keeps_ifThen ?_
  exact h.view.set_segment fun _ => rfl

theorem Frame.contention_management (h : Frame i P) {other : ℕ} {kind : Contention} :
    Keeps P (contention_management i other kind) := by
  refine keeps_get_bind fun s => keeps_assert.bind fun _ => keeps_assert.bind fun _ =>
    keeps_ite h.abort_with_mutex ?_
  refine (keeps_ifThen keeps_assert).bind fun _ => keeps_ite ?_ (keeps_ite ?_ ?_)
  · -- sleep
    refine Keeps.bind ?_ fun _ => h.view.signal_other_to_commit_soon.bind fun _ =>
      h.view.cond_broadcast.bind fun _ => Keeps.bind ?_ fun _ => h.view.cond_wait
    · exact h.view.set_segment fun _ => rfl
    · exact keeps_modify fun s hP => h.safe_point s _ hP
  · -- abort this thread
    exact h.view.signal_other_to_commit_soon.bind fun _ => h.abort_with_mutex
  · -- abort the other thread
    refine Keeps.bind ?_ fun _ => keeps_get_bind fun t => ?_
    · exact h.view.set_segment fun _ => rfl
    · cases (t.segs other).safe_point with
      | sp_running =>
          refine keeps_ite (h.abort_with_mutex.bind fun _ => ?_) (h.view.cond_wait.bind fun _ => ?_)
          · exact h.kill_other_thread
          · exact h.kill_other_thread
      | sp_wait_for_c_request_removed
      | sp_wait_for_c_at_safe_point
      | sp_wait_for_c_transaction_done =>
          exact h.view.cond_broadcast.bind fun _ => h.kill_other_thread
      | sp_no_transaction => exact keeps_assert.bind fun _ => h.kill_other_thread

theorem Frame.write_write_contention_management (h : Frame i P) {lock_idx : ℕ} :
    Keeps P (write_write_contention_management i lock_idx) :=
  h.view.s_mutex_lock.bind fun _ => keeps_get_bind fun _ =>
    (keeps_ifThen h.contention_management).bind fun _ => h.view.s_mutex_unlock

/-! ## Transactions -/

theorem Frame.wait_for_end_of_inevitable_transaction (h : Frame i P) :
    Keeps P (wait_for_end_of_inevitable_transaction NB_SEGMENTS i) := by
  refine keeps_get_bind fun s => ?_
  split
  · refine h.contention_management.bind fun _ => ?_
    exact h.view.set_segment fun _ => rfl
  · refine Keeps.bind ?_ fun _ => h.view.s_mutex_unlock
    exact keeps_modify fun s hP => h.inevitable s hP

theorem Frame.after_safe_point (h : Frame i P) (caller : SafePointCaller) :
    Keeps P (after_safe_point NB_SEGMENTS i caller) := by
  cases caller with
  | start_transaction => exact h.view.s_mutex_unlock
  | collectable_safe_point => exact h.view.s_mutex_unlock
  | become_inevitable =>
      refine keeps_get_bind fun _ => keeps_ite h.wait_for_end_of_inevitable_transaction ?_
      exact keeps_assert.bind fun _ => h.view.s_mutex_unlock
  | synchronize_all_threads caller => exact h.synchronize_after_safe_point

theorem Frame.lock_and_enter_safe_point (h : Frame i P) {caller : SafePointCaller} :
    Keeps P (lock_and_enter_safe_point NB_SEGMENTS i caller) :=
  h.view.s_mutex_lock.bind fun _ => h.enter_safe_point_if_requested.bind fun _ =>
    h.after_safe_point caller

theorem Frame.detect_write_read_conflicts (h : Frame i P) {segments : List ℕ} :
    Keeps P (detect_write_read_conflicts i segments) :=
  keeps_forEach fun _ => keeps_get_bind fun _ => keeps_ifThen h.contention_management

theorem Frame.after_contention (h : Frame i P) (kind : Contention) :
    Keeps P (after_contention NB_SEGMENTS i kind) := by
  cases kind with
  | write_write => exact h.view.s_mutex_unlock
  | write_read => exact h.synchronize_all_threads
  | inevitable => exact h.wait_for_end_of_inevitable_transaction

theorem Frame.return_from_cond_wait (h : Frame i P) (wait : CondWait) :
    Keeps P (return_from_cond_wait NB_SEGMENTS i wait) := by
  refine Keeps.bind (keeps_modify fun s hP => h.safe_point s _ hP) fun _ =>
    h.view.s_mutex_lock.bind fun _ => keeps_get_bind fun _ => ?_
  cases wait with
  | request_removed caller =>
      exact h.enter_safe_point_turn.bind fun _ => h.after_safe_point caller
  | at_safe_point caller =>
      refine keeps_ite ?_ h.synchronize_turn
      exact h.view.remove_requests_for_safe_point.bind fun _ => h.abort_with_mutex
  | transaction_done other kind => exact keeps_ite h.abort_with_mutex (h.after_contention kind)
  | aborted other kind =>
      refine keeps_ite h.abort_with_mutex ?_
      exact h.kill_other_thread.bind fun _ => h.after_contention kind

theorem Frame.stm_start_transaction (h : Frame i P) {tl : ℕ} :
    Keeps P (_stm_start_transaction NB_SEGMENTS tl i) := by
  rcases h.own with hown | hown
  · refine keeps_get_bind fun _ => keeps_assert.bind fun _ => keeps_assert.bind fun _ =>
      keeps_assert.bind fun _ => Keeps.bind (keeps_modify fun s hP => ?_) fun _ =>
      h.enter_safe_point_if_requested.bind fun _ => h.after_safe_point _
    refine h.view.other hown (fun k hk => ?_) hP
    dsimp only
    rw [segs_set, if_neg hk]
  · -- the segment is in use
    refine keeps_of_fault fun s hP => ?_
    have hne : (s.segs i).transaction_state ≠ .ts_none := by
      rw [hown s hP]
      nofun
    rw [eq_fault]
    unfold _stm_start_transaction
    simp only [wp_bind, wp_get, wp_assert]
    exact fun hwp => hne hwp.2.2.1

theorem Frame.commit_transaction_synchronized (h : Frame i P)
    (hown : ∀ s f, P s → P (s.set i f)) :
    Keeps P (commit_transaction_synchronized NB_SEGMENTS i) := by
  refine Keeps.bind ?_ fun _ => h.detect_write_read_conflicts.bind fun _ =>
    keeps_get_bind fun _ => keeps_assert.bind fun _ => Keeps.bind ?_ fun _ =>
    Keeps.bind (keeps_ifThen h.view.committed_globally_unique_transaction) fun _ =>
    (finish_transaction_keeps h.view hown).bind fun _ => h.view.s_mutex_unlock
  · exact h.view.set_segment fun _ => rfl
  · refine keeps_get_bind fun _ => h.view.clear_write_locks.bind fun _ => ?_
    exact keeps_modify fun s hP => hown s _ hP

theorem Frame.write_slowpath_common (h : Frame i P) {lock_idx : ℕ} (hP : P s) :
    P (write_slowpath_common s i lock_idx) := by
  have hread := h.view.set (n := i) (f := (stm_read · lock_idx)) (fun _ => rfl) hP
  unfold Sync.write_slowpath_common
  dsimp only
  split_ifs
  · exact h.view (State.set _ i _) _ (fun _ => rfl) (h.modify _ lock_idx hread)
  · exact hread

/-! ## Steps -/

/-- No step of a segment breaks a frame of it, a commit excepted that the
frame may see. -/
theorem Frame.step {a : Act} (h : Frame a.segment_num P)
    (hcommit : a = .commit_transaction_synchronized a.segment_num →
      ∀ s f, P s → P (s.set a.segment_num f))
    (hP : P s) (ht : step NB_SEGMENTS s a = .next t) : P t := by
  obtain ⟨-, ht⟩ := guarded_eq_next.mp ht
  cases a with
  | start_transaction tl i =>
      exact h.stm_start_transaction.outcome hP (guarded_eq_next.mp ht).2
  | next_read_version i =>
      obtain ⟨-, hnext⟩ := guarded_eq_next.mp ht
      cases hnext
      refine h.view.set (fun seg => ?_) hP
      unfold next_read_version
      dsimp only
      split_ifs <;> rfl
  | stm_read i x =>
      obtain ⟨-, hnext⟩ := guarded_eq_next.mp ht
      cases hnext
      exact h.view.set (fun _ => rfl) hP
  | stm_write i x =>
      obtain ⟨-, hnext⟩ := guarded_eq_next.mp ht
      cases hnext
      exact h.write_slowpath_common hP
  | write_write_contention i x =>
      refine h.write_write_contention_management.outcome ?_ (guarded_eq_next.mp ht).2
      exact h.view.set (fun _ => rfl) hP
  | collectable_safe_point i =>
      exact h.lock_and_enter_safe_point.outcome hP (guarded_eq_next.mp ht).2
  | become_inevitable i =>
      exact h.lock_and_enter_safe_point.outcome hP (guarded_eq_next.mp ht).2
  | become_globally_unique i =>
      exact h.lock_and_enter_safe_point.outcome hP (guarded_eq_next.mp ht).2
  | major_collection i =>
      exact h.lock_and_enter_safe_point.outcome hP (guarded_eq_next.mp ht).2
  | commit_transaction i =>
      exact h.lock_and_enter_safe_point.outcome hP (guarded_eq_next.mp ht).2
  | abort_transaction i =>
      refine Keeps.outcome ?_ hP (guarded_eq_next.mp ht).2
      exact h.view.s_mutex_lock.bind fun _ => h.abort_with_mutex
  | spurious_wakeup i =>
      dsimp only [step_segment] at ht
      split at ht
      · cases ht
        exact h.view.set (fun _ => rfl) hP
      · cases ht
  | return_from_cond_wait i =>
      dsimp only [step_segment] at ht
      split at ht
      · exact (h.return_from_cond_wait _).outcome hP (guarded_eq_next.mp ht).2
      · cases ht
  | unlock i =>
      dsimp only [step_segment] at ht
      split at ht
      · exact h.view.s_mutex_unlock.outcome hP ht
      · cases ht
  | commit_transaction_synchronized i =>
      exact (h.commit_transaction_synchronized (hcommit rfl)).outcome hP (guarded_eq_next.mp ht).2
  | goto_restart i =>
      refine Keeps.outcome ?_ hP (guarded_eq_next.mp ht).2
      refine Keeps.bind ?_ fun _ => h.wait_for_end_of_inevitable_transaction
      exact h.view.set_segment fun _ => rfl

/-- A thread leaves the state of the other transactions alone; of what `View`
shows it can only make another one forget its modified objects, by an abort. -/
theorem step_other {a : Act} (ht : step NB_SEGMENTS s a = .next t) (hk : k ≠ a.segment_num) :
    (t.segs k).safe_point = (s.segs k).safe_point
      ∧ (t.segs k).transaction_state = (s.segs k).transaction_state
      ∧ (t.segs k).unique_start_time = (s.segs k).unique_start_time := by
  have hfree : ∀ (u : State) (f : Segment → Segment),
      (u.set a.segment_num f).segs k = u.segs k := by
    intro u f
    rw [segs_set, if_neg hk]
  refine Frame.step (P := fun u => (u.segs k).safe_point = (s.segs k).safe_point
      ∧ (u.segs k).transaction_state = (s.segs k).transaction_state
      ∧ (u.segs k).unique_start_time = (s.segs k).unique_start_time) ?_ ?_ ⟨rfl, rfl, rfl⟩ ht
  · refine ⟨?_, ?_, ?_, ?_, .inl ?_, fun n => .inl ?_⟩
    · intro u v hview hu
      have hk := hview k
      unfold Segment.view at hk
      simp only [View.mk.injEq] at hk
      rw [hk.1, hk.2.1, hk.2.2.1]
      exact hu
    · intro u v hu
      rw [hfree]
      exact hu
    · intro u hu
      rw [hfree]
      exact hu
    · intro u x hu
      rw [hfree]
      exact hu
    · intro u f hu
      rw [hfree]
      exact hu
    · intro u hu
      rw [segs_set]
      split_ifs with hkn
      · rw [← hkn]
        exact hu
      · exact hu
  · intro _ u f hu
    rw [hfree]
    exact hu

end Stmgc.C7.Sync
