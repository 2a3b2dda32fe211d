/-
Calling `abort_data_structures_from_segment_num` again.

A thread that aborts another one calls it, a major collection may, and the
aborted thread does when it wakes up. Between two calls the other threads run;
the aborted segment is left alone ([`Forgotten`]). What a further call still
changes is what the first one has recorded in
`tl->last_abort__bytes_in_nursery`, and the light finalizers.
-/
import Stmgc.C7.OverflowListed

namespace Stmgc.C7

open Stmgc.Lib

/-! ## What is recorded -/

/-- The bytes of the nursery that the transaction has used, in words. -/
def nursery_used (p : Priv) : ℕ := min p.nursery_current NURSERY_WORDS

/-- `last_abort__bytes_in_nursery` of the thread in each segment. -/
structure Recorded where
  sys : Sys
  last_abort__bytes_in_nursery : ℕ → ℕ

/-- `abort_data_structures_from_segment_num`, with what it records. -/
def abort_recorded (x : Recorded) (gs n : ℕ) : Outcome Recorded :=
  (abort_data_structures_from_segment_num x.sys gs n).bind fun s => .next
    { sys := s
      last_abort__bytes_in_nursery := Function.update x.last_abort__bytes_in_nursery n
        (8 * nursery_used (x.sys.priv n)) }

inductive RecordedAct where
  | sys (a : SysAct)
  /-- another thread is going to use the segment -/
  | set_thread (i last_abort__bytes_in_nursery : ℕ)

def recorded_step (NB_SEGMENTS : ℕ) (x : Recorded) : RecordedAct → Outcome Recorded
  | .sys (.abort_data_structures gs n) =>
    guarded (gs ∈ segment_nums NB_SEGMENTS ∧ n ∈ segment_nums NB_SEGMENTS
      ∧ (x.sys.priv n).transaction_state ≠ .ts_none ∧ ((x.sys.st.segs n).pc = .running
        ∨ (x.sys.st.segs n).pc = .collected ∨ (x.sys.st.segs n).pc = .pushed)) <|
    abort_recorded x gs n
  | .sys a => (sys_step NB_SEGMENTS x.sys a).bind fun s => .next { x with sys := s }
  | .set_thread i bytes =>
    guarded ((x.sys.priv i).transaction_state = .ts_none) <|
    .next { x with
      last_abort__bytes_in_nursery := Function.update x.last_abort__bytes_in_nursery i bytes }

def Recorded.Initial (NB_SEGMENTS : ℕ) (x : Recorded) : Prop := Sys.Initial NB_SEGMENTS x.sys

section

variable {NB_SEGMENTS : ℕ} {s s' : St} {i j : ℕ}

/-- No segment but `j` has changed. -/
def SetsOnly (s s' : St) (j : ℕ) : Prop := ∃ seg, s'.segs = (s.set j seg).segs

theorem SetsOnly.of_eq (h : s'.segs = s.segs) : SetsOnly s s' j := by
  refine ⟨s.segs j, ?_⟩
  unfold St.set
  rw [Function.update_eq_self]
  exact h

theorem SetsOnly.trans {t : St} (h : SetsOnly s t j) (ht : SetsOnly t s' j) : SetsOnly s s' j := by
  obtain ⟨seg, hseg⟩ := h
  obtain ⟨seg', hseg'⟩ := ht
  refine ⟨seg', ?_⟩
  unfold St.set at hseg hseg' ⊢
  dsimp only at hseg hseg' ⊢
  rw [hseg', hseg, Function.update_idem]

end

/-! ## Restoring the shadow stack again -/

theorem restore_slices_restored (entries : ℕ → ℕ) (slices : List (List ℕ)) (base : ℕ) :
    (restore_slices (restore_slices entries base slices).1 base slices).1
      = (restore_slices entries base slices).1 := by
  funext k
  obtain ⟨-, hfirst⟩ := restore_slices_eq entries slices base
  obtain ⟨-, hagain⟩ := restore_slices_eq (restore_slices entries base slices).1 slices base
  rw [hagain]
  split_ifs with hk
  · rw [hfirst, if_pos hk]
  · rfl

/-- `stm_rewind_jmp_restore_shadowstack` is idempotent. -/
theorem restore_shadowstack_restored {t t' : ThreadLocal} (h : restore_shadowstack t = some t')
    (x : ℕ) : restore_shadowstack { t' with thread_local_obj := x }
      = some { t' with thread_local_obj := x } := by
  obtain ⟨harmed, h⟩ := c_assert_eq_some.mp h
  rw [Option.pure_def, Option.some.injEq] at h
  rw [← h]
  refine c_assert_eq_some.mpr ⟨harmed, ?_⟩
  dsimp only
  rw [restore_slices_restored, (restore_slices_eq _ _ _).1, (restore_slices_eq _ _ _).1]
  rfl

/-! ## An aborted segment -/

/-- There is nothing left of the transaction, nor to restore. -/
structure Priv.Forgotten (p : Priv) : Prop where
  transaction_state : p.transaction_state = .ts_regular
  nursery_current : p.nursery_current = 0
  modified_old_objects_markers : p.modified_old_objects_markers = []
  young_weakrefs : p.young_weakrefs = []
  finalizers : p.finalizers = none
  young_objects_with_light_finalizers : p.young_objects_with_light_finalizers = []
  aborted : p.aborted = true
  shadowstack : restore_shadowstack p.running_thread = some p.running_thread
    ∧ p.running_thread.shadowstack = p.shadowstack_at_start_of_transaction
    ∧ p.running_thread.thread_local_obj = p.threadlocal_at_start_of_transaction

structure Forgotten (s : Sys) (n : ℕ) : Prop where
  seg : s.st.segs n = Segment.initial
  priv : (s.priv n).Forgotten

section

variable {NB_SEGMENTS : ℕ} {s s' : Sys} {i j n : ℕ}

theorem Forgotten.of_abort {gs : ℕ}
    (h : Reachable (Sys.Initial NB_SEGMENTS) (sys_step NB_SEGMENTS) s)
    (hn : n ∈ segment_nums NB_SEGMENTS) (hpc : may_abort (s.st.segs n))
    (hs : abort_data_structures_from_segment_num s gs n = .next s') : Forgotten s' n := by
  obtain ⟨hreg, st, tl, hst, htl, htop, rfl⟩ := abort_eq_next hs
  obtain ⟨st', hst', hreset⟩ := reset_all_modified_spec (inv_of_reachable (reachable_st h)) hn hpc
  rw [hst, Outcome.next.injEq] at hst'
  subst hst'
  refine ⟨?_, ?_⟩
  · show st.segs n = Segment.initial
    rw [hreset.seg, segs_abort_data_structures]
    rfl
  · rw [priv_set, if_pos rfl]
    exact ⟨hreg, rfl, rfl, rfl, rfl, rfl, rfl, restore_shadowstack_restored htl _, htop, rfl⟩

/-- The step leaves segment `k` alone, if it is aborted. -/
def Quiet (s s' : Sys) (k : ℕ) : Prop :=
  s'.priv k = s.priv k ∧ (s.st.segs k = Segment.initial → s'.st.segs k = Segment.initial)

end

/-! ## A further call -/

section

variable {NB_SEGMENTS : ℕ} {x y z : Recorded} {n : ℕ}

theorem sys_reachable (h : Reachable (Recorded.Initial NB_SEGMENTS) (recorded_step NB_SEGMENTS) x) :
    Reachable (Sys.Initial NB_SEGMENTS) (sys_step NB_SEGMENTS) x.sys := by
  induction h with
  | start hinit => exact .start hinit
  | @step x x' a _ _ hs ih =>
      cases a with
      | set_thread i bytes =>
          obtain ⟨-, hs⟩ := guarded_eq_next.mp hs
          cases hs
          exact ih
      | sys a =>
          cases a with
          | abort_data_structures gs n =>
              obtain ⟨hguard, hs⟩ := guarded_eq_next.mp hs
              obtain ⟨s, habort, hs⟩ := Outcome.bind_eq_next.mp hs
              cases hs
              exact ih.step (a := .abort_data_structures gs n) trivial
                (guarded_eq_next.mpr ⟨hguard, habort⟩)
          | _ =>
              obtain ⟨s, hstep, hs⟩ := Outcome.bind_eq_next.mp hs
              cases hs
              exact ih.step trivial hstep

end

end Stmgc.C7
