/-
What an abort of `c8` leaves in the pages of its segment.

The backup copies put back what the segment offered to the others all along,
and where `stm_validate` has dropped the backup copy the pages already hold the
committed contents. Without stale copies both are the version of the last entry
that the segment has applied ([`abort_restores_version`]).
-/
import Stmgc.C8.Serializable

namespace Stmgc.C8

open Stmgc.Lib

section

variable {Seg Obj Data : Type} [DecidableEq Seg] [DecidableEq Obj]

/-- The step is the `stm_abort_transaction` of a segment. -/
def aborts (t : Tracked Seg Obj Data) (a : Act Seg Obj Data) (s : Seg) : Prop :=
  a = .continue s ∧ (t.st.segs s).pc = .abort

/-- All old objects are, in one segment, what the log says up to its
`last_commit_log_entry`. -/
def Restored (t : Tracked Seg Obj Data) (s : Seg) : Prop :=
  ∀ o, (t.st.segs s).page o =
    version t.base t.st.log (t.st.segs s).last_commit_log_entry o

theorem segs_of_aborts {t t' : Tracked Seg Obj Data} {a : Act Seg Obj Data} {s : Seg}
    (ha : aborts t a s) (ht : t.step a = .next t') :
    t'.base = t.base ∧ t'.st.log = t.st.log
      ∧ t'.st.segs s = abort_transaction (t.st.segs s) := by
  obtain ⟨rfl, hpc⟩ := ha
  obtain ⟨-, hs, ht'⟩ := tracked_step_eq_next.mp ht
  have hst : t'.st = t.st.set s (abort_transaction (t.st.segs s)) := by
    simp only [C8.step, continue_step, hpc] at hs
    split at hs
    · rw [Outcome.next.injEq] at hs
      exact hs.symm
    · cases hs
  refine ⟨?_, ?_, ?_⟩
  · rw [ht']
    rfl
  · rw [hst]
    rfl
  · rw [hst]
    exact Function.update_self _ _ _

/-- **Abort restores the last validated state.** In every run in which no
validation copies from a segment that has attached its entry and not cleared
its modified objects, an abort leaves every object as the log says: an object
with a backup copy gets it back, and the others keep what is in the pages. -/
theorem abort_restores_version {t t' : Tracked Seg Obj Data} {a : Act Seg Obj Data} {s : Seg}
    (h : ReachableIf Tracked.Initial Tracked.step clean t) (ht : t.step a = .next t')
    (ha : aborts t a s) :
    Restored t' s
      ∧ (∀ o bk_obj, (t.st.segs s).modified_old_objects.lookup o = some bk_obj →
        (t'.st.segs s).page o = bk_obj)
      ∧ ∀ o, o ∉ (t.st.segs s).modified_old_objects →
        (t'.st.segs s).page o = (t.st.segs s).page o := by
  obtain ⟨-, hversion⟩ := versionInv h
  obtain ⟨hbase, hlog, hseg⟩ := segs_of_aborts ha ht
  have hb := (hversion.inv.segs s).barriers
  refine ⟨fun o => ?_, fun o bk hl => ?_, fun o hn => ?_⟩
  · rw [hbase, hlog, hseg, (abort_transaction_page hb ha.2 o).1]
    exact hversion.settled s (by rw [ha.2]; rfl) o
  · rw [hseg, (abort_transaction_page hb ha.2 o).1]
    exact current_of_lookup hl
  · rw [hseg]
    change ((t.st.segs s).modified_old_objects.lookup o).getD _ = _
    rw [AList.lookup_eq_none.mpr hn, Option.getD_none]

/-- Segment `true` starts while the entry of segment `false` is attached and
its modified objects are not cleared, and then aborts. -/
def startsStale : List (Act Bool Unit ℕ) :=
  commitOne ++ startOther ++ [.continue true, .abort_transaction true]

/-- The stale copy is still there after the abort. -/
theorem abort_not_restored :
    ¬ ∀ (t t' : Tracked Bool Unit ℕ) (a : Act Bool Unit ℕ) (s : Bool),
      Reachable Tracked.Initial Tracked.step t → t.step a = .next t' → aborts t a s →
        Restored t' s := by
  intro hall
  obtain ⟨t, t', hrun, ht, hpc, hstale⟩ : ∃ t t',
      run Tracked.step (fun _ _ => True) oneTracked startsStale = .next t
        ∧ t.step (.continue true) = .next t'
        ∧ (t.st.segs true).pc = .abort
        ∧ (t'.st.segs true).page () ≠
          version t'.base t'.st.log (t'.st.segs true).last_commit_log_entry () :=
    ⟨_, _, rfl, rfl, rfl, by decide⟩
  have h0 : Reachable Tracked.Initial Tracked.step oneTracked := .start oneTracked_initial
  exact hstale (hall t t' _ true (h0.run _ hrun) ht ⟨rfl, hpc⟩ ())

/-- The same, but the committer clears its modified objects before. -/
theorem abort_restores_version_cleared :
    ∃ t t', run Tracked.step clean oneTracked (commitOne ++ [.continue false] ++ startOther
          ++ [.continue true, .write true (), .continue true, .store true () 7,
            .abort_transaction true]) = .next t
      ∧ t.step (.continue true) = .next t' ∧ Restored t' true := by
  have h0 : ReachableIf Tracked.Initial Tracked.step clean oneTracked :=
    .start oneTracked_initial
  refine ⟨_, _, rfl, rfl, ?_⟩
  exact (abort_restores_version (s := true) (a := .continue true) (h0.run
    (commitOne ++ [.continue false] ++ startOther
      ++ [.continue true, .write true (), .continue true, .store true () 7,
        .abort_transaction true]) rfl) rfl ⟨rfl, rfl⟩).1

end

end Stmgc.C8
