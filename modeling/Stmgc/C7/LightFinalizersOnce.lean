/-
Light finalizers are called once, when their object dies.

Every step is a [`LightStep`] for every segment, and so in every run a living
object has not had its finalizer called, and a dead one has, once. The
exceptions are in [`finalizers_ok`].
-/
import Stmgc.C7.LightFinalizersCollect

namespace Stmgc.C7.Logged

open Stmgc.Lib

variable {NB_SEGMENTS : ℕ} {cards : Bool} {t t' : Logged} {a : SysAct} {i j : ℕ} {p : Priv}

/-! ## Steps -/

/-- A step that changes only the other fields of one segment. -/
theorem LightStep.of_set (hs : t.step NB_SEGMENTS a = .next t') (h : t.SegInv NB_SEGMENTS i)
    (hinv : Inv NB_SEGMENTS cards t.sys.st) (hset : t'.sys = t.sys.set j p)
    (htouches : touches t.sys i a = false)
    (hp : i = j → PrivFrame (t.sys.priv i) p (t.objects i)) : LightStep NB_SEGMENTS t t' a i := by
  have hst : t'.sys.st = t.sys.st := by
    rw [hset]
    rfl
  have hpriv : t'.sys.priv i = if i = j then p else t.sys.priv i := by
    rw [hset]
    exact priv_set t.sys i j p t.sys.st
  have hinv' : Inv NB_SEGMENTS cards t'.sys.st := by
    rw [hst]
    exact hinv
  refine .of_untouched hs hinv' htouches ?_
  rw [hst, hpriv]
  refine LightInv.frame h .refl ?_
  split
  · rename_i hij
    exact hp hij
  · exact .refl

/-- A step of the machine of `Transaction` that does not free objects. -/
theorem LightStep.of_lift {b : Act} (hs : t.step NB_SEGMENTS a = .next t')
    (h : t.SegInv NB_SEGMENTS i) (hinv : Inv NB_SEGMENTS cards t.sys.st)
    (hinv' : Inv NB_SEGMENTS cards t'.sys.st)
    (hlift : t.sys.lift NB_SEGMENTS b j p = .next t'.sys) (htouches : touches t.sys i a = false)
    (hends : b.ends_minor_collection t.sys.st i = false) (habort : b ≠ .abort_data_structures i)
    (hmajor : ∀ visited, b ≠ .major_collection visited)
    (hp : i = j → PrivFrame (t.sys.priv i) p (t.objects i)) : LightStep NB_SEGMENTS t t' a i := by
  obtain ⟨st, hst, hset⟩ := Outcome.bind_eq_next.mp hlift
  rw [Outcome.next.injEq] at hset
  have hst' : t'.sys.st = st := by
    rw [← hset]
    rfl
  have hpriv : t'.sys.priv i = if i = j then p else t.sys.priv i := by
    rw [← hset]
    exact priv_set t.sys i j p st
  refine .of_untouched hs hinv' htouches ?_
  rw [hst', hpriv]
  refine LightInv.frame h (.of_step hinv hst hends habort hmajor) ?_
  split
  · rename_i hij
    exact hp hij
  · exact .refl

theorem sys_reachable
    (h : ReachableIf (Initial NB_SEGMENTS) (step NB_SEGMENTS) finalizers_ok t) :
    Reachable (Sys.Initial NB_SEGMENTS) (sys_step NB_SEGMENTS) t.sys := by
  induction h with
  | start h0 => exact .start h0.sys
  | step _ _ hs ih => exact ih.step trivial (step_eq_next hs).2.1

/-- Of two objects in the nursery one is moved out by a minor collection, and
segment 2 aborts the transaction after that. -/
def two_objects : List SysAct :=
  [.start_transaction 1 one_root, .stm_allocate 1 2, .stm_enable_light_finalizer 1 (.nursery 0),
    .stm_allocate 1 2, .stm_enable_light_finalizer 1 (.nursery 2), .minor_collection 1 false,
    .collect 1 (fun _ => 0), .collect 1 (fun _ => 0), .evacuate 1 2 64 small (fun _ => 0),
    .collect 1 (fun _ => 0), .collect 1 (fun _ => 0), .abort_data_structures 2 1]

end Stmgc.C7.Logged
