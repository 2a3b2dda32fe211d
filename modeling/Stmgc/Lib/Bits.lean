/-
Words as sets of bits: what the usual masks do to them.
-/
import Mathlib.Data.Nat.Notation
import Mathlib.Tactic.SplitIfs

namespace Stmgc.Lib

variable {w n : ℕ}

/-- A test of one bit. -/
theorem and_twoPow_bne_zero (hn : n < w) (x : BitVec w) :
    (x &&& BitVec.twoPow w n != 0) = x.getLsbD n := by
  rw [BitVec.and_twoPow]
  split_ifs with h
  · rw [h, bne_iff_ne]
    intro hzero
    have hbit := congrArg (fun x => x.getLsbD n) hzero
    simp [hn] at hbit
  · simp [h]

end Stmgc.Lib
