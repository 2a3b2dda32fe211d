/-
The overflow numbers that the segments hold, and those in the objects.

The invariant is about the numbers alone: the held ones are different, no old
object has one ([`ObjectNumbers.old`]), and an overflow object has the one of
its segment, unless it was moved out of the nursery for a commit.
-/
import Stmgc.C7.OverflowNumberStep

namespace Stmgc.C7

open Stmgc.Lib

/-! ## The numbers that are held -/

/-- `number i` is `overflow_number` of segment `i`. -/
structure HeldNumbers (NB_SEGMENTS : ℕ) (number : ℕ → ℕ) (highest : ℕ) : Prop where
  positive : ∀ i ∈ segment_nums NB_SEGMENTS, 0 < number i
  multiple : ∀ i ∈ segment_nums NB_SEGMENTS, GCFLAG_OVERFLOW_NUMBER_bit0 ∣ number i
  bound : ∀ i ∈ segment_nums NB_SEGMENTS, number i ≤ highest
  distinct : ∀ i ∈ segment_nums NB_SEGMENTS, ∀ j ∈ segment_nums NB_SEGMENTS,
    i ≠ j → number i ≠ number j
  highest_multiple : GCFLAG_OVERFLOW_NUMBER_bit0 ∣ highest
  limit : highest < 2 ^ 32 - GCFLAG_OVERFLOW_NUMBER_bit0

section Held

variable {NB_SEGMENTS i highest : ℕ} {number : ℕ → ℕ}

/-- `stm_setup`. -/
theorem HeldNumbers.setup (h : NB_SEGMENTS < 253) :
    HeldNumbers NB_SEGMENTS (fun i => GCFLAG_OVERFLOW_NUMBER_bit0 * i)
      (GCFLAG_OVERFLOW_NUMBER_bit0 * NB_SEGMENTS) := by
  have hbit : GCFLAG_OVERFLOW_NUMBER_bit0 = 16 := rfl
  refine ⟨fun i hi => ?_, fun i _ => Nat.dvd_mul_right _ _, fun i hi => ?_, fun i _ j _ hij => ?_,
    Nat.dvd_mul_right _ _, ?_⟩
  · have := mem_segment_nums.mp hi
    rw [hbit]
    omega
  · exact Nat.mul_le_mul_left _ (mem_segment_nums.mp hi).2
  · rw [hbit]
    omega
  · rw [hbit]
    omega

/-- The end of a commit whose transaction has used its number. -/
theorem HeldNumbers.bump (h : HeldNumbers NB_SEGMENTS number highest)
    (hlimit : highest + GCFLAG_OVERFLOW_NUMBER_bit0 ≠ 2 ^ 32 - GCFLAG_OVERFLOW_NUMBER_bit0) :
    HeldNumbers NB_SEGMENTS (Function.update number i (highest + GCFLAG_OVERFLOW_NUMBER_bit0))
      (highest + GCFLAG_OVERFLOW_NUMBER_bit0) := by
  have hbit : GCFLAG_OVERFLOW_NUMBER_bit0 = 16 := rfl
  have hmult := h.highest_multiple
  have hlim := h.limit
  have hmult' : GCFLAG_OVERFLOW_NUMBER_bit0 ∣ highest + GCFLAG_OVERFLOW_NUMBER_bit0 :=
    Nat.dvd_add hmult (Nat.dvd_refl _)
  refine ⟨fun j hj => ?_, fun j hj => ?_, fun j hj => ?_, fun j hj k hk hjk => ?_, hmult', ?_⟩
  · rw [Function.update_apply]
    split
    · omega
    · exact h.positive j hj
  · rw [Function.update_apply]
    split
    · exact hmult'
    · exact h.multiple j hj
  · have hle := h.bound j hj
    rw [Function.update_apply]
    split
    · exact le_rfl
    · omega
  · have hle := h.bound j hj
    have hle' := h.bound k hk
    rw [Function.update_apply, Function.update_apply]
    split
    · rw [if_neg]
      · omega
      · omega
    · split
      · omega
      · exact h.distinct j hj k hk hjk
  · -- both are multiples of 16
    rw [hbit] at hmult hlim hlimit ⊢
    omega

end Held

/-! ## New numbers -/

section Bytes

variable {f : ℕ → UInt8} {obj n : ℕ}

theorem number_in_eq_zero_iff : number_in f obj = 0 ↔ ∀ k < 4, number_byte f obj k = 0 := by
  rw [number_in_eq]
  constructor
  · intro h k hk
    have hcases : k = 0 ∨ k = 1 ∨ k = 2 ∨ k = 3 := by omega
    rcases hcases with rfl | rfl | rfl | rfl
    all_goals omega
  · intro h
    rw [h 0 (by omega), h 1 (by omega), h 2 (by omega), h 3 (by omega)]
    rfl

/-- The flags of a young object have no number. -/
theorem number_in_of_lt (h : stm_flags f obj < GCFLAG_OVERFLOW_NUMBER_bit0) :
    number_in f obj = 0 := by
  unfold number_in
  rw [Nat.div_eq_of_lt h, Nat.zero_mul]

theorem or_div_16 (a b : UInt8) : (a ||| b).toNat / 16 = a.toNat / 16 ||| b.toNat / 16 := by
  have hor := Nat.shiftRight_or_distrib (a := a.toNat) (b := b.toNat) (i := 4)
  rw [Nat.shiftRight_eq_div_pow, Nat.shiftRight_eq_div_pow, Nat.shiftRight_eq_div_pow] at hor
  rw [UInt8.toNat_or]
  exact hor

/-- `stm_flags |= overflow_number`. -/
theorem number_in_or_overflow_number (hf : stm_flags f obj < GCFLAG_OVERFLOW_NUMBER_bit0)
    (hn : GCFLAG_OVERFLOW_NUMBER_bit0 ∣ n) (hlt : n < 2 ^ 32) :
    number_in (or_overflow_number n obj f) obj = n := by
  unfold stm_flags GCFLAG_OVERFLOW_NUMBER_bit0 at hf
  unfold GCFLAG_OVERFLOW_NUMBER_bit0 at hn
  have hbyte : ∀ k < 4, (or_overflow_number n obj f) (obj + k) = f (obj + k) ||| byte_of n k := by
    intro k hk
    unfold or_overflow_number
    rw [if_pos ⟨by omega, by omega⟩, Nat.add_sub_cancel_left]
  have hval : ∀ k, (byte_of n k).toNat = n / 256 ^ k % 256 := by
    intro k
    unfold byte_of
    exact UInt8.toNat_ofNat'
  -- the upper three bytes of the flags are 0
  have hupper : ∀ k < 4, k ≠ 0 → number_byte (or_overflow_number n obj f) obj k
      = n / 256 ^ k % 256 := by
    intro k hk hk0
    have hzero : (f (obj + k)).toNat = 0 := by
      have hcases : k = 1 ∨ k = 2 ∨ k = 3 := by omega
      rcases hcases with rfl | rfl | rfl
      all_goals omega
    unfold number_byte
    rw [if_neg hk0, hbyte k hk, UInt8.toNat_or, hzero, Nat.zero_or, hval]
  have hlower : number_byte (or_overflow_number n obj f) obj 0 = n % 256 / 16 := by
    have hzero : (f obj).toNat / 16 = 0 := by omega
    have hfirst := hbyte 0 (by omega)
    have hv := hval 0
    rw [Nat.add_zero] at hfirst
    unfold number_byte
    rw [if_pos rfl, hfirst, or_div_16, hzero, Nat.zero_or, hv, pow_zero, Nat.div_one]
  rw [number_in_eq, hlower, hupper 1 (by omega) (by omega), hupper 2 (by omega) (by omega),
    hupper 3 (by omega) (by omega)]
  omega

end Bytes

/-! ## The numbers in the objects -/

/-- `left i` are the objects which have left the nursery of segment `i` in its
current transaction, and not for a commit. -/
structure ObjectNumbers (NB_SEGMENTS : ℕ) (m : Memory) (kind : ℕ → Kind) (number : ℕ → ℕ)
    (highest : ℕ) (left : ℕ → List ℕ) : Prop where
  same : ∀ o, kind o = .old → ∀ j ≤ NB_SEGMENTS, SameNumber (read m j) (read m 0) o
  old : ∀ o, kind o = .old → number_in (read m 0) o ≤ highest
    ∧ ∀ i ∈ segment_nums NB_SEGMENTS, number_in (read m 0) o ≠ number i
  overflow : ∀ o i, kind o = .overflow i →
    number_in (read m i) o = if o ∈ left i then number i else 0

section Objects

variable {NB_SEGMENTS i obj highest : ℕ} {m m' : Memory} {kind kind' : ℕ → Kind}
  {number : ℕ → ℕ} {left left' : ℕ → List ℕ}

/-- The number of an old object in any view. -/
theorem ObjectNumbers.number_in_old (h : ObjectNumbers NB_SEGMENTS m kind number highest left)
    {o j : ℕ} (ho : kind o = .old) (hj : j ≤ NB_SEGMENTS) :
    number_in (read m j) o = number_in (read m 0) o := (h.same o ho j hj).number_in

/-- A step after which the old objects still have the same numbers. -/
theorem ObjectNumbers.same_of_step (h : ObjectNumbers NB_SEGMENTS m kind number highest left)
    (hstep : NumberStep NB_SEGMENTS kind m m') {o j : ℕ} (ho : kind o = .old)
    (hj : j ≤ NB_SEGMENTS) : SameNumber (read m' j) (read m 0) o := by
  intro k hk
  obtain ⟨n, hn, heq⟩ := hstep.old o ho j hj k hk
  rw [heq]
  exact h.same o ho n hn k hk

/-- A step that makes no overflow objects, and old ones only without a
number. -/
theorem ObjectNumbers.step (h : ObjectNumbers NB_SEGMENTS m kind number highest left)
    (hheld : HeldNumbers NB_SEGMENTS number highest) (hstep : NumberStep NB_SEGMENTS kind m m')
    (hold : ∀ o, kind' o = .old → kind o = .old
      ∨ ∀ j ≤ NB_SEGMENTS, number_in (read m' j) o = 0)
    (hov : ∀ o j, kind' o = .overflow j → kind o = .overflow j) :
    ObjectNumbers NB_SEGMENTS m' kind' number highest left := by
  refine ⟨fun o ho j hj => ?_, fun o ho => ?_, fun o j ho => ?_⟩
  · rcases hold o ho with hk | hzero
    · exact (h.same_of_step hstep hk hj).trans (h.same_of_step hstep hk (Nat.zero_le _)).symm
    · intro k hk
      rw [number_in_eq_zero_iff.mp (hzero j hj) k hk,
        number_in_eq_zero_iff.mp (hzero 0 (Nat.zero_le _)) k hk]
  · rcases hold o ho with hk | hzero
    · rw [(h.same_of_step hstep hk (Nat.zero_le _)).number_in]
      exact h.old o hk
    · rw [hzero 0 (Nat.zero_le _)]
      refine ⟨Nat.zero_le _, fun i hi => ?_⟩
      exact (hheld.positive i hi).ne
  · rw [(hstep.overflow o j (hov o j ho)).number_in]
    exact h.overflow o j (hov o j ho)

/-- An object without a number is shown to all segments, and has none then. -/
theorem ObjectNumbers.number_in_pushed (h : ObjectNumbers NB_SEGMENTS m kind number highest left)
    (hstep : NumberStep NB_SEGMENTS kind m m') (hk : kind obj = .overflow i)
    (hleft : obj ∉ left i)
    (hseen : ∀ j ≤ NB_SEGMENTS, SameNumber (read m' j) (read m' i) obj) {j : ℕ}
    (hj : j ≤ NB_SEGMENTS) : number_in (read m' j) obj = 0 := by
  rw [(hseen j hj).number_in, (hstep.overflow obj i hk).number_in, h.overflow obj i hk,
    if_neg hleft]

/-- The end of a commit whose transaction has used its number. -/
theorem ObjectNumbers.bump (h : ObjectNumbers NB_SEGMENTS m kind number highest left)
    (hheld : HeldNumbers NB_SEGMENTS number highest) (hi : i ∈ segment_nums NB_SEGMENTS)
    (hstep : NumberStep NB_SEGMENTS kind m m')
    (hseen : ∀ o, kind o = .overflow i → ∀ j ≤ NB_SEGMENTS,
      SameNumber (read m' j) (read m' i) o)
    (hold : ∀ o, kind' o = .old → kind o = .old ∨ kind o = .overflow i)
    (hov : ∀ o j, kind' o = .overflow j → kind o = .overflow j ∧ j ≠ i) :
    ObjectNumbers NB_SEGMENTS m' kind'
      (Function.update number i (highest + GCFLAG_OVERFLOW_NUMBER_bit0))
      (highest + GCFLAG_OVERFLOW_NUMBER_bit0) left := by
  have hbit : 0 < GCFLAG_OVERFLOW_NUMBER_bit0 := by decide
  -- the old number is nobody's any more
  have hfresh : ∀ n ≤ highest, (∀ j ∈ segment_nums NB_SEGMENTS, j ≠ i → n ≠ number j) →
      n ≤ highest + GCFLAG_OVERFLOW_NUMBER_bit0 ∧ ∀ j ∈ segment_nums NB_SEGMENTS,
        n ≠ Function.update number i (highest + GCFLAG_OVERFLOW_NUMBER_bit0) j := by
    intro n hn hne
    refine ⟨by omega, fun j hj => ?_⟩
    rw [Function.update_apply]
    split
    · omega
    · rename_i hji
      exact hne j hj hji
  refine ⟨fun o ho j hj => ?_, fun o ho => ?_, fun o j ho => ?_⟩
  · rcases hold o ho with hk | hk
    · exact (h.same_of_step hstep hk hj).trans (h.same_of_step hstep hk (Nat.zero_le _)).symm
    · exact (hseen o hk j hj).trans (hseen o hk 0 (Nat.zero_le _)).symm
  · rcases hold o ho with hk | hk
    · rw [(h.same_of_step hstep hk (Nat.zero_le _)).number_in]
      obtain ⟨hle, hne⟩ := h.old o hk
      exact hfresh _ hle fun j hj _ => hne j hj
    · rw [(hseen o hk 0 (Nat.zero_le _)).number_in, (hstep.overflow o i hk).number_in,
        h.overflow o i hk]
      split
      · exact hfresh _ (hheld.bound i hi) fun j hj hji => hheld.distinct i hi j hj hji.symm
      · exact hfresh 0 (Nat.zero_le _) fun j hj _ => (hheld.positive j hj).ne
  · obtain ⟨hk, hji⟩ := hov o j ho
    rw [(hstep.overflow o j hk).number_in, Function.update_of_ne hji]
    exact h.overflow o j hk

/-- An object leaves the nursery. -/
theorem ObjectNumbers.moved (h : ObjectNumbers NB_SEGMENTS m kind number highest left)
    (hstep : NumberStep NB_SEGMENTS kind m m')
    (hnumber : number_in (read m' i) obj = if obj ∈ left' i then number i else 0)
    (hleft : ∀ o j, o ≠ obj → (o ∈ left' j ↔ o ∈ left j)) :
    ObjectNumbers NB_SEGMENTS m' (Function.update kind obj (.overflow i)) number highest left' := by
  have hother : ∀ o, Function.update kind obj (.overflow i) o = .old → kind o = .old := by
    intro o ho
    rw [Function.update_apply] at ho
    split at ho
    · cases ho
    · exact ho
  refine ⟨fun o ho j hj => ?_, fun o ho => ?_, fun o j ho => ?_⟩
  · have hk := hother o ho
    exact (h.same_of_step hstep hk hj).trans (h.same_of_step hstep hk (Nat.zero_le _)).symm
  · have hk := hother o ho
    rw [(h.same_of_step hstep hk (Nat.zero_le _)).number_in]
    exact h.old o hk
  · by_cases heq : o = obj
    · rw [heq, Function.update_self, Kind.overflow.injEq] at ho
      rw [heq, ← ho]
      exact hnumber
    · rw [Function.update_of_ne heq] at ho
      rw [(hstep.overflow o j ho).number_in, h.overflow o j ho, if_congr (hleft o j heq) rfl rfl]

/-- Only the overflow objects of a segment count in its list. -/
theorem ObjectNumbers.relist (h : ObjectNumbers NB_SEGMENTS m kind number highest left)
    (hleft : ∀ o j, kind o = .overflow j → (o ∈ left' j ↔ o ∈ left j)) :
    ObjectNumbers NB_SEGMENTS m kind number highest left' := by
  refine ⟨h.same, h.old, fun o j ho => ?_⟩
  rw [h.overflow o j ho, if_congr (hleft o j ho) rfl rfl]

end Objects

end Stmgc.C7
