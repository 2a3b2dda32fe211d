/-
The overflow number in `stm_flags`, as the segments see it.

It is the upper 28 bits of the four bytes. The flags that the machine of
`Transaction` sets and clears are below, the program writes only behind the
header, and what is copied from one segment to others are whole objects or
cards. So a byte of the number that a segment sees is, after a step, still the
same or the one that the acting segment sees ([`Moves`]).
-/
import Stmgc.C7.TransactionFate

namespace Stmgc.C7

open Stmgc.Lib

/-! ## The bytes of a number -/

/-- The part of the overflow number in byte `k` of `stm_flags`. -/
def number_byte (f : ℕ → UInt8) (obj k : ℕ) : ℕ :=
  if k = 0 then (f obj).toNat / 16 else (f (obj + k)).toNat

/-- `stm_flags & -GCFLAG_OVERFLOW_NUMBER_bit0`. -/
def number_in (f : ℕ → UInt8) (obj : ℕ) : ℕ :=
  stm_flags f obj / GCFLAG_OVERFLOW_NUMBER_bit0 * GCFLAG_OVERFLOW_NUMBER_bit0

/-- The same number. -/
def SameNumber (f g : ℕ → UInt8) (obj : ℕ) : Prop :=
  ∀ k < 4, number_byte f obj k = number_byte g obj k

section Bytes

variable {f g h : ℕ → UInt8} {obj i : ℕ}

theorem number_in_eq : number_in f obj = 16 * (number_byte f obj 0 + 16 * number_byte f obj 1
    + 16 * 256 * number_byte f obj 2 + 16 * 256 ^ 2 * number_byte f obj 3) := by
  unfold number_in stm_flags number_byte GCFLAG_OVERFLOW_NUMBER_bit0
  simp only [if_true, if_false, Nat.one_ne_zero, OfNat.ofNat_ne_zero]
  omega

theorem flags_say_overflow_iff {m : Memory} {n : ℕ} :
    flags_say_overflow m i n obj = true ↔ number_in (read m i) obj = n := by
  unfold flags_say_overflow number_in
  exact beq_iff_eq

theorem SameNumber.refl (f : ℕ → UInt8) (obj : ℕ) : SameNumber f f obj := fun _ _ => rfl

theorem SameNumber.symm (hfg : SameNumber f g obj) : SameNumber g f obj :=
  fun k hk => (hfg k hk).symm

theorem SameNumber.trans (hfg : SameNumber f g obj) (hgh : SameNumber g h obj) :
    SameNumber f h obj := fun k hk => (hfg k hk).trans (hgh k hk)

theorem SameNumber.number_in (hfg : SameNumber f g obj) :
    C7.number_in f obj = C7.number_in g obj := by
  rw [number_in_eq, number_in_eq, hfg 0 (by omega), hfg 1 (by omega), hfg 2 (by omega),
    hfg 3 (by omega)]

/-- Only the header counts. -/
theorem SameNumber.of_header (hfg : ∀ a, obj ≤ a → a < obj + 4 → f a = g a) :
    SameNumber f g obj := by
  intro k hk
  unfold number_byte
  rw [hfg obj le_rfl (by omega), hfg (obj + k) (by omega) (by omega)]

/-- The updates of the flags are below the number. -/
theorem flags_below_number (b : UInt8) : (b ||| GCFLAG_WRITE_BARRIER).toNat / 16 = b.toNat / 16
    ∧ (b ||| GCFLAG_CARDS_SET).toNat / 16 = b.toNat / 16
    ∧ (b &&& ~~~GCFLAG_CARDS_SET).toNat / 16 = b.toNat / 16
    ∧ (b &&& ~~~(GCFLAG_WRITE_BARRIER ||| GCFLAG_CARDS_SET)).toNat / 16 = b.toNat / 16 := by
  revert b
  rw [UInt8.forall_iff]
  decide +kernel

end Bytes

/-! ## What a segment writes -/

/-- Each segment sees a byte of the number which it has seen before or which
segment `src` sees; and what that one sees stays. -/
structure Moves (NB_SEGMENTS src : ℕ) (m m' : Memory) (o : ℕ) : Prop where
  own : SameNumber (read m' src) (read m src) o
  others : ∀ j ≤ NB_SEGMENTS, ∀ k < 4,
    number_byte (read m' j) o k = number_byte (read m j) o k
      ∨ number_byte (read m' j) o k = number_byte (read m src) o k

/-- Segment `i` has written to an object, but not to its number. -/
structure KeepsNumber (NB_SEGMENTS i obj size : ℕ) (m m' : Memory) : Prop where
  outside : ∀ j a, ¬ (obj ≤ a ∧ a < obj + size) → read m' j a = read m j a
  moves : Moves NB_SEGMENTS i m m' obj

section Moves

variable {NB_SEGMENTS i obj size : ℕ} {m m' m'' : Memory}

theorem Moves.of_same (h : ∀ j, SameNumber (read m' j) (read m j) obj) :
    Moves NB_SEGMENTS i m m' obj := ⟨h i, fun j _ k hk => .inl (h j k hk)⟩

theorem Moves.trans (h : Moves NB_SEGMENTS i m m' obj) (h' : Moves NB_SEGMENTS i m' m'' obj) :
    Moves NB_SEGMENTS i m m'' obj := by
  refine ⟨h'.own.trans h.own, fun j hj k hk => ?_⟩
  rcases h'.others j hj k hk with heq | heq
  · rw [heq]
    exact h.others j hj k hk
  · right
    rw [heq, h.own k hk]

theorem Moves.of_pushed {r : ℕ → Prop} (h : Pushed NB_SEGMENTS i r m m') (hi : i ≤ NB_SEGMENTS) :
    Moves NB_SEGMENTS i m m' obj := by
  refine ⟨SameNumber.of_header fun a _ _ => h.read_myself hi, fun j hj k _ => ?_⟩
  by_cases hr : r (obj + k)
  · right
    unfold number_byte
    rw [h.pushed j hj _ hr]
    split
    · rename_i hk
      rw [hk, Nat.add_zero] at hr
      rw [h.pushed j hj _ hr]
    · rfl
  · left
    unfold number_byte
    rw [h.frame j _ hr]
    split
    · rename_i hk
      rw [hk, Nat.add_zero] at hr
      rw [h.frame j _ hr]
    · rfl

theorem KeepsNumber.refl (m : Memory) : KeepsNumber NB_SEGMENTS i obj size m m :=
  ⟨fun _ _ _ => rfl, .of_same fun _ => .refl _ _⟩

theorem KeepsNumber.trans (h : KeepsNumber NB_SEGMENTS i obj size m m')
    (h' : KeepsNumber NB_SEGMENTS i obj size m' m'') : KeepsNumber NB_SEGMENTS i obj size m m'' :=
  ⟨fun j a ha => (h'.outside j a ha).trans (h.outside j a ha), h.moves.trans h'.moves⟩

/-- The number is not in the lower half of the first byte. -/
theorem KeepsNumber.write_flags {b : UInt8} (hsize : 0 < size)
    (hb : b.toNat / 16 = (read m i obj).toNat / 16) :
    KeepsNumber NB_SEGMENTS i obj size m (write m i obj b) := by
  have hne : ∀ j a, a ≠ obj → read (write m i obj b) j a = read m j a :=
    fun _ _ ha => read_write_of_ne ha
  have hfirst : ∀ f g : ℕ → UInt8, (∀ a, a ≠ obj → f a = g a) →
      (f obj).toNat / 16 = (g obj).toNat / 16 → SameNumber f g obj := by
    intro f g hout hlow k _
    unfold number_byte
    split
    · exact hlow
    · rw [hout _ (by omega)]
  refine ⟨fun j a ha => hne j a (by omega), ?_, fun j _ k hk => ?_⟩
  · refine hfirst _ _ (hne i) ?_
    rw [read_write_self, hb]
  · -- another segment sees the new byte or the old one
    by_cases hshared : j = i ∨ is_private_page m i (obj / 4096) = false
        ∧ is_private_page m j (obj / 4096) = false
    · unfold number_byte
      split
      · right
        rw [write, read_write_range, if_pos ⟨beq_self_eq_true obj, hshared⟩, hb]
      · left
        rw [hne j _ (by omega)]
    · left
      refine hfirst _ _ (hne j) ?_ k hk
      rw [write, read_write_range, if_neg fun h => hshared h.2]

theorem KeepsNumber.set_write_barrier (hsize : 0 < size) :
    KeepsNumber NB_SEGMENTS i obj size m (set_flags m i obj GCFLAG_WRITE_BARRIER) :=
  .write_flags hsize (flags_below_number _).1

theorem KeepsNumber.set_cards_set (hsize : 0 < size) :
    KeepsNumber NB_SEGMENTS i obj size m (set_flags m i obj GCFLAG_CARDS_SET) :=
  .write_flags hsize (flags_below_number _).2.1

theorem KeepsNumber.clear_cards_set (hsize : 0 < size) :
    KeepsNumber NB_SEGMENTS i obj size m (clear_flags m i obj GCFLAG_CARDS_SET) :=
  .write_flags hsize (flags_below_number _).2.2.1

theorem KeepsNumber.clear_both (hsize : 0 < size) :
    KeepsNumber NB_SEGMENTS i obj size m
      (clear_flags m i obj (GCFLAG_WRITE_BARRIER ||| GCFLAG_CARDS_SET)) :=
  .write_flags hsize (flags_below_number _).2.2.2

/-- A write behind the header. -/
theorem KeepsNumber.write_body {range : ℕ → Bool} {val : ℕ → UInt8}
    (hr : ∀ a, range a = true → obj + 4 ≤ a ∧ a < obj + size) :
    KeepsNumber NB_SEGMENTS i obj size m (write_range m i range val) := by
  have hframe : ∀ j a, ¬ (obj + 4 ≤ a ∧ a < obj + size) →
      read (write_range m i range val) j a = read m j a := by
    intro j a ha
    apply read_write_range_of_false
    rw [← Bool.not_eq_true]
    exact fun h => ha (hr a h)
  refine ⟨fun j a ha => hframe j a (by omega), .of_same fun j => .of_header fun a hle hlt => ?_⟩
  exact hframe j a (by omega)

end Moves

/-! ## What a step does to the numbers -/

/-- The bytes of the number of an old object only move between the segments,
and a segment sees the numbers of its own overflow objects as before. -/
structure NumberStep (NB_SEGMENTS : ℕ) (kind : ℕ → Kind) (m m' : Memory) : Prop where
  old : ∀ o, kind o = .old → ∀ j ≤ NB_SEGMENTS, ∀ k < 4, ∃ n ≤ NB_SEGMENTS,
    number_byte (read m' j) o k = number_byte (read m n) o k
  overflow : ∀ o j, kind o = .overflow j → SameNumber (read m' j) (read m j) o

section NumberStep

variable {NB_SEGMENTS i obj : ℕ} {s : St} {kind : ℕ → Kind} {m m' m'' : Memory}

theorem NumberStep.trans (h : NumberStep NB_SEGMENTS kind m m')
    (h' : NumberStep NB_SEGMENTS kind m' m'') : NumberStep NB_SEGMENTS kind m m'' where
  old o ho j hj k hk := by
    obtain ⟨n, hn, heq⟩ := h'.old o ho j hj k hk
    obtain ⟨n', hn', heq'⟩ := h.old o ho n hn k hk
    exact ⟨n', hn', heq.trans heq'⟩
  overflow o j ho := (h'.overflow o j ho).trans (h.overflow o j ho)

theorem NumberStep.of_same (h : ∀ o, kind o = .old ∨ (∃ j, kind o = .overflow j) →
    ∀ j, SameNumber (read m' j) (read m j) o) : NumberStep NB_SEGMENTS kind m m' where
  old o ho j hj k hk := ⟨j, hj, h o (.inl ho) j k hk⟩
  overflow o j ho := h o (.inr ⟨j, ho⟩) j

theorem NumberStep.refl (m : Memory) : NumberStep NB_SEGMENTS kind m m :=
  .of_same fun _ _ j => .refl (read m j) _

/-- All objects are left alone. -/
theorem NumberStep.of_views (s : St)
    (h : ∀ o, s.kind o ≠ .free → ∀ j a, in_object s o a → read m' j a = read m j a) :
    NumberStep NB_SEGMENTS s.kind m m' := by
  refine .of_same fun o ho j => .of_header fun a hle hlt => h o ?_ j a ?_
  · rcases ho with ho | ⟨n, ho⟩
    · rw [ho]
      nofun
    · rw [ho]
      nofun
  · have hsize := (s.layout o).size_pos
    unfold in_object
    omega

theorem old_of_moves {src : ℕ} (h : Moves NB_SEGMENTS src m m' obj) (hsrc : src ≤ NB_SEGMENTS)
    {j k : ℕ} (hj : j ≤ NB_SEGMENTS) (hk : k < 4) : ∃ n ≤ NB_SEGMENTS,
    number_byte (read m' j) obj k = number_byte (read m n) obj k := by
  rcases h.others j hj k hk with heq | heq
  · exact ⟨j, hj, heq⟩
  · exact ⟨src, hsrc, heq⟩

/-- One object is written to, by its owner if it is an overflow object. -/
theorem KeepsNumber.number_step {size : ℕ} (h : KeepsNumber NB_SEGMENTS i obj size m m')
    (hi : i ≤ NB_SEGMENTS) (hinv : Inv NB_SEGMENTS false s) (hfree : s.kind obj ≠ .free)
    (howner : ∀ j, s.kind obj = .overflow j → j = i) (hsize : size = (s.layout obj).size) :
    NumberStep NB_SEGMENTS s.kind m m' := by
  subst hsize
  have hother : ∀ o, s.kind o ≠ .free → o ≠ obj → ∀ j, SameNumber (read m' j) (read m j) o := by
    intro o ho hne j
    refine .of_header fun a hle hlt => h.outside j a ?_
    have hsize := (s.layout o).size_pos
    have hdis := hinv.disjoint ho hfree hne
    omega
  refine ⟨fun o ho j hj k hk => ?_, fun o j ho => ?_⟩
  · by_cases heq : o = obj
    · rw [heq]
      exact old_of_moves h.moves hi hj hk
    · exact ⟨j, hj, hother o (by rw [ho]; nofun) heq j k hk⟩
  · by_cases heq : o = obj
    · rw [heq] at ho ⊢
      rw [howner j ho]
      exact h.moves.own
    · exact hother o (by rw [ho]; nofun) heq j

/-- Objects of a segment are shown to the others. -/
theorem NumberStep.of_pushed {r : ℕ → Prop} (h : Pushed NB_SEGMENTS i r m m')
    (hi : i ≤ NB_SEGMENTS) (howner : ∀ o j, kind o = .overflow j → j ≠ i →
      ∀ a, o ≤ a → a < o + 4 → ¬ r a) : NumberStep NB_SEGMENTS kind m m' where
  old _ _ _ hj _ hk := old_of_moves (.of_pushed h hi) hi hj hk
  overflow o j ho := by
    by_cases hji : j = i
    · rw [hji]
      exact (Moves.of_pushed h hi).own
    · exact .of_header fun a hle hlt => h.frame j a (howner o j ho hji a hle hlt)

end NumberStep

end Stmgc.C7
