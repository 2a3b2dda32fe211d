/-
`c8/stm/pages.c`: logical pages, the virtual pages of the segments, and the
file pages behind them.

An address is `%gs`-relative, so it lies in one logical page, and a segment
sees it through the file page that its virtual page is mapped to. Pages are
counted from `PAGE_FLAG_START`, and `by_segment` has as many bits as there are
segments.
-/
import Mathlib.Algebra.Ring.Nat
import Mathlib.Logic.Function.Basic

namespace Stmgc.C8

structure Pages where
  /-- `pages_privatized` -/
  by_segment : ℕ → ℕ
  /-- the segment whose file page a virtual page is mapped to -/
  mapped_to : ℕ → ℕ → ℕ
  file : ℕ → ℕ → BitVec 8

namespace Pages

def is_shared_log_page (pg : Pages) (pagenum : ℕ) : Bool := pg.by_segment pagenum == 0

def is_private_log_page_in (pg : Pages) (segnum pagenum : ℕ) : Bool :=
  (pg.by_segment pagenum).testBit segnum

/-- `by_segment |= bitmask`, of `set_page_private_in` and of
`page_privatize_in`. -/
def set_page_private_in (pg : Pages) (segnum pagenum : ℕ) : Pages :=
  { pg with
    by_segment := Function.update pg.by_segment pagenum (pg.by_segment pagenum ||| 2 ^ segnum) }

/-- The byte at `REAL_ADDRESS (get_segment_base (segnum), addr)`. -/
def read (pg : Pages) (segnum addr : ℕ) : BitVec 8 :=
  pg.file (pg.mapped_to segnum (addr / 4096)) addr

def write (pg : Pages) (segnum addr : ℕ) (byte : BitVec 8) : Pages :=
  let file := pg.mapped_to segnum (addr / 4096)
  { pg with file := Function.update pg.file file (Function.update (pg.file file) addr byte) }

/-- `pwrite` of the virtual page of segment 0 into the file page of another
segment. -/
def pwrite (pg : Pages) (segnum pagenum : ℕ) : Pages :=
  { pg with file := Function.update pg.file segnum fun addr =>
      if addr / 4096 = pagenum then pg.read 0 addr else pg.file segnum addr }

def d_remap_file_pages (pg : Pages) (segnum pagenum : ℕ) : Pages :=
  { pg with
    mapped_to :=
      Function.update pg.mapped_to segnum (Function.update (pg.mapped_to segnum) pagenum segnum) }

/-! ## What a page can be -/

variable {NB_SEGMENTS : ℕ} {pg pg' : Pages} {p segnum addr : ℕ}

/-- All virtual pages are mapped to the file page of segment 0. -/
structure Shared (NB_SEGMENTS : ℕ) (pg : Pages) (p : ℕ) : Prop where
  by_segment : pg.by_segment p = 0
  mapped_to : ∀ i < NB_SEGMENTS, pg.mapped_to i p = 0

/-- Every virtual page is mapped to the file page of its segment. -/
structure Private (NB_SEGMENTS : ℕ) (pg : Pages) (p : ℕ) : Prop where
  is_private : ∀ i < NB_SEGMENTS, pg.is_private_log_page_in i p = true
  mapped_to : ∀ i < NB_SEGMENTS, pg.mapped_to i p = i

/-- In the middle of `_privatize_shared_page`: the bits, the file pages and the
mappings are done for the segments below these numbers. -/
structure Partial (NB_SEGMENTS : ℕ) (pg : Pages) (p bits written mapped : ℕ) : Prop where
  is_private : ∀ i < NB_SEGMENTS, pg.is_private_log_page_in i p = true ↔ 0 < i ∧ i < bits
  bits_lt : ∀ i, bits ≤ i → pg.is_private_log_page_in i p = false
  file : ∀ i < written, ∀ addr, addr / 4096 = p → pg.file i addr = pg.file 0 addr
  mapped_to : ∀ i < NB_SEGMENTS, pg.mapped_to i p = if i < mapped then i else 0
  mapped_le : mapped ≤ written

/-- Nothing about the page has changed. -/
structure SameAt (pg pg' : Pages) (p : ℕ) : Prop where
  by_segment : pg'.by_segment p = pg.by_segment p
  mapped_to : ∀ i, pg'.mapped_to i p = pg.mapped_to i p
  file : ∀ i addr, addr / 4096 = p → pg'.file i addr = pg.file i addr

theorem Shared.congr (h : Shared NB_SEGMENTS pg p) (hsame : SameAt pg pg' p) :
    Shared NB_SEGMENTS pg' p :=
  ⟨hsame.by_segment.trans h.by_segment, fun i hi => (hsame.mapped_to i).trans (h.mapped_to i hi)⟩

theorem SameAt.is_private (hsame : SameAt pg pg' p) (i : ℕ) :
    pg'.is_private_log_page_in i p = pg.is_private_log_page_in i p := by
  unfold is_private_log_page_in
  rw [hsame.by_segment]

theorem Private.congr (h : Private NB_SEGMENTS pg p) (hsame : SameAt pg pg' p) :
    Private NB_SEGMENTS pg' p := by
  refine ⟨fun i hi => ?_, fun i hi => (hsame.mapped_to i).trans (h.mapped_to i hi)⟩
  rw [hsame.is_private]
  exact h.is_private i hi

theorem Partial.congr {bits written mapped : ℕ}
    (h : Partial NB_SEGMENTS pg p bits written mapped) (hsame : SameAt pg pg' p) :
    Partial NB_SEGMENTS pg' p bits written mapped := by
  refine ⟨fun i hi => ?_, fun i hi => ?_, fun i hi addr ha => ?_, fun i hi => ?_, h.mapped_le⟩
  · rw [hsame.is_private]
    exact h.is_private i hi
  · rw [hsame.is_private]
    exact h.bits_lt i hi
  · rw [hsame.file i addr ha, hsame.file 0 addr ha]
    exact h.file i hi addr ha
  · rw [hsame.mapped_to]
    exact h.mapped_to i hi

theorem SameAt.read (hsame : SameAt pg pg' (addr / 4096)) :
    pg'.read segnum addr = pg.read segnum addr := by
  unfold Pages.read
  rw [hsame.mapped_to, hsame.file _ addr rfl]

/-- A page that is privatized is not shared. -/
theorem Private.not_shared (hpos : 0 < NB_SEGMENTS) (h : Private NB_SEGMENTS pg p) :
    pg.by_segment p ≠ 0 := by
  intro hzero
  have hbit := h.is_private 0 hpos
  unfold is_private_log_page_in at hbit
  rw [hzero, Nat.zero_testBit] at hbit
  cases hbit

/-- As long as segment 0 is not private the page is not, whatever its other
bits are. -/
theorem Partial.not_private (hpos : 0 < NB_SEGMENTS) {bits written mapped : ℕ}
    (h : Partial NB_SEGMENTS pg p bits written mapped) : ¬ Private NB_SEGMENTS pg p := by
  intro hprivate
  have hbit := (h.is_private 0 hpos).mp (hprivate.is_private 0 hpos)
  exact absurd hbit.1 (Nat.lt_irrefl 0)

/-- A shared page is one where nothing is done yet. -/
theorem Shared.partial_one (h : Shared NB_SEGMENTS pg p) : Partial NB_SEGMENTS pg p 1 1 1 := by
  have hbit : ∀ i, pg.is_private_log_page_in i p = false := by
    intro i
    unfold is_private_log_page_in
    rw [h.by_segment, Nat.zero_testBit]
  refine ⟨fun i _ => ?_, fun i _ => hbit i, fun i hi addr _ => ?_, fun i hi => ?_, Nat.le_refl 1⟩
  · rw [hbit i]
    exact ⟨nofun, fun h => by omega⟩
  · rw [Nat.lt_one_iff.mp hi]
  · rw [h.mapped_to i hi]
    split_ifs with hlt
    · omega
    · rfl

/-- All segments see the same contents. -/
theorem Partial.read_eq {bits written mapped : ℕ}
    (h : Partial NB_SEGMENTS pg (addr / 4096) bits written mapped) (hi : segnum < NB_SEGMENTS) :
    pg.read segnum addr = pg.file 0 addr := by
  unfold read
  rw [h.mapped_to segnum hi]
  split_ifs with hlt
  · exact h.file segnum (Nat.lt_of_lt_of_le hlt h.mapped_le) addr rfl
  · rfl

/-! ## The steps of `_privatize_shared_page` -/

theorem testBit_set (i : ℕ) : (pg.set_page_private_in segnum p).is_private_log_page_in i p
    = (pg.is_private_log_page_in i p || decide (segnum = i)) := by
  unfold is_private_log_page_in set_page_private_in
  dsimp only
  rw [Function.update_self, Nat.testBit_or, Nat.testBit_two_pow]

theorem set_ne_zero : (pg.set_page_private_in segnum p).by_segment p ≠ 0 := by
  intro hzero
  have hbit := @testBit_set pg p segnum segnum
  unfold is_private_log_page_in at hbit
  rw [hzero, Nat.zero_testBit, decide_eq_true rfl, Bool.or_true] at hbit
  cases hbit

theorem sameAt_set {q : ℕ} (hne : q ≠ p) : SameAt pg (pg.set_page_private_in segnum p) q :=
  ⟨Function.update_of_ne hne .., fun _ => rfl, fun _ _ _ => rfl⟩

theorem sameAt_pwrite {q : ℕ} (hne : q ≠ p) : SameAt pg (pg.pwrite segnum p) q := by
  refine ⟨rfl, fun _ => rfl, fun i addr ha => ?_⟩
  have hpage : ¬ addr / 4096 = p := fun h => hne (ha.symm.trans h)
  unfold pwrite
  dsimp only
  rw [Function.update_apply]
  split_ifs with hi
  · dsimp only
    rw [if_neg hpage, hi]
  · rfl

theorem sameAt_remap {q : ℕ} (hne : q ≠ p) : SameAt pg (pg.d_remap_file_pages segnum p) q := by
  refine ⟨rfl, fun i => ?_, fun _ _ _ => rfl⟩
  unfold d_remap_file_pages
  dsimp only
  rw [Function.update_apply]
  split_ifs with hi
  · rw [Function.update_of_ne hne, hi]
  · rfl

theorem sameAt_write {q : ℕ} {byte : BitVec 8} (hne : q ≠ addr / 4096) :
    SameAt pg (pg.write segnum addr byte) q := by
  refine ⟨rfl, fun _ => rfl, fun i a ha => ?_⟩
  have haddr : a ≠ addr := fun h => hne (by rw [← ha, h])
  unfold write
  dsimp only
  rw [Function.update_apply]
  split_ifs with hi
  · rw [Function.update_of_ne haddr, hi]
  · rfl

/-- The contents of the file page of segment 0 are what everybody sees. -/
theorem Partial.views {bits written mapped bits' written' mapped' : ℕ}
    (h : Partial NB_SEGMENTS pg p bits written mapped)
    (h' : Partial NB_SEGMENTS pg' p bits' written' mapped') (hfile : pg'.file 0 = pg.file 0)
    (hi : segnum < NB_SEGMENTS) (ha : addr / 4096 = p) :
    pg'.read segnum addr = pg.read segnum addr := by
  subst ha
  rw [h'.read_eq hi, h.read_eq hi, hfile]

theorem file_pwrite_of_ne {i : ℕ} (hne : i ≠ segnum) :
    (pg.pwrite segnum p).file i = pg.file i := Function.update_of_ne hne ..

/-- The bit of one more segment. -/
theorem Partial.set_bit {n : ℕ} (h : Partial NB_SEGMENTS pg p n n n) (hpos : 0 < n) :
    Partial NB_SEGMENTS (pg.set_page_private_in n p) p (n + 1) n n := by
  refine ⟨fun i hi => ?_, fun i hi => ?_, h.file, h.mapped_to, Nat.le_refl n⟩
  · rw [testBit_set, Bool.or_eq_true, h.is_private i hi, decide_eq_true_eq]
    omega
  · rw [testBit_set, h.bits_lt i (by omega), Bool.false_or, decide_eq_false_iff_not]
    omega

/-- Its file page. No segment is mapped to it yet. -/
theorem Partial.pwrite {n : ℕ} (h : Partial NB_SEGMENTS pg p (n + 1) n n) (hpos : 0 < n)
    (hn : 0 < NB_SEGMENTS) : Partial NB_SEGMENTS (pg.pwrite n p) p (n + 1) (n + 1) n := by
  have hzero : ∀ addr, addr / 4096 = p → pg.read 0 addr = pg.file 0 addr := by
    rintro addr rfl
    exact h.read_eq hn
  have hfile : ∀ i addr, addr / 4096 = p → (pg.pwrite n p).file i addr
      = if i = n then pg.file 0 addr else pg.file i addr := by
    intro i addr ha
    unfold Pages.pwrite
    dsimp only
    rw [Function.update_apply]
    split_ifs
    · dsimp only
      rw [if_pos ha]
      exact hzero addr ha
    · rfl
  refine ⟨h.is_private, h.bits_lt, fun i hi addr ha => ?_, h.mapped_to, Nat.le_succ n⟩
  rw [hfile i addr ha, hfile 0 addr ha, if_neg (Nat.ne_of_lt hpos)]
  split_ifs with hin
  · rfl
  · exact h.file i (by omega) addr ha

/-- Its mapping. -/
theorem Partial.remap {n : ℕ} (h : Partial NB_SEGMENTS pg p (n + 1) (n + 1) n) :
    Partial NB_SEGMENTS (pg.d_remap_file_pages n p) p (n + 1) (n + 1) (n + 1) := by
  refine ⟨h.is_private, h.bits_lt, h.file, fun i hi => ?_, Nat.le_refl _⟩
  unfold d_remap_file_pages
  dsimp only
  rw [Function.update_apply]
  split_ifs with hin hlt hlt
  · rw [Function.update_self, hin]
  · omega
  · rw [h.mapped_to i hi, if_pos (by omega)]
  · rw [h.mapped_to i hi, if_neg (by omega)]

/-- The bit of segment 0 comes last. -/
theorem Partial.finish (h : Partial NB_SEGMENTS pg p NB_SEGMENTS NB_SEGMENTS NB_SEGMENTS) :
    Private NB_SEGMENTS (pg.set_page_private_in 0 p) p := by
  refine ⟨fun i hi => ?_, fun i hi => ?_⟩
  · rw [testBit_set, Bool.or_eq_true, h.is_private i hi, decide_eq_true_eq]
    omega
  · exact (h.mapped_to i hi).trans (if_pos hi)

/-! ## Views -/

/-- A write to a private page is seen by nobody else. -/
theorem Private.read_write {t : ℕ} {byte : BitVec 8} {a : ℕ}
    (h : Private NB_SEGMENTS pg (addr / 4096)) (hs : segnum < NB_SEGMENTS) (ht : t < NB_SEGMENTS)
    (hne : t ≠ segnum) : (pg.write segnum addr byte).read t a = pg.read t a := by
  by_cases ha : a = addr
  · subst ha
    unfold read write
    dsimp only
    rw [h.mapped_to t ht, h.mapped_to segnum hs, Function.update_of_ne hne]
  · unfold read write
    dsimp only
    rw [Function.update_apply]
    split_ifs with hfile
    · rw [Function.update_of_ne ha, hfile]
    · rfl

theorem read_write_of_ne {byte : BitVec 8} {a : ℕ} (ha : a ≠ addr) :
    (pg.write segnum addr byte).read segnum a = pg.read segnum a := by
  unfold read write
  dsimp only
  rw [Function.update_apply]
  split_ifs with hfile
  · rw [Function.update_of_ne ha, hfile]
  · rfl

end Pages

end Stmgc.C8
