/-
`c7/stm/pages.c` and the copying of objects between segments in `core.c`.

Every segment sees an address through its own mapping: a page is either mapped
to the shared copy, which is the one of segment 0, or, once privatized, to the
segment's own. An object lies at one address in all segments and may straddle
pages of both kinds, so the copies go page by page, fragment after fragment.

Segments other than 0 are numbered `1 .. NB_SEGMENTS`. The bit sets of
`pages_privatized` are kept as functions, and the addresses are counted from
`stm_object_pages` of each segment.
-/
import Mathlib.Data.List.Basic
import Mathlib.Tactic.Linarith

namespace Stmgc.C7

/-- The physical pages, and which segments have privatized which. -/
structure Memory where
  shared : ℕ → UInt8
  own : ℕ → ℕ → UInt8
  pages_privatized : ℕ → ℕ → Bool

/-- `is_private_page`; segment 0 holds the shared pages. -/
def is_private_page (m : Memory) (segnum pagenum : ℕ) : Bool :=
  segnum != 0 && m.pages_privatized pagenum segnum

/-- The byte at `REAL_ADDRESS (get_segment_base (segnum), addr)`. -/
def read (m : Memory) (segnum addr : ℕ) : UInt8 :=
  if is_private_page m segnum (addr / 4096) then m.own segnum addr else m.shared addr

/-- Replace the bytes at some addresses as seen through one segment. -/
def write_range (m : Memory) (segnum : ℕ) (range : ℕ → Bool) (val : ℕ → UInt8) : Memory :=
  { m with
    shared := fun a =>
      if range a && !is_private_page m segnum (a / 4096) then val a else m.shared a
    own := fun j a =>
      if j == segnum && range a && is_private_page m segnum (a / 4096) then val a
      else m.own j a }

/-- A store of one byte. -/
def write (m : Memory) (segnum addr : ℕ) (b : UInt8) : Memory :=
  write_range m segnum (fun a => a == addr) (fun _ => b)

/-- The addresses of `size` bytes from `start` on. -/
def in_range (start size a : ℕ) : Bool := decide (start ≤ a) && decide (a < start + size)

/-- `memcpy (REAL_ADDRESS (dst, start), REAL_ADDRESS (src, start), size)`. -/
def memcpy (m : Memory) (dst src start size : ℕ) : Memory :=
  write_range m dst (in_range start size) (read m src)

/-- `page_privatize`, all of it under the privatization locks of all segments:
the segment's own page gets the content of the shared one. -/
def page_privatize (m : Memory) (segnum pagenum : ℕ) : Memory :=
  if m.pages_privatized pagenum segnum then m
  else { m with
    pages_privatized :=
      fun p i => if p = pagenum ∧ i = segnum then true else m.pages_privatized p i
    own := fun i a => if i = segnum ∧ a / 4096 = pagenum then m.shared a else m.own i a }

/-- The fragments of `[start, stop)`, one for each of the `n + 1` pages it
touches. -/
def fragments : ℕ → ℕ → ℕ → List (ℕ × ℕ)
  | 0, start, stop => [(start, stop - start)]
  | n + 1, start, stop =>
    (start, 4096 - start % 4096) :: fragments n ((start + 4096) / 4096 * 4096) stop

/-- `1 .. NB_SEGMENTS`. -/
def segment_nums (NB_SEGMENTS : ℕ) : List ℕ := List.range' 1 NB_SEGMENTS

/-- The loop over the other segments that follows a copy to segment 0: the
bytes are diffused to those segments for which `test` says so. -/
def diffuse (NB_SEGMENTS : ℕ) (test : Memory → ℕ → Bool) (myself start copy_size : ℕ)
    (m : Memory) : Memory :=
  (segment_nums NB_SEGMENTS).foldl (fun m i =>
    if i = myself then m
    else if test m i then memcpy m i myself start copy_size
    else m) m

/-- One turn of the page loop of `_page_wise_synchronize_object_now`: first to
the shared page, if needed, then to the other private pages. -/
def synchronize_fragment (NB_SEGMENTS myself : ℕ) (m : Memory) (fragment : ℕ × ℕ) : Memory :=
  let (start, copy_size) := fragment
  let m := if is_private_page m myself (start / 4096) then memcpy m 0 myself start copy_size
    else m
  diffuse NB_SEGMENTS (fun m i => is_private_page m i (start / 4096)) myself start copy_size m

/-- `_page_wise_synchronize_object_now`. -/
def page_wise_synchronize_object_now (NB_SEGMENTS : ℕ) (m : Memory) (myself obj obj_size : ℕ) :
    Memory :=
  let last_page := (obj + obj_size - 1) / 4096
  (fragments (last_page - obj / 4096) obj (obj + obj_size)).foldl
    (synchronize_fragment NB_SEGMENTS myself) m

/-! ## Reading back -/

section

variable {m : Memory} {segnum j a : ℕ}

theorem read_of_private (h : is_private_page m segnum (a / 4096) = true) :
    read m segnum a = m.own segnum a := by
  rw [read, if_pos h]

theorem read_of_shared (h : is_private_page m segnum (a / 4096) = false) :
    read m segnum a = m.shared a := by
  rw [read, if_neg (by simp [h])]

theorem is_private_page_zero (p : ℕ) : is_private_page m 0 p = false := rfl

@[simp] theorem is_private_page_write_range (range : ℕ → Bool) (val : ℕ → UInt8) (p : ℕ) :
    is_private_page (write_range m segnum range val) j p = is_private_page m j p := rfl

/-- A write through one segment is seen by that segment, and by the others that
share the page with it. -/
theorem read_write_range (range : ℕ → Bool) (val : ℕ → UInt8) :
    read (write_range m segnum range val) j a =
      if range a = true ∧ (j = segnum ∨ is_private_page m segnum (a / 4096) = false
        ∧ is_private_page m j (a / 4096) = false) then val a else read m j a := by
  unfold read
  rw [is_private_page_write_range]
  by_cases hj : is_private_page m j (a / 4096) = true
  · rw [if_pos hj, if_pos hj]
    by_cases hjs : j = segnum
    · subst hjs
      by_cases hr : range a = true <;> simp [write_range, hr, hj]
    · simp [write_range, hjs, hj]
  · rw [if_neg hj, if_neg hj]
    rw [Bool.not_eq_true] at hj
    by_cases hs : is_private_page m segnum (a / 4096) = true
    · have hjs : j ≠ segnum := by
        rintro rfl
        rw [hj] at hs
        cases hs
      simp [write_range, hs, hjs]
    · rw [Bool.not_eq_true] at hs
      by_cases hr : range a = true <;> simp [write_range, hs, hj, hr]

theorem read_write_range_of_false {range : ℕ → Bool} {val : ℕ → UInt8} (h : range a = false) :
    read (write_range m segnum range val) j a = read m j a := by
  rw [read_write_range, if_neg]
  rw [h]
  simp

theorem read_write_range_self {range : ℕ → Bool} {val : ℕ → UInt8} (h : range a = true) :
    read (write_range m segnum range val) segnum a = val a := by
  rw [read_write_range, if_pos ⟨h, .inl rfl⟩]

theorem read_write_range_of_private {range : ℕ → Bool} {val : ℕ → UInt8}
    (hp : is_private_page m segnum (a / 4096) = true) (hj : j ≠ segnum) :
    read (write_range m segnum range val) j a = read m j a := by
  rw [read_write_range, if_neg]
  rw [hp]
  simp [hj]

theorem read_write_self {b : UInt8} : read (write m segnum a b) segnum a = b := by
  rw [write, read_write_range_self (by simp)]

theorem read_write_of_ne {addr : ℕ} {b : UInt8} (h : a ≠ addr) :
    read (write m segnum addr b) j a = read m j a := by
  rw [write, read_write_range_of_false (by simp [h])]

theorem in_range_iff {start size : ℕ} :
    in_range start size a = true ↔ start ≤ a ∧ a < start + size := by
  simp [in_range]

/-- What a copy leaves alone. -/
theorem read_memcpy_of_notMem {dst src start size : ℕ}
    (h : ¬ (start ≤ a ∧ a < start + size)) : read (memcpy m dst src start size) j a = read m j a := by
  rw [memcpy, read_write_range, if_neg]
  rw [in_range_iff]
  exact fun hc => h hc.1

theorem read_memcpy_of_mem {dst src start size : ℕ} (h : start ≤ a ∧ a < start + size) :
    read (memcpy m dst src start size) j a =
      if j = dst ∨ is_private_page m dst (a / 4096) = false
        ∧ is_private_page m j (a / 4096) = false then read m src a else read m j a := by
  rw [memcpy, read_write_range]
  simp only [in_range_iff, h, and_self, true_and]

/-- Segment `i` has written to some of the addresses of an object. Others see
that at most in pages which are not private to `i`. -/
structure WritesOnly (i obj size : ℕ) (m m' : Memory) : Prop where
  mapping : m'.pages_privatized = m.pages_privatized
  outside : ∀ j a, ¬ (obj ≤ a ∧ a < obj + size) → read m' j a = read m j a
  private_pages : ∀ j a, j ≠ i → is_private_page m i (a / 4096) = true → read m' j a = read m j a

section WritesOnly

variable {i obj size : ℕ} {m' m'' : Memory}

theorem WritesOnly.refl (m : Memory) : WritesOnly i obj size m m where
  mapping := rfl
  outside _ _ _ := rfl
  private_pages _ _ _ _ := rfl

theorem WritesOnly.is_private_page (h : WritesOnly i obj size m m') (p : ℕ) :
    is_private_page m' j p = is_private_page m j p := by
  unfold C7.is_private_page
  rw [h.mapping]

theorem WritesOnly.trans (h : WritesOnly i obj size m m') (h' : WritesOnly i obj size m' m'') :
    WritesOnly i obj size m m'' where
  mapping := h'.mapping.trans h.mapping
  outside j a ha := (h'.outside j a ha).trans (h.outside j a ha)
  private_pages j a hj hp := by
    rw [h'.private_pages j a hj (by rw [h.is_private_page]; exact hp)]
    exact h.private_pages j a hj hp

theorem WritesOnly.write_range {range : ℕ → Bool} (val : ℕ → UInt8)
    (hr : ∀ a, range a = true → obj ≤ a ∧ a < obj + size) :
    WritesOnly i obj size m (write_range m i range val) where
  mapping := rfl
  outside j a ha := by
    apply read_write_range_of_false
    rw [← Bool.not_eq_true]
    exact fun h => ha (hr a h)
  private_pages j a hj hp := read_write_range_of_private hp hj

theorem WritesOnly.write {addr : ℕ} (b : UInt8) (h : obj ≤ addr ∧ addr < obj + size) :
    WritesOnly i obj size m (write m i addr b) := by
  apply WritesOnly.write_range
  intro a ha
  rw [eq_of_beq ha]
  exact h

end WritesOnly

/-! ## Privatization -/

/-- `page_privatize` is invisible: the page was mapped to the shared one, and
the segment's own page is made a copy of that. -/
@[simp] theorem read_page_privatize (p : ℕ) :
    read (page_privatize m segnum p) j a = read m j a := by
  unfold page_privatize
  by_cases hp : m.pages_privatized p segnum = true
  · rw [if_pos hp]
  · rw [if_neg hp]
    by_cases hj : j = segnum ∧ a / 4096 = p
    · obtain ⟨rfl, rfl⟩ := hj
      by_cases h0 : j = 0
      · subst h0
        rfl
      · simp [read, is_private_page, hp, h0]
    · have hnot : ¬ (a / 4096 = p ∧ j = segnum) := fun h => hj ⟨h.2, h.1⟩
      simp only [read, is_private_page, if_neg hj, if_neg hnot]
      rfl

theorem is_private_page_page_privatize (p q : ℕ) :
    is_private_page (page_privatize m segnum p) j q = true ↔
      is_private_page m j q = true ∨ (j ≠ 0 ∧ q = p ∧ j = segnum) := by
  unfold page_privatize is_private_page
  by_cases hp : m.pages_privatized p segnum = true
  · rw [if_pos hp]
    constructor
    · exact .inl
    · rintro (h | ⟨h0, rfl, rfl⟩)
      · exact h
      · simp [h0, hp]
  · rw [if_neg hp]
    by_cases hj : q = p ∧ j = segnum
    · obtain ⟨rfl, rfl⟩ := hj
      simp [hp]
    · simp only [if_neg hj]
      tauto

/-! ## Copying an object around -/

/-- The fragments of an object are its pages. -/
theorem mem_fragments {n start stop : ℕ} (hlt : start < stop)
    (hn : (stop - 1) / 4096 = start / 4096 + n) {f : ℕ × ℕ} (hf : f ∈ fragments n start stop) :
    start ≤ f.1 ∧ f.1 + f.2 ≤ stop ∧ ∀ b, f.1 ≤ b → b < f.1 + f.2 → b / 4096 = f.1 / 4096 := by
  induction n generalizing start with
  | zero =>
      rw [fragments, List.mem_singleton] at hf
      subst hf
      refine ⟨le_refl _, by dsimp only; omega, fun b hb hb' => ?_⟩
      dsimp only at hb hb' ⊢
      omega
  | succ n ih =>
      rw [fragments, List.mem_cons] at hf
      rcases hf with rfl | hf
      · refine ⟨le_refl _, by dsimp only; omega, fun b hb hb' => ?_⟩
        dsimp only at hb hb' ⊢
        omega
      · obtain ⟨h1, h2, h3⟩ := ih (by omega) (by omega) hf
        exact ⟨by omega, h2, h3⟩

theorem exists_fragment {n start stop : ℕ} (hlt : start < stop)
    (hn : (stop - 1) / 4096 = start / 4096 + n) (h : start ≤ a) (h' : a < stop) :
    ∃ f ∈ fragments n start stop, f.1 ≤ a ∧ a < f.1 + f.2 := by
  induction n generalizing start with
  | zero =>
      refine ⟨(start, stop - start), by simp [fragments], h, ?_⟩
      dsimp only
      omega
  | succ n ih =>
      by_cases ha : a < start + (4096 - start % 4096)
      · exact ⟨(start, 4096 - start % 4096), by simp [fragments], h, ha⟩
      · obtain ⟨f, hf, hf1, hf2⟩ :=
          @ih ((start + 4096) / 4096 * 4096) (by omega) (by omega) (by omega)
        exact ⟨f, List.mem_cons_of_mem _ hf, hf1, hf2⟩

variable {NB_SEGMENTS myself : ℕ}

theorem mem_segment_nums {i : ℕ} : i ∈ segment_nums NB_SEGMENTS ↔ 1 ≤ i ∧ i ≤ NB_SEGMENTS := by
  rw [segment_nums, List.mem_range'_1]
  omega

/-- Only the given addresses of the views of all segments change, each to the
byte that segment `myself` sees; the mappings stay. -/
structure Pushed (NB_SEGMENTS myself : ℕ) (range : ℕ → Prop) (m m' : Memory) : Prop where
  mapping : m'.pages_privatized = m.pages_privatized
  pushed : ∀ j ≤ NB_SEGMENTS, ∀ a, range a → read m' j a = read m myself a
  frame : ∀ j a, ¬ range a → read m' j a = read m j a

theorem Pushed.refl (m : Memory) : Pushed NB_SEGMENTS myself (fun _ => False) m m where
  mapping := rfl
  pushed _ _ _ h := h.elim
  frame _ _ _ := rfl

theorem Pushed.trans {r₁ r₂ : ℕ → Prop} {m₁ m₂ m₃ : Memory} (hself : myself ≤ NB_SEGMENTS)
    (h₁ : Pushed NB_SEGMENTS myself r₁ m₁ m₂) (h₂ : Pushed NB_SEGMENTS myself r₂ m₂ m₃) :
    Pushed NB_SEGMENTS myself (fun a => r₁ a ∨ r₂ a) m₁ m₃ := by
  have hmine : ∀ a, read m₂ myself a = read m₁ myself a := by
    intro a
    by_cases hr : r₁ a
    · exact h₁.pushed myself hself a hr
    · exact h₁.frame myself a hr
  refine ⟨h₂.mapping.trans h₁.mapping, ?_, ?_⟩
  · intro j hj a hr
    by_cases hr2 : r₂ a
    · rw [h₂.pushed j hj a hr2, hmine]
    · rw [h₂.frame j a hr2]
      exact h₁.pushed j hj a (hr.resolve_right hr2)
  · intro j a hr
    rw [not_or] at hr
    rw [h₂.frame j a hr.2, h₁.frame j a hr.1]

theorem Pushed.congr {r r' : ℕ → Prop} {m m' : Memory} (h : Pushed NB_SEGMENTS myself r m m')
    (hr : ∀ a, r a ↔ r' a) : Pushed NB_SEGMENTS myself r' m m' where
  mapping := h.mapping
  pushed j hj a ha := h.pushed j hj a ((hr a).mpr ha)
  frame j a ha := h.frame j a (fun hra => ha ((hr a).mp hra))

/-- The segment's own view stays the same. -/
theorem Pushed.read_myself {r : ℕ → Prop} {m m' : Memory} (h : Pushed NB_SEGMENTS myself r m m')
    (hself : myself ≤ NB_SEGMENTS) : read m' myself a = read m myself a := by
  by_cases hr : r a
  · exact h.pushed myself hself a hr
  · exact h.frame myself a hr

theorem Pushed.is_private_page {r : ℕ → Prop} {m m' : Memory}
    (h : Pushed NB_SEGMENTS myself r m m') (p : ℕ) :
    is_private_page m' j p = is_private_page m j p := by
  unfold C7.is_private_page
  rw [h.mapping]

/-- The state of `diffuse`: the segments that are done see the range as
`myself` does, and so do all that share the page of an address. -/
structure DiffuseInv (myself start size : ℕ) (m₀ : Memory) (done : ℕ → Prop) (m : Memory) :
    Prop where
  mapping : m.pages_privatized = m₀.pages_privatized
  frame : ∀ j a, ¬ (start ≤ a ∧ a < start + size) → read m j a = read m₀ j a
  done : ∀ j a, start ≤ a ∧ a < start + size →
    done j ∨ C7.is_private_page m₀ j (a / 4096) = false → read m j a = read m₀ myself a

theorem DiffuseInv.is_private_page {m₀ m : Memory} {start size : ℕ} {done : ℕ → Prop}
    (h : DiffuseInv myself start size m₀ done m) (p : ℕ) :
    C7.is_private_page m j p = C7.is_private_page m₀ j p := by
  unfold C7.is_private_page
  rw [h.mapping]

/-- After the copy to segment 0. -/
theorem DiffuseInv.start {m₀ : Memory} {start size : ℕ} :
    DiffuseInv myself start size m₀ (fun j => j = 0 ∨ j = myself)
      (memcpy m₀ 0 myself start size) := by
  refine ⟨rfl, fun j a ha => read_memcpy_of_notMem ha, ?_⟩
  intro j a ha hor
  rw [read_memcpy_of_mem ha, is_private_page_zero]
  by_cases hj : j = 0 ∨ C7.is_private_page m₀ j (a / 4096) = false
  · rw [if_pos (by tauto)]
  · rw [if_neg (by tauto)]
    have : j = myself := by tauto
    rw [this]

/-- Where no copy to segment 0 is needed. -/
theorem DiffuseInv.start_shared {m₀ : Memory} {start size : ℕ}
    (hself : ∀ a, start ≤ a ∧ a < start + size →
      C7.is_private_page m₀ myself (a / 4096) = false) :
    DiffuseInv myself start size m₀ (fun j => j = 0 ∨ j = myself) m₀ := by
  refine ⟨rfl, fun _ _ _ => rfl, ?_⟩
  intro j a ha hor
  rw [read_of_shared (hself a ha)]
  by_cases hj : j = myself
  · rw [hj, read_of_shared (hself a ha)]
  · refine read_of_shared ?_
    rcases hor with (rfl | h) | hs
    · rfl
    · exact absurd h hj
    · exact hs

theorem DiffuseInv.turn {m₀ m : Memory} {start size i : ℕ} {done : ℕ → Prop}
    {test : Memory → ℕ → Bool}
    (htest : test m i = false → ∀ a, start ≤ a ∧ a < start + size →
      C7.is_private_page m i (a / 4096) = false)
    (hself : done myself) (h : DiffuseInv myself start size m₀ done m) :
    DiffuseInv myself start size m₀ (fun j => done j ∨ j = i)
      (if i = myself then m else if test m i then memcpy m i myself start size else m) := by
  by_cases hi : i = myself
  · rw [if_pos hi]
    refine ⟨h.mapping, h.frame, fun j a ha hor => h.done j a ha ?_⟩
    rcases hor with (hd | rfl) | hp
    · exact .inl hd
    · exact .inl (hi ▸ hself)
    · exact .inr hp
  · rw [if_neg hi]
    by_cases ht : test m i = true
    · rw [if_pos ht]
      refine ⟨h.mapping, ?_, ?_⟩
      · intro j a ha
        rw [read_memcpy_of_notMem ha]
        exact h.frame j a ha
      · intro j a ha hor
        rw [read_memcpy_of_mem ha]
        by_cases hj : j = i ∨ C7.is_private_page m i (a / 4096) = false
          ∧ C7.is_private_page m j (a / 4096) = false
        · rw [if_pos hj]
          exact h.done myself a ha (.inl hself)
        · rw [if_neg hj]
          exact h.done j a ha (by tauto)
    · rw [if_neg ht]
      rw [Bool.not_eq_true] at ht
      refine ⟨h.mapping, h.frame, fun j a ha hor => h.done j a ha ?_⟩
      rcases hor with (hd | rfl) | hs
      · exact .inl hd
      · refine .inr ?_
        rw [← h.is_private_page]
        exact htest ht a ha
      · exact .inr hs

/-- `diffuse` shows the range to all segments, if `test` holds for every
segment that has a private page in it. -/
theorem DiffuseInv.diffuse {m₀ m : Memory} {start size : ℕ} {test : Memory → ℕ → Bool}
    (htest : ∀ m i, test m i = false → ∀ a, start ≤ a ∧ a < start + size →
      C7.is_private_page m i (a / 4096) = false)
    (h : DiffuseInv myself start size m₀ (fun j => j = 0 ∨ j = myself) m) :
    Pushed NB_SEGMENTS myself (fun a => start ≤ a ∧ a < start + size) m₀
      (C7.diffuse NB_SEGMENTS test myself start size m) := by
  have hfold : ∀ (lst : List ℕ) (m : Memory) (done : ℕ → Prop), done myself →
      DiffuseInv myself start size m₀ done m →
      DiffuseInv myself start size m₀ (fun j => done j ∨ j ∈ lst)
        (lst.foldl (fun m i => if i = myself then m
          else if test m i then memcpy m i myself start size else m) m) := by
    intro lst
    induction lst with
    | nil =>
        intro m done _ h
        simpa using h
    | cons i lst ih =>
        intro m done hself h
        have hlst := ih _ _ (.inl hself) (h.turn (htest m i) hself)
        refine ⟨hlst.mapping, hlst.frame, fun j a ha hor => hlst.done j a ha ?_⟩
        rw [List.mem_cons] at hor
        tauto
  have hend := hfold (segment_nums NB_SEGMENTS) m _ (.inr rfl) h
  refine ⟨hend.mapping, ?_, hend.frame⟩
  intro j hj a ha
  refine hend.done j a ha (.inl ?_)
  by_cases h0 : j = 0
  · exact .inl (.inl h0)
  · exact .inr (mem_segment_nums.mpr ⟨by omega, hj⟩)

theorem synchronize_fragment_spec {m : Memory} {f : ℕ × ℕ}
    (hpage : ∀ a, f.1 ≤ a → a < f.1 + f.2 → a / 4096 = f.1 / 4096) :
    Pushed NB_SEGMENTS myself (fun a => f.1 ≤ a ∧ a < f.1 + f.2) m
      (synchronize_fragment NB_SEGMENTS myself m f) := by
  obtain ⟨start, size⟩ := f
  dsimp only at hpage ⊢
  unfold synchronize_fragment
  refine DiffuseInv.diffuse ?_ ?_
  · intro m i ht a ha
    rw [hpage a ha.1 ha.2]
    exact ht
  · by_cases hp : C7.is_private_page m myself (start / 4096) = true
    · rw [if_pos hp]
      exact DiffuseInv.start
    · rw [if_neg hp]
      refine DiffuseInv.start_shared (fun a ha => ?_)
      rw [hpage a ha.1 ha.2]
      exact Bool.not_eq_true _ ▸ hp

/-- A list of copies pushes all the ranges. -/
theorem foldl_pushed {α : Type} {f : Memory → α → Memory} (range : α → ℕ → Prop)
    (hself : myself ≤ NB_SEGMENTS) (lst : List α)
    (hf : ∀ x ∈ lst, ∀ m, Pushed NB_SEGMENTS myself (range x) m (f m x)) (m : Memory) :
    Pushed NB_SEGMENTS myself (fun a => ∃ x ∈ lst, range x a) m (lst.foldl f m) := by
  induction lst generalizing m with
  | nil => exact (Pushed.refl m).congr (by simp)
  | cons x lst ih =>
      have h := (hf x (by simp) m).trans hself
        (ih (fun y hy => hf y (List.mem_cons_of_mem _ hy)) (f m x))
      exact h.congr (by simp)

/-- `_page_wise_synchronize_object_now` shows all segments the bytes of the
object as `myself` sees them, and changes nothing else. -/
theorem page_wise_synchronize_object_now_spec {m : Memory} {obj obj_size : ℕ}
    (hself : myself ≤ NB_SEGMENTS) (hsize : 0 < obj_size) :
    Pushed NB_SEGMENTS myself (fun a => obj ≤ a ∧ a < obj + obj_size) m
      (page_wise_synchronize_object_now NB_SEGMENTS m myself obj obj_size) := by
  unfold page_wise_synchronize_object_now
  have hn : (obj + obj_size - 1) / 4096
      = obj / 4096 + ((obj + obj_size - 1) / 4096 - obj / 4096) := by
    omega
  have h := foldl_pushed (f := synchronize_fragment NB_SEGMENTS myself)
    (fun f a => f.1 ≤ a ∧ a < f.1 + f.2) hself
    (fragments ((obj + obj_size - 1) / 4096 - obj / 4096) obj (obj + obj_size))
    (fun f hf m => synchronize_fragment_spec (fun a ha ha' =>
      (mem_fragments (by omega) hn hf).2.2 a ha ha')) m
  refine h.congr (fun a => ⟨?_, ?_⟩)
  · rintro ⟨f, hf, ha, ha'⟩
    obtain ⟨h1, h2, -⟩ := mem_fragments (by omega) hn hf
    omega
  · rintro ⟨ha, ha'⟩
    exact exists_fragment (by omega) hn ha ha'

end

end Stmgc.C7
