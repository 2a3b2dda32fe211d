/-
Runs of `largemalloc.c`, with the pages of `pages.c` as far as they are counted.

The one caller of `_stm_largemalloc_resize_arena` makes the arena smaller. A run
may make it larger too, where that leaves a heap behind, [`ResizeSafe`].
-/
import Mathlib.Algebra.BigOperators.Group.Finset.Piecewise
import Mathlib.Algebra.Order.BigOperators.Group.Finset
import Mathlib.Data.Nat.Bitwise
import Stmgc.C7.LargemallocArena
import Stmgc.Lib.Machine

open Stmgc.Lib

namespace Stmgc.C7.Largemalloc

/-- `STM_NB_SEGMENTS`. -/
def NB_SEGMENTS : ℕ := 4

def NB_PAGES : ℕ := 2500 * 256

/-- `live` are the pointers to user data, with the sizes asked for. -/
structure state_t where
  lm : lm_t
  live : List (ℕ × ℕ)
  /-- `pages_privatized[].by_segment`. -/
  by_segment : ℕ → ℕ

def increment_total_allocated (s : state_t) (add_or_remove : ℤ) : state_t :=
  { s with lm.total_allocated := s.lm.total_allocated + BitVec.ofInt 64 add_or_remove }

theorem increment_total_allocated_lm {s : state_t} {n : ℤ} : (increment_total_allocated s n).lm
    = { s.lm with total_allocated := s.lm.total_allocated + BitVec.ofInt 64 n } := rfl

theorem increment_total_allocated_live {s : state_t} {n : ℤ} :
    (increment_total_allocated s n).live = s.live := rfl

def page_privatize (s : state_t) (segment_num pagenum : ℕ) : state_t :=
  let bitmask := 1 <<< (segment_num - 1)
  if s.by_segment pagenum &&& bitmask ≠ 0 then s
  else increment_total_allocated
    { s with by_segment := Function.update s.by_segment pagenum (s.by_segment pagenum ||| bitmask) } 4096

def page_reshare (s : state_t) (pagenum : ℕ) : state_t :=
  let ps := s.by_segment pagenum
  let total := (List.range NB_SEGMENTS).foldl (fun total j =>
    if ps &&& (1 <<< j) ≠ 0 then total - 4096 else total) (0 : ℤ)
  increment_total_allocated { s with by_segment := Function.update s.by_segment pagenum 0 } total

/-- The calls, and the writes of the program to its own data. -/
inductive action_t where
  | malloc (request_size : ℕ)
  | free (data : ℕ)
  | sweep (keep : ℕ → Bool)
  | resize (new_size : ℕ)
  | write (data w v : ℕ)
  | page_privatize (segment_num pagenum : ℕ)
  | page_reshare (pagenum : ℕ)

/-- A pointer that `malloc` has returned. -/
def add_live (live : List (ℕ × ℕ)) (data request_size : ℕ) : List (ℕ × ℕ) :=
  if data = 0 then live else (data, request_size) :: live

def step (debug : Bool) (q : qsort_t) (s : state_t) : action_t → Outcome state_t
  | .malloc request_size =>
      guarded (request_size % 8 = 0) <|
        (Outcome.ofOption (_stm_large_malloc debug q s.lm request_size)).bind fun (lm, data) =>
          .next { s with lm := lm, live := add_live s.live data request_size }
  | .free data =>
      guarded (∃ x ∈ s.live, x.1 = data) <|
        (Outcome.ofOption (_stm_large_free debug s.lm data)).bind fun lm =>
          .next { s with lm := lm, live := s.live.filter fun x => decide (x.1 ≠ data) }
  | .sweep keep =>
      (Outcome.ofOption (_stm_largemalloc_sweep debug (fun _ data => ((), keep data)) s.lm ())).bind
        fun (lm, _) => .next { s with lm := lm, live := s.live.filter fun x => keep x.1 }
  | .resize new_size =>
      guarded (new_size &&& 31 = 0 ∧ ResizeSafe debug s.lm new_size) <|
        (Outcome.ofOption (_stm_largemalloc_resize_arena debug s.lm new_size)).bind fun (lm, _) =>
          .next { s with lm := lm }
  | .write data w v =>
      guarded (∃ x ∈ s.live, x.1 = data ∧ data ≤ w ∧ w + 8 ≤ data + x.2) <|
        .next { s with lm.mem := store s.lm.mem w v }
  | .page_privatize segment_num pagenum =>
      guarded (1 ≤ segment_num ∧ segment_num ≤ NB_SEGMENTS ∧ pagenum < NB_PAGES) <|
        .next (page_privatize s segment_num pagenum)
  | .page_reshare pagenum =>
      guarded (pagenum < NB_PAGES) <| .next (page_reshare s pagenum)

/-- After `_stm_largemalloc_init_arena`, in a memory that may hold anything. -/
def Initial (debug : Bool) (s : state_t) : Prop :=
  ∃ m data_start data_size, largebins N_BINS ≤ data_start ∧ data_start + data_size ≤ 2 ^ 63 ∧
    2 * SIZEOF_CHUNK ≤ data_size ∧ data_size &&& 31 = 0 ∧
    _stm_largemalloc_init_arena debug m 0 data_start data_size = some s.lm ∧ s.live = [] ∧
    s.by_segment = fun _ => 0

/-! ## The pointers to user data -/

/-- The used chunks are the live allocations. -/
structure LiveOf (cs : List chunk_t) (live : List (ℕ × ℕ)) : Prop where
  perm : (live.map Prod.fst).Perm ((useds cs).map fun c => c.addr + 16)
  fits : ∀ x ∈ live, ∃ c ∈ useds cs, c.addr + 16 = x.1 ∧ x.2 ≤ c.size

structure Inv (s : state_t) (cs : List chunk_t) : Prop where
  heap : Heap s.lm cs
  live : LiveOf cs s.live
  size : arena_size s.lm % 32 = 0
  room : 96 ≤ arena_size s.lm

section Steps

variable {debug : Bool} {q : qsort_t} {s s' : state_t} {cs cs' : List chunk_t} {live : List (ℕ × ℕ)}

/-- Some of the allocations die. -/
theorem LiveOf.filter (h : LiveOf cs live) {keep : ℕ → Bool}
    (hcs' : useds cs' = (useds cs).filter fun c => keep (c.addr + 16)) :
    LiveOf cs' (live.filter fun x => keep x.1) where
  perm := by
    have hleft : (live.filter fun x => keep x.1).map Prod.fst = (live.map Prod.fst).filter keep := by
      rw [List.filter_map]
      rfl
    have hright : (useds cs').map (fun c => c.addr + 16)
        = ((useds cs).map fun c => c.addr + 16).filter keep := by
      rw [List.filter_map, hcs']
      rfl
    rw [hleft, hright]
    exact h.perm.filter keep
  fits := by
    intro x hx
    obtain ⟨hx, hkeep⟩ := List.mem_filter.mp hx
    obtain ⟨c, hc, haddr, hfit⟩ := h.fits x hx
    refine ⟨c, ?_, haddr, hfit⟩
    rw [hcs']
    exact List.mem_filter.mpr ⟨hc, by rwa [haddr]⟩

/-- A predicate without a state. -/
theorem sweep_calls_pure {keep : ℕ → Bool} (l : List chunk_t) :
    (sweep_calls (fun (_ : Unit) data => ((), keep data)) () l).2 = l.filter fun c => keep (c.addr + 16) := by
  induction l with
  | nil => rfl
  | cons c l ih =>
      rw [sweep_calls]
      dsimp only
      rw [ih, List.filter_cons]

/-- The chunk of a live allocation. -/
theorem Inv.chunk_of_live (h : Inv s cs) {x : ℕ × ℕ} (hx : x ∈ s.live) :
    ∃ pre c post, cs = pre ++ c :: post ∧ c.free = false ∧ c.addr + 16 = x.1 ∧ x.2 ≤ c.size := by
  obtain ⟨c, hc, haddr, hfit⟩ := h.live.fits x hx
  obtain ⟨hc, hused⟩ := mem_useds.mp hc
  obtain ⟨pre, post, rfl⟩ := List.append_of_mem hc
  exact ⟨pre, c, post, rfl, hused, haddr, hfit⟩

/-- The used chunks without one of them. -/
theorem Heap.useds_erase {lm : lm_t} {pre post : List chunk_t} {c : chunk_t}
    (h : Heap lm (pre ++ c :: post)) (hused : c.free = false) :
    useds pre ++ useds post
      = (useds (pre ++ c :: post)).filter fun d => decide (d.addr + 16 ≠ c.addr + 16) := by
  have hne : ∀ d ∈ pre ++ post, d.addr + 16 ≠ c.addr + 16 := by
    intro d hd heq
    have hpair := h.seg.bounds.2.2
    have hnext : c.next = c.addr + (16 + c.size) := rfl
    have hdnext : d.next = d.addr + (16 + d.size) := rfl
    rcases List.mem_append.mp hd with hd | hd
    · have hle := (List.pairwise_append.mp hpair).2.2 d hd c List.mem_cons_self
      omega
    · have hle := (List.pairwise_cons.mp (List.pairwise_append.mp hpair).2.1).1 d hd
      omega
  have hkeep : ∀ l : List chunk_t, (∀ d ∈ l, d ∈ pre ++ post) →
      (useds l).filter (fun d => decide (d.addr + 16 ≠ c.addr + 16)) = useds l := by
    intro l hl
    refine List.filter_eq_self.mpr fun d hd => ?_
    exact decide_eq_true (hne d (hl d (mem_useds.mp hd).1))
  rw [useds_append, useds_cons_used hused, List.filter_append, List.filter_cons_of_neg (by simp),
    hkeep pre fun d hd => List.mem_append_left _ hd, hkeep post fun d hd => List.mem_append_right _ hd]

theorem useds_rest {f : chunk_t} {n : ℕ} : useds (rest f n) = [] := by
  unfold rest
  split_ifs
  · rfl
  · rfl

/-- The used chunks after an allocation. -/
theorem useds_taken {pre post : List chunk_t} {f : chunk_t} {n : ℕ} :
    useds (pre ++ taken f n :: (rest f n ++ post)) = useds pre ++ taken f n :: useds post := by
  rw [useds_append, useds_cons_used rfl, useds_append, useds_rest, List.nil_append]

theorem taken_size {f : chunk_t} {n : ℕ} (h : n ≤ f.size) : n ≤ (taken f n).size := by
  unfold taken
  dsimp only
  split_ifs
  · exact h
  · exact le_refl _

end Steps

/-! ## The count of the private pages -/

section Pages

/-- How many segments have a private copy of a page. -/
def private_copies (ps : ℕ) : ℕ := (List.range NB_SEGMENTS).countP fun j => ps.testBit j

def private_pages (by_segment : ℕ → ℕ) : ℕ :=
  ∑ pagenum ∈ Finset.range NB_PAGES, private_copies (by_segment pagenum)

variable {by_segment : ℕ → ℕ} {ps pagenum j : ℕ}

theorem bit_ne_zero : ps &&& (1 <<< j) ≠ 0 ↔ ps.testBit j = true := by
  rw [Nat.one_shiftLeft, Nat.and_two_pow]
  cases ps.testBit j with
  | true => simp
  | false => simp

theorem private_copies_set (hj : j < NB_SEGMENTS) (hbit : ps.testBit j = false) :
    private_copies (ps ||| 1 <<< j) = private_copies ps + 1 := by
  have hset : ∀ k, (ps ||| 1 <<< j).testBit k = (ps.testBit k || decide (j = k)) := by
    intro k
    rw [Nat.testBit_or, Nat.one_shiftLeft, Nat.testBit_two_pow]
  have hrange : List.range NB_SEGMENTS = [0, 1, 2, 3] := rfl
  have hj' : j = 0 ∨ j = 1 ∨ j = 2 ∨ j = 3 := by
    unfold NB_SEGMENTS at hj
    omega
  unfold private_copies
  simp only [hset, hrange]
  rcases hj' with rfl | rfl | rfl | rfl
  · simp [List.countP_cons, hbit]
  · simp [List.countP_cons, hbit]
    omega
  · simp [List.countP_cons, hbit]
    omega
  · simp [List.countP_cons, hbit]
    omega

theorem private_copies_zero : private_copies 0 = 0 := by
  unfold private_copies
  simp

theorem private_copies_le : private_copies ps ≤ NB_SEGMENTS := by
  refine List.countP_le_length.trans ?_
  rw [List.length_range]

theorem private_pages_le : private_pages by_segment ≤ NB_PAGES * NB_SEGMENTS := by
  refine (Finset.sum_le_card_nsmul _ _ NB_SEGMENTS fun _ _ => private_copies_le).trans ?_
  rw [Finset.card_range]
  exact le_refl _

/-- One page gets another bit set. -/
theorem private_pages_update (hpage : pagenum < NB_PAGES) :
    private_pages (Function.update by_segment pagenum ps) + private_copies (by_segment pagenum)
      = private_pages by_segment + private_copies ps := by
  have hmem : pagenum ∈ Finset.range NB_PAGES := Finset.mem_range.mpr hpage
  have hrest : ∑ p ∈ (Finset.range NB_PAGES).erase pagenum,
      private_copies (Function.update by_segment pagenum ps p)
        = ∑ p ∈ (Finset.range NB_PAGES).erase pagenum, private_copies (by_segment p) := by
    refine Finset.sum_congr rfl fun p hp => ?_
    rw [Function.update_of_ne (Finset.ne_of_mem_erase hp)]
  unfold private_pages
  rw [← Finset.add_sum_erase _ _ hmem, ← Finset.add_sum_erase _ _ hmem, hrest, Function.update_self]
  omega

/-- What `page_reshare` sums up. -/
theorem reshare_total (l : List ℕ) (total : ℤ) :
    l.foldl (fun total j => if ps &&& (1 <<< j) ≠ 0 then total - 4096 else total) total
      = total - 4096 * (l.countP fun j => ps.testBit j) := by
  induction l generalizing total with
  | nil => simp
  | cons j l ih =>
      rw [List.foldl_cons, ih, List.countP_cons]
      by_cases hbit : ps.testBit j = true
      · rw [if_pos (bit_ne_zero.mpr hbit), if_pos hbit]
        push_cast
        omega
      · rw [if_neg fun h => hbit (bit_ne_zero.mp h), if_neg hbit, Nat.add_zero]

end Pages

/-! ## The accounting -/

/-- The counter agrees with what is allocated. -/
def Balanced (s : state_t) (cs : List chunk_t) : Prop :=
  s.lm.total_allocated = BitVec.ofNat 64 (allocated cs + 4096 * private_pages s.by_segment)

section Accounting

variable {s s' : state_t} {cs cs' : List chunk_t} {segment_num pagenum : ℕ}

theorem Balanced.page_privatize (h : Balanced s cs) (hlo : 1 ≤ segment_num)
    (hhi : segment_num ≤ NB_SEGMENTS) (hpage : pagenum < NB_PAGES) :
    Balanced (page_privatize s segment_num pagenum) cs := by
  unfold Largemalloc.page_privatize
  by_cases hbit : s.by_segment pagenum &&& 1 <<< (segment_num - 1) ≠ 0
  · rw [if_pos hbit]
    exact h
  · rw [if_neg hbit]
    rw [bit_ne_zero, Bool.not_eq_true] at hbit
    have hset := private_copies_set (j := segment_num - 1) (by omega) hbit
    have hupdate := @private_pages_update s.by_segment
      (s.by_segment pagenum ||| 1 <<< (segment_num - 1)) pagenum hpage
    have hsum : private_pages (Function.update s.by_segment pagenum
        (s.by_segment pagenum ||| 1 <<< (segment_num - 1))) = private_pages s.by_segment + 1 := by
      omega
    show s.lm.total_allocated + BitVec.ofInt 64 4096 = BitVec.ofNat 64 (allocated cs + 4096 *
      private_pages (Function.update s.by_segment pagenum
        (s.by_segment pagenum ||| 1 <<< (segment_num - 1))))
    have hpage_size : BitVec.ofInt 64 4096 = BitVec.ofNat 64 (4096 * 1) := by decide
    rw [hsum, h, hpage_size, Nat.mul_add, ← Nat.add_assoc]
    simp only [BitVec.ofNat_add]

theorem Balanced.page_reshare (h : Balanced s cs) (hpage : pagenum < NB_PAGES) :
    Balanced (page_reshare s pagenum) cs := by
  have hupdate := @private_pages_update s.by_segment 0 pagenum hpage
  rw [private_copies_zero, Nat.add_zero] at hupdate
  unfold Largemalloc.page_reshare
  dsimp only
  rw [reshare_total]
  have hcopies : (List.range NB_SEGMENTS).countP (fun j => (s.by_segment pagenum).testBit j)
      = private_copies (s.by_segment pagenum) := rfl
  rw [hcopies]
  show s.lm.total_allocated + BitVec.ofInt 64 _ = BitVec.ofNat 64 (allocated cs + 4096 *
    private_pages (Function.update s.by_segment pagenum 0))
  have hsum : allocated cs + 4096 * private_pages s.by_segment
      = allocated cs + 4096 * private_pages (Function.update s.by_segment pagenum 0)
        + 4096 * private_copies (s.by_segment pagenum) := by
    omega
  rw [h, hsum, BitVec.ofNat_add]
  have hneg : BitVec.ofInt 64 (0 - 4096 * (private_copies (s.by_segment pagenum) : ℤ))
      = - BitVec.ofNat 64 (4096 * private_copies (s.by_segment pagenum)) := by
    rw [Int.zero_sub, BitVec.ofInt_neg, ← BitVec.ofInt_natCast]
    push_cast
    rfl
  rw [hneg]
  grind

/-- What an operation of `largemalloc.c` adds to the counter. -/
theorem Balanced.of_lm (h : Balanced s cs) (hpages : s'.by_segment = s.by_segment)
    (htotal : s'.lm.total_allocated + BitVec.ofNat 64 (allocated cs)
      = s.lm.total_allocated + BitVec.ofNat 64 (allocated cs')) : Balanced s' cs' := by
  unfold Balanced at h ⊢
  rw [hpages]
  rw [h] at htotal
  simp only [BitVec.ofNat_add] at htotal ⊢
  grind

end Accounting

/-! ## The steps -/

/-- The step makes the arena larger. -/
def Grows (s : state_t) : action_t → Prop
  | .resize new_size => arena_size s.lm < new_size
  | _ => False

/-- What a step leaves behind. -/
structure Stepped (s : state_t) (cs : List chunk_t) (a : action_t) (s' : state_t) (cs' : List chunk_t) :
    Prop where
  inv : Inv s' cs'
  first : s'.lm.first_chunk = s.lm.first_chunk
  balanced : ¬ Grows s a → Balanced s cs → Balanced s' cs'
  last : ¬ Grows s a → s'.lm.last_chunk ≤ s.lm.last_chunk

section Step

variable {debug : Bool} {q : qsort_t} {s s' : state_t} {cs : List chunk_t} {lm : lm_t}
  {request_size data new_size w v : ℕ} {keep : ℕ → Bool} {a : action_t}

theorem Inv.malloc (h : Inv s cs) (hword : request_size % 8 = 0)
    (hrun : _stm_large_malloc debug q s.lm request_size = some (lm, data)) :
    ∃ cs', Stepped s cs (.malloc request_size)
      { s with lm := lm, live := add_live s.live data request_size } cs' := by
  obtain ⟨r, hr, hallocated, hfirst, hlast, -⟩ := @Heap._stm_large_malloc s.lm cs _ debug q h.heap hword
  obtain rfl : r = (lm, data) := Option.some.inj (hr.symm.trans hrun)
  have hsize : arena_size lm = arena_size s.lm := by
    unfold arena_size
    rw [hfirst, hlast]
  have hn : request_size ≤ max request_size MIN_ALLOC_SIZE := le_max_left _ _
  cases hallocated with
  | null hdata _ heap total =>
      refine ⟨cs, ⟨⟨heap, ?_, hsize ▸ h.size, hsize ▸ h.room⟩, hfirst, fun _ hb => ?_, fun _ => hlast.le⟩⟩
      · have hlive : add_live s.live data request_size = s.live := if_pos hdata
        show LiveOf cs (add_live s.live data request_size)
        rw [hlive]
        exact h.live
      · exact hb.of_lm rfl (by rw [total])
  | best pre f post split hfree fits _ hdata heap total =>
      have huseds : useds cs = useds pre ++ useds post := by
        rw [split, useds_append, useds_cons_free hfree]
      have hlive : add_live s.live data request_size = (data, request_size) :: s.live :=
        if_neg (by omega)
      refine ⟨_, ⟨⟨heap, ?_, hsize ▸ h.size, hsize ▸ h.room⟩, hfirst, fun _ hb => ?_, fun _ => hlast.le⟩⟩
      · show LiveOf _ (add_live s.live data request_size)
        rw [hlive]
        refine ⟨?_, fun x hx => ?_⟩
        · rw [useds_taken, List.map_cons, List.map_append, List.map_cons]
          refine List.Perm.trans ?_ List.perm_middle.symm
          have hperm := h.live.perm
          rw [huseds, List.map_append] at hperm
          have haddr : data = (taken f (max request_size MIN_ALLOC_SIZE)).addr + 16 := hdata
          rw [← haddr]
          exact hperm.cons data
        · rw [useds_taken]
          rcases List.mem_cons.mp hx with rfl | hx
          · exact ⟨taken f (max request_size MIN_ALLOC_SIZE), by simp, hdata.symm,
              hn.trans (taken_size fits)⟩
          · obtain ⟨c, hc, haddr, hfit⟩ := h.live.fits x hx
            refine ⟨c, ?_, haddr, hfit⟩
            rw [huseds] at hc
            simp only [List.mem_append, List.mem_cons] at hc ⊢
            tauto
      · refine hb.of_lm rfl ?_
        have hsum : allocated (pre ++ taken f (max request_size MIN_ALLOC_SIZE) ::
            (rest f (max request_size MIN_ALLOC_SIZE) ++ post))
              = allocated cs + ((taken f (max request_size MIN_ALLOC_SIZE)).size + LARGE_MALLOC_OVERHEAD) := by
          unfold allocated
          rw [useds_taken, huseds]
          simp only [List.map_append, List.map_cons, List.sum_append, List.sum_cons]
          omega
        rw [hsum, total]
        simp only [BitVec.ofNat_add]
        grind

theorem Inv.free (h : Inv s cs) (hdata : ∃ x ∈ s.live, x.1 = data)
    (hrun : _stm_large_free debug s.lm data = some lm) :
    ∃ cs', Stepped s cs (.free data)
      { s with lm := lm, live := s.live.filter fun x => decide (x.1 ≠ data) } cs' := by
  obtain ⟨x, hx, rfl⟩ := hdata
  obtain ⟨pre, c, post, rfl, hused, haddr, -⟩ := h.chunk_of_live hx
  rw [← haddr] at hrun ⊢
  have hchunk : data2chunk (c.addr + 16) = c.addr := data2chunk_d
  unfold _stm_large_free at hrun
  rw [hchunk] at hrun
  have hdebug : debug = true → post ≠ [] := by
    rintro rfl rfl
    obtain ⟨t, r, -, -, hat, hprev, hend⟩ := seg_append.mp h.heap.seg
    have htag : c.tag = BOTH_CHUNKS_USED := by
      rw [chunk_t.tag, if_neg]
      simp [hused]
    have hmarker := h.heap.marker
    rw [hend] at hprev hmarker
    rw [_large_free_last hat.size (hprev.trans htag) hmarker] at hrun
    simp at hrun
  obtain ⟨lm', hlm', cs', hrel, hheap, hfirst, hlast, htotal, -⟩ := h.heap._large_free hused hdebug
  obtain rfl : lm' = lm := Option.some.inj (hlm'.symm.trans hrun)
  have hsize : arena_size lm' = arena_size s.lm := by
    unfold arena_size
    rw [hfirst, hlast]
  have hallocated := hrel.allocated
  refine ⟨cs', ⟨⟨hheap, ?_, hsize ▸ h.size, hsize ▸ h.room⟩, hfirst, fun _ hb => ?_, fun _ => hlast.le⟩⟩
  · refine @LiveOf.filter _ cs' s.live h.live (fun d => decide (d ≠ c.addr + 16)) ?_
    rw [hrel.useds]
    exact h.heap.useds_erase hused
  · refine hb.of_lm rfl ?_
    rw [hallocated, allocated_append, allocated_used hused, htotal]
    simp only [BitVec.ofNat_add]
    grind

theorem Inv.sweep {st : Unit} (h : Inv s cs)
    (hrun : _stm_largemalloc_sweep debug (fun _ data => ((), keep data)) s.lm () = some (lm, st)) :
    ∃ cs', Stepped s cs (.sweep keep) { s with lm := lm, live := s.live.filter fun x => keep x.1 } cs' := by
  have hok : debug = true → ¬ LastDies (fun _ data => ((), keep data)) () cs := by
    rintro rfl hdies
    rw [h.heap.sweep_fails hdies] at hrun
    simp at hrun
  obtain ⟨r, hr, hswept⟩ := h.heap.sweep hok
  obtain rfl : r = (lm, st) := Option.some.inj (hr.symm.trans hrun)
  obtain ⟨hfirst, hlast, -, cs', hheap, huseds, -, htotal⟩ := hswept
  rw [sweep_calls_pure] at huseds
  have hsize : arena_size lm = arena_size s.lm := by
    unfold arena_size
    rw [hfirst, hlast]
  exact ⟨cs', ⟨⟨hheap, h.live.filter huseds, hsize ▸ h.size, hsize ▸ h.room⟩, hfirst,
    fun _ hb => hb.of_lm rfl htotal, fun _ => hlast.le⟩⟩

theorem Inv.resize {r : ℕ} (h : Inv s cs) (hnew : new_size &&& 31 = 0)
    (hsafe : ResizeSafe debug s.lm new_size)
    (hrun : _stm_largemalloc_resize_arena debug s.lm new_size = some (lm, r)) :
    ∃ cs', Stepped s cs (.resize new_size) { s with lm := lm } cs' := by
  obtain ⟨res, hres, hcases, htotal⟩ := h.heap.resize_arena h.size h.room hnew hsafe
  obtain rfl : res = (lm, r) := Option.some.inj (hres.symm.trans hrun)
  dsimp only at hcases htotal
  have htotal' : ¬ Grows s (.resize new_size) → lm.total_allocated = s.lm.total_allocated := by
    intro hgrows
    have hle : new_size ≤ arena_size s.lm := Nat.le_of_not_lt hgrows
    rw [htotal, Nat.sub_eq_zero_of_le hle]
    simp
  rcases hcases with ⟨-, rfl⟩ | ⟨-, ⟨hfirst, hsize, cs', hheap, huseds, -⟩, hroom⟩
  · exact ⟨cs, ⟨h, rfl, fun _ hb => hb, fun _ => le_refl _⟩⟩
  · have hallocated : allocated cs' = allocated cs := by
      unfold allocated
      rw [huseds]
    have hword : new_size % 32 = 0 := by rwa [and_thirty_one] at hnew
    refine ⟨cs', ⟨⟨hheap, ?_, hsize.symm ▸ hword, hsize.symm ▸ hroom⟩, hfirst, fun hgrows hb => ?_,
      fun hgrows => ?_⟩⟩
    · obtain ⟨hperm, hfits⟩ := h.live
      rw [← huseds] at hperm hfits
      exact ⟨hperm, hfits⟩
    · exact hb.of_lm rfl (by rw [htotal' hgrows, hallocated])
    · have hle : new_size ≤ arena_size s.lm := Nat.le_of_not_lt hgrows
      have hbound := h.heap.seg.bounds.1
      unfold arena_size at hsize hle
      show lm.last_chunk ≤ s.lm.last_chunk
      omega

theorem Inv.write (h : Inv s cs) (hdata : ∃ x ∈ s.live, x.1 = data ∧ data ≤ w ∧ w + 8 ≤ data + x.2) :
    ∃ cs', Stepped s cs (.write data w v) { s with lm.mem := store s.lm.mem w v } cs' := by
  obtain ⟨x, hx, rfl, hlo, hhi⟩ := hdata
  obtain ⟨c, hc, haddr, hfit⟩ := h.live.fits x hx
  have hnext : c.next = c.addr + (16 + c.size) := rfl
  have hheap := (@Heap.write s.lm cs c (store s.lm.mem w v) h.heap hc) fun w' hw' => by
    refine store_of_ne ?_
    rintro rfl
    refine hw' ⟨?_, ?_⟩
    · omega
    · omega
  exact ⟨cs, ⟨⟨hheap, h.live, h.size, h.room⟩, rfl, fun _ hb => hb, fun _ => le_refl _⟩⟩

/-- Only the counter changes. -/
theorem Inv.of_total {total : BitVec 64} (h : Inv s cs) (hlm : s'.lm = { s.lm with total_allocated := total })
    (hlive : s'.live = s.live) : Inv s' cs := by
  obtain ⟨⟨hlow, hseg, hmarker, hbins⟩, hlives, hsize, hroom⟩ := h
  rw [← hlive] at hlives
  refine ⟨?_, hlives, ?_, ?_⟩
  · rw [hlm]
    exact ⟨hlow, hseg, hmarker, hbins⟩
  · rw [hlm]
    exact hsize
  · rw [hlm]
    exact hroom

/-- **The step lemma.** -/
theorem Inv.step (h : Inv s cs) (hs : Largemalloc.step debug q s a = .next s') :
    ∃ cs', Stepped s cs a s' cs' := by
  cases a with
  | malloc request_size =>
      obtain ⟨hword, hs⟩ := guarded_eq_next.mp hs
      obtain ⟨⟨lm, data⟩, hrun, hs⟩ := Outcome.bind_eq_next.mp hs
      rw [Outcome.next.injEq] at hs
      exact hs ▸ h.malloc hword (Outcome.ofOption_eq_next.mp hrun)
  | free data =>
      obtain ⟨hdata, hs⟩ := guarded_eq_next.mp hs
      obtain ⟨lm, hrun, hs⟩ := Outcome.bind_eq_next.mp hs
      rw [Outcome.next.injEq] at hs
      exact hs ▸ h.free hdata (Outcome.ofOption_eq_next.mp hrun)
  | sweep keep =>
      obtain ⟨⟨lm, st⟩, hrun, hs⟩ := Outcome.bind_eq_next.mp hs
      rw [Outcome.next.injEq] at hs
      exact hs ▸ h.sweep (Outcome.ofOption_eq_next.mp hrun)
  | resize new_size =>
      obtain ⟨⟨hnew, hsafe⟩, hs⟩ := guarded_eq_next.mp hs
      obtain ⟨⟨lm, r⟩, hrun, hs⟩ := Outcome.bind_eq_next.mp hs
      rw [Outcome.next.injEq] at hs
      exact hs ▸ h.resize hnew hsafe (Outcome.ofOption_eq_next.mp hrun)
  | write data w v =>
      obtain ⟨hdata, hs⟩ := guarded_eq_next.mp hs
      rw [Outcome.next.injEq] at hs
      exact hs ▸ h.write hdata
  | page_privatize segment_num pagenum =>
      obtain ⟨⟨hlo, hhi, hpage⟩, hs⟩ := guarded_eq_next.mp hs
      rw [Outcome.next.injEq] at hs
      have hkept : ∃ total, (page_privatize s segment_num pagenum).lm
          = { s.lm with total_allocated := total } ∧ (page_privatize s segment_num pagenum).live = s.live := by
        unfold page_privatize
        dsimp only
        split_ifs
        · exact ⟨_, rfl, rfl⟩
        · exact ⟨_, increment_total_allocated_lm, increment_total_allocated_live⟩
      obtain ⟨total, hlm, hlive⟩ := hkept
      subst hs
      exact ⟨cs, ⟨h.of_total hlm hlive, by rw [hlm], fun _ hb => hb.page_privatize hlo hhi hpage,
        fun _ => by rw [hlm]⟩⟩
  | page_reshare pagenum =>
      obtain ⟨hpage, hs⟩ := guarded_eq_next.mp hs
      rw [Outcome.next.injEq] at hs
      subst hs
      obtain ⟨total, hlm⟩ : ∃ total, (page_reshare s pagenum).lm
          = { s.lm with total_allocated := total } := ⟨_, rfl⟩
      have hlive : (page_reshare s pagenum).live = s.live := rfl
      exact ⟨cs, ⟨h.of_total hlm hlive, by rw [hlm], fun _ hb => hb.page_reshare hpage,
        fun _ => by rw [hlm]⟩⟩

end Step

end Stmgc.C7.Largemalloc
