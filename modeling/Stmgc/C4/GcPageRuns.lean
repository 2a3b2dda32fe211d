/-
Runs of the allocator with any number of threads. The invariant is kept by all
steps with [`ok`], and the code fails it in two ways.

`allocate_new_page` increments `count_global_pages` without a lock, and it can
lose a page that another thread counted in between. And in builds with
assertions `stmgcpage_free` overwrites a header with a byte that alternates
between 0x55 and 0xAA. The second one has both `GCFLAG_VISITED` and
`GCFLAG_MARKED`, so that the next major collection takes the free location for
an object that is alive.
-/
import Stmgc.C4.GcPageCollect
import Stmgc.Lib.Bits

namespace Stmgc.C4.GcPage

open Stmgc.Lib

variable {st₀ st st' : State} {F F₀ : ℕ → ℕ → List ℕ} {closed : List ℕ} {b c i size : ℕ}
  {marked visited : ℕ → Bool} {NDEBUG : Bool}

/-! ## Flags -/

theorem is_marked_eq (tid : BitVec 64) : is_marked tid = tid.getLsbD 45 :=
  and_twoPow_bne_zero (by decide) tid

theorem is_visited_eq (tid : BitVec 64) : is_visited tid = tid.getLsbD 33 :=
  and_twoPow_bne_zero (by decide) tid

theorem no_flags_iff {tid : BitVec 64} :
    no_flags tid = true ↔ is_marked tid = false ∧ is_visited tid = false := by
  unfold no_flags
  rw [Bool.and_eq_true, Bool.not_eq_true', Bool.not_eq_true']

theorem is_marked_or (tid x : BitVec 64) : is_marked (tid ||| GCFLAG_MARKED ||| x) = true := by
  have hbit : GCFLAG_MARKED.getLsbD 45 = true := by decide
  rw [is_marked_eq, BitVec.getLsbD_or, BitVec.getLsbD_or, hbit, Bool.or_true, Bool.true_or]

theorem no_flags_clear_flags (tid : BitVec 64) : no_flags (clear_flags tid) = true := by
  have hbit : (~~~(GCFLAG_VISITED ||| GCFLAG_MARKED)).getLsbD 45 = false := by decide
  have hbit' : (~~~(GCFLAG_VISITED ||| GCFLAG_MARKED)).getLsbD 33 = false := by decide
  refine no_flags_iff.mpr ⟨?_, ?_⟩
  · rw [is_marked_eq, clear_flags, BitVec.getLsbD_and, hbit, Bool.and_false]
  · rw [is_visited_eq, clear_flags, BitVec.getLsbD_and, hbit', Bool.and_false]

/-! ## Major collections -/

/-- Where the sweeping begins. -/
def start (st : State) (marked visited : ℕ → Bool) : State :=
  { mark st marked visited with mc_total_in_use := 0, mc_total_reserved := 0 }

/-- Which of the headers the marking touches. -/
theorem start_tid : (start st marked visited).h_tid b
    = if st.live b ≠ none ∧ marked b = true then
        st.h_tid b ||| GCFLAG_MARKED ||| if visited b then GCFLAG_VISITED else 0
      else st.h_tid b := rfl

/-- The free locations have no flags that an object has in a collection. -/
def FreeUnmarked (st : State) (F : ℕ → ℕ → List ℕ) : Prop :=
  ∀ i c, ∀ b ∈ F i c, no_flags (st.h_tid b) = true

theorem Inv.no_flags (hinv : Inv st F) (hfree : FreeUnmarked st F)
    (hb : st.live b ≠ none ∨ ∃ c, Block st.pages c b) : no_flags (st.h_tid b) = true := by
  cases hlive : st.live b with
  | some size => exact hinv.block.flags b size hlive
  | none =>
      rcases hb with hb | ⟨c, hb⟩
      · exact absurd hlive hb
      · obtain ⟨i, hi⟩ := hinv.block.cover c b hb hlive
        exact hfree i c b hi

theorem Inv.start_marked (hinv : Inv st F) (hfree : FreeUnmarked st F) :
    Marked (start st marked visited) F := by
  have hblock := hinv.block
  refine ⟨hinv.pages, ⟨hblock.free, hblock.free_block, hblock.free_nodup, hblock.free_unique,
    hblock.cover, hblock.size, hblock.small, hblock.large, hblock.nonsmall_live,
    fun _ _ _ => by decide⟩, hinv.unused, fun b hb hv => ?_, fun c b hb hm => ?_⟩
  · rw [start_tid] at hv ⊢
    by_cases hmark : st.live b ≠ none ∧ marked b = true
    · rw [if_pos hmark]
      exact is_marked_or _ _
    · rw [if_neg hmark, (no_flags_iff.mp (hinv.no_flags hfree hb)).2] at hv
      cases hv
  · intro hlive
    have hnone := (no_flags_iff.mp (hinv.no_flags hfree (Or.inr ⟨c, hb⟩))).1
    rw [start_tid, if_neg fun hor => hor.1 hlive, hnone] at hm
    cases hm

theorem Inv.upto (hinv : Inv st F) :
    Upto (start st marked visited) (start st marked visited) (fun _ => False) F := by
  refine ⟨List.Sublist.refl _, fun _ _ _ => ⟨rfl, rfl⟩, fun _ _ h => h.1.elim,
    fun i c p hp => (hinv.pages.page i c p hp).1, fun _ _ h => h.1.elim, fun _ _ h => h.1.elim,
    fun _ _ h => h.1.elim, fun _ _ _ _ _ _ _ => ⟨rfl, rfl, rfl⟩, fun _ _ h => h.1.elim,
    fun _ _ => ⟨rfl, fun _ _ => ⟨rfl, rfl, rfl⟩⟩, fun _ h => h.elim, fun _ _ _ _ h => h,
    fun _ _ h => h.1.elim, fun _ h => h.elim, fun _ => Or.inl rfl, hinv.unused, hinv.count_pages, hinv.count_global_pages, Nat.le_refl _,
    rfl, rfl, rfl, fun _ => rfl, fun _ => Or.inl rfl⟩

/-- Descriptors that no thread ever had are empty. -/
theorem Marked.lt_of_page (h : Marked st₀ F₀) {p : ℕ} (hp : p ∈ st₀.pages i c) :
    i < st₀.num_descriptors ∧ 0 < c ∧ c < GC_SMALL_REQUESTS := by
  refine ⟨?_, (h.pages.page i c p hp).2⟩
  by_contra hi
  have hnil : st₀.pages i c = [] :=
    congrArg (fun d => d.pages_for_size c) (h.unused i (Nat.le_of_not_lt hi))
  rw [hnil] at hp
  exact List.not_mem_nil hp

theorem Marked.lt_of_nonsmall (h : Marked st₀ F₀) (hb : b ∈ st₀.nonsmall i) :
    i < st₀.num_descriptors := by
  by_contra hi
  have hnil : st₀.nonsmall i = [] :=
    congrArg tx_public_descriptor.nonsmall_objects (h.unused i (Nat.le_of_not_lt hi))
  rw [hnil] at hb
  exact List.not_mem_nil hb

/-- All descriptors were swept. -/
abbrev Collected (st₀ st : State) (F : ℕ → ℕ → List ℕ) : Prop :=
  Upto st₀ st (fun i => i < st₀.num_descriptors) F

theorem Collected.page_iff (hmarked : Marked st₀ F₀) (h : Collected st₀ st F) {p : ℕ} :
    p ∈ st.pages i c ↔ p ∈ st₀.pages i c ∧ alive st₀ c p = true := by
  constructor
  · intro hp
    have hp₀ := h.pages_sub hp
    rw [h.pages_done i c (hmarked.lt_of_page hp₀)] at hp
    exact List.mem_filter.mp (List.mem_reverse.mp hp)
  · rintro ⟨hp, hal⟩
    rw [h.pages_done i c (hmarked.lt_of_page hp)]
    exact List.mem_reverse.mpr (List.mem_filter.mpr ⟨hp, hal⟩)

theorem Collected.nonsmall_iff (hmarked : Marked st₀ F₀) (h : Collected st₀ st F) :
    b ∈ st.nonsmall i ↔ b ∈ st₀.nonsmall i ∧ is_marked (st₀.h_tid b) = true := by
  constructor
  · intro hb
    rw [(h.nonsmall_done i (hmarked.lt_of_nonsmall (h.nonsmall_sub hb))).1] at hb
    exact List.mem_filter.mp hb
  · rintro ⟨hb, hm⟩
    rw [(h.nonsmall_done i (hmarked.lt_of_nonsmall hb)).1]
    exact List.mem_filter.mpr ⟨hb, hm⟩

/-- Every object was swept. -/
theorem Collected.done_of_live (hmarked : Marked st₀ F₀) (h : Collected st₀ st F)
    (hlive : st₀.live b = some size) : Done st₀ st b := by
  by_cases hsmall : Small size
  · obtain ⟨i, p, hp, hb⟩ := hmarked.block.small b size hlive hsmall
    exact h.done i _ (hmarked.lt_of_page hp) p hp b hb
  · obtain ⟨⟨i, hb⟩, -⟩ := hmarked.block.large b size hlive hsmall
    exact (h.nonsmall_done i (hmarked.lt_of_nonsmall hb)).2 b hb

/-- What is live afterwards. -/
theorem Collected.live_iff (hmarked : Marked st₀ F₀) (h : Collected st₀ st F) :
    st.live b = some size ↔ st₀.live b = some size ∧ is_marked (st₀.h_tid b) = true := by
  constructor
  · intro hlive
    have hlive₀ : st₀.live b = some size := by
      rcases h.live b with heq | heq
      · exact heq ▸ hlive
      · rw [heq] at hlive
        cases hlive
    refine ⟨hlive₀, ?_⟩
    by_contra hm
    rw [(h.done_of_live hmarked hlive₀).dead (Bool.eq_false_of_not_eq_true hm)] at hlive
    cases hlive
  · rintro ⟨hlive, hm⟩
    exact ((h.done_of_live hmarked hlive).kept hm).2.2.trans hlive

/-- The new free lists. -/
def free_lists (n : ℕ) (F : ℕ → ℕ → List ℕ) (i c : ℕ) : List ℕ :=
  if i < n ∧ 0 < c ∧ c < GC_SMALL_REQUESTS then F i c else []

theorem mem_free_lists {n : ℕ} (hb : b ∈ free_lists n F i c) :
    (i < n ∧ 0 < c ∧ c < GC_SMALL_REQUESTS) ∧ b ∈ F i c := by
  unfold free_lists at hb
  split_ifs at hb with hD
  · exact ⟨hD, hb⟩
  · exact absurd hb List.not_mem_nil

theorem Collected.linked (hmarked : Marked st₀ F₀) (h : Collected st₀ st F) (i c : ℕ) :
    Linked st.h_revision (st.free_loc i c) (free_lists st₀.num_descriptors F i c) := by
  unfold free_lists
  split_ifs with hD
  · exact h.free i c hD
  · -- no thread has such a list, and it is empty
    have hnil : F₀ i c = [] := by
      refine List.eq_nil_iff_forall_not_mem.mpr fun b hb => hD ?_
      obtain ⟨-, j, p, hp, -⟩ := hmarked.block.free_block i c b hb
      by_cases hi : i < st₀.num_descriptors
      · exact ⟨hi, (hmarked.lt_of_page hp).2⟩
      · have hzero : st₀.free_loc i c = 0 :=
          congrArg (fun d => d.free_loc_for_size c) (hmarked.unused i (Nat.le_of_not_lt hi))
        have hlinked := hmarked.block.free i c
        rw [hzero] at hlinked
        rw [linked_zero hlinked] at hb
        exact absurd hb List.not_mem_nil
    have hlinked := hmarked.block.free i c
    rw [hnil] at hlinked
    rw [(h.pages_todo i c hD).2, Path.nil_iff.mp hlinked]
    exact Lib.Path.refl 0

theorem Collected.pagesInv (hmarked : Marked st₀ F₀) (h : Collected st₀ st F) :
    PagesInv st.malloced st.pages st.nonsmall := by
  refine hmarked.pages.sub h.malloced (fun i c p hp => ⟨h.pages_sub hp, h.page_malloced i c p hp⟩)
    (fun i c => ?_) (fun i b hb => ⟨h.nonsmall_sub hb, ?_⟩) fun i => ?_
  · by_cases hD : i < st₀.num_descriptors ∧ 0 < c ∧ c < GC_SMALL_REQUESTS
    · rw [h.pages_done i c hD]
      exact List.nodup_reverse.mpr ((hmarked.pages.pages_nodup i c).filter _)
    · rw [(h.pages_todo i c hD).1]
      exact hmarked.pages.pages_nodup i c
  · obtain ⟨n, hn⟩ := hmarked.pages.nonsmall_malloced i b (h.nonsmall_sub hb)
    exact ⟨n, h.nonsmall_malloced i b hb n hn⟩
  · by_cases hi : i < st₀.num_descriptors
    · rw [(h.nonsmall_done i hi).1]
      exact (hmarked.pages.nonsmall_nodup i).filter _
    · rw [(h.nonsmall_todo i hi).1]
      exact hmarked.pages.nonsmall_nodup i

theorem Collected.blocksInv (hmarked : Marked st₀ F₀) (h : Collected st₀ st F) :
    BlocksInv st.malloced st.pages st.nonsmall st.free_loc st.h_revision st.h_tid st.live
      (free_lists st₀.num_descriptors F) := by
  have hfree : ∀ i c b, b ∈ free_lists st₀.num_descriptors F i c →
      is_marked (st₀.h_tid b) = false ∧ ∃ p ∈ st.pages i c, b ∈ blocks c p := by
    intro i c b hb
    obtain ⟨hD, hb⟩ := mem_free_lists hb
    exact (h.free_mem i c hD b).mp hb
  refine ⟨h.linked hmarked, fun i c b hb => ?_, fun i c => ?_, fun i j c b hb hb' => ?_,
    fun c b hb hlive => ?_, fun b size hlive => ?_, fun b size hlive hsmall => ?_,
    fun b size hlive hlarge => ?_, fun i b hb => ?_, fun b size hlive => ?_⟩
  · obtain ⟨hm, p, hp, hblock⟩ := hfree i c b hb
    have hp₀ := h.pages_sub hp
    exact ⟨(h.done i c (hmarked.lt_of_page hp₀) p hp₀ b hblock).dead hm, i, p, hp, hblock⟩
  · unfold free_lists
    split_ifs with hD
    · exact h.free_nodup i c hD
    · exact List.nodup_nil
  · obtain ⟨-, p, hp, hblock⟩ := hfree i c b hb
    obtain ⟨-, q, hq, hblock'⟩ := hfree j c b hb'
    exact (hmarked.pages.page_eq (h.pages_sub hp) hblock (h.pages_sub hq) hblock').2.1
  · obtain ⟨i, p, hp, hblock⟩ := hb
    have hp₀ := h.pages_sub hp
    have hD := hmarked.lt_of_page hp₀
    refine ⟨i, ?_⟩
    unfold free_lists
    rw [if_pos hD]
    refine (h.free_mem i c hD b).mpr ⟨?_, p, hp, hblock⟩
    -- a location with the flag would be live
    by_contra hm
    have hm := Bool.eq_true_of_not_eq_false hm
    have hkept := ((h.done i c hD p hp₀ b hblock).kept hm).2.2
    exact hmarked.marked_live c b ⟨i, p, hp₀, hblock⟩ hm (hkept.symm.trans hlive)
  · exact hmarked.block.size b size ((h.live_iff hmarked).mp hlive).1
  · obtain ⟨hlive, hm⟩ := (h.live_iff hmarked).mp hlive
    obtain ⟨i, p, hp, hb⟩ := hmarked.block.small b size hlive hsmall
    exact ⟨i, p, (h.page_iff hmarked).mpr ⟨hp, List.any_eq_true.mpr ⟨b, hb, hm⟩⟩, hb⟩
  · obtain ⟨hlive, hm⟩ := (h.live_iff hmarked).mp hlive
    obtain ⟨⟨i, hb⟩, hn⟩ := hmarked.block.large b size hlive hlarge
    have hb' := (h.nonsmall_iff hmarked).mpr ⟨hb, hm⟩
    exact ⟨⟨i, hb'⟩, h.nonsmall_malloced i b hb' _ hn⟩
  · obtain ⟨hb, hm⟩ := (h.nonsmall_iff hmarked).mp hb
    obtain ⟨size, hlive, hlarge⟩ := hmarked.block.nonsmall_live i b hb
    exact ⟨size, (h.live_iff hmarked).mpr ⟨hlive, hm⟩, hlarge⟩
  · obtain ⟨hlive, hm⟩ := (h.live_iff hmarked).mp hlive
    rw [((h.done_of_live hmarked hlive).kept hm).1]
    exact no_flags_clear_flags _

theorem Collected.inv (hmarked : Marked st₀ F₀) (h : Collected st₀ st F) :
    Inv st (free_lists st₀.num_descriptors F) :=
  ⟨h.pagesInv hmarked, h.blocksInv hmarked, h.unused, h.count_pages, h.count_global_pages, h.totals⟩

/-- What a sweep does: the objects with `GCFLAG_MARKED` are kept, without their
flags, and nothing else is. The memory of a large object that is not kept is
given back, and that of a page that has no object any more. -/
structure Sweeps (st₀ st : State) : Prop where
  live : ∀ b size, st.live b = some size ↔
    st₀.live b = some size ∧ is_marked (st₀.h_tid b) = true
  flags : ∀ b, st.live b ≠ none → st.h_tid b = clear_flags (st₀.h_tid b)
  h_revision : ∀ b, st.live b ≠ none → st.h_revision b = st₀.h_revision b
  page : ∀ i c p, p ∈ st.pages i c ↔
    p ∈ st₀.pages i c ∧ ∃ b ∈ blocks c p, is_marked (st₀.h_tid b) = true
  page_freed : ∀ i c p, p ∈ st₀.pages i c → p ∉ st.pages i c → ∀ n, (p, n) ∉ st.malloced
  large_freed : ∀ b size, st₀.live b = some size → ¬ Small size → st.live b = none →
    ∀ n, (b, n) ∉ st.malloced

theorem Collected.sweeps (hmarked : Marked st₀ F₀) (h : Collected st₀ st F) : Sweeps st₀ st := by
  have hkept : ∀ b, st.live b ≠ none → Kept st₀ st b := by
    intro b hb
    obtain ⟨size, hsize⟩ := Option.ne_none_iff_exists'.mp hb
    obtain ⟨hlive, hm⟩ := (h.live_iff hmarked).mp hsize
    exact (h.done_of_live hmarked hlive).kept hm
  refine ⟨fun b size => h.live_iff hmarked, fun b hb => (hkept b hb).1, fun b hb => (hkept b hb).2.1,
    fun i c p => ?_, fun i c p hp hnot => ?_, fun b size hlive hlarge hdead => ?_⟩
  · rw [h.page_iff hmarked]
    unfold alive
    rw [List.any_eq_true]
  · refine h.page_freed i c (hmarked.lt_of_page hp) p hp (Bool.eq_false_of_not_eq_true fun hal => ?_)
    exact hnot ((h.page_iff hmarked).mpr ⟨hp, hal⟩)
  · obtain ⟨⟨i, hb⟩, -⟩ := hmarked.block.large b size hlive hlarge
    refine h.nonsmall_freed i (hmarked.lt_of_nonsmall hb) b hb (Bool.eq_false_of_not_eq_true fun hm => ?_)
    rw [(h.live_iff hmarked).mpr ⟨hlive, hm⟩] at hdead
    cases hdead

/-- A major collection does not fail. -/
theorem Inv.major_collect (hinv : Inv st F) (hthreads : Threads st closed)
    (hfree : FreeUnmarked st F) :
    ∃ st', major_collect NDEBUG (mark st marked visited) = some st' ∧ (∃ F', Inv st' F') ∧
      Threads st' closed ∧ Sweeps (mark st marked visited) st' := by
  have hmarked := @Inv.start_marked st F marked visited hinv hfree
  have hupto := @Inv.upto st F marked visited hinv
  have hsame : SameThreads st (start st marked visited) :=
    ⟨rfl, rfl, rfl, fun _ => rfl, fun _ => Or.inl rfl⟩
  have hthreads₀ := hthreads.congr hsame
  obtain ⟨st₁, F₁, heq, h₁⟩ := @Upto.tx_head (start st marked visited) F NDEBUG hmarked
    st.stm_tx_head _ _ _ hupto hthreads.tx_nodup fun i hi => ⟨hthreads.lt hi, id⟩
  -- the chain has at most as many descriptors as there are
  have hfuel : closed.length ≤ st.num_descriptors := by
    have hsub : closed ⊆ List.range st.num_descriptors := fun i hi =>
      List.mem_range.mpr ((hthreads.used i).mpr (Or.inr hi))
    have hle := (List.subperm_of_subset hthreads.closed_nodup hsub).length_le
    rw [List.length_range] at hle
    exact hle
  obtain ⟨st₂, F₂, heq', h₂⟩ := @Upto.closed (start st marked visited) F NDEBUG hmarked closed
    st.num_descriptors st.descriptor_array_free_list st₁ _ F₁ h₁ hthreads₀.chain
    hthreads.closed_nodup hfuel fun i hi hor =>
      hthreads.disjoint i (hor.resolve_left id) hi
  have hall : (fun i => (False ∨ i ∈ st.stm_tx_head) ∨ i ∈ closed)
      = fun i => i < st.num_descriptors := by
    funext i
    rw [false_or, hthreads.used i]
  rw [hall] at h₂
  have hcollected : Collected (start st marked visited) st₂ F₂ := h₂
  refine ⟨st₂, ?_, ⟨_, hcollected.inv hmarked⟩, hthreads₀.congr hcollected.threads, ?_⟩
  · unfold GcPage.major_collect
    have hnum : st₁.num_descriptors = st.num_descriptors := h₁.threads.num_descriptors
    have hhead : st₁.descriptor_array_free_list = st.descriptor_array_free_list :=
      h₁.threads.descriptor_array_free_list
    have heq₁ : (mark st marked visited).stm_tx_head.foldlM (free_unused_local_pages NDEBUG)
        { mark st marked visited with mc_total_in_use := 0, mc_total_reserved := 0 } = some st₁ :=
      heq
    dsimp only
    rw [heq₁, Option.bind_eq_bind, Option.bind_some, hnum, hhead, heq', Option.bind_eq_bind,
      Option.bind_some]
    exact c_assert_eq_some.mpr ⟨hcollected.totals, rfl⟩
  · have hsweeps := hcollected.sweeps hmarked
    exact ⟨hsweeps.live, hsweeps.flags, hsweeps.h_revision, hsweeps.page, hsweeps.page_freed,
      hsweeps.large_freed⟩

/-! ## Runs -/

/-- The value of `count_global_pages` that a thread has read is the current one. -/
def is_current (st : State) : Pc → Prop
  | .allocate_new_page _ count_global_pages => st.count_global_pages = count_global_pages
  | .running => True

instance (st : State) : (pc : Pc) → Decidable (is_current st pc)
  | .allocate_new_page _ count => instDecidableEqNat st.count_global_pages count
  | .running => instDecidableTrue

/-- The free locations of the pages have no flags. -/
def free_unmarked (st : State) : Prop :=
  ∀ i < st.num_descriptors, ∀ c < GC_SMALL_REQUESTS, ∀ p ∈ st.pages i c, ∀ b ∈ blocks c p,
    st.live b = none → no_flags (st.h_tid b) = true

instance (st : State) : Decidable (free_unmarked st) :=
  inferInstanceAs (Decidable (∀ i < st.num_descriptors, ∀ c < GC_SMALL_REQUESTS,
    ∀ p ∈ st.pages i c, ∀ b ∈ blocks c p, st.live b = none → no_flags (st.h_tid b) = true))

/-- The steps that go as the code means them to: nothing was counted between
the two halves of `count_global_pages++`, and at a major collection no free
location has the flags of an object that is alive. -/
def ok (st : State) : Act → Prop
  | .new_page i _ _ => is_current st (st.pc i)
  | .major_collect _ _ => free_unmarked st
  | _ => True

instance (st : State) : (a : Act) → Decidable (ok st a)
  | .new_page i _ _ => inferInstanceAs (Decidable (is_current st (st.pc i)))
  | .major_collect _ _ => inferInstanceAs (Decidable (free_unmarked st))
  | .DescriptorInit => instDecidableTrue
  | .DescriptorDone _ => instDecidableTrue
  | .stmgcpage_malloc .. => instDecidableTrue
  | .stmgcpage_free .. => instDecidableTrue
  | .write .. => instDecidableTrue

/-- The program writes to an object. -/
theorem Inv.write {tid : BitVec 64} {revision : ℕ} (hinv : Inv st F) (hlive : st.live b ≠ none)
    (htid : GcPage.no_flags tid = true) : Inv ((st.set_tid b tid).set_revision b revision) F :=
  ⟨hinv.pages, hinv.block.write hlive htid, hinv.unused, hinv.count_pages,
    hinv.count_global_pages, hinv.totals⟩

theorem SameThreads.with_pc {pc : ℕ → Pc} (h : SameThreads st₀ st)
    (hpc : ∀ j, pc j = st₀.pc j ∨ pc j = .running) : SameThreads st₀ { st with pc := pc } :=
  ⟨h.num_descriptors, h.descriptor_array_free_list, h.stm_tx_head, h.free_list_next, hpc⟩

/-- A thread begins `allocate_new_page`. -/
theorem Threads.allocating_page {count : ℕ} (h : Threads st closed) (hi : i ∈ st.stm_tx_head)
    (hsize : sizeof_object ≤ size) (hsmall : Small size) :
    Threads { st with pc := Function.update st.pc i (.allocate_new_page size count) } closed := by
  refine ⟨h.tx_nodup, h.chain, h.closed_nodup, h.used, h.disjoint, fun j hj => ?_,
    fun j n k hj => ?_⟩
  · refine (Function.update_of_ne ?_ ..).trans (h.pc j hj)
    rintro rfl
    exact hj hi
  · dsimp only at hj
    rw [Function.update_apply] at hj
    split_ifs at hj
    · injection hj with hn hk
      subst hn
      exact ⟨hsize, hsmall⟩
    · exact h.allocating j n k hj

/-- What holds in a run. -/
def Good (st : State) : Prop := ∃ F closed, Inv st F ∧ Threads st closed

theorem Initial.good (h : Initial st) : Good st := by
  have hpages : ∀ i c, st.pages i c = [] := fun i c => by
    unfold State.pages
    rw [h.descriptor]
    rfl
  have hnonsmall : ∀ i, st.nonsmall i = [] := fun i => by
    unfold State.nonsmall
    rw [h.descriptor]
    rfl
  have hfree : ∀ i c, st.free_loc i c = 0 := fun i c => by
    unfold State.free_loc
    rw [h.descriptor]
    rfl
  have hblock : ∀ c b, ¬ Block st.pages c b := by
    rintro c b ⟨i, p, hp, -⟩
    rw [hpages] at hp
    exact List.not_mem_nil hp
  have hcount : ∀ i, (st.descriptor i).count_pages = 0 := fun i => by
    rw [h.descriptor]
    rfl
  refine ⟨fun _ _ => [], [], ⟨?_, ?_, fun i _ => h.descriptor i, fun i => ?_, ?_, ?_⟩, ?_⟩
  · rw [h.malloced]
    refine ⟨fun r hr => absurd hr List.not_mem_nil, List.Pairwise.nil, fun i c p hp => ?_,
      fun i c => ?_, fun i c j d p hp => ?_, fun i b hb => ?_, fun i => ?_, fun i j b hb => ?_,
      fun i j c b hb => ?_⟩
    · exact absurd hp (hpages i c ▸ List.not_mem_nil)
    · exact hpages i c ▸ List.nodup_nil
    · exact absurd hp (hpages i c ▸ List.not_mem_nil)
    · exact absurd hb (hnonsmall i ▸ List.not_mem_nil)
    · exact hnonsmall i ▸ List.nodup_nil
    · exact absurd hb (hnonsmall i ▸ List.not_mem_nil)
    · exact absurd hb (hnonsmall i ▸ List.not_mem_nil)
  · have hdead : ∀ {b size}, st.live b ≠ some size := fun hb => by
      rw [h.live] at hb
      cases hb
    refine ⟨fun i c => ?_, fun _ _ _ hb => absurd hb List.not_mem_nil, fun _ _ => List.nodup_nil,
      fun _ _ _ _ hb => absurd hb List.not_mem_nil, fun c b hb => absurd hb (hblock c b),
      fun _ _ hb => absurd hb hdead, fun _ _ hb => absurd hb hdead,
      fun _ _ hb => absurd hb hdead, fun i b hb => ?_, fun _ _ hb => absurd hb hdead⟩
    · rw [hfree]
      exact Lib.Path.refl 0
    · exact absurd hb (hnonsmall i ▸ List.not_mem_nil)
  · rw [hcount]
    exact (Finset.sum_eq_zero fun c _ => by rw [hpages, List.length_nil]).symm
  · rw [h.count_global_pages]
    exact (Finset.sum_eq_zero fun i _ => hcount i).symm
  · rw [h.mc_total_in_use, h.mc_total_reserved]
  · refine ⟨?_, ?_, List.nodup_nil, fun i => ?_, fun i _ => List.not_mem_nil, fun i _ => h.pc i,
      fun i n k hpc => ?_⟩
    · rw [h.stm_tx_head]
      exact List.nodup_nil
    · rw [h.descriptor_array_free_list, h.num_descriptors]
      exact Lib.Path.refl 0
    · rw [h.num_descriptors, h.stm_tx_head]
      simp
    · rw [h.pc] at hpc
      cases hpc

variable {MAX_THREADS : ℕ} {a : Act}

theorem Inv.lt_of_page {p : ℕ} (h : Inv st F) (hp : p ∈ st.pages i c) :
    i < st.num_descriptors ∧ 0 < c ∧ c < GC_SMALL_REQUESTS := by
  refine ⟨?_, (h.pages.page i c p hp).2⟩
  by_contra hi
  have hnil : st.pages i c = [] :=
    congrArg (fun d => d.pages_for_size c) (h.unused i (Nat.le_of_not_lt hi))
  rw [hnil] at hp
  exact List.not_mem_nil hp

/-- A collection that begins in a good state. -/
theorem Good.major_collect (h : Good st) (hok : ok st (.major_collect marked visited)) :
    ∃ st', GcPage.major_collect NDEBUG (mark st marked visited) = some st' ∧ Good st' ∧
      Sweeps (mark st marked visited) st' := by
  obtain ⟨F, closed, hinv, hthreads⟩ := h
  obtain ⟨st', heq, ⟨F', hinv'⟩, hthreads', hsweeps⟩ :=
    @Inv.major_collect st F closed marked visited NDEBUG hinv hthreads fun i c b hb => by
      obtain ⟨hlive, j, p, hp, hblock⟩ := hinv.block.free_block i c b hb
      obtain ⟨hj, -, hc⟩ := hinv.lt_of_page hp
      exact hok j hj c hc p hp b hblock hlive
  exact ⟨st', heq, ⟨F', closed, hinv', hthreads'⟩, hsweeps⟩

theorem Good.malloc {p : ℕ} {tid : BitVec 64} (h : Good st)
    (hs : step NDEBUG MAX_THREADS st (.stmgcpage_malloc i size p tid) = .next st') : Good st' := by
  obtain ⟨F, closed, hinv, hthreads⟩ := h
  obtain ⟨⟨hi, hpc, hsize, htid⟩, hs⟩ := guarded_eq_next.mp hs
  have hlt := hthreads.lt hi
  by_cases hsmall : size ≤ GC_SMALL_REQUEST_THRESHOLD
  · rw [if_pos hsmall] at hs
    by_cases hfree : (st.descriptor i).free_loc_for_size (words size) = 0
    · rw [if_pos hfree, Outcome.next.injEq] at hs
      subst hs
      exact ⟨F, closed, ⟨hinv.pages, hinv.block, hinv.unused, hinv.count_pages,
        hinv.count_global_pages, hinv.totals⟩, hthreads.allocating_page hi hsize hsmall⟩
    · rw [if_neg hfree, Outcome.next.injEq] at hs
      subst hs
      exact ⟨_, closed, hinv.take hlt hfree hsize hsmall htid, hthreads.congr sameThreads_take⟩
  · rw [if_neg hsmall] at hs
    obtain ⟨hfresh, hs⟩ := guarded_eq_next.mp hs
    rw [hinv.malloc_nonsmall hfresh hsize, Outcome.ofOption_eq_next, Option.some.injEq] at hs
    subst hs
    exact ⟨F, closed, hinv.add_nonsmall hlt hfresh hsize hsmall htid,
      hthreads.congr ⟨rfl, rfl, rfl, free_list_next_of_eq rfl, fun _ => Or.inl rfl⟩⟩

theorem Good.new_page {p : ℕ} {tid : BitVec 64} (h : Good st) (hok : ok st (.new_page i p tid))
    (hs : step NDEBUG MAX_THREADS st (.new_page i p tid) = .next st') : Good st' := by
  obtain ⟨F, closed, hinv, hthreads⟩ := h
  unfold step at hs
  dsimp only at hs
  cases hpc : st.pc i with
  | running =>
      rw [hpc] at hs
      cases hs
  | allocate_new_page size count =>
      rw [hpc] at hs
      obtain ⟨⟨hfresh, htid⟩, hs⟩ := guarded_eq_next.mp hs
      rw [Outcome.next.injEq] at hs
      subst hs
      obtain ⟨hsize, hsmall⟩ := hthreads.allocating i size count hpc
      -- a thread that has ended is not in the middle of it
      have hi : i ∈ st.stm_tx_head := by
        by_contra hi
        rw [hthreads.pc i hi] at hpc
        cases hpc
      have hcount : is_current st (st.pc i) := hok
      rw [hpc] at hcount
      obtain ⟨⟨F', hinv'⟩, hsame⟩ := hinv.new_page (hthreads.lt hi) hsize hsmall hfresh htid
        hcount
      refine ⟨F', closed, ⟨hinv'.pages, hinv'.block, hinv'.unused, hinv'.count_pages,
        hinv'.count_global_pages, hinv'.totals⟩, hthreads.congr (hsame.with_pc fun j => ?_)⟩
      rw [Function.update_apply]
      split_ifs
      · exact Or.inr rfl
      · exact Or.inl rfl

theorem Good.step (h : Good st) (hok : ok st a) (hs : step NDEBUG MAX_THREADS st a = .next st') :
    Good st' := by
  cases a with
  | DescriptorInit =>
      obtain ⟨F, closed, hinv, hthreads⟩ := h
      obtain ⟨hinv', closed', hthreads'⟩ := hinv.descriptorInit hthreads hs
      exact ⟨F, closed', hinv', hthreads'⟩
  | DescriptorDone i =>
      obtain ⟨F, closed, hinv, hthreads⟩ := h
      obtain ⟨⟨hi, hpc⟩, hs⟩ := guarded_eq_next.mp hs
      rw [Outcome.next.injEq] at hs
      subst hs
      exact ⟨F, _, hinv.descriptorDone hthreads hi hpc⟩
  | stmgcpage_malloc i size p tid => exact h.malloc hs
  | new_page i p tid => exact h.new_page hok hs
  | stmgcpage_free i obj =>
      obtain ⟨F, closed, hinv, hthreads⟩ := h
      unfold GcPage.step at hs
      dsimp only at hs
      cases hlive : st.live obj with
      | none =>
          rw [hlive] at hs
          cases hs
      | some size =>
          rw [hlive] at hs
          obtain ⟨⟨hi, -⟩, hs⟩ := guarded_eq_next.mp hs
          obtain ⟨⟨F', hinv'⟩, hsame⟩ := hinv.free (hthreads.lt hi) hlive
            (Outcome.ofOption_eq_next.mp hs)
          exact ⟨F', closed, hinv', hthreads.congr hsame⟩
  | write obj tid revision =>
      obtain ⟨F, closed, hinv, hthreads⟩ := h
      obtain ⟨⟨hlive, htid⟩, hs⟩ := guarded_eq_next.mp hs
      rw [Outcome.next.injEq] at hs
      subst hs
      exact ⟨F, closed, hinv.write hlive htid,
        hthreads.congr ⟨rfl, rfl, rfl, fun _ => rfl, fun _ => Or.inl rfl⟩⟩
  | major_collect marked visited =>
      obtain ⟨-, hs⟩ := guarded_eq_next.mp hs
      obtain ⟨st₁, heq, hgood, -⟩ := @Good.major_collect st marked visited NDEBUG h hok
      rw [heq, Outcome.ofOption_eq_next, Option.some.injEq] at hs
      subst hs
      exact hgood

theorem good_of_reachable (h : ReachableIf Initial (step NDEBUG MAX_THREADS) ok st) : Good st :=
  ReachableIf.invariant (fun _ h => h.good) (fun _ _ _ hgood hok hs => hgood.step hok hs) h

/-! ## What holds of the pages -/

/-- Objects do not overlap; a location of a page is an object, or is once in
one free list. -/
structure Partitioned (st : State) (F : ℕ → ℕ → List ℕ) : Prop where
  apart : ∀ b b' size size', st.live b = some size → st.live b' = some size' → b ≠ b' →
    b + words size ≤ b' ∨ b' + words size' ≤ b
  small : ∀ b size, st.live b = some size → Small size → Block st.pages (words size) b
  linked : ∀ i c, Linked st.h_revision (st.free_loc i c) (F i c)
  live : ∀ b, st.live b ≠ none → ∀ i c, b ∉ F i c
  free : ∀ c b, Block st.pages c b → st.live b = none → ∃ i < st.num_descriptors,
    (F i c).count b = 1 ∧ ∀ j d, b ∈ F j d → j = i ∧ d = c

/-- The counters are the numbers of pages that are held. -/
structure Counted (st : State) : Prop where
  count_pages : ∀ i, (st.descriptor i).count_pages
    = ∑ c ∈ Finset.range GC_SMALL_REQUESTS, (st.pages i c).length
  count_global_pages : st.count_global_pages = ∑ i ∈ Finset.range st.num_descriptors,
    ∑ c ∈ Finset.range GC_SMALL_REQUESTS, (st.pages i c).length
  totals : st.mc_total_in_use ≤ st.mc_total_reserved

theorem Inv.partitioned (h : Inv st F) : Partitioned st F := by
  refine ⟨fun b b' size size' hlive hlive' hne => h.block.live_apart h.pages hlive hlive' hne,
    h.block.small, h.block.free, fun b hlive i c hb => hlive (h.block.free_block i c b hb).1,
    fun c b hblock hlive => ?_⟩
  obtain ⟨i, hi⟩ := h.block.cover c b hblock hlive
  refine ⟨i, ?_, List.count_eq_one_of_mem (h.block.free_nodup i c) hi, fun j d hj => ?_⟩
  · by_contra hlt
    have hzero : st.free_loc i c = 0 :=
      congrArg (fun d => d.free_loc_for_size c) (h.unused i (Nat.le_of_not_lt hlt))
    have hlinked := h.block.free i c
    rw [hzero] at hlinked
    rw [linked_zero hlinked] at hi
    exact List.not_mem_nil hi
  · obtain rfl := h.pages.block_class (h.block.free_block j d b hj).2 hblock
    exact ⟨h.block.free_unique j i _ b hj hi, rfl⟩

theorem Inv.counted (h : Inv st F) : Counted st :=
  ⟨h.count_pages, h.count_global_pages.trans (Finset.sum_congr rfl fun i _ => h.count_pages i),
    h.totals⟩

/-- **The page allocator**, in every run with any number of threads in which
`count_global_pages` is not changed inside of its increment and no free
location has flags at a major collection. -/
theorem page_allocator (h : ReachableIf Initial (step NDEBUG MAX_THREADS) ok st) :
    (∃ F, Partitioned st F) ∧ Counted st ∧ ∀ marked visited,
      ok st (.major_collect marked visited) →
      step NDEBUG MAX_THREADS st (.major_collect marked visited) ≠ .fault ∧
      ∀ st', step NDEBUG MAX_THREADS st (.major_collect marked visited) = .next st' →
        Sweeps (mark st marked visited) st' ∧ (∃ F, Partitioned st' F) ∧ Counted st' := by
  have hgood := good_of_reachable h
  have hboth : ∀ {st : State}, Good st → (∃ F, Partitioned st F) ∧ Counted st := by
    rintro st ⟨F, closed, hinv, -⟩
    exact ⟨⟨F, hinv.partitioned⟩, hinv.counted⟩
  refine ⟨(hboth hgood).1, (hboth hgood).2, fun marked visited hok => ?_⟩
  obtain ⟨st₁, heq, hgood', hsweeps⟩ := @Good.major_collect st marked visited NDEBUG hgood hok
  unfold step
  dsimp only
  rw [heq]
  refine ⟨?_, fun st' hs => ?_⟩
  · unfold guarded
    split_ifs
    · exact nofun
    · exact nofun
  · obtain ⟨-, hs⟩ := guarded_eq_next.mp hs
    rw [Outcome.ofOption_eq_next, Option.some.injEq] at hs
    subst hs
    exact ⟨hsweeps, hboth hgood'⟩

/-- No thread was started. -/
def no_threads : State where
  malloced := []
  h_tid _ := 0
  h_revision _ := 0
  num_descriptors := 0
  descriptor _ := new_descriptor
  descriptor_array_free_list := 0
  stm_tx_head := []
  pc _ := .running
  count_global_pages := 0
  mc_total_in_use := 0
  mc_total_reserved := 0
  random_char := 0x55
  live _ := none

theorem no_threads_initial : Initial no_threads :=
  ⟨rfl, rfl, rfl, fun _ => rfl, rfl, fun _ => rfl, rfl, rfl, rfl, rfl, fun _ => rfl⟩

/-- Two objects of the largest small size, in a page at the address 1. -/
def two_objects : List Act :=
  [.DescriptorInit, .stmgcpage_malloc 0 280 0 0, .new_page 0 1 0, .stmgcpage_malloc 0 280 0 0]

theorem page_allocator_two_objects : ∃ st st' : State,
    run (step false 10) ok no_threads two_objects = .next st ∧ st.live 37 = some 280 ∧
      (∃ F, Partitioned st F) ∧ Counted st ∧
      step false 10 st (.major_collect (· = 2) (· = 2)) = .next st' ∧
      Sweeps (mark st (· = 2) (· = 2)) st' ∧ st'.live 37 = none := by
  have h0 : ReachableIf Initial (step false 10) ok no_threads := .start no_threads_initial
  obtain ⟨st, hrun, htest⟩ := Outcome.of_test
    (r := run (step false 10) ok no_threads two_objects)
    (p := fun st => decide (st.live 37 = some 280) &&
      decide (ok st (.major_collect (· = 2) (· = 2))) &&
      (step false 10 st (.major_collect (· = 2) (· = 2))).test fun st' => st'.live 37 == none)
    (by decide +kernel)
  simp only [Bool.and_eq_true, decide_eq_true_eq] at htest
  obtain ⟨⟨hlive, hok⟩, htest⟩ := htest
  obtain ⟨st', hs, hdead⟩ := Outcome.of_test htest
  obtain ⟨hpart, hcount, hcollect⟩ := page_allocator (h0.run two_objects hrun)
  exact ⟨st, st', hrun, hlive, hpart, hcount, hs, ((hcollect _ _ hok).2 st' hs).1,
    beq_iff_eq.mp hdead⟩

/-! ## What goes wrong otherwise -/

/-- The chain from a location, when it is not longer than `fuel`. -/
def follow (next : ℕ → ℕ) : ℕ → ℕ → Option (List ℕ)
  | _, 0 => some []
  | 0, _ + 1 => none
  | fuel + 1, p + 1 => (follow next fuel (next (p + 1))).map fun l => (p + 1) :: l

theorem linked_of_follow {next : ℕ → ℕ} : ∀ {fuel p : ℕ} {l : List ℕ},
    follow next fuel p = some l → Linked next p l
  | _, 0, l, h => by
      rw [follow, Option.some.injEq] at h
      exact h ▸ Lib.Path.refl 0
  | 0, p + 1, l, h => by cases h
  | fuel + 1, p + 1, l, h => by
      rw [follow, Option.map_eq_some_iff] at h
      obtain ⟨l', hl', rfl⟩ := h
      exact linked_cons.mpr ⟨rfl, Nat.succ_ne_zero p, linked_of_follow hl'⟩

/-- Both are freed, the second with the byte 0xAA. -/
def free_both : List Act :=
  two_objects ++ [.stmgcpage_free 0 2, .stmgcpage_free 0 37, .major_collect (fun _ => false) fun _ => false]

/-- The second location is neither live nor in a free list after a major
collection, although its page is held. -/
theorem free_location_lost : ∃ st : State, Reachable Initial (step false 10) st ∧
    Block st.pages 35 37 ∧ st.live 37 = none ∧ ¬ ∃ F, Partitioned st F := by
  have h0 : Reachable Initial (step false 10) no_threads := .start no_threads_initial
  obtain ⟨st, hrun, htest⟩ := Outcome.of_test
    (r := run (step false 10) (fun _ _ => True) no_threads free_both)
    (p := fun st => decide (st.num_descriptors = 1) && decide (1 ∈ st.pages 0 35) &&
      decide (st.live 37 = none) &&
      (follow st.h_revision 40 (st.free_loc 0 35)).any fun l => decide (37 ∉ l))
    (by decide +kernel)
  simp only [Bool.and_eq_true, decide_eq_true_eq, Option.any_eq_true] at htest
  obtain ⟨⟨⟨hnum, hpage⟩, hlive⟩, l, hl, hout⟩ := htest
  have hblock : Block st.pages 35 37 := ⟨0, 1, hpage, by decide⟩
  refine ⟨st, h0.run free_both hrun, hblock, hlive, ?_⟩
  rintro ⟨F, hpart⟩
  obtain ⟨i, hi, hone, -⟩ := hpart.free 35 37 hblock hlive
  have hzero : i = 0 := by omega
  subst hzero
  rw [(hpart.linked 0 35).unique (linked_of_follow hl), List.count_eq_zero_of_not_mem hout] at hone
  cases hone

end Stmgc.C4.GcPage
