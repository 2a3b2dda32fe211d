/-
A whole major collection: the size classes of one descriptor after the other,
and the descriptors of the threads before those that no thread has.

In the middle of it some free lists are new and the others are stale: a stale
one may lead through locations of pages that were swept, or given back. [`Mid`]
says nothing of it, and the sweeping of the descriptor forgets it.
-/
import Stmgc.C4.GcPageSweep

namespace Stmgc.C4.GcPage

open Stmgc.Lib

/-- The memory when the sweeping begins. The flags say what was marked. -/
structure Marked (st : State) (F : ℕ → ℕ → List ℕ) : Prop where
  pages : PagesInv st.malloced st.pages st.nonsmall
  block : BlocksInv st.malloced st.pages st.nonsmall st.free_loc st.h_revision (fun _ => 0) st.live F
  unused : ∀ i, st.num_descriptors ≤ i → st.descriptor i = new_descriptor
  consistent : ∀ b, (st.live b ≠ none ∨ ∃ c, Block st.pages c b) →
    is_visited (st.h_tid b) = true → is_marked (st.h_tid b) = true
  marked_live : ∀ c b, Block st.pages c b → is_marked (st.h_tid b) = true → st.live b ≠ none

/-- What the sweeping of a location leads to. -/
structure Done (st₀ st : State) (b : ℕ) : Prop where
  kept : is_marked (st₀.h_tid b) = true → Kept st₀ st b
  dead : is_marked (st₀.h_tid b) = false → st.live b = none

/-- The pages of the size classes `D` were swept, and the large objects of the
descriptors `E`. The new free lists are `F`. -/
structure Mid (st₀ st : State) (D : ℕ → ℕ → Prop) (E : ℕ → Prop) (F : ℕ → ℕ → List ℕ) : Prop where
  malloced : st.malloced.Sublist st₀.malloced
  pages_todo : ∀ i c, ¬ D i c → st.pages i c = st₀.pages i c ∧ st.free_loc i c = st₀.free_loc i c
  pages_done : ∀ i c, D i c → st.pages i c = ((st₀.pages i c).filter (alive st₀ c)).reverse
  page_malloced : ∀ i c, ∀ p ∈ st.pages i c, (p, GC_PAGE_WORDS) ∈ st.malloced
  free : ∀ i c, D i c → Linked st.h_revision (st.free_loc i c) (F i c)
  free_mem : ∀ i c, D i c → ∀ b, b ∈ F i c ↔
    is_marked (st₀.h_tid b) = false ∧ ∃ p ∈ st.pages i c, b ∈ blocks c p
  free_nodup : ∀ i c, D i c → (F i c).Nodup
  todo : ∀ i c, ¬ D i c → ∀ p ∈ st₀.pages i c, ∀ b ∈ blocks c p, Same st₀ st b
  done : ∀ i c, D i c → ∀ p ∈ st₀.pages i c, ∀ b ∈ blocks c p, Done st₀ st b
  nonsmall_todo : ∀ i, ¬ E i → st.nonsmall i = st₀.nonsmall i ∧
    ∀ b ∈ st₀.nonsmall i, Same st₀ st b
  nonsmall_done : ∀ i, E i →
    st.nonsmall i = (st₀.nonsmall i).filter (fun b => is_marked (st₀.h_tid b)) ∧
      ∀ b ∈ st₀.nonsmall i, Done st₀ st b
  nonsmall_malloced : ∀ i, ∀ b ∈ st.nonsmall i, ∀ n, (b, n) ∈ st₀.malloced → (b, n) ∈ st.malloced
  page_freed : ∀ i c, D i c → ∀ p ∈ st₀.pages i c, alive st₀ c p = false →
    ∀ n, (p, n) ∉ st.malloced
  nonsmall_freed : ∀ i, E i → ∀ b ∈ st₀.nonsmall i, is_marked (st₀.h_tid b) = false →
    ∀ n, (b, n) ∉ st.malloced
  live : ∀ b, st.live b = st₀.live b ∨ st.live b = none
  unused : ∀ i, st.num_descriptors ≤ i → st.descriptor i = new_descriptor
  count_pages : ∀ i, (st.descriptor i).count_pages
    = ∑ c ∈ Finset.range GC_SMALL_REQUESTS, (st.pages i c).length
  count_global_pages : st.count_global_pages
    = ∑ i ∈ Finset.range st.num_descriptors, (st.descriptor i).count_pages
  totals : st.mc_total_in_use ≤ st.mc_total_reserved
  threads : SameThreads st₀ st

variable {st₀ st st' : State} {F F₀ : ℕ → ℕ → List ℕ} {D : ℕ → ℕ → Prop} {E : ℕ → Prop}
  {i c b : ℕ} {NDEBUG : Bool}

theorem SameThreads.trans {st'' : State} (h : SameThreads st st') (h' : SameThreads st' st'') :
    SameThreads st st'' :=
  ⟨h'.num_descriptors.trans h.num_descriptors,
    h'.descriptor_array_free_list.trans h.descriptor_array_free_list,
    h'.stm_tx_head.trans h.stm_tx_head,
    fun j => (h'.free_list_next j).trans (h.free_list_next j), fun j => by
      rcases h'.pc j with hpc | hpc
      · rw [hpc]
        exact h.pc j
      · exact Or.inr hpc⟩

/-- Two steps for one location that only one of them touches. -/
theorem Done.same {st₁ st₂ : State} (h : Done st₀ st₁ b) (hsame : Same st₁ st₂ b) :
    Done st₀ st₂ b := by
  refine ⟨fun hm => ?_, fun hm => hsame.2.2.trans (h.dead hm)⟩
  obtain ⟨htid, hrev, hlive⟩ := h.kept hm
  exact ⟨hsame.1.trans htid, hsame.2.1.trans hrev, hsame.2.2.trans hlive⟩

theorem Same.trans {st₁ st₂ : State} (h : Same st₀ st₁ b) (hsame : Same st₁ st₂ b) :
    Same st₀ st₂ b :=
  ⟨hsame.1.trans h.1, hsame.2.1.trans h.2.1, hsame.2.2.trans h.2.2⟩

theorem Swept.done {st₁ st₂ : State} {bs : List ℕ} (h : Swept st₁ st₂ bs) (hb : b ∈ bs)
    (hsame : Same st₀ st₁ b) : Done st₀ st₂ b := by
  refine ⟨fun hm => ?_, fun hm => h.dead b hb (hsame.1 ▸ hm)⟩
  obtain ⟨htid, hrev, hlive⟩ := h.marked b hb (hsame.1 ▸ hm)
  exact ⟨htid.trans (by rw [hsame.1]), hrev.trans hsame.2.1, hlive.trans hsame.2.2⟩

/-! ## One size class -/

theorem PagesInv.disjoint {malloced : List (ℕ × ℕ)} {pages : ℕ → ℕ → List ℕ}
    {nonsmall : ℕ → List ℕ} (h : PagesInv malloced pages nonsmall) (i c : ℕ) :
    (pages i c).Pairwise fun p q => (blocks c p).Disjoint (blocks c q) :=
  (h.pages_nodup i c).imp_of_mem fun hp hq hne _ hb hb' => hne (h.page_eq hp hb hq hb').1

/-- The state after the loop, with the new lists. -/
def set_lists (st : State) (i c : ℕ) (surviving_pages : List ℕ) (freelist : ℕ) : State :=
  (st.set_pages i c surviving_pages).set_free_loc i c freelist

/-- What the loop leaves of the descriptors. -/
theorem PagesSwept.parts {l surviving : List ℕ} {freelist : ℕ} (h : PagesSwept i c l st st') :
    (set_lists st' i c surviving freelist).pages
        = (fun j d => if j = i ∧ d = c then surviving else st.pages j d) ∧
      (set_lists st' i c surviving freelist).free_loc
        = (fun j d => if j = i ∧ d = c then freelist else st.free_loc j d) ∧
      (set_lists st' i c surviving freelist).nonsmall = st.nonsmall ∧
      (∀ j, ((set_lists st' i c surviving freelist).descriptor j).count_pages
        = if j = i then (st'.descriptor i).count_pages else (st.descriptor j).count_pages) ∧
      (∀ j, ((set_lists st' i c surviving freelist).descriptor j).free_list_next
        = (st.descriptor j).free_list_next) ∧
      ∀ j, j ≠ i → (set_lists st' i c surviving freelist).descriptor j = st.descriptor j := by
  have hdescriptor : ∀ j, st'.descriptor j = if j = i then
      { st.descriptor i with count_pages := (st'.descriptor i).count_pages }
      else st.descriptor j := by
    intro j
    have := congrFun (congrArg State.descriptor h.rest) j
    rw [this]
    exact Function.update_apply ..
  have hpages : st'.pages = st.pages := by
    funext j d
    unfold State.pages
    rw [hdescriptor j]
    split_ifs with hj
    · rw [hj]
    · rfl
  have hfree : st'.free_loc = st.free_loc := by
    funext j d
    unfold State.free_loc
    rw [hdescriptor j]
    split_ifs with hj
    · rw [hj]
    · rfl
  have hnonsmall : st'.nonsmall = st.nonsmall := by
    funext j
    unfold State.nonsmall
    rw [hdescriptor j]
    split_ifs with hj
    · rw [hj]
    · rfl
  have hset : (set_lists st' i c surviving freelist).pages = (st'.set_pages i c surviving).pages :=
    pages_of_eq rfl
  have hset' : (st'.set_pages i c surviving).pages
      = fun j d => if j = i ∧ d = c then surviving else st'.pages j d := pages_of_update rfl
  have hsetf : (set_lists st' i c surviving freelist).free_loc
      = fun j d => if j = i ∧ d = c then freelist else (st'.set_pages i c surviving).free_loc j d :=
    free_loc_of_update rfl
  have hsetf' : (st'.set_pages i c surviving).free_loc = st'.free_loc := free_loc_of_eq rfl
  have hsetn : (set_lists st' i c surviving freelist).nonsmall
      = (st'.set_pages i c surviving).nonsmall := nonsmall_of_eq rfl
  have hsetn' : (st'.set_pages i c surviving).nonsmall = st'.nonsmall := nonsmall_of_eq rfl
  have hsetc : ∀ j, ((set_lists st' i c surviving freelist).descriptor j).count_pages
      = ((st'.set_pages i c surviving).descriptor j).count_pages := count_pages_of_eq rfl
  have hsetc' : ∀ j, ((st'.set_pages i c surviving).descriptor j).count_pages
      = (st'.descriptor j).count_pages := count_pages_of_eq rfl
  have hsetl : ∀ j, ((set_lists st' i c surviving freelist).descriptor j).free_list_next
      = ((st'.set_pages i c surviving).descriptor j).free_list_next := free_list_next_of_eq rfl
  have hsetl' : ∀ j, ((st'.set_pages i c surviving).descriptor j).free_list_next
      = (st'.descriptor j).free_list_next := free_list_next_of_eq rfl
  refine ⟨by rw [hset, hset', hpages], by rw [hsetf, hsetf', hfree], by rw [hsetn, hsetn', hnonsmall],
    fun j => ?_, fun j => ?_, fun j hj => ?_⟩
  · rw [hsetc, hsetc', hdescriptor j]
    split_ifs
    · rfl
    · rfl
  · rw [hsetl, hsetl', hdescriptor j]
    split_ifs with hj
    · rw [hj]
    · rfl
  · unfold set_lists State.set_pages State.set_free_loc State.set_descriptor
    dsimp only
    rw [Function.update_of_ne hj, Function.update_of_ne hj, hdescriptor j, if_neg hj]

theorem Mid.alive_eq (h : Mid st₀ st D E F) (hD : ¬ D i c) {p : ℕ} (hp : p ∈ st₀.pages i c) :
    alive st c p = alive st₀ c p := by
  unfold alive
  rw [Bool.eq_iff_iff, List.any_eq_true, List.any_eq_true]
  refine exists_congr fun b => and_congr_right fun hb => ?_
  rw [(h.todo i c hD p hp b hb).1]

theorem Mid.le_count (h : Mid st₀ st D E F) (hc : c < GC_SMALL_REQUESTS) {l : List ℕ}
    (hl : l.Sublist (st.pages i c)) : l.length ≤ (st.descriptor i).count_pages := by
  refine hl.length_le.trans ?_
  rw [h.count_pages i]
  exact Finset.single_le_sum (f := fun c => (st.pages i c).length) (fun _ _ => Nat.zero_le _)
    (Finset.mem_range.mpr hc)

theorem Mid.pages_sub (h : Mid st₀ st D E F) {p : ℕ} (hp : p ∈ st.pages i c) :
    p ∈ st₀.pages i c := by
  by_cases hD : D i c
  · rw [h.pages_done i c hD] at hp
    exact (List.mem_filter.mp (List.mem_reverse.mp hp)).1
  · exact (h.pages_todo i c hD).1 ▸ hp

theorem Mid.nonsmall_sub (h : Mid st₀ st D E F) (hb : b ∈ st.nonsmall i) : b ∈ st₀.nonsmall i := by
  by_cases hE : E i
  · rw [(h.nonsmall_done i hE).1] at hb
    exact (List.mem_filter.mp hb).1
  · exact (h.nonsmall_todo i hE).1 ▸ hb

theorem PagesSwept.sameThreads {l surviving : List ℕ} {freelist : ℕ} (h : PagesSwept i c l st st') :
    SameThreads st (set_lists st' i c surviving freelist) := by
  have hnum := congrArg State.num_descriptors h.rest
  have hhead := congrArg State.descriptor_array_free_list h.rest
  have htx := congrArg State.stm_tx_head h.rest
  have hpc := congrArg State.pc h.rest
  exact ⟨hnum, hhead, htx, h.parts.2.2.2.2.1, fun j => Or.inl (congrFun hpc j)⟩

/-- The lengths of the lists, when one of them gets shorter. -/
theorem sum_add_of_eq {f g : ℕ → ℕ} {n k m : ℕ} (hk : k < n) (hne : ∀ j, j ≠ k → f j = g j)
    (heq : f k + m = g k) : ∑ j ∈ Finset.range n, f j + m = ∑ j ∈ Finset.range n, g j := by
  have hg : ∀ j, g j = f j + if j = k then m else 0 := by
    intro j
    split_ifs with hj
    · rw [hj, heq]
    · rw [hne j hj, Nat.add_zero]
  rw [Finset.sum_congr rfl fun j _ => hg j, Finset.sum_add_distrib, Finset.sum_ite_eq' _ k,
    if_pos (Finset.mem_range.mpr hk)]

theorem length_filter_add (f : ℕ → Bool) (l : List ℕ) :
    (l.filter f).length + (l.filter fun p => !f p).length = l.length := by
  induction l with
  | nil => rfl
  | cons p l ih =>
      rw [List.filter_cons, List.filter_cons]
      cases hf : f p
      · simp only [Bool.not_false, if_true, List.length_cons]
        simp only [Bool.false_eq_true, if_false]
        omega
      · simp only [Bool.not_true, if_true, List.length_cons]
        simp only [Bool.false_eq_true, if_false]
        omega

/-- The size class `c` of the descriptor `i` was swept. -/
structure ClassSwept (st₀ st st' : State) (i c freelist : ℕ) (fl : List ℕ) : Prop where
  pages : st'.pages = fun j d =>
    if j = i ∧ d = c then ((st₀.pages i c).filter (alive st₀ c)).reverse else st.pages j d
  free_loc : st'.free_loc = fun j d => if j = i ∧ d = c then freelist else st.free_loc j d
  nonsmall : st'.nonsmall = st.nonsmall
  linked : Linked st'.h_revision freelist fl
  mem : ∀ b, b ∈ fl ↔ is_marked (st₀.h_tid b) = false ∧
    ∃ p ∈ (st₀.pages i c).filter (alive st₀ c), b ∈ blocks c p
  nodup : fl.Nodup
  inside : ∀ p ∈ st₀.pages i c, ∀ b ∈ blocks c p, Done st₀ st' b
  outside : ∀ b, (∀ p ∈ st₀.pages i c, b ∉ blocks c p) → Same st st' b
  malloced : st'.malloced.Sublist st.malloced
  stays : ∀ r ∈ st.malloced, (r.1 ∈ st₀.pages i c → alive st₀ c r.1 = true) → r ∈ st'.malloced
  gone : ∀ p ∈ st₀.pages i c, alive st₀ c p = false → ∀ n, (p, n) ∉ st'.malloced
  descriptor : ∀ j, j ≠ i → st'.descriptor j = st.descriptor j
  dead_pages : ∃ n, n + ((st₀.pages i c).filter (alive st₀ c)).length = (st₀.pages i c).length ∧
    (st'.descriptor i).count_pages + n = (st.descriptor i).count_pages ∧
    st'.count_global_pages + n = st.count_global_pages
  totals : st'.mc_total_in_use + st.mc_total_reserved
    ≤ st'.mc_total_reserved + st.mc_total_in_use
  threads : SameThreads st st'

/-- `sweep_pages`. -/
theorem Mid.class_swept (hmarked : Marked st₀ F₀) (h : Mid st₀ st D E F)
    (hi : i < st.num_descriptors) (hc : 0 < c) (hlt : c < GC_SMALL_REQUESTS) (hD : ¬ D i c) :
    ∃ st' freelist fl, GcPage.sweep_pages NDEBUG i st c = some st' ∧
      ClassSwept st₀ st st' i c freelist fl := by
  have hpages : st.pages i c = st₀.pages i c := (h.pages_todo i c hD).1
  have hsame : ∀ p ∈ st₀.pages i c, ∀ b ∈ blocks c p, Same st₀ st b := h.todo i c hD
  have halive : (st₀.pages i c).filter (alive st c) = (st₀.pages i c).filter (alive st₀ c) :=
    List.filter_congr fun p hp => h.alive_eq hD hp
  have hglobal : (st.descriptor i).count_pages ≤ st.count_global_pages := by
    rw [h.count_global_pages]
    exact Finset.single_le_sum (f := fun i => (st.descriptor i).count_pages)
      (fun _ _ => Nat.zero_le _) (Finset.mem_range.mpr hi)
  have hdead : (dead_pages st c (st.pages i c)).length ≤ (st.descriptor i).count_pages :=
    h.le_count hlt List.filter_sublist
  obtain ⟨st₁, freelist, hloop, hswept, hlinked⟩ :=
    @sweep_loop_spec c i NDEBUG (st.pages i c) [] [] st 0 hc
      (fun p hp => List.mem_map.mpr ⟨_, h.page_malloced i c p hp, rfl⟩)
      (hpages ▸ hmarked.pages.pages_nodup i c) (hpages ▸ hmarked.pages.disjoint i c)
      (fun p hp b hb => by
        rw [hpages] at hp
        rw [(hsame p hp b hb).1]
        exact hmarked.consistent b (Or.inr ⟨c, i, p, hp, hb⟩))
      hdead (hdead.trans hglobal) (Lib.Path.refl 0) fun p _ => List.disjoint_nil_right _
  obtain ⟨hpages', hfree', hnonsmall', hcount', -, hdescriptor'⟩ :=
    @PagesSwept.parts st st₁ i c _ ((((st.pages i c).filter (alive st c)).reverse) ++ []) freelist
      hswept
  have hthreads := @PagesSwept.sameThreads st st₁ i c _
    ((((st.pages i c).filter (alive st c)).reverse) ++ []) freelist hswept
  have hlocations := hswept.swept
  have hcount := hswept.count_pages
  have hcountg := hswept.count_global_pages
  have hmalloced := hswept.malloced
  rw [List.append_nil] at hloop hlinked hpages' hfree' hnonsmall' hcount' hdescriptor' hthreads
  rw [hpages, halive] at hloop hlinked hpages' hfree' hnonsmall' hcount' hdescriptor' hthreads
  rw [hpages] at hlocations hcount hcountg hmalloced
  -- the pages that are given back
  have hdead_iff : ∀ p, p ∈ dead_pages st c (st₀.pages i c) ↔
      p ∈ st₀.pages i c ∧ ¬ alive st₀ c p = true := by
    intro p
    unfold dead_pages
    rw [List.mem_filter]
    refine and_congr_right fun hp => ?_
    rw [h.alive_eq hD hp, Bool.not_eq_true', Bool.not_eq_true]
  have htid₀ : ∀ p ∈ (st₀.pages i c).filter (alive st₀ c), ∀ b ∈ blocks c p,
      st.h_tid b = st₀.h_tid b := fun p hp b hb =>
    (hsame p (List.mem_filter.mp hp).1 b hb).1
  refine ⟨_, freelist, _, ?_, hpages', hfree', hnonsmall', hlinked, fun b => ?_, ?_,
    fun p hp b hb => ?_, fun b hb => ?_, ?_, fun r hr halive' => ?_, fun p hp hal n hn => ?_,
    hdescriptor',
    ⟨(dead_pages st c (st₀.pages i c)).length, ?_, ?_, hcountg⟩, hswept.totals, hthreads⟩
  · unfold GcPage.sweep_pages
    rw [show (st.descriptor i).pages_for_size c = st.pages i c from rfl, hpages, hloop]
    rfl
  · rw [List.mem_reverse]
    unfold unmarked
    rw [List.mem_filter, List.mem_flatMap]
    constructor
    · rintro ⟨⟨p, hp, hb⟩, hm⟩
      rw [htid₀ p hp b hb] at hm
      exact ⟨(Bool.not_eq_true' _).mp hm, p, hp, hb⟩
    · rintro ⟨hm, p, hp, hb⟩
      refine ⟨⟨p, hp, hb⟩, ?_⟩
      rw [htid₀ p hp b hb, hm]
      rfl
  · exact List.nodup_reverse.mpr (List.Nodup.filter _ (List.nodup_flatMap.mpr
      ⟨fun p _ => blocks_nodup hc,
        (hmarked.pages.disjoint i c).sublist List.filter_sublist⟩))
  · have hdone := hlocations.done (List.mem_flatMap.mpr ⟨p, hp, hb⟩) (hsame p hp b hb)
    exact ⟨hdone.kept, hdone.dead⟩
  · refine hlocations.outside b fun hin => ?_
    obtain ⟨p, hp, hb'⟩ := List.mem_flatMap.mp hin
    exact hb p hp hb'
  · exact hmalloced ▸ List.filter_sublist
  · show r ∈ st₁.malloced
    rw [hmalloced]
    refine List.mem_filter.mpr ⟨hr, decide_eq_true fun hdead' => ?_⟩
    obtain ⟨hp, hnot⟩ := (hdead_iff _).mp hdead'
    exact hnot (halive' hp)
  · rw [show (set_lists st₁ i c _ freelist).malloced = st₁.malloced from rfl, hmalloced] at hn
    refine of_decide_eq_true (List.mem_filter.mp hn).2 ((hdead_iff p).mpr ⟨hp, ?_⟩)
    rw [hal]
    simp
  · rw [← halive, Nat.add_comm]
    exact length_filter_add _ _
  · rw [hcount', if_pos rfl]
    exact hcount

/-- The counters after it. -/
theorem Mid.counters {freelist : ℕ} {fl : List ℕ} (h : Mid st₀ st D E F)
    (hi : i < st.num_descriptors) (hlt : c < GC_SMALL_REQUESTS) (hD : ¬ D i c)
    (hs : ClassSwept st₀ st st' i c freelist fl) :
    (∀ j, (st'.descriptor j).count_pages
        = ∑ d ∈ Finset.range GC_SMALL_REQUESTS, (st'.pages j d).length) ∧
      st'.count_global_pages
        = ∑ j ∈ Finset.range st'.num_descriptors, (st'.descriptor j).count_pages := by
  obtain ⟨n, hn, hcount, hglobal⟩ := hs.dead_pages
  have hpages : (st.pages i c).length = (st₀.pages i c).length := by
    rw [(h.pages_todo i c hD).1]
  constructor
  · intro j
    by_cases hj : j = i
    · subst hj
      have hsum := @sum_add_of_eq (fun d => (st'.pages j d).length)
        (fun d => (st.pages j d).length) GC_SMALL_REQUESTS c n hlt
        (fun d hd => by rw [hs.pages]; dsimp only; rw [if_neg fun h => hd h.2])
        (by rw [hs.pages]; dsimp only; rw [if_pos ⟨rfl, rfl⟩, List.length_reverse]; omega)
      rw [h.count_pages j, ← hsum] at hcount
      exact Nat.add_right_cancel hcount
    · rw [hs.descriptor j hj, h.count_pages j, hs.pages]
      refine Finset.sum_congr rfl fun d _ => ?_
      dsimp only
      rw [if_neg fun h => hj h.1]
  · have hsum := @sum_add_of_eq (fun j => (st'.descriptor j).count_pages)
      (fun j => (st.descriptor j).count_pages) st.num_descriptors i n hi
      (fun j hj => congrArg tx_public_descriptor.count_pages (hs.descriptor j hj)) hcount
    rw [h.count_global_pages, ← hsum] at hglobal
    rw [hs.threads.num_descriptors]
    exact Nat.add_right_cancel hglobal

theorem Mid.add_class {freelist : ℕ} {fl : List ℕ} (hmarked : Marked st₀ F₀)
    (h : Mid st₀ st D E F) (hi : i < st.num_descriptors) (hlt : c < GC_SMALL_REQUESTS)
    (hD : ¬ D i c) (hs : ClassSwept st₀ st st' i c freelist fl) :
    Mid st₀ st' (fun j d => D j d ∨ (j = i ∧ d = c)) E
      (fun j d => if j = i ∧ d = c then fl else F j d) := by
  -- the locations of other pages, and the large objects, are not touched
  have hother : ∀ j d q b, q ∈ st₀.pages j d → b ∈ blocks d q → ¬ (j = i ∧ d = c) →
      Same st st' b := fun j d q b hq hb hne =>
    hs.outside b fun p hp hb' => hne (hmarked.pages.page_eq hq hb hp hb').2
  have hlarge : ∀ j b, b ∈ st₀.nonsmall j → Same st st' b := fun j b hb =>
    hs.outside b fun p hp hb' => hmarked.pages.not_block hb ⟨i, p, hp, hb'⟩
  obtain ⟨hcount, hglobal⟩ := h.counters hi hlt hD hs
  have htotals := hs.totals
  have hle := h.totals
  refine ⟨hs.malloced.trans h.malloced, fun j d hD' => ?_, fun j d hD' => ?_, fun j d p hp => ?_,
    fun j d hD' => ?_, fun j d hD' b => ?_, fun j d hD' => ?_, fun j d hD' p hp b hb => ?_,
    fun j d hD' p hp b hb => ?_, fun j hE => ?_, fun j hE => ?_, fun j b hb n hn => ?_,
    fun j d hD' p hp hal n hn => ?_,
    fun j hE b hb hm n hn => h.nonsmall_freed j hE b hb hm n (hs.malloced.subset hn), fun b => ?_,
    fun j hj => ?_, hcount, hglobal, by omega, h.threads.trans hs.threads⟩
  · obtain ⟨hD', hne⟩ := not_or.mp hD'
    rw [hs.pages, hs.free_loc]
    dsimp only
    rw [if_neg hne, if_neg hne]
    exact h.pages_todo j d hD'
  · rw [hs.pages]
    dsimp only
    split_ifs with hjd
    · rw [hjd.1, hjd.2]
    · exact h.pages_done j d (hD'.resolve_right hjd)
  · rw [hs.pages] at hp
    dsimp only at hp
    split_ifs at hp with hjd
    · obtain ⟨hp, hal⟩ := List.mem_filter.mp (List.mem_reverse.mp hp)
      rw [← (h.pages_todo i c hD).1] at hp
      exact hs.stays _ (h.page_malloced i c p hp) fun _ => hal
    · refine hs.stays _ (h.page_malloced j d p hp) fun hp' => absurd ?_ hjd
      exact hmarked.pages.page_unique j d i c p (h.pages_sub hp) hp'
  · rw [hs.free_loc]
    dsimp only
    split_ifs with hjd
    · exact hs.linked
    · have hDj := hD'.resolve_right hjd
      refine (h.free j d hDj).congr fun x hx => ?_
      obtain ⟨-, p, hp, hb⟩ := (h.free_mem j d hDj x).mp hx
      exact (hother j d p x (h.pages_sub hp) hb hjd).2.1
  · rw [hs.pages]
    dsimp only
    split_ifs with hjd
    · rw [hs.mem, hjd.2]
      simp only [List.mem_reverse]
    · exact h.free_mem j d (hD'.resolve_right hjd) b
  · split_ifs with hjd
    · exact hs.nodup
    · exact h.free_nodup j d (hD'.resolve_right hjd)
  · obtain ⟨hD', hne⟩ := not_or.mp hD'
    exact (h.todo j d hD' p hp b hb).trans (hother j d p b hp hb hne)
  · by_cases hjd : j = i ∧ d = c
    · rw [hjd.1, hjd.2] at hp
      rw [hjd.2] at hb
      exact hs.inside p hp b hb
    · exact (h.done j d (hD'.resolve_right hjd) p hp b hb).same (hother j d p b hp hb hjd)
  · obtain ⟨heq, hsame⟩ := h.nonsmall_todo j hE
    exact ⟨by rw [hs.nonsmall]; exact heq, fun b hb => (hsame b hb).trans (hlarge j b hb)⟩
  · obtain ⟨heq, hdone⟩ := h.nonsmall_done j hE
    exact ⟨by rw [hs.nonsmall]; exact heq, fun b hb => (hdone b hb).same (hlarge j b hb)⟩
  · rw [hs.nonsmall] at hb
    refine hs.stays _ (h.nonsmall_malloced j b hb n hn) fun hp => absurd hp ?_
    exact hmarked.pages.not_page j i c b (h.nonsmall_sub hb)
  · by_cases hjd : j = i ∧ d = c
    · rw [hjd.1, hjd.2] at hp
      rw [hjd.2] at hal
      exact hs.gone p hp hal n hn
    · exact h.page_freed j d (hD'.resolve_right hjd) p hp hal n (hs.malloced.subset hn)
  · by_cases hb : ∃ p ∈ st₀.pages i c, b ∈ blocks c p
    · obtain ⟨p, hp, hb⟩ := hb
      cases hm : is_marked (st₀.h_tid b) with
      | true => exact Or.inl ((hs.inside p hp b hb).kept hm).2.2
      | false => exact Or.inr ((hs.inside p hp b hb).dead hm)
    · rw [(hs.outside b fun p hp hb' => hb ⟨p, hp, hb'⟩).2.2]
      exact h.live b
  · rw [hs.threads.num_descriptors] at hj
    rw [hs.descriptor j (by omega)]
    exact h.unused j hj

/-! ## The large objects of a descriptor -/

/-- The large objects `l` of the descriptor `i` were swept. -/
structure NonsmallSwept (st₀ st st' : State) (i : ℕ) (l : List ℕ) : Prop where
  nonsmall : ∀ j, st'.nonsmall j = if j = i then
    (st.nonsmall i).filter (fun b => decide (b ∈ l → is_marked (st₀.h_tid b) = true))
    else st.nonsmall j
  malloced : st'.malloced = st.malloced.filter
    fun r => decide (r.1 ∈ l → is_marked (st₀.h_tid r.1) = true)
  inside : ∀ b ∈ l, Done st₀ st' b
  outside : ∀ b ∉ l, Same st st' b
  pages : st'.pages = st.pages
  free_loc : st'.free_loc = st.free_loc
  h_revision : st'.h_revision = st.h_revision
  descriptor : ∀ j, j ≠ i → st'.descriptor j = st.descriptor j
  count_pages : ∀ j, (st'.descriptor j).count_pages = (st.descriptor j).count_pages
  count_global_pages : st'.count_global_pages = st.count_global_pages
  mc_total_in_use : st'.mc_total_in_use = st.mc_total_in_use
  mc_total_reserved : st'.mc_total_reserved = st.mc_total_reserved
  threads : SameThreads st st'

/-- One turn of the loop. -/
theorem sweep_nonsmall_one (hsame : Same st₀ st b)
    (hcons : is_visited (st₀.h_tid b) = true → is_marked (st₀.h_tid b) = true)
    (hmalloced : b ∈ st.malloced.map Prod.fst) :
    ∃ st', sweep_nonsmall i st b = some st' ∧ NonsmallSwept st₀ st st' i [b] := by
  have htid := hsame.1
  have hne : ∀ x ∉ [b], x ≠ b := fun x hx h => hx (h ▸ List.mem_cons_self)
  have hassert : is_visited (st.h_tid b) = true → is_marked (st.h_tid b) = true := htid ▸ hcons
  unfold sweep_nonsmall
  cases hm : is_marked (st₀.h_tid b) with
  | true =>
      have hall : ∀ x, decide (x ∈ [b] → is_marked (st₀.h_tid x) = true) = true := fun x =>
        decide_eq_true fun hx => List.mem_singleton.mp hx ▸ hm
      refine ⟨_, c_assert_eq_some.mpr ⟨hassert, if_pos (htid ▸ hm)⟩, fun j => ?_, ?_,
        fun x hx => ?_, fun x hx => ?_, rfl, rfl, rfl, fun _ _ => rfl, fun _ => rfl, rfl, rfl, rfl,
        rfl, rfl, rfl, fun _ => rfl, fun _ => Or.inl rfl⟩
      · split_ifs with hj
        · rw [List.filter_eq_self.mpr fun x _ => hall x, hj]
          rfl
        · rfl
      · rw [List.filter_eq_self.mpr fun r _ => hall r.1]
        rfl
      · obtain rfl := List.mem_singleton.mp hx
        refine ⟨fun _ => ⟨?_, hsame.2⟩, fun hm' => ?_⟩
        · exact (Function.update_self ..).trans (by rw [htid])
        · rw [hm] at hm'
          cases hm'
      · exact ⟨Function.update_of_ne (hne x hx) .., rfl, rfl⟩
  | false =>
      have hiff : ∀ x, decide (x ≠ b) = decide (x ∈ [b] → is_marked (st₀.h_tid x) = true) := by
        intro x
        rw [Bool.eq_iff_iff, decide_eq_true_eq, decide_eq_true_eq, List.mem_singleton]
        refine ⟨fun h hx => absurd hx h, fun h hx => ?_⟩
        have hmx := h hx
        rw [hx, hm] at hmx
        cases hmx
      have hnonsmall : (GcPage.free_large st i b).nonsmall
          = fun j => if j = i then (st.nonsmall i).filter (· ≠ b) else st.nonsmall j :=
        nonsmall_set_descriptor
      have hpages : (GcPage.free_large st i b).pages = st.pages := pages_of_eq rfl
      have hfree : (GcPage.free_large st i b).free_loc = st.free_loc := free_loc_of_eq rfl
      have hnot : ¬ is_marked (st.h_tid b) = true := by
        rw [htid, hm]
        simp
      refine ⟨GcPage.free_large st i b, c_assert_eq_some.mpr ⟨hassert, ?_⟩, fun j => ?_, ?_,
        fun x hx => ?_, fun x hx => ?_, hpages, hfree, rfl, fun j hj => ?_, count_pages_of_eq rfl,
        rfl, rfl, rfl, rfl, rfl, rfl, free_list_next_of_eq rfl, fun _ => Or.inl rfl⟩
      · rw [if_neg hnot]
        have hstm : (st.set_descriptor i { st.descriptor i with
            nonsmall_objects := (st.nonsmall i).filter (· ≠ b) }).stm_free b
            = some { st.set_descriptor i { st.descriptor i with
                nonsmall_objects := (st.nonsmall i).filter (· ≠ b) } with
              malloced := st.malloced.filter fun r => r.1 ≠ b } :=
          c_assert_eq_some.mpr ⟨hmalloced, rfl⟩
        exact congrArg (fun o => o.bind fun st => some (st.set_live b none)) hstm
      · rw [hnonsmall]
        dsimp only
        rw [List.filter_congr fun x _ => hiff x]
      · exact List.filter_congr fun r _ => hiff r.1
      · obtain rfl := List.mem_singleton.mp hx
        refine ⟨fun hm' => ?_, fun _ => Function.update_self ..⟩
        rw [hm] at hm'
        cases hm'
      · exact ⟨rfl, rfl, Function.update_of_ne (hne x hx) ..⟩
      · exact Function.update_of_ne hj ..

theorem NonsmallSwept.nil : NonsmallSwept st₀ st st i [] := by
  have hall : ∀ x, decide (x ∈ ([] : List ℕ) → is_marked (st₀.h_tid x) = true) = true := fun x =>
    decide_eq_true fun hx => absurd hx List.not_mem_nil
  refine ⟨fun j => ?_, ?_, fun b hb => absurd hb List.not_mem_nil, fun _ _ => ⟨rfl, rfl, rfl⟩, rfl,
    rfl, rfl, fun _ _ => rfl, fun _ => rfl, rfl, rfl, rfl, rfl, rfl, rfl, fun _ => rfl,
    fun _ => Or.inl rfl⟩
  · split_ifs with hj
    · rw [List.filter_eq_self.mpr fun x _ => hall x, hj]
    · rfl
  · exact (List.filter_eq_self.mpr fun r _ => hall r.1).symm

/-- One object, and then others. -/
theorem NonsmallSwept.cons {st'' : State} {l : List ℕ} (h : NonsmallSwept st₀ st st' i [b])
    (h' : NonsmallSwept st₀ st' st'' i l) (hb : b ∉ l) :
    NonsmallSwept st₀ st st'' i (b :: l) := by
  have hboth : ∀ x, (decide (x ∈ [b] → is_marked (st₀.h_tid x) = true) &&
      decide (x ∈ l → is_marked (st₀.h_tid x) = true))
      = decide (x ∈ b :: l → is_marked (st₀.h_tid x) = true) := by
    intro x
    rw [Bool.eq_iff_iff, Bool.and_eq_true, decide_eq_true_eq, decide_eq_true_eq,
      decide_eq_true_eq, List.mem_singleton, List.mem_cons]
    tauto
  refine ⟨fun j => ?_, ?_, fun x hx => ?_, fun x hx => ?_, h'.pages.trans h.pages,
    h'.free_loc.trans h.free_loc, h'.h_revision.trans h.h_revision,
    fun j hj => (h'.descriptor j hj).trans (h.descriptor j hj),
    fun j => (h'.count_pages j).trans (h.count_pages j),
    h'.count_global_pages.trans h.count_global_pages,
    h'.mc_total_in_use.trans h.mc_total_in_use, h'.mc_total_reserved.trans h.mc_total_reserved,
    h.threads.trans h'.threads⟩
  · rw [h'.nonsmall j, h.nonsmall i, h.nonsmall j, if_pos rfl]
    split_ifs
    · rw [List.filter_filter]
      refine List.filter_congr fun x _ => ?_
      rw [Bool.and_comm, hboth]
    · rfl
  · rw [h'.malloced, h.malloced, List.filter_filter]
    refine List.filter_congr fun r _ => ?_
    rw [Bool.and_comm, hboth]
  · rcases List.mem_cons.mp hx with rfl | hx
    · exact (h.inside x List.mem_cons_self).same (h'.outside x hb)
    · exact h'.inside x hx
  · obtain ⟨hxb, hxl⟩ := not_or.mp fun hor => hx (List.mem_cons.mpr hor)
    exact (h.outside x fun hmem => hxb (List.mem_singleton.mp hmem)).trans (h'.outside x hxl)

/-- The loop over them. -/
theorem sweep_nonsmall_spec {l : List ℕ} (hnodup : l.Nodup) (hsame : ∀ b ∈ l, Same st₀ st b)
    (hcons : ∀ b ∈ l, is_visited (st₀.h_tid b) = true → is_marked (st₀.h_tid b) = true)
    (hmalloced : ∀ b ∈ l, b ∈ st.malloced.map Prod.fst) :
    ∃ st', l.foldlM (sweep_nonsmall i) st = some st' ∧ NonsmallSwept st₀ st st' i l := by
  induction l generalizing st with
  | nil => exact ⟨st, rfl, .nil⟩
  | cons b l ih =>
      obtain ⟨hb, hnodup⟩ := List.nodup_cons.mp hnodup
      obtain ⟨st₁, heq, hone⟩ := @sweep_nonsmall_one st₀ st i b (hsame b List.mem_cons_self)
        (hcons b List.mem_cons_self) (hmalloced b List.mem_cons_self)
      have hne : ∀ x ∈ l, x ∉ [b] := fun x hx hmem => hb (List.mem_singleton.mp hmem ▸ hx)
      have hstays : ∀ x ∈ l, x ∈ st₁.malloced.map Prod.fst := by
        intro x hx
        obtain ⟨r, hr, rfl⟩ := List.mem_map.mp (hmalloced x (List.mem_cons_of_mem _ hx))
        rw [hone.malloced]
        exact List.mem_map.mpr ⟨r, List.mem_filter.mpr
          ⟨hr, decide_eq_true fun hmem => absurd hmem (hne _ hx)⟩, rfl⟩
      obtain ⟨st₂, heq', hrest⟩ := ih hnodup
        (fun x hx => (hsame x (List.mem_cons_of_mem _ hx)).trans (hone.outside x (hne x hx)))
        (fun x hx => hcons x (List.mem_cons_of_mem _ hx)) hstays
      refine ⟨st₂, ?_, hone.cons hrest hb⟩
      rw [List.foldlM_cons, heq]
      exact heq'

theorem Mid.add_nonsmall (hmarked : Marked st₀ F₀) (h : Mid st₀ st D E F)
    (hi : i < st.num_descriptors) (hE : ¬ E i)
    (hs : NonsmallSwept st₀ st st' i (st₀.nonsmall i)) :
    Mid st₀ st' D (fun j => E j ∨ j = i) F := by
  have hblock : ∀ j d p b, p ∈ st₀.pages j d → b ∈ blocks d p → Same st st' b :=
    fun j d p b hp hb => hs.outside b fun hmem => hmarked.pages.not_block hmem ⟨j, p, hp, hb⟩
  have hother : ∀ j b, j ≠ i → b ∈ st₀.nonsmall j → b ∉ st₀.nonsmall i := fun j b hj hb hmem =>
    hj (hmarked.pages.nonsmall_unique j i b hb hmem)
  obtain ⟨heq, hsame⟩ := h.nonsmall_todo i hE
  have hnonsmall : st'.nonsmall i = (st₀.nonsmall i).filter fun b => is_marked (st₀.h_tid b) := by
    rw [hs.nonsmall i, if_pos rfl, heq]
    refine List.filter_congr fun x hx => ?_
    rw [Bool.eq_iff_iff, decide_eq_true_eq]
    exact ⟨fun himp => himp hx, fun hm _ => hm⟩
  have hmem : ∀ r, r ∈ st'.malloced ↔
      r ∈ st.malloced ∧ (r.1 ∈ st₀.nonsmall i → is_marked (st₀.h_tid r.1) = true) := by
    intro r
    rw [hs.malloced, List.mem_filter, decide_eq_true_eq]
  refine ⟨?_, fun j d hD => ?_, fun j d hD => ?_, fun j d p hp => ?_, fun j d hD => ?_,
    fun j d hD b => ?_, h.free_nodup, fun j d hD p hp b hb => ?_, fun j d hD p hp b hb => ?_,
    fun j hj => ?_, fun j hj => ?_, fun j b hb n hn => ?_,
    fun j d hD p hp hal n hn => h.page_freed j d hD p hp hal n ((hmem _).mp hn).1,
    fun j hj b hb hm n hn => ?_, fun b => ?_, fun j hj => ?_,
    fun j => ?_, ?_, ?_, h.threads.trans hs.threads⟩
  · rw [hs.malloced]
    exact List.filter_sublist.trans h.malloced
  · rw [hs.pages, hs.free_loc]
    exact h.pages_todo j d hD
  · rw [hs.pages]
    exact h.pages_done j d hD
  · rw [hs.pages] at hp
    refine (hmem _).mpr ⟨h.page_malloced j d p hp, fun hin => absurd (h.pages_sub hp) ?_⟩
    exact hmarked.pages.not_page i j d p hin
  · rw [hs.h_revision, hs.free_loc]
    exact h.free j d hD
  · rw [hs.pages]
    exact h.free_mem j d hD b
  · exact (h.todo j d hD p hp b hb).trans (hblock j d p b hp hb)
  · exact (h.done j d hD p hp b hb).same (hblock j d p b hp hb)
  · obtain ⟨hEj, hji⟩ := not_or.mp hj
    obtain ⟨heqj, hsamej⟩ := h.nonsmall_todo j hEj
    refine ⟨?_, fun b hb => (hsamej b hb).trans (hs.outside b (hother j b hji hb))⟩
    rw [hs.nonsmall j, if_neg hji]
    exact heqj
  · by_cases hji : j = i
    · rw [hji]
      exact ⟨hnonsmall, hs.inside⟩
    · obtain ⟨heqj, hdonej⟩ := h.nonsmall_done j (hj.resolve_right hji)
      refine ⟨?_, fun b hb => (hdonej b hb).same (hs.outside b (hother j b hji hb))⟩
      rw [hs.nonsmall j, if_neg hji]
      exact heqj
  · by_cases hji : j = i
    · rw [hji, hnonsmall] at hb
      obtain ⟨hb, hm⟩ := List.mem_filter.mp hb
      exact (hmem _).mpr ⟨h.nonsmall_malloced i b (heq ▸ hb) n hn, fun _ => hm⟩
    · rw [hs.nonsmall j, if_neg hji] at hb
      exact (hmem _).mpr ⟨h.nonsmall_malloced j b hb n hn, fun hin =>
        absurd hin (hother j b hji (h.nonsmall_sub hb))⟩
  · obtain ⟨hn, himp⟩ := (hmem _).mp hn
    by_cases hji : j = i
    · rw [himp (hji ▸ hb)] at hm
      cases hm
    · exact h.nonsmall_freed j (hj.resolve_right hji) b hb hm n hn
  · by_cases hb : b ∈ st₀.nonsmall i
    · cases hm : is_marked (st₀.h_tid b) with
      | true => exact Or.inl ((hs.inside b hb).kept hm).2.2
      | false => exact Or.inr ((hs.inside b hb).dead hm)
    · rw [(hs.outside b hb).2.2]
      exact h.live b
  · rw [hs.threads.num_descriptors] at hj
    rw [hs.descriptor j (by omega)]
    exact h.unused j hj
  · rw [hs.count_pages j, hs.pages]
    exact h.count_pages j
  · rw [hs.count_global_pages, hs.threads.num_descriptors]
    exact h.count_global_pages.trans
      (Finset.sum_congr rfl fun j _ => (hs.count_pages j).symm)
  · rw [hs.mc_total_in_use, hs.mc_total_reserved]
    exact h.totals

/-! ## All descriptors -/

/-- The loop over the size classes. -/
theorem Mid.classes (hmarked : Marked st₀ F₀) : ∀ {cs : List ℕ} {st : State} {D : ℕ → ℕ → Prop}
    {F : ℕ → ℕ → List ℕ}, Mid st₀ st D E F → i < st.num_descriptors → cs.Nodup →
    (∀ c ∈ cs, 0 < c ∧ c < GC_SMALL_REQUESTS ∧ ¬ D i c) →
    ∃ st' F', cs.foldlM (sweep_pages NDEBUG i) st = some st' ∧
      Mid st₀ st' (fun j d => D j d ∨ (j = i ∧ d ∈ cs)) E F'
  | [], st, D, F, h, _, _, _ => by
      refine ⟨st, F, rfl, ?_⟩
      simp only [List.not_mem_nil, and_false, or_false]
      exact h
  | c :: cs, st, D, F, h, hi, hnodup, hcs => by
      obtain ⟨hc, hnodup⟩ := List.nodup_cons.mp hnodup
      obtain ⟨hpos, hlt, hD⟩ := hcs c List.mem_cons_self
      obtain ⟨st₁, freelist, fl, heq, hs⟩ := @Mid.class_swept st₀ st F F₀ D E i c NDEBUG hmarked h
        hi hpos hlt hD
      have hlt' : i < st₁.num_descriptors := by
        rw [hs.threads.num_descriptors]
        exact hi
      obtain ⟨st₂, F', heq', hmid⟩ := Mid.classes hmarked (h.add_class hmarked hi hlt hD hs) hlt'
        hnodup fun d hd => by
          obtain ⟨hpos, hlt, hD⟩ := hcs d (List.mem_cons_of_mem _ hd)
          refine ⟨hpos, hlt, fun hor => ?_⟩
          rcases hor with hor | hor
          · exact hD hor
          · exact hc (hor.2 ▸ hd)
      refine ⟨st₂, F', ?_, ?_⟩
      · rw [List.foldlM_cons, heq]
        exact heq'
      · have hiff : (fun j d => (D j d ∨ j = i ∧ d = c) ∨ j = i ∧ d ∈ cs)
            = fun j d => D j d ∨ (j = i ∧ d ∈ c :: cs) := by
          funext j d
          rw [List.mem_cons, and_or_left, or_assoc]
        rw [← hiff]
        exact hmid

/-- The descriptors `A` were swept. -/
abbrev Upto (st₀ st : State) (A : ℕ → Prop) (F : ℕ → ℕ → List ℕ) : Prop :=
  Mid st₀ st (fun j d => A j ∧ 0 < d ∧ d < GC_SMALL_REQUESTS) A F

theorem Upto.descriptor {A : ℕ → Prop} (hmarked : Marked st₀ F₀) (h : Upto st₀ st A F)
    (hi : i < st.num_descriptors) (hA : ¬ A i) :
    ∃ st' F', free_unused_local_pages NDEBUG st i = some st' ∧
      Upto st₀ st' (fun j => A j ∨ j = i) F' := by
  obtain ⟨st₁, F', heq, hmid⟩ := @Mid.classes st₀ F₀ A i NDEBUG hmarked
    (List.range' 1 (GC_SMALL_REQUESTS - 1)) st _ F h hi List.nodup_range' fun c hc => by
      rw [List.mem_range'_1] at hc
      unfold GC_SMALL_REQUESTS at hc ⊢
      exact ⟨by omega, by omega, fun hD => hA hD.1⟩
  have hlt : i < st₁.num_descriptors := by
    rw [hmid.threads.num_descriptors, ← h.threads.num_descriptors]
    exact hi
  have hnonsmall : st₁.nonsmall i = st₀.nonsmall i := (hmid.nonsmall_todo i hA).1
  have hlive : ∀ b ∈ st₀.nonsmall i, st₀.live b ≠ none := by
    intro b hb
    obtain ⟨size, hlive, -⟩ := hmarked.block.nonsmall_live i b hb
    rw [hlive]
    exact nofun
  have hmalloced : ∀ b ∈ st₀.nonsmall i, b ∈ st₁.malloced.map Prod.fst := by
    intro b hb
    obtain ⟨n, hn⟩ := hmarked.pages.nonsmall_malloced i b hb
    exact List.mem_map.mpr ⟨_, hmid.nonsmall_malloced i b (hnonsmall ▸ hb) n hn, rfl⟩
  obtain ⟨st₂, heq', hs⟩ := @sweep_nonsmall_spec st₀ st₁ i (st₀.nonsmall i)
    (hmarked.pages.nonsmall_nodup i) (hmid.nonsmall_todo i hA).2
    (fun b hb => hmarked.consistent b (Or.inl (hlive b hb))) hmalloced
  refine ⟨st₂, F', ?_, ?_⟩
  · unfold free_unused_local_pages
    rw [heq]
    exact (congrArg (fun l => l.foldlM (sweep_nonsmall i) st₁) hnonsmall).trans heq'
  · have hiff : (fun j d => (A j ∧ 0 < d ∧ d < GC_SMALL_REQUESTS) ∨
          j = i ∧ d ∈ List.range' 1 (GC_SMALL_REQUESTS - 1))
        = fun j d => (A j ∨ j = i) ∧ 0 < d ∧ d < GC_SMALL_REQUESTS := by
      funext j d
      rw [List.mem_range'_1, or_and_right, eq_iff_iff]
      refine or_congr_right (and_congr_right fun _ => ?_)
      unfold GC_SMALL_REQUESTS
      omega
    rw [hiff] at hmid
    exact hmid.add_nonsmall hmarked hlt hA hs

/-- The loop over the threads. -/
theorem Upto.tx_head (hmarked : Marked st₀ F₀) : ∀ {l : List ℕ} {st : State} {A : ℕ → Prop}
    {F : ℕ → ℕ → List ℕ}, Upto st₀ st A F → l.Nodup →
    (∀ i ∈ l, i < st₀.num_descriptors ∧ ¬ A i) →
    ∃ st' F', l.foldlM (free_unused_local_pages NDEBUG) st = some st' ∧
      Upto st₀ st' (fun j => A j ∨ j ∈ l) F'
  | [], st, A, F, h, _, _ => by
      refine ⟨st, F, rfl, ?_⟩
      simp only [List.not_mem_nil, or_false]
      exact h
  | i :: l, st, A, F, h, hnodup, hl => by
      obtain ⟨hil, hnodup⟩ := List.nodup_cons.mp hnodup
      obtain ⟨hlt, hA⟩ := hl i List.mem_cons_self
      obtain ⟨st₁, F₁, heq, h₁⟩ := @Upto.descriptor st₀ st F F₀ i NDEBUG A hmarked h
        (h.threads.num_descriptors ▸ hlt) hA
      obtain ⟨st₂, F₂, heq', h₂⟩ := Upto.tx_head hmarked h₁ hnodup fun j hj =>
        ⟨(hl j (List.mem_cons_of_mem _ hj)).1, fun hor => by
          rcases hor with hor | rfl
          · exact (hl j (List.mem_cons_of_mem _ hj)).2 hor
          · exact hil hj⟩
      refine ⟨st₂, F₂, ?_, ?_⟩
      · rw [List.foldlM_cons, heq]
        exact heq'
      · have hiff : (fun j => (A j ∨ j = i) ∨ j ∈ l) = fun j => A j ∨ j ∈ i :: l := by
          funext j
          rw [List.mem_cons, or_assoc]
        rw [← hiff]
        exact h₂

/-- The loop along the chain of the descriptors that no thread has. -/
theorem Upto.closed (hmarked : Marked st₀ F₀) : ∀ {l : List ℕ} {fuel index : ℕ} {st : State}
    {A : ℕ → Prop} {F : ℕ → ℕ → List ℕ}, Upto st₀ st A F →
    Path (fun i j => i < st₀.num_descriptors ∧ (st₀.descriptor i).free_list_next = some j)
      index l st₀.num_descriptors →
    l.Nodup → l.length ≤ fuel → (∀ i ∈ l, ¬ A i) →
    ∃ st' F', free_closed_thread_descriptors NDEBUG fuel index st = some st' ∧
      Upto st₀ st' (fun j => A j ∨ j ∈ l) F'
  | [], fuel, index, st, A, F, h, hchain, _, _, _ => by
      refine ⟨st, F, ?_, ?_⟩
      · unfold free_closed_thread_descriptors
        rw [Path.nil_iff.mp hchain, h.threads.num_descriptors, if_neg (Nat.lt_irrefl _)]
      · simp only [List.not_mem_nil, or_false]
        exact h
  | i :: l, 0, index, st, A, F, _, _, _, hfuel, _ => by
      rw [List.length_cons] at hfuel
      exact absurd hfuel (Nat.not_succ_le_zero _)
  | i :: l, fuel + 1, index, st, A, F, h, hchain, hnodup, hfuel, hA => by
      obtain ⟨rfl, next, ⟨hlt, hnext⟩, hchain⟩ := Path.cons_iff.mp hchain
      obtain ⟨hil, hnodup⟩ := List.nodup_cons.mp hnodup
      have hlt' : i < st.num_descriptors := h.threads.num_descriptors ▸ hlt
      obtain ⟨st₁, F₁, heq, h₁⟩ := @Upto.descriptor st₀ st F F₀ i NDEBUG A hmarked h hlt'
        (hA i List.mem_cons_self)
      obtain ⟨st₂, F₂, heq', h₂⟩ := @Upto.closed hmarked l fuel next st₁ _ F₁ h₁ hchain hnodup
        (Nat.le_of_succ_le_succ hfuel) fun j hj hor => by
          rcases hor with hor | rfl
          · exact hA j (List.mem_cons_of_mem _ hj) hor
          · exact hil hj
      refine ⟨st₂, F₂, ?_, ?_⟩
      · unfold free_closed_thread_descriptors
        rw [if_pos hlt', h.threads.free_list_next i, hnext]
        dsimp only
        rw [heq]
        exact heq'
      · have hiff : (fun j => (A j ∨ j = i) ∨ j ∈ l) = fun j => A j ∨ j ∈ i :: l := by
          funext j
          rw [List.mem_cons, or_assoc]
        rw [← hiff]
        exact h₂

end Stmgc.C4.GcPage
