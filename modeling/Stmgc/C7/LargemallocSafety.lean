/-
The heap of `largemalloc.c` in every state of every run, and what each function
does there.

Two functions have a slip. `_stm_largemalloc_resize_arena` frees the end marker
as a chunk when the arena grows: the chunk may be too small for the lists, and
nothing ever counted its size. And `_large_free` checks the size of the next
chunk, which for the end marker is `END_MARKER`.
-/
import Stmgc.C7.LargemallocRun

open Stmgc.Lib

namespace Stmgc.C7.Largemalloc

section Runs

variable {debug : Bool} {q : qsort_t} {s s' : state_t} {cs : List chunk_t} {a : action_t}
  {m : mem_t} {prev prev' p p' : ℕ}

/-- What is allocated fits between the first chunk and the last. -/
theorem Seg.allocated_le (h : Seg m prev p cs prev' p') : p + allocated cs ≤ p' := by
  induction cs generalizing prev p with
  | nil =>
      obtain ⟨-, rfl⟩ := h
      exact le_refl _
  | cons c cs ih =>
      obtain ⟨rfl, -, hrest⟩ := h
      have hle := ih hrest
      have hnext : c.next = c.addr + (16 + c.size) := rfl
      by_cases hfree : c.free = true
      · rw [allocated_free hfree]
        omega
      · rw [allocated_used (by simpa using hfree)]
        have hoverhead : LARGE_MALLOC_OVERHEAD = 16 := rfl
        omega

theorem private_pages_zero : private_pages (fun _ => 0) = 0 := by
  unfold private_pages
  simp only [private_copies_zero, Finset.sum_const_zero]

theorem Initial.inv (h : Initial debug s) :
    ∃ cs, Inv s cs ∧ Balanced s cs ∧ s.lm.last_chunk ≤ 2 ^ 63 := by
  obtain ⟨m, data_start, data_size, hlow, hhigh, hmin, hsize, hrun, hlive, hpages⟩ := h
  obtain ⟨lm, hlm, hheap, hfirst, hasize, htotal⟩ :=
    @init_arena_spec m data_start data_size debug 0 hlow hmin hsize
  obtain rfl : lm = s.lm := Option.some.inj (hlm.symm.trans hrun)
  have hword : data_size % 32 = 0 := by rwa [and_thirty_one] at hsize
  have hroom : 96 ≤ data_size := hmin
  have hlast : s.lm.last_chunk + 16 - s.lm.first_chunk = data_size := hasize
  have hle := hheap.seg.bounds.1
  refine ⟨_, ⟨hheap, ?_, hasize.symm ▸ hword, hasize.symm ▸ hroom⟩, ?_, by omega⟩
  · rw [hlive]
    exact ⟨List.Perm.refl [], by simp⟩
  · unfold Balanced
    rw [htotal, hpages, private_pages_zero, allocated_free rfl]
    rfl

/-- **The run lemma.** -/
theorem inv_of_reachable (h : Reachable (Initial debug) (step debug q) s) : ∃ cs, Inv s cs := by
  refine @ReachableIf.invariant _ _ _ _ _ (fun s => ∃ cs, Inv s cs) ?_ ?_ s h
  · intro s hs
    obtain ⟨cs, hinv, -⟩ := hs.inv
    exact ⟨cs, hinv⟩
  · rintro s a s' ⟨cs, hinv⟩ - hs
    obtain ⟨cs', hstep⟩ := hinv.step hs
    exact ⟨cs', hstep.inv⟩

theorem Balanced.toNat (h : Balanced s cs) (hinv : Inv s cs) (hlast : s.lm.last_chunk ≤ 2 ^ 63) :
    s.lm.total_allocated.toNat = allocated cs + 4096 * private_pages s.by_segment := by
  have hpages := @private_pages_le s.by_segment
  have hallocated := hinv.heap.seg.allocated_le
  have hbound : NB_PAGES * NB_SEGMENTS = 2560000 := rfl
  rw [h, BitVec.toNat_ofNat]
  exact Nat.mod_eq_of_lt (by omega)

/-- No two free chunks follow each other. -/
theorem Seg.lone (h : Seg m prev p cs prev' p') :
    cs.IsChain fun c d => ¬ (c.free = true ∧ d.free = true) := by
  induction cs generalizing prev p with
  | nil => exact List.IsChain.nil
  | cons c cs ih =>
      obtain ⟨rfl, hc, hrest⟩ := h
      refine List.isChain_cons.mpr ⟨?_, ih hrest⟩
      rintro d hd ⟨hfree, hfree'⟩
      cases cs with
      | nil => simp at hd
      | cons e cs =>
          obtain rfl : e = d := by simpa using hd
          -- the word in front of `e` would be the size of `c`
          have hlone := hrest.2.1.lone hfree'
          rw [chunk_t.tag, if_pos hfree] at hlone
          have hmin := hc.min
          have hzero : BOTH_CHUNKS_USED = 0 := rfl
          omega

theorem Heap.frees_nodup {lm : lm_t} (h : Heap lm cs) : (frees cs).Nodup := by
  have hpair := (h.seg.spaced h.low).1
  refine List.Pairwise.imp ?_ hpair
  intro p q hle
  omega

/-- The data of the live allocations is at different places. -/
theorem Inv.live_disjoint (h : Inv s cs) :
    s.live.Pairwise fun x y => x.1 + x.2 ≤ y.1 ∨ y.1 + y.2 ≤ x.1 := by
  obtain ⟨hperm, hfits⟩ := h.live
  have hnodup : ((useds cs).map fun c => c.addr + 16).Nodup := by
    refine List.pairwise_map.mpr (List.Pairwise.filter _ (List.Pairwise.imp_of_mem ?_ h.heap.seg.bounds.2.2))
    intro c d hc _ hle
    have hnext : c.next = c.addr + (16 + c.size) := rfl
    omega
  have hlive : s.live.Pairwise fun x y => x.1 ≠ y.1 :=
    List.pairwise_map.mp (hperm.nodup_iff.mpr hnodup)
  refine List.Pairwise.imp_of_mem ?_ hlive
  intro x y hx hy hne
  obtain ⟨c, hc, hcaddr, hcfit⟩ := hfits x hx
  obtain ⟨d, hd, hdaddr, hdfit⟩ := hfits y hy
  have hcd : c ≠ d := by
    rintro rfl
    exact hne (hcaddr.symm.trans hdaddr)
  have hcnext : c.next = c.addr + (16 + c.size) := rfl
  have hdnext : d.next = d.addr + (16 + d.size) := rfl
  rcases h.heap.seg.disjoint (mem_useds.mp hc).1 (mem_useds.mp hd).1 hcd with hdis | hdis
  · left
    omega
  · right
    omega

end Runs

/-! ## Two small heaps -/

section Small

variable {debug : Bool}

instance : Inhabited qsort_t where
  default :=
    { qsort := fun size chunks => chunks.mergeSort fun a b => decide (size a ≤ size b)
      perm := fun _ _ => List.mergeSort_perm _ _
      sorted := fun size chunks => by
        have h := @List.pairwise_mergeSort ℕ (fun a b => decide (size a ≤ size b))
          (fun a b c hab hbc => by
            simp only [decide_eq_true_eq] at hab hbc ⊢
            exact hab.trans hbc)
          (fun a b => by
            simp only [Bool.or_eq_true, decide_eq_true_eq]
            exact Nat.le_total _ _) chunks
        exact h.imp fun hle => by simpa using hle }

/-- An arena of 96 bytes. -/
theorem exists_initial (debug : Bool) : ∃ s, Initial debug s ∧ Inv s [⟨2000, 64, true⟩] ∧
    arena_size s.lm = 96 ∧ s.lm.total_allocated = 0 ∧ s.live = [] ∧ s.by_segment = fun _ => 0 := by
  obtain ⟨lm, hlm, hheap, -, hsize, htotal⟩ :=
    @init_arena_spec (fun _ => 0) 2000 96 debug 0 (by decide) (by decide) (by decide)
  have hasize : arena_size lm % 32 = 0 := by rw [hsize]
  refine ⟨⟨lm, [], fun _ => 0⟩, ⟨_, 2000, 96, by decide, by decide, by decide, by decide, hlm, rfl, rfl⟩,
    ⟨hheap, ⟨List.Perm.refl [], by simp⟩, hasize, hsize.ge⟩, hsize, htotal, rfl, rfl⟩

/-- After an allocation that takes all of it. -/
theorem exists_full (debug : Bool) (q : qsort_t) : ∃ s, Reachable (Initial debug) (step debug q) s ∧
    Heap s.lm [⟨2000, 64, false⟩] ∧ arena_size s.lm = 96 := by
  obtain ⟨s, hinit, hinv, hsize, -⟩ := exists_initial debug
  obtain ⟨⟨lm, data⟩, hrun, hallocated, hfirst, hlast, -⟩ :=
    @Heap._stm_large_malloc s.lm _ 64 debug q hinv.heap (by decide)
  have hs : step debug q s (.malloc 64)
      = .next { s with lm := lm, live := add_live s.live data 64 } := by
    show guarded _ _ = _
    rw [guarded_eq_next]
    refine ⟨by decide, ?_⟩
    rw [hrun]
    rfl
  refine ⟨_, (ReachableIf.start hinit).step trivial hs, ?_, ?_⟩
  · show Heap lm _
    cases hallocated with
    | null _ hnone _ _ =>
        have hlt := hnone ⟨2000, 64, true⟩ List.mem_cons_self rfl
        exact absurd hlt (by decide)
    | best pre f post split _ _ _ _ heap _ =>
        -- the chunk is the only one, and nothing is left of it
        have hlen := congrArg List.length split
        simp only [List.length_append, List.length_cons, List.length_nil] at hlen
        have hpre : pre.length = 0 := by omega
        have hpost : post.length = 0 := by omega
        obtain rfl := List.length_eq_zero_iff.mp hpre
        obtain rfl := List.length_eq_zero_iff.mp hpost
        obtain rfl : f = ⟨2000, 64, true⟩ := by simpa using split.symm
        exact heap
  · show lm.last_chunk + 16 - lm.first_chunk = 96
    rw [hfirst, hlast]
    exact hsize

end Small

/-! ## The heap -/

section Heaps

variable {debug : Bool} {q : qsort_t} {s : state_t}

/-- The memory holds a heap, and the live allocations are apart from each other
in it. -/
structure Represented (s : state_t) (cs : List chunk_t) : Prop where
  heap : Heap s.lm cs
  once : (frees cs).Nodup
  lone : cs.IsChain fun c d => ¬ (c.free = true ∧ d.free = true)
  used : (s.live.map Prod.fst).Perm ((useds cs).map fun c => c.addr + 16)
  inside : ∀ x ∈ s.live, ∃ c ∈ useds cs, c.addr + 16 = x.1 ∧ x.2 ≤ c.size ∧
    s.lm.first_chunk ≤ x.1 ∧ x.1 + c.size ≤ s.lm.last_chunk
  apart : s.live.Pairwise fun x y => x.1 + x.2 ≤ y.1 ∨ y.1 + y.2 ≤ x.1

theorem heap_represented (debug : Bool) (q : qsort_t) (s : state_t)
    (h : Reachable (Initial debug) (step debug q) s) : ∃ cs, Represented s cs := by
  obtain ⟨cs, hinv⟩ := inv_of_reachable h
  refine ⟨cs, hinv.heap, hinv.heap.frees_nodup, hinv.heap.seg.lone, hinv.live.perm, ?_, hinv.live_disjoint⟩
  intro x hx
  obtain ⟨c, hc, haddr, hfit⟩ := hinv.live.fits x hx
  obtain ⟨hlo, hhi, -⟩ := hinv.heap.seg.bounds.2.1 c (mem_useds.mp hc).1
  have hnext : c.next = c.addr + (16 + c.size) := rfl
  exact ⟨c, hc, haddr, hfit, by omega, by omega⟩

theorem heap_represented_full : ∃ s, Heap s.lm [⟨2000, 64, false⟩] ∧ ∃ cs, Represented s cs := by
  obtain ⟨s, hreach, hheap, -⟩ := exists_full true default
  exact ⟨s, hheap, heap_represented true default s hreach⟩

/-- What a request for `n` bytes has to do. -/
structure BestFit (cs : List chunk_t) (n : ℕ) (lm : lm_t) (data : ℕ) : Prop where
  null : data = 0 ↔ ∀ c ∈ cs, c.free = true → c.size < n
  kept : data = 0 → Heap lm cs
  best : data ≠ 0 → ∃ pre f post, cs = pre ++ f :: post ∧ f.free = true ∧ data = f.addr + 16 ∧ n ≤ f.size ∧
    (∀ c ∈ cs, c.free = true → n ≤ c.size → f.size ≤ c.size) ∧
    (f.size - n < SIZEOF_CHUNK → Heap lm (pre ++ ⟨f.addr, f.size, false⟩ :: post)) ∧
    (SIZEOF_CHUNK ≤ f.size - n → Heap lm (pre ++ ⟨f.addr, n, false⟩ ::
      ⟨f.addr + (CHUNK_HEADER_SIZE + n), f.size - n - CHUNK_HEADER_SIZE, true⟩ :: post))

/-- The best fit, in every state of every run. -/
theorem malloc_best_fit (debug : Bool) (q : qsort_t) (s : state_t)
    (h : Reachable (Initial debug) (step debug q) s) :
    (∃ cs, Heap s.lm cs) ∧ ∀ cs, Heap s.lm cs → ∀ request_size, request_size % 8 = 0 →
      Returns (_stm_large_malloc debug q s.lm request_size) fun (lm, data) =>
        BestFit cs (max request_size 32) lm data := by
  obtain ⟨cs, hinv⟩ := inv_of_reachable h
  refine ⟨⟨cs, hinv.heap⟩, fun cs hheap request_size hword => ?_⟩
  refine (hheap._stm_large_malloc q hword).mono ?_
  rintro ⟨lm, data⟩ ⟨hallocated, -⟩
  have hn : max request_size MIN_ALLOC_SIZE = max request_size 32 := rfl
  rw [hn] at hallocated
  generalize max request_size 32 = n at hallocated ⊢
  cases hallocated with
  | null hdata hnone heap _ =>
      exact ⟨⟨fun _ => hnone, fun _ => hdata⟩, fun _ => heap, fun hne => absurd hdata hne⟩
  | best pre f post split hfree fits smallest hdata heap _ =>
      have hne : data ≠ 0 := by omega
      refine ⟨⟨fun h0 => absurd h0 hne, fun hnone => ?_⟩, fun h0 => absurd h0 hne, fun _ => ?_⟩
      · have hlt := hnone f (by simp [split]) hfree
        omega
      · refine ⟨pre, f, post, split, hfree, hdata, fits, smallest, fun hlt => ?_, fun hge => ?_⟩
        · unfold taken rest at heap
          rw [if_pos hlt, if_pos hlt] at heap
          exact heap
        · unfold taken rest at heap
          rw [if_neg (by omega), if_neg (by omega)] at heap
          exact heap

/-- Nothing is left for another 72 bytes. -/
theorem malloc_best_fit_full : ∃ s : state_t, Heap s.lm [⟨2000, 64, false⟩] ∧
    ∃ lm, _stm_large_malloc true default s.lm 72 = some (lm, 0) := by
  obtain ⟨s, hreach, hheap, -⟩ := exists_full true default
  obtain ⟨-, hmalloc⟩ := malloc_best_fit true default s hreach
  obtain ⟨⟨lm, data⟩, hrun, hfit⟩ := hmalloc _ hheap 72 (by decide)
  have hdata : data = 0 := hfit.null.mpr (by simp)
  exact ⟨s, hheap, lm, hdata ▸ hrun⟩

end Heaps

/-! ## The size of the arena -/

section Sizes

variable {s : state_t} {cs : List chunk_t} {new_size : ℕ} {debug : Bool}

/-- What a change of the size has to do. -/
def ResizesTo (debug : Bool) (s : state_t) (cs : List chunk_t) (new_size : ℕ) : Prop :=
  Returns (_stm_largemalloc_resize_arena debug s.lm new_size) fun (lm, r) =>
    r = 0 ∧ lm = s.lm ∨ r = 1 ∧ Resized s.lm cs new_size lm

theorem not_resizesTo (h : Heap s.lm cs) (hsize : arena_size s.lm % 32 = 0) (hmin : 96 ≤ arena_size s.lm)
    (hnew : new_size &&& 31 = 0) (hbad : ¬ ResizeSafe debug s.lm new_size) :
    ¬ ResizesTo debug s cs new_size := by
  rintro ⟨⟨lm, r⟩, hrun, hcases⟩
  rcases h.resize_arena_not_safe hsize hmin hnew hbad with hnone | ⟨lm', hrun', -, hno⟩
  · rw [hnone] at hrun
    simp at hrun
  · obtain ⟨rfl, rfl⟩ := Prod.mk.inj (Option.some.inj (hrun'.symm.trans hrun))
    rcases hcases with ⟨hr, -⟩ | ⟨-, hresized⟩
    · simp at hr
    · obtain ⟨cs', hheap, -⟩ := hresized.heap
      exact hno cs' hheap

/-- The arena gets its new size exactly if it is made smaller, or if nothing
checks the end marker and the old one is large enough as a free chunk. -/
theorem resize_arena_iff (debug : Bool) (q : qsort_t) (s : state_t)
    (h : Reachable (Initial debug) (step debug q) s) :
    (∃ cs, Heap s.lm cs) ∧ ∀ cs, Heap s.lm cs → ∀ new_size, new_size &&& 31 = 0 →
      (ResizesTo debug s cs new_size ↔ ResizeSafe debug s.lm new_size) := by
  obtain ⟨cs, hinv⟩ := inv_of_reachable h
  refine ⟨⟨cs, hinv.heap⟩, fun cs hheap new_size hnew => ⟨fun hresizes => ?_, fun hsafe => ?_⟩⟩
  · by_contra hbad
    exact not_resizesTo hheap hinv.size hinv.room hnew hbad hresizes
  · refine (hheap.resize_arena hinv.size hinv.room hnew hsafe).mono ?_
    rintro ⟨lm, r⟩ ⟨⟨hr, hlm⟩ | ⟨hr, hresized, -⟩, -⟩
    · exact Or.inl ⟨hr, hlm⟩
    · exact Or.inr ⟨hr, hresized⟩

/-- Half of the size is too small for the used chunk. -/
theorem resize_arena_iff_full : ∃ s : state_t, Heap s.lm [⟨2000, 64, false⟩] ∧
    ResizesTo true s [⟨2000, 64, false⟩] 64 := by
  obtain ⟨s, hreach, hheap, hsize⟩ := exists_full true default
  obtain ⟨-, hresize⟩ := resize_arena_iff true default s hreach
  exact ⟨s, hheap, (hresize _ hheap 64 (by decide)).mpr (Or.inl (by omega))⟩

/-- 32 bytes more, behind a used chunk. -/
theorem resize_arena_breaks : ¬ ∀ q s, Reachable (Initial false) (step false q) s →
    ∀ cs, Heap s.lm cs → ∀ new_size, new_size &&& 31 = 0 → ResizesTo false s cs new_size := by
  intro hclaim
  obtain ⟨s, hreach, hheap, hsize⟩ := exists_full false default
  have hused : s.lm.mem s.lm.last_chunk = BOTH_CHUNKS_USED := by
    obtain ⟨-, -, htag, -⟩ := hheap.seg
    exact htag
  have hbad : ¬ ResizeSafe false s.lm 128 := by
    unfold ResizeSafe
    rw [hsize]
    rintro (hle | ⟨-, hlarge⟩)
    · omega
    · have hlt := hlarge hused
      omega
  exact not_resizesTo hheap (by omega) hsize.ge (by decide) hbad
    (hclaim default s hreach _ hheap 128 (by decide))

end Sizes

/-! ## The counter -/

/-- What the counter should be. -/
def Counted (s : state_t) (cs : List chunk_t) : Prop :=
  s.lm.total_allocated.toNat = allocated cs + 4096 * private_pages s.by_segment

/-- With assertions, the sweep must not free the chunk in front of the end
marker. That is all that it needs. -/
theorem sweep_iff (debug : Bool) (q : qsort_t) (s : state_t)
    (h : Reachable (Initial debug) (step debug q) s) :
    (∃ cs, Heap s.lm cs) ∧ ∀ cs, Heap s.lm cs → ∀ (σ : Type) (keep : σ → ℕ → σ × Bool) (st : σ),
      (Returns (_stm_largemalloc_sweep debug keep s.lm st) (fun (lm, st') => Swept keep s.lm cs st lm st') ↔
        ¬ (debug = true ∧ LastDies keep st cs)) := by
  obtain ⟨cs, hinv⟩ := inv_of_reachable h
  refine ⟨⟨cs, hinv.heap⟩, fun cs hheap σ keep st => ⟨?_, fun hok => ?_⟩⟩
  · rintro ⟨r, hrun, -⟩ ⟨rfl, hdies⟩
    rw [hheap.sweep_fails hdies] at hrun
    simp at hrun
  · exact hheap.sweep fun hdebug hdies => hok ⟨hdebug, hdies⟩

/-- The predicate may count its calls. -/
theorem sweep_iff_full : ∃ s : state_t, Heap s.lm [⟨2000, 64, false⟩] ∧
    Returns (_stm_largemalloc_sweep true (fun n _ => (n + 1, true)) s.lm 0) fun (lm, n) =>
      Swept (fun n _ => (n + 1, true)) s.lm [⟨2000, 64, false⟩] 0 lm n := by
  obtain ⟨s, hreach, hheap, -⟩ := exists_full true default
  obtain ⟨-, hsweep⟩ := sweep_iff true default s hreach
  refine ⟨s, hheap, (hsweep _ hheap ℕ (fun n _ => (n + 1, true)) 0).mpr ?_⟩
  rintro ⟨-, front, c, hsplit, hused, hdies⟩
  obtain ⟨rfl, rfl⟩ : front = [] ∧ c = ⟨2000, 64, false⟩ := by
    cases front with
    | nil => simpa using hsplit.symm
    | cons d front => simp at hsplit
  exact hdies (by simp [sweep_calls, useds])

/-- The only chunk dies. -/
theorem sweep_fails_last : ¬ ∀ q s, Reachable (Initial true) (step true q) s →
    ∀ cs, Heap s.lm cs → ∀ (σ : Type) (keep : σ → ℕ → σ × Bool) (st : σ),
      Returns (_stm_largemalloc_sweep true keep s.lm st) fun (lm, st') => Swept keep s.lm cs st lm st' := by
  intro hclaim
  obtain ⟨s, hreach, hheap, -⟩ := exists_full true default
  obtain ⟨r, hrun, -⟩ := hclaim default s hreach _ hheap Unit (fun _ _ => ((), false)) ()
  have hdies : LastDies (fun (_ : Unit) _ => ((), false)) () [⟨2000, 64, false⟩] :=
    ⟨[], _, rfl, rfl, by simp [sweep_calls, useds]⟩
  rw [hheap.sweep_fails hdies] at hrun
  simp at hrun

end Stmgc.C7.Largemalloc
