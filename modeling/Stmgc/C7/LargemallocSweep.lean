/-
`_stm_largemalloc_sweep`: the used chunks are visited once each, in the order of
their addresses, although the chunks that die are merged with their neighbours
during the walk.

The next chunk to visit is computed before the present one is freed. It is a used
chunk or the end, and so no free merges it: [`SweepInv`] splits the chunks there.
-/
import Stmgc.C7.LargemallocFit

open Stmgc.Lib

namespace Stmgc.C7.Largemalloc

/-- `LARGE_MALLOC_OVERHEAD` included. -/
def allocated (cs : List chunk_t) : ℕ := ((useds cs).map fun c => c.size + LARGE_MALLOC_OVERHEAD).sum

section Allocated

variable {xs ys cs' : List chunk_t} {c : chunk_t}

theorem allocated_append : allocated (xs ++ ys) = allocated xs + allocated ys := by
  unfold allocated
  rw [useds_append, List.map_append, List.sum_append]

theorem allocated_used (h : c.free = false) :
    allocated (c :: xs) = c.size + LARGE_MALLOC_OVERHEAD + allocated xs := by
  unfold allocated
  rw [useds_cons_used h, List.map_cons, List.sum_cons]

theorem allocated_free (h : c.free = true) : allocated (c :: xs) = allocated xs := by
  unfold allocated
  rw [useds_cons_free h]

theorem Released.allocated (h : Released xs c ys cs') :
    allocated cs' = allocated xs + Largemalloc.allocated ys := by
  unfold Largemalloc.allocated
  rw [h.useds, List.map_append, List.sum_append]

end Allocated

theorem sub_allocated {w : ℕ} {x y z p q a b : BitVec w} (h : x + y = z + (p + (a + b + q))) :
    x - (a + b) + y = z + (p + q) := by
  grind

section Sweep

variable {σ : Type} {keep : σ → ℕ → σ × Bool} {s s' s₀ : lm_t} {st st₀ : σ} {c : chunk_t}
  {cs cs₀ pre post : List chunk_t} {chunk : ℕ} {debug : Bool}

/-- The calls of the predicate for some chunks in a row: its state afterwards, and
the chunks that it keeps. -/
def sweep_calls (keep : σ → ℕ → σ × Bool) : σ → List chunk_t → σ × List chunk_t
  | st, [] => (st, [])
  | st, c :: cs =>
      let (st', kept) := keep st (c.addr + 16)
      let (st'', cs') := sweep_calls keep st' cs
      (st'', if kept = true then c :: cs' else cs')

/-- The chunks from the next one to visit on. -/
def skip_free : List chunk_t → List chunk_t
  | [] => []
  | c :: cs => if c.free = true then cs else c :: cs

theorem skip_free_free (h : c.free = true) : skip_free (c :: cs) = cs := if_pos h

theorem skip_free_used (h : c.free = false) : skip_free (c :: cs) = c :: cs := by
  unfold skip_free
  simp [h]

/-- No used chunk is left out. -/
theorem skip_free_split (cs : List chunk_t) : ∃ fs, cs = fs ++ skip_free cs ∧ useds fs = [] := by
  cases cs with
  | nil => exact ⟨[], rfl, rfl⟩
  | cons c cs =>
      cases hfree : c.free with
      | true => exact ⟨[c], by rw [skip_free_free hfree]; rfl, useds_cons_free hfree⟩
      | false => exact ⟨[], by rw [skip_free_used hfree]; rfl, rfl⟩

theorem useds_skip_free : useds (skip_free cs) = useds cs := by
  obtain ⟨fs, hsplit, hfs⟩ := skip_free_split cs
  conv_rhs => rw [hsplit, useds_append, hfs]
  rfl

theorem length_skip_free_le : (skip_free cs).length ≤ cs.length := by
  obtain ⟨fs, hsplit, -⟩ := skip_free_split cs
  conv_rhs => rw [hsplit, List.length_append]
  exact Nat.le_add_left _ _

/-- What the two words read from a place between two chunks say, and where the
walk goes on. -/
theorem Seg.skip {m : mem_t} {prev p last : ℕ} (h : Seg m prev p cs (m last) last)
    (hprev : prev = BOTH_CHUNKS_USED) :
    (∀ d ∈ (skip_free cs).head?, d.free = false) ∧
      (if m p = THIS_CHUNK_FREE then next_chunk m p else p)
        = ((skip_free cs).map chunk_t.addr).headD last := by
  cases cs with
  | nil =>
      obtain ⟨h1, rfl⟩ := h
      rw [if_neg (by rw [h1, hprev]; decide)]
      exact ⟨by simp [skip_free], rfl⟩
  | cons c cs =>
      obtain ⟨rfl, hat, hrest⟩ := h
      by_cases hfree : c.free = true
      · have htag : c.tag = c.size := by rw [chunk_t.tag, if_pos hfree]
        have hmin := hat.min
        have hnext : next_chunk m c.addr = c.next := by
          unfold next_chunk CHUNK_HEADER_SIZE
          rw [hat.size]
          rfl
        rw [skip_free_free hfree, hat.prev_size, if_pos hfree, if_pos rfl, hnext]
        refine ⟨hrest.head_used (by rw [htag]; unfold BOTH_CHUNKS_USED; omega), ?_⟩
        cases cs with
        | nil => exact hrest.2.symm
        | cons d cs => exact hrest.1.symm
      · have hword : m c.addr = prev := by rw [hat.prev_size, if_neg hfree]
        rw [skip_free_used (by simpa using hfree), hword, hprev, if_neg (by decide)]
        refine ⟨?_, rfl⟩
        rintro d ⟨⟩
        simpa using hfree

/-- Between the chunks `pre` that are done and the chunks `post` that are left. -/
structure SweepInv (keep : σ → ℕ → σ × Bool) (s₀ : lm_t) (cs₀ : List chunk_t) (st₀ : σ) (s : lm_t)
    (st : σ) (chunk : ℕ) (pre post : List chunk_t) : Prop where
  heap : Heap s (pre ++ post)
  first : s.first_chunk = s₀.first_chunk
  last : s.last_chunk = s₀.last_chunk
  head : ∀ c ∈ post.head?, c.free = false
  chunk : chunk = (post.map chunk_t.addr).headD s.last_chunk
  state : (sweep_calls keep st (useds post)).1 = (sweep_calls keep st₀ (useds cs₀)).1
  kept : useds pre ++ (sweep_calls keep st (useds post)).2 = (sweep_calls keep st₀ (useds cs₀)).2
  data : DataKept (pre ++ post) s₀.mem s.mem
  total : s.total_allocated + BitVec.ofNat 64 (allocated cs₀)
    = s₀.total_allocated + BitVec.ofNat 64 (allocated (pre ++ post))

/-- What a turn reads before it calls the predicate. -/
theorem sweep_turn_eq (h : SweepInv keep s₀ cs₀ st₀ s st chunk pre (c :: post)) :
    chunk = c.addr ∧ (∀ d ∈ (skip_free post).head?, d.free = false) ∧
      sweep_turn debug keep (s, st, chunk) =
        if (keep st (c.addr + 16)).2 = true then some (.cont (s, (keep st (c.addr + 16)).1,
          ((skip_free post).map chunk_t.addr).headD s.last_chunk))
        else (_large_free debug s c.addr).bind fun s' => some (.cont (s', (keep st (c.addr + 16)).1,
          ((skip_free post).map chunk_t.addr).headD s.last_chunk)) := by
  have hchunk : chunk = c.addr := h.chunk
  have hused : c.free = false := h.head c rfl
  have hseg := h.heap.seg
  obtain ⟨t, r, hpre, haddr, hat, hpost⟩ := seg_append.mp hseg
  have hnext : c.next = c.addr + (16 + c.size) := rfl
  have hend := (hseg.bounds.2.1 c (by simp)).2.1
  have htag : c.tag = BOTH_CHUNKS_USED := by
    rw [chunk_t.tag, if_neg]
    simp [hused]
  obtain ⟨hhead, hskip⟩ := hpost.skip htag
  have hnextc : next_chunk s.mem c.addr = c.next := by
    unfold next_chunk CHUNK_HEADER_SIZE
    rw [hat.size, hnext]
  have hword : s.mem c.addr ≠ THIS_CHUNK_FREE := by
    rw [hat.prev_size, if_neg (by simp [hused])]
    rcases hpre.last_cases rfl with ⟨rfl, -⟩ | ⟨pre', b, rfl, -, rfl, -⟩
    · decide
    · obtain ⟨t', hb⟩ := hpre.chunk (by simp : b ∈ pre' ++ [b])
      have h32 := hb.min
      unfold THIS_CHUNK_FREE
      omega
  refine ⟨hchunk, hhead, ?_⟩
  subst hchunk
  have hne : c.addr ≠ s.last_chunk := by omega
  unfold sweep_turn
  dsimp only
  rw [if_neg hne, check_eq fun _ => hword]
  simp only [hnextc, hskip, Option.bind_eq_bind, Option.bind_some]
  obtain ⟨st', kept⟩ := keep st (c.addr + 16)
  cases kept with
  | true => rfl
  | false => rfl

/-- The walk goes on after a chunk, unless that dies as the last one in a build
with assertions. -/
theorem SweepInv.turn (h : SweepInv keep s₀ cs₀ st₀ s st chunk pre (c :: post))
    (hok : (keep st (c.addr + 16)).2 = true ∨ (debug = true → post ≠ [])) :
    ∃ s' chunk' pre', sweep_turn debug keep (s, st, chunk)
        = some (.cont (s', (keep st (c.addr + 16)).1, chunk')) ∧
      SweepInv keep s₀ cs₀ st₀ s' (keep st (c.addr + 16)).1 chunk' pre' (skip_free post) := by
  obtain ⟨-, hhead, hturn⟩ := @sweep_turn_eq _ _ _ _ _ _ _ _ _ _ _ debug h
  have hused : c.free = false := h.head c rfl
  have hstate := h.state
  have hkept := h.kept
  rw [useds_cons_used hused, sweep_calls] at hstate hkept
  rw [hturn]
  obtain ⟨fs, hsplit, hfs⟩ := skip_free_split post
  by_cases hkeep : (keep st (c.addr + 16)).2 = true
  · rw [if_pos hkeep]
    have hlist : pre ++ c :: post = (pre ++ c :: fs) ++ skip_free post := by
      conv_lhs => rw [hsplit]
      simp
    have hpre : useds (pre ++ c :: fs) = useds pre ++ [c] := by
      rw [useds_append, useds_cons_used hused, hfs]
    refine ⟨s, _, pre ++ c :: fs, rfl, ⟨hlist ▸ h.heap, h.first, h.last, hhead, rfl, ?_, ?_,
      hlist ▸ h.data, hlist ▸ h.total⟩⟩
    · rw [useds_skip_free]
      exact hstate
    · rw [useds_skip_free, hpre, ← hkept]
      simp [hkeep]
  · -- the chunk dies
    rw [if_neg hkeep]
    obtain ⟨s', hrun, cs', hrel, hheap, hfirst, hlast, htotal, hdata⟩ :=
      h.heap._large_free hused (hok.resolve_left hkeep)
    rw [hrun]
    have huseds := hrel.useds
    have hallocated := hrel.allocated
    obtain ⟨pre', g, post', rfl, hg, hpre', hpost'⟩ := hrel
    have hseg := hheap.seg
    obtain ⟨t, r, -, haddr, hat, hafter⟩ := seg_append.mp hseg
    have htag : g.tag = g.size := by rw [chunk_t.tag, if_pos hg]
    have hmin := hat.min
    have hhead' : ∀ d ∈ post'.head?, d.free = false :=
      hafter.head_used (by rw [htag]; unfold BOTH_CHUNKS_USED; omega)
    -- what is left are the chunks after the merged one
    have hskip : skip_free post = post' := by
      rcases hpost' with ⟨rfl, -⟩ | ⟨f, hf, rfl, -⟩
      · cases post with
        | nil => rfl
        | cons d post => exact skip_free_used (hhead' d rfl)
      · exact skip_free_free hf
    have hpre : useds (pre' ++ [g]) = useds pre := by
      rw [useds_append, useds_cons_free hg]
      rcases hpre' with ⟨rfl, -⟩ | ⟨b, hb, rfl, -⟩
      · exact List.append_nil _
      · rw [useds_append, useds_cons_free hb]
    have hlist : pre' ++ g :: post' = (pre' ++ [g]) ++ skip_free post := by
      rw [hskip]
      simp
    refine ⟨s', _, pre' ++ [g], rfl, ⟨hlist ▸ hheap, hfirst.trans h.first, hlast.trans h.last, hhead,
      ?_, ?_, ?_, ?_, ?_⟩⟩
    · rw [hlast]
    · rw [useds_skip_free]
      exact hstate
    · rw [useds_skip_free, hpre, ← hkept]
      simp [hkeep]
    · intro d hd w hw
      rw [← hlist, huseds, ← useds_append] at hd
      have hd' : d ∈ useds (pre ++ c :: post) := by
        rw [useds_append] at hd ⊢
        rw [useds_cons_used hused]
        simp only [List.mem_append, List.mem_cons] at hd ⊢
        tauto
      exact (hdata d hd w hw).trans (h.data d hd' w hw)
    · have hbefore := h.total
      rw [allocated_append, allocated_used hused] at hbefore
      rw [← hlist, hallocated, htotal]
      simp only [BitVec.ofNat_add] at hbefore ⊢
      exact sub_allocated hbefore

/-- The last chunk dies in a build with assertions. -/
theorem SweepInv.turn_last (h : SweepInv keep s₀ cs₀ st₀ s st chunk pre [c])
    (hkeep : (keep st (c.addr + 16)).2 = false) :
    sweep_turn true keep (s, st, chunk) = none := by
  obtain ⟨-, -, hturn⟩ := @sweep_turn_eq _ _ _ _ _ _ _ _ _ _ _ true h
  have hused : c.free = false := h.head c rfl
  obtain ⟨t, r, -, haddr, hat, hprev, hend⟩ := seg_append.mp h.heap.seg
  have htag : c.tag = BOTH_CHUNKS_USED := by
    rw [chunk_t.tag, if_neg]
    simp [hused]
  have hmarker := h.heap.marker
  have hdies : _large_free true s c.addr = none := by
    refine _large_free_last hat.size ?_ ?_
    · rw [← htag, ← hprev, hend]
      rfl
    · rw [← hmarker, hend]
      rfl
  rw [hturn, if_neg (by simp [hkeep]), hdies]
  rfl

/-- The chunk before the end is used and the predicate rejects it. -/
def LastDies (keep : σ → ℕ → σ × Bool) (st : σ) (cs : List chunk_t) : Prop :=
  ∃ front c, cs = front ++ [c] ∧ c.free = false ∧ c ∉ (sweep_calls keep st (useds cs)).2

/-- A used chunk before the end is not left out. -/
theorem skip_free_last {front : List chunk_t} (h : cs = front ++ [c]) (hused : c.free = false) :
    ∃ front', skip_free cs = front' ++ [c] := by
  subst h
  cases front with
  | nil => exact ⟨[], skip_free_used hused⟩
  | cons d front =>
      cases hfree : d.free with
      | true => exact ⟨front, skip_free_free hfree⟩
      | false => exact ⟨d :: front, skip_free_used hfree⟩

theorem lastDies_skip_free : LastDies keep st (skip_free cs) ↔ LastDies keep st cs := by
  constructor
  · rintro ⟨front, c, hsplit, hused, hrejected⟩
    obtain ⟨fs, hcs, -⟩ := skip_free_split cs
    rw [useds_skip_free] at hrejected
    refine ⟨fs ++ front, c, ?_, hused, hrejected⟩
    conv_lhs => rw [hcs, hsplit]
    rw [List.append_assoc]
  · rintro ⟨front, c, hsplit, hused, hrejected⟩
    obtain ⟨front', hsplit'⟩ := skip_free_last hsplit hused
    rw [← useds_skip_free] at hrejected
    exact ⟨front', c, hsplit', hused, hrejected⟩

/-- The first of the chunks that are left, and the others. -/
theorem lastDies_cons (hused : c.free = false) (hnotin : c ∉ post) :
    LastDies keep st (c :: post) ↔
      (keep st (c.addr + 16)).2 = false ∧ post = [] ∨ LastDies keep (keep st (c.addr + 16)).1 post := by
  have hcalls : ∀ d ∈ post, d ∈ (sweep_calls keep st (useds (c :: post))).2 ↔
      d ∈ (sweep_calls keep (keep st (c.addr + 16)).1 (useds post)).2 := by
    intro d hd
    have hne : d ≠ c := by
      rintro rfl
      exact hnotin hd
    rw [useds_cons_used hused, sweep_calls]
    dsimp only
    by_cases hkept : (keep st (c.addr + 16)).2 = true
    · rw [if_pos hkept, List.mem_cons, or_iff_right hne]
    · rw [if_neg hkept]
  constructor
  · rintro ⟨front, d, hsplit, hdused, hrejected⟩
    cases front with
    | nil =>
        obtain ⟨rfl, rfl⟩ : c = d ∧ post = [] := by simpa using hsplit
        refine Or.inl ⟨?_, rfl⟩
        rw [useds_cons_used hused, sweep_calls] at hrejected
        dsimp only at hrejected
        by_contra hkept
        rw [Bool.not_eq_false] at hkept
        rw [if_pos hkept] at hrejected
        exact hrejected List.mem_cons_self
    | cons d' front =>
        obtain ⟨rfl, rfl⟩ : c = d' ∧ post = front ++ [d] := by simpa using hsplit
        refine Or.inr ⟨front, d, rfl, hdused, ?_⟩
        rwa [← hcalls d (by simp)]
  · rintro (⟨hrejected, rfl⟩ | ⟨front, d, rfl, hdused, hrejected⟩)
    · refine ⟨[], c, rfl, hused, ?_⟩
      rw [useds_cons_used hused, sweep_calls]
      dsimp only
      rw [if_neg (by simp [hrejected])]
      simp [useds, sweep_calls]
    · refine ⟨c :: front, d, rfl, hdused, ?_⟩
      rwa [hcalls d (by simp)]

theorem SweepInv.notin (h : SweepInv keep s₀ cs₀ st₀ s st chunk pre (c :: post)) : c ∉ post := by
  intro hc
  have hpair := (List.pairwise_append.mp h.heap.seg.bounds.2.2).2.1
  have hle := (List.pairwise_cons.mp hpair).1 c hc
  have hnext : c.next = c.addr + (16 + c.size) := rfl
  omega

/-- The walk to the end. -/
theorem SweepInv.run (h : SweepInv keep s₀ cs₀ st₀ s st chunk pre post)
    (hok : debug = true → ¬ LastDies keep st post) :
    Returns (loop (sweep_turn debug keep) (s, st, chunk)) fun (s', st') =>
      ∃ pre' chunk', SweepInv keep s₀ cs₀ st₀ s' st' chunk' pre' [] := by
  refine loop.spec_turns (fun n x => ∃ pre post, SweepInv keep s₀ cs₀ st₀ x.1 x.2.1 x.2.2 pre post ∧
    (debug = true → ¬ LastDies keep x.2.1 post) ∧ post.length = n) ?_ ⟨pre, post, h, hok, rfl⟩
  rintro n ⟨s, st, chunk⟩ ⟨pre, post, hinv, hok, rfl⟩
  dsimp only at hinv hok
  cases post with
  | nil =>
      have hchunk : chunk = s.last_chunk := hinv.chunk
      refine ⟨.done (s, st), ?_, pre, chunk, hinv⟩
      unfold sweep_turn
      dsimp only
      rw [if_pos hchunk]
  | cons c post =>
      have hused : c.free = false := hinv.head c rfl
      have hiff := @lastDies_cons _ keep st c post hused hinv.notin
      have hcond : (keep st (c.addr + 16)).2 = true ∨ (debug = true → post ≠ []) := by
        cases hkept : (keep st (c.addr + 16)).2 with
        | true => exact Or.inl rfl
        | false => exact Or.inr fun hdebug hnil => hok hdebug (hiff.mpr (Or.inl ⟨hkept, hnil⟩))
      obtain ⟨s', chunk', pre', hturn, hinv'⟩ := hinv.turn hcond
      refine ⟨_, hturn, (skip_free post).length, ?_, pre', skip_free post, hinv', fun hdebug hdies => ?_, rfl⟩
      · have hle := @length_skip_free_le post
        rw [List.length_cons]
        omega
      · exact hok hdebug (hiff.mpr (Or.inr (lastDies_skip_free.mp hdies)))

/-- The walk that does not come to the end. -/
theorem SweepInv.run_fails (h : SweepInv keep s₀ cs₀ st₀ s st chunk pre post)
    (hdies : LastDies keep st post) : loop (sweep_turn true keep) (s, st, chunk) = none := by
  refine loop.fails (fun n x => ∃ pre post, SweepInv keep s₀ cs₀ st₀ x.1 x.2.1 x.2.2 pre post ∧
    LastDies keep x.2.1 post ∧ post.length = n) ?_ ⟨pre, post, h, hdies, rfl⟩
  rintro n ⟨s, st, chunk⟩ ⟨pre, post, hinv, hdies, rfl⟩
  dsimp only at hinv hdies
  cases post with
  | nil =>
      obtain ⟨front, c, hsplit, -⟩ := hdies
      simp at hsplit
  | cons c post =>
      have hused : c.free = false := hinv.head c rfl
      rcases (lastDies_cons hused hinv.notin).mp hdies with ⟨hkept, rfl⟩ | hdies
      · exact Or.inl (hinv.turn_last hkept)
      · have hne : post ≠ [] := by
          obtain ⟨front, d, rfl, -⟩ := hdies
          simp
        obtain ⟨s', chunk', pre', hturn, hinv'⟩ := hinv.turn (Or.inr fun _ => hne)
        refine Or.inr ⟨_, hturn, (skip_free post).length, ?_, pre', skip_free post, hinv',
          lastDies_skip_free.mpr hdies, rfl⟩
        have hle := @length_skip_free_le post
        rw [List.length_cons]
        omega

/-- What a sweep is to do. -/
structure Swept (keep : σ → ℕ → σ × Bool) (s : lm_t) (cs : List chunk_t) (st : σ) (s' : lm_t) (st' : σ) :
    Prop where
  first : s'.first_chunk = s.first_chunk
  last : s'.last_chunk = s.last_chunk
  calls : st' = (sweep_calls keep st (useds cs)).1
  heap : ∃ cs', Heap s' cs' ∧ useds cs' = (sweep_calls keep st (useds cs)).2 ∧
    DataKept cs' s.mem s'.mem ∧ s'.total_allocated + BitVec.ofNat 64 (allocated cs)
      = s.total_allocated + BitVec.ofNat 64 (allocated cs')

/-- The walk begins at the first used chunk. -/
theorem Heap.sweep_start (h : Heap s cs) : ∃ fs chunk,
    _stm_largemalloc_sweep debug keep s st = loop (sweep_turn debug keep) (s, st, chunk) ∧
      SweepInv keep s cs st s st chunk fs (skip_free cs) := by
  obtain ⟨fs, hsplit, hfs⟩ := skip_free_split cs
  obtain ⟨hhead, hskip⟩ := h.seg.skip rfl
  refine ⟨fs, _, ?_, ⟨hsplit ▸ h, rfl, rfl, hhead, hskip, ?_, ?_, fun c _ w _ => rfl, ?_⟩⟩
  · rfl
  · rw [useds_skip_free]
  · rw [hfs, useds_skip_free]
    rfl
  · rw [← hsplit]

/-- **`_stm_largemalloc_sweep`** frees what the predicate rejects and nothing else. -/
theorem Heap.sweep (h : Heap s cs) (hok : debug = true → ¬ LastDies keep st cs) :
    Returns (_stm_largemalloc_sweep debug keep s st) fun (s', st') => Swept keep s cs st s' st' := by
  obtain ⟨fs, chunk, hrun, hinv⟩ := @Heap.sweep_start _ keep s st cs debug h
  rw [hrun]
  refine (hinv.run fun hdebug hdies => hok hdebug (lastDies_skip_free.mp hdies)).mono ?_
  rintro ⟨s', st'⟩ ⟨pre', chunk', hend⟩
  have hstate := hend.state
  have hkept := hend.kept
  have hheap := hend.heap
  have hdata := hend.data
  have htotal := hend.total
  rw [List.append_nil] at hheap hdata htotal
  have hnil : useds [] = [] := rfl
  rw [hnil, sweep_calls] at hstate hkept
  rw [List.append_nil] at hkept
  exact ⟨hend.first, hend.last, hstate, pre', hheap, hkept, hdata, htotal⟩

/-- The assertion that fails when the chunk before the end dies. -/
theorem Heap.sweep_fails (h : Heap s cs) (hdies : LastDies keep st cs) :
    _stm_largemalloc_sweep true keep s st = none := by
  obtain ⟨fs, chunk, hrun, hinv⟩ := @Heap.sweep_start _ keep s st cs true h
  rw [hrun]
  exact hinv.run_fails (lastDies_skip_free.mpr hdies)

end Sweep

end Stmgc.C7.Largemalloc
