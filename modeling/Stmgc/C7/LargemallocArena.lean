/-
The arena of `largemalloc.c`: `_stm_largemalloc_init_arena` and
`_stm_largemalloc_resize_arena`.

An arena that grows by 32 bytes after a used chunk is not a heap any more: the old
end marker becomes a free chunk of 16 bytes, and its `u` links are written over
the new end marker.
-/
import Stmgc.C7.LargemallocSweep

open Stmgc.Lib

namespace Stmgc.C7.Largemalloc

def arena_size (s : lm_t) : ℕ := s.last_chunk + 16 - s.first_chunk

theorem and_thirty_one {x : ℕ} : x &&& 31 = x % 32 := Nat.and_two_pow_sub_one_eq_mod x 5

section Init

variable {m : mem_t} {data_start data_size : ℕ} {debug : Bool}

/-- The bins are empty at the beginning. -/
theorem init_bins : Bins ((List.range N_BINS).foldl (fun m i =>
    store (store m (largebins i + 8) (largebins i)) (largebins i) (largebins i)) m) (fun _ => ⟨[], []⟩) [] := by
  have hwords := @foldl_spec ℕ mem_t (fun m i =>
      store (store m (largebins i + 8) (largebins i)) (largebins i) (largebins i))
    (fun done m => ∀ i ∈ done, m (largebins i) = largebins i ∧ m (largebins i + 8) = largebins i)
    (List.range N_BINS) ?_ m (by simp)
  · generalize (List.range N_BINS).foldl _ m = m' at hwords ⊢
    refine ⟨fun i hi => ⟨?_, by simp, by simp, by simp, by simp⟩, by simp [bin_t.chunks], by simp [bin_t.chunks]⟩
    obtain ⟨hnext, hprev⟩ := hwords i (List.mem_range.mpr hi)
    exact ring_nil.mpr ⟨fun _ => hnext, fun _ => hprev⟩
  · intro done i m _ hinv j hj
    have hne : largebins j + 8 ≠ largebins i := by
      unfold largebins
      omega
    have hne' : largebins j ≠ largebins i + 8 := by
      unfold largebins
      omega
    rcases List.mem_append.mp hj with hj | hj
    · obtain ⟨hnext, hprev⟩ := hinv j hj
      constructor
      · by_cases hij : largebins j = largebins i
        · rw [hij, store_self]
        · rw [store_of_ne hij, store_of_ne hne', hnext]
      · by_cases hij : largebins j = largebins i
        · rw [store_of_ne hne, hij, store_self]
        · rw [store_of_ne hne, store_of_ne (by omega), hprev]
    · rw [List.mem_singleton.mp hj]
      exact ⟨store_self, by rw [store_of_ne (by omega), store_self]⟩

/-- **`_stm_largemalloc_init_arena`**: one free chunk. -/
theorem init_arena_spec {total_allocated : BitVec 64} (hlow : largebins N_BINS ≤ data_start)
    (hmin : 2 * SIZEOF_CHUNK ≤ data_size) (hsize : data_size &&& 31 = 0) :
    Returns (_stm_largemalloc_init_arena debug m total_allocated data_start data_size) fun s =>
      Heap s [⟨data_start, data_size - 32, true⟩] ∧ s.first_chunk = data_start ∧
      arena_size s = data_size ∧ s.total_allocated = total_allocated := by
  have hmin' : 96 ≤ data_size := hmin
  have hword : data_size % 32 = 0 := by rwa [and_thirty_one] at hsize
  obtain ⟨m₀, hm₀⟩ : ∃ m₀, m₀ = (List.range N_BINS).foldl (fun m i =>
    store (store m (largebins i + 8) (largebins i)) (largebins i) (largebins i)) m := ⟨_, rfl⟩
  have hbins₀ : Bins m₀ (fun _ => ⟨[], []⟩) [] := hm₀ ▸ init_bins
  obtain ⟨m₁, hm₁⟩ : ∃ m₁, m₁ = store (store (store (store m₀ data_start THIS_CHUNK_FREE)
    (data_start + 8) (data_size - 32)) (data_start + (data_size - 16)) (data_size - 32))
    (data_start + (data_size - 16) + 8) END_MARKER := ⟨_, rfl⟩
  have hread : ∀ w, w < data_start → m₁ w = m₀ w := by
    intro w hw
    rw [hm₁, store_of_ne (by omega), store_of_ne (by omega), store_of_ne (by omega), store_of_ne (by omega)]
  have h0 : m₁ data_start = THIS_CHUNK_FREE := by
    rw [hm₁, store_of_ne (by omega), store_of_ne (by omega), store_of_ne (by omega), store_self]
  have h8 : m₁ (data_start + 8) = data_size - 32 := by
    rw [hm₁, store_of_ne (by omega), store_of_ne (by omega), store_self]
  have hlast : m₁ (data_start + (data_size - 16)) = data_size - 32 := by
    rw [hm₁, store_of_ne (by omega), store_self]
  have hmarker : m₁ (data_start + (data_size - 16) + 8) = END_MARKER := by
    rw [hm₁, store_self]
  have hbins₁ : Bins m₁ (fun _ => ⟨[], []⟩) [] := hbins₀.congr (fun w hw => hread w (by omega)) (by simp)
  have hs : Spaced [data_start] := ⟨by simp, by simpa using hlow⟩
  obtain ⟨⟨bins, hbins⟩, hframe⟩ := hbins₁.insert_unsorted hs largebin_index_lt
  have hkept : ∀ w, data_start ≤ w → w < data_start + 16 ∨ data_start + 48 ≤ w →
      insert_unsorted m₁ data_start w = m₁ w := by
    intro w hw hplace
    refine hframe w ?_
    rintro (hlt | ⟨q, hq, h⟩)
    · omega
    · rw [List.mem_singleton.mp hq] at h
      omega
  have h0' := (hkept data_start (by omega) (by omega)).trans h0
  have h8' := (hkept (data_start + 8) (by omega) (by omega)).trans h8
  have hlast' := (hkept (data_start + (data_size - 16)) (by omega) (by omega)).trans hlast
  have hmarker' := (hkept (data_start + (data_size - 16) + 8) (by omega) (by omega)).trans hmarker
  have hnext : next_chunk m₁ data_start = data_start + (data_size - 16) := by
    unfold next_chunk CHUNK_HEADER_SIZE
    rw [h8]
    omega
  have hrun : _stm_largemalloc_init_arena debug m total_allocated data_start data_size = some
      { mem := insert_unsorted m₁ data_start, first_chunk := data_start,
        last_chunk := data_start + (data_size - 16), total_allocated := total_allocated } := by
    unfold _stm_largemalloc_init_arena
    rw [check_eq fun _ => hmin, check_eq fun _ => hsize]
    simp only [Option.bind_eq_bind, Option.bind_some, ← hm₀, CHUNK_HEADER_SIZE, store_self]
    have hmem : store (store (store (store m₀ data_start THIS_CHUNK_FREE) (data_start + 8)
        (data_size - 2 * 16)) (data_start + (data_size - 16)) (data_size - 2 * 16))
        (data_start + (data_size - 16) + 8) END_MARKER = m₁ := hm₁.symm
    rw [hmem, check_eq fun _ => hnext.symm]
    rfl
  refine ⟨_, hrun, ⟨hlow, ?_, ?_, bins, ?_⟩, rfl, ?_, rfl⟩
  · refine ⟨rfl, ⟨h8', ?_, ?_, h0', fun _ => rfl⟩, hlast', ?_⟩
    · show 32 ≤ data_size - 32
      omega
    · show (data_size - 32) % 8 = 0
      omega
    · show data_start + (data_size - 16) = data_start + (16 + (data_size - 32))
      omega
  · exact hmarker'
  · exact hbins
  · unfold arena_size
    dsimp only
    omega

end Init

/-! ## The new size -/

section Resize

variable {s : lm_t} {cs : List chunk_t} {new_size new_last_chunk extra : ℕ} {debug : Bool}

/-- The chunks begin at multiples of 8 from the first one on. -/
theorem Seg.aligned {m : mem_t} {prev p prev' p' : ℕ} (h : Seg m prev p cs prev' p') :
    p' % 8 = p % 8 ∧ ∀ c ∈ cs, c.addr % 8 = p % 8 := by
  induction cs generalizing prev p with
  | nil =>
      obtain ⟨-, rfl⟩ := h
      simp
  | cons c cs ih =>
      obtain ⟨rfl, hat, hrest⟩ := h
      obtain ⟨hend, hall⟩ := ih hrest
      have hword := hat.word
      have hnext : c.next = c.addr + (16 + c.size) := rfl
      refine ⟨by omega, fun d hd => ?_⟩
      rcases List.mem_cons.mp hd with rfl | hd
      · rfl
      · have h8 := hall d hd
        omega

/-- The result of a change of the size that has succeeded. -/
structure Resized (s : lm_t) (cs : List chunk_t) (new_size : ℕ) (s' : lm_t) : Prop where
  first : s'.first_chunk = s.first_chunk
  size : arena_size s' = new_size
  heap : ∃ cs', Heap s' cs' ∧ useds cs' = useds cs ∧ DataKept cs s.mem s'.mem

/-- A smaller arena: the free chunk at the end is cut. -/
theorem Heap.reduce_arena (h : Heap s cs) (hword : new_last_chunk % 8 = s.first_chunk % 8) :
    Returns (Largemalloc.reduce_arena debug s new_last_chunk) fun (s', r) =>
      r = 0 ∧ s' = s ∨ r = 1 ∧ Resized s cs (new_last_chunk + 16 - s.first_chunk) s' ∧
        s'.last_chunk = new_last_chunk ∧ s'.total_allocated = s.total_allocated := by
  obtain ⟨hlow, hseg, hmarker, bins, hbins⟩ := h
  have hcases := hseg.last_cases rfl
  have hlsize : s.mem s.last_chunk ≠ THIS_CHUNK_FREE := by
    rcases hcases with ⟨h0, -⟩ | ⟨pre, b, rfl, -, hb, -⟩
    · rw [h0]
      decide
    · obtain ⟨t, hat⟩ := hseg.chunk (by simp : b ∈ pre ++ [b])
      have hmin := hat.min
      unfold THIS_CHUNK_FREE
      omega
  unfold Largemalloc.reduce_arena
  dsimp only
  rw [check_eq fun _ => hlsize]
  simp only [Option.bind_eq_bind, Option.bind_some]
  by_cases hused : s.mem s.last_chunk = BOTH_CHUNKS_USED
  · rw [if_pos hused]
    exact returns_some (Or.inl ⟨rfl, rfl⟩)
  · rw [if_neg hused]
    obtain ⟨pre, b, rfl, hfree, hb, hbnext⟩ := hcases.resolve_left fun h => hused h.1
    obtain ⟨t, r, hpre, haddr, hat, -, -⟩ := seg_append.mp hseg
    have hmin := hat.min
    have halign := (hseg.aligned.2 b (by simp))
    have hnext : b.next = b.addr + (16 + b.size) := rfl
    obtain ⟨hle, hin, -⟩ := hseg.bounds
    obtain ⟨hle', hin', -⟩ := hpre.bounds
    have hprev : s.last_chunk - (s.mem s.last_chunk + CHUNK_HEADER_SIZE) = b.addr := by
      rw [hb, hbnext, hnext]
      unfold CHUNK_HEADER_SIZE
      omega
    simp only [hprev]
    by_cases hroom : new_last_chunk < b.addr + SIZEOF_CHUNK
    · rw [if_pos hroom]
      exact returns_some (Or.inl ⟨rfl, rfl⟩)
    · rw [if_neg hroom]
      have hroom' : b.addr + 48 ≤ new_last_chunk := by
        unfold SIZEOF_CHUNK at hroom
        omega
      have hfrees : frees (pre ++ [b]) = frees pre ++ [b.addr] := by
        rw [frees_append, frees_cons_free hfree]
        rfl
      have hs : Spaced (frees (pre ++ [b])) := hseg.spaced hlow
      have hF : (frees (pre ++ [b])).Perm (b.addr :: frees pre) := by
        rw [hfrees]
        exact List.perm_append_singleton _ _
      obtain ⟨⟨bins', hbins'⟩, hframe⟩ := hbins.unlink hs hF
      have hout : ∀ w, s.last_chunk ≤ w → unlink_chunk s.mem b.addr w = s.mem w := fun w hw =>
        hframe w (hseg.outside_not_link (by omega) (Or.inr hw))
      have hheads : ∀ d ∈ pre ++ [b], ∀ w, w = d.addr ∨ w = d.addr + 8 →
          unlink_chunk s.mem b.addr w = s.mem w := fun d hd w hw =>
        hframe w (hseg.head_not_link hlow hd hw)
      have hsize : unlink_chunk s.mem b.addr (b.addr + 8) = unlink_chunk s.mem b.addr s.last_chunk := by
        rw [hheads b (by simp) _ (Or.inr rfl), hat.size, hout _ (le_refl _), hb]
      rw [check_eq fun _ => hsize]
      simp only [Option.bind_some, store_self]
      obtain ⟨m₀, hm₀⟩ : ∃ m₀, m₀ = store (store (store (unlink_chunk s.mem b.addr) (b.addr + 8)
        (new_last_chunk - b.addr - CHUNK_HEADER_SIZE)) new_last_chunk
        (new_last_chunk - b.addr - CHUNK_HEADER_SIZE)) (new_last_chunk + 8) END_MARKER := ⟨_, rfl⟩
      rw [← hm₀]
      have hread : ∀ w, w ≠ b.addr + 8 → w < new_last_chunk → m₀ w = unlink_chunk s.mem b.addr w := by
        intro w h8 hw
        rw [hm₀, store_of_ne (by omega), store_of_ne (by omega), store_of_ne h8]
      have hread8 : m₀ (b.addr + 8) = new_last_chunk - b.addr - 16 := by
        rw [hm₀, store_of_ne (by omega), store_of_ne (by omega), store_self]
        rfl
      have hread_last : m₀ new_last_chunk = new_last_chunk - b.addr - 16 := by
        rw [hm₀, store_of_ne (by omega), store_self]
        rfl
      have hread_marker : m₀ (new_last_chunk + 8) = END_MARKER := by
        rw [hm₀, store_self]
      have hnextc : new_last_chunk = next_chunk m₀ b.addr := by
        unfold next_chunk CHUNK_HEADER_SIZE
        rw [hread8]
        omega
      rw [check_eq fun _ => hnextc]
      have hbelow : ∀ d ∈ pre, d.addr + 48 ≤ b.addr := by
        intro d hd
        obtain ⟨-, h2, h3⟩ := hin' d hd
        have hdnext : d.next = d.addr + (16 + d.size) := rfl
        omega
      have hbins₀ : Bins m₀ bins' (frees pre) := by
        refine hbins'.congr (fun w hw => hread w (by omega) (by omega)) fun q hq w h8 h48 => ?_
        obtain ⟨d, hd, -, rfl⟩ := mem_frees hq
        have h1 := hbelow d hd
        exact hread w (by omega) (by omega)
      have hs' : Spaced (b.addr :: frees pre) := hs.perm hF.symm
      obtain ⟨⟨bins₁, hbins₁⟩, hframe₁⟩ := hbins₀.insert_unsorted hs' largebin_index_lt
      have hlink : ∀ w, ¬ LinkWord (frees (pre ++ [b])) w → insert_unsorted m₀ b.addr w = m₀ w :=
        fun w hw => hframe₁ w fun h => hw (h.mono fun q hq => hF.symm.subset hq)
      have hout₁ : ∀ w, b.addr + 48 ≤ w → insert_unsorted m₀ b.addr w = m₀ w := by
        intro w hw
        refine hframe₁ w ?_
        rintro (hlt | ⟨q, hq, h⟩)
        · omega
        · rcases List.mem_cons.mp hq with rfl | hq
          · omega
          · obtain ⟨d, hd, -, rfl⟩ := mem_frees hq
            have h1 := hbelow d hd
            omega
      have hlone : t = BOTH_CHUNKS_USED := hat.lone hfree
      have hkept_head : ∀ d ∈ pre ++ [b], ∀ w, w = d.addr ∨ w = d.addr + 8 →
          insert_unsorted m₀ b.addr w = m₀ w := fun d hd w hw => hlink w (hseg.head_not_link hlow hd hw)
      refine returns_some (Or.inr ⟨rfl, ⟨rfl, rfl, pre ++ [⟨b.addr, new_last_chunk - b.addr - 16, true⟩],
        ⟨hlow, ?_, ?_, bins₁, ?_⟩, ?_, ?_⟩, rfl, rfl⟩)
      · show Seg (insert_unsorted m₀ b.addr) BOTH_CHUNKS_USED s.first_chunk _
          (insert_unsorted m₀ b.addr new_last_chunk) new_last_chunk
        refine seg_append.mpr ⟨t, r, hpre.congr fun d hd => ?_, haddr, ⟨?_, ?_, ?_, ?_, fun _ => hlone⟩, ?_, ?_⟩
        · have h1 := hbelow d hd
          have hd' : d ∈ pre ++ [b] := List.mem_append_left _ hd
          rw [hkept_head d hd' _ (Or.inl rfl), hkept_head d hd' _ (Or.inr rfl), hread _ (by omega) (by omega),
            hread _ (by omega) (by omega)]
          exact ⟨hheads d hd' _ (Or.inl rfl), hheads d hd' _ (Or.inr rfl)⟩
        · exact (hkept_head b (by simp) _ (Or.inr rfl)).trans hread8
        · show 32 ≤ new_last_chunk - b.addr - 16
          omega
        · show (new_last_chunk - b.addr - 16) % 8 = 0
          omega
        · refine (hkept_head b (by simp) _ (Or.inl rfl)).trans ?_
          rw [hread _ (by omega) (by omega), hheads b (by simp) _ (Or.inl rfl), hat.prev_size, if_pos hfree]
          rfl
        · rw [hout₁ _ hroom', hread_last]
          rfl
        · show new_last_chunk = b.addr + (16 + (new_last_chunk - b.addr - 16))
          omega
      · show insert_unsorted m₀ b.addr (new_last_chunk + 8) = END_MARKER
        rw [hout₁ _ (by omega), hread_marker]
      · refine hbins₁.of_perm ?_
        rw [frees_append, frees_cons_free rfl]
        exact (List.perm_append_singleton _ _).symm
      · rw [useds_append, useds_append, useds_cons_free hfree, useds_cons_free rfl]
      · intro d hd w hw
        obtain ⟨hd, hdused⟩ := mem_useds.mp hd
        have hdpre : d ∈ pre := by
          rcases List.mem_append.mp hd with hd | hd
          · exact hd
          · rw [List.mem_singleton.mp hd, hfree] at hdused
            simp at hdused
        have hdata : d.addr + 16 ≤ w ∧ w < d.next := hw
        have h1 := (hin' d hdpre).2.1
        have hnot := hseg.data_not_link hlow hd hdused hw
        show insert_unsorted m₀ b.addr w = s.mem w
        rw [hlink w hnot, hread w (by omega) (by omega)]
        exact hframe w hnot

/-- The memory in which the old end marker has become a chunk. -/
def grown_memory (s : lm_t) (extra : ℕ) : mem_t :=
  store (store (store s.mem (s.last_chunk + 8) (extra - CHUNK_HEADER_SIZE)) (s.last_chunk + extra)
    BOTH_CHUNKS_USED) (s.last_chunk + extra + 8) END_MARKER

section Grown

variable {w : ℕ}

theorem grown_memory_size (hextra : 32 ≤ extra) :
    grown_memory s extra (s.last_chunk + 8) = extra - 16 := by
  unfold grown_memory
  rw [store_of_ne (by omega), store_of_ne (by omega), store_self]
  rfl

theorem grown_memory_last : grown_memory s extra (s.last_chunk + extra) = BOTH_CHUNKS_USED := by
  unfold grown_memory
  rw [store_of_ne (by omega), store_self]

theorem grown_memory_marker : grown_memory s extra (s.last_chunk + extra + 8) = END_MARKER := store_self

theorem grown_memory_low (hextra : 32 ≤ extra) (hw : w < s.last_chunk + 8) :
    grown_memory s extra w = s.mem w := by
  unfold grown_memory
  rw [store_of_ne (by omega), store_of_ne (by omega), store_of_ne (by omega)]

theorem grow_arena_eq (hextra : 32 ≤ extra) : grow_arena debug s (s.last_chunk + extra) extra =
    (_large_free debug { s with mem := grown_memory s extra, last_chunk := s.last_chunk + extra }
      s.last_chunk).bind fun s' => some (s', 1) := by
  have hnext : s.last_chunk + extra = next_chunk (grown_memory s extra) s.last_chunk := by
    unfold next_chunk CHUNK_HEADER_SIZE
    rw [grown_memory_size hextra]
    omega
  unfold grown_memory at hnext
  unfold grow_arena
  dsimp only
  rw [check_eq fun _ => hnext]
  rfl

end Grown

/-- A larger arena, in a build without assertions. -/
theorem Heap.grow_arena (h : Heap s cs) (hextra : 32 ≤ extra) (hword : extra % 32 = 0)
    (hlarge : s.mem s.last_chunk = BOTH_CHUNKS_USED → 32 < extra) :
    Returns (Largemalloc.grow_arena false s (s.last_chunk + extra) extra) fun (s', r) =>
      r = 1 ∧ Resized s cs (arena_size s + extra) s' ∧ s'.last_chunk = s.last_chunk + extra ∧
        s'.total_allocated = s.total_allocated - BitVec.ofNat 64 extra := by
  obtain ⟨hlow, hseg, -, bins, hbins⟩ := h
  obtain ⟨hle, hin, -⟩ := hseg.bounds
  have hlow' : ∀ w, w < s.last_chunk + 8 → grown_memory s extra w = s.mem w := fun w hw =>
    grown_memory_low hextra hw
  have hseg' : Seg (grown_memory s extra) BOTH_CHUNKS_USED s.first_chunk cs (s.mem s.last_chunk)
      s.last_chunk := by
    refine hseg.congr fun c hc => ?_
    obtain ⟨-, h2, h3⟩ := hin c hc
    have hnext : c.next = c.addr + (16 + c.size) := rfl
    exact ⟨hlow' _ (by omega), hlow' _ (by omega)⟩
  have hbins' : Bins (grown_memory s extra) bins (frees cs ++ frees []) := by
    have hnil : frees cs ++ frees [] = frees cs := List.append_nil _
    rw [hnil]
    refine hbins.congr (fun w hw => hlow' w (by omega)) fun q hq w h8 h48 => hlow' w ?_
    obtain ⟨c, hc, -, rfl⟩ := mem_frees hq
    obtain ⟨-, h2, h3⟩ := hin c hc
    have hnext : c.next = c.addr + (16 + c.size) := rfl
    omega
  have hmax : s.mem s.last_chunk = BOTH_CHUNKS_USED → 32 ≤ extra - 16 := by
    intro h0
    have hlt := hlarge h0
    omega
  have hplace : s.last_chunk + (16 + (extra - 16)) = s.last_chunk + extra := by omega
  have hmark₀ : grown_memory s extra s.last_chunk = s.mem s.last_chunk := hlow' _ (by omega)
  have hfree := @_large_free_words [] false
    { s with mem := grown_memory s extra, last_chunk := s.last_chunk + extra } bins cs
    ⟨s.last_chunk, extra - 16, false⟩ (s.mem s.last_chunk) hlow hseg' hmark₀
    (grown_memory_size hextra) (by dsimp only; omega) (by dsimp only; omega) hmax
    ⟨grown_memory_last, hplace.symm⟩ grown_memory_marker hbins' (by simp)
  obtain ⟨s', hrun, cs', hrel, hheap, hfirst, hlast, htotal, hdata⟩ := hfree
  dsimp only at hrun hfirst hlast htotal hdata
  rw [grow_arena_eq hextra, hrun]
  refine returns_some ⟨rfl, ⟨hfirst, ?_, cs', hheap, ?_, fun c hc w hw => ?_⟩, hlast, ?_⟩
  · unfold arena_size
    rw [hfirst, hlast]
    omega
  · rw [hrel.useds]
    exact List.append_nil _
  · rw [hdata c (by rwa [List.append_nil]) w hw]
    obtain ⟨hc, -⟩ := mem_useds.mp hc
    obtain ⟨-, h2, -⟩ := hin c hc
    have hw' : c.addr + 16 ≤ w ∧ w < c.next := hw
    exact hlow' w (by omega)
  · have hsum : extra - 16 + LARGE_MALLOC_OVERHEAD = extra := by
      unfold LARGE_MALLOC_OVERHEAD
      omega
    rw [htotal, hsum]

/-- The assertion that fails whenever the arena grows. -/
theorem grow_arena_debug (hextra : 32 ≤ extra) :
    Largemalloc.grow_arena true s (s.last_chunk + extra) extra = none := by
  have hplace : s.last_chunk + (16 + (extra - 16)) = s.last_chunk + extra := by omega
  have hnone := @_large_free_last { s with mem := grown_memory s extra, last_chunk := s.last_chunk + extra }
    s.last_chunk (extra - 16) (grown_memory_size hextra) (by rw [hplace]; exact grown_memory_last)
    (by rw [hplace]; exact grown_memory_marker)
  rw [grow_arena_eq hextra, hnone]
  rfl

/-- The end marker is lost when an arena grows by 32 bytes after a used chunk. -/
theorem Heap.grow_arena_lost (h : Heap s cs) (hlast : s.mem s.last_chunk = BOTH_CHUNKS_USED) :
    ∃ s', Largemalloc.grow_arena false s (s.last_chunk + 32) 32 = some (s', 1) ∧
      s'.last_chunk = s.last_chunk + 32 ∧ s'.mem (s'.last_chunk + 8) = 0 := by
  have hlow := h.low
  have hle := h.seg.bounds.1
  have hsize : grown_memory s 32 (s.last_chunk + 8) = 16 := grown_memory_size (le_refl _)
  have hfirst : grown_memory s 32 s.last_chunk = BOTH_CHUNKS_USED :=
    (grown_memory_low (le_refl _) (by omega)).trans hlast
  have hrun₁ : merge_next false (grown_memory s 32) s.last_chunk
      = some (store (grown_memory s 32) (s.last_chunk + 32) 16) := by
    have hplace : s.last_chunk + (grown_memory s 32 (s.last_chunk + 8) + CHUNK_HEADER_SIZE)
        = s.last_chunk + 32 := by
      rw [hsize]
      rfl
    unfold merge_next
    dsimp only
    rw [hplace, if_pos grown_memory_last, hsize]
    rfl
  have hrun₂ : merge_prev false (store (grown_memory s 32) (s.last_chunk + 32) 16) s.last_chunk
      = some (store (store (grown_memory s 32) (s.last_chunk + 32) 16) s.last_chunk THIS_CHUNK_FREE,
          s.last_chunk) := by
    unfold merge_prev
    rw [if_pos]
    rw [store_of_ne (by omega)]
    exact hfirst
  have hrun : Largemalloc._large_free false { s with mem := grown_memory s 32, last_chunk := s.last_chunk + 32 }
      s.last_chunk = some { s with
        mem := insert_unsorted (store (store (grown_memory s 32) (s.last_chunk + 32) 16) s.last_chunk
          THIS_CHUNK_FREE) s.last_chunk
        last_chunk := s.last_chunk + 32
        total_allocated := s.total_allocated
          - BitVec.ofNat 64 (grown_memory s 32 (s.last_chunk + 8) + LARGE_MALLOC_OVERHEAD) } := by
    unfold Largemalloc._large_free only_debug
    simp only [check, Bool.false_eq_true, if_false, Option.bind_eq_bind, Option.bind_some, hrun₁, hrun₂]
  rw [grow_arena_eq (le_refl _), hrun]
  refine ⟨_, rfl, rfl, ?_⟩
  -- the link 'u.down' of the new chunk
  show insert_unsorted _ s.last_chunk (s.last_chunk + 32 + 8) = 0
  generalize store (store (grown_memory s 32) (s.last_chunk + 32) 16) s.last_chunk THIS_CHUNK_FREE = m
  have hheader : ∀ i < N_BINS, largebins i + 8 ≠ s.last_chunk + 32 + 8 := by
    intro i hi
    have hlt := largebins_lt hi
    omega
  unfold insert_unsorted
  rw [insert_unsorted_index]
  rw [store_of_ne (hheader _ largebin_index_lt).symm]
  exact store_self

/-- What a change of the size needs to leave a heap behind. -/
def ResizeSafe (debug : Bool) (s : lm_t) (new_size : ℕ) : Prop :=
  new_size ≤ arena_size s ∨ debug = false ∧
    (s.mem s.last_chunk = BOTH_CHUNKS_USED → arena_size s + 32 < new_size)

instance : Decidable (ResizeSafe debug s new_size) := inferInstanceAs (Decidable (_ ∨ _))

/-- **`_stm_largemalloc_resize_arena`** where it is safe. -/
theorem Heap.resize_arena (h : Heap s cs) (hsize : arena_size s % 32 = 0) (hmin : 96 ≤ arena_size s)
    (hnew : new_size &&& 31 = 0) (hsafe : ResizeSafe debug s new_size) :
    Returns (_stm_largemalloc_resize_arena debug s new_size) fun (s', r) =>
      (r = 0 ∧ s' = s ∨ r = 1 ∧ Resized s cs new_size s' ∧ 96 ≤ new_size) ∧
        s'.total_allocated = s.total_allocated - BitVec.ofNat 64 (new_size - arena_size s) := by
  have hle := h.seg.bounds.1
  have halign := h.seg.aligned.1
  have hword : new_size % 32 = 0 := by rwa [and_thirty_one] at hnew
  have hasize : arena_size s = s.last_chunk + 16 - s.first_chunk := rfl
  have hzero : ∀ x : BitVec 64, new_size ≤ arena_size s → x - BitVec.ofNat 64 (new_size - arena_size s) = x := by
    intro x hle'
    rw [Nat.sub_eq_zero_of_le hle']
    simp
  unfold _stm_largemalloc_resize_arena
  by_cases htiny : new_size < 2 * SIZEOF_CHUNK
  · rw [if_pos htiny]
    have htiny' : new_size < 96 := htiny
    exact returns_some ⟨Or.inl ⟨rfl, rfl⟩, (hzero _ (by omega)).symm⟩
  · have hroom : 96 ≤ new_size := Nat.le_of_not_lt htiny
    rw [if_neg htiny, check_eq fun _ => hnew]
    simp only [Option.bind_eq_bind, Option.bind_some]
    have hplace : s.first_chunk + (new_size - CHUNK_HEADER_SIZE) + 16 - s.first_chunk = new_size := by
      unfold CHUNK_HEADER_SIZE
      omega
    rcases Nat.lt_trichotomy new_size (arena_size s) with hlt | heq | hgt
    · have hless : new_size - CHUNK_HEADER_SIZE < s.last_chunk - s.first_chunk := by
        unfold CHUNK_HEADER_SIZE
        omega
      rw [if_pos hless]
      have hmod : (s.first_chunk + (new_size - CHUNK_HEADER_SIZE)) % 8 = s.first_chunk % 8 := by
        unfold CHUNK_HEADER_SIZE
        omega
      refine (h.reduce_arena hmod).mono ?_
      rintro ⟨s', r⟩ (⟨rfl, rfl⟩ | ⟨rfl, hres, -, htotal⟩)
      · exact ⟨Or.inl ⟨rfl, rfl⟩, (hzero _ (by omega)).symm⟩
      · rw [hplace] at hres
        exact ⟨Or.inr ⟨rfl, hres, hroom⟩, by rw [htotal, hzero _ (by omega)]⟩
    · have h1 : ¬ new_size - CHUNK_HEADER_SIZE < s.last_chunk - s.first_chunk := by
        unfold CHUNK_HEADER_SIZE
        omega
      have h2 : ¬ new_size - CHUNK_HEADER_SIZE > s.last_chunk - s.first_chunk := by
        unfold CHUNK_HEADER_SIZE
        omega
      rw [if_neg h1, if_neg h2]
      exact returns_some ⟨Or.inr ⟨rfl, ⟨rfl, heq.symm, cs, h, rfl, fun _ _ _ _ => rfl⟩, hroom⟩,
        (hzero _ (by omega)).symm⟩
    · have h1 : ¬ new_size - CHUNK_HEADER_SIZE < s.last_chunk - s.first_chunk := by
        unfold CHUNK_HEADER_SIZE
        omega
      have h2 : new_size - CHUNK_HEADER_SIZE > s.last_chunk - s.first_chunk := by
        unfold CHUNK_HEADER_SIZE
        omega
      rw [if_neg h1, if_pos h2]
      obtain ⟨rfl, hlarge⟩ := hsafe.resolve_left (by omega)
      have hextra : new_size - CHUNK_HEADER_SIZE - (s.last_chunk - s.first_chunk)
          = new_size - arena_size s := by
        unfold CHUNK_HEADER_SIZE
        omega
      have hend : s.first_chunk + (new_size - CHUNK_HEADER_SIZE)
          = s.last_chunk + (new_size - arena_size s) := by
        unfold CHUNK_HEADER_SIZE
        omega
      rw [hextra, hend]
      refine (h.grow_arena (by omega) (by omega) fun h0 => by have := hlarge h0; omega).mono ?_
      rintro ⟨s', r⟩ ⟨rfl, hres, -, htotal⟩
      have hsum : arena_size s + (new_size - arena_size s) = new_size := by omega
      rw [hsum] at hres
      exact ⟨Or.inr ⟨rfl, hres, hroom⟩, htotal⟩

/-- Elsewhere it is not: an assertion fails, or the end marker is lost. -/
theorem Heap.resize_arena_not_safe (h : Heap s cs) (hsize : arena_size s % 32 = 0)
    (hmin : 96 ≤ arena_size s) (hnew : new_size &&& 31 = 0) (hbad : ¬ ResizeSafe debug s new_size) :
    _stm_largemalloc_resize_arena debug s new_size = none ∨
      ∃ s', _stm_largemalloc_resize_arena debug s new_size = some (s', 1) ∧ s'.last_chunk ≠ s.last_chunk ∧
        ∀ cs', ¬ Heap s' cs' := by
  have hle := h.seg.bounds.1
  have hword : new_size % 32 = 0 := by rwa [and_thirty_one] at hnew
  have hasize : arena_size s = s.last_chunk + 16 - s.first_chunk := rfl
  have hgt : arena_size s < new_size := by
    by_contra hle'
    exact hbad (Or.inl (by omega))
  have htiny : ¬ new_size < 2 * SIZEOF_CHUNK := by
    unfold SIZEOF_CHUNK
    omega
  have h1 : ¬ new_size - CHUNK_HEADER_SIZE < s.last_chunk - s.first_chunk := by
    unfold CHUNK_HEADER_SIZE
    omega
  have h2 : new_size - CHUNK_HEADER_SIZE > s.last_chunk - s.first_chunk := by
    unfold CHUNK_HEADER_SIZE
    omega
  have hextra : new_size - CHUNK_HEADER_SIZE - (s.last_chunk - s.first_chunk)
      = new_size - arena_size s := by
    unfold CHUNK_HEADER_SIZE
    omega
  have hend : s.first_chunk + (new_size - CHUNK_HEADER_SIZE) = s.last_chunk + (new_size - arena_size s) := by
    unfold CHUNK_HEADER_SIZE
    omega
  have hrun : _stm_largemalloc_resize_arena debug s new_size
      = Largemalloc.grow_arena debug s (s.last_chunk + (new_size - arena_size s)) (new_size - arena_size s) := by
    unfold _stm_largemalloc_resize_arena
    rw [if_neg htiny, check_eq fun _ => hnew]
    simp only [Option.bind_eq_bind, Option.bind_some]
    rw [if_neg h1, if_pos h2, hextra, hend]
  rw [hrun]
  cases debug with
  | true => exact Or.inl (grow_arena_debug (by omega))
  | false =>
      unfold ResizeSafe at hbad
      push Not at hbad
      obtain ⟨-, hbad⟩ := hbad
      obtain ⟨hlast, hsmall⟩ := hbad rfl
      have hthirty_two : new_size - arena_size s = 32 := by omega
      rw [hthirty_two]
      obtain ⟨s', hs', hlast', hlost⟩ := h.grow_arena_lost hlast
      refine Or.inr ⟨s', hs', by omega, fun cs' hheap => ?_⟩
      rw [hheap.marker] at hlost
      exact absurd hlost (by decide)

end Resize

end Stmgc.C7.Largemalloc
