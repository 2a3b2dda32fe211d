/-
The heap of `largemalloc.c`.

The arena is a list of chunks in the order of their addresses, [`Seg`]: every
chunk begins where the one before ends, and the word `prev_size` of a chunk says
what the one before and the chunk itself are. The free chunks of it are the
chunks of the bins, [`Bins`].
-/
import Stmgc.C7.LargemallocSort

open Stmgc.Lib

namespace Stmgc.C7.Largemalloc

/-! ## All bins -/

/-- The memory holds the bins, and `F` are the chunks in them. -/
structure Bins (m : mem_t) (bins : ℕ → bin_t) (F : List ℕ) : Prop where
  bin : ∀ i < N_BINS, BinAt m (largebins i) (bins i)
  index : ∀ i < N_BINS, ∀ p ∈ (bins i).chunks, largebin_index (m (p + 8)) = i
  perm : ((List.range N_BINS).flatMap fun i => (bins i).chunks).Perm F

/-- The words of the lists of all bins. -/
def LinkWord (F : List ℕ) (w : ℕ) : Prop :=
  w < largebins N_BINS ∨ ∃ q ∈ F, q + 16 ≤ w ∧ w < q + 48

section Bins

variable {m m' : mem_t} {bins : ℕ → bin_t} {F : List ℕ} {i p w : ℕ} {debug : Bool}

theorem LinkWord.mono {F' : List ℕ} (hsub : ∀ q ∈ F, q ∈ F') (h : LinkWord F w) : LinkWord F' w := by
  rcases h with h | ⟨q, hq, h⟩
  · exact Or.inl h
  · exact Or.inr ⟨q, hsub q hq, h⟩

/-- What is in one bin, and in the others. -/
theorem split_bins (bins : ℕ → bin_t) (hi : i < N_BINS) : ∃ rest,
    (∀ b, ((List.range N_BINS).flatMap fun j => (Function.update bins i b j).chunks).Perm
      (b.chunks ++ rest)) ∧
    ∀ j < N_BINS, j ≠ i → ∀ q ∈ (bins j).chunks, q ∈ rest := by
  obtain ⟨before, after, hsplit⟩ := List.append_of_mem (List.mem_range.mpr hi)
  have hnodup : (before ++ i :: after).Nodup := hsplit ▸ List.nodup_range
  obtain ⟨hnotin, -⟩ := List.nodup_cons.mp (List.nodup_middle.mp hnodup)
  refine ⟨(before ++ after).flatMap fun j => (bins j).chunks, fun b => ?_, fun j hj hne q hq => ?_⟩
  · have hother : ∀ l : List ℕ, i ∉ l → (l.flatMap fun j => (Function.update bins i b j).chunks)
        = l.flatMap fun j => (bins j).chunks := by
      intro l hl
      refine List.flatMap_congr fun j hj => ?_
      rw [Function.update_of_ne]
      rintro rfl
      exact hl hj
    rw [hsplit, List.flatMap_append, List.flatMap_cons, Function.update_self, List.flatMap_append,
      hother before fun h => hnotin (List.mem_append_left _ h),
      hother after fun h => hnotin (List.mem_append_right _ h)]
    exact List.perm_append_comm_assoc _ _ _
  · refine List.mem_flatMap.mpr ⟨j, ?_, hq⟩
    have hj' : j ∈ before ++ i :: after := hsplit ▸ List.mem_range.mpr hj
    simp only [List.mem_append, List.mem_cons] at hj' ⊢
    tauto

theorem Bins.mem (h : Bins m bins F) (hi : i < N_BINS) (hp : p ∈ (bins i).chunks) : p ∈ F :=
  h.perm.subset (List.mem_flatMap.mpr ⟨i, List.mem_range.mpr hi, hp⟩)

/-- The bin of a free chunk is the one of its size. -/
theorem Bins.mem_bin (h : Bins m bins F) (hp : p ∈ F) :
    largebin_index (m (p + 8)) < N_BINS ∧ p ∈ (bins (largebin_index (m (p + 8)))).chunks := by
  obtain ⟨i, hi, hpi⟩ := List.mem_flatMap.mp (h.perm.symm.subset hp)
  have hi' := List.mem_range.mp hi
  rw [h.index i hi' p hpi]
  exact ⟨hi', hpi⟩

theorem Bins.spaced (h : Bins m bins F) (hs : Spaced F) (hi : i < N_BINS) : Spaced (bins i).chunks := by
  obtain ⟨rest, hrest, -⟩ := split_bins bins hi
  have hperm := hrest (bins i)
  rw [Function.update_eq_self] at hperm
  exact (hs.perm (hperm.symm.trans h.perm)).sublist (List.sublist_append_left _ _)

theorem Bins.of_perm {F' : List ℕ} (h : Bins m bins F) (hp : F.Perm F') : Bins m bins F' :=
  ⟨h.bin, h.index, h.perm.trans hp⟩

theorem header_low (hi : i < N_BINS) (hw : w = largebins i ∨ w = largebins i + 8) :
    w < largebins N_BINS := by
  have hlt := largebins_lt hi
  omega

theorem Bins.congr (h : Bins m bins F) (hlow : ∀ w, w < largebins N_BINS → m' w = m w)
    (hchunks : ∀ q ∈ F, ∀ w, q + 8 ≤ w → w < q + 48 → m' w = m w) : Bins m' bins F where
  bin := by
    intro i hi
    refine (h.bin i hi).congr ⟨hlow _ (header_low hi (Or.inl rfl)), hlow _ (header_low hi (Or.inr rfl))⟩ ?_
    exact fun q hq => hchunks q (h.mem hi hq)
  index := by
    intro i hi q hq
    rw [hchunks q (h.mem hi hq) _ (by omega) (by omega)]
    exact h.index i hi q hq
  perm := h.perm

/-- **One bin is edited.** The others do not see it. -/
theorem Bins.edit {b' : bin_t} (new : List ℕ) (h : Bins m bins F) (hi : i < N_BINS)
    (hs : Spaced (new ++ F)) (hbin : BinAt m' (largebins i) b')
    (hframe : ∀ w, ¬ Own (largebins i) ((bins i).chunks ++ new) w → m' w = m w)
    (hsub : ∀ q ∈ b'.chunks, q ∈ (bins i).chunks ++ new)
    (hindex : ∀ q ∈ new, largebin_index (m (q + 8)) = i) :
    (∃ rest, F.Perm ((bins i).chunks ++ rest) ∧
      ∀ F', (b'.chunks ++ rest).Perm F' → Bins m' (Function.update bins i b') F') ∧
    ∀ w, ¬ LinkWord (new ++ F) w → m' w = m w := by
  obtain ⟨rest, hrest, hothers⟩ := split_bins bins hi
  have hperm : F.Perm ((bins i).chunks ++ rest) := by
    have hall := hrest (bins i)
    rw [Function.update_eq_self] at hall
    exact h.perm.symm.trans hall
  have hperm' : (((bins i).chunks ++ new) ++ rest).Perm (new ++ F) := by
    refine List.Perm.trans ?_ (hperm.symm.append_left new)
    rw [← List.append_assoc]
    exact List.perm_append_comm.append_right rest
  have hs' := hs.perm hperm'
  have hmem : ∀ q ∈ (bins i).chunks ++ new, q ∈ new ++ F := fun q hq =>
    hperm'.subset (List.mem_append_left rest hq)
  have hsize : ∀ q ∈ new ++ F, m' (q + 8) = m (q + 8) := by
    intro q hq
    refine hframe _ ?_
    rintro (h1 | h1 | ⟨r, hr, h16, h48⟩)
    · have hlt := hs.header_lt hi hq
      omega
    · have hlt := hs.header_lt hi hq
      omega
    · have hinj := (hs.word_inj hq (hmem r hr) (a := 8) (b := q + 8 - r) (by omega) (by omega) (by omega)).2
      omega
  refine ⟨⟨rest, hperm, fun F' hF' => ⟨fun j hj => ?_, fun j hj q hq => ?_, (hrest b').trans hF'⟩⟩, ?_⟩
  · by_cases hji : j = i
    · rw [hji, Function.update_self]
      exact hbin
    · rw [Function.update_of_ne hji]
      -- no word of the other bin is one of the edited lists
      have hne : largebins j ≠ largebins i ∧ largebins j ≠ largebins i + 8 ∧
          largebins j + 8 ≠ largebins i := by
        unfold largebins
        omega
      have hlow := largebins_lt hj
      refine (h.bin j hj).congr ⟨hframe _ ?_, hframe _ ?_⟩ fun q hq w hlo hhi => hframe w ?_
      · rintro (h1 | h1 | ⟨r, hr, h16, -⟩)
        · exact hne.1 h1
        · exact hne.2.1 h1
        · have hlt := hs.header_lt hj (hmem r hr)
          omega
      · rintro (h1 | h1 | ⟨r, hr, h16, -⟩)
        · exact hne.2.2 h1
        · omega
        · have hlt := hs.header_lt hj (hmem r hr)
          omega
      · have hqrest := hothers j hj hji q hq
        have hlt := hs.header_lt hi (List.mem_append_right new (h.mem hj hq))
        rintro (h1 | h1 | ⟨r, hr, h16, h48⟩)
        · omega
        · omega
        · have hspace := (List.pairwise_append.mp hs'.1).2.2 r hr q hqrest
          omega
  · by_cases hji : j = i
    · rw [hji, Function.update_self] at hq
      rw [hsize q (hmem q (hsub q hq)), hji]
      rcases List.mem_append.mp (hsub q hq) with hq' | hq'
      · exact h.index i hi q hq'
      · exact hindex q hq'
    · rw [Function.update_of_ne hji] at hq
      rw [hsize q (List.mem_append_right new (h.mem hj hq))]
      exact h.index j hj q hq
  · intro w hw
    refine hframe w ?_
    rintro (h1 | h1 | ⟨q, hq, h1⟩)
    · exact hw (Or.inl (header_low hi (Or.inl h1)))
    · exact hw (Or.inl (header_low hi (Or.inr h1)))
    · exact hw (Or.inr ⟨q, hmem q hq, h1⟩)

theorem Bins.insert_unsorted (h : Bins m bins F) (hs : Spaced (p :: F))
    (hindex : largebin_index (m (p + 8)) < N_BINS) :
    (∃ bins', Bins (insert_unsorted m p) bins' (p :: F)) ∧
      ∀ w, ¬ LinkWord (p :: F) w → insert_unsorted m p w = m w := by
  have hs' : Spaced F := hs.sublist (List.sublist_cons_self p F)
  obtain ⟨rest, hrest, -⟩ := split_bins bins hindex
  have hperm := hrest (bins (largebin_index (m (p + 8))))
  rw [Function.update_eq_self] at hperm
  have hsp : Spaced ((bins (largebin_index (m (p + 8)))).chunks ++ [p]) := by
    have hall : Spaced (((bins (largebin_index (m (p + 8)))).chunks ++ rest) ++ [p]) := by
      refine hs.perm ?_
      exact ((hperm.symm.trans h.perm).append_right [p]).trans (List.perm_append_singleton p F)
    exact hall.sublist (List.Sublist.append_right (List.sublist_append_left _ _) _)
  obtain ⟨hbin, hown⟩ := (h.bin _ hindex).insert_unsorted hindex hsp rfl
  have hchunks : (bin_t.mk (bins (largebin_index (m (p + 8)))).sorted
      ((bins (largebin_index (m (p + 8)))).unsorted ++ [p])).chunks
        = (bins (largebin_index (m (p + 8)))).chunks ++ [p] := by
    simp [bin_t.chunks]
  obtain ⟨⟨rest', hF, hedit⟩, hframe⟩ := h.edit [p] hindex hs hbin hown
    (fun q hq => hchunks ▸ hq) (by simp)
  refine ⟨⟨_, hedit _ ?_⟩, hframe⟩
  rw [hchunks, List.append_assoc, List.singleton_append]
  exact List.perm_middle.trans (hF.symm.cons p)

theorem Bins.unlink {F' : List ℕ} (h : Bins m bins F) (hs : Spaced F) (hF : F.Perm (p :: F')) :
    (∃ bins', Bins (unlink_chunk m p) bins' F') ∧
      ∀ w, ¬ LinkWord F w → unlink_chunk m p w = m w := by
  have hp : p ∈ F := hF.symm.subset List.mem_cons_self
  obtain ⟨hi, hpi⟩ := h.mem_bin hp
  obtain ⟨b', hbin, hb', hown⟩ := (h.bin _ hi).unlink hi (h.spaced hs hi) hpi
  have hedit := h.edit [] hi hs hbin (by rwa [List.append_nil])
    (fun q hq => by
      rw [List.append_nil]
      exact hb'.symm.subset (List.mem_cons_of_mem p hq))
    (by simp)
  obtain ⟨⟨rest, hrest, hnew⟩, hframe⟩ := hedit
  refine ⟨⟨_, hnew F' ?_⟩, hframe⟩
  refine List.Perm.cons_inv (a := p) ?_
  exact ((hb'.symm.append_right rest).trans hrest.symm).trans hF

theorem Bins.sort_bin (q : qsort_t) (h : Bins m bins F) (hs : Spaced F) (hi : i < N_BINS) :
    Returns (sort_bin debug q m i) fun m' =>
      (∃ gs, Bins m' (Function.update bins i ⟨gs, []⟩) F) ∧ ∀ w, ¬ LinkWord F w → m' w = m w := by
  refine ((h.bin i hi).sort_bin q hi (h.spaced hs hi)).mono ?_
  rintro m' ⟨gs, hbin, hperm, hown⟩
  have hedit := h.edit [] hi hs hbin (by rwa [List.append_nil])
    (fun q hq => by
      rw [List.append_nil]
      exact hperm.subset hq)
    (by simp)
  obtain ⟨⟨rest, hrest, hnew⟩, hframe⟩ := hedit
  exact ⟨⟨gs, hnew F ((hperm.append_right rest).trans hrest.symm)⟩, hframe⟩

end Bins

/-! ## The chunks of the arena -/

structure chunk_t where
  addr : ℕ
  size : ℕ
  free : Bool

namespace chunk_t

/-- Where the next chunk begins. -/
def next (c : chunk_t) : ℕ := c.addr + (16 + c.size)

/-- What `prev_size` of the next chunk says of this one. -/
def tag (c : chunk_t) : ℕ := if c.free = true then c.size else BOTH_CHUNKS_USED

/-- `w` is a word of the data in the chunk. -/
def Data (c : chunk_t) (w : ℕ) : Prop := c.addr + 16 ≤ w ∧ w < c.next

end chunk_t

/-- The addresses of the free chunks. -/
def frees (cs : List chunk_t) : List ℕ := (cs.filter fun c => c.free).map chunk_t.addr

/-- The used chunks. -/
def useds (cs : List chunk_t) : List chunk_t := cs.filter fun c => !c.free

/-- The two words at the beginning of a chunk. Before it is a free chunk of the
size `prev`, or `prev` is [`BOTH_CHUNKS_USED`]. -/
structure ChunkAt (m : mem_t) (prev : ℕ) (c : chunk_t) : Prop where
  size : m (c.addr + 8) = c.size
  min : 32 ≤ c.size
  word : c.size % 8 = 0
  prev_size : m c.addr = if c.free = true then THIS_CHUNK_FREE else prev
  lone : c.free = true → prev = BOTH_CHUNKS_USED

/-- The chunks from the address `p` to the address `p'`. -/
def Seg (m : mem_t) : ℕ → ℕ → List chunk_t → ℕ → ℕ → Prop
  | prev, p, [], prev', p' => prev' = prev ∧ p' = p
  | prev, p, c :: cs, prev', p' => c.addr = p ∧ ChunkAt m prev c ∧ Seg m c.tag c.next cs prev' p'

section Seg

variable {m m' : mem_t} {cs xs ys : List chunk_t} {c d : chunk_t} {prev prev' p p' w : ℕ}

theorem frees_append : frees (xs ++ ys) = frees xs ++ frees ys := by
  simp [frees]

theorem frees_cons_free (h : c.free = true) : frees (c :: cs) = c.addr :: frees cs := by
  simp [frees, h]

theorem frees_cons_used (h : c.free = false) : frees (c :: cs) = frees cs := by
  simp [frees, h]

theorem mem_frees {q : ℕ} (h : q ∈ frees cs) : ∃ c ∈ cs, c.free = true ∧ c.addr = q := by
  obtain ⟨c, hc, rfl⟩ := List.mem_map.mp h
  obtain ⟨hmem, hfree⟩ := List.mem_filter.mp hc
  exact ⟨c, hmem, hfree, rfl⟩

theorem mem_frees_of (hc : c ∈ cs) (hfree : c.free = true) : c.addr ∈ frees cs :=
  List.mem_map_of_mem (List.mem_filter.mpr ⟨hc, hfree⟩)

theorem useds_append : useds (xs ++ ys) = useds xs ++ useds ys := List.filter_append ..

theorem useds_cons_free (h : c.free = true) : useds (c :: cs) = useds cs := by
  simp [useds, h]

theorem useds_cons_used (h : c.free = false) : useds (c :: cs) = c :: useds cs := by
  simp [useds, h]

theorem mem_useds : c ∈ useds cs ↔ c ∈ cs ∧ c.free = false := by
  simp [useds]

theorem seg_append : Seg m prev p (xs ++ ys) prev' p' ↔
    ∃ t r, Seg m prev p xs t r ∧ Seg m t r ys prev' p' := by
  induction xs generalizing prev p with
  | nil =>
      constructor
      · exact fun h => ⟨prev, p, ⟨rfl, rfl⟩, h⟩
      · rintro ⟨t, r, ⟨rfl, rfl⟩, h⟩
        exact h
  | cons c xs ih =>
      constructor
      · rintro ⟨haddr, hc, h⟩
        obtain ⟨t, r, h1, h2⟩ := ih.mp h
        exact ⟨t, r, ⟨haddr, hc, h1⟩, h2⟩
      · rintro ⟨t, r, ⟨haddr, hc, h1⟩, h2⟩
        exact ⟨haddr, hc, ih.mpr ⟨t, r, h1, h2⟩⟩

/-- A segment is seen in the first two words of its chunks. -/
theorem Seg.congr (h : Seg m prev p cs prev' p')
    (hwords : ∀ c ∈ cs, m' c.addr = m c.addr ∧ m' (c.addr + 8) = m (c.addr + 8)) :
    Seg m' prev p cs prev' p' := by
  induction cs generalizing prev p with
  | nil => exact h
  | cons c cs ih =>
      obtain ⟨haddr, hc, hrest⟩ := h
      obtain ⟨h0, h8⟩ := hwords c List.mem_cons_self
      refine ⟨haddr, ⟨?_, hc.min, hc.word, ?_, hc.lone⟩, ?_⟩
      · rw [h8]
        exact hc.size
      · rw [h0]
        exact hc.prev_size
      · exact ih hrest fun d hd => hwords d (List.mem_cons_of_mem c hd)

/-- The chunks follow each other. -/
theorem Seg.bounds (h : Seg m prev p cs prev' p') : p ≤ p' ∧
    (∀ c ∈ cs, p ≤ c.addr ∧ c.next ≤ p' ∧ 32 ≤ c.size) ∧
    cs.Pairwise fun c d => c.next ≤ d.addr := by
  induction cs generalizing prev p with
  | nil =>
      obtain ⟨rfl, rfl⟩ := h
      simp
  | cons c cs ih =>
      obtain ⟨rfl, hc, hrest⟩ := h
      obtain ⟨hle, hin, hpair⟩ := ih hrest
      have hmin := hc.min
      have hnext : c.next = c.addr + (16 + c.size) := rfl
      refine ⟨by omega, fun d hd => ?_, List.pairwise_cons.mpr ⟨fun d hd => (hin d hd).1, hpair⟩⟩
      rcases List.mem_cons.mp hd with rfl | hd
      · exact ⟨le_refl _, hle, hmin⟩
      · obtain ⟨h1, h2, h3⟩ := hin d hd
        exact ⟨by omega, h2, h3⟩

theorem Seg.chunk (h : Seg m prev p cs prev' p') (hc : c ∈ cs) : ∃ t, ChunkAt m t c := by
  obtain ⟨xs, ys, rfl⟩ := List.append_of_mem hc
  obtain ⟨t, r, -, -, hat, -⟩ := seg_append.mp h
  exact ⟨t, hat⟩

/-- Two chunks that are not the same do not overlap. -/
theorem Seg.disjoint (h : Seg m prev p cs prev' p') (hc : c ∈ cs) (hd : d ∈ cs) (hne : c ≠ d) :
    c.next ≤ d.addr ∨ d.next ≤ c.addr := by
  have hpair : cs.Pairwise fun c d => c.next ≤ d.addr ∨ d.next ≤ c.addr :=
    h.bounds.2.2.imp fun hle => Or.inl hle
  have : Std.Symm fun c d : chunk_t => c.next ≤ d.addr ∨ d.next ≤ c.addr := ⟨fun _ _ h => h.symm⟩
  exact hpair.forall hc hd hne

/-- The free chunks do not overlap. -/
theorem Seg.spaced (h : Seg m prev p cs prev' p') (hlow : largebins N_BINS ≤ p) : Spaced (frees cs) := by
  obtain ⟨-, hin, hpair⟩ := h.bounds
  constructor
  · refine List.pairwise_map.mpr (List.Pairwise.filter _ (List.Pairwise.imp_of_mem ?_ hpair))
    intro c d hc _ hle
    have hmin := (hin c hc).2.2
    have hnext : c.next = c.addr + (16 + c.size) := rfl
    omega
  · intro q hq
    obtain ⟨c, hc, -, rfl⟩ := mem_frees hq
    exact hlow.trans (hin c hc).1

/-- The first words of the chunks are no words of the lists. -/
theorem Seg.head_not_link (h : Seg m prev p cs prev' p') (hlow : largebins N_BINS ≤ p) (hc : c ∈ cs)
    (hw : w = c.addr ∨ w = c.addr + 8) : ¬ LinkWord (frees cs) w := by
  have hle := (h.bounds.2.1 c hc).1
  rintro (hlt | ⟨q, hq, h16, h48⟩)
  · omega
  · obtain ⟨d, hd, -, rfl⟩ := mem_frees hq
    have hmin := (h.bounds.2.1 d hd).2.2
    have hmin' := (h.bounds.2.1 c hc).2.2
    by_cases hcd : c = d
    · subst hcd
      omega
    · have hnext : c.next = c.addr + (16 + c.size) := rfl
      have hnext' : d.next = d.addr + (16 + d.size) := rfl
      rcases h.disjoint hc hd hcd with hdis | hdis
      · omega
      · omega

/-- The data of the used chunks neither. -/
theorem Seg.data_not_link (h : Seg m prev p cs prev' p') (hlow : largebins N_BINS ≤ p) (hc : c ∈ cs)
    (hused : c.free = false) (hw : c.Data w) : ¬ LinkWord (frees cs) w := by
  have hle := (h.bounds.2.1 c hc).1
  obtain ⟨hlo, hhi⟩ := hw
  rintro (hlt | ⟨q, hq, h16, h48⟩)
  · omega
  · obtain ⟨d, hd, hfree, rfl⟩ := mem_frees hq
    have hmin := (h.bounds.2.1 d hd).2.2
    have hnext' : d.next = d.addr + (16 + d.size) := rfl
    have hcd : c ≠ d := by
      rintro rfl
      simp [hused] at hfree
    rcases h.disjoint hc hd hcd with hdis | hdis
    · omega
    · omega

/-- The chunk before the end of a segment. -/
theorem Seg.last_cases (h : Seg m prev p cs prev' p') (hprev : prev = BOTH_CHUNKS_USED) :
    (prev' = BOTH_CHUNKS_USED ∧ ∀ d ∈ cs.getLast?, d.free = false) ∨
      ∃ xs b, cs = xs ++ [b] ∧ b.free = true ∧ prev' = b.size ∧ p' = b.next := by
  induction cs using List.reverseRecOn with
  | nil =>
      obtain ⟨rfl, rfl⟩ := h
      exact Or.inl ⟨hprev, by simp⟩
  | append_singleton xs b _ =>
      obtain ⟨t, r, -, -, -, rfl, rfl⟩ := seg_append.mp h
      by_cases hfree : b.free = true
      · refine Or.inr ⟨xs, b, rfl, hfree, ?_, rfl⟩
        rw [chunk_t.tag, if_pos hfree]
      · refine Or.inl ⟨?_, ?_⟩
        · rw [chunk_t.tag, if_neg hfree]
        · rw [List.getLast?_append]
          simpa using hfree

/-- What comes after a free chunk of another size. -/
theorem Seg.retag {last n : ℕ} (h : Seg m prev p cs (m last) last)
    (hhead : ∀ d ∈ cs.head?, d.free = false) (hp : m' p = n)
    (hwords : ∀ d ∈ cs, m' (d.addr + 8) = m (d.addr + 8) ∧ (d.addr ≠ p → m' d.addr = m d.addr))
    (hlast : last ≠ p → m' last = m last) : Seg m' n p cs (m' last) last := by
  cases cs with
  | nil =>
      obtain ⟨-, rfl⟩ := h
      exact ⟨hp, rfl⟩
  | cons d cs =>
      have hused : d.free = false := hhead d rfl
      obtain ⟨_, hin, hpair⟩ := h.bounds
      obtain ⟨rfl, hd, hrest⟩ := h
      obtain ⟨hsize, -⟩ := hwords d List.mem_cons_self
      have hbelow : ∀ e ∈ cs, d.next ≤ e.addr := (List.pairwise_cons.mp hpair).1
      have hnext : d.next = d.addr + (16 + d.size) := rfl
      have hle := hrest.bounds.1
      refine ⟨rfl, ⟨?_, hd.min, hd.word, ?_, by simp [hused]⟩, ?_⟩
      · rw [hsize]
        exact hd.size
      · rw [hp, if_neg (by simp [hused])]
      · rw [hlast (by omega)]
        refine hrest.congr fun e he => ?_
        obtain ⟨h8, h0⟩ := hwords e (List.mem_cons_of_mem d he)
        have hlt := hbelow e he
        exact ⟨h0 (by omega), h8⟩

end Seg

/-- The representation of a heap with the chunks `cs`. -/
structure Heap (s : lm_t) (cs : List chunk_t) : Prop where
  low : largebins N_BINS ≤ s.first_chunk
  seg : Seg s.mem BOTH_CHUNKS_USED s.first_chunk cs (s.mem s.last_chunk) s.last_chunk
  marker : s.mem (s.last_chunk + 8) = END_MARKER
  bins : ∃ bins, Bins s.mem bins (frees cs)

/-- The data of the used chunks is left as it is. -/
def DataKept (cs : List chunk_t) (m m' : mem_t) : Prop :=
  ∀ c ∈ useds cs, ∀ w, c.Data w → m' w = m w

/-- What is written to the data of a used chunk does not matter. -/
theorem Heap.write {s : lm_t} {cs : List chunk_t} {c : chunk_t} {m' : mem_t} (h : Heap s cs)
    (hc : c ∈ useds cs) (hm : ∀ w, ¬ c.Data w → m' w = s.mem w) : Heap { s with mem := m' } cs := by
  obtain ⟨hlow, hseg, hmarker, bins, hbins⟩ := h
  obtain ⟨hc, hused⟩ := mem_useds.mp hc
  obtain ⟨hle, hin, -⟩ := hseg.bounds
  obtain ⟨h1, h2, h3⟩ := hin c hc
  have hnext : c.next = c.addr + (16 + c.size) := rfl
  have hout : ∀ w, w < c.addr + 16 ∨ c.next ≤ w → m' w = s.mem w := by
    intro w hw
    refine hm w ?_
    unfold chunk_t.Data
    omega
  have hlast : m' s.last_chunk = s.mem s.last_chunk := hout _ (by omega)
  refine ⟨hlow, ?_, ?_, bins, ?_⟩
  · show Seg m' BOTH_CHUNKS_USED s.first_chunk cs (m' s.last_chunk) s.last_chunk
    rw [hlast]
    refine hseg.congr fun d hd => ?_
    by_cases hcd : c = d
    · subst hcd
      exact ⟨hout _ (by omega), hout _ (by omega)⟩
    · obtain ⟨-, -, hmin⟩ := hin d hd
      have hdnext : d.next = d.addr + (16 + d.size) := rfl
      rcases hseg.disjoint hc hd hcd with hdis | hdis
      · exact ⟨hout _ (by omega), hout _ (by omega)⟩
      · exact ⟨hout _ (by omega), hout _ (by omega)⟩
  · show m' (s.last_chunk + 8) = END_MARKER
    rw [hout _ (by omega)]
    exact hmarker
  · refine hbins.congr (fun w hw => hout w (by omega)) fun q hq w h8 h48 => hout w ?_
    obtain ⟨d, hd, hfree, rfl⟩ := mem_frees hq
    obtain ⟨-, -, hmin⟩ := hin d hd
    have hdnext : d.next = d.addr + (16 + d.size) := rfl
    have hcd : c ≠ d := by
      rintro rfl
      simp [hused] at hfree
    rcases hseg.disjoint hc hd hcd with hdis | hdis
    · omega
    · omega

end Stmgc.C7.Largemalloc
