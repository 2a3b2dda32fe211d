/-
The bins of `largemalloc.c`.

The `d` list of a bin has the sorted chunks first, one of every size, and then
the unsorted ones. The other chunks of a size hang above it in its `u` list.
[`BinAt`] says that the memory holds such a bin. The three operations on bins,
`insert_unsorted`, `unlink_chunk` and `sort_bin`, keep it, and write to no words
but those of the lists, [`Own`].
-/
import Stmgc.C7.Largemalloc
import Stmgc.Lib.Ring

open Stmgc.Lib

namespace Stmgc.C7.Largemalloc

/-! ## Words -/

section Words

variable {m : mem_t} {a v w : ℕ} {debug : Bool}

theorem store_apply : store m a v w = if w = a then v else m w := by
  unfold store
  rw [Function.update_apply]

@[simp] theorem store_self : store m a v a = v := Function.update_self _ _ _

theorem store_of_ne (h : w ≠ a) : store m a v w = m w := Function.update_of_ne h _ _

/-- The chunks do not overlap, and lie behind the headers of the bins. -/
def Spaced (chunks : List ℕ) : Prop :=
  chunks.Pairwise (fun p q => p + 48 ≤ q ∨ q + 48 ≤ p) ∧ ∀ p ∈ chunks, largebins N_BINS ≤ p

theorem Spaced.nodup {chunks : List ℕ} (h : Spaced chunks) : chunks.Nodup :=
  h.1.imp fun hpq => by omega

theorem Spaced.perm {chunks chunks' : List ℕ} (h : Spaced chunks) (hp : chunks'.Perm chunks) :
    Spaced chunks' :=
  ⟨h.1.perm hp.symm fun hpq => hpq.symm, fun p hmem => h.2 p (hp.subset hmem)⟩

theorem Spaced.sublist {chunks chunks' : List ℕ} (h : Spaced chunks) (hs : chunks'.Sublist chunks) :
    Spaced chunks' :=
  ⟨h.1.sublist hs, fun p hmem => h.2 p (hs.subset hmem)⟩

/-- A word belongs to one chunk, and is one of its words. -/
theorem Spaced.word_inj {chunks : List ℕ} (h : Spaced chunks) {p q a b : ℕ} (hp : p ∈ chunks)
    (hq : q ∈ chunks) (ha : a < 48) (hb : b < 48) (heq : p + a = q + b) : p = q ∧ a = b := by
  by_cases hpq : p = q
  · exact ⟨hpq, by omega⟩
  · have : Std.Symm (fun p q : ℕ => p + 48 ≤ q ∨ q + 48 ≤ p) := ⟨fun _ _ h => h.symm⟩
    have hspace := h.1.forall hp hq hpq
    omega

theorem largebins_lt {i : ℕ} (hi : i < N_BINS) : largebins i + 16 ≤ largebins N_BINS := by
  unfold largebins N_BINS at *
  omega

theorem Spaced.header_lt {chunks : List ℕ} (h : Spaced chunks) {i p : ℕ} (hi : i < N_BINS)
    (hp : p ∈ chunks) : largebins i + 16 ≤ p :=
  (largebins_lt hi).trans (h.2 p hp)

end Words

/-! ## A bin -/

/-- Chunks of one size: the one in the `d` list, and those above it. -/
structure group_t where
  bottom : ℕ
  above : List ℕ

def group_t.chunks (g : group_t) : List ℕ := g.bottom :: g.above

structure bin_t where
  sorted : List group_t
  unsorted : List ℕ

namespace bin_t

def chunks (b : bin_t) : List ℕ := b.sorted.flatMap group_t.chunks ++ b.unsorted

/-- The chunks in the `d` list. -/
def level (b : bin_t) : List ℕ := b.sorted.map group_t.bottom ++ b.unsorted

theorem level_sublist (b : bin_t) : b.level.Sublist b.chunks := by
  have hsorted : ∀ gs : List group_t,
      (gs.map group_t.bottom).Sublist (gs.flatMap group_t.chunks) := by
    intro gs
    induction gs with
    | nil => exact List.Sublist.refl _
    | cons g gs ih =>
        rw [List.map_cons, List.flatMap_cons]
        exact (ih.trans (List.sublist_append_right g.above _)).cons_cons g.bottom
  exact (hsorted b.sorted).append (List.Sublist.refl _)

end bin_t

/-- The memory holds the bin with the header `e`. -/
structure BinAt (m : mem_t) (e : ℕ) (b : bin_t) : Prop where
  d : Ring m e (b.level.map (· + 16))
  u : ∀ g ∈ b.sorted, Ring m 0 (g.chunks.map (· + 32))
  unsorted : ∀ p ∈ b.unsorted, m (p + 32) = UU_UNSORTED ∧ m (p + 40) = 0
  same : ∀ g ∈ b.sorted, ∀ p ∈ g.above, m (p + 8) = m (g.bottom + 8)
  decreasing : (b.sorted.map fun g => m (g.bottom + 8)).Pairwise (· > ·)

/-- The words of the lists of a bin. -/
def Own (e : ℕ) (chunks : List ℕ) (w : ℕ) : Prop :=
  w = e ∨ w = e + 8 ∨ ∃ p ∈ chunks, p + 16 ≤ w ∧ w < p + 48

section BinAt

variable {m m' : mem_t} {e i p w : ℕ} {b : bin_t}

theorem mem_chunks_of_mem_level (h : p ∈ b.level) : p ∈ b.chunks := b.level_sublist.subset h

theorem mem_chunks_of_sorted {g : group_t} (hg : g ∈ b.sorted) (h : p ∈ g.chunks) : p ∈ b.chunks :=
  List.mem_append_left _ (List.mem_flatMap.mpr ⟨g, hg, h⟩)

theorem mem_chunks_of_unsorted (h : p ∈ b.unsorted) : p ∈ b.chunks := List.mem_append_right _ h

/-- The nodes of a `d` list do not share words. -/
theorem apart_d {chunks l : List ℕ} (hs : Spaced chunks) (hi : i < N_BINS) (hl : l.Sublist chunks) :
    (largebins i :: l.map (· + 16)).Pairwise Apart := by
  have hs' := hs.sublist hl
  refine List.pairwise_cons.mpr ⟨fun x hx => ?_, List.pairwise_map.mpr (hs'.1.imp fun hpq => ?_)⟩
  · obtain ⟨q, hq, rfl⟩ := List.mem_map.mp hx
    have hlt := hs'.header_lt hi hq
    unfold Apart
    omega
  · unfold Apart
    omega

/-- The nodes of a `u` list do not share words. -/
theorem apart_u {l : List ℕ} (hs : Spaced l) : (0 :: l.map (· + 32)).Pairwise Apart := by
  refine List.pairwise_cons.mpr ⟨fun x hx => ?_, List.pairwise_map.mpr (hs.1.imp fun hpq => ?_)⟩
  · obtain ⟨q, hq, rfl⟩ := List.mem_map.mp hx
    unfold Apart
    omega
  · unfold Apart
    omega

/-- The words of the nodes of a `d` list. -/
theorem wordOf_d {l : List ℕ} (h : WordOf (e :: l.map (· + 16)) w) :
    w = e ∨ w = e + 8 ∨ ∃ q ∈ l, w = q + 16 ∨ w = q + 24 := by
  obtain ⟨x, hx, -, hw⟩ := h
  rcases List.mem_cons.mp hx with rfl | hx
  · tauto
  · obtain ⟨q, hq, rfl⟩ := List.mem_map.mp hx
    exact Or.inr (Or.inr ⟨q, hq, hw⟩)

/-- The words of the nodes of a `u` list. -/
theorem wordOf_u {l : List ℕ} (h : WordOf (0 :: l.map (· + 32)) w) :
    ∃ q ∈ l, w = q + 32 ∨ w = q + 40 := by
  obtain ⟨x, hx, h0, hw⟩ := h
  rcases List.mem_cons.mp hx with rfl | hx
  · exact absurd rfl h0
  · obtain ⟨q, hq, rfl⟩ := List.mem_map.mp hx
    exact ⟨q, hq, hw⟩

/-- A bin is seen in its header and in the words of its chunks only. -/
theorem BinAt.congr (h : BinAt m e b) (he : m' e = m e ∧ m' (e + 8) = m (e + 8))
    (hchunks : ∀ q ∈ b.chunks, ∀ w, q + 8 ≤ w → w < q + 48 → m' w = m w) : BinAt m' e b where
  d := by
    refine h.d.congr (fun _ => he) fun x hx => ?_
    obtain ⟨q, hq, rfl⟩ := List.mem_map.mp hx
    have hq' := mem_chunks_of_mem_level hq
    exact ⟨hchunks q hq' _ (by omega) (by omega), hchunks q hq' _ (by omega) (by omega)⟩
  u := by
    intro g hg
    refine (h.u g hg).congr (fun h0 => absurd rfl h0) fun x hx => ?_
    obtain ⟨q, hq, rfl⟩ := List.mem_map.mp hx
    have hq' := mem_chunks_of_sorted hg hq
    exact ⟨hchunks q hq' _ (by omega) (by omega), hchunks q hq' _ (by omega) (by omega)⟩
  unsorted := by
    intro q hq
    have hq' := mem_chunks_of_unsorted hq
    rw [hchunks q hq' _ (by omega) (by omega), hchunks q hq' _ (by omega) (by omega)]
    exact h.unsorted q hq
  same := by
    intro g hg q hq
    rw [hsize g hg q (List.mem_cons_of_mem _ hq), hsize g hg g.bottom List.mem_cons_self]
    exact h.same g hg q hq
  decreasing := by
    have hmap := List.map_congr_left fun g hg => hsize g hg g.bottom List.mem_cons_self
    rw [hmap]
    exact h.decreasing
where
  hsize (g : group_t) (hg : g ∈ b.sorted) (q : ℕ) (hq : q ∈ g.chunks) : m' (q + 8) = m (q + 8) :=
    hchunks q (mem_chunks_of_sorted hg hq) _ (by omega) (by omega)

/-- Where the backward link of the header leads. -/
theorem BinAt.last_cases (h : BinAt m e b) (he : e ≠ 0) :
    m (e + 8) = e ∨ ∃ q ∈ b.chunks, m (e + 8) = q + 16 := by
  have hlast : m (e + 8) ∈ e :: b.level.map (· + 16) := by
    rw [(h.d.header he).2]
    exact List.getLastD_mem_cons
  rcases List.mem_cons.mp hlast with h | h
  · exact Or.inl h
  · obtain ⟨q, hq, heq⟩ := List.mem_map.mp h
    exact Or.inr ⟨q, mem_chunks_of_mem_level hq, heq.symm⟩

/-! ## `insert_unsorted` -/

/-- The bin of a size. -/
theorem insert_unsorted_index {sz : ℕ} :
    (if LAST_BIN_INDEX sz then N_BINS - 1 else largebin_index sz) = largebin_index sz := by
  by_cases h : LAST_BIN_INDEX sz
  · rw [if_pos h]
    unfold LAST_BIN_INDEX at h
    unfold largebin_index N_BINS
    split_ifs <;> omega
  · rw [if_neg h]

theorem BinAt.insert_unsorted (h : BinAt m (largebins i) b) (hi : i < N_BINS)
    (hs : Spaced (b.chunks ++ [p])) (hindex : largebin_index (m (p + 8)) = i) :
    BinAt (insert_unsorted m p) (largebins i) ⟨b.sorted, b.unsorted ++ [p]⟩ ∧
      ∀ w, ¬ Own (largebins i) (b.chunks ++ [p]) w → insert_unsorted m p w = m w := by
  have hp : p ∈ b.chunks ++ [p] := by simp
  have hchunk : ∀ q ∈ b.chunks, q ∈ b.chunks ++ [p] := fun q hq => List.mem_append_left _ hq
  have hpos : largebins i ≠ 0 := by
    unfold largebins
    omega
  have hep := hs.header_lt hi hp
  have hother : ∀ q ∈ b.chunks, p + 48 ≤ q ∨ q + 48 ≤ p := fun q hq =>
    ((List.pairwise_append.mp hs.1).2.2 q hq p (List.mem_singleton_self p)).symm
  generalize hlast : m (largebins i + 8) = last
  have hcases : last = largebins i ∨ ∃ q ∈ b.chunks, last = q + 16 := hlast ▸ h.last_cases hpos
  have hne : last ≠ largebins i + 8 ∧ last ≠ p + 16 ∧ last ≠ p + 24 ∧ last ≠ p + 32 ∧ last ≠ p + 40 := by
    rcases hcases with rfl | ⟨q, hq, rfl⟩
    · omega
    · have hspace := hother q hq
      have hlt := hs.header_lt hi (hchunk q hq)
      omega
  have hmem : Largemalloc.insert_unsorted m p = store (store (store (store (store (store m (p + 16)
      (largebins i)) (p + 24) last) last (p + 16)) (p + 32) UU_UNSORTED) (p + 40) 0) (largebins i + 8)
      (p + 16) := by
    unfold Largemalloc.insert_unsorted
    rw [insert_unsorted_index, hindex]
    simp only [store_self]
    rw [store_of_ne (by omega), hlast]
  have hread : ∀ w, Largemalloc.insert_unsorted m p w = if w = largebins i + 8 then p + 16 else
      if w = p + 40 then 0 else if w = p + 32 then UU_UNSORTED else if w = last then p + 16 else
      if w = p + 24 then last else if w = p + 16 then largebins i else m w := by
    intro w
    rw [hmem]
    simp only [store_apply]
  -- the links, the two marks, and nothing else
  have hframe : ∀ w, w ≠ largebins i + 8 → w ≠ last → w ≠ p + 16 → w ≠ p + 24 → w ≠ p + 32 →
      w ≠ p + 40 → Largemalloc.insert_unsorted m p w = m w := by
    intro w h1 h2 h3 h4 h5 h6
    rw [hread, if_neg h1, if_neg h6, if_neg h5, if_neg h2, if_neg h4, if_neg h3]
  have hbin : ∀ q ∈ b.chunks, ∀ w, q + 8 ≤ w → w < q + 48 → w ≠ last →
      Largemalloc.insert_unsorted m p w = m w := by
    intro q hq w hlo hhi hw
    have hspace := hother q hq
    have hlt := hs.header_lt hi (hchunk q hq)
    apply hframe <;> omega
  have hnlast : ∀ q ∈ b.chunks, ∀ a, a < 48 → a ≠ 16 → q + a ≠ last := by
    intro q hq a ha h16 heq
    rcases hcases with rfl | ⟨q', hq', rfl⟩
    · have hlt := hs.header_lt hi (hchunk q hq)
      omega
    · exact h16 (hs.word_inj (hchunk q hq) (hchunk q' hq') ha (by omega) heq).2
  have hsize : ∀ g ∈ b.sorted, ∀ q ∈ g.chunks, Largemalloc.insert_unsorted m p (q + 8) = m (q + 8) :=
    fun g hg q hq => by
      have hq' := mem_chunks_of_sorted hg hq
      exact hbin q hq' _ (by omega) (by omega) (hnlast q hq' 8 (by omega) (by omega))
  refine ⟨⟨?_, ?_, ?_, ?_, ?_⟩, ?_⟩
  · -- the new chunk is the last one of the 'd' list
    have hlevel : (bin_t.mk b.sorted (b.unsorted ++ [p])).level.map (· + 16)
        = b.level.map (· + 16) ++ (p + 16) :: [] := by
      simp [bin_t.level]
    have hring : Ring m (largebins i) (b.level.map (· + 16) ++ []) := by
      rw [List.append_nil]
      exact h.d
    have hgetLast : (b.level.map (· + 16)).getLastD (largebins i) = last := by
      rw [← hlast, (h.d.header hpos).2]
    have hapart := apart_d hs hi (b.level_sublist.append (List.Sublist.refl [p]))
    rw [List.map_append] at hapart
    rw [hlevel]
    refine hring.insert hapart ?_ ?_ ?_
    · rw [hgetLast]
      refine ⟨fun _ => ?_, fun _ => ?_⟩
      · rw [hread, if_neg (by omega), if_neg (by omega), if_neg (by omega), if_pos rfl]
      · rw [hread, if_neg (by omega), if_neg (by omega), if_neg (by omega), if_neg (by omega),
          if_pos (by omega)]
    · refine ⟨fun _ => ?_, fun _ => ?_⟩
      · rw [hread, if_neg (by omega), if_neg (by omega), if_neg (by omega), if_neg (by omega),
          if_neg (by omega), if_pos rfl]
        rfl
      · exact (hread _).trans (if_pos rfl)
    · intro w hw hwlast hwfirst hwp hwp'
      rw [hgetLast] at hwlast
      have hwfirst' : w ≠ largebins i + 8 := hwfirst
      rw [List.append_nil] at hw
      rcases wordOf_d hw with rfl | rfl | ⟨q, hq, hw⟩
      · apply hframe <;> omega
      · omega
      · exact hbin q (mem_chunks_of_mem_level hq) w (by omega) (by omega) hwlast
  · intro g hg
    refine (h.u g hg).congr (fun h0 => absurd rfl h0) fun x hx => ?_
    obtain ⟨q, hq, rfl⟩ := List.mem_map.mp hx
    have hq' : q ∈ b.chunks := mem_chunks_of_sorted hg hq
    refine ⟨hbin q hq' _ (by omega) (by omega) (hnlast q hq' 32 (by omega) (by omega)), ?_⟩
    exact hbin q hq' _ (by omega) (by omega) (hnlast q hq' 40 (by omega) (by omega))
  · intro q hq
    rcases List.mem_append.mp hq with hq | hq
    · have hq' := mem_chunks_of_unsorted hq
      rw [hbin q hq' _ (by omega) (by omega) (hnlast q hq' 32 (by omega) (by omega)),
        hbin q hq' _ (by omega) (by omega) (hnlast q hq' 40 (by omega) (by omega))]
      exact h.unsorted q hq
    · rw [List.mem_singleton.mp hq]
      constructor
      · rw [hread, if_neg (by omega), if_neg (by omega), if_pos rfl]
      · rw [hread, if_neg (by omega), if_pos rfl]
  · intro g hg q hq
    rw [hsize g hg q (List.mem_cons_of_mem _ hq), hsize g hg g.bottom List.mem_cons_self]
    exact h.same g hg q hq
  · have hmap := List.map_congr_left fun g hg => hsize g hg g.bottom List.mem_cons_self
    rw [hmap]
    exact h.decreasing
  · intro w hw
    unfold Own at hw
    have hwp : ¬ (p + 16 ≤ w ∧ w < p + 48) := fun hin => hw (Or.inr (Or.inr ⟨p, hp, hin⟩))
    have hwlast : w ≠ last := by
      rintro rfl
      rcases hcases with rfl | ⟨q, hq, rfl⟩
      · exact hw (Or.inl rfl)
      · exact hw (Or.inr (Or.inr ⟨q, hchunk q hq, by omega, by omega⟩))
    have hwe : w ≠ largebins i + 8 := fun heq => hw (Or.inr (Or.inl heq))
    apply hframe <;> omega

/-! ## `unlink_chunk` -/

/-- The groups `mid` of a bin are replaced by `mid'`. -/
theorem BinAt.edit (gs₁ mid mid' gs₂ : List group_t) (us us' : List ℕ)
    (h : BinAt m e ⟨gs₁ ++ mid ++ gs₂, us⟩)
    (hd : Ring m' e ((bin_t.mk (gs₁ ++ mid' ++ gs₂) us').level.map (· + 16)))
    (hwords : ∀ g ∈ gs₁ ++ gs₂, ∀ q ∈ g.chunks,
      m' (q + 8) = m (q + 8) ∧ m' (q + 32) = m (q + 32) ∧ m' (q + 40) = m (q + 40))
    (hunsorted : ∀ q ∈ us', m' (q + 32) = UU_UNSORTED ∧ m' (q + 40) = 0)
    (hmid : ∀ g ∈ mid', Ring m' 0 (g.chunks.map (· + 32)) ∧
      ∀ q ∈ g.above, m' (q + 8) = m' (g.bottom + 8))
    (hdec : ((gs₁ ++ mid' ++ gs₂).map fun g => m' (g.bottom + 8)).Pairwise (· > ·)) :
    BinAt m' e ⟨gs₁ ++ mid' ++ gs₂, us'⟩ := by
  have hold : ∀ g ∈ gs₁ ++ gs₂, g ∈ gs₁ ++ mid ++ gs₂ := by
    intro g hg
    simp only [List.mem_append] at hg ⊢
    tauto
  have hsplit : ∀ g ∈ gs₁ ++ mid' ++ gs₂, g ∈ gs₁ ++ gs₂ ∨ g ∈ mid' := by
    intro g hg
    simp only [List.mem_append] at hg ⊢
    tauto
  refine ⟨hd, fun g hg => ?_, hunsorted, fun g hg q hq => ?_, hdec⟩
  · rcases hsplit g hg with hg | hg
    · refine (h.u g (hold g hg)).congr (fun h0 => absurd rfl h0) fun x hx => ?_
      obtain ⟨q, hq, rfl⟩ := List.mem_map.mp hx
      exact (hwords g hg q hq).2
    · exact (hmid g hg).1
  · rcases hsplit g hg with hg | hg
    · rw [(hwords g hg q (List.mem_cons_of_mem _ hq)).1, (hwords g hg g.bottom List.mem_cons_self).1]
      exact h.same g (hold g hg) q hq
    · exact (hmid g hg).2 q hq

/-- The neighbours of a chunk in the `d` list. -/
theorem d_words {xs ys : List ℕ} (h : Ring m e ((xs ++ p :: ys).map (· + 16))) :
    m (p + 16) = (ys.map (· + 16)).headD e ∧ m (p + 24) = (xs.map (· + 16)).getLastD e := by
  rw [List.map_append, List.map_cons] at h
  exact h.words (by omega)

theorem headD_cases {k : ℕ} {l : List ℕ} : (l.map (· + k)).headD e = e ∨
    ∃ q ∈ l, (l.map (· + k)).headD e = q + k := by
  cases l with
  | nil => exact Or.inl rfl
  | cons q l => exact Or.inr ⟨q, List.mem_cons_self, rfl⟩

theorem getLastD_cases {k : ℕ} {l : List ℕ} : (l.map (· + k)).getLastD e = e ∨
    ∃ q ∈ l, (l.map (· + k)).getLastD e = q + k := by
  have hmem : (l.map (· + k)).getLastD e ∈ e :: l.map (· + k) := List.getLastD_mem_cons
  rcases List.mem_cons.mp hmem with h | h
  · exact Or.inl h
  · obtain ⟨q, hq, heq⟩ := List.mem_map.mp h
    exact Or.inr ⟨q, hq, heq.symm⟩

/-- Unlinking from the doubly-linked list `d`. -/
theorem unlink_d {xs ys chunks : List ℕ} (h : Ring m (largebins i) ((xs ++ p :: ys).map (· + 16)))
    (hi : i < N_BINS) (hs : Spaced chunks) (hl : (xs ++ p :: ys).Sublist chunks)
    (hm' : m' = store (store m (m (p + 16) + 8) (m (p + 24))) (m (p + 24)) (m (p + 16))) :
    Ring m' (largebins i) ((xs ++ ys).map (· + 16)) ∧
      ∀ w, w ≠ largebins i → w ≠ largebins i + 8 → (∀ q ∈ xs ++ ys, w ≠ q + 16 ∧ w ≠ q + 24) →
        m' w = m w := by
  obtain ⟨hnext, hprev⟩ := d_words h
  rw [hnext, hprev] at hm'
  have hsub : (xs ++ ys).Sublist chunks :=
    (List.Sublist.append_left (List.sublist_cons_self p ys) xs).trans hl
  have hapart := apart_d hs hi hsub
  have hs' := hs.sublist hsub
  have hfirst := headD_cases (e := largebins i) (k := 16) (l := ys)
  have hlast := getLastD_cases (e := largebins i) (k := 16) (l := xs)
  have hne : (xs.map (· + 16)).getLastD (largebins i) ≠ (ys.map (· + 16)).headD (largebins i) + 8 := by
    rcases hlast with hlast | ⟨q, hq, hlast⟩
    · rcases hfirst with hfirst | ⟨q', hq', hfirst⟩
      · omega
      · have hlt := hs'.header_lt hi (List.mem_append_right xs hq')
        omega
    · have hlt := hs'.header_lt hi (List.mem_append_left ys hq)
      rcases hfirst with hfirst | ⟨q', hq', hfirst⟩
      · omega
      · intro heq
        have hinj := hs'.word_inj (List.mem_append_left ys hq) (List.mem_append_right xs hq')
          (a := 16) (b := 24) (by omega) (by omega) (by omega)
        omega
  have hframe : ∀ w, w ≠ (xs.map (· + 16)).getLastD (largebins i) →
      w ≠ (ys.map (· + 16)).headD (largebins i) + 8 → m' w = m w := by
    intro w h1 h2
    rw [hm', store_of_ne h1, store_of_ne h2]
  constructor
  · rw [List.map_append] at hapart ⊢
    rw [List.map_append, List.map_cons] at h
    refine h.remove hapart ⟨fun _ => ?_, fun _ => ?_⟩ fun w _ => hframe w
    · rw [hm', store_self]
    · rw [hm', store_of_ne hne.symm, store_self]
  · intro w he he8 hw
    refine hframe w ?_ ?_
    · rcases hlast with hlast | ⟨q, hq, hlast⟩
      · rwa [hlast]
      · rw [hlast]
        exact (hw q (List.mem_append_left ys hq)).1
    · rcases hfirst with hfirst | ⟨q, hq, hfirst⟩
      · rwa [hfirst]
      · rw [hfirst]
        exact (hw q (List.mem_append_right xs hq)).2

/-- Relinking in the `d` list the chunk above. -/
theorem relink_d {xs ys chunks : List ℕ} {above : ℕ}
    (h : Ring m (largebins i) ((xs ++ p :: ys).map (· + 16))) (hi : i < N_BINS)
    (hs : Spaced chunks) (hl : (xs ++ above :: ys).Sublist chunks)
    (hm' : m' = store (store (store (store (store m (m (p + 16) + 8) (above + 16)) (m (p + 24))
      (above + 16)) (above + 16) (m (p + 16))) (above + 24) (m (p + 24))) (above + 40) 0) :
    Ring m' (largebins i) ((xs ++ above :: ys).map (· + 16)) ∧ m' (above + 40) = 0 ∧
      ∀ w, w ≠ largebins i → w ≠ largebins i + 8 → (∀ q ∈ xs ++ above :: ys, w ≠ q + 16 ∧ w ≠ q + 24) →
        w ≠ above + 40 → m' w = m w := by
  obtain ⟨hnext, hprev⟩ := d_words h
  rw [hnext, hprev] at hm'
  have hapart := apart_d hs hi hl
  have hs' := hs.sublist hl
  have hmem : above ∈ xs ++ above :: ys := by simp
  have hsym : Std.Symm (fun p q : ℕ => p + 48 ≤ q ∨ q + 48 ≤ p) := ⟨fun _ _ h => h.symm⟩
  have hnodup := hs'.nodup
  have hlt := hs'.header_lt hi hmem
  have hother : ∀ q ∈ xs ++ ys, above + 48 ≤ q ∨ q + 48 ≤ above := by
    intro q hq
    have hq' : q ∈ xs ++ above :: ys := by
      simp only [List.mem_append, List.mem_cons] at hq ⊢
      tauto
    refine hs'.1.forall hmem hq' ?_
    rintro rfl
    have hnotin := (List.nodup_middle.mp hnodup)
    exact (List.nodup_cons.mp hnotin).1 hq
  have hfirst := headD_cases (e := largebins i) (k := 16) (l := ys)
  have hlast := getLastD_cases (e := largebins i) (k := 16) (l := xs)
  generalize hf : (ys.map (· + 16)).headD (largebins i) = next at hm' hfirst
  generalize hg : (xs.map (· + 16)).getLastD (largebins i) = prev at hm' hlast
  have hfirst' : next = largebins i ∨ ∃ q, q ∈ xs ++ ys ∧ next = q + 16 := by
    rcases hfirst with h | ⟨q, hq, h⟩
    · exact Or.inl h
    · exact Or.inr ⟨q, List.mem_append_right xs hq, h⟩
  have hlast' : prev = largebins i ∨ ∃ q, q ∈ xs ++ ys ∧ prev = q + 16 := by
    rcases hlast with h | ⟨q, hq, h⟩
    · exact Or.inl h
    · exact Or.inr ⟨q, List.mem_append_left ys hq, h⟩
  -- the neighbours are away from the chunk above
  have hnext_far : next + 16 ≤ above ∨ above + 64 ≤ next := by
    rcases hfirst' with hn | ⟨q, hq, hn⟩
    · omega
    · have hspace := hother q hq
      omega
  have hprev_far : prev + 16 ≤ above ∨ above + 64 ≤ prev := by
    rcases hlast' with hn | ⟨q, hq, hn⟩
    · omega
    · have hspace := hother q hq
      omega
  have hne : prev ≠ next + 8 := by
    have hs'' : Spaced (xs ++ ys) := hs'.sublist (List.Sublist.append_left (List.sublist_cons_self _ ys) xs)
    rcases hlast' with hl | ⟨q, hq, hl⟩
    · rcases hfirst' with hn | ⟨q', hq', hn⟩
      · omega
      · have hlt' := hs''.header_lt hi hq'
        omega
    · have hlt' := hs''.header_lt hi hq
      rcases hfirst' with hn | ⟨q', hq', hn⟩
      · omega
      · intro heq
        have hinj := hs''.word_inj hq hq' (a := 16) (b := 24) (by omega) (by omega) (by omega)
        omega
  have hframe : ∀ w, w ≠ prev → w ≠ next + 8 → w ≠ above + 16 → w ≠ above + 24 → w ≠ above + 40 →
      m' w = m w := by
    intro w h1 h2 h3 h4 h5
    rw [hm', store_of_ne h5, store_of_ne h4, store_of_ne h3, store_of_ne h1, store_of_ne h2]
  refine ⟨?_, ?_, ?_⟩
  · rw [List.map_append, List.map_cons] at hapart h ⊢
    refine h.replace hapart ?_ ?_ ?_
    · rw [hg]
      refine ⟨fun _ => ?_, fun _ => ?_⟩
      · rw [hm', store_of_ne (by omega), store_of_ne (by omega), store_of_ne (by omega), store_self]
      · rw [hm', store_of_ne (by omega), store_self]
    · rw [hf]
      refine ⟨fun _ => ?_, fun _ => ?_⟩
      · rw [hm', store_of_ne (by omega), store_of_ne (by omega), store_self]
      · rw [hm', store_of_ne (by omega), store_of_ne (by omega), store_of_ne (by omega),
          store_of_ne hne.symm, store_self]
    · intro w hw h1 h2 h3 h4
      rw [hg] at h1
      rw [hf] at h2
      refine hframe w h1 h2 h3 h4 ?_
      rw [← List.map_append] at hw
      rcases wordOf_d hw with hw | hw | ⟨q, hq, hw⟩
      · omega
      · omega
      · have hspace := hother q hq
        omega
  · rw [hm', store_self]
  · intro w he he8 hw h40
    have habove := hw above hmem
    refine hframe w ?_ ?_ habove.1 habove.2 h40
    · rcases hlast with hl | ⟨q, hq, hl⟩
      · rwa [hl]
      · rw [hl]
        exact (hw q (List.mem_append_left _ hq)).1
    · rcases hfirst with hn | ⟨q, hq, hn⟩
      · rwa [hn]
      · rw [hn]
        exact (hw q (List.mem_append_right xs (List.mem_cons_of_mem _ hq))).2

/-- The neighbours of a chunk in the `u` list. -/
theorem u_words {xs ys : List ℕ} (h : Ring m 0 ((xs ++ p :: ys).map (· + 32))) :
    m (p + 32) = (ys.map (· + 32)).headD 0 ∧ m (p + 40) = (xs.map (· + 32)).getLastD 0 := by
  rw [List.map_append, List.map_cons] at h
  exact h.words (by omega)

/-- Unlinking from the vertical list `u`, as far as its words go. -/
theorem unlink_u {xs ys : List ℕ} (h : Ring m 0 ((xs ++ p :: ys).map (· + 32)))
    (hs : Spaced (xs ++ ys))
    (hm' : ∀ q ∈ xs ++ ys, ∀ w, w = q + 32 ∨ w = q + 40 →
      m' w = if m (p + 32) ≠ 0 ∧ w = m (p + 32) + 8 then m (p + 40) else
        if w = m (p + 40) then m (p + 32) else m w) :
    Ring m' 0 ((xs ++ ys).map (· + 32)) := by
  obtain ⟨hup, hdown⟩ := u_words h
  rw [hup, hdown] at hm'
  have hapart := apart_u hs
  have hfirst := headD_cases (e := 0) (k := 32) (l := ys)
  have hlast := getLastD_cases (e := 0) (k := 32) (l := xs)
  rw [List.map_append] at hapart ⊢
  rw [List.map_append, List.map_cons] at h
  refine h.remove hapart ⟨fun h0 => ?_, fun h0 => ?_⟩ ?_
  · rcases hlast with hlast | ⟨q, hq, hlast⟩
    · exact absurd hlast h0
    · rw [hm' q (List.mem_append_left ys hq) _ (Or.inl hlast), if_neg ?_, if_pos rfl]
      rintro ⟨h0', heq⟩
      rcases hfirst with hfirst | ⟨q', hq', hfirst⟩
      · exact h0' hfirst
      · have hinj := hs.word_inj (List.mem_append_left ys hq) (List.mem_append_right xs hq')
          (a := 32) (b := 40) (by omega) (by omega) (by omega)
        omega
  · rcases hfirst with hfirst | ⟨q, hq, hfirst⟩
    · exact absurd hfirst h0
    · rw [hm' q (List.mem_append_right xs hq) _ (Or.inr (by omega)), if_pos ⟨h0, rfl⟩]
  · intro w hw h1 h2
    rw [← List.map_append] at hw
    obtain ⟨q, hq, hw⟩ := wordOf_u hw
    rw [hm' q hq w hw, if_neg fun h => h2 h.2, if_neg h1]

theorem chunks_perm {gs₁ mid gs₂ : List group_t} {us : List ℕ} :
    (bin_t.mk (gs₁ ++ mid ++ gs₂) us).chunks.Perm
      (mid.flatMap group_t.chunks ++ (bin_t.mk (gs₁ ++ gs₂) us).chunks) := by
  simp only [bin_t.chunks, List.flatMap_append, List.append_assoc]
  exact List.perm_append_comm_assoc _ _ _

/-- The words of a chunk that are not of a `d` list. -/
theorem not_d_word {chunks l : List ℕ} {q a : ℕ} (hs : Spaced chunks) (hi : i < N_BINS)
    (hq : q ∈ chunks) (hl : ∀ r ∈ l, r ∈ chunks) (ha : a = 8 ∨ a = 32 ∨ a = 40) :
    q + a ≠ largebins i ∧ q + a ≠ largebins i + 8 ∧ ∀ r ∈ l, q + a ≠ r + 16 ∧ q + a ≠ r + 24 := by
  have hlt := hs.header_lt hi hq
  refine ⟨by omega, by omega, fun r hr => ⟨fun heq => ?_, fun heq => ?_⟩⟩
  · have hinj := (hs.word_inj hq (hl r hr) (by omega) (by omega) heq).2
    omega
  · have hinj := (hs.word_inj hq (hl r hr) (by omega) (by omega) heq).2
    omega

/-- The words of a chunk that are not of a `u` list. -/
theorem not_u_word {chunks : List ℕ} {q r a : ℕ} (hs : Spaced chunks) (hq : q ∈ chunks)
    (hr : r ∈ chunks) (ha : a = 8 ∨ a = 16 ∨ a = 24) : q + a ≠ r + 32 ∧ q + a ≠ r + 40 := by
  refine ⟨fun heq => ?_, fun heq => ?_⟩
  · have hinj := (hs.word_inj hq hr (by omega) (by omega) heq).2
    omega
  · have hinj := (hs.word_inj hq hr (by omega) (by omega) heq).2
    omega

theorem not_own {chunks : List ℕ} (h : ¬ Own e chunks w) :
    w ≠ e ∧ w ≠ e + 8 ∧ ∀ q ∈ chunks, ∀ a, 16 ≤ a → a < 48 → w ≠ q + a := by
  refine ⟨fun heq => h (Or.inl heq), fun heq => h (Or.inr (Or.inl heq)), fun q hq a h16 h48 heq => ?_⟩
  exact h (Or.inr (Or.inr ⟨q, hq, by omega, by omega⟩))

/-- An unsorted chunk is unlinked. -/
theorem BinAt.unlink_unsorted {gs : List group_t} {us₁ us₂ : List ℕ}
    (h : BinAt m (largebins i) ⟨gs, us₁ ++ p :: us₂⟩) (hi : i < N_BINS)
    (hs : Spaced (bin_t.mk gs (us₁ ++ p :: us₂)).chunks) :
    BinAt (unlink_chunk m p) (largebins i) ⟨gs, us₁ ++ us₂⟩ ∧
      ∀ w, ¬ Own (largebins i) (bin_t.mk gs (us₁ ++ p :: us₂)).chunks w →
        unlink_chunk m p w = m w := by
  obtain ⟨hup, hdown⟩ := h.unsorted p (by simp)
  have hm' : unlink_chunk m p
      = store (store m (m (p + 16) + 8) (m (p + 24))) (m (p + 24)) (m (p + 16)) := by
    unfold unlink_chunk
    rw [if_neg (by omega), if_pos (Or.inr hup)]
  have hlevel : (bin_t.mk gs (us₁ ++ p :: us₂)).level
      = (gs.map group_t.bottom ++ us₁) ++ p :: us₂ := by
    simp [bin_t.level]
  have hsub := (bin_t.mk gs (us₁ ++ p :: us₂)).level_sublist
  have hd := h.d
  rw [hlevel] at hd hsub
  obtain ⟨hring, hframe⟩ := unlink_d hd hi hs hsub hm'
  have hl : ∀ r ∈ gs.map group_t.bottom ++ us₁ ++ us₂, r ∈ (bin_t.mk gs (us₁ ++ p :: us₂)).chunks :=
    fun r hr => hsub.subset ((List.Sublist.append_left (List.sublist_cons_self p us₂) _).subset hr)
  have hword : ∀ q ∈ (bin_t.mk gs (us₁ ++ p :: us₂)).chunks, ∀ a, a = 8 ∨ a = 32 ∨ a = 40 →
      unlink_chunk m p (q + a) = m (q + a) := by
    intro q hq a ha
    obtain ⟨h1, h2, h3⟩ := not_d_word hs hi hq hl ha
    exact hframe _ h1 h2 h3
  constructor
  · have hedit : BinAt (unlink_chunk m p) (largebins i) ⟨gs ++ [] ++ [], us₁ ++ us₂⟩ := by
      refine BinAt.edit gs [] [] [] (us₁ ++ p :: us₂) _ (by simpa using h) ?_ ?_ ?_ (by simp) ?_
      · simpa [bin_t.level] using hring
      · intro g hg q hq
        have hq' : q ∈ (bin_t.mk gs (us₁ ++ p :: us₂)).chunks :=
          mem_chunks_of_sorted (by simpa using hg) hq
        exact ⟨hword q hq' 8 (by omega), hword q hq' 32 (by omega), hword q hq' 40 (by omega)⟩
      · intro q hq
        have hold : q ∈ us₁ ++ p :: us₂ := by
          simp only [List.mem_append, List.mem_cons] at hq ⊢
          tauto
        have hq' : q ∈ (bin_t.mk gs (us₁ ++ p :: us₂)).chunks := mem_chunks_of_unsorted hold
        rw [hword q hq' 32 (by omega), hword q hq' 40 (by omega)]
        exact h.unsorted q hold
      · have hmap : (gs ++ [] ++ []).map (fun g : group_t => unlink_chunk m p (g.bottom + 8))
            = gs.map fun g => m (g.bottom + 8) := by
          simp only [List.append_nil]
          refine List.map_congr_left fun g hg => ?_
          exact hword g.bottom (mem_chunks_of_sorted hg List.mem_cons_self) 8 (by omega)
        rw [hmap]
        exact h.decreasing
    simpa using hedit
  · intro w hw
    obtain ⟨h1, h2, h3⟩ := not_own hw
    exact hframe w h1 h2 fun q hq => ⟨h3 q (hl q hq) 16 (by omega) (by omega),
      h3 q (hl q hq) 24 (by omega) (by omega)⟩

/-- A chunk without others of its size is unlinked. -/
theorem BinAt.unlink_alone {gs₁ gs₂ : List group_t} {us : List ℕ}
    (h : BinAt m (largebins i) ⟨gs₁ ++ [⟨p, []⟩] ++ gs₂, us⟩) (hi : i < N_BINS)
    (hs : Spaced (bin_t.mk (gs₁ ++ [⟨p, []⟩] ++ gs₂) us).chunks) :
    BinAt (unlink_chunk m p) (largebins i) ⟨gs₁ ++ gs₂, us⟩ ∧
      ∀ w, ¬ Own (largebins i) (bin_t.mk (gs₁ ++ [⟨p, []⟩] ++ gs₂) us).chunks w →
        unlink_chunk m p w = m w := by
  have hu := h.u ⟨p, []⟩ (by simp)
  obtain ⟨hup, hdown⟩ : m (p + 32) = 0 ∧ m (p + 40) = 0 := @u_words m p [] [] hu
  have hm' : unlink_chunk m p
      = store (store m (m (p + 16) + 8) (m (p + 24))) (m (p + 24)) (m (p + 16)) := by
    unfold unlink_chunk
    rw [if_neg (not_not.mpr hdown), if_pos (Or.inl hup)]
  have hlevel : (bin_t.mk (gs₁ ++ [⟨p, []⟩] ++ gs₂) us).level
      = gs₁.map group_t.bottom ++ p :: (gs₂.map group_t.bottom ++ us) := by
    simp [bin_t.level]
  have hsub := (bin_t.mk (gs₁ ++ [⟨p, []⟩] ++ gs₂) us).level_sublist
  have hd := h.d
  rw [hlevel] at hd hsub
  obtain ⟨hring, hframe⟩ := unlink_d hd hi hs hsub hm'
  have hl : ∀ r ∈ gs₁.map group_t.bottom ++ (gs₂.map group_t.bottom ++ us),
      r ∈ (bin_t.mk (gs₁ ++ [⟨p, []⟩] ++ gs₂) us).chunks := fun r hr =>
    hsub.subset ((List.Sublist.append_left (List.sublist_cons_self p _) _).subset hr)
  have hword : ∀ q ∈ (bin_t.mk (gs₁ ++ [⟨p, []⟩] ++ gs₂) us).chunks, ∀ a, a = 8 ∨ a = 32 ∨ a = 40 →
      unlink_chunk m p (q + a) = m (q + a) := by
    intro q hq a ha
    obtain ⟨h1, h2, h3⟩ := not_d_word hs hi hq hl ha
    exact hframe _ h1 h2 h3
  have hold : ∀ g ∈ gs₁ ++ gs₂, ∀ q ∈ g.chunks, q ∈ (bin_t.mk (gs₁ ++ [⟨p, []⟩] ++ gs₂) us).chunks := by
    intro g hg q hq
    refine mem_chunks_of_sorted ?_ hq
    simp only [List.mem_append] at hg ⊢
    tauto
  constructor
  · have hedit : BinAt (unlink_chunk m p) (largebins i) ⟨gs₁ ++ [] ++ gs₂, us⟩ := by
      refine BinAt.edit gs₁ [⟨p, []⟩] [] gs₂ us us h ?_ ?_ ?_ (by simp) ?_
      · simpa [bin_t.level] using hring
      · intro g hg q hq
        have hq' := hold g hg q hq
        exact ⟨hword q hq' 8 (by omega), hword q hq' 32 (by omega), hword q hq' 40 (by omega)⟩
      · intro q hq
        have hq' : q ∈ (bin_t.mk (gs₁ ++ [⟨p, []⟩] ++ gs₂) us).chunks := mem_chunks_of_unsorted hq
        rw [hword q hq' 32 (by omega), hword q hq' 40 (by omega)]
        exact h.unsorted q hq
      · have hmap : (gs₁ ++ [] ++ gs₂).map (fun g : group_t => unlink_chunk m p (g.bottom + 8))
            = (gs₁ ++ gs₂).map fun g => m (g.bottom + 8) := by
          rw [List.append_nil]
          refine List.map_congr_left fun g hg => ?_
          exact hword g.bottom (hold g hg g.bottom List.mem_cons_self) 8 (by omega)
        rw [hmap]
        refine h.decreasing.sublist (List.Sublist.map _ ?_)
        exact (List.sublist_append_left gs₁ _).append (List.Sublist.refl gs₂)
    simpa using hedit
  · intro w hw
    obtain ⟨h1, h2, h3⟩ := not_own hw
    exact hframe w h1 h2 fun q hq => ⟨h3 q (hl q hq) 16 (by omega) (by omega),
      h3 q (hl q hq) 24 (by omega) (by omega)⟩

/-- The other chunks are none of the group. -/
theorem ne_of_other {gs₁ gs₂ : List group_t} {g : group_t} {us : List ℕ} {q r : ℕ}
    (hs : Spaced (bin_t.mk (gs₁ ++ [g] ++ gs₂) us).chunks)
    (hq : q ∈ (bin_t.mk (gs₁ ++ gs₂) us).chunks) (hr : r ∈ g.chunks) : q ≠ r := by
  have hnodup := (hs.perm chunks_perm.symm).nodup
  rw [List.flatMap_singleton] at hnodup
  intro heq
  exact (List.nodup_append.mp hnodup).2.2 r hr q hq heq.symm

theorem mem_of_other {gs₁ mid gs₂ : List group_t} {us : List ℕ} {q : ℕ}
    (hq : q ∈ (bin_t.mk (gs₁ ++ gs₂) us).chunks) : q ∈ (bin_t.mk (gs₁ ++ mid ++ gs₂) us).chunks :=
  chunks_perm.symm.subset (List.mem_append_right _ hq)

theorem group_sublist {gs₁ gs₂ : List group_t} {g : group_t} {us : List ℕ} :
    g.chunks.Sublist (bin_t.mk (gs₁ ++ [g] ++ gs₂) us).chunks := by
  simp only [bin_t.chunks, List.flatMap_append, List.flatMap_singleton]
  exact ((List.sublist_append_right _ _).trans (List.sublist_append_left _ _)).trans
    (List.sublist_append_left _ _)

/-- A chunk above another one is unlinked. -/
theorem BinAt.unlink_above {gs₁ gs₂ : List group_t} {us a₁ a₂ : List ℕ} {q : ℕ}
    (h : BinAt m (largebins i) ⟨gs₁ ++ [⟨q, a₁ ++ p :: a₂⟩] ++ gs₂, us⟩) (hi : i < N_BINS)
    (hs : Spaced (bin_t.mk (gs₁ ++ [⟨q, a₁ ++ p :: a₂⟩] ++ gs₂) us).chunks)
    (hm' : ∀ w, m' w = if m (p + 32) ≠ 0 ∧ w = m (p + 32) + 8 then m (p + 40) else
      if w = m (p + 40) then m (p + 32) else m w) :
    BinAt m' (largebins i) ⟨gs₁ ++ [⟨q, a₁ ++ a₂⟩] ++ gs₂, us⟩ ∧
      ∀ w, ¬ Own (largebins i) (bin_t.mk (gs₁ ++ [⟨q, a₁ ++ p :: a₂⟩] ++ gs₂) us).chunks w →
        m' w = m w := by
  have hg : (⟨q, a₁ ++ p :: a₂⟩ : group_t) ∈ gs₁ ++ [⟨q, a₁ ++ p :: a₂⟩] ++ gs₂ := by simp
  have hu : Ring m 0 (((q :: a₁) ++ p :: a₂).map (· + 32)) := h.u _ hg
  obtain ⟨hup, hdown⟩ := u_words hu
  have hmem : ∀ r ∈ (q :: a₁) ++ p :: a₂,
      r ∈ (bin_t.mk (gs₁ ++ [⟨q, a₁ ++ p :: a₂⟩] ++ gs₂) us).chunks :=
    fun r hr => mem_chunks_of_sorted hg hr
  have hsub : ((q :: a₁) ++ a₂).Sublist ((q :: a₁) ++ p :: a₂) :=
    List.Sublist.append_left (List.sublist_cons_self p a₂) _
  -- only words of the 'u' list change
  have hframe : ∀ w, (∀ r ∈ (q :: a₁) ++ p :: a₂, w ≠ r + 32 ∧ w ≠ r + 40) → m' w = m w := by
    intro w hw
    rw [hm', if_neg, if_neg]
    · rw [hdown, List.map_cons, List.getLastD_cons]
      rcases getLastD_cases (e := q + 32) (k := 32) (l := a₁) with heq | ⟨r, hr, heq⟩
      · rw [heq]
        exact (hw q (by simp)).1
      · rw [heq]
        exact (hw r (by simp [hr])).1
    · rw [hup]
      rintro ⟨h0, heq'⟩
      rcases headD_cases (e := 0) (k := 32) (l := a₂) with heq | ⟨r, hr, heq⟩
      · exact h0 heq
      · exact (hw r (by simp [hr])).2 (by omega)
  have hword : ∀ r ∈ (bin_t.mk (gs₁ ++ [⟨q, a₁ ++ p :: a₂⟩] ++ gs₂) us).chunks, ∀ a,
      a = 8 ∨ a = 16 ∨ a = 24 → m' (r + a) = m (r + a) := fun r hr a ha =>
    hframe _ fun r' hr' => not_u_word hs hr (hmem r' hr') ha
  have hother : ∀ r ∈ (bin_t.mk (gs₁ ++ gs₂) us).chunks,
      m' (r + 8) = m (r + 8) ∧ m' (r + 32) = m (r + 32) ∧ m' (r + 40) = m (r + 40) := by
    intro r hr
    have hr' : r ∈ (bin_t.mk (gs₁ ++ [⟨q, a₁ ++ p :: a₂⟩] ++ gs₂) us).chunks := mem_of_other hr
    have hne : ∀ r' ∈ (q :: a₁) ++ p :: a₂, r ≠ r' := fun r' hr'' => ne_of_other hs hr hr''
    refine ⟨hword r hr' 8 (by omega), hframe _ fun r' hr'' => ⟨fun heq => ?_, fun heq => ?_⟩,
      hframe _ fun r' hr'' => ⟨fun heq => ?_, fun heq => ?_⟩⟩
    · exact hne r' hr'' (by omega)
    · exact hne r' hr'' (hs.word_inj hr' (hmem r' hr'') (by omega) (by omega) heq).1
    · exact hne r' hr'' (hs.word_inj hr' (hmem r' hr'') (by omega) (by omega) heq).1
    · exact hne r' hr'' (by omega)
  constructor
  · refine BinAt.edit gs₁ [⟨q, a₁ ++ p :: a₂⟩] [⟨q, a₁ ++ a₂⟩] gs₂ us us h ?_ ?_ ?_ ?_ ?_
    · have hlevel : (bin_t.mk (gs₁ ++ [⟨q, a₁ ++ a₂⟩] ++ gs₂) us).level
          = (bin_t.mk (gs₁ ++ [⟨q, a₁ ++ p :: a₂⟩] ++ gs₂) us).level := by
        simp [bin_t.level]
      rw [hlevel]
      refine h.d.congr (fun _ => ⟨hframe _ fun r hr => ?_, hframe _ fun r hr => ?_⟩) fun x hx => ?_
      · have hlt := hs.header_lt hi (hmem r hr)
        omega
      · have hlt := hs.header_lt hi (hmem r hr)
        omega
      · obtain ⟨r, hr, rfl⟩ := List.mem_map.mp hx
        have hr' := mem_chunks_of_mem_level hr
        exact ⟨hword r hr' 16 (by omega), hword r hr' 24 (by omega)⟩
    · exact fun g hg' r hr => hother r (mem_chunks_of_sorted hg' hr)
    · intro r hr
      obtain ⟨-, h32, h40⟩ := hother r (mem_chunks_of_unsorted hr)
      rw [h32, h40]
      exact h.unsorted r hr
    · intro g hg'
      rw [List.mem_singleton.mp hg']
      constructor
      · have hgroup : ((q :: a₁) ++ p :: a₂).Sublist _ := @group_sublist gs₁ gs₂ ⟨q, a₁ ++ p :: a₂⟩ us
        exact unlink_u hu (hs.sublist (hsub.trans hgroup)) fun r hr w hw => hm' w
      · intro r hr
        have hr' : r ∈ a₁ ++ p :: a₂ := by
          simp only [List.mem_append, List.mem_cons] at hr ⊢
          tauto
        rw [hword r (hmem r (List.mem_cons_of_mem _ hr')) 8 (by omega),
          hword q (hmem q List.mem_cons_self) 8 (by omega)]
        exact h.same _ hg r hr'
    · have hmap : (gs₁ ++ [group_t.mk q (a₁ ++ a₂)] ++ gs₂).map (fun g => m' (g.bottom + 8))
          = (gs₁ ++ [group_t.mk q (a₁ ++ p :: a₂)] ++ gs₂).map fun g => m (g.bottom + 8) := by
        have hsize : ∀ g ∈ gs₁ ++ gs₂, m' (g.bottom + 8) = m (g.bottom + 8) := fun g hg' =>
          (hother g.bottom (mem_chunks_of_sorted hg' List.mem_cons_self)).1
        simp only [List.map_append, List.map_singleton]
        rw [List.map_congr_left fun g hg' => hsize g (List.mem_append_left _ hg'),
          List.map_congr_left fun g hg' => hsize g (List.mem_append_right _ hg'),
          hword q (hmem q List.mem_cons_self) 8 (by omega)]
      rw [hmap]
      exact h.decreasing
  · intro w hw
    obtain ⟨-, -, h3⟩ := not_own hw
    exact hframe w fun r hr => ⟨h3 r (hmem r hr) 32 (by omega) (by omega),
      h3 r (hmem r hr) 40 (by omega) (by omega)⟩

/-- The chunk in the `d` list is unlinked; the one above takes its place. -/
theorem BinAt.unlink_bottom {gs₁ gs₂ : List group_t} {us qs : List ℕ} {q : ℕ}
    (h : BinAt m (largebins i) ⟨gs₁ ++ [⟨p, q :: qs⟩] ++ gs₂, us⟩) (hi : i < N_BINS)
    (hs : Spaced (bin_t.mk (gs₁ ++ [⟨p, q :: qs⟩] ++ gs₂) us).chunks) :
    BinAt (unlink_chunk m p) (largebins i) ⟨gs₁ ++ [⟨q, qs⟩] ++ gs₂, us⟩ ∧
      ∀ w, ¬ Own (largebins i) (bin_t.mk (gs₁ ++ [⟨p, q :: qs⟩] ++ gs₂) us).chunks w →
        unlink_chunk m p w = m w := by
  have hg : (⟨p, q :: qs⟩ : group_t) ∈ gs₁ ++ [⟨p, q :: qs⟩] ++ gs₂ := by simp
  have hu : Ring m 0 (([] ++ p :: q :: qs).map (· + 32)) := h.u _ hg
  obtain ⟨hup, hdown⟩ : m (p + 32) = q + 32 ∧ m (p + 40) = 0 := u_words hu
  have hmem : ∀ r ∈ p :: q :: qs, r ∈ (bin_t.mk (gs₁ ++ [⟨p, q :: qs⟩] ++ gs₂) us).chunks :=
    fun r hr => mem_chunks_of_sorted hg hr
  have hm' : unlink_chunk m p = store (store (store (store (store m (m (p + 16) + 8) (q + 16))
      (m (p + 24)) (q + 16)) (q + 16) (m (p + 16))) (q + 24) (m (p + 24))) (q + 40) 0 := by
    have habove : updown2chunk (q + 32) = q := by
      unfold updown2chunk CHUNK_HEADER_SIZE
      omega
    unfold unlink_chunk
    rw [if_neg (not_not.mpr hdown), if_neg ?_, hup, habove]
    rw [hup]
    unfold UU_UNSORTED
    omega
  have hlevel : (bin_t.mk (gs₁ ++ [⟨p, q :: qs⟩] ++ gs₂) us).level
      = gs₁.map group_t.bottom ++ p :: (gs₂.map group_t.bottom ++ us) := by
    simp [bin_t.level]
  have hlevel' : (bin_t.mk (gs₁ ++ [⟨q, qs⟩] ++ gs₂) us).level
      = gs₁.map group_t.bottom ++ q :: (gs₂.map group_t.bottom ++ us) := by
    simp [bin_t.level]
  have hsub : (gs₁.map group_t.bottom ++ q :: (gs₂.map group_t.bottom ++ us)).Sublist
      (bin_t.mk (gs₁ ++ [⟨p, q :: qs⟩] ++ gs₂) us).chunks := by
    rw [← hlevel']
    refine (bin_t.level_sublist _).trans ?_
    simp only [bin_t.chunks, List.flatMap_append, List.flatMap_singleton]
    refine List.Sublist.append ?_ (List.Sublist.refl us)
    refine List.Sublist.append (List.Sublist.append (List.Sublist.refl _) ?_) (List.Sublist.refl _)
    exact List.sublist_cons_self p (q :: qs)
  have hd := h.d
  rw [hlevel] at hd
  obtain ⟨hring, h40, hframe⟩ := relink_d hd hi hs hsub hm'
  have hword : ∀ r ∈ (bin_t.mk (gs₁ ++ [⟨p, q :: qs⟩] ++ gs₂) us).chunks, ∀ a,
      a = 8 ∨ a = 32 ∨ a = 40 → r + a ≠ q + 40 → unlink_chunk m p (r + a) = m (r + a) := by
    intro r hr a ha hne
    obtain ⟨h1, h2, h3⟩ := not_d_word hs hi hr (fun r hr => hsub.subset hr) ha
    exact hframe _ h1 h2 h3 hne
  have hsize : ∀ r ∈ (bin_t.mk (gs₁ ++ [⟨p, q :: qs⟩] ++ gs₂) us).chunks,
      unlink_chunk m p (r + 8) = m (r + 8) := fun r hr =>
    hword r hr 8 (by omega) (not_u_word hs hr (hmem q (by simp)) (by omega)).2
  have hother : ∀ r ∈ (bin_t.mk (gs₁ ++ gs₂) us).chunks,
      unlink_chunk m p (r + 8) = m (r + 8) ∧ unlink_chunk m p (r + 32) = m (r + 32) ∧
        unlink_chunk m p (r + 40) = m (r + 40) := by
    intro r hr
    have hr' : r ∈ (bin_t.mk (gs₁ ++ [⟨p, q :: qs⟩] ++ gs₂) us).chunks := mem_of_other hr
    have hne : r ≠ q := ne_of_other hs hr (List.mem_cons_of_mem p List.mem_cons_self)
    refine ⟨hsize r hr', hword r hr' 32 (by omega) fun heq => ?_, hword r hr' 40 (by omega) (by omega)⟩
    exact hne (hs.word_inj hr' (hmem q (by simp)) (by omega) (by omega) heq).1
  constructor
  · refine BinAt.edit gs₁ [⟨p, q :: qs⟩] [⟨q, qs⟩] gs₂ us us h ?_ ?_ ?_ ?_ ?_
    · rw [hlevel']
      exact hring
    · exact fun g hg' r hr => hother r (mem_chunks_of_sorted hg' hr)
    · intro r hr
      obtain ⟨-, h32, h40⟩ := hother r (mem_chunks_of_unsorted hr)
      rw [h32, h40]
      exact h.unsorted r hr
    · intro g hg'
      rw [List.mem_singleton.mp hg']
      constructor
      · have hgroup : (p :: q :: qs).Sublist _ := @group_sublist gs₁ gs₂ ⟨p, q :: qs⟩ us
        have hqs : Spaced ([] ++ q :: qs) := hs.sublist ((List.sublist_cons_self p _).trans hgroup)
        refine unlink_u hu hqs fun r hr w hw => ?_
        have hr' : r ∈ p :: q :: qs := List.mem_cons_of_mem p hr
        rw [hup, hdown]
        by_cases hw40 : w = q + 40
        · rw [hw40, h40, if_pos ⟨by omega, rfl⟩]
        · rw [if_neg (fun h => hw40 h.2), if_neg ?_]
          · rcases hw with rfl | rfl
            · exact hword r (hmem r hr') 32 (by omega) hw40
            · exact hword r (hmem r hr') 40 (by omega) hw40
          · omega
      · intro r hr
        have hr' : r ∈ q :: qs := List.mem_cons_of_mem q hr
        rw [hsize r (hmem r (List.mem_cons_of_mem p hr')), hsize q (hmem q (by simp)),
          h.same _ hg r hr', h.same _ hg q List.mem_cons_self]
    · have hmap : (gs₁ ++ [group_t.mk q qs] ++ gs₂).map (fun g => unlink_chunk m p (g.bottom + 8))
          = (gs₁ ++ [group_t.mk p (q :: qs)] ++ gs₂).map fun g => m (g.bottom + 8) := by
        have hgs : ∀ g ∈ gs₁ ++ gs₂, unlink_chunk m p (g.bottom + 8) = m (g.bottom + 8) := fun g hg' =>
          (hother g.bottom (mem_chunks_of_sorted hg' List.mem_cons_self)).1
        simp only [List.map_append, List.map_singleton]
        rw [List.map_congr_left fun g hg' => hgs g (List.mem_append_left _ hg'),
          List.map_congr_left fun g hg' => hgs g (List.mem_append_right _ hg'),
          hsize q (hmem q (by simp)), h.same _ hg q List.mem_cons_self]
      rw [hmap]
      exact h.decreasing
  · intro w hw
    obtain ⟨h1, h2, h3⟩ := not_own hw
    refine hframe w h1 h2 (fun r hr => ?_) (h3 q (hmem q (by simp)) 40 (by omega) (by omega))
    have hr' := hsub.subset hr
    exact ⟨h3 r hr' 16 (by omega) (by omega), h3 r hr' 24 (by omega) (by omega)⟩

/-- **`unlink_chunk`** takes the chunk out of its bin, wherever it is there. -/
theorem BinAt.unlink (h : BinAt m (largebins i) b) (hi : i < N_BINS) (hs : Spaced b.chunks)
    (hp : p ∈ b.chunks) :
    ∃ b', BinAt (unlink_chunk m p) (largebins i) b' ∧ b.chunks.Perm (p :: b'.chunks) ∧
      ∀ w, ¬ Own (largebins i) b.chunks w → unlink_chunk m p w = m w := by
  obtain ⟨gs, us⟩ := b
  rcases List.mem_append.mp hp with hp | hp
  · obtain ⟨g, hg, hpg⟩ := List.mem_flatMap.mp hp
    obtain ⟨gs₁, gs₂, rfl⟩ := List.append_of_mem hg
    obtain ⟨q, above⟩ := g
    have hsplit : gs₁ ++ (⟨q, above⟩ : group_t) :: gs₂ = gs₁ ++ [⟨q, above⟩] ++ gs₂ := by simp
    rw [hsplit] at h hs ⊢
    rcases List.mem_cons.mp hpg with rfl | hpg
    · cases above with
      | nil =>
          obtain ⟨hbin, hframe⟩ := h.unlink_alone hi hs
          exact ⟨_, hbin, chunks_perm, hframe⟩
      | cons q above =>
          obtain ⟨hbin, hframe⟩ := h.unlink_bottom hi hs
          refine ⟨_, hbin, ?_, hframe⟩
          exact chunks_perm.trans ((@chunks_perm gs₁ [⟨q, above⟩] gs₂ us).symm.cons p)
    · obtain ⟨a₁, a₂, rfl⟩ := List.append_of_mem hpg
      have hg' : (⟨q, a₁ ++ p :: a₂⟩ : group_t) ∈ gs₁ ++ [⟨q, a₁ ++ p :: a₂⟩] ++ gs₂ := by simp
      have hu : Ring m 0 (((q :: a₁) ++ p :: a₂).map (· + 32)) := h.u _ hg'
      have hdown : m (p + 40) ≠ 0 := by
        rw [(u_words hu).2, List.map_cons, List.getLastD_cons]
        rcases getLastD_cases (e := q + 32) (k := 32) (l := a₁) with heq | ⟨r, -, heq⟩
        · omega
        · omega
      have hm' : ∀ w, unlink_chunk m p w = if m (p + 32) ≠ 0 ∧ w = m (p + 32) + 8 then m (p + 40)
          else if w = m (p + 40) then m (p + 32) else m w := by
        intro w
        unfold unlink_chunk
        rw [if_pos hdown]
        by_cases h0 : m (p + 32) = 0
        · simp [h0, store_apply]
        · simp [h0, store_apply]
      obtain ⟨hbin, hframe⟩ := h.unlink_above hi hs hm'
      refine ⟨_, hbin, ?_, hframe⟩
      refine chunks_perm.trans (List.Perm.trans ?_
        ((@chunks_perm gs₁ [⟨q, a₁ ++ a₂⟩] gs₂ us).symm.cons p))
      simp only [List.flatMap_singleton, group_t.chunks]
      rw [← List.cons_append, ← List.cons_append, ← List.cons_append]
      exact (@List.perm_middle _ p (q :: a₁) a₂).append_right _
  · obtain ⟨us₁, us₂, rfl⟩ := List.append_of_mem hp
    obtain ⟨hbin, hframe⟩ := h.unlink_unsorted hi hs
    refine ⟨_, hbin, ?_, hframe⟩
    simp only [bin_t.chunks]
    rw [← List.append_assoc, ← List.append_assoc]
    exact List.perm_middle

end BinAt

end Stmgc.C7.Largemalloc
