/-
`sort_bin`: the unsorted chunks of a bin are put among the sorted ones.

The first loops of `really_sort_bin` cut the unsorted chunks off the `d` list and
sort them. The last loop inserts them, the largest first. Its `head` only moves
down: the groups before it, `done` in [`SortInv`], have larger chunks than any
that is still to be inserted.
-/
import Stmgc.C7.LargemallocBins

open Stmgc.Lib

namespace Stmgc.C7.Largemalloc

variable {m m' : mem_t} {e i p w : ℕ} {debug : Bool}

/-! ## The insertion of one chunk -/

/-- A chunk of a new size goes between the larger and the smaller ones. -/
theorem BinAt.insert_before {gs₁ gs₂ : List group_t} {s : sort_t}
    (h : BinAt s.mem (largebins i) ⟨gs₁ ++ gs₂, []⟩) (hi : i < N_BINS)
    (hs : Spaced ((bin_t.mk (gs₁ ++ gs₂) []).chunks ++ [s.chunk1]))
    (hhead : s.head = ((gs₂.map group_t.bottom).map (· + 16)).headD (largebins i))
    (hlarger : ∀ g ∈ gs₁, s.mem (s.chunk1 + 8) < s.mem (g.bottom + 8))
    (hsmaller : ∀ g ∈ gs₂, s.mem (g.bottom + 8) < s.mem (s.chunk1 + 8)) :
    BinAt (insert_before s).mem (largebins i) ⟨gs₁ ++ [⟨s.chunk1, []⟩] ++ gs₂, []⟩ ∧
      ∀ w, ¬ Own (largebins i) ((bin_t.mk (gs₁ ++ gs₂) []).chunks ++ [s.chunk1]) w →
        (insert_before s).mem w = s.mem w := by
  obtain ⟨m, c, search_size, head, chunks⟩ := s
  simp only at h hs hhead hlarger hsmaller ⊢
  have hlevel : (bin_t.mk (gs₁ ++ gs₂) []).level
      = gs₁.map group_t.bottom ++ gs₂.map group_t.bottom := by
    simp [bin_t.level]
  have hd := h.d
  rw [hlevel, List.map_append] at hd
  have hpos : largebins i ≠ 0 := by
    unfold largebins
    omega
  have hc : c ∈ (bin_t.mk (gs₁ ++ gs₂) []).chunks ++ [c] := by simp
  have hold : ∀ q ∈ (bin_t.mk (gs₁ ++ gs₂) []).chunks,
      q ∈ (bin_t.mk (gs₁ ++ gs₂) []).chunks ++ [c] := fun q hq => List.mem_append_left _ hq
  have hother : ∀ q ∈ (bin_t.mk (gs₁ ++ gs₂) []).chunks, c + 48 ≤ q ∨ q + 48 ≤ c := fun q hq =>
    ((List.pairwise_append.mp hs.1).2.2 q hq c (List.mem_singleton_self c)).symm
  have hlt := hs.header_lt hi hc
  have hbottom : ∀ q ∈ gs₁.map group_t.bottom ++ gs₂.map group_t.bottom,
      q ∈ (bin_t.mk (gs₁ ++ gs₂) []).chunks := by
    intro q hq
    rw [← hlevel] at hq
    exact mem_chunks_of_mem_level hq
  have hfirst := @headD_cases (largebins i) 16 (gs₂.map group_t.bottom)
  have hlast := @getLastD_cases (largebins i) 16 (gs₁.map group_t.bottom)
  have hprev : m (head + 8) = ((gs₁.map group_t.bottom).map (· + 16)).getLastD (largebins i) := by
    rw [hhead]
    refine hd.link.2 ?_
    rcases hfirst with hf | ⟨q, hq, hf⟩
    · rw [hf]
      exact hpos
    · rw [hf]
      omega
  rw [← hhead] at hfirst
  rw [← hprev] at hlast
  generalize hpr : m (head + 8) = prev at hlast hprev
  -- the neighbours are away from the new chunk
  have hhead_far : head + 16 ≤ c ∨ c + 64 ≤ head := by
    rcases hfirst with hf | ⟨q, hq, hf⟩
    · omega
    · have hspace := hother q (hbottom q (List.mem_append_right _ hq))
      omega
  have hprev_far : prev + 16 ≤ c ∨ c + 64 ≤ prev := by
    rcases hlast with hf | ⟨q, hq, hf⟩
    · omega
    · have hspace := hother q (hbottom q (List.mem_append_left _ hq))
      omega
  have hne : prev ≠ head + 8 := by
    rcases hlast with hl | ⟨q, hq, hl⟩
    · rcases hfirst with hf | ⟨q', hq', hf⟩
      · omega
      · have hlt' := hs.header_lt hi (hold q' (hbottom q' (List.mem_append_right _ hq')))
        omega
    · have hq1 := hold q (hbottom q (List.mem_append_left _ hq))
      have hlt' := hs.header_lt hi hq1
      rcases hfirst with hf | ⟨q', hq', hf⟩
      · omega
      · intro heq
        have hinj := hs.word_inj hq1 (hold q' (hbottom q' (List.mem_append_right _ hq')))
          (a := 16) (b := 24) (by omega) (by omega) (by omega)
        omega
  have hmem : (Largemalloc.insert_before ⟨m, c, search_size, head, chunks⟩).mem
      = store (store (store (store (store (store m prev (c + 16)) (c + 24) prev) (head + 8) (c + 16))
        (c + 16) head) (c + 32) 0) (c + 40) 0 := by
    simp only [Largemalloc.insert_before, hpr]
    rw [store_of_ne hne.symm, hpr]
  have hframe : ∀ w, w ≠ prev → w ≠ head + 8 → w < c + 16 ∨ c + 48 ≤ w →
      (Largemalloc.insert_before ⟨m, c, search_size, head, chunks⟩).mem w = m w := by
    intro w h1 h2 h3
    rw [hmem, store_of_ne (by omega), store_of_ne (by omega), store_of_ne (by omega), store_of_ne h2,
      store_of_ne (by omega), store_of_ne h1]
  have hword : ∀ q ∈ (bin_t.mk (gs₁ ++ gs₂) []).chunks, ∀ a, a = 8 ∨ a = 32 ∨ a = 40 →
      (Largemalloc.insert_before ⟨m, c, search_size, head, chunks⟩).mem (q + a) = m (q + a) := by
    intro q hq a ha
    have hspace := hother q hq
    obtain ⟨h1, h2, h3⟩ := not_d_word hs hi (hold q hq) (fun r hr => hold r (hbottom r hr)) ha
    refine hframe _ ?_ ?_ (by omega)
    · rcases hlast with hl | ⟨r, hr, hl⟩
      · rwa [hl]
      · rw [hl]
        exact (h3 r (List.mem_append_left _ hr)).1
    · rcases hfirst with hf | ⟨r, hr, hf⟩
      · rwa [hf]
      · rw [hf]
        exact (h3 r (List.mem_append_right _ hr)).2
  have hcsize : (Largemalloc.insert_before ⟨m, c, search_size, head, chunks⟩).mem (c + 8) = m (c + 8) :=
    hframe _ (by omega) (by omega) (by omega)
  have hsize : ∀ g ∈ gs₁ ++ gs₂,
      (Largemalloc.insert_before ⟨m, c, search_size, head, chunks⟩).mem (g.bottom + 8)
        = m (g.bottom + 8) := fun g hg =>
    hword g.bottom (mem_chunks_of_sorted hg List.mem_cons_self) 8 (by omega)
  constructor
  · have hedit : BinAt m (largebins i) ⟨gs₁ ++ [] ++ gs₂, []⟩ := by simpa using h
    refine BinAt.edit gs₁ [] [⟨c, []⟩] gs₂ [] [] hedit ?_ ?_ (by simp) ?_ ?_
    · have hlevel' : (bin_t.mk (gs₁ ++ [⟨c, []⟩] ++ gs₂) []).level.map (· + 16)
          = (gs₁.map group_t.bottom).map (· + 16)
            ++ (c + 16) :: (gs₂.map group_t.bottom).map (· + 16) := by
        simp [bin_t.level]
      have hapart : (largebins i :: ((gs₁.map group_t.bottom).map (· + 16)
          ++ (c + 16) :: (gs₂.map group_t.bottom).map (· + 16))).Pairwise Apart := by
        have hperm : (c :: (bin_t.mk (gs₁ ++ gs₂) []).chunks).Perm
            ((bin_t.mk (gs₁ ++ gs₂) []).chunks ++ [c]) := @List.perm_append_comm _ [c] _
        have hsub : (c :: (gs₁.map group_t.bottom ++ gs₂.map group_t.bottom)).Sublist
            (c :: (bin_t.mk (gs₁ ++ gs₂) []).chunks) := by
          rw [← hlevel]
          exact (bin_t.level_sublist _).cons_cons c
        have hs' := ((hs.perm hperm).sublist hsub).perm List.perm_middle
        have happ := apart_d hs' hi (List.Sublist.refl _)
        rwa [List.map_append, List.map_cons] at happ
      rw [hlevel']
      refine hd.insert hapart ?_ ?_ ?_
      · rw [← hprev]
        refine ⟨fun _ => ?_, fun _ => ?_⟩
        · rw [hmem, store_of_ne (by omega), store_of_ne (by omega), store_of_ne (by omega),
            store_of_ne hne, store_of_ne (by omega), store_self]
        · rw [hmem, store_of_ne (by omega), store_of_ne (by omega), store_of_ne (by omega),
            store_of_ne (by omega), store_self]
      · rw [← hhead]
        refine ⟨fun _ => ?_, fun _ => ?_⟩
        · rw [hmem, store_of_ne (by omega), store_of_ne (by omega), store_self]
        · rw [hmem, store_of_ne (by omega), store_of_ne (by omega), store_of_ne (by omega), store_self]
      · intro w hw h1 h2 h3 h4
        rw [← hprev] at h1
        rw [← hhead] at h2
        rw [← List.map_append] at hw
        refine hframe w h1 h2 ?_
        rcases wordOf_d hw with hw | hw | ⟨q, hq, hw⟩
        · omega
        · omega
        · have hspace := hother q (hbottom q hq)
          omega
    · intro g hg q hq
      have hq' : q ∈ (bin_t.mk (gs₁ ++ gs₂) []).chunks := mem_chunks_of_sorted hg hq
      exact ⟨hword q hq' 8 (by omega), hword q hq' 32 (by omega), hword q hq' 40 (by omega)⟩
    · intro g hg
      rw [List.mem_singleton.mp hg]
      refine ⟨?_, fun q hq => absurd hq (by simp)⟩
      have hring : [0, c + 32, 0].IsChain
          (Link (Largemalloc.insert_before ⟨m, c, search_size, head, chunks⟩).mem) := by
        rw [List.isChain_cons_cons, List.isChain_pair]
        refine ⟨⟨fun h0 => absurd rfl h0, fun _ => ?_⟩, fun _ => ?_, fun h0 => absurd rfl h0⟩
        · rw [hmem, store_self]
        · rw [hmem, store_of_ne (by omega), store_self]
      exact hring
    · simp only [List.map_append, List.map_singleton]
      rw [List.map_congr_left fun g hg => hsize g (List.mem_append_left _ hg),
        List.map_congr_left fun g hg => hsize g (List.mem_append_right _ hg), hcsize]
      have hdec := h.decreasing
      simp only [List.map_append, List.pairwise_append] at hdec ⊢
      obtain ⟨hdec₁, hdec₂, hcross⟩ := hdec
      refine ⟨⟨hdec₁, List.pairwise_singleton _ _, ?_⟩, hdec₂, ?_⟩
      · intro x hx y hy
        obtain ⟨g, hg, rfl⟩ := List.mem_map.mp hx
        rw [List.mem_singleton.mp hy]
        exact hlarger g hg
      · intro x hx y hy
        obtain ⟨g, hg, rfl⟩ := List.mem_map.mp hy
        rcases List.mem_append.mp hx with hx | hx
        · exact hcross x hx _ (List.mem_map_of_mem hg)
        · rw [List.mem_singleton.mp hx]
          exact hsmaller g hg
  · intro w hw
    obtain ⟨h1, h2, h3⟩ := not_own hw
    have hwc : w < c + 16 ∨ c + 48 ≤ w := by
      by_contra hcon
      exact h3 c hc (w - c) (by omega) (by omega) (by omega)
    refine hframe w ?_ ?_ hwc
    · rcases hlast with hl | ⟨r, hr, hl⟩
      · rwa [hl]
      · rw [hl]
        exact h3 r (hold r (hbottom r (List.mem_append_left _ hr))) 16 (by omega) (by omega)
    · rcases hfirst with hf | ⟨r, hr, hf⟩
      · rwa [hf]
      · rw [hf]
        exact h3 r (hold r (hbottom r (List.mem_append_right _ hr))) 24 (by omega) (by omega)

theorem only_debug_apply {m₁ m₂ : mem_t} (h : m₂ w = m₁ w) : only_debug debug m₁ m₂ w = m₁ w := by
  unfold only_debug
  split
  · exact h
  · rfl

/-- A chunk of a known size goes above the one in the `d` list. -/
theorem BinAt.insert_above {gs₁ gs₂ : List group_t} {q : ℕ} {above : List ℕ} {s : sort_t}
    (h : BinAt s.mem (largebins i) ⟨gs₁ ++ [⟨q, above⟩] ++ gs₂, []⟩) (hi : i < N_BINS)
    (hs : Spaced ((bin_t.mk (gs₁ ++ [⟨q, above⟩] ++ gs₂) []).chunks ++ [s.chunk1]))
    (hhead : s.head = q + 16) (hsize : s.mem (s.chunk1 + 8) = s.mem (q + 8)) :
    BinAt (insert_above debug s).mem (largebins i) ⟨gs₁ ++ [⟨q, s.chunk1 :: above⟩] ++ gs₂, []⟩ ∧
      ∀ w, ¬ Own (largebins i) ((bin_t.mk (gs₁ ++ [⟨q, above⟩] ++ gs₂) []).chunks ++ [s.chunk1]) w →
        (insert_above debug s).mem w = s.mem w := by
  obtain ⟨m, c, search_size, head, chunks⟩ := s
  simp only at h hs hhead hsize ⊢
  have hg : (⟨q, above⟩ : group_t) ∈ gs₁ ++ [⟨q, above⟩] ++ gs₂ := by simp
  have hu : Ring m 0 (([] ++ q :: above).map (· + 32)) := h.u _ hg
  have hc : c ∈ (bin_t.mk (gs₁ ++ [⟨q, above⟩] ++ gs₂) []).chunks ++ [c] := by simp
  have hold : ∀ r ∈ (bin_t.mk (gs₁ ++ [⟨q, above⟩] ++ gs₂) []).chunks,
      r ∈ (bin_t.mk (gs₁ ++ [⟨q, above⟩] ++ gs₂) []).chunks ++ [c] :=
    fun r hr => List.mem_append_left _ hr
  have hother : ∀ r ∈ (bin_t.mk (gs₁ ++ [⟨q, above⟩] ++ gs₂) []).chunks, c + 48 ≤ r ∨ r + 48 ≤ c :=
    fun r hr => ((List.pairwise_append.mp hs.1).2.2 r hr c (List.mem_singleton_self c)).symm
  have hmem : ∀ r ∈ q :: above, r ∈ (bin_t.mk (gs₁ ++ [⟨q, above⟩] ++ gs₂) []).chunks :=
    fun r hr => mem_chunks_of_sorted hg hr
  have hs' : Spaced (bin_t.mk (gs₁ ++ [⟨q, above⟩] ++ gs₂) []).chunks :=
    hs.sublist (List.sublist_append_left _ _)
  have hlt := hs.header_lt hi hc
  have hq_far := hother q (hmem q List.mem_cons_self)
  have hup : m (q + 32) = (above.map (· + 32)).headD 0 := (u_words hu).1
  have hup_far : m (q + 32) ≠ 0 → m (q + 32) + 16 ≤ c ∨ c + 64 ≤ m (q + 32) := by
    intro h0
    rw [hup] at h0 ⊢
    rcases @headD_cases 0 32 above with hf | ⟨r, hr, hf⟩
    · exact absurd hf h0
    · have hspace := hother r (hmem r (List.mem_cons_of_mem q hr))
      omega
  have huhead : data2chunk (q + 16) + 32 = q + 32 := by
    unfold data2chunk CHUNK_HEADER_SIZE
    omega
  have hread : ∀ w, w < c + 16 ∨ c + 48 ≤ w →
      (Largemalloc.insert_above debug ⟨m, c, search_size, head, chunks⟩).mem w = if w = q + 32 then c + 32
        else if m (q + 32) ≠ 0 ∧ w = m (q + 32) + 8 then c + 32 else m w := by
    intro w hw
    simp only [Largemalloc.insert_above, hhead, huhead]
    rw [only_debug_apply (by rw [store_of_ne (by omega), store_of_ne (by omega)]),
      store_of_ne (by omega : q + 32 ≠ c + 40), store_of_ne (by omega : q + 32 ≠ c + 32)]
    by_cases hq : w = q + 32
    · rw [if_pos hq, hq, store_self]
    · rw [if_neg hq, store_of_ne hq]
      by_cases h0 : m (q + 32) = 0
      · rw [if_neg (by simp [h0]), if_neg (by simp [h0]), store_of_ne (by omega), store_of_ne (by omega)]
      · rw [if_pos h0]
        by_cases hw8 : w = m (q + 32) + 8
        · rw [if_pos ⟨h0, hw8⟩, hw8, store_self]
        · rw [if_neg (fun h => hw8 h.2), store_of_ne hw8, store_of_ne (by omega), store_of_ne (by omega)]
  have hc32 : (Largemalloc.insert_above debug ⟨m, c, search_size, head, chunks⟩).mem (c + 32)
      = m (q + 32) := by
    simp only [Largemalloc.insert_above, hhead, huhead]
    rw [only_debug_apply (by rw [store_of_ne (by omega), store_of_ne (by omega)]),
      store_of_ne (by omega : q + 32 ≠ c + 40), store_of_ne (by omega : q + 32 ≠ c + 32),
      store_of_ne (by omega)]
    by_cases h0 : m (q + 32) = 0
    · rw [if_neg (by simp [h0]), store_of_ne (by omega), store_self]
    · have hfar := hup_far h0
      rw [if_pos h0, store_of_ne (by omega), store_of_ne (by omega), store_self]
  have hc40 : (Largemalloc.insert_above debug ⟨m, c, search_size, head, chunks⟩).mem (c + 40) = q + 32 := by
    simp only [Largemalloc.insert_above, hhead, huhead]
    rw [only_debug_apply (by rw [store_of_ne (by omega), store_of_ne (by omega)]),
      store_of_ne (by omega : q + 32 ≠ c + 40), store_of_ne (by omega : q + 32 ≠ c + 32),
      store_of_ne (by omega)]
    by_cases h0 : m (q + 32) = 0
    · rw [if_neg (by simp [h0]), store_self]
    · have hfar := hup_far h0
      rw [if_pos h0, store_of_ne (by omega), store_self]
  have hfirst := @headD_cases 0 32 above
  rw [← hup] at hfirst
  -- besides the words of the new chunk only words of the 'u' list change
  have hframe : ∀ w, w < c + 16 ∨ c + 48 ≤ w → (∀ r ∈ q :: above, w ≠ r + 32 ∧ w ≠ r + 40) →
      (Largemalloc.insert_above debug ⟨m, c, search_size, head, chunks⟩).mem w = m w := by
    intro w hw hw'
    rw [hread w hw, if_neg (hw' q List.mem_cons_self).1, if_neg]
    rintro ⟨h0, heq⟩
    rcases hfirst with hf | ⟨r, hr, hf⟩
    · exact h0 hf
    · exact (hw' r (List.mem_cons_of_mem q hr)).2 (by omega)
  have hword : ∀ r ∈ (bin_t.mk (gs₁ ++ [⟨q, above⟩] ++ gs₂) []).chunks, ∀ a, a = 8 ∨ a = 16 ∨ a = 24 →
      (Largemalloc.insert_above debug ⟨m, c, search_size, head, chunks⟩).mem (r + a) = m (r + a) := by
    intro r hr a ha
    have hspace := hother r hr
    exact hframe _ (by omega) fun r' hr' => not_u_word hs' hr (hmem r' hr') ha
  have hrest : ∀ r ∈ (bin_t.mk (gs₁ ++ gs₂) []).chunks,
      (Largemalloc.insert_above debug ⟨m, c, search_size, head, chunks⟩).mem (r + 8) = m (r + 8) ∧
      (Largemalloc.insert_above debug ⟨m, c, search_size, head, chunks⟩).mem (r + 32) = m (r + 32) ∧
      (Largemalloc.insert_above debug ⟨m, c, search_size, head, chunks⟩).mem (r + 40) = m (r + 40) := by
    intro r hr
    have hr' : r ∈ (bin_t.mk (gs₁ ++ [⟨q, above⟩] ++ gs₂) []).chunks := mem_of_other hr
    have hspace := hother r hr'
    have hne : ∀ r' ∈ q :: above, r ≠ r' := fun r' hr'' => ne_of_other hs' hr hr''
    refine ⟨hword r hr' 8 (by omega), hframe _ (by omega) fun r' hr'' => ⟨fun heq => ?_, fun heq => ?_⟩,
      hframe _ (by omega) fun r' hr'' => ⟨fun heq => ?_, fun heq => ?_⟩⟩
    · exact hne r' hr'' (by omega)
    · exact hne r' hr'' (hs'.word_inj hr' (hmem r' hr'') (by omega) (by omega) heq).1
    · exact hne r' hr'' (hs'.word_inj hr' (hmem r' hr'') (by omega) (by omega) heq).1
    · exact hne r' hr'' (by omega)
  constructor
  · refine BinAt.edit gs₁ [⟨q, above⟩] [⟨q, c :: above⟩] gs₂ [] [] h ?_ ?_ (by simp) ?_ ?_
    · have hlevel : (bin_t.mk (gs₁ ++ [⟨q, c :: above⟩] ++ gs₂) []).level
          = (bin_t.mk (gs₁ ++ [⟨q, above⟩] ++ gs₂) []).level := by
        simp [bin_t.level]
      rw [hlevel]
      refine h.d.congr (fun _ => ⟨hframe _ (by omega) fun r hr => ?_, hframe _ (by omega) fun r hr => ?_⟩)
        fun x hx => ?_
      · have hlt' := hs'.header_lt hi (hmem r hr)
        omega
      · have hlt' := hs'.header_lt hi (hmem r hr)
        omega
      · obtain ⟨r, hr, rfl⟩ := List.mem_map.mp hx
        have hr' := mem_chunks_of_mem_level hr
        exact ⟨hword r hr' 16 (by omega), hword r hr' 24 (by omega)⟩
    · exact fun g hg' r hr => hrest r (mem_chunks_of_sorted hg' hr)
    · intro g hg'
      rw [List.mem_singleton.mp hg']
      constructor
      · have hring : Ring m 0 ([q + 32] ++ above.map (· + 32)) := hu
        have hspaced : Spaced (q :: c :: above) := by
          have hgroup := (@group_sublist gs₁ gs₂ ⟨q, above⟩ []).append (List.Sublist.refl [c])
          refine (hs.sublist hgroup).perm ?_
          exact (@List.perm_append_comm _ [c] above).cons q
        have hapart := apart_u hspaced
        refine hring.insert hapart ?_ ?_ ?_
        · refine ⟨fun _ => ?_, fun _ => hc40⟩
          have hq : ([q + 32] : List ℕ).getLastD 0 = q + 32 := rfl
          rw [hq, hread _ (by omega), if_pos rfl]
        · rw [← hup]
          refine ⟨fun _ => hc32, fun h0 => ?_⟩
          have hfar := hup_far h0
          rw [hread _ (by omega), if_neg, if_pos ⟨h0, rfl⟩]
          intro heq
          rcases hfirst with hf | ⟨r, hr, hf⟩
          · exact h0 hf
          · have hinj := hs'.word_inj (hmem q List.mem_cons_self) (hmem r (List.mem_cons_of_mem q hr))
              (a := 32) (b := 40) (by omega) (by omega) (by omega)
            omega
        · intro w hw h1 h2 h3 h4
          have h1' : w ≠ q + 32 := h1
          rw [← hup] at h2
          have hw' : WordOf (0 :: (q :: above).map (· + 32)) w := hw
          obtain ⟨r, hr, hw⟩ := wordOf_u hw'
          have hspace := hother r (hmem r hr)
          rw [hread _ (by omega), if_neg h1', if_neg fun h => h2 h.2]
      · intro r hr
        have hqw := hword q (hmem q List.mem_cons_self) 8 (by omega)
        rcases List.mem_cons.mp hr with rfl | hr
        · rw [hqw, ← hsize]
          refine hframe _ (by omega) fun r' hr' => ?_
          have hspace := hother r' (hmem r' hr')
          omega
        · rw [hqw, hword r (hmem r (List.mem_cons_of_mem q hr)) 8 (by omega)]
          exact h.same _ hg r hr
    · have hmap : (gs₁ ++ [group_t.mk q (c :: above)] ++ gs₂).map
            (fun g => (Largemalloc.insert_above debug ⟨m, c, search_size, head, chunks⟩).mem (g.bottom + 8))
          = (gs₁ ++ [group_t.mk q above] ++ gs₂).map fun g => m (g.bottom + 8) := by
        have hgs : ∀ g ∈ gs₁ ++ gs₂,
            (Largemalloc.insert_above debug ⟨m, c, search_size, head, chunks⟩).mem (g.bottom + 8)
              = m (g.bottom + 8) := fun g hg' =>
          (hrest g.bottom (mem_chunks_of_sorted hg' List.mem_cons_self)).1
        simp only [List.map_append, List.map_singleton]
        rw [List.map_congr_left fun g hg' => hgs g (List.mem_append_left _ hg'),
          List.map_congr_left fun g hg' => hgs g (List.mem_append_right _ hg'),
          hword q (hmem q List.mem_cons_self) 8 (by omega)]
      rw [hmap]
      exact h.decreasing
  · intro w hw
    obtain ⟨-, -, h3⟩ := not_own hw
    refine hframe w ?_ fun r hr => ⟨h3 r (hold r (hmem r hr)) 32 (by omega) (by omega),
      h3 r (hold r (hmem r hr)) 40 (by omega) (by omega)⟩
    by_contra hcon
    exact h3 c hc (w - c) (by omega) (by omega) (by omega)

/-! ## The last loop of `really_sort_bin` -/

/-- `head` is the first chunk of `rest`. The chunks still to be inserted get no
larger, and those of `done` are larger than all of them. `m₀` is the memory
before the loop, and `chunks` are all chunks of the bin. -/
structure SortInv (m₀ : mem_t) (i : ℕ) (chunks : List ℕ) (done rest : List group_t) (s : sort_t) :
    Prop where
  bin : BinAt s.mem (largebins i) ⟨done ++ rest, []⟩
  head : s.head = ((rest.map group_t.bottom).map (· + 16)).headD (largebins i)
  search_size : s.search_size = m₀ (s.chunk1 + 8)
  larger : ∀ g ∈ done, s.search_size < m₀ (g.bottom + 8)
  descending : ((s.chunk1 :: s.chunks).map fun p => m₀ (p + 8)).Pairwise (· ≥ ·)
  perm : ((bin_t.mk (done ++ rest) []).chunks ++ s.chunk1 :: s.chunks).Perm chunks
  frame : ∀ w, ¬ Own (largebins i) chunks w → s.mem w = m₀ w

/-- The sizes are no words of the lists. -/
theorem size_not_own {chunks : List ℕ} (hs : Spaced chunks) (hi : i < N_BINS) (hp : p ∈ chunks) :
    ¬ Own (largebins i) chunks (p + 8) := by
  have hlt := hs.header_lt hi hp
  rintro (h | h | ⟨q, hq, h16, h48⟩)
  · omega
  · omega
  · have hinj := (hs.word_inj hp hq (a := 8) (b := p + 8 - q) (by omega) (by omega) (by omega)).2
    omega

/-- What the end of a turn does after an insertion. -/
theorem SortInv.next_chunk1 {m₀ : mem_t} {chunks : List ℕ} {done rest : List group_t} {s : sort_t}
    (hbin : BinAt s.mem (largebins i) ⟨done ++ rest, []⟩)
    (hhead : s.head = ((rest.map group_t.bottom).map (· + 16)).headD (largebins i))
    (hs : Spaced chunks) (hi : i < N_BINS)
    (hlarger : ∀ g ∈ done, m₀ (s.chunk1 + 8) < m₀ (g.bottom + 8))
    (hdesc : ((s.chunk1 :: s.chunks).map fun p => m₀ (p + 8)).Pairwise (· ≥ ·))
    (hperm : ((bin_t.mk (done ++ rest) []).chunks ++ s.chunks).Perm chunks)
    (hframe : ∀ w, ¬ Own (largebins i) chunks w → s.mem w = m₀ w) :
    match next_chunk1 s with
    | .cont s' => SortInv m₀ i chunks done rest s' ∧ s'.chunks.length + 1 = s.chunks.length
    | .done m' => m' = s.mem ∧ s.chunks = [] := by
  obtain ⟨m, c, search_size, head, cs⟩ := s
  cases cs with
  | nil => exact ⟨rfl, rfl⟩
  | cons c' cs =>
      have hmem : c' ∈ chunks := hperm.subset (by simp)
      have hsize : m (c' + 8) = m₀ (c' + 8) := hframe _ (size_not_own hs hi hmem)
      simp only [List.map_cons] at hdesc
      rw [List.pairwise_cons] at hdesc
      refine ⟨⟨hbin, hhead, hsize, fun g hg => ?_, hdesc.2, hperm, hframe⟩, rfl⟩
      have hle : m₀ (c' + 8) ≤ m₀ (c + 8) := hdesc.1 _ (by simp)
      have hlt : m₀ (c + 8) < m₀ (g.bottom + 8) := hlarger g hg
      show m (c' + 8) < m₀ (g.bottom + 8)
      omega

/-- What is left to do. -/
def sort_measure (rest : List group_t) (s : sort_t) : ℕ := 2 * s.chunks.length + rest.length

/-- One turn inserts a chunk, or passes a group of larger ones. -/
theorem SortInv.turn {m₀ : mem_t} {chunks : List ℕ} {done rest : List group_t} {s : sort_t}
    (h : SortInv m₀ i chunks done rest s) (hs : Spaced chunks) (hi : i < N_BINS) :
    match sort_turn debug (largebins i) s with
    | .cont s' => ∃ done' rest', SortInv m₀ i chunks done' rest' s' ∧
        sort_measure rest' s' < sort_measure rest s
    | .done m' => ∃ gs, BinAt m' (largebins i) ⟨gs, []⟩ ∧ (bin_t.mk gs []).chunks.Perm chunks ∧
        ∀ w, ¬ Own (largebins i) chunks w → m' w = m₀ w := by
  have hmem : ∀ g ∈ done ++ rest, ∀ q ∈ g.chunks, q ∈ chunks := fun g hg q hq =>
    h.perm.subset (List.mem_append_left _ (mem_chunks_of_sorted hg hq))
  have hsize : ∀ q ∈ chunks, s.mem (q + 8) = m₀ (q + 8) := fun q hq =>
    h.frame _ (size_not_own hs hi hq)
  have hc : s.chunk1 ∈ chunks := h.perm.subset (by simp)
  have hspaced : Spaced ((bin_t.mk (done ++ rest) []).chunks ++ [s.chunk1]) := by
    refine (hs.perm h.perm).sublist (List.Sublist.append_left ?_ _)
    exact (List.nil_sublist _).cons_cons s.chunk1
  have hown : ∀ w, ¬ Own (largebins i) chunks w →
      ¬ Own (largebins i) ((bin_t.mk (done ++ rest) []).chunks ++ [s.chunk1]) w := by
    rintro w hw (h1 | h1 | ⟨q, hq, h1⟩)
    · exact hw (Or.inl h1)
    · exact hw (Or.inr (Or.inl h1))
    · refine hw (Or.inr (Or.inr ⟨q, h.perm.subset ?_, h1⟩))
      simp only [List.mem_append, List.mem_cons, List.not_mem_nil, or_false] at hq ⊢
      tauto
  have hheadsize : ∀ g gs, rest = g :: gs → s.mem (data2chunk s.head + 8) = m₀ (g.bottom + 8) ∧
      s.head = g.bottom + 16 := by
    rintro g gs rfl
    have hhead : s.head = g.bottom + 16 := h.head
    have hchunk : data2chunk (g.bottom + 16) = g.bottom := by
      unfold data2chunk CHUNK_HEADER_SIZE
      omega
    rw [hhead, hchunk]
    exact ⟨hsize _ (hmem g (by simp) _ List.mem_cons_self), rfl⟩
  have hdec := h.bin.decreasing
  rw [List.map_append, List.pairwise_append] at hdec
  unfold sort_turn
  by_cases hfound : s.head = largebins i ∨ s.mem (data2chunk s.head + 8) < s.search_size
  · -- no group of this size
    rw [if_pos hfound]
    have hsmaller : ∀ g ∈ rest, s.mem (g.bottom + 8) < s.mem (s.chunk1 + 8) := by
      intro g hg
      cases rest with
      | nil => simp at hg
      | cons g' gs =>
          obtain ⟨hsz, hh⟩ := hheadsize g' gs rfl
          have hg'mem : g'.bottom ∈ chunks := hmem g' (by simp) _ List.mem_cons_self
          have hlt := hs.header_lt hi hg'mem
          have hlt' : s.mem (g'.bottom + 8) < s.mem (s.chunk1 + 8) := by
            rw [hsize _ hg'mem, hsize _ hc, ← h.search_size, ← hsz]
            rcases hfound with hf | hf
            · omega
            · exact hf
          rcases List.mem_cons.mp hg with rfl | hg
          · exact hlt'
          · rw [List.map_cons, List.pairwise_cons] at hdec
            have hg' : s.mem (g.bottom + 8) < s.mem (g'.bottom + 8) :=
              hdec.2.1.1 _ (List.mem_map_of_mem hg)
            omega
    have hlarger : ∀ g ∈ done, s.mem (s.chunk1 + 8) < s.mem (g.bottom + 8) := by
      intro g hg
      rw [hsize _ hc, hsize _ (hmem g (List.mem_append_left _ hg) _ List.mem_cons_self), ← h.search_size]
      exact h.larger g hg
    obtain ⟨hbin, hframe⟩ := h.bin.insert_before hi hspaced h.head hlarger hsmaller
    rw [List.append_assoc, List.singleton_append] at hbin
    have hperm : ((bin_t.mk (done ++ ⟨s.chunk1, []⟩ :: rest) []).chunks ++ s.chunks).Perm chunks := by
      refine List.Perm.trans ?_ h.perm
      rw [← List.singleton_append, ← List.append_assoc done]
      refine ((chunks_perm).append_right _).trans ?_
      rw [List.flatMap_singleton]
      exact List.perm_middle.symm
    have hnext := @SortInv.next_chunk1 i m₀ chunks done _ _ hbin rfl hs hi
      (fun g hg => h.search_size ▸ h.larger g hg) h.descending hperm
      (fun w hw => (hframe w (hown w hw)).trans (h.frame w hw))
    cases hcf : Largemalloc.next_chunk1 (insert_before s) with
    | cont s' =>
        rw [hcf] at hnext
        have hlen : s'.chunks.length + 1 = s.chunks.length := hnext.2
        refine ⟨done, _, hnext.1, ?_⟩
        unfold sort_measure
        rw [List.length_cons]
        omega
    | done m' =>
        rw [hcf] at hnext
        obtain ⟨rfl, hnil⟩ := hnext
        have hnil' : s.chunks = [] := hnil
        rw [hnil', List.append_nil] at hperm
        exact ⟨_, hbin, hperm, fun w hw => (hframe w (hown w hw)).trans (h.frame w hw)⟩
  · rw [if_neg hfound]
    push Not at hfound
    obtain ⟨hne, hge⟩ := hfound
    -- the head is a group of this size or of a larger one
    cases rest with
    | nil => exact absurd h.head hne
    | cons g gs =>
        obtain ⟨hsz, hh⟩ := hheadsize g gs rfl
        by_cases heq : s.mem (data2chunk s.head + 8) = s.search_size
        · rw [if_pos heq]
          obtain ⟨q, above⟩ := g
          have hsame : s.mem (s.chunk1 + 8) = s.mem (q + 8) := by
            rw [hsize _ hc, hsize q (hmem ⟨q, above⟩ (by simp) q List.mem_cons_self), ← h.search_size,
              ← heq, hsz]
          have hsplit : done ++ (⟨q, above⟩ : group_t) :: gs = done ++ [⟨q, above⟩] ++ gs := by simp
          have hbin := h.bin
          have hperm := h.perm
          rw [hsplit] at hbin hspaced hown hperm
          obtain ⟨hbin', hframe⟩ := @BinAt.insert_above i debug _ _ _ _ _ hbin hi hspaced hh hsame
          rw [List.append_assoc, List.singleton_append] at hbin'
          have hperm' : ((bin_t.mk (done ++ ⟨q, s.chunk1 :: above⟩ :: gs) []).chunks ++ s.chunks).Perm
              chunks := by
            refine List.Perm.trans ?_ hperm
            have hleft : (bin_t.mk (done ++ ⟨q, s.chunk1 :: above⟩ :: gs) []).chunks ++ s.chunks
                = (done.flatMap group_t.chunks ++ [q])
                  ++ s.chunk1 :: (above ++ gs.flatMap group_t.chunks ++ s.chunks) := by
              simp [bin_t.chunks, group_t.chunks]
            have hright : s.chunk1 :: ((bin_t.mk (done ++ [⟨q, above⟩] ++ gs) []).chunks ++ s.chunks)
                = s.chunk1 :: ((done.flatMap group_t.chunks ++ [q])
                  ++ (above ++ gs.flatMap group_t.chunks ++ s.chunks)) := by
              simp [bin_t.chunks, group_t.chunks]
            rw [hleft]
            exact List.perm_middle.trans (hright ▸ List.perm_middle.symm)
          have hnext := @SortInv.next_chunk1 i m₀ chunks done _ _ hbin' hh hs hi
            (fun g hg => h.search_size ▸ h.larger g hg) h.descending hperm'
            (fun w hw => (hframe w (hown w hw)).trans (h.frame w hw))
          cases hcf : Largemalloc.next_chunk1 (insert_above debug s) with
          | cont s' =>
              rw [hcf] at hnext
              have hlen : s'.chunks.length + 1 = s.chunks.length := hnext.2
              refine ⟨done, _, hnext.1, ?_⟩
              unfold sort_measure
              simp only [List.length_cons]
              omega
          | done m' =>
              rw [hcf] at hnext
              obtain ⟨rfl, hnil⟩ := hnext
              have hnil' : s.chunks = [] := hnil
              rw [hnil', List.append_nil] at hperm'
              exact ⟨_, hbin', hperm', fun w hw => (hframe w (hown w hw)).trans (h.frame w hw)⟩
        · rw [if_neg heq]
          have hring := h.bin.d
          have hlevel : (bin_t.mk (done ++ g :: gs) []).level
              = done.map group_t.bottom ++ g.bottom :: gs.map group_t.bottom := by
            simp [bin_t.level]
          rw [hlevel] at hring
          have hdown := (d_words hring).1
          have hsplit : done ++ g :: gs = (done ++ [g]) ++ gs := by simp
          refine ⟨done ++ [g], gs, ⟨?_, ?_, h.search_size, ?_, h.descending, ?_, h.frame⟩, ?_⟩
          · rw [← hsplit]
            exact h.bin
          · show s.mem s.head = _
            rw [hh]
            exact hdown
          · intro g' hg'
            rcases List.mem_append.mp hg' with hg' | hg'
            · exact h.larger g' hg'
            · rw [List.mem_singleton.mp hg', ← hsz]
              show s.search_size < s.mem (data2chunk s.head + 8)
              omega
          · rw [← hsplit]
            exact h.perm
          · unfold sort_measure
            simp only [List.length_cons]
            omega

/-- The whole loop. -/
theorem SortInv.loop {m₀ : mem_t} {chunks : List ℕ} {done rest : List group_t} {s : sort_t}
    (h : SortInv m₀ i chunks done rest s) (hs : Spaced chunks) (hi : i < N_BINS) :
    Returns (Lib.loop (fun s => some (sort_turn debug (largebins i) s)) s) fun m' =>
      ∃ gs, BinAt m' (largebins i) ⟨gs, []⟩ ∧ (bin_t.mk gs []).chunks.Perm chunks ∧
        ∀ w, ¬ Own (largebins i) chunks w → m' w = m₀ w := by
  refine loop.spec_turns
    (fun n s => ∃ done rest, SortInv m₀ i chunks done rest s ∧ sort_measure rest s = n) ?_
    ⟨done, rest, h, rfl⟩
  rintro n s ⟨done, rest, hinv, rfl⟩
  have hturn := @SortInv.turn i debug m₀ chunks done rest s hinv hs hi
  refine returns_some ?_
  cases hcf : sort_turn debug (largebins i) s with
  | cont s' =>
      rw [hcf] at hturn
      obtain ⟨done', rest', hinv', hlt⟩ := hturn
      exact ⟨_, hlt, done', rest', hinv', rfl⟩
  | done m' =>
      rw [hcf] at hturn
      exact hturn

/-! ## The first loops of `really_sort_bin` -/

theorem scan_unsorted_eq {end_ scan count : ℕ} : scan_unsorted m end_ scan count =
    if scan ≠ end_ ∧ m (data2chunk scan + 32) = UU_UNSORTED then
      scan_unsorted m end_ (m (scan + 8)) (count + 1)
    else some (scan, count) := by
  unfold scan_unsorted
  rw [loop_eq]
  by_cases h : scan ≠ end_ ∧ m (data2chunk scan + 32) = UU_UNSORTED
  · simp only [if_pos h, Option.bind_eq_bind, Option.bind_some]
  · simp only [if_neg h, Option.bind_eq_bind, Option.bind_some]

theorem data2chunk_d {q : ℕ} : data2chunk (q + 16) = q := by
  unfold data2chunk CHUNK_HEADER_SIZE
  omega

/-- The last one of some chunks in the `d` list. -/
theorem getLastD_level {l : List ℕ} {q : ℕ} : ((l ++ [q]).map (· + 16)).getLastD e = q + 16 := by
  rw [List.map_append, List.map_singleton, List.getLastD_concat]

/-- A chunk that is sorted does not bear the mark of the others. -/
theorem BinAt.not_unsorted {b : bin_t} (h : BinAt m e b) {g : group_t} (hg : g ∈ b.sorted)
    (hp : p ∈ g.chunks) : m (p + 32) ≠ UU_UNSORTED := by
  obtain ⟨xs, ys, hsplit⟩ := List.append_of_mem hp
  have hu := h.u g hg
  rw [hsplit] at hu
  rw [(u_words hu).1]
  unfold UU_UNSORTED
  rcases @headD_cases 0 32 ys with heq | ⟨q, -, heq⟩
  · omega
  · omega

/-- `scan` stops before the first unsorted chunk. -/
theorem BinAt.scan_unsorted {gs : List group_t} {us : List ℕ} (h : BinAt m (largebins i) ⟨gs, us⟩)
    (hi : i < N_BINS) (hs : Spaced (bin_t.mk gs us).chunks) : ∀ (us₁ us₂ : List ℕ), us = us₁ ++ us₂ →
    scan_unsorted m (largebins i)
        (((gs.map group_t.bottom ++ us₁).map (· + 16)).getLastD (largebins i)) us₂.length
      = some (((gs.map group_t.bottom).map (· + 16)).getLastD (largebins i), us.length) := by
  intro us₁
  induction us₁ using List.reverseRecOn with
  | nil =>
      rintro us₂ rfl
      rw [List.append_nil, scan_unsorted_eq, if_neg]
      rintro ⟨hne, hmark⟩
      rcases @getLastD_cases (largebins i) 16 (gs.map group_t.bottom) with heq | ⟨q, hq, heq⟩
      · exact hne heq
      · obtain ⟨g, hg, rfl⟩ := List.mem_map.mp hq
        rw [heq, data2chunk_d] at hmark
        exact h.not_unsorted hg List.mem_cons_self hmark
  | append_singleton us₁ q ih =>
      intro us₂ hsplit
      have hsplit' : us = us₁ ++ q :: us₂ := by rw [hsplit, List.append_assoc, List.singleton_append]
      have hq : q ∈ us := hsplit' ▸ by simp
      have hlt := hs.header_lt hi (mem_chunks_of_unsorted (b := ⟨gs, us⟩) hq)
      have hlevel : (bin_t.mk gs us).level = (gs.map group_t.bottom ++ us₁) ++ q :: us₂ := by
        rw [bin_t.level, hsplit', List.append_assoc]
      have hd := h.d
      rw [hlevel] at hd
      rw [← List.append_assoc, getLastD_level, scan_unsorted_eq, data2chunk_d,
        if_pos ⟨by omega, (h.unsorted q hq).1⟩, (d_words hd).2]
      exact ih (q :: us₂) hsplit'

/-- `chunks` gets the unsorted chunks, and `unsorted` ends where `scan` did. -/
theorem fill_chunks_eq {l : List ℕ} {us : List ℕ}
    (hprev : ∀ us₁ q us₂, us = us₁ ++ q :: us₂ → m (q + 24) = ((l ++ us₁).map (· + 16)).getLastD e) :
    ∀ us₁ us₂ : List ℕ, us = us₁ ++ us₂ →
      fill_chunks m us₁.length (((l ++ us₁).map (· + 16)).getLastD e)
        = (us₁.reverse, (l.map (· + 16)).getLastD e) := by
  intro us₁
  induction us₁ using List.reverseRecOn with
  | nil =>
      intro us₂ _
      rw [List.append_nil]
      rfl
  | append_singleton us₁ q ih =>
      intro us₂ hsplit
      have hsplit' : us = us₁ ++ q :: us₂ := by rw [hsplit, List.append_assoc, List.singleton_append]
      rw [← List.append_assoc, getLastD_level, List.length_append, List.length_singleton, fill_chunks,
        data2chunk_d]
      have hq : q + 16 + 8 = q + 24 := by omega
      rw [hq, hprev us₁ q us₂ hsplit', ih (q :: us₂) hsplit', List.reverse_append]
      rfl

/-- The unsorted chunks are cut off the `d` list. -/
theorem BinAt.truncate {gs : List group_t} {us : List ℕ} (h : BinAt m (largebins i) ⟨gs, us⟩)
    (hi : i < N_BINS) (hs : Spaced (bin_t.mk gs us).chunks) {scan : ℕ}
    (hscan : scan = ((gs.map group_t.bottom).map (· + 16)).getLastD (largebins i)) :
    BinAt (store (store m (largebins i + 8) scan) scan (largebins i)) (largebins i) ⟨gs, []⟩ := by
  have hlevel : (bin_t.mk gs us).level = gs.map group_t.bottom ++ us := rfl
  have hsub : (gs.map group_t.bottom).Sublist (bin_t.mk gs us).chunks :=
    (List.sublist_append_left _ us).trans (bin_t.mk gs us).level_sublist
  have hpos : largebins i ≠ 0 := by
    unfold largebins
    omega
  have hcases := @getLastD_cases (largebins i) 16 (gs.map group_t.bottom)
  rw [← hscan] at hcases
  have hne : scan ≠ largebins i + 8 := by
    rcases hcases with heq | ⟨q, hq, heq⟩
    · omega
    · have hlt := hs.header_lt hi (hsub.subset hq)
      omega
  have hd := h.d
  rw [hlevel, List.map_append] at hd
  have hword : ∀ q ∈ (bin_t.mk gs us).chunks, ∀ a, a = 8 ∨ a = 32 ∨ a = 40 →
      store (store m (largebins i + 8) scan) scan (largebins i) (q + a) = m (q + a) := by
    intro q hq a ha
    obtain ⟨h1, h2, h3⟩ := not_d_word hs hi hq (fun r hr => hsub.subset hr) ha
    rw [store_of_ne ?_, store_of_ne h2]
    rcases hcases with heq | ⟨r, hr, heq⟩
    · rwa [heq]
    · rw [heq]
      exact (h3 r hr).1
  have hold : ∀ g ∈ gs, ∀ q ∈ g.chunks, q ∈ (bin_t.mk gs us).chunks := fun g hg q hq =>
    mem_chunks_of_sorted (b := ⟨gs, us⟩) hg hq
  have hring : Ring (store (store m (largebins i + 8) scan) scan (largebins i)) (largebins i)
      ((gs.map group_t.bottom).map (· + 16)) := by
    refine hd.truncate (apart_d hs hi hsub) ?_ fun w _ h1 h2 => ?_
    · rw [← hscan]
      refine ⟨fun _ => store_self, fun _ => ?_⟩
      rw [store_of_ne hne.symm, store_self]
    · rw [← hscan] at h1
      rw [store_of_ne h1, store_of_ne h2]
  have hedit : BinAt (store (store m (largebins i + 8) scan) scan (largebins i)) (largebins i)
      ⟨gs ++ [] ++ [], []⟩ := by
    refine BinAt.edit gs [] [] [] us [] (by simpa using h) ?_ ?_ (by simp) (by simp) ?_
    · simpa [bin_t.level] using hring
    · intro g hg q hq
      have hq' := hold g (by simpa using hg) q hq
      exact ⟨hword q hq' 8 (by omega), hword q hq' 32 (by omega), hword q hq' 40 (by omega)⟩
    · simp only [List.append_nil]
      rw [List.map_congr_left fun g hg =>
        hword g.bottom (hold g hg g.bottom List.mem_cons_self) 8 (by omega)]
      exact h.decreasing
  simpa using hedit

theorem check_eq {prop : Prop} [Decidable prop] (h : debug = true → prop) :
    check debug prop = some () := by
  unfold check c_assert
  cases debug with
  | false => rfl
  | true => rw [if_pos rfl, if_pos (h rfl)]

/-- A bin is sorted whose last chunk is an unsorted one. -/
theorem BinAt.really_sort_bin {gs : List group_t} {us : List ℕ} (q : qsort_t)
    (h : BinAt m (largebins i) ⟨gs, us⟩) (hi : i < N_BINS) (hs : Spaced (bin_t.mk gs us).chunks)
    (hus : us ≠ []) :
    Returns (really_sort_bin debug q m i) fun m' =>
      ∃ gs', BinAt m' (largebins i) ⟨gs', []⟩ ∧
        (bin_t.mk gs' []).chunks.Perm (bin_t.mk gs us).chunks ∧
        ∀ w, ¬ Own (largebins i) (bin_t.mk gs us).chunks w → m' w = m w := by
  obtain ⟨us₀, u, rfl⟩ : ∃ us₀ u, us = us₀ ++ [u] :=
    ⟨us.dropLast, us.getLast hus, (List.dropLast_append_getLast hus).symm⟩
  generalize hus' : us₀ ++ [u] = us at h hs hus ⊢
  have hpos : largebins i ≠ 0 := by
    unfold largebins
    omega
  have hlevel : (bin_t.mk gs us).level = gs.map group_t.bottom ++ us := rfl
  have hmem : ∀ r ∈ us, r ∈ (bin_t.mk gs us).chunks := fun r hr =>
    mem_chunks_of_unsorted (b := ⟨gs, us⟩) hr
  have hlast : m (largebins i + 8) = u + 16 := by
    rw [(h.d.header hpos).2, hlevel, ← hus', ← List.append_assoc, getLastD_level]
  have hprev : ∀ us₁ r us₂, us = us₁ ++ r :: us₂ →
      m (r + 24) = ((gs.map group_t.bottom ++ us₁).map (· + 16)).getLastD (largebins i) := by
    intro us₁ r us₂ hsplit
    have hd := h.d
    rw [hlevel, hsplit, ← List.append_assoc] at hd
    exact (d_words hd).2
  generalize hscan : ((gs.map group_t.bottom).map (· + 16)).getLastD (largebins i) = scan
  have hfirst : Largemalloc.scan_unsorted m (largebins i) (m (u + 16 + 8)) 1 = some (scan, us.length) := by
    have hrun := h.scan_unsorted hi hs us₀ [u] hus'.symm
    rw [← hprev us₀ u [] hus'.symm, hscan] at hrun
    exact hrun
  have htrunc := h.truncate hi hs hscan.symm
  -- the words of the header and of one chunk
  have hcases := @getLastD_cases (largebins i) 16 (gs.map group_t.bottom)
  rw [hscan] at hcases
  have hcut : ∀ w, ¬ Own (largebins i) (bin_t.mk gs us).chunks w →
      store (store m (largebins i + 8) scan) scan (largebins i) w = m w := by
    intro w hw
    obtain ⟨h1, h2, h3⟩ := not_own hw
    rw [store_of_ne ?_, store_of_ne h2]
    rcases hcases with heq | ⟨r, hr, heq⟩
    · rwa [heq]
    · obtain ⟨g, hg, rfl⟩ := List.mem_map.mp hr
      rw [heq]
      exact h3 g.bottom (mem_chunks_of_sorted (b := ⟨gs, us⟩) hg List.mem_cons_self) 16 (by omega) (by omega)
  have hcut24 : ∀ r ∈ us, store (store m (largebins i + 8) scan) scan (largebins i) (r + 24) = m (r + 24) := by
    intro r hr
    have hlt := hs.header_lt hi (hmem r hr)
    rw [store_of_ne ?_, store_of_ne (by omega)]
    rcases hcases with heq | ⟨r', hr', heq⟩
    · omega
    · obtain ⟨g, hg, rfl⟩ := List.mem_map.mp hr'
      intro heq'
      have hinj := hs.word_inj (hmem r hr)
        (mem_chunks_of_sorted (b := ⟨gs, us⟩) hg List.mem_cons_self)
        (a := 24) (b := 16) (by omega) (by omega) (by omega)
      omega
  generalize hm₀ : store (store m (largebins i + 8) scan) scan (largebins i) = m₀ at htrunc hcut hcut24
  have hloop : ∀ c cs, (c :: cs).Perm us → ((c :: cs).map fun p => m₀ (p + 8)).Pairwise (· ≥ ·) →
      Returns (loop (fun s => some (sort_turn debug (largebins i) s))
        ⟨m₀, c, m₀ (c + 8), m₀ (largebins i), cs⟩) fun m' =>
        ∃ gs', BinAt m' (largebins i) ⟨gs', []⟩ ∧
          (bin_t.mk gs' []).chunks.Perm (bin_t.mk gs us).chunks ∧
          ∀ w, ¬ Own (largebins i) (bin_t.mk gs us).chunks w → m' w = m w := by
    intro c cs hperm hdesc
    have hinv : SortInv m₀ i (bin_t.mk gs us).chunks [] gs ⟨m₀, c, m₀ (c + 8), m₀ (largebins i), cs⟩ := by
      refine ⟨htrunc, ?_, rfl, by simp, hdesc, ?_, fun _ _ => rfl⟩
      · have hheader := (htrunc.d.header hpos).1
        simpa [bin_t.level] using hheader
      · simp only [bin_t.chunks, List.append_nil, List.nil_append]
        exact List.Perm.append_left _ hperm
    refine (hinv.loop hs hi).mono ?_
    rintro m' ⟨gs', hbin, hp, hframe⟩
    exact ⟨gs', hbin, hp, fun w hw => (hframe w hw).trans (hcut w hw)⟩
  unfold Largemalloc.really_sort_bin
  simp only [hlast, hfirst, hm₀, Option.bind_eq_bind, Option.bind_some]
  by_cases hone : us.length = 1
  · rw [if_pos hone, data2chunk_d]
    refine hloop u [] ?_ (by simp)
    have hnil : us₀ = [] := by
      rw [← hus', List.length_append, List.length_singleton] at hone
      exact List.length_eq_zero_iff.mp (by omega)
    rw [← hus', hnil, List.nil_append]
  · have hfill : fill_chunks m₀ us.length (u + 16) = (us.reverse, scan) := by
      have hrun := @fill_chunks_eq m₀ (largebins i) (gs.map group_t.bottom) us
        (fun us₁ r us₂ hsplit => (hcut24 r (hsplit ▸ by simp)).trans (hprev us₁ r us₂ hsplit))
        us [] (by rw [List.append_nil])
      have hlevel' : ((gs.map group_t.bottom ++ us).map (· + 16)).getLastD (largebins i) = u + 16 := by
        rw [← hus', ← List.append_assoc, getLastD_level]
      rwa [hlevel', hscan] at hrun
    rw [if_neg hone, hfill, check_eq fun _ => rfl]
    -- the sorted array, in the order of the loop
    have hperm := ((List.reverse_perm _).trans (q.perm (fun p => m₀ (p + 8)) us.reverse)).trans
      (List.reverse_perm us)
    have hdesc := List.pairwise_reverse.mpr (q.sorted (fun p => m₀ (p + 8)) us.reverse)
    rw [Option.bind_some]
    generalize (q.qsort (fun p => m₀ (p + 8)) us.reverse).reverse = sorted at hperm hdesc ⊢
    cases sorted with
    | nil => exact absurd (List.nil_perm.mp hperm) hus
    | cons c cs => exact hloop c cs hperm (List.pairwise_map.mpr hdesc)

/-- **`sort_bin`** leaves the same chunks in the bin, all of them sorted. -/
theorem BinAt.sort_bin {b : bin_t} (q : qsort_t) (h : BinAt m (largebins i) b) (hi : i < N_BINS)
    (hs : Spaced b.chunks) :
    Returns (sort_bin debug q m i) fun m' =>
      ∃ gs, BinAt m' (largebins i) ⟨gs, []⟩ ∧ (bin_t.mk gs []).chunks.Perm b.chunks ∧
        ∀ w, ¬ Own (largebins i) b.chunks w → m' w = m w := by
  obtain ⟨gs, us⟩ := b
  have hpos : largebins i ≠ 0 := by
    unfold largebins
    omega
  have hlast := (h.d.header hpos).2
  have hlevel : (bin_t.mk gs us).level = gs.map group_t.bottom ++ us := rfl
  rw [hlevel] at hlast
  unfold Largemalloc.sort_bin
  by_cases hus : us = []
  · -- the last chunk, if there is one, is sorted
    subst hus
    rw [if_neg]
    · exact returns_some ⟨gs, h, List.Perm.refl _, fun _ _ => rfl⟩
    · rintro ⟨hne, hmark⟩
      rw [List.append_nil] at hlast
      rcases @getLastD_cases (largebins i) 16 (gs.map group_t.bottom) with heq | ⟨r, hr, heq⟩
      · exact hne (hlast.trans heq)
      · obtain ⟨g, hg, rfl⟩ := List.mem_map.mp hr
        rw [hlast, heq, data2chunk_d] at hmark
        exact h.not_unsorted (b := ⟨gs, []⟩) hg List.mem_cons_self hmark
  · rw [if_pos]
    · exact h.really_sort_bin q hi hs hus
    · obtain ⟨us₀, u, rfl⟩ : ∃ us₀ u, us = us₀ ++ [u] :=
        ⟨us.dropLast, us.getLast hus, (List.dropLast_append_getLast hus).symm⟩
      rw [← List.append_assoc, getLastD_level] at hlast
      have hu : u ∈ us₀ ++ [u] := by simp
      have hlt := hs.header_lt hi (mem_chunks_of_unsorted (b := ⟨gs, us₀ ++ [u]⟩) hu)
      rw [hlast, data2chunk_d]
      exact ⟨by omega, (h.unsorted u hu).1⟩

end Stmgc.C7.Largemalloc
