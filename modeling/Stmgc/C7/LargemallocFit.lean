/-
`_stm_large_malloc`: the best fit.

The bins are in the order of the sizes of their chunks, since `largebin_index` is
monotone. So the smallest chunk that fits is in the bin of the requested size, or
the smallest one of the next bin that is not empty.
-/
import Stmgc.C7.LargemallocFree

open Stmgc.Lib

namespace Stmgc.C7.Largemalloc

/-! ## The search -/

section Search

variable {m m' : mem_t} {bins : ℕ → bin_t} {F : List ℕ} {gs : List group_t} {e i p request_size : ℕ}
  {debug : Bool}

theorem largebin_index_mono {a b : ℕ} (h : a ≤ b) : largebin_index a ≤ largebin_index b := by
  unfold largebin_index
  simp only [Nat.shiftLeft_eq, Nat.shiftRight_eq_div_pow]
  split_ifs <;> omega

theorem scan_bin_end : scan_bin debug m e request_size e = some none := by
  unfold scan_bin
  rw [loop_eq]
  simp

/-- One turn of the scan through a bin. -/
theorem scan_bin_turn (hne : p + 16 ≠ e) (hfree : m p = THIS_CHUNK_FREE)
    (htag : m (next_chunk m p) = m (p + 8))
    (hdec : m (p + 24) ≠ e → m (data2chunk (m (p + 24)) + 8) > m (p + 8)) :
    scan_bin debug m e request_size (p + 16) =
      if m (p + 8) ≥ request_size then some (some p)
      else scan_bin debug m e request_size (m (p + 24)) := by
  conv_lhs => unfold scan_bin
  rw [loop_eq]
  rw [if_neg hne]
  simp only [data2chunk_d, check_eq fun _ => hfree, check_eq fun _ => htag, check_eq fun _ => hdec,
    Option.bind_eq_bind, Option.bind_some]
  by_cases hfit : m (p + 8) ≥ request_size
  · simp only [if_pos hfit, Option.bind_some]
  · simp only [if_neg hfit, Option.bind_some]
    rfl

/-- The scan finds the last chunk in the `d` list that fits. -/
theorem BinAt.scan_bin (h : BinAt m (largebins i) ⟨gs, []⟩) (hi : i < N_BINS)
    (hs : Spaced (bin_t.mk gs []).chunks)
    (hfree : ∀ g ∈ gs, m g.bottom = THIS_CHUNK_FREE ∧ m (next_chunk m g.bottom) = m (g.bottom + 8)) :
    ∀ gs₁ gs₂, gs = gs₁ ++ gs₂ →
      Largemalloc.scan_bin debug m (largebins i) request_size
          (((gs₁.map group_t.bottom).map (· + 16)).getLastD (largebins i))
        = some (((gs₁.map group_t.bottom).reverse.find? fun p => decide (request_size ≤ m (p + 8)))) := by
  intro gs₁
  induction gs₁ using List.reverseRecOn with
  | nil =>
      intro gs₂ _
      exact scan_bin_end
  | append_singleton gs₁ g ih =>
      rintro gs₂ rfl
      have hg : g ∈ gs₁ ++ [g] ++ gs₂ := by simp
      have hmem : g.bottom ∈ (bin_t.mk (gs₁ ++ [g] ++ gs₂) []).chunks :=
        mem_chunks_of_sorted hg List.mem_cons_self
      have hlt := hs.header_lt hi hmem
      obtain ⟨hmark, htag⟩ := hfree g hg
      have hlevel : (bin_t.mk (gs₁ ++ [g] ++ gs₂) []).level
          = gs₁.map group_t.bottom ++ g.bottom :: gs₂.map group_t.bottom := by
        simp [bin_t.level]
      have hd := h.d
      rw [hlevel] at hd
      have hprev := (d_words hd).2
      rw [List.map_append, List.map_singleton, getLastD_level, scan_bin_turn (by omega) hmark htag ?_]
      · rw [List.reverse_append, List.reverse_singleton, List.singleton_append, List.find?_cons]
        by_cases hfit : request_size ≤ m (g.bottom + 8)
        · simp [hfit]
        · rw [if_neg hfit, hprev, ih ([g] ++ gs₂) (List.append_assoc _ _ _)]
          simp [hfit]
      · -- the sizes decrease
        intro hne
        rw [hprev] at hne ⊢
        rcases List.eq_nil_or_concat gs₁ with rfl | ⟨gs₀, g', hsplit⟩
        · exact absurd rfl hne
        · rw [List.concat_eq_append] at hsplit
          subst hsplit
          rw [List.map_append, List.map_singleton, getLastD_level, data2chunk_d]
          have hdec := h.decreasing
          simp only [List.map_append, List.map_singleton, List.append_assoc] at hdec
          have hpair := (List.pairwise_append.mp hdec).2.1
          exact (List.pairwise_append.mp hpair).2.2 _ List.mem_cons_self _ (by simp)

/-- `mscan` is the chunk in the `d` list of a sorted bin, and none of the free
chunks is a better fit. -/
def Best (m : mem_t) (bins : ℕ → bin_t) (F : List ℕ) (request_size mscan : ℕ) : Prop :=
  ∃ i < N_BINS, ∃ gs₁ g gs₂, bins i = ⟨gs₁ ++ [g] ++ gs₂, []⟩ ∧ mscan = g.bottom ∧
    request_size ≤ m (mscan + 8) ∧ ∀ p ∈ F, request_size ≤ m (p + 8) → m (mscan + 8) ≤ m (p + 8)

/-- Every chunk of a sorted bin has the size of one in the `d` list. -/
theorem BinAt.size_eq (h : BinAt m e ⟨gs, []⟩) (hp : p ∈ (bin_t.mk gs []).chunks) :
    ∃ g ∈ gs, m (p + 8) = m (g.bottom + 8) := by
  have hp' : p ∈ gs.flatMap group_t.chunks := by simpa [bin_t.chunks] using hp
  obtain ⟨g, hg, hpg⟩ := List.mem_flatMap.mp hp'
  refine ⟨g, hg, ?_⟩
  rcases List.mem_cons.mp hpg with rfl | hpg
  · rfl
  · exact h.same g hg p hpg

/-- The scan of the bin of the requested size. -/
theorem Bins.scan_bin (h : Bins m bins F) (hs : Spaced F)
    (hfree : ∀ p ∈ F, m p = THIS_CHUNK_FREE ∧ m (next_chunk m p) = m (p + 8))
    (hgs : bins (largebin_index request_size) = ⟨gs, []⟩) :
    ∃ r, scan_bin debug m (largebins (largebin_index request_size)) request_size
        (m (largebins (largebin_index request_size) + 8)) = some r ∧
      (∀ mscan, r = some mscan → Best m bins F request_size mscan) ∧
      (r = none → ∀ p ∈ F, request_size ≤ m (p + 8) →
        largebin_index request_size < largebin_index (m (p + 8))) := by
  have hi : largebin_index request_size < N_BINS := largebin_index_lt
  have hbin := h.bin _ hi
  have hspaced := h.spaced hs hi
  have hin : ∀ p ∈ (bins (largebin_index request_size)).chunks, p ∈ F := fun p hp => h.mem hi hp
  rw [hgs] at hbin hspaced hin
  have hpos : largebins (largebin_index request_size) ≠ 0 := by
    unfold largebins
    omega
  have hlast := (hbin.d.header hpos).2
  have hlevel : (bin_t.mk gs []).level = gs.map group_t.bottom := by simp [bin_t.level]
  rw [hlevel] at hlast
  have hscan := @BinAt.scan_bin m gs _ request_size debug hbin hi hspaced
    (fun g hg => hfree _ (hin _ (mem_chunks_of_sorted (b := ⟨gs, []⟩) hg List.mem_cons_self)))
    gs [] (List.append_nil gs).symm
  rw [← hlast] at hscan
  refine ⟨_, hscan, ?_, ?_⟩
  · intro mscan hfind
    obtain ⟨hfit, before, after, hsplit, hnot⟩ := List.find?_eq_some_iff_append.mp hfind
    have hmap : gs.map group_t.bottom = after.reverse ++ mscan :: before.reverse := by
      have hrev := congrArg List.reverse hsplit
      rwa [List.reverse_reverse, List.reverse_append, List.reverse_cons, List.append_assoc,
        List.singleton_append] at hrev
    obtain ⟨gs₁, gs', hgs', h₁, hrest⟩ := List.map_eq_append_iff.mp hmap
    obtain ⟨g, gs₂, rfl, rfl, h₂⟩ := List.map_eq_cons_iff.mp hrest
    have hgs₃ : gs = gs₁ ++ [g] ++ gs₂ := by simp [hgs']
    have hfit' : request_size ≤ m (g.bottom + 8) := by simpa using hfit
    refine ⟨_, hi, gs₁, g, gs₂, by rw [hgs, hgs₃], rfl, hfit', fun p hp hpfit => ?_⟩
    have hle := largebin_index_mono hpfit
    rcases Nat.lt_or_ge (largebin_index request_size) (largebin_index (m (p + 8))) with hlt | hge
    · -- a chunk in a higher bin
      by_contra hsmall
      have hmono := @largebin_index_mono (m (p + 8)) (m (g.bottom + 8)) (by omega)
      have hbottom : g.bottom ∈ (bins (largebin_index request_size)).chunks := by
        rw [hgs, hgs₃]
        exact mem_chunks_of_sorted (b := ⟨gs₁ ++ [g] ++ gs₂, []⟩) (by simp) List.mem_cons_self
      rw [h.index _ hi _ hbottom] at hmono
      omega
    · -- a chunk in this bin
      have hmem := (h.mem_bin hp).2
      rw [Nat.le_antisymm hge hle, hgs] at hmem
      obtain ⟨g', hg', hsize⟩ := hbin.size_eq hmem
      rw [hsize]
      rw [hsize] at hpfit
      have hdec := hbin.decreasing
      rw [hgs₃] at hg' hdec
      simp only [List.map_append, List.append_assoc, List.singleton_append] at hdec
      have hdec' := (List.pairwise_append.mp hdec).2.2
      simp only [List.append_assoc, List.singleton_append, List.mem_append, List.mem_cons] at hg'
      rcases hg' with hg' | rfl | hg'
      · have hlt := hdec' _ (List.mem_map_of_mem hg') (m (g.bottom + 8)) (by simp)
        omega
      · exact le_refl _
      · have hbottom : g'.bottom ∈ before := by
          have hrev : g'.bottom ∈ before.reverse := h₂ ▸ List.mem_map_of_mem hg'
          exact List.mem_reverse.mp hrev
        have hsmall := hnot _ hbottom
        simp only [Bool.not_eq_eq_eq_not, Bool.not_true, decide_eq_false_iff_not] at hsmall
        exact absurd hpfit hsmall
  · intro hfind p hp hpfit
    have hle := largebin_index_mono hpfit
    refine lt_of_le_of_ne hle fun heq => ?_
    have hmem := (h.mem_bin hp).2
    rw [← heq, hgs] at hmem
    obtain ⟨g, hg, hsize⟩ := hbin.size_eq hmem
    have hnone := List.find?_eq_none.mp hfind g.bottom
      (List.mem_reverse.mpr (List.mem_map_of_mem hg))
    simp only [decide_eq_true_eq] at hnone
    omega

theorem Spaced.size_not_link (hs : Spaced F) (hp : p ∈ F) : ¬ LinkWord F (p + 8) := by
  have hlow := hs.2 p hp
  rintro (hlt | ⟨q, hq, h16, h48⟩)
  · omega
  · have hinj := (hs.word_inj hp hq (a := 8) (b := p + 8 - q) (by omega) (by omega) (by omega)).2
    omega

/-- The header of an empty bin points to itself. -/
theorem BinAt.empty_iff {b : bin_t} (h : BinAt m (largebins i) b) (hi : i < N_BINS)
    (hs : Spaced b.chunks) : m (largebins i + 8) = largebins i ↔ b.chunks = [] := by
  have hpos : largebins i ≠ 0 := by
    unfold largebins
    omega
  rw [(h.d.header hpos).2]
  constructor
  · intro hlast
    have hlevel : b.level = [] := by
      rcases List.eq_nil_or_concat b.level with hnil | ⟨l, q, hl⟩
      · exact hnil
      · rw [List.concat_eq_append] at hl
        rw [hl, getLastD_level] at hlast
        have hq : q ∈ b.chunks := mem_chunks_of_mem_level (hl ▸ by simp)
        have hlt := hs.header_lt hi hq
        omega
    obtain ⟨hsorted, hunsorted⟩ := List.append_eq_nil_iff.mp hlevel
    unfold bin_t.chunks
    rw [List.map_eq_nil_iff.mp hsorted, hunsorted]
    rfl
  · intro hnil
    have hlevel : b.level = [] := List.sublist_nil.mp (hnil ▸ b.level_sublist)
    rw [hlevel]
    rfl

/-- The search through the higher bins. -/
theorem Bins.search_bins (q : qsort_t) (h : Bins m bins F) (hs : Spaced F)
    (hhigher : ∀ p ∈ F, request_size ≤ m (p + 8) →
      largebin_index request_size < largebin_index (m (p + 8))) :
    Returns (search_bins debug q m (largebin_index request_size)) fun (m', r) =>
      (∃ bins', Bins m' bins' F ∧ ∀ mscan, r = some mscan → Best m' bins' F request_size mscan) ∧
      (r = none → ∀ p ∈ F, m (p + 8) < request_size) ∧
      ∀ w, ¬ LinkWord F w → m' w = m w := by
  have hempty : ∀ j < N_BINS, m (largebins j + 8) = largebins j ↔ (bins j).chunks = [] := fun j hj =>
    (h.bin j hj).empty_iff hj (h.spaced hs hj)
  unfold Largemalloc.search_bins
  cases hfind : (List.range' (largebin_index request_size + 1)
      (N_BINS - (largebin_index request_size + 1))).find?
      fun j => decide (m (largebins j + 8) ≠ largebins j) with
  | none =>
      refine returns_some ⟨⟨bins, h, by simp⟩, fun _ p hp => ?_, fun _ _ => rfl⟩
      by_contra hlarge
      have hlt := hhigher p hp (by omega)
      obtain ⟨hj, hpj⟩ := h.mem_bin hp
      have hnone := List.find?_range'_eq_none.mp hfind _ hlt (by omega)
      simp only [Bool.not_eq_eq_eq_not, Bool.not_true, decide_eq_false_iff_not, not_not] at hnone
      rw [(hempty _ hj).mp hnone] at hpj
      simp at hpj
  | some j =>
      obtain ⟨hne, hmem, hbetween⟩ := List.find?_range'_eq_some.mp hfind
      obtain ⟨hlo, hhi⟩ := List.mem_range'_1.mp hmem
      have hj : j < N_BINS := by
        have hlt : largebin_index request_size < N_BINS := largebin_index_lt
        omega
      have hne' : (bins j).chunks ≠ [] := by
        intro hnil
        simp only [decide_eq_true_eq] at hne
        exact hne ((hempty j hj).mpr hnil)
      obtain ⟨m', hrun, ⟨gs, hbins'⟩, hframe⟩ := h.sort_bin q hs hj
      have hbin' := hbins'.bin j hj
      have hspaced' := hbins'.spaced hs hj
      have hsize : ∀ p ∈ F, m' (p + 8) = m (p + 8) := fun p hp => hframe _ (hs.size_not_link hp)
      have hin : ∀ p ∈ (Function.update bins j ⟨gs, []⟩ j).chunks, p ∈ F := fun p hp => hbins'.mem hj hp
      rw [Function.update_self] at hbin' hspaced' hin
      -- the bin is still not empty
      have hgs : gs ≠ [] := by
        rintro rfl
        obtain ⟨p, hp⟩ := List.exists_mem_of_ne_nil _ hne'
        have hpF := h.mem hj hp
        obtain ⟨_, hp'⟩ := hbins'.mem_bin hpF
        rw [hsize p hpF, h.index j hj p hp, Function.update_self] at hp'
        simp [bin_t.chunks] at hp'
      obtain ⟨gs₁, g, rfl⟩ : ∃ gs₁ g, gs = gs₁ ++ [g] :=
        ⟨gs.dropLast, gs.getLast hgs, (List.dropLast_append_getLast hgs).symm⟩
      have hpos : largebins j ≠ 0 := by
        unfold largebins
        omega
      have hlast : m' (largebins j + 8) = g.bottom + 16 := by
        rw [(hbin'.d.header hpos).2]
        have hlevel : (bin_t.mk (gs₁ ++ [g]) []).level = gs₁.map group_t.bottom ++ [g.bottom] := by
          simp [bin_t.level]
        rw [hlevel, getLastD_level]
      have hbottom : g.bottom ∈ (bin_t.mk (gs₁ ++ [g]) []).chunks :=
        mem_chunks_of_sorted (b := ⟨gs₁ ++ [g], []⟩) (by simp) List.mem_cons_self
      have hindex : largebin_index (m' (g.bottom + 8)) = j :=
        hbins'.index j hj _ (by rw [Function.update_self]; exact hbottom)
      dsimp only
      rw [hrun]
      refine returns_some ⟨⟨_, hbins', ?_⟩, by simp, hframe⟩
      rintro _ ⟨⟩
      dsimp only
      rw [hlast, data2chunk_d]
      refine ⟨j, hj, gs₁, g, [], by rw [Function.update_self, List.append_nil], rfl, ?_, fun p hp hfit => ?_⟩
      · by_contra hsmall
        have hle := @largebin_index_mono (m' (g.bottom + 8)) request_size (by omega)
        omega
      · have hfit' : request_size ≤ m (p + 8) := hsize p hp ▸ hfit
        have hlt := hhigher p hp hfit'
        obtain ⟨hk, hpk⟩ := h.mem_bin hp
        have hge : j ≤ largebin_index (m (p + 8)) := by
          by_contra hlow
          have hskip := hbetween _ hlt (by omega)
          simp only [Bool.not_eq_eq_eq_not, Bool.not_true, decide_eq_false_iff_not, not_not] at hskip
          rw [(hempty _ hk).mp hskip] at hpk
          simp at hpk
        rcases Nat.eq_or_lt_of_le hge with heq | hgt
        · -- a chunk in the same bin
          have hp' := (hbins'.mem_bin hp).2
          rw [hsize p hp, ← heq, Function.update_self] at hp'
          obtain ⟨g', hg', hsz⟩ := hbin'.size_eq hp'
          rw [hsz]
          rcases List.mem_append.mp hg' with hg' | hg'
          · have hdec := hbin'.decreasing
            rw [List.map_append, List.map_singleton] at hdec
            have hlt' := (List.pairwise_append.mp hdec).2.2 _ (List.mem_map_of_mem hg')
              (m' (g.bottom + 8)) (by simp)
            omega
          · rw [List.mem_singleton.mp hg']
        · by_contra hsmall
          have hle := @largebin_index_mono (m' (p + 8)) (m' (g.bottom + 8)) (by omega)
          rw [hsize p hp] at hle
          omega

end Search

/-! ## The chunk that is taken -/

section Take

variable {m m' : mem_t} {bins : ℕ → bin_t} {F : List ℕ} {i p : ℕ} {debug : Bool}

/-- The chunk that is taken is the one that was found, or the one above. -/
theorem take_chunk_spec {gs₁ gs₂ : List group_t} {g : group_t} (h : Bins m bins F) (hs : Spaced F)
    (hi : i < N_BINS) (hgs : bins i = ⟨gs₁ ++ [g] ++ gs₂, []⟩) :
    ∃ F', F.Perm ((take_chunk m g.bottom).2 :: F') ∧
      (∃ bins', Bins (take_chunk m g.bottom).1 bins' F') ∧
      m ((take_chunk m g.bottom).2 + 8) = m (g.bottom + 8) ∧
      ∀ w, ¬ LinkWord F w → (take_chunk m g.bottom).1 w = m w := by
  have hg : g ∈ gs₁ ++ [g] ++ gs₂ := by simp
  have hbin := h.bin i hi
  have hspaced := h.spaced hs hi
  have hin : ∀ p ∈ (bins i).chunks, p ∈ F := fun p hp => h.mem hi hp
  rw [hgs] at hbin hspaced hin
  have hu : Ring m 0 (([] ++ g.bottom :: g.above).map (· + 32)) := hbin.u g hg
  obtain ⟨hup, -⟩ := u_words hu
  obtain ⟨bottom, above⟩ := g
  dsimp only at hup hu ⊢
  cases above with
  | nil =>
      have hup' : m (bottom + 32) = 0 := hup
      have htake : take_chunk m bottom = (unlink_chunk m bottom, bottom) := by
        unfold take_chunk
        rw [if_neg (not_not.mpr hup')]
      have hF : F.Perm (bottom :: F.erase bottom) :=
        List.perm_cons_erase (hin _ (mem_chunks_of_sorted (b := ⟨_, []⟩) hg List.mem_cons_self))
      rw [htake]
      obtain ⟨hbins, hframe⟩ := h.unlink hs hF
      exact ⟨_, hF, hbins, rfl, hframe⟩
  | cons a rest =>
      have hup' : m (bottom + 32) = a + 32 := hup
      have habove : updown2chunk (a + 32) = a := by
        unfold updown2chunk CHUNK_HEADER_SIZE
        omega
      have hu' : Ring m 0 (([bottom] ++ a :: rest).map (· + 32)) := hu
      have hdown : m (a + 40) = bottom + 32 := (u_words hu').2
      have htake : take_chunk m bottom = (if m (a + 32) ≠ 0 then
          store (store m (bottom + 32) (m (a + 32))) (m (a + 32) + 8) (bottom + 32)
          else store m (bottom + 32) (m (a + 32)), a) := by
        unfold take_chunk
        rw [if_pos (by omega), hup', habove]
      have hm' : ∀ w, (take_chunk m bottom).1 w = if m (a + 32) ≠ 0 ∧ w = m (a + 32) + 8 then m (a + 40)
          else if w = m (a + 40) then m (a + 32) else m w := by
        intro w
        rw [htake, hdown]
        by_cases h0 : m (a + 32) = 0
        · simp [h0, store_apply]
        · simp [h0, store_apply]
      have hsplit : (⟨bottom, a :: rest⟩ : group_t) = ⟨bottom, [] ++ a :: rest⟩ := rfl
      rw [hsplit] at hbin hspaced hgs
      obtain ⟨hbin', hown⟩ := hbin.unlink_above hi hspaced hm'
      have ha : a ∈ (bin_t.mk (gs₁ ++ [⟨bottom, [] ++ a :: rest⟩] ++ gs₂) []).chunks :=
        mem_chunks_of_sorted (b := ⟨_, []⟩) (by simp : (⟨bottom, [] ++ a :: rest⟩ : group_t) ∈ _)
          (by simp [group_t.chunks])
      have hperm : (bin_t.mk (gs₁ ++ [⟨bottom, [] ++ a :: rest⟩] ++ gs₂) []).chunks.Perm
          (a :: (bin_t.mk (gs₁ ++ [⟨bottom, [] ++ rest⟩] ++ gs₂) []).chunks) := by
        refine chunks_perm.trans (List.Perm.trans ?_
          ((@chunks_perm gs₁ [⟨bottom, [] ++ rest⟩] gs₂ []).symm.cons a))
        simp only [List.flatMap_singleton, group_t.chunks, List.nil_append, List.cons_append]
        exact List.Perm.swap a bottom _
      have hF : F.Perm (a :: F.erase a) := List.perm_cons_erase (hin a ha)
      have hedit := h.edit [] hi hs hbin' (by rwa [List.append_nil, hgs])
        (fun r hr => by
          rw [List.append_nil, hgs]
          exact hperm.symm.subset (List.mem_cons_of_mem a hr))
        (by simp)
      obtain ⟨⟨others, hothers, hnew⟩, hframe⟩ := hedit
      have ha2 : (take_chunk m bottom).2 = a := by rw [htake]
      rw [ha2]
      refine ⟨F.erase a, hF, ⟨_, hnew _ ?_⟩, ?_, hframe⟩
      · refine List.Perm.cons_inv (a := a) ?_
        rw [hgs] at hothers
        exact ((hperm.symm.append_right others).trans hothers.symm).trans hF
      · exact hbin.same _ (by simp : (⟨bottom, [] ++ a :: rest⟩ : group_t) ∈ _) a (by simp)

end Take

/-! ## What is left of it -/

/-- The chunk `f` when it is taken for `request_size` bytes. -/
def taken (f : chunk_t) (request_size : ℕ) : chunk_t :=
  ⟨f.addr, if f.size - request_size < SIZEOF_CHUNK then f.size else request_size, false⟩

/-- The free chunk that is split off, if the rest can hold one. -/
def rest (f : chunk_t) (request_size : ℕ) : List chunk_t :=
  if f.size - request_size < SIZEOF_CHUNK then []
  else [⟨f.addr + (16 + request_size), f.size - request_size - 16, true⟩]

/-- The memory after the lines that write the header of the chunk. -/
def place (m : mem_t) (mscan request_size : ℕ) : mem_t :=
  store (store (split_chunk m mscan request_size).1 (mscan + 8) (split_chunk m mscan request_size).2)
    mscan BOTH_CHUNKS_USED

section Split

variable {s : lm_t} {bins : ℕ → bin_t} {pre post : List chunk_t} {f : chunk_t} {t request_size : ℕ}

/-- The whole chunk is taken. -/
theorem place_whole (hlow : largebins N_BINS ≤ s.first_chunk)
    (hpre : Seg s.mem BOTH_CHUNKS_USED s.first_chunk pre t f.addr) (hf : ChunkAt s.mem t f)
    (hfree : f.free = true)
    (hpost : Seg s.mem f.size f.next post (s.mem s.last_chunk) s.last_chunk)
    (hmarker : s.mem (s.last_chunk + 8) = END_MARKER)
    (hbins : Bins s.mem bins (frees pre ++ frees post))
    (hsmall : f.size - request_size < SIZEOF_CHUNK) :
    (split_chunk s.mem f.addr request_size).2 = f.size ∧
      Heap { s with mem := place s.mem f.addr request_size } (pre ++ ⟨f.addr, f.size, false⟩ :: post) ∧
      DataKept (pre ++ post) s.mem (place s.mem f.addr request_size) := by
  obtain ⟨m, first, last, total⟩ := s
  simp only at *
  have hmin := hf.min
  have hnext : f.next = f.addr + (16 + f.size) := rfl
  obtain ⟨hle, hin, -⟩ := hpre.bounds
  obtain ⟨hle', hin', -⟩ := hpost.bounds
  have hnextc : next_chunk m f.addr = f.next := by
    unfold next_chunk CHUNK_HEADER_SIZE
    rw [hf.size, hnext]
  have hsplit : split_chunk m f.addr request_size = (store m f.next BOTH_CHUNKS_USED, f.size) := by
    unfold split_chunk
    rw [hf.size, hnextc, if_pos hsmall]
    dsimp only
    rw [store_of_ne (by omega), hf.size]
  have hm' : place m f.addr request_size
      = store (store (store m f.next BOTH_CHUNKS_USED) (f.addr + 8) f.size) f.addr BOTH_CHUNKS_USED := by
    unfold place
    rw [hsplit]
  generalize place m f.addr request_size = m' at hm' ⊢
  have hread : ∀ w, w ≠ f.addr → w ≠ f.addr + 8 → w ≠ f.next → m' w = m w := by
    intro w h1 h2 h3
    rw [hm', store_of_ne h1, store_of_ne h2, store_of_ne h3]
  have hbelow : ∀ d ∈ pre, d.addr + 48 ≤ f.addr := by
    intro d hd
    obtain ⟨-, h2, h3⟩ := hin d hd
    have hdnext : d.next = d.addr + (16 + d.size) := rfl
    omega
  have hused : ∀ d ∈ post.head?, d.free = false := hpost.head_used (by unfold BOTH_CHUNKS_USED; omega)
  refine ⟨by rw [hsplit], ⟨hlow, ?_, ?_, bins, ?_⟩, ?_⟩
  · show Seg m' BOTH_CHUNKS_USED first _ (m' last) last
    refine seg_append.mpr ⟨t, f.addr, hpre.congr fun d hd => ?_, rfl, ⟨?_, hmin, hf.word, ?_, by simp⟩, ?_⟩
    · have h1 := hbelow d hd
      exact ⟨hread _ (by omega) (by omega) (by omega), hread _ (by omega) (by omega) (by omega)⟩
    · show m' (f.addr + 8) = f.size
      rw [hm', store_of_ne (by omega), store_self]
    · show m' f.addr = t
      rw [hm', store_self, hf.lone hfree]
    · refine hpost.retag hused ?_ (fun d hd => ?_) fun hne => hread _ (by omega) (by omega) hne
      · show m' f.next = BOTH_CHUNKS_USED
        rw [hm', store_of_ne (by omega), store_of_ne (by omega), store_self]
      · have h1 := (hin' d hd).1
        exact ⟨hread _ (by omega) (by omega) (by omega), fun hne => hread _ (by omega) (by omega) hne⟩
  · show m' (last + 8) = END_MARKER
    rw [hread _ (by omega) (by omega) (by omega)]
    exact hmarker
  · have hfrees : frees (pre ++ ⟨f.addr, f.size, false⟩ :: post) = frees pre ++ frees post := by
      rw [frees_append, frees_cons_used rfl]
    rw [hfrees]
    refine hbins.congr (fun w hw => hread w (by omega) (by omega) (by omega)) fun q hq w h8 h48 => ?_
    rcases List.mem_append.mp hq with hq | hq
    · obtain ⟨d, hd, -, rfl⟩ := mem_frees hq
      have h1 := hbelow d hd
      exact hread w (by omega) (by omega) (by omega)
    · obtain ⟨d, hd, -, rfl⟩ := mem_frees hq
      have h1 := (hin' d hd).1
      exact hread w (by omega) (by omega) (by omega)
  · intro d hd w hw
    have hdata : d.addr + 16 ≤ w ∧ w < d.next := hw
    rcases List.mem_append.mp (mem_useds.mp hd).1 with hd | hd
    · have h2 := (hin d hd).2.1
      exact hread w (by omega) (by omega) (by omega)
    · have h1 := (hin' d hd).1
      exact hread w (by omega) (by omega) (by omega)

/-- What is left becomes a free chunk. -/
theorem place_split (hlow : largebins N_BINS ≤ s.first_chunk)
    (hpre : Seg s.mem BOTH_CHUNKS_USED s.first_chunk pre t f.addr) (hf : ChunkAt s.mem t f)
    (hfree : f.free = true)
    (hpost : Seg s.mem f.size f.next post (s.mem s.last_chunk) s.last_chunk)
    (hmarker : s.mem (s.last_chunk + 8) = END_MARKER)
    (hbins : Bins s.mem bins (frees pre ++ frees post)) (hmin : 32 ≤ request_size)
    (hword : request_size % 8 = 0) (hlarge : ¬ f.size - request_size < SIZEOF_CHUNK) :
    (split_chunk s.mem f.addr request_size).2 = request_size ∧
      Heap { s with mem := place s.mem f.addr request_size }
        (pre ++ ⟨f.addr, request_size, false⟩ ::
          ⟨f.addr + (16 + request_size), f.size - request_size - 16, true⟩ :: post) ∧
      DataKept (pre ++ post) s.mem (place s.mem f.addr request_size) := by
  obtain ⟨m, first, last, total⟩ := s
  simp only at *
  have hfword := hf.word
  have hnext : f.next = f.addr + (16 + f.size) := rfl
  have hlarge' : request_size + 48 ≤ f.size := by
    unfold SIZEOF_CHUNK at hlarge
    omega
  obtain ⟨hle, hin, -⟩ := hpre.bounds
  obtain ⟨hle', hin', -⟩ := hpost.bounds
  generalize hnew : f.addr + (16 + request_size) = new
  generalize hr : f.size - request_size - 16 = r
  have hend : new + (16 + r) = f.next := by omega
  -- the memory before the new chunk is put in its bin
  obtain ⟨m₀, hm₀⟩ : ∃ m₀, m₀ = store (store (store m new THIS_CHUNK_FREE) (new + 8) r) f.next r := ⟨_, rfl⟩
  have hsplit : split_chunk m f.addr request_size = (insert_unsorted m₀ new, request_size) := by
    unfold split_chunk
    rw [hf.size, if_neg hlarge]
    unfold CHUNK_HEADER_SIZE
    simp only [hnew, hr]
    have hnextc : next_chunk (store (store m new THIS_CHUNK_FREE) (new + 8) r) new = f.next := by
      unfold next_chunk CHUNK_HEADER_SIZE
      rw [store_self, hend]
    rw [hnextc, hm₀]
  have hread₀ : ∀ w, w ≠ new → w ≠ new + 8 → w ≠ f.next → m₀ w = m w := by
    intro w h1 h2 h3
    rw [hm₀, store_of_ne h3, store_of_ne h2, store_of_ne h1]
  have hbelow : ∀ d ∈ pre, d.addr + 48 ≤ f.addr := by
    intro d hd
    obtain ⟨-, h2, h3⟩ := hin d hd
    have hdnext : d.next = d.addr + (16 + d.size) := rfl
    omega
  have hbins₀ : Bins m₀ bins (frees pre ++ frees post) := by
    refine hbins.congr (fun w hw => hread₀ w (by omega) (by omega) (by omega)) fun q hq w h8 h48 => ?_
    rcases List.mem_append.mp hq with hq | hq
    · obtain ⟨d, hd, -, rfl⟩ := mem_frees hq
      have h1 := hbelow d hd
      exact hread₀ w (by omega) (by omega) (by omega)
    · obtain ⟨d, hd, -, rfl⟩ := mem_frees hq
      have h1 := (hin' d hd).1
      exact hread₀ w (by omega) (by omega) (by omega)
  have hs : Spaced (new :: (frees pre ++ frees post)) := by
    constructor
    · refine List.pairwise_cons.mpr ⟨fun q hq => ?_, List.pairwise_append.mpr
        ⟨(hpre.spaced hlow).1, (hpost.spaced (by omega)).1, fun q hq q' hq' => ?_⟩⟩
      · rcases List.mem_append.mp hq with hq | hq
        · obtain ⟨d, hd, -, rfl⟩ := mem_frees hq
          have h1 := hbelow d hd
          omega
        · obtain ⟨d, hd, -, rfl⟩ := mem_frees hq
          have h1 := (hin' d hd).1
          omega
      · obtain ⟨d, hd, -, rfl⟩ := mem_frees hq
        obtain ⟨d', hd', -, rfl⟩ := mem_frees hq'
        have h1 := hbelow d hd
        have h2 := (hin' d' hd').1
        omega
    · intro q hq
      rcases List.mem_cons.mp hq with rfl | hq
      · omega
      · rcases List.mem_append.mp hq with hq | hq
        · exact (hpre.spaced hlow).2 q hq
        · exact (hpost.spaced (by omega)).2 q hq
  obtain ⟨⟨bins', hbins'⟩, hframe⟩ := hbins₀.insert_unsorted hs largebin_index_lt
  have hm' : place m f.addr request_size
      = store (store (insert_unsorted m₀ new) (f.addr + 8) request_size) f.addr BOTH_CHUNKS_USED := by
    unfold place
    rw [hsplit]
  generalize place m f.addr request_size = m' at hm' ⊢
  have hread' : ∀ w, w ≠ f.addr → w ≠ f.addr + 8 → m' w = insert_unsorted m₀ new w := by
    intro w h1 h2
    rw [hm', store_of_ne h1, store_of_ne h2]
  have hread : ∀ w, w ≠ f.addr → w ≠ f.addr + 8 → ¬ LinkWord (new :: (frees pre ++ frees post)) w →
      m' w = m₀ w := fun w h1 h2 h3 => (hread' w h1 h2).trans (hframe w h3)
  have hlink : ∀ w, largebins N_BINS ≤ w → (w < new + 16 ∨ new + 48 ≤ w) →
      ¬ LinkWord (frees pre) w → ¬ LinkWord (frees post) w →
      ¬ LinkWord (new :: (frees pre ++ frees post)) w := by
    rintro w hwlow hplace h1 h2 (hlt | ⟨q, hq, hw⟩)
    · omega
    · rcases List.mem_cons.mp hq with rfl | hq
      · omega
      · exact not_link_append h1 h2 (Or.inr ⟨q, hq, hw⟩)
  -- words that are not in the part before nor in the part after
  have hmiddle : ∀ w, f.addr + 8 < w → w < new + 16 → m' w = m₀ w := fun w h1 h2 =>
    hread w (by omega) (by omega) (hlink w (by omega) (Or.inl h2)
      (hpre.outside_not_link (by omega) (Or.inr (by omega)))
      (hpost.outside_not_link (by omega) (Or.inl (by omega))))
  have hheads_pre : ∀ d ∈ pre, ∀ w, w = d.addr ∨ w = d.addr + 8 → m' w = m w := by
    intro d hd w hw
    have h1 := hbelow d hd
    have h2 := (hin d hd).1
    rw [hread w (by omega) (by omega) (hlink w (by omega) (Or.inl (by omega))
      (hpre.head_not_link hlow hd hw) (hpost.outside_not_link (by omega) (Or.inl (by omega))))]
    exact hread₀ w (by omega) (by omega) (by omega)
  have hheads_post : ∀ d ∈ post, ∀ w, w = d.addr ∨ w = d.addr + 8 → w ≠ f.next → m' w = m w := by
    intro d hd w hw hne
    have h1 := (hin' d hd).1
    rw [hread w (by omega) (by omega) (hlink w (by omega) (Or.inr (by omega))
      (hpre.outside_not_link (by omega) (Or.inr (by omega))) (hpost.head_not_link (by omega) hd hw))]
    exact hread₀ w (by omega) (by omega) hne
  have hlast : ∀ w, last ≤ w → w ≠ f.next → m' w = m w := by
    intro w hw hne
    rw [hread w (by omega) (by omega) (hlink w (by omega) (Or.inr (by omega))
      (hpre.outside_not_link (by omega) (Or.inr (by omega)))
      (hpost.outside_not_link (by omega) (Or.inr hw)))]
    exact hread₀ w (by omega) (by omega) hne
  have hused : ∀ d ∈ post.head?, d.free = false := hpost.head_used (by unfold BOTH_CHUNKS_USED; omega)
  have hfnext : m' f.next = r := by
    rw [hread _ (by omega) (by omega) (hlink _ (by omega) (Or.inr (by omega))
      (hpre.outside_not_link (by omega) (Or.inr (by omega)))
      ?_), hm₀, store_self]
    cases post with
    | nil => exact hpost.outside_not_link (by omega) (Or.inr (by rw [hpost.2]))
    | cons d post => exact hpost.head_not_link (by omega) List.mem_cons_self (Or.inl hpost.1.symm)
  refine ⟨by rw [hsplit], ⟨hlow, ?_, ?_, bins', ?_⟩, ?_⟩
  · show Seg m' BOTH_CHUNKS_USED first _ (m' last) last
    refine seg_append.mpr ⟨t, f.addr, hpre.congr fun d hd => ?_, rfl, ⟨?_, hmin, hword, ?_, by simp⟩,
      hnew.symm, ⟨?_, ?_, ?_, ?_, fun _ => rfl⟩, ?_⟩
    · exact ⟨hheads_pre d hd _ (Or.inl rfl), hheads_pre d hd _ (Or.inr rfl)⟩
    · show m' (f.addr + 8) = request_size
      rw [hm', store_of_ne (by omega), store_self]
    · show m' f.addr = t
      rw [hm', store_self, hf.lone hfree]
    · show m' (new + 8) = r
      rw [hmiddle _ (by omega) (by omega), hm₀, store_of_ne (by omega), store_self]
    · show 32 ≤ r
      omega
    · show r % 8 = 0
      omega
    · show m' new = THIS_CHUNK_FREE
      rw [hmiddle _ (by omega) (by omega), hm₀, store_of_ne (by omega), store_of_ne (by omega), store_self]
    · show Seg m' r (new + (16 + r)) post (m' last) last
      rw [hend]
      refine hpost.retag hused hfnext (fun d hd => ?_) fun hne => hlast _ (le_refl _) hne
      have h1 := (hin' d hd).1
      exact ⟨hheads_post d hd _ (Or.inr rfl) (by omega), fun hne => hheads_post d hd _ (Or.inl rfl) hne⟩
  · show m' (last + 8) = END_MARKER
    rw [hlast _ (by omega) (by omega)]
    exact hmarker
  · have hfrees : (new :: (frees pre ++ frees post)).Perm
        (frees (pre ++ ⟨f.addr, request_size, false⟩ :: ⟨new, r, true⟩ :: post)) := by
      rw [frees_append, frees_cons_used rfl, frees_cons_free rfl]
      exact List.perm_middle.symm
    refine (hbins'.congr (fun w hw => hread' w (by omega) (by omega)) fun q hq w h8 h48 => ?_).of_perm hfrees
    rcases List.mem_cons.mp hq with rfl | hq
    · exact hread' w (by omega) (by omega)
    · rcases List.mem_append.mp hq with hq | hq
      · obtain ⟨d, hd, -, rfl⟩ := mem_frees hq
        have h1 := hbelow d hd
        exact hread' w (by omega) (by omega)
      · obtain ⟨d, hd, -, rfl⟩ := mem_frees hq
        have h1 := (hin' d hd).1
        exact hread' w (by omega) (by omega)
  · intro d hd w hw
    obtain ⟨hd, hdused⟩ := mem_useds.mp hd
    have hdata : d.addr + 16 ≤ w ∧ w < d.next := hw
    rcases List.mem_append.mp hd with hd | hd
    · obtain ⟨h1, h2, -⟩ := hin d hd
      rw [hread w (by omega) (by omega) (hlink w (by omega) (Or.inl (by omega))
        (hpre.data_not_link hlow hd hdused hw) (hpost.outside_not_link (by omega) (Or.inl (by omega))))]
      exact hread₀ w (by omega) (by omega) (by omega)
    · obtain ⟨h1, h2, -⟩ := hin' d hd
      rw [hread w (by omega) (by omega) (hlink w (by omega) (Or.inr (by omega))
        (hpre.outside_not_link (by omega) (Or.inr (by omega))) (hpost.data_not_link (by omega) hd hdused hw))]
      exact hread₀ w (by omega) (by omega) (by omega)

theorem place_spec (hlow : largebins N_BINS ≤ s.first_chunk)
    (hpre : Seg s.mem BOTH_CHUNKS_USED s.first_chunk pre t f.addr) (hf : ChunkAt s.mem t f)
    (hfree : f.free = true)
    (hpost : Seg s.mem f.size f.next post (s.mem s.last_chunk) s.last_chunk)
    (hmarker : s.mem (s.last_chunk + 8) = END_MARKER)
    (hbins : Bins s.mem bins (frees pre ++ frees post)) (hmin : 32 ≤ request_size)
    (hword : request_size % 8 = 0) :
    (split_chunk s.mem f.addr request_size).2 = (taken f request_size).size ∧
      Heap { s with mem := place s.mem f.addr request_size }
        (pre ++ taken f request_size :: (rest f request_size ++ post)) ∧
      DataKept (pre ++ post) s.mem (place s.mem f.addr request_size) := by
  unfold taken rest
  by_cases hsmall : f.size - request_size < SIZEOF_CHUNK
  · rw [if_pos hsmall, if_pos hsmall]
    exact place_whole hlow hpre hf hfree hpost hmarker hbins hsmall
  · rw [if_neg hsmall, if_neg hsmall]
    exact place_split hlow hpre hf hfree hpost hmarker hbins hmin hword hsmall

/-- The spec of `found`. -/
theorem found_spec {debug : Bool} {m : mem_t} {cs : List chunk_t} {mscan : ℕ}
    (h : Heap { s with mem := m } cs) (hbins : Bins m bins (frees cs))
    (hbest : Best m bins (frees cs) request_size mscan) (hmin : 32 ≤ request_size)
    (hword : request_size % 8 = 0) :
    Returns (found debug s m mscan request_size) fun (s', data) => ∃ pre f post,
      cs = pre ++ f :: post ∧ f.free = true ∧ request_size ≤ f.size ∧
      (∀ c ∈ cs, c.free = true → request_size ≤ c.size → f.size ≤ c.size) ∧ data = f.addr + 16 ∧
      s'.first_chunk = s.first_chunk ∧ s'.last_chunk = s.last_chunk ∧
      s'.total_allocated = s.total_allocated
        + BitVec.ofNat 64 ((taken f request_size).size + LARGE_MALLOC_OVERHEAD) ∧
      Heap s' (pre ++ taken f request_size :: (rest f request_size ++ post)) ∧
      DataKept cs m s'.mem := by
  obtain ⟨hlow, hseg, hmarker, -⟩ := h
  dsimp only at hlow hseg hmarker
  obtain ⟨i, hi, gs₁, g, gs₂, hgs, rfl, hfit, hsmallest⟩ := hbest
  have hs : Spaced (frees cs) := hseg.spaced hlow
  obtain ⟨F', hF, ⟨bins', hbins'⟩, hsize, hframe⟩ := take_chunk_spec hbins hs hi hgs
  have hsorted : m (g.bottom + 32) ≠ UU_UNSORTED := by
    have hbin := hbins.bin i hi
    rw [hgs] at hbin
    exact hbin.not_unsorted (by simp : g ∈ gs₁ ++ [g] ++ gs₂) List.mem_cons_self
  generalize htake : take_chunk m g.bottom = r at hF hbins' hsize hframe
  obtain ⟨m₁, p⟩ := r
  dsimp only at hF hbins' hsize hframe
  obtain ⟨f, hf, hfree, rfl⟩ := mem_frees (hF.symm.subset List.mem_cons_self)
  have hread : ∀ c ∈ cs, ∀ w, w = c.addr ∨ w = c.addr + 8 → m₁ w = m w := fun c hc w hw =>
    hframe w (hseg.head_not_link hlow hc hw)
  have hsizes : ∀ c ∈ cs, m (c.addr + 8) = c.size := by
    intro c hc
    obtain ⟨t, hat⟩ := hseg.chunk hc
    exact hat.size
  rw [hsizes f hf] at hsize
  have hsmallest' : ∀ c ∈ cs, c.free = true → request_size ≤ c.size → f.size ≤ c.size := by
    intro c hc hcfree hcfit
    have hle := hsmallest c.addr (mem_frees_of hc hcfree) (by rwa [hsizes c hc])
    rwa [hsizes c hc, ← hsize] at hle
  obtain ⟨pre, post, rfl⟩ := List.append_of_mem hf
  obtain ⟨hle, hin, -⟩ := hseg.bounds
  have hout : ∀ w, s.last_chunk ≤ w → m₁ w = m w := fun w hw =>
    hframe w (hseg.outside_not_link (by omega) (Or.inr hw))
  have hseg₁ : Seg m₁ BOTH_CHUNKS_USED s.first_chunk (pre ++ f :: post) (m₁ s.last_chunk) s.last_chunk := by
    rw [hout _ (le_refl _)]
    exact hseg.congr fun c hc => ⟨hread c hc _ (Or.inl rfl), hread c hc _ (Or.inr rfl)⟩
  obtain ⟨t, r, hpre, haddr, hat, hpost⟩ := seg_append.mp hseg₁
  have htag : f.tag = f.size := by rw [chunk_t.tag, if_pos hfree]
  rw [htag] at hpost
  subst haddr
  have hbins₁ : Bins m₁ bins' (frees pre ++ frees post) := by
    refine hbins'.of_perm (List.Perm.cons_inv (a := f.addr) (hF.symm.trans ?_))
    rw [frees_append, frees_cons_free hfree]
    exact List.perm_middle
  have hmarker₁ : m₁ (s.last_chunk + 8) = END_MARKER := (hout _ (by omega)).trans hmarker
  have hplace := @place_spec { s with mem := m₁ } bins' pre post f t request_size hlow hpre hat hfree
    hpost hmarker₁ hbins₁ hmin hword
  dsimp only at hplace
  obtain ⟨hrequest, hheap, hkept⟩ := hplace
  have hrun : found debug s m g.bottom request_size = some
      ({ s with
          mem := only_debug debug (place m₁ f.addr request_size)
            (memset (place m₁ f.addr request_size) (f.addr + 16) 0xda (taken f request_size).size)
          total_allocated := s.total_allocated
            + BitVec.ofNat 64 ((taken f request_size).size + LARGE_MALLOC_OVERHEAD) }, f.addr + 16) := by
    unfold found
    rw [check_eq fun _ => hfit, check_eq fun _ => hsorted, htake]
    simp only [Option.bind_eq_bind, Option.bind_some, ← hrequest]
    rfl
  have htaken : (taken f request_size).size ≤ f.size := by
    unfold taken
    dsimp only
    split_ifs <;> omega
  have hnext : f.next = f.addr + (16 + f.size) := rfl
  have hdata : ∀ w, ¬ (taken f request_size).Data w →
      only_debug debug (place m₁ f.addr request_size)
        (memset (place m₁ f.addr request_size) (f.addr + 16) 0xda (taken f request_size).size) w
        = place m₁ f.addr request_size w := by
    intro w hw
    refine only_debug_apply ?_
    have hnext' : (taken f request_size).next = f.addr + (16 + (taken f request_size).size) := rfl
    have haddr' : (taken f request_size).addr = f.addr := rfl
    unfold chunk_t.Data at hw
    unfold memset
    rw [if_neg]
    omega
  refine ⟨_, hrun, pre, f, post, rfl, hfree, ?_, hsmallest', rfl, rfl, rfl, rfl, ?_, ?_⟩
  · rw [hsize]
    exact hfit
  · have hwritten := hheap.write (c := taken f request_size)
      (mem_useds.mpr ⟨by simp, rfl⟩) hdata
    exact ⟨hwritten.low, hwritten.seg, hwritten.marker, hwritten.bins⟩
  · intro d hd w hw
    obtain ⟨hd, hused⟩ := mem_useds.mp hd
    have hne : d ≠ f := by
      rintro rfl
      simp [hused] at hfree
    have hd' : d ∈ pre ++ post := by
      simp only [List.mem_append, List.mem_cons] at hd ⊢
      tauto
    have hwdata : d.addr + 16 ≤ w ∧ w < d.next := hw
    have hmin' := (hin f hf).2.2
    refine (hdata w ?_).trans ?_
    · rintro ⟨h1, h2⟩
      have hnext' : (taken f request_size).next = f.addr + (16 + (taken f request_size).size) := rfl
      have haddr' : (taken f request_size).addr = f.addr := rfl
      rcases hseg.disjoint hd hf hne with hdis | hdis
      · omega
      · omega
    · rw [hkept d (mem_useds.mpr ⟨hd', hused⟩) w hw]
      exact hframe w (hseg.data_not_link hlow hd hused hw)

end Split

/-! ## The allocation -/

section Malloc

variable {s s' : lm_t} {cs : List chunk_t} {m m' : mem_t} {bins : ℕ → bin_t} {request_size data : ℕ}
  {debug : Bool}

/-- Only the lists have changed. -/
theorem Heap.relink (h : Heap { s with mem := m } cs) (hbins : Bins m' bins (frees cs))
    (hframe : ∀ w, ¬ LinkWord (frees cs) w → m' w = m w) :
    Heap { s with mem := m' } cs ∧ DataKept cs m m' := by
  obtain ⟨hlow, hseg, hmarker, -⟩ := h
  dsimp only at hlow hseg hmarker
  obtain ⟨hle, -, -⟩ := hseg.bounds
  have hout : ∀ w, s.last_chunk ≤ w → m' w = m w := fun w hw =>
    hframe w (hseg.outside_not_link (by omega) (Or.inr hw))
  refine ⟨⟨hlow, ?_, ?_, bins, hbins⟩, fun c hc w hw => ?_⟩
  · show Seg m' BOTH_CHUNKS_USED s.first_chunk cs (m' s.last_chunk) s.last_chunk
    rw [hout _ (le_refl _)]
    exact hseg.congr fun c hc => ⟨hframe _ (hseg.head_not_link hlow hc (Or.inl rfl)),
      hframe _ (hseg.head_not_link hlow hc (Or.inr rfl))⟩
  · show m' (s.last_chunk + 8) = END_MARKER
    rw [hout _ (by omega)]
    exact hmarker
  · obtain ⟨hc, hused⟩ := mem_useds.mp hc
    exact hframe w (hseg.data_not_link hlow hc hused hw)

/-- The words that the scan of a bin checks. -/
theorem Heap.free_words (h : Heap s cs) : ∀ p ∈ frees cs,
    s.mem p = THIS_CHUNK_FREE ∧ s.mem (next_chunk s.mem p) = s.mem (p + 8) := by
  intro p hp
  obtain ⟨f, hf, hfree, rfl⟩ := mem_frees hp
  obtain ⟨pre, post, rfl⟩ := List.append_of_mem hf
  obtain ⟨t, r, -, haddr, hat, hpost⟩ := seg_append.mp h.seg
  have htag : f.tag = f.size := by rw [chunk_t.tag, if_pos hfree]
  have hmin := hat.min
  have hused : ∀ d ∈ post.head?, d.free = false := by
    refine hpost.head_used ?_
    rw [htag]
    unfold BOTH_CHUNKS_USED
    omega
  have hword := hpost.first_word hused
  have hnext : next_chunk s.mem f.addr = f.next := by
    unfold next_chunk CHUNK_HEADER_SIZE
    rw [hat.size]
    rfl
  refine ⟨?_, ?_⟩
  · rw [hat.prev_size, if_pos hfree]
  · rw [hnext, hword, htag, hat.size]

/-- What a request for `n` bytes leads to. -/
inductive Allocated (s : lm_t) (cs : List chunk_t) (n : ℕ) (s' : lm_t) (data : ℕ) : Prop where
  | null (hdata : data = 0) (hnone : ∀ c ∈ cs, c.free = true → c.size < n) (heap : Heap s' cs)
      (total : s'.total_allocated = s.total_allocated)
  | best (pre : List chunk_t) (f : chunk_t) (post : List chunk_t) (split : cs = pre ++ f :: post)
      (hfree : f.free = true) (fits : n ≤ f.size)
      (smallest : ∀ c ∈ cs, c.free = true → n ≤ c.size → f.size ≤ c.size) (hdata : data = f.addr + 16)
      (heap : Heap s' (pre ++ taken f n :: (rest f n ++ post)))
      (total : s'.total_allocated = s.total_allocated
        + BitVec.ofNat 64 ((taken f n).size + LARGE_MALLOC_OVERHEAD))

/-- **`_stm_large_malloc`** takes the best fit, and none of its assertions fails. -/
theorem Heap._stm_large_malloc (q : qsort_t) (h : Heap s cs) (hword : request_size % 8 = 0) :
    Returns (Largemalloc._stm_large_malloc debug q s request_size) fun (s', data) =>
      Allocated s cs (max request_size MIN_ALLOC_SIZE) s' data ∧
      s'.first_chunk = s.first_chunk ∧ s'.last_chunk = s.last_chunk ∧ DataKept cs s.mem s'.mem := by
  have hsize : (if request_size < MIN_ALLOC_SIZE then MIN_ALLOC_SIZE else request_size)
      = max request_size MIN_ALLOC_SIZE := by
    split_ifs <;> omega
  have hmin : 32 ≤ max request_size MIN_ALLOC_SIZE := le_max_right _ _
  have hword' : max request_size MIN_ALLOC_SIZE % 8 = 0 := by
    unfold MIN_ALLOC_SIZE SIZEOF_CHUNK CHUNK_HEADER_SIZE
    omega
  unfold Largemalloc._stm_large_malloc
  rw [check_eq fun _ => by rw [and_seven]; exact hword]
  simp only [hsize, Option.bind_eq_bind, Option.bind_some]
  generalize max request_size MIN_ALLOC_SIZE = n at hmin hword' ⊢
  -- the bin of the requested size
  obtain ⟨bins, hbins⟩ := h.bins
  have hs : Spaced (frees cs) := h.seg.spaced h.low
  obtain ⟨m₁, hrun₁, ⟨gs, hbins₁⟩, hframe₁⟩ := hbins.sort_bin q hs (@largebin_index_lt n)
  obtain ⟨hheap₁, hkept₁⟩ := @Heap.relink s cs s.mem m₁ _ h hbins₁ hframe₁
  rw [hrun₁]
  simp only [Option.bind_some]
  obtain ⟨r, hscan, hbest, hnone⟩ := @Bins.scan_bin m₁ _ _ gs n debug hbins₁ hs hheap₁.free_words
    (Function.update_self _ _ _)
  rw [hscan]
  simp only [Option.bind_some]
  cases r with
  | some mscan =>
      dsimp only
      refine (found_spec hheap₁ hbins₁ (hbest mscan rfl) hmin hword').mono ?_
      rintro ⟨s', data⟩ ⟨pre, f, post, rfl, hfree, hfit, hsmallest, rfl, h1, h2, htotal, hheap, hkept⟩
      exact ⟨.best pre f post rfl hfree hfit hsmallest rfl hheap htotal, h1, h2,
        fun c hc w hw => (hkept c hc w hw).trans (hkept₁ c hc w hw)⟩
  | none =>
      dsimp only
      obtain ⟨⟨m₂, r⟩, hrun₂, ⟨bins₂, hbins₂, hbest₂⟩, hnone₂, hframe₂⟩ :=
        @Bins.search_bins m₁ _ _ n debug q hbins₁ hs (hnone rfl)
      obtain ⟨hheap₂, hkept₂⟩ := @Heap.relink s cs m₁ m₂ _ hheap₁ hbins₂ hframe₂
      have hkept₁₂ : DataKept cs s.mem m₂ := fun c hc w hw =>
        (hkept₂ c hc w hw).trans (hkept₁ c hc w hw)
      rw [hrun₂]
      simp only [Option.bind_some]
      cases r with
      | some mscan =>
          dsimp only
          refine (found_spec hheap₂ hbins₂ (hbest₂ mscan rfl) hmin hword').mono ?_
          rintro ⟨s', data⟩ ⟨pre, f, post, rfl, hfree, hfit, hsmallest, rfl, h1, h2, htotal, hheap, hkept⟩
          exact ⟨.best pre f post rfl hfree hfit hsmallest rfl hheap htotal, h1, h2,
            fun c hc w hw => (hkept c hc w hw).trans (hkept₁₂ c hc w hw)⟩
      | none =>
          refine returns_some ⟨.null rfl (fun c hc hfree => ?_) hheap₂ rfl, rfl, rfl, hkept₁₂⟩
          have hlt := hnone₂ rfl c.addr (mem_frees_of hc hfree)
          obtain ⟨t, hat⟩ := hheap₁.seg.chunk hc
          have hsize : m₁ (c.addr + 8) = c.size := hat.size
          rwa [hsize] at hlt

end Malloc

end Stmgc.C7.Largemalloc
