/-
`_large_free`: the chunk becomes a free chunk, together with the free chunks
before and after it, [`Released`].
-/
import Stmgc.C7.LargemallocHeap

open Stmgc.Lib

namespace Stmgc.C7.Largemalloc

section Free

variable {m m' : mem_t} {cs post : List chunk_t} {F : List ℕ} {prev p last w : ℕ} {debug : Bool}

theorem and_seven {x : ℕ} : x &&& (8 - 1) = x % 8 := Nat.and_two_pow_sub_one_eq_mod x 3

/-- After a free chunk comes a used one. -/
theorem Seg.head_used {prev' p' : ℕ} (h : Seg m prev p cs prev' p') (hprev : prev ≠ BOTH_CHUNKS_USED) :
    ∀ d ∈ cs.head?, d.free = false := by
  cases cs with
  | nil => simp
  | cons c cs =>
      rintro d ⟨⟩
      by_contra hfree
      exact hprev (h.2.1.lone (by simpa using hfree))

/-- What the word `prev_size` of a used chunk, or of the end, says. -/
theorem Seg.first_word (h : Seg m prev p cs (m last) last) (hhead : ∀ d ∈ cs.head?, d.free = false) :
    m p = prev := by
  cases cs with
  | nil =>
      obtain ⟨hprev, rfl⟩ := h
      exact hprev
  | cons d cs =>
      obtain ⟨rfl, hd, -⟩ := h
      rw [hd.prev_size, if_neg]
      rw [hhead d rfl]
      simp

/-- The spec of `merge_next`. -/
theorem merge_next_spec {bins : ℕ → bin_t} {chunk size : ℕ}
    (hbins : Bins m bins (F ++ frees post)) (hs : Spaced (F ++ frees post))
    (hlow : largebins N_BINS ≤ chunk) (hF : ∀ q ∈ F, q + 48 ≤ chunk)
    (hsize : m (chunk + 8) = size) (hmin : 16 ≤ size)
    (hpost : Seg m BOTH_CHUNKS_USED (chunk + (16 + size)) post (m last) last)
    (hdebug : debug = true → post ≠ []) :
    Returns (merge_next debug m chunk) fun m' => ∃ n post',
      (post = post' ∧ n = size ∨ ∃ f, f.free = true ∧ post = f :: post' ∧ n = size + (16 + f.size)) ∧
      m' (chunk + 8) = n ∧ n % 8 = size % 8 ∧ Seg m' n (chunk + (16 + n)) post' (m' last) last ∧
      (∃ bins', Bins m' bins' (F ++ frees post')) ∧
      ∀ w, w ≠ chunk + 8 → ¬ LinkWord (F ++ frees post) w →
        (∀ d ∈ post, w ≠ d.addr ∧ w ≠ d.addr + 8) → w ≠ last → m' w = m w := by
  have hmscan : chunk + (m (chunk + 8) + CHUNK_HEADER_SIZE) = chunk + (16 + size) := by
    unfold CHUNK_HEADER_SIZE
    omega
  obtain ⟨hle, hin, hpair⟩ := hpost.bounds
  have hseg_low : largebins N_BINS ≤ chunk + (16 + size) := by omega
  unfold merge_next
  simp only [hmscan]
  by_cases hhead : ∀ d ∈ post.head?, d.free = false
  · -- a used chunk follows, or the end
    have hword := hpost.first_word hhead
    rw [if_pos hword, check_eq]
    · refine returns_some ⟨size, post, Or.inl ⟨rfl, rfl⟩, ?_, rfl, ?_, ⟨bins, ?_⟩, ?_⟩
      · rw [store_of_ne (by omega)]
        exact hsize
      · refine hpost.retag hhead (by rw [store_self, hsize]) (fun d hd => ?_) fun hne => store_of_ne hne
        obtain ⟨h1, -, -⟩ := hin d hd
        exact ⟨store_of_ne (by omega), fun hne => store_of_ne hne⟩
      · refine hbins.congr (fun w hw => store_of_ne (by omega)) fun q hq w h8 h48 => store_of_ne ?_
        rcases List.mem_append.mp hq with hq | hq
        · have hbelow := hF q hq
          omega
        · obtain ⟨d, hd, -, rfl⟩ := mem_frees hq
          obtain ⟨h1, -, -⟩ := hin d hd
          omega
      · intro w _ _ hheads hlast
        refine store_of_ne ?_
        cases post with
        | nil => rwa [← hpost.2]
        | cons d post =>
            rw [← hpost.1]
            exact (hheads d List.mem_cons_self).1
    · intro hd
      cases post with
      | nil => exact absurd rfl (hdebug hd)
      | cons d post =>
          obtain ⟨haddr, hat, -⟩ := hpost
          rw [← haddr, hat.size, and_seven]
          exact hat.word
  · -- a free chunk follows
    cases post with
    | nil => simp at hhead
    | cons f post =>
        have hfree : f.free = true := by simpa using hhead
        obtain ⟨haddr, hat, hrest⟩ := hpost
        obtain ⟨-, hin', -⟩ := hrest.bounds
        have hafter := (List.pairwise_cons.mp hpair).1
        have hfmin := hat.min
        have hnext : f.next = f.addr + (16 + f.size) := rfl
        have htag : f.tag = f.size := by rw [chunk_t.tag, if_pos hfree]
        have hused : ∀ d ∈ post.head?, d.free = false := by
          refine hrest.head_used ?_
          rw [htag]
          unfold BOTH_CHUNKS_USED
          omega
        have hfscan := hrest.first_word hused
        rw [frees_cons_free hfree] at hbins hs
        obtain ⟨⟨bins', hbins'⟩, hframe⟩ := hbins.unlink hs List.perm_middle
        rw [← haddr]
        have hmem : m f.addr ≠ BOTH_CHUNKS_USED := by
          rw [hat.prev_size, if_pos hfree]
          decide
        have hfscan_eq : f.addr + (m (f.addr + 8) + CHUNK_HEADER_SIZE) = f.next := by
          rw [hat.size, hnext]
          unfold CHUNK_HEADER_SIZE
          omega
        rw [if_neg hmem]
        simp only [hfscan_eq]
        rw [hat.size]
        generalize hm₁ : only_debug debug (unlink_chunk m f.addr)
          (store (store (unlink_chunk m f.addr) f.addr (2 ^ 64 - 258)) (f.addr + 8) (2 ^ 64 - 515)) = m₁
        have hm₁' : ∀ w, w ≠ f.addr → w ≠ f.addr + 8 → m₁ w = unlink_chunk m f.addr w := by
          intro w h0 h8
          rw [← hm₁]
          exact only_debug_apply (by rw [store_of_ne h8, store_of_ne h0])
        have hlink : ∀ w, w ≠ f.addr → w ≠ f.addr + 8 → ¬ LinkWord (F ++ f.addr :: frees post) w →
            m₁ w = m w := fun w h0 h8 hw => (hm₁' w h0 h8).trans (hframe w hw)
        -- the words at the beginning of the chunks that follow, and of the end
        have hnot : ∀ w, f.next ≤ w → (∀ d ∈ post, d.free = true → w < d.addr + 16 ∨ d.next ≤ w) →
            ¬ LinkWord (F ++ f.addr :: frees post) w := by
          rintro w hw hd (hlt | ⟨q, hq, h16, h48⟩)
          · omega
          · rcases List.mem_append.mp hq with hq | hq
            · have hbelow := hF q hq
              omega
            · rcases List.mem_cons.mp hq with rfl | hq
              · omega
              · obtain ⟨d, hd', hdfree, rfl⟩ := mem_frees hq
                have hcase := hd d hd' hdfree
                have hdmin := (hin' d hd').2.2
                have hdnext : d.next = d.addr + (16 + d.size) := rfl
                omega
        have hheads : ∀ d ∈ post, ∀ w, w = d.addr ∨ w = d.addr + 8 → m₁ w = m w := by
          intro d hd w hw
          obtain ⟨h1, -, h3⟩ := hin' d hd
          refine hlink w (by omega) (by omega) (hnot w (by omega) fun e he _ => ?_)
          by_cases hde : d = e
          · subst hde
            omega
          · have hdnext : d.next = d.addr + (16 + d.size) := rfl
            rcases hrest.disjoint hd he hde with hdis | hdis
            · omega
            · omega
        have hend : m₁ last = m last := by
          have hle' := hrest.bounds.1
          refine hlink last (by omega) (by omega) (hnot last hle' fun d hd _ => ?_)
          have hd' := (hin' d hd).2.1
          omega
        have hfirst : m₁ f.next = m f.next := by
          refine hlink _ (by omega) (by omega) (hnot _ (le_refl _) fun d hd _ => ?_)
          have hd' := (hin' d hd).1
          omega
        rw [check_eq fun _ => (hfirst.trans (hfscan.trans htag)).symm]
        have hn : m (chunk + 8) + CHUNK_HEADER_SIZE = 16 + size := by
          unfold CHUNK_HEADER_SIZE
          omega
        rw [hn]
        have hsum : f.size + (16 + size) = size + (16 + f.size) := by omega
        have hword := hat.word
        refine returns_some ⟨f.size + (16 + size), post, Or.inr ⟨f, hfree, rfl, hsum⟩, ?_, by omega, ?_,
          ⟨bins', ?_⟩, ?_⟩
        · exact store_self
        · have hplace : chunk + (16 + (f.size + (16 + size))) = f.next := by omega
          rw [hplace]
          refine hrest.retag hused ?_ (fun d hd => ⟨?_, fun hne => ?_⟩) fun hne => ?_
          · rw [store_of_ne (by omega), store_self]
          · have h1 := (hin' d hd).1
            rw [store_of_ne (by omega), store_of_ne (by omega)]
            exact hheads d hd _ (Or.inr rfl)
          · have h1 := (hin' d hd).1
            rw [store_of_ne (by omega), store_of_ne hne]
            exact hheads d hd _ (Or.inl rfl)
          · have hle' := hrest.bounds.1
            rw [store_of_ne (by omega), store_of_ne hne]
            exact hend
        · refine hbins'.congr (fun w hw => ?_) fun q hq w h8 h48 => ?_
          · rw [store_of_ne (by omega), store_of_ne (by omega)]
            exact hm₁' w (by omega) (by omega)
          · have hplace : w < chunk ∨ f.next + 8 ≤ w := by
              rcases List.mem_append.mp hq with hq | hq
              · have hbelow := hF q hq
                omega
              · obtain ⟨d, hd, -, rfl⟩ := mem_frees hq
                have h1 := (hin' d hd).1
                omega
            rw [store_of_ne (by omega), store_of_ne (by omega)]
            exact hm₁' w (by omega) (by omega)
        · intro w h8 hw hheads' hlast
          obtain ⟨hf0, hf8⟩ := hheads' f List.mem_cons_self
          rw [frees_cons_free hfree] at hw
          rw [store_of_ne h8, store_of_ne ?_]
          · exact hlink w hf0 hf8 hw
          · cases post with
            | nil => rwa [← hrest.2]
            | cons d post =>
                rw [← hrest.1]
                exact (hheads' d (by simp)).1

theorem not_link_append {G : List ℕ} (h : ¬ LinkWord F w) (h' : ¬ LinkWord G w) :
    ¬ LinkWord (F ++ G) w := by
  rintro (hlt | ⟨q, hq, hw⟩)
  · exact h (Or.inl hlt)
  · rcases List.mem_append.mp hq with hq | hq
    · exact h (Or.inr ⟨q, hq, hw⟩)
    · exact h' (Or.inr ⟨q, hq, hw⟩)

/-- Outside of a segment there are no words of its lists. -/
theorem Seg.outside_not_link {prev' p' : ℕ} (h : Seg m prev p cs prev' p')
    (hlow : largebins N_BINS ≤ w) (hw : w < p ∨ p' ≤ w) : ¬ LinkWord (frees cs) w := by
  rintro (hlt | ⟨q, hq, h16, h48⟩)
  · omega
  · obtain ⟨d, hd, -, rfl⟩ := mem_frees hq
    obtain ⟨h1, h2, h3⟩ := h.bounds.2.1 d hd
    have hnext : d.next = d.addr + (16 + d.size) := rfl
    omega

/-- The data of a chunk are no first words of chunks. -/
theorem Seg.data_not_head {prev' p' : ℕ} {c d : chunk_t} (h : Seg m prev p cs prev' p') (hc : c ∈ cs)
    (hw : c.Data w) (hd : d ∈ cs) : w ≠ d.addr ∧ w ≠ d.addr + 8 := by
  obtain ⟨hlo, hhi⟩ := hw
  by_cases hcd : c = d
  · subst hcd
    omega
  · have hmin := (h.bounds.2.1 d hd).2.2
    have hnext : d.next = d.addr + (16 + d.size) := rfl
    rcases h.disjoint hc hd hcd with hdis | hdis
    · omega
    · omega

/-- The spec of `merge_prev`. -/
theorem merge_prev_spec {bins : ℕ → bin_t} {pre : List chunk_t} {first chunk t n : ℕ}
    (hbins : Bins m bins (frees pre ++ frees post)) (hs : Spaced (frees pre ++ frees post))
    (hlow : largebins N_BINS ≤ first) (hpre : Seg m BOTH_CHUNKS_USED first pre t chunk)
    (hchunk : m chunk = t) (hsize : m (chunk + 8) = n) (hmin : 16 ≤ n) (hword : n % 8 = 0)
    (hlarge : t = BOTH_CHUNKS_USED → 32 ≤ n)
    (hpost : Seg m n (chunk + (16 + n)) post (m last) last) :
    Returns (merge_prev debug m chunk) fun (m', q) => ∃ pre' g,
      (pre = pre' ∧ g = ⟨chunk, n, true⟩ ∨
        ∃ b, b.free = true ∧ pre = pre' ++ [b] ∧ g = ⟨b.addr, b.size + (16 + n), true⟩) ∧
      q = g.addr ∧ Seg m' BOTH_CHUNKS_USED first (pre' ++ g :: post) (m' last) last ∧
      (∃ bins', Bins m' bins' (frees pre' ++ frees post)) ∧
      ∀ w, w ≠ chunk → w ≠ chunk + 8 → ¬ LinkWord (frees pre ++ frees post) w →
        (∀ d ∈ pre ++ post, w ≠ d.addr ∧ w ≠ d.addr + 8) → w ≠ last → m' w = m w := by
  obtain ⟨hle, hin, -⟩ := hpre.bounds
  obtain ⟨hle', hin', -⟩ := hpost.bounds
  have hbelow : ∀ d ∈ pre, d.addr + 48 ≤ chunk := by
    intro d hd
    obtain ⟨-, h2, h3⟩ := hin d hd
    have hnext : d.next = d.addr + (16 + d.size) := rfl
    omega
  unfold merge_prev
  rcases hpre.last_cases rfl with ⟨ht, -⟩ | ⟨pre', b, rfl, hfree, ht, hb⟩
  · -- a used chunk before, or none
    rw [if_pos (hchunk.trans ht)]
    apply returns_some
    dsimp only
    refine ⟨pre, ⟨chunk, n, true⟩, Or.inl ⟨rfl, rfl⟩, rfl, ?_, ⟨bins, ?_⟩, ?_⟩
    · refine seg_append.mpr ⟨t, chunk, hpre.congr fun d hd => ?_, rfl, ⟨?_, hlarge ht, hword, ?_, fun _ => ht⟩, ?_⟩
      · have h1 := hbelow d hd
        exact ⟨store_of_ne (by omega), store_of_ne (by omega)⟩
      · show store m chunk THIS_CHUNK_FREE (chunk + 8) = n
        rw [store_of_ne (by omega), hsize]
      · exact store_self
      · rw [store_of_ne (by omega : last ≠ chunk)]
        refine hpost.congr fun d hd => ?_
        have h1 := (hin' d hd).1
        exact ⟨store_of_ne (by omega), store_of_ne (by omega)⟩
    · refine hbins.congr (fun w hw => store_of_ne (by omega)) fun q hq w h8 h48 => store_of_ne ?_
      rcases List.mem_append.mp hq with hq | hq
      · obtain ⟨d, hd, -, rfl⟩ := mem_frees hq
        have h1 := hbelow d hd
        omega
      · obtain ⟨d, hd, -, rfl⟩ := mem_frees hq
        have h1 := (hin' d hd).1
        omega
    · exact fun w hw _ _ _ _ => store_of_ne hw
  · -- a free chunk before
    obtain ⟨t', r, hpre', haddr, hat, -, -⟩ := seg_append.mp hpre
    have hbmin := hat.min
    have hbword := hat.word
    have hbnext : b.next = b.addr + (16 + b.size) := rfl
    obtain ⟨hlow', hin'', -⟩ := hpre'.bounds
    rw [if_neg (by rw [hchunk, ht]; unfold BOTH_CHUNKS_USED; omega)]
    have hmscan : chunk - (m chunk + CHUNK_HEADER_SIZE) = b.addr := by
      rw [hchunk, ht, hb, hbnext]
      unfold CHUNK_HEADER_SIZE
      omega
    have hmsize : m chunk + CHUNK_HEADER_SIZE = 16 + b.size := by
      rw [hchunk, ht]
      unfold CHUNK_HEADER_SIZE
      omega
    simp only [hmscan]
    rw [check_eq fun _ => ?_, check_eq fun _ => ?_, check_eq fun _ => ?_]
    rotate_left
    · rw [hat.size, hchunk, ht]
    · rw [hat.prev_size, if_pos hfree]
    · rw [hchunk, ht, and_seven]
      exact hbword
    have hF : (frees (pre' ++ [b]) ++ frees post).Perm (b.addr :: (frees pre' ++ frees post)) := by
      rw [frees_append, frees_cons_free hfree, List.append_assoc]
      exact List.perm_middle
    obtain ⟨⟨bins', hbins'⟩, hframe⟩ := hbins.unlink hs hF
    -- the words at the beginning of the chunks, and of the end
    have hnot : ∀ w, chunk ≤ w → w < chunk + (16 + n) → ¬ LinkWord (frees (pre' ++ [b]) ++ frees post) w :=
      fun w h1 h2 => not_link_append (hpre.outside_not_link (by omega) (Or.inr h1))
        (hpost.outside_not_link (by omega) (Or.inl h2))
    have hheads_pre : ∀ d ∈ pre' ++ [b], ∀ w, w = d.addr ∨ w = d.addr + 8 →
        unlink_chunk m b.addr w = m w := by
      intro d hd w hw
      have h1 := hbelow d hd
      have h2 := (hin d hd).1
      exact hframe w (not_link_append (hpre.head_not_link hlow hd hw)
        (hpost.outside_not_link (by omega) (Or.inl (by omega))))
    have hheads_post : ∀ d ∈ post, ∀ w, w = d.addr ∨ w = d.addr + 8 → unlink_chunk m b.addr w = m w := by
      intro d hd w hw
      have h1 := (hin' d hd).1
      exact hframe w (not_link_append (hpre.outside_not_link (by omega) (Or.inr (by omega)))
        (hpost.head_not_link (by omega) hd hw))
    have hend : unlink_chunk m b.addr last = m last :=
      hframe last (not_link_append (hpre.outside_not_link (by omega) (Or.inr (by omega)))
        (hpost.outside_not_link (by omega) (Or.inr (le_refl _))))
    have hn : unlink_chunk m b.addr (chunk + 8) = n :=
      (hframe _ (hnot _ (by omega) (by omega))).trans hsize
    have hused : ∀ d ∈ post.head?, d.free = false := hpost.head_used (by unfold BOTH_CHUNKS_USED; omega)
    have hnextc : next_chunk (store (unlink_chunk m b.addr) (b.addr + 8) (m chunk + CHUNK_HEADER_SIZE +
        unlink_chunk m b.addr (chunk + 8))) b.addr = chunk + (16 + n) := by
      unfold next_chunk
      rw [store_self, hn, hmsize, hb, hbnext]
      unfold CHUNK_HEADER_SIZE
      omega
    rw [hnextc, store_self, hn, hmsize]
    generalize hm' : only_debug debug _ _ = m'
    have hread : ∀ w, w ≠ b.addr + 8 → w ≠ chunk + (16 + n) → w ≠ chunk → w ≠ chunk + 8 →
        m' w = unlink_chunk m b.addr w := by
      intro w h1 h2 h3 h4
      rw [← hm', only_debug_apply (by rw [store_of_ne h4, store_of_ne h3]), store_of_ne h2, store_of_ne h1]
    have hread_size : m' (b.addr + 8) = 16 + b.size + n := by
      rw [← hm', only_debug_apply (by rw [store_of_ne (by omega), store_of_ne (by omega)]),
        store_of_ne (by omega), store_self]
    have hread_next : m' (chunk + (16 + n)) = 16 + b.size + n := by
      rw [← hm', only_debug_apply (by rw [store_of_ne (by omega), store_of_ne (by omega)]), store_self]
    have hlone : t' = BOTH_CHUNKS_USED := hat.lone hfree
    apply returns_some
    dsimp only
    refine ⟨pre', ⟨b.addr, b.size + (16 + n), true⟩, Or.inr ⟨b, hfree, rfl, rfl⟩, rfl, ?_,
      ⟨bins', ?_⟩, ?_⟩
    · refine seg_append.mpr ⟨t', r, hpre'.congr fun d hd => ?_, haddr, ⟨?_, ?_, ?_, ?_, fun _ => hlone⟩, ?_⟩
      · obtain ⟨-, h2, h3⟩ := hin'' d hd
        have hdnext : d.next = d.addr + (16 + d.size) := rfl
        have hd' : d ∈ pre' ++ [b] := List.mem_append_left _ hd
        rw [hread _ (by omega) (by omega) (by omega) (by omega),
          hread _ (by omega) (by omega) (by omega) (by omega)]
        exact ⟨hheads_pre d hd' _ (Or.inl rfl), hheads_pre d hd' _ (Or.inr rfl)⟩
      · show m' (b.addr + 8) = b.size + (16 + n)
        omega
      · show 32 ≤ b.size + (16 + n)
        omega
      · show (b.size + (16 + n)) % 8 = 0
        omega
      · show m' b.addr = THIS_CHUNK_FREE
        rw [hread _ (by omega) (by omega) (by omega) (by omega),
          hheads_pre b (by simp) _ (Or.inl rfl), hat.prev_size, if_pos hfree]
      · show Seg m' (b.size + (16 + n)) (b.addr + (16 + (b.size + (16 + n)))) post (m' last) last
        have hplace : b.addr + (16 + (b.size + (16 + n))) = chunk + (16 + n) := by omega
        rw [hplace]
        refine hpost.retag hused (by omega) (fun d hd => ⟨?_, fun hne => ?_⟩) fun hne => ?_
        · have h1 := (hin' d hd).1
          rw [hread _ (by omega) (by omega) (by omega) (by omega)]
          exact hheads_post d hd _ (Or.inr rfl)
        · have h1 := (hin' d hd).1
          rw [hread _ (by omega) hne (by omega) (by omega)]
          exact hheads_post d hd _ (Or.inl rfl)
        · rw [hread _ (by omega) hne (by omega) (by omega)]
          exact hend
    · refine hbins'.congr (fun w hw => hread w (by omega) (by omega) (by omega) (by omega)) ?_
      intro q hq w h8 h48
      have hplace : w < b.addr ∨ chunk + (16 + n) + 8 ≤ w := by
        rcases List.mem_append.mp hq with hq | hq
        · obtain ⟨d, hd, -, rfl⟩ := mem_frees hq
          obtain ⟨-, h2, h3⟩ := hin'' d hd
          have hdnext : d.next = d.addr + (16 + d.size) := rfl
          omega
        · obtain ⟨d, hd, -, rfl⟩ := mem_frees hq
          have h1 := (hin' d hd).1
          omega
      exact hread w (by omega) (by omega) (by omega) (by omega)
    · intro w hw hw8 hlink hheads hlast
      have hb' := hheads b (by simp)
      have hplace : w ≠ chunk + (16 + n) := by
        cases post with
        | nil => rwa [← hpost.2]
        | cons d post =>
            rw [← hpost.1]
            exact (hheads d (by simp)).1
      rw [hread w hb'.2 hplace hw hw8]
      exact hframe w hlink

theorem largebin_index_lt {sz : ℕ} : largebin_index sz < N_BINS := by
  unfold largebin_index N_BINS
  split_ifs <;> simp only [Nat.shiftLeft_eq, Nat.shiftRight_eq_div_pow] at * <;> omega

/-- What becomes of the chunks when `c` between `pre` and `post` is freed. -/
def Released (pre : List chunk_t) (c : chunk_t) (post cs' : List chunk_t) : Prop :=
  ∃ pre' g post', cs' = pre' ++ g :: post' ∧ g.free = true ∧
    (pre = pre' ∧ g.addr = c.addr ∨ ∃ b, b.free = true ∧ pre = pre' ++ [b] ∧ g.addr = b.addr) ∧
    (post = post' ∧ g.next = c.next ∨ ∃ f, f.free = true ∧ post = f :: post' ∧ g.next = f.next)

/-- The used chunks stay, without the one that is freed. -/
theorem Released.useds {pre cs' : List chunk_t} {c : chunk_t} (h : Released pre c post cs') :
    useds cs' = useds pre ++ useds post := by
  obtain ⟨pre', g, post', rfl, hg, hpre, hpost⟩ := h
  have hbefore : Largemalloc.useds pre = Largemalloc.useds pre' := by
    rcases hpre with ⟨rfl, -⟩ | ⟨b, hb, rfl, -⟩
    · rfl
    · rw [useds_append, useds_cons_free hb]
      exact List.append_nil _
  have hafter : Largemalloc.useds post = Largemalloc.useds post' := by
    rcases hpost with ⟨rfl, -⟩ | ⟨f, hf, rfl, -⟩
    · rfl
    · exact useds_cons_free hf
  rw [useds_append, useds_cons_free hg, hbefore, hafter]

/-- **The spec of `_large_free`**, for a chunk that is not counted among the
chunks of the heap yet, or not any more. -/
theorem _large_free_words {s : lm_t} {bins : ℕ → bin_t} {pre : List chunk_t} {c : chunk_t} {t : ℕ}
    (hlow : largebins N_BINS ≤ s.first_chunk)
    (hpre : Seg s.mem BOTH_CHUNKS_USED s.first_chunk pre t c.addr) (ht : s.mem c.addr = t)
    (hsize : s.mem (c.addr + 8) = c.size) (hmin : 16 ≤ c.size) (hword : c.size % 8 = 0)
    (hlarge : t = BOTH_CHUNKS_USED → 32 ≤ c.size)
    (hpost : Seg s.mem BOTH_CHUNKS_USED c.next post (s.mem s.last_chunk) s.last_chunk)
    (hmarker : s.mem (s.last_chunk + 8) = END_MARKER)
    (hbins : Bins s.mem bins (frees pre ++ frees post)) (hdebug : debug = true → post ≠ []) :
    Returns (_large_free debug s c.addr) fun s' => ∃ cs', Released pre c post cs' ∧ Heap s' cs' ∧
      s'.first_chunk = s.first_chunk ∧ s'.last_chunk = s.last_chunk ∧
      s'.total_allocated = s.total_allocated - BitVec.ofNat 64 (c.size + LARGE_MALLOC_OVERHEAD) ∧
      DataKept (pre ++ post) s.mem s'.mem := by
  obtain ⟨m, first, last, total⟩ := s
  simp only at *
  have hnext : c.next = c.addr + (16 + c.size) := rfl
  obtain ⟨hle, hin, -⟩ := hpre.bounds
  obtain ⟨hle', hin', -⟩ := hpost.bounds
  have hbelow : ∀ d ∈ pre, d.addr + 48 ≤ c.addr := by
    intro d hd
    obtain ⟨-, h2, h3⟩ := hin d hd
    have hdnext : d.next = d.addr + (16 + d.size) := rfl
    omega
  have hs : Spaced (frees pre ++ frees post) := by
    refine ⟨List.pairwise_append.mpr ⟨(hpre.spaced hlow).1, (hpost.spaced (by omega)).1, ?_⟩, ?_⟩
    · intro q hq r hr
      obtain ⟨d, hd, -, rfl⟩ := mem_frees hq
      obtain ⟨e, he, -, rfl⟩ := mem_frees hr
      have h1 := hbelow d hd
      have h2 := (hin' e he).1
      omega
    · intro q hq
      rcases List.mem_append.mp hq with hq | hq
      · exact (hpre.spaced hlow).2 q hq
      · exact (hpost.spaced (by omega)).2 q hq
  have htfree : t ≠ THIS_CHUNK_FREE ∧ t % 8 = 0 := by
    rcases hpre.last_cases rfl with ⟨rfl, -⟩ | ⟨pre', b, rfl, -, rfl, -⟩
    · decide
    · obtain ⟨t', hb⟩ := hpre.chunk (by simp : b ∈ pre' ++ [b])
      have h32 := hb.min
      have h8 := hb.word
      unfold THIS_CHUNK_FREE
      omega
  unfold _large_free
  simp only [hsize]
  rw [check_eq fun _ => ?_, check_eq fun _ => ?_, check_eq fun _ => hmin, check_eq fun _ => ?_]
  rotate_left
  · omega
  · rw [ht]
    exact htfree.1
  · rw [and_seven]
    exact hword
  -- the data of the freed chunk are overwritten
  generalize hm₀ : only_debug debug m (memset m (c.addr + 16) 0xDE c.size) = m₀
  have hread : ∀ w, ¬ c.Data w → m₀ w = m w := by
    intro w hw
    rw [← hm₀]
    refine only_debug_apply ?_
    unfold memset
    rw [if_neg]
    unfold chunk_t.Data at hw
    omega
  have hread' : ∀ w, w < c.addr + 16 ∨ c.next ≤ w → m₀ w = m w := by
    intro w hw
    refine hread w ?_
    unfold chunk_t.Data
    omega
  have hpre₀ : Seg m₀ BOTH_CHUNKS_USED first pre t c.addr := hpre.congr fun d hd => by
    have h1 := hbelow d hd
    exact ⟨hread' _ (by omega), hread' _ (by omega)⟩
  have hpost₀ : Seg m₀ BOTH_CHUNKS_USED (c.addr + (16 + c.size)) post (m₀ last) last := by
    rw [hread' last (by omega)]
    refine hpost.congr fun d hd => ?_
    have h1 := (hin' d hd).1
    exact ⟨hread' _ (by omega), hread' _ (by omega)⟩
  have hbins₀ : Bins m₀ bins (frees pre ++ frees post) := by
    refine hbins.congr (fun w hw => hread' w (by omega)) fun q hq w h8 h48 => hread' w ?_
    rcases List.mem_append.mp hq with hq | hq
    · obtain ⟨d, hd, -, rfl⟩ := mem_frees hq
      have h1 := hbelow d hd
      omega
    · obtain ⟨d, hd, -, rfl⟩ := mem_frees hq
      have h1 := (hin' d hd).1
      omega
  have hF : ∀ q ∈ frees pre, q + 48 ≤ c.addr := by
    intro q hq
    obtain ⟨d, hd, -, rfl⟩ := mem_frees hq
    exact hbelow d hd
  obtain ⟨m₁, hrun₁, n, post', hnext', hn, hmod, hpost₁, ⟨bins₁, hbins₁⟩, hframe₁⟩ :=
    merge_next_spec hbins₀ hs (by omega) hF (hread' _ (by omega) |>.trans hsize) hmin hpost₀ hdebug
  have hn_ge : c.size ≤ n := by
    rcases hnext' with ⟨-, rfl⟩ | ⟨f, -, -, rfl⟩
    · exact le_refl _
    · omega
  have hsub : ∀ d ∈ post', d ∈ post := by
    rcases hnext' with ⟨rfl, -⟩ | ⟨f, -, rfl, -⟩
    · exact fun d hd => hd
    · exact fun d hd => List.mem_cons_of_mem f hd
  -- words before the chunk, and the data after it
  have hkeep₁ : ∀ w, ¬ LinkWord (frees pre ++ frees post) w → (∀ d ∈ post, w ≠ d.addr ∧ w ≠ d.addr + 8) →
      w ≠ last → w ≠ c.addr + 8 → m₁ w = m₀ w := fun w h1 h2 h3 h4 => hframe₁ w h4 h1 h2 h3
  have hbefore₁ : ∀ w, w < c.addr + 8 → ¬ LinkWord (frees pre) w → largebins N_BINS ≤ w → m₁ w = m₀ w := by
    intro w hw hlink hwlow
    refine hkeep₁ w (not_link_append hlink (hpost₀.outside_not_link hwlow (Or.inl (by omega)))) ?_ ?_ ?_
    · intro d hd
      have h1 := (hin' d hd).1
      omega
    · omega
    · omega
  have hpre₁ : Seg m₁ BOTH_CHUNKS_USED first pre t c.addr := hpre₀.congr fun d hd => by
    have h1 := hbelow d hd
    have h2 := (hin d hd).1
    exact ⟨hbefore₁ _ (by omega) (hpre₀.head_not_link hlow hd (Or.inl rfl)) (by omega),
      hbefore₁ _ (by omega) (hpre₀.head_not_link hlow hd (Or.inr rfl)) (by omega)⟩
  have ht₁ : m₁ c.addr = t := by
    rw [hbefore₁ _ (by omega) (hpre₀.outside_not_link (by omega) (Or.inr (le_refl _))) (by omega),
      hread' _ (by omega), ht]
  have hs₁ : Spaced (frees pre ++ frees post') := by
    refine hs.sublist (List.Sublist.append_left ?_ _)
    rcases hnext' with ⟨rfl, -⟩ | ⟨f, hf, rfl, -⟩
    · exact List.Sublist.refl _
    · rw [frees_cons_free hf]
      exact List.sublist_cons_self _ _
  have hword₁ : n % 8 = 0 := by omega
  obtain ⟨⟨m₂, q⟩, hrun₂, pre', g, hprev, hq, hseg, ⟨bins₂, hbins₂⟩, hframe₂⟩ :=
    merge_prev_spec hbins₁ hs₁ hlow hpre₁ ht₁ hn (by omega) hword₁
      (fun h => (hlarge h).trans hn_ge) hpost₁
  subst hq
  have hg : g.free = true := by
    rcases hprev with ⟨-, rfl⟩ | ⟨b, -, -, rfl⟩
    · rfl
    · rfl
  have hg_size : m₂ (g.addr + 8) = g.size := by
    obtain ⟨t', hat⟩ := hseg.chunk (by simp : g ∈ pre' ++ g :: post')
    exact hat.size
  have hfrees : frees (pre' ++ g :: post') = frees pre' ++ g.addr :: frees post' := by
    rw [frees_append, frees_cons_free hg]
  have hperm : (g.addr :: (frees pre' ++ frees post')).Perm (frees (pre' ++ g :: post')) := by
    rw [hfrees]
    exact List.perm_middle.symm
  have hs₂ : Spaced (g.addr :: (frees pre' ++ frees post')) := (hseg.spaced hlow).perm hperm
  obtain ⟨⟨bins₃, hbins₃⟩, hframe₃⟩ := hbins₂.insert_unsorted hs₂ largebin_index_lt
  have hlink₃ : ∀ w, ¬ LinkWord (frees (pre' ++ g :: post')) w → insert_unsorted m₂ g.addr w = m₂ w :=
    fun w hw => hframe₃ w fun h => hw (h.mono fun q hq => hperm.subset hq)
  obtain ⟨hle₂, hin₂, -⟩ := hseg.bounds
  have hlast₃ : insert_unsorted m₂ g.addr last = m₂ last :=
    hlink₃ last (hseg.outside_not_link (by omega) (Or.inr (le_refl _)))
  have hrun : (do
      let m ← merge_next debug m₀ c.addr
      let (m, chunk) ← merge_prev debug m c.addr
      some ({ mem := insert_unsorted m chunk, first_chunk := first, last_chunk := last,
              total_allocated := total - BitVec.ofNat 64 (c.size + LARGE_MALLOC_OVERHEAD) } : lm_t))
      = some { mem := insert_unsorted m₂ g.addr, first_chunk := first, last_chunk := last,
               total_allocated := total - BitVec.ofNat 64 (c.size + LARGE_MALLOC_OVERHEAD) } := by
    rw [hrun₁]
    simp only [Option.bind_eq_bind, Option.bind_some]
    rw [hrun₂]
    rfl
  have hrel : Released pre c post (pre' ++ g :: post') := by
    refine ⟨pre', g, post', rfl, hg, ?_, ?_⟩
    · rcases hprev with ⟨rfl, rfl⟩ | ⟨b, hb, rfl, rfl⟩
      · exact Or.inl ⟨rfl, rfl⟩
      · exact Or.inr ⟨b, hb, rfl, rfl⟩
    · have hg_next : g.next = c.addr + (16 + n) := by
        rcases hprev with ⟨-, rfl⟩ | ⟨b, -, rfl, rfl⟩
        · rfl
        · obtain ⟨-, r, -, hb, -, -, hend⟩ := seg_append.mp hpre
          have hbnext : b.next = b.addr + (16 + b.size) := rfl
          show b.addr + (16 + (b.size + (16 + n))) = c.addr + (16 + n)
          omega
      rcases hnext' with ⟨rfl, rfl⟩ | ⟨f, hf, rfl, rfl⟩
      · exact Or.inl ⟨rfl, hg_next⟩
      · refine Or.inr ⟨f, hf, rfl, ?_⟩
        have hfaddr := hpost.1
        have hfnext : f.next = f.addr + (16 + f.size) := rfl
        omega
  refine ⟨_, hrun, pre' ++ g :: post', hrel, ⟨hlow, ?_, ?_, ⟨bins₃, ?_⟩⟩, rfl, rfl, rfl, ?_⟩
  · show Seg (insert_unsorted m₂ g.addr) BOTH_CHUNKS_USED first _ (insert_unsorted m₂ g.addr last) last
    rw [hlast₃]
    exact hseg.congr fun d hd => ⟨hlink₃ _ (hseg.head_not_link hlow hd (Or.inl rfl)),
      hlink₃ _ (hseg.head_not_link hlow hd (Or.inr rfl))⟩
  · -- the marker is behind everything that has changed
    show insert_unsorted m₂ g.addr (last + 8) = END_MARKER
    have hout : ¬ LinkWord (frees pre ++ frees post) (last + 8) :=
      not_link_append (hpre₀.outside_not_link (by omega) (Or.inr (by omega)))
        (hpost₀.outside_not_link (by omega) (Or.inr (by omega)))
    have hpost_in : ∀ d ∈ post, last + 8 ≠ d.addr ∧ last + 8 ≠ d.addr + 8 := by
      intro d hd
      obtain ⟨h1, h2, h3⟩ := hin' d hd
      have hdnext : d.next = d.addr + (16 + d.size) := rfl
      omega
    rw [hlink₃ _ (hseg.outside_not_link (by omega) (Or.inr (by omega))),
      hframe₂ _ (by omega) (by omega) ?_ ?_ (by omega), hkeep₁ _ hout hpost_in (by omega) (by omega),
      hread' _ (by omega)]
    · exact hmarker
    · exact not_link_append (hpre₁.outside_not_link (by omega) (Or.inr (by omega)))
        (hpost₁.outside_not_link (by omega) (Or.inr (by omega)))
    · intro d hd
      rcases List.mem_append.mp hd with hd | hd
      · have h1 := hbelow d hd
        omega
      · exact hpost_in d (hsub d hd)
  · exact hbins₃.of_perm hperm
  · -- the data of the other chunks
    intro d hd w hw
    obtain ⟨hd, hused⟩ := mem_useds.mp hd
    have hdata : d.addr + 16 ≤ w ∧ w < d.next := hw
    have hnot_head : ∀ e ∈ pre ++ post, w ≠ e.addr ∧ w ≠ e.addr + 8 := by
      intro e he
      rcases List.mem_append.mp hd with hd | hd
      · obtain ⟨h1, h2, h3⟩ := hin d hd
        rcases List.mem_append.mp he with he | he
        · exact hpre.data_not_head hd hw he
        · have h4 := (hin' e he).1
          omega
      · obtain ⟨h1, h2, h3⟩ := hin' d hd
        rcases List.mem_append.mp he with he | he
        · have h4 := hbelow e he
          omega
        · exact hpost.data_not_head hd hw he
    have hplace : (w < c.addr ∨ c.next ≤ w) ∧ w < last ∧ largebins N_BINS ≤ w := by
      rcases List.mem_append.mp hd with hd | hd
      · obtain ⟨h1, h2, h3⟩ := hin d hd
        omega
      · obtain ⟨h1, h2, h3⟩ := hin' d hd
        omega
    have hlink : ¬ LinkWord (frees pre ++ frees post) w := by
      rcases List.mem_append.mp hd with hd | hd
      · obtain ⟨h1, h2, h3⟩ := hin d hd
        exact not_link_append (hpre₀.data_not_link hlow hd hused hw)
          (hpost₀.outside_not_link (by omega) (Or.inl (by omega)))
      · obtain ⟨h1, h2, h3⟩ := hin' d hd
        exact not_link_append (hpre₀.outside_not_link (by omega) (Or.inr (by omega)))
          (hpost₀.data_not_link (by omega) hd hused hw)
    have hd' : d ∈ pre' ++ g :: post' := by
      have hmem : d ∈ useds (pre' ++ g :: post') := by
        rw [hrel.useds, ← useds_append]
        exact mem_useds.mpr ⟨hd, hused⟩
      exact (mem_useds.mp hmem).1
    show insert_unsorted m₂ g.addr w = m w
    rw [hlink₃ w (hseg.data_not_link hlow hd' hused hw), hframe₂ w (by omega) (by omega) ?_ ?_ (by omega),
      hkeep₁ w hlink (fun e he => hnot_head e (List.mem_append_right _ he)) (by omega) (by omega),
      hread' w (by omega)]
    · refine fun h => hlink (h.mono fun q hq => ?_)
      rcases List.mem_append.mp hq with hq | hq
      · exact List.mem_append_left _ hq
      · obtain ⟨e, he, hfree, rfl⟩ := mem_frees hq
        exact List.mem_append_right _ (mem_frees_of (hsub e he) hfree)
    · intro e he
      rcases List.mem_append.mp he with he | he
      · exact hnot_head e (List.mem_append_left _ he)
      · exact hnot_head e (List.mem_append_right _ (hsub e he))

/-- **`_large_free`** of a used chunk, but for the last one in a build with
assertions. -/
theorem Heap._large_free {s : lm_t} {pre : List chunk_t} {c : chunk_t} (h : Heap s (pre ++ c :: post))
    (hused : c.free = false) (hdebug : debug = true → post ≠ []) :
    Returns (Largemalloc._large_free debug s c.addr) fun s' => ∃ cs', Released pre c post cs' ∧
      Heap s' cs' ∧ s'.first_chunk = s.first_chunk ∧ s'.last_chunk = s.last_chunk ∧
      s'.total_allocated = s.total_allocated - BitVec.ofNat 64 (c.size + LARGE_MALLOC_OVERHEAD) ∧
      DataKept (pre ++ post) s.mem s'.mem := by
  obtain ⟨hlow, hseg, hmarker, bins, hbins⟩ := h
  obtain ⟨t, r, hpre, haddr, hat, hpost⟩ := seg_append.mp hseg
  have htag : c.tag = BOTH_CHUNKS_USED := by
    rw [chunk_t.tag, if_neg]
    simp [hused]
  have hprev : s.mem c.addr = t := by
    rw [hat.prev_size, if_neg]
    simp [hused]
  have hmin := hat.min
  rw [htag] at hpost
  rw [frees_append, frees_cons_used hused] at hbins
  subst haddr
  exact _large_free_words hlow hpre hprev hat.size (by omega) hat.word (fun _ => hmin) hpost hmarker
    hbins hdebug

/-- The chunk before the end marker: the marker is taken for a chunk, and its
size is odd. -/
theorem _large_free_last {s : lm_t} {chunk size : ℕ} (hsize : s.mem (chunk + 8) = size)
    (hnext : s.mem (chunk + (16 + size)) = BOTH_CHUNKS_USED)
    (hmarker : s.mem (chunk + (16 + size) + 8) = END_MARKER) :
    Largemalloc._large_free true s chunk = none := by
  cases hrun : Largemalloc._large_free true s chunk with
  | none => rfl
  | some s' =>
      exfalso
      unfold Largemalloc._large_free check only_debug at hrun
      simp only [if_pos, c_assert_eq_some] at hrun
      obtain ⟨-, -, -, -, hrun⟩ := hrun
      rw [Option.bind_eq_bind, Option.bind_eq_some_iff] at hrun
      obtain ⟨m', hm', -⟩ := hrun
      have hkept : ∀ w, w < chunk + 16 ∨ chunk + (16 + size) ≤ w →
          memset s.mem (chunk + 16) 0xDE (s.mem (chunk + 8)) w = s.mem w := by
        intro w hw
        unfold memset
        rw [if_neg]
        omega
      unfold merge_next at hm'
      have hplace : chunk + (s.mem (chunk + 8) + CHUNK_HEADER_SIZE) = chunk + (16 + size) := by
        unfold CHUNK_HEADER_SIZE
        omega
      rw [hkept (chunk + 8) (by omega)] at hm'
      simp only [hplace] at hm'
      rw [hkept _ (by omega), if_pos hnext, hkept _ (by omega), hmarker] at hm'
      simp only [check, if_pos, c_assert_eq_some] at hm'
      exact absurd hm'.1 (by decide)

end Free

end Stmgc.C7.Largemalloc
