/-
What holds of the pages and of the free lists between two steps.

[`PagesInv`] is about the memory that is held: pages and large objects do not
overlap, and each is in one list. [`BlocksInv`] is about what is in it: a
location of a page is live, or in one free list. The free lists themselves are
an argument, `F`, of which [`BlocksInv.free`] says that they are the chains in
memory.
-/
import Stmgc.C4.GcPage

namespace Stmgc.C4.GcPage

open Stmgc.Lib

/-! ## Chains -/

/-- The chain of free locations from `p` on. -/
def Linked (next : ℕ → ℕ) (p : ℕ) (l : List ℕ) : Prop :=
  Path (fun x y => x ≠ 0 ∧ next x = y) p l 0

section

variable {next next' : ℕ → ℕ} {p x : ℕ} {l l' : List ℕ}

theorem linked_cons :
    Linked next p (x :: l) ↔ x = p ∧ p ≠ 0 ∧ Linked next (next p) l := by
  unfold Linked
  rw [Path.cons_iff]
  constructor
  · rintro ⟨hx, _, ⟨hp, rfl⟩, h⟩
    exact ⟨hx, hp, h⟩
  · rintro ⟨hx, hp, h⟩
    exact ⟨hx, _, ⟨hp, rfl⟩, h⟩

theorem linked_zero (h : Linked next 0 l) : l = [] := by
  cases l with
  | nil => rfl
  | cons x l => exact absurd rfl (linked_cons.mp h).2.1

theorem linked_of_ne_zero (h : Linked next p l) (hp : p ≠ 0) :
    ∃ l', l = p :: l' ∧ Linked next (next p) l' := by
  cases l with
  | nil => exact absurd (Path.nil_iff.mp h) hp
  | cons x l =>
      obtain ⟨rfl, -, hl⟩ := linked_cons.mp h
      exact ⟨l, rfl, hl⟩

/-- The chain from a location is what memory says. -/
theorem Linked.unique : ∀ {l l' : List ℕ} {p : ℕ}, Linked next p l → Linked next p l' → l = l'
  | [], l', p, h, h' => by
      rw [Path.nil_iff.mp h] at h'
      exact (linked_zero h').symm
  | x :: l, l', p, h, h' => by
      obtain ⟨rfl, hx, hl⟩ := linked_cons.mp h
      obtain ⟨l'', rfl, hl'⟩ := linked_of_ne_zero h' hx
      rw [Linked.unique hl hl']

theorem Linked.congr (h : Linked next p l) (hnext : ∀ x ∈ l, next' x = next x) :
    Linked next' p l :=
  Path.congr h fun x hx y hxy => ⟨hxy.1, (hnext x hx).trans hxy.2⟩

end

/-! ## Locations -/

section

variable {size_class page b b' : ℕ}

theorem mem_blocks :
    b ∈ blocks size_class page ↔ ∃ j < nblocks_for_size size_class, page + 1 + j * size_class = b := by
  unfold blocks
  simp only [List.mem_map, List.mem_range]

/-- All locations lie in the page, behind its header. -/
theorem block_in_page (hb : b ∈ blocks size_class page) :
    page < b ∧ b + size_class ≤ page + GC_PAGE_WORDS := by
  obtain ⟨j, hj, rfl⟩ := mem_blocks.mp hb
  refine ⟨by omega, ?_⟩
  have hfit : (j + 1) * size_class ≤ 1020 := by
    have hdiv : nblocks_for_size size_class * (WORD * size_class) ≤ GC_PAGE_WORDS * WORD - WORD :=
      Nat.div_mul_le_self _ _
    have hle : (j + 1) * (WORD * size_class) ≤ 1020 * WORD :=
      (Nat.mul_le_mul_right _ hj).trans hdiv
    rw [Nat.mul_left_comm, Nat.mul_comm 1020 WORD] at hle
    exact Nat.le_of_mul_le_mul_left hle (by decide)
  rw [Nat.succ_mul] at hfit
  unfold GC_PAGE_WORDS
  omega

/-- Two locations of one page. -/
theorem blocks_apart (hb : b ∈ blocks size_class page) (hb' : b' ∈ blocks size_class page)
    (hne : b ≠ b') : b + size_class ≤ b' ∨ b' + size_class ≤ b := by
  obtain ⟨j, -, rfl⟩ := mem_blocks.mp hb
  obtain ⟨k, -, rfl⟩ := mem_blocks.mp hb'
  rcases Nat.lt_trichotomy j k with hlt | rfl | hlt
  · have := Nat.mul_le_mul_right size_class hlt
    rw [Nat.succ_mul] at this
    exact Or.inl (by omega)
  · exact absurd rfl hne
  · have := Nat.mul_le_mul_right size_class hlt
    rw [Nat.succ_mul] at this
    exact Or.inr (by omega)

theorem blocks_nodup (hpos : 0 < size_class) : (blocks size_class page).Nodup := by
  refine List.Nodup.map (fun j k h => ?_) List.nodup_range
  exact Nat.eq_of_mul_eq_mul_right hpos (Nat.add_left_cancel h)

end

/-! ## The memory that is held -/

/-- Two pieces of memory. -/
def Apart (r r' : ℕ × ℕ) : Prop := r.1 + r.2 ≤ r'.1 ∨ r'.1 + r'.2 ≤ r.1

instance : Std.Symm Apart := ⟨fun _ _ h => h.symm⟩

/-- A location of a page of this size class. -/
def Block (pages : ℕ → ℕ → List ℕ) (size_class b : ℕ) : Prop :=
  ∃ i, ∃ p ∈ pages i size_class, b ∈ blocks size_class p

structure PagesInv (malloced : List (ℕ × ℕ)) (pages : ℕ → ℕ → List ℕ) (nonsmall : ℕ → List ℕ) :
    Prop where
  malloced_pos : ∀ r ∈ malloced, 0 < r.1 ∧ 0 < r.2
  malloced_apart : malloced.Pairwise Apart
  page : ∀ i c, ∀ p ∈ pages i c, (p, GC_PAGE_WORDS) ∈ malloced ∧ 0 < c ∧ c < GC_SMALL_REQUESTS
  pages_nodup : ∀ i c, (pages i c).Nodup
  page_unique : ∀ i c j d, ∀ p ∈ pages i c, p ∈ pages j d → i = j ∧ c = d
  nonsmall_malloced : ∀ i, ∀ b ∈ nonsmall i, ∃ n, (b, n) ∈ malloced
  nonsmall_nodup : ∀ i, (nonsmall i).Nodup
  nonsmall_unique : ∀ i j, ∀ b ∈ nonsmall i, b ∈ nonsmall j → i = j
  not_page : ∀ i j c, ∀ b ∈ nonsmall i, b ∉ pages j c

section

variable {malloced malloced' : List (ℕ × ℕ)} {pages pages' : ℕ → ℕ → List ℕ}
  {nonsmall nonsmall' : ℕ → List ℕ} {b : ℕ}

/-- Memory that overlaps is the same. -/
theorem PagesInv.eq_of_overlap (h : PagesInv malloced pages nonsmall) {r r' : ℕ × ℕ} {x : ℕ}
    (hr : r ∈ malloced) (hr' : r' ∈ malloced) (hx : r.1 ≤ x) (hlt : x < r.1 + r.2)
    (hx' : r'.1 ≤ x) (hlt' : x < r'.1 + r'.2) : r = r' := by
  by_contra hne
  have happart : Apart r r' := h.malloced_apart.forall hr hr' hne
  unfold Apart at happart
  omega

/-- A location is in one page. -/
theorem PagesInv.page_eq (h : PagesInv malloced pages nonsmall) {i c j d p q : ℕ}
    (hp : p ∈ pages i c) (hb : b ∈ blocks c p) (hq : q ∈ pages j d) (hb' : b ∈ blocks d q) :
    p = q ∧ i = j ∧ c = d := by
  obtain ⟨hpm, hc, -⟩ := h.page i c p hp
  obtain ⟨hqm, hd, -⟩ := h.page j d q hq
  obtain ⟨hlt, hle⟩ := block_in_page hb
  obtain ⟨hlt', hle'⟩ := block_in_page hb'
  have hpq : (p, GC_PAGE_WORDS) = (q, GC_PAGE_WORDS) :=
    h.eq_of_overlap (x := b) hpm hqm (by dsimp only; omega) (by dsimp only; omega)
      (by dsimp only; omega) (by dsimp only; omega)
  obtain rfl : p = q := congrArg Prod.fst hpq
  exact ⟨rfl, h.page_unique i c j d p hp hq⟩

/-- A large object is not in a page. -/
theorem PagesInv.not_block (h : PagesInv malloced pages nonsmall) {i c : ℕ}
    (hb : b ∈ nonsmall i) : ¬ Block pages c b := by
  rintro ⟨j, p, hp, hblock⟩
  obtain ⟨n, hn⟩ := h.nonsmall_malloced i b hb
  obtain ⟨hpm, hc, -⟩ := h.page j c p hp
  obtain ⟨hlt, hle⟩ := block_in_page hblock
  have hpos := h.malloced_pos _ hn
  have heq : (b, n) = (p, GC_PAGE_WORDS) :=
    h.eq_of_overlap (x := b) hn hpm (Nat.le_refl b) (by dsimp only at hpos ⊢; omega)
      (by dsimp only; omega) (by dsimp only; omega)
  have hbp : b = p := congrArg Prod.fst heq
  omega

theorem PagesInv.block_class (h : PagesInv malloced pages nonsmall) {c d : ℕ}
    (hc : Block pages c b) (hd : Block pages d b) : c = d := by
  obtain ⟨i, p, hp, hb⟩ := hc
  obtain ⟨j, q, hq, hb'⟩ := hd
  exact (h.page_eq hp hb hq hb').2.2

/-- Pages and large objects are given back, and the lists change their order. -/
theorem PagesInv.sub (h : PagesInv malloced pages nonsmall) (hmalloced : malloced'.Sublist malloced)
    (hpages : ∀ i c, ∀ p ∈ pages' i c, p ∈ pages i c ∧ (p, GC_PAGE_WORDS) ∈ malloced')
    (hpages_nodup : ∀ i c, (pages' i c).Nodup)
    (hnonsmall : ∀ i, ∀ b ∈ nonsmall' i, b ∈ nonsmall i ∧ ∃ n, (b, n) ∈ malloced')
    (hnonsmall_nodup : ∀ i, (nonsmall' i).Nodup) : PagesInv malloced' pages' nonsmall' :=
  ⟨fun r hr => h.malloced_pos r (hmalloced.subset hr), h.malloced_apart.sublist hmalloced,
    fun i c p hp => ⟨(hpages i c p hp).2, (h.page i c p (hpages i c p hp).1).2⟩, hpages_nodup,
    fun i c j d p hp hq => h.page_unique i c j d p (hpages i c p hp).1 (hpages j d p hq).1,
    fun i b hb => (hnonsmall i b hb).2, hnonsmall_nodup,
    fun i j b hb hb' => h.nonsmall_unique i j b (hnonsmall i b hb).1 (hnonsmall j b hb').1,
    fun i j c b hb hp => h.not_page i j c b (hnonsmall i b hb).1 (hpages j c b hp).1⟩

end

/-! ## What is in it -/

/-- Sizes that are served from pages. -/
def Small (size : ℕ) : Prop := size ≤ GC_SMALL_REQUEST_THRESHOLD

structure BlocksInv (malloced : List (ℕ × ℕ)) (pages : ℕ → ℕ → List ℕ) (nonsmall : ℕ → List ℕ)
    (free_loc : ℕ → ℕ → ℕ) (h_revision : ℕ → ℕ) (h_tid : ℕ → BitVec 64) (live : ℕ → Option ℕ)
    (F : ℕ → ℕ → List ℕ) : Prop where
  free : ∀ i c, Linked h_revision (free_loc i c) (F i c)
  free_block : ∀ i c, ∀ b ∈ F i c, live b = none ∧ Block pages c b
  free_nodup : ∀ i c, (F i c).Nodup
  free_unique : ∀ i j c, ∀ b ∈ F i c, b ∈ F j c → i = j
  cover : ∀ c b, Block pages c b → live b = none → ∃ i, b ∈ F i c
  size : ∀ b size, live b = some size → sizeof_object ≤ size
  small : ∀ b size, live b = some size → Small size → Block pages (words size) b
  large : ∀ b size, live b = some size → ¬ Small size →
    (∃ i, b ∈ nonsmall i) ∧ (b, words size) ∈ malloced
  nonsmall_live : ∀ i, ∀ b ∈ nonsmall i, ∃ size, live b = some size ∧ ¬ Small size
  flags : ∀ b size, live b = some size → no_flags (h_tid b) = true

section

variable {malloced : List (ℕ × ℕ)} {pages : ℕ → ℕ → List ℕ} {nonsmall : ℕ → List ℕ}
  {free_loc : ℕ → ℕ → ℕ} {h_revision : ℕ → ℕ} {h_tid : ℕ → BitVec 64} {live : ℕ → Option ℕ}
  {F : ℕ → ℕ → List ℕ} {i c b size : ℕ} {tid : BitVec 64}

theorem BlocksInv.live_ne_zero (hp : PagesInv malloced pages nonsmall)
    (h : BlocksInv malloced pages nonsmall free_loc h_revision h_tid live F)
    (hlive : live b = some size) : b ≠ 0 := by
  by_cases hsmall : Small size
  · obtain ⟨j, p, -, hb⟩ := h.small b size hlive hsmall
    have := (block_in_page hb).1
    omega
  · have := (hp.malloced_pos _ (h.large b size hlive hsmall).2).1
    dsimp only at this
    omega

/-- An object lies in memory that is held. -/
theorem BlocksInv.live_malloced (hp : PagesInv malloced pages nonsmall)
    (h : BlocksInv malloced pages nonsmall free_loc h_revision h_tid live F)
    (hlive : live b = some size) :
    ∃ r ∈ malloced, r.1 ≤ b ∧ b + words size ≤ r.1 + r.2 := by
  by_cases hsmall : Small size
  · obtain ⟨j, p, hpage, hb⟩ := h.small b size hlive hsmall
    obtain ⟨hlt, hle⟩ := block_in_page hb
    exact ⟨_, (hp.page j _ p hpage).1, by dsimp only; omega, hle⟩
  · exact ⟨_, (h.large b size hlive hsmall).2, Nat.le_refl b, Nat.le_refl _⟩

theorem words_pos (hsize : sizeof_object ≤ size) : 0 < words size := by
  unfold sizeof_object WORD at hsize
  unfold words WORD
  omega

/-- Objects do not overlap. -/
theorem BlocksInv.live_apart (hp : PagesInv malloced pages nonsmall)
    (h : BlocksInv malloced pages nonsmall free_loc h_revision h_tid live F) {b' size' : ℕ}
    (hlive : live b = some size) (hlive' : live b' = some size') (hne : b ≠ b') :
    b + words size ≤ b' ∨ b' + words size' ≤ b := by
  by_contra hover
  -- what overlaps lies in the same piece of memory
  obtain ⟨r, hr, hle, hend⟩ := h.live_malloced hp hlive
  obtain ⟨r', hr', hle', hend'⟩ := h.live_malloced hp hlive'
  have hpos := words_pos (h.size b size hlive)
  have hpos' := words_pos (h.size b' size' hlive')
  by_cases hsmall : Small size
  · obtain ⟨j, p, hpage, hb⟩ := h.small b size hlive hsmall
    by_cases hsmall' : Small size'
    · obtain ⟨k, q, hpage', hb'⟩ := h.small b' size' hlive' hsmall'
      obtain ⟨hlt, hfit⟩ := block_in_page hb
      obtain ⟨hlt', hfit'⟩ := block_in_page hb'
      have hpq : (p, GC_PAGE_WORDS) = (q, GC_PAGE_WORDS) :=
        hp.eq_of_overlap (x := max b b') (hp.page j _ p hpage).1 (hp.page k _ q hpage').1
          (by dsimp only; omega) (by dsimp only; omega) (by dsimp only; omega)
          (by dsimp only; omega)
      obtain rfl : p = q := congrArg Prod.fst hpq
      have hclass := (hp.page_unique j _ k _ p hpage hpage').2
      rw [← hclass] at hb' hover
      exact hover (blocks_apart hb hb' hne)
    · obtain ⟨⟨k, hk⟩, hm⟩ := h.large b' size' hlive' hsmall'
      obtain ⟨hlt, hfit⟩ := block_in_page hb
      have heq : (p, GC_PAGE_WORDS) = (b', words size') :=
        hp.eq_of_overlap (x := max b b') (hp.page j _ p hpage).1 hm (by dsimp only; omega)
          (by dsimp only; omega) (by dsimp only; omega) (by dsimp only; omega)
      obtain rfl : p = b' := congrArg Prod.fst heq
      exact hp.not_page k j _ p hk hpage
  · obtain ⟨⟨k, hk⟩, hm⟩ := h.large b size hlive hsmall
    by_cases hsmall' : Small size'
    · obtain ⟨j, q, hpage', hb'⟩ := h.small b' size' hlive' hsmall'
      obtain ⟨hlt', hfit'⟩ := block_in_page hb'
      have heq : (b, words size) = (q, GC_PAGE_WORDS) :=
        hp.eq_of_overlap (x := max b b') hm (hp.page j _ q hpage').1 (by dsimp only; omega)
          (by dsimp only; omega) (by dsimp only; omega) (by dsimp only; omega)
      obtain rfl : b = q := congrArg Prod.fst heq
      exact hp.not_page k j _ b hk hpage'
    · obtain ⟨-, hm'⟩ := h.large b' size' hlive' hsmall'
      have heq : (b, words size) = (b', words size') :=
        hp.eq_of_overlap (x := max b b') hm hm' (by dsimp only; omega) (by dsimp only; omega)
          (by dsimp only; omega) (by dsimp only; omega)
      exact hne (congrArg Prod.fst heq)

/-- The first free location is taken. -/
theorem BlocksInv.take (hp : PagesInv malloced pages nonsmall)
    (h : BlocksInv malloced pages nonsmall free_loc h_revision h_tid live F)
    (hne : free_loc i (words size) ≠ 0) (hsize : sizeof_object ≤ size) (hsmall : Small size)
    (htid : no_flags tid = true) :
    BlocksInv malloced pages nonsmall
      (fun j d => if j = i ∧ d = words size then h_revision (free_loc i (words size))
        else free_loc j d)
      h_revision (Function.update h_tid (free_loc i (words size)) tid)
      (Function.update live (free_loc i (words size)) (some size))
      (fun j d => if j = i ∧ d = words size then (F i (words size)).tail else F j d) := by
  obtain ⟨l, hF, hl⟩ := linked_of_ne_zero (h.free i (words size)) hne
  generalize hb : free_loc i (words size) = b at *
  have hmem : b ∈ F i (words size) := hF ▸ List.mem_cons_self
  have hnodup := hF ▸ h.free_nodup i (words size)
  obtain ⟨hbfree, hblock⟩ := h.free_block i _ b hmem
  rw [hF, List.tail_cons]
  -- the other entries of the lists are other locations
  have hsub : ∀ j d x, x ∈ (if j = i ∧ d = words size then l else F j d) →
      x ∈ F j d ∧ x ≠ b := by
    intro j d x hx
    split_ifs at hx with hjd
    · obtain ⟨rfl, rfl⟩ := hjd
      refine ⟨hF ▸ List.mem_cons_of_mem _ hx, ?_⟩
      rintro rfl
      exact (List.nodup_cons.mp hnodup).1 hx
    · refine ⟨hx, ?_⟩
      rintro rfl
      obtain rfl := hp.block_class (h.free_block j d x hx).2 hblock
      exact hjd ⟨h.free_unique j i _ x hx hmem, rfl⟩
  refine ⟨fun j d => ?_, fun j d x hx => ?_, fun j d => ?_, fun j k d x hx hx' => ?_,
    fun d x hx hlive => ?_, fun x n hlive => ?_, fun x n hlive hn => ?_, fun x n hlive hn => ?_,
    fun j x hx => ?_, fun x n hlive => ?_⟩
  · split_ifs
    · exact hl
    · exact h.free j d
  · obtain ⟨hx, hxb⟩ := hsub j d x hx
    rw [Function.update_of_ne hxb]
    exact h.free_block j d x hx
  · split_ifs
    · exact (List.nodup_cons.mp hnodup).2
    · exact h.free_nodup j d
  · exact h.free_unique j k d x (hsub j d x hx).1 (hsub k d x hx').1
  · rw [Function.update_apply] at hlive
    split_ifs at hlive with hxb
    obtain ⟨k, hk⟩ := h.cover d x hx hlive
    refine ⟨k, ?_⟩
    split_ifs with hkd
    · obtain ⟨rfl, rfl⟩ := hkd
      rw [hF] at hk
      exact (List.mem_cons.mp hk).resolve_left hxb
    · exact hk
  · rw [Function.update_apply] at hlive
    split_ifs at hlive with hxb
    · exact Option.some.inj hlive ▸ hsize
    · exact h.size x n hlive
  · rw [Function.update_apply] at hlive
    split_ifs at hlive with hxb
    · rw [hxb, ← Option.some.inj hlive]
      exact hblock
    · exact h.small x n hlive hn
  · rw [Function.update_apply] at hlive
    split_ifs at hlive with hxb
    · exact absurd (Option.some.inj hlive ▸ hsmall) hn
    · exact h.large x n hlive hn
  · have hxb : x ≠ b := by
      rintro rfl
      exact hp.not_block hx hblock
    rw [Function.update_of_ne hxb]
    exact h.nonsmall_live j x hx
  · rw [Function.update_apply] at hlive ⊢
    split_ifs at hlive ⊢ with hxb
    · exact htid
    · exact h.flags x n hlive

/-- A small object is put at the head of a free list of any thread. -/
theorem BlocksInv.give (hp : PagesInv malloced pages nonsmall)
    (h : BlocksInv malloced pages nonsmall free_loc h_revision h_tid live F)
    (hlive : live b = some size) (hsmall : Small size) :
    BlocksInv malloced pages nonsmall
      (fun j d => if j = i ∧ d = words size then b else free_loc j d)
      (Function.update h_revision b (free_loc i (words size))) (Function.update h_tid b tid)
      (Function.update live b none)
      (fun j d => if j = i ∧ d = words size then b :: F i (words size) else F j d) := by
  have hblock := h.small b size hlive hsmall
  have hout : ∀ j d, b ∉ F j d := by
    intro j d hb
    rw [(h.free_block j d b hb).1] at hlive
    cases hlive
  have hlinked : ∀ j d, Linked (Function.update h_revision b (free_loc i (words size)))
      (free_loc j d) (F j d) := by
    intro j d
    refine (h.free j d).congr fun x hx => Function.update_of_ne ?_ ..
    rintro rfl
    exact hout j d hx
  have hsub : ∀ j d x, x ∈ (if j = i ∧ d = words size then b :: F i (words size) else F j d) →
      (x = b ∧ j = i ∧ d = words size) ∨ x ∈ F j d := by
    intro j d x hx
    split_ifs at hx with hjd
    · refine (List.mem_cons.mp hx).imp (fun h => ⟨h, hjd⟩) fun h => ?_
      rw [hjd.1, hjd.2]
      exact h
    · exact Or.inr hx
  refine ⟨fun j d => ?_, fun j d x hx => ?_, fun j d => ?_, fun j k d x hx hx' => ?_,
    fun d x hx hfree => ?_, fun x n hn => ?_, fun x n hn hs => ?_, fun x n hn hs => ?_,
    fun j x hx => ?_, fun x n hn => ?_⟩
  · split_ifs with hjd
    · refine linked_cons.mpr ⟨rfl, h.live_ne_zero hp hlive, ?_⟩
      rw [Function.update_self]
      exact hlinked i (words size)
    · exact hlinked j d
  · rcases hsub j d x hx with ⟨rfl, rfl, rfl⟩ | hx
    · exact ⟨Function.update_self .., hblock⟩
    · obtain ⟨hfree, hx⟩ := h.free_block j d x hx
      refine ⟨?_, hx⟩
      rw [Function.update_apply]
      split_ifs
      · rfl
      · exact hfree
  · split_ifs
    · exact List.nodup_cons.mpr ⟨hout i _, h.free_nodup i _⟩
    · exact h.free_nodup j d
  · rcases hsub j d x hx with ⟨rfl, rfl, -⟩ | hin
    · rcases hsub k d x hx' with ⟨-, rfl, -⟩ | hin'
      · rfl
      · exact absurd hin' (hout k d)
    · rcases hsub k d x hx' with ⟨rfl, -, -⟩ | hin'
      · exact absurd hin (hout j d)
      · exact h.free_unique j k d x hin hin'
  · by_cases hxb : x = b
    · subst hxb
      obtain rfl := hp.block_class hx hblock
      refine ⟨i, ?_⟩
      rw [if_pos ⟨rfl, rfl⟩]
      exact List.mem_cons_self
    · rw [Function.update_of_ne hxb] at hfree
      obtain ⟨k, hk⟩ := h.cover d x hx hfree
      refine ⟨k, ?_⟩
      split_ifs with hkd
      · rw [hkd.1, hkd.2] at hk
        exact List.mem_cons_of_mem _ hk
      · exact hk
  · rw [Function.update_apply] at hn
    split_ifs at hn
    exact h.size x n hn
  · rw [Function.update_apply] at hn
    split_ifs at hn
    exact h.small x n hn hs
  · rw [Function.update_apply] at hn
    split_ifs at hn
    exact h.large x n hn hs
  · have hxb : x ≠ b := by
      rintro rfl
      exact hp.not_block hx hblock
    rw [Function.update_of_ne hxb]
    exact h.nonsmall_live j x hx
  · rw [Function.update_apply] at hn
    split_ifs at hn with hxb
    rw [Function.update_of_ne hxb]
    exact h.flags x n hn

/-- The program writes to an object. -/
theorem BlocksInv.write {v : ℕ}
    (h : BlocksInv malloced pages nonsmall free_loc h_revision h_tid live F)
    (hlive : live b ≠ none) (htid : no_flags tid = true) :
    BlocksInv malloced pages nonsmall free_loc (Function.update h_revision b v)
      (Function.update h_tid b tid) live F := by
  refine ⟨fun j d => (h.free j d).congr fun x hx => Function.update_of_ne ?_ .., h.free_block,
    h.free_nodup, h.free_unique, h.cover, h.size, h.small, h.large, h.nonsmall_live,
    fun x n hn => ?_⟩
  · rintro rfl
    exact hlive (h.free_block j d x hx).1
  · rw [Function.update_apply]
    split_ifs
    · exact htid
    · exact h.flags x n hn

/-! ## More memory, and less -/

/-- What `stm_malloc` may return. -/
def FreshIn (malloced : List (ℕ × ℕ)) (p n : ℕ) : Prop :=
  0 < p ∧ ∀ r ∈ malloced, p + n ≤ r.1 ∨ r.1 + r.2 ≤ p

/-- Nothing that is held overlaps it. -/
theorem FreshIn.not_mem {p n m x : ℕ} (hfresh : FreshIn malloced p n) (hm : (x, m) ∈ malloced)
    {y : ℕ} (hx : x ≤ y) (hlt : y < x + m) (hy : p ≤ y) (hyn : y < p + n) : False := by
  have := hfresh.2 _ hm
  dsimp only at this
  omega

theorem PagesInv.add_page {p : ℕ} (h : PagesInv malloced pages nonsmall)
    (hfresh : FreshIn malloced p GC_PAGE_WORDS) (hc : 0 < c) (hlt : c < GC_SMALL_REQUESTS) :
    PagesInv ((p, GC_PAGE_WORDS) :: malloced)
      (fun j d => if j = i ∧ d = c then p :: pages i c else pages j d) nonsmall := by
  have hwords : 0 < GC_PAGE_WORDS := by decide
  have hnew : ∀ j d, p ∉ pages j d := fun j d hp =>
    hfresh.not_mem (h.page j d p hp).1 (Nat.le_refl p) (by omega) (Nat.le_refl p) (by omega)
  have hsub : ∀ j d x, x ∈ (if j = i ∧ d = c then p :: pages i c else pages j d) →
      (x = p ∧ j = i ∧ d = c) ∨ x ∈ pages j d := by
    intro j d x hx
    split_ifs at hx with hjd
    · refine (List.mem_cons.mp hx).imp (fun h => ⟨h, hjd⟩) fun h => ?_
      rw [hjd.1, hjd.2]
      exact h
    · exact Or.inr hx
  refine ⟨fun r hr => ?_, ?_, fun j d x hx => ?_, fun j d => ?_, fun j d k e x hx hx' => ?_,
    fun j x hx => ?_, h.nonsmall_nodup, h.nonsmall_unique, fun j k d x hx hx' => ?_⟩
  · rcases List.mem_cons.mp hr with rfl | hr
    · exact ⟨hfresh.1, hwords⟩
    · exact h.malloced_pos r hr
  · exact List.pairwise_cons.mpr ⟨fun r hr => hfresh.2 r hr, h.malloced_apart⟩
  · rcases hsub j d x hx with ⟨rfl, -, rfl⟩ | hx
    · exact ⟨List.mem_cons_self, hc, hlt⟩
    · exact ⟨List.mem_cons_of_mem _ (h.page j d x hx).1, (h.page j d x hx).2⟩
  · split_ifs
    · exact List.nodup_cons.mpr ⟨hnew i c, h.pages_nodup i c⟩
    · exact h.pages_nodup j d
  · rcases hsub j d x hx with ⟨rfl, rfl, rfl⟩ | hin
    · rcases hsub k e x hx' with ⟨-, rfl, rfl⟩ | hin'
      · exact ⟨rfl, rfl⟩
      · exact absurd hin' (hnew k e)
    · rcases hsub k e x hx' with ⟨rfl, rfl, rfl⟩ | hin'
      · exact absurd hin (hnew j d)
      · exact h.page_unique j d k e x hin hin'
  · obtain ⟨n, hn⟩ := h.nonsmall_malloced j x hx
    exact ⟨n, List.mem_cons_of_mem _ hn⟩
  · rcases hsub k d x hx' with ⟨rfl, -, -⟩ | hx'
    · obtain ⟨n, hn⟩ := h.nonsmall_malloced j x hx
      have hpos := (h.malloced_pos _ hn).2
      dsimp only at hpos
      exact hfresh.not_mem hn (Nat.le_refl x) (by omega) (Nat.le_refl x) (by omega)
    · exact h.not_page j k d x hx hx'

theorem PagesInv.add_nonsmall {p n : ℕ} (h : PagesInv malloced pages nonsmall)
    (hfresh : FreshIn malloced p n) (hn : 0 < n) :
    PagesInv ((p, n) :: malloced) pages
      (fun j => if j = i then p :: nonsmall i else nonsmall j) := by
  have hnew : ∀ j, p ∉ nonsmall j := by
    intro j hp
    obtain ⟨m, hm⟩ := h.nonsmall_malloced j p hp
    have hpos := (h.malloced_pos _ hm).2
    dsimp only at hpos
    exact hfresh.not_mem hm (Nat.le_refl p) (by omega) (Nat.le_refl p) (by omega)
  have hsub : ∀ j x, x ∈ (if j = i then p :: nonsmall i else nonsmall j) →
      (x = p ∧ j = i) ∨ x ∈ nonsmall j := by
    intro j x hx
    split_ifs at hx with hj
    · refine (List.mem_cons.mp hx).imp (fun h => ⟨h, hj⟩) fun h => ?_
      rw [hj]
      exact h
    · exact Or.inr hx
  refine ⟨fun r hr => ?_, ?_, fun j d x hx => ?_, h.pages_nodup, h.page_unique,
    fun j x hx => ?_, fun j => ?_, fun j k x hx hx' => ?_, fun j k d x hx hx' => ?_⟩
  · rcases List.mem_cons.mp hr with rfl | hr
    · exact ⟨hfresh.1, hn⟩
    · exact h.malloced_pos r hr
  · exact List.pairwise_cons.mpr ⟨fun r hr => hfresh.2 r hr, h.malloced_apart⟩
  · exact ⟨List.mem_cons_of_mem _ (h.page j d x hx).1, (h.page j d x hx).2⟩
  · rcases hsub j x hx with ⟨rfl, -⟩ | hx
    · exact ⟨n, List.mem_cons_self⟩
    · obtain ⟨m, hm⟩ := h.nonsmall_malloced j x hx
      exact ⟨m, List.mem_cons_of_mem _ hm⟩
  · split_ifs
    · exact List.nodup_cons.mpr ⟨hnew i, h.nonsmall_nodup i⟩
    · exact h.nonsmall_nodup j
  · rcases hsub j x hx with ⟨rfl, rfl⟩ | hin
    · rcases hsub k x hx' with ⟨-, rfl⟩ | hin'
      · rfl
      · exact absurd hin' (hnew k)
    · rcases hsub k x hx' with ⟨rfl, rfl⟩ | hin'
      · exact absurd hin (hnew j)
      · exact h.nonsmall_unique j k x hin hin'
  · rcases hsub j x hx with ⟨rfl, -⟩ | hx
    · have hwords : 0 < GC_PAGE_WORDS := by decide
      exact hfresh.not_mem (h.page k d x hx').1 (Nat.le_refl x) (by omega) (Nat.le_refl x)
        (by omega)
    · exact h.not_page j k d x hx hx'

/-- A large object is given back. -/
theorem PagesInv.remove_nonsmall (h : PagesInv malloced pages nonsmall) (hb : b ∈ nonsmall i) :
    PagesInv (malloced.filter fun r => r.1 ≠ b) pages
      (fun j => if j = i then (nonsmall i).filter (· ≠ b) else nonsmall j) := by
  have hother : ∀ j x, x ∈ (if j = i then (nonsmall i).filter (· ≠ b) else nonsmall j) →
      x ∈ nonsmall j ∧ x ≠ b := by
    intro j x hx
    split_ifs at hx with hj
    · obtain ⟨hx, hne⟩ := List.mem_filter.mp hx
      exact ⟨hj ▸ hx, of_decide_eq_true hne⟩
    · refine ⟨hx, ?_⟩
      rintro rfl
      exact hj (h.nonsmall_unique j i x hx hb)
  refine h.sub List.filter_sublist (fun j d p hp => ⟨hp, ?_⟩) h.pages_nodup (fun j x hx => ?_)
    fun j => ?_
  · refine List.mem_filter.mpr ⟨(h.page j d p hp).1, decide_eq_true ?_⟩
    rintro rfl
    exact h.not_page i j d p hb hp
  · obtain ⟨hx, hne⟩ := hother j x hx
    obtain ⟨n, hn⟩ := h.nonsmall_malloced j x hx
    exact ⟨hx, n, List.mem_filter.mpr ⟨hn, decide_eq_true hne⟩⟩
  · split_ifs
    · exact (h.nonsmall_nodup i).filter _
    · exact h.nonsmall_nodup j

/-- A new page, whose locations were put before the free ones. -/
theorem BlocksInv.add_page {p : ℕ} {next : ℕ → ℕ} {tids : ℕ → BitVec 64}
    (hp : PagesInv malloced pages nonsmall)
    (h : BlocksInv malloced pages nonsmall free_loc h_revision h_tid live F)
    (hfresh : FreshIn malloced p GC_PAGE_WORDS) (hc : 0 < c)
    (hlinked : Linked next (p + 1) (blocks c p ++ F i c))
    (hnext : ∀ x ∉ blocks c p, next x = h_revision x)
    (htids : ∀ x ∉ blocks c p, tids x = h_tid x) :
    BlocksInv ((p, GC_PAGE_WORDS) :: malloced)
      (fun j d => if j = i ∧ d = c then p :: pages i c else pages j d) nonsmall
      (fun j d => if j = i ∧ d = c then p + 1 else free_loc j d) next tids live
      (fun j d => if j = i ∧ d = c then blocks c p ++ F i c else F j d) := by
  have hdead : ∀ b ∈ blocks c p, live b = none := by
    intro b hb
    obtain ⟨hlt, hle⟩ := block_in_page hb
    rw [Option.eq_none_iff_forall_ne_some]
    intro size hlive
    obtain ⟨r, hr, hrb, hend⟩ := h.live_malloced hp hlive
    have hpos := words_pos (h.size b size hlive)
    exact hfresh.not_mem hr hrb (by omega) (by omega) (by omega)
  have hold : ∀ d b, Block pages d b → b ∉ blocks c p := by
    rintro d b ⟨j, q, hq, hb⟩ hb'
    obtain ⟨hqm, hd, -⟩ := hp.page j d q hq
    obtain ⟨hlt, hle⟩ := block_in_page hb
    obtain ⟨hlt', hle'⟩ := block_in_page hb'
    exact hfresh.not_mem (y := b) hqm (by omega) (by omega) (by omega) (by omega)
  have hmore : ∀ d b, Block pages d b →
      Block (fun j d => if j = i ∧ d = c then p :: pages i c else pages j d) d b := by
    rintro d b ⟨j, q, hq, hb⟩
    refine ⟨j, q, ?_, hb⟩
    dsimp only
    split_ifs with hjd
    · rw [hjd.1, hjd.2] at hq
      exact List.mem_cons_of_mem _ hq
    · exact hq
  have hfree : ∀ j d, ∀ b ∈ F j d, b ∉ blocks c p := fun j d b hb =>
    hold d b (h.free_block j d b hb).2
  have hsub : ∀ j d x, x ∈ (if j = i ∧ d = c then blocks c p ++ F i c else F j d) →
      (x ∈ blocks c p ∧ j = i ∧ d = c) ∨ x ∈ F j d := by
    intro j d x hx
    split_ifs at hx with hjd
    · refine (List.mem_append.mp hx).imp (fun h => ⟨h, hjd⟩) fun h => ?_
      rw [hjd.1, hjd.2]
      exact h
    · exact Or.inr hx
  refine ⟨fun j d => ?_, fun j d x hx => ?_, fun j d => ?_, fun j k d x hx hx' => ?_,
    fun d x hx hlive => ?_, h.size, fun x n hlive hn => hmore _ _ (h.small x n hlive hn),
    fun x n hlive hn => ⟨(h.large x n hlive hn).1, List.mem_cons_of_mem _ (h.large x n hlive hn).2⟩,
    h.nonsmall_live, fun x n hlive => ?_⟩
  · split_ifs
    · exact hlinked
    · exact (h.free j d).congr fun x hx => hnext x (hfree j d x hx)
  · rcases hsub j d x hx with ⟨hb, rfl, rfl⟩ | hx
    · refine ⟨hdead x hb, j, p, ?_, hb⟩
      dsimp only
      rw [if_pos ⟨rfl, rfl⟩]
      exact List.mem_cons_self
    · exact ⟨(h.free_block j d x hx).1, hmore _ _ (h.free_block j d x hx).2⟩
  · split_ifs
    · exact List.nodup_append'.mpr ⟨blocks_nodup hc, h.free_nodup i c,
        fun x hx hx' => hfree i c x hx' hx⟩
    · exact h.free_nodup j d
  · rcases hsub j d x hx with ⟨hb, rfl, -⟩ | hin
    · rcases hsub k d x hx' with ⟨-, rfl, -⟩ | hin'
      · rfl
      · exact absurd hb (hfree k d x hin')
    · rcases hsub k d x hx' with ⟨hb, rfl, -⟩ | hin'
      · exact absurd hb (hfree j d x hin)
      · exact h.free_unique j k d x hin hin'
  · obtain ⟨j, q, hq, hb⟩ := hx
    by_cases hnew : x ∈ blocks c p ∧ d = c
    · obtain ⟨hxb, rfl⟩ := hnew
      refine ⟨i, ?_⟩
      rw [if_pos ⟨rfl, rfl⟩]
      exact List.mem_append_left _ hxb
    · have hq' : q ∈ pages j d := by
        dsimp only at hq
        split_ifs at hq with hjd
        · rcases List.mem_cons.mp hq with rfl | hq
          · exact absurd ⟨hjd.2 ▸ hb, hjd.2⟩ hnew
          · rw [hjd.1, hjd.2]
            exact hq
        · exact hq
      obtain ⟨k, hk⟩ := h.cover d x ⟨j, q, hq', hb⟩ hlive
      refine ⟨k, ?_⟩
      split_ifs with hkd
      · rw [hkd.1, hkd.2] at hk
        exact List.mem_append_right _ hk
      · exact hk
  · have hout : x ∉ blocks c p := by
      intro hx
      rw [hdead x hx] at hlive
      cases hlive
    rw [htids x hout]
    exact h.flags x n hlive

/-- A large object more. -/
theorem BlocksInv.add_nonsmall {p : ℕ} (hp : PagesInv malloced pages nonsmall)
    (h : BlocksInv malloced pages nonsmall free_loc h_revision h_tid live F)
    (hfresh : FreshIn malloced p (words size)) (hsize : sizeof_object ≤ size)
    (hlarge : ¬ Small size) (htid : no_flags tid = true) :
    BlocksInv ((p, words size) :: malloced) pages
      (fun j => if j = i then p :: nonsmall i else nonsmall j) free_loc h_revision
      (Function.update h_tid p tid) (Function.update live p (some size)) F := by
  have hpos := words_pos hsize
  have hnot : ∀ d, ¬ Block pages d p := by
    rintro d ⟨j, q, hq, hb⟩
    obtain ⟨hlt, hle⟩ := block_in_page hb
    obtain ⟨hqm, hd, -⟩ := hp.page j d q hq
    exact hfresh.not_mem (y := p) hqm (by omega) (by omega) (by omega) (by omega)
  have hmem : ∀ j, ∀ x ∈ nonsmall j, x ∈ (if j = i then p :: nonsmall i else nonsmall j) := by
    intro j x hx
    split_ifs with hj
    · rw [hj] at hx
      exact List.mem_cons_of_mem _ hx
    · exact hx
  refine ⟨h.free, fun j d x hx => ?_, h.free_nodup, h.free_unique, fun d x hx hlive => ?_,
    fun x n hlive => ?_, fun x n hlive hn => ?_, fun x n hlive hn => ?_, fun j x hx => ?_,
    fun x n hlive => ?_⟩
  · obtain ⟨hfree, hblock⟩ := h.free_block j d x hx
    refine ⟨?_, hblock⟩
    rw [Function.update_of_ne]
    · exact hfree
    · rintro rfl
      exact hnot d hblock
  · rw [Function.update_apply] at hlive
    split_ifs at hlive
    exact h.cover d x hx hlive
  · rw [Function.update_apply] at hlive
    split_ifs at hlive
    · exact Option.some.inj hlive ▸ hsize
    · exact h.size x n hlive
  · rw [Function.update_apply] at hlive
    split_ifs at hlive
    · exact absurd (Option.some.inj hlive ▸ hn) hlarge
    · exact h.small x n hlive hn
  · rw [Function.update_apply] at hlive
    split_ifs at hlive with hx
    · obtain rfl := Option.some.inj hlive
      rw [hx]
      exact ⟨⟨i, by rw [if_pos rfl]; exact List.mem_cons_self⟩, List.mem_cons_self⟩
    · obtain ⟨⟨j, hj⟩, hm⟩ := h.large x n hlive hn
      exact ⟨⟨j, hmem j x hj⟩, List.mem_cons_of_mem _ hm⟩
  · by_cases hxp : x = p
    · rw [hxp, Function.update_self]
      exact ⟨size, rfl, hlarge⟩
    · rw [Function.update_of_ne hxp]
      split_ifs at hx with hj
      · exact h.nonsmall_live i x ((List.mem_cons.mp hx).resolve_left hxp)
      · exact h.nonsmall_live j x hx
  · rw [Function.update_apply] at hlive ⊢
    split_ifs at hlive ⊢
    · exact htid
    · exact h.flags x n hlive

theorem BlocksInv.remove_nonsmall (hp : PagesInv malloced pages nonsmall)
    (h : BlocksInv malloced pages nonsmall free_loc h_revision h_tid live F)
    (hb : b ∈ nonsmall i) :
    BlocksInv (malloced.filter fun r => r.1 ≠ b) pages
      (fun j => if j = i then (nonsmall i).filter (· ≠ b) else nonsmall j) free_loc h_revision
      h_tid (Function.update live b none) F := by
  refine ⟨h.free, fun j d x hx => ?_, h.free_nodup, h.free_unique, fun d x hx hlive => ?_,
    fun x n hlive => ?_, fun x n hlive hn => ?_, fun x n hlive hn => ?_, fun j x hx => ?_,
    fun x n hlive => ?_⟩
  · obtain ⟨hfree, hblock⟩ := h.free_block j d x hx
    refine ⟨?_, hblock⟩
    rw [Function.update_apply]
    split_ifs
    · rfl
    · exact hfree
  · have hxb : x ≠ b := by
      rintro rfl
      exact hp.not_block hb hx
    rw [Function.update_of_ne hxb] at hlive
    exact h.cover d x hx hlive
  · rw [Function.update_apply] at hlive
    split_ifs at hlive
    exact h.size x n hlive
  · rw [Function.update_apply] at hlive
    split_ifs at hlive
    exact h.small x n hlive hn
  · rw [Function.update_apply] at hlive
    split_ifs at hlive with hxb
    obtain ⟨⟨j, hj⟩, hm⟩ := h.large x n hlive hn
    refine ⟨⟨j, ?_⟩, List.mem_filter.mpr ⟨hm, decide_eq_true hxb⟩⟩
    split_ifs with hji
    · exact List.mem_filter.mpr ⟨hji ▸ hj, decide_eq_true hxb⟩
    · exact hj
  · have hne : x ≠ b ∧ x ∈ nonsmall j := by
      split_ifs at hx with hj
      · obtain ⟨hx, hne⟩ := List.mem_filter.mp hx
        exact ⟨of_decide_eq_true hne, hj ▸ hx⟩
      · refine ⟨?_, hx⟩
        rintro rfl
        exact hj (hp.nonsmall_unique j i x hx hb)
    rw [Function.update_of_ne hne.1]
    exact h.nonsmall_live j x hne.2
  · rw [Function.update_apply] at hlive
    split_ifs at hlive
    exact h.flags x n hlive

end

end Stmgc.C4.GcPage
