/-
The sweeping of the pages of one size class.

[`Swept`] is what happens to the locations: those with `GCFLAG_MARKED` lose
their flags and nothing else, and the others are free afterwards. The free list
is made of them in place, and does not depend on the old free lists, which may
go through the same locations.
-/
import Stmgc.C4.GcPageSteps

namespace Stmgc.C4.GcPage

open Stmgc.Lib

/-- Nothing happened to the location. -/
abbrev Same (st st' : State) (b : ℕ) : Prop :=
  st'.h_tid b = st.h_tid b ∧ st'.h_revision b = st.h_revision b ∧ st'.live b = st.live b

/-- An object was kept. -/
abbrev Kept (st st' : State) (b : ℕ) : Prop :=
  st'.h_tid b = clear_flags (st.h_tid b) ∧ st'.h_revision b = st.h_revision b ∧
    st'.live b = st.live b

/-- The locations `bs` were swept. -/
structure Swept (st st' : State) (bs : List ℕ) : Prop where
  marked : ∀ b ∈ bs, is_marked (st.h_tid b) = true → Kept st st' b
  dead : ∀ b ∈ bs, is_marked (st.h_tid b) = false → st'.live b = none
  outside : ∀ b ∉ bs, Same st st' b

/-- What the assertions of the sweeping want. -/
def Consistent (st : State) (bs : List ℕ) : Prop :=
  ∀ b ∈ bs, is_visited (st.h_tid b) = true → is_marked (st.h_tid b) = true

/-- Those that are not marked. -/
def unmarked (st : State) (bs : List ℕ) : List ℕ := bs.filter fun b => !is_marked (st.h_tid b)

variable {st st' st'' : State} {bs bs' : List ℕ} {b c i : ℕ} {NDEBUG : Bool}

theorem Swept.nil : Swept st st [] :=
  ⟨fun _ h => absurd h List.not_mem_nil, fun _ h => absurd h List.not_mem_nil,
    fun _ _ => ⟨rfl, rfl, rfl⟩⟩

/-- Other locations are swept after these. -/
theorem Swept.trans (h : Swept st st' bs) (h' : Swept st' st'' bs') (hdisj : bs.Disjoint bs') :
    Swept st st'' (bs ++ bs') := by
  refine ⟨fun b hb hm => ?_, fun b hb hm => ?_, fun b hb => ?_⟩
  · by_cases hin : b ∈ bs
    · obtain ⟨htid, hrev, hlive⟩ := h.marked b hin hm
      obtain ⟨htid', hrev', hlive'⟩ := h'.outside b (hdisj hin)
      exact ⟨htid'.trans htid, hrev'.trans hrev, hlive'.trans hlive⟩
    · obtain ⟨htid, hrev, hlive⟩ := h.outside b hin
      obtain ⟨htid', hrev', hlive'⟩ :=
        h'.marked b ((List.mem_append.mp hb).resolve_left hin) (htid ▸ hm)
      exact ⟨htid'.trans (by rw [htid]), hrev'.trans hrev, hlive'.trans hlive⟩
  · by_cases hin : b ∈ bs
    · exact (h'.outside b (hdisj hin)).2.2.trans (h.dead b hin hm)
    · refine h'.dead b ((List.mem_append.mp hb).resolve_left hin) ?_
      rw [(h.outside b hin).1]
      exact hm
  · obtain ⟨hout, hout'⟩ := not_or.mp fun hor => hb (List.mem_append.mpr hor)
    obtain ⟨htid, hrev, hlive⟩ := h.outside b hout
    obtain ⟨htid', hrev', hlive'⟩ := h'.outside b hout'
    exact ⟨htid'.trans htid, hrev'.trans hrev, hlive'.trans hlive⟩

theorem Swept.unmarked_eq (h : Swept st st' bs) (hdisj : bs.Disjoint bs') :
    unmarked st' bs' = unmarked st bs' := by
  refine List.filter_congr fun b hb => ?_
  rw [(h.outside b fun hin => hdisj hin hb).1]

theorem Swept.consistent (h : Swept st st' bs) (hdisj : bs.Disjoint bs')
    (hcons : Consistent st bs') : Consistent st' bs' := by
  intro b hb
  rw [(h.outside b fun hin => hdisj hin hb).1]
  exact hcons b hb

/-! ## One page -/

theorem any_alive_eq (hcons : Consistent st bs) :
    any_alive st.h_tid bs = some (bs.any fun b => is_marked (st.h_tid b)) := by
  induction bs with
  | nil => rfl
  | cons b bs ih =>
      rw [any_alive, c_assert_eq_some]
      refine ⟨hcons b List.mem_cons_self, ?_⟩
      rw [ih fun x hx => hcons x (List.mem_cons_of_mem _ hx), List.any_cons]
      cases is_marked (st.h_tid b)
      · rfl
      · rfl

/-- The state after some locations were swept. -/
def swept_state (st : State) (tids : ℕ → BitVec 64) (next : ℕ → ℕ) (live : ℕ → Option ℕ)
    (mc_total_in_use : ℕ) : State :=
  { st with h_tid := tids, h_revision := next, live := live, mc_total_in_use := mc_total_in_use }

/-- One location. -/
theorem sweep_block_spec {obj_size freelist : ℕ} {l : List ℕ} (hb : b ≠ 0)
    (hcons : Consistent st [b]) (hl : Linked st.h_revision freelist l) (hout : b ∉ l) :
    ∃ tids next live total freelist',
      sweep_block NDEBUG obj_size (st, freelist) b
        = some (swept_state st tids next live total, freelist') ∧
      Swept st (swept_state st tids next live total) [b] ∧
      Linked next freelist' (unmarked st [b] ++ l) ∧
      total ≤ st.mc_total_in_use + obj_size := by
  unfold sweep_block
  have hassert := hcons b List.mem_cons_self
  have hne : ∀ x ∉ [b], x ≠ b := fun x hx h => hx (h ▸ List.mem_cons_self)
  cases hm : is_marked (st.h_tid b) with
  | true =>
      refine ⟨_, _, _, _, _, c_assert_eq_some.mpr ⟨hassert, if_pos hm⟩,
        ⟨fun x hx hm => ?_, fun x hx hm' => ?_, fun x hx => ?_⟩, ?_, Nat.le_refl _⟩
      · obtain rfl := List.mem_singleton.mp hx
        exact ⟨Function.update_self .., rfl, rfl⟩
      · obtain rfl := List.mem_singleton.mp hx
        rw [hm] at hm'
        cases hm'
      · exact ⟨Function.update_of_ne (hne x hx) .., rfl, rfl⟩
      · have hnone : unmarked st [b] = [] := by
          unfold unmarked
          rw [List.filter_cons, if_neg (by rw [hm]; decide), List.filter_nil]
        rw [hnone]
        exact hl
  | false =>
      have hnot : ¬ is_marked (st.h_tid b) = true := by rw [hm]; simp
      have hsome : unmarked st [b] = [b] := by
        unfold unmarked
        rw [List.filter_cons, if_pos (by rw [hm]; rfl), List.filter_nil]
      have hlinked : Linked (Function.update st.h_revision b freelist) b ([b] ++ l) := by
        refine linked_cons.mpr ⟨rfl, hb, ?_⟩
        rw [Function.update_self]
        refine hl.congr fun x hx => Function.update_of_ne ?_ ..
        rintro rfl
        exact hout hx
      rw [hsome]
      cases NDEBUG with
      | true =>
          refine ⟨_, _, _, _, _, c_assert_eq_some.mpr ⟨hassert, if_neg hnot⟩,
            ⟨fun x hx hm' => ?_, fun x hx hm => ?_, fun x hx => ?_⟩, hlinked, Nat.le_add_right _ _⟩
          · obtain rfl := List.mem_singleton.mp hx
            rw [hm] at hm'
            cases hm'
          · obtain rfl := List.mem_singleton.mp hx
            exact Function.update_self ..
          · exact ⟨rfl, Function.update_of_ne (hne x hx) .., Function.update_of_ne (hne x hx) ..⟩
      | false =>
          refine ⟨_, _, _, _, _, c_assert_eq_some.mpr ⟨hassert, if_neg hnot⟩,
            ⟨fun x hx hm' => ?_, fun x hx hm => ?_, fun x hx => ?_⟩, hlinked, Nat.le_add_right _ _⟩
          · obtain rfl := List.mem_singleton.mp hx
            rw [hm] at hm'
            cases hm'
          · obtain rfl := List.mem_singleton.mp hx
            exact Function.update_self ..
          · exact ⟨Function.update_of_ne (hne x hx) .., Function.update_of_ne (hne x hx) ..,
              Function.update_of_ne (hne x hx) ..⟩

/-- The second loop over a page. -/
theorem sweep_blocks_spec {obj_size freelist : ℕ} {l : List ℕ} (hpos : ∀ b ∈ bs, b ≠ 0)
    (hnodup : bs.Nodup) (hcons : Consistent st bs) (hl : Linked st.h_revision freelist l)
    (hout : bs.Disjoint l) :
    ∃ tids next live total freelist',
      bs.foldlM (sweep_block NDEBUG obj_size) (st, freelist)
        = some (swept_state st tids next live total, freelist') ∧
      Swept st (swept_state st tids next live total) bs ∧
      Linked next freelist' ((unmarked st bs).reverse ++ l) ∧
      total ≤ st.mc_total_in_use + obj_size * bs.length := by
  induction bs generalizing st freelist l with
  | nil => exact ⟨_, _, _, _, _, rfl, .nil, hl, Nat.le_refl _⟩
  | cons b bs ih =>
      obtain ⟨hb, hnodup⟩ := List.nodup_cons.mp hnodup
      have hdisj : [b].Disjoint bs := List.singleton_disjoint.mpr hb
      obtain ⟨tids, next, live, total, freelist', heq, hswept, hlinked, htotal⟩ :=
        @sweep_block_spec st b NDEBUG obj_size freelist l (hpos b List.mem_cons_self)
          (fun x hx => hcons x (List.mem_singleton.mp hx ▸ List.mem_cons_self)) hl
          (hout List.mem_cons_self)
      have hout' : bs.Disjoint (unmarked st [b] ++ l) := by
        intro x hx hx'
        rcases List.mem_append.mp hx' with hx' | hx'
        · exact hdisj (List.mem_filter.mp hx').1 hx
        · exact hout (List.mem_cons_of_mem _ hx) hx'
      obtain ⟨tids', next', live', total', freelist'', heq', hswept', hlinked', htotal'⟩ :=
        ih (fun x hx => hpos x (List.mem_cons_of_mem _ hx)) hnodup
          (hswept.consistent hdisj fun x hx => hcons x (List.mem_cons_of_mem _ hx)) hlinked hout'
      refine ⟨tids', next', live', total', freelist'', ?_, hswept.trans hswept' hdisj, ?_, ?_⟩
      · rw [List.foldlM_cons, heq]
        exact heq'
      · rw [hswept.unmarked_eq hdisj] at hlinked'
        have hsplit : unmarked st (b :: bs) = unmarked st [b] ++ unmarked st bs :=
          List.filter_append [b] bs
        have hrev : (unmarked st [b]).reverse = unmarked st [b] := by
          unfold unmarked
          rw [List.filter_cons, List.filter_nil]
          split_ifs
          · rfl
          · rfl
        rw [hsplit, List.reverse_append, hrev, List.append_assoc]
        exact hlinked'
      · have hstep : total' ≤ total + obj_size * bs.length := htotal'
        rw [List.length_cons, Nat.mul_succ]
        omega

/-! ## The loop over the pages -/

/-- A page with an object that stays alive. -/
def alive (st : State) (c p : ℕ) : Bool := (blocks c p).any fun b => is_marked (st.h_tid b)

/-- The pages that are fully free. -/
def dead_pages (st : State) (c : ℕ) (l : List ℕ) : List ℕ := l.filter fun p => !alive st c p

/-- The pages `l` of size class `c` were swept. -/
structure PagesSwept (i c : ℕ) (l : List ℕ) (st st' : State) : Prop where
  rest : st' = { st with
    malloced := st'.malloced
    h_tid := st'.h_tid
    h_revision := st'.h_revision
    live := st'.live
    mc_total_in_use := st'.mc_total_in_use
    mc_total_reserved := st'.mc_total_reserved
    count_global_pages := st'.count_global_pages
    descriptor := Function.update st.descriptor i
      { st.descriptor i with count_pages := (st'.descriptor i).count_pages } }
  malloced : st'.malloced = st.malloced.filter fun r => r.1 ∉ dead_pages st c l
  swept : Swept st st' (l.flatMap (blocks c))
  count_pages : (st'.descriptor i).count_pages + (dead_pages st c l).length
    = (st.descriptor i).count_pages
  count_global_pages : st'.count_global_pages + (dead_pages st c l).length = st.count_global_pages
  totals : st'.mc_total_in_use + st.mc_total_reserved
    ≤ st'.mc_total_reserved + st.mc_total_in_use

theorem Swept.alive_eq (h : Swept st st' bs) {p : ℕ} (hdisj : bs.Disjoint (blocks c p)) :
    alive st' c p = alive st c p := by
  unfold alive
  rw [Bool.eq_iff_iff, List.any_eq_true, List.any_eq_true]
  refine exists_congr fun b => and_congr_right fun hb => ?_
  rw [(h.outside b fun hin => hdisj hin hb).1]

theorem flatMap_disjoint {l : List ℕ} {p : ℕ}
    (hdisj : ∀ q ∈ l, (blocks c p).Disjoint (blocks c q)) :
    (blocks c p).Disjoint (l.flatMap (blocks c)) := by
  intro x hx hx'
  obtain ⟨q, hq, hxq⟩ := List.mem_flatMap.mp hx'
  exact hdisj q hq hx hxq

theorem PagesSwept.nil : PagesSwept i c [] st st := by
  refine ⟨?_, ?_, .nil, rfl, rfl, by omega⟩
  · rw [Function.update_eq_self]
  · exact (List.filter_eq_self.mpr fun r _ => by unfold dead_pages; simp).symm

/-- One page, and then others. -/
theorem PagesSwept.cons {p : ℕ} {l : List ℕ} (h : PagesSwept i c [p] st st')
    (h' : PagesSwept i c l st' st'') (hdisj : ∀ q ∈ l, (blocks c p).Disjoint (blocks c q)) :
    PagesSwept i c (p :: l) st st'' := by
  have hblocks : [p].flatMap (blocks c) = blocks c p := by
    rw [List.flatMap_cons, List.flatMap_nil, List.append_nil]
  have hswept := h.swept
  rw [hblocks] at hswept
  have hdead : dead_pages st' c l = dead_pages st c l := by
    refine List.filter_congr fun q hq => ?_
    rw [hswept.alive_eq (hdisj q hq)]
  have hsplit : dead_pages st c (p :: l) = dead_pages st c [p] ++ dead_pages st c l :=
    List.filter_append [p] l
  refine ⟨?_, ?_, ?_, ?_, ?_, ?_⟩
  · have hrest := h'.rest
    rw [h.rest] at hrest
    simp only [Function.update_self, Function.update_idem] at hrest
    exact hrest
  · rw [h'.malloced, h.malloced, hdead, List.filter_filter, hsplit]
    refine List.filter_congr fun r _ => ?_
    rw [Bool.eq_iff_iff, Bool.and_eq_true, decide_eq_true_eq, decide_eq_true_eq,
      decide_eq_true_eq, List.mem_append, not_or]
    exact And.comm
  · rw [List.flatMap_cons]
    exact hswept.trans h'.swept (flatMap_disjoint hdisj)
  · have hcount := h.count_pages
    have hcount' := h'.count_pages
    rw [hsplit, List.length_append]
    rw [hdead] at hcount'
    omega
  · have hcount := h.count_global_pages
    have hcount' := h'.count_global_pages
    rw [hsplit, List.length_append]
    rw [hdead] at hcount'
    omega
  · have htotals := h.totals
    have htotals' := h'.totals
    omega

/-- The state after the second loop over a page. -/
def kept_page (st : State) (c : ℕ) (tids : ℕ → BitVec 64) (next : ℕ → ℕ) (live : ℕ → Option ℕ)
    (mc_total_in_use : ℕ) : State :=
  { swept_state st tids next live mc_total_in_use with
    mc_total_reserved := st.mc_total_reserved + c * WORD * nblocks_for_size c }

/-- A page that stays. -/
theorem pagesSwept_alive {p total : ℕ} {tids : ℕ → BitVec 64} {next : ℕ → ℕ}
    {live : ℕ → Option ℕ} (halive : alive st c p = true)
    (hswept : Swept st (swept_state st tids next live total) (blocks c p))
    (htotal : total ≤ st.mc_total_in_use + c * WORD * (blocks c p).length) :
    PagesSwept i c [p] st (kept_page st c tids next live total) := by
  have hdead : dead_pages st c [p] = [] := by
    unfold dead_pages
    rw [List.filter_cons, halive]
    rfl
  have hlength : (blocks c p).length = nblocks_for_size c := by
    unfold blocks
    rw [List.length_map, List.length_range]
  have hblocks : [p].flatMap (blocks c) = blocks c p := by
    rw [List.flatMap_cons, List.flatMap_nil, List.append_nil]
  rw [hlength] at htotal
  refine ⟨?_, ?_, ?_, ?_, ?_, ?_⟩
  · unfold kept_page swept_state
    dsimp only
    rw [Function.update_eq_self]
  · rw [hdead]
    exact (List.filter_eq_self.mpr fun r _ => by simp).symm
  · rw [hblocks]
    exact ⟨hswept.marked, hswept.dead, hswept.outside⟩
  · rw [hdead]
    rfl
  · rw [hdead]
    rfl
  · unfold kept_page swept_state
    dsimp only
    omega

/-- A page that is given back. -/
theorem free_page_spec {p : ℕ} (hdead : alive st c p = false)
    (hp : p ∈ st.malloced.map Prod.fst) (hcount : 0 < (st.descriptor i).count_pages)
    (hglobal : 0 < st.count_global_pages) :
    ∃ st', free_page st i c p = some st' ∧ PagesSwept i c [p] st st' ∧
      st'.h_revision = st.h_revision := by
  have hdeads : dead_pages st c [p] = [p] := by
    unfold dead_pages
    rw [List.filter_cons, hdead]
    rfl
  have hblocks : [p].flatMap (blocks c) = blocks c p := by
    rw [List.flatMap_cons, List.flatMap_nil, List.append_nil]
  have hnone : ∀ b ∈ blocks c p, ¬ is_marked (st.h_tid b) = true := by
    intro b hb hm
    have : alive st c p = true := List.any_eq_true.mpr ⟨b, hb, hm⟩
    rw [hdead] at this
    cases this
  have hfree : st.stm_free p = some { st with malloced := st.malloced.filter fun r => r.1 ≠ p } :=
    c_assert_eq_some.mpr ⟨hp, rfl⟩
  unfold free_page
  rw [hfree]
  refine ⟨_, c_assert_eq_some.mpr ⟨hcount, c_assert_eq_some.mpr ⟨hglobal, rfl⟩⟩,
    ⟨?_, ?_, ?_, ?_, ?_, Nat.le_of_eq (Nat.add_comm _ _)⟩, rfl⟩
  · unfold State.set_descriptor
    dsimp only
    rw [Function.update_self]
  · rw [hdeads]
    refine List.filter_congr fun r _ => ?_
    rw [Bool.eq_iff_iff, decide_eq_true_eq, decide_eq_true_eq, List.mem_singleton]
  · rw [hblocks]
    refine ⟨fun b hb hm => absurd hm (hnone b hb), fun b hb _ => if_pos hb,
      fun b hb => ⟨rfl, rfl, if_neg hb⟩⟩
  · rw [hdeads]
    unfold State.set_descriptor
    dsimp only
    rw [Function.update_self]
    exact Nat.sub_add_cancel hcount
  · rw [hdeads]
    exact Nat.sub_add_cancel hglobal

/-- What was done to one page does not concern the others. -/
theorem PagesSwept.others {p : ℕ} {l : List ℕ} (h : PagesSwept i c [p] st st')
    (hdisj : ∀ q ∈ l, (blocks c p).Disjoint (blocks c q)) :
    l.filter (alive st' c) = l.filter (alive st c) ∧ dead_pages st' c l = dead_pages st c l ∧
      unmarked st' ((l.filter (alive st c)).flatMap (blocks c))
        = unmarked st ((l.filter (alive st c)).flatMap (blocks c)) := by
  have hswept := h.swept
  rw [List.flatMap_cons, List.flatMap_nil, List.append_nil] at hswept
  refine ⟨List.filter_congr fun q hq => hswept.alive_eq (hdisj q hq),
    List.filter_congr fun q hq => by rw [hswept.alive_eq (hdisj q hq)], hswept.unmarked_eq ?_⟩
  exact flatMap_disjoint fun q hq => hdisj q (List.mem_filter.mp hq).1

theorem sweep_loop_spec : ∀ {l surviving fl : List ℕ} {st : State} {freelist : ℕ}, 0 < c →
    (∀ p ∈ l, p ∈ st.malloced.map Prod.fst) → l.Nodup →
    l.Pairwise (fun p q => (blocks c p).Disjoint (blocks c q)) →
    (∀ p ∈ l, Consistent st (blocks c p)) →
    (dead_pages st c l).length ≤ (st.descriptor i).count_pages →
    (dead_pages st c l).length ≤ st.count_global_pages →
    Linked st.h_revision freelist fl → (∀ p ∈ l, (blocks c p).Disjoint fl) →
    ∃ st' freelist', sweep_loop NDEBUG i c l st surviving freelist
        = some (st', (l.filter (alive st c)).reverse ++ surviving, freelist') ∧
      PagesSwept i c l st st' ∧
      Linked st'.h_revision freelist'
        ((unmarked st ((l.filter (alive st c)).flatMap (blocks c))).reverse ++ fl)
  | [], surviving, fl, st, freelist, _, _, _, _, _, _, _, hl, _ =>
      ⟨st, freelist, rfl, .nil, hl⟩
  | p :: l, surviving, fl, st, freelist, hc, hpages, hnodup, hdisj, hcons, hcount, hglobal, hl,
      hout => by
      obtain ⟨hpl, hnodup⟩ := List.nodup_cons.mp hnodup
      obtain ⟨hdisj, hdisj'⟩ := List.pairwise_cons.mp hdisj
      have hany : any_alive st.h_tid (blocks c p) = some (alive st c p) :=
        any_alive_eq (hcons p List.mem_cons_self)
      have hsplit : dead_pages st c (p :: l) = dead_pages st c [p] ++ dead_pages st c l :=
        List.filter_append [p] l
      rw [hsplit, List.length_append] at hcount hglobal
      have hpos : ∀ b ∈ blocks c p, b ≠ 0 := fun b hb => by
        have := (block_in_page hb).1
        omega
      rw [sweep_loop, hany, List.filter_cons]
      cases halive : alive st c p with
      | true =>
          obtain ⟨tids, next, live, total, freelist₁, heq, hswept, hlinked, htotal⟩ :=
            @sweep_blocks_spec st (blocks c p) NDEBUG (c * WORD) freelist fl hpos
              (blocks_nodup hc) (hcons p List.mem_cons_self) hl (hout p List.mem_cons_self)
          have hpage := @pagesSwept_alive st c i p total tids next live halive hswept htotal
          obtain ⟨hfilter, hdead, hunmarked⟩ := hpage.others hdisj
          -- the locations of another page are not in the new free list
          have hout' : ∀ q ∈ l, (blocks c q).Disjoint
              ((unmarked st (blocks c p)).reverse ++ fl) := by
            intro q hq x hx hx'
            rcases List.mem_append.mp hx' with hx' | hx'
            · exact hdisj q hq (List.mem_filter.mp (List.mem_reverse.mp hx')).1 hx
            · exact hout q (List.mem_cons_of_mem _ hq) hx hx'
          obtain ⟨st', freelist', hloop, hswept', hlinked'⟩ :=
            @sweep_loop_spec l (p :: surviving) ((unmarked st (blocks c p)).reverse ++ fl)
              (kept_page st c tids next live total) freelist₁ hc (fun q hq => hpages q (List.mem_cons_of_mem _ hq)) hnodup hdisj'
              (fun q hq => hswept.consistent (hdisj q hq) (hcons q (List.mem_cons_of_mem _ hq)))
              (by rw [hdead]; exact (Nat.le_add_left _ _).trans hcount)
              (by rw [hdead]; exact (Nat.le_add_left _ _).trans hglobal) hlinked hout'
          refine ⟨st', freelist', ?_, hpage.cons hswept' hdisj, ?_⟩
          · rw [Option.bind_eq_bind, Option.bind_some, if_pos rfl, heq]
            refine hloop.trans ?_
            rw [hfilter, if_pos rfl, List.reverse_cons, List.append_assoc]
            rfl
          · rw [hfilter, hunmarked] at hlinked'
            rw [if_pos rfl, List.flatMap_cons]
            unfold unmarked at hlinked' ⊢
            rw [List.filter_append, List.reverse_append, List.append_assoc]
            exact hlinked'
      | false =>
          have hdeads : dead_pages st c [p] = [p] := by
            unfold dead_pages
            rw [List.filter_cons, halive]
            rfl
          rw [hdeads, List.length_singleton] at hcount hglobal
          obtain ⟨st₁, heq, hpage, hrevision⟩ := @free_page_spec st c i p halive
            (hpages p List.mem_cons_self) (by omega) (by omega)
          obtain ⟨hfilter, hdead, hunmarked⟩ := hpage.others hdisj
          have hswept := hpage.swept
          rw [List.flatMap_cons, List.flatMap_nil, List.append_nil] at hswept
          have hpcount := hpage.count_pages
          have hpglobal := hpage.count_global_pages
          rw [hdeads, List.length_singleton] at hpcount hpglobal
          have hpages' : ∀ q ∈ l, q ∈ st₁.malloced.map Prod.fst := by
            intro q hq
            obtain ⟨r, hr, hrq⟩ := List.mem_map.mp (hpages q (List.mem_cons_of_mem _ hq))
            rw [hpage.malloced, hdeads]
            refine List.mem_map.mpr ⟨r, List.mem_filter.mpr ⟨hr, decide_eq_true fun h => ?_⟩, hrq⟩
            rw [← List.mem_singleton.mp h, hrq] at hpl
            exact hpl hq
          obtain ⟨st', freelist', hloop, hswept', hlinked'⟩ :=
            @sweep_loop_spec l surviving fl st₁ freelist hc hpages' hnodup hdisj'
              (fun q hq => hswept.consistent (hdisj q hq) (hcons q (List.mem_cons_of_mem _ hq)))
              (by rw [hdead]; omega) (by rw [hdead]; omega) (hrevision ▸ hl)
              fun q hq => hout q (List.mem_cons_of_mem _ hq)
          refine ⟨st', freelist', ?_, hpage.cons hswept' hdisj, ?_⟩
          · rw [Option.bind_eq_bind, Option.bind_some, if_neg (by simp), heq]
            refine hloop.trans ?_
            rw [hfilter, if_neg (by simp)]
          · rw [hfilter, hunmarked] at hlinked'
            rw [if_neg (by simp)]
            exact hlinked'

end Stmgc.C4.GcPage
