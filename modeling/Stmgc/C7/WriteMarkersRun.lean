/-
Every step keeps the markers parallel to the modified objects, and no assertion
about them fails.
-/
import Stmgc.C7.WriteMarkersInv

namespace Stmgc.C7

open Stmgc.Lib

namespace WriteMarkers

/-! ## Write locks -/

section

variable {i : ℕ} {items : List ℕ} {write_locks : ℕ → ℕ}

theorem release_locks_eq (hi : 1 ≤ i) (hnodup : items.Nodup) (hown : ∀ item ∈ items, write_locks item = i) :
    release_locks i items write_locks = some fun obj => if obj ∈ items then 0 else write_locks obj := by
  induction items generalizing write_locks with
  | nil => exact congrArg some (funext fun obj => (if_neg List.not_mem_nil).symm)
  | cons item items ih =>
      obtain ⟨hitem, hnodup⟩ := List.nodup_cons.mp hnodup
      unfold release_locks
      rw [if_pos (hown item List.mem_cons_self), ih hnodup]
      · refine congrArg some (funext fun obj => ?_)
        by_cases hobj : obj = item
        · rw [hobj, if_neg hitem, if_pos List.mem_cons_self, Function.update_self]
        · rw [Function.update_of_ne hobj]
          refine if_congr ?_ rfl rfl
          rw [List.mem_cons, or_iff_right hobj]
      · intro obj hobj
        have hne : obj ≠ item := fun heq => hitem (heq ▸ hobj)
        rw [Function.update_of_ne hne]
        exact hown obj (List.mem_cons_of_mem item hobj)

theorem restore_locks_eq (hi : 1 ≤ i) (hnodup : items.Nodup) (hfree : ∀ item ∈ items, write_locks item = 0) :
    restore_locks i items write_locks = some fun obj => if obj ∈ items then i else write_locks obj := by
  induction items generalizing write_locks with
  | nil => exact congrArg some (funext fun obj => (if_neg List.not_mem_nil).symm)
  | cons item items ih =>
      obtain ⟨hitem, hnodup⟩ := List.nodup_cons.mp hnodup
      unfold restore_locks
      rw [if_pos (hfree item List.mem_cons_self), ih hnodup]
      · refine congrArg some (funext fun obj => ?_)
        by_cases hobj : obj = item
        · rw [hobj, if_neg hitem, if_pos List.mem_cons_self, Function.update_self]
        · rw [Function.update_of_ne hobj]
          refine if_congr ?_ rfl rfl
          rw [List.mem_cons, or_iff_right hobj]
      · intro obj hobj
        have hne : obj ≠ item := fun heq => hitem (heq ▸ hobj)
        rw [Function.update_of_ne hne]
        exact hfree obj (List.mem_cons_of_mem item hobj)

end

section

variable {NB_SEGMENTS : ℕ} {NDEBUG : Bool} {in_nursery : ℕ → Bool} {s s' : St} {i obj p : ℕ} {seg' : Seg}
  {mv : Move} {ss : List ShadowEntry} {keep : ℕ → Bool}

theorem one_le_of_mem (h : i ∈ segment_nums NB_SEGMENTS) : 1 ≤ i := (mem_segment_nums.mp h).1

theorem Inv.running_of_mem (hinv : Inv NB_SEGMENTS in_nursery s)
    (h : obj ∈ (s.seg i).modified_old_objects) : (s.seg i).running = true := by
  by_contra hidle
  rw [(hinv.idle i (Bool.eq_false_iff.mpr hidle)).1] at h
  exact absurd h List.not_mem_nil

/-- The locks come back that have been there before. -/
theorem Inv.restore (hinv : Inv NB_SEGMENTS in_nursery s) {is : List ℕ} (his : ∀ i ∈ is, 1 ≤ i)
    (hnodup : is.Nodup) {write_locks : ℕ → ℕ}
    (hfree : ∀ i ∈ is, ∀ obj ∈ (s.seg i).modified_old_objects, write_locks obj = 0) :
    ∃ locks, major_restore_write_locks s is write_locks = some locks ∧ ∀ obj, locks obj =
      if ∃ i ∈ is, obj ∈ (s.seg i).modified_old_objects then s.write_locks obj else write_locks obj := by
  induction is generalizing write_locks with
  | nil => exact ⟨write_locks, rfl, fun obj => (if_neg fun ⟨_, h, _⟩ => List.not_mem_nil h).symm⟩
  | cons i is ih =>
      obtain ⟨hi, hnodup⟩ := List.nodup_cons.mp hnodup
      have hpos := his i List.mem_cons_self
      unfold major_restore_write_locks
      have hone := @restore_locks_eq i (s.seg i).modified_old_objects.reverse write_locks hpos
        (List.nodup_reverse.mpr (hinv.nodup i))
        fun item hitem => hfree i List.mem_cons_self item (List.mem_reverse.mp hitem)
      rw [hone]
      obtain ⟨locks, hlocks, heq⟩ := @ih (fun j hj => his j (List.mem_cons_of_mem i hj)) hnodup
        (fun obj => if obj ∈ (s.seg i).modified_old_objects.reverse then i else write_locks obj) (by
          intro j hj obj hobj
          have hne : obj ∉ (s.seg i).modified_old_objects.reverse := by
            intro hmem
            have hlock := (hinv.locks i hpos obj).mpr (List.mem_reverse.mp hmem)
            have hlock' := (hinv.locks j (his j (List.mem_cons_of_mem i hj)) obj).mpr hobj
            exact hi ((hlock.symm.trans hlock') ▸ hj)
          rw [if_neg hne]
          exact hfree j (List.mem_cons_of_mem i hj) obj hobj)
      refine ⟨locks, hlocks, fun obj => ?_⟩
      rw [heq obj]
      by_cases hrest : ∃ j ∈ is, obj ∈ (s.seg j).modified_old_objects
      · obtain ⟨j, hj, hobj⟩ := hrest
        rw [if_pos ⟨j, hj, hobj⟩, if_pos ⟨j, List.mem_cons_of_mem i hj, hobj⟩]
      · rw [if_neg hrest]
        by_cases hmem : obj ∈ (s.seg i).modified_old_objects.reverse
        · have hobj := List.mem_reverse.mp hmem
          rw [if_pos hmem, if_pos ⟨i, List.mem_cons_self, hobj⟩]
          exact ((hinv.locks i hpos obj).mpr hobj).symm
        · rw [if_neg hmem, if_neg]
          rintro ⟨j, hj, hobj⟩
          rcases List.mem_cons.mp hj with rfl | hj
          · exact hmem (List.mem_reverse.mpr hobj)
          · exact hrest ⟨j, hj, hobj⟩

/-! ## Steps -/

/-- A step changes one segment, and old objects stay old. -/
theorem Inv.of_seg (hinv : Inv NB_SEGMENTS in_nursery s) (hseg : s'.seg = Function.update s.seg i seg')
    (hnumbered : seg'.running = true → i ∈ segment_nums NB_SEGMENTS)
    (hidle : seg'.running = false → seg'.modified_old_objects = [] ∧
      seg'.modified_old_objects_markers = [] ∧ seg'.young = [] ∧
      seg'.objects_pointing_to_nursery = false ∧ seg'.recorded = [])
    (hlocks : ∀ j, 1 ≤ j → ∀ obj, s'.write_locks obj = j ↔ obj ∈ (s'.seg j).modified_old_objects)
    (hnodup : seg'.modified_old_objects.Nodup) (hold : ∀ p, s.old p = true → s'.old p = true)
    (houtside : ∀ p, s'.old p = true → p ≠ 0 ∧ in_nursery p = false)
    (hyoung : ∀ p ∈ seg'.young, p ≠ 0 ∧ s'.old p = false)
    (hother : ∀ j, j ≠ i → ∀ p ∈ (s.seg j).young, s'.old p = false)
    (hapart : ∀ j, j ≠ i → ∀ p ∈ seg'.young, p ∈ (s.seg j).young → in_nursery p = true)
    (hparallel : Parallel seg') (hlive : seg'.running = true → Live s'.old seg') :
    Inv NB_SEGMENTS in_nursery s' := by
  have hself : s'.seg i = seg' := by rw [hseg, Function.update_self]
  have hne : ∀ {j}, j ≠ i → s'.seg j = s.seg j := by
    intro j hj
    rw [hseg, Function.update_of_ne hj]
  refine ⟨fun j => ?_, fun j => ?_, hlocks, fun j => ?_, houtside, fun j => ?_, fun j k p hjk => ?_,
    fun j => ?_, fun j => ?_⟩
  · by_cases hj : j = i
    · rw [hj, hself]
      exact hnumbered
    · rw [hne hj]
      exact hinv.numbered j
  · by_cases hj : j = i
    · rw [hj, hself]
      exact hidle
    · rw [hne hj]
      exact hinv.idle j
  · by_cases hj : j = i
    · rw [hj, hself]
      exact hnodup
    · rw [hne hj]
      exact hinv.nodup j
  · by_cases hj : j = i
    · rw [hj, hself]
      exact hyoung
    · rw [hne hj]
      exact fun p hp => ⟨(hinv.young_not_old j p hp).1, hother j hj p hp⟩
  · by_cases hj : j = i
    · have hk : k ≠ i := fun hk => hjk (hj.trans hk.symm)
      rw [hj, hself, hne hk]
      exact hapart k hk p
    · by_cases hk : k = i
      · rw [hk, hself, hne hj]
        exact fun hpj hpi => hapart j hj p hpi hpj
      · rw [hne hj, hne hk]
        exact hinv.young_apart j k p hjk
  · by_cases hj : j = i
    · rw [hj, hself]
      exact hparallel
    · rw [hne hj]
      exact hinv.parallel j
  · by_cases hj : j = i
    · rw [hj, hself]
      exact hlive
    · rw [hne hj]
      exact fun hrunning => (hinv.live j hrunning).mono hold

/-- The lists of the segment are as they were, and so are the locks. -/
theorem Inv.of_lists (hinv : Inv NB_SEGMENTS in_nursery s) (hi : i ∈ segment_nums NB_SEGMENTS)
    (hrunning' : seg'.running = true)
    (h1 : seg'.modified_old_objects = (s.seg i).modified_old_objects)
    (hyoung : ∀ p ∈ seg'.young, p ≠ 0 ∧ s.old p = false)
    (hapart : ∀ j, j ≠ i → ∀ p ∈ seg'.young, p ∈ (s.seg j).young → in_nursery p = true)
    (hparallel : Parallel seg') (hlive : Live s.old seg') : Inv NB_SEGMENTS in_nursery (s.set_seg i seg') := by
  refine hinv.of_seg rfl (fun _ => hi) (fun h => ?_) (fun j hj obj => ?_) ?_
    (fun _ h => h) hinv.old_outside hyoung (fun j _ p hp => (hinv.young_not_old j p hp).2) hapart hparallel
    fun _ => hlive
  · rw [hrunning'] at h
    cases h
  · show s.write_locks obj = j ↔ obj ∈ (Function.update s.seg i seg' j).modified_old_objects
    rw [hinv.locks j hj obj]
    by_cases hji : j = i
    · rw [hji, Function.update_self, h1]
    · rw [Function.update_of_ne hji]
  · rw [h1]
    exact hinv.nodup i

/-- No young object is at address 0. -/
theorem Inv.zero_not_young (hinv : Inv NB_SEGMENTS in_nursery s) : 0 ∉ (s.seg i).young :=
  fun h => (hinv.young_not_old i 0 h).1 rfl

theorem Inv.start (hinv : Inv NB_SEGMENTS in_nursery s) :
    (stm_start_transaction NB_SEGMENTS NDEBUG i ss s).Safe (Inv NB_SEGMENTS in_nursery) := by
  unfold stm_start_transaction
  refine Outcome.Safe.guarded fun ⟨hidle, hi, hgood⟩ => ?_
  obtain ⟨h1, h2, h3, h4, h5⟩ := hinv.idle i hidle
  rw [if_pos ⟨h1, h2, h3, h4⟩]
  refine hinv.of_lists hi rfl rfl ?_ ?_ (.of_empty h1 h2 h5 h4) (.of_empty h2 hgood rfl)
  · exact hinv.young_not_old i
  · exact fun j hj p hp hpj => hinv.young_apart i j p (Ne.symm hj) hp hpj

theorem Inv.set_shadowstack (hinv : Inv NB_SEGMENTS in_nursery s) (hrunning : (s.seg i).running = true)
    (hgood : good_stack s (s.seg i) ss) :
    Inv NB_SEGMENTS in_nursery (s.set_seg i { s.seg i with shadowstack := ss }) := by
  have hpar := hinv.parallel i
  refine hinv.of_lists (hinv.numbered i hrunning) hrunning rfl (hinv.young_not_old i)
    (fun j hj p hp hpj => hinv.young_apart i j p (Ne.symm hj) hp hpj) ?_ ?_
  · exact ⟨hpar.even, hpar.count_le, hpar.recorded_length, hpar.pairs, hpar.num_old, hpar.settled⟩
  · exact ⟨(hinv.live i hrunning).markers, hgood.2, hgood.1⟩

theorem Inv.allocate (hinv : Inv NB_SEGMENTS in_nursery s) (hrunning : (s.seg i).running = true)
    (hp : p ≠ 0) (hold : s.old p = false) (hfree : in_nursery p = false → is_free NB_SEGMENTS s p) :
    Inv NB_SEGMENTS in_nursery (s.set_seg i { s.seg i with young := p :: (s.seg i).young }) := by
  have hpar := hinv.parallel i
  have hlive := hinv.live i hrunning
  refine hinv.of_lists (hinv.numbered i hrunning) hrunning rfl ?_ (fun j hj q hq hqj => ?_) ?_ ?_
  · intro q hq
    rcases List.mem_cons.mp hq with rfl | hq
    · exact ⟨hp, hold⟩
    · exact hinv.young_not_old i q hq
  · rcases List.mem_cons.mp hq with rfl | hq
    · by_contra hout
      have hrunning' : (s.seg j).running = true := by
        by_contra hidle
        rw [(hinv.idle j (Bool.eq_false_iff.mpr hidle)).2.2.1] at hqj
        exact absurd hqj List.not_mem_nil
      exact (hfree (Bool.eq_false_iff.mpr hout)).2.2 j (hinv.numbered j hrunning') hqj
    · exact hinv.young_apart i j q (Ne.symm hj) hq hqj
  · refine ⟨hpar.even, hpar.count_le, hpar.recorded_length, hpar.pairs, hpar.num_old, fun k hk hmem => ?_⟩
    -- a marker has no object that is not there yet
    have hsettled := hpar.settled k hk
    rcases List.mem_cons.mp hmem with heq | hmem
    · rcases hlive.markers k with h0 | hyoung | hold'
      · exact hp (heq.symm.trans h0)
      · exact hsettled hyoung
      · rw [heq, hold] at hold'
        cases hold'
    · exact hsettled hmem
  · exact ⟨fun k => (hlive.markers k).imp_right fun h => h.imp_left (List.mem_cons_of_mem p),
      fun q hq => (hlive.stack q hq).imp_right fun h => h.imp_left (List.mem_cons_of_mem p), hlive.fetch⟩

/-- What timing adds to the list, if it is on. -/
theorem timing_record_write_eq {seg : Seg} (hfetch : (marker_fetch seg.shadowstack).isSome = true) :
    ∃ mlstm, timing_record_write s seg = some { seg with modified_old_objects_markers := mlstm } ∧
      (mlstm = seg.modified_old_objects_markers ∨
        mlstm = pad (2 * seg.modified_old_objects.length) seg.modified_old_objects_markers ++
          [((marker_fetch seg.shadowstack).getD NO_MARKER).odd_number,
            ((marker_fetch seg.shadowstack).getD NO_MARKER).object]) := by
  obtain ⟨marker, hmarker⟩ := Option.isSome_iff_exists.mp hfetch
  unfold timing_record_write
  by_cases htiming : s.timing = true
  · rw [if_pos htiming]
    unfold _timing_record_write
    rw [hmarker]
    exact ⟨_, rfl, .inr rfl⟩
  · rw [if_neg htiming]
    exact ⟨_, rfl, .inl rfl⟩

theorem Inv.write (hinv : Inv NB_SEGMENTS in_nursery s) :
    (write_slowpath i obj s).Safe (Inv NB_SEGMENTS in_nursery) := by
  unfold write_slowpath
  refine Outcome.Safe.guarded fun ⟨hrunning, hold⟩ => ?_
  have hpar := hinv.parallel i
  have hlive := hinv.live i hrunning
  have hi := hinv.numbered i hrunning
  split_ifs with hzero hown
  · obtain ⟨mlstm, hrecord, hmlstm⟩ := @timing_record_write_eq s (s.seg i) hlive.fetch
    rw [hrecord]
    have hnew : obj ∉ (s.seg i).modified_old_objects := by
      intro hmem
      have hlock := (hinv.locks i (one_le_of_mem hi) obj).mpr hmem
      rw [hzero] at hlock
      exact absurd (one_le_of_mem hi) (by omega)
    refine hinv.of_seg rfl (fun _ => hi) (fun h => ?_) (fun j hj o => ?_) ?_ (fun _ h => h) hinv.old_outside
      (hinv.young_not_old i) (fun j _ p hp => (hinv.young_not_old j p hp).2)
      (fun j hj p hp hpj => hinv.young_apart i j p (Ne.symm hj) hp hpj) ?_ ?_
    · rw [hrunning] at h
      cases h
    · show Function.update s.write_locks obj i o = j ↔ o ∈ (Function.update s.seg i _ j).modified_old_objects
      by_cases ho : o = obj
      · rw [ho, Function.update_self]
        by_cases hji : j = i
        · rw [hji, Function.update_self]
          exact ⟨fun _ => List.mem_append_right _ List.mem_cons_self, fun _ => rfl⟩
        · rw [Function.update_of_ne hji, ← hinv.locks j hj obj, hzero]
          omega
      · rw [Function.update_of_ne ho, hinv.locks j hj o]
        by_cases hji : j = i
        · rw [hji, Function.update_self, List.mem_append, List.mem_singleton, or_iff_left ho]
        · rw [Function.update_of_ne hji]
    · exact List.nodup_append.mpr ⟨hinv.nodup i, List.nodup_singleton obj, fun a ha b hb => by
        rw [List.mem_singleton.mp hb]
        exact fun heq => hnew (heq ▸ ha)⟩
    · exact hpar.write rfl hmlstm rfl rfl rfl rfl
    · refine fun _ => ⟨fun k => ?_, hlive.stack, hlive.fetch⟩
      rcases hpar.pair_recorded hmlstm k with heq | ⟨-, heq⟩
      · dsimp only
        rw [heq]
        exact hlive.markers k
      · dsimp only
        rw [heq]
        -- the object of the current marker is on the stack
        obtain ⟨marker, hmarker⟩ := Option.isSome_iff_exists.mp hlive.fetch
        rw [hmarker]
        exact (marker_fetch_object hmarker).elim .inl (hlive.stack _)
  · exact hinv
  · trivial

theorem Inv.become_inevitable (hinv : Inv NB_SEGMENTS in_nursery s)
    (hrunning : (s.seg i).running = true) :
    ∃ seg', timing_fetch_inev s (s.seg i) = some seg' ∧ Inv NB_SEGMENTS in_nursery (s.set_seg i seg') := by
  have hpar := hinv.parallel i
  have hlive := hinv.live i hrunning
  obtain ⟨marker, hmarker⟩ := Option.isSome_iff_exists.mp hlive.fetch
  have hkeep : ∀ marker_inev, Inv NB_SEGMENTS in_nursery
      (s.set_seg i { s.seg i with marker_inev := marker_inev }) := by
    intro marker_inev
    refine hinv.of_lists (hinv.numbered i hrunning) hrunning rfl (hinv.young_not_old i)
      (fun j hj p hp hpj => hinv.young_apart i j p (Ne.symm hj) hp hpj) ?_ ?_
    · exact ⟨hpar.even, hpar.count_le, hpar.recorded_length, hpar.pairs, hpar.num_old, hpar.settled⟩
    · exact ⟨hlive.markers, hlive.stack, hlive.fetch⟩
  unfold timing_fetch_inev
  by_cases htiming : s.timing = true
  · rw [if_pos htiming, hmarker]
    exact ⟨_, rfl, hkeep marker⟩
  · rw [if_neg htiming]
    exact ⟨_, rfl, hkeep (s.seg i).marker_inev⟩

/-- Where an object that is old after a minor collection has come from. -/
theorem old_after_cases {seg : Seg} {old : ℕ → Bool} (h : old_after mv seg old p = true) :
    old p = true ∨ ∃ q ∈ seg.young, mv.address q = p := by
  unfold old_after at h
  rw [Bool.or_eq_true, List.any_eq_true] at h
  refine h.imp_right fun ⟨q, hq, hmove⟩ => ⟨q, hq, ?_⟩
  rw [Bool.and_eq_true, decide_eq_true_iff] at hmove
  exact hmove.2

theorem Inv.minor_collection (hinv : Inv NB_SEGMENTS in_nursery s) :
    (_do_minor_collection NB_SEGMENTS in_nursery i mv s).Safe (Inv NB_SEGMENTS in_nursery) := by
  unfold _do_minor_collection
  refine Outcome.Safe.guarded fun ⟨hrunning, hmove⟩ => ?_
  have hi := hinv.numbered i hrunning
  have hpar := hinv.parallel i
  have hzero := @Inv.zero_not_young NB_SEGMENTS in_nursery s i hinv
  rw [if_pos hpar.even]
  refine hinv.of_seg rfl (fun _ => hi) (fun h => ?_) (fun j hj obj => ?_) (hinv.nodup i)
    (fun _ => old_after_of_old) (fun p hp => ?_) (fun _ hp => absurd hp List.not_mem_nil)
    (fun j hj p hp => ?_) (fun _ _ _ hp => absurd hp List.not_mem_nil) (hpar.collect hzero)
    (fun _ => (hinv.live i hrunning).collect hpar hzero)
  · have hrunning' : (collect_seg mv (s.seg i)).running = true := hrunning
    rw [hrunning'] at h
    cases h
  · show s.write_locks obj = j ↔ obj ∈ (Function.update s.seg i _ j).modified_old_objects
    rw [hinv.locks j hj obj]
    by_cases hji : j = i
    · rw [hji, Function.update_self]
      exact Iff.rfl
    · rw [Function.update_of_ne hji]
  · rcases old_after_cases hp with hold | ⟨q, hq, rfl⟩
    · exact hinv.old_outside p hold
    · have hgood := hmove q hq
      by_cases hnursery : in_nursery q = true
      · rw [if_pos hnursery] at hgood
        exact ⟨hgood.2.1, hgood.1⟩
      · rw [if_neg hnursery] at hgood
        rw [hgood]
        exact ⟨(hinv.young_not_old i q hq).1, Bool.eq_false_iff.mpr hnursery⟩
  · -- what was young here is not young in another segment
    rw [← Bool.not_eq_true]
    intro hold'
    rcases old_after_cases hold' with hold | ⟨q, hq, rfl⟩
    · rw [(hinv.young_not_old j p hp).2] at hold
      cases hold
    · have hgood := hmove q hq
      by_cases hnursery : in_nursery q = true
      · rw [if_pos hnursery] at hgood
        have hrunning' : (s.seg j).running = true := by
          by_contra hidle
          rw [(hinv.idle j (Bool.eq_false_iff.mpr hidle)).2.2.1] at hp
          exact absurd hp List.not_mem_nil
        exact hgood.2.2.2 j (hinv.numbered j hrunning') hp
      · rw [if_neg hnursery] at hgood
        rw [hgood] at hp
        exact hnursery (hinv.young_apart i j q (Ne.symm hj) hq hp)

/-- The lists of a segment are cleared and its locks are released. -/
theorem Inv.cleared (hinv : Inv NB_SEGMENTS in_nursery s) (hi : i ∈ segment_nums NB_SEGMENTS)
    (h1 : seg'.modified_old_objects = []) (h2 : seg'.modified_old_objects_markers = [])
    (h3 : seg'.recorded = []) (h4 : seg'.objects_pointing_to_nursery = false) (h5 : seg'.young = [])
    (hlive : seg'.running = true → Live s.old seg') : ∃ write_locks,
      release_locks i (s.seg i).modified_old_objects.reverse s.write_locks = some write_locks ∧
      Inv NB_SEGMENTS in_nursery ({ s with write_locks }.set_seg i seg') := by
  have hpos := one_le_of_mem hi
  refine ⟨_, release_locks_eq hpos (List.nodup_reverse.mpr (hinv.nodup i)) fun item hitem =>
    (hinv.locks i hpos item).mpr (List.mem_reverse.mp hitem), ?_⟩
  refine hinv.of_seg rfl (fun _ => hi) (fun _ => ⟨h1, h2, h5, h4, h3⟩) (fun j hj obj => ?_) ?_
    (fun _ h => h) hinv.old_outside ?_ (fun j _ p hp => (hinv.young_not_old j p hp).2) ?_
    (.of_empty h1 h2 h3 h4) hlive
  · show (if obj ∈ (s.seg i).modified_old_objects.reverse then 0 else s.write_locks obj) = j ↔
      obj ∈ (Function.update s.seg i seg' j).modified_old_objects
    by_cases hmem : obj ∈ (s.seg i).modified_old_objects.reverse
    · rw [if_pos hmem]
      have hlock := (hinv.locks i hpos obj).mpr (List.mem_reverse.mp hmem)
      refine ⟨fun h => absurd hj (by omega), fun h => ?_⟩
      by_cases hji : j = i
      · rw [hji, Function.update_self, h1] at h
        exact absurd h List.not_mem_nil
      · rw [Function.update_of_ne hji, ← hinv.locks j hj obj] at h
        exact absurd (h.symm.trans hlock) hji
    · rw [if_neg hmem]
      by_cases hji : j = i
      · rw [hji, Function.update_self, h1, hinv.locks i hpos obj]
        exact ⟨fun h => absurd (List.mem_reverse.mpr h) hmem, fun h => absurd h List.not_mem_nil⟩
      · rw [Function.update_of_ne hji]
        exact hinv.locks j hj obj
  · rw [h1]
    exact List.nodup_nil
  · rw [h5]
    exact fun _ hp => absurd hp List.not_mem_nil
  · rw [h5]
    exact fun _ _ _ hp => absurd hp List.not_mem_nil

theorem Inv.commit (hinv : Inv NB_SEGMENTS in_nursery s) :
    (commit i s).Safe (Inv NB_SEGMENTS in_nursery) := by
  unfold WriteMarkers.commit
  refine Outcome.Safe.guarded fun ⟨hrunning, hyoung⟩ => ?_
  obtain ⟨write_locks, hrelease, hinv'⟩ := @Inv.cleared _ _ _ i { s.seg i with
    running := false
    modified_old_objects := []
    modified_old_objects_markers := []
    objects_pointing_to_nursery := false
    marker_inev := { (s.seg i).marker_inev with object := 0 }
    recorded := [] } hinv (hinv.numbered i hrunning) rfl rfl rfl rfl hyoung fun h => absurd h Bool.false_ne_true
  dsimp only
  rw [hrelease]
  exact hinv'

theorem Inv.abort_data_structures (hinv : Inv NB_SEGMENTS in_nursery s) :
    (abort_data_structures_from_segment_num i ss s).Safe fun s' => Inv NB_SEGMENTS in_nursery s' ∧
      (s'.seg i).modified_old_objects = [] ∧ (s'.seg i).modified_old_objects_markers = [] ∧
      (s'.seg i).young = [] ∧ (s'.seg i).objects_pointing_to_nursery = false ∧
      (s'.seg i).recorded = [] ∧ i ∈ segment_nums NB_SEGMENTS := by
  unfold abort_data_structures_from_segment_num
  refine Outcome.Safe.guarded fun ⟨hrunning, hgood⟩ => ?_
  have hi := hinv.numbered i hrunning
  obtain ⟨write_locks, hrelease, hinv'⟩ := @Inv.cleared _ _ _ i { s.seg i with
    young := []
    shadowstack := ss
    modified_old_objects := []
    modified_old_objects_markers := []
    objects_pointing_to_nursery := false
    recorded := [] } hinv hi rfl rfl rfl rfl rfl fun _ => ⟨fun _ => .inl rfl, hgood.2, hgood.1⟩
  dsimp only
  rw [hrelease]
  refine ⟨hinv', ?_⟩
  unfold St.set_seg
  dsimp only
  rw [Function.update_self]
  exact ⟨rfl, rfl, rfl, rfl, rfl, hi⟩

theorem Inv.finish_abort (hinv : Inv NB_SEGMENTS in_nursery s) (hi : i ∈ segment_nums NB_SEGMENTS)
    (h1 : (s.seg i).modified_old_objects = []) (h2 : (s.seg i).modified_old_objects_markers = [])
    (h3 : (s.seg i).young = []) (h4 : (s.seg i).objects_pointing_to_nursery = false)
    (h5 : (s.seg i).recorded = []) : Inv NB_SEGMENTS in_nursery (finish_abort i s) := by
  refine hinv.of_seg rfl (fun _ => hi) (fun _ => ⟨h1, h2, h3, h4, h5⟩) (fun j hj obj => ?_) (hinv.nodup i)
    (fun _ h => h) hinv.old_outside (hinv.young_not_old i) (fun j _ p hp => (hinv.young_not_old j p hp).2)
    (fun j hj p hp hpj => hinv.young_apart i j p (Ne.symm hj) hp hpj) (.of_empty h1 h2 h5 h4)
    fun h => absurd h Bool.false_ne_true
  show s.write_locks obj = j ↔ obj ∈ (Function.update s.seg i _ j).modified_old_objects
  rw [hinv.locks j hj obj]
  by_cases hji : j = i
  · rw [hji, Function.update_self]
  · rw [Function.update_of_ne hji]

theorem mem_major_roots {seg : Seg} (hi : i ∈ segment_nums NB_SEGMENTS) (hseg : seg = s.seg i)
    (hp : p ∈ marker_items seg.modified_old_objects_markers seg.modified_old_objects_markers.length ∨
      p ∈ shadow_objects seg.shadowstack) : p ∈ major_roots NB_SEGMENTS s := by
  subst hseg
  unfold major_roots
  refine List.mem_flatMap.mpr ⟨i, hi, ?_⟩
  rcases hp with hp | hp
  · exact List.mem_append_left _ (List.mem_append_left _ (List.mem_append_right _ hp))
  · exact List.mem_append_right _ hp

theorem Inv.major_collection (hinv : Inv NB_SEGMENTS in_nursery s) :
    (major_collection NB_SEGMENTS keep s).Safe (Inv NB_SEGMENTS in_nursery) := by
  unfold WriteMarkers.major_collection
  refine Outcome.Safe.guarded fun hyoung => ?_
  obtain ⟨locks, hlocks, heq⟩ := @Inv.restore NB_SEGMENTS in_nursery s hinv _ (fun i hi => one_le_of_mem hi)
    (List.nodup_range' 1 Nat.one_pos) (fun _ => 0) fun _ _ _ _ => rfl
  -- no other object was locked
  have hsame : locks = s.write_locks := by
    funext obj
    rw [heq obj]
    by_cases hmem : ∃ i ∈ segment_nums NB_SEGMENTS, obj ∈ (s.seg i).modified_old_objects
    · rw [if_pos hmem]
    · rw [if_neg hmem]
      by_contra hne
      have hpos : 1 ≤ s.write_locks obj := Nat.one_le_iff_ne_zero.mpr (Ne.symm hne)
      have hobj := (hinv.locks _ hpos obj).mp rfl
      exact hmem ⟨_, hinv.numbered _ (hinv.running_of_mem hobj), hobj⟩
  have hsafe : major_restore_write_locks s (segment_nums NB_SEGMENTS) (fun _ => 0) = some s.write_locks :=
    hsame ▸ hlocks
  rw [hsafe]
  have hkept : ∀ {p}, p ∈ major_roots NB_SEGMENTS s → s.old p = true →
      (s.old p && (keep p || decide (p ∈ major_roots NB_SEGMENTS s))) = true := by
    intro p hp hold
    rw [Bool.and_eq_true, Bool.or_eq_true, decide_eq_true_iff]
    exact ⟨hold, .inr hp⟩
  have hold : ∀ {p}, (s.old p && (keep p || decide (p ∈ major_roots NB_SEGMENTS s))) = true →
      s.old p = true := fun h => (Bool.and_eq_true _ _ ▸ h).1
  refine ⟨hinv.numbered, hinv.idle, hinv.locks, hinv.nodup, fun p hp => hinv.old_outside p (hold hp),
    fun i p hp => ⟨(hinv.young_not_old i p hp).1, ?_⟩, hinv.young_apart, hinv.parallel, fun i => ?_⟩
  · show (s.old p && _) = false
    rw [(hinv.young_not_old i p hp).2]
    rfl
  · intro hrunning
    have hlive := hinv.live i hrunning
    have hi := hinv.numbered i hrunning
    refine ⟨fun k => (hlive.markers k).imp_right fun h => h.imp_right fun hp => hkept ?_ hp,
      fun p hp => (hlive.stack p hp).imp_right fun h => h.imp_right fun hold' =>
        hkept (mem_major_roots hi rfl (.inr hp)) hold', hlive.fetch⟩
    have heven := (hinv.parallel i).even
    rcases Nat.lt_or_ge (2 * k + 1) (s.seg i).modified_old_objects_markers.length with hlt | hge
    · exact mem_major_roots hi rfl (.inl (mem_marker_items heven hlt))
    · exfalso
      have hle : (s.seg i).modified_old_objects_markers.length ≤ 2 * k := by omega
      have hzero : (pair (s.seg i).modified_old_objects_markers k).object = 0 := by
        rw [pair_of_ge hle]
        rfl
      exact (hinv.old_outside _ hp).1 hzero

/-- A step keeps the invariant, and no assertion fails. -/
theorem Inv.step (hinv : Inv NB_SEGMENTS in_nursery s) (a : Action) :
    (step NB_SEGMENTS NDEBUG in_nursery s a).Safe (Inv NB_SEGMENTS in_nursery) := by
  unfold WriteMarkers.step
  cases a with
  | set_timing on =>
      exact ⟨hinv.numbered, hinv.idle, hinv.locks, hinv.nodup, hinv.old_outside, hinv.young_not_old,
        hinv.young_apart, hinv.parallel, hinv.live⟩
  | stm_start_transaction i ss => exact hinv.start
  | set_shadowstack i ss =>
      exact Outcome.Safe.guarded fun ⟨hrunning, hgood⟩ => hinv.set_shadowstack hrunning hgood
  | allocate i p =>
      exact Outcome.Safe.guarded fun ⟨hrunning, hp, hold, hfree⟩ => hinv.allocate hrunning hp hold hfree
  | write_slowpath i obj => exact hinv.write
  | become_inevitable i =>
      refine Outcome.Safe.guarded fun hrunning => ?_
      obtain ⟨seg', hfetch, hinv'⟩ := hinv.become_inevitable hrunning
      rw [hfetch]
      exact hinv'
  | minor_collection i mv => exact hinv.minor_collection
  | commit i => exact hinv.commit
  | abort i ss =>
      have habort := @Inv.abort_data_structures _ _ _ i ss hinv
      dsimp only
      cases hr : abort_data_structures_from_segment_num i ss s with
      | blocked => trivial
      | fault => exact absurd hr habort.ne_fault
      | next t =>
          obtain ⟨hinv', h1, h2, h3, h4, h5, hi⟩ := habort.of_next hr
          exact hinv'.finish_abort hi h1 h2 h3 h4 h5
  | remote_abort i ss => exact hinv.abort_data_structures.mono fun _ h => h.1
  | major_collection keep => exact hinv.major_collection

theorem inv_init (h : init in_nursery s) : Inv NB_SEGMENTS in_nursery s := by
  obtain ⟨hlocks, hold, hseg⟩ := h
  refine ⟨fun i => ?_, fun i _ => ?_, fun i hi obj => ?_, fun i => ?_, hold, fun i => ?_, fun i j p _ => ?_,
    fun i => ?_, fun i => ?_⟩
  all_goals rw [hseg i]
  · exact fun h => absurd h Bool.false_ne_true
  · exact ⟨rfl, rfl, rfl, rfl, rfl⟩
  · rw [hlocks obj]
    exact ⟨fun h => absurd hi (by omega), fun h => absurd h List.not_mem_nil⟩
  · exact List.nodup_nil
  · exact fun _ hp => absurd hp List.not_mem_nil
  · exact fun hp => absurd hp List.not_mem_nil
  · exact .of_empty rfl rfl rfl rfl
  · exact fun h => absurd h Bool.false_ne_true

theorem inv_of_reachable (h : Reachable (init in_nursery) (step NB_SEGMENTS NDEBUG in_nursery) s) :
    Inv NB_SEGMENTS in_nursery s :=
  h.invariant (fun _ => inv_init) fun _ a _ hinv _ hs => (hinv.step a).of_next hs

end

/-! ## Fetching the marker of a write -/

section

variable {mlst mlstm : List ℕ} {obj k n : ℕ}

end

/-- One object is old. -/
def one_object : St where
  timing := false
  write_locks := fun _ => 0
  old := fun p => p = 200
  seg := fun _ => initial_seg

end WriteMarkers

end Stmgc.C7
