/-
Every step of the machine of `Transaction` that does not collect, commit or
abort keeps its invariant: allocation, the write barriers, privatization and
stores.
-/
import Stmgc.C7.TransactionInv

namespace Stmgc.C7

open Stmgc.Lib

section

variable {NB_SEGMENTS : ℕ} {cards : Bool} {s s' : St} {i obj : ℕ} {m : Memory}

/-! ## Updates of the flags -/

theorem read_set_flags (f : UInt8) : read (set_flags m i obj f) i obj = read m i obj ||| f := by
  rw [set_flags, read_write_self]

theorem read_set_flags_of_ne {j a : ℕ} (f : UInt8) (h : a ≠ obj) :
    read (set_flags m i obj f) j a = read m j a := by
  rw [set_flags, read_write_of_ne h]

theorem read_clear_flags (f : UInt8) :
    read (clear_flags m i obj f) i obj = read m i obj &&& ~~~f := by
  rw [clear_flags, read_write_self]

theorem read_clear_flags_of_ne {j a : ℕ} (f : UInt8) (h : a ≠ obj) :
    read (clear_flags m i obj f) j a = read m j a := by
  rw [clear_flags, read_write_of_ne h]

theorem writesOnly_set_flags (l : Layout) (f : UInt8) :
    WritesOnly i obj l.size m (set_flags m i obj f) := by
  have hsize := l.size_pos
  exact WritesOnly.write _ (by omega)

theorem writesOnly_clear_flags (l : Layout) (f : UInt8) :
    WritesOnly i obj l.size m (clear_flags m i obj f) := by
  have hsize := l.size_pos
  exact WritesOnly.write _ (by omega)

theorem has_flag_eq_true {f : UInt8} : has_flag m i obj f = true ↔ read m i obj &&& f ≠ 0 := by
  rw [has_flag, bne_iff_ne]

theorem has_flag_eq_false {f : UInt8} : has_flag m i obj f = false ↔ read m i obj &&& f = 0 := by
  rw [has_flag, bne_eq_false_iff_eq]

theorem clean_flags_read : clean_flags (read m i obj) ↔
    has_flag m i obj GCFLAG_WRITE_BARRIER = true ∧ has_flag m i obj GCFLAG_CARDS_SET = false := by
  rw [clean_flags_iff]
  rfl

theorem has_flag_set_cards_set : has_flag (set_flags m i obj GCFLAG_CARDS_SET) i obj
      GCFLAG_WRITE_BARRIER = has_flag m i obj GCFLAG_WRITE_BARRIER := by
  rw [has_flag, read_set_flags, (or_cards_set _).2.1, has_flag]

theorem has_flag_set_write_barrier : has_flag (set_flags m i obj GCFLAG_WRITE_BARRIER) i obj
      GCFLAG_CARDS_SET = has_flag m i obj GCFLAG_CARDS_SET := by
  rw [has_flag, read_set_flags, (or_write_barrier _).2.2, has_flag]

theorem not_cards_set_of_clear : has_flag (clear_flags m i obj GCFLAG_CARDS_SET) i obj
      GCFLAG_CARDS_SET = false := by
  rw [has_flag_eq_false, read_clear_flags]
  exact (clear_cards_set _).2.2

theorem not_cards_set_of_clear_both :
    has_flag (clear_flags m i obj (GCFLAG_WRITE_BARRIER ||| GCFLAG_CARDS_SET)) i obj
      GCFLAG_CARDS_SET = false := by
  rw [has_flag_eq_false, read_clear_flags]
  exact (clear_both_flags _).2

/-! ## The segment that acts -/

theorem is_resetting_of_running {seg : Segment} (h : seg.pc = .running) :
    seg.pc.is_resetting = false := by
  rw [h]
  rfl

theorem pending_of_running {seg : Segment} (h : seg.pc = .running) (o : ℕ) : pending seg o = [] := by
  unfold pending
  rw [h]

/-- A step within the transaction of the segment. -/
theorem SameLists.of_lists {o : ℕ} {seg seg' : Segment} (hr : seg.pc.is_resetting = false)
    (hr' : seg'.pc.is_resetting = false)
    (hmod : o ∈ seg'.modified_old_objects ↔ o ∈ seg.modified_old_objects)
    (hp : C7.pending seg' o = C7.pending seg o)
    (hov : seg'.large_overflow_objects = seg.large_overflow_objects)
    (hcards : o ∈ seg.old_objects_with_cards → o ∈ seg'.old_objects_with_cards)
    (hw : o ∈ seg.written → o ∈ seg'.written)
    (hpushed : seg'.pc = .pushed → seg.pc = .pushed) : SameLists o seg seg' where
  remaining := by
    rw [remaining_eq hr, remaining_eq hr']
    exact hmod
  pending := hp
  overflow := by rw [hov]
  cards _ := hcards
  written _ := hw
  pushed _ := hpushed
  resetting _ h := absurd (h.symm.trans hr') (by decide)

theorem MarkInv.mono (h : MarkInv s i obj) (hlayout : s'.layout obj = s.layout obj)
    (h0 : ∀ a, in_object s obj a → read s'.mem 0 a = read s.mem 0 a)
    (hflags : other_flags (read s'.mem i obj) = other_flags (read s.mem i obj))
    (hview : ∀ a, a ≠ obj → read s'.mem i a = read s.mem i a)
    (hwb : has_flag s.mem i obj GCFLAG_WRITE_BARRIER = true →
      has_flag s'.mem i obj GCFLAG_WRITE_BARRIER = true)
    (hlocks : ∀ c ∈ card_indices (s.layout obj),
      s.write_locks (get_write_lock_idx obj + c) ≠ CARD_CLEAR →
      s'.write_locks (get_write_lock_idx obj + c) ≠ CARD_CLEAR)
    (hw : obj ∈ (s.segs i).written → obj ∈ (s'.segs i).written) : MarkInv s' i obj where
  flags := by
    rw [hflags, h0 obj (in_object_self s obj)]
    exact h.flags
  marked := by
    rw [hlayout]
    rcases h.marked with hwr | hall | ⟨hb, hd⟩
    · exact .inl (hw hwr)
    · exact .inr (.inl (fun c hc => hlocks c hc (hall c hc)))
    · refine .inr (.inr ⟨hwb hb, fun a ha hao hne => ?_⟩)
      unfold in_object at ha
      rw [hlayout] at ha
      rw [hview a hao, h0 a ha] at hne
      obtain ⟨c, hc, hcm, hin⟩ := hd a ha hao hne
      exact ⟨c, hc, hlocks c hc hcm, hin⟩

@[simp] theorem set_segs_self (seg : Segment) : (s.set i seg).segs i = seg := by
  simp [St.set]

@[simp] theorem set_seg_mem (seg : Segment) : (s.set i seg).mem = s.mem := rfl

theorem set_segs_of_ne {j : ℕ} (seg : Segment) (hj : j ≠ i) : (s.set i seg).segs j = s.segs j := by
  simp [St.set, hj]

/-! ## Write barriers -/

/-- A loop over the card bytes changes no others. -/
theorem map_cards_outside (f : ℕ → ℕ) {l : Layout} {wl : ℕ → ℕ} {x : ℕ}
    (hcards : obj_should_use_cards l = true) (hx : ¬ lock_of obj l x) :
    map_cards f wl obj l x = wl x := by
  apply map_cards_of_ne
  rintro c hc rfl
  exact hx (lock_of_card hcards hc)

theorem map_cards_base (f : ℕ → ℕ) {l : Layout} {wl : ℕ → ℕ} :
    map_cards f wl obj l (get_write_lock_idx obj) = wl (get_write_lock_idx obj) :=
  map_cards_of_ne _ _ _ (fun _ hc h => card_ne_base hc h.symm)

theorem Inv.kind_ne_free (h : Inv NB_SEGMENTS cards s) (hm : obj ∈ remaining (s.segs i)) :
    s.kind obj ≠ .free := by
  rw [h.old_of_remaining hm]
  decide

/-- `GCFLAG_CARDS_SET` is only set on objects that use cards. -/
theorem Inv.uses_cards (h : Inv NB_SEGMENTS cards s) (hm : obj ∈ remaining (s.segs i))
    (hf : has_flag s.mem i obj GCFLAG_CARDS_SET = true) :
    obj_should_use_cards (s.layout obj) = true :=
  (h.objs obj (h.kind_ne_free hm)).locks.uses i (.inl hm) hf

theorem ListInv.goto {kind : ℕ → Kind} {layout : ℕ → Layout} {seg : Segment}
    (h : ListInv kind layout seg i) (pc : Pc) (hr : seg.pc.is_resetting = false)
    (ht : ∀ commit todo, pc = .collect_modified commit todo →
      ∀ o ∈ todo, o ∈ seg.modified_old_objects)
    (hp : ∀ o mark_card pages, pc ≠ .privatizing o mark_card pages) :
    ListInv kind layout { seg with pc := pc } i :=
  { h with
    pointing := fun _ => h.pointing hr
    cards := fun _ => h.cards hr
    todo := ht
    privatizing := fun o mc pages hpc => absurd hpc (hp o mc pages) }

theorem ListInv.append_pointing {kind : ℕ → Kind} {layout : ℕ → Layout} {seg : Segment}
    (h : ListInv kind layout seg i)
    (hobj : obj ∈ seg.modified_old_objects ∨ obj ∈ seg.large_overflow_objects) :
    ListInv kind layout { seg with
      objects_pointing_to_nursery :=
        seg.objects_pointing_to_nursery.map (fun lst => list_append lst (obj, false)) } i := by
  cases hopn : seg.objects_pointing_to_nursery with
  | none =>
      have hseg : { seg with objects_pointing_to_nursery := none } = seg := by
        rw [← hopn]
      rw [Option.map_none, hseg]
      exact h
  | some lst =>
      refine { h with pointing := ?_, moved := ?_ }
      · intro hr e he
        rw [Option.map_some, Option.getD_some, mem_list_append] at he
        rcases he with he | rfl
        · exact h.pointing hr e (by rw [hopn]; exact he)
        · exact .inl ⟨rfl, hobj⟩
      · have hmoved := h.moved
        rw [hopn] at hmoved
        simpa [list_append] using hmoved

theorem ListInv.append_cards {kind : ℕ → Kind} {layout : ℕ → Layout} {seg : Segment}
    (h : ListInv kind layout seg i)
    (hobj : obj ∈ seg.modified_old_objects ∨ obj ∈ seg.large_overflow_objects) :
    ListInv kind layout { seg with
      old_objects_with_cards := list_append seg.old_objects_with_cards obj } i := by
  refine { h with cards := ?_ }
  intro hr o ho
  rw [mem_list_append] at ho
  rcases ho with ho | rfl
  · exact h.cards hr o ho
  · exact hobj

/-- The end of a slow path of `stm_write` on an old object. -/
theorem Inv.write_barrier_cleared (h : Inv NB_SEGMENTS cards s)
    (hi : i ∈ segment_nums NB_SEGMENTS) (hm : obj ∈ remaining (s.segs i))
    (hp : ∀ o, pending (s.segs i) o = []) (hr : (s.segs i).pc.is_resetting = false)
    (hs : C7.write_slowpath_owned s i obj none = .next s') : Inv NB_SEGMENTS cards s' := by
  have hl := h.lists i
  have hmod := mem_of_remaining hm
  unfold C7.write_slowpath_owned at hs
  by_cases hassert : is_private_page s.mem i (obj / 4096) = true
      ∧ has_flag s.mem i obj GCFLAG_WRITE_BARRIER = true
  · simp only [if_pos hassert, Outcome.next.injEq] at hs
    rw [← hs]
    refine h.touch hi (h.kind_ne_free hm) rfl rfl (fun j hj => set_segs_of_ne _ hj)
      (writesOnly_clear_flags _ _) ?_ ?_ ?_ ?_
    · intro x hx
      by_cases hf : has_flag s.mem i obj GCFLAG_CARDS_SET = true
      · simp only [if_pos hf]
        exact map_cards_outside _ (h.uses_cards hm hf) hx
      · simp only [if_neg hf]
    · intro o ho
      rw [set_segs_self]
      refine SameLists.of_lists hr rfl Iff.rfl ?_ rfl (fun hc => hc) ?_ (by simp)
      · rw [hp o]
        rfl
      · intro hw
        by_cases hf : has_flag s.mem i obj GCFLAG_CARDS_SET = true
        · simpa only [if_pos hf] using hw
        · simp only [if_neg hf]
          exact List.mem_cons_of_mem _ hw
    · rw [set_segs_self]
      have hrun := (hl.append_pointing (.inl hmod)).goto .running hr (by simp) (by simp)
      exact { hrun with }
    · refine h.objInv_modified hm (hp obj) rfl (fun j hj => set_segs_of_ne _ hj)
        (writesOnly_clear_flags _ _) ?_ ?_ ?_ ?_ ?_
      · by_cases hf : has_flag s.mem i obj GCFLAG_CARDS_SET = true
        · simp only [if_pos hf]
          exact map_cards_base _
        · simp only [if_neg hf]
      · rw [set_segs_self, remaining_eq rfl]
        exact hmod
      · rw [set_segs_self]
      · intro hf
        rw [not_cards_set_of_clear_both] at hf
        cases hf
      · intro hc hcards
        have hmark := (h.objs obj (h.kind_ne_free hm)).marks hc hcards i hm
        refine ⟨?_, ?_⟩
        · dsimp only
          rw [read_clear_flags, (clear_both_flags _).1]
          rw [(writesOnly_clear_flags (s.layout obj) _).private_pages 0 obj (Ne.symm (h.ne_zero hm))
            (h.private_of_remaining hm (hp obj) (in_object_self s obj))]
          exact hmark.flags
        · rw [set_segs_self]
          by_cases hf : has_flag s.mem i obj GCFLAG_CARDS_SET = true
          · -- all cards are marked old
            simp only [if_pos hf]
            refine .inr (.inl (fun c (hcm : c ∈ card_indices (s.layout obj)) => ?_))
            rw [reset_object_cards, map_cards_of_card _ _ _ hcm, if_pos (.inl rfl)]
            decide
          · simp only [if_neg hf]
            exact .inl (by simp)
  · simp only [if_neg hassert] at hs
    cases hs

/-- The end of a slow path of `stm_write_card` on an old object. -/
theorem Inv.card_marked (h : Inv NB_SEGMENTS cards s)
    (hi : i ∈ segment_nums NB_SEGMENTS) (hm : obj ∈ remaining (s.segs i))
    (hp : ∀ o, pending (s.segs i) o = []) (hr : (s.segs i).pc.is_resetting = false) {c : ℕ}
    (hcards : obj_should_use_cards (s.layout obj) = true) (hc : c ∈ card_indices (s.layout obj))
    (hs : C7.write_slowpath_owned s i obj (some c) = .next s') : Inv NB_SEGMENTS cards s' := by
  have hl := h.lists i
  have hmod := mem_of_remaining hm
  unfold C7.write_slowpath_owned at hs
  by_cases hassert : is_private_page s.mem i (obj / 4096) = true
      ∧ has_flag s.mem i obj GCFLAG_WRITE_BARRIER = true
  · simp only [if_pos hassert, Outcome.next.injEq] at hs
    rw [← hs]
    refine h.touch hi (h.kind_ne_free hm) rfl rfl (fun j hj => set_segs_of_ne _ hj)
      (writesOnly_set_flags _ _) ?_ ?_ ?_ ?_
    · intro x hx
      apply Function.update_of_ne
      rintro rfl
      exact hx (lock_of_card hcards hc)
    · intro o ho
      rw [set_segs_self]
      refine SameLists.of_lists hr rfl Iff.rfl ?_ rfl ?_ (fun hw => hw) (by simp)
      · rw [hp o]
        rfl
      · intro hoc
        rw [mem_list_append]
        exact .inl hoc
    · rw [set_segs_self]
      exact (hl.append_cards (.inl hmod)).goto _ hr (by simp) (by simp)
    · refine h.objInv_modified hm (hp obj) rfl (fun j hj => set_segs_of_ne _ hj)
        (writesOnly_set_flags _ _) ?_ ?_ ?_ (fun _ => hcards) ?_
      · exact Function.update_of_ne (Ne.symm (card_ne_base hc)) _ _
      · rw [set_segs_self, remaining_eq rfl]
        exact hmod
      · rw [set_segs_self]
      · intro hc' _
        refine ((h.objs obj (h.kind_ne_free hm)).marks hc' hcards i hm).mono rfl ?_ ?_ ?_ ?_ ?_ ?_
        · intro a ha
          exact (writesOnly_set_flags (s.layout obj) _).private_pages 0 a (Ne.symm (h.ne_zero hm))
            (h.private_of_remaining hm (hp obj) ha)
        · dsimp only
          rw [read_set_flags, (or_cards_set _).1]
        · exact fun a ha => read_set_flags_of_ne _ ha
        · intro hwb
          dsimp only
          rw [has_flag_set_cards_set]
          exact hwb
        · intro d _ hne
          dsimp only
          by_cases hd : d = c
          · rw [hd, Function.update_self]
            decide
          · rw [Function.update_of_ne (by omega)]
            exact hne
        · rw [set_segs_self]
          exact fun hw => hw
  · simp only [if_neg hassert] at hs
    cases hs

theorem Inv.cards_clear_of_overflow (h : Inv NB_SEGMENTS cards s)
    (hov : obj ∈ (s.segs i).large_overflow_objects)
    (hcards : obj_should_use_cards (s.layout obj) = true)
    (hf : has_flag s.mem i obj GCFLAG_CARDS_SET = false) :
    all_cards_cleared s.write_locks obj (s.layout obj) := by
  have hk := (h.lists i).overflow obj hov
  refine (h.objs obj (by rw [hk]; simp)).locks.cards_clear hcards ?_ ?_
  · intro j hj
    have hold := h.old_of_remaining hj
    rw [hk] at hold
    cases hold
  · intro j hj
    have hkj := (h.lists j).overflow obj hj
    rw [hk, Kind.overflow.injEq] at hkj
    rw [← hkj]
    exact .inr hf

/-- `write_slowpath_overflow_obj`. -/
theorem Inv.write_slowpath_overflow_obj {mark_card : Option ℕ} (h : Inv NB_SEGMENTS cards s)
    (hi : i ∈ segment_nums NB_SEGMENTS) (hov : obj ∈ (s.segs i).large_overflow_objects)
    (hpc : (s.segs i).pc = .running)
    (hc : ∀ c, mark_card = some c → obj_should_use_cards (s.layout obj) = true
      ∧ c ∈ card_indices (s.layout obj))
    (hs : C7.write_slowpath_overflow_obj s i obj mark_card = .next s') :
    Inv NB_SEGMENTS cards s' := by
  have hl := h.lists i
  have hk := hl.overflow obj hov
  have hfree : s.kind obj ≠ .free := by
    rw [hk]
    simp
  have hlock := (h.objs obj hfree).locks
  have hr := is_resetting_of_running hpc
  unfold C7.write_slowpath_overflow_obj at hs
  cases mark_card with
  | none =>
      cases hopn : (s.segs i).objects_pointing_to_nursery with
      | none =>
          simp only [hopn] at hs
          cases hs
      | some lst =>
          simp only [hopn, Outcome.next.injEq] at hs
          rw [← hs]
          refine h.touch hi hfree rfl rfl (fun j hj => set_segs_of_ne _ hj)
            (writesOnly_clear_flags _ _) ?_ ?_ ?_ ?_
          · intro x hx
            by_cases hf : has_flag s.mem i obj GCFLAG_CARDS_SET = true
            · simp only [if_pos hf]
              exact map_cards_outside _ (hlock.uses i (.inr hov) hf) hx
            · simp only [if_neg hf]
          · intro o ho
            rw [set_segs_self]
            exact SameLists.of_lists hr hr Iff.rfl rfl rfl (fun hc => hc) (fun hw => hw)
              (fun hp => hp)
          · rw [set_segs_self]
            have happ := hl.append_pointing (.inr hov)
            rw [hopn, Option.map_some] at happ
            exact happ
          · refine h.objInv_overflow (.inl hk) rfl (fun j hj => set_segs_of_ne _ hj) ?_ ?_ ?_ ?_ ?_
              ?_ ?_
            · rw [set_segs_self]
            · rw [set_segs_self]
              dsimp only
              rw [hpc]
              decide
            · by_cases hf : has_flag s.mem i obj GCFLAG_CARDS_SET = true
              · simp only [if_pos hf]
                exact map_cards_base _
              · simp only [if_neg hf]
            · intro hcards _
              by_cases hf : has_flag s.mem i obj GCFLAG_CARDS_SET = true
              · simp only [if_pos hf]
                exact (reset_object_cards_cleared _).cleared
              · simp only [if_neg hf]
                exact h.cards_clear_of_overflow hov hcards (Bool.not_eq_true _ ▸ hf)
            · intro _ hf
              rw [not_cards_set_of_clear_both] at hf
              cases hf
            · intro _ hf
              rw [not_cards_set_of_clear_both] at hf
              cases hf
            · intro _ hcards d hd
              by_cases hf : has_flag s.mem i obj GCFLAG_CARDS_SET = true
              · simp only [if_pos hf]
                exact .inl ((reset_object_cards_cleared _).cleared d hd)
              · simp only [if_neg hf]
                exact hlock.overflow_cards i hov hcards d hd
  | some c =>
      obtain ⟨hcards, hcm⟩ := hc c rfl
      simp only [Outcome.next.injEq] at hs
      rw [← hs]
      refine h.touch hi hfree rfl rfl (fun j hj => set_segs_of_ne _ hj)
        (writesOnly_set_flags _ _) ?_ ?_ ?_ ?_
      · intro x hx
        apply Function.update_of_ne
        rintro rfl
        exact hx (lock_of_card hcards hcm)
      · intro o ho
        rw [set_segs_self]
        refine SameLists.of_lists hr hr Iff.rfl rfl rfl ?_ (fun hw => hw) (fun hp => hp)
        intro hoc
        rw [mem_list_append]
        exact .inl hoc
      · rw [set_segs_self]
        exact hl.append_cards (.inr hov)
      · refine h.objInv_overflow (.inl hk) rfl (fun j hj => set_segs_of_ne _ hj) ?_ ?_ ?_ ?_ ?_ ?_
          ?_
        · rw [set_segs_self]
        · rw [set_segs_self]
          dsimp only
          rw [hpc]
          decide
        · exact Function.update_of_ne (Ne.symm (card_ne_base hcm)) _ _
        · intro _ hf
          rw [set_segs_self] at hf
          have hset := hf hov
          dsimp only at hset
          rw [has_flag_eq_false, read_set_flags] at hset
          exact absurd hset (or_cards_set _).2.2
        · intro _ _
          rw [set_segs_self]
          simp
        · exact fun _ _ => hcards
        · intro _ _ d hd
          dsimp only
          by_cases hdc : d = c
          · rw [hdc, Function.update_self]
            exact .inr rfl
          · rw [Function.update_of_ne (by omega)]
            exact hlock.overflow_cards i hov hcards d hd

/-- A segment takes the lock of an old object. -/
theorem Inv.take_lock {mark_card : Option ℕ} (h : Inv NB_SEGMENTS cards s)
    (hi : i ∈ segment_nums NB_SEGMENTS) (hk : s.kind obj = .old)
    (hpc : (s.segs i).pc = .running) (hfree : s.write_locks (get_write_lock_idx obj) = 0)
    (hc : ∀ c, mark_card = some c → obj_should_use_cards (s.layout obj) = true
      ∧ c ∈ card_indices (s.layout obj)) :
    Inv NB_SEGMENTS cards { s.set i { s.segs i with
        pc := .privatizing obj mark_card (object_pages obj (s.layout obj))
        modified_old_objects := list_append (s.segs i).modified_old_objects obj } with
      write_locks := Function.update s.write_locks (get_write_lock_idx obj) i } := by
  have hl := h.lists i
  have hr := is_resetting_of_running hpc
  have hkf : s.kind obj ≠ .free := by
    rw [hk]
    decide
  have hobj := h.objs obj hkf
  have hnrem : ∀ j, obj ∉ remaining (s.segs j) := by
    intro j hj
    have hown := hobj.locks.owner j hj
    rw [hfree] at hown
    exact h.ne_zero hj hown.symm
  have hnov : ∀ j, obj ∉ (s.segs j).large_overflow_objects := by
    intro j hj
    have hkj := (h.lists j).overflow obj hj
    rw [hk] at hkj
    cases hkj
  rw [mem_segment_nums] at hi
  have hclean := hobj.views.flags hk i hi.2 (hnrem i)
  refine h.touch (mem_segment_nums.mpr hi) hkf rfl rfl (fun j hj => set_segs_of_ne _ hj)
    (WritesOnly.refl _) ?_ ?_ ?_ ?_
  · intro x hx
    apply Function.update_of_ne
    rintro rfl
    exact hx (lock_of_base _ _)
  · intro o ho
    rw [set_segs_self]
    refine SameLists.of_lists hr rfl ?_ ?_ rfl (fun hc => hc) (fun hw => hw) (by simp)
    · rw [mem_list_append]
      simp [ho]
    · rw [pending_of_running hpc]
      simp [pending, Ne.symm ho]
  · rw [set_segs_self]
    refine { hl with modified := ?_, nodup := ?_, pointing := ?_, cards := ?_, todo := ?_,
                     privatizing := ?_ }
    · intro o ho
      rw [mem_list_append] at ho
      rcases ho with ho | rfl
      · exact hl.modified o ho
      · exact hk
    · rw [list_append, List.nodup_append]
      refine ⟨hl.nodup, by simp, ?_⟩
      intro a ha b hb hab
      rw [List.mem_singleton] at hb
      rw [hab, hb] at ha
      exact hnrem i (by rw [remaining_eq hr]; exact ha)
    · intro _ e he
      refine (hl.pointing hr e he).imp_left (fun hf => ⟨hf.1, hf.2.imp_left (fun hm => ?_)⟩)
      rw [mem_list_append]
      exact .inl hm
    · intro _ o ho
      rw [mem_list_append]
      exact (hl.cards hr o ho).imp_left .inl
    · intro commit todo hpc'
      cases hpc'
    · intro o mc pages hpc'
      cases hpc'
      exact ⟨by simp, hc⟩
  · have hrem : ∀ j, obj ∈ remaining ((s.set i { s.segs i with
        pc := .privatizing obj mark_card (object_pages obj (s.layout obj))
        modified_old_objects := list_append (s.segs i).modified_old_objects obj }).segs j) ↔
        j = i := by
      intro j
      by_cases hj : j = i
      · rw [hj, set_segs_self, remaining_eq rfl]
        simp
      · rw [set_segs_of_ne _ hj]
        exact ⟨fun hm => absurd hm (hnrem j), fun hji => absurd hji hj⟩
    have hov : ∀ j, obj ∉ ((s.set i { s.segs i with
        pc := .privatizing obj mark_card (object_pages obj (s.layout obj))
        modified_old_objects :=
          list_append (s.segs i).modified_old_objects obj }).segs j).large_overflow_objects := by
      intro j
      by_cases hj : j = i
      · rw [hj, set_segs_self]
        exact hnov i
      · rw [set_segs_of_ne _ hj]
        exact hnov j
    refine ⟨⟨?_, ?_, ?_, ?_, ?_, ?_⟩, ⟨?_, ?_, ?_, ?_⟩, ?_⟩
    · intro j hj
      rw [(hrem j).mp hj]
      exact Function.update_self _ _ _
    · exact fun hn => absurd ((hrem i).mpr rfl) (hn i)
    · exact fun _ hn => absurd ((hrem i).mpr rfl) (hn i)
    · exact fun j hj => absurd hj (hov j)
    · intro j hj hf
      rw [(hrem j).mp (hj.resolve_right (hov j))] at hf
      have hnf := (clean_flags_read.mp hclean).2
      exact absurd (hf.symm.trans hnf) (by decide)
    · exact fun j hj => absurd hj (hov j)
    · -- all of the pages are still pending
      intro j hj p hp hnp
      rw [(hrem j).mp hj, set_segs_self] at hnp
      refine absurd ?_ hnp
      simp only [pending, if_true]
      exact hp
    · exact fun _ j hj _ => hobj.views.flags hk j hj (hnrem j)
    · exact fun _ hc j hj _ a ha => hobj.views.coherent hk hc j hj (hnrem j) a ha
    · exact fun j _ hj => absurd hj (hov j)
    · intro hc hcards j hj
      rw [(hrem j).mp hj]
      have hcoh := hobj.views.coherent hk (fun _ => hc) i hi.2 (hnrem i)
      refine ⟨?_, .inr (.inr ⟨?_, ?_⟩)⟩
      · exact congrArg other_flags (hcoh obj (in_object_self s obj))
      · exact (clean_flags_read.mp hclean).1
      · exact fun a ha _ hne => absurd (hcoh a ha) hne

/-! ## Steps that change no object -/

/-- Changes of the lists of a segment that matter to no object. -/
structure SegmentStep (NB_SEGMENTS : ℕ) (s : St) (i : ℕ) (seg' : Segment) : Prop where
  remaining : ∀ o, o ∈ remaining seg' ↔ o ∈ remaining (s.segs i)
  pending : ∀ o, ∀ p ∈ pending (s.segs i) o, p ∉ pending seg' o →
    is_private_page s.mem i p = true
  overflow : seg'.large_overflow_objects = (s.segs i).large_overflow_objects
  cards : ∀ o ∈ (s.segs i).old_objects_with_cards, o ∈ seg'.old_objects_with_cards ∨
    has_flag s.mem i o GCFLAG_CARDS_SET = false
  written : ∀ o ∈ (s.segs i).written, o ∈ seg'.written
  pushed : seg'.pc = .pushed → (s.segs i).pc = .pushed ∨
    ∀ o ∈ (s.segs i).large_overflow_objects, seen_by_all NB_SEGMENTS s i o
  resetting : seg'.pc.is_resetting = true → (s.segs i).pc.is_resetting = true

theorem ObjInv.set_seg {seg' : Segment} {o : ℕ} (h : ObjInv NB_SEGMENTS cards s o)
    (hstep : SegmentStep NB_SEGMENTS s i seg') : ObjInv NB_SEGMENTS cards (s.set i seg') o := by
  have hrem : ∀ j, o ∈ remaining ((s.set i seg').segs j) ↔ o ∈ remaining (s.segs j) := by
    intro j
    by_cases hj : j = i
    · rw [hj, set_segs_self]
      exact hstep.remaining o
    · rw [set_segs_of_ne _ hj]
  have hov : ∀ j, ((s.set i seg').segs j).large_overflow_objects
      = (s.segs j).large_overflow_objects := by
    intro j
    by_cases hj : j = i
    · rw [hj, set_segs_self]
      exact hstep.overflow
    · rw [set_segs_of_ne _ hj]
  refine ⟨⟨?_, ?_, ?_, ?_, ?_, ?_⟩, ⟨?_, ?_, ?_, ?_⟩, ?_⟩
  · exact fun j hj => h.locks.owner j ((hrem j).mp hj)
  · exact fun hn => h.locks.free (fun j hj => hn j ((hrem j).mpr hj))
  · intro hc hn hf
    refine h.locks.cards_clear hc (fun j hj => hn j ((hrem j).mpr hj)) (fun j hj => ?_)
    refine (hf j (by rw [hov]; exact hj)).imp_left (fun hr => ?_)
    by_cases hji : j = i
    · rw [hji, set_segs_self] at hr
      rw [hji]
      exact hstep.resetting hr
    · rwa [set_segs_of_ne _ hji] at hr
  · intro j hj hf
    rw [hov] at hj
    have hlisted := h.locks.listed j hj hf
    by_cases hji : j = i
    · rw [hji] at hlisted ⊢
      rw [hji] at hf
      rw [set_segs_self]
      refine (hstep.cards o hlisted).resolve_right (fun hnf => ?_)
      exact absurd (hf.symm.trans hnf) (by decide)
    · rw [set_segs_of_ne _ hji]
      exact hlisted
  · intro j hj hf
    rw [hrem, hov] at hj
    exact h.locks.uses j hj hf
  · intro j hj
    rw [hov] at hj
    exact h.locks.overflow_cards j hj
  · intro j hj p hp hnp
    have hj' := (hrem j).mp hj
    by_cases hold : p ∈ pending (s.segs j) o
    · by_cases hji : j = i
      · rw [hji] at hold hnp ⊢
        rw [set_segs_self] at hnp
        exact hstep.pending o p hold hnp
      · rw [set_segs_of_ne _ hji] at hnp
        exact absurd hold hnp
    · exact h.views.private_pages j hj' p hp hold
  · exact fun hk j hj hn => h.views.flags hk j hj (fun hm => hn ((hrem j).mpr hm))
  · exact fun hk hc j hj hn => h.views.coherent hk hc j hj (fun hm => hn ((hrem j).mpr hm))
  · intro j hpc hj
    rw [hov] at hj
    by_cases hji : j = i
    · rw [hji, set_segs_self] at hpc
      rw [hji] at hj ⊢
      rcases hstep.pushed hpc with hold | hseen
      · exact h.views.pushed i hold hj
      · exact hseen o hj
    · rw [set_segs_of_ne _ hji] at hpc
      exact h.views.pushed j hpc hj
  · intro hc hcards j hj
    have hmark := h.marks hc hcards j ((hrem j).mp hj)
    refine hmark.mono rfl (fun _ _ => rfl) rfl (fun _ _ => rfl) (fun hwb => hwb)
      (fun _ _ hne => hne) (fun hw => ?_)
    by_cases hji : j = i
    · rw [hji] at hw
      rw [hji, set_segs_self]
      exact hstep.written o hw
    · rw [set_segs_of_ne _ hji]
      exact hw

theorem Inv.set_seg {seg' : Segment} (h : Inv NB_SEGMENTS cards s)
    (hi : i ∈ segment_nums NB_SEGMENTS) (hstep : SegmentStep NB_SEGMENTS s i seg')
    (hl : ListInv s.kind s.layout seg' i) : Inv NB_SEGMENTS cards (s.set i seg') where
  apart := h.apart
  locks_used := h.locks_used
  absent j hj := by
    have hji : j ≠ i := fun hji => hj (hji ▸ hi)
    exact (set_segs_of_ne _ hji).trans (h.absent j hj)
  lists j := by
    by_cases hj : j = i
    · rw [hj, set_segs_self]
      exact hl
    · rw [set_segs_of_ne _ hj]
      exact h.lists j
  objs o ho := (h.objs o ho).set_seg hstep

/-- A change of the memory that no segment sees. -/
theorem Inv.set_mem {m : Memory} (h : Inv NB_SEGMENTS cards s)
    (hread : ∀ j a, read m j a = read s.mem j a)
    (hpriv : ∀ j p, is_private_page s.mem j p = true → is_private_page m j p = true) :
    Inv NB_SEGMENTS cards { s with mem := m } where
  apart := h.apart
  locks_used := h.locks_used
  absent := h.absent
  lists := h.lists
  objs o ho := (h.objs o ho).same
    ⟨rfl, rfl, fun j a _ => hread j a, fun j _ p _ hp => hpriv j p hp, fun _ _ => rfl,
      fun _ => SameLists.refl _ _⟩

/-- `page_privatize` on one of the pages of the object whose lock was just
taken. -/
theorem Inv.page_privatize {mark_card : Option ℕ} {p : ℕ} {pages : List ℕ}
    (h : Inv NB_SEGMENTS cards s) (hi : i ∈ segment_nums NB_SEGMENTS)
    (hpc : (s.segs i).pc = .privatizing obj mark_card (p :: pages)) :
    Inv NB_SEGMENTS cards { s.set i { s.segs i with pc := .privatizing obj mark_card pages } with
      mem := C7.page_privatize s.mem i p } := by
  have hl := h.lists i
  have hr : (s.segs i).pc.is_resetting = false := by
    rw [hpc]
    rfl
  have hmem : Inv NB_SEGMENTS cards { s with mem := C7.page_privatize s.mem i p } :=
    h.set_mem (fun _ _ => read_page_privatize p)
      (fun j q hq => (is_private_page_page_privatize p q).mpr (.inl hq))
  refine hmem.set_seg hi ⟨?_, ?_, rfl, fun o ho => .inl ho, fun _ hw => hw, by simp,
    by simp [Pc.is_resetting]⟩ ?_
  · intro o
    rw [remaining_eq rfl, remaining_eq hr]
  · intro o q hq hnq
    have hqp : q = p := by
      unfold pending at hq hnq
      simp only [hpc] at hq hnq
      by_cases ho : obj = o
      · rw [if_pos ho, List.mem_cons] at hq
        rw [if_pos ho] at hnq
        exact hq.resolve_right hnq
      · rw [if_neg ho] at hq
        simp at hq
    refine (is_private_page_page_privatize p q).mpr (.inr ⟨?_, hqp, rfl⟩)
    rw [mem_segment_nums] at hi
    omega
  · refine { hl with pointing := fun _ => hl.pointing hr, cards := fun _ => hl.cards hr,
                     todo := ?_, privatizing := ?_ }
    · intro commit todo hpc'
      cases hpc'
    · intro o mc pages' hpc'
      cases hpc'
      exact hl.privatizing obj mark_card _ hpc

/-! ## The barriers as a whole -/

theorem Inv.write_slowpath_owned {mark_card : Option ℕ} (h : Inv NB_SEGMENTS cards s)
    (hi : i ∈ segment_nums NB_SEGMENTS) (hm : obj ∈ remaining (s.segs i))
    (hp : ∀ o, pending (s.segs i) o = []) (hr : (s.segs i).pc.is_resetting = false)
    (hc : ∀ c, mark_card = some c → obj_should_use_cards (s.layout obj) = true
      ∧ c ∈ card_indices (s.layout obj))
    (hs : C7.write_slowpath_owned s i obj mark_card = .next s') : Inv NB_SEGMENTS cards s' := by
  cases mark_card with
  | none => exact h.write_barrier_cleared hi hm hp hr hs
  | some c =>
      obtain ⟨hcards, hcm⟩ := hc c rfl
      exact h.card_marked hi hm hp hr hcards hcm hs

theorem Inv.write_slowpath_common {mark_card : Option ℕ} (h : Inv NB_SEGMENTS cards s)
    (hi : i ∈ segment_nums NB_SEGMENTS) (hpc : (s.segs i).pc = .running)
    (hk : s.kind obj = .old ∨ IS_OVERFLOW_OBJ s i obj)
    (hc : ∀ c, mark_card = some c → obj_should_use_cards (s.layout obj) = true
      ∧ c ∈ card_indices (s.layout obj))
    (hs : C7.write_slowpath_common s i obj mark_card = .next s') : Inv NB_SEGMENTS cards s' := by
  have hr := is_resetting_of_running hpc
  unfold C7.write_slowpath_common at hs
  by_cases hov : IS_OVERFLOW_OBJ s i obj
  · rw [if_pos hov] at hs
    by_cases hlock : s.write_locks (get_write_lock_idx obj) = 0
    · rw [if_pos hlock] at hs
      exact h.write_slowpath_overflow_obj hi hov hpc hc hs
    · rw [if_neg hlock] at hs
      cases hs
  · have hold := hk.resolve_right hov
    rw [if_neg hov] at hs
    by_cases hlock : s.write_locks (get_write_lock_idx obj) = 0
    · rw [if_pos hlock, Outcome.next.injEq] at hs
      rw [← hs]
      exact h.take_lock hi hold hpc hlock hc
    · rw [if_neg hlock] at hs
      by_cases hown : s.write_locks (get_write_lock_idx obj) = i
      · rw [if_pos hown] at hs
        -- the lock is the segment's own, so the object is in its list
        have hm : obj ∈ remaining (s.segs i) := by
          by_contra hn
          have hlocks := (h.objs obj (by rw [hold]; decide)).locks
          refine hlock (hlocks.free (fun j hj => ?_))
          have hji : j = i := (hlocks.owner j hj).symm.trans hown
          exact hn (hji ▸ hj)
        exact h.write_slowpath_owned hi hm (pending_of_running hpc) hr hc hs
      · rw [if_neg hown] at hs
        cases hs

theorem Inv.stm_write (h : Inv NB_SEGMENTS cards s) (hi : i ∈ segment_nums NB_SEGMENTS)
    (hpc : (s.segs i).pc = .running) (hk : s.kind obj = .old ∨ IS_OVERFLOW_OBJ s i obj)
    (hs : C7.stm_write s i obj = .next s') : Inv NB_SEGMENTS cards s' := by
  unfold C7.stm_write at hs
  by_cases hwb : has_flag s.mem i obj GCFLAG_WRITE_BARRIER = true
  · rw [if_pos hwb] at hs
    exact h.write_slowpath_common hi hpc hk (by simp) hs
  · rw [if_neg hwb, Outcome.next.injEq] at hs
    rw [← hs]
    exact h

theorem get_index_to_card_index_mem {l : Layout} {index : ℕ} (h : index < real_idx_count l) :
    get_index_to_card_index index ∈ card_indices l := by
  rw [mem_card_indices, last_card_index_eq (by omega)]
  unfold get_index_to_card_index CARD_SIZE
  omega

theorem Inv.ne_free_of_visible (h : Inv NB_SEGMENTS cards s)
    (hk : s.kind obj = .old ∨ IS_OVERFLOW_OBJ s i obj) : s.kind obj ≠ .free := by
  rcases hk with hk | hk
  · rw [hk]
    decide
  · rw [(h.lists i).overflow obj hk]
    simp

/-- `GCFLAG_CARDS_SET` is only seen by the segment that has set it. -/
theorem Inv.owned_of_cards_set (h : Inv NB_SEGMENTS cards s) (hi : i ∈ segment_nums NB_SEGMENTS)
    (hk : s.kind obj = .old ∨ IS_OVERFLOW_OBJ s i obj)
    (hset : has_flag s.mem i obj GCFLAG_CARDS_SET = true) :
    obj ∈ remaining (s.segs i) ∨ IS_OVERFLOW_OBJ s i obj := by
  refine hk.imp_left (fun hold => ?_)
  by_contra hn
  rw [mem_segment_nums] at hi
  have hviews := (h.objs obj (by rw [hold]; decide)).views
  have hclean := clean_flags_read.mp (hviews.flags hold i hi.2 hn)
  exact absurd (hset.symm.trans hclean.2) (by decide)

/-- Marking one more card of an object that has some set. -/
theorem Inv.mark_card {c : ℕ} (h : Inv NB_SEGMENTS cards s) (hi : i ∈ segment_nums NB_SEGMENTS)
    (hpc : (s.segs i).pc = .running) (hk : s.kind obj = .old ∨ IS_OVERFLOW_OBJ s i obj)
    (hset : has_flag s.mem i obj GCFLAG_CARDS_SET = true)
    (hc : c ∈ card_indices (s.layout obj)) :
    Inv NB_SEGMENTS cards { s with
      write_locks := Function.update s.write_locks (get_write_lock_idx obj + c) CARD_MARKED } := by
  have hr := is_resetting_of_running hpc
  have hkf := h.ne_free_of_visible hk
  have hobj := h.objs obj hkf
  have hm := h.owned_of_cards_set hi hk hset
  have hcards := hobj.locks.uses i hm hset
  have hbase : Function.update s.write_locks (get_write_lock_idx obj + c) CARD_MARKED
      (get_write_lock_idx obj) = s.write_locks (get_write_lock_idx obj) :=
    Function.update_of_ne (Ne.symm (card_ne_base hc)) _ _
  refine h.touch hi hkf rfl rfl (fun _ _ => rfl) (WritesOnly.refl _) ?_
    (fun _ _ => SameLists.refl _ _) (h.lists i) ?_
  · intro x hx
    apply Function.update_of_ne
    rintro rfl
    exact hx (lock_of_card hcards hc)
  · rcases hm with hm | hov
    · refine h.objInv_modified hm (pending_of_running hpc obj) rfl (fun _ _ => rfl)
        (WritesOnly.refl _) hbase hm rfl (fun _ => hcards) ?_
      intro hc' _
      refine (hobj.marks hc' hcards i hm).mono rfl (fun _ _ => rfl) rfl (fun _ _ => rfl)
        (fun hwb => hwb) ?_ (fun hw => hw)
      intro d _ hne
      dsimp only
      by_cases hd : d = c
      · rw [hd, Function.update_self]
        decide
      · rw [Function.update_of_ne (by omega)]
        exact hne
    · refine h.objInv_overflow (.inl ((h.lists i).overflow obj hov)) rfl (fun _ _ => rfl) rfl ?_
        hbase ?_ ?_ (fun _ _ => hcards) ?_
      · rw [hpc]
        decide
      · exact fun _ hf => absurd (hset.symm.trans (hf hov)) (by decide)
      · exact fun ho hf => hobj.locks.listed i ho hf
      · intro ho _ d hd
        dsimp only
        by_cases hdc : d = c
        · rw [hdc, Function.update_self]
          exact .inr rfl
        · rw [Function.update_of_ne (by omega)]
          exact hobj.locks.overflow_cards i ho hcards d hd

theorem Inv.stm_write_card {index : ℕ} (h : Inv NB_SEGMENTS cards s)
    (hi : i ∈ segment_nums NB_SEGMENTS) (hpc : (s.segs i).pc = .running)
    (hk : s.kind obj = .old ∨ IS_OVERFLOW_OBJ s i obj)
    (hidx : obj_should_use_cards (s.layout obj) = true → index < real_idx_count (s.layout obj))
    (hs : C7.stm_write_card s i obj index = .next s') : Inv NB_SEGMENTS cards s' := by
  unfold C7.stm_write_card at hs
  by_cases hwb : has_flag s.mem i obj GCFLAG_WRITE_BARRIER = true
  · by_cases hset : has_flag s.mem i obj GCFLAG_CARDS_SET = true
    · simp only [if_pos hwb, if_pos hset, Outcome.next.injEq] at hs
      rw [← hs]
      have hcards := (h.objs obj (h.ne_free_of_visible hk)).locks.uses i
        (h.owned_of_cards_set hi hk hset) hset
      exact h.mark_card hi hpc hk hset (get_index_to_card_index_mem (hidx hcards))
    · simp only [if_pos hwb, if_neg hset] at hs
      refine h.write_slowpath_common hi hpc hk ?_ hs
      intro c hc
      by_cases hcards : obj_should_use_cards (s.layout obj) = true
      · rw [if_pos hcards, Option.some.injEq] at hc
        rw [← hc]
        exact ⟨hcards, get_index_to_card_index_mem (hidx hcards)⟩
      · rw [if_neg hcards] at hc
        cases hc
  · simp only [if_neg hwb, Outcome.next.injEq] at hs
    rw [← hs]
    exact h

/-! ## Stores -/

/-- The segment has written to some bytes of its own new object, but not to
its flags. -/
theorem Inv.write_new_object {m : Memory} (h : Inv NB_SEGMENTS cards s)
    (hi : i ∈ segment_nums NB_SEGMENTS) (hk : s.kind obj = .overflow i ∨ s.kind obj = .young i)
    (hpc : (s.segs i).pc.is_resetting = false ∧ (s.segs i).pc ≠ .pushed)
    (hmem : WritesOnly i obj (s.layout obj).size s.mem m)
    (hflags : read m i obj &&& GCFLAG_CARDS_SET = read s.mem i obj &&& GCFLAG_CARDS_SET) :
    Inv NB_SEGMENTS cards { s with mem := m } := by
  have hkf : s.kind obj ≠ .free := by
    rcases hk with hk | hk <;> rw [hk] <;> simp
  have hobj := h.objs obj hkf
  have hflag : has_flag m i obj GCFLAG_CARDS_SET = has_flag s.mem i obj GCFLAG_CARDS_SET := by
    rw [has_flag, hflags, has_flag]
  refine h.touch hi hkf rfl rfl (fun _ _ => rfl) hmem (fun _ _ => rfl)
    (fun _ _ => SameLists.refl _ _) (h.lists i) ?_
  refine h.objInv_overflow hk rfl (fun _ _ => rfl) rfl hpc rfl ?_ ?_ ?_
    (fun ho => hobj.locks.overflow_cards i ho)
  · intro hc hf
    refine hobj.locks.cards_clear hc ?_ ?_
    · intro j hj
      have hold := h.old_of_remaining hj
      rcases hk with hk | hk <;> rw [hk] at hold <;> cases hold
    · intro j hj
      have hkj := (h.lists j).overflow obj hj
      rcases hk with hk | hk
      · rw [hk, Kind.overflow.injEq] at hkj
        subst hkj
        rw [← hflag]
        exact .inr (hf hj)
      · rw [hk] at hkj
        cases hkj
  · intro ho hf
    dsimp only at hf
    rw [hflag] at hf
    exact hobj.locks.listed i ho hf
  · intro ho hf
    dsimp only at hf
    rw [hflag] at hf
    exact hobj.locks.uses i (.inr ho) hf

/-- A write barrier flag is only cleared by the segment that owns the
object. -/
theorem Inv.owned_of_not_write_barrier (h : Inv NB_SEGMENTS cards s)
    (hi : i ∈ segment_nums NB_SEGMENTS) (hold : s.kind obj = .old)
    (hwb : has_flag s.mem i obj GCFLAG_WRITE_BARRIER = false) : obj ∈ remaining (s.segs i) := by
  by_contra hn
  rw [mem_segment_nums] at hi
  have hviews := (h.objs obj (by rw [hold]; decide)).views
  have hclean := clean_flags_read.mp (hviews.flags hold i hi.2 hn)
  exact absurd (hclean.1.symm.trans hwb) (by decide)

/-- The segment has written to some bytes of an object that it modifies, but
not to its flags, and in agreement with the barriers. -/
theorem Inv.write_modified_object {m : Memory} (h : Inv NB_SEGMENTS cards s)
    (hi : i ∈ segment_nums NB_SEGMENTS) (hm : obj ∈ remaining (s.segs i))
    (hp : pending (s.segs i) obj = []) (hmem : WritesOnly i obj (s.layout obj).size s.mem m)
    (hflags : read m i obj = read s.mem i obj)
    (hallowed : has_flag s.mem i obj GCFLAG_WRITE_BARRIER = true → ∀ a,
      read m i a ≠ read s.mem i a → card_is_marked s obj (a - obj)) :
    Inv NB_SEGMENTS cards { s with mem := m } := by
  have hflag : ∀ f, has_flag m i obj f = has_flag s.mem i obj f := by
    intro f
    rw [has_flag, hflags, has_flag]
  refine h.touch hi (h.kind_ne_free hm) rfl rfl (fun _ _ => rfl) hmem (fun _ _ => rfl)
    (fun _ _ => SameLists.refl _ _) (h.lists i) ?_
  refine h.objInv_modified hm hp rfl (fun _ _ => rfl) hmem rfl hm rfl ?_ ?_
  · intro hf
    dsimp only at hf
    rw [hflag] at hf
    exact h.uses_cards hm hf
  · intro hc hcards
    have hmark := (h.objs obj (h.kind_ne_free hm)).marks hc hcards i hm
    have h0 : ∀ a, in_object s obj a → read m 0 a = read s.mem 0 a := fun a ha =>
      hmem.private_pages 0 a (Ne.symm (h.ne_zero hm)) (h.private_of_remaining hm hp ha)
    refine ⟨?_, ?_⟩
    · dsimp only
      rw [hflags, h0 obj (in_object_self s obj)]
      exact hmark.flags
    · rcases hmark.marked with hw | hall | ⟨hwb, hd⟩
      · exact .inl hw
      · exact .inr (.inl hall)
      · refine .inr (.inr ⟨by rw [hflag]; exact hwb, fun a ha hao hne => ?_⟩)
        by_cases hch : read m i a = read s.mem i a
        · dsimp only at hne
          rw [hch, h0 a ha] at hne
          exact hd a ha hao hne
        · obtain ⟨c, hcm, hval, hin⟩ := hallowed hwb a hch
          refine ⟨c, hcm, ?_, hin⟩
          dsimp only
          rw [hval]
          decide

theorem Inv.store {off : ℕ} {b : UInt8} (h : Inv NB_SEGMENTS cards s)
    (hi : i ∈ segment_nums NB_SEGMENTS) (hpc : (s.segs i).pc = .running)
    (hst : may_store s i obj off) :
    Inv NB_SEGMENTS cards { s with mem := write s.mem i (obj + off) b } := by
  obtain ⟨hoff, hsize, hk⟩ := hst
  have hmem : WritesOnly i obj (s.layout obj).size s.mem (write s.mem i (obj + off) b) :=
    WritesOnly.write b (by omega)
  have hflags : read (write s.mem i (obj + off) b) i obj = read s.mem i obj :=
    read_write_of_ne (by omega)
  have hnew : s.kind obj = .overflow i ∨ s.kind obj = .young i →
      Inv NB_SEGMENTS cards { s with mem := write s.mem i (obj + off) b } := fun hk =>
    h.write_new_object hi hk (by rw [hpc]; decide) hmem (by rw [hflags])
  rcases hk with hk | hk | ⟨hold, hbar⟩
  · exact hnew (.inr hk)
  · exact hnew (.inl hk)
  · have hm : obj ∈ remaining (s.segs i) := by
      rcases hbar with hwb | ⟨hset, -, hmarked⟩
      · exact h.owned_of_not_write_barrier hi hold hwb
      · refine (h.owned_of_cards_set hi (.inl hold) hset).resolve_right (fun hov => ?_)
        have hkov := (h.lists i).overflow obj hov
        rw [hold] at hkov
        cases hkov
    refine h.write_modified_object hi hm (pending_of_running hpc obj) hmem hflags ?_
    intro hwb a hne
    have hao : a = obj + off := by
      by_contra hao
      exact hne (read_write_of_ne hao)
    rcases hbar with hnwb | ⟨-, -, hmarked⟩
    · exact absurd (hwb.symm.trans hnwb) (by decide)
    · rw [hao, Nat.add_sub_cancel_left]
      exact hmarked

/-! ## New objects -/

theorem is_fresh.apart {l : Layout} (hfresh : is_fresh s obj l)
    {o : ℕ} (ho : s.kind o ≠ .free) : o + (s.layout o).size ≤ obj ∨ obj + l.size ≤ o := by
  by_cases hlt : o < obj + l.size
  · exact .inl (hfresh o hlt ho)
  · exact .inr (by omega)

/-- The lock bytes of unused memory are zero. -/
theorem Inv.lock_eq_zero {l : Layout} {x : ℕ} (h : Inv NB_SEGMENTS cards s)
    (hfresh : is_fresh s obj l) (hx : lock_of obj l x) :
    s.write_locks x = 0 := by
  by_contra hne
  obtain ⟨o, ho, hxo⟩ := h.locks_used x hne
  exact lock_of_apart (hfresh.apart ho) hxo hx

theorem ListInv.allocate {seg : Segment} {l : Layout} {k : Kind}
    (h : ListInv s.kind s.layout seg i) (hfree : s.kind obj = .free) :
    ListInv (Function.update s.kind obj k) (Function.update s.layout obj l) seg i := by
  refine h.mono ?_ ?_
  · intro o ho
    apply Function.update_of_ne
    rintro rfl
    rw [hfree] at ho
    simp at ho
  · intro o ho
    apply Function.update_of_ne
    rintro rfl
    rw [hfree] at ho
    cases ho

/-- A new object, in memory that no object used. -/
theorem Inv.allocate {l : Layout} {k : Kind} {m : Memory} {seg' : Segment}
    (h : Inv NB_SEGMENTS cards s) (hi : i ∈ segment_nums NB_SEGMENTS) (hfree : s.kind obj = .free)
    (hfresh : is_fresh s obj l) (hmapping : m.pages_privatized = s.mem.pages_privatized)
    (houtside : ∀ j a, ¬ (obj ≤ a ∧ a < obj + l.size) → read m j a = read s.mem j a)
    (hsame : ∀ o, o ≠ obj → SameLists o (s.segs i) seg')
    (hmod : seg'.modified_old_objects = (s.segs i).modified_old_objects)
    (hov : seg'.large_overflow_objects = (s.segs i).large_overflow_objects)
    (hl : ListInv (Function.update s.kind obj k) (Function.update s.layout obj l) seg' i)
    (hold : k = .old → ∀ j ≤ NB_SEGMENTS, clean_flags (read m j obj) ∧
      ∀ a, obj ≤ a ∧ a < obj + l.size → read m j a = read m 0 a) :
    Inv NB_SEGMENTS cards { (s.allocate obj l k).set i seg' with mem := m } := by
  have hlist : ∀ j, ListInv (Function.update s.kind obj k) (Function.update s.layout obj l)
      (((s.allocate obj l k).set i seg').segs j) j := by
    intro j
    by_cases hj : j = i
    · rw [hj, set_segs_self]
      exact hl
    · rw [set_segs_of_ne _ hj]
      exact (h.lists j).allocate hfree
  have hnmod : ∀ j, obj ∉ (((s.allocate obj l k).set i seg').segs j).modified_old_objects := by
    intro j hj
    have hmj : obj ∈ (s.segs j).modified_old_objects := by
      by_cases hji : j = i
      · rw [hji, set_segs_self, hmod] at hj
        rw [hji]
        exact hj
      · rwa [set_segs_of_ne _ hji] at hj
    have hold := h.old_of_modified hmj
    rw [hfree] at hold
    cases hold
  have hnov : ∀ j, obj ∉ (((s.allocate obj l k).set i seg').segs j).large_overflow_objects := by
    intro j hj
    have hmj : obj ∈ (s.segs j).large_overflow_objects := by
      by_cases hji : j = i
      · rw [hji, set_segs_self, hov] at hj
        rw [hji]
        exact hj
      · rwa [set_segs_of_ne _ hji] at hj
    have hkj := (h.lists j).overflow obj hmj
    rw [hfree] at hkj
    cases hkj
  have hkind : ∀ o, o ≠ obj → Function.update s.kind obj k o = s.kind o :=
    fun o ho => Function.update_of_ne ho _ _
  have hlay : ∀ o, o ≠ obj → Function.update s.layout obj l o = s.layout o :=
    fun o ho => Function.update_of_ne ho _ _
  refine ⟨?_, ?_, ?_, hlist, ?_⟩
  · intro o o' ho ho' hlt
    dsimp only [St.set, St.allocate] at ho ho' ⊢
    by_cases hoo : o = obj
    · have ho'o : o' ≠ obj := by omega
      rw [hkind o' ho'o] at ho'
      rw [hoo, Function.update_self]
      rcases hfresh.apart ho' with hle | hle
      · omega
      · exact hle
    · rw [hkind o hoo] at ho
      rw [hlay o hoo]
      by_cases ho'o : o' = obj
      · rcases hfresh.apart ho with hle | hle
        · omega
        · have := l.size_pos
          omega
      · rw [hkind o' ho'o] at ho'
        exact h.apart o o' ho ho' hlt
  · intro x hx
    obtain ⟨o, ho, hxo⟩ := h.locks_used x hx
    have hne : o ≠ obj := by
      rintro rfl
      exact ho hfree
    refine ⟨o, ?_, ?_⟩
    · dsimp only [St.set, St.allocate]
      rw [hkind o hne]
      exact ho
    · dsimp only [St.set, St.allocate]
      rw [hlay o hne]
      exact hxo
  · intro j hj
    have hji : j ≠ i := fun hji => hj (hji ▸ hi)
    exact (set_segs_of_ne _ hji).trans (h.absent j hj)
  · intro o ho
    by_cases hne : o = obj
    · subst hne
      have hself : ((s.allocate o l k).set i seg').layout o = l := Function.update_self _ _ _
      have hnrem : ∀ j, o ∉ remaining (((s.allocate o l k).set i seg').segs j) :=
        fun j hj => hnmod j (mem_of_remaining hj)
      refine ⟨⟨?_, ?_, ?_, ?_, ?_, ?_⟩, ⟨?_, ?_, ?_, ?_⟩, ?_⟩
      · exact fun j hj => absurd hj (hnrem j)
      · exact fun _ => h.lock_eq_zero hfresh (lock_of_base o l)
      · intro hc _ _ c hcm
        dsimp only at hc hcm
        rw [hself] at hc hcm
        exact h.lock_eq_zero hfresh (lock_of_card hc hcm)
      · exact fun j hj => absurd hj (hnov j)
      · exact fun j hj => hj.elim (fun hm => absurd hm (hnrem j)) (fun hm => absurd hm (hnov j))
      · exact fun j hj => absurd hj (hnov j)
      · exact fun j hj => absurd hj (hnrem j)
      · intro hk j hj _
        exact (hold ((Function.update_self _ _ _).symm.trans hk) j hj).1
      · intro hk _ j hj _ a ha
        unfold in_object at ha
        dsimp only at ha
        rw [hself] at ha
        exact (hold ((Function.update_self _ _ _).symm.trans hk) j hj).2 a ha
      · exact fun j _ hj => absurd hj (hnov j)
      · exact fun _ _ j hj => absurd hj (hnrem j)
    · have ho' : s.kind o ≠ .free := by
        dsimp only [St.set, St.allocate] at ho
        rwa [hkind o hne] at ho
      refine (h.objs o ho').same ⟨hkind o hne, hlay o hne, ?_, ?_, fun _ _ => rfl, ?_⟩
      · intro j a ha
        apply houtside
        have hapart := hfresh.apart ho'
        unfold in_object at ha
        omega
      · intro j _ p _ hp
        unfold is_private_page at hp ⊢
        rw [hmapping]
        exact hp
      · intro j
        by_cases hj : j = i
        · rw [hj]
          dsimp only
          rw [set_segs_self]
          exact hsame o hne
        · dsimp only
          rw [set_segs_of_ne _ hj]
          exact SameLists.refl _ _

theorem Inv.allocate_external {l : Layout} (h : Inv NB_SEGMENTS cards s)
    (hi : i ∈ segment_nums NB_SEGMENTS) (hpc : (s.segs i).pc = .running)
    (hfree : s.kind obj = .free) (hfresh : is_fresh s obj l) :
    Inv NB_SEGMENTS cards { (s.allocate obj l (.young i)).set i { s.segs i with
        young_outside_nursery := obj :: (s.segs i).young_outside_nursery } with
      mem := write_range s.mem i (in_range obj l.size) (fun _ => 0) } := by
  have hmem : WritesOnly i obj l.size s.mem (write_range s.mem i (in_range obj l.size)
      (fun _ => 0)) := WritesOnly.write_range _ (fun a ha => in_range_iff.mp ha)
  have hr := is_resetting_of_running hpc
  refine h.allocate hi hfree hfresh hmem.mapping hmem.outside ?_ rfl rfl ?_ (by simp)
  · intro o _
    exact SameLists.of_lists hr hr Iff.rfl rfl rfl (fun hc => hc) (fun hw => hw) (fun hp => hp)
  · have hl := (h.lists i).allocate (l := l) (k := .young i) hfree
    refine { hl with young := ?_ }
    intro o ho
    rcases List.mem_cons.mp ho with rfl | ho
    · exact Function.update_self _ _ _
    · exact hl.young o ho

/-! ## Writes through all segments -/

section

variable {range : ℕ → Bool} {val : ℕ → UInt8} {j a : ℕ}

theorem read_foldl_write_range_of_false (lst : List ℕ) (h : range a = false) :
    read (lst.foldl (fun m i => write_range m i range val) m) j a = read m j a := by
  induction lst generalizing m with
  | nil => rfl
  | cons i lst ih =>
      rw [List.foldl_cons, ih]
      exact read_write_range_of_false h

theorem read_foldl_write_range {lst : List ℕ} (h : range a = true)
    (hj : j ∈ lst ∨ read m j a = val a) :
    read (lst.foldl (fun m i => write_range m i range val) m) j a = val a := by
  induction lst generalizing m with
  | nil => exact hj.resolve_left (by simp)
  | cons i lst ih =>
      rw [List.foldl_cons]
      apply ih
      rw [List.mem_cons] at hj
      -- a later write through another segment stores the same byte
      have hw : j = i ∨ read m j a = val a → read (write_range m i range val) j a = val a := by
        intro hor
        rw [read_write_range]
        by_cases hc : range a = true ∧ (j = i ∨ is_private_page m i (a / 4096) = false
            ∧ is_private_page m j (a / 4096) = false)
        · rw [if_pos hc]
        · rw [if_neg hc]
          refine hor.resolve_left (fun hji => hc ⟨h, .inl hji⟩)
      tauto

theorem read_write_all_segments (hj : j ≤ NB_SEGMENTS) (h : range a = true) :
    read (write_all_segments NB_SEGMENTS m range val) j a = val a :=
  read_foldl_write_range h (.inl (List.mem_range.mpr (by omega)))

theorem read_write_all_segments_of_false (h : range a = false) :
    read (write_all_segments NB_SEGMENTS m range val) j a = read m j a :=
  read_foldl_write_range_of_false _ h

theorem pages_privatized_write_all_segments :
    (write_all_segments NB_SEGMENTS m range val).pages_privatized = m.pages_privatized := by
  unfold write_all_segments
  generalize List.range (NB_SEGMENTS + 1) = lst
  induction lst generalizing m with
  | nil => rfl
  | cons i lst ih => exact ih

end

/-- A new entry of a hashtable. -/
theorem Inv.hashtable_entry {l : Layout} {val : ℕ → UInt8} (h : Inv NB_SEGMENTS cards s)
    (hi : i ∈ segment_nums NB_SEGMENTS) (hfree : s.kind obj = .free) (hfresh : is_fresh s obj l)
    (hval : val obj = GCFLAG_WRITE_BARRIER) :
    Inv NB_SEGMENTS cards { s.allocate obj l .old with
      mem := write_all_segments NB_SEGMENTS s.mem (in_range obj l.size) val } := by
  have hsize := l.size_pos
  have hset : (s.allocate obj l .old).set i (s.segs i) = s.allocate obj l .old := by
    simp [St.set, St.allocate]
  rw [← hset]
  refine h.allocate hi hfree hfresh pages_privatized_write_all_segments ?_
    (fun _ _ => SameLists.refl _ _) rfl rfl ((h.lists i).allocate hfree) ?_
  · intro j a ha
    apply read_write_all_segments_of_false
    rw [← Bool.not_eq_true, in_range_iff]
    exact ha
  · intro _ j hj
    refine ⟨?_, fun a ha => ?_⟩
    · rw [read_write_all_segments hj (in_range_iff.mpr (by omega)), hval]
      unfold clean_flags
      decide
    · rw [read_write_all_segments hj (in_range_iff.mpr ha),
        read_write_all_segments (Nat.zero_le _) (in_range_iff.mpr ha)]

theorem Inv.set_weakref_in_all_segments {val : ℕ → UInt8} (h : Inv NB_SEGMENTS cards s)
    (hk : s.kind obj ≠ .free) (hsize : (s.layout obj).size = 16) :
    Inv NB_SEGMENTS cards { s with
      mem := write_all_segments NB_SEGMENTS s.mem (in_range (obj + 8) 8) val } := by
  have houtside : ∀ j a, ¬ (obj + 8 ≤ a ∧ a < obj + 8 + 8) →
      read (write_all_segments NB_SEGMENTS s.mem (in_range (obj + 8) 8) val) j a
        = read s.mem j a := by
    intro j a ha
    apply read_write_all_segments_of_false
    rw [← Bool.not_eq_true, in_range_iff]
    exact ha
  have hpriv : ∀ j p, is_private_page (write_all_segments NB_SEGMENTS s.mem
      (in_range (obj + 8) 8) val) j p = is_private_page s.mem j p := by
    intro j p
    rw [is_private_page, pages_privatized_write_all_segments, is_private_page]
  refine ⟨h.apart, h.locks_used, h.absent, h.lists, fun o ho => ?_⟩
  by_cases hne : o = obj
  · subst hne
    have hobj := h.objs o hk
    have hnc : obj_should_use_cards (s.layout o) = false := by
      rw [obj_should_use_cards, hsize]
      simp [STM_MIN_CARD_OBJ_SIZE, CARD_SIZE, STM_MIN_CARD_COUNT]
    have hfl : ∀ j, read (write_all_segments NB_SEGMENTS s.mem (in_range (o + 8) 8) val) j o
        = read s.mem j o := fun j => houtside j o (by omega)
    have hflag : ∀ j f, has_flag (write_all_segments NB_SEGMENTS s.mem (in_range (o + 8) 8) val)
        j o f = has_flag s.mem j o f := by
      intro j f
      rw [has_flag, hfl, has_flag]
    -- all segments see the same new bytes
    have hview : ∀ j ≤ NB_SEGMENTS, ∀ k ≤ NB_SEGMENTS, ∀ a,
        read s.mem j a = read s.mem k a →
        read (write_all_segments NB_SEGMENTS s.mem (in_range (o + 8) 8) val) j a
          = read (write_all_segments NB_SEGMENTS s.mem (in_range (o + 8) 8) val) k a := by
      intro j hj k hk a heq
      by_cases ha : o + 8 ≤ a ∧ a < o + 8 + 8
      · rw [read_write_all_segments hj (in_range_iff.mpr ha),
          read_write_all_segments hk (in_range_iff.mpr ha)]
      · rw [houtside j a ha, houtside k a ha, heq]
    refine ⟨⟨hobj.locks.owner, hobj.locks.free, ?_, ?_, ?_, hobj.locks.overflow_cards⟩, ⟨?_, ?_, ?_, ?_⟩, ?_⟩
    · intro hc
      exact absurd (hc.symm.trans hnc) (by decide)
    · intro j hj hf
      exact hobj.locks.listed j hj ((hflag j _).symm.trans hf)
    · intro j hj hf
      exact hobj.locks.uses j hj ((hflag j _).symm.trans hf)
    · intro j hj p hp hnp
      rw [hpriv]
      exact hobj.views.private_pages j hj p hp hnp
    · intro hold j hj hn
      dsimp only
      rw [hfl]
      exact hobj.views.flags hold j hj hn
    · intro hold hc j hj hn a ha
      exact hview j hj 0 (Nat.zero_le _) a (hobj.views.coherent hold hc j hj hn a ha)
    · intro j hpc hj
      obtain ⟨hclean, heq⟩ := hobj.views.pushed j hpc hj
      have hjle : j ≤ NB_SEGMENTS := by
        by_contra hn
        rw [h.absent j (by rw [mem_segment_nums]; omega)] at hpc
        cases hpc
      refine ⟨?_, fun k hk a ha => hview k hk j hjle a (heq k hk a ha)⟩
      dsimp only
      rw [hfl]
      exact hclean
    · intro _ hc
      exact absurd (hc.symm.trans hnc) (by decide)
  · refine (h.objs o ho).same ⟨rfl, rfl, ?_, ?_, fun _ _ => rfl, fun _ => SameLists.refl _ _⟩
    · intro j a ha
      apply houtside
      have hdis := h.disjoint ho hk hne
      unfold in_object at ha
      omega
    · intro j _ p _ hp
      rw [hpriv]
      exact hp

/-- `largemalloc.c` writes where no object is. -/
theorem Inv.largemalloc_write {a : ℕ} {b : UInt8} (h : Inv NB_SEGMENTS cards s)
    (ha : is_unused s a) : Inv NB_SEGMENTS cards { s with mem := write s.mem 0 a b } where
  apart := h.apart
  locks_used := h.locks_used
  absent := h.absent
  lists := h.lists
  objs o ho := (h.objs o ho).same
    { kind := rfl
      layout := rfl
      views := fun j x hx => by
        apply read_write_of_ne
        rintro rfl
        unfold in_object at hx
        have hend := ha o (by omega) ho
        omega
      private_pages := fun _ _ _ _ hp => hp
      locks := fun _ _ => rfl
      lists := fun _ => SameLists.refl _ _ }

end

end Stmgc.C7
