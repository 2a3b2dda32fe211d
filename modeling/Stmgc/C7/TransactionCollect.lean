/-
Minor collections keep the invariant of the machine of `Transaction`.
-/
import Stmgc.C7.TransactionSteps

namespace Stmgc.C7

open Stmgc.Lib

section

variable {NB_SEGMENTS : ℕ} {cards : Bool} {s s' : St} {i obj : ℕ} {m : Memory}

theorem is_resetting_of_collecting {pc : Pc} (h : pc.collecting = true) :
    pc.is_resetting = false := by
  cases pc <;> simp_all [Pc.collecting, Pc.is_resetting]

theorem ne_pushed_of_collecting {pc : Pc} (h : pc.collecting = true) : pc ≠ .pushed := by
  rintro rfl
  simp [Pc.collecting] at h

theorem pending_of_collecting {seg : Segment} (h : seg.pc.collecting = true) (o : ℕ) :
    pending seg o = [] := by
  unfold pending
  split
  · rename_i hpc
    rw [hpc] at h
    cases h
  · rfl

/-- A change of lists, outside of privatizations, aborts and pushes. -/
theorem SegmentStep.of_lists {seg' : Segment} (hr : (s.segs i).pc.is_resetting = false)
    (hr' : seg'.pc.is_resetting = false) (hp : ∀ o, C7.pending (s.segs i) o = [])
    (hmod : seg'.modified_old_objects = (s.segs i).modified_old_objects)
    (hov : seg'.large_overflow_objects = (s.segs i).large_overflow_objects)
    (hcards : ∀ o ∈ (s.segs i).old_objects_with_cards, o ∈ seg'.old_objects_with_cards ∨
      has_flag s.mem i o GCFLAG_CARDS_SET = false)
    (hw : seg'.written = (s.segs i).written)
    (hpushed : seg'.pc = .pushed → (s.segs i).pc = .pushed) : SegmentStep NB_SEGMENTS s i seg' where
  remaining o := by
    rw [remaining_eq hr', remaining_eq hr, hmod]
  pending o p hpp := by
    rw [hp o] at hpp
    simp at hpp
  overflow := hov
  cards := hcards
  written o ho := by
    rw [hw]
    exact ho
  pushed hp := .inl (hpushed hp)
  resetting h := absurd (h.symm.trans hr') (by decide)

theorem Inv.minor_collection (h : Inv NB_SEGMENTS cards s) (hi : i ∈ segment_nums NB_SEGMENTS)
    (hpc : (s.segs i).pc = .running) (commit : Bool) :
    Inv NB_SEGMENTS cards (C7.minor_collection s i commit) := by
  have hl := h.lists i
  have hr := is_resetting_of_running hpc
  unfold C7.minor_collection
  refine h.set_seg hi (SegmentStep.of_lists hr rfl (pending_of_running hpc) rfl rfl
    (fun o ho => .inl ho) rfl (by simp)) ?_
  have hgoto := hl.goto (.collect_cardrefs commit (s.segs i).objects_pointing_to_nursery.isNone)
    hr (by simp) (by simp)
  refine { hgoto with pointing := ?_, moved := ?_ }
  · rw [Option.getD_some]
    exact hgoto.pointing
  · rw [Option.getD_some]
    exact hgoto.moved

/-! ## Survivors -/

/-- A new item of `objects_pointing_to_nursery` that is to be aged. -/
theorem ListInv.append_moved {kind : ℕ → Kind} {layout : ℕ → Layout} {seg : Segment}
    (h : ListInv kind layout seg i) (hk : kind obj = .overflow i)
    (hov : obj ∉ seg.large_overflow_objects)
    (hnew : (obj, true) ∉ seg.objects_pointing_to_nursery.getD []) :
    ListInv kind layout { seg with
      objects_pointing_to_nursery :=
        seg.objects_pointing_to_nursery.map (fun lst => list_append lst (obj, true)) } i := by
  cases hopn : seg.objects_pointing_to_nursery with
  | none =>
      have hseg : { seg with objects_pointing_to_nursery := none } = seg := by
        rw [← hopn]
      rw [Option.map_none, hseg]
      exact h
  | some lst =>
      rw [hopn, Option.getD_some] at hnew
      refine { h with pointing := ?_, moved := ?_ }
      · intro hr e he
        rw [Option.map_some, Option.getD_some, mem_list_append] at he
        rcases he with he | rfl
        · exact h.pointing hr e (by rw [hopn]; exact he)
        · exact .inr ⟨rfl, hk, hov⟩
      · have hmoved := h.moved
        rw [hopn, Option.getD_some] at hmoved
        rw [Option.map_some, Option.getD_some, list_append, List.filter_append]
        rw [List.nodup_append]
        refine ⟨hmoved, by simp, ?_⟩
        intro e he e' he' heq
        rw [List.filter_cons_of_pos rfl, List.filter_nil, List.mem_singleton] at he'
        rw [heq, he'] at he
        exact hnew (List.mem_of_mem_filter he)

theorem Inv.evacuate {l : Layout} {val : ℕ → UInt8} (h : Inv NB_SEGMENTS cards s)
    (hi : i ∈ segment_nums NB_SEGMENTS) (hpc : (s.segs i).pc.collecting = true)
    (hfree : s.kind obj = .free) (hfresh : is_fresh s obj l) :
    Inv NB_SEGMENTS cards (C7.evacuate s i obj l val) := by
  have hmem : WritesOnly i obj l.size s.mem (write_range s.mem i (in_range obj l.size) val) :=
    WritesOnly.write_range _ (fun a ha => in_range_iff.mp ha)
  have hr := is_resetting_of_collecting hpc
  unfold C7.evacuate
  refine h.allocate hi hfree hfresh hmem.mapping hmem.outside ?_ rfl rfl ?_ (by simp)
  · intro o _
    exact SameLists.of_lists hr hr Iff.rfl rfl rfl (fun hc => hc) (fun hw => hw) (fun hp => hp)
  · have hl := h.lists i
    -- the address was free, so it is in no list
    have hov : obj ∉ (s.segs i).large_overflow_objects := by
      intro hov
      have hk := hl.overflow obj hov
      rw [hfree] at hk
      cases hk
    have hnew : (obj, true) ∉ (s.segs i).objects_pointing_to_nursery.getD [] := by
      intro hmem
      rcases hl.pointing hr _ hmem with ⟨hf, -⟩ | ⟨-, hk, -⟩
      · cases hf
      · rw [hfree] at hk
        cases hk
    exact (hl.allocate (l := l) (k := .overflow i) hfree).append_moved (Function.update_self _ _ _)
      hov hnew

/-- A change of the kinds of some objects of the acting segment. -/
theorem Inv.set_kind {kind : ℕ → Kind} {seg' : Segment} (h : Inv NB_SEGMENTS cards s)
    (hi : i ∈ segment_nums NB_SEGMENTS) (hstep : SegmentStep NB_SEGMENTS s i seg')
    (hfree : ∀ o, kind o ≠ .free → s.kind o ≠ .free)
    (hold : ∀ o, kind o = .old → s.kind o = .old)
    (hothers : ∀ o, s.kind o ≠ .overflow i → s.kind o ≠ .young i → kind o = s.kind o)
    (hlocks : ∀ o, s.kind o ≠ .free → kind o = .free → ∀ x, lock_of o (s.layout o) x →
      s.write_locks x = 0)
    (hl : ListInv kind s.layout seg' i) :
    Inv NB_SEGMENTS cards { s.set i seg' with kind := kind } where
  apart o o' ho ho' hlt := h.apart o o' (hfree o ho) (hfree o' ho') hlt
  locks_used x hx := by
    obtain ⟨o, ho, hxo⟩ := h.locks_used x hx
    refine ⟨o, fun hf => ?_, hxo⟩
    exact hx (hlocks o ho hf x hxo)
  absent j hj := by
    have hji : j ≠ i := fun hji => hj (hji ▸ hi)
    exact (set_segs_of_ne _ hji).trans (h.absent j hj)
  lists j := by
    by_cases hj : j = i
    · rw [hj]
      dsimp only
      rw [set_segs_self]
      exact hl
    · dsimp only
      rw [set_segs_of_ne _ hj]
      refine (h.lists j).mono (fun o ho => ?_) (fun _ _ => rfl)
      have hne : s.kind o ≠ .overflow i ∧ s.kind o ≠ .young i := by
        rcases ho with ho | ho | ho <;> rw [ho] <;> simp [hj]
      exact hothers o hne.1 hne.2
  objs o ho := by
    have hobj := (h.objs o (hfree o ho)).set_seg hstep
    exact ⟨⟨hobj.locks.owner, hobj.locks.free, hobj.locks.cards_clear, hobj.locks.listed,
        hobj.locks.uses, hobj.locks.overflow_cards⟩,
      ⟨hobj.views.private_pages, fun hk => hobj.views.flags (hold o hk),
        fun hk => hobj.views.coherent (hold o hk), hobj.views.pushed⟩,
      fun hc hcards j hj => ⟨(hobj.marks hc hcards j hj).flags, (hobj.marks hc hcards j hj).marked⟩⟩

/-- The overflow number is not among the other flags. -/
theorem or_overflow_number_cards_set {n : ℕ} (hn : GCFLAG_OVERFLOW_NUMBER_bit0 ∣ n) (obj : ℕ)
    (val : ℕ → UInt8) : or_overflow_number n obj val obj &&& GCFLAG_CARDS_SET
      = val obj &&& GCFLAG_CARDS_SET := by
  have hbyte : byte_of n 0 &&& GCFLAG_CARDS_SET = 0 := by
    obtain ⟨k, rfl⟩ := hn
    have hmod : UInt8.ofNat (GCFLAG_OVERFLOW_NUMBER_bit0 * k)
        = UInt8.ofNat (GCFLAG_OVERFLOW_NUMBER_bit0 * (k % 16)) := by
      rw [← UInt8.toNat_inj, UInt8.toNat_ofNat', UInt8.toNat_ofNat']
      unfold GCFLAG_OVERFLOW_NUMBER_bit0
      omega
    rw [byte_of, pow_zero, Nat.div_one, hmod]
    have hlt := Nat.mod_lt k (show 0 < 16 by decide)
    generalize k % 16 = j at hlt
    revert j
    decide
  have hdistrib : ∀ a b c : UInt8, (a ||| b) &&& c = (a &&& c) ||| (b &&& c) := by
    intro a b c
    rw [← UInt8.toBitVec_inj]
    ext j hj
    simp [Bool.and_or_distrib_right]
  rw [or_overflow_number, if_pos (by omega), Nat.sub_self, hdistrib, hbyte]
  exact UInt8.or_zero

/-- `minor_trace_if_young` on a young object outside the nursery. -/
theorem Inv.trace_young_outside_nursery {n : ℕ} (h : Inv NB_SEGMENTS cards s)
    (hi : i ∈ segment_nums NB_SEGMENTS) (hpc : (s.segs i).pc.collecting = true)
    (hy : obj ∈ (s.segs i).young_outside_nursery) (hn : GCFLAG_OVERFLOW_NUMBER_bit0 ∣ n) :
    Inv NB_SEGMENTS cards (C7.trace_young_outside_nursery s i obj n) := by
  have hl := h.lists i
  have hk := hl.young obj hy
  have hr := is_resetting_of_collecting hpc
  -- first the flags, while the object is still young
  have h := h.write_new_object hi (.inr hk) ⟨hr, fun hp => by rw [hp] at hpc; cases hpc⟩
    (WritesOnly.write_range (or_overflow_number n obj (read s.mem i))
      (fun a ha => in_range_iff.mp ha))
    (by
      rw [read_write_range_self (in_range_iff.mpr (in_object_self s obj))]
      exact or_overflow_number_cards_set hn obj _)
  have hkind : ∀ o, o ≠ obj → Function.update s.kind obj (.overflow i) o = s.kind o :=
    fun o ho => Function.update_of_ne ho _ _
  have hne : ∀ {o : ℕ} {k : Kind}, s.kind o = k → k ≠ .young i → o ≠ obj := by
    rintro o k ho hkn rfl
    exact hkn (ho.symm.trans hk)
  unfold C7.trace_young_outside_nursery
  refine h.set_kind hi (SegmentStep.of_lists hr hr (pending_of_collecting hpc) rfl rfl
    (fun o ho => .inl ho) rfl (fun hp => hp)) ?_ ?_ ?_ ?_ ?_
  · intro o ho
    by_cases hoo : o = obj
    · rw [hoo, hk]
      simp
    · rwa [hkind o hoo] at ho
  · intro o ho
    by_cases hoo : o = obj
    · rw [hoo, Function.update_self] at ho
      cases ho
    · rwa [hkind o hoo] at ho
  · intro o _ hny
    apply hkind
    rintro rfl
    exact hny hk
  · intro o ho hf
    by_cases hoo : o = obj
    · rw [hoo, Function.update_self] at hf
      cases hf
    · rw [hkind o hoo] at hf
      exact absurd hf ho
  · have hlist : ListInv (Function.update s.kind obj (.overflow i)) s.layout
        { s.segs i with
          young_outside_nursery := (s.segs i).young_outside_nursery.filter (· ≠ obj) } i := by
      refine { hl with modified := ?_, overflow := ?_, young := ?_, pointing := ?_,
                       privatizing := ?_ }
      · intro o ho
        rw [hkind o (hne (hl.modified o ho) (by simp))]
        exact hl.modified o ho
      · intro o ho
        rw [hkind o (hne (hl.overflow o ho) (by simp))]
        exact hl.overflow o ho
      · intro o ho
        rw [List.mem_filter, decide_eq_true_eq] at ho
        rw [hkind o ho.2]
        exact hl.young o ho.1
      · intro _ e he
        refine (hl.pointing hr e he).imp_right (fun ⟨ht, hov, hn⟩ => ⟨ht, ?_, hn⟩)
        rw [hkind _ (hne hov (by simp))]
        exact hov
      · exact hl.privatizing
    refine hlist.append_moved (Function.update_self _ _ _) ?_ ?_
    · exact fun hov => hne (hl.overflow obj hov) (by simp) rfl
    · intro hmem
      rcases hl.pointing hr _ hmem with ⟨hf, -⟩ | ⟨-, hov, -⟩
      · cases hf
      · exact hne hov (by simp) rfl

/-- The lock bytes of an object that is neither modified nor an overflow object
are zero. -/
theorem Inv.locks_eq_zero (h : Inv NB_SEGMENTS cards s) (hk : s.kind obj ≠ .free)
    (hm : ∀ j, obj ∉ remaining (s.segs j))
    (hov : ∀ j, obj ∉ (s.segs j).large_overflow_objects)
    {x : ℕ} (hx : lock_of obj (s.layout obj) x) : s.write_locks x = 0 := by
  have hlocks := (h.objs obj hk).locks
  rcases hx with rfl | ⟨hc, c, hcm, rfl⟩
  · exact hlocks.free hm
  · exact hlocks.cards_clear hc hm (fun j hj => absurd hj (hov j)) c hcm

theorem Inv.throw_away_nursery (h : Inv NB_SEGMENTS cards s) (hi : i ∈ segment_nums NB_SEGMENTS) :
    Inv NB_SEGMENTS cards (C7.throw_away_nursery s i) := by
  have hl := h.lists i
  have hyoung : ∀ {o : ℕ}, s.kind o ≠ .young i → o ∉ (s.segs i).young_outside_nursery :=
    fun hn ho => hn (hl.young _ ho)
  have hkind : ∀ {o : ℕ}, s.kind o ≠ .young i →
      (if o ∈ (s.segs i).young_outside_nursery then Kind.free else s.kind o) = s.kind o :=
    fun hn => if_neg (hyoung hn)
  unfold C7.throw_away_nursery
  refine h.set_kind hi ⟨fun _ => Iff.rfl, fun o p hp hnp => absurd hp hnp, rfl,
    fun o ho => .inl ho, fun o ho => ho, fun hp => .inl hp, fun hr => hr⟩ ?_ ?_ ?_ ?_ ?_
  · intro o ho
    by_cases hy : o ∈ (s.segs i).young_outside_nursery
    · rw [if_pos hy] at ho
      exact absurd rfl ho
    · rwa [if_neg hy] at ho
  · intro o ho
    by_cases hy : o ∈ (s.segs i).young_outside_nursery
    · rw [if_pos hy] at ho
      cases ho
    · rwa [if_neg hy] at ho
  · exact fun o _ hn => hkind hn
  · intro o ho hf x hx
    have hy : o ∈ (s.segs i).young_outside_nursery := by
      by_contra hy
      rw [if_neg hy] at hf
      exact ho hf
    have hk := hl.young o hy
    refine h.locks_eq_zero ho ?_ ?_ hx
    · intro j hj
      have hold := h.old_of_remaining hj
      rw [hk] at hold
      cases hold
    · intro j hj
      have hov := (h.lists j).overflow o hj
      rw [hk] at hov
      cases hov
  · refine { hl with modified := ?_, overflow := ?_, young := ?_, pointing := ?_ }
    · intro o ho
      rw [hkind (by rw [hl.modified o ho]; simp)]
      exact hl.modified o ho
    · intro o ho
      rw [hkind (by rw [hl.overflow o ho]; simp)]
      exact hl.overflow o ho
    · simp
    · intro hr e he
      refine (hl.pointing hr e he).imp_right (fun ⟨ht, hov, hn⟩ => ⟨ht, ?_, hn⟩)
      rw [hkind (by rw [hov]; simp)]
      exact hov

/-! ## `_collect_now` and `_trace_card_object` -/

/-- Only the flags of a modified object change. -/
theorem Inv.set_write_barrier (h : Inv NB_SEGMENTS cards s) (hi : i ∈ segment_nums NB_SEGMENTS)
    (hm : obj ∈ remaining (s.segs i)) (hp : pending (s.segs i) obj = []) :
    Inv NB_SEGMENTS cards { s with mem := set_flags s.mem i obj GCFLAG_WRITE_BARRIER } := by
  have hmem := @writesOnly_set_flags i obj s.mem (s.layout obj) GCFLAG_WRITE_BARRIER
  refine h.touch hi (h.kind_ne_free hm) rfl rfl (fun _ _ => rfl) hmem (fun _ _ => rfl)
    (fun _ _ => SameLists.refl _ _) (h.lists i) ?_
  refine h.objInv_modified hm hp rfl (fun _ _ => rfl) hmem rfl hm rfl ?_ ?_
  · intro hf
    dsimp only at hf
    rw [has_flag_set_write_barrier] at hf
    exact h.uses_cards hm hf
  · intro hc hcards
    have hmark := (h.objs obj (h.kind_ne_free hm)).marks hc hcards i hm
    refine hmark.mono rfl ?_ ?_ ?_ ?_ (fun _ _ hne => hne) (fun hw => hw)
    · intro a ha
      exact hmem.private_pages 0 a (Ne.symm (h.ne_zero hm)) (h.private_of_remaining hm hp ha)
    · dsimp only
      rw [read_set_flags, (or_write_barrier _).1]
    · exact fun a ha => read_set_flags_of_ne _ ha
    · intro _
      dsimp only
      rw [has_flag_eq_true, read_set_flags]
      exact (or_write_barrier _).2.1

theorem in_body_iff {l : Layout} {a : ℕ} :
    in_body obj l a = true ↔ obj + 4 ≤ a ∧ a < obj + l.size := by
  simp [in_body]

/-- What `_collect_now` leaves behind. -/
structure Collected (s s' : St) (i obj : ℕ) : Prop where
  segs : s'.segs = s.segs
  kind : s'.kind = s.kind
  layout : s'.layout = s.layout
  write_locks : s'.write_locks = s.write_locks
  flags : clean_flags (read s'.mem i obj)

theorem Inv.collect_now {val : ℕ → UInt8} (h : Inv NB_SEGMENTS cards s)
    (hi : i ∈ segment_nums NB_SEGMENTS) (hpc : (s.segs i).pc.collecting = true)
    (hk : obj ∈ (s.segs i).modified_old_objects ∨ s.kind obj = .overflow i)
    (hs : C7.collect_now s i obj val = .next s') :
    Inv NB_SEGMENTS cards s' ∧ Collected s s' i obj := by
  have hr := is_resetting_of_collecting hpc
  have hp := pending_of_collecting hpc obj
  unfold C7.collect_now at hs
  by_cases hcs : has_flag s.mem i obj GCFLAG_CARDS_SET = true
  · rw [if_pos hcs] at hs
    cases hs
  · rw [if_neg hcs] at hs
    rw [Bool.not_eq_true] at hcs
    by_cases hwb : has_flag s.mem i obj GCFLAG_WRITE_BARRIER = true
    · rw [if_pos hwb, Outcome.next.injEq] at hs
      rw [← hs]
      exact ⟨h, rfl, rfl, rfl, rfl, clean_flags_read.mpr ⟨hwb, hcs⟩⟩
    · rw [if_neg hwb, Outcome.next.injEq] at hs
      rw [← hs]
      have hbody : WritesOnly i obj (s.layout obj).size s.mem
          (write_range s.mem i (in_body obj (s.layout obj)) val) :=
        WritesOnly.write_range _ (fun a ha => by
          rw [in_body_iff] at ha
          omega)
      have hself : read (write_range s.mem i (in_body obj (s.layout obj)) val) i obj
          = read s.mem i obj := by
        apply read_write_range_of_false
        rw [← Bool.not_eq_true, in_body_iff]
        omega
      refine ⟨?_, rfl, rfl, rfl, rfl, ?_⟩
      · rcases hk with hm | hk
        · rw [← remaining_eq hr] at hm
          -- first the body, then the flag
          have h1 := h.write_modified_object hi hm hp hbody hself
            (fun hwb' => absurd hwb' hwb)
          exact h1.set_write_barrier hi hm hp
        · refine h.write_new_object hi (.inl hk) (⟨is_resetting_of_collecting hpc, ne_pushed_of_collecting hpc⟩)
            (hbody.trans (writesOnly_set_flags _ _)) ?_
          rw [read_set_flags, (or_write_barrier _).2.2, hself]
      · rw [clean_flags_read]
        constructor
        · rw [has_flag_eq_true, read_set_flags]
          exact (or_write_barrier _).2.1
        · rw [has_flag_set_write_barrier, has_flag, hself]
          exact hcs

/-- The segment that acts has some cards of an object set, and has written to
marked cards at most: they are turned old, or clear, and the flag is cleared. -/
theorem Inv.map_cards {f : ℕ → ℕ} (h : Inv NB_SEGMENTS cards s)
    (hi : i ∈ segment_nums NB_SEGMENTS) (hr : (s.segs i).pc.is_resetting = false)
    (hp : ∀ o, pending (s.segs i) o = [])
    (hlist : obj ∈ (s.segs i).modified_old_objects ∨
      obj ∈ (s.segs i).large_overflow_objects ∧ (s.segs i).pc ≠ .pushed)
    (hset : has_flag s.mem i obj GCFLAG_CARDS_SET = true)
    (hwb : has_flag s.mem i obj GCFLAG_WRITE_BARRIER = true)
    (hmem : WritesOnly i obj (s.layout obj).size s.mem m)
    (hflags : read m i obj = read s.mem i obj &&& ~~~GCFLAG_CARDS_SET)
    (hallowed : ∀ a, a ≠ obj → read m i a ≠ read s.mem i a → card_is_marked s obj (a - obj))
    (hvov : obj ∈ (s.segs i).large_overflow_objects →
      f CARD_CLEAR = CARD_CLEAR ∧ f CARD_MARKED = CARD_CLEAR)
    (hvmod : obj ∈ (s.segs i).modified_old_objects → ∀ v, v ≠ CARD_CLEAR → f v ≠ CARD_CLEAR) :
    Inv NB_SEGMENTS cards { s with
      mem := m
      write_locks := C7.map_cards f s.write_locks obj (s.layout obj) } := by
  have hl := h.lists i
  have hkf : s.kind obj ≠ .free := by
    rcases hlist with hm | ⟨hov, -⟩
    · rw [hl.modified obj hm]
      decide
    · rw [hl.overflow obj hov]
      simp
  have hobj := h.objs obj hkf
  have huses : obj_should_use_cards (s.layout obj) = true := by
    refine hobj.locks.uses i (hlist.imp (fun hm => ?_) (fun hov => hov.1)) hset
    rw [remaining_eq hr]
    exact hm
  have hbase : C7.map_cards f s.write_locks obj (s.layout obj) (get_write_lock_idx obj)
      = s.write_locks (get_write_lock_idx obj) := map_cards_base _
  have hnset : has_flag m i obj GCFLAG_CARDS_SET = false := by
    rw [has_flag_eq_false, hflags]
    exact (clear_cards_set _).2.2
  refine h.touch hi hkf rfl rfl (fun _ _ => rfl) hmem
    (fun x hx => map_cards_outside _ huses hx) (fun _ _ => SameLists.refl _ _) hl ?_
  rcases hlist with hm | ⟨hov, hpc⟩
  · have hm' : obj ∈ remaining (s.segs i) := by
      rw [remaining_eq hr]
      exact hm
    refine h.objInv_modified hm' (hp obj) rfl (fun _ _ => rfl) hmem hbase hm' rfl
      (fun _ => huses) ?_
    intro hc hcards
    have hmark := hobj.marks hc hcards i hm'
    have h0 : ∀ a, in_object s obj a → read m 0 a = read s.mem 0 a := fun a ha =>
      hmem.private_pages 0 a (Ne.symm (h.ne_zero hm')) (h.private_of_remaining hm' (hp obj) ha)
    -- a card that was not clear is not clear
    have hkeep : ∀ c ∈ card_indices (s.layout obj),
        s.write_locks (get_write_lock_idx obj + c) ≠ CARD_CLEAR →
        C7.map_cards f s.write_locks obj (s.layout obj) (get_write_lock_idx obj + c)
          ≠ CARD_CLEAR := by
      intro c hcm hne
      rw [map_cards_of_card _ _ _ hcm]
      exact hvmod hm _ hne
    refine ⟨?_, ?_⟩
    · dsimp only
      rw [h0 obj (in_object_self s obj), hflags, (clear_cards_set _).1]
      exact hmark.flags
    · rcases hmark.marked with hwr | hall | ⟨_, hd⟩
      · exact .inl hwr
      · exact .inr (.inl (fun c hcm => hkeep c hcm (hall c hcm)))
      · refine .inr (.inr ⟨?_, fun a ha hao hne => ?_⟩)
        · dsimp only
          rw [has_flag, hflags, (clear_cards_set _).2.1]
          exact hwb
        · dsimp only at hne
          rw [h0 a ha] at hne
          by_cases hch : read m i a = read s.mem i a
          · rw [hch] at hne
            obtain ⟨c, hcm, hcv, hic⟩ := hd a ha hao hne
            exact ⟨c, hcm, hkeep c hcm hcv, hic⟩
          · obtain ⟨c, hcm, hcv, hic⟩ := hallowed a hao hch
            refine ⟨c, hcm, hkeep c hcm ?_, hic⟩
            rw [hcv]
            decide
  · have hk := hl.overflow obj hov
    have hclear : all_cards_cleared (C7.map_cards f s.write_locks obj (s.layout obj))
        obj (s.layout obj) := by
      intro c hcm
      rw [map_cards_of_card _ _ _ hcm]
      rcases hobj.locks.overflow_cards i hov huses c hcm with hv | hv
      · rw [hv]
        exact (hvov hov).1
      · rw [hv]
        exact (hvov hov).2
    exact h.objInv_overflow (.inl hk) rfl (fun _ _ => rfl) rfl ⟨hr, hpc⟩ hbase
      (fun _ _ => hclear) (fun _ hf => absurd (hf.symm.trans hnset) (by decide))
      (fun _ _ => huses) (fun _ _ c hcm => .inl (hclear c hcm))

/-- The cards of an object have been traced: it leaves the list, and its flag is
cleared. -/
theorem Inv.cards_traced {val : ℕ → UInt8} {lst : List ℕ} {mark_value : ℕ}
    (h : Inv NB_SEGMENTS cards s)
    (hi : i ∈ segment_nums NB_SEGMENTS) (hpc : (s.segs i).pc.collecting = true)
    (hlst : (s.segs i).old_objects_with_cards = lst ++ [obj])
    (hset : has_flag s.mem i obj GCFLAG_CARDS_SET = true)
    (hwb : has_flag s.mem i obj GCFLAG_WRITE_BARRIER = true)
    (hvov : obj ∈ (s.segs i).large_overflow_objects → mark_value = CARD_CLEAR)
    (hvmod : obj ∈ (s.segs i).modified_old_objects → mark_value = CARD_MARKED_OLD) :
    Inv NB_SEGMENTS cards { s.set i { s.segs i with old_objects_with_cards := lst } with
      mem := clear_flags (write_range s.mem i (fun a => in_body obj (s.layout obj) a
        && decide (card_is_marked s obj (a - obj))) val) i obj GCFLAG_CARDS_SET
      write_locks := trace_cards s.write_locks obj (s.layout obj) mark_value } := by
  have hl := h.lists i
  have hr := is_resetting_of_collecting hpc
  have hp := pending_of_collecting hpc
  have hlist := hl.cards hr obj (by rw [hlst]; simp)
  have hbytes : ∀ a, (in_body obj (s.layout obj) a
      && decide (card_is_marked s obj (a - obj))) = true →
      (obj + 4 ≤ a ∧ a < obj + (s.layout obj).size) ∧ card_is_marked s obj (a - obj) := by
    intro a ha
    rw [Bool.and_eq_true, in_body_iff, decide_eq_true_eq] at ha
    exact ha
  -- the stores of the tracing, and then the flag
  have hw : WritesOnly i obj (s.layout obj).size s.mem (write_range s.mem i
      (fun a => in_body obj (s.layout obj) a && decide (card_is_marked s obj (a - obj))) val) :=
    WritesOnly.write_range _ (fun a ha => by
      have hb := (hbytes a ha).1
      omega)
  have hself : read (write_range s.mem i (fun a => in_body obj (s.layout obj) a
      && decide (card_is_marked s obj (a - obj))) val) i obj = read s.mem i obj := by
    apply read_write_range_of_false
    rw [← Bool.not_eq_true]
    intro ha
    have hb := (hbytes obj ha).1
    omega
  have hmapped := h.map_cards hi hr hp
    (hlist.imp_right (fun hov => ⟨hov, ne_pushed_of_collecting hpc⟩)) hset hwb
    (hw.trans (writesOnly_clear_flags (s.layout obj) GCFLAG_CARDS_SET))
    (by rw [read_clear_flags, hself])
    (by
      intro a hao hne
      rw [read_clear_flags_of_ne _ hao] at hne
      by_contra hn
      apply hne
      apply read_write_range_of_false
      rw [← Bool.not_eq_true]
      exact fun ha => hn (hbytes a ha).2)
    (f := fun card => if card = CARD_MARKED then mark_value else card)
    (fun hov => ⟨if_neg (by decide), (if_pos rfl).trans (hvov hov)⟩)
    (by
      intro hm v hv
      by_cases hvm : v = CARD_MARKED
      · rw [if_pos hvm, hvmod hm]
        decide
      · rw [if_neg hvm]
        exact hv)
  refine hmapped.set_seg hi (SegmentStep.of_lists hr hr hp rfl rfl ?_ rfl (fun hp => hp)) ?_
  · intro o ho
    dsimp only at ho
    rw [hlst, List.mem_append, List.mem_singleton] at ho
    rcases ho with ho | rfl
    · exact .inl ho
    · exact .inr not_cards_set_of_clear
  · refine { hl with cards := ?_ }
    intro _ o ho
    apply hl.cards hr o
    rw [hlst, List.mem_append]
    exact .inl ho

/-- A turn of `collect_cardrefs_to_nursery` on an object with marked cards. -/
theorem Inv.trace_card_object {val : ℕ → UInt8} {lst : List ℕ} (h : Inv NB_SEGMENTS cards s)
    (hi : i ∈ segment_nums NB_SEGMENTS) (hpc : (s.segs i).pc.collecting = true)
    (hlst : (s.segs i).old_objects_with_cards = lst ++ [obj])
    (hset : has_flag s.mem i obj GCFLAG_CARDS_SET = true)
    (hs : C7.trace_card_object (s.set i { s.segs i with old_objects_with_cards := lst }) i obj val
      = .next s') : Inv NB_SEGMENTS cards s' := by
  have hl := h.lists i
  have hisov : IS_OVERFLOW_OBJ (s.set i { s.segs i with old_objects_with_cards := lst }) i obj ↔
      obj ∈ (s.segs i).large_overflow_objects := by
    rw [IS_OVERFLOW_OBJ, set_segs_self]
  unfold C7.trace_card_object at hs
  by_cases hwb : has_flag s.mem i obj GCFLAG_WRITE_BARRIER = true
  · rw [set_seg_mem, if_pos hwb, Outcome.next.injEq] at hs
    rw [← hs]
    refine h.cards_traced hi hpc hlst hset hwb (fun hov => if_pos (hisov.mpr hov)) ?_
    intro hm
    apply if_neg
    rw [hisov]
    intro hov
    have hk := hl.overflow obj hov
    rw [hl.modified obj hm] at hk
    cases hk
  · rw [set_seg_mem, if_neg hwb] at hs
    cases hs

theorem Inv.collect_cardrefs_to_nursery {commit was_null : Bool} {val : ℕ → UInt8}
    (h : Inv NB_SEGMENTS cards s) (hi : i ∈ segment_nums NB_SEGMENTS)
    (hpc : (s.segs i).pc = .collect_cardrefs commit was_null)
    (hs : C7.collect_cardrefs_to_nursery s i commit was_null val = .next s') :
    Inv NB_SEGMENTS cards s' := by
  have hl := h.lists i
  have hcol : (s.segs i).pc.collecting = true := by
    rw [hpc]
    rfl
  have hr := is_resetting_of_collecting hcol
  have hp := pending_of_collecting hcol
  unfold C7.collect_cardrefs_to_nursery at hs
  cases hpop : list_pop_item (s.segs i).old_objects_with_cards with
  | none =>
      simp only [hpop, Outcome.next.injEq] at hs
      rw [← hs]
      cases was_null with
      | true =>
          refine h.set_seg hi (SegmentStep.of_lists hr rfl hp rfl rfl (fun o ho => .inl ho) rfl
            (by simp)) (hl.goto _ hr ?_ (by simp))
          intro c t ht o ho
          cases ht
          exact ho
      | false =>
          exact h.set_seg hi (SegmentStep.of_lists hr rfl hp rfl rfl (fun o ho => .inl ho) rfl
            (by simp)) (hl.goto _ hr (by simp) (by simp))
  | some r =>
      obtain ⟨lst, o⟩ := r
      have hlst := list_pop_item_eq_some hpop
      simp only [hpop, set_seg_mem] at hs
      by_cases hset : has_flag s.mem i o GCFLAG_CARDS_SET = true
      · simp only [hset, if_true] at hs
        exact h.trace_card_object hi hcol hlst hset hs
      · rw [Bool.not_eq_true] at hset
        simp only [hset, Bool.false_eq_true, if_false, Outcome.next.injEq] at hs
        rw [← hs]
        refine h.set_seg hi (SegmentStep.of_lists hr hr hp rfl rfl ?_ rfl (fun hp => hp)) ?_
        · intro o' ho'
          rw [hlst, List.mem_append, List.mem_singleton] at ho'
          rcases ho' with ho' | rfl
          · exact .inl ho'
          · exact .inr hset
        · refine { hl with cards := ?_ }
          intro _ o' ho'
          apply hl.cards hr o'
          rw [hlst, List.mem_append]
          exact .inl ho'

theorem Inv.collect_modified_old_objects {commit : Bool} {todo : List ℕ} {val : ℕ → UInt8}
    (h : Inv NB_SEGMENTS cards s) (hi : i ∈ segment_nums NB_SEGMENTS)
    (hpc : (s.segs i).pc = .collect_modified commit todo)
    (hs : C7.collect_modified_old_objects s i commit todo val = .next s') :
    Inv NB_SEGMENTS cards s' := by
  have hl := h.lists i
  have hcol : (s.segs i).pc.collecting = true := by
    rw [hpc]
    rfl
  have hr := is_resetting_of_collecting hcol
  have hp := pending_of_collecting hcol
  unfold C7.collect_modified_old_objects at hs
  cases todo with
  | nil =>
      simp only [Outcome.next.injEq] at hs
      rw [← hs]
      exact h.set_seg hi (SegmentStep.of_lists hr rfl hp rfl rfl (fun o ho => .inl ho) rfl
        (by simp)) (hl.goto _ hr (by simp) (by simp))
  | cons o rest =>
      have hmem := hl.todo commit _ hpc
      have hstep : SegmentStep NB_SEGMENTS s i { s.segs i with pc := .collect_modified commit rest } :=
        SegmentStep.of_lists hr rfl hp rfl rfl (fun o ho => .inl ho) rfl (by simp)
      have hlist := hl.goto (.collect_modified commit rest) hr (by
        intro c t ht x hx
        cases ht
        exact hmem x (List.mem_cons_of_mem _ hx)) (by simp)
      refine ((h.set_seg hi hstep hlist).collect_now hi ?_ (.inl ?_) hs).1
      · rw [set_segs_self]
        rfl
      · rw [set_segs_self]
        exact hmem o (by simp)

/-! ## Aging -/

theorem ListInv.pop_pointing {kind : ℕ → Kind} {layout : ℕ → Layout} {seg : Segment}
    {lst : List (ℕ × Bool)} {e : ℕ × Bool} (h : ListInv kind layout seg i)
    (hlst : seg.objects_pointing_to_nursery.getD [] = lst ++ [e]) :
    ListInv kind layout { seg with objects_pointing_to_nursery := some lst } i := by
  refine { h with pointing := ?_, moved := ?_ }
  · intro hr e' he'
    rw [Option.getD_some] at he'
    apply h.pointing hr e'
    rw [hlst, List.mem_append]
    exact .inl he'
  · have hmoved := h.moved
    rw [hlst, List.filter_append, List.nodup_append] at hmoved
    rw [Option.getD_some]
    exact hmoved.1

/-- An object that was moved is once in `objects_pointing_to_nursery`. -/
theorem ListInv.moved_once {kind : ℕ → Kind} {layout : ℕ → Layout} {seg : Segment}
    {lst : List (ℕ × Bool)} (h : ListInv kind layout seg i)
    (hlst : seg.objects_pointing_to_nursery.getD [] = lst ++ [(obj, true)]) :
    (obj, true) ∉ lst := by
  intro hmem
  have hmoved := h.moved
  rw [hlst, List.filter_append, List.nodup_append] at hmoved
  have hfilter : (obj, true) ∈ lst.filter (fun e => e.2) := List.mem_filter.mpr ⟨hmem, rfl⟩
  exact hmoved.2.2 _ hfilter _ (by simp) rfl

/-- An object which is in no list yet of its transaction. -/
theorem Inv.notMem_of_overflow (h : Inv NB_SEGMENTS cards s) (hk : s.kind obj = .overflow i)
    (hov : obj ∉ (s.segs i).large_overflow_objects) (j : ℕ) :
    obj ∉ remaining (s.segs j) ∧ obj ∉ (s.segs j).large_overflow_objects := by
  constructor
  · intro hm
    have hold := h.old_of_remaining hm
    rw [hk] at hold
    cases hold
  · intro hj
    have hkj := (h.lists j).overflow obj hj
    rw [hk, Kind.overflow.injEq] at hkj
    rw [← hkj] at hj
    exact hov hj

/-- A survivor of a minor collection becomes an overflow object. -/
theorem Inv.append_overflow (h : Inv NB_SEGMENTS cards s) (hi : i ∈ segment_nums NB_SEGMENTS)
    (hpc : (s.segs i).pc.collecting = true) (hk : s.kind obj = .overflow i)
    (hov : obj ∉ (s.segs i).large_overflow_objects) (hclean : clean_flags (read s.mem i obj))
    (hnew : (obj, true) ∉ (s.segs i).objects_pointing_to_nursery.getD []) :
    Inv NB_SEGMENTS cards (s.set i { s.segs i with
      large_overflow_objects := list_append (s.segs i).large_overflow_objects obj }) := by
  have hl := h.lists i
  have hr := is_resetting_of_collecting hpc
  have hkf : s.kind obj ≠ .free := by
    rw [hk]
    simp
  have hunlisted := h.notMem_of_overflow hk hov
  have hcards := (clean_flags_read.mp hclean).2
  have hclear : obj_should_use_cards (s.layout obj) = true →
      all_cards_cleared s.write_locks obj (s.layout obj) := fun hc =>
    (h.objs obj hkf).locks.cards_clear hc (fun j => (hunlisted j).1)
      (fun j hj => absurd hj (hunlisted j).2)
  refine h.touch hi hkf rfl rfl (fun j hj => set_segs_of_ne _ hj) (WritesOnly.refl _)
    (fun _ _ => rfl) ?_ ?_ ?_
  · intro o ho
    rw [set_segs_self]
    refine ⟨Iff.rfl, rfl, ?_, fun _ hc => hc, fun _ hw => hw, fun _ hp => hp, fun _ hr => hr⟩
    rw [mem_list_append]
    exact ⟨fun hor => hor.resolve_right ho, .inl⟩
  · rw [set_segs_self]
    refine { hl with overflow := ?_, pointing := ?_, cards := ?_ }
    · intro o ho
      rw [mem_list_append] at ho
      rcases ho with ho | rfl
      · exact hl.overflow o ho
      · exact hk
    · intro _ e he
      rcases hl.pointing hr e he with ⟨hf, hm⟩ | ⟨ht, hke, hn⟩
      · refine .inl ⟨hf, hm.imp_right (fun ho => ?_)⟩
        rw [mem_list_append]
        exact .inl ho
      · refine .inr ⟨ht, hke, ?_⟩
        rw [mem_list_append, not_or]
        refine ⟨hn, fun heq => hnew ?_⟩
        rw [← heq, ← ht]
        exact he
    · intro _ o ho
      rw [mem_list_append]
      exact (hl.cards hr o ho).imp_right .inl
  · refine h.objInv_overflow (.inl hk) rfl (fun j hj => set_segs_of_ne _ hj) ?_ ?_ rfl
      (fun hc _ => hclear hc) ?_ ?_ (fun _ hc c hcm => .inl (hclear hc c hcm))
    · rw [set_segs_self]
    · rw [set_segs_self]
      exact ⟨is_resetting_of_collecting hpc, ne_pushed_of_collecting hpc⟩
    · exact fun _ hf => absurd (hf.symm.trans hcards) (by decide)
    · exact fun _ hf => absurd (hf.symm.trans hcards) (by decide)

/-- A survivor of the last minor collection of a transaction becomes an old
object at once. -/
theorem Inv.synchronize_new_object (h : Inv NB_SEGMENTS cards s)
    (hk : s.kind obj = .overflow i) (hov : obj ∉ (s.segs i).large_overflow_objects)
    (hclean : clean_flags (read s.mem i obj))
    (hnew : (obj, true) ∉ (s.segs i).objects_pointing_to_nursery.getD [])
    (hpush : Pushed NB_SEGMENTS i (fun a => in_object s obj a) s.mem m) :
    Inv NB_SEGMENTS cards { s with mem := m, kind := Function.update s.kind obj .old } := by
  have hkf : s.kind obj ≠ .free := by
    rw [hk]
    simp
  have hkind : ∀ o, o ≠ obj → Function.update s.kind obj .old o = s.kind o :=
    fun o ho => Function.update_of_ne ho _ _
  have hfree : ∀ o, Function.update s.kind obj .old o ≠ .free ↔ s.kind o ≠ .free := by
    intro o
    by_cases ho : o = obj
    · rw [ho, Function.update_self]
      simp [hkf]
    · rw [hkind o ho]
  have hunlisted := h.notMem_of_overflow hk hov
  have hobj := h.objs obj hkf
  refine ⟨?_, ?_, h.absent, ?_, ?_⟩
  · intro o o' ho ho' hlt
    exact h.apart o o' ((hfree o).mp ho) ((hfree o').mp ho') hlt
  · intro x hx
    obtain ⟨o, ho, hxo⟩ := h.locks_used x hx
    exact ⟨o, (hfree o).mpr ho, hxo⟩
  · intro j
    have hl := h.lists j
    have hne : ∀ {o : ℕ}, s.kind o ≠ .overflow i → o ≠ obj := by
      rintro o hn rfl
      exact hn hk
    refine { hl with modified := ?_, overflow := ?_, young := ?_, pointing := ?_ }
    · intro o ho
      by_cases hoo : o = obj
      · rw [hoo]
        exact Function.update_self _ _ _
      · exact (hkind o hoo).trans (hl.modified o ho)
    · intro o ho
      have hoo : o ≠ obj := by
        rintro rfl
        exact (hunlisted j).2 ho
      exact (hkind o hoo).trans (hl.overflow o ho)
    · intro o ho
      have hko := hl.young o ho
      exact (hkind o (hne (by rw [hko]; simp))).trans hko
    · intro hrj e he
      refine (hl.pointing hrj e he).imp_right (fun ⟨ht, hke, hn⟩ => ⟨ht, ?_, hn⟩)
      refine (hkind _ ?_).trans hke
      intro heq
      rw [heq, hk, Kind.overflow.injEq] at hke
      subst hke
      apply hnew
      rw [← heq, ← ht]
      exact he
  · intro o ho
    by_cases hoo : o = obj
    · subst hoo
      have hn : ∀ j, o ∉ (s.segs j).large_overflow_objects := fun j => (hunlisted j).2
      have hrem : ∀ j, o ∉ remaining (s.segs j) := fun j => (hunlisted j).1
      refine ⟨⟨?_, hobj.locks.free, ?_, ?_, ?_, ?_⟩, ⟨?_, ?_, ?_, ?_⟩, ?_⟩
      · exact fun j hj => absurd hj (hrem j)
      · exact fun hc _ _ => hobj.locks.cards_clear hc hrem (fun j hj => absurd hj (hn j))
      · exact fun j hj => absurd hj (hn j)
      · exact fun j hj => hj.elim (fun hm => absurd hm (hrem j)) (fun hm => absurd hm (hn j))
      · exact fun j hj => absurd hj (hn j)
      · exact fun j hj => absurd hj (hrem j)
      · intro _ j hj _
        dsimp only
        rw [hpush.pushed j hj o (in_object_self s o)]
        exact hclean
      · intro _ _ j hj _ a ha
        dsimp only
        rw [hpush.pushed j hj a ha, hpush.pushed 0 (Nat.zero_le _) a ha]
      · exact fun j _ hj => absurd hj (hn j)
      · exact fun _ _ j hj => absurd hj (hrem j)
    · have ho' : s.kind o ≠ .free := (hfree o).mp ho
      refine (h.objs o ho').same ⟨hkind o hoo, rfl, ?_, ?_, fun _ _ => rfl,
        fun _ => SameLists.refl _ _⟩
      · intro j a ha
        apply hpush.frame
        have hdis := h.disjoint ho' hkf hoo
        unfold in_object at ha ⊢
        omega
      · intro j _ p _ hp
        dsimp only
        rw [hpush.is_private_page]
        exact hp

theorem Inv.age_object {commit : Bool} (h : Inv NB_SEGMENTS cards s)
    (hi : i ∈ segment_nums NB_SEGMENTS) (hpc : (s.segs i).pc.collecting = true)
    (hk : s.kind obj = .overflow i) (hov : obj ∉ (s.segs i).large_overflow_objects)
    (hclean : clean_flags (read s.mem i obj))
    (hnew : (obj, true) ∉ (s.segs i).objects_pointing_to_nursery.getD [])
    (hs : C7.age_object NB_SEGMENTS s i obj commit = .next s') : Inv NB_SEGMENTS cards s' := by
  unfold C7.age_object at hs
  cases commit with
  | false =>
      rw [if_neg (by decide), Outcome.next.injEq] at hs
      rw [← hs]
      exact h.append_overflow hi hpc hk hov hclean hnew
  | true =>
      rw [if_pos rfl, if_pos (clean_flags_read.mp hclean).1] at hs
      cases hsync : synchronize_object_now NB_SEGMENTS s.mem s.write_locks i obj (s.layout obj)
          true with
      | none =>
          rw [hsync] at hs
          cases hs
      | some r =>
          obtain ⟨m, wl⟩ := r
          simp only [hsync, Outcome.next.injEq] at hs
          obtain ⟨hpush, hor⟩ := synchronize_object_now_spec (mem_segment_nums.mp hi).2 hsync
          have hwl : wl = s.write_locks := by
            rcases hor with ⟨-, hwl⟩ | ⟨hig, -⟩
            · exact hwl
            · simp at hig
          rw [← hs, hwl]
          refine h.synchronize_new_object hk hov hclean hnew (hpush.congr (fun a => ?_))
          unfold synchronized_range in_object
          simp

/-- A turn of `collect_oldrefs_to_nursery`, or the end of the minor
collection. -/
theorem Inv.collect_oldrefs_to_nursery {commit : Bool} {val : ℕ → UInt8}
    (h : Inv NB_SEGMENTS cards s) (hi : i ∈ segment_nums NB_SEGMENTS)
    (hpc : (s.segs i).pc = .collect_oldrefs commit)
    (hs : C7.collect_oldrefs_to_nursery NB_SEGMENTS s i commit val = .next s') :
    Inv NB_SEGMENTS cards s' := by
  have hl := h.lists i
  have hcol : (s.segs i).pc.collecting = true := by
    rw [hpc]
    rfl
  have hr := is_resetting_of_collecting hcol
  have hp := pending_of_collecting hcol
  unfold C7.collect_oldrefs_to_nursery at hs
  cases hpop : list_pop_item ((s.segs i).objects_pointing_to_nursery.getD []) with
  | none =>
      simp only [hpop, Outcome.next.injEq] at hs
      rw [← hs]
      have hthrow := h.throw_away_nursery hi
      have hpc' : ((C7.throw_away_nursery s i).segs i).pc = .collect_oldrefs commit := by
        unfold C7.throw_away_nursery
        rw [set_segs_self]
        exact hpc
      have hcol' : ((C7.throw_away_nursery s i).segs i).pc.collecting = true := by
        rw [hpc']
        rfl
      have hr' := is_resetting_of_collecting hcol'
      refine hthrow.set_seg hi (SegmentStep.of_lists hr' ?_ (pending_of_collecting hcol') rfl rfl
        (fun o ho => .inl ho) rfl ?_) ((hthrow.lists i).goto _ hr' ?_ ?_)
      · cases commit <;> rfl
      · cases commit <;> simp
      · cases commit <;> simp
      · cases commit <;> simp
  | some r =>
      obtain ⟨lst, o, sync⟩ := r
      have hlst := list_pop_item_eq_some hpop
      have hitem := hl.pointing hr (o, sync) (by rw [hlst]; simp)
      have hstep : SegmentStep NB_SEGMENTS s i { s.segs i with objects_pointing_to_nursery := some lst } :=
        SegmentStep.of_lists hr hr hp rfl rfl (fun o ho => .inl ho) rfl (fun hp => hp)
      have hpopped := h.set_seg hi hstep (hl.pop_pointing hlst)
      simp only [hpop] at hs
      cases hc : C7.collect_now (s.set i { s.segs i with
          objects_pointing_to_nursery := some lst }) i o val with
      | blocked =>
          rw [hc] at hs
          cases hs
      | fault =>
          rw [hc] at hs
          cases hs
      | next t =>
          simp only [hc] at hs
          obtain ⟨hinv, hcoll⟩ := hpopped.collect_now hi (by rw [set_segs_self]; exact hcol)
            (by
              rw [set_segs_self]
              rcases hitem with ⟨-, hm | hov⟩ | ⟨-, hk, -⟩
              · exact .inl hm
              · exact .inr (hl.overflow o hov)
              · exact .inr hk) hc
          have hsegs : t.segs i = { s.segs i with objects_pointing_to_nursery := some lst } := by
            rw [hcoll.segs, set_segs_self]
          cases sync with
          | false =>
              rw [if_neg (by decide), Outcome.next.injEq] at hs
              rw [← hs]
              exact hinv
          | true =>
              rw [if_pos rfl] at hs
              obtain ⟨-, hk, hov⟩ : (true : Bool) = true ∧ s.kind o = .overflow i
                  ∧ o ∉ (s.segs i).large_overflow_objects := hitem.resolve_left (by simp)
              refine hinv.age_object hi ?_ ?_ ?_ hcoll.flags ?_ hs
              · rw [hsegs]
                exact hcol
              · rw [hcoll.kind]
                exact hk
              · rw [hsegs]
                exact hov
              · rw [hsegs]
                exact hl.moved_once hlst

end

end Stmgc.C7
