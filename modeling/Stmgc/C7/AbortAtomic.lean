/-
An abort leaves nothing behind, except for light finalizers.

The steps of `reset_modified_from_other_segments` are taken one after the other
here ([`reset_all_modified_spec`]), and the rest follows from the invariant of
`Transaction` and from what the other fields of a segment are in a running
transaction ([`PrivInv`]).
-/
import Stmgc.C7.Abort

namespace Stmgc.C7

open Stmgc.Lib

/-! ## The loop over the modified objects -/

section

variable {NB_SEGMENTS : ℕ} {st st' : St} {n todo : ℕ}

/-- One turn of the loop returns, and does this. -/
theorem reset_modified_object_eq {obj : ℕ} (h : Inv NB_SEGMENTS false st)
    (hpc : (st.segs n).pc = .resetting (todo + 1))
    (hobj : (st.segs n).modified_old_objects[todo]? = some obj) :
    ∃ wl, reset_modified_object st n obj todo = .next
      { st.set n { st.segs n with pc := .resetting todo } with
        mem := memcpy st.mem n 0 obj (st.layout obj).size
        write_locks := wl } := by
  have hm : obj ∈ remaining (st.segs n) := by
    rw [remaining_of_resetting hpc]
    obtain ⟨hlt, hget⟩ := List.getElem?_eq_some_iff.mp hobj
    rw [List.mem_take_iff_getElem]
    exact ⟨todo, by omega, hget⟩
  have hold := h.old_of_remaining hm
  have hinv := h.objs obj (h.kind_ne_free hm)
  -- segment 0 has the flag, and the lock byte is not one of the cards
  have hflag : has_flag (memcpy st.mem n 0 obj (st.layout obj).size) n obj
      GCFLAG_WRITE_BARRIER = true := by
    have hread : read (memcpy st.mem n 0 obj (st.layout obj).size) n obj = read st.mem 0 obj :=
      read_write_range_self (in_range_iff.mpr (in_object_self st obj))
    have hclean := hinv.views.flags hold 0 (Nat.zero_le _) h.zero_notMem
    rw [has_flag, hread]
    exact (clean_flags_read.mp hclean).1
  have hlock : (if obj_should_use_cards (st.layout obj) = true then
      reset_object_cards st.write_locks obj (st.layout obj) CARD_CLEAR false
      else st.write_locks) (get_write_lock_idx obj) = n := by
    by_cases hc : obj_should_use_cards (st.layout obj) = true
    · rw [if_pos hc, reset_object_cards, map_cards_base]
      exact hinv.locks.owner n hm
    · rw [if_neg hc]
      exact hinv.locks.owner n hm
  exact ⟨_, if_pos ⟨hflag, hlock⟩⟩

/-- What has been reset when `todo` items are left. -/
structure ResetInv (NB_SEGMENTS : ℕ) (st st' : St) (n todo : ℕ) : Prop where
  inv : Inv NB_SEGMENTS false st'
  kind : st'.kind = st.kind
  layout : st'.layout = st.layout
  seg : st'.segs n = { st.segs n with pc := .resetting todo }
  others : ∀ j, j ≠ n → st'.segs j = st.segs j
  shared : ∀ o ∈ (st.segs n).modified_old_objects, ∀ a, in_object st o a →
    read st'.mem 0 a = read st.mem 0 a
  done : ∀ o ∈ (st.segs n).modified_old_objects.drop todo, ∀ a, in_object st o a →
    read st'.mem n a = read st'.mem 0 a

theorem ResetInv.turn (h : ResetInv NB_SEGMENTS st st' n (todo + 1))
    (hn : n ∈ segment_nums NB_SEGMENTS)
    (hlt : todo < (st.segs n).modified_old_objects.length) :
    ∃ st'', reset_modified_from_other_segments st' n (todo + 1) = .next st''
      ∧ ResetInv NB_SEGMENTS st st'' n todo := by
  have hpc : (st'.segs n).pc = .resetting (todo + 1) := by rw [h.seg]
  have hlists : (st'.segs n).modified_old_objects = (st.segs n).modified_old_objects := by
    rw [h.seg]
  obtain ⟨obj, hobj⟩ : ∃ obj, (st'.segs n).modified_old_objects[todo]? = some obj := by
    rw [hlists]
    exact ⟨_, List.getElem?_eq_getElem hlt⟩
  obtain ⟨wl, hreset⟩ := reset_modified_object_eq h.inv hpc hobj
  have hstep : reset_modified_from_other_segments st' n (todo + 1)
      = reset_modified_object st' n obj todo := by
    rw [reset_modified_from_other_segments, hobj]
  have hmem : obj ∈ (st'.segs n).modified_old_objects := List.mem_of_getElem? hobj
  have hold := h.inv.old_of_modified hmem
  have hrem : obj ∈ remaining (st'.segs n) := by
    rw [remaining_of_resetting hpc]
    obtain ⟨hlt, hget⟩ := List.getElem?_eq_some_iff.mp hobj
    rw [List.mem_take_iff_getElem]
    exact ⟨todo, by omega, hget⟩
  have hpending : pending (st'.segs n) obj = [] := by
    unfold pending
    rw [hpc]
  have hzero : ∀ o ∈ (st.segs n).modified_old_objects, ∀ a, in_object st' o a →
      read (memcpy st'.mem n 0 obj (st'.layout obj).size) 0 a = read st'.mem 0 a := by
    intro o ho a ha
    by_cases hin : in_object st' obj a
    · rw [memcpy, read_write_range_of_private (h.inv.private_of_remaining hrem hpending hin)
        (Ne.symm (h.inv.ne_zero hrem))]
    · exact read_memcpy_of_notMem hin
  refine ⟨_, hstep.trans hreset, h.inv.reset_modified_from_other_segments hn hpc
    (hstep.trans hreset), h.kind, h.layout, ?_, ?_, ?_, ?_⟩
  · dsimp only
    rw [set_segs_self, h.seg]
  · exact fun j hj => (set_segs_of_ne _ hj).trans (h.others j hj)
  · intro o ho a ha
    have ha' : in_object st' o a := by
      unfold in_object
      rw [h.layout]
      exact ha
    exact (hzero o ho a ha').trans (h.shared o ho a ha)
  · intro o ho a ha
    have ha' : in_object st' o a := by
      unfold in_object
      rw [h.layout]
      exact ha
    have hmo := List.mem_of_mem_drop ho
    dsimp only
    rw [hzero o hmo a ha']
    by_cases hoo : o = obj
    · rw [hoo] at ha'
      rw [memcpy, read_write_range_self (in_range_iff.mpr ha')]
    · -- the others have been reset before
      have hko : st'.kind o ≠ .free := by
        rw [h.inv.old_of_modified (by rw [hlists]; exact hmo)]
        decide
      have hapart := h.inv.disjoint hko (by rw [hold]; decide) hoo
      rw [read_memcpy_of_notMem (by unfold in_object at ha'; omega)]
      refine h.done o ?_ a ha
      rw [hlists] at hobj
      rw [List.drop_eq_getElem_cons hlt, List.mem_cons] at ho
      rcases ho with heq | hrest
      · rw [List.getElem?_eq_getElem hlt, Option.some.injEq] at hobj
        exact absurd (heq.trans hobj) hoo
      · exact hrest

/-- What `reset_modified_from_other_segments` does as a whole. -/
structure ResetAll (NB_SEGMENTS : ℕ) (st st' : St) (n : ℕ) : Prop where
  inv : Inv NB_SEGMENTS false st'
  kind : st'.kind = fun o => if st.kind o = .overflow n then .dead else st.kind o
  layout : st'.layout = st.layout
  seg : st'.segs n = (st.segs n).clear_lists
  others : ∀ j, j ≠ n → st'.segs j = st.segs j
  shared : ∀ o ∈ (st.segs n).modified_old_objects, ∀ a, in_object st o a →
    read st'.mem 0 a = read st.mem 0 a
  own : ∀ o ∈ (st.segs n).modified_old_objects, ∀ a, in_object st o a →
    read st'.mem n a = read st'.mem 0 a

theorem ResetInv.finish (h : ResetInv NB_SEGMENTS st st' n 0)
    (hn : n ∈ segment_nums NB_SEGMENTS) :
    ∃ st'', reset_modified_from_other_segments st' n 0 = .next st''
      ∧ ResetAll NB_SEGMENTS st st'' n := by
  have hpc : (st'.segs n).pc = .resetting 0 := by rw [h.seg]
  refine ⟨_, rfl, h.inv.reset_modified_from_other_segments hn hpc rfl, ?_, h.layout, ?_,
    ?_, h.shared, fun o ho => h.done o ho⟩
  · dsimp only
    rw [h.kind]
  · dsimp only
    rw [set_segs_self, h.seg]
    rfl
  · exact fun j hj => (set_segs_of_ne _ hj).trans (h.others j hj)

theorem ResetInv.reset_all (h : ResetInv NB_SEGMENTS st st' n todo)
    (hn : n ∈ segment_nums NB_SEGMENTS)
    (hle : todo ≤ (st.segs n).modified_old_objects.length) :
    ∃ st'', reset_all_modified n todo st' = .next st'' ∧ ResetAll NB_SEGMENTS st st'' n := by
  induction todo generalizing st' with
  | zero => exact h.finish hn
  | succ todo ih =>
      obtain ⟨st₁, hst₁, h₁⟩ := h.turn hn hle
      obtain ⟨st₂, hst₂, h₂⟩ := ih h₁ (by omega)
      exact ⟨st₂, Outcome.bind_eq_next.mpr ⟨st₁, hst₁, hst₂⟩, h₂⟩

/-- The segment is where an abort may find it. -/
def may_abort (seg : Segment) : Prop :=
  seg.pc = .running ∨ seg.pc = .collected ∨ seg.pc = .pushed

/-- The part of an abort outside the nursery. -/
theorem reset_all_modified_spec (h : Inv NB_SEGMENTS false st)
    (hn : n ∈ segment_nums NB_SEGMENTS) (hpc : may_abort (st.segs n)) :
    ∃ st', reset_all_modified n (st.segs n).modified_old_objects.length
        (abort_data_structures st n) = .next st'
      ∧ ResetAll NB_SEGMENTS (abort_data_structures st n) st' n := by
  have hlist : ((abort_data_structures st n).segs n).modified_old_objects
      = (st.segs n).modified_old_objects := by
    unfold abort_data_structures throw_away_nursery
    dsimp only
    rw [set_segs_self, set_segs_self]
  have hpc' : ((abort_data_structures st n).segs n).pc
      = .resetting (st.segs n).modified_old_objects.length := by
    unfold abort_data_structures throw_away_nursery
    dsimp only
    rw [set_segs_self, set_segs_self]
  have hstart : ResetInv NB_SEGMENTS (abort_data_structures st n) (abort_data_structures st n) n
      (st.segs n).modified_old_objects.length := by
    refine ⟨h.abort_data_structures hn hpc, rfl, rfl, ?_, fun _ _ => rfl, fun _ _ _ _ => rfl, ?_⟩
    · rw [← hpc']
    · rw [hlist, List.drop_length]
      simp
  exact hstart.reset_all hn (congrArg List.length hlist).ge

end

/-! ## The pages and locks in a run of everything -/

section

variable {NB_SEGMENTS : ℕ} {s s' : Sys} {n : ℕ}

theorem pc_of_reset_modified_object {st st' : St} {obj todo : ℕ}
    (h : reset_modified_object st n obj todo = .next st') :
    (st'.segs n).pc = .resetting todo := by
  unfold reset_modified_object at h
  dsimp only at h
  generalize (if obj_should_use_cards (st.layout obj) = true then
    reset_object_cards st.write_locks obj (st.layout obj) CARD_CLEAR false
    else st.write_locks) = wl at h
  split at h
  · rw [Outcome.next.injEq] at h
    rw [← h]
    dsimp only
    rw [set_segs_self]
  · cases h

/-- The steps of the loop are steps of the machine of `Transaction`. -/
theorem reachable_reset_all_modified {st st' : St} {todo : ℕ}
    (h : Reachable Initial (step NB_SEGMENTS) st) (hn : n ∈ segment_nums NB_SEGMENTS)
    (hpc : (st.segs n).pc = .resetting todo) (hs : reset_all_modified n todo st = .next st') :
    Reachable Initial (step NB_SEGMENTS) st' := by
  have hstep : ∀ {st : St} {todo : ℕ}, (st.segs n).pc = .resetting todo →
      step NB_SEGMENTS st (.reset_modified n) = reset_modified_from_other_segments st n todo := by
    intro st todo hpc
    have hsegs : ∀ i ∈ (Act.reset_modified n).segment_num, i ∈ segment_nums NB_SEGMENTS := by
      intro i hi
      rw [Act.segment_num, Option.mem_some_iff] at hi
      exact hi ▸ hn
    rw [step, guarded, if_pos hsegs, C7.step_segment, hpc]
  induction todo generalizing st with
  | zero => exact h.step trivial ((hstep hpc).trans hs)
  | succ todo ih =>
      obtain ⟨st₁, hst₁, hs⟩ := Outcome.bind_eq_next.mp hs
      refine ih (h.step trivial ((hstep hpc).trans hst₁)) ?_ hs
      rw [reset_modified_from_other_segments] at hst₁
      cases hobj : (st.segs n).modified_old_objects[todo]? with
      | none =>
          rw [hobj] at hst₁
          cases hst₁
      | some obj =>
          rw [hobj] at hst₁
          exact pc_of_reset_modified_object hst₁

theorem st_of_end_commit {i : ℕ} (h : end_commit s i = some s') : s'.st = s.st := by
  unfold end_commit at h
  dsimp only at h
  split at h
  · obtain ⟨-, h⟩ := c_assert_eq_some.mp h
    cases h
    rfl
  · cases h
    rfl

/-- The conditions under which an abort returns are met by its steps. -/
theorem abort_eq_next {gs : ℕ} (h : abort_data_structures_from_segment_num s gs n = .next s') :
    (s.priv n).transaction_state = .ts_regular ∧ ∃ st tl,
      reset_all_modified n (s.st.segs n).modified_old_objects.length
          (abort_data_structures s.st n) = .next st
        ∧ restore_shadowstack (s.priv n).running_thread = some tl
        ∧ tl.shadowstack = (s.priv n).shadowstack_at_start_of_transaction
        ∧ s' = { s with st := st }.set n
          { (abort_finalizers s.st.mem gs n (s.priv n)).throw_away_nursery
              (s.st.segs n).young_outside_nursery with
            modified_old_objects_markers := []
            young_weakrefs := []
            running_thread := { tl with
              thread_local_obj := (s.priv n).threadlocal_at_start_of_transaction }
            aborted := true } := by
  unfold abort_data_structures_from_segment_num at h
  dsimp only at h
  split at h
  · rename_i hreg
    obtain ⟨st, hst, h⟩ := Outcome.bind_eq_next.mp h
    obtain ⟨tl, htl, h⟩ := Outcome.bind_eq_next.mp h
    split at h
    · rename_i htop
      rw [Outcome.next.injEq] at h
      exact ⟨hreg, st, tl, hst, Outcome.ofOption_eq_next.mp htl, htop, h.symm⟩
    · cases h
  · cases h

theorem reachable_abort {st st' : St} (h : Reachable Initial (step NB_SEGMENTS) st)
    (hn : n ∈ segment_nums NB_SEGMENTS) (hpc : may_abort (st.segs n))
    (hs : reset_all_modified n (st.segs n).modified_old_objects.length
      (abort_data_structures st n) = .next st') : Reachable Initial (step NB_SEGMENTS) st' := by
  have hstep : step NB_SEGMENTS st (.abort_data_structures n)
      = .next (abort_data_structures st n) := by
    have hsegs : ∀ i ∈ (Act.abort_data_structures n).segment_num,
        i ∈ segment_nums NB_SEGMENTS := by
      intro i hi
      rw [Act.segment_num, Option.mem_some_iff] at hi
      exact hi ▸ hn
    rw [step, guarded, if_pos hsegs, C7.step_segment, guarded]
    exact if_pos hpc
  refine reachable_reset_all_modified (h.step trivial hstep) hn ?_ hs
  unfold abort_data_structures throw_away_nursery
  dsimp only
  rw [set_segs_self, set_segs_self]

/-- What a step does to the pages and the locks. -/
theorem sys_step_st {a : SysAct} (hs : sys_step NB_SEGMENTS s a = .next s') :
    s'.st = s.st ∨ (∃ b, step NB_SEGMENTS s.st b = .next s'.st) ∨
      ∃ n ∈ segment_nums NB_SEGMENTS, may_abort (s.st.segs n)
        ∧ reset_all_modified n (s.st.segs n).modified_old_objects.length
          (abort_data_structures s.st n) = .next s'.st := by
  have hlift : ∀ {b : Act} {i : ℕ} {p : Priv}, s.lift NB_SEGMENTS b i p = .next s' →
      ∃ b, step NB_SEGMENTS s.st b = .next s'.st := by
    intro b i p h
    obtain ⟨st, hst, h⟩ := Outcome.bind_eq_next.mp h
    cases h
    exact ⟨b, hst⟩
  cases a with
  | plain b =>
      obtain ⟨-, hs⟩ := guarded_eq_next.mp hs
      obtain ⟨st, hst, hs⟩ := Outcome.bind_eq_next.mp hs
      cases hs
      exact .inr (.inl ⟨b, hst⟩)
  | start_transaction i tl =>
      obtain ⟨-, hs⟩ := guarded_eq_next.mp hs
      obtain ⟨p, -, hs⟩ := Outcome.bind_eq_next.mp hs
      cases hs
      exact .inl rfl
  | stack i b =>
      obtain ⟨-, hs⟩ := guarded_eq_next.mp hs
      obtain ⟨p, -, hs⟩ := Outcome.bind_eq_next.mp hs
      cases hs
      exact .inl rfl
  | stm_write i obj marker => exact .inr (.inl (hlift (guarded_eq_next.mp hs).2))
  | stm_write_card i obj index marker => exact .inr (.inl (hlift (guarded_eq_next.mp hs).2))
  | stm_allocate_with_finalizer i obj l => exact .inr (.inl (hlift (guarded_eq_next.mp hs).2))
  | minor_collection i commit => exact .inr (.inl (hlift (guarded_eq_next.mp hs).2))
  | evacuate i word obj l val => exact .inr (.inl (hlift (guarded_eq_next.mp hs).2))
  | trace_young_outside_nursery i obj => exact .inr (.inl (hlift (guarded_eq_next.mp hs).2))
  | collect i val => exact .inr (.inl (hlift (guarded_eq_next.mp hs).2))
  | commit_transaction i =>
      obtain ⟨-, hs⟩ := guarded_eq_next.mp hs
      obtain ⟨st, hst, hs⟩ := Outcome.bind_eq_next.mp hs
      have hend := Outcome.ofOption_eq_next.mp hs
      refine .inr (.inl ⟨_, hst.trans ?_⟩)
      rw [st_of_end_commit hend]
  | abort_data_structures gs n =>
      obtain ⟨⟨-, hn, -, hpc⟩, hs⟩ := guarded_eq_next.mp hs
      obtain ⟨-, st, tl, hst, -, -, rfl⟩ := abort_eq_next hs
      exact .inr (.inr ⟨n, hn, hpc, hst⟩)
  | major_collection visited =>
      obtain ⟨-, hs⟩ := guarded_eq_next.mp hs
      obtain ⟨st, hst, hs⟩ := Outcome.bind_eq_next.mp hs
      cases hs
      exact .inr (.inl ⟨_, hst⟩)
  | _ =>
      obtain ⟨-, hs⟩ := guarded_eq_next.mp hs
      cases hs
      exact .inl rfl

/-- What happens to the pages and the locks is a run of `Transaction`. -/
theorem reachable_st (h : Reachable (Sys.Initial NB_SEGMENTS) (sys_step NB_SEGMENTS) s) :
    Reachable Initial (step NB_SEGMENTS) s.st := by
  induction h with
  | start hinit => exact .start hinit.st
  | step _ _ hs ih =>
      rcases sys_step_st hs with heq | ⟨b, hb⟩ | ⟨n, hn, hpc, habort⟩
      · rw [heq]
        exact ih
      · exact ih.step trivial hb
      · exact reachable_abort ih hn hpc habort

end

/-! ## The other fields of a segment -/

/-- What holds of them between two steps. -/
structure PrivInv (p : Priv) : Prop where
  nursery : ∀ w, p.nursery_current ≤ w → w < NURSERY_WORDS → p.nursery w = 0
  read_markers : ∀ x, p.read_markers x ≤ p.transaction_read_version
  read_version : p.transaction_read_version ≤ 0xff
  restorable : p.transaction_state = .ts_regular →
    Restorable p.running_thread p.entries_at_start p.shadowstack_at_start_of_transaction
  saved : p.transaction_state = .ts_regular → p.aborted = false →
    Saved p.running_thread p.entries_at_start p.shadowstack_at_start_of_transaction
  light : p.transaction_state ≠ .ts_none →
    p.light_finalizers_at_start <+: p.old_objects_with_light_finalizers ∨
      p.aborted = true ∧ p.old_objects_with_light_finalizers <+: p.light_finalizers_at_start
  aborted : p.aborted = true → p.transaction_state = .ts_regular

section PrivInv

variable {p p' : Priv}

theorem Priv.Initial.inv {i : ℕ} (h : p.Initial i) : PrivInv p where
  nursery w _ _ := h.nursery w
  read_markers x := by
    rw [h.read_markers]
    exact Nat.zero_le _
  read_version := h.transaction_read_version.le
  restorable hreg := absurd (h.transaction_state.symm.trans hreg) (by decide)
  saved hreg := absurd (h.transaction_state.symm.trans hreg) (by decide)
  light hne := absurd h.transaction_state hne
  aborted ha := absurd (h.aborted.symm.trans ha) (by decide)

theorem PrivInv.not_aborted (h : p.is_active = true) : p.aborted = false := by
  unfold Priv.is_active at h
  rw [Bool.and_eq_true, Bool.not_eq_true'] at h
  exact h.2

theorem PrivInv.light_of_active (h : PrivInv p) (ha : p.is_active = true) :
    p.light_finalizers_at_start <+: p.old_objects_with_light_finalizers := by
  have hab := PrivInv.not_aborted ha
  unfold Priv.is_active at ha
  rw [Bool.and_eq_true, decide_eq_true_eq] at ha
  refine (h.light ha.1).resolve_right (fun hr => ?_)
  rw [hab] at hr
  exact absurd hr.1 (by decide)

/-- The markers are at most the version, also after the version was
incremented. -/
theorem PrivInv.next_read_version (h : PrivInv p) :
    (∀ x, (C7.next_read_version p).read_markers x
        < (C7.next_read_version p).transaction_read_version)
      ∧ (C7.next_read_version p).transaction_read_version ≤ 0xff := by
  have hver := h.read_version
  unfold C7.next_read_version
  by_cases hold : p.transaction_read_version = 0xff
  · rw [if_pos hold]
    refine ⟨fun _ => Nat.zero_lt_one, ?_⟩
    show 1 ≤ 0xff
    decide
  · rw [if_neg hold]
    refine ⟨fun x => ?_, ?_⟩
    · exact Nat.lt_succ_of_le (h.read_markers x)
    · dsimp only
      omega

theorem PrivInv.start_transaction {tl : ThreadLocal} (h : PrivInv p) (hab : p.aborted = false)
    (hord : frames_ordered tl) (hs : C7.start_transaction p tl = some p') : PrivInv p' := by
  unfold C7.start_transaction at hs
  rw [Option.bind_eq_bind, Option.bind_eq_some_iff] at hs
  obtain ⟨t, ht, hs⟩ := hs
  rw [Option.pure_def, Option.some.injEq] at hs
  obtain ⟨hsaved, hentries, htop, -⟩ := saved_of_setjmp hord ht
  have hsaved' : Saved t t.entries t.shadowstack := by
    rw [hentries, htop]
    exact hsaved
  have hread := h.next_read_version
  have hnew : PrivInv (C7.next_read_version { p with
      transaction_state := .ts_regular
      running_thread := t
      shadowstack_at_start_of_transaction := t.shadowstack
      threadlocal_at_start_of_transaction := t.thread_local_obj
      entries_at_start := t.entries
      light_finalizers_at_start := p.old_objects_with_light_finalizers }) := by
    unfold C7.next_read_version at hread ⊢
    dsimp only
    by_cases hold : p.transaction_read_version = 0xff
    · rw [if_pos hold] at hread ⊢
      exact ⟨h.nursery, fun x => (hread.1 x).le, hread.2, fun _ => hsaved'.toRestorable,
        fun _ _ => hsaved', fun _ => .inl List.prefix_rfl, fun ha => absurd (hab.symm.trans ha)
          (by decide)⟩
    · rw [if_neg hold] at hread ⊢
      exact ⟨h.nursery, fun x => (hread.1 x).le, hread.2, fun _ => hsaved'.toRestorable,
        fun _ _ => hsaved', fun _ => .inl List.prefix_rfl, fun ha => absurd (hab.symm.trans ha)
          (by decide)⟩
  rw [← hs]
  exact hnew

theorem PrivInv.become_inevitable (h : PrivInv p) (ha : p.is_active = true) :
    PrivInv (C7.become_inevitable p) where
  nursery := h.nursery
  read_markers := h.read_markers
  read_version := h.read_version
  restorable hreg := by cases hreg
  saved hreg := by cases hreg
  light _ := .inl (h.light_of_active ha)
  aborted hab := absurd ((PrivInv.not_aborted ha).symm.trans hab) (by decide)

theorem PrivInv.stm_read (h : PrivInv p) (obj : ℕ) : PrivInv (C7.stm_read p obj) where
  nursery := h.nursery
  read_markers x := by
    unfold C7.stm_read
    by_cases hx : x = get_write_lock_idx obj
    · rw [hx]
      exact (Function.update_self _ _ _).le
    · exact (Function.update_of_ne hx _ _).le.trans (h.read_markers x)
  read_version := h.read_version
  restorable := h.restorable
  saved := h.saved
  light := h.light
  aborted := h.aborted

/-- What `PrivInv` does not depend on may change. -/
theorem PrivInv.with_lists (h : PrivInv p) (weakrefs : List ℕ) (markers : List (ℕ × ℕ))
    (finalizers : Option (finalizers_s ℕ)) (young : List ObjRef) (used : Bool) (number : ℕ) :
    PrivInv { p with
      young_weakrefs := weakrefs
      modified_old_objects_markers := markers
      finalizers := finalizers
      young_objects_with_light_finalizers := young
      overflow_number_has_been_used := used
      overflow_number := number } :=
  ⟨h.nursery, h.read_markers, h.read_version, h.restorable, h.saved, h.light, h.aborted⟩

theorem PrivInv.record_write (h : PrivInv p) (reads : Bool) (obj : ℕ)
    (marker : Option (ℕ × ℕ)) :
    PrivInv (if reads then C7.record_write p obj marker else p) := by
  split
  · exact (h.stm_read obj).with_lists _ _ _ _ _ _
  · exact h

/-- The program and the collections write into the used part of the nursery. -/
theorem PrivInv.write_nursery (h : PrivInv p) {nursery : ℕ → ℕ}
    (hn : ∀ w, p.nursery_current ≤ w → w < NURSERY_WORDS → nursery w = p.nursery w) :
    PrivInv { p with nursery := nursery } :=
  ⟨fun w hw hlt => (hn w hw hlt).trans (h.nursery w hw hlt), h.read_markers, h.read_version,
    h.restorable, h.saved, h.light, h.aborted⟩

theorem PrivInv.advance (h : PrivInv p) (size : ℕ) (weakrefs : List ℕ) :
    PrivInv { p with
      nursery_current := p.nursery_current + size
      young_weakrefs := weakrefs } :=
  ⟨fun w hw => h.nursery w (by dsimp only at hw; omega), h.read_markers, h.read_version,
    h.restorable, h.saved, h.light, h.aborted⟩

/-- The list of light finalizers grows at its end. -/
theorem PrivInv.append_light (h : PrivInv p) (ha : p.is_active = true) (added : List ℕ) :
    PrivInv { p with
      old_objects_with_light_finalizers := p.old_objects_with_light_finalizers ++ added } :=
  ⟨h.nursery, h.read_markers, h.read_version, h.restorable, h.saved,
    fun _ => .inl ((h.light_of_active ha).trans (List.prefix_append _ _)), h.aborted⟩

theorem PrivInv.stm_enable_light_finalizer (h : PrivInv p) (ha : p.is_active = true)
    (young_outside_nursery : List ℕ) (obj : ObjRef) :
    PrivInv (C7.stm_enable_light_finalizer p young_outside_nursery obj) := by
  unfold C7.stm_enable_light_finalizer
  cases obj with
  | nursery w => exact h.with_lists _ _ _ _ _ _
  | outside o =>
      dsimp only
      split
      · exact h.with_lists _ _ _ _ _ _
      · exact h.append_light ha [o]

theorem PrivInv.set_thread (h : PrivInv p) {tl : ThreadLocal}
    (hsaved : p.transaction_state = .ts_regular →
      Saved tl p.entries_at_start p.shadowstack_at_start_of_transaction) :
    PrivInv { p with running_thread := tl } :=
  ⟨h.nursery, h.read_markers, h.read_version, fun hreg => (hsaved hreg).toRestorable,
    fun hreg _ => hsaved hreg, h.light, h.aborted⟩

theorem PrivInv.throw_away_nursery (h : PrivInv p) (young_outside_nursery : List ℕ) :
    PrivInv (p.throw_away_nursery young_outside_nursery)
      ∧ ∀ w < NURSERY_WORDS, (p.throw_away_nursery young_outside_nursery).nursery w = 0 := by
  have hzero : ∀ w < NURSERY_WORDS,
      (p.throw_away_nursery young_outside_nursery).nursery w = 0 := by
    intro w hw
    unfold Priv.throw_away_nursery
    dsimp only
    split
    · rfl
    · exact h.nursery w (by omega) hw
  refine ⟨⟨fun w _ hw => hzero w hw, fun x => ?_, h.read_version, h.restorable, h.saved,
    h.light, h.aborted⟩, hzero⟩
  unfold Priv.throw_away_nursery
  dsimp only
  split
  · exact Nat.zero_le _
  · exact h.read_markers x

theorem PrivInv.end_minor_collection (h : PrivInv p) (ha : p.is_active = true)
    (young_outside_nursery : List ℕ) :
    PrivInv (C7.end_minor_collection p young_outside_nursery) := by
  have hdealt : PrivInv (deal_with_young_objects_with_finalizers { p with young_weakrefs := [] }) :=
    ((h.with_lists [] _ _ [] _ _).append_light ha _)
  exact (hdealt.throw_away_nursery young_outside_nursery).1

theorem PrivInv.end_major_collection (h : PrivInv p) (st : St) (visited : List ℕ) :
    PrivInv (C7.end_major_collection st visited p) where
  nursery := h.nursery
  read_markers x := by
    unfold C7.end_major_collection
    dsimp only
    split
    · exact Nat.zero_le _
    · exact h.read_markers x
  read_version := h.read_version
  restorable := h.restorable
  saved := h.saved
  light hne := (h.light hne).imp (fun hp => hp.filter _) (fun ⟨hab, hp⟩ => ⟨hab, hp.filter _⟩)
  aborted := h.aborted

/-! ### Light finalizers of an abort -/

variable {m : Memory} {gs n : ℕ}

theorem forget_light_finalizers_suffix (m : Memory) (n number gs : ℕ) (lst : List ℕ) :
    forget_light_finalizers m n number gs lst <:+ lst := by
  induction lst generalizing gs with
  | nil => exact List.suffix_rfl
  | cons obj lst ih =>
      rw [forget_light_finalizers]
      split
      · exact (ih n).trans (List.suffix_cons _ _)
      · exact List.suffix_rfl

theorem prefix_abort_finalizers (m : Memory) (gs n : ℕ) (p : Priv) :
    (abort_finalizers m gs n p).old_objects_with_light_finalizers
      <+: p.old_objects_with_light_finalizers := by
  have h := forget_light_finalizers_suffix m n p.overflow_number (gs_after_young p gs n)
    p.old_objects_with_light_finalizers.reverse
  rw [← List.reverse_prefix, List.reverse_reverse] at h
  exact h

theorem PrivInv.abort (h : PrivInv p) (hreg : p.transaction_state = .ts_regular)
    (young_outside_nursery : List ℕ) {tl : ThreadLocal}
    (htl : Restorable tl p.entries_at_start p.shadowstack_at_start_of_transaction) :
    PrivInv { (abort_finalizers m gs n p).throw_away_nursery young_outside_nursery with
      modified_old_objects_markers := []
      young_weakrefs := []
      running_thread := tl
      aborted := true } := by
  have hpre := prefix_abort_finalizers m gs n p
  have hfin : PrivInv { p with finalizers := none, young_objects_with_light_finalizers := [] } :=
    h.with_lists _ _ none [] _ _
  have hthrow := (hfin.throw_away_nursery young_outside_nursery).1
  refine ⟨hthrow.nursery, hthrow.read_markers, h.read_version, fun _ => htl,
    fun _ hab => (by cases hab), fun hne => ?_, fun _ => hreg⟩
  rcases h.light hne with hat | ⟨-, hold⟩
  · exact (List.prefix_or_prefix_of_prefix hat hpre).imp_right (fun hp => ⟨rfl, hp⟩)
  · exact .inr ⟨rfl, hpre.trans hold⟩

end PrivInv

section

variable {NB_SEGMENTS : ℕ} {s s' : Sys} {n : ℕ}

/-- A step that changes the fields of one segment. -/
theorem inv_of_set (h : ∀ j, PrivInv (s.priv j)) {i : ℕ} {p : Priv} (hp : PrivInv p) (st : St)
    (highest : ℕ) : ∀ j, PrivInv (({ s with
      st := st, highest_overflow_number := highest }.set i p).priv j) := by
  intro j
  show PrivInv (Function.update s.priv i p j)
  by_cases hj : j = i
  · rw [hj, Function.update_self]
    exact hp
  · rw [Function.update_of_ne hj]
    exact h j

theorem inv_of_lift (h : ∀ j, PrivInv (s.priv j)) {i : ℕ} {p : Priv} {a : Act} (hp : PrivInv p)
    (hs : s.lift NB_SEGMENTS a i p = .next s') : ∀ j, PrivInv (s'.priv j) := by
  obtain ⟨st, -, hs⟩ := Outcome.bind_eq_next.mp hs
  cases hs
  exact inv_of_set h hp st _

theorem inv_of_end_commit (h : ∀ j, PrivInv (s.priv j)) {i : ℕ}
    (ha : (s.priv i).is_active = true) (hs : end_commit s i = some s') :
    ∀ j, PrivInv (s'.priv j) := by
  have hp : ∀ (number : ℕ) (used : Bool), PrivInv { s.priv i with
      transaction_state := .ts_none
      modified_old_objects_markers := []
      finalizers := none
      running_thread := rewind_jmp_forget (s.priv i).running_thread
      overflow_number := number
      overflow_number_has_been_used := used } := fun number used =>
    { nursery := (h i).nursery
      read_markers := (h i).read_markers
      read_version := (h i).read_version
      restorable := fun hreg => by cases hreg
      saved := fun hreg => by cases hreg
      light := fun hne => absurd rfl hne
      aborted := fun hab => absurd ((PrivInv.not_aborted ha).symm.trans hab) (by decide) }
  unfold end_commit at hs
  dsimp only at hs
  split at hs
  · obtain ⟨-, hs⟩ := c_assert_eq_some.mp hs
    cases hs
    exact inv_of_set h (hp _ false) s.st _
  · cases hs
    exact inv_of_set h (hp _ _) s.st s.highest_overflow_number

theorem PrivInv.sys_step {a : SysAct} (h : ∀ j, PrivInv (s.priv j))
    (hs : C7.sys_step NB_SEGMENTS s a = .next s') : ∀ j, PrivInv (s'.priv j) := by
  cases a with
  | plain b =>
      obtain ⟨-, hs⟩ := guarded_eq_next.mp hs
      obtain ⟨st, -, hs⟩ := Outcome.bind_eq_next.mp hs
      cases hs
      exact h
  | start_transaction i tl =>
      obtain ⟨⟨-, hnone, hord⟩, hs⟩ := guarded_eq_next.mp hs
      obtain ⟨p, hp, hs⟩ := Outcome.bind_eq_next.mp hs
      cases hs
      have hab : (s.priv i).aborted = false := by
        by_contra hab
        rw [Bool.not_eq_false] at hab
        exact absurd (hnone.symm.trans ((h i).aborted hab)) (by decide)
      exact inv_of_set h ((h i).start_transaction hab hord (Outcome.ofOption_eq_next.mp hp)) s.st _
  | become_inevitable i =>
      obtain ⟨⟨ha, -⟩, hs⟩ := guarded_eq_next.mp hs
      cases hs
      exact inv_of_set h ((h i).become_inevitable ha) s.st _
  | stm_read i obj =>
      obtain ⟨-, hs⟩ := guarded_eq_next.mp hs
      cases hs
      exact inv_of_set h ((h i).stm_read obj) s.st _
  | stm_write i obj marker =>
      exact inv_of_lift h ((h i).record_write _ obj marker) (guarded_eq_next.mp hs).2
  | stm_write_card i obj index marker =>
      exact inv_of_lift h ((h i).record_write _ obj marker) (guarded_eq_next.mp hs).2
  | stm_allocate i size =>
      obtain ⟨-, hs⟩ := guarded_eq_next.mp hs
      cases hs
      exact inv_of_set h ((h i).advance size _) s.st _
  | advance_nursery i size =>
      obtain ⟨-, hs⟩ := guarded_eq_next.mp hs
      cases hs
      exact inv_of_set h ((h i).advance size _) s.st _
  | stm_allocate_weakref i =>
      obtain ⟨-, hs⟩ := guarded_eq_next.mp hs
      cases hs
      exact inv_of_set h ((h i).advance 2 _) s.st _
  | stm_allocate_with_finalizer i obj l =>
      exact inv_of_lift h ((h i).with_lists _ _ _ _ _ _) (guarded_eq_next.mp hs).2
  | stm_enable_light_finalizer i obj =>
      obtain ⟨⟨ha, -⟩, hs⟩ := guarded_eq_next.mp hs
      cases hs
      exact inv_of_set h ((h i).stm_enable_light_finalizer ha _ obj) s.st _
  | nursery_write i word val =>
      obtain ⟨⟨-, hw, -⟩, hs⟩ := guarded_eq_next.mp hs
      cases hs
      refine inv_of_set h ((h i).write_nursery (fun w hle _ => ?_)) s.st _
      exact Function.update_of_ne (by omega) _ _
  | stack i b =>
      obtain ⟨⟨ha, hout⟩, hs⟩ := guarded_eq_next.mp hs
      obtain ⟨tl, htl, hs⟩ := Outcome.bind_eq_next.mp hs
      cases hs
      refine inv_of_set h ((h i).set_thread (fun hreg => ?_)) s.st _
      exact ((h i).saved hreg (PrivInv.not_aborted ha)).stack_step (hout hreg)
        (Outcome.ofOption_eq_next.mp htl)
  | execute_finalizers i finalizers =>
      obtain ⟨-, hs⟩ := guarded_eq_next.mp hs
      cases hs
      exact inv_of_set h ((h i).with_lists _ _ _ _ _ _) s.st _
  | minor_collection i commit =>
      exact inv_of_lift h ((h i).with_lists _ _ _ _ _ _) (guarded_eq_next.mp hs).2
  | trace_root i k x y =>
      obtain ⟨⟨ha, hk, -⟩, hs⟩ := guarded_eq_next.mp hs
      cases hs
      refine inv_of_set h ((h i).set_thread (fun hreg => ?_)) s.st _
      exact ((h i).saved hreg (PrivInv.not_aborted ha)).trace_root hk x y
  | trace_markers i markers =>
      obtain ⟨-, hs⟩ := guarded_eq_next.mp hs
      cases hs
      exact inv_of_set h ((h i).with_lists _ _ _ _ _ _) s.st _
  | evacuate i word obj l val =>
      obtain ⟨⟨-, hw, -⟩, hs⟩ := guarded_eq_next.mp hs
      refine inv_of_lift h ((h i).write_nursery (fun w hle _ => ?_)) hs
      rw [Function.update_of_ne (by omega), Function.update_of_ne (by omega)]
  | trace_young_outside_nursery i obj => exact inv_of_lift h (h i) (guarded_eq_next.mp hs).2
  | collect i val =>
      obtain ⟨ha, hs⟩ := guarded_eq_next.mp hs
      refine inv_of_lift h ?_ hs
      split
      · exact (h i).end_minor_collection ha _
      · exact h i
  | commit_transaction i =>
      obtain ⟨ha, hs⟩ := guarded_eq_next.mp hs
      obtain ⟨st, -, hs⟩ := Outcome.bind_eq_next.mp hs
      exact inv_of_end_commit (s := { s with st := st }) h ha (Outcome.ofOption_eq_next.mp hs)
  | abort_data_structures gs n =>
      obtain ⟨-, hs⟩ := guarded_eq_next.mp hs
      obtain ⟨hreg, st, tl, -, htl, -, rfl⟩ := abort_eq_next hs
      obtain ⟨t, ht, -, -, hagain⟩ := ((h n).restorable hreg).restore
      have htt := Option.some.inj (htl.symm.trans ht)
      rw [htt]
      exact inv_of_set h ((h n).abort hreg _ (hagain _)) st _
  | finish_abort n =>
      obtain ⟨-, hs⟩ := guarded_eq_next.mp hs
      cases hs
      have hp : PrivInv { s.priv n with transaction_state := .ts_none, aborted := false } :=
        { nursery := (h n).nursery
          read_markers := (h n).read_markers
          read_version := (h n).read_version
          restorable := fun hreg => by cases hreg
          saved := fun hreg => by cases hreg
          light := fun hne => absurd rfl hne
          aborted := fun hab => by cases hab }
      exact inv_of_set h hp s.st _
  | major_collection visited =>
      obtain ⟨-, hs⟩ := guarded_eq_next.mp hs
      obtain ⟨st, -, hs⟩ := Outcome.bind_eq_next.mp hs
      cases hs
      exact fun j => (h j).end_major_collection _ _

theorem inv_of_sys_reachable (h : Reachable (Sys.Initial NB_SEGMENTS) (sys_step NB_SEGMENTS) s) :
    ∀ j, PrivInv (s.priv j) :=
  h.invariant (fun _ hinit j => (hinit.priv j).inv) (fun _ _ _ hinv _ hs => PrivInv.sys_step hinv hs)

end

/-! ## Aborts -/

section

variable {NB_SEGMENTS : ℕ} {s s' : Sys} {gs n : ℕ}

/-- The light finalizers that the transaction has registered. -/
def registered (p : Priv) : List ℕ :=
  p.old_objects_with_light_finalizers.drop p.light_finalizers_at_start.length

/-- The loop of `abort_finalizers` takes all objects that the transaction has
registered for overflow objects: the last one as seen through the `gs` register
of the thread that aborts, the others as seen through the aborted segment. -/
def seen_as_overflow (s : Sys) (gs n : ℕ) : Prop :=
  let p := s.priv n
  (∀ o ∈ (registered p).getLast?,
    flags_say_overflow s.st.mem (gs_after_young p gs n) p.overflow_number o = true)
  ∧ ∀ o ∈ (registered p).dropLast, flags_say_overflow s.st.mem n p.overflow_number o = true

theorem segs_abort_data_structures (st : St) (n : ℕ) :
    (abort_data_structures st n).segs n = { st.segs n with
      pc := .resetting (st.segs n).modified_old_objects.length
      young_outside_nursery := [] } := by
  unfold abort_data_structures throw_away_nursery
  dsimp only
  rw [set_segs_self, set_segs_self]

theorem others_abort_data_structures (st : St) {j : ℕ} (hj : j ≠ n) :
    (abort_data_structures st n).segs j = st.segs j := by
  unfold abort_data_structures throw_away_nursery
  dsimp only
  rw [set_segs_of_ne _ hj, set_segs_of_ne _ hj]

theorem kind_abort_data_structures (st : St) (o : ℕ) :
    (abort_data_structures st n).kind o
      = if o ∈ (st.segs n).young_outside_nursery then .free else st.kind o := rfl

/-- After an abort no lock byte of an object is left that was modified, or
young, or an overflow object. -/
theorem ResetAll.locks {st st' : St} (h : ResetAll NB_SEGMENTS (abort_data_structures st n) st' n)
    (h0 : Inv NB_SEGMENTS false st) {o x : ℕ}
    (ho : o ∈ (st.segs n).modified_old_objects ∨ st.kind o = .young n ∨ st.kind o = .overflow n)
    (hpc : may_abort (st.segs n)) (hle : get_write_lock_idx o ≤ x)
    (hlt : x < get_write_lock_idx (o + (st.layout o).size)) : st'.write_locks x = 0 := by
  have hlayout : st'.layout = st.layout := h.layout
  have hkf : st.kind o ≠ .free := by
    rcases ho with hm | hk | hk
    · rw [h0.old_of_modified hm]
      decide
    · rw [hk]
      simp
    · rw [hk]
      simp
  have hr : (st.segs n).pc.is_resetting = false := by
    rcases hpc with hpc | hpc | hpc <;> rw [hpc] <;> rfl
  have hempty : remaining (st'.segs n) = [] ∧ (st'.segs n).large_overflow_objects = [] := by
    rw [h.seg]
    exact ⟨rfl, rfl⟩
  have hothers : ∀ j, j ≠ n → st'.segs j = st.segs j := fun j hj =>
    (h.others j hj).trans (others_abort_data_structures st hj)
  -- no other segment has the object in a list
  have hrem : ∀ j, o ∉ remaining (st'.segs j) := by
    intro j hj
    by_cases hjn : j = n
    · rw [hjn, hempty.1] at hj
      cases hj
    · rw [hothers j hjn] at hj
      rcases ho with hm | hk | hk
      · rw [← remaining_eq hr] at hm
        exact hjn (h0.owner_unique hm hj)
      · rw [h0.old_of_remaining hj] at hk
        cases hk
      · rw [h0.old_of_remaining hj] at hk
        cases hk
  have hov : ∀ j, o ∉ (st'.segs j).large_overflow_objects := by
    intro j hj
    by_cases hjn : j = n
    · rw [hjn, hempty.2] at hj
      cases hj
    · rw [hothers j hjn] at hj
      have hkj := (h0.lists j).overflow o hj
      rcases ho with hm | hk | hk
      · rw [h0.old_of_modified hm] at hkj
        cases hkj
      · rw [hk] at hkj
        cases hkj
      · rw [hk, Kind.overflow.injEq] at hkj
        exact hjn hkj.symm
  by_contra hne
  obtain ⟨o', ho', hx⟩ := h.inv.locks_used x hne
  by_cases hoo : o' = o
  · rw [hoo] at ho' hx
    exact hne (h.inv.locks_eq_zero ho' hrem hov hx)
  · -- another object has none of its bytes there
    have ho'f : st.kind o' ≠ .free := by
      intro hfree
      apply ho'
      have hk : (abort_data_structures st n).kind o' = .free := by
        rw [kind_abort_data_structures, hfree]
        split <;> rfl
      rw [h.kind]
      dsimp only
      rw [hk]
      rfl
    have hx' := lock_of_lt hx
    rw [hlayout] at hx'
    rcases h0.disjoint hkf ho'f (Ne.symm hoo) with hapart | hapart
    · have : get_write_lock_idx (o + (st.layout o).size) ≤ get_write_lock_idx o' :=
        Nat.div_le_div_right hapart
      omega
    · have : get_write_lock_idx (o' + (st.layout o').size) ≤ get_write_lock_idx o :=
        Nat.div_le_div_right hapart
      omega

/-- The fields of segment `i` after the setup. -/
def Priv.setup (i : ℕ) (tl : ThreadLocal) : Priv where
  transaction_state := .ts_none
  nursery _ := 0
  nursery_current := 0
  read_markers _ := 0
  transaction_read_version := 0xff
  modified_old_objects_markers := []
  young_weakrefs := []
  finalizers := none
  young_objects_with_light_finalizers := []
  old_objects_with_light_finalizers := []
  overflow_number := GCFLAG_OVERFLOW_NUMBER_bit0 * i
  overflow_number_has_been_used := false
  running_thread := tl
  shadowstack_at_start_of_transaction := 0
  threadlocal_at_start_of_transaction := 0
  aborted := false
  entries_at_start _ := 0
  light_finalizers_at_start := []

/-- A thread in its outermost frame, with one root. -/
def one_root : ThreadLocal where
  entries _ := 8192
  shadowstack := 1
  thread_local_obj := 0
  head := [0]
  moved_off_base := 0
  moved_off_ssbase := 0
  moved_off := []

def one_thread : Sys where
  st := one_object small
  priv i := Priv.setup i one_root
  highest_overflow_number := GCFLAG_OVERFLOW_NUMBER_bit0 * 2

theorem one_thread_initial : Sys.Initial 2 one_thread where
  st := one_object_initial small
  priv _ := ⟨rfl, fun _ => rfl, rfl, fun _ => rfl, rfl, rfl, ⟨rfl, rfl⟩, rfl⟩
  highest_overflow_number := rfl

/-- A transaction of segment 1 changes the root, writes to the prebuilt object,
and moves an object with a light finalizer out of the nursery. -/
def light_finalizer_run (commit : Bool) : List SysAct :=
  [.start_transaction 1 one_root, .stack 1 (.set 0 4096), .stm_write 1 8192 none,
    .plain (.page_privatize 1), .plain (.write_slowpath_owned 1), .plain (.store 1 8192 8 1),
    .stm_allocate 1 2, .stm_enable_light_finalizer 1 (.nursery 0), .minor_collection 1 commit,
    .collect 1 (fun _ => 0), .collect 1 (fun _ => 0), .collect 1 (fun _ => 0),
    .evacuate 1 0 64 small (fun _ => 0), .collect 1 (fun _ => 0), .collect 1 (fun _ => 0)]

end

end Stmgc.C7
