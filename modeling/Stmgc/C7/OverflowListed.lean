/-
Every overflow object of a segment is in its `large_overflow_objects`, or is
still to be traced by the minor collection that has moved it out
([`OverflowListed.of_reachable`]).
-/
import Stmgc.C7.TransactionFate

namespace Stmgc.C7

open Stmgc.Lib

section

variable {NB_SEGMENTS i obj : ℕ} {s s' : St} {a : Act}

/-- Where an overflow object is listed, and that a minor collection has a list
for those that it moves out. -/
structure OverflowListed (s : St) : Prop where
  listed : ∀ o i, s.kind o = .overflow i → o ∈ (s.segs i).large_overflow_objects
    ∨ (s.segs i).pc.collecting = true
      ∧ (o, true) ∈ (s.segs i).objects_pointing_to_nursery.getD []
  created : ∀ i, (s.segs i).pc.collecting = true →
    (s.segs i).objects_pointing_to_nursery.isSome = true

/-- Nothing is dropped from these lists. -/
structure KeepsLists (seg seg' : Segment) : Prop where
  overflow : ∀ o ∈ seg.large_overflow_objects, o ∈ seg'.large_overflow_objects
  moved : seg.pc.collecting = true → seg'.pc.collecting = true ∧
    ∀ e ∈ seg.objects_pointing_to_nursery.getD [], e ∈ seg'.objects_pointing_to_nursery.getD []
  created : (seg.pc.collecting = true → seg.objects_pointing_to_nursery.isSome = true) →
    seg'.pc.collecting = true → seg'.objects_pointing_to_nursery.isSome = true

theorem KeepsLists.refl (seg : Segment) : KeepsLists seg seg :=
  ⟨fun _ ho => ho, fun h => ⟨h, fun _ he => he⟩, id⟩

theorem KeepsLists.set {j : ℕ} {seg' : Segment} {t : St} (ht : t.segs = (s.set j seg').segs)
    (h : i = j → KeepsLists (s.segs i) seg') : KeepsLists (s.segs i) (t.segs i) := by
  rw [ht]
  by_cases hij : i = j
  · subst hij
    rw [set_segs_self]
    exact h rfl
  · rw [set_segs_of_ne _ hij]
    exact .refl _

/-- Outside of minor collections only `large_overflow_objects` counts. -/
theorem KeepsLists.of_not_collecting {seg seg' : Segment} (hpc : seg.pc.collecting = false)
    (hpc' : seg'.pc.collecting = false)
    (hov : seg'.large_overflow_objects = seg.large_overflow_objects) : KeepsLists seg seg' := by
  refine ⟨fun o ho => ?_, fun h => ?_, fun _ h => ?_⟩
  · rw [hov]
    exact ho
  · rw [hpc] at h
    cases h
  · rw [hpc'] at h
    cases h

/-- No overflow object is new. -/
theorem OverflowListed.of_keeps (h : OverflowListed s) (hkind : ∀ o j, s'.kind o = .overflow j →
    s.kind o = .overflow j) (hkeeps : ∀ j, KeepsLists (s.segs j) (s'.segs j)) : OverflowListed s' := by
  refine ⟨fun o j ho => ?_, fun j => (hkeeps j).created (h.created j)⟩
  rcases h.listed o j (hkind o j ho) with hov | ⟨hpc, hmoved⟩
  · exact .inl ((hkeeps j).overflow o hov)
  · obtain ⟨hpc', hpointing⟩ := (hkeeps j).moved hpc
    exact .inr ⟨hpc', hpointing _ hmoved⟩

/-- An object is moved out of the nursery, and to be traced. -/
theorem OverflowListed.of_moved (h : OverflowListed s) (hpc : (s.segs i).pc.collecting = true)
    (hkind : ∀ o j, s'.kind o = .overflow j → s.kind o = .overflow j ∨ o = obj ∧ j = i)
    {seg' : Segment} (hsegs : s'.segs = (s.set i seg').segs) (hpc' : seg'.pc = (s.segs i).pc)
    (hov : seg'.large_overflow_objects = (s.segs i).large_overflow_objects)
    (hpointing : seg'.objects_pointing_to_nursery
      = (s.segs i).objects_pointing_to_nursery.map (fun lst => list_append lst (obj, true))) :
    OverflowListed s' := by
  obtain ⟨lst, hlst⟩ := Option.isSome_iff_exists.mp (h.created i hpc)
  rw [hlst, Option.map_some] at hpointing
  have hkeeps : ∀ j, KeepsLists (s.segs j) (s'.segs j) := by
    refine fun j => .set hsegs fun hij => ?_
    rw [hij]
    refine ⟨fun o ho => ?_, fun hc => ⟨?_, fun e he => ?_⟩, fun _ _ => ?_⟩
    · rw [hov]
      exact ho
    · rw [hpc']
      exact hc
    · rw [hlst] at he
      rw [hpointing]
      exact mem_list_append.mpr (.inl he)
    · rw [hpointing]
      rfl
  refine ⟨fun o j ho => ?_, fun j => (hkeeps j).created (h.created j)⟩
  rcases hkind o j ho with hold | ⟨rfl, rfl⟩
  · rcases h.listed o j hold with hov | ⟨hpc, hmoved⟩
    · exact .inl ((hkeeps j).overflow o hov)
    · obtain ⟨hpc', hpointing⟩ := (hkeeps j).moved hpc
      exact .inr ⟨hpc', hpointing _ hmoved⟩
  · right
    rw [hsegs, set_segs_self, hpc', hpointing]
    exact ⟨hpc, mem_list_append.mpr (.inr rfl)⟩

/-- The transaction of a segment is over. -/
theorem OverflowListed.of_cleared (h : OverflowListed s) (hnone : ∀ o, s'.kind o ≠ .overflow i)
    (hkind : ∀ o j, s'.kind o = .overflow j → s.kind o = .overflow j)
    {seg' : Segment} (hsegs : s'.segs = (s.set i seg').segs) (hpc : seg'.pc.collecting = false) :
    OverflowListed s' := by
  refine ⟨fun o j ho => ?_, fun j hj => ?_⟩
  · have hji : j ≠ i := by
      rintro rfl
      exact hnone o ho
    rw [hsegs, set_segs_of_ne _ hji]
    exact h.listed o j (hkind o j ho)
  · rw [hsegs] at hj ⊢
    by_cases hji : j = i
    · rw [hji, set_segs_self, hpc] at hj
      cases hj
    · rw [set_segs_of_ne _ hji] at hj ⊢
      exact h.created j hj

/-! ## The write barriers -/

theorem keepsLists_write_slowpath_owned {j : ℕ} {mark_card : Option ℕ}
    (hpc : (s.segs j).pc.collecting = false)
    (hs : write_slowpath_owned s j obj mark_card = .next s') :
    KeepsLists (s.segs i) (s'.segs i) := by
  unfold write_slowpath_owned at hs
  dsimp only at hs
  split at hs
  · split at hs
    · cases hs
      exact .set rfl fun hij => .of_not_collecting (hij ▸ hpc) rfl (by rw [hij])
    · cases hs
      exact .set rfl fun hij => .of_not_collecting (hij ▸ hpc) rfl (by rw [hij])
  · cases hs

theorem keepsLists_write_slowpath_common {j : ℕ} {mark_card : Option ℕ}
    (hpc : (s.segs j).pc.collecting = false)
    (hs : write_slowpath_common s j obj mark_card = .next s') :
    KeepsLists (s.segs i) (s'.segs i) := by
  unfold write_slowpath_common at hs
  dsimp only at hs
  split at hs
  · split at hs
    · unfold write_slowpath_overflow_obj at hs
      dsimp only at hs
      split at hs
      · split at hs
        · cases hs
        · cases hs
          exact .set rfl fun hij => .of_not_collecting (hij ▸ hpc) hpc (by rw [hij])
      · cases hs
        exact .set rfl fun hij => .of_not_collecting (hij ▸ hpc) hpc (by rw [hij])
    · cases hs
  · split at hs
    · cases hs
      exact .set rfl fun hij => .of_not_collecting (hij ▸ hpc) rfl (by rw [hij])
    · split at hs
      · exact keepsLists_write_slowpath_owned hpc hs
      · cases hs

/-! ## Minor collections -/

/-- What is listed when the last item was taken from
`objects_pointing_to_nursery`. -/
theorem OverflowListed.popped {lst : List (ℕ × Bool)} {sync : Bool} {t : St}
    (h : OverflowListed s) (hpc : (s.segs i).pc.collecting = true)
    (hlst : (s.segs i).objects_pointing_to_nursery.getD [] = lst ++ [(obj, sync)])
    (hkind : t.kind = s.kind)
    (hsegs : t.segs = (s.set i { s.segs i with objects_pointing_to_nursery := some lst }).segs)
    (o j : ℕ) (ho : t.kind o = .overflow j) : o ∈ (t.segs j).large_overflow_objects
      ∨ ((t.segs j).pc.collecting = true
        ∧ (o, true) ∈ (t.segs j).objects_pointing_to_nursery.getD [])
      ∨ (j = i ∧ o = obj ∧ sync = true) := by
  rw [hkind] at ho
  rw [hsegs]
  by_cases hj : j = i
  · rw [hj] at ho ⊢
    rw [set_segs_self]
    rcases h.listed o i ho with hov | ⟨-, hmoved⟩
    · exact .inl hov
    · rw [hlst, List.mem_append, List.mem_singleton, Prod.mk.injEq] at hmoved
      rcases hmoved with hmem | ⟨heq, hsync⟩
      · exact .inr (.inl ⟨hpc, hmem⟩)
      · exact .inr (.inr ⟨rfl, heq, hsync.symm⟩)
  · rw [set_segs_of_ne _ hj]
    rcases h.listed o j ho with hov | hmoved
    · exact .inl hov
    · exact .inr (.inl hmoved)

/-- A turn of `collect_oldrefs_to_nursery`, or the end of it. -/
theorem OverflowListed.collect_oldrefs_to_nursery {commit : Bool} {val : ℕ → UInt8}
    (h : OverflowListed s) (hpc : (s.segs i).pc = .collect_oldrefs commit)
    (hs : C7.collect_oldrefs_to_nursery NB_SEGMENTS s i commit val = .next s') :
    OverflowListed s' := by
  have hcollecting : (s.segs i).pc.collecting = true := by
    rw [hpc]
    rfl
  unfold C7.collect_oldrefs_to_nursery at hs
  dsimp only at hs
  split at hs
  · rename_i hpop
    cases hs
    have hnil := list_pop_item_eq_none.mp hpop
    unfold throw_away_nursery
    dsimp only
    refine ⟨fun o j ho => ?_, fun j hj => ?_⟩
    · have hkind : s.kind o = .overflow j := by
        change (if o ∈ (s.segs i).young_outside_nursery then Kind.free else s.kind o) = _ at ho
        split at ho
        · cases ho
        · exact ho
      by_cases hj : j = i
      · rw [hj] at hkind ⊢
        rw [set_segs_self, set_segs_self]
        rcases h.listed o i hkind with hov | ⟨-, hmoved⟩
        · exact .inl hov
        · rw [hnil] at hmoved
          cases hmoved
      · rw [set_segs_of_ne _ hj, set_segs_of_ne _ hj]
        exact h.listed o j hkind
    · by_cases hji : j = i
      · rw [hji, set_segs_self] at hj
        dsimp only at hj
        split at hj
        · cases hj
        · cases hj
      · rw [set_segs_of_ne _ hji, set_segs_of_ne _ hji] at hj ⊢
        exact h.created j hj
  · rename_i lst obj sync hpop
    have hlst := list_pop_item_eq_some hpop
    split at hs
    · rename_i t hnow
      have hsegs : t.segs = (s.set i { s.segs i with
        objects_pointing_to_nursery := some lst }).segs := segs_collect_now hnow
      have hkind : t.kind = s.kind := (kind_collect_now hnow).trans rfl
      have hlisted := h.popped hcollecting hlst hkind hsegs
      have hcreated : ∀ j, (t.segs j).pc.collecting = true →
          (t.segs j).objects_pointing_to_nursery.isSome = true := by
        intro j hj
        rw [hsegs] at hj ⊢
        by_cases hji : j = i
        · rw [hji, set_segs_self]
          rfl
        · rw [set_segs_of_ne _ hji] at hj ⊢
          exact h.created j hj
      split at hs
      · unfold age_object at hs
        dsimp only at hs
        split at hs
        · split at hs
          · split at hs
            · cases hs
            · -- the object is synchronized, and old
              cases hs
              refine ⟨fun o j ho => ?_, hcreated⟩
              dsimp only at ho
              rw [Function.update_apply] at ho
              split at ho
              · cases ho
              · rename_i hne
                rcases hlisted o j ho with hov | hmoved | ⟨-, heq, -⟩
                · exact .inl hov
                · exact .inr hmoved
                · exact absurd heq hne
          · cases hs
        · cases hs
          refine ⟨fun o j ho => ?_, fun j hj => ?_⟩
          · by_cases hji : j = i
            · rw [hji] at ho ⊢
              rw [set_segs_self]
              dsimp only
              rcases hlisted o i ho with hov | hmoved | ⟨-, heq, -⟩
              · exact .inl (mem_list_append.mpr (.inl hov))
              · exact .inr hmoved
              · exact .inl (mem_list_append.mpr (.inr heq))
            · rw [set_segs_of_ne _ hji]
              rcases hlisted o j ho with hov | hmoved | ⟨heq, -, -⟩
              · exact .inl hov
              · exact .inr hmoved
              · exact absurd heq hji
          · by_cases hji : j = i
            · rw [hji, set_segs_self] at hj ⊢
              exact hcreated i hj
            · rw [set_segs_of_ne _ hji] at hj ⊢
              exact hcreated j hj
      · rename_i hsync
        cases hs
        refine ⟨fun o j ho => ?_, hcreated⟩
        rcases hlisted o j ho with hov | hmoved | ⟨-, -, htrue⟩
        · exact .inl hov
        · exact .inr hmoved
        · exact absurd htrue hsync
    · rename_i r hr
      exact absurd hs (hr _)

theorem OverflowListed.collect {val : ℕ → UInt8} (h : OverflowListed s)
    (hs : step_segment NB_SEGMENTS s (.collect i val) = .next s') : OverflowListed s' := by
  cases hpc : (s.segs i).pc with
  | collect_cardrefs commit was_null =>
      simp only [step_segment, hpc] at hs
      have hkind := kind_collect_cardrefs_to_nursery hs
      refine h.of_keeps (fun o j ho => by rw [← hkind]; exact ho) fun j => ?_
      unfold collect_cardrefs_to_nursery at hs
      dsimp only at hs
      split at hs
      · cases hs
        refine .set rfl fun hij => ?_
        rw [hij]
        refine ⟨fun o ho => ho, fun _ => ⟨?_, fun e he => he⟩,
          fun _ _ => h.created i (by rw [hpc]; rfl)⟩
        dsimp only
        split <;> rfl
      · have hseg : ∀ lst, j = i → KeepsLists (s.segs j)
            { s.segs i with old_objects_with_cards := lst } := by
          intro lst hij
          rw [hij]
          exact ⟨fun o ho => ho, fun hc => ⟨hc, fun e he => he⟩, id⟩
        split at hs
        · unfold trace_card_object at hs
          dsimp only at hs
          split at hs
          · cases hs
            exact .set rfl (hseg _)
          · cases hs
        · cases hs
          exact .set rfl (hseg _)
  | collect_modified commit todo =>
      simp only [step_segment, hpc] at hs
      have hkind := kind_collect_modified_old_objects hs
      refine h.of_keeps (fun o j ho => by rw [← hkind]; exact ho) fun j => ?_
      unfold collect_modified_old_objects at hs
      dsimp only at hs
      split at hs
      · cases hs
        refine .set rfl fun hij => ?_
        rw [hij]
        exact ⟨fun o ho => ho, fun _ => ⟨rfl, fun e he => he⟩,
          fun _ _ => h.created i (by rw [hpc]; rfl)⟩
      · refine .set (segs_collect_now hs) fun hij => ?_
        rw [hij]
        exact ⟨fun o ho => ho, fun _ => ⟨rfl, fun e he => he⟩,
          fun _ _ => h.created i (by rw [hpc]; rfl)⟩
  | collect_oldrefs commit =>
      simp only [step_segment, hpc] at hs
      exact h.collect_oldrefs_to_nursery hpc hs
  | _ =>
      simp only [step_segment, hpc] at hs
      cases hs

/-! ## Major collections -/

theorem not_collecting_of_may_collect {visited : List ℕ} (h : Inv NB_SEGMENTS false s)
    (hmay : may_collect NB_SEGMENTS s visited) (j : ℕ) : (s.segs j).pc.collecting = false := by
  by_cases hj : j ∈ segment_nums NB_SEGMENTS
  · rcases (hmay.1 j hj).1 with hpc | hpc
    all_goals
      rw [hpc]
      rfl
  · rw [h.absent j hj]
    rfl

theorem OverflowListed.major_collection {visited : List ℕ} (h : OverflowListed s)
    (hinv : Inv NB_SEGMENTS false s) (hmay : may_collect NB_SEGMENTS s visited)
    (hs : major_collection_now NB_SEGMENTS s visited = some s') : OverflowListed s' := by
  have hpc := not_collecting_of_may_collect hinv hmay
  have hvisited := fun o => kind_major_collection (o := o) hinv hmay hs
  obtain ⟨t, -, ⟨hkind, hkept⟩, wl, -, rfl⟩ := hinv.cleaned_of_major_collection hmay hs
  refine ⟨fun o j ho => .inl ?_, fun j hj => ?_⟩
  · -- an overflow object that is left was visited, so it is not filtered out
    have hold : s.kind o = .overflow j := by
      change (if t.write_locks (get_write_lock_idx o) = WL_VISITED then t.kind o else .free) = _
        at ho
      rw [hkind] at ho
      split at ho
      · exact ho
      · cases ho
    have hv := hvisited o (by rw [hold]; nofun)
    rw [ho] at hv
    split at hv
    · rename_i hmem
      refine (hkept j).2 o hmem ?_
      rcases h.listed o j hold with hov | ⟨hc, -⟩
      · exact hov
      · rw [hpc j] at hc
        cases hc
    · cases hv
  · change (t.segs j).pc.collecting = true at hj
    rw [(hkept j).1, hpc j] at hj
    cases hj

/-! ## All steps -/

theorem not_collecting_of_running {seg : Segment} (h : seg.pc = .running) :
    seg.pc.collecting = false := by
  rw [h]
  rfl

theorem segs_reset_modified_object {todo : ℕ} (hs : reset_modified_object s i obj todo = .next s') :
    s'.segs = (s.set i { s.segs i with pc := .resetting todo }).segs := by
  unfold reset_modified_object at hs
  dsimp only at hs
  generalize (if obj_should_use_cards (s.layout obj) = true then
    reset_object_cards s.write_locks obj (s.layout obj) CARD_CLEAR false
    else s.write_locks) = wl at hs
  split at hs
  · rw [Outcome.next.injEq] at hs
    rw [← hs]
  · cases hs

/-- A new object is an overflow object, and no other. -/
theorem moved_kind {o j : ℕ} (h : Function.update s.kind obj (.overflow i) o = .overflow j) :
    s.kind o = .overflow j ∨ o = obj ∧ j = i := by
  rw [Function.update_apply] at h
  split at h
  · rename_i heq
    rw [Kind.overflow.injEq] at h
    exact .inr ⟨heq, h.symm⟩
  · exact .inl h

theorem OverflowListed.step (h : OverflowListed s) (hinv : Inv NB_SEGMENTS false s)
    (hs : C7.step NB_SEGMENTS s a = .next s') : OverflowListed s' := by
  obtain ⟨-, hs⟩ := guarded_eq_next.mp hs
  -- a new object that is not an overflow object
  have hallocated : ∀ {obj o j : ℕ} {k : Kind}, Function.update s.kind obj k o = .overflow j →
      (∀ n, k ≠ .overflow n) → s.kind o = .overflow j := by
    intro obj o j k ho hk
    rw [Function.update_apply] at ho
    split at ho
    · exact absurd ho (hk j)
    · exact ho
  cases a with
  | largemalloc_write addr b =>
      obtain ⟨-, hs⟩ := guarded_eq_next.mp hs
      cases hs
      exact ⟨h.listed, h.created⟩
  | allocate_external i obj l =>
      obtain ⟨⟨hpc, -⟩, hs⟩ := guarded_eq_next.mp hs
      cases hs
      have hpc' := not_collecting_of_running hpc
      refine h.of_keeps (fun o j ho => hallocated ho (by simp)) fun j => .set rfl fun hij => ?_
      rw [hij]
      exact .of_not_collecting hpc' hpc' rfl
  | stm_write i obj =>
      obtain ⟨⟨hpc, -⟩, hs⟩ := guarded_eq_next.mp hs
      have hkind := kind_stm_write hs
      refine h.of_keeps (fun o j ho => by rw [← hkind]; exact ho) fun j => ?_
      unfold stm_write at hs
      split at hs
      · exact keepsLists_write_slowpath_common (not_collecting_of_running hpc) hs
      · cases hs
        exact .refl _
  | stm_write_card i obj index =>
      obtain ⟨⟨hpc, -⟩, hs⟩ := guarded_eq_next.mp hs
      have hkind := kind_stm_write_card hs
      refine h.of_keeps (fun o j ho => by rw [← hkind]; exact ho) fun j => ?_
      unfold stm_write_card at hs
      dsimp only at hs
      split at hs
      · split at hs
        · cases hs
          exact .refl _
        · exact keepsLists_write_slowpath_common (not_collecting_of_running hpc) hs
      · cases hs
        exact .refl _
  | page_privatize i =>
      simp only [step_segment] at hs
      split at hs
      · rename_i hpc
        cases hs
        refine h.of_keeps (fun o j ho => ho) fun j => .set rfl fun hij => ?_
        rw [hij]
        refine .of_not_collecting ?_ rfl rfl
        rw [hpc]
        rfl
      · cases hs
  | write_slowpath_owned i =>
      simp only [step_segment] at hs
      split at hs
      · rename_i hpc
        have hkind := kind_write_slowpath_owned hs
        refine h.of_keeps (fun o j ho => by rw [← hkind]; exact ho) fun j => ?_
        refine keepsLists_write_slowpath_owned ?_ hs
        rw [hpc]
        rfl
      · cases hs
  | store i obj off b =>
      obtain ⟨-, hs⟩ := guarded_eq_next.mp hs
      cases hs
      exact ⟨h.listed, h.created⟩
  | minor_collection i commit =>
      obtain ⟨hpc, hs⟩ := guarded_eq_next.mp hs
      cases hs
      refine h.of_keeps (fun o j ho => ho) fun j => .set rfl fun hij => ?_
      rw [hij]
      refine ⟨fun o ho => ho, fun hc => ?_, fun _ _ => rfl⟩
      rw [not_collecting_of_running hpc] at hc
      cases hc
  | evacuate i obj l val =>
      obtain ⟨⟨hpc, -⟩, hs⟩ := guarded_eq_next.mp hs
      cases hs
      unfold C7.evacuate
      refine h.of_moved hpc (fun o j ho => ?_) rfl rfl rfl rfl
      exact moved_kind ho
  | trace_young_outside_nursery i obj overflow_number =>
      obtain ⟨⟨hpc, -⟩, hs⟩ := guarded_eq_next.mp hs
      cases hs
      unfold C7.trace_young_outside_nursery
      refine h.of_moved hpc (fun o j ho => ?_) rfl rfl rfl rfl
      exact moved_kind ho
  | collect i val => exact h.collect hs
  | push_overflow_objects i =>
      obtain ⟨hpc, hs⟩ := guarded_eq_next.mp hs
      unfold push_overflow_objects_from_privatized_pages at hs
      dsimp only at hs
      split at hs
      · cases hs
      · cases hs
        refine h.of_keeps (fun o j ho => ho) fun j => .set rfl fun hij => ?_
        rw [hij]
        refine .of_not_collecting ?_ rfl rfl
        rw [hpc]
        rfl
  | restart_all i =>
      obtain ⟨hpc, hs⟩ := guarded_eq_next.mp hs
      cases hs
      refine h.of_keeps (fun o j ho => ho) fun j => .set rfl fun hij => ?_
      rw [hij]
      refine .of_not_collecting ?_ rfl rfl
      rw [hpc]
      rfl
  | commit_transaction i =>
      obtain ⟨m, wl, -, rfl⟩ := commit_transaction_eq (guarded_eq_next.mp hs).2
      have hold : ∀ o j, (if s.kind o = .overflow i then
          if o ∈ (s.segs i).large_overflow_objects then Kind.old else .dead
          else s.kind o) = .overflow j → s.kind o = .overflow j ∧ j ≠ i := by
        intro o j ho
        split at ho
        · split at ho
          · cases ho
          · cases ho
        · rename_i hne
          exact ⟨ho, by rintro rfl; exact hne ho⟩
      exact h.of_cleared (fun o ho => (hold o i ho).2 rfl) (fun o j ho => (hold o j ho).1) rfl rfl
  | abort_data_structures i =>
      obtain ⟨hpc, hs⟩ := guarded_eq_next.mp hs
      cases hs
      refine h.of_keeps (fun o j ho => ?_) fun j => ?_
      · change (if o ∈ (s.segs i).young_outside_nursery then Kind.free else s.kind o) = _ at ho
        split at ho
        · cases ho
        · exact ho
      · unfold abort_data_structures throw_away_nursery
        dsimp only
        by_cases hij : j = i
        · rw [hij, set_segs_self, set_segs_self]
          refine .of_not_collecting ?_ rfl rfl
          rcases hpc with hpc | hpc | hpc
          all_goals
            rw [hpc]
            rfl
        · rw [set_segs_of_ne _ hij, set_segs_of_ne _ hij]
          exact .refl _
  | reset_modified i =>
      simp only [step_segment] at hs
      split at hs
      · rename_i todo hpc
        cases todo with
        | zero =>
            cases hs
            have hold : ∀ o j, (if s.kind o = .overflow i then Kind.dead else s.kind o)
                = .overflow j → s.kind o = .overflow j ∧ j ≠ i := by
              intro o j ho
              split at ho
              · cases ho
              · rename_i hne
                exact ⟨ho, by rintro rfl; exact hne ho⟩
            exact h.of_cleared (fun o ho => (hold o i ho).2 rfl) (fun o j ho => (hold o j ho).1)
              rfl rfl
        | succ todo =>
            rw [reset_modified_from_other_segments] at hs
            split at hs
            · cases hs
            · have hkind := kind_reset_modified_object hs
              refine h.of_keeps (fun o j ho => by rw [← hkind]; exact ho) fun j => ?_
              refine .set (segs_reset_modified_object hs) fun hij => ?_
              rw [hij]
              refine .of_not_collecting ?_ rfl rfl
              rw [hpc]
              rfl
      · cases hs
  | hashtable_entry i obj l val =>
      obtain ⟨-, hs⟩ := guarded_eq_next.mp hs
      cases hs
      exact h.of_keeps (fun o j ho => hallocated ho (by simp)) fun j => .refl _
  | set_weakref_in_all_segments i obj val =>
      obtain ⟨-, hs⟩ := guarded_eq_next.mp hs
      cases hs
      exact ⟨h.listed, h.created⟩
  | major_collection visited =>
      obtain ⟨hmay, hs⟩ := guarded_eq_next.mp hs
      split at hs
      · cases hs
      · rename_i t hmajor
        cases hs
        exact h.major_collection hinv hmay hmajor

theorem OverflowListed.init (h : Initial s) : OverflowListed s := by
  refine ⟨fun o j ho => ?_, fun j hj => ?_⟩
  · rcases h.prebuilt o with hk | hk
    all_goals
      rw [hk] at ho
      cases ho
  · rw [h.segs] at hj
    cases hj

/-- Every overflow object is listed, in every state. -/
theorem OverflowListed.of_reachable (h : Reachable Initial (C7.step NB_SEGMENTS) s) :
    OverflowListed s := by
  have hboth : Inv NB_SEGMENTS false s ∧ OverflowListed s :=
    h.invariant
      (fun t h0 => show Inv NB_SEGMENTS false t ∧ OverflowListed t from ⟨.init h0, init h0⟩)
      (fun t a t' hi _ hs => ⟨hi.1.step (by simp) hs, hi.2.step hi.1 hs⟩)
  exact hboth.2

/-- A segment that is in a minor collection after the step, and either was
before or has just started one, still has its overflow objects. -/
structure CollectFrame (a : Act) (i : ℕ) (seg seg' : Segment) : Prop where
  pc : (seg.pc.collecting = true ∧ seg'.pc.will_commit_now = seg.pc.will_commit_now)
    ∨ (seg.pc = .running ∧ a = .minor_collection i seg'.pc.will_commit_now)
  overflow : ∀ o ∈ seg.large_overflow_objects, o ∈ seg'.large_overflow_objects

theorem collect_frame_set {j : ℕ} {seg' : Segment} {t : St} (ht : t.segs = (s.set j seg').segs)
    (h : i = j → seg'.pc.collecting = true → CollectFrame a i (s.segs i) seg')
    (hc : (t.segs i).pc.collecting = true) : CollectFrame a i (s.segs i) (t.segs i) := by
  rw [ht] at hc ⊢
  by_cases hij : i = j
  · subst hij
    rw [set_segs_self] at hc ⊢
    exact h rfl hc
  · rw [set_segs_of_ne _ hij] at hc ⊢
    exact ⟨.inl ⟨hc, rfl⟩, fun _ ho => ho⟩

/-- In most steps the acting segment is in no minor collection afterwards. -/
theorem collect_frame_of_not {j : ℕ} {seg' : Segment} {t : St}
    (ht : t.segs = (s.set j seg').segs) (hpc : seg'.pc.collecting = false)
    (hc : (t.segs i).pc.collecting = true) : CollectFrame a i (s.segs i) (t.segs i) := by
  refine collect_frame_set ht (fun _ h => ?_) hc
  rw [hpc] at h
  cases h

theorem collect_frame_of_eq {t : St} (ht : t.segs i = s.segs i)
    (hc : (t.segs i).pc.collecting = true) : CollectFrame a i (s.segs i) (t.segs i) := by
  rw [ht] at hc ⊢
  exact ⟨.inl ⟨hc, rfl⟩, fun _ ho => ho⟩

theorem collect_frame_write_slowpath_owned {j : ℕ} {mark_card : Option ℕ}
    (hs : write_slowpath_owned s j obj mark_card = .next s')
    (hc : (s'.segs i).pc.collecting = true) : CollectFrame a i (s.segs i) (s'.segs i) := by
  unfold write_slowpath_owned at hs
  dsimp only at hs
  split at hs
  · split at hs
    · cases hs
      exact collect_frame_of_not rfl rfl hc
    · cases hs
      exact collect_frame_of_not rfl rfl hc
  · cases hs

theorem collect_frame_write_slowpath_common {j : ℕ} {mark_card : Option ℕ}
    (hpc : (s.segs j).pc = .running)
    (hs : write_slowpath_common s j obj mark_card = .next s')
    (hc : (s'.segs i).pc.collecting = true) : CollectFrame a i (s.segs i) (s'.segs i) := by
  have hpc' := not_collecting_of_running hpc
  unfold write_slowpath_common at hs
  dsimp only at hs
  split at hs
  · split at hs
    · unfold write_slowpath_overflow_obj at hs
      dsimp only at hs
      split at hs
      · split at hs
        · cases hs
        · cases hs
          exact collect_frame_of_not rfl hpc' hc
      · cases hs
        exact collect_frame_of_not rfl hpc' hc
    · cases hs
  · split at hs
    · cases hs
      exact collect_frame_of_not rfl rfl hc
    · split at hs
      · exact collect_frame_write_slowpath_owned hs hc
      · cases hs

/-- What a minor collection does to its own segment while it goes on. -/
theorem collect_frame_collect {j : ℕ} {val : ℕ → UInt8}
    (hs : step_segment NB_SEGMENTS s (.collect j val) = .next s')
    (hc : (s'.segs i).pc.collecting = true) : CollectFrame a i (s.segs i) (s'.segs i) := by
  -- the lists may change, but `large_overflow_objects` does not shrink
  have hgo : ∀ {seg' : Segment} {t : St}, (s.segs j).pc.collecting = true →
      t.segs = (s.set j seg').segs → seg'.pc.will_commit_now = (s.segs j).pc.will_commit_now →
      (∀ o ∈ (s.segs j).large_overflow_objects, o ∈ seg'.large_overflow_objects) →
      (t.segs i).pc.collecting = true → CollectFrame a i (s.segs i) (t.segs i) := by
    intro seg' t hpc ht hcommit hov
    refine collect_frame_set ht fun hij _ => ?_
    rw [hij]
    exact ⟨.inl ⟨hpc, hcommit⟩, hov⟩
  cases hpc : (s.segs j).pc with
  | collect_cardrefs commit was_null =>
      have hcollecting : (s.segs j).pc.collecting = true := by
        rw [hpc]
        rfl
      simp only [step_segment, hpc] at hs
      unfold collect_cardrefs_to_nursery at hs
      dsimp only at hs
      split at hs
      · cases hs
        refine hgo hcollecting rfl ?_ (fun o ho => ho) hc
        rw [hpc]
        dsimp only
        split <;> rfl
      · split at hs
        · unfold trace_card_object at hs
          dsimp only at hs
          split at hs
          · cases hs
            exact hgo hcollecting rfl rfl (fun o ho => ho) hc
          · cases hs
        · cases hs
          exact hgo hcollecting rfl rfl (fun o ho => ho) hc
  | collect_modified commit todo =>
      have hcollecting : (s.segs j).pc.collecting = true := by
        rw [hpc]
        rfl
      simp only [step_segment, hpc] at hs
      unfold collect_modified_old_objects at hs
      dsimp only at hs
      split at hs
      · cases hs
        refine hgo hcollecting rfl ?_ (fun o ho => ho) hc
        rw [hpc]
        rfl
      · refine hgo hcollecting (segs_collect_now hs) ?_ (fun o ho => ho) hc
        rw [hpc]
        rfl
  | collect_oldrefs commit =>
      have hcollecting : (s.segs j).pc.collecting = true := by
        rw [hpc]
        rfl
      simp only [step_segment, hpc] at hs
      unfold C7.collect_oldrefs_to_nursery at hs
      dsimp only at hs
      split at hs
      · -- the collection is over
        cases hs
        unfold throw_away_nursery at hc ⊢
        dsimp only at hc ⊢
        by_cases hij : i = j
        · rw [hij, set_segs_self] at hc
          dsimp only at hc
          split at hc
          · cases hc
          · cases hc
        · rw [set_segs_of_ne _ hij, set_segs_of_ne _ hij] at hc ⊢
          exact ⟨.inl ⟨hc, rfl⟩, fun _ ho => ho⟩
      · rename_i lst obj sync hpop
        split at hs
        · rename_i t hnow
          have hsegs : t.segs = (s.set j { s.segs j with
            objects_pointing_to_nursery := some lst }).segs := segs_collect_now hnow
          split at hs
          · unfold age_object at hs
            dsimp only at hs
            split at hs
            · split at hs
              · split at hs
                · cases hs
                · cases hs
                  exact hgo hcollecting hsegs rfl (fun o ho => ho) hc
              · cases hs
            · cases hs
              have hset : ∀ seg, (t.set j seg).segs = (s.set j seg).segs := by
                intro seg
                unfold St.set at hsegs ⊢
                dsimp only at hsegs ⊢
                rw [hsegs, Function.update_idem]
              refine hgo hcollecting (hset _) ?_ (fun o ho => ?_) hc
              · dsimp only
                rw [hsegs, set_segs_self]
              · dsimp only
                rw [hsegs, set_segs_self]
                exact mem_list_append.mpr (.inl ho)
          · cases hs
            exact hgo hcollecting hsegs rfl (fun o ho => ho) hc
        · rename_i r hr
          exact absurd hs (hr _)
  | _ =>
      simp only [step_segment, hpc] at hs
      cases hs

theorem collect_frame (h : Inv NB_SEGMENTS false s) (hs : C7.step NB_SEGMENTS s a = .next s')
    (hc : (s'.segs i).pc.collecting = true) : CollectFrame a i (s.segs i) (s'.segs i) := by
  obtain ⟨-, hs⟩ := guarded_eq_next.mp hs
  cases a with
  | allocate_external j obj l =>
      obtain ⟨⟨hpc, -⟩, hs⟩ := guarded_eq_next.mp hs
      cases hs
      exact collect_frame_of_not rfl (not_collecting_of_running hpc) hc
  | stm_write j obj =>
      obtain ⟨⟨hpc, -⟩, hs⟩ := guarded_eq_next.mp hs
      unfold stm_write at hs
      split at hs
      · exact collect_frame_write_slowpath_common hpc hs hc
      · cases hs
        exact collect_frame_of_eq rfl hc
  | stm_write_card j obj index =>
      obtain ⟨⟨hpc, -⟩, hs⟩ := guarded_eq_next.mp hs
      unfold stm_write_card at hs
      dsimp only at hs
      split at hs
      · split at hs
        · cases hs
          exact collect_frame_of_eq rfl hc
        · exact collect_frame_write_slowpath_common hpc hs hc
      · cases hs
        exact collect_frame_of_eq rfl hc
  | page_privatize j =>
      simp only [step_segment] at hs
      split at hs
      · cases hs
        exact collect_frame_of_not rfl rfl hc
      · cases hs
  | write_slowpath_owned j =>
      simp only [step_segment] at hs
      split at hs
      · exact collect_frame_write_slowpath_owned hs hc
      · cases hs
  | minor_collection j commit =>
      obtain ⟨hpc, hs⟩ := guarded_eq_next.mp hs
      cases hs
      refine collect_frame_set rfl (fun hij _ => ?_) hc
      rw [hij]
      exact ⟨.inr ⟨hpc, rfl⟩, fun o ho => ho⟩
  | evacuate j obj l val =>
      obtain ⟨⟨hpc, -⟩, hs⟩ := guarded_eq_next.mp hs
      cases hs
      refine collect_frame_set rfl (fun hij _ => ?_) hc
      rw [hij]
      exact ⟨.inl ⟨hpc, rfl⟩, fun o ho => ho⟩
  | trace_young_outside_nursery j obj overflow_number =>
      obtain ⟨⟨hpc, -⟩, hs⟩ := guarded_eq_next.mp hs
      cases hs
      refine collect_frame_set rfl (fun hij _ => ?_) hc
      rw [hij]
      exact ⟨.inl ⟨hpc, rfl⟩, fun o ho => ho⟩
  | collect j val => exact collect_frame_collect hs hc
  | push_overflow_objects j =>
      obtain ⟨-, hs⟩ := guarded_eq_next.mp hs
      unfold push_overflow_objects_from_privatized_pages at hs
      dsimp only at hs
      split at hs
      · cases hs
      · cases hs
        exact collect_frame_of_not rfl rfl hc
  | restart_all j =>
      obtain ⟨-, hs⟩ := guarded_eq_next.mp hs
      cases hs
      exact collect_frame_of_not rfl rfl hc
  | commit_transaction j =>
      obtain ⟨m, wl, -, rfl⟩ := commit_transaction_eq (guarded_eq_next.mp hs).2
      exact collect_frame_of_not rfl rfl hc
  | abort_data_structures j =>
      obtain ⟨-, hs⟩ := guarded_eq_next.mp hs
      cases hs
      unfold abort_data_structures throw_away_nursery at hc ⊢
      dsimp only at hc ⊢
      by_cases hij : i = j
      · rw [hij, set_segs_self] at hc
        cases hc
      · rw [set_segs_of_ne _ hij, set_segs_of_ne _ hij] at hc ⊢
        exact ⟨.inl ⟨hc, rfl⟩, fun _ ho => ho⟩
  | reset_modified j =>
      simp only [step_segment] at hs
      split at hs
      · rename_i todo hpc
        cases todo with
        | zero =>
            cases hs
            exact collect_frame_of_not rfl rfl hc
        | succ todo =>
            rw [reset_modified_from_other_segments] at hs
            split at hs
            · cases hs
            · exact collect_frame_of_not (segs_reset_modified_object hs) rfl hc
      · cases hs
  | major_collection visited =>
      obtain ⟨hmay, hs⟩ := guarded_eq_next.mp hs
      split at hs
      · cases hs
      · rename_i t hmajor
        cases hs
        obtain ⟨u, -, ⟨-, hkept⟩, wl, -, rfl⟩ := h.cleaned_of_major_collection hmay hmajor
        change (u.segs i).pc.collecting = true at hc
        rw [(hkept i).1, not_collecting_of_may_collect h hmay i] at hc
        cases hc
  | _ =>
      obtain ⟨-, hs⟩ := guarded_eq_next.mp hs
      cases hs
      exact collect_frame_of_eq rfl hc

end

end Stmgc.C7
