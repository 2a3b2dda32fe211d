/-
What one step of the machine of `Transaction` makes of an object.

A young object is moved out of the nursery or aged by a minor collection, or
freed at its end. An overflow object becomes old when its transaction commits,
and is left behind if it aborts. A major collection frees what marking has not
reached. Nothing else frees an object ([`fate`]).
-/
import Stmgc.C7.AbortAtomic

namespace Stmgc.C7

open Stmgc.Lib

/-- The kind of an object after a step. -/
inductive Fate (s : St) (a : Act) (o : ℕ) : Kind → Prop where
  | same : Fate s a o (s.kind o)
  | aged (i : ℕ) : s.kind o = .young i → Fate s a o (.overflow i)
  | committed (i : ℕ) : s.kind o = .overflow i → Fate s a o .old
  | lost (i : ℕ) : s.kind o = .overflow i →
      (a = .commit_transaction i ∨ a = .reset_modified i) → Fate s a o .dead
  | thrown_away (i : ℕ) : o ∈ (s.segs i).young_outside_nursery →
      ((∃ val, a = .collect i val) ∧ is_traced (s.segs i) = true ∨ a = .abort_data_structures i) →
      Fate s a o .free
  | swept (visited : List ℕ) : a = .major_collection visited → o ∉ visited → Fate s a o .free

section

variable {NB_SEGMENTS : ℕ} {cards : Bool} {s s' : St} {i obj o : ℕ} {a : Act}

theorem Fate.of_eq (h : s'.kind = s.kind) : Fate s a o (s'.kind o) := by
  rw [h]
  exact .same

/-! ## Write barriers -/

theorem kind_write_slowpath_overflow_obj {mark_card : Option ℕ}
    (hs : write_slowpath_overflow_obj s i obj mark_card = .next s') : s'.kind = s.kind := by
  unfold write_slowpath_overflow_obj at hs
  dsimp only at hs
  split at hs
  · split at hs
    · cases hs
    · cases hs
      rfl
  · cases hs
    rfl

theorem kind_write_slowpath_owned {mark_card : Option ℕ}
    (hs : write_slowpath_owned s i obj mark_card = .next s') : s'.kind = s.kind := by
  unfold write_slowpath_owned at hs
  dsimp only at hs
  split at hs
  · split at hs
    · cases hs
      rfl
    · cases hs
      rfl
  · cases hs

theorem kind_write_slowpath_common {mark_card : Option ℕ}
    (hs : write_slowpath_common s i obj mark_card = .next s') : s'.kind = s.kind := by
  unfold write_slowpath_common at hs
  dsimp only at hs
  split at hs
  · split at hs
    · exact kind_write_slowpath_overflow_obj hs
    · cases hs
  · split at hs
    · cases hs
      rfl
    · split at hs
      · exact kind_write_slowpath_owned hs
      · cases hs

theorem kind_stm_write (hs : stm_write s i obj = .next s') : s'.kind = s.kind := by
  unfold stm_write at hs
  split at hs
  · exact kind_write_slowpath_common hs
  · cases hs
    rfl

theorem kind_stm_write_card {index : ℕ} (hs : stm_write_card s i obj index = .next s') :
    s'.kind = s.kind := by
  unfold stm_write_card at hs
  dsimp only at hs
  split at hs
  · split at hs
    · cases hs
      rfl
    · exact kind_write_slowpath_common hs
  · cases hs
    rfl

/-! ## Minor collections -/

theorem kind_collect_now {val : ℕ → UInt8} (hs : collect_now s i obj val = .next s') :
    s'.kind = s.kind := by
  unfold collect_now at hs
  split at hs
  · cases hs
  · split at hs
    · cases hs
      rfl
    · cases hs
      rfl

theorem kind_collect_cardrefs_to_nursery {commit was_null : Bool} {val : ℕ → UInt8}
    (hs : collect_cardrefs_to_nursery s i commit was_null val = .next s') : s'.kind = s.kind := by
  unfold collect_cardrefs_to_nursery at hs
  dsimp only at hs
  split at hs
  · cases hs
    rfl
  · split at hs
    · unfold trace_card_object at hs
      dsimp only at hs
      split at hs
      · cases hs
        rfl
      · cases hs
    · cases hs
      rfl

theorem kind_collect_modified_old_objects {commit : Bool} {todo : List ℕ} {val : ℕ → UInt8}
    (hs : collect_modified_old_objects s i commit todo val = .next s') : s'.kind = s.kind := by
  unfold collect_modified_old_objects at hs
  dsimp only at hs
  split at hs
  · cases hs
    rfl
  · exact (kind_collect_now hs).trans rfl

/-- An object that was moved out becomes old at once if the transaction
commits. -/
theorem kind_age_object {commit : Bool} (hs : age_object NB_SEGMENTS s i obj commit = .next s') :
    s'.kind = s.kind ∨ s'.kind = Function.update s.kind obj .old := by
  unfold age_object at hs
  dsimp only at hs
  split at hs
  · split at hs
    · split at hs
      · cases hs
      · cases hs
        exact .inr rfl
    · cases hs
  · cases hs
    exact .inl rfl

theorem is_traced_iff {commit : Bool} (hpc : (s.segs i).pc = .collect_oldrefs commit) :
    is_traced (s.segs i) = true ↔ (s.segs i).objects_pointing_to_nursery.getD [] = [] := by
  unfold is_traced
  rw [hpc]
  exact List.isEmpty_iff

/-- The end of a minor collection. -/
theorem kind_of_is_traced {val : ℕ → UInt8} (ht : is_traced (s.segs i) = true)
    (hs : step_segment NB_SEGMENTS s (.collect i val) = .next s') :
    s'.kind = fun o => if o ∈ (s.segs i).young_outside_nursery then .free else s.kind o := by
  cases hpc : (s.segs i).pc with
  | collect_oldrefs commit =>
      have hempty := (is_traced_iff hpc).mp ht
      simp only [step_segment, hpc] at hs
      unfold collect_oldrefs_to_nursery at hs
      dsimp only at hs
      rw [list_pop_item_eq_none.mpr hempty] at hs
      cases hs
      rfl
  | _ =>
      unfold is_traced at ht
      rw [hpc] at ht
      cases ht

theorem fate_collect {val : ℕ → UInt8} (h : Inv NB_SEGMENTS cards s)
    (hs : step_segment NB_SEGMENTS s (.collect i val) = .next s') :
    Fate s (.collect i val) o (s'.kind o) := by
  by_cases ht : is_traced (s.segs i) = true
  · rw [kind_of_is_traced ht hs]
    dsimp only
    split
    · rename_i hmem
      exact .thrown_away i hmem (.inl ⟨⟨val, rfl⟩, ht⟩)
    · exact .same
  · cases hpc : (s.segs i).pc with
    | collect_cardrefs commit was_null =>
        simp only [step_segment, hpc] at hs
        exact .of_eq (kind_collect_cardrefs_to_nursery hs)
    | collect_modified commit todo =>
        simp only [step_segment, hpc] at hs
        exact .of_eq (kind_collect_modified_old_objects hs)
    | collect_oldrefs commit =>
        simp only [step_segment, hpc] at hs
        unfold collect_oldrefs_to_nursery at hs
        dsimp only at hs
        split at hs
        · rename_i hpop
          exact absurd ((is_traced_iff hpc).mpr (list_pop_item_eq_none.mp hpop)) ht
        · rename_i lst obj sync hpop
          split at hs
          · rename_i t hnow
            have hkind : t.kind = s.kind := (kind_collect_now hnow).trans rfl
            split at hs
            · rename_i hsync
              rcases kind_age_object hs with heq | heq
              · exact .of_eq (heq.trans hkind)
              · rw [heq, hkind, Function.update_apply]
                split
                · rename_i ho
                  -- the item has the flag of the objects that were moved out
                  have hitem : (obj, sync) ∈ (s.segs i).objects_pointing_to_nursery.getD [] := by
                    rw [list_pop_item_eq_some hpop]
                    simp
                  have hr : (s.segs i).pc.is_resetting = false := by
                    rw [hpc]
                    rfl
                  rcases (h.lists i).pointing hr _ hitem with ⟨hfalse, -⟩ | ⟨-, hk, -⟩
                  · exact absurd (hsync.symm.trans hfalse) (by decide)
                  · exact .committed i (ho ▸ hk)
                · exact .same
            · cases hs
              exact .of_eq hkind
          · rename_i r hr
            exact absurd hs (hr _)
    | _ =>
        simp only [step_segment, hpc] at hs
        cases hs

/-! ## Major collections -/

/-- The lock of an object tells after marking whether it was visited. -/
theorem is_visited_iff {visited : List ℕ} (h : Inv NB_SEGMENTS cards s)
    (hvisited : ∀ o ∈ visited, s.kind o ≠ .free)
    (hmodified : ∀ i, ∀ o ∈ (s.segs i).modified_old_objects, o ∈ visited)
    (ho : s.kind o ≠ .free) :
    mark_visited s.write_locks visited (get_write_lock_idx o) = WL_VISITED ↔ o ∈ visited := by
  constructor
  · intro hmark
    by_contra hn
    refine hn (h.visited_of_lock hvisited ho ?_ hmark)
    rw [(h.objs o ho).locks.free]
    · decide
    · exact fun i hi => hn (hmodified i o (mem_of_remaining hi))
  · intro hv
    rw [mark_visited_eq, if_pos ⟨o, hv, rfl⟩]

/-- A major collection frees the objects that were not visited. -/
theorem kind_major_collection {visited : List ℕ} (h : Inv NB_SEGMENTS cards s)
    (hmay : may_collect NB_SEGMENTS s visited)
    (hs : major_collection_now NB_SEGMENTS s visited = some s') (ho : s.kind o ≠ .free) :
    s'.kind o = if o ∈ visited then s.kind o else .free := by
  obtain ⟨t, hcleaned, ⟨hkind, -⟩, wl', -, rfl⟩ := h.cleaned_of_major_collection hmay hs
  obtain ⟨wl, hwl, hinv⟩ := hcleaned.hidden
  have hlock := is_visited_iff hinv hcleaned.visited_objs hcleaned.modified (hkind ▸ ho)
  show (if t.write_locks (get_write_lock_idx o) = WL_VISITED then t.kind o else .free) = _
  rw [hwl, hkind]
  exact if_congr hlock rfl rfl

/-! ## All steps -/

theorem kind_reset_modified_object {todo : ℕ}
    (hs : reset_modified_object s i obj todo = .next s') : s'.kind = s.kind := by
  unfold reset_modified_object at hs
  dsimp only at hs
  generalize (if obj_should_use_cards (s.layout obj) = true then
    reset_object_cards s.write_locks obj (s.layout obj) CARD_CLEAR false
    else s.write_locks) = wl at hs
  split at hs
  · cases hs
    rfl
  · cases hs

theorem fate (h : Inv NB_SEGMENTS cards s) (ho : s.kind o ≠ .free)
    (hs : step NB_SEGMENTS s a = .next s') : Fate s a o (s'.kind o) := by
  obtain ⟨-, hs⟩ := guarded_eq_next.mp hs
  have hallocated : ∀ {obj : ℕ} {k : Kind}, s.kind obj = .free →
      s'.kind = Function.update s.kind obj k → Fate s a o (s'.kind o) := by
    intro obj k hfree hkind
    rw [hkind, Function.update_of_ne]
    · exact .same
    · rintro rfl
      exact ho hfree
  cases a with
  | allocate_external i obj l =>
      obtain ⟨⟨-, hfree, -⟩, hs⟩ := guarded_eq_next.mp hs
      cases hs
      exact hallocated hfree rfl
  | stm_write i obj => exact .of_eq (kind_stm_write (guarded_eq_next.mp hs).2)
  | stm_write_card i obj index => exact .of_eq (kind_stm_write_card (guarded_eq_next.mp hs).2)
  | page_privatize i =>
      simp only [step_segment] at hs
      split at hs
      · cases hs
        exact .same
      · cases hs
  | write_slowpath_owned i =>
      simp only [step_segment] at hs
      split at hs
      · exact .of_eq (kind_write_slowpath_owned hs)
      · cases hs
  | evacuate i obj l val =>
      obtain ⟨⟨-, hfree, -⟩, hs⟩ := guarded_eq_next.mp hs
      cases hs
      exact hallocated hfree rfl
  | trace_young_outside_nursery i obj overflow_number =>
      obtain ⟨⟨-, hmem, -⟩, hs⟩ := guarded_eq_next.mp hs
      cases hs
      show Fate s _ o (Function.update s.kind obj (.overflow i) o)
      rw [Function.update_apply]
      split
      · rename_i hobj
        exact .aged i (hobj ▸ (h.lists i).young obj hmem)
      · exact .same
  | collect i val => exact fate_collect h hs
  | push_overflow_objects i =>
      obtain ⟨-, hs⟩ := guarded_eq_next.mp hs
      unfold push_overflow_objects_from_privatized_pages at hs
      dsimp only at hs
      split at hs
      · cases hs
      · cases hs
        exact .same
  | commit_transaction i =>
      obtain ⟨m, wl, -, rfl⟩ := commit_transaction_eq (guarded_eq_next.mp hs).2
      dsimp only
      split
      · rename_i hk
        split
        · exact .committed i hk
        · exact .lost i hk (.inl rfl)
      · exact .same
  | abort_data_structures i =>
      obtain ⟨-, hs⟩ := guarded_eq_next.mp hs
      cases hs
      show Fate s _ o (if o ∈ (s.segs i).young_outside_nursery then .free else s.kind o)
      split
      · rename_i hmem
        exact .thrown_away i hmem (.inr rfl)
      · exact .same
  | reset_modified i =>
      simp only [step_segment] at hs
      split at hs
      · rename_i todo hpc
        cases todo with
        | zero =>
            cases hs
            dsimp only
            split
            · rename_i hk
              exact .lost i hk (.inr rfl)
            · exact .same
        | succ todo =>
            rw [reset_modified_from_other_segments] at hs
            split at hs
            · cases hs
            · exact .of_eq (kind_reset_modified_object hs)
      · cases hs
  | hashtable_entry i obj l val =>
      obtain ⟨⟨-, hfree, -⟩, hs⟩ := guarded_eq_next.mp hs
      cases hs
      exact hallocated hfree rfl
  | major_collection visited =>
      obtain ⟨hmay, hs⟩ := guarded_eq_next.mp hs
      split at hs
      · cases hs
      · rename_i t hmajor
        cases hs
        rw [kind_major_collection h hmay hmajor ho]
        split
        · exact .same
        · rename_i hv
          exact .swept visited rfl hv
  | _ =>
      obtain ⟨-, hs⟩ := guarded_eq_next.mp hs
      cases hs
      exact .same

/-! ## The segments -/

/-- The step ends a minor collection of segment `i`. -/
def Act.ends_minor_collection (s : St) (i : ℕ) : Act → Bool
  | .collect j _ => decide (j = i) && is_traced (s.segs i)
  | _ => false

theorem ends_minor_collection_self (val : ℕ → UInt8) :
    (Act.collect i val).ends_minor_collection s i = is_traced (s.segs i) := by
  unfold Act.ends_minor_collection
  simp

/-- The segment is committing. -/
def Pc.committing : Pc → Bool
  | .collected | .pushed => true
  | _ => false

/-- In a minor collection until its end, and at the end of a commit only after
one. -/
structure SegFrame (seg seg' : Segment) : Prop where
  collecting : seg.pc.collecting = true → seg'.pc.collecting = true
  committing : seg'.pc.committing = true → seg.pc.committing = true
  young : ∀ o ∈ seg.young_outside_nursery, o ∈ seg'.young_outside_nursery

theorem SegFrame.refl (seg : Segment) : SegFrame seg seg := ⟨id, id, fun _ => id⟩

theorem SegFrame.set {j : ℕ} {seg' : Segment} {t : St} (ht : t.segs = (s.set j seg').segs)
    (h : i = j → SegFrame (s.segs i) seg') : SegFrame (s.segs i) (t.segs i) := by
  rw [ht]
  by_cases hij : i = j
  · subst hij
    rw [set_segs_self]
    exact h rfl
  · rw [set_segs_of_ne _ hij]
    exact .refl _

theorem SegFrame.of_running {seg seg' : Segment} (hpc : seg.pc = .running)
    (hpc' : seg'.pc.committing = false)
    (hyoung : ∀ o ∈ seg.young_outside_nursery, o ∈ seg'.young_outside_nursery) :
    SegFrame seg seg' := by
  refine ⟨fun h => ?_, fun h => ?_, hyoung⟩
  · rw [hpc] at h
    cases h
  · rw [hpc'] at h
    cases h

theorem SegFrame.of_collecting {seg seg' : Segment} (hpc : seg'.pc.collecting = true)
    (hyoung : ∀ o ∈ seg.young_outside_nursery, o ∈ seg'.young_outside_nursery) :
    SegFrame seg seg' := by
  refine ⟨fun _ => hpc, fun h => ?_, hyoung⟩
  cases hpc' : seg'.pc with
  | collected => rw [hpc'] at hpc; cases hpc
  | pushed => rw [hpc'] at hpc; cases hpc
  | _ => rw [hpc'] at h; cases h

theorem frame_write_slowpath_owned {j : ℕ} {mark_card : Option ℕ}
    (hpc : (s.segs j).pc.collecting = false)
    (hs : write_slowpath_owned s j obj mark_card = .next s') :
    SegFrame (s.segs i) (s'.segs i) := by
  have hcollecting : (s.segs j).pc.collecting = true → False := by
    rw [hpc]
    simp
  unfold write_slowpath_owned at hs
  dsimp only at hs
  split at hs
  · split at hs
    · cases hs
      refine .set rfl fun hij => ⟨fun h => (hcollecting (hij ▸ h)).elim, (by intros; contradiction), ?_⟩
      rw [hij]
      exact fun _ => id
    · cases hs
      refine .set rfl fun hij => ⟨fun h => (hcollecting (hij ▸ h)).elim, (by intros; contradiction), ?_⟩
      rw [hij]
      exact fun _ => id
  · cases hs

theorem frame_write_slowpath_common {j : ℕ} {mark_card : Option ℕ} (hpc : (s.segs j).pc = .running)
    (hs : write_slowpath_common s j obj mark_card = .next s') :
    SegFrame (s.segs i) (s'.segs i) := by
  unfold write_slowpath_common at hs
  dsimp only at hs
  split at hs
  · split at hs
    · unfold write_slowpath_overflow_obj at hs
      dsimp only at hs
      split at hs
      · split at hs
        · cases hs
        · cases hs
          refine .set rfl fun hij => ⟨?_, ?_, ?_⟩ <;> rw [hij]
          · exact id
          · exact id
          · exact fun _ => id
      · cases hs
        refine .set rfl fun hij => ⟨?_, ?_, ?_⟩ <;> rw [hij]
        · exact id
        · exact id
        · exact fun _ => id
    · cases hs
  · split at hs
    · cases hs
      refine .set rfl fun hij => .of_running (hij ▸ hpc) rfl ?_
      rw [hij]
      exact fun _ => id
    · split at hs
      · exact frame_write_slowpath_owned (by rw [hpc]; rfl) hs
      · cases hs

theorem segs_collect_now {val : ℕ → UInt8} (hs : collect_now s i obj val = .next s') :
    s'.segs = s.segs := by
  unfold collect_now at hs
  split at hs
  · cases hs
  · split at hs
    · cases hs
      rfl
    · cases hs
      rfl

theorem segs_age_object {commit : Bool} (hs : age_object NB_SEGMENTS s i obj commit = .next s') :
    ∃ seg, s'.segs = (s.set i seg).segs ∧ seg.pc = (s.segs i).pc
      ∧ seg.young_outside_nursery = (s.segs i).young_outside_nursery := by
  unfold age_object at hs
  dsimp only at hs
  split at hs
  · split at hs
    · split at hs
      · cases hs
      · cases hs
        refine ⟨s.segs i, ?_, rfl, rfl⟩
        unfold St.set
        rw [Function.update_eq_self]
    · cases hs
  · cases hs
    exact ⟨_, rfl, rfl, rfl⟩

/-- A turn of a minor collection that does not end it. -/
theorem frame_collect {j : ℕ} {val : ℕ → UInt8}
    (hend : (Act.collect j val).ends_minor_collection s i = false)
    (hs : step_segment NB_SEGMENTS s (.collect j val) = .next s') :
    SegFrame (s.segs i) (s'.segs i) := by
  cases hpc : (s.segs j).pc with
  | collect_cardrefs commit was_null =>
      simp only [step_segment, hpc] at hs
      unfold collect_cardrefs_to_nursery at hs
      dsimp only at hs
      split at hs
      · cases hs
        refine .set rfl fun hij => .of_collecting ?_ (by rw [hij]; exact fun _ => id)
        dsimp only
        split <;> rfl
      · rename_i lst obj hpop
        have hseg : i = j → SegFrame (s.segs i)
            { s.segs j with old_objects_with_cards := lst } := by
          intro hij
          refine .of_collecting ?_ (by rw [hij]; exact fun _ => id)
          dsimp only
          rw [hpc]
          rfl
        split at hs
        · unfold trace_card_object at hs
          dsimp only at hs
          split at hs
          · cases hs
            exact .set rfl hseg
          · cases hs
        · cases hs
          exact .set rfl hseg
  | collect_modified commit todo =>
      simp only [step_segment, hpc] at hs
      unfold collect_modified_old_objects at hs
      dsimp only at hs
      split at hs
      · cases hs
        exact .set rfl fun hij => .of_collecting rfl (by rw [hij]; exact fun _ => id)
      · exact .set (segs_collect_now hs) fun hij => .of_collecting rfl
          (by rw [hij]; exact fun _ => id)
  | collect_oldrefs commit =>
      simp only [step_segment, hpc] at hs
      unfold collect_oldrefs_to_nursery at hs
      dsimp only at hs
      split at hs
      · rename_i hpop
        cases hs
        have hne : i ≠ j := by
          rintro rfl
          have htraced := (is_traced_iff hpc).mpr (list_pop_item_eq_none.mp hpop)
          rw [ends_minor_collection_self, htraced] at hend
          cases hend
        unfold throw_away_nursery
        dsimp only
        rw [set_segs_of_ne _ hne, set_segs_of_ne _ hne]
        exact .refl _
      · rename_i lst obj sync hpop
        have hseg : i = j → SegFrame (s.segs i)
            { s.segs j with objects_pointing_to_nursery := some lst } := by
          intro hij
          refine .of_collecting ?_ (by rw [hij]; exact fun _ => id)
          dsimp only
          rw [hpc]
          rfl
        split at hs
        · rename_i t hnow
          have hsegs := segs_collect_now hnow
          split at hs
          · obtain ⟨seg, hage, hpc', hyoung⟩ := segs_age_object hs
            have hset : s'.segs = (s.set j seg).segs := by
              rw [hage]
              unfold St.set at hsegs ⊢
              dsimp only at hsegs ⊢
              rw [hsegs, Function.update_idem]
            refine .set hset fun hij => .of_collecting ?_ ?_
            · rw [hpc', hsegs, set_segs_self]
              dsimp only
              rw [hpc]
              rfl
            · rw [hyoung, hsegs, set_segs_self, hij]
              exact fun _ => id
          · cases hs
            exact .set hsegs hseg
        · rename_i r hr
          exact absurd hs (hr _)
  | _ =>
      simp only [step_segment, hpc] at hs
      cases hs

/-- Every step. -/
theorem seg_frame (h : Inv NB_SEGMENTS cards s)
    (hend : a.ends_minor_collection s i = false) (habort : a ≠ .abort_data_structures i)
    (htrace : ∀ o n, a ≠ .trace_young_outside_nursery i o n)
    (hs : step NB_SEGMENTS s a = .next s') : SegFrame (s.segs i) (s'.segs i) := by
  obtain ⟨-, hs⟩ := guarded_eq_next.mp hs
  cases a with
  | largemalloc_write addr b =>
      obtain ⟨-, hs⟩ := guarded_eq_next.mp hs
      cases hs
      exact .refl _
  | allocate_external j obj l =>
      obtain ⟨⟨hpc, -⟩, hs⟩ := guarded_eq_next.mp hs
      cases hs
      refine .set rfl fun hij => ?_
      rw [hij]
      exact ⟨id, id, fun _ => List.mem_cons_of_mem _⟩
  | stm_write j obj =>
      obtain ⟨⟨hpc, -⟩, hs⟩ := guarded_eq_next.mp hs
      unfold stm_write at hs
      split at hs
      · exact frame_write_slowpath_common hpc hs
      · cases hs
        exact .refl _
  | stm_write_card j obj index =>
      obtain ⟨⟨hpc, -⟩, hs⟩ := guarded_eq_next.mp hs
      unfold stm_write_card at hs
      dsimp only at hs
      split at hs
      · split at hs
        · cases hs
          exact .refl _
        · exact frame_write_slowpath_common hpc hs
      · cases hs
        exact .refl _
  | page_privatize j =>
      simp only [step_segment] at hs
      split at hs
      · rename_i obj mark_card p pages hpc
        cases hs
        refine .set rfl fun hij => ⟨fun h => ?_, (by intros; contradiction), ?_⟩
        · rw [hij, hpc] at h
          cases h
        · rw [hij]
          exact fun _ => id
      · cases hs
  | write_slowpath_owned j =>
      simp only [step_segment] at hs
      split at hs
      · rename_i obj mark_card hpc
        exact frame_write_slowpath_owned (by rw [hpc]; rfl) hs
      · cases hs
  | store j obj off b =>
      obtain ⟨-, hs⟩ := guarded_eq_next.mp hs
      cases hs
      exact .refl _
  | minor_collection j commit =>
      obtain ⟨-, hs⟩ := guarded_eq_next.mp hs
      cases hs
      exact .set rfl fun hij => .of_collecting rfl (by rw [hij]; exact fun _ => id)
  | evacuate j obj l val =>
      obtain ⟨-, hs⟩ := guarded_eq_next.mp hs
      cases hs
      refine .set rfl fun hij => ?_
      rw [hij]
      exact ⟨id, id, fun _ => id⟩
  | trace_young_outside_nursery j obj n =>
      obtain ⟨-, hs⟩ := guarded_eq_next.mp hs
      cases hs
      refine .set rfl fun hij => ?_
      subst hij
      exact absurd rfl (htrace obj n)
  | collect j val => exact frame_collect hend hs
  | push_overflow_objects j =>
      obtain ⟨hpc, hs⟩ := guarded_eq_next.mp hs
      unfold push_overflow_objects_from_privatized_pages at hs
      dsimp only at hs
      split at hs
      · cases hs
      · cases hs
        refine .set rfl fun hij => ⟨fun h => ?_, fun _ => ?_, ?_⟩
        · rw [hij, hpc] at h
          cases h
        · rw [hij, hpc]
          rfl
        · rw [hij]
          exact fun _ => id
  | restart_all j =>
      obtain ⟨hpc, hs⟩ := guarded_eq_next.mp hs
      cases hs
      refine .set rfl fun hij => ⟨fun h => ?_, (by intros; contradiction), ?_⟩
      · rw [hij, hpc] at h
        cases h
      · rw [hij]
        exact fun _ => id
  | commit_transaction j =>
      obtain ⟨hpc, hs⟩ := guarded_eq_next.mp hs
      obtain ⟨m, wl, -, rfl⟩ := commit_transaction_eq hs
      refine .set rfl fun hij => ⟨fun h => ?_, (by intros; contradiction), ?_⟩
      · rw [hij, hpc] at h
        cases h
      · rw [hij]
        exact fun _ => id
  | abort_data_structures j =>
      obtain ⟨-, hs⟩ := guarded_eq_next.mp hs
      cases hs
      have hne : i ≠ j := by
        rintro rfl
        exact habort rfl
      unfold abort_data_structures throw_away_nursery
      dsimp only
      rw [set_segs_of_ne _ hne, set_segs_of_ne _ hne]
      exact .refl _
  | reset_modified j =>
      simp only [step_segment] at hs
      split at hs
      · rename_i todo hpc
        have hresetting : i = j → (s.segs i).pc.collecting = true → False := by
          rintro rfl
          simp [hpc, Pc.collecting]
        cases todo with
        | zero =>
            cases hs
            refine .set rfl fun hij => ⟨fun h => (hresetting hij h).elim, (by intros; contradiction), ?_⟩
            rw [hij]
            exact fun _ => id
        | succ todo =>
            rw [reset_modified_from_other_segments] at hs
            split at hs
            · cases hs
            · unfold reset_modified_object at hs
              dsimp only at hs
              generalize (if obj_should_use_cards _ = true then
                reset_object_cards s.write_locks _ _ CARD_CLEAR false
                else s.write_locks) = wl at hs
              split at hs
              · cases hs
                refine .set rfl fun hij => ⟨fun h => (hresetting hij h).elim, (by intros; contradiction), ?_⟩
                rw [hij]
                exact fun _ => id
              · cases hs
      · cases hs
  | hashtable_entry j obj l val =>
      obtain ⟨-, hs⟩ := guarded_eq_next.mp hs
      cases hs
      exact .refl _
  | set_weakref_in_all_segments j obj val =>
      obtain ⟨-, hs⟩ := guarded_eq_next.mp hs
      cases hs
      exact .refl _
  | major_collection visited =>
      obtain ⟨hmay, hs⟩ := guarded_eq_next.mp hs
      split at hs
      · cases hs
      · rename_i t hmajor
        cases hs
        obtain ⟨u, hcleaned, ⟨-, hpc⟩, wl, -, rfl⟩ := h.cleaned_of_major_collection hmay hmajor
        have hyoung : (s.segs i).young_outside_nursery = [] := by
          by_cases hi : i ∈ segment_nums NB_SEGMENTS
          · exact (hmay.1 i hi).2.1
          · rw [h.absent i hi]
            rfl
        have hpc : ((sweep_large_objects u).segs i).pc = (s.segs i).pc := (hpc i).1
        refine ⟨?_, ?_, ?_⟩
        · dsimp only
          rw [hpc]
          exact id
        · dsimp only
          rw [hpc]
          exact id
        · rw [hyoung]
          simp

end

/-! ## The other fields of a segment -/

section

variable {s s' : Sys} {j : ℕ}

theorem priv_set (s : Sys) (i j : ℕ) (p : Priv) (st : St) :
    ({ s with st := st }.set j p).priv i = if i = j then p else s.priv i := by
  show Function.update s.priv j p i = _
  rw [Function.update_apply]

theorem not_active_of_none {p : Priv} (h : p.transaction_state = .ts_none) :
    p.is_active = false := by
  unfold Priv.is_active
  rw [h]
  rfl

theorem priv_of_end_commit (h : end_commit s j = some s') :
    (s'.priv j).transaction_state = .ts_none ∧ ∀ i, i ≠ j → s'.priv i = s.priv i := by
  unfold end_commit at h
  dsimp only at h
  split at h
  · obtain ⟨-, h⟩ := c_assert_eq_some.mp h
    cases h
    exact ⟨by simp [Sys.set], fun i hi => by simp [Sys.set, hi]⟩
  · cases h
    exact ⟨by simp [Sys.set], fun i hi => by simp [Sys.set, hi]⟩

end

end Stmgc.C7
