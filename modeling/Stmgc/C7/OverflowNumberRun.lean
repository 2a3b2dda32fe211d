/-
Which objects have the overflow number that a segment holds, in every run.

The machine of `Abort` is run with one more list for each segment: the objects
that have left the nursery in its current transaction, in a minor collection
that does not commit. [`is_overflow_obj_iff`] says that these and no others are
what `IS_OVERFLOW_OBJ` finds.
-/
import Stmgc.C7.OverflowListed
import Stmgc.C7.OverflowNumberInv

namespace Stmgc.C7

open Stmgc.Lib

/-! ## The objects that have left the nursery -/

/-- The machine of `Abort`, and for each segment the objects which have left
its nursery in a minor collection of the current transaction that does not
commit, without those that a major collection has freed. -/
structure MovedOut where
  sys : Sys
  left : ℕ → List ℕ

/-- What a step does to these lists. -/
def left_nursery (s : Sys) (a : SysAct) (left : ℕ → List ℕ) : ℕ → List ℕ :=
  match a with
  | .start_transaction i _ => Function.update left i []
  | .evacuate i _ obj _ _ | .trace_young_outside_nursery i obj =>
    if (s.st.segs i).pc.will_commit_now then left else Function.update left i (obj :: left i)
  | .major_collection visited => fun i => (left i).filter (is_visited s.st visited)
  | _ => left

def moved_out_step (NB_SEGMENTS : ℕ) (t : MovedOut) (a : SysAct) : Outcome MovedOut :=
  (sys_step NB_SEGMENTS t.sys a).bind fun s => .next ⟨s, left_nursery t.sys a t.left⟩

/-- After the setup. `stm_setup` asserts a bound on the number of segments, and
`stm_setup_prebuilt` gives the prebuilt objects no number. -/
structure MovedOut.Initial (NB_SEGMENTS : ℕ) (t : MovedOut) : Prop where
  sys : t.sys.Initial NB_SEGMENTS
  nb_segments : NB_SEGMENTS < 253
  prebuilt : ∀ o, t.sys.st.kind o = .old →
    stm_flags (read t.sys.st.mem 0) o < GCFLAG_OVERFLOW_NUMBER_bit0

/-- `overflow_number` of a segment. -/
def Sys.number (s : Sys) (i : ℕ) : ℕ := (s.priv i).overflow_number

structure MovedOutInv (NB_SEGMENTS : ℕ) (s : Sys) (left : ℕ → List ℕ) : Prop where
  held : HeldNumbers NB_SEGMENTS s.number s.highest_overflow_number
  objects : ObjectNumbers NB_SEGMENTS s.st.mem s.st.kind s.number s.highest_overflow_number left
  active : ∀ o i, s.st.kind o = .overflow i → (s.priv i).is_active = true
  kind : ∀ i, (s.priv i).is_active = true → ∀ o ∈ left i, s.st.kind o = .overflow i
  collecting : ∀ i, (s.st.segs i).pc.collecting = true →
    (s.st.segs i).pc.will_commit_now = false → (s.priv i).overflow_number_has_been_used = true
  used : ∀ i, (s.priv i).is_active = true → ∀ o ∈ left i,
    (s.priv i).overflow_number_has_been_used = true
  committing : ∀ i, (s.priv i).is_active = true → (s.st.segs i).pc.will_commit_now = true →
    ∀ o ∈ left i, o ∈ (s.st.segs i).large_overflow_objects

/-- Nothing about the overflow numbers changes in these fields. -/
structure SameNumbers (p p' : Priv) : Prop where
  number : p'.overflow_number = p.overflow_number
  used : p.overflow_number_has_been_used = true → p'.overflow_number_has_been_used = true
  active : p'.is_active = p.is_active

/-! ## What the steps do to the kinds of objects -/

section Kinds

variable {NB_SEGMENTS i : ℕ} {s s' : St} {a : Act}

theorem collecting_of_will_commit_now {pc : Pc} (h : pc.will_commit_now = true) :
    pc.collecting = true := by
  cases pc with
  | collect_cardrefs commit was_null => rfl
  | collect_modified commit todo => rfl
  | collect_oldrefs commit => rfl
  | _ => cases h

/-- A step makes no overflow objects and takes none away, and the objects that
become old have no number. -/
structure KindStep (NB_SEGMENTS : ℕ) (s s' : St) : Prop where
  old : ∀ o, s'.kind o = .old → s.kind o = .old
    ∨ (∀ j ≤ NB_SEGMENTS, number_in (read s'.mem j) o = 0)
    ∨ ∃ i, s.kind o = .overflow i ∧ o ∉ (s.segs i).large_overflow_objects
      ∧ (s.segs i).pc.will_commit_now = true
      ∧ ∀ j ≤ NB_SEGMENTS, SameNumber (read s'.mem j) (read s'.mem i) o
  overflow : ∀ o i, s'.kind o = .overflow i → s.kind o = .overflow i
  kept : ∀ o i, s.kind o = .overflow i → s'.kind o = .overflow i
    ∨ o ∉ (s.segs i).large_overflow_objects ∧ (s.segs i).pc.will_commit_now = true

theorem KindStep.of_eq (h : s'.kind = s.kind) : KindStep NB_SEGMENTS s s' := by
  refine ⟨fun o ho => .inl ?_, fun o i ho => ?_, fun o i ho => .inl ?_⟩
  · rw [← h]
    exact ho
  · rw [← h]
    exact ho
  · rw [h]
    exact ho

/-- A new object that is not an overflow object. -/
theorem KindStep.of_new {obj : ℕ} {k : Kind} (h : s'.kind = Function.update s.kind obj k)
    (hfree : s.kind obj = .free) (hk : ∀ n, k ≠ .overflow n)
    (hold : k = .old → ∀ j ≤ NB_SEGMENTS, number_in (read s'.mem j) obj = 0) :
    KindStep NB_SEGMENTS s s' := by
  refine ⟨fun o ho => ?_, fun o i ho => ?_, fun o i ho => .inl ?_⟩
  · rw [h, Function.update_apply] at ho
    split at ho
    · rename_i heq
      rw [heq]
      exact .inr (.inl (hold ho))
    · exact .inl ho
  · rw [h, Function.update_apply] at ho
    split at ho
    · exact absurd ho (hk i)
    · exact ho
  · rw [h, Function.update_of_ne]
    · exact ho
    · rintro rfl
      rw [hfree] at ho
      cases ho

theorem kind_step_plain (ha : a.is_plain = true) (hs : step NB_SEGMENTS s a = .next s') :
    KindStep NB_SEGMENTS s s' := by
  obtain ⟨-, hs⟩ := guarded_eq_next.mp hs
  cases a with
  | allocate_external i obj l =>
      obtain ⟨⟨-, hfree, -⟩, hs⟩ := guarded_eq_next.mp hs
      cases hs
      exact .of_new rfl hfree (by simp) (by simp)
  | page_privatize i =>
      simp only [step_segment] at hs
      split at hs
      · cases hs
        exact .of_eq rfl
      · cases hs
  | write_slowpath_owned i =>
      simp only [step_segment] at hs
      split at hs
      · exact .of_eq (kind_write_slowpath_owned hs)
      · cases hs
  | push_overflow_objects i =>
      obtain ⟨-, hs⟩ := guarded_eq_next.mp hs
      unfold push_overflow_objects_from_privatized_pages at hs
      dsimp only at hs
      split at hs
      · cases hs
      · cases hs
        exact .of_eq rfl
  | hashtable_entry i obj l val =>
      obtain ⟨⟨-, hfree, -, hval, h1, h2, h3⟩, hs⟩ := guarded_eq_next.mp hs
      cases hs
      refine .of_new rfl hfree (by simp) fun _ j hj => ?_
      have hsize := l.size_pos
      have hread : ∀ k < 4, read (write_all_segments NB_SEGMENTS s.mem (in_range obj l.size) val) j
          (obj + k) = val (obj + k) := fun k hk =>
        read_write_all_segments hj (in_range_iff.mpr ⟨by omega, by omega⟩)
      have hfirst := hread 0 (by omega)
      rw [Nat.add_zero] at hfirst
      refine number_in_of_lt ?_
      unfold stm_flags
      dsimp only
      rw [hfirst, hread 1 (by omega), hread 2 (by omega), hread 3 (by omega), hval, h1, h2, h3]
      decide
  | largemalloc_write addr b =>
      obtain ⟨-, hs⟩ := guarded_eq_next.mp hs
      cases hs
      exact .of_eq rfl
  | store i obj off b =>
      obtain ⟨-, hs⟩ := guarded_eq_next.mp hs
      cases hs
      exact .of_eq rfl
  | restart_all i =>
      obtain ⟨-, hs⟩ := guarded_eq_next.mp hs
      cases hs
      exact .of_eq rfl
  | set_weakref_in_all_segments i obj val =>
      obtain ⟨-, hs⟩ := guarded_eq_next.mp hs
      cases hs
      exact .of_eq rfl
  | _ => cases ha

/-- Only the minor collection of a commit makes overflow objects old, and they
were not in `large_overflow_objects` yet. -/
theorem kind_step_collect {val : ℕ → UInt8} (hi : i ≤ NB_SEGMENTS) (h : Inv NB_SEGMENTS false s)
    (hs : step_segment NB_SEGMENTS s (.collect i val) = .next s') :
    KindStep NB_SEGMENTS s s' := by
  by_cases ht : is_traced (s.segs i) = true
  · have hkind := kind_of_is_traced ht hs
    have hyoung : ∀ o j, s.kind o = .overflow j → o ∉ (s.segs i).young_outside_nursery := by
      intro o j ho hmem
      rw [(h.lists i).young o hmem] at ho
      cases ho
    refine ⟨fun o ho => .inl ?_, fun o j ho => ?_, fun o j ho => .inl ?_⟩
    · rw [hkind] at ho
      dsimp only at ho
      split at ho
      · cases ho
      · exact ho
    · rw [hkind] at ho
      dsimp only at ho
      split at ho
      · cases ho
      · exact ho
    · rw [hkind]
      dsimp only
      rw [if_neg (hyoung o j ho)]
      exact ho
  · cases hpc : (s.segs i).pc with
    | collect_cardrefs commit was_null =>
        simp only [step_segment, hpc] at hs
        exact .of_eq (kind_collect_cardrefs_to_nursery hs)
    | collect_modified commit todo =>
        simp only [step_segment, hpc] at hs
        exact .of_eq (kind_collect_modified_old_objects hs)
    | collect_oldrefs commit =>
        simp only [step_segment, hpc] at hs
        unfold collect_oldrefs_to_nursery at hs
        dsimp only at hs
        split at hs
        · rename_i hpop
          exact absurd ((is_traced_iff hpc).mpr (list_pop_item_eq_none.mp hpop)) ht
        · rename_i lst obj sync hpop
          have hitem : (obj, sync) ∈ (s.segs i).objects_pointing_to_nursery.getD [] := by
            rw [list_pop_item_eq_some hpop]
            exact List.mem_append_right _ List.mem_cons_self
          split at hs
          · rename_i t hnow
            have hkind : t.kind = s.kind := (kind_collect_now hnow).trans rfl
            have hlayout : t.layout = s.layout := (layout_collect_now hnow).trans rfl
            split at hs
            · rename_i hsync
              unfold age_object at hs
              dsimp only at hs
              split at hs
              · rename_i hcommit
                split at hs
                · split at hs
                  · cases hs
                  · rename_i mem wl hpush
                    cases hs
                    -- the item has the flag of the objects that were moved out
                    obtain ⟨hk, hov⟩ : s.kind obj = .overflow i
                        ∧ obj ∉ (s.segs i).large_overflow_objects := by
                      rcases (h.lists i).pointing (by rw [hpc]; rfl) _ hitem with
                        ⟨hfalse, -⟩ | ⟨-, hk, hov⟩
                      · exact absurd (hsync.symm.trans hfalse) (by decide)
                      · exact ⟨hk, hov⟩
                    have hnow : (s.segs i).pc.will_commit_now = true := by
                      rw [hpc]
                      exact hcommit
                    have hpushed := (synchronize_object_now_spec hi hpush).1
                    refine ⟨fun o ho => ?_, fun o j ho => ?_, fun o j ho => ?_⟩
                    · dsimp only at ho
                      rw [Function.update_apply, hkind] at ho
                      split at ho
                      · rename_i heq
                        rw [heq]
                        refine .inr (.inr ⟨i, hk, hov, hnow, fun j hj => ?_⟩)
                        refine .of_header fun b hle hlt => ?_
                        have hsize := (s.layout obj).size_pos
                        have hr : synchronized_range t.write_locks obj (t.layout obj) true b := by
                          refine ⟨?_, .inl rfl⟩
                          rw [hlayout]
                          omega
                        rw [hpushed.pushed j hj b hr, hpushed.pushed i hi b hr]
                      · exact .inl ho
                    · dsimp only at ho
                      rw [Function.update_apply, hkind] at ho
                      split at ho
                      · cases ho
                      · exact ho
                    · by_cases heq : o = obj
                      · rw [heq] at ho ⊢
                        rw [hk, Kind.overflow.injEq] at ho
                        rw [← ho]
                        exact .inr ⟨hov, hnow⟩
                      · left
                        dsimp only
                        rw [Function.update_of_ne heq, hkind]
                        exact ho
                · cases hs
              · cases hs
                exact .of_eq hkind
            · cases hs
              exact .of_eq hkind
          · rename_i r hr
            exact absurd hs (hr _)
    | _ =>
        simp only [step_segment, hpc] at hs
        cases hs

end Kinds

/-! ## Steps of the machine of `Transaction` -/

section Step

variable {NB_SEGMENTS i n obj : ℕ} {s s' : Sys} {left left' : ℕ → List ℕ} {b : Act}

theorem SameNumbers.refl (p : Priv) : SameNumbers p p := ⟨rfl, id, rfl⟩

theorem number_of_same (h : ∀ j, SameNumbers (s.priv j) (s'.priv j)) : s'.number = s.number :=
  funext fun j => (h j).number

/-- What is to be shown of a step is about the objects; the rest is about
minor collections. -/
theorem MovedOutInv.of_step (h : MovedOutInv NB_SEGMENTS s left) (hinv : Inv NB_SEGMENTS false s.st)
    (hlisted : OverflowListed s.st) (hs : step NB_SEGMENTS s.st b = .next s'.st)
    (hpriv : ∀ j, SameNumbers (s.priv j) (s'.priv j))
    (hhighest : s'.highest_overflow_number = s.highest_overflow_number)
    (hstart : ∀ j, b = .minor_collection j false →
      (s'.priv j).overflow_number_has_been_used = true)
    (hobjects : ObjectNumbers NB_SEGMENTS s'.st.mem s'.st.kind s.number
      s.highest_overflow_number left')
    (hactive : ∀ o j, s'.st.kind o = .overflow j → (s.priv j).is_active = true)
    (hkind : ∀ j, (s.priv j).is_active = true → ∀ o ∈ left' j, s'.st.kind o = .overflow j)
    (hleft : ∀ j, ∀ o ∈ left' j, o ∈ left j ∨ (s.st.segs j).pc.collecting = true
      ∧ (s.st.segs j).pc.will_commit_now = false) :
    MovedOutInv NB_SEGMENTS s' left' := by
  have hnumber := number_of_same hpriv
  refine ⟨?_, ?_, fun o j ho => ?_, fun j hj => ?_, fun j hc hnow => ?_, fun j hj o ho => ?_,
    fun j hj hnow o ho => ?_⟩
  · rw [hnumber, hhighest]
    exact h.held
  · rw [hnumber, hhighest]
    exact hobjects
  · rw [(hpriv j).active]
    exact hactive o j ho
  · rw [(hpriv j).active] at hj
    exact hkind j hj
  · rcases (collect_frame hinv hs hc).pc with ⟨hc', hsame⟩ | ⟨-, hb⟩
    · exact (hpriv j).used (h.collecting j hc' (hsame.symm.trans hnow))
    · rw [hnow] at hb
      exact hstart j hb
  · rw [(hpriv j).active] at hj
    rcases hleft j o ho with hold | ⟨hc, hnow⟩
    · exact (hpriv j).used (h.used j hj o hold)
    · exact (hpriv j).used (h.collecting j hc hnow)
  · rw [(hpriv j).active] at hj
    have hframe := collect_frame hinv hs (collecting_of_will_commit_now hnow)
    refine hframe.overflow o ?_
    rcases hframe.pc with ⟨-, hsame⟩ | ⟨hrun, -⟩
    · rw [hsame] at hnow
      rcases hleft j o ho with hold | ⟨-, hnot⟩
      · exact h.committing j hj hnow o hold
      · rw [hnow] at hnot
        cases hnot
    · -- before a minor collection all overflow objects are listed
      have hnot := not_collecting_of_running hrun
      rcases hleft j o ho with hold | ⟨hc, -⟩
      · rcases hlisted.listed o j (h.kind j hj o hold) with hov | ⟨hc, -⟩
        · exact hov
        · rw [hnot] at hc
          cases hc
      · rw [hnot] at hc
        cases hc

/-- What `minor_trace_if_young` puts into the flags of an object. -/
theorem MovedOutInv.number_in_new {f : ℕ → UInt8} (h : MovedOutInv NB_SEGMENTS s left)
    (hi : i ∈ segment_nums NB_SEGMENTS)
    (hflags : stm_flags f obj < GCFLAG_OVERFLOW_NUMBER_bit0) :
    number_in (or_overflow_number (new_overflow_number s i) obj f) obj
      = new_overflow_number s i := by
  unfold new_overflow_number
  split
  · exact number_in_or_overflow_number hflags (Nat.dvd_zero _) (by decide)
  · refine number_in_or_overflow_number hflags (h.held.multiple i hi) ?_
    have hbound : (s.priv i).overflow_number ≤ s.highest_overflow_number := h.held.bound i hi
    have hlimit := h.held.limit
    omega

/-- No object leaves the nursery. -/
theorem MovedOutInv.of_kind_step (h : MovedOutInv NB_SEGMENTS s left)
    (hinv : Inv NB_SEGMENTS false s.st) (hlisted : OverflowListed s.st)
    (hs : step NB_SEGMENTS s.st b = .next s'.st)
    (hpriv : ∀ j, SameNumbers (s.priv j) (s'.priv j))
    (hhighest : s'.highest_overflow_number = s.highest_overflow_number)
    (hstart : ∀ j, b = .minor_collection j false →
      (s'.priv j).overflow_number_has_been_used = true)
    (hnumber : NumberStep NB_SEGMENTS s.st.kind s.st.mem s'.st.mem)
    (hkinds : KindStep NB_SEGMENTS s.st s'.st) : MovedOutInv NB_SEGMENTS s' left := by
  -- what a commit shows to the others was moved out of the nursery for it
  have hnew : ∀ o j, s.st.kind o = .overflow j → o ∉ (s.st.segs j).large_overflow_objects →
      (s.st.segs j).pc.will_commit_now = true → o ∉ left j := by
    intro o j hk hov hnow hmem
    exact hov (h.committing j (h.active o j hk) hnow o hmem)
  refine h.of_step hinv hlisted hs hpriv hhighest hstart ?_
    (fun o j ho => h.active o j (hkinds.overflow o j ho)) (fun j hj o ho => ?_)
    (fun j o ho => .inl ho)
  · refine h.objects.step h.held hnumber (fun o ho => ?_) hkinds.overflow
    rcases hkinds.old o ho with hold | hzero | ⟨j, hk, hov, hnow, hseen⟩
    · exact .inl hold
    · exact .inr hzero
    · exact .inr fun n hn => h.objects.number_in_pushed hnumber hk (hnew o j hk hov hnow) hseen hn
  · have hk := h.kind j hj o ho
    rcases hkinds.kept o j hk with hkept | ⟨hov, hnow⟩
    · exact hkept
    · exact absurd ho (hnew o j hk hov hnow)

/-- An object leaves the nursery. -/
theorem MovedOutInv.moved (h : MovedOutInv NB_SEGMENTS s left)
    (hinv : Inv NB_SEGMENTS false s.st) (hlisted : OverflowListed s.st)
    (hs : step NB_SEGMENTS s.st b = .next s'.st)
    (hb : ∀ j commit, b ≠ .minor_collection j commit)
    (hpriv : ∀ j, SameNumbers (s.priv j) (s'.priv j))
    (hhighest : s'.highest_overflow_number = s.highest_overflow_number)
    (hnumber : NumberStep NB_SEGMENTS s.st.kind s.st.mem s'.st.mem)
    (hactive : (s.priv i).is_active = true) (hpc : (s.st.segs i).pc.collecting = true)
    (hnot : ∀ j, s.st.kind obj ≠ .overflow j)
    (hkind : s'.st.kind = Function.update s.st.kind obj (.overflow i))
    (hnew : number_in (read s'.st.mem i) obj = new_overflow_number s i) :
    MovedOutInv NB_SEGMENTS s' (if (s.st.segs i).pc.will_commit_now then left
      else Function.update left i (obj :: left i)) := by
  have hunlisted : ∀ j, (s.priv j).is_active = true → obj ∉ left j :=
    fun j hj hmem => hnot j (h.kind j hj obj hmem)
  have hmem : ∀ o j, o ∈ (if (s.st.segs i).pc.will_commit_now then left
      else Function.update left i (obj :: left i)) j ↔ o ∈ left j
        ∨ (s.st.segs i).pc.will_commit_now = false ∧ j = i ∧ o = obj := by
    intro o j
    by_cases hnow : (s.st.segs i).pc.will_commit_now = true
    · rw [if_pos hnow, hnow]
      simp
    · rw [if_neg hnow]
      rw [Bool.not_eq_true] at hnow
      rw [hnow]
      by_cases hj : j = i
      · rw [hj, Function.update_self, List.mem_cons]
        simp [or_comm]
      · rw [Function.update_of_ne hj]
        simp [hj]
  refine h.of_step hinv hlisted hs hpriv hhighest (fun j hbj => absurd hbj (hb j false)) ?_
    (fun o j ho => ?_) (fun j hj o ho => ?_) (fun j o ho => ?_)
  · rw [hkind]
    refine h.objects.moved hnumber ?_ fun o j hne => ?_
    · rw [hnew, new_overflow_number]
      by_cases hnow : (s.st.segs i).pc.will_commit_now = true
      · rw [if_pos hnow, if_pos hnow, if_neg (hunlisted i hactive)]
      · rw [if_neg hnow, if_pos]
        · rfl
        · rw [hmem, ← Bool.not_eq_true]
          exact .inr ⟨hnow, rfl, rfl⟩
    · rw [hmem]
      exact ⟨fun ho => ho.resolve_right fun hr => hne hr.2.2, .inl⟩
  · rw [hkind] at ho
    rcases moved_kind ho with hold | ⟨-, hj⟩
    · exact h.active o j hold
    · rw [hj]
      exact hactive
  · rw [hmem] at ho
    rw [hkind]
    rcases ho with hold | ⟨-, rfl, rfl⟩
    · have hk := h.kind j hj o hold
      rw [Function.update_of_ne]
      · exact hk
      · rintro rfl
        exact hnot j hk
    · exact Function.update_self _ _ _
  · rw [hmem] at ho
    rcases ho with hold | ⟨hnow, hj, -⟩
    · exact .inl hold
    · rw [hj]
      exact .inr ⟨hpc, hnow⟩

/-- Only the other fields of the segments change. -/
theorem MovedOutInv.of_priv (h : MovedOutInv NB_SEGMENTS s left) (hst : s'.st = s.st)
    (hpriv : ∀ j, SameNumbers (s.priv j) (s'.priv j))
    (hhighest : s'.highest_overflow_number = s.highest_overflow_number) :
    MovedOutInv NB_SEGMENTS s' left := by
  have hnumber := number_of_same hpriv
  refine ⟨?_, ?_, fun o j ho => ?_, fun j hj => ?_, fun j hc hnow => ?_, fun j hj o ho => ?_,
    fun j hj => ?_⟩
  · rw [hnumber, hhighest]
    exact h.held
  · rw [hnumber, hhighest, hst]
    exact h.objects
  · rw [(hpriv j).active]
    rw [hst] at ho
    exact h.active o j ho
  · rw [(hpriv j).active] at hj
    rw [hst]
    exact h.kind j hj
  · rw [hst] at hc hnow
    exact (hpriv j).used (h.collecting j hc hnow)
  · rw [(hpriv j).active] at hj
    exact (hpriv j).used (h.used j hj o ho)
  · rw [(hpriv j).active] at hj
    rw [hst]
    exact h.committing j hj

/-- `stm_start_transaction`: the segment has no overflow objects. -/
theorem MovedOutInv.start_transaction {p : Priv} (h : MovedOutInv NB_SEGMENTS s left)
    (hidle : (s.priv i).is_active = false) (hp : p.overflow_number = (s.priv i).overflow_number)
    (hused : p.overflow_number_has_been_used = (s.priv i).overflow_number_has_been_used) :
    MovedOutInv NB_SEGMENTS (s.set i p) (Function.update left i []) := by
  have hnumber : (s.set i p).number = s.number := by
    funext j
    unfold Sys.number Sys.set
    dsimp only
    rw [Function.update_apply]
    split
    · rename_i hj
      rw [hp, hj]
    · rfl
  have hnone : ∀ o, s.st.kind o ≠ .overflow i := by
    intro o ho
    have hactive := h.active o i ho
    rw [hidle] at hactive
    cases hactive
  have hpriv : ∀ j, j ≠ i → (s.set i p).priv j = s.priv j :=
    fun j hj => Function.update_of_ne hj _ _
  refine ⟨?_, ?_, fun o j ho => ?_, fun j hj o ho => ?_, fun j hc hnow => ?_, fun j hj o ho => ?_,
    fun j hj hnow o ho => ?_⟩
  · rw [hnumber]
    exact h.held
  · rw [hnumber]
    refine h.objects.relist fun o j ho => ?_
    rw [Function.update_of_ne]
    rintro rfl
    exact hnone o ho
  · have hji : j ≠ i := by
      rintro rfl
      exact hnone o ho
    rw [hpriv j hji]
    exact h.active o j ho
  · by_cases hji : j = i
    · rw [hji, Function.update_self] at ho
      cases ho
    · rw [Function.update_of_ne hji] at ho
      rw [hpriv j hji] at hj
      exact h.kind j hj o ho
  · by_cases hji : j = i
    · rw [hji] at hc hnow ⊢
      unfold Sys.set
      dsimp only
      rw [Function.update_self, hused]
      exact h.collecting i hc hnow
    · rw [hpriv j hji]
      exact h.collecting j hc hnow
  · by_cases hji : j = i
    · rw [hji, Function.update_self] at ho
      cases ho
    · rw [Function.update_of_ne hji] at ho
      rw [hpriv j hji] at hj ⊢
      exact h.used j hj o ho
  · by_cases hji : j = i
    · rw [hji, Function.update_self] at ho
      cases ho
    · rw [Function.update_of_ne hji] at ho
      rw [hpriv j hji] at hj
      exact h.committing j hj hnow o ho

/-- The transaction of segment `n` is over, and its lists are empty. -/
theorem MovedOutInv.finished (h : MovedOutInv NB_SEGMENTS s left)
    (hidle : (s'.priv n).is_active = false) (hpriv : ∀ j, j ≠ n → s'.priv j = s.priv j)
    (hsegs : ∀ j, j ≠ n → s'.st.segs j = s.st.segs j) (hpc : (s'.st.segs n).pc = .running)
    (hheld : HeldNumbers NB_SEGMENTS s'.number s'.highest_overflow_number)
    (hobjects : ObjectNumbers NB_SEGMENTS s'.st.mem s'.st.kind s'.number
      s'.highest_overflow_number left)
    (hov : ∀ o j, s'.st.kind o = .overflow j → s.st.kind o = .overflow j ∧ j ≠ n)
    (hkept : ∀ o j, j ≠ n → s.st.kind o = .overflow j → s'.st.kind o = .overflow j) :
    MovedOutInv NB_SEGMENTS s' left := by
  have hactive : ∀ j, (s'.priv j).is_active = true → j ≠ n := by
    rintro j hj rfl
    rw [hidle] at hj
    cases hj
  have hcollecting : ∀ j, (s'.st.segs j).pc.collecting = true → j ≠ n := by
    rintro j hj rfl
    rw [hpc] at hj
    cases hj
  refine ⟨hheld, hobjects, fun o j ho => ?_, fun j hj o ho => ?_, fun j hc hnow => ?_,
    fun j hj o ho => ?_, fun j hj hnow o ho => ?_⟩
  · obtain ⟨hk, hjn⟩ := hov o j ho
    rw [hpriv j hjn]
    exact h.active o j hk
  · have hjn := hactive j hj
    rw [hpriv j hjn] at hj
    exact hkept o j hjn (h.kind j hj o ho)
  · have hjn := hcollecting j hc
    rw [hpriv j hjn]
    rw [hsegs j hjn] at hc hnow
    exact h.collecting j hc hnow
  · have hjn := hactive j hj
    rw [hpriv j hjn] at hj ⊢
    exact h.used j hj o ho
  · have hjn := hactive j hj
    rw [hpriv j hjn] at hj
    rw [hsegs j hjn] at hnow ⊢
    exact h.committing j hj hnow o ho

/-- The end of a commit. -/
theorem MovedOutInv.commit_transaction {st : St} (h : MovedOutInv NB_SEGMENTS s left)
    (hinv : Inv NB_SEGMENTS false s.st) (hlisted : OverflowListed s.st)
    (hs : step NB_SEGMENTS s.st (.commit_transaction i) = .next st)
    (hend : end_commit { s with st := st } i = some s') : MovedOutInv NB_SEGMENTS s' left := by
  have hnumber := number_step hinv rfl (fun _ hb => by cases hb) hs
  obtain ⟨hi, hs⟩ := guarded_eq_next.mp hs
  have hi : i ∈ segment_nums NB_SEGMENTS := hi i rfl
  obtain ⟨hpc, hs⟩ := guarded_eq_next.mp hs
  obtain ⟨m, wl, hfold, rfl⟩ := commit_transaction_eq hs
  have hpush := (hinv.push_modified (mem_segment_nums.mp hi).2 hfold).pushed
  -- the overflow objects have been shown to all segments before
  have hseen : ∀ o, s.st.kind o = .overflow i → ∀ j ≤ NB_SEGMENTS,
      SameNumber (read m j) (read m i) o := by
    intro o ho j hj
    have hov : o ∈ (s.st.segs i).large_overflow_objects := by
      rcases hlisted.listed o i ho with hov | ⟨hc, -⟩
      · exact hov
      · rw [hpc] at hc
        cases hc
    obtain ⟨-, hsame⟩ := (hinv.objs o (by rw [ho]; nofun)).views.pushed i hpc hov
    refine .of_header fun a hle hlt => ?_
    have hsize := (s.st.layout o).size_pos
    have hin : in_object s.st o a := ⟨hle, by omega⟩
    have hout : ¬ ∃ o' ∈ (s.st.segs i).modified_old_objects.reverse,
        synchronized_range s.st.write_locks o' (s.st.layout o') false a := by
      rintro ⟨o', ho', hb, -⟩
      have hk := hinv.old_of_modified (List.mem_reverse.mp ho')
      have hne : o ≠ o' := by
        rintro rfl
        rw [hk] at ho
        cases ho
      have hdis := hinv.disjoint (by rw [ho]; nofun) (by rw [hk]; nofun) hne
      omega
    rw [hpush.frame j a hout, hpush.frame i a hout]
    exact hsame j hj a hin
  have hold : ∀ o, (if s.st.kind o = .overflow i then
      if o ∈ (s.st.segs i).large_overflow_objects then Kind.old else .dead
      else s.st.kind o) = .old → s.st.kind o = .old ∨ s.st.kind o = .overflow i := by
    intro o ho
    split at ho
    · rename_i hk
      exact .inr hk
    · exact .inl ho
  have hov : ∀ o j, (if s.st.kind o = .overflow i then
      if o ∈ (s.st.segs i).large_overflow_objects then Kind.old else .dead
      else s.st.kind o) = .overflow j → s.st.kind o = .overflow j ∧ j ≠ i := by
    intro o j ho
    split at ho
    · split at ho
      · cases ho
      · cases ho
    · rename_i hne
      exact ⟨ho, by rintro rfl; exact hne ho⟩
  have hkept : ∀ o j, j ≠ i → s.st.kind o = .overflow j → (if s.st.kind o = .overflow i then
      if o ∈ (s.st.segs i).large_overflow_objects then Kind.old else .dead
      else s.st.kind o) = .overflow j := by
    intro o j hji ho
    rw [if_neg]
    · exact ho
    · rw [ho, Kind.overflow.injEq]
      exact hji
  unfold end_commit at hend
  dsimp only at hend
  split at hend
  · -- the number was used, so the segment gets a new one
    obtain ⟨hlimit, hend⟩ := c_assert_eq_some.mp hend
    rw [Option.pure_def, Option.some.injEq] at hend
    have hnew : s'.number = Function.update s.number i
        (s.highest_overflow_number + GCFLAG_OVERFLOW_NUMBER_bit0) := by
      rw [← hend]
      funext j
      unfold Sys.number Sys.set
      dsimp only
      rw [Function.update_apply, Function.update_apply]
      split <;> rfl
    have hidle : (s'.priv i).is_active = false := by
      rw [← hend]
      unfold Sys.set
      dsimp only
      rw [Function.update_self]
      rfl
    refine h.finished hidle (fun j hj => ?_) (fun j hj => ?_) ?_ ?_ ?_ ?_ ?_
    · rw [← hend]
      exact Function.update_of_ne hj _ _
    · rw [← hend]
      exact set_segs_of_ne _ hj
    · rw [← hend]
      unfold Sys.set
      dsimp only
      rw [set_segs_self]
      rfl
    · rw [hnew, ← hend]
      exact h.held.bump hlimit
    · rw [hnew, ← hend]
      exact h.objects.bump h.held hi hnumber hseen hold hov
    · rw [← hend]
      exact hov
    · rw [← hend]
      exact hkept
  · rename_i hunused
    rw [Option.pure_def, Option.some.injEq] at hend
    have hnew : s'.number = s.number := by
      rw [← hend]
      funext j
      unfold Sys.number Sys.set
      dsimp only
      rw [Function.update_apply]
      split
      · rename_i hj
        rw [hj]
      · rfl
    have hidle : (s'.priv i).is_active = false := by
      rw [← hend]
      unfold Sys.set
      dsimp only
      rw [Function.update_self]
      rfl
    refine h.finished hidle (fun j hj => ?_) (fun j hj => ?_) ?_ ?_ ?_ ?_ ?_
    · rw [← hend]
      exact Function.update_of_ne hj _ _
    · rw [← hend]
      exact set_segs_of_ne _ hj
    · rw [← hend]
      unfold Sys.set
      dsimp only
      rw [set_segs_self]
      rfl
    · rw [hnew, ← hend]
      exact h.held
    · rw [hnew, ← hend]
      refine h.objects.step h.held hnumber (fun o ho => ?_) fun o j ho => (hov o j ho).1
      rcases hold o ho with hk | hk
      · exact .inl hk
      · refine .inr fun n hn =>
          h.objects.number_in_pushed hnumber hk (fun hmem => ?_) (hseen o hk) hn
        exact hunused (h.used i (h.active o i hk) o hmem)
    · rw [← hend]
      exact hov
    · rw [← hend]
      exact hkept

/-- An abort. -/
theorem MovedOutInv.abort {gs : ℕ} (h : MovedOutInv NB_SEGMENTS s left)
    (hinv : Inv NB_SEGMENTS false s.st) (hn : n ∈ segment_nums NB_SEGMENTS)
    (hpc : may_abort (s.st.segs n))
    (hs : abort_data_structures_from_segment_num s gs n = .next s') :
    MovedOutInv NB_SEGMENTS s' left := by
  obtain ⟨-, st, tl, hst, -, -, rfl⟩ := abort_eq_next hs
  obtain ⟨st', hst', hreset⟩ := reset_all_modified_spec hinv hn hpc
  rw [hst, Outcome.next.injEq] at hst'
  subst hst'
  have hnumber : NumberStep NB_SEGMENTS s.st.kind s.st.mem st.mem := by
    refine number_step_reset_all (t := abort_data_structures s.st n) hinv rfl (fun o ho => ?_) hst
    unfold abort_data_structures throw_away_nursery at ho
    dsimp only at ho
    rw [set_segs_self, set_segs_self] at ho
    exact hinv.old_of_modified ho
  have hkind : ∀ o, st.kind o = if o ∈ (s.st.segs n).young_outside_nursery then .free
      else if s.st.kind o = .overflow n then .dead else s.st.kind o := by
    intro o
    rw [hreset.kind]
    dsimp only
    rw [kind_abort_data_structures]
    by_cases hmem : o ∈ (s.st.segs n).young_outside_nursery
    · rw [if_pos hmem, if_pos hmem, if_neg nofun]
    · rw [if_neg hmem, if_neg hmem]
  have hyoung : ∀ o j, s.st.kind o = .overflow j → o ∉ (s.st.segs n).young_outside_nursery := by
    intro o j ho hmem
    rw [(hinv.lists n).young o hmem] at ho
    cases ho
  have hsame : ({ s with st := st }.set n
      { (abort_finalizers s.st.mem gs n (s.priv n)).throw_away_nursery
        (s.st.segs n).young_outside_nursery with
        modified_old_objects_markers := []
        young_weakrefs := []
        running_thread := { tl with
          thread_local_obj := (s.priv n).threadlocal_at_start_of_transaction }
        aborted := true }).number = s.number := by
    funext j
    unfold Sys.number Sys.set
    dsimp only
    rw [Function.update_apply]
    split
    · rename_i hj
      rw [hj]
      rfl
    · rfl
  have hov : ∀ o j, st.kind o = .overflow j → s.st.kind o = .overflow j ∧ j ≠ n := by
    intro o j ho
    rw [hkind] at ho
    split at ho
    · cases ho
    · split at ho
      · cases ho
      · rename_i hne
        exact ⟨ho, by rintro rfl; exact hne ho⟩
  refine h.finished ?_ (fun j hj => Function.update_of_ne hj _ _) (fun j hj => ?_) ?_ ?_ ?_ hov ?_
  · unfold Sys.set
    dsimp only
    rw [Function.update_self]
    unfold Priv.is_active
    simp
  · exact (hreset.others j hj).trans (others_abort_data_structures s.st hj)
  · exact congrArg Segment.pc hreset.seg
  · rw [hsame]
    exact h.held
  · rw [hsame]
    refine h.objects.step h.held hnumber (fun o ho => .inl ?_) fun o j ho => (hov o j ho).1
    change st.kind o = .old at ho
    rw [hkind] at ho
    split at ho
    · cases ho
    · split at ho
      · cases ho
      · exact ho
  · intro o j hjn ho
    show st.kind o = .overflow j
    rw [hkind, if_neg (hyoung o j ho), if_neg, ho]
    rw [ho, Kind.overflow.injEq]
    exact hjn

/-- A major collection. -/
theorem MovedOutInv.major_collection {visited : List ℕ} {st : St}
    (h : MovedOutInv NB_SEGMENTS s left) (hinv : Inv NB_SEGMENTS false s.st)
    (hlisted : OverflowListed s.st)
    (hs : step NB_SEGMENTS s.st (.major_collection visited) = .next st) :
    MovedOutInv NB_SEGMENTS { s with
      st := st
      priv := fun i => end_major_collection s.st visited (s.priv i) }
      (fun i => (left i).filter (is_visited s.st visited)) := by
  obtain ⟨hmay, hmajor⟩ := guarded_eq_next.mp (guarded_eq_next.mp hs).2
  have hnumber : NumberStep NB_SEGMENTS s.st.kind s.st.mem st.mem := by
    refine number_step hinv rfl (fun _ _ o j ho => ?_) hs
    rcases hlisted.listed o j ho with hov | ⟨hc, -⟩
    · exact hov
    · rw [not_collecting_of_may_collect hinv hmay j] at hc
      cases hc
  have hmajor : major_collection_now NB_SEGMENTS s.st visited = some st := by
    split at hmajor
    · cases hmajor
    · rename_i t ht
      rw [Outcome.next.injEq] at hmajor
      rw [ht, hmajor]
  have hkind := fun o => kind_major_collection (o := o) hinv hmay hmajor
  have hvisited : ∀ o, s.st.kind o ≠ .free → (is_visited s.st visited o = true ↔ o ∈ visited) := by
    intro o ho
    unfold is_visited
    rw [beq_iff_eq]
    exact is_visited_iff hinv hmay.2 (hinv.modified_of_may_collect hmay) ho
  have hstays : ∀ o, st.kind o ≠ .free → st.kind o = s.st.kind o ∧ o ∈ visited := by
    intro o ho
    have hfree : s.st.kind o ≠ .free := by
      intro hfree
      obtain ⟨t, -, ⟨hk, -⟩, wl, -, rfl⟩ := hinv.cleaned_of_major_collection hmay hmajor
      refine ho ?_
      show (if t.write_locks (get_write_lock_idx o) = WL_VISITED then t.kind o else .free) = .free
      rw [hk, hfree]
      exact ite_self _
    have hk := hkind o hfree
    split at hk
    · rename_i hv
      exact ⟨hk, hv⟩
    · exact absurd hk ho
  refine h.of_step hinv hlisted hs (fun j => ⟨rfl, id, rfl⟩) rfl (fun j hb => by cases hb) ?_
    (fun o j ho => ?_) (fun j hj o ho => ?_) (fun j o ho => .inl (List.mem_of_mem_filter ho))
  · refine (h.objects.step h.held hnumber (fun o ho => .inl ?_) (fun o j ho => ?_)).relist ?_
    · have hk := (hstays o (by rw [ho]; nofun)).1
      rw [← hk]
      exact ho
    · have hk := (hstays o (by rw [ho]; nofun)).1
      rw [← hk]
      exact ho
    · intro o j ho
      obtain ⟨hk, hv⟩ := hstays o (by rw [ho]; nofun)
      rw [List.mem_filter]
      refine ⟨fun hmem => hmem.1, fun hmem => ⟨hmem, ?_⟩⟩
      refine (hvisited o ?_).mpr hv
      rw [← hk, ho]
      nofun
  · have hk := (hstays o (by rw [ho]; nofun)).1
    refine h.active o j ?_
    rw [← hk]
    exact ho
  · obtain ⟨hmem, hv⟩ := List.mem_filter.mp ho
    have hk := h.kind j hj o hmem
    have hfree : s.st.kind o ≠ .free := by
      rw [hk]
      nofun
    rw [hkind o hfree, if_pos ((hvisited o hfree).mp hv)]
    exact hk

theorem SameNumbers.set {p : Priv} {st : St} (h : SameNumbers (s.priv i) p) (j : ℕ) :
    SameNumbers (s.priv j) (({ s with st := st }.set i p).priv j) := by
  rw [priv_set]
  split
  · rename_i hj
    rw [hj]
    exact h
  · exact .refl _

theorem SameNumbers.set_priv {p : Priv} (h : SameNumbers (s.priv i) p) (j : ℕ) :
    SameNumbers (s.priv j) ((s.set i p).priv j) := h.set j

end Step

/-! ## All steps -/

section Run

variable {NB_SEGMENTS i n : ℕ} {s s' : Sys} {left : ℕ → List ℕ} {a : SysAct} {t t' : MovedOut}

theorem used_of_start_transaction {p p' : Priv} {tl : ThreadLocal}
    (h : start_transaction p tl = some p') : p'.overflow_number = p.overflow_number
      ∧ p'.overflow_number_has_been_used = p.overflow_number_has_been_used := by
  unfold start_transaction at h
  rw [Option.bind_eq_bind, Option.bind_eq_some_iff] at h
  obtain ⟨tl', -, h⟩ := h
  rw [Option.pure_def, Option.some.injEq] at h
  rw [← h]
  unfold next_read_version
  dsimp only
  split <;> exact ⟨rfl, rfl⟩

/-- The writes and allocations. -/
theorem MovedOutInv.lift_plain {b : Act} {p : Priv} (h : MovedOutInv NB_SEGMENTS s left)
    (hinv : Inv NB_SEGMENTS false s.st) (hlisted : OverflowListed s.st)
    (habort : b.is_abort = false) (hb : ∀ visited, b ≠ .major_collection visited)
    (hminor : ∀ j, b = .minor_collection j false → j = i ∧ p.overflow_number_has_been_used = true)
    (hkinds : ∀ {st}, step NB_SEGMENTS s.st b = .next st → KindStep NB_SEGMENTS s.st st)
    (hs : s.lift NB_SEGMENTS b i p = .next s') (hp : SameNumbers (s.priv i) p) :
    MovedOutInv NB_SEGMENTS s' left := by
  obtain ⟨st, hst, hs⟩ := Outcome.bind_eq_next.mp hs
  rw [Outcome.next.injEq] at hs
  rw [← hs]
  refine h.of_kind_step hinv hlisted (b := b) hst (fun j => hp.set j) rfl (fun j hbj => ?_)
    (number_step hinv habort (fun v hv => absurd hv (hb v)) hst) (hkinds hst)
  obtain ⟨hj, hused⟩ := hminor j hbj
  rw [hj, priv_set, if_pos rfl]
  exact hused

theorem MovedOutInv.sys_step (h : MovedOutInv NB_SEGMENTS s left)
    (hinv : Inv NB_SEGMENTS false s.st) (hlisted : OverflowListed s.st)
    (hs : sys_step NB_SEGMENTS s a = .next s') :
    MovedOutInv NB_SEGMENTS s' (left_nursery s a left) := by
  -- a step that only changes fields of one segment
  have hset : ∀ {i : ℕ} {p : Priv}, SameNumbers (s.priv i) p →
      MovedOutInv NB_SEGMENTS (s.set i p) left :=
    fun hp => h.of_priv rfl (fun j => hp.set_priv j) rfl
  cases a with
  | plain b =>
      obtain ⟨⟨hplain, -⟩, hs⟩ := guarded_eq_next.mp hs
      obtain ⟨st, hst, hs⟩ := Outcome.bind_eq_next.mp hs
      rw [Outcome.next.injEq] at hs
      rw [← hs]
      have hb : b.is_abort = false ∧ (∀ visited, b ≠ .major_collection visited)
          ∧ ∀ j, b ≠ .minor_collection j false := by
        cases b with
        | abort_data_structures j => cases hplain
        | reset_modified j => cases hplain
        | major_collection visited => cases hplain
        | minor_collection j commit => cases hplain
        | _ => exact ⟨rfl, (by simp), (by simp)⟩
      exact h.of_kind_step hinv hlisted (b := b) hst (fun j => .refl _) rfl
        (fun j hbj => absurd hbj (hb.2.2 j))
        (number_step hinv hb.1 (fun v hv => absurd hv (hb.2.1 v)) hst) (kind_step_plain hplain hst)
  | start_transaction i tl =>
      obtain ⟨⟨-, hnone, -⟩, hs⟩ := guarded_eq_next.mp hs
      obtain ⟨p, hp, hs⟩ := Outcome.bind_eq_next.mp hs
      rw [Outcome.next.injEq] at hs
      rw [← hs]
      obtain ⟨hnumber, hused⟩ := used_of_start_transaction (Outcome.ofOption_eq_next.mp hp)
      exact h.start_transaction (not_active_of_none hnone) hnumber hused
  | become_inevitable i =>
      obtain ⟨⟨hactive, -, hreg⟩, hs⟩ := guarded_eq_next.mp hs
      rw [Outcome.next.injEq] at hs
      rw [← hs]
      refine hset ⟨rfl, id, ?_⟩
      rw [hactive]
      unfold Priv.is_active at hactive ⊢
      rw [Bool.and_eq_true] at hactive
      exact hactive.2
  | stm_read i obj =>
      obtain ⟨-, hs⟩ := guarded_eq_next.mp hs
      rw [Outcome.next.injEq] at hs
      rw [← hs]
      exact hset ⟨rfl, id, rfl⟩
  | stm_write i obj marker =>
      refine h.lift_plain hinv hlisted (b := .stm_write i obj) rfl (by simp) (by simp)
        (fun hst => ?_) (guarded_eq_next.mp hs).2 ?_
      · exact .of_eq (kind_stm_write (guarded_eq_next.mp (guarded_eq_next.mp hst).2).2)
      · split
        · exact ⟨rfl, id, rfl⟩
        · exact .refl _
  | stm_write_card i obj index marker =>
      refine h.lift_plain hinv hlisted (b := .stm_write_card i obj index) rfl (by simp) (by simp)
        (fun hst => ?_) (guarded_eq_next.mp hs).2 ?_
      · exact .of_eq (kind_stm_write_card (guarded_eq_next.mp (guarded_eq_next.mp hst).2).2)
      · split
        · exact ⟨rfl, id, rfl⟩
        · exact .refl _
  | stm_allocate i size =>
      obtain ⟨-, hs⟩ := guarded_eq_next.mp hs
      rw [Outcome.next.injEq] at hs
      rw [← hs]
      exact hset ⟨rfl, id, rfl⟩
  | advance_nursery i size =>
      obtain ⟨-, hs⟩ := guarded_eq_next.mp hs
      rw [Outcome.next.injEq] at hs
      rw [← hs]
      exact hset ⟨rfl, id, rfl⟩
  | stm_allocate_weakref i =>
      obtain ⟨-, hs⟩ := guarded_eq_next.mp hs
      rw [Outcome.next.injEq] at hs
      rw [← hs]
      exact hset ⟨rfl, id, rfl⟩
  | stm_allocate_with_finalizer i obj l =>
      exact h.lift_plain hinv hlisted (b := .allocate_external i obj l) rfl (by simp) (by simp)
        (fun hst => kind_step_plain rfl hst) (guarded_eq_next.mp hs).2 ⟨rfl, id, rfl⟩
  | stm_enable_light_finalizer i obj =>
      obtain ⟨-, hs⟩ := guarded_eq_next.mp hs
      rw [Outcome.next.injEq] at hs
      rw [← hs]
      refine hset ?_
      unfold stm_enable_light_finalizer
      split
      · exact ⟨rfl, id, rfl⟩
      · split
        · exact ⟨rfl, id, rfl⟩
        · exact ⟨rfl, id, rfl⟩
  | nursery_write i word val =>
      obtain ⟨-, hs⟩ := guarded_eq_next.mp hs
      rw [Outcome.next.injEq] at hs
      rw [← hs]
      exact hset ⟨rfl, id, rfl⟩
  | stack i b =>
      obtain ⟨-, hs⟩ := guarded_eq_next.mp hs
      obtain ⟨tl, -, hs⟩ := Outcome.bind_eq_next.mp hs
      rw [Outcome.next.injEq] at hs
      rw [← hs]
      exact hset ⟨rfl, id, rfl⟩
  | execute_finalizers i finalizers =>
      obtain ⟨-, hs⟩ := guarded_eq_next.mp hs
      rw [Outcome.next.injEq] at hs
      rw [← hs]
      exact hset ⟨rfl, id, rfl⟩
  | minor_collection i commit =>
      refine h.lift_plain hinv hlisted (b := .minor_collection i commit) rfl (by simp)
        (fun j hb => ?_) (fun hst => ?_) (guarded_eq_next.mp hs).2 ⟨rfl, fun hused => ?_, rfl⟩
      · rw [Act.minor_collection.injEq] at hb
        rw [hb.2]
        exact ⟨hb.1.symm, rfl⟩
      · obtain ⟨-, hst⟩ := guarded_eq_next.mp (guarded_eq_next.mp hst).2
        cases hst
        exact .of_eq rfl
      · dsimp only
        rw [hused, Bool.or_true]
  | trace_root i k x y =>
      obtain ⟨-, hs⟩ := guarded_eq_next.mp hs
      rw [Outcome.next.injEq] at hs
      rw [← hs]
      exact hset ⟨rfl, id, rfl⟩
  | trace_markers i markers =>
      obtain ⟨-, hs⟩ := guarded_eq_next.mp hs
      rw [Outcome.next.injEq] at hs
      rw [← hs]
      exact hset ⟨rfl, id, rfl⟩
  | evacuate i word obj l val =>
      obtain ⟨⟨hactive, -, -, -, hflags⟩, hs⟩ := guarded_eq_next.mp hs
      obtain ⟨st, hst, hs⟩ := Outcome.bind_eq_next.mp hs
      rw [Outcome.next.injEq] at hs
      rw [← hs]
      have hnumber := number_step hinv rfl (fun _ hb => by cases hb) hst
      obtain ⟨hseg, hst'⟩ := guarded_eq_next.mp hst
      have hi : i ∈ segment_nums NB_SEGMENTS := hseg i rfl
      obtain ⟨⟨hpc, hfree, -⟩, hst'⟩ := guarded_eq_next.mp hst'
      rw [Outcome.next.injEq] at hst'
      have hp : SameNumbers (s.priv i) (forward (s.priv i) word obj) := ⟨rfl, id, rfl⟩
      refine h.moved hinv hlisted hst (by simp) (fun j => hp.set j) rfl hnumber hactive hpc
        (fun j hk => ?_) ?_ ?_
      · rw [hfree] at hk
        cases hk
      · show st.kind = _
        rw [← hst']
        rfl
      · show number_in (read st.mem i) obj = _
        have hsame : SameNumber (read st.mem i)
            (or_overflow_number (new_overflow_number s i) obj val) obj := by
          refine .of_header fun b hle hlt => ?_
          have hsize := l.size_pos
          rw [← hst']
          exact read_write_range_self (in_range_iff.mpr ⟨hle, by omega⟩)
        rw [hsame.number_in]
        exact h.number_in_new hi hflags
  | trace_young_outside_nursery i obj =>
      obtain ⟨⟨hactive, hflags⟩, hs⟩ := guarded_eq_next.mp hs
      obtain ⟨st, hst, hs⟩ := Outcome.bind_eq_next.mp hs
      rw [Outcome.next.injEq] at hs
      rw [← hs]
      have hnumber := number_step hinv rfl (fun _ hb => by cases hb) hst
      obtain ⟨hseg, hst'⟩ := guarded_eq_next.mp hst
      have hi : i ∈ segment_nums NB_SEGMENTS := hseg i rfl
      obtain ⟨⟨hpc, hmem, -⟩, hst'⟩ := guarded_eq_next.mp hst'
      rw [Outcome.next.injEq] at hst'
      refine h.moved hinv hlisted hst (by simp) (fun j => SameNumbers.set (.refl _) j) rfl hnumber
        hactive hpc (fun j hk => ?_) ?_ ?_
      · rw [(hinv.lists i).young obj hmem] at hk
        cases hk
      · show st.kind = _
        rw [← hst']
        rfl
      · show number_in (read st.mem i) obj = _
        have hsame : SameNumber (read st.mem i)
            (or_overflow_number (new_overflow_number s i) obj (read s.st.mem i)) obj := by
          refine .of_header fun b hle hlt => ?_
          have hsize := (s.st.layout obj).size_pos
          rw [← hst']
          exact read_write_range_self (in_range_iff.mpr ⟨hle, by omega⟩)
        rw [hsame.number_in]
        exact h.number_in_new hi hflags
  | collect i val =>
      obtain ⟨-, hs⟩ := guarded_eq_next.mp hs
      refine h.lift_plain hinv hlisted (b := .collect i val) rfl (by simp) (by simp) (fun hst => ?_) hs ?_
      · obtain ⟨hseg, hst⟩ := guarded_eq_next.mp hst
        exact kind_step_collect (mem_segment_nums.mp (hseg i rfl)).2 hinv hst
      · split
        · exact ⟨rfl, id, rfl⟩
        · exact .refl _
  | commit_transaction i =>
      obtain ⟨-, hs⟩ := guarded_eq_next.mp hs
      obtain ⟨st, hst, hs⟩ := Outcome.bind_eq_next.mp hs
      exact h.commit_transaction hinv hlisted hst (Outcome.ofOption_eq_next.mp hs)
  | abort_data_structures gs n =>
      obtain ⟨⟨-, hn, -, hpc⟩, hs⟩ := guarded_eq_next.mp hs
      exact h.abort hinv hn hpc hs
  | finish_abort n =>
      obtain ⟨haborted, hs⟩ := guarded_eq_next.mp hs
      rw [Outcome.next.injEq] at hs
      rw [← hs]
      refine hset ⟨rfl, id, ?_⟩
      unfold Priv.is_active
      rw [haborted]
      simp
  | major_collection visited =>
      obtain ⟨-, hs⟩ := guarded_eq_next.mp hs
      obtain ⟨st, hst, hs⟩ := Outcome.bind_eq_next.mp hs
      rw [Outcome.next.injEq] at hs
      rw [← hs]
      exact h.major_collection hinv hlisted hst

theorem MovedOutInv.init (h : t.Initial NB_SEGMENTS) : MovedOutInv NB_SEGMENTS t.sys t.left := by
  have hnumber : t.sys.number = fun i => GCFLAG_OVERFLOW_NUMBER_bit0 * i :=
    funext fun i => (h.sys.priv i).overflow_number
  have hidle : ∀ i, (t.sys.priv i).is_active = false :=
    fun i => not_active_of_none (h.sys.priv i).transaction_state
  have hkind : ∀ o i, t.sys.st.kind o ≠ .overflow i := by
    intro o i ho
    rcases h.sys.st.prebuilt o with hk | hk
    all_goals
      rw [hk] at ho
      cases ho
  have hpc : ∀ i, (t.sys.st.segs i).pc = .running := by
    intro i
    rw [h.sys.st.segs]
    rfl
  have hview : ∀ j a, read t.sys.st.mem j a = read t.sys.st.mem 0 a := by
    intro j a
    have hshared : ∀ n, is_private_page t.sys.st.mem n (a / 4096) = false := by
      intro n
      unfold is_private_page
      rw [h.sys.st.pages, Bool.and_false]
    rw [read_of_shared (hshared j), read_of_shared (hshared 0)]
  refine ⟨?_, ⟨fun o _ j _ => ?_, fun o ho => ?_, fun o i ho => ?_⟩, fun o i ho => ?_,
    fun i hi => ?_, fun i hi => ?_, fun i hi => ?_, fun i hi => ?_⟩
  · rw [hnumber, h.sys.highest_overflow_number]
    exact .setup h.nb_segments
  · exact .of_header fun a _ _ => hview j a
  · rw [number_in_of_lt (h.prebuilt o ho), hnumber]
    refine ⟨Nat.zero_le _, fun i hi => ?_⟩
    exact ((HeldNumbers.setup h.nb_segments).positive i hi).ne
  · exact absurd ho (hkind o i)
  · exact absurd ho (hkind o i)
  · rw [hidle] at hi
    cases hi
  · rw [hpc] at hi
    cases hi
  · rw [hidle] at hi
    cases hi
  · rw [hidle] at hi
    cases hi

theorem moved_out_step_eq (hs : moved_out_step NB_SEGMENTS t a = .next t') :
    sys_step NB_SEGMENTS t.sys a = .next t'.sys ∧ t'.left = left_nursery t.sys a t.left := by
  obtain ⟨s, hstep, hs⟩ := Outcome.bind_eq_next.mp hs
  rw [Outcome.next.injEq] at hs
  rw [← hs]
  exact ⟨hstep, rfl⟩

/-- The lists do not change what the machine of `Abort` does. -/
theorem reachable_sys
    (h : Reachable (MovedOut.Initial NB_SEGMENTS) (moved_out_step NB_SEGMENTS) t) :
    Reachable (Sys.Initial NB_SEGMENTS) (C7.sys_step NB_SEGMENTS) t.sys := by
  induction h with
  | start hinit => exact .start hinit.sys
  | step _ _ hs ih => exact ih.step trivial (moved_out_step_eq hs).1

theorem moved_out_inv_of_reachable
    (h : Reachable (MovedOut.Initial NB_SEGMENTS) (moved_out_step NB_SEGMENTS) t) :
    MovedOutInv NB_SEGMENTS t.sys t.left := by
  induction h with
  | start hinit => exact .init hinit
  | step hr _ hs ih =>
      have hst := reachable_st (reachable_sys hr)
      obtain ⟨hstep, hleft⟩ := moved_out_step_eq hs
      rw [hleft]
      exact ih.sys_step (inv_of_reachable hst) (.of_reachable hst) hstep

/-- An overflow object belongs to a segment that exists. -/
theorem segment_of_overflow {s : St} {o m : ℕ} (h : Inv NB_SEGMENTS false s)
    (hlisted : OverflowListed s) (ho : s.kind o = .overflow m) :
    m ∈ segment_nums NB_SEGMENTS := by
  by_contra hm
  rcases hlisted.listed o m ho with hov | ⟨hc, -⟩
  · rw [h.absent m hm] at hov
    cases hov
  · rw [h.absent m hm] at hc
    cases hc

/-- No old object has a number that a segment holds. -/
theorem MovedOutInv.old_number (h : MovedOutInv NB_SEGMENTS s left) {o gs : ℕ}
    (ho : s.st.kind o = .old) (hgs : gs ≤ NB_SEGMENTS) (hn : n ∈ segment_nums NB_SEGMENTS) :
    flags_say_overflow s.st.mem gs (s.number n) o = false := by
  rw [← Bool.not_eq_true, flags_say_overflow_iff, h.objects.number_in_old ho hgs]
  exact (h.objects.old o ho).2 n hn

/-- What `IS_OVERFLOW_OBJ` says of an overflow object, in the segment that can
see it. -/
theorem MovedOutInv.overflow_number (h : MovedOutInv NB_SEGMENTS s left) {o m : ℕ}
    (ho : s.st.kind o = .overflow m) (hm : m ∈ segment_nums NB_SEGMENTS)
    (hn : n ∈ segment_nums NB_SEGMENTS) :
    flags_say_overflow s.st.mem m (s.number n) o = true ↔ m = n ∧ o ∈ left n := by
  rw [flags_say_overflow_iff, h.objects.overflow o m ho]
  by_cases hmn : m = n
  · rw [hmn]
    split
    · rename_i hmem
      exact ⟨fun _ => ⟨rfl, hmem⟩, fun _ => rfl⟩
    · rename_i hmem
      exact ⟨fun hzero => absurd hzero (h.held.positive n hn).ne, fun hr => absurd hr.2 hmem⟩
  · refine ⟨fun heq => ?_, fun hr => absurd hr.1 hmn⟩
    split at heq
    · exact absurd heq (h.held.distinct m hm n hn hmn)
    · exact absurd heq (h.held.positive n hn).ne

/-- **The overflow numbers.** In every reachable state, and for every segment
`n` that runs a transaction, `IS_OVERFLOW_OBJ` holds of an old object or of an
overflow object, seen through a segment that may have a reference to it, if
and only if the object has left the nursery in a minor collection of the current
transaction of `n` that does not commit. The segments hold different numbers,
and no object of a committed transaction has one of them. -/
theorem is_overflow_obj_iff
    (h : Reachable (MovedOut.Initial NB_SEGMENTS) (moved_out_step NB_SEGMENTS) t) :
    (∀ n ∈ segment_nums NB_SEGMENTS, (t.sys.priv n).is_active = true → ∀ o gs,
      (t.sys.st.kind o = .old ∧ gs ≤ NB_SEGMENTS ∨ t.sys.st.kind o = .overflow gs) →
        (flags_say_overflow t.sys.st.mem gs (t.sys.priv n).overflow_number o = true
          ↔ o ∈ t.left n))
      ∧ (∀ n ∈ segment_nums NB_SEGMENTS, ∀ m ∈ segment_nums NB_SEGMENTS, n ≠ m →
        (t.sys.priv n).overflow_number ≠ (t.sys.priv m).overflow_number)
      ∧ ∀ o, t.sys.st.kind o = .old → ∀ gs ≤ NB_SEGMENTS, ∀ n ∈ segment_nums NB_SEGMENTS,
        flags_say_overflow t.sys.st.mem gs (t.sys.priv n).overflow_number o = false := by
  have hst := reachable_st (reachable_sys h)
  have hinv := moved_out_inv_of_reachable h
  refine ⟨fun n hn hactive o gs ho => ?_, hinv.held.distinct,
    fun o ho gs hgs n hn => hinv.old_number ho hgs hn⟩
  have hkind : o ∈ t.left n → t.sys.st.kind o = .overflow n := hinv.kind n hactive o
  rcases ho with ⟨hold, hgs⟩ | hov
  · have hfalse : flags_say_overflow t.sys.st.mem gs (t.sys.priv n).overflow_number o = false :=
      hinv.old_number hold hgs hn
    rw [hfalse]
    refine ⟨(by simp), fun hmem => ?_⟩
    have hk := hkind hmem
    rw [hold] at hk
    cases hk
  · have hgs := segment_of_overflow (inv_of_reachable hst) (.of_reachable hst) hov
    refine (hinv.overflow_number hov hgs hn).trans ⟨fun hr => hr.2, fun hmem => ⟨?_, hmem⟩⟩
    have hk := hkind hmem
    rw [hov, Kind.overflow.injEq] at hk
    exact hk

/-- The object that a minor collection has moved out of the nursery has the
number of segment 1. -/
theorem is_overflow_obj_of_evacuated : ∃ t,
    run (moved_out_step 2) (fun _ _ => True) ⟨one_thread, fun _ => []⟩ (light_finalizer_run false)
        = .next t
      ∧ t.left 1 = [64] ∧ flags_say_overflow t.sys.st.mem 1 (t.sys.priv 1).overflow_number 64 = true
      ∧ flags_say_overflow t.sys.st.mem 1 (t.sys.priv 2).overflow_number 64 = false := by
  have htest : (run (moved_out_step 2) (fun _ _ => True) ⟨one_thread, fun _ => []⟩
      (light_finalizer_run false)).test (fun t => decide (t.left 1 = [64])
        && decide (t.sys.st.kind 64 = .overflow 1) && (t.sys.priv 1).is_active
        && !flags_say_overflow t.sys.st.mem 1 (t.sys.priv 2).overflow_number 64) = true := by
    decide +kernel
  obtain ⟨t, hrun, htest⟩ := Outcome.of_test htest
  simp only [Bool.and_eq_true, decide_eq_true_eq, Bool.not_eq_true'] at htest
  obtain ⟨⟨⟨hleft, hkind⟩, hactive⟩, hother⟩ := htest
  have h0 : Reachable (MovedOut.Initial 2) (moved_out_step 2) ⟨one_thread, fun _ => []⟩ := by
    refine .start ⟨one_thread_initial, by decide, fun o ho => ?_⟩
    have h8192 : o = 8192 := by
      by_contra hne
      change (if o = 8192 then Kind.old else .free) = .old at ho
      rw [if_neg hne] at ho
      cases ho
    rw [h8192]
    decide
  have hiff := (is_overflow_obj_iff (h0.run _ hrun)).1 1 (by decide) hactive 64 1 (.inr hkind)
  refine ⟨t, hrun, hleft, hiff.mpr ?_, hother⟩
  rw [hleft]
  exact List.mem_cons_self

end Run

end Stmgc.C7
