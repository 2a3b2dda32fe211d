/-
No step of the machine of `Transaction` changes the overflow number of an old
object, or of an overflow object for its own segment ([`number_step`]).

What a minor collection does to a young object is left out here, since that is
where objects get their number; and so is an abort, of which
[`number_step_reset_all`] has all turns.
-/
import Stmgc.C7.OverflowNumber

namespace Stmgc.C7

open Stmgc.Lib

section Barriers

variable {NB_SEGMENTS i obj : ℕ} {s s' : St}

theorem keeps_write_slowpath_overflow_obj {mark_card : Option ℕ}
    (hs : write_slowpath_overflow_obj s i obj mark_card = .next s') :
    KeepsNumber NB_SEGMENTS i obj (s.layout obj).size s.mem s'.mem := by
  have hsize : 0 < (s.layout obj).size := by
    have := (s.layout obj).size_pos
    omega
  unfold write_slowpath_overflow_obj at hs
  dsimp only at hs
  split at hs
  · split at hs
    · cases hs
    · cases hs
      exact .clear_both hsize
  · cases hs
    exact .set_cards_set hsize

theorem keeps_write_slowpath_owned {mark_card : Option ℕ}
    (hs : write_slowpath_owned s i obj mark_card = .next s') :
    KeepsNumber NB_SEGMENTS i obj (s.layout obj).size s.mem s'.mem := by
  have hsize : 0 < (s.layout obj).size := by
    have := (s.layout obj).size_pos
    omega
  unfold write_slowpath_owned at hs
  dsimp only at hs
  split at hs
  · split at hs
    · cases hs
      exact .clear_both hsize
    · cases hs
      exact .set_cards_set hsize
  · cases hs

theorem keeps_write_slowpath_common {mark_card : Option ℕ}
    (hs : write_slowpath_common s i obj mark_card = .next s') :
    KeepsNumber NB_SEGMENTS i obj (s.layout obj).size s.mem s'.mem := by
  unfold write_slowpath_common at hs
  dsimp only at hs
  split at hs
  · split at hs
    · exact keeps_write_slowpath_overflow_obj hs
    · cases hs
  · split at hs
    · cases hs
      exact .refl _
    · split at hs
      · exact keeps_write_slowpath_owned hs
      · cases hs

theorem keeps_stm_write (hs : stm_write s i obj = .next s') :
    KeepsNumber NB_SEGMENTS i obj (s.layout obj).size s.mem s'.mem := by
  unfold stm_write at hs
  split at hs
  · exact keeps_write_slowpath_common hs
  · cases hs
    exact .refl _

theorem keeps_stm_write_card {index : ℕ} (hs : stm_write_card s i obj index = .next s') :
    KeepsNumber NB_SEGMENTS i obj (s.layout obj).size s.mem s'.mem := by
  unfold stm_write_card at hs
  dsimp only at hs
  split at hs
  · split at hs
    · cases hs
      exact .refl _
    · exact keeps_write_slowpath_common hs
  · cases hs
    exact .refl _

theorem keeps_trace_card_object {val : ℕ → UInt8}
    (hs : trace_card_object s i obj val = .next s') :
    KeepsNumber NB_SEGMENTS i obj (s.layout obj).size s.mem s'.mem := by
  have hsize : 0 < (s.layout obj).size := by
    have := (s.layout obj).size_pos
    omega
  unfold trace_card_object at hs
  dsimp only at hs
  split at hs
  · cases hs
    refine KeepsNumber.trans (.write_body fun a ha => ?_) (.clear_cards_set hsize)
    rw [Bool.and_eq_true] at ha
    exact in_body_iff.mp ha.1
  · cases hs

theorem keeps_collect_now {val : ℕ → UInt8} (hs : collect_now s i obj val = .next s') :
    KeepsNumber NB_SEGMENTS i obj (s.layout obj).size s.mem s'.mem := by
  have hsize : 0 < (s.layout obj).size := by
    have := (s.layout obj).size_pos
    omega
  unfold collect_now at hs
  split at hs
  · cases hs
  · split at hs
    · cases hs
      exact .refl _
    · cases hs
      exact KeepsNumber.trans (.write_body fun a ha => in_body_iff.mp ha) (.set_write_barrier hsize)

end Barriers

/-! ## Minor collections -/

section Collect

variable {NB_SEGMENTS i obj : ℕ} {s s' : St}

/-- An object in the lists of a segment, and what it may be. -/
theorem Inv.owner_of_listed (h : Inv NB_SEGMENTS false s)
    (hlisted : obj ∈ (s.segs i).modified_old_objects ∨ obj ∈ (s.segs i).large_overflow_objects) :
    s.kind obj ≠ .free ∧ ∀ j, s.kind obj = .overflow j → j = i := by
  rcases hlisted with hm | hov
  · rw [h.old_of_modified hm]
    exact ⟨nofun, nofun⟩
  · rw [(h.lists i).overflow obj hov]
    refine ⟨nofun, fun j hj => ?_⟩
    rw [Kind.overflow.injEq] at hj
    exact hj.symm

theorem layout_collect_now {val : ℕ → UInt8} (hs : collect_now s i obj val = .next s') :
    s'.layout = s.layout := by
  unfold collect_now at hs
  split at hs
  · cases hs
  · split at hs
    · cases hs
      rfl
    · cases hs
      rfl

theorem number_step_age_object {commit : Bool} (hi : i ≤ NB_SEGMENTS)
    (hinv : Inv NB_SEGMENTS false s) (hk : s.kind obj = .overflow i) {t : St}
    (hlayout : t.layout = s.layout)
    (hs : age_object NB_SEGMENTS t i obj commit = .next s') :
    NumberStep NB_SEGMENTS s.kind t.mem s'.mem := by
  unfold age_object at hs
  dsimp only at hs
  split at hs
  · split at hs
    · split at hs
      · cases hs
      · rename_i mem wl hsync
        cases hs
        refine .of_pushed (synchronize_object_now_spec hi hsync).1 hi fun o j ho hji a hle hlt => ?_
        rintro ⟨hin, -⟩
        have hne : o ≠ obj := by
          rintro rfl
          rw [hk, Kind.overflow.injEq] at ho
          exact hji ho.symm
        have hsize := (s.layout o).size_pos
        have hdis := hinv.disjoint (by rw [ho]; nofun) (by rw [hk]; nofun) hne
        rw [hlayout] at hin
        omega
    · cases hs
  · cases hs
    exact .refl _

theorem number_step_collect {val : ℕ → UInt8} (hi : i ≤ NB_SEGMENTS)
    (h : Inv NB_SEGMENTS false s)
    (hs : step_segment NB_SEGMENTS s (.collect i val) = .next s') :
    NumberStep NB_SEGMENTS s.kind s.mem s'.mem := by
  cases hpc : (s.segs i).pc with
  | collect_cardrefs commit was_null =>
      simp only [step_segment, hpc] at hs
      unfold collect_cardrefs_to_nursery at hs
      dsimp only at hs
      split at hs
      · cases hs
        exact .refl _
      · rename_i lst obj hpop
        have hmem : obj ∈ (s.segs i).old_objects_with_cards := by
          rw [list_pop_item_eq_some hpop]
          exact List.mem_append_right _ List.mem_cons_self
        obtain ⟨hfree, howner⟩ :=
          h.owner_of_listed ((h.lists i).cards (by rw [hpc]; rfl) obj hmem)
        split at hs
        · exact (keeps_trace_card_object hs).number_step hi h hfree howner rfl
        · cases hs
          exact .refl _
  | collect_modified commit todo =>
      simp only [step_segment, hpc] at hs
      unfold collect_modified_old_objects at hs
      dsimp only at hs
      split at hs
      · cases hs
        exact .refl _
      · rename_i obj todo
        have hmem := (h.lists i).todo commit (obj :: todo) hpc obj List.mem_cons_self
        obtain ⟨hfree, howner⟩ := h.owner_of_listed (.inl hmem)
        exact (keeps_collect_now hs).number_step hi h hfree howner rfl
  | collect_oldrefs commit =>
      simp only [step_segment, hpc] at hs
      unfold collect_oldrefs_to_nursery at hs
      dsimp only at hs
      split at hs
      · cases hs
        exact .refl _
      · rename_i lst obj sync hpop
        have hitem : (obj, sync) ∈ (s.segs i).objects_pointing_to_nursery.getD [] := by
          rw [list_pop_item_eq_some hpop]
          exact List.mem_append_right _ List.mem_cons_self
        have hpointing := (h.lists i).pointing (by rw [hpc]; rfl) _ hitem
        obtain ⟨hfree, howner⟩ : s.kind obj ≠ .free ∧ ∀ j, s.kind obj = .overflow j → j = i := by
          rcases hpointing with ⟨-, hlisted⟩ | ⟨-, hk, -⟩
          · exact h.owner_of_listed hlisted
          · dsimp only at hk
            rw [hk]
            refine ⟨(by simp), fun j hj => ?_⟩
            rw [Kind.overflow.injEq] at hj
            exact hj.symm
        split at hs
        · rename_i t hnow
          have hnumber : NumberStep NB_SEGMENTS s.kind s.mem t.mem :=
            (keeps_collect_now hnow).number_step hi h hfree howner rfl
          split at hs
          · rename_i hsync
            refine hnumber.trans (number_step_age_object hi h ?_ ((layout_collect_now hnow).trans rfl)
              hs)
            · rcases hpointing with ⟨hfalse, -⟩ | ⟨-, hk, -⟩
              · exact absurd (hsync.symm.trans hfalse) (by decide)
              · exact hk
          · cases hs
            exact hnumber
        · rename_i r hr
          exact absurd hs (hr _)
  | _ =>
      simp only [step_segment, hpc] at hs
      cases hs

end Collect

/-! ## Major collections -/

section Major

variable {NB_SEGMENTS i obj : ℕ} {s s' : St}

/-- Re-sharing the pages, when all overflow objects are listed. -/
theorem number_step_major_reshare_pages (h : Inv NB_SEGMENTS false s) (hrest : at_rest s)
    (hlisted : ∀ o j, s.kind o = .overflow j → o ∈ (s.segs j).large_overflow_objects) :
    NumberStep NB_SEGMENTS s.kind s.mem (major_reshare_pages NB_SEGMENTS s).mem where
  old o ho j hj k hk := by
    have hin : ∀ a, o ≤ a → a < o + 4 → in_object s o a := by
      intro a hle hlt
      have hsize := (s.layout o).size_pos
      unfold in_object
      omega
    have hzero : ∀ a, o ≤ a → a < o + 4 →
        read (major_reshare_pages NB_SEGMENTS s).mem 0 a = read s.mem 0 a := by
      intro a hle hlt
      rcases h.read_zero_reshared (by rw [ho]; nofun) (hin a hle hlt) with heq | ⟨n, hc, -⟩
      · exact heq
      · have hov := (h.lists n).overflow o hc.1
        rw [ho] at hov
        cases hov
    have hbyte : ∀ a, o ≤ a → a < o + 4 →
        read (major_reshare_pages NB_SEGMENTS s).mem j a
          = if keeps_page_private s j (a / 4096) = true then read s.mem j a
            else read s.mem 0 a := by
      intro a hle hlt
      rw [h.read_reshared hrest, hzero a hle hlt]
    unfold number_byte
    by_cases hk0 : k = 0
    · rw [if_pos hk0, hbyte o le_rfl (by omega)]
      split
      · exact ⟨j, hj, rfl⟩
      · exact ⟨0, Nat.zero_le _, rfl⟩
    · rw [if_neg hk0, hbyte (o + k) (by omega) (by omega)]
      split
      · exact ⟨j, hj, rfl⟩
      · exact ⟨0, Nat.zero_le _, rfl⟩
  overflow o j ho := by
    refine .of_header fun a hle hlt => h.read_own_reshared hrest (.inr (hlisted o j ho)) ?_
    have hsize := (s.layout o).size_pos
    unfold in_object
    omega

theorem number_step_clean_up_segment (hi : i ≤ NB_SEGMENTS) (h : Inv NB_SEGMENTS false s)
    {t t' : St}
    (hpointing : ∀ e ∈ (t.segs i).objects_pointing_to_nursery.getD [],
      s.kind e.1 = .old ∨ s.kind e.1 = .overflow i)
    (hcards : ∀ o ∈ (t.segs i).old_objects_with_cards, s.kind o = .old ∨ s.kind o = .overflow i)
    (hs : clean_up_segment t i = some t') : NumberStep NB_SEGMENTS s.kind t.mem t'.mem := by
  have hflags : ∀ {o : ℕ} {m m' : Memory}, s.kind o = .old ∨ s.kind o = .overflow i →
      KeepsNumber NB_SEGMENTS i o (s.layout o).size m m' → NumberStep NB_SEGMENTS s.kind m m' := by
    intro o m m' ho hkeeps
    refine hkeeps.number_step hi h ?_ (fun j hj => ?_) rfl
    · rcases ho with ho | ho
      · rw [ho]
        nofun
      · rw [ho]
        nofun
    · rw [hj] at ho
      rcases ho with ho | ho
      · cases ho
      · rw [Kind.overflow.injEq] at ho
        exact ho
  have hsize : ∀ o, 0 < (s.layout o).size := by
    intro o
    have hpos := (s.layout o).size_pos
    omega
  unfold clean_up_segment at hs
  simp only [Option.bind_eq_bind, Option.pure_def, Option.bind_eq_some_iff,
    Option.some.injEq] at hs
  obtain ⟨m₁, hfold₁, ⟨m₂, wl₂⟩, hfold₂, hs⟩ := hs
  rw [← hs]
  have hfirst : NumberStep NB_SEGMENTS s.kind t.mem m₁ := by
    refine foldlM_some (fun _ m => NumberStep NB_SEGMENTS s.kind t.mem m) ?_ (.refl _) hfold₁
    intro done e todo m m' hlst hm hturn
    unfold clean_up_object at hturn
    obtain ⟨-, hturn⟩ := c_assert_eq_some.mp hturn
    obtain ⟨-, hturn⟩ := c_assert_eq_some.mp hturn
    rw [Option.pure_def, Option.some.injEq] at hturn
    rw [← hturn]
    refine hm.trans (hflags (hpointing e ?_) (.set_write_barrier (hsize _)))
    rw [← List.mem_reverse, hlst]
    exact List.mem_append_right _ List.mem_cons_self
  have hsecond : NumberStep NB_SEGMENTS s.kind m₁ m₂ := by
    refine foldlM_some (fun _ ml => NumberStep NB_SEGMENTS s.kind m₁ ml.1) ?_ (.refl _) hfold₂
    intro done o todo ml ml' hlst hm hturn
    unfold clean_up_cards at hturn
    obtain ⟨-, hturn⟩ := c_assert_eq_some.mp hturn
    obtain ⟨-, hturn⟩ := c_assert_eq_some.mp hturn
    rw [Option.pure_def, Option.some.injEq] at hturn
    rw [← hturn]
    refine hm.trans (hflags (hcards o ?_) (.clear_cards_set (hsize _)))
    rw [← List.mem_reverse, hlst]
    exact List.mem_append_right _ List.mem_cons_self
  exact hfirst.trans hsecond

/-- Cleaning up adds nothing to the lists. -/
theorem clean_up_segment_lists {t t' : St} (hs : clean_up_segment t i = some t') :
    t'.kind = t.kind ∧ t'.layout = t.layout ∧ ∀ j,
      (∀ e ∈ (t'.segs j).objects_pointing_to_nursery.getD [],
        e ∈ (t.segs j).objects_pointing_to_nursery.getD [])
      ∧ ∀ o ∈ (t'.segs j).old_objects_with_cards, o ∈ (t.segs j).old_objects_with_cards := by
  unfold clean_up_segment at hs
  simp only [Option.bind_eq_bind, Option.pure_def, Option.bind_eq_some_iff,
    Option.some.injEq] at hs
  obtain ⟨m, -, r, -, hs⟩ := hs
  rw [← hs]
  refine ⟨rfl, rfl, fun j => ?_⟩
  by_cases hj : j = i
  · rw [hj]
    dsimp only
    rw [set_segs_self]
    refine ⟨fun e he => ?_, nofun⟩
    cases hopn : (t.segs i).objects_pointing_to_nursery with
    | none =>
        rw [hopn] at he
        cases he
    | some lst =>
        rw [hopn] at he
        cases he
  · dsimp only
    rw [set_segs_of_ne _ hj]
    exact ⟨fun _ he => he, fun _ ho => ho⟩

theorem number_step_major_collection {visited : List ℕ} (h : Inv NB_SEGMENTS false s)
    (hmay : may_collect NB_SEGMENTS s visited)
    (hlisted : ∀ o j, s.kind o = .overflow j → o ∈ (s.segs j).large_overflow_objects)
    (hs : major_collection_now NB_SEGMENTS s visited = some s') :
    NumberStep NB_SEGMENTS s.kind s.mem s'.mem := by
  have hrest := at_rest_of_may_collect h hmay
  unfold major_collection_now at hs
  simp only [Option.bind_eq_bind, Option.bind_eq_some_iff] at hs
  obtain ⟨t, hclean, hrestore⟩ := hs
  unfold major_restore_write_locks at hrestore
  simp only [Option.bind_eq_bind, Option.pure_def, Option.bind_eq_some_iff,
    Option.some.injEq] at hrestore
  obtain ⟨wl, -, hs'⟩ := hrestore
  rw [← hs']
  refine (number_step_major_reshare_pages h hrest hlisted).trans ?_
  have hcleaned := foldlM_some (fun _ t => t.kind = s.kind ∧ t.layout = s.layout
    ∧ (∀ j, (∀ e ∈ (t.segs j).objects_pointing_to_nursery.getD [],
        e ∈ (s.segs j).objects_pointing_to_nursery.getD [])
      ∧ ∀ o ∈ (t.segs j).old_objects_with_cards, o ∈ (s.segs j).old_objects_with_cards)
    ∧ NumberStep NB_SEGMENTS s.kind (major_reshare_pages NB_SEGMENTS s).mem t.mem)
    (fun done i todo t t' hlst hinv hturn => by
      obtain ⟨hkind, hlayout, hlists, hnumber⟩ := hinv
      obtain ⟨hkind', hlayout', hlists'⟩ := clean_up_segment_lists hturn
      refine ⟨hkind'.trans hkind, hlayout'.trans hlayout, fun j => ⟨fun e he => ?_, fun o ho => ?_⟩,
        hnumber.trans ?_⟩
      · exact (hlists j).1 e ((hlists' j).1 e he)
      · exact (hlists j).2 o ((hlists' j).2 o ho)
      · have hi : i ∈ segment_nums NB_SEGMENTS := by
          rw [hlst]
          exact List.mem_append_right _ List.mem_cons_self
        refine number_step_clean_up_segment (mem_segment_nums.mp hi).2 h
          (fun e he => ?_) (fun o ho => ?_) hturn
        · rcases (h.lists i).pointing (hrest i).1 e ((hlists i).1 e he) with ⟨-, hm | hov⟩ | ⟨-, hk, -⟩
          · exact .inl (h.old_of_modified hm)
          · exact .inr ((h.lists i).overflow _ hov)
          · exact .inr hk
        · rcases (h.lists i).cards (hrest i).1 o ((hlists i).2 o ho) with hm | hov
          · exact .inl (h.old_of_modified hm)
          · exact .inr ((h.lists i).overflow o hov))
    ⟨rfl, rfl, fun _ => ⟨fun _ he => he, fun _ ho => ho⟩, .refl _⟩ hclean
  exact hcleaned.2.2.2

end Major

/-! ## Aborts -/

section Abort

variable {NB_SEGMENTS n : ℕ} {s s' : St}

/-- One turn of `reset_modified_from_other_segments`. -/
theorem number_step_reset_modified_object {obj todo : ℕ} (h : Inv NB_SEGMENTS false s)
    (hobj : s.kind obj = .old) {t : St} (hlayout : t.layout = s.layout)
    (hs : reset_modified_object t n obj todo = .next s') :
    NumberStep NB_SEGMENTS s.kind t.mem s'.mem := by
  unfold reset_modified_object at hs
  dsimp only at hs
  generalize (if obj_should_use_cards (t.layout obj) = true then
    reset_object_cards t.write_locks obj (t.layout obj) CARD_CLEAR false
    else t.write_locks) = wl at hs
  rw [hlayout] at hs
  split at hs
  · rw [Outcome.next.injEq] at hs
    rw [← hs]
    dsimp only
    have hsame : ∀ o, s.kind o ≠ .free → o ≠ obj → ∀ j,
        SameNumber (read (memcpy t.mem n 0 obj (s.layout obj).size) j) (read t.mem j) o := by
      intro o ho hne j
      refine .of_header fun a hle hlt => read_memcpy_of_notMem ?_
      have hsize := (s.layout o).size_pos
      have hdis := h.disjoint ho (by rw [hobj]; nofun) hne
      omega
    refine ⟨fun o ho j hj k hk => ?_, fun o j ho => ?_⟩
    · by_cases heq : o = obj
      · -- a byte of segment 0 or of the segment itself
        have hbyte : ∀ a, obj ≤ a → a < obj + 4 →
            read (memcpy t.mem n 0 obj (s.layout obj).size) j a
              = if j = n ∨ is_private_page t.mem n (a / 4096) = false
                  ∧ is_private_page t.mem j (a / 4096) = false then read t.mem 0 a
                else read t.mem j a := by
          intro a hle hlt
          have hsize := (s.layout obj).size_pos
          exact read_memcpy_of_mem (by omega)
        rw [heq]
        unfold number_byte
        by_cases hk0 : k = 0
        · rw [if_pos hk0, hbyte obj le_rfl (by omega)]
          split
          · exact ⟨0, Nat.zero_le _, rfl⟩
          · exact ⟨j, hj, rfl⟩
        · rw [if_neg hk0, hbyte (obj + k) (by omega) (by omega)]
          split
          · exact ⟨0, Nat.zero_le _, rfl⟩
          · exact ⟨j, hj, rfl⟩
      · exact ⟨j, hj, hsame o (by rw [ho]; nofun) heq j k hk⟩
    · refine hsame o (by rw [ho]; nofun) ?_ j
      rintro rfl
      rw [hobj] at ho
      cases ho
  · cases hs

/-- The turn changes nothing else that the next ones depend on. -/
theorem frame_reset_modified_object {obj todo : ℕ}
    (hs : reset_modified_object s n obj todo = .next s') : s'.layout = s.layout
      ∧ (s'.segs n).modified_old_objects = (s.segs n).modified_old_objects := by
  unfold reset_modified_object at hs
  dsimp only at hs
  generalize (if obj_should_use_cards (s.layout obj) = true then
    reset_object_cards s.write_locks obj (s.layout obj) CARD_CLEAR false
    else s.write_locks) = wl at hs
  split at hs
  · rw [Outcome.next.injEq] at hs
    rw [← hs]
    dsimp only
    rw [set_segs_self]
    exact ⟨rfl, rfl⟩
  · cases hs

theorem number_step_reset_all {todo : ℕ} (h : Inv NB_SEGMENTS false s) {t : St}
    (hlayout : t.layout = s.layout)
    (hmodified : ∀ o ∈ (t.segs n).modified_old_objects, s.kind o = .old)
    (hs : reset_all_modified n todo t = .next s') :
    NumberStep NB_SEGMENTS s.kind t.mem s'.mem := by
  induction todo generalizing t with
  | zero =>
      rw [reset_all_modified, reset_modified_from_other_segments, Outcome.next.injEq] at hs
      rw [← hs]
      exact .refl _
  | succ todo ih =>
      rw [reset_all_modified] at hs
      obtain ⟨u, hu, hs⟩ := Outcome.bind_eq_next.mp hs
      rw [reset_modified_from_other_segments] at hu
      split at hu
      · cases hu
      · rename_i obj hobj
        have hold := hmodified obj (List.mem_of_getElem? hobj)
        obtain ⟨hl, hm⟩ := frame_reset_modified_object hu
        refine (number_step_reset_modified_object h hold hlayout hu).trans
          (ih (hl.trans hlayout) (fun o ho => hmodified o ?_) hs)
        rw [← hm]
        exact ho

end Abort

/-! ## All steps -/

section Step

variable {NB_SEGMENTS : ℕ} {s s' : St} {a : Act}

/-- The steps of which [`number_step`] is not about. -/
def Act.is_abort : Act → Bool
  | .abort_data_structures _ | .reset_modified _ => true
  | _ => false

/-- New memory is outside of all objects. -/
theorem outside_of_fresh {obj o b : ℕ} {l : Layout} (hfresh : is_fresh s obj l)
    (ho : s.kind o ≠ .free) (hb : in_object s o b) : in_range obj l.size b = false := by
  rw [← Bool.not_eq_true, in_range_iff]
  unfold in_object at hb
  intro hin
  have hle := hfresh o (by omega) ho
  omega

/-- Every step but those of an abort. -/
theorem number_step (h : Inv NB_SEGMENTS false s) (habort : a.is_abort = false)
    (hlisted : ∀ visited, a = .major_collection visited →
      ∀ o j, s.kind o = .overflow j → o ∈ (s.segs j).large_overflow_objects)
    (hs : step NB_SEGMENTS s a = .next s') : NumberStep NB_SEGMENTS s.kind s.mem s'.mem := by
  obtain ⟨hseg, hs⟩ := guarded_eq_next.mp hs
  have hi : ∀ {i : ℕ}, a.segment_num = some i → i ≤ NB_SEGMENTS :=
    fun heq => (mem_segment_nums.mp (hseg _ heq)).2
  have hwritable : ∀ {i obj : ℕ}, s.kind obj = .old ∨ IS_OVERFLOW_OBJ s i obj →
      s.kind obj ≠ .free ∧ ∀ j, s.kind obj = .overflow j → j = i := by
    intro i obj hobj
    rcases hobj with hold | hov
    · rw [hold]
      exact ⟨(by simp), (by simp)⟩
    · exact h.owner_of_listed (.inr hov)
  cases a with
  | largemalloc_write addr b =>
      obtain ⟨hunused, hs⟩ := guarded_eq_next.mp hs
      cases hs
      refine .of_views s fun o ho j b hb => read_write_of_ne ?_
      rintro rfl
      unfold in_object at hb
      have hle := hunused o (by omega) ho
      omega
  | allocate_external i obj l =>
      obtain ⟨⟨-, -, hfresh⟩, hs⟩ := guarded_eq_next.mp hs
      cases hs
      exact .of_views s fun o ho j b hb =>
        read_write_range_of_false (outside_of_fresh hfresh ho hb)
  | stm_write i obj =>
      obtain ⟨⟨-, hobj⟩, hs⟩ := guarded_eq_next.mp hs
      obtain ⟨hfree, howner⟩ := hwritable hobj
      exact (keeps_stm_write hs).number_step (hi rfl) h hfree howner rfl
  | stm_write_card i obj index =>
      obtain ⟨⟨-, hobj, -⟩, hs⟩ := guarded_eq_next.mp hs
      obtain ⟨hfree, howner⟩ := hwritable hobj
      exact (keeps_stm_write_card hs).number_step (hi rfl) h hfree howner rfl
  | page_privatize i =>
      simp only [step_segment] at hs
      split at hs
      · cases hs
        exact .of_views s fun o _ j b _ => read_page_privatize _
      · cases hs
  | write_slowpath_owned i =>
      simp only [step_segment] at hs
      split at hs
      · rename_i obj mark_card hpc
        have hm := ((h.lists i).privatizing obj mark_card [] hpc).1
        obtain ⟨hfree, howner⟩ := h.owner_of_listed (.inl hm)
        exact (keeps_write_slowpath_owned hs).number_step (hi rfl) h hfree howner rfl
      · cases hs
  | store i obj off b =>
      obtain ⟨⟨-, hoff, hsize, hobj⟩, hs⟩ := guarded_eq_next.mp hs
      cases hs
      have hkeeps : KeepsNumber NB_SEGMENTS i obj (s.layout obj).size s.mem
          (write s.mem i (obj + off) b) := by
        refine .write_body fun x hx => ?_
        rw [beq_iff_eq] at hx
        omega
      refine hkeeps.number_step (hi rfl) h ?_ (fun j hj => ?_) rfl
      · rcases hobj with hk | hk | ⟨hk, -⟩
        all_goals
          rw [hk]
          simp
      · rw [hj] at hobj
        rcases hobj with hk | hk | ⟨hk, -⟩
        · cases hk
        · rw [Kind.overflow.injEq] at hk
          exact hk
        · cases hk
  | minor_collection i commit =>
      obtain ⟨-, hs⟩ := guarded_eq_next.mp hs
      cases hs
      exact .refl _
  | evacuate i obj l val =>
      obtain ⟨⟨-, -, hfresh, -⟩, hs⟩ := guarded_eq_next.mp hs
      cases hs
      exact .of_views s fun o ho j b hb =>
        read_write_range_of_false (outside_of_fresh hfresh ho hb)
  | trace_young_outside_nursery i obj overflow_number =>
      obtain ⟨⟨-, hmem, -⟩, hs⟩ := guarded_eq_next.mp hs
      cases hs
      have hk := (h.lists i).young obj hmem
      refine .of_same fun o ho j => .of_header fun b hle hlt => read_write_range_of_false ?_
      have hne : o ≠ obj := by
        rintro rfl
        rw [hk] at ho
        rcases ho with ho | ⟨n, ho⟩
        · cases ho
        · cases ho
      have hfree : s.kind o ≠ .free := by
        rcases ho with ho | ⟨n, ho⟩
        all_goals
          rw [ho]
          simp
      have hsize := (s.layout o).size_pos
      have hdis := h.disjoint hfree (by rw [hk]; simp) hne
      rw [← Bool.not_eq_true, in_range_iff]
      omega
  | collect i val => exact number_step_collect (hi rfl) h hs
  | push_overflow_objects i =>
      obtain ⟨-, hs⟩ := guarded_eq_next.mp hs
      unfold push_overflow_objects_from_privatized_pages at hs
      dsimp only at hs
      split at hs
      · cases hs
      · rename_i mem hfold
        cases hs
        refine .of_pushed (push_overflow_objects_spec (hi rfl) hfold).1 (hi rfl)
          fun o j ho hji b hle hlt => ?_
        rintro ⟨o', ho', hb⟩
        have hk := (h.lists i).overflow o' (List.mem_reverse.mp ho')
        have hne : o ≠ o' := by
          rintro rfl
          rw [hk, Kind.overflow.injEq] at ho
          exact hji ho.symm
        have hsize := (s.layout o).size_pos
        have hdis := h.disjoint (by rw [ho]; simp) (by rw [hk]; simp) hne
        unfold in_object at hb
        omega
  | restart_all i =>
      obtain ⟨-, hs⟩ := guarded_eq_next.mp hs
      cases hs
      exact .refl _
  | commit_transaction i =>
      obtain ⟨m, wl, hfold, rfl⟩ := commit_transaction_eq (guarded_eq_next.mp hs).2
      refine .of_pushed (h.push_modified (hi rfl) hfold).pushed (hi rfl)
        fun o j ho hji b hle hlt => ?_
      rintro ⟨o', ho', hb, -⟩
      have hk := h.old_of_modified (List.mem_reverse.mp ho')
      have hne : o ≠ o' := by
        rintro rfl
        rw [hk] at ho
        cases ho
      have hsize := (s.layout o).size_pos
      have hdis := h.disjoint (by rw [ho]; simp) (by rw [hk]; simp) hne
      omega
  | hashtable_entry i obj l val =>
      obtain ⟨⟨-, -, hfresh, -⟩, hs⟩ := guarded_eq_next.mp hs
      cases hs
      exact .of_views s fun o ho j b hb =>
        read_write_all_segments_of_false (outside_of_fresh hfresh ho hb)
  | set_weakref_in_all_segments i obj val =>
      obtain ⟨⟨hfree, hsize⟩, hs⟩ := guarded_eq_next.mp hs
      cases hs
      refine .of_same fun o ho j => .of_header fun b hle hlt =>
        read_write_all_segments_of_false ?_
      rw [← Bool.not_eq_true, in_range_iff]
      by_cases hne : o = obj
      · omega
      · have hfree' : s.kind o ≠ .free := by
          rcases ho with ho | ⟨n, ho⟩
          all_goals
            rw [ho]
            simp
        have hpos := (s.layout o).size_pos
        have hdis := h.disjoint hfree' hfree hne
        omega
  | major_collection visited =>
      obtain ⟨hmay, hs⟩ := guarded_eq_next.mp hs
      split at hs
      · cases hs
      · rename_i t hmajor
        cases hs
        exact number_step_major_collection h hmay (hlisted visited rfl) hmajor
  | abort_data_structures i => cases habort
  | reset_modified i => cases habort

end Step

end Stmgc.C7
