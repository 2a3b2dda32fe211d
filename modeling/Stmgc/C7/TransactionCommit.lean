/-
Commit and abort keep the invariant of the machine of `Transaction`.

A commit shows the modified objects to all segments and gives their locks
back. For the objects that use cards it shows the right bytes only under a
condition on the cards, [`commit_cards_ok`]. An abort goes the other way: each
modified object is overwritten with what segment 0 sees of it.
-/
import Mathlib.Data.List.Nodup
import Stmgc.C7.TransactionCollect

namespace Stmgc.C7

open Stmgc.Lib

section

variable {NB_SEGMENTS : ℕ} {cards : Bool} {s s' : St} {i obj : ℕ} {m : Memory}

/-! ## The push of the overflow objects -/

theorem push_overflow_object_spec {m' : Memory} (hi : i ≤ NB_SEGMENTS)
    (h : push_overflow_object NB_SEGMENTS s i m obj = some m') :
    clean_flags (read m i obj) ∧ Pushed NB_SEGMENTS i (in_object s obj) m m' := by
  unfold push_overflow_object at h
  simp only [c_assert, Option.bind_eq_bind, Option.pure_def] at h
  by_cases hwb : has_flag m i obj GCFLAG_WRITE_BARRIER = true
  · rw [if_pos hwb, Option.bind_some] at h
    by_cases hcs : has_flag m i obj GCFLAG_CARDS_SET = false
    · rw [if_pos hcs, Option.bind_some, Option.bind_eq_some_iff] at h
      obtain ⟨⟨m₁, wl⟩, hsync, hm⟩ := h
      rw [Option.some.injEq] at hm
      subst hm
      refine ⟨clean_flags_read.mpr ⟨hwb, hcs⟩, ?_⟩
      refine (synchronize_object_now_spec hi hsync).1.congr (fun a => ?_)
      unfold synchronized_range in_object
      simp
    · rw [if_neg hcs] at h
      cases h
  · rw [if_neg hwb] at h
    cases h

/-- What `push_overflow_objects_from_privatized_pages` does when no assertion
fails. -/
theorem push_overflow_objects_spec {lst : List ℕ} {m' : Memory} (hi : i ≤ NB_SEGMENTS)
    (h : lst.foldlM (push_overflow_object NB_SEGMENTS s i) m = some m') :
    Pushed NB_SEGMENTS i (fun a => ∃ o ∈ lst, in_object s o a) m m' ∧
      ∀ o ∈ lst, clean_flags (read m i o) := by
  refine foldlM_some (fun done m₁ =>
    Pushed NB_SEGMENTS i (fun a => ∃ o ∈ done, in_object s o a) m m₁ ∧
      ∀ o ∈ done, clean_flags (read m i o)) ?_ ?_ h
  · intro done o _ m₁ m₂ _ hinv hstep
    obtain ⟨hpush, hclean⟩ := hinv
    obtain ⟨ho, hpush'⟩ := push_overflow_object_spec hi hstep
    refine ⟨(hpush.trans hi hpush').congr (fun a => ?_), ?_⟩
    · simp only [List.mem_append, List.mem_singleton, or_and_right, exists_or, exists_eq_left]
    · intro o' ho'
      rw [List.mem_append, List.mem_singleton] at ho'
      rcases ho' with ho' | rfl
      · exact hclean o' ho'
      · rw [hpush.read_myself hi] at ho
        exact ho
  · exact ⟨(Pushed.refl m).congr (by simp), by simp⟩

/-- The bytes of the overflow objects of a segment are shown to the others. -/
theorem Inv.push_mem (h : Inv NB_SEGMENTS cards s) (hi : i ≤ NB_SEGMENTS)
    (hpc : (s.segs i).pc.is_resetting = false ∧ (s.segs i).pc ≠ .pushed)
    (hpush : Pushed NB_SEGMENTS i
      (fun a => ∃ o ∈ (s.segs i).large_overflow_objects, in_object s o a) s.mem m) :
    Inv NB_SEGMENTS cards { s with mem := m } := by
  refine ⟨h.apart, h.locks_used, h.absent, h.lists, fun o ho => ?_⟩
  by_cases hov : o ∈ (s.segs i).large_overflow_objects
  · have hk := (h.lists i).overflow o hov
    have hobj := h.objs o ho
    have hflag : has_flag m i o GCFLAG_CARDS_SET = has_flag s.mem i o GCFLAG_CARDS_SET := by
      rw [has_flag, hpush.read_myself hi, has_flag]
    refine h.objInv_overflow (.inl hk) rfl (fun _ _ => rfl) rfl hpc rfl ?_ ?_ ?_
      (fun ho => hobj.locks.overflow_cards i ho)
    · intro hc hf
      have hf' := hf hov
      dsimp only at hf'
      rw [hflag] at hf'
      exact h.cards_clear_of_overflow hov hc hf'
    · intro _ hf
      dsimp only at hf
      rw [hflag] at hf
      exact hobj.locks.listed i hov hf
    · intro _ hf
      dsimp only at hf
      rw [hflag] at hf
      exact hobj.locks.uses i (.inr hov) hf
  · refine (h.objs o ho).same ⟨rfl, rfl, ?_, ?_, fun _ _ => rfl, fun _ => SameLists.refl _ _⟩
    · intro j a ha
      apply hpush.frame
      rintro ⟨o', ho', ha'⟩
      have hk := (h.lists i).overflow o' ho'
      have hdis := h.disjoint ho (by rw [hk]; simp) (fun heq => hov (heq ▸ ho'))
      unfold in_object at ha ha'
      omega
    · intro j _ p _ hp
      dsimp only
      rw [hpush.is_private_page]
      exact hp

theorem Inv.push_overflow_objects (h : Inv NB_SEGMENTS cards s)
    (hi : i ∈ segment_nums NB_SEGMENTS) (hpc : (s.segs i).pc = .collected)
    (hs : push_overflow_objects_from_privatized_pages NB_SEGMENTS s i = .next s') :
    Inv NB_SEGMENTS cards s' := by
  have hi' := (mem_segment_nums.mp hi).2
  unfold push_overflow_objects_from_privatized_pages at hs
  cases hfold : (s.segs i).large_overflow_objects.reverse.foldlM
      (push_overflow_object NB_SEGMENTS s i) s.mem with
  | none =>
      simp only [hfold] at hs
      cases hs
  | some m =>
      simp only [hfold, Outcome.next.injEq] at hs
      obtain ⟨hpush, hclean⟩ := push_overflow_objects_spec hi' hfold
      have hpush' : Pushed NB_SEGMENTS i
          (fun a => ∃ o ∈ (s.segs i).large_overflow_objects, in_object s o a) s.mem m :=
        hpush.congr (by simp)
      have hmem := h.push_mem hi' (by rw [hpc]; decide) hpush'
      have hr : (s.segs i).pc.is_resetting = false := by
        rw [hpc]
        rfl
      rw [← hs]
      refine hmem.set_seg hi ⟨?_, ?_, rfl, fun _ ho => .inl ho, fun _ ho => ho, ?_, ?_⟩
        ((h.lists i).goto .pushed hr (by simp) (by simp))
      · intro o
        rw [remaining_eq rfl, remaining_eq hr]
      · intro o p hp
        unfold pending at hp
        rw [hpc] at hp
        simp at hp
      · intro _
        refine .inr (fun o ho => ?_)
        have hcl := hclean o (List.mem_reverse.mpr ho)
        refine ⟨?_, fun j hj a ha => ?_⟩
        · dsimp only
          rw [hpush.read_myself hi']
          exact hcl
        · dsimp only
          rw [hpush'.pushed j hj a ⟨o, ho, ha⟩, hpush.read_myself hi']
      · intro hr'
        cases hr'

theorem Inv.restart_all (h : Inv NB_SEGMENTS cards s)
    (hi : i ∈ segment_nums NB_SEGMENTS) (hpc : (s.segs i).pc = .pushed) :
    Inv NB_SEGMENTS cards (s.set i { s.segs i with pc := .running }) := by
  have hr : (s.segs i).pc.is_resetting = false := by
    rw [hpc]
    rfl
  refine h.set_seg hi ⟨?_, ?_, rfl, fun _ ho => .inl ho, fun _ ho => ho, by simp,
    by simp [Pc.is_resetting]⟩ ((h.lists i).goto .running hr (by simp) (by simp))
  · intro o
    rw [remaining_eq rfl, remaining_eq hr]
  · intro o p hp
    unfold pending at hp
    rw [hpc] at hp
    simp at hp

/-! ## The push of the modified objects -/

section

variable {l : Layout} {wl wl' : ℕ → ℕ}

theorem assumed_fully_marked_congr (hcards : obj_should_use_cards l = true)
    (h : ∀ c ∈ card_indices l, wl (get_write_lock_idx obj + c) = wl' (get_write_lock_idx obj + c)) :
    assumed_fully_marked wl obj l ↔ assumed_fully_marked wl' obj l := by
  have hlast := last_card_index_eq (real_idx_count_pos hcards)
  unfold assumed_fully_marked
  rw [h 1 (by rw [mem_card_indices]; omega), h (last_card_index l) (by rw [mem_card_indices]; omega),
    h (last_card_index l / 2 + 1) (by rw [mem_card_indices]; omega)]

theorem cards_valid_congr
    (h : ∀ c ∈ card_indices l, wl (get_write_lock_idx obj + c) = wl' (get_write_lock_idx obj + c)) :
    cards_valid wl obj l ↔ cards_valid wl' obj l := by
  unfold cards_valid
  refine forall₂_congr (fun c hc => ?_)
  rw [h c hc]

theorem all_cards_cleared_congr
    (h : ∀ c ∈ card_indices l, wl (get_write_lock_idx obj + c) = wl' (get_write_lock_idx obj + c)) :
    all_cards_cleared wl obj l ↔ all_cards_cleared wl' obj l := by
  unfold all_cards_cleared
  refine forall₂_congr (fun c hc => ?_)
  rw [h c hc]

/-- What is copied depends on the card bytes of the object alone. -/
theorem synchronized_range_congr
    (h : ∀ c ∈ card_indices l, wl (get_write_lock_idx obj + c) = wl' (get_write_lock_idx obj + c))
    (a : ℕ) : synchronized_range wl obj l false a ↔ synchronized_range wl' obj l false a := by
  unfold synchronized_range
  by_cases hcards : obj_should_use_cards l = true
  · have hold : old_cards wl obj l (last_card_index l + 1) a
        ↔ old_cards wl' obj l (last_card_index l + 1) a := by
      unfold old_cards
      refine exists_congr (fun c => and_congr_right (fun h1 => and_congr_right (fun h2 => ?_)))
      rw [h c (by rw [mem_card_indices]; omega)]
    rw [assumed_fully_marked_congr hcards h, all_cards_cleared_congr h, hold]
  · simp [hcards]

end

/-- The loop of `push_modified_to_other_segments`, with the objects that are
done. -/
structure PushedModified (NB_SEGMENTS : ℕ) (s : St) (i : ℕ) (done : List ℕ) (m : Memory)
    (wl : ℕ → ℕ) : Prop where
  pushed : Pushed NB_SEGMENTS i
    (fun a => ∃ o ∈ done, synchronized_range s.write_locks o (s.layout o) false a) s.mem m
  flags : ∀ o ∈ done, clean_flags (read s.mem i o)
  base : ∀ o ∈ done, wl (get_write_lock_idx o) = 0
  cards : ∀ o ∈ done, obj_should_use_cards (s.layout o) = true →
    all_cards_cleared wl o (s.layout o) ∧ (assumed_fully_marked s.write_locks o (s.layout o)
      ∨ cards_valid s.write_locks o (s.layout o))
  others : ∀ x, (∀ o ∈ done, ¬ lock_of o (s.layout o) x) → wl x = s.write_locks x

theorem PushedModified.start : PushedModified NB_SEGMENTS s i [] s.mem s.write_locks where
  pushed := (Pushed.refl s.mem).congr (by simp)
  flags := by simp
  base := by simp
  cards := by simp
  others _ _ := rfl

/-- What `push_modified_object` does when no assertion fails. -/
theorem push_modified_object_spec {layout : ℕ → Layout} {m' : Memory} {wl wl' : ℕ → ℕ}
    (hi : i ≤ NB_SEGMENTS)
    (h : push_modified_object NB_SEGMENTS layout i (m, wl) obj = some (m', wl')) :
    clean_flags (read m i obj)
      ∧ Pushed NB_SEGMENTS i (synchronized_range wl obj (layout obj) false) m m'
      ∧ wl' (get_write_lock_idx obj) = 0
      ∧ (obj_should_use_cards (layout obj) = true → all_cards_cleared wl' obj (layout obj)
        ∧ (assumed_fully_marked wl obj (layout obj) ∨ cards_valid wl obj (layout obj)))
      ∧ ∀ x, ¬ lock_of obj (layout obj) x → wl' x = wl x := by
  unfold push_modified_object at h
  simp only [c_assert, Option.bind_eq_bind] at h
  by_cases hown : wl (get_write_lock_idx obj) = i
  · rw [if_pos hown, Option.bind_some] at h
    by_cases hwb : has_flag m i obj GCFLAG_WRITE_BARRIER = true
    · rw [if_pos hwb, Option.bind_some] at h
      by_cases hcs : has_flag m i obj GCFLAG_CARDS_SET = false
      · rw [if_pos hcs, Option.bind_some] at h
        obtain ⟨hpush, hor⟩ := synchronize_object_now_spec hi h
        -- the base byte is none of the card bytes
        have hcard : ∀ c ∈ card_indices (layout obj),
            Function.update wl (get_write_lock_idx obj) 0 (get_write_lock_idx obj + c)
              = wl (get_write_lock_idx obj + c) :=
          fun c hc => Function.update_of_ne (card_ne_base hc) _ _
        have hother : ∀ x, ¬ lock_of obj (layout obj) x →
            Function.update wl (get_write_lock_idx obj) 0 x = wl x := by
          intro x hx
          apply Function.update_of_ne
          rintro rfl
          exact hx (lock_of_base _ _)
        refine ⟨clean_flags_read.mpr ⟨hwb, hcs⟩, hpush.congr (synchronized_range_congr hcard), ?_⟩
        rcases hor with ⟨hig, hwl⟩ | ⟨hig, hclr, hval⟩
        · rw [hwl]
          refine ⟨Function.update_self _ _ _, fun hc => ?_, hother⟩
          simp [hc] at hig
        · have hc : obj_should_use_cards (layout obj) = true := by
            simpa using hig
          refine ⟨?_, fun _ => ⟨hclr.cleared, ?_⟩, fun x hx => ?_⟩
          · rw [hclr.others _ (fun c hcm heq => card_ne_base hcm heq.symm), Function.update_self]
          · exact hval.imp (assumed_fully_marked_congr hc hcard).mp (cards_valid_congr hcard).mp
          · rw [hclr.others x (fun c hcm heq => hx (heq ▸ lock_of_card hc hcm))]
            exact hother x hx
      · rw [if_neg hcs] at h
        cases h
    · rw [if_neg hwb] at h
      cases h
  · rw [if_neg hown] at h
    cases h

theorem PushedModified.turn {done : List ℕ} {m' : Memory} {wl wl' : ℕ → ℕ} (hi : i ≤ NB_SEGMENTS)
    (h : PushedModified NB_SEGMENTS s i done m wl)
    (hdis : ∀ o ∈ done, ∀ x, lock_of obj (s.layout obj) x → ¬ lock_of o (s.layout o) x)
    (hs : push_modified_object NB_SEGMENTS s.layout i (m, wl) obj = some (m', wl')) :
    PushedModified NB_SEGMENTS s i (done ++ [obj]) m' wl' := by
  obtain ⟨hclean, hpush, hbase, hcards, hothers⟩ := push_modified_object_spec hi hs
  have hwl : ∀ x, lock_of obj (s.layout obj) x → wl x = s.write_locks x :=
    fun x hx => h.others x (fun o ho => hdis o ho x hx)
  have hdone : ∀ o ∈ done, ∀ x, lock_of o (s.layout o) x → wl' x = wl x :=
    fun o ho x hx => hothers x (fun hx' => hdis o ho x hx' hx)
  refine ⟨?_, ?_, ?_, ?_, ?_⟩
  · refine (h.pushed.trans hi hpush).congr (fun a => ?_)
    simp only [List.mem_append, List.mem_singleton, or_and_right, exists_or, exists_eq_left]
    refine or_congr_right ?_
    by_cases hc : obj_should_use_cards (s.layout obj) = true
    · exact synchronized_range_congr (fun c hcm => hwl _ (lock_of_card hc hcm)) a
    · unfold synchronized_range
      simp [hc]
  · intro o ho
    rw [List.mem_append, List.mem_singleton] at ho
    rcases ho with ho | rfl
    · exact h.flags o ho
    · rw [h.pushed.read_myself hi] at hclean
      exact hclean
  · intro o ho
    rw [List.mem_append, List.mem_singleton] at ho
    rcases ho with ho | rfl
    · rw [hdone o ho _ (lock_of_base _ _)]
      exact h.base o ho
    · exact hbase
  · intro o ho hc
    rw [List.mem_append, List.mem_singleton] at ho
    rcases ho with ho | rfl
    · obtain ⟨hclr, hval⟩ := h.cards o ho hc
      refine ⟨(all_cards_cleared_congr (fun c hcm => ?_)).mpr hclr, hval⟩
      exact hdone o ho _ (lock_of_card hc hcm)
    · obtain ⟨hclr, hval⟩ := hcards hc
      have hcard : ∀ c ∈ card_indices (s.layout o),
          wl (get_write_lock_idx o + c) = s.write_locks (get_write_lock_idx o + c) :=
        fun c hcm => hwl _ (lock_of_card hc hcm)
      exact ⟨hclr, hval.imp (assumed_fully_marked_congr hc hcard).mp (cards_valid_congr hcard).mp⟩
  · intro x hx
    rw [hothers x (hx obj (by simp))]
    exact h.others x (fun o ho => hx o (by simp [ho]))

/-- `push_modified_to_other_segments`. -/
theorem Inv.push_modified {m' : Memory} {wl' : ℕ → ℕ} (h : Inv NB_SEGMENTS cards s)
    (hi : i ≤ NB_SEGMENTS)
    (hs : (s.segs i).modified_old_objects.reverse.foldlM
      (push_modified_object NB_SEGMENTS s.layout i) (s.mem, s.write_locks) = some (m', wl')) :
    PushedModified NB_SEGMENTS s i (s.segs i).modified_old_objects.reverse m' wl' := by
  refine foldlM_some (fun done ml => PushedModified NB_SEGMENTS s i done ml.1 ml.2) ?_
    PushedModified.start hs
  intro done o todo ml ml' hlst hinv hturn
  have hnd : (done ++ o :: todo).Nodup := by
    rw [← hlst, List.nodup_reverse]
    exact (h.lists i).nodup
  have hkind : ∀ o' ∈ done ++ o :: todo, s.kind o' ≠ .free := by
    intro o' ho'
    rw [← hlst, List.mem_reverse] at ho'
    rw [h.old_of_modified ho']
    decide
  refine hinv.turn hi (fun o' ho' x hx => ?_) hturn
  refine lock_of_apart (h.disjoint (hkind o (by simp)) (hkind o' (by simp [ho'])) ?_) hx
  rintro rfl
  rw [List.nodup_append] at hnd
  exact hnd.2.2 o ho' o (by simp) rfl

/-! ## The end of a commit -/

/-- The commit synchronizes the object as a whole, or `stm_write_card` alone was
called on it. -/
def commit_cards_ok (s : St) (i o : ℕ) : Prop :=
  o ∉ (s.segs i).written ∨ all_cards_cleared s.write_locks o (s.layout o)
    ∨ assumed_fully_marked s.write_locks o (s.layout o)

/-- An address of a modified object that is not copied shows to all segments
what the committing segment sees there. -/
theorem Inv.not_synchronized {a : ℕ} (h : Inv NB_SEGMENTS cards s)
    (hm : obj ∈ remaining (s.segs i))
    (hcards : obj_should_use_cards (s.layout obj) = true → cards = true)
    (hok : obj_should_use_cards (s.layout obj) = true → commit_cards_ok s i obj)
    (hclean : clean_flags (read s.mem i obj))
    (hvalid : obj_should_use_cards (s.layout obj) = true →
      assumed_fully_marked s.write_locks obj (s.layout obj)
        ∨ cards_valid s.write_locks obj (s.layout obj))
    (ha : in_object s obj a)
    (hna : ¬ synchronized_range s.write_locks obj (s.layout obj) false a) :
    ∀ j ≤ NB_SEGMENTS, read s.mem j a = read s.mem i a := by
  have hold := h.old_of_remaining hm
  have hobj := h.objs obj (h.kind_ne_free hm)
  -- only objects with cards are copied in part
  have huses : obj_should_use_cards (s.layout obj) = true := by
    by_contra hn
    exact hna ⟨ha, .inl (by simpa using hn)⟩
  have hnfull : ¬ assumed_fully_marked s.write_locks obj (s.layout obj) :=
    fun hf => hna ⟨ha, .inr (.inl hf)⟩
  have hnclear : ¬ all_cards_cleared s.write_locks obj (s.layout obj) :=
    fun hf => hna ⟨ha, .inr (.inr (.inl hf))⟩
  have hval := (hvalid huses).resolve_left hnfull
  have hmark := hobj.marks (hcards huses) huses i hm
  have hothers : ∀ j ≤ NB_SEGMENTS, j ≠ i → read s.mem j a = read s.mem 0 a := by
    intro j hj hji
    exact hobj.views.coherent hold hcards j hj (fun hmj => hji (h.owner_unique hm hmj)) a ha
  have hmine : read s.mem i a = read s.mem 0 a := by
    by_cases hao : a = obj
    · rw [hao]
      exact clean_flags_ext hclean (hobj.views.flags hold 0 (Nat.zero_le _) h.zero_notMem)
        hmark.flags
    · rcases hmark.marked with hw | hall | ⟨-, hd⟩
      · rcases hok huses with hnw | hclr | hfull
        · exact absurd hw hnw
        · exact absurd hclr hnclear
        · exact absurd hfull hnfull
      · -- all cards that are not clear are marked old
        refine absurd ?_ hnfull
        have hlast := last_card_index_eq (real_idx_count_pos huses)
        have hold : ∀ c ∈ card_indices (s.layout obj),
            s.write_locks (get_write_lock_idx obj + c) = CARD_MARKED_OLD :=
          fun c hc => (hval c hc).resolve_right (hall c hc)
        refine ⟨hold _ ?_, hold _ ?_, hold _ ?_⟩
        · rw [mem_card_indices]
          omega
        · rw [mem_card_indices]
          omega
        · rw [mem_card_indices]
          omega
      · by_contra hne
        obtain ⟨c, hc, hcm, hin⟩ := hd a ha hao hne
        have hco := (hval c hc).resolve_right hcm
        rw [mem_card_indices] at hc
        exact hna ⟨ha, .inr (.inr (.inr ⟨c, hc.1, by omega, hco, ha.1, hin⟩))⟩
  intro j hj
  by_cases hji : j = i
  · rw [hji]
  · rw [hothers j hj hji, hmine]

/-- After the push all segments see a modified object as the committing segment
does. -/
theorem PushedModified.read_eq {lst : List ℕ} {m' : Memory} {wl' : ℕ → ℕ} {a j : ℕ}
    (hpush : PushedModified NB_SEGMENTS s i lst m' wl') (h : Inv NB_SEGMENTS cards s)
    (hlst : ∀ o ∈ lst, o ∈ remaining (s.segs i))
    (hobj : obj ∈ lst)
    (hcards : obj_should_use_cards (s.layout obj) = true → cards = true)
    (hok : obj_should_use_cards (s.layout obj) = true → commit_cards_ok s i obj)
    (hj : j ≤ NB_SEGMENTS) (ha : in_object s obj a) : read m' j a = read s.mem i a := by
  by_cases hsync : synchronized_range s.write_locks obj (s.layout obj) false a
  · exact hpush.pushed.pushed j hj a ⟨obj, hobj, hsync⟩
  · rw [hpush.pushed.frame j a]
    · exact h.not_synchronized (hlst obj hobj) hcards hok (hpush.flags obj hobj)
        (fun hc => (hpush.cards obj hobj hc).2) ha hsync j hj
    · rintro ⟨o, ho, hso⟩
      have hoo : o = obj := by
        by_contra hne
        have hdis := h.disjoint (h.kind_ne_free (hlst o ho)) (h.kind_ne_free (hlst obj hobj)) hne
        have hin := hso.1
        unfold in_object at ha
        omega
      exact hsync (hoo ▸ hso)

/-- The flags of a modified object are clean in all segments after the push,
even if only some of its cards were copied. -/
theorem PushedModified.clean {lst : List ℕ} {m' : Memory} {wl' : ℕ → ℕ} {j : ℕ}
    (hpush : PushedModified NB_SEGMENTS s i lst m' wl') (h : Inv NB_SEGMENTS cards s)
    (hlst : ∀ o ∈ lst, o ∈ remaining (s.segs i)) (hobj : obj ∈ lst)
    (hj : j ≤ NB_SEGMENTS) : clean_flags (read m' j obj) := by
  by_cases hsync : ∃ o ∈ lst, synchronized_range s.write_locks o (s.layout o) false obj
  · rw [hpush.pushed.pushed j hj obj hsync]
    exact hpush.flags obj hobj
  · rw [hpush.pushed.frame j obj hsync]
    by_cases hji : j = i
    · rw [hji]
      exact hpush.flags obj hobj
    · refine (h.objs obj (h.kind_ne_free (hlst obj hobj))).views.flags
        (h.old_of_remaining (hlst obj hobj)) j hj (fun hmj => ?_)
      exact hji (h.owner_unique (hlst obj hobj) hmj)

/-- The transaction of a segment is over: its lists are cleared, its overflow
objects become old or are left behind, and the objects that it still had
modified are seen by all. -/
theorem Inv.finish {wl : ℕ → ℕ} {kind : ℕ → Kind} (h : Inv NB_SEGMENTS cards s)
    (hi : i ∈ segment_nums NB_SEGMENTS) (hp : ∀ o, pending (s.segs i) o = [])
    (hothers : ∀ o, s.kind o ≠ .overflow i → kind o = s.kind o)
    (hkept : ∀ o, s.kind o = .overflow i →
      kind o = .old ∧ seen_by_all NB_SEGMENTS s i o ∨ kind o = .dead)
    (hclear : ∀ o ∈ (s.segs i).large_overflow_objects, obj_should_use_cards (s.layout o) = true →
      all_cards_cleared s.write_locks o (s.layout o))
    (hmapping : m.pages_privatized = s.mem.pages_privatized)
    (hview : ∀ o, s.kind o ≠ .free → o ∉ remaining (s.segs i) →
      ∀ j a, in_object s o a → read m j a = read s.mem j a)
    (hlock : ∀ o, s.kind o ≠ .free → o ∉ remaining (s.segs i) →
      ∀ x, lock_of o (s.layout o) x → wl x = s.write_locks x)
    (hused : ∀ x, wl x ≠ 0 → wl x = s.write_locks x)
    (hmod : ∀ o ∈ remaining (s.segs i), wl (get_write_lock_idx o) = 0
      ∧ (obj_should_use_cards (s.layout o) = true → all_cards_cleared wl o (s.layout o))
      ∧ ∀ j ≤ NB_SEGMENTS, clean_flags (read m j o)
        ∧ ((obj_should_use_cards (s.layout o) = true → cards = true) →
          ∀ a, in_object s o a → read m j a = read m 0 a)) :
    Inv NB_SEGMENTS cards { s.set i (s.segs i).clear_lists with
      mem := m, write_locks := wl, kind := kind } := by
  have hl := h.lists i
  have hfree : ∀ o, kind o ≠ .free ↔ s.kind o ≠ .free := by
    intro o
    by_cases hk : s.kind o = .overflow i
    · rw [hk]
      rcases hkept o hk with ⟨hold, -⟩ | hdead
      · rw [hold]
        simp
      · rw [hdead]
        simp
    · rw [hothers o hk]
  have hseg : ∀ j, ({ s.set i (s.segs i).clear_lists with
      mem := m, write_locks := wl, kind := kind } : St).segs j =
        if j = i then (s.segs i).clear_lists else s.segs j := by
    intro j
    by_cases hj : j = i
    · rw [if_pos hj, hj]
      exact set_segs_self _
    · rw [if_neg hj]
      exact set_segs_of_ne _ hj
  -- segment i has nothing left
  have hnrem : ∀ o j, o ∈ remaining (if j = i then (s.segs i).clear_lists else s.segs j) →
      j ≠ i ∧ o ∈ remaining (s.segs j) := by
    intro o j hj
    by_cases hji : j = i
    · rw [if_pos hji] at hj
      simp [remaining, Segment.clear_lists] at hj
    · rw [if_neg hji] at hj
      exact ⟨hji, hj⟩
  have hnov : ∀ o j, o ∈ (if j = i then (s.segs i).clear_lists
      else s.segs j).large_overflow_objects → j ≠ i ∧ o ∈ (s.segs j).large_overflow_objects := by
    intro o j hj
    by_cases hji : j = i
    · rw [if_pos hji] at hj
      simp [Segment.clear_lists] at hj
    · rw [if_neg hji] at hj
      exact ⟨hji, hj⟩
  refine ⟨?_, ?_, ?_, ?_, ?_⟩
  · exact fun o o' ho ho' hlt => h.apart o o' ((hfree o).mp ho) ((hfree o').mp ho') hlt
  · intro x hx
    dsimp only at hx
    rw [hused x hx] at hx
    obtain ⟨o, ho, hxo⟩ := h.locks_used x hx
    exact ⟨o, (hfree o).mpr ho, hxo⟩
  · intro j hj
    have hji : j ≠ i := fun hji => hj (hji ▸ hi)
    rw [hseg, if_neg hji]
    exact h.absent j hj
  · intro j
    rw [hseg]
    by_cases hj : j = i
    · rw [if_pos hj, hj]
      constructor <;> simp [Segment.clear_lists]
      -- the list of young objects stays
      intro o ho
      have hy := hl.young o ho
      rw [hothers o (by rw [hy]; simp), hy]
    · rw [if_neg hj]
      refine (h.lists j).mono (fun o ho => hothers o ?_) (fun _ _ => rfl)
      rcases ho with ho | ho | ho <;> rw [ho] <;> simp [hj]
  · intro o ho
    have ho' := (hfree o).mp ho
    have hobj := h.objs o ho'
    by_cases hm : o ∈ remaining (s.segs i)
    · -- an object that was modified, and is no longer
      obtain ⟨hbase, hcards, hall⟩ := hmod o hm
      have hold := h.old_of_remaining hm
      have hrem : ∀ j, o ∉ remaining (({ s.set i (s.segs i).clear_lists with
          mem := m, write_locks := wl, kind := kind } : St).segs j) := by
        intro j hj
        rw [hseg] at hj
        obtain ⟨hji, hmj⟩ := hnrem o j hj
        exact hji (h.owner_unique hm hmj)
      have hov : ∀ j, o ∉ (({ s.set i (s.segs i).clear_lists with
          mem := m, write_locks := wl, kind := kind } : St).segs j).large_overflow_objects := by
        intro j hj
        rw [hseg] at hj
        have hk := (h.lists j).overflow o (hnov o j hj).2
        rw [hold] at hk
        cases hk
      exact ObjInv.of_unlisted hrem hov hbase hcards (fun _ j hj => (hall j hj).1)
        (fun _ hc j hj => (hall j hj).2 hc)
    · by_cases hk : s.kind o = .overflow i
      · -- an object of the transaction
        have hrem : ∀ j, o ∉ remaining (s.segs j) := by
          intro j hj
          have hold := h.old_of_remaining hj
          rw [hk] at hold
          cases hold
        have hmine : ∀ j, o ∈ (s.segs j).large_overflow_objects → j = i := by
          intro j hj
          have hkj := (h.lists j).overflow o hj
          rw [hk, Kind.overflow.injEq] at hkj
          exact hkj.symm
        refine ObjInv.of_unlisted ?_ ?_ ?_ ?_ ?_ ?_
        · intro j hj
          rw [hseg] at hj
          exact hrem j (hnrem o j hj).2
        · intro j hj
          rw [hseg] at hj
          obtain ⟨hji, hoj⟩ := hnov o j hj
          exact hji (hmine j hoj)
        · dsimp only
          rw [hlock o ho' hm _ (lock_of_base _ _)]
          exact hobj.locks.free hrem
        · intro hc c hcm
          dsimp only
          rw [hlock o ho' hm _ (lock_of_card hc hcm)]
          by_cases hov : o ∈ (s.segs i).large_overflow_objects
          · exact hclear o hov hc c hcm
          · exact hobj.locks.cards_clear hc hrem
              (fun j hj => absurd (hmine j hj ▸ hj) hov) c hcm
        · intro hold j hj
          rcases hkept o hk with ⟨-, hseen⟩ | hdead
          · dsimp only
            rw [hview o ho' hm j o (in_object_self s o), hseen.2 j hj o (in_object_self s o)]
            exact hseen.1
          · exact absurd (hold.symm.trans hdead) (by decide)
        · intro hold _ j hj a ha
          rcases hkept o hk with ⟨-, hseen⟩ | hdead
          · dsimp only
            rw [hview o ho' hm j a ha, hview o ho' hm 0 a ha, hseen.2 j hj a ha,
              hseen.2 0 (Nat.zero_le _) a ha]
          · exact absurd (hold.symm.trans hdead) (by decide)
      · -- an object of someone else
        refine hobj.same ⟨hothers o hk, rfl, hview o ho' hm, ?_, hlock o ho' hm, ?_⟩
        · intro j _ p _ hp
          unfold is_private_page at hp ⊢
          rw [hmapping]
          exact hp
        · intro j
          rw [hseg]
          by_cases hj : j = i
          · rw [if_pos hj, hj]
            have hov : o ∉ (s.segs i).large_overflow_objects := fun hov => hk (hl.overflow o hov)
            refine ⟨?_, ?_, ?_, fun ho => absurd ho hov, fun hw => absurd hw hm,
              fun ho => absurd ho hov, ?_⟩
            · exact ⟨fun hw => absurd hw (by simp [remaining, Segment.clear_lists]),
                fun hw => absurd hw hm⟩
            · rw [hp o]
              rfl
            · simp [Segment.clear_lists, hov]
            · intro _ hr
              cases hr
          · rw [if_neg hj]
            exact SameLists.refl _ _

theorem pending_of_pushed {seg : Segment} (h : seg.pc = .pushed) (o : ℕ) : pending seg o = [] := by
  unfold pending
  rw [h]

/-- What a commit that fails no assertion consists of. -/
theorem commit_transaction_eq (hs : C7.commit_transaction NB_SEGMENTS s i = .next s') :
    ∃ m wl, (s.segs i).modified_old_objects.reverse.foldlM
        (push_modified_object NB_SEGMENTS s.layout i) (s.mem, s.write_locks) = some (m, wl)
      ∧ s' = { s.set i (s.segs i).clear_lists with
          mem := m
          write_locks := wl
          kind := fun o => if s.kind o = .overflow i then
              if o ∈ (s.segs i).large_overflow_objects then .old else .dead
            else s.kind o } := by
  unfold C7.commit_transaction at hs
  cases hfold : (s.segs i).modified_old_objects.reverse.foldlM
      (push_modified_object NB_SEGMENTS s.layout i) (s.mem, s.write_locks) with
  | none =>
      simp only [hfold] at hs
      cases hs
  | some r =>
      simp only [hfold, Outcome.next.injEq] at hs
      exact ⟨r.1, r.2, rfl, hs.symm⟩

theorem Inv.commit_transaction (h : Inv NB_SEGMENTS cards s)
    (hi : i ∈ segment_nums NB_SEGMENTS) (hpc : (s.segs i).pc = .pushed)
    (hok : cards = true → ∀ o ∈ (s.segs i).modified_old_objects,
      obj_should_use_cards (s.layout o) = true → commit_cards_ok s i o)
    (hs : C7.commit_transaction NB_SEGMENTS s i = .next s') : Inv NB_SEGMENTS cards s' := by
  have hi' := (mem_segment_nums.mp hi).2
  have hr : (s.segs i).pc.is_resetting = false := by
    rw [hpc]
    rfl
  obtain ⟨m, wl, hfold, hs'⟩ := commit_transaction_eq hs
  have hpush := h.push_modified hi' hfold
  have hmem : ∀ {o : ℕ}, o ∈ (s.segs i).modified_old_objects.reverse ↔ o ∈ remaining (s.segs i) := by
    intro o
    rw [remaining_eq hr, List.mem_reverse]
  have hlst : ∀ o ∈ (s.segs i).modified_old_objects.reverse, o ∈ remaining (s.segs i) :=
    fun o ho => hmem.mp ho
  rw [hs']
  refine h.finish hi (pending_of_pushed hpc) (fun o ho => if_neg ho) ?_ ?_ hpush.pushed.mapping
    ?_ ?_ ?_ ?_
  · intro o hk
    rw [if_pos hk]
    by_cases hov : o ∈ (s.segs i).large_overflow_objects
    · rw [if_pos hov]
      have hobj := h.objs o (by rw [hk]; simp)
      exact .inl ⟨rfl, hobj.views.pushed i hpc hov⟩
    · rw [if_neg hov]
      exact .inr rfl
  · intro o hov hc
    have hk := (h.lists i).overflow o hov
    have hseen := (h.objs o (by rw [hk]; simp)).views.pushed i hpc hov
    exact h.cards_clear_of_overflow hov hc (clean_flags_read.mp hseen.1).2
  · intro o ho hn j a ha
    apply hpush.pushed.frame
    rintro ⟨o', ho', hsync⟩
    have hne : o ≠ o' := by
      rintro rfl
      exact hn (hlst o ho')
    have hdis := h.disjoint ho (h.kind_ne_free (hlst o' ho')) hne
    have hin := hsync.1
    unfold in_object at ha
    omega
  · intro o ho hn x hx
    apply hpush.others
    intro o' ho'
    have hne : o ≠ o' := by
      rintro rfl
      exact hn (hlst o ho')
    exact lock_of_apart (h.disjoint ho (h.kind_ne_free (hlst o' ho')) hne) hx
  · intro x hx
    apply hpush.others
    intro o ho hxo
    apply hx
    rcases hxo with rfl | ⟨hc, c, hcm, rfl⟩
    · exact hpush.base o ho
    · exact (hpush.cards o ho hc).1 c hcm
  · intro o ho
    have ho' := hmem.mpr ho
    refine ⟨hpush.base o ho', fun hc => (hpush.cards o ho' hc).1, fun j hj => ?_⟩
    refine ⟨hpush.clean h hlst ho' hj, fun hc a ha => ?_⟩
    have hoko : obj_should_use_cards (s.layout o) = true → commit_cards_ok s i o :=
      fun hu => hok (hc hu) o (mem_of_remaining ho) hu
    rw [hpush.read_eq h hlst ho' hc hoko hj ha,
      hpush.read_eq h hlst ho' hc hoko (Nat.zero_le _) ha]

/-! ## Abort -/

/-- `reset_object_cards` on the objects of a list that are chosen by `p`. -/
def reset_cards_of (layout : ℕ → Layout) (p : ℕ → Bool) (lst : List ℕ) (wl : ℕ → ℕ) : ℕ → ℕ :=
  lst.foldl (fun wl obj =>
    if p obj then reset_object_cards wl obj (layout obj) CARD_CLEAR false else wl) wl

theorem reset_object_cards_eq {l : Layout} {wl : ℕ → ℕ} {x : ℕ} :
    reset_object_cards wl obj l CARD_CLEAR false x =
      if ∃ c ∈ card_indices l, x = get_write_lock_idx obj + c then 0 else wl x := by
  rw [reset_object_cards, map_cards_eq]
  by_cases hc : ∃ c ∈ card_indices l, x = get_write_lock_idx obj + c
  · rw [if_pos hc, if_pos hc]
    by_cases hx : wl x = CARD_CLEAR
    · rw [if_neg (by simpa using hx)]
      exact hx
    · rw [if_pos (.inr hx)]
      rfl
  · rw [if_neg hc, if_neg hc]

/-- A byte is reset, or it is as before. -/
theorem reset_cards_of_spec {layout : ℕ → Layout} {p : ℕ → Bool} {lst : List ℕ} (wl : ℕ → ℕ)
    (x : ℕ) : reset_cards_of layout p lst wl x =
      if ∃ o ∈ lst, p o = true ∧ ∃ c ∈ card_indices (layout o), x = get_write_lock_idx o + c then 0
      else wl x := by
  unfold reset_cards_of
  induction lst generalizing wl with
  | nil => simp
  | cons o lst ih =>
      rw [List.foldl_cons, ih]
      by_cases hin : ∃ o' ∈ lst, p o' = true ∧
          ∃ c ∈ card_indices (layout o'), x = get_write_lock_idx o' + c
      · rw [if_pos hin, if_pos]
        obtain ⟨o', ho', hrest⟩ := hin
        exact ⟨o', List.mem_cons_of_mem _ ho', hrest⟩
      · rw [if_neg hin]
        by_cases hp : p o = true
        · rw [if_pos hp, reset_object_cards_eq]
          by_cases hc : ∃ c ∈ card_indices (layout o), x = get_write_lock_idx o + c
          · rw [if_pos hc, if_pos ⟨o, by simp, hp, hc⟩]
          · rw [if_neg hc, if_neg]
            rintro ⟨o', ho', hrest⟩
            rcases List.mem_cons.mp ho' with rfl | ho'
            · exact hc hrest.2
            · exact hin ⟨o', ho', hrest⟩
        · rw [if_neg hp, if_neg]
          rintro ⟨o', ho', hrest⟩
          rcases List.mem_cons.mp ho' with rfl | ho'
          · exact hp hrest.1
          · exact hin ⟨o', ho', hrest⟩

/-- An abort resets the cards of the overflow objects first. -/
theorem Inv.reset_overflow_cards (h : Inv NB_SEGMENTS cards s)
    (hi : i ∈ segment_nums NB_SEGMENTS) (hr : (s.segs i).pc.is_resetting = false)
    (hp : ∀ o, pending (s.segs i) o = []) :
    Inv NB_SEGMENTS cards
      { s.set i { s.segs i with
          pc := .resetting (s.segs i).modified_old_objects.length } with
        write_locks := reset_cards_of s.layout (fun o => has_flag s.mem i o GCFLAG_CARDS_SET)
          (s.segs i).large_overflow_objects.reverse s.write_locks } := by
  have hl := h.lists i
  have hrem : ∀ o, o ∈ remaining { s.segs i with
      pc := .resetting (s.segs i).modified_old_objects.length } ↔ o ∈ remaining (s.segs i) := by
    intro o
    rw [remaining_eq hr]
    show o ∈ (s.segs i).modified_old_objects.take (s.segs i).modified_old_objects.length ↔ _
    rw [List.take_length]
  -- the bytes that are reset are cards of overflow objects
  have hcard : ∀ x, reset_cards_of s.layout (fun o => has_flag s.mem i o GCFLAG_CARDS_SET)
      (s.segs i).large_overflow_objects.reverse s.write_locks x ≠ s.write_locks x →
      ∃ o ∈ (s.segs i).large_overflow_objects, obj_should_use_cards (s.layout o) = true ∧
        ∃ c ∈ card_indices (s.layout o), x = get_write_lock_idx o + c := by
    intro x hx
    rw [reset_cards_of_spec] at hx
    by_cases hin : ∃ o ∈ (s.segs i).large_overflow_objects.reverse,
        has_flag s.mem i o GCFLAG_CARDS_SET = true ∧
          ∃ c ∈ card_indices (s.layout o), x = get_write_lock_idx o + c
    · obtain ⟨o, ho, hf, hc⟩ := hin
      rw [List.mem_reverse] at ho
      have hk := hl.overflow o ho
      have hobj := h.objs o (by rw [hk]; simp)
      exact ⟨o, ho, hobj.locks.uses i (.inr ho) hf, hc⟩
    · rw [if_neg hin] at hx
      exact absurd rfl hx
  have hlock : ∀ o, s.kind o ≠ .free → o ∉ (s.segs i).large_overflow_objects →
      ∀ x, lock_of o (s.layout o) x → reset_cards_of s.layout
        (fun o => has_flag s.mem i o GCFLAG_CARDS_SET) (s.segs i).large_overflow_objects.reverse
        s.write_locks x = s.write_locks x := by
    intro o ho hn x hx
    by_contra hne
    obtain ⟨o', ho', hc, c, hcm, rfl⟩ := hcard x hne
    have hk := hl.overflow o' ho'
    have hoo : o ≠ o' := by
      rintro rfl
      exact hn ho'
    exact lock_of_apart (h.disjoint ho (by rw [hk]; simp) hoo) hx (lock_of_card hc hcm)
  refine ⟨h.apart, ?_, ?_, ?_, ?_⟩
  · intro x hx
    by_cases hne : reset_cards_of s.layout (fun o => has_flag s.mem i o GCFLAG_CARDS_SET)
        (s.segs i).large_overflow_objects.reverse s.write_locks x = s.write_locks x
    · dsimp only at hx
      rw [hne] at hx
      exact h.locks_used x hx
    · obtain ⟨o, ho, hc, c, hcm, rfl⟩ := hcard x hne
      have hk := hl.overflow o ho
      exact ⟨o, by dsimp only [St.set]; rw [hk]; simp, lock_of_card hc hcm⟩
  · intro j hj
    have hji : j ≠ i := fun hji => hj (hji ▸ hi)
    exact (set_segs_of_ne _ hji).trans (h.absent j hj)
  · intro j
    by_cases hj : j = i
    · rw [hj]
      dsimp only
      rw [set_segs_self]
      refine { hl with pointing := ?_, cards := ?_, todo := ?_, privatizing := ?_ }
      · intro hr'
        cases hr'
      · intro hr'
        cases hr'
      · intro c t ht
        cases ht
      · intro o mc pages hpc
        cases hpc
    · dsimp only
      rw [set_segs_of_ne _ hj]
      exact h.lists j
  · intro o ho
    have hobj := h.objs o ho
    by_cases hov : o ∈ (s.segs i).large_overflow_objects
    · have hk := hl.overflow o hov
      have hcleared : obj_should_use_cards (s.layout o) = true → all_cards_cleared
          (reset_cards_of s.layout (fun o => has_flag s.mem i o GCFLAG_CARDS_SET)
            (s.segs i).large_overflow_objects.reverse s.write_locks) o (s.layout o) := by
        intro hc c hcm
        rw [reset_cards_of_spec]
        by_cases hin : ∃ o' ∈ (s.segs i).large_overflow_objects.reverse,
            has_flag s.mem i o' GCFLAG_CARDS_SET = true ∧ ∃ c' ∈ card_indices (s.layout o'),
              get_write_lock_idx o + c = get_write_lock_idx o' + c'
        · rw [if_pos hin]
          rfl
        · rw [if_neg hin]
          by_cases hf : has_flag s.mem i o GCFLAG_CARDS_SET = true
          · exact absurd ⟨o, List.mem_reverse.mpr hov, hf, c, hcm, rfl⟩ hin
          · exact h.cards_clear_of_overflow hov hc (Bool.not_eq_true _ ▸ hf) c hcm
      have hnrem : ∀ j, o ∉ remaining (s.segs j) := by
        intro j hj
        have hold := h.old_of_remaining hj
        rw [hk] at hold
        cases hold
      have hmine : ∀ j, o ∈ (s.segs j).large_overflow_objects → j = i := by
        intro j hj
        have hkj := (h.lists j).overflow o hj
        rw [hk, Kind.overflow.injEq] at hkj
        exact hkj.symm
      have hsegs : ∀ j, o ∉ remaining ((s.set i { s.segs i with
          pc := .resetting (s.segs i).modified_old_objects.length }).segs j) := by
        intro j hj
        by_cases hji : j = i
        · rw [hji, set_segs_self, hrem] at hj
          exact hnrem i hj
        · rw [set_segs_of_ne _ hji] at hj
          exact hnrem j hj
      have hlarge : ∀ j, o ∈ ((s.set i { s.segs i with
          pc := .resetting (s.segs i).modified_old_objects.length }).segs j).large_overflow_objects →
          j = i := by
        intro j hj
        by_cases hji : j = i
        · exact hji
        · rw [set_segs_of_ne _ hji] at hj
          exact hmine j hj
      refine ⟨⟨?_, ?_, ?_, ?_, ?_, ?_⟩, ⟨?_, ?_, ?_, ?_⟩, ?_⟩
      · exact fun j hj => absurd hj (hsegs j)
      · intro _
        by_contra hne
        have hfree := hobj.locks.free hnrem
        obtain ⟨o', ho', hc, c, hcm, heq⟩ := hcard (get_write_lock_idx o)
          (fun heq => hne (heq.trans hfree))
        by_cases hoo : o = o'
        · rw [hoo] at heq
          exact card_ne_base hcm heq.symm
        · have hk' := hl.overflow o' ho'
          refine lock_of_apart (h.disjoint ho (by rw [hk']; simp) hoo) (lock_of_base _ _) ?_
          rw [heq]
          exact lock_of_card hc hcm
      · exact fun hc _ _ => hcleared hc
      · intro j hj hf
        have hji := hlarge j hj
        subst hji
        dsimp only
        rw [set_segs_self]
        exact hobj.locks.listed j hov hf
      · intro j hj hf
        have hji := hlarge j (hj.resolve_left (hsegs j))
        subst hji
        exact hobj.locks.uses j (.inr hov) hf
      · exact fun _ _ hc c hcm => .inl (hcleared hc c hcm)
      · exact fun j hj => absurd hj (hsegs j)
      · exact fun hold => absurd (hold.symm.trans hk) (by simp)
      · exact fun hold => absurd (hold.symm.trans hk) (by simp)
      · intro j hpc hj
        have hji := hlarge j hj
        subst hji
        dsimp only at hpc
        rw [set_segs_self] at hpc
        cases hpc
      · exact fun _ _ j hj => absurd hj (hsegs j)
    · refine hobj.same ⟨rfl, rfl, fun _ _ _ => rfl, fun _ _ _ _ hp => hp, hlock o ho hov, ?_⟩
      intro j
      by_cases hj : j = i
      · rw [hj]
        dsimp only
        rw [set_segs_self]
        refine ⟨hrem o, ?_, Iff.rfl, fun _ hc => hc, fun _ hw => hw, fun _ hpc => ?_,
          fun ho => absurd ho hov⟩
        · rw [hp o]
          rfl
        · cases hpc
      · dsimp only
        rw [set_segs_of_ne _ hj]
        exact SameLists.refl _ _

theorem Inv.abort_data_structures (h : Inv NB_SEGMENTS cards s)
    (hi : i ∈ segment_nums NB_SEGMENTS)
    (hpc : (s.segs i).pc = .running ∨ (s.segs i).pc = .collected ∨ (s.segs i).pc = .pushed) :
    Inv NB_SEGMENTS cards (C7.abort_data_structures s i) := by
  have hpc' : ((C7.throw_away_nursery s i).segs i).pc = (s.segs i).pc := by
    unfold C7.throw_away_nursery
    rw [set_segs_self]
  refine (h.throw_away_nursery hi).reset_overflow_cards hi ?_ ?_
  · rw [hpc']
    rcases hpc with hpc | hpc | hpc <;> rw [hpc] <;> rfl
  · intro o
    unfold pending
    rw [hpc']
    rcases hpc with hpc | hpc | hpc <;> rw [hpc]

/-- A modified object gets back what segment 0 sees of it. -/
theorem Inv.reset_modified_object {todo : ℕ} (h : Inv NB_SEGMENTS cards s)
    (hi : i ∈ segment_nums NB_SEGMENTS) (hpc : (s.segs i).pc = .resetting (todo + 1))
    (hobj : (s.segs i).modified_old_objects[todo]? = some obj)
    (hs : C7.reset_modified_object s i obj todo = .next s') : Inv NB_SEGMENTS cards s' := by
  have hl := h.lists i
  have hrem_eq : remaining (s.segs i) = (s.segs i).modified_old_objects.take todo ++ [obj] := by
    rw [remaining_of_resetting hpc, List.take_add_one, hobj]
    rfl
  have hm : obj ∈ remaining (s.segs i) := by
    rw [hrem_eq]
    simp
  -- the other items stay, and this one is not among them
  have hrest : ∀ o, o ∈ remaining { s.segs i with pc := .resetting todo } ↔
      o ∈ remaining (s.segs i) ∧ o ≠ obj := by
    intro o
    show o ∈ (s.segs i).modified_old_objects.take todo ↔ _
    have hnd : ((s.segs i).modified_old_objects.take todo ++ [obj]).Nodup := by
      rw [← hrem_eq, remaining_of_resetting hpc]
      exact hl.nodup.sublist (List.take_sublist _ _)
    rw [List.nodup_append] at hnd
    rw [hrem_eq, List.mem_append, List.mem_singleton]
    constructor
    · intro ho
      refine ⟨.inl ho, ?_⟩
      rintro rfl
      exact hnd.2.2 o ho o (by simp) rfl
    · exact fun ho => ho.1.resolve_right ho.2
  have hold := h.old_of_remaining hm
  have hkf := h.kind_ne_free hm
  have hinv := h.objs obj hkf
  have hpend : pending (s.segs i) obj = [] := by
    unfold pending
    rw [hpc]
  have hi0 := h.ne_zero hm
  have hmem : WritesOnly i obj (s.layout obj).size s.mem
      (memcpy s.mem i 0 obj (s.layout obj).size) :=
    WritesOnly.write_range _ (fun a ha => in_range_iff.mp ha)
  -- all segments see now what they have seen except for the own one
  have hview : ∀ j a, in_object s obj a → read (memcpy s.mem i 0 obj (s.layout obj).size) j a
      = if j = i then read s.mem 0 a else read s.mem j a := by
    intro j a ha
    by_cases hj : j = i
    · rw [if_pos hj, hj]
      exact read_write_range_self (in_range_iff.mpr ha)
    · rw [if_neg hj]
      exact hmem.private_pages j a hj (h.private_of_remaining hm hpend ha)
  unfold C7.reset_modified_object at hs
  dsimp only at hs
  generalize hwl : (if obj_should_use_cards (s.layout obj) = true then
      reset_object_cards s.write_locks obj (s.layout obj) CARD_CLEAR false
    else s.write_locks) = wl at hs
  by_cases hassert : has_flag (memcpy s.mem i 0 obj (s.layout obj).size) i obj
      GCFLAG_WRITE_BARRIER = true ∧ wl (get_write_lock_idx obj) = i
  · rw [if_pos hassert, Outcome.next.injEq] at hs
    rw [← hs]
    have hwl_outside : ∀ x, ¬ lock_of obj (s.layout obj) x → wl x = s.write_locks x := by
      intro x hx
      rw [← hwl]
      by_cases hc : obj_should_use_cards (s.layout obj) = true
      · rw [if_pos hc]
        exact map_cards_outside _ hc hx
      · rw [if_neg hc]
    have hwl_cards : obj_should_use_cards (s.layout obj) = true →
        all_cards_cleared wl obj (s.layout obj) := by
      intro hc
      rw [← hwl, if_pos hc]
      exact (reset_object_cards_cleared _).cleared
    have hrem : ∀ j, obj ∉ remaining ((s.set i { s.segs i with pc := .resetting todo }).segs j) := by
      intro j hj
      by_cases hji : j = i
      · rw [hji, set_segs_self, hrest] at hj
        exact hj.2 rfl
      · rw [set_segs_of_ne _ hji] at hj
        exact hji (h.owner_unique hm hj)
    have hov : ∀ j, obj ∉ ((s.set i { s.segs i with
        pc := .resetting todo }).segs j).large_overflow_objects := by
      intro j hj
      have hlarge : ((s.set i { s.segs i with pc := .resetting todo }).segs j).large_overflow_objects
          = (s.segs j).large_overflow_objects := by
        by_cases hji : j = i
        · rw [hji, set_segs_self]
        · rw [set_segs_of_ne _ hji]
      rw [hlarge] at hj
      have hk := (h.lists j).overflow obj hj
      rw [hold] at hk
      cases hk
    refine h.touch hi hkf rfl rfl (fun j hj => set_segs_of_ne _ hj) hmem ?_ ?_ ?_ ?_
    · intro x hx
      show Function.update wl (get_write_lock_idx obj) 0 x = s.write_locks x
      rw [Function.update_of_ne]
      · exact hwl_outside x hx
      · rintro rfl
        exact hx (lock_of_base _ _)
    · intro o ho
      rw [set_segs_self]
      refine ⟨?_, ?_, Iff.rfl, fun _ hc => hc, fun _ hw => hw, by simp, fun _ _ => ?_⟩
      · rw [hrest]
        exact ⟨fun hor => hor.1, fun hor => ⟨hor, ho⟩⟩
      · unfold pending
        rw [hpc]
      · rw [hpc]
        rfl
    · rw [set_segs_self]
      refine { hl with pointing := ?_, cards := ?_, todo := ?_, privatizing := ?_ }
      · intro hr
        cases hr
      · intro hr
        cases hr
      · intro c t ht
        cases ht
      · intro o mc pages hpc'
        cases hpc'
    · refine ObjInv.of_unlisted hrem hov (Function.update_self _ _ _) ?_ ?_ ?_
      · intro hc c hcm
        show Function.update wl (get_write_lock_idx obj) 0 (get_write_lock_idx obj + c) = _
        rw [Function.update_of_ne (card_ne_base hcm)]
        exact hwl_cards hc c hcm
      · intro _ j hj
        dsimp only
        rw [hview j obj (in_object_self s obj)]
        by_cases hji : j = i
        · rw [if_pos hji]
          exact hinv.views.flags hold 0 (Nat.zero_le _) h.zero_notMem
        · rw [if_neg hji]
          exact hinv.views.flags hold j hj (fun hmj => hji (h.owner_unique hm hmj))
      · intro _ hc j hj a ha
        dsimp only
        rw [hview j a ha, hview 0 a ha, if_neg (Ne.symm hi0)]
        by_cases hji : j = i
        · rw [if_pos hji]
        · rw [if_neg hji]
          exact hinv.views.coherent hold hc j hj (fun hmj => hji (h.owner_unique hm hmj)) a ha
  · rw [if_neg hassert] at hs
    cases hs

theorem Inv.reset_modified_from_other_segments {todo : ℕ} (h : Inv NB_SEGMENTS cards s)
    (hi : i ∈ segment_nums NB_SEGMENTS) (hpc : (s.segs i).pc = .resetting todo)
    (hs : C7.reset_modified_from_other_segments s i todo = .next s') :
    Inv NB_SEGMENTS cards s' := by
  cases todo with
  | zero =>
      rw [C7.reset_modified_from_other_segments, Outcome.next.injEq] at hs
      rw [← hs]
      have hrem : remaining (s.segs i) = [] := by
        rw [remaining_of_resetting hpc, List.take_zero]
      refine h.finish hi ?_ (fun o ho => if_neg ho) (fun o ho => .inr (if_pos ho)) ?_ rfl
        (fun _ _ _ _ _ _ => rfl) (fun _ _ _ _ _ => rfl) (fun _ _ => rfl) ?_
      · intro o
        unfold pending
        rw [hpc]
      · intro o hov hc
        have hk := (h.lists i).overflow o hov
        have hobj := h.objs o (by rw [hk]; simp)
        refine hobj.locks.cards_clear hc ?_ ?_
        · intro j hj
          have hold := h.old_of_remaining hj
          rw [hk] at hold
          cases hold
        · -- they were reset when the abort began
          intro j hj
          have hkj := (h.lists j).overflow o hj
          rw [hk, Kind.overflow.injEq] at hkj
          rw [← hkj, hpc]
          exact .inl rfl
      · rw [hrem]
        simp
  | succ todo =>
      rw [C7.reset_modified_from_other_segments] at hs
      cases hobj : (s.segs i).modified_old_objects[todo]? with
      | none =>
          simp only [hobj] at hs
          cases hs
      | some o =>
          simp only [hobj] at hs
          exact h.reset_modified_object hi hpc hobj hs

end

end Stmgc.C7
