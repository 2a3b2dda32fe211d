/-
Major collections keep the invariant of the machine of `Transaction`.

They run with all threads stopped and go through the state in passes, each of
which is followed here: re-sharing the pages, marking, cleaning up the lists of
the segments, sweeping, and restoring the write locks. Between marking and the
sweep the bytes of the visited objects are `WL_VISITED`; the invariant is then
about the locks that they hide.
-/
import Stmgc.C7.TransactionCommit

namespace Stmgc.C7

open Stmgc.Lib

section

variable {NB_SEGMENTS : ℕ} {cards : Bool} {s s' : St} {i obj : ℕ} {m : Memory}

/-! ## Re-sharing the pages -/

/-- `copy_object_to_shared` writes this byte of an object. -/
def is_copied (s : St) (i o a : ℕ) : Prop :=
  o ∈ (s.segs i).large_overflow_objects ∧ in_object s o a
    ∧ is_private_page s.mem i (a / 4096) = true ∧ keeps_page_private s i (a / 4096) = false

/-- The loop of `major_reshare_pages`, with the objects that are done. -/
structure CopiedInv (s : St) (done : ℕ → ℕ → Prop) (m : Memory) : Prop where
  mapping : m.pages_privatized = s.mem.pages_privatized
  own : m.own = s.mem.own
  copied : ∀ i o a, done i o → is_copied s i o a → m.shared a = read s.mem i a
  frame : ∀ a, (∀ i o, done i o → ¬ is_copied s i o a) → m.shared a = s.mem.shared a

/-- An address is one of at most one overflow object. -/
theorem Inv.copied_unique {i' o o' a : ℕ} (h : Inv NB_SEGMENTS cards s) (hc : is_copied s i o a)
    (hc' : is_copied s i' o' a) : i' = i ∧ o' = o := by
  have hk := (h.lists i).overflow o hc.1
  have hk' := (h.lists i').overflow o' hc'.1
  have hoo : o' = o := by
    by_contra hne
    have hdis := h.disjoint (by rw [hk']; simp) (by rw [hk]; simp) hne
    have h1 := hc.2.1
    have h2 := hc'.2.1
    unfold in_object at h1 h2
    omega
  subst hoo
  rw [hk, Kind.overflow.injEq] at hk'
  exact ⟨hk'.symm, rfl⟩

theorem CopiedInv.turn {done : ℕ → ℕ → Prop} (hinv : CopiedInv s done m)
    (h : Inv NB_SEGMENTS cards s) (hov : obj ∈ (s.segs i).large_overflow_objects) :
    CopiedInv s (fun i' o => done i' o ∨ i' = i ∧ o = obj) (copy_object_to_shared s i m obj) := by
  have hpriv : ∀ a, is_private_page m i (a / 4096) = is_private_page s.mem i (a / 4096) := by
    intro a
    unfold is_private_page
    rw [hinv.mapping]
  have hrange : ∀ a, (in_range obj (s.layout obj).size a && is_private_page m i (a / 4096)
      && !keeps_page_private s i (a / 4096)) = true ↔ is_copied s i obj a := by
    intro a
    rw [Bool.and_eq_true, Bool.and_eq_true, in_range_iff, hpriv, Bool.not_eq_true', and_assoc]
    exact ⟨fun hc => ⟨hov, hc⟩, fun hc => hc.2⟩
  have hshared : ∀ a, (copy_object_to_shared s i m obj).shared a =
      if (in_range obj (s.layout obj).size a && is_private_page m i (a / 4096)
        && !keeps_page_private s i (a / 4096)) = true then read m i a else m.shared a := by
    intro a
    simp only [copy_object_to_shared, write_range, is_private_page_zero, Bool.not_false,
      Bool.and_true]
  -- what is copied is the segment's own page
  have hcopy : ∀ a, is_copied s i obj a →
      (copy_object_to_shared s i m obj).shared a = read s.mem i a := by
    intro a hc
    rw [hshared, if_pos ((hrange a).mpr hc), read_of_private (by rw [hpriv]; exact hc.2.2.1),
      read_of_private hc.2.2.1, hinv.own]
  refine ⟨hinv.mapping, ?_, ?_, ?_⟩
  · rw [← hinv.own]
    funext j a
    simp [copy_object_to_shared, write_range, is_private_page_zero]
  · intro i' o a hd hc
    by_cases hco : is_copied s i obj a
    · rw [hcopy a hco, (h.copied_unique hco hc).1]
    · rcases hd with hd | ⟨rfl, rfl⟩
      · rw [hshared, if_neg (fun hr => hco ((hrange a).mp hr))]
        exact hinv.copied i' o a hd hc
      · exact absurd hc hco
  · intro a hn
    rw [hshared, if_neg (fun hr => hn i obj (.inr ⟨rfl, rfl⟩) ((hrange a).mp hr))]
    exact hinv.frame a (fun i' o hd => hn i' o (.inl hd))

theorem CopiedInv.congr {done done' : ℕ → ℕ → Prop} (hinv : CopiedInv s done m)
    (h : ∀ i o, done i o ↔ done' i o) : CopiedInv s done' m where
  mapping := hinv.mapping
  own := hinv.own
  copied i o a hd := hinv.copied i o a ((h i o).mpr hd)
  frame a hn := hinv.frame a (fun i o hd => hn i o ((h i o).mp hd))

/-- The memory after the loop. -/
theorem Inv.copied_to_shared (h : Inv NB_SEGMENTS cards s) :
    CopiedInv s (fun i o => i ∈ segment_nums NB_SEGMENTS ∧ o ∈ (s.segs i).large_overflow_objects)
      ((segment_nums NB_SEGMENTS).foldl (fun m i =>
        (s.segs i).large_overflow_objects.reverse.foldl (copy_object_to_shared s i) m) s.mem) := by
  refine foldl_spec (fun segs m => CopiedInv s
    (fun i o => i ∈ segs ∧ o ∈ (s.segs i).large_overflow_objects) m) ?_ ?_
  · intro segs i m _ hinv
    have hseg : CopiedInv s (fun i' o => (i' ∈ segs ∧ o ∈ (s.segs i').large_overflow_objects)
          ∨ i' = i ∧ o ∈ (s.segs i).large_overflow_objects.reverse)
        ((s.segs i).large_overflow_objects.reverse.foldl (copy_object_to_shared s i) m) := by
      refine foldl_spec (fun objs m => CopiedInv s (fun i' o =>
        (i' ∈ segs ∧ o ∈ (s.segs i').large_overflow_objects) ∨ i' = i ∧ o ∈ objs) m) ?_
        (hinv.congr (by simp))
      intro objs o m ho hinv'
      refine (hinv'.turn h (List.mem_reverse.mp ho)).congr (fun i' o' => ?_)
      rw [List.mem_append, List.mem_singleton, and_or_left, or_assoc]
    · refine hseg.congr (fun i' o => ?_)
      rw [List.mem_append, List.mem_singleton, or_and_right, List.mem_reverse]
      refine or_congr_right ⟨?_, ?_⟩
      · rintro ⟨rfl, ho⟩
        exact ⟨rfl, ho⟩
      · rintro ⟨rfl, ho⟩
        exact ⟨rfl, ho⟩
  · exact ⟨rfl, rfl, by simp, fun _ _ => rfl⟩

/-- The segments are at rest: not in the middle of a barrier or of an abort. -/
def at_rest (s : St) : Prop :=
  ∀ i, (s.segs i).pc.is_resetting = false ∧ ∀ o, pending (s.segs i) o = []

theorem keeps_page_private_iff {p : ℕ} : keeps_page_private s i p = true ↔
    ∃ o ∈ (s.segs i).modified_old_objects, p ∈ object_pages o (s.layout o) := by
  unfold keeps_page_private
  simp

theorem object_page_mem {o a : ℕ} (ha : in_object s o a) :
    a / 4096 ∈ object_pages o (s.layout o) := by
  unfold in_object at ha
  rw [object_pages, List.mem_range'_1]
  omega

/-- The pages that stay private were so before. -/
theorem Inv.private_of_kept {p : ℕ} (h : Inv NB_SEGMENTS cards s) (hrest : at_rest s)
    (hk : keeps_page_private s i p = true) : is_private_page s.mem i p = true := by
  obtain ⟨o, ho, hp⟩ := keeps_page_private_iff.mp hk
  have hm : o ∈ remaining (s.segs i) := by
    rw [remaining_eq (hrest i).1]
    exact ho
  apply (h.objs o (h.kind_ne_free hm)).views.private_pages i hm p hp
  rw [(hrest i).2]
  simp

/-- What segment `j` sees after the pages are re-shared. -/
theorem Inv.read_reshared {j a : ℕ} (h : Inv NB_SEGMENTS cards s) (hrest : at_rest s) :
    read (major_reshare_pages NB_SEGMENTS s).mem j a =
      if keeps_page_private s j (a / 4096) = true then read s.mem j a
      else read (major_reshare_pages NB_SEGMENTS s).mem 0 a := by
  have hown := h.copied_to_shared.own
  have hpriv : is_private_page (major_reshare_pages NB_SEGMENTS s).mem j (a / 4096)
      = (j != 0 && keeps_page_private s j (a / 4096)) := rfl
  by_cases hk : keeps_page_private s j (a / 4096) = true
  · have hp := h.private_of_kept hrest hk
    have hj : j ≠ 0 := by
      rintro rfl
      cases hp
    rw [if_pos hk, read_of_private hp]
    rw [read_of_private (by rw [hpriv, hk]; simpa using hj)]
    exact congrFun (congrFun hown j) a
  · rw [if_neg hk]
    rw [read_of_shared (by rw [hpriv]; simp [hk])]
    rfl

/-- What is in the shared pages then. -/
theorem Inv.read_zero_reshared {o a : ℕ} (h : Inv NB_SEGMENTS cards s) (ho : s.kind o ≠ .free)
    (ha : in_object s o a) :
    read (major_reshare_pages NB_SEGMENTS s).mem 0 a = read s.mem 0 a ∨
      ∃ i, is_copied s i o a ∧
        read (major_reshare_pages NB_SEGMENTS s).mem 0 a = read s.mem i a := by
  have hcopied := h.copied_to_shared
  by_cases hc : ∃ i o', (i ∈ segment_nums NB_SEGMENTS ∧
      o' ∈ (s.segs i).large_overflow_objects) ∧ is_copied s i o' a
  · obtain ⟨i, o', hd, hc⟩ := hc
    have hk' := (h.lists i).overflow o' hc.1
    have hoo : o' = o := by
      by_contra hne
      have hdis := h.disjoint (by rw [hk']; simp) ho hne
      have h1 := hc.2.1
      unfold in_object at h1 ha
      omega
    subst hoo
    exact .inr ⟨i, hc, hcopied.copied i o' a hd hc⟩
  · left
    apply hcopied.frame
    exact fun i o' hd hc' => hc ⟨i, o', hd, hc'⟩

/-- A segment still sees its own objects as before. -/
theorem Inv.read_own_reshared {a : ℕ} (h : Inv NB_SEGMENTS cards s) (hrest : at_rest s)
    (hobj : obj ∈ remaining (s.segs i) ∨ obj ∈ (s.segs i).large_overflow_objects)
    (ha : in_object s obj a) :
    read (major_reshare_pages NB_SEGMENTS s).mem i a = read s.mem i a := by
  rw [h.read_reshared hrest]
  by_cases hk : keeps_page_private s i (a / 4096) = true
  · rw [if_pos hk]
  · rw [if_neg hk]
    rcases hobj with hm | hov
    · -- all pages of a modified object are kept
      refine absurd (keeps_page_private_iff.mpr ⟨obj, mem_of_remaining hm, ?_⟩) hk
      exact object_page_mem ha
    · have hko := (h.lists i).overflow obj hov
      rcases h.read_zero_reshared (by rw [hko]; simp) ha with h0 | ⟨i', hc, hread⟩
      · rw [h0]
        by_cases hp : is_private_page s.mem i (a / 4096) = true
        · -- the byte was copied
          rw [← h0]
          have hin : i ∈ segment_nums NB_SEGMENTS := by
            by_contra hn
            rw [h.absent i hn] at hov
            simp [Segment.initial] at hov
          exact h.copied_to_shared.copied i obj a ⟨hin, hov⟩
            ⟨hov, ha, hp, Bool.not_eq_true _ ▸ hk⟩
        · exact (read_of_shared (Bool.not_eq_true _ ▸ hp)).symm
      · have hk' := (h.lists i').overflow obj hc.1
        rw [hko, Kind.overflow.injEq] at hk'
        rw [hread, hk']

/-- The invariant about the locks, when they and the lists are the same. -/
theorem LockInv.of_flags {o : ℕ} (h : LockInv s o) (hlayout : s'.layout o = s.layout o)
    (hlocks : ∀ x, lock_of o (s.layout o) x → s'.write_locks x = s.write_locks x)
    (hsegs : s'.segs = s.segs)
    (hflag : ∀ i, o ∈ remaining (s.segs i) ∨ o ∈ (s.segs i).large_overflow_objects →
      has_flag s'.mem i o GCFLAG_CARDS_SET = has_flag s.mem i o GCFLAG_CARDS_SET) :
    LockInv s' o where
  owner i hi := by
    rw [hlocks _ (lock_of_base o _)]
    rw [hsegs] at hi
    exact h.owner i hi
  free hn := by
    rw [hlocks _ (lock_of_base o _)]
    rw [hsegs] at hn
    exact h.free hn
  cards_clear hc hn hov := by
    rw [hlayout] at hc ⊢
    rw [hsegs] at hn hov
    intro c hcm
    rw [hlocks _ (lock_of_card hc hcm)]
    refine h.cards_clear hc hn (fun i hi => ?_) c hcm
    rw [← hflag i (.inr hi)]
    exact hov i hi
  listed i hi hf := by
    rw [hsegs] at hi ⊢
    rw [hflag i (.inr hi)] at hf
    exact h.listed i hi hf
  uses i hi hf := by
    rw [hsegs] at hi
    rw [hflag i hi] at hf
    rw [hlayout]
    exact h.uses i hi hf
  overflow_cards i hi hc c hcm := by
    rw [hsegs] at hi
    rw [hlayout] at hc hcm
    rw [hlocks _ (lock_of_card hc hcm)]
    exact h.overflow_cards i hi hc c hcm

theorem Inv.major_reshare_pages (h : Inv NB_SEGMENTS cards s) (hrest : at_rest s) :
    Inv NB_SEGMENTS cards (C7.major_reshare_pages NB_SEGMENTS s) := by
  refine ⟨h.apart, h.locks_used, h.absent, h.lists, fun o ho => ?_⟩
  have hobj := h.objs o ho
  have hown : ∀ i, o ∈ remaining (s.segs i) ∨ o ∈ (s.segs i).large_overflow_objects →
      ∀ a, in_object s o a → read (C7.major_reshare_pages NB_SEGMENTS s).mem i a
        = read s.mem i a := fun i hi a ha => h.read_own_reshared hrest hi ha
  -- the shared bytes of an old object do not change
  have hzero : s.kind o = .old → ∀ a, in_object s o a →
      read (C7.major_reshare_pages NB_SEGMENTS s).mem 0 a = read s.mem 0 a := by
    intro hold a ha
    refine (h.read_zero_reshared ho ha).resolve_right ?_
    rintro ⟨i, hc, -⟩
    have hk := (h.lists i).overflow o hc.1
    rw [hold] at hk
    cases hk
  have hflags : s.kind o = .old → ∀ j ≤ NB_SEGMENTS, o ∉ remaining (s.segs j) →
      clean_flags (read (C7.major_reshare_pages NB_SEGMENTS s).mem j o) := by
    intro hold j hj hn
    rw [h.read_reshared hrest, hzero hold o (in_object_self s o)]
    by_cases hk : keeps_page_private s j (o / 4096) = true
    · rw [if_pos hk]
      exact hobj.views.flags hold j hj hn
    · rw [if_neg hk]
      exact hobj.views.flags hold 0 (Nat.zero_le _) h.zero_notMem
  refine ⟨?_, ⟨?_, hflags, ?_, ?_⟩, ?_⟩
  · refine hobj.locks.of_flags rfl (fun _ _ => rfl) rfl (fun i hi => ?_)
    rw [has_flag, hown i hi o (in_object_self s o), has_flag]
  · intro i hi p hp _
    have hi0 := h.ne_zero hi
    have hk : keeps_page_private s i p = true :=
      keeps_page_private_iff.mpr ⟨o, mem_of_remaining hi, hp⟩
    show (i != 0 && keeps_page_private s i p) = true
    rw [hk]
    simpa using hi0
  · intro hold hc j hj hn a ha
    rw [h.read_reshared hrest, hzero hold a ha]
    by_cases hk : keeps_page_private s j (a / 4096) = true
    · rw [if_pos hk]
      exact hobj.views.coherent hold hc j hj hn a ha
    · rw [if_neg hk]
  · intro i hpc hi
    obtain ⟨hclean, hall⟩ := hobj.views.pushed i hpc hi
    refine ⟨?_, fun j hj a ha => ?_⟩
    · rw [hown i (.inr hi) o (in_object_self s o)]
      exact hclean
    · rw [hown i (.inr hi) a ha, h.read_reshared hrest]
      by_cases hk : keeps_page_private s j (a / 4096) = true
      · rw [if_pos hk]
        exact hall j hj a ha
      · rw [if_neg hk]
        rcases h.read_zero_reshared ho ha with h0 | ⟨i', hc, hread⟩
        · rw [h0]
          exact hall 0 (Nat.zero_le _) a ha
        · have hko := (h.lists i).overflow o hi
          have hk' := (h.lists i').overflow o hc.1
          rw [hko, Kind.overflow.injEq] at hk'
          rw [hread, hk']
  · intro hc hcards i hi
    have hmark := hobj.marks hc hcards i hi
    have hold := h.old_of_remaining hi
    have hmine := hown i (.inl hi)
    refine ⟨?_, ?_⟩
    · rw [hmine o (in_object_self s o), hzero hold o (in_object_self s o)]
      exact hmark.flags
    · refine hmark.marked.imp_right (Or.imp_right (fun hd => ⟨?_, fun a ha hao hne => ?_⟩))
      · rw [has_flag, hmine o (in_object_self s o)]
        exact hd.1
      · rw [hmine a ha, hzero hold a ha] at hne
        exact hd.2 a ha hao hne

/-! ## Marking -/

theorem mark_visited_eq {wl : ℕ → ℕ} {visited : List ℕ} {x : ℕ} : mark_visited wl visited x =
    if ∃ o ∈ visited, x = get_write_lock_idx o then WL_VISITED else wl x := by
  unfold mark_visited
  induction visited generalizing wl with
  | nil => simp
  | cons o visited ih =>
      rw [List.foldl_cons, ih]
      by_cases hin : ∃ o' ∈ visited, x = get_write_lock_idx o'
      · rw [if_pos hin, if_pos]
        obtain ⟨o', ho', hx⟩ := hin
        exact ⟨o', List.mem_cons_of_mem _ ho', hx⟩
      · rw [if_neg hin]
        by_cases hx : x = get_write_lock_idx o
        · rw [hx, Function.update_self, if_pos ⟨o, by simp, rfl⟩]
        · rw [Function.update_of_ne hx, if_neg]
          rintro ⟨o', ho', hxo⟩
          rcases List.mem_cons.mp ho' with rfl | ho'
          · exact hx hxo
          · exact hin ⟨o', ho', hxo⟩

/-- The card bytes of an object are not those which marking changes. -/
theorem Inv.card_not_marked {visited : List ℕ} {c : ℕ} (h : Inv NB_SEGMENTS cards s)
    (hvisited : ∀ o ∈ visited, s.kind o ≠ .free) (ho : s.kind obj ≠ .free)
    (hcards : obj_should_use_cards (s.layout obj) = true) (hc : c ∈ card_indices (s.layout obj)) :
    ¬ ∃ o ∈ visited, get_write_lock_idx obj + c = get_write_lock_idx o := by
  rintro ⟨o, hv, heq⟩
  by_cases hoo : obj = o
  · rw [hoo] at heq
    exact card_ne_base hc (hoo ▸ heq)
  · refine lock_of_apart (h.disjoint ho (hvisited o hv) hoo) (lock_of_card hcards hc) ?_
    rw [heq]
    exact lock_of_base _ _

/-- Marking and resetting the cards of an object commute. -/
theorem Inv.reset_cards_marked {wl : ℕ → ℕ} {visited : List ℕ} {mark_value : ℕ}
    (h : Inv NB_SEGMENTS cards s) (hvisited : ∀ o ∈ visited, s.kind o ≠ .free)
    (ho : s.kind obj ≠ .free) (hcards : obj_should_use_cards (s.layout obj) = true) :
    reset_object_cards (mark_visited wl visited) obj (s.layout obj) mark_value false
      = mark_visited (reset_object_cards wl obj (s.layout obj) mark_value false) visited := by
  funext x
  rw [mark_visited_eq, reset_object_cards, map_cards_eq, reset_object_cards, map_cards_eq,
    mark_visited_eq]
  by_cases hx : ∃ c ∈ card_indices (s.layout obj), x = get_write_lock_idx obj + c
  · have hn : ¬ ∃ o ∈ visited, x = get_write_lock_idx o := by
      obtain ⟨c, hc, rfl⟩ := hx
      exact h.card_not_marked hvisited ho hcards hc
    rw [if_pos hx, if_neg hn, if_neg hn, if_pos hx]
  · rw [if_neg hx, if_neg hx]

/-! ## `clean_up_segment_lists` -/

/-- An item of `objects_pointing_to_nursery` gets its write barrier back. -/
theorem Inv.clean_up_object {e : ℕ × Bool} {m : Memory} (h : Inv NB_SEGMENTS cards s)
    (hi : i ∈ segment_nums NB_SEGMENTS) (hrest : at_rest s)
    (he : e ∈ (s.segs i).objects_pointing_to_nursery.getD [])
    (hs : C7.clean_up_object i s.mem e = some m) : Inv NB_SEGMENTS cards { s with mem := m } := by
  have hl := h.lists i
  unfold C7.clean_up_object at hs
  simp only [c_assert, Option.bind_eq_bind, Option.pure_def] at hs
  by_cases hwb : has_flag s.mem i e.1 GCFLAG_WRITE_BARRIER = false
  · rw [if_pos hwb, Option.bind_some] at hs
    by_cases hcs : has_flag s.mem i e.1 GCFLAG_CARDS_SET = false
    · rw [if_pos hcs, Option.bind_some, Option.some.injEq] at hs
      rw [← hs]
      rcases hl.pointing (hrest i).1 e he with ⟨-, hm | hov⟩ | ⟨-, hk, hn⟩
      · refine h.set_write_barrier hi ?_ ((hrest i).2 e.1)
        rw [remaining_eq (hrest i).1]
        exact hm
      · have hk := hl.overflow e.1 hov
        -- once pushed, an object has its write barrier
        have hpc : (s.segs i).pc ≠ .pushed := by
          intro hpc
          have hseen := (h.objs e.1 (by rw [hk]; simp)).views.pushed i hpc hov
          have hset := (clean_flags_read.mp hseen.1).1
          rw [hwb] at hset
          cases hset
        refine h.write_new_object hi (.inl hk) ⟨(hrest i).1, hpc⟩ (writesOnly_set_flags _ _) ?_
        rw [read_set_flags, (or_write_barrier _).2.2]
      · have hkf : s.kind e.1 ≠ .free := by
          rw [hk]
          simp
        have hunlisted := h.notMem_of_overflow hk hn
        have hlocks := (h.objs e.1 hkf).locks
        refine h.touch hi hkf rfl rfl (fun _ _ => rfl) (writesOnly_set_flags _ _) (fun _ _ => rfl)
          (fun _ _ => SameLists.refl _ _) hl ?_
        exact ObjInv.of_unlisted (fun j => (hunlisted j).1) (fun j => (hunlisted j).2)
          (hlocks.free (fun j => (hunlisted j).1))
          (fun hc => hlocks.cards_clear hc (fun j => (hunlisted j).1)
            (fun j hj => absurd hj (hunlisted j).2))
          (fun hold => absurd (hold.symm.trans hk) (by simp))
          (fun hold => absurd (hold.symm.trans hk) (by simp))
    · rw [if_neg hcs] at hs
      cases hs
  · rw [if_neg hwb] at hs
    cases hs

/-- An item of `old_objects_with_cards`: its flag is cleared, and its marked
cards are old now, or clear. -/
theorem Inv.clean_up_cards {visited : List ℕ} {wl wl' : ℕ → ℕ} {m : Memory}
    (h : Inv NB_SEGMENTS cards { s with write_locks := wl }) (hi : i ∈ segment_nums NB_SEGMENTS)
    (hrest : at_rest s) (hvisited : ∀ o ∈ visited, s.kind o ≠ .free)
    (hobj : obj ∈ (s.segs i).old_objects_with_cards)
    (hs : C7.clean_up_cards s i (s.mem, mark_visited wl visited) obj = some (m, wl')) :
    ∃ wl₁, wl' = mark_visited wl₁ visited ∧ has_flag m i obj GCFLAG_CARDS_SET = false
      ∧ (∀ a, a ≠ obj → read m i a = read s.mem i a)
      ∧ Inv NB_SEGMENTS cards { s with mem := m, write_locks := wl₁ } := by
  have hl := h.lists i
  have hlist := hl.cards (hrest i).1 obj hobj
  have hkf : s.kind obj ≠ .free := by
    rcases hlist with hm | hov
    · have hold : s.kind obj = .old := hl.modified obj hm
      rw [hold]
      decide
    · have hk : s.kind obj = .overflow i := hl.overflow obj hov
      rw [hk]
      simp
  unfold C7.clean_up_cards at hs
  simp only [c_assert, Option.bind_eq_bind, Option.pure_def] at hs
  by_cases hset : has_flag s.mem i obj GCFLAG_CARDS_SET = true
  · rw [if_pos hset, Option.bind_some] at hs
    by_cases hwb : has_flag s.mem i obj GCFLAG_WRITE_BARRIER = true
    · rw [if_pos hwb, Option.bind_some, Option.some.injEq, Prod.mk.injEq] at hs
      obtain ⟨hm, hwl⟩ := hs
      have huses : obj_should_use_cards (s.layout obj) = true := by
        refine (h.objs obj hkf).locks.uses i (hlist.imp_left (fun hmo => ?_)) hset
        rw [remaining_eq (hrest i).1]
        exact hmo
      rw [h.reset_cards_marked hvisited hkf huses] at hwl
      refine ⟨_, hwl.symm, ?_, ?_, ?_⟩
      · rw [← hm]
        exact not_cards_set_of_clear
      · intro a ha
        rw [← hm]
        exact read_clear_flags_of_ne _ ha
      · rw [← hm]
        refine h.map_cards hi (hrest i).1 (hrest i).2 (hlist.imp_right (fun hov => ⟨hov, ?_⟩))
          hset hwb (writesOnly_clear_flags _ _) (read_clear_flags _) ?_ ?_ ?_
        · intro hpc
          have hk : s.kind obj = .overflow i := hl.overflow obj hov
          have hseen := (h.objs obj hkf).views.pushed i hpc hov
          have hnset := (clean_flags_read.mp hseen.1).2
          dsimp only at hnset
          rw [hset] at hnset
          cases hnset
        · intro a ha hne
          exact absurd (read_clear_flags_of_ne _ ha) hne
        · intro hov
          refine ⟨if_neg (by simp), ?_⟩
          rw [if_pos (.inr (by decide))]
          exact if_pos hov
        · intro hmo v hv
          rw [if_pos (.inr hv), if_neg]
          · decide
          · intro hov
            have hk : s.kind obj = .overflow i := hl.overflow obj hov
            have hold : s.kind obj = .old := hl.modified obj hmo
            rw [hold] at hk
            cases hk
    · rw [if_neg hwb] at hs
      cases hs
  · rw [if_neg hset] at hs
    cases hs

/-- Overflow objects are dropped from the list of a segment, when none has its
cards set. -/
theorem Inv.filter_overflow {p : ℕ → Bool} (h : Inv NB_SEGMENTS cards s)
    (hi : i ∈ segment_nums NB_SEGMENTS) (hcards : (s.segs i).old_objects_with_cards = [])
    (hopn : (s.segs i).objects_pointing_to_nursery.getD [] = []) :
    Inv NB_SEGMENTS cards (s.set i { s.segs i with
      large_overflow_objects := (s.segs i).large_overflow_objects.filter p }) := by
  have hl := h.lists i
  have hseg : ∀ {o j : ℕ}, o ∈ ((s.set i { s.segs i with
      large_overflow_objects := (s.segs i).large_overflow_objects.filter p }).segs
        j).large_overflow_objects → o ∈ (s.segs j).large_overflow_objects ∧ (j = i → p o = true) := by
    intro o j hj
    by_cases hji : j = i
    · rw [hji, set_segs_self, List.mem_filter] at hj
      rw [hji]
      exact ⟨hj.1, fun _ => hj.2⟩
    · rw [set_segs_of_ne _ hji] at hj
      exact ⟨hj, fun heq => absurd heq hji⟩
  have hrem : ∀ j, remaining ((s.set i { s.segs i with
      large_overflow_objects := (s.segs i).large_overflow_objects.filter p }).segs j)
        = remaining (s.segs j) := by
    intro j
    by_cases hji : j = i
    · rw [hji, set_segs_self]
      rfl
    · rw [set_segs_of_ne _ hji]
  refine ⟨h.apart, h.locks_used, ?_, ?_, ?_⟩
  · intro j hj
    have hji : j ≠ i := fun hji => hj (hji ▸ hi)
    exact (set_segs_of_ne _ hji).trans (h.absent j hj)
  · intro j
    by_cases hj : j = i
    · rw [hj, set_segs_self]
      refine { hl with overflow := ?_, pointing := ?_, cards := ?_ }
      · exact fun o ho => hl.overflow o (List.mem_of_mem_filter ho)
      · intro _ e he
        dsimp only at he
        rw [hopn] at he
        simp at he
      · intro _ o ho
        dsimp only at ho
        rw [hcards] at ho
        simp at ho
    · rw [set_segs_of_ne _ hj]
      exact h.lists j
  · intro o ho
    have hobj := h.objs o ho
    by_cases hov : o ∈ (s.segs i).large_overflow_objects
    · by_cases hp : p o = true
      · refine hobj.same ⟨rfl, rfl, fun _ _ _ => rfl, fun _ _ _ _ hp => hp, fun _ _ => rfl, ?_⟩
        intro j
        by_cases hj : j = i
        · rw [hj, set_segs_self]
          refine ⟨Iff.rfl, rfl, ?_, fun _ hc => hc, fun _ hw => hw, fun _ hpc => hpc,
            fun _ hr => hr⟩
          rw [List.mem_filter]
          exact ⟨fun hor => hor.1, fun hor => ⟨hor, hp⟩⟩
        · rw [set_segs_of_ne _ hj]
          exact SameLists.refl _ _
      · -- a dropped one is in no list any more
        have hk := hl.overflow o hov
        have hnrem : ∀ j, o ∉ remaining (s.segs j) := by
          intro j hj
          have hold := h.old_of_remaining hj
          rw [hk] at hold
          cases hold
        have hmine : ∀ j, o ∈ (s.segs j).large_overflow_objects → j = i := by
          intro j hj
          have hkj := (h.lists j).overflow o hj
          rw [hk, Kind.overflow.injEq] at hkj
          exact hkj.symm
        refine ObjInv.of_unlisted (fun j hj => hnrem j (hrem j ▸ hj)) ?_
          (hobj.locks.free hnrem) ?_ (fun hold => absurd (hold.symm.trans hk) (by simp))
          (fun hold => absurd (hold.symm.trans hk) (by simp))
        · intro j hj
          obtain ⟨hoj, hpj⟩ := hseg hj
          exact hp (hpj (hmine j hoj))
        · intro hc
          refine h.cards_clear_of_overflow hov hc ?_
          by_contra hf
          have hlisted := hobj.locks.listed i hov (Bool.not_eq_false _ ▸ hf)
          rw [hcards] at hlisted
          simp at hlisted
    · refine hobj.same ⟨rfl, rfl, fun _ _ _ => rfl, fun _ _ _ _ hp => hp, fun _ _ => rfl, ?_⟩
      intro j
      by_cases hj : j = i
      · rw [hj, set_segs_self]
        refine ⟨Iff.rfl, rfl, ?_, fun ho => absurd ho hov, fun _ hw => hw, fun ho => absurd ho hov,
          fun ho => absurd ho hov⟩
        rw [List.mem_filter]
        exact ⟨fun hor => hor.1, fun hor => absurd hor hov⟩
      · rw [set_segs_of_ne _ hj]
        exact SameLists.refl _ _

/-- Between marking and the sweep, with the segments that are cleaned up. -/
structure MarkedInv (NB_SEGMENTS : ℕ) (cards : Bool) (visited done : List ℕ) (s : St) : Prop where
  rest : at_rest s
  visited_objs : ∀ o ∈ visited, s.kind o ≠ .free
  young : ∀ i, (s.segs i).young_outside_nursery = []
  modified : ∀ i, ∀ o ∈ (s.segs i).modified_old_objects, o ∈ visited
  hidden : ∃ wl, s.write_locks = mark_visited wl visited
    ∧ Inv NB_SEGMENTS cards { s with write_locks := wl }
  cleaned : ∀ i ∈ done, (s.segs i).objects_pointing_to_nursery.getD [] = []
    ∧ ∀ o ∈ (s.segs i).large_overflow_objects, o ∈ visited

theorem set_set (seg seg' : Segment) : (s.set i seg).set i seg' = s.set i seg' := by
  simp [St.set]

theorem Inv.lock_of_overflow (h : Inv NB_SEGMENTS cards s)
    (hov : obj ∈ (s.segs i).large_overflow_objects) :
    s.write_locks (get_write_lock_idx obj) = 0 := by
  have hk := (h.lists i).overflow obj hov
  apply (h.objs obj (by rw [hk]; simp)).locks.free
  intro j hj
  have hold := h.old_of_remaining hj
  rw [hk] at hold
  cases hold

/-- An overflow object with the lock `WL_VISITED` is visited. -/
theorem Inv.visited_of_lock {visited : List ℕ} (h : Inv NB_SEGMENTS cards s)
    (hvisited : ∀ o ∈ visited, s.kind o ≠ .free) (ho : s.kind obj ≠ .free)
    (hlock : s.write_locks (get_write_lock_idx obj) ≠ WL_VISITED)
    (hmark : mark_visited s.write_locks visited (get_write_lock_idx obj) = WL_VISITED) :
    obj ∈ visited := by
  rw [mark_visited_eq] at hmark
  by_cases hin : ∃ o ∈ visited, get_write_lock_idx obj = get_write_lock_idx o
  · obtain ⟨o, hv, heq⟩ := hin
    by_contra hn
    have hne : obj ≠ o := by
      rintro rfl
      exact hn hv
    refine lock_of_apart (h.disjoint ho (hvisited o hv) hne) (lock_of_base _ _) ?_
    rw [heq]
    exact lock_of_base _ _
  · rw [if_neg hin] at hmark
    exact absurd hmark hlock

/-- `clean_up_segment_lists`, one segment. -/
theorem MarkedInv.clean_up_segment {visited done : List ℕ}
    (h : MarkedInv NB_SEGMENTS cards visited done s) (hi : i ∈ segment_nums NB_SEGMENTS)
    (hs : C7.clean_up_segment s i = some s') :
    MarkedInv NB_SEGMENTS cards visited (done ++ [i]) s' := by
  obtain ⟨wl, hwl, hinv⟩ := h.hidden
  unfold C7.clean_up_segment at hs
  simp only [Option.bind_eq_bind, Option.pure_def, Option.bind_eq_some_iff,
    Option.some.injEq] at hs
  obtain ⟨m₁, hfold₁, ⟨m₂, wl₂⟩, hfold₂, hs⟩ := hs
  -- first objects_pointing_to_nursery
  have hinv₁ : Inv NB_SEGMENTS cards { s with mem := m₁, write_locks := wl } := by
    refine foldlM_some (fun _ m => Inv NB_SEGMENTS cards { s with mem := m, write_locks := wl })
      ?_ hinv hfold₁
    intro done e todo m m' hlst hm hturn
    refine hm.clean_up_object hi h.rest ?_ hturn
    show e ∈ (s.segs i).objects_pointing_to_nursery.getD []
    rw [← List.mem_reverse, hlst]
    simp
  -- then old_objects_with_cards
  have hinv₂ : ∃ wl', wl₂ = mark_visited wl' visited
      ∧ (∀ o ∈ (s.segs i).old_objects_with_cards.reverse,
        has_flag m₂ i o GCFLAG_CARDS_SET = false)
      ∧ Inv NB_SEGMENTS cards { s with mem := m₂, write_locks := wl' } := by
    refine foldlM_some (fun done ml => ∃ wl', ml.2 = mark_visited wl' visited
      ∧ (∀ o ∈ done, has_flag ml.1 i o GCFLAG_CARDS_SET = false)
      ∧ Inv NB_SEGMENTS cards { s with mem := ml.1, write_locks := wl' }) ?_ ?_ hfold₂
    · rintro done o todo ⟨m, wlm⟩ ⟨m', wlm'⟩ hlst ⟨wl', hwl', hflags, hm⟩ hturn
      dsimp only at hwl' hflags hm ⊢
      rw [hwl'] at hturn
      have hmem : o ∈ (s.segs i).old_objects_with_cards := by
        rw [← List.mem_reverse, hlst]
        simp
      obtain ⟨wl'', hwl'', hflag, hother, hm'⟩ :=
        Inv.clean_up_cards (s := { s with mem := m, write_locks := wl' }) hm hi h.rest
          h.visited_objs hmem hturn
      refine ⟨wl'', hwl'', ?_, hm'⟩
      intro o' ho'
      by_cases hoo : o' = o
      · rw [hoo]
        exact hflag
      · rw [List.mem_append, List.mem_singleton] at ho'
        rw [has_flag, hother o' hoo]
        exact hflags o' (ho'.resolve_right hoo)
    · exact ⟨wl, hwl, by simp, hinv₁⟩
  obtain ⟨wl', hwl', hflags, hinv₂⟩ := hinv₂
  have hl := hinv₂.lists i
  have hr := (h.rest i).1
  -- the lists are empty now
  have hstep : SegmentStep NB_SEGMENTS { s with mem := m₂, write_locks := wl' } i { s.segs i with
      objects_pointing_to_nursery := (s.segs i).objects_pointing_to_nursery.map (fun _ => [])
      old_objects_with_cards := [] } :=
    SegmentStep.of_lists hr hr (h.rest i).2 rfl rfl
      (fun o ho => .inr (hflags o (List.mem_reverse.mpr ho))) rfl (fun hp => hp)
  have hopn : ((s.segs i).objects_pointing_to_nursery.map (fun _ => ([] : List (ℕ × Bool)))).getD []
      = [] := by
    cases (s.segs i).objects_pointing_to_nursery <;> rfl
  have hemptied := hinv₂.set_seg hi hstep
    { hl with
      pointing := by
        intro _ e he
        dsimp only at he
        rw [hopn] at he
        simp at he
      moved := by
        dsimp only
        rw [hopn]
        simp
      cards := by
        intro _ o ho
        simp at ho }
  have hfiltered := hemptied.filter_overflow
    (p := fun o => wl₂ (get_write_lock_idx o) == WL_VISITED) hi
    (by rw [set_segs_self]) (by rw [set_segs_self]; exact hopn)
  rw [set_segs_self, set_set] at hfiltered
  subst hs
  have hseg : ∀ j, ((s.set i { s.segs i with
      objects_pointing_to_nursery := (s.segs i).objects_pointing_to_nursery.map (fun _ => [])
      old_objects_with_cards := []
      large_overflow_objects := (s.segs i).large_overflow_objects.filter
        (fun o => wl₂ (get_write_lock_idx o) == WL_VISITED) }).segs j = s.segs j ∧ j ≠ i) ∨ j = i := by
    intro j
    by_cases hj : j = i
    · exact .inr hj
    · exact .inl ⟨set_segs_of_ne _ hj, hj⟩
  refine ⟨?_, h.visited_objs, ?_, ?_, ⟨wl', hwl', hfiltered⟩, ?_⟩
  · intro j
    rcases hseg j with ⟨heq, -⟩ | rfl
    · dsimp only
      rw [heq]
      exact h.rest j
    · dsimp only
      rw [set_segs_self]
      exact h.rest j
  · intro j
    rcases hseg j with ⟨heq, -⟩ | rfl
    · dsimp only
      rw [heq]
      exact h.young j
    · dsimp only
      rw [set_segs_self]
      exact h.young j
  · intro j
    rcases hseg j with ⟨heq, -⟩ | rfl
    · dsimp only
      rw [heq]
      exact h.modified j
    · dsimp only
      rw [set_segs_self]
      exact h.modified j
  · intro j hj
    rcases hseg j with ⟨heq, hne⟩ | rfl
    · dsimp only
      rw [heq]
      rw [List.mem_append, List.mem_singleton] at hj
      exact h.cleaned j (hj.resolve_right hne)
    · dsimp only
      rw [set_segs_self]
      refine ⟨hopn, fun o ho => ?_⟩
      rw [List.mem_filter, beq_iff_eq, hwl'] at ho
      have hk : s.kind o = .overflow j := hl.overflow o ho.1
      refine hinv₂.visited_of_lock h.visited_objs ?_ ?_ ho.2
      · dsimp only
        rw [hk]
        simp
      · rw [hinv₂.lock_of_overflow ho.1]
        decide

/-! ## The sweep and the write locks -/

/-- The objects that are not visited are freed, once no segment has one in its
lists. -/
theorem Inv.free_unvisited (visited : List ℕ) {kind : ℕ → Kind} (h : Inv NB_SEGMENTS cards s)
    (hfreed : ∀ o, kind o = s.kind o ∨ kind o = .free)
    (hkept : ∀ o ∈ visited, kind o = s.kind o)
    (hyoung : ∀ i, (s.segs i).young_outside_nursery = [])
    (hmod : ∀ i, ∀ o ∈ (s.segs i).modified_old_objects, o ∈ visited)
    (hopn : ∀ i, (s.segs i).objects_pointing_to_nursery.getD [] = [])
    (hov : ∀ i, ∀ o ∈ (s.segs i).large_overflow_objects, o ∈ visited) :
    Inv NB_SEGMENTS cards { s with kind := kind } := by
  have hkind : ∀ o, kind o ≠ .free → kind o = s.kind o := fun o ho => (hfreed o).resolve_right ho
  have hfree : ∀ o, kind o ≠ .free → s.kind o ≠ .free := by
    intro o ho
    rw [← hkind o ho]
    exact ho
  refine ⟨?_, ?_, h.absent, ?_, ?_⟩
  · exact fun o o' ho ho' hlt => h.apart o o' (hfree o ho) (hfree o' ho') hlt
  · intro x hx
    obtain ⟨o, ho, hxo⟩ := h.locks_used x hx
    refine ⟨o, fun hf => hx ?_, hxo⟩
    have hn : o ∉ visited := by
      intro hv
      rw [← hkept o hv] at ho
      exact ho hf
    refine h.locks_eq_zero ho (fun j hj => hn ?_) (fun j hj => hn (hov j o hj)) hxo
    exact hmod j o (mem_of_remaining hj)
  · intro i
    have hl := h.lists i
    refine { hl with modified := ?_, overflow := ?_, young := ?_, pointing := ?_ }
    · exact fun o ho => (hkept o (hmod i o ho)).trans (hl.modified o ho)
    · exact fun o ho => (hkept o (hov i o ho)).trans (hl.overflow o ho)
    · rw [hyoung i]
      simp
    · rw [hopn i]
      simp
  · intro o ho
    exact (h.objs o (hfree o ho)).same ⟨hkind o ho, rfl, fun _ _ _ => rfl, fun _ _ _ _ hp => hp,
      fun _ _ => rfl, fun _ => SameLists.refl _ _⟩

/-- The lock byte of a visited object is one of those which the sweep resets. -/
theorem any_nonfree_iff {kind : ℕ → Kind} {x : ℕ} :
    (List.range' (x * 16) 16).any (fun o => kind o ≠ .free) = true ↔
      ∃ o, kind o ≠ .free ∧ x = get_write_lock_idx o := by
  rw [List.any_eq_true]
  unfold get_write_lock_idx
  constructor
  · rintro ⟨o, ho, hk⟩
    rw [List.mem_range'_1] at ho
    exact ⟨o, of_decide_eq_true hk, by omega⟩
  · rintro ⟨o, hk, rfl⟩
    refine ⟨o, ?_, decide_eq_true hk⟩
    rw [List.mem_range'_1]
    omega

/-- After the sweep the locks of the visited objects are zero, and the others
are as they were before marking. -/
theorem MarkedInv.swept_locks {visited done : List ℕ} {wl : ℕ → ℕ}
    (h : MarkedInv NB_SEGMENTS cards visited done s)
    (hwl : s.write_locks = mark_visited wl visited)
    (hinv : Inv NB_SEGMENTS cards { s with write_locks := wl }) (x : ℕ) :
    (sweep_large_objects s).write_locks x =
      if ∃ o ∈ visited, x = get_write_lock_idx o then 0 else wl x := by
  show (if s.write_locks x = WL_VISITED ∧ _ then 0 else s.write_locks x) = _
  have hx : s.write_locks x = if ∃ o ∈ visited, x = get_write_lock_idx o then WL_VISITED
      else wl x := by
    rw [hwl, mark_visited_eq]
  by_cases hv : ∃ o ∈ visited, x = get_write_lock_idx o
  · rw [if_pos hv] at hx ⊢
    obtain ⟨o, ho, hxo⟩ := hv
    exact if_pos ⟨hx, any_nonfree_iff.mpr ⟨o, h.visited_objs o ho, hxo⟩⟩
  · rw [if_neg hv] at hx ⊢
    rw [hx]
    apply if_neg
    rintro ⟨hval, hany⟩
    obtain ⟨o, ho, rfl⟩ := any_nonfree_iff.mp hany
    -- an object that is not visited is not modified, so that its lock was zero
    have hfree := (hinv.objs o ho).locks.free (fun i hi => hv ⟨o, ?_, rfl⟩)
    · dsimp only at hfree
      rw [hval] at hfree
      cases hfree
    · exact h.modified i o (mem_of_remaining hi)

/-- The loop of `major_restore_write_locks`, with the objects that are done. -/
def RestoreInv (wl swept : ℕ → ℕ) (done : ℕ → Prop) (wl' : ℕ → ℕ) : Prop :=
  ∀ x, (∃ o, done o ∧ x = get_write_lock_idx o) ∧ wl' x = wl x ∨
    (∀ o, done o → x ≠ get_write_lock_idx o) ∧ wl' x = swept x

theorem RestoreInv.turn {wl swept wl' wl'' : ℕ → ℕ} {done : ℕ → Prop}
    (h : RestoreInv wl swept done wl') (hown : wl (get_write_lock_idx obj) = i)
    (hs : restore_write_lock i wl' obj = some wl'') :
    RestoreInv wl swept (fun o => done o ∨ o = obj) wl'' := by
  unfold restore_write_lock at hs
  simp only [c_assert, Option.bind_eq_bind, Option.pure_def] at hs
  by_cases hzero : wl' (get_write_lock_idx obj) = 0
  · rw [if_pos hzero, Option.bind_some, Option.some.injEq] at hs
    intro x
    rw [← hs]
    by_cases hx : x = get_write_lock_idx obj
    · rw [hx, Function.update_self]
      exact .inl ⟨⟨obj, .inr rfl, rfl⟩, hown.symm⟩
    · rw [Function.update_of_ne hx]
      rcases h x with ⟨⟨o, ho, hxo⟩, hval⟩ | ⟨hn, hval⟩
      · exact .inl ⟨⟨o, .inl ho, hxo⟩, hval⟩
      · refine .inr ⟨?_, hval⟩
        rintro o (ho | rfl)
        · exact hn o ho
        · exact hx
  · rw [if_neg hzero] at hs
    cases hs

theorem RestoreInv.congr {wl swept wl' : ℕ → ℕ} {done done' : ℕ → Prop}
    (h : RestoreInv wl swept done wl') (hd : ∀ o, done o ↔ done' o) :
    RestoreInv wl swept done' wl' := by
  have heq : done = done' := funext (fun o => propext (hd o))
  rw [← heq]
  exact h

/-- `major_restore_write_locks` undoes marking. -/
theorem MarkedInv.restore_write_locks {visited done : List ℕ} {wl wl' : ℕ → ℕ}
    (h : MarkedInv NB_SEGMENTS cards visited done s)
    (hwl : s.write_locks = mark_visited wl visited)
    (hinv : Inv NB_SEGMENTS cards { s with write_locks := wl })
    (hs : (segment_nums NB_SEGMENTS).foldlM (fun wl i =>
      (s.segs i).modified_old_objects.reverse.foldlM (restore_write_lock i) wl)
      (sweep_large_objects s).write_locks = some wl') : wl' = wl := by
  have hown : ∀ i, ∀ o ∈ (s.segs i).modified_old_objects, wl (get_write_lock_idx o) = i := by
    intro i o ho
    have hm : o ∈ remaining (s.segs i) := by
      rw [remaining_eq (h.rest i).1]
      exact ho
    exact (hinv.objs o (hinv.kind_ne_free hm)).locks.owner i hm
  have hend := foldlM_some (fun segs wl' => RestoreInv wl (sweep_large_objects s).write_locks
    (fun o => ∃ i ∈ segs, o ∈ (s.segs i).modified_old_objects) wl') ?_ ?_ hs
  · funext x
    rcases hend x with ⟨-, hval⟩ | ⟨hn, hval⟩
    · exact hval
    · rw [hval, h.swept_locks hwl hinv]
      by_cases hv : ∃ o ∈ visited, x = get_write_lock_idx o
      · rw [if_pos hv]
        obtain ⟨o, ho, rfl⟩ := hv
        refine ((hinv.objs o (h.visited_objs o ho)).locks.free (fun i hi => ?_)).symm
        refine hn o ⟨i, ?_, mem_of_remaining hi⟩ rfl
        by_contra hni
        have habs := hinv.absent i hni
        dsimp only at habs hi
        rw [habs] at hi
        simp [remaining, Segment.initial] at hi
      · rw [if_neg hv]
  · intro segs i todo wl₁ wl₂ _ hseg hturn
    have hinner := foldlM_some (fun objs wl' => RestoreInv wl (sweep_large_objects s).write_locks
      (fun o => (∃ i ∈ segs, o ∈ (s.segs i).modified_old_objects) ∨ o ∈ objs) wl') ?_ ?_ hturn
    · refine hinner.congr (fun o => ?_)
      simp only [List.mem_append, List.mem_singleton, List.mem_reverse, or_and_right, exists_or,
        exists_eq_left]
    · intro objs o todo wl₃ wl₄ hlst hobjs hturn'
      have ho : o ∈ (s.segs i).modified_old_objects := by
        rw [← List.mem_reverse, hlst]
        simp
      refine (hobjs.turn (hown i o ho) hturn').congr (fun o' => ?_)
      rw [List.mem_append, List.mem_singleton, or_assoc]
    · exact hseg.congr (by simp)
  · exact fun x => .inr ⟨by simp, rfl⟩

/-! ## The whole collection -/

theorem at_rest_of_may_collect {visited : List ℕ} (h : Inv NB_SEGMENTS cards s)
    (hmay : may_collect NB_SEGMENTS s visited) : at_rest s := by
  intro i
  have hpc : (s.segs i).pc = .running ∨ (s.segs i).pc = .pushed := by
    by_cases hi : i ∈ segment_nums NB_SEGMENTS
    · exact (hmay.1 i hi).1
    · rw [h.absent i hi]
      exact .inl rfl
  rcases hpc with hpc | hpc
  · exact ⟨is_resetting_of_running hpc, pending_of_running hpc⟩
  · exact ⟨by rw [hpc]; rfl, pending_of_pushed hpc⟩

/-- Cleaning up changes no object, moves no segment, and drops no overflow
object that has been visited. -/
theorem clean_up_segment_frame (hs : C7.clean_up_segment s i = some s') :
    s'.kind = s.kind ∧ ∀ j, (s'.segs j).pc = (s.segs j).pc
      ∧ ∀ o ∈ (s.segs j).large_overflow_objects,
        s'.write_locks (get_write_lock_idx o) = WL_VISITED →
          o ∈ (s'.segs j).large_overflow_objects := by
  unfold C7.clean_up_segment at hs
  simp only [Option.bind_eq_bind, Option.pure_def, Option.bind_eq_some_iff,
    Option.some.injEq] at hs
  obtain ⟨m, -, r, -, hs⟩ := hs
  rw [← hs]
  refine ⟨rfl, fun j => ?_⟩
  by_cases hj : j = i
  · subst hj
    dsimp only
    rw [set_segs_self]
    exact ⟨rfl, fun o ho hv => List.mem_filter.mpr ⟨ho, beq_iff_eq.mpr hv⟩⟩
  · dsimp only
    rw [set_segs_of_ne _ hj]
    exact ⟨rfl, fun o ho _ => ho⟩

theorem Inv.modified_of_may_collect {visited : List ℕ} (h : Inv NB_SEGMENTS cards s)
    (hmay : may_collect NB_SEGMENTS s visited) :
    ∀ i, ∀ o ∈ (s.segs i).modified_old_objects, o ∈ visited := by
  intro i
  by_cases hi : i ∈ segment_nums NB_SEGMENTS
  · exact (hmay.1 i hi).2.2
  · rw [h.absent i hi]
    nofun

/-- The state before the sweep, and the locks after it. -/
theorem Inv.cleaned_of_major_collection {visited : List ℕ} (h : Inv NB_SEGMENTS cards s)
    (hmay : may_collect NB_SEGMENTS s visited)
    (hs : C7.major_collection_now NB_SEGMENTS s visited = some s') :
    ∃ t, MarkedInv NB_SEGMENTS cards visited (segment_nums NB_SEGMENTS) t
      ∧ (t.kind = s.kind ∧ ∀ i, (t.segs i).pc = (s.segs i).pc
        ∧ ∀ o ∈ visited, o ∈ (s.segs i).large_overflow_objects →
          o ∈ (t.segs i).large_overflow_objects)
      ∧ ∃ wl, (segment_nums NB_SEGMENTS).foldlM (fun wl i =>
          (t.segs i).modified_old_objects.reverse.foldlM (restore_write_lock i) wl)
          (sweep_large_objects t).write_locks = some wl
        ∧ s' = { sweep_large_objects t with write_locks := wl } := by
  have hrest := at_rest_of_may_collect h hmay
  have hshared := h.major_reshare_pages hrest
  unfold C7.major_collection_now at hs
  simp only [Option.bind_eq_bind, Option.bind_eq_some_iff] at hs
  obtain ⟨t, hclean, hrestore⟩ := hs
  -- marking
  have hmarked : MarkedInv NB_SEGMENTS cards visited []
      { C7.major_reshare_pages NB_SEGMENTS s with
        write_locks := mark_visited (C7.major_reshare_pages NB_SEGMENTS s).write_locks visited } := by
    refine ⟨hrest, hmay.2, fun i => ?_, h.modified_of_may_collect hmay, ⟨_, rfl, hshared⟩,
      by simp⟩
    by_cases hi : i ∈ segment_nums NB_SEGMENTS
    · exact (hmay.1 i hi).2.1
    · show (s.segs i).young_outside_nursery = []
      rw [h.absent i hi]
      rfl
  -- cleaning up
  have hcleaned := foldlM_some (fun done t => MarkedInv NB_SEGMENTS cards visited done t
    ∧ t.kind = s.kind ∧ ∀ i, (t.segs i).pc = (s.segs i).pc
      ∧ ∀ o ∈ visited, o ∈ (s.segs i).large_overflow_objects →
        o ∈ (t.segs i).large_overflow_objects)
    (fun done i todo t t' hlst hinv hturn => by
      obtain ⟨hkind, hframe⟩ := clean_up_segment_frame hturn
      have hmarked' : MarkedInv NB_SEGMENTS cards visited (done ++ [i]) t' := by
        refine hinv.1.clean_up_segment ?_ hturn
        rw [hlst]
        simp
      refine ⟨hmarked', hkind.trans hinv.2.1, fun j => ⟨(hframe j).1.trans (hinv.2.2 j).1,
        fun o hv ho => (hframe j).2 o ((hinv.2.2 j).2 o hv ho) ?_⟩⟩
      obtain ⟨wl, hwl, -⟩ := hmarked'.hidden
      rw [hwl, mark_visited_eq, if_pos ⟨o, hv, rfl⟩])
    ⟨hmarked, rfl, fun _ => ⟨rfl, fun _ _ ho => ho⟩⟩ hclean
  unfold C7.major_restore_write_locks at hrestore
  simp only [Option.bind_eq_bind, Option.pure_def, Option.bind_eq_some_iff,
    Option.some.injEq] at hrestore
  obtain ⟨wl, hfold, hs'⟩ := hrestore
  exact ⟨t, hcleaned.1, hcleaned.2, wl, hfold, hs'.symm⟩

theorem Inv.major_collection_now {visited : List ℕ} (h : Inv NB_SEGMENTS cards s)
    (hmay : may_collect NB_SEGMENTS s visited)
    (hs : C7.major_collection_now NB_SEGMENTS s visited = some s') : Inv NB_SEGMENTS cards s' := by
  obtain ⟨t, hcleaned, -, wl', hfold, rfl⟩ := h.cleaned_of_major_collection hmay hs
  obtain ⟨wl, hwl, hinv⟩ := hcleaned.hidden
  have hwl' : wl' = wl := hcleaned.restore_write_locks hwl hinv hfold
  rw [hwl']
  have hdone : ∀ i, (t.segs i).objects_pointing_to_nursery.getD [] = []
      ∧ ∀ o ∈ (t.segs i).large_overflow_objects, o ∈ visited := by
    intro i
    by_cases hi : i ∈ segment_nums NB_SEGMENTS
    · exact hcleaned.cleaned i hi
    · have habs := hinv.absent i hi
      dsimp only at habs
      rw [habs]
      simp [Segment.initial]
  refine Inv.free_unvisited (s := { t with write_locks := wl }) visited hinv ?_ ?_
    hcleaned.young hcleaned.modified (fun i => (hdone i).1) (fun i => (hdone i).2)
  · intro o
    show (if t.write_locks (get_write_lock_idx o) = WL_VISITED then t.kind o else .free) = t.kind o
      ∨ (if t.write_locks (get_write_lock_idx o) = WL_VISITED then t.kind o else .free) = .free
    by_cases hv : t.write_locks (get_write_lock_idx o) = WL_VISITED
    · exact .inl (if_pos hv)
    · exact .inr (if_neg hv)
  · intro o ho
    refine if_pos ?_
    rw [hwl, mark_visited_eq, if_pos ⟨o, ho, rfl⟩]

end

end Stmgc.C7
