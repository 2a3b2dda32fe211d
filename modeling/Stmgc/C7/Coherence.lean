/-
What holds in every run of the machine of `Transaction`: who owns the write
locks, which views of an object agree, and what a commit shows of an object
with cards.
-/
import Stmgc.C7.TransactionMajor

namespace Stmgc.C7

open Stmgc.Lib

section

variable {NB_SEGMENTS : ℕ} {cards : Bool} {s s' : St}

theorem Inv.init (h : Initial s) : Inv NB_SEGMENTS cards s := by
  have hread : ∀ j a, read s.mem j a = s.mem.shared a := by
    intro j a
    apply read_of_shared
    rw [is_private_page, h.pages, Bool.and_false]
  refine ⟨h.apart, fun x hx => absurd (h.locks x) hx, fun i _ => h.segs i, ?_, ?_⟩
  · intro i
    rw [h.segs i]
    exact ListInv.initial _ _ _
  · intro o _
    refine ObjInv.of_unlisted ?_ ?_ (h.locks _) (fun _ c _ => h.locks _) ?_ ?_
    · intro i
      rw [h.segs i]
      simp [remaining, Segment.initial]
    · intro i
      rw [h.segs i]
      simp [Segment.initial]
    · intro hold j _
      rw [hread]
      exact h.flags o hold
    · intro _ _ j _ a _
      rw [hread, hread]

/-- The condition on a run under which no card is forgotten: where a commit
copies an object card after card, `stm_write` has not run on it without its
marks. -/
def commits_cards_ok (s : St) : Act → Prop
  | .commit_transaction i => ∀ o ∈ (s.segs i).modified_old_objects,
      obj_should_use_cards (s.layout o) = true → commit_cards_ok s i o
  | _ => True

theorem Inv.step_segment {a : Act} (h : Inv NB_SEGMENTS cards s)
    (hi : ∀ i ∈ a.segment_num, i ∈ segment_nums NB_SEGMENTS)
    (hok : cards = true → commits_cards_ok s a)
    (hs : C7.step_segment NB_SEGMENTS s a = .next s') : Inv NB_SEGMENTS cards s' := by
  cases a with
  | largemalloc_write addr b =>
      obtain ⟨hun, hs⟩ := guarded_eq_next.mp hs
      cases hs
      exact h.largemalloc_write hun
  | allocate_external i obj l =>
      obtain ⟨⟨hpc, hfree, hfresh⟩, hs⟩ := guarded_eq_next.mp hs
      cases hs
      exact h.allocate_external (hi i rfl) hpc hfree hfresh
  | stm_write i obj =>
      obtain ⟨⟨hpc, hk⟩, hs⟩ := guarded_eq_next.mp hs
      exact h.stm_write (hi i rfl) hpc hk hs
  | stm_write_card i obj index =>
      obtain ⟨⟨hpc, hk, hidx⟩, hs⟩ := guarded_eq_next.mp hs
      exact h.stm_write_card (hi i rfl) hpc hk hidx hs
  | page_privatize i =>
      cases hpc : (s.segs i).pc with
      | privatizing obj mark_card pages =>
          cases pages with
          | nil =>
              simp only [C7.step_segment, hpc] at hs
              cases hs
          | cons p pages =>
              simp only [C7.step_segment, hpc, Outcome.next.injEq] at hs
              rw [← hs]
              exact h.page_privatize (hi i rfl) hpc
      | _ =>
          simp only [C7.step_segment, hpc] at hs
          cases hs
  | write_slowpath_owned i =>
      cases hpc : (s.segs i).pc with
      | privatizing obj mark_card pages =>
          cases pages with
          | nil =>
              simp only [C7.step_segment, hpc] at hs
              obtain ⟨hm, hc⟩ := (h.lists i).privatizing obj mark_card [] hpc
              have hr : (s.segs i).pc.is_resetting = false := by
                rw [hpc]
                rfl
              refine h.write_slowpath_owned (hi i rfl) ?_ ?_ hr hc hs
              · rw [remaining_eq hr]
                exact hm
              · intro o
                unfold pending
                rw [hpc]
                simp
          | cons p pages =>
              simp only [C7.step_segment, hpc] at hs
              cases hs
      | _ =>
          simp only [C7.step_segment, hpc] at hs
          cases hs
  | store i obj off b =>
      obtain ⟨⟨hpc, hst⟩, hs⟩ := guarded_eq_next.mp hs
      cases hs
      exact h.store (hi i rfl) hpc hst
  | minor_collection i commit =>
      obtain ⟨hpc, hs⟩ := guarded_eq_next.mp hs
      cases hs
      exact h.minor_collection (hi i rfl) hpc commit
  | evacuate i obj l val =>
      obtain ⟨⟨hpc, hfree, hfresh, -⟩, hs⟩ := guarded_eq_next.mp hs
      cases hs
      exact h.evacuate (hi i rfl) hpc hfree hfresh
  | trace_young_outside_nursery i obj overflow_number =>
      obtain ⟨⟨hpc, hy, hdvd⟩, hs⟩ := guarded_eq_next.mp hs
      cases hs
      exact h.trace_young_outside_nursery (hi i rfl) hpc hy hdvd
  | collect i val =>
      cases hpc : (s.segs i).pc with
      | collect_cardrefs commit was_null =>
          simp only [C7.step_segment, hpc] at hs
          exact h.collect_cardrefs_to_nursery (hi i rfl) hpc hs
      | collect_modified commit todo =>
          simp only [C7.step_segment, hpc] at hs
          exact h.collect_modified_old_objects (hi i rfl) hpc hs
      | collect_oldrefs commit =>
          simp only [C7.step_segment, hpc] at hs
          exact h.collect_oldrefs_to_nursery (hi i rfl) hpc hs
      | _ =>
          simp only [C7.step_segment, hpc] at hs
          cases hs
  | push_overflow_objects i =>
      obtain ⟨hpc, hs⟩ := guarded_eq_next.mp hs
      exact h.push_overflow_objects (hi i rfl) hpc hs
  | restart_all i =>
      obtain ⟨hpc, hs⟩ := guarded_eq_next.mp hs
      cases hs
      exact h.restart_all (hi i rfl) hpc
  | commit_transaction i =>
      obtain ⟨hpc, hs⟩ := guarded_eq_next.mp hs
      exact h.commit_transaction (hi i rfl) hpc hok hs
  | abort_data_structures i =>
      obtain ⟨hpc, hs⟩ := guarded_eq_next.mp hs
      cases hs
      exact h.abort_data_structures (hi i rfl) hpc
  | reset_modified i =>
      cases hpc : (s.segs i).pc with
      | resetting todo =>
          simp only [C7.step_segment, hpc] at hs
          exact h.reset_modified_from_other_segments (hi i rfl) hpc hs
      | _ =>
          simp only [C7.step_segment, hpc] at hs
          cases hs
  | hashtable_entry i obj l val =>
      obtain ⟨⟨-, hfree, hfresh, hval⟩, hs⟩ := guarded_eq_next.mp hs
      cases hs
      exact h.hashtable_entry (hi i rfl) hfree hfresh hval.1
  | set_weakref_in_all_segments i obj val =>
      obtain ⟨⟨hk, hsize⟩, hs⟩ := guarded_eq_next.mp hs
      cases hs
      exact h.set_weakref_in_all_segments hk hsize
  | major_collection visited =>
      obtain ⟨hmay, hs⟩ := guarded_eq_next.mp hs
      cases hmajor : C7.major_collection_now NB_SEGMENTS s visited with
      | none =>
          simp only [hmajor] at hs
          cases hs
      | some t =>
          simp only [hmajor, Outcome.next.injEq] at hs
          rw [← hs]
          exact h.major_collection_now hmay hmajor

theorem Inv.step {a : Act} (h : Inv NB_SEGMENTS cards s)
    (hok : cards = true → commits_cards_ok s a)
    (hs : C7.step NB_SEGMENTS s a = .next s') : Inv NB_SEGMENTS cards s' := by
  obtain ⟨hi, hs⟩ := guarded_eq_next.mp hs
  exact h.step_segment hi hok hs

/-- Without a condition on the commits, for the objects that use no cards. -/
theorem inv_of_reachable (h : Reachable Initial (step NB_SEGMENTS) s) :
    Inv NB_SEGMENTS false s :=
  h.invariant (fun _ => Inv.init) (fun _ _ _ hi _ hs => hi.step (fun hc => by cases hc) hs)

theorem inv_of_reachableIf (h : ReachableIf Initial (step NB_SEGMENTS) commits_cards_ok s) :
    Inv NB_SEGMENTS true s :=
  h.invariant (fun _ => Inv.init) (fun _ _ _ hi hok hs => hi.step (fun _ => hok) hs)

/-! ## A program with one object -/

/-- A small object. -/
def small : Layout where
  size := 16
  supports_cards := false
  card_base := 0
  card_itemsize := 1
  size_pos := by decide
  size_lt := by decide
  itemsize_pos := by decide
  has_items := by decide

/-- An array with 64 items of 8 bytes, and so with two cards. -/
def array : Layout where
  size := 544
  supports_cards := true
  card_base := 32
  card_itemsize := 8
  size_pos := by decide
  size_lt := by decide
  itemsize_pos := by decide
  has_items := by decide

/-- There is one prebuilt object, at address 8192. -/
def one_object (l : Layout) : St where
  mem :=
    { shared := fun a => if a = 8192 then GCFLAG_WRITE_BARRIER else 0
      own := fun _ _ => 0
      pages_privatized := fun _ _ => false }
  write_locks := fun _ => 0
  kind := fun o => if o = 8192 then .old else .free
  layout := fun _ => l
  segs := fun _ => Segment.initial

theorem one_object_initial (l : Layout) : Initial (one_object l) where
  pages _ _ := rfl
  locks _ := rfl
  prebuilt o := by
    by_cases ho : o = 8192
    · exact .inr (if_pos ho)
    · exact .inl (if_neg ho)
  apart o o' ho ho' hlt := by
    have h1 : o = 8192 := by
      by_contra hne
      exact ho (if_neg hne)
    have h2 : o' = 8192 := by
      by_contra hne
      exact ho' (if_neg hne)
    omega
  flags o ho := by
    have h1 : o = 8192 := by
      by_contra hne
      have hfree : (one_object l).kind o = .free := if_neg hne
      rw [hfree] at ho
      cases ho
    rw [h1]
    show GCFLAG_WRITE_BARRIER &&& (GCFLAG_WRITE_BARRIER ||| GCFLAG_CARDS_SET) = GCFLAG_WRITE_BARRIER
    decide
  segs _ := rfl

/-! ## Write locks -/

/-- **Ownership of the write locks.** In every reachable state, the lock of an
old object is `n` if and only if the object is among those which segment `n`
has modified and not reset yet; it is there once, and in no other segment.
When no segment is in the middle of an abort, these are the items of
`modified_old_objects`. -/
theorem write_lock_owner (h : Reachable Initial (step NB_SEGMENTS) s) {o n : ℕ}
    (hold : s.kind o = .old) (hn : n ≠ 0) :
    ((s.write_locks (get_write_lock_idx o) = n ↔ o ∈ remaining (s.segs n))
        ∧ (o ∈ remaining (s.segs n) → (remaining (s.segs n)).count o = 1
          ∧ ∀ j, j ≠ n → o ∉ remaining (s.segs j)))
      ∧ ((∀ j ∈ segment_nums NB_SEGMENTS, (s.segs j).pc.is_resetting = false) →
        (s.write_locks (get_write_lock_idx o) = n ↔ o ∈ (s.segs n).modified_old_objects)
          ∧ (o ∈ (s.segs n).modified_old_objects →
            (s.segs n).modified_old_objects.count o = 1
              ∧ ∀ j, j ≠ n → o ∉ (s.segs j).modified_old_objects)) := by
  have hinv := inv_of_reachable h
  have hlocks := (hinv.objs o (by rw [hold]; decide)).locks
  have howner : s.write_locks (get_write_lock_idx o) = n ↔ o ∈ remaining (s.segs n) := by
    constructor
    · intro hlock
      by_contra hnot
      refine hn (hlock.symm.trans (hlocks.free (fun j hj => ?_)))
      have hjn : j = n := (hlocks.owner j hj).symm.trans hlock
      exact hnot (hjn ▸ hj)
    · exact hlocks.owner n
  have honce : o ∈ remaining (s.segs n) → (remaining (s.segs n)).count o = 1
      ∧ ∀ j, j ≠ n → o ∉ remaining (s.segs j) := by
    intro hm
    refine ⟨List.count_eq_one_of_mem ?_ hm, fun j hj hmj => hj (hinv.owner_unique hm hmj)⟩
    have hnd := (hinv.lists n).nodup
    unfold remaining
    split
    · exact hnd.sublist (List.take_sublist _ _)
    · exact hnd
  refine ⟨⟨howner, honce⟩, fun hrest => ?_⟩
  have hall : ∀ j, remaining (s.segs j) = (s.segs j).modified_old_objects := by
    intro j
    by_cases hj : j ∈ segment_nums NB_SEGMENTS
    · exact remaining_eq (hrest j hj)
    · rw [hinv.absent j hj]
      rfl
  simp only [hall] at howner honce
  exact ⟨howner, honce⟩

/-- Segment 1 has taken the lock. -/
theorem write_lock_owner_taken : ∃ s,
    run (step 2) (fun _ _ => True) (one_object small) [.stm_write 1 8192] = .next s
      ∧ s.write_locks (get_write_lock_idx 8192) = 1
      ∧ ∀ j, j ≠ 1 → 8192 ∉ (s.segs j).modified_old_objects := by
  have htest : (run (step 2) (fun _ _ => True) (one_object small) [.stm_write 1 8192]).test
      (fun s => decide (s.kind 8192 = .old)
        && decide (8192 ∈ (s.segs 1).modified_old_objects)
        && decide (∀ j ∈ segment_nums 2, (s.segs j).pc.is_resetting = false)) = true := by
    decide +kernel
  obtain ⟨s, hrun, htest⟩ := Outcome.of_test htest
  simp only [Bool.and_eq_true, decide_eq_true_eq] at htest
  obtain ⟨⟨hold, hm⟩, hrest⟩ := htest
  have h0 : Reachable Initial (step 2) (one_object small) := .start (one_object_initial small)
  obtain ⟨howner, honce⟩ :=
    (write_lock_owner (h0.run _ hrun) hold (show 1 ≠ 0 by decide)).2 hrest
  exact ⟨s, hrun, howner.mpr hm, (honce hm).2⟩

/-- **Private pages.** The pages of an object are private to a segment that has
modified it, as soon as its slow path has been there. The cards are clear when
no segment has. -/
theorem old_object_pages_and_cards (h : Reachable Initial (step NB_SEGMENTS) s) {o : ℕ}
    (hold : s.kind o = .old) :
    (∀ i, o ∈ remaining (s.segs i) → ∀ p ∈ object_pages o (s.layout o), p ∉ pending (s.segs i) o →
        is_private_page s.mem i p = true)
      ∧ (obj_should_use_cards (s.layout o) = true → (∀ i, o ∉ remaining (s.segs i)) →
        all_cards_cleared s.write_locks o (s.layout o)) := by
  have hinv := inv_of_reachable h
  have hobj := hinv.objs o (by rw [hold]; decide)
  refine ⟨hobj.views.private_pages, fun hcards hfree => hobj.locks.cards_clear hcards hfree fun i hov => ?_⟩
  -- an old object is not an overflow object
  exact absurd (hold.symm.trans ((hinv.lists i).overflow o hov)) (by simp)

/-- A slow path has privatized the only page. -/
theorem old_object_pages_and_cards_array :
    ∃ s : St, 8192 ∈ remaining (s.segs 1) ∧ is_private_page s.mem 1 2 = true := by
  have htest : (run (step 2) (fun _ _ => True) (one_object array) [.stm_write 1 8192, .page_privatize 1]).test
      (fun s => decide (s.kind 8192 = .old ∧ 8192 ∈ remaining (s.segs 1) ∧
        2 ∈ object_pages 8192 (s.layout 8192) ∧ 2 ∉ pending (s.segs 1) 8192)) = true := by
    decide +kernel
  obtain ⟨s, hrun, htest⟩ := Outcome.of_test htest
  obtain ⟨hold, hm, hp, hpend⟩ := of_decide_eq_true htest
  have h0 : Reachable Initial (step 2) (one_object array) := .start (one_object_initial array)
  exact ⟨s, hm, (old_object_pages_and_cards (h0.run _ hrun) hold).1 1 hm 2 hp hpend⟩

/-! ## Views -/

/-- **Coherence of the views.** In every reachable state, a segment that has
not modified an old object which uses no cards sees the bytes of segment 0. -/
theorem view_coherence (h : Reachable Initial (step NB_SEGMENTS) s) {o i a : ℕ}
    (hold : s.kind o = .old) (hcards : obj_should_use_cards (s.layout o) = false)
    (hi : i ≤ NB_SEGMENTS) (hn : o ∉ (s.segs i).modified_old_objects)
    (ha : o ≤ a ∧ a < o + (s.layout o).size) : read s.mem i a = read s.mem 0 a := by
  have hinv := inv_of_reachable h
  refine (hinv.objs o (by rw [hold]; decide)).views.coherent hold (fun hc => ?_) i hi
    (fun hm => hn (mem_of_remaining hm)) a ha
  exact absurd (hc.symm.trans hcards) (by decide)

/-- Segment 1 has written to the object, and segment 2 has not. -/
theorem view_coherence_other : ∃ s,
    run (step 2) (fun _ _ => True) (one_object small)
        [.stm_write 1 8192, .page_privatize 1, .write_slowpath_owned 1, .store 1 8192 8 1] = .next s
      ∧ read s.mem 1 8200 = 1 ∧ read s.mem 2 8200 = read s.mem 0 8200 := by
  have htest : (run (step 2) (fun _ _ => True) (one_object small)
        [.stm_write 1 8192, .page_privatize 1, .write_slowpath_owned 1, .store 1 8192 8 1]).test
      (fun s => decide (s.kind 8192 = .old) && !obj_should_use_cards (s.layout 8192)
        && decide (8192 ∉ (s.segs 2).modified_old_objects)
        && decide (8200 < 8192 + (s.layout 8192).size)
        && decide (read s.mem 1 8200 = 1)) = true := by
    decide +kernel
  obtain ⟨s, hrun, htest⟩ := Outcome.of_test htest
  simp only [Bool.and_eq_true, decide_eq_true_eq, Bool.not_eq_true'] at htest
  obtain ⟨⟨⟨⟨hold, hcards⟩, hn⟩, hsize⟩, hone⟩ := htest
  have h0 : Reachable Initial (step 2) (one_object small) := .start (one_object_initial small)
  exact ⟨s, hrun, hone,
    view_coherence (h0.run _ hrun) hold hcards (by omega) hn ⟨by omega, hsize⟩⟩

/-! ## Cards -/

/-- **No marked card is lost.** In every run in which no commit copies an
object card after card although `stm_write` has run on it without marking the
cards, a commit leaves all segments with the bytes that the committing segment
sees of its modified objects. -/
theorem card_marking (h : ReachableIf Initial (step NB_SEGMENTS) commits_cards_ok s) {i : ℕ}
    (hok : commits_cards_ok s (.commit_transaction i))
    (hs : step NB_SEGMENTS s (.commit_transaction i) = .next s') {o : ℕ}
    (hm : o ∈ (s.segs i).modified_old_objects) {j a : ℕ} (hj : j ≤ NB_SEGMENTS)
    (ha : o ≤ a ∧ a < o + (s.layout o).size) : read s'.mem j a = read s.mem i a := by
  have hinv := inv_of_reachableIf h
  obtain ⟨hi, hs⟩ := guarded_eq_next.mp hs
  obtain ⟨hpc, hs⟩ := guarded_eq_next.mp hs
  have hi' := (mem_segment_nums.mp (hi i rfl)).2
  obtain ⟨m, wl, hfold, hs'⟩ := commit_transaction_eq hs
  have hpush := hinv.push_modified hi' hfold
  have hr : (s.segs i).pc.is_resetting = false := by
    rw [hpc]
    rfl
  rw [hs']
  refine hpush.read_eq hinv ?_ (List.mem_reverse.mpr hm) (fun _ => rfl)
    (fun hu => hok o hm hu) hj ha
  intro o' ho'
  rw [remaining_eq hr]
  exact List.mem_reverse.mp ho'

instance (s : St) (i o : ℕ) : Decidable (commit_cards_ok s i o) := by
  unfold commit_cards_ok all_cards_cleared assumed_fully_marked
  infer_instance

instance (s : St) (a : Act) : Decidable (commits_cards_ok s a) := by
  cases a <;> unfold commits_cards_ok <;> infer_instance

/-- The bytes that a collection finds in the array: `1` at the start of item
32, and zeros. -/
def item_32 (a : ℕ) : UInt8 := if a = 8192 + 288 then 1 else 0

/-- Segment 1 writes to item 32 after `stm_write`, and after a minor collection
to item 0 after `stm_write_card`; then it commits. -/
def write_then_write_card : List Act :=
  [.stm_write 1 8192, .page_privatize 1, .write_slowpath_owned 1, .store 1 8192 288 1,
    .minor_collection 1 false, .collect 1 item_32, .collect 1 item_32, .collect 1 item_32,
    .collect 1 item_32, .stm_write_card 1 8192 0, .store 1 8192 32 1,
    .minor_collection 1 true, .collect 1 item_32, .collect 1 item_32, .collect 1 item_32,
    .push_overflow_objects 1]

/-- The card of item 32 is not marked when the commit copies the array card
after card. -/
theorem card_marking_lost :
    ¬ ∀ (s s' : St) (i o j a : ℕ), Reachable Initial (step 2) s →
      step 2 s (.commit_transaction i) = .next s' → o ∈ (s.segs i).modified_old_objects →
      obj_should_use_cards (s.layout o) = true → j ≤ 2 →
      o ≤ a ∧ a < o + (s.layout o).size → read s'.mem j a = read s.mem i a := by
  intro hall
  have htest : ((run (step 2) (fun _ _ => True) (one_object array) write_then_write_card).test
      (fun s => (step 2 s (.commit_transaction 1)).test
        (fun s' => decide (8192 ∈ (s.segs 1).modified_old_objects)
          && obj_should_use_cards (s.layout 8192)
          && decide (8480 < 8192 + (s.layout 8192).size)
          && decide (read s'.mem 0 8480 ≠ read s.mem 1 8480)))) = true := by
    decide +kernel
  obtain ⟨s, hrun, htest⟩ := Outcome.of_test htest
  obtain ⟨s', hs, htest⟩ := Outcome.of_test htest
  simp only [Bool.and_eq_true, decide_eq_true_eq] at htest
  obtain ⟨⟨⟨hm, hcards⟩, hsize⟩, hne⟩ := htest
  have h0 : Reachable Initial (step 2) (one_object array) := .start (one_object_initial array)
  exact hne (hall s s' 1 8192 0 8480 (h0.run _ hrun) hs hm hcards (by omega) ⟨by omega, hsize⟩)

/-- Segment 1 writes to item 0 of the array alone. -/
def write_card : List Act :=
  [.stm_write_card 1 8192 0, .page_privatize 1, .write_slowpath_owned 1, .store 1 8192 32 1,
    .minor_collection 1 true, .collect 1 (fun a => if a = 8224 then 1 else 0),
    .collect 1 (fun _ => 0), .collect 1 (fun _ => 0), .collect 1 (fun _ => 0),
    .collect 1 (fun _ => 0), .push_overflow_objects 1]

theorem card_marking_write_card : ∃ s s',
    run (step 2) commits_cards_ok (one_object array) write_card = .next s
      ∧ step 2 s (.commit_transaction 1) = .next s'
      ∧ read s'.mem 2 8224 = read s.mem 1 8224 := by
  have htest : ((run (step 2) commits_cards_ok (one_object array) write_card).test
      (fun s => (step 2 s (.commit_transaction 1)).test
        (fun _ => decide (commits_cards_ok s (.commit_transaction 1))
          && decide (8192 ∈ (s.segs 1).modified_old_objects)
          && decide (8224 < 8192 + (s.layout 8192).size)))) = true := by
    decide +kernel
  obtain ⟨s, hrun, htest⟩ := Outcome.of_test htest
  obtain ⟨s', hs, htest⟩ := Outcome.of_test htest
  simp only [Bool.and_eq_true, decide_eq_true_eq] at htest
  obtain ⟨⟨hok, hm⟩, hsize⟩ := htest
  have h0 : ReachableIf Initial (step 2) commits_cards_ok (one_object array) :=
    .start (one_object_initial array)
  exact ⟨s, s', hrun, hs,
    card_marking (h0.run _ hrun) hok hs hm (by omega) ⟨by omega, hsize⟩⟩

end

end Stmgc.C7
