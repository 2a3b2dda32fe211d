/-
Entries of a hashtable that are still in a nursery.

A hashtable in a nursery gets its entries from there, and the next minor
collection comes to them through the hashtable. The entry is allocated while
the lookup is running: a collection at that point moves the hashtable first,
and the entry is then stored in an old object that no minor collection looks
into.
-/
import Stmgc.C7.HashtableChainSafety

namespace Stmgc.C7

open Stmgc.Lib

/-- A hashtable, with the entries that were allocated in the nursery of a
segment since its last minor collection, and those that a minor collection has
freed although the table still points to them. -/
structure TracedHashtable where
  hashtable : stm_hashtable_s
  young : List (ℕ × EntryPtr)
  lost : List (ℕ × EntryPtr)

namespace TracedHashtable

inductive Act where
  /-- a step of the hashtable; its minor collections apart -/
  | table (a : stm_hashtable_s.Act)
  /-- a minor collection of segment `t` -/
  | minor_collection (t : ℕ)

/-- The entry that the step allocates in the nursery. -/
def allocates (h : stm_hashtable_s) : stm_hashtable_s.Act → List (ℕ × EntryPtr)
  | .allocated t addr =>
    match h.shared.threads t with
    | .allocate index _ _ _ =>
      if h.in_allocate = some t then [(t, { addr := addr, index := index })] else []
    | _ => []
  | _ => []

/-- What is left of the entries of the other segments. -/
def others (s : TracedHashtable) (t : ℕ) : List (ℕ × EntryPtr) :=
  s.young.filter fun e => e.1 ≠ t

/-- The steps of the hashtable that are taken as they are. A major collection
has emptied all nurseries, and an abort its own. -/
def takes (s : TracedHashtable) : stm_hashtable_s.Act → Prop
  | .minor_collection _ => False
  | .major_collection _ _ => s.young = []
  | _ => True

instance (s : TracedHashtable) : DecidablePred s.takes
  | .minor_collection _ => inferInstanceAs (Decidable False)
  | .major_collection _ _ => inferInstanceAs (Decidable (s.young = []))
  | .call _ _ | .step _ | .allocate _ | .allocated _ _ | .malloc _ _ | .update_items _ | .abort _
  | .stm_hashtable_free => inferInstanceAs (Decidable True)

variable (NB_SEGMENTS : ℕ)

def step (s : TracedHashtable) : Act → Outcome TracedHashtable
  | .table a => guarded (s.takes a) <|
    (s.hashtable.step NB_SEGMENTS a).bind fun h =>
      let young := match a with
        | .abort t => s.others t
        | _ => s.young
      .next { s with hashtable := h, young := young ++ allocates s.hashtable a }
  | .minor_collection t =>
    if s.hashtable.nursery = some t then
      -- the hashtable is traced, and its entries are moved with it
      (s.hashtable.step NB_SEGMENTS (.minor_collection t)).bind fun h =>
        .next { s with hashtable := h, young := s.others t }
    else guarded (s.hashtable.shared.threads t = .idle ∨ s.hashtable.in_allocate = some t) <|
      .next { s with
        young := s.others t
        lost := s.lost ++ s.young.filter fun e => e.1 = t }

structure Initial (s : TracedHashtable) : Prop where
  hashtable : stm_hashtable_s.Initial s.hashtable
  young : s.young = []
  lost : s.lost = []

/-- The step is not a minor collection in the middle of a lookup of its own
segment. -/
def Outside (s : TracedHashtable) : Act → Prop
  | .minor_collection t => s.hashtable.in_allocate ≠ some t
  | _ => True

instance (s : TracedHashtable) (a : Act) : Decidable (s.Outside a) := by
  unfold Outside
  split
  · exact inferInstance
  · exact inferInstance

/-- The next minor collection of the segment comes to every young entry. -/
structure Inv (s : TracedHashtable) : Prop where
  hashtable : stm_hashtable_s.Inv NB_SEGMENTS s.hashtable
  allocating : ∀ t, s.hashtable.in_allocate = some t → s.hashtable.nursery = some t
  young : ∀ e ∈ s.young, s.hashtable.nursery = some e.1
  lost : s.lost = []

variable {NB_SEGMENTS} {s s' : TracedHashtable}

/-- What a step of the hashtable does to the places of the objects. -/
structure Placed (h h' : stm_hashtable_s) : Prop where
  nursery : h'.nursery = h.nursery
  allocating : ∀ t, h'.in_allocate = some t → h.in_allocate = some t ∨ h.nursery = some t

theorem placed_of_step {h h' : stm_hashtable_s} {a : stm_hashtable_s.Act}
    (hinv : stm_hashtable_s.Inv NB_SEGMENTS h) (hminor : ∀ t, a ≠ .minor_collection t)
    (hmajor : ∀ biggertable keep, a ≠ .major_collection biggertable keep)
    (hs : h.step NB_SEGMENTS a = .next h') : Placed h h' := by
  unfold stm_hashtable_s.step at hs
  cases a with
  | call t index =>
      obtain ⟨-, hs⟩ := guarded_eq_next.mp hs
      cases hs
      exact ⟨rfl, fun _ ht => .inl ht⟩
  | step t =>
      obtain ⟨shared, -, hs⟩ := Outcome.bind_eq_next.mp hs
      cases hs
      exact ⟨rfl, fun _ ht => .inl ht⟩
  | allocate t =>
      dsimp only at hs
      split at hs
      · obtain ⟨⟨hnursery, -⟩, hs⟩ := guarded_eq_next.mp hs
        cases hs
        exact ⟨rfl, fun u hu => .inr ((Option.some.inj hu) ▸ hnursery)⟩
      · cases hs
  | allocated t addr =>
      dsimp only at hs
      split at hs
      · split_ifs at hs
        · cases hs
          exact ⟨rfl, (by simp)⟩
        · obtain ⟨-, hs⟩ := guarded_eq_next.mp hs
          cases hs
          exact ⟨rfl, fun _ ht => .inl ht⟩
      · cases hs
  | malloc t biggertable =>
      obtain ⟨shared, -, hs⟩ := Outcome.bind_eq_next.mp hs
      cases hs
      exact ⟨rfl, fun _ ht => .inl ht⟩
  | minor_collection t => exact absurd rfl (hminor t)
  | update_items f =>
      cases hs
      exact ⟨rfl, fun _ ht => .inl ht⟩
  | major_collection biggertable keep => exact absurd rfl (hmajor biggertable keep)
  | abort t =>
      obtain ⟨-, hs⟩ := guarded_eq_next.mp hs
      cases hs
      exact ⟨rfl, (by simp)⟩
  | stm_hashtable_free =>
      obtain ⟨⟨hsome, hsafe⟩, hs⟩ := guarded_eq_next.mp hs
      rw [Outcome.ofOption_eq_next] at hs
      have hidle : ∀ t, h.shared.threads t = .idle := by
        intro t
        by_cases ht : t ∈ List.range' 1 NB_SEGMENTS
        · exact hsafe t ht
        · exact hinv.outside t ht
      cases halive : h.alive with
      | true =>
          obtain ⟨older, hquiet⟩ := (hinv.alive halive).quiet hidle
          obtain ⟨h'', hres, -, hin, hnursery, -⟩ :=
            stm_hashtable_s.stm_hashtable_free_spec hquiet hinv.accounted
          rw [hs] at hres
          cases hres
          exact ⟨hnursery, fun t ht => .inl (hin ▸ ht)⟩
      | false =>
          rcases (hinv.dead halive).2 with hnone | hlocked
          · rw [hnone] at hsome
            cases hsome
          · rw [stm_hashtable_s.stm_hashtable_free_locked hlocked] at hs
            cases hs

/-- An entry is allocated in the nursery only while its hashtable is there. -/
theorem allocates_of_mem {h : stm_hashtable_s} {a : stm_hashtable_s.Act} {e : ℕ × EntryPtr}
    (he : e ∈ allocates h a) : h.in_allocate = some e.1 := by
  unfold allocates at he
  split at he
  · split at he
    · split_ifs at he with hin
      · cases List.mem_singleton.mp he
        exact hin
      · cases he
    · cases he
  · cases he

theorem mem_others {t : ℕ} {e : ℕ × EntryPtr} (he : e ∈ s.others t) : e ∈ s.young ∧ e.1 ≠ t := by
  unfold others at he
  rw [List.mem_filter, decide_eq_true_eq] at he
  exact he

/-- A step of the hashtable. -/
theorem Inv.table (hinv : Inv NB_SEGMENTS s) {a : stm_hashtable_s.Act}
    (hs : s.step NB_SEGMENTS (.table a) = .next s') : Inv NB_SEGMENTS s' := by
  obtain ⟨htakes, hs⟩ := guarded_eq_next.mp hs
  obtain ⟨h, hstep, hs⟩ := Outcome.bind_eq_next.mp hs
  have hnext := hinv.hashtable.step a
  rw [hstep] at hnext
  by_cases hmajor : ∃ biggertable keep, a = .major_collection biggertable keep
  · obtain ⟨biggertable, keep, rfl⟩ := hmajor
    cases hs
    replace htakes : s.young = [] := htakes
    obtain ⟨⟨halive, hnursery, hsafe, hmalloc⟩, hres⟩ := guarded_eq_next.mp hstep
    rw [Outcome.ofOption_eq_next] at hres
    have hin : s.hashtable.in_allocate = none := by
      rw [Option.eq_none_iff_forall_ne_some]
      intro t ht
      have hsome := hinv.allocating t ht
      rw [hnursery] at hsome
      cases hsome
    obtain ⟨h', hres', -, -, hcompacted, -⟩ :=
      hinv.hashtable.compacted keep halive hsafe hmalloc hin
    rw [hres] at hres'
    cases hres'
    refine ⟨hnext, fun t ht => ?_, fun e he => ?_, hinv.lost⟩
    · replace ht : h.in_allocate = some t := ht
      rw [hcompacted.in_allocate, hin] at ht
      cases ht
    · rw [htakes] at he
      cases he
  · have hplaced := placed_of_step hinv.hashtable (fun t ht => by rw [ht] at htakes; exact htakes)
      (fun b keep hb => hmajor ⟨b, keep, hb⟩) hstep
    have hyoung : ∀ e ∈ s'.young, e ∈ s.young ∨ e ∈ allocates s.hashtable a := by
      intro e he
      cases hs
      rcases List.mem_append.mp he with he | he
      · split at he
        · exact .inl (mem_others he).1
        · exact .inl he
      · exact .inr he
    have hsame : s'.hashtable = h ∧ s'.lost = s.lost := by
      cases hs
      exact ⟨rfl, rfl⟩
    obtain ⟨rfl, hlost⟩ := hsame
    refine ⟨hnext, fun t ht => ?_, fun e he => ?_, hlost ▸ hinv.lost⟩
    · rw [hplaced.nursery]
      exact (hplaced.allocating t ht).elim (hinv.allocating t) id
    · rw [hplaced.nursery]
      exact (hyoung e he).elim (hinv.young e) fun he => hinv.allocating _ (allocates_of_mem he)

/-- A minor collection that does not come in the middle of a lookup. -/
theorem Inv.minor_collection (hinv : Inv NB_SEGMENTS s) {t : ℕ}
    (hout : s.hashtable.in_allocate ≠ some t)
    (hs : s.step NB_SEGMENTS (.minor_collection t) = .next s') : Inv NB_SEGMENTS s' := by
  unfold TracedHashtable.step at hs
  dsimp only at hs
  split_ifs at hs with hnursery
  · obtain ⟨h, hstep, hs⟩ := Outcome.bind_eq_next.mp hs
    have hnext := hinv.hashtable.step (.minor_collection t)
    rw [hstep] at hnext
    obtain ⟨-, hstep⟩ := guarded_eq_next.mp hstep
    cases hstep
    cases hs
    refine ⟨hnext, fun u hu => ?_, fun e he => ?_, hinv.lost⟩
    · have hu' := hinv.allocating u hu
      rw [hnursery] at hu'
      exact absurd ((Option.some.inj hu') ▸ hu) hout
    · -- all young entries were in this nursery
      obtain ⟨hmem, hne⟩ := mem_others he
      have he' := hinv.young e hmem
      rw [hnursery] at he'
      exact absurd (Option.some.inj he').symm hne
  · obtain ⟨-, hs⟩ := guarded_eq_next.mp hs
    cases hs
    refine ⟨hinv.hashtable, hinv.allocating, fun e he => hinv.young e (mem_others he).1, ?_⟩
    have hnone : (s.young.filter fun e => e.1 = t) = [] := by
      rw [List.filter_eq_nil_iff]
      intro e he
      rw [decide_eq_true_eq]
      rintro rfl
      exact hnursery (hinv.young e he)
    dsimp only
    rw [hnone, hinv.lost, List.append_nil]

/-- In every run in which no minor collection of a segment comes while a lookup
of the segment is in `stm_allocate`: a compaction does not find the lock, the
hashtable is in the nursery with its young entries, and no entry is lost to a
minor collection. -/
theorem young_entries_kept (hreach : ReachableIf Initial (step NB_SEGMENTS) Outside s) :
    (∀ biggertable keep,
        s.step NB_SEGMENTS (.table (.major_collection biggertable keep)) ≠ .fault)
      ∧ (∀ e ∈ s.young, s.hashtable.nursery = some e.1) ∧ s.lost = [] := by
  have hinv : Inv NB_SEGMENTS s := by
    refine @ReachableIf.invariant _ _ _ _ _ (Inv NB_SEGMENTS) (fun s h0 => ?_) ?_ s hreach
    · refine ⟨h0.hashtable.inv, fun t ht => ?_, fun e he => ?_, h0.lost⟩
      · obtain ⟨p, nursery, heq⟩ := h0.hashtable
        rw [heq] at ht
        cases ht
      · rw [h0.young] at he
        cases he
    · intro s a s' hinv hout hs
      cases a with
      | table a => exact hinv.table hs
      | minor_collection t => exact hinv.minor_collection hout hs
  refine ⟨fun biggertable keep hfault => ?_, hinv.young, hinv.lost⟩
  unfold step guarded at hfault
  dsimp only at hfault
  split_ifs at hfault
  have hok := hinv.hashtable.step (.major_collection biggertable keep)
  cases hs : s.hashtable.step NB_SEGMENTS (.major_collection biggertable keep) with
  | next h =>
      rw [hs] at hfault
      cases hfault
  | blocked =>
      rw [hs] at hfault
      cases hfault
  | fault =>
      -- the lock would be held in a hashtable of a nursery
      rw [hs] at hok
      obtain ⟨t, ht⟩ := Option.ne_none_iff_exists'.mp hok
      unfold stm_hashtable_s.step guarded at hs
      dsimp only at hs
      split_ifs at hs with hguard
      rw [hinv.allocating t ht] at hguard
      exact absurd hguard.2.1 nofun

/-- Segment 1 inserts an entry in a hashtable of its nursery, and a minor
collection follows. -/
def insert_young : List Act :=
  [.table (.call 1 5), .table (.step 1), .table (.step 1), .table (.step 1), .table (.step 1),
    .table (.step 1), .table (.allocate 1), .table (.allocated 1 64), .table (.step 1),
    .table (.step 1), .minor_collection 1]

/-- A new hashtable in the nursery of segment 1. -/
def new_hashtable : TracedHashtable where
  hashtable := stm_hashtable_s.stm_hashtable_create 2 (some 1)
  young := []
  lost := []

theorem initial_new_hashtable : Initial new_hashtable := ⟨⟨2, some 1, rfl⟩, rfl, rfl⟩

theorem young_entries_kept_one : ∃ s : TracedHashtable,
    run (step 1) Outside new_hashtable insert_young = .next s ∧ s.hashtable.nursery = none
      ∧ s.lost = [] := by
  have htest : (run (step 1) Outside new_hashtable insert_young).test
      (fun s => decide (s.hashtable.nursery = none)) = true := by
    decide +kernel
  obtain ⟨s, hrun, hnursery⟩ := Outcome.of_test htest
  have h0 : ReachableIf Initial (step 1) Outside new_hashtable := .start initial_new_hashtable
  exact ⟨s, hrun, of_decide_eq_true hnursery, (young_entries_kept (h0.run _ hrun)).2.2⟩

/-- The nursery is full when the lookup allocates its entry. -/
def collect_in_allocate : List Act :=
  [.table (.call 1 5), .table (.step 1), .table (.step 1), .table (.step 1), .table (.step 1),
    .table (.step 1), .table (.allocate 1), .minor_collection 1]

/-- If a major collection follows, it finds the lock. If the lookup goes on, the
next minor collection frees the entry. -/
theorem young_entry_lost :
    (∃ s, Reachable Initial (step 1) s
        ∧ s.step 1 (.table (.major_collection 4 fun _ => true)) = .fault)
      ∧ ∃ s, Reachable Initial (step 1) s ∧ s.lost = [(1, ⟨64, 5⟩)] := by
  have h0 : Reachable Initial (step 1) new_hashtable := .start initial_new_hashtable
  have hlock : (run (step 1) (fun _ _ => True) new_hashtable collect_in_allocate).test
      (fun s => match s.step 1 (.table (.major_collection 4 fun _ => true)) with
        | .fault => true
        | _ => false) = true := by
    decide +kernel
  have hlost : (run (step 1) (fun _ _ => True) new_hashtable
      (collect_in_allocate ++ [.table (.allocated 1 64), .table (.step 1), .table (.step 1),
        .minor_collection 1])).test (fun s => decide (s.lost = [(1, ⟨64, 5⟩)])) = true := by
    decide +kernel
  obtain ⟨s, hrun, hfault⟩ := Outcome.of_test hlock
  obtain ⟨s', hrun', hs'⟩ := Outcome.of_test hlost
  refine ⟨⟨s, h0.run _ hrun, ?_⟩, s', h0.run _ hrun', of_decide_eq_true hs'⟩
  split at hfault
  · assumption
  · cases hfault

end TracedHashtable

end Stmgc.C7
