/-
What holds in every run of a hashtable: searches end, and every table that is
allocated for it is freed once.

[`Inv`] is kept by every step of the machine. Two steps fail an assertion: a
major collection that comes while a lookup is in `stm_allocate`, and the end of
a hashtable whose lookup has been aborted there. The lookup holds the
`RESIZING_LOCK`, and `_stm_compact_hashtable` and `stm_hashtable_free` both
assert that nobody does.
-/
import Stmgc.C7.HashtableChainRun

namespace Stmgc.C7

open Stmgc.Lib

namespace stm_hashtable_s

open SharedHashtable

variable {s : SharedHashtable} {initial : ℕ} {older : List ℕ} {NB_SEGMENTS : ℕ}
  {h h' : stm_hashtable_s}

/-! ## The steps -/

/-- The steps that come in the middle of a lookup, and the end of a hashtable
whose lookup has been aborted. -/
def Interrupts (h : stm_hashtable_s) : Act → Prop
  | .major_collection _ _ => h.in_allocate ≠ none
  | .stm_hashtable_free => h.alive = false
  | _ => False

def StepOk (NB_SEGMENTS : ℕ) (h : stm_hashtable_s) (a : Act) : Outcome stm_hashtable_s → Prop
  | .blocked => True
  | .fault => h.Interrupts a
  | .next h' => Inv NB_SEGMENTS h'

/-- The lookups of the segments. -/
theorem FitsInv.thread_step {turns : ℕ → ℕ} (hinv : FitsInv s initial turns) (t : ℕ)
    (htables : h.shared = s) (hturns : h.turns = turns) :
    FitsOk initial (h.count_turns t) (s.thread_step t (s.threads t)) := by
  subst htables hturns
  unfold count_turns
  cases hpc : h.shared.threads t with
  | restart index =>
      obtain ⟨tab, -, -, htab, -⟩ := hinv.working
      have hindex := hinv.index t
      rw [hpc] at hindex
      exact hinv.goto (.first index h.shared.table) (by rw [hpc]; rfl) rfl hindex
        ⟨tab, htab, .inl rfl⟩ (fun _ _ => rfl) rfl rfl rfl
  | first index table => exact hinv.step_first hpc
  | probing index table p => exact hinv.step_probing hpc
  | read_counter index table i => exact hinv.step_read_counter hpc
  | cas index table i rc => exact hinv.step_cas hpc
  | locked index table i rc => exact hinv.step_locked hpc
  | unlock_restart index table rc => exact hinv.step_unlock_restart hpc
  | store index table i rc entry => exact hinv.step_store hpc
  | unlock index table rc entry => exact hinv.step_unlock hpc
  | copy index table biggertable j rc => exact hinv.step_copy hpc
  | set_counter index table biggertable rc => exact hinv.step_set_counter hpc
  | publish index table biggertable => exact hinv.step_publish hpc
  | _ => trivial

/-- What a step of a lookup does not do: it neither allocates nor frees a table,
and moves no other segment. -/
structure StepFrame (s s' : SharedHashtable) (t : ℕ) : Prop where
  live : ∀ p, (s'.tables p).isSome = (s.tables p).isSome
  threads : ∀ u, u ≠ t → s'.threads u = s.threads u

theorem with_table_eq_next {s' : SharedHashtable} {p : ℕ} {f : Table → Outcome SharedHashtable}
    (hs : s.with_table p f = .next s') : ∃ tab, s.tables p = some tab ∧ f tab = .next s' := by
  unfold with_table at hs
  cases htab : s.tables p with
  | none =>
      rw [htab] at hs
      cases hs
  | some tab =>
      rw [htab] at hs
      exact ⟨tab, rfl, hs⟩

theorem StepFrame.of_goto {s' : SharedHashtable} {t : ℕ} {pc : LookupPc}
    (hthreads : s'.threads = Function.update s.threads t pc)
    (hlive : ∀ p, (s'.tables p).isSome = (s.tables p).isSome) : StepFrame s s' t where
  live := hlive
  threads u hu := by
    rw [hthreads, Function.update_of_ne hu]

theorem StepFrame.look_at {t index p : ℕ} {q : ℕ × ℕ} {item : Option EntryPtr} :
    StepFrame s (s.look_at t index p q item) t := by
  unfold SharedHashtable.look_at
  cases item with
  | none => exact .of_goto rfl fun _ => rfl
  | some e =>
      dsimp only
      split_ifs
      · exact .of_goto rfl fun _ => rfl
      · exact .of_goto rfl fun _ => rfl

theorem thread_step_frame {s' : SharedHashtable} {t : ℕ} {pc : LookupPc}
    (hs : s.thread_step t pc = .next s') : StepFrame s s' t := by
  have hset : ∀ {p : ℕ} {tab : Table}, s.tables p = some tab → ∀ tab' : Table, ∀ q,
      ((s.set_table p tab').tables q).isSome = (s.tables q).isSome :=
    fun htab tab' q => isSome_set_table (by rw [htab]; rfl)
  unfold thread_step at hs
  cases pc with
  | restart index =>
      cases hs
      exact .of_goto rfl fun _ => rfl
  | first index table =>
      obtain ⟨tab, -, hs⟩ := with_table_eq_next hs
      cases hs
      exact .look_at
  | probing index table p =>
      obtain ⟨tab, -, hs⟩ := with_table_eq_next hs
      cases hs
      exact .look_at
  | read_counter index table i =>
      obtain ⟨tab, -, hs⟩ := with_table_eq_next hs
      dsimp only at hs
      split_ifs at hs
      · cases hs
        exact .of_goto rfl fun _ => rfl
      · cases hs
        exact .of_goto rfl fun _ => rfl
  | cas index table i rc =>
      obtain ⟨tab, htab, hs⟩ := with_table_eq_next hs
      split_ifs at hs
      · cases hs
        exact .of_goto rfl (hset htab _)
      · cases hs
        exact .of_goto rfl fun _ => rfl
  | locked index table i rc =>
      obtain ⟨tab, -, hs⟩ := with_table_eq_next hs
      split_ifs at hs
      · cases hs
        exact .of_goto rfl fun _ => rfl
      · cases hs
        exact .of_goto rfl fun _ => rfl
      · cases hs
        exact .of_goto rfl fun _ => rfl
  | unlock_restart index table rc =>
      obtain ⟨tab, htab, hs⟩ := with_table_eq_next hs
      cases hs
      exact .of_goto rfl (hset htab _)
  | store index table i rc entry =>
      obtain ⟨tab, htab, hs⟩ := with_table_eq_next hs
      cases hs
      exact .of_goto rfl (hset htab _)
  | unlock index table rc entry =>
      obtain ⟨tab, htab, hs⟩ := with_table_eq_next hs
      cases hs
      exact .of_goto rfl (hset htab _)
  | copy index table b j rc =>
      obtain ⟨tab, -, hs⟩ := with_table_eq_next hs
      split_ifs at hs
      · obtain ⟨bigger, hbigger, hs⟩ := with_table_eq_next hs
        cases hbody : rehash_body (fun _ => true) tab (bigger, rc) j with
        | none =>
            rw [hbody] at hs
            cases hs
        | some r =>
            rw [hbody] at hs
            cases hs
            exact .of_goto rfl (hset hbigger _)
      · cases hs
        exact .of_goto rfl fun _ => rfl
  | set_counter index table b rc =>
      obtain ⟨bigger, hbigger, hs⟩ := with_table_eq_next hs
      cases hs
      exact .of_goto rfl (hset hbigger _)
  | publish index table b =>
      cases hs
      exact .of_goto rfl fun _ => rfl
  | idle => cases hs
  | allocate index table i rc => cases hs
  | malloc index table => cases hs

/-- A segment that is in a lookup is one of the segments, and `hashtableobj` is
alive. -/
theorem Inv.of_busy (hinv : Inv NB_SEGMENTS h) {t : ℕ} (ht : h.shared.threads t ≠ .idle) :
    t ∈ List.range' 1 NB_SEGMENTS ∧ h.alive = true := by
  constructor
  · by_contra hout
    exact ht (hinv.outside t hout)
  · by_contra hdead
    exact ht ((hinv.dead (Bool.eq_false_iff.mpr hdead)).1 t)

/-- A step inside a lookup: what remains to be shown. -/
theorem Inv.lookup (hinv : Inv NB_SEGMENTS h) {t : ℕ} (ht : h.shared.threads t ≠ .idle)
    (hthreads : ∀ u, u ≠ t → h'.shared.threads u = h.shared.threads u)
    (hfits : FitsInv h'.shared h.initial_table h'.turns) (halive : h'.alive = h.alive)
    (hinitial : h'.initial_table = h.initial_table)
    (hallocating : ∀ u, h'.in_allocate = some u → h.in_allocate = some u ∧ u ≠ t
      ∨ u = t ∧ ∃ index table i rc, h'.shared.threads t = .allocate index table i rc)
    (hown : ∀ u, h'.nursery = some u ∨ h'.in_allocate = some u →
      h.nursery = some u ∨ h.in_allocate = some u)
    (hacc : h'.Accounted) : Inv NB_SEGMENTS h' := by
  obtain ⟨hin, htrue⟩ := hinv.of_busy ht
  refine ⟨fun u hu => ?_, hfits.fits, fun _ => hinitial ▸ hfits, fun hdead => ?_,
    fun u hu => ?_, fun u hu v hv => ?_, hacc⟩
  · rw [hthreads u]
    · exact hinv.outside u hu
    · rintro rfl
      exact hu hin
  · rw [halive, htrue] at hdead
    cases hdead
  · refine ⟨halive.trans htrue, ?_⟩
    rcases hallocating u hu with ⟨hold, hne⟩ | ⟨rfl, hpc⟩
    · rw [hthreads u hne]
      exact (hinv.allocating u hold).2
    · exact hpc
  · have hold := hinv.own u (hown u hu)
    -- the segment is the only one in a lookup
    have hut : t = u := by
      by_contra hne
      exact ht (hold t hne)
    subst hut
    rw [hthreads v hv]
    exact hold v hv

theorem Inv.step_step (hinv : Inv NB_SEGMENTS h) (t : ℕ) :
    StepOk NB_SEGMENTS h (.step t) (h.step NB_SEGMENTS (.step t)) := by
  unfold stm_hashtable_s.step
  dsimp only
  by_cases hidle : h.shared.threads t = .idle
  · rw [hidle]
    trivial
  have hok := FitsInv.thread_step (h := h) (hinv.alive (hinv.of_busy hidle).2) t rfl rfl
  cases hs : h.shared.thread_step t (h.shared.threads t) with
  | blocked => trivial
  | fault =>
      rw [hs] at hok
      exact absurd hok (fun h => h)
  | next s' =>
      rw [hs] at hok
      have hframe := thread_step_frame hs
      refine hinv.lookup hidle hframe.threads hok rfl rfl (fun u hu => .inl ⟨hu, ?_⟩)
        (fun _ hu => hu) (hinv.accounted.congr rfl rfl rfl hframe.live)
      -- inside `stm_allocate` a segment does not get here
      rintro rfl
      obtain ⟨-, index, table, i, rc, hpc⟩ := hinv.allocating u hu
      rw [hpc] at hs
      cases hs

theorem Inv.step_call (hinv : Inv NB_SEGMENTS h) (t index : ℕ) :
    StepOk NB_SEGMENTS h (.call t index) (h.step NB_SEGMENTS (.call t index)) := by
  unfold stm_hashtable_s.step guarded
  dsimp only
  split_ifs with hguard
  · obtain ⟨halive, hin, hindex, hnursery, hnone, hidle⟩ := hguard
    have hfits : FitsInv (h.shared.goto t (.restart index)) h.initial_table h.turns :=
      (hinv.alive halive).goto (.restart index) (by rw [hidle]; rfl) rfl hindex trivial
        (fun _ _ => rfl) rfl rfl rfl
    refine ⟨fun u hu => ?_, hfits.fits, fun _ => hfits, fun hdead => ?_, fun u hu => ?_,
      fun u hu v hv => ?_, hinv.accounted⟩
    · show Function.update h.shared.threads t _ u = _
      rw [Function.update_of_ne]
      · exact hinv.outside u hu
      · rintro rfl
        exact hu hin
    · rw [halive] at hdead
      cases hdead
    · rw [hnone] at hu
      cases hu
    · have hut : u = t := by
        rcases hu with hu | hu
        · rcases hnursery with hnursery | hnursery
          · rw [hnursery] at hu
            cases hu
          · rw [hnursery] at hu
            exact (Option.some.inj hu).symm
        · rw [hnone] at hu
          cases hu
      subst hut
      show Function.update h.shared.threads u _ v = _
      rw [Function.update_of_ne hv]
      exact hinv.own u (by exact hu) v hv
  · trivial

/-- The entry is allocated, and the writer goes on to store it. -/
theorem FitsInv.allocated {turns : ℕ → ℕ} (hinv : FitsInv s initial turns)
    {t index table i rc : ℕ} (hpc : s.threads t = .allocate index table i rc) (entry : EntryPtr) :
    FitsInv (s.goto t (.store index table i rc entry)) initial turns := by
  have hindex := hinv.index t
  obtain ⟨tab, older, htab, hw, hothers, hlinked⟩ := hinv.writer (t := t) (by rw [hpc]; rfl)
  rw [hpc] at hindex hw hlinked
  exact hinv.write_goto (.store index table i rc entry) hothers htab hlinked rfl rfl rfl hw
    trivial hindex

theorem Inv.step_allocated (hinv : Inv NB_SEGMENTS h) (t addr : ℕ) :
    StepOk NB_SEGMENTS h (.allocated t addr) (h.step NB_SEGMENTS (.allocated t addr)) := by
  unfold stm_hashtable_s.step
  dsimp only
  cases hpc : h.shared.threads t with
  | allocate index table i rc =>
      have hidle : h.shared.threads t ≠ .idle := by
        rw [hpc]
        nofun
      have hfits := FitsInv.allocated (hinv.alive (hinv.of_busy hidle).2) hpc
        { addr := addr, index := index }
      have hthreads : ∀ u, u ≠ t → (h.shared.goto t (.store index table i rc
          { addr := addr, index := index })).threads u = h.shared.threads u := by
        intro u hu
        rw [threads_goto, if_neg hu]
      dsimp only
      split_ifs with hin
      · exact hinv.lookup hidle hthreads hfits rfl rfl nofun
          (fun u hu => .inl (hu.resolve_right nofun))
          (hinv.accounted.congr rfl rfl rfl fun _ => rfl)
      · unfold guarded
        split_ifs
        · refine hinv.lookup hidle hthreads hfits rfl rfl (fun u hu => .inl ⟨hu, ?_⟩)
            (fun _ hu => hu) (hinv.accounted.congr rfl rfl rfl fun _ => rfl)
          rintro rfl
          exact hin hu
        · trivial
  | _ => trivial

theorem Inv.step_allocate (hinv : Inv NB_SEGMENTS h) (t : ℕ) :
    StepOk NB_SEGMENTS h (.allocate t) (h.step NB_SEGMENTS (.allocate t)) := by
  unfold stm_hashtable_s.step
  dsimp only
  cases hpc : h.shared.threads t with
  | allocate index table i rc =>
      have hidle : h.shared.threads t ≠ .idle := by
        rw [hpc]
        nofun
      unfold guarded
      dsimp only
      split_ifs with hguard
      · refine hinv.lookup hidle (fun _ _ => rfl) (hinv.alive (hinv.of_busy hidle).2) rfl rfl
          (fun u hu => .inr ⟨(Option.some.inj hu).symm, index, table, i, rc, hpc⟩)
          (fun u hu => .inl ?_) ?_
        · rcases hu with hu | hu
          · exact hu
          · exact (Option.some.inj hu) ▸ hguard.1
        exact hinv.accounted.congr rfl rfl rfl fun _ => rfl
      · trivial
  | _ => trivial

theorem Inv.step_malloc (hinv : Inv NB_SEGMENTS h) (t biggertable : ℕ) :
    StepOk NB_SEGMENTS h (.malloc t biggertable)
      (h.step NB_SEGMENTS (.malloc t biggertable)) := by
  unfold stm_hashtable_s.step
  dsimp only
  cases hpc : h.shared.threads t with
  | malloc index table =>
      have hidle : h.shared.threads t ≠ .idle := by
        rw [hpc]
        nofun
      have hfits := hinv.alive (hinv.of_busy hidle).2
      have hok := hfits.step_malloc biggertable hpc
      obtain ⟨tab, older, htab, hw, -, hlinked⟩ := hfits.writer (t := t) (by rw [hpc]; rfl)
      rw [hpc] at hw
      obtain ⟨rfl, -⟩ := hw
      unfold SharedHashtable.step at hok ⊢
      dsimp only at hok ⊢
      rw [hpc] at hok ⊢
      dsimp only at hok ⊢
      rw [with_table_eq htab] at hok ⊢
      unfold guarded at hok ⊢
      split_ifs at hok ⊢ with hmalloc
      · obtain ⟨-, -, hfree, -⟩ := hmalloc
        refine hinv.lookup hidle (fun u hu => Function.update_of_ne hu _ _) hok rfl rfl
          (fun u hu => .inl ⟨hu, ?_⟩) (fun _ hu => hu) (hinv.accounted.malloc hlinked hfree rfl rfl rfl fun q => ?_)
        · rintro rfl
          obtain ⟨-, index', table, i, rc, hpc'⟩ := hinv.allocating u hu
          rw [hpc] at hpc'
          cases hpc'
        · refine (congrArg Option.isSome (tables_set_table (q := q))).trans ?_
          split_ifs with hq
          · simp [hq]
          · rw [isSome_set_table (by rw [htab]; rfl)]
            simp [hq]
      · trivial
  | _ =>
      unfold SharedHashtable.step
      dsimp only
      rw [hpc]
      trivial

/-- What is in the items does not matter. -/
theorem FitsInv.update_items {turns : ℕ → ℕ} (hinv : FitsInv s initial turns)
    (f : EntryPtr → EntryPtr) : FitsInv { s with
      tables := fun p => (s.tables p).map (Table.update_items f) } initial turns := by
  have hslots : ∀ (T : Table) i, ((T.update_items f).items i).isSome = (T.items i).isSome :=
    fun T i => Option.isSome_map
  have hfits : ∀ T : Table, T.Fits → (T.update_items f).Fits :=
    fun T hT => hT.congr rfl (hslots T)
  have hcount : ∀ T : Table, (T.update_items f).count = T.count :=
    fun T => Table.count_congr rfl (hslots T)
  have hmap : ∀ p T, s.tables p = some T → (s.tables p).map (Table.update_items f)
      = some (T.update_items f) := by
    intro p T hT
    rw [hT]
    rfl
  have hcounts : ∀ T rc, Counts T rc T.count → Counts (T.update_items f) rc
      (T.update_items f).count := by
    intro T rc hT
    rw [hcount]
    exact hT
  have hfilled : ∀ T b j rc, Filled T j b rc → Filled (T.update_items f) j (b.update_items f) rc := by
    intro T b j rc hF
    refine ⟨hfits b hF.fits, ?_, ?_⟩
    · rw [hcount, Table.count_below_congr (hslots T)]
      exact hF.count
    · rw [hcount]
      exact hF.counter
  have hkeeps : Keeps s { s with tables := fun p => (s.tables p).map (Table.update_items f) } := by
    refine ⟨fun p T _ hT => ⟨_, hmap p T hT, rfl, fun i hi => ?_⟩, fun p hp => ?_⟩
    · rw [← Option.isSome_iff_ne_none] at hi ⊢
      rw [hslots]
      exact hi
    · obtain ⟨T, hT, hcur⟩ := hp
      exact ⟨_, hmap p T hT, hcur⟩
  refine ⟨fun p T hT => ?_, ?_, fun t => hkeeps.reader (hinv.reader t), hinv.index⟩
  · obtain ⟨T', hT', rfl⟩ := Option.map_eq_some_iff.mp hT
    exact hfits T' (hinv.fits p T' hT')
  · obtain ⟨tab, older, bigger, htab, hworking, hlinked⟩ := hinv.working
    refine ⟨_, older, bigger, hmap _ _ htab, ?_, ?_, hlinked.nodup, fun p => ?_,
      hlinked.unlinked⟩
    · rcases hworking with ⟨hnone, hc, hb⟩ | ⟨t, ht, hothers, hb⟩
      · exact .inl ⟨hnone, hcounts _ _ hc, hb⟩
      · refine .inr ⟨t, ?_, hothers, hb⟩
        dsimp only
        cases hpc : s.threads t with
        | locked index table i rc =>
            rw [hpc] at ht
            exact ⟨ht.1, ht.2.1, hcounts _ _ ht.2.2.1, ht.2.2.2⟩
        | unlock_restart index table rc =>
            rw [hpc] at ht
            exact ⟨ht.1, ht.2.1, hcounts _ _ ht.2.2⟩
        | allocate index table i rc =>
            rw [hpc] at ht
            obtain ⟨htable, hlock, hc, hi, hnone, hrc⟩ := ht
            exact ⟨htable, hlock, hcounts _ _ hc, hi, by rw [← Option.map_none, ← hnone]; rfl, hrc⟩
        | store index table i rc entry =>
            rw [hpc] at ht
            obtain ⟨htable, hlock, hc, hi, hnone, hrc⟩ := ht
            exact ⟨htable, hlock, hcounts _ _ hc, hi, by rw [← Option.map_none, ← hnone]; rfl, hrc⟩
        | unlock index table rc entry =>
            rw [hpc] at ht
            exact ⟨ht.1, ht.2.1, hcounts _ _ ht.2.2⟩
        | malloc index table =>
            rw [hpc] at ht
            exact ht
        | copy index table b j rc =>
            rw [hpc] at ht
            obtain ⟨htable, hrc, hptr, hne, hj, T, hT, hmask, hcounter, hF⟩ := ht
            exact ⟨htable, hrc, hptr, hne, hj, _, hmap _ _ hT, hmask, hcounter, hfilled _ _ _ _ hF⟩
        | set_counter index table b rc =>
            rw [hpc] at ht
            obtain ⟨htable, hrc, hptr, hne, T, hT, hcounter, hF⟩ := ht
            exact ⟨htable, hrc, hptr, hne, _, hmap _ _ hT, hcounter, hfilled _ _ _ _ hF⟩
        | publish index table b =>
            rw [hpc] at ht
            obtain ⟨htable, hrc, hptr, hne, T, hT, hc⟩ := ht
            exact ⟨htable, hrc, hptr, hne, _, hmap _ _ hT, hcounts _ _ hc⟩
        | _ =>
            rw [hpc] at ht
            exact absurd ht (fun h => h)
    · refine hlinked.path.congr fun x _ y hxy => ?_
      obtain ⟨T, hT, hrc⟩ := hxy
      exact ⟨_, hmap x T hT, hrc⟩
    · dsimp only
      rw [Option.isSome_map]
      exact hlinked.live p

/-- With no lookup in `stm_allocate` a compaction returns. -/
theorem Inv.compacted (hinv : Inv NB_SEGMENTS h) {biggertable : ℕ} (keep : EntryPtr → Bool)
    (halive : h.alive = true) (hsafe : h.at_safe_points NB_SEGMENTS)
    (hmalloc : h.compact_malloc_ok biggertable) (hin : h.in_allocate = none) :
    Returns (h.stm_compact_hashtable biggertable keep) fun h' =>
      (∃ older, SharedHashtable.Quiet h'.shared h'.initial_table older) ∧ h'.Accounted ∧ Compacted h h'
        ∧ ∀ t, h'.shared.threads t = .idle := by
  have hidle : ∀ t, h.shared.threads t = .idle := by
    intro t
    by_cases ht : t ∈ List.range' 1 NB_SEGMENTS
    · refine (hsafe t ht).resolve_right ?_
      rw [hin]
      nofun
    · exact hinv.outside t ht
  obtain ⟨older, hquiet⟩ := (hinv.alive halive).quiet hidle
  refine (stm_compact_hashtable_spec hquiet hinv.accounted hmalloc).mono ?_
  rintro h' ⟨hquiet', hacc, hcompacted⟩
  refine ⟨hquiet', hacc, hcompacted, fun t => ?_⟩
  rw [hcompacted.threads]
  exact hidle t

theorem Inv.step_major_collection (hinv : Inv NB_SEGMENTS h) (biggertable : ℕ)
    (keep : EntryPtr → Bool) : StepOk NB_SEGMENTS h (.major_collection biggertable keep)
      (h.step NB_SEGMENTS (.major_collection biggertable keep)) := by
  unfold stm_hashtable_s.step guarded
  dsimp only
  split_ifs with hguard
  swap
  · trivial
  obtain ⟨halive, -, hsafe, hmalloc⟩ := hguard
  by_cases hin : h.in_allocate = none
  · obtain ⟨h', hres, ⟨older', hquiet'⟩, hacc, hcompacted, hidle'⟩ :=
      hinv.compacted keep halive hsafe hmalloc hin
    rw [hres]
    refine ⟨fun t _ => hidle' t, hquiet'.fits, fun _ => hquiet'.inv hidle', fun hdead => ?_,
      fun t ht => ?_, fun _ _ u _ => hidle' u, hacc⟩
    · rw [hcompacted.alive, halive] at hdead
      cases hdead
    · rw [hcompacted.in_allocate, hin] at ht
      cases ht
  · have hfits := hinv.alive halive
    -- the first assertion fails
    cases hres : h.stm_compact_hashtable biggertable keep with
    | none => exact hin
    | some h' =>
        exfalso
        obtain ⟨t, ht⟩ := Option.ne_none_iff_exists'.mp hin
        obtain ⟨-, index, table, i, rc, hpc⟩ := hinv.allocating t ht
        obtain ⟨tab, -, htab, hw, -⟩ := hfits.writer (t := t) (by rw [hpc]; rfl)
        unfold stm_compact_hashtable compact at hres
        rw [htab] at hres
        dsimp only [Option.bind_eq_bind, Option.bind_some] at hres
        unfold c_assert at hres
        rw [if_neg (not_not.mpr hw.even)] at hres
        cases hres

theorem Inv.step_abort (hinv : Inv NB_SEGMENTS h) (t : ℕ) :
    StepOk NB_SEGMENTS h (.abort t) (h.step NB_SEGMENTS (.abort t)) := by
  unfold stm_hashtable_s.step guarded
  dsimp only
  split_ifs with hin
  swap
  · trivial
  obtain ⟨halive, index, table, i, rc, hpc⟩ := hinv.allocating t hin
  have hfits := hinv.alive halive
  obtain ⟨tab, older, htab, hw, -, hlinked⟩ := hfits.writer (t := t) (by rw [hpc]; rfl)
  rw [hpc] at hw hlinked
  have hidle : ∀ u, (h.shared.goto t .idle).threads u = .idle := by
    intro u
    rw [threads_goto]
    split_ifs with hu
    · rfl
    · exact hinv.own t (.inr hin) u hu
  exact ⟨fun u _ => hidle u, hfits.fits, nofun,
    fun _ => ⟨hidle, .inr ⟨older, tab, htab, hw.2.1, hlinked.frame rfl (fun _ _ => rfl)
      fun _ => rfl⟩⟩, nofun, fun _ _ u _ => hidle u, hinv.accounted.congr rfl rfl rfl fun _ => rfl⟩

theorem Inv.step_free (hinv : Inv NB_SEGMENTS h) :
    StepOk NB_SEGMENTS h .stm_hashtable_free (h.step NB_SEGMENTS .stm_hashtable_free) := by
  unfold stm_hashtable_s.step guarded
  dsimp only
  split_ifs with hguard
  swap
  · trivial
  obtain ⟨hsome, hsafe⟩ := hguard
  have hidle : ∀ t, h.shared.threads t = .idle := by
    intro t
    by_cases ht : t ∈ List.range' 1 NB_SEGMENTS
    · exact hsafe t ht
    · exact hinv.outside t ht
  cases halive : h.alive with
  | true =>
      obtain ⟨older, hquiet⟩ := (hinv.alive halive).quiet hidle
      obtain ⟨h', hres, hthreads, hin, -, hdead, hnone, hacc⟩ :=
        stm_hashtable_free_spec hquiet hinv.accounted
      rw [hres]
      have hidle' : ∀ t, h'.shared.threads t = .idle := by
        intro t
        rw [hthreads]
        exact hidle t
      refine ⟨fun t _ => hidle' t, fun p tab hp => ?_, fun ht => ?_,
        fun _ => ⟨hidle', .inl hnone⟩, fun t ht => ?_, fun _ _ u _ => hidle' u, hacc⟩
      · rw [hnone p] at hp
        cases hp
      · rw [hdead] at ht
        cases ht
      · rw [hin] at ht
        obtain ⟨-, index, table, i, rc, hpc⟩ := hinv.allocating t ht
        rw [hidle t] at hpc
        cases hpc
  | false =>
      rcases (hinv.dead halive).2 with hnone | hlocked
      · rw [hnone] at hsome
        cases hsome
      · rw [stm_hashtable_free_locked hlocked]
        exact halive

theorem Inv.step_update_items (hinv : Inv NB_SEGMENTS h) (f : EntryPtr → EntryPtr) :
    StepOk NB_SEGMENTS h (.update_items f) (h.step NB_SEGMENTS (.update_items f)) := by
  have hslots : ∀ (T : Table) i, ((T.update_items f).items i).isSome = (T.items i).isSome :=
    fun T i => Option.isSome_map
  refine ⟨hinv.outside, fun p T hT => ?_, fun halive => FitsInv.update_items (hinv.alive halive) f,
    fun hdead => ⟨(hinv.dead hdead).1, ?_⟩, hinv.allocating, hinv.own,
    hinv.accounted.congr rfl rfl rfl fun p => Option.isSome_map⟩
  · obtain ⟨T', hT', rfl⟩ := Option.map_eq_some_iff.mp hT
    exact (hinv.fits p T' hT').congr rfl (hslots T')
  · rcases (hinv.dead hdead).2 with hnone | ⟨older, tab, htab, hlock, hlinked⟩
    · refine .inl fun p => ?_
      show (h.shared.tables p).map _ = none
      rw [hnone p]
      rfl
    · refine .inr ⟨older, tab.update_items f, ?_, hlock, ?_, hlinked.nodup, fun p => ?_,
        hlinked.unlinked⟩
      · show (h.shared.tables h.shared.table).map _ = _
        rw [htab]
        rfl
      · refine hlinked.path.congr fun x _ y hxy => ?_
        obtain ⟨T, hT, hrc⟩ := hxy
        refine ⟨T.update_items f, ?_, hrc⟩
        show (h.shared.tables x).map _ = _
        rw [hT]
        rfl
      · show ((h.shared.tables p).map _).isSome = true ↔ _
        rw [Option.isSome_map]
        exact hlinked.live p

/-- Every step keeps the invariant, or fails an assertion because it comes in
the middle of a lookup. -/
theorem Inv.step (hinv : Inv NB_SEGMENTS h) (a : Act) :
    StepOk NB_SEGMENTS h a (h.step NB_SEGMENTS a) := by
  cases a with
  | call t index => exact hinv.step_call t index
  | step t => exact hinv.step_step t
  | allocate t => exact hinv.step_allocate t
  | allocated t addr => exact hinv.step_allocated t addr
  | malloc t biggertable => exact hinv.step_malloc t biggertable
  | minor_collection t =>
      unfold stm_hashtable_s.step guarded
      dsimp only
      split_ifs
      · exact ⟨hinv.outside, hinv.fits, hinv.alive, hinv.dead, hinv.allocating,
          fun u hu => hinv.own u (.inr (hu.resolve_left nofun)), hinv.accounted⟩
      · trivial
  | update_items f => exact hinv.step_update_items f
  | major_collection biggertable keep => exact hinv.step_major_collection biggertable keep
  | abort t => exact hinv.step_abort t
  | stm_hashtable_free => exact hinv.step_free

theorem Initial.inv (h0 : Initial h) : Inv NB_SEGMENTS h := by
  obtain ⟨p, nursery, rfl⟩ := h0
  have hread : ∀ q, (SharedHashtable.create p).tables q
      = if q = p then some (init_table INITIAL_HASHTABLE_SIZE) else none := by
    intro q
    show Function.update (fun _ => none) p (some (init_table INITIAL_HASHTABLE_SIZE)) q = _
    rw [Function.update_apply]
  have hlive : ∀ q, ((SharedHashtable.create p).tables q).isSome ↔ q = p := by
    intro q
    rw [hread]
    split_ifs with hq
    · exact ⟨fun _ => hq, fun _ => rfl⟩
    · exact ⟨nofun, fun h => absurd h hq⟩
  obtain ⟨tab, htab, hok, hcounts⟩ := (initial_create p).table
  have hquiet : SharedHashtable.Quiet (SharedHashtable.create p) p [] := by
    refine ⟨fun q T hT => ?_, ⟨tab, htab, hcounts⟩, .refl _, List.nodup_singleton _, fun q => ?_,
      nofun⟩
    · rw [hread] at hT
      split_ifs at hT
      cases hT
      exact (init_table_ok (k := 3) rfl (Nat.le_refl 3) (by omega)).fits
    · rw [hlive]
      show _ ↔ q ∈ [] ∨ q = p ∨ none = some q
      simp
  refine ⟨fun _ _ => rfl, hquiet.fits, fun _ => hquiet.inv fun _ => rfl, nofun, nofun,
    fun _ _ _ _ => rfl, fun q => ?_⟩
  show 0 = 0 + if ((SharedHashtable.create p).tables q).isSome = true ∧ q ≠ p then 1 else 0
  rw [if_neg]
  rintro ⟨hsome, hne⟩
  exact hne ((hlive q).mp hsome)

theorem inv_of_reachable (hreach : Reachable Initial (step NB_SEGMENTS) h) :
    Inv NB_SEGMENTS h := by
  refine hreach.invariant (fun _ => Initial.inv) ?_
  intro h a h' hinv _ hstep
  have hok := hinv.step a
  rw [hstep] at hok
  exact hok

/-! ## Searches end -/

/-- A table that the segments can come to, and that is neither locked nor
superseded, is the current one. -/
theorem Inv.counts (hinv : Inv NB_SEGMENTS h) {p : ℕ} {tab : Table} (hpub : h.shared.published p)
    (htab : h.shared.tables p = some tab) (hodd : ¬ IS_EVEN tab.resize_counter) :
    Counts tab tab.resize_counter tab.count := by
  have hcur : p = h.shared.table := by
    obtain ⟨T, hT, hcur⟩ := hpub
    rw [htab] at hT
    cases hT
    exact hcur.resolve_right (not_is_pointer_of_odd hodd)
  subst hcur
  cases halive : h.alive with
  | true =>
      obtain ⟨T, older, bigger, hT, hworking, -⟩ := (hinv.alive halive).working
      rw [htab] at hT
      cases hT
      rcases hworking with ⟨-, hcounts, -⟩ | ⟨t, ht, -⟩
      · exact hcounts
      · exact absurd ht.even hodd
  | false =>
      rcases (hinv.dead halive).2 with hnone | ⟨older, T, hT, hlock, -⟩
      · rw [hnone] at htab
        cases htab
      · rw [htab] at hT
        cases hT
        rw [hlock] at hodd
        exact absurd (by decide) hodd

/-- In every run, with any number of segments and whatever the collections do:
the entries of an unlocked table are those that its counter has been lowered
for; every table has an empty slot, and the probes for an index of 64 bits come
to every slot; `_insert_clean` ends; the loop of a lookup makes at most
`mask + 13` turns, while others insert; and no loop of a growth or a compaction
runs for ever. -/
theorem hashtable_searches_end (hreach : Reachable Initial (step NB_SEGMENTS) h) :
    (∀ p tab, h.shared.published p → h.shared.tables p = some tab →
        ¬ IS_EVEN tab.resize_counter →
        6 * tab.count + tab.resize_counter = 4 * (tab.mask + 1) + 1
          ∧ tab.resize_counter % 2 = 1 ∧ 1 ≤ tab.resize_counter)
      ∧ (∀ p tab, h.shared.tables p = some tab →
        (∃ k, tab.mask + 1 = 2 ^ k) ∧ (∃ i ≤ tab.mask, tab.items i = none)
          ∧ (∀ index < 2 ^ 64, ∀ i ≤ tab.mask, ∃ n ≤ tab.mask + 13, slot tab.mask index n = i)
          ∧ ∀ entry, Returns (insert_clean tab entry) fun tab' => tab'.count = tab.count + 1)
      ∧ (∀ t index table p, h.shared.threads t = .probing index table p →
        ∃ tab, h.shared.tables table = some tab ∧ h.turns t + 1 ≤ tab.mask + 13)
      ∧ ∀ a, h.step NB_SEGMENTS a = .fault → h.Interrupts a := by
  have hinv := inv_of_reachable hreach
  refine ⟨fun p tab hpub htab hodd => ?_, fun p tab htab => ?_, fun t index table p hpc => ?_,
    fun a hfault => ?_⟩
  · obtain ⟨-, hcounts⟩ := hinv.counts hpub htab hodd
    rw [is_even_iff] at hodd
    exact ⟨by omega, by omega, by omega⟩
  · have hfits := hinv.fits p tab htab
    refine ⟨?_, hfits.exists_empty, fun index hindex i hi => hfits.mask.slot_covers hindex hi,
      fun entry => ?_⟩
    · obtain ⟨k, -, -, hk⟩ := hfits.mask
      exact ⟨k, hk⟩
    · obtain ⟨i, hi, hnone, hres⟩ := insert_clean_ends hfits entry
      exact ⟨_, hres, Table.count_set_item hi hnone _⟩
  · have hbusy : h.shared.threads t ≠ .idle := by
      rw [hpc]
      nofun
    have hfits := hinv.alive (hinv.of_busy hbusy).2
    have hindex := hfits.index t
    have hreader := hfits.reader t
    rw [hpc] at hindex hreader
    obtain ⟨-, tab, htab, -, hpast⟩ := hreader
    have hturns := (hinv.fits table tab htab).turns_le hindex hpast
    exact ⟨tab, htab, by omega⟩
  · have hok := hinv.step a
    rw [hfault] at hok
    exact hok

/-- Segment 1 looks up 5, which is inserted, and then 13, for which it first
comes to the same slot. -/
def colliding_lookups : List Act :=
  [.call 1 5, .step 1, .step 1, .step 1, .step 1, .step 1, .allocated 1 64, .step 1, .step 1,
    .call 1 13, .step 1, .step 1]

theorem hashtable_searches_end_colliding : ∃ h : stm_hashtable_s,
    run (step 1) (fun _ _ => True) (stm_hashtable_create 2 none) colliding_lookups = .next h
      ∧ h.shared.threads 1 = .probing 13 2 (5, 13) ∧ ∃ tab, h.shared.tables 2 = some tab
        ∧ h.turns 1 + 1 ≤ tab.mask + 13 := by
  have htest : (run (step 1) (fun _ _ => True) (stm_hashtable_create 2 none)
      colliding_lookups).test
      (fun h => decide (h.shared.threads 1 = .probing 13 2 (5, 13))) = true := by
    decide +kernel
  obtain ⟨h, hrun, hpc⟩ := Outcome.of_test htest
  have hpc := of_decide_eq_true hpc
  have h0 : Reachable Initial (step 1) (stm_hashtable_create 2 none) := .start ⟨2, none, rfl⟩
  have hall := (hashtable_searches_end (h0.run _ hrun)).2.2.1
  exact ⟨h, hrun, hpc, hall 1 13 2 (5, 13) hpc⟩

/-! ## The chain of tables -/

/-- The step does not come in the middle of a lookup. -/
def Undisturbed (h : stm_hashtable_s) : Act → Prop
  | .abort _ => False
  | .major_collection _ _ => h.in_allocate = none
  | _ => True

/-- A dead hashtable has no tables, if no lookup has been aborted. -/
def Gone (h : stm_hashtable_s) : Prop := h.alive = false → ∀ p, h.shared.tables p = none

theorem gone_step {a : Act} (hinv : Inv NB_SEGMENTS h) (hgone : h.Gone) (hok : h.Undisturbed a)
    (hs : h.step NB_SEGMENTS a = .next h') : h'.Gone := by
  intro hdead
  cases halive : h.alive with
  | true =>
      -- only `stm_hashtable_free` ends it
      unfold stm_hashtable_s.step at hs
      cases a with
      | call t index =>
          obtain ⟨-, hs⟩ := guarded_eq_next.mp hs
          cases hs
          exact absurd halive (Bool.eq_false_iff.mp hdead)
      | step t =>
          obtain ⟨shared, -, hs⟩ := Outcome.bind_eq_next.mp hs
          cases hs
          exact absurd halive (Bool.eq_false_iff.mp hdead)
      | allocate t =>
          dsimp only at hs
          split at hs
          · obtain ⟨-, hs⟩ := guarded_eq_next.mp hs
            cases hs
            exact absurd halive (Bool.eq_false_iff.mp hdead)
          · cases hs
      | allocated t addr =>
          dsimp only at hs
          split at hs
          · split_ifs at hs
            · cases hs
              exact absurd halive (Bool.eq_false_iff.mp hdead)
            · obtain ⟨-, hs⟩ := guarded_eq_next.mp hs
              cases hs
              exact absurd halive (Bool.eq_false_iff.mp hdead)
          · cases hs
      | malloc t biggertable =>
          obtain ⟨shared, -, hs⟩ := Outcome.bind_eq_next.mp hs
          cases hs
          exact absurd halive (Bool.eq_false_iff.mp hdead)
      | minor_collection t =>
          obtain ⟨-, hs⟩ := guarded_eq_next.mp hs
          cases hs
          exact absurd halive (Bool.eq_false_iff.mp hdead)
      | update_items f =>
          cases hs
          exact absurd halive (Bool.eq_false_iff.mp hdead)
      | major_collection biggertable keep =>
          obtain ⟨⟨-, -, hsafe, hmalloc⟩, hs⟩ := guarded_eq_next.mp hs
          rw [Outcome.ofOption_eq_next] at hs
          obtain ⟨h'', hres, -, -, hcompacted, -⟩ := hinv.compacted keep halive hsafe hmalloc hok
          rw [hs] at hres
          cases hres
          rw [hcompacted.alive, halive] at hdead
          cases hdead
      | abort t => exact absurd hok (fun h => h)
      | stm_hashtable_free =>
          obtain ⟨⟨-, hsafe⟩, hs⟩ := guarded_eq_next.mp hs
          rw [Outcome.ofOption_eq_next] at hs
          have hidle : ∀ t, h.shared.threads t = .idle := by
            intro t
            by_cases ht : t ∈ List.range' 1 NB_SEGMENTS
            · exact hsafe t ht
            · exact hinv.outside t ht
          obtain ⟨older, hquiet⟩ := (hinv.alive halive).quiet hidle
          obtain ⟨h'', hres, -, -, -, -, hnone, -⟩ := stm_hashtable_free_spec hquiet hinv.accounted
          rw [hs] at hres
          cases hres
          exact hnone
  | false =>
      -- nothing is left to be freed
      have hnone := hgone halive
      have hidle := (hinv.dead halive).1
      unfold stm_hashtable_s.step at hs
      cases a with
      | call t index =>
          obtain ⟨⟨htrue, -⟩, -⟩ := guarded_eq_next.mp hs
          rw [halive] at htrue
          cases htrue
      | step t =>
          dsimp only at hs
          rw [hidle t] at hs
          cases hs
      | allocate t =>
          dsimp only at hs
          rw [hidle t] at hs
          cases hs
      | allocated t addr =>
          dsimp only at hs
          rw [hidle t] at hs
          cases hs
      | malloc t biggertable =>
          unfold SharedHashtable.step at hs
          dsimp only at hs
          rw [hidle t] at hs
          cases hs
      | minor_collection t =>
          obtain ⟨-, hs⟩ := guarded_eq_next.mp hs
          cases hs
          exact hnone
      | update_items f =>
          cases hs
          intro p
          show (h.shared.tables p).map _ = none
          rw [hnone p]
          rfl
      | major_collection biggertable keep =>
          obtain ⟨⟨htrue, -⟩, -⟩ := guarded_eq_next.mp hs
          rw [halive] at htrue
          cases htrue
      | abort t => exact absurd hok (fun h => h)
      | stm_hashtable_free =>
          obtain ⟨⟨hsome, -⟩, -⟩ := guarded_eq_next.mp hs
          rw [hnone] at hsome
          cases hsome

/-- In every run in which no collection and no abort comes while a lookup is in
`stm_allocate`: the counters lead from `initial_table` to the current table,
which is allocated, and whose counter is odd unless a lookup is at work on it;
every table has been freed as often as it was allocated, apart from those that
are still there, and after `stm_hashtable_free` there are none; no step uses a
table that has been freed, or fails an assertion. -/
theorem tables_freed_once
    (hreach : ReachableIf Initial (step NB_SEGMENTS) Undisturbed h) :
    (h.alive = true → Relation.ReflTransGen h.shared.links h.initial_table h.shared.table
        ∧ ∃ tab, h.shared.tables h.shared.table = some tab
          ∧ ((∀ t, (h.shared.threads t).writes = false) → ¬ IS_EVEN tab.resize_counter))
      ∧ (∀ p, h.malloced.count p = h.freed.count p
        + if (h.shared.tables p).isSome = true ∧ p ≠ h.initial_table then 1 else 0)
      ∧ (h.alive = false → ∀ p, h.malloced.count p = h.freed.count p)
      ∧ ∀ a, h.Undisturbed a → h.step NB_SEGMENTS a ≠ .fault := by
  have hinv : Inv NB_SEGMENTS h ∧ h.Gone := by
    refine @ReachableIf.invariant _ _ _ _ _ (fun h => Inv NB_SEGMENTS h ∧ h.Gone)
      (fun h h0 => ⟨h0.inv, ?_⟩) ?_ h hreach
    · obtain ⟨p, nursery, rfl⟩ := h0
      nofun
    · rintro h a h' ⟨hinv, hgone⟩ hok hstep
      have hnext := hinv.step a
      rw [hstep] at hnext
      exact ⟨hnext, gone_step hinv hgone hok hstep⟩
  obtain ⟨hinv, hgone⟩ := hinv
  refine ⟨fun halive => ?_, hinv.accounted, fun hdead p => ?_, fun a hok hfault => ?_⟩
  · obtain ⟨tab, older, bigger, htab, hworking, hlinked⟩ := (hinv.alive halive).working
    refine ⟨hlinked.path.reflTransGen, tab, htab, fun hnone => ?_⟩
    rcases hworking with ⟨-, hcounts, -⟩ | ⟨t, ht, -⟩
    · exact hcounts.1
    · have hwrites := ht.writes
      rw [hnone t] at hwrites
      cases hwrites
  · rw [hinv.accounted p, hgone hdead p]
    simp
  · have hint := hinv.step a
    rw [hfault] at hint
    cases a with
    | major_collection biggertable keep => exact hint hok
    | stm_hashtable_free =>
        -- a dead hashtable has no `initial_table` that could be freed
        replace hint : h.alive = false := hint
        unfold stm_hashtable_s.step guarded at hfault
        dsimp only at hfault
        rw [hgone hint h.initial_table] at hfault
        simp at hfault
    | _ => exact hint

/-- Segment 1 inserts an entry, and a major collection traces the hashtable. -/
def insert_and_collect : List Act :=
  [.call 1 5, .step 1, .step 1, .step 1, .step 1, .step 1, .allocated 1 64, .step 1, .step 1,
    .major_collection 4 (fun _ => true)]

instance (h : stm_hashtable_s) (a : Act) : Decidable (h.Undisturbed a) := by
  unfold Undisturbed
  split
  · exact inferInstance
  · exact inferInstance
  · exact inferInstance

theorem tables_freed_once_insert : ∃ h : stm_hashtable_s,
    run (step 1) Undisturbed (stm_hashtable_create 2 none) insert_and_collect = .next h
      ∧ h.malloced.count 4 = h.freed.count 4
        + (if (h.shared.tables 4).isSome = true ∧ 4 ≠ h.initial_table then 1 else 0)
      ∧ h.step 1 .stm_hashtable_free ≠ .fault := by
  have htest : (run (step 1) Undisturbed (stm_hashtable_create 2 none)
      insert_and_collect).test (fun h => decide (h.alive = true)) = true := by
    decide +kernel
  obtain ⟨h, hrun, -⟩ := Outcome.of_test htest
  have h0 : ReachableIf Initial (step 1) Undisturbed (stm_hashtable_create 2 none) :=
    .start ⟨2, none, rfl⟩
  have hall := tables_freed_once (h0.run _ hrun)
  exact ⟨h, hrun, hall.2.1 4, hall.2.2.2 .stm_hashtable_free trivial⟩

/-- The hashtable is in the nursery of segment 1, which looks up 5 and is aborted
at the safe point in `stm_allocate`. -/
def abort_in_allocate : List Act :=
  [.call 1 5, .step 1, .step 1, .step 1, .step 1, .step 1, .allocate 1, .abort 1]

/-- No lookup is running, but the counter of the current table is the
`RESIZING_LOCK`, and `stm_hashtable_free` fails its assertion. -/
theorem lock_never_released : ∃ h : stm_hashtable_s, Reachable Initial (step 1) h
    ∧ (∀ t, (h.shared.threads t).writes = false)
    ∧ (∃ tab, h.shared.tables h.shared.table = some tab ∧ IS_EVEN tab.resize_counter)
    ∧ h.step 1 .stm_hashtable_free = .fault := by
  have htest : (run (step 1) (fun _ _ => True) (stm_hashtable_create 2 (some 1))
      abort_in_allocate).test (fun h => decide (h.alive = false)
        && (h.shared.tables h.shared.table).isSome) = true := by
    decide +kernel
  obtain ⟨h, hrun, hend⟩ := Outcome.of_test htest
  rw [Bool.and_eq_true, decide_eq_true_eq] at hend
  obtain ⟨hdead, hsome⟩ := hend
  have h0 : Reachable Initial (step 1) (stm_hashtable_create 2 (some 1)) := .start ⟨2, _, rfl⟩
  have hreach := h0.run _ hrun
  obtain ⟨hidle, hnone | hlocked⟩ := (inv_of_reachable hreach).dead hdead
  · rw [hnone] at hsome
    cases hsome
  · refine ⟨h, hreach, fun t => ?_, ?_, ?_⟩
    · rw [hidle t]
      rfl
    · obtain ⟨older, tab, htab, hlock, -⟩ := hlocked
      exact ⟨tab, htab, by rw [hlock]; rfl⟩
    · obtain ⟨older, tab, htab, hlock, hlinked⟩ := id hlocked
      unfold stm_hashtable_s.step
      dsimp only
      unfold guarded
      rw [if_pos ⟨hlinked.initial_isSome, fun t _ => hidle t⟩, stm_hashtable_free_locked hlocked]
      rfl

end stm_hashtable_s

end Stmgc.C7
