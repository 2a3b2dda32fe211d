/-
`c8/stm/sync.c`: the segments that the threads run their transactions in.

A thread has one `stm_thread_local_t`, and what it does while it holds the
mutex is one step. `holds` is what the thread knows: the segment it has
acquired and not yet released.
-/
import Stmgc.Lib.Loop
import Stmgc.Lib.Machine
import Mathlib

namespace Stmgc.C8

open Stmgc.Lib

/-- The part of `sync_ctl`, of the segments and of the threads that is about
segment allocation. -/
structure Segments where
  in_use1 : ℕ → Bool
  running_thread : ℕ → Option ℕ
  associated_segment_num : ℕ → ℕ
  /-- the segment that the GS register of the thread is set to -/
  gs : ℕ → ℕ
  stm_all_thread_locals : List ℕ
  holds : ℕ → Option ℕ

namespace Segments

inductive Act where
  | stm_register_thread_local (tl : ℕ)
  | stm_unregister_thread_local (tl : ℕ)
  /-- `_stm_start_transaction`, once more after every wait -/
  | start (tl : ℕ)
  | finish (tl : ℕ)

variable (NB_SEGMENTS : ℕ)

/-- The loop of `acquire_thread_segment`: the segment that it finds. -/
def search (in_use1 : ℕ → Bool) : ℕ → ℕ → Option ℕ
  | 0, _ => none
  | retries + 1, num =>
    let num := num % NB_SEGMENTS
    if in_use1 num = false then some num else search in_use1 retries num

def set_gs_register (s : Segments) (tl num : ℕ) : Segments :=
  { s with gs := Function.update s.gs tl num }

/-- The label `got_num`. -/
def got_num (s : Segments) (tl num : ℕ) : Option Segments := do
  let s := { s with in_use1 := Function.update s.in_use1 num true }
  c_assert (s.gs tl = num)
  c_assert (s.running_thread (s.gs tl) = none)
  return { s with running_thread := Function.update s.running_thread (s.gs tl) (some tl) }

/-- `acquire_thread_segment`. It waits for `C_SEGMENT_FREE` before it returns
`false`. -/
def acquire_thread_segment (s : Segments) (tl : ℕ) : Option (Bool × Segments) := do
  c_assert (tl ∈ s.stm_all_thread_locals)
  let num := s.associated_segment_num tl
  if s.in_use1 num = false then do
    let s ← s.got_num tl num
    return (true, s)
  else
    match search NB_SEGMENTS s.in_use1 NB_SEGMENTS num with
    | some num => do
      let s := { s with associated_segment_num := Function.update s.associated_segment_num tl num }
      let s ← (s.set_gs_register tl num).got_num tl num
      return (true, s)
    | none => return (false, s)

/-- `release_thread_segment`. -/
def release_thread_segment (s : Segments) (tl : ℕ) : Option Segments := do
  c_assert (s.running_thread (s.gs tl) = some tl)
  let s := { s with running_thread := Function.update s.running_thread (s.gs tl) none }
  c_assert (s.in_use1 (s.associated_segment_num tl) = true)
  return { s with in_use1 := Function.update s.in_use1 (s.associated_segment_num tl) false }

/-- The number that a new thread gets. -/
def first_segment_num (s : Segments) : ℕ :=
  match s.stm_all_thread_locals.getLast? with
  | none => 0
  | some prev => (s.associated_segment_num prev + 1) % NB_SEGMENTS

def step (s : Segments) : Act → Outcome Segments
  | .stm_register_thread_local tl => guarded (tl ∉ s.stm_all_thread_locals) <|
    let num := s.first_segment_num NB_SEGMENTS
    .next ({ s with
      stm_all_thread_locals := s.stm_all_thread_locals ++ [tl]
      associated_segment_num := Function.update s.associated_segment_num tl num
    }.set_gs_register tl num)
  | .stm_unregister_thread_local tl =>
    guarded (tl ∈ s.stm_all_thread_locals ∧ s.holds tl = none) <|
    .next { s with stm_all_thread_locals := s.stm_all_thread_locals.filter (· ≠ tl) }
  | .start tl => guarded (tl ∈ s.stm_all_thread_locals ∧ s.holds tl = none) <|
    match s.acquire_thread_segment NB_SEGMENTS tl with
    | none => .fault
    | some (true, s) =>
      .next { s with holds := Function.update s.holds tl (some (s.associated_segment_num tl)) }
    | some (false, s) => .next s
  | .finish tl => guarded (s.holds tl ≠ none) <|
    (Outcome.ofOption (s.release_thread_segment tl)).bind fun s =>
      .next { s with holds := Function.update s.holds tl none }

/-- No thread is registered. -/
structure Initial (s : Segments) : Prop where
  in_use1 : ∀ num, s.in_use1 num = false
  running_thread : ∀ num, s.running_thread num = none
  stm_all_thread_locals : s.stm_all_thread_locals = []
  holds : ∀ tl, s.holds tl = none

/-! ## The invariant -/

structure Inv (s : Segments) : Prop where
  in_use : ∀ num, s.in_use1 num = true ↔ s.running_thread num ≠ none
  runs : ∀ num tl, s.running_thread num = some tl ↔ s.holds tl = some num
  registered : ∀ tl num, s.holds tl = some num →
    tl ∈ s.stm_all_thread_locals ∧ s.associated_segment_num tl = num
  gs : ∀ tl ∈ s.stm_all_thread_locals, s.gs tl = s.associated_segment_num tl
  num_lt : ∀ tl ∈ s.stm_all_thread_locals, 0 < NB_SEGMENTS →
    s.associated_segment_num tl < NB_SEGMENTS

variable {NB_SEGMENTS} {s s' : Segments} {tl num : ℕ}

/-- What the loop finds is the number itself: it is not advanced. -/
theorem search_eq {in_use1 : ℕ → Bool} (hnum : num < NB_SEGMENTS) (retries : ℕ) :
    search NB_SEGMENTS in_use1 retries num
      = if 0 < retries ∧ in_use1 num = false then some num else none := by
  induction retries with
  | zero => rfl
  | succ retries ih =>
      rw [search, Nat.mod_eq_of_lt hnum, ih]
      by_cases hfree : in_use1 num = false
      · simp [hfree]
      · simp [hfree]

/-- The thread has acquired the segment. -/
def taken (s : Segments) (tl num : ℕ) : Segments :=
  { s with
    in_use1 := Function.update s.in_use1 num true
    running_thread := Function.update s.running_thread num (some tl)
    associated_segment_num := Function.update s.associated_segment_num tl num
    gs := Function.update s.gs tl num }

theorem Inv.running_thread_eq_none (hinv : Inv NB_SEGMENTS s) (hfree : s.in_use1 num = false) :
    s.running_thread num = none := by
  by_contra hsome
  rw [(hinv.in_use num).mpr hsome] at hfree
  cases hfree

/-- A free segment is given to a thread that holds none. -/
theorem Inv.taken (hinv : Inv NB_SEGMENTS s) (hreg : tl ∈ s.stm_all_thread_locals)
    (hholds : s.holds tl = none) (hfree : s.in_use1 num = false)
    (hlt : 0 < NB_SEGMENTS → num < NB_SEGMENTS) :
    Inv NB_SEGMENTS { s.taken tl num with holds := Function.update s.holds tl (some num) } := by
  have hnone := hinv.running_thread_eq_none hfree
  unfold Segments.taken
  refine ⟨fun i => ?_, fun i u => ?_, fun u i hu => ?_, fun u hu => ?_, fun u hu hpos => ?_⟩
  · dsimp only
    rw [Function.update_apply, Function.update_apply]
    split_ifs with hi
    · exact ⟨nofun, fun _ => rfl⟩
    · exact hinv.in_use i
  · dsimp only
    rw [Function.update_apply, Function.update_apply]
    split_ifs with hi hu hu
    · subst hi hu
      exact ⟨fun _ => rfl, fun _ => rfl⟩
    · -- another thread does not hold the segment that is free
      constructor
      · intro h
        exact absurd (Option.some.inj h).symm hu
      · intro h
        rw [hi, ← hinv.runs, hnone] at h
        cases h
    · constructor
      · intro h
        rw [hu, hinv.runs, hholds] at h
        cases h
      · intro h
        exact absurd (Option.some.inj h).symm hi
    · exact hinv.runs i u
  · dsimp only at hu ⊢
    rw [Function.update_apply] at hu
    split_ifs at hu with hut
    · subst hut
      rw [Function.update_self]
      exact ⟨hreg, Option.some.inj hu⟩
    · rw [Function.update_of_ne hut]
      exact hinv.registered u i hu
  · dsimp only at hu ⊢
    rw [Function.update_apply, Function.update_apply]
    split_ifs
    · rfl
    · exact hinv.gs u hu
  · dsimp only at hu ⊢
    rw [Function.update_apply]
    split_ifs
    · exact hlt hpos
    · exact hinv.num_lt u hu hpos

theorem got_num_eq (hgs : s.gs tl = num) (hnone : s.running_thread num = none)
    (hnum : s.associated_segment_num tl = num) : s.got_num tl num = some (s.taken tl num) := by
  unfold Segments.got_num
  rw [c_assert_eq_some, c_assert_eq_some]
  refine ⟨hgs, by rw [hgs]; exact hnone, ?_⟩
  unfold Segments.taken
  dsimp only
  rw [← hnum, Function.update_eq_self, hnum, ← hgs, Function.update_eq_self]
  rfl

/-- The thread gets its own segment if that is free, and waits otherwise,
whether or not another one is free. -/
theorem Inv.acquire (hinv : Inv NB_SEGMENTS s) (hreg : tl ∈ s.stm_all_thread_locals) :
    s.acquire_thread_segment NB_SEGMENTS tl
      = if s.in_use1 (s.associated_segment_num tl) = false
        then some (true, s.taken tl (s.associated_segment_num tl)) else some (false, s) := by
  unfold acquire_thread_segment
  split_ifs with hfree
  · rw [c_assert_eq_some]
    refine ⟨hreg, ?_⟩
    dsimp only
    rw [if_pos hfree,
      got_num_eq (hinv.gs tl hreg) (hinv.running_thread_eq_none hfree) rfl]
    rfl
  · rw [c_assert_eq_some]
    refine ⟨hreg, ?_⟩
    dsimp only
    have hsearch : search NB_SEGMENTS s.in_use1 NB_SEGMENTS (s.associated_segment_num tl)
        = none := by
      rcases Nat.eq_zero_or_pos NB_SEGMENTS with hzero | hpos
      · rw [hzero]
        rfl
      · rw [search_eq (hinv.num_lt tl hreg hpos), if_neg fun h => hfree h.2]
    rw [if_neg hfree, hsearch]
    rfl

/-- What a thread does when it releases the segment that it holds. -/
def released (s : Segments) (num : ℕ) : Segments :=
  { s with
    in_use1 := Function.update s.in_use1 num false
    running_thread := Function.update s.running_thread num none }

theorem Inv.release (hinv : Inv NB_SEGMENTS s) (hholds : s.holds tl = some num) :
    s.release_thread_segment tl = some (s.released num) := by
  obtain ⟨hreg, hnum⟩ := hinv.registered tl num hholds
  have hgs : s.gs tl = num := (hinv.gs tl hreg).trans hnum
  have hruns := (hinv.runs num tl).mpr hholds
  have huse : s.in_use1 num = true := (hinv.in_use num).mpr (by rw [hruns]; exact nofun)
  unfold release_thread_segment
  rw [c_assert_eq_some]
  refine ⟨by rw [hgs]; exact hruns, ?_⟩
  dsimp only
  rw [c_assert_eq_some]
  refine ⟨by rw [hnum]; exact huse, ?_⟩
  rw [hgs, hnum]
  rfl

theorem Inv.released (hinv : Inv NB_SEGMENTS s) (hholds : s.holds tl = some num) :
    Inv NB_SEGMENTS { s.released num with holds := Function.update s.holds tl none } := by
  unfold Segments.released
  refine ⟨fun i => ?_, fun i u => ?_, fun u i hu => ?_, hinv.gs, hinv.num_lt⟩
  · dsimp only
    rw [Function.update_apply, Function.update_apply]
    split_ifs with hi
    · exact ⟨nofun, fun h => absurd rfl h⟩
    · exact hinv.in_use i
  · dsimp only
    rw [Function.update_apply, Function.update_apply]
    split_ifs with hi hu hu
    · exact ⟨nofun, nofun⟩
    · -- a thread that holds the same segment is the thread that releases it
      refine ⟨nofun, fun h => ?_⟩
      rw [hi, ← hinv.runs, (hinv.runs num tl).mpr hholds] at h
      exact absurd (Option.some.inj h).symm hu
    · refine ⟨fun h => ?_, nofun⟩
      rw [hu, hinv.runs, hholds] at h
      exact absurd (Option.some.inj h).symm hi
    · exact hinv.runs i u
  · dsimp only at hu ⊢
    rw [Function.update_apply] at hu
    split_ifs at hu
    exact hinv.registered u i hu

theorem Inv.initial (hinit : Initial s) : Inv NB_SEGMENTS s := by
  refine ⟨fun num => ?_, fun num tl => ?_, fun tl num h => ?_, fun tl h => ?_, fun tl h => ?_⟩
  · rw [hinit.in_use1, hinit.running_thread]
    exact ⟨nofun, fun h => absurd rfl h⟩
  · rw [hinit.running_thread, hinit.holds]
    exact ⟨nofun, nofun⟩
  · rw [hinit.holds] at h
    cases h
  · rw [hinit.stm_all_thread_locals] at h
    cases h
  · rw [hinit.stm_all_thread_locals] at h
    cases h

theorem Inv.first_segment_num_lt (hpos : 0 < NB_SEGMENTS) :
    s.first_segment_num NB_SEGMENTS < NB_SEGMENTS := by
  unfold first_segment_num
  split
  · exact hpos
  · exact Nat.mod_lt _ hpos

theorem Inv.register (hinv : Inv NB_SEGMENTS s) (hnew : tl ∉ s.stm_all_thread_locals) (gs : ℕ)
    (hgs : 0 < NB_SEGMENTS → gs < NB_SEGMENTS) :
    Inv NB_SEGMENTS
      ({ s with
        stm_all_thread_locals := s.stm_all_thread_locals ++ [tl]
        associated_segment_num := Function.update s.associated_segment_num tl gs
      }.set_gs_register tl gs) := by
  unfold set_gs_register
  refine ⟨hinv.in_use, hinv.runs, fun u i hu => ?_, fun u hu => ?_, fun u hu hpos => ?_⟩
  · obtain ⟨hreg, hnum⟩ := hinv.registered u i hu
    have hut : u ≠ tl := fun h => hnew (h ▸ hreg)
    dsimp only
    rw [Function.update_of_ne hut]
    exact ⟨List.mem_append_left _ hreg, hnum⟩
  · dsimp only at hu ⊢
    rw [Function.update_apply, Function.update_apply]
    split_ifs with hut
    · rfl
    · exact hinv.gs u ((List.mem_append.mp hu).resolve_right fun h =>
        hut (List.mem_singleton.mp h))
  · dsimp only at hu ⊢
    rw [Function.update_apply]
    split_ifs with hut
    · exact hgs hpos
    · exact hinv.num_lt u ((List.mem_append.mp hu).resolve_right fun h =>
        hut (List.mem_singleton.mp h)) hpos

theorem Inv.unregister (hinv : Inv NB_SEGMENTS s) (hholds : s.holds tl = none) :
    Inv NB_SEGMENTS
      { s with stm_all_thread_locals := s.stm_all_thread_locals.filter (· ≠ tl) } := by
  refine ⟨hinv.in_use, hinv.runs, fun u i hu => ?_, fun u hu => ?_, fun u hu hpos => ?_⟩
  · obtain ⟨hreg, hnum⟩ := hinv.registered u i hu
    refine ⟨List.mem_filter.mpr ⟨hreg, decide_eq_true fun h => ?_⟩, hnum⟩
    rw [← h, hu] at hholds
    cases hholds
  · exact hinv.gs u (List.mem_filter.mp hu).1
  · exact hinv.num_lt u (List.mem_filter.mp hu).1 hpos

theorem Inv.step (hinv : Inv NB_SEGMENTS s) (a : Act)
    (hs : s.step NB_SEGMENTS a = .next s') : Inv NB_SEGMENTS s' := by
  cases a with
  | stm_register_thread_local tl =>
      obtain ⟨hnew, hs⟩ := guarded_eq_next.mp hs
      rw [Outcome.next.injEq] at hs
      subst hs
      exact hinv.register hnew _ fun hpos => Inv.first_segment_num_lt hpos
  | stm_unregister_thread_local tl =>
      obtain ⟨⟨-, hholds⟩, hs⟩ := guarded_eq_next.mp hs
      rw [Outcome.next.injEq] at hs
      subst hs
      exact hinv.unregister hholds
  | start tl =>
      obtain ⟨⟨hreg, hholds⟩, hs⟩ := guarded_eq_next.mp hs
      rw [hinv.acquire hreg] at hs
      split_ifs at hs with hfree
      · dsimp only at hs
        rw [Outcome.next.injEq] at hs
        subst hs
        have htaken := hinv.taken hreg hholds hfree fun hpos => hinv.num_lt tl hreg hpos
        rwa [show (s.taken tl (s.associated_segment_num tl)).associated_segment_num tl
          = s.associated_segment_num tl from Function.update_self ..]
      · dsimp only at hs
        rw [Outcome.next.injEq] at hs
        exact hs ▸ hinv
  | finish tl =>
      obtain ⟨hholds, hs⟩ := guarded_eq_next.mp hs
      obtain ⟨num, hnum⟩ := Option.ne_none_iff_exists'.mp hholds
      obtain ⟨t, hrel, hs⟩ := Outcome.bind_eq_next.mp hs
      rw [Outcome.ofOption_eq_next, hinv.release hnum, Option.some.injEq] at hrel
      subst hrel
      rw [Outcome.next.injEq] at hs
      subst hs
      exact hinv.released hnum

/-- No assertion fails. -/
theorem Inv.step_ne_fault (hinv : Inv NB_SEGMENTS s) (a : Act) :
    s.step NB_SEGMENTS a ≠ .fault := by
  intro hs
  cases a with
  | stm_register_thread_local tl =>
      simp only [Segments.step, guarded] at hs
      split_ifs at hs
  | stm_unregister_thread_local tl =>
      simp only [Segments.step, guarded] at hs
      split_ifs at hs
  | start tl =>
      simp only [Segments.step, guarded] at hs
      split_ifs at hs with h
      rw [hinv.acquire h.1] at hs
      split_ifs at hs
  | finish tl =>
      simp only [Segments.step, guarded] at hs
      split_ifs at hs with h
      obtain ⟨num, hnum⟩ := Option.ne_none_iff_exists'.mp h
      rw [hinv.release hnum] at hs
      cases hs

theorem Inv.of_reachable (h : Reachable Initial (Segments.step NB_SEGMENTS) s) :
    Inv NB_SEGMENTS s :=
  ReachableIf.invariant (fun _ hinit => Inv.initial hinit)
    (fun _ a _ hinv _ hs => hinv.step a hs) h

/-! ## Who waits -/

/-- If the thread now waits for `C_SEGMENT_FREE`, all segments are in use. -/
def WaitsOnlyWhenFull (NB_SEGMENTS : ℕ) (s : Segments) (tl : ℕ) : Prop :=
  ∀ s', s.acquire_thread_segment NB_SEGMENTS tl = some (false, s') →
    ∀ num < NB_SEGMENTS, s.in_use1 num = true

theorem Inv.waitsOnlyWhenFull_iff (hinv : Inv NB_SEGMENTS s)
    (hreg : tl ∈ s.stm_all_thread_locals) :
    WaitsOnlyWhenFull NB_SEGMENTS s tl ↔
      s.in_use1 (s.associated_segment_num tl) = false ∨
        ∀ num < NB_SEGMENTS, s.in_use1 num = true := by
  unfold WaitsOnlyWhenFull
  rw [hinv.acquire hreg]
  by_cases hfree : s.in_use1 (s.associated_segment_num tl) = false
  · rw [if_pos hfree]
    exact ⟨fun _ => Or.inl hfree, fun _ => nofun⟩
  · rw [if_neg hfree]
    constructor
    · intro h
      exact Or.inr (h s rfl)
    · rintro (h | h)
      · exact absurd h hfree
      · exact fun _ _ => h

/-- In every run a segment is held by one thread at most and no assertion
fails. A thread that waits while a segment is free is one whose own segment is
in use: the loop never goes on to the next number. -/
theorem segments_exclusive (h : Reachable Initial (step NB_SEGMENTS) s) :
    (∀ tl tl' num, s.holds tl = some num → s.holds tl' = some num → tl = tl') ∧
    (∀ a, s.step NB_SEGMENTS a ≠ .fault) ∧
    ∀ tl ∈ s.stm_all_thread_locals, s.holds tl = none →
      (WaitsOnlyWhenFull NB_SEGMENTS s tl ↔
        s.in_use1 (s.associated_segment_num tl) = false ∨
          ∀ num < NB_SEGMENTS, s.in_use1 num = true) := by
  have hinv := Inv.of_reachable h
  refine ⟨fun tl tl' num htl htl' => ?_, fun a => hinv.step_ne_fault a,
    fun tl hreg _ => hinv.waitsOnlyWhenFull_iff hreg⟩
  rw [← hinv.runs] at htl htl'
  exact Option.some.inj (htl.symm.trans htl')

/-- No thread is registered yet. -/
def stm_setup : Segments where
  in_use1 := fun _ => false
  running_thread := fun _ => none
  associated_segment_num := fun _ => 0
  gs := fun _ => 0
  stm_all_thread_locals := []
  holds := fun _ => none

theorem initial_stm_setup : Initial stm_setup :=
  ⟨fun _ => rfl, fun _ => rfl, rfl, fun _ => rfl⟩

/-- Three threads get the numbers 0, 1 and 0. -/
def three_threads : List Act :=
  [.stm_register_thread_local 1, .stm_register_thread_local 2, .stm_register_thread_local 3]

theorem segments_exclusive_three :
    ∃ s, Reachable Initial (step 2) s ∧ s.holds 1 = some 0 ∧ s.holds 2 = some 1 ∧
      (∀ tl tl' num, s.holds tl = some num → s.holds tl' = some num → tl = tl') ∧
      WaitsOnlyWhenFull 2 s 3 := by
  obtain ⟨s, hs, h1, h2, h3, hnone, hfull⟩ : ∃ s,
      run (step 2) (fun _ _ => True) stm_setup (three_threads ++ [.start 1, .start 2]) = .next s ∧
        s.holds 1 = some 0 ∧ s.holds 2 = some 1 ∧ 3 ∈ s.stm_all_thread_locals ∧
        s.holds 3 = none ∧ ∀ num < 2, s.in_use1 num = true := by
    refine ⟨_, rfl, ?_⟩
    decide +kernel
  have hreach := (ReachableIf.start initial_stm_setup).run _ hs
  obtain ⟨hone, -, hwait⟩ := segments_exclusive hreach
  exact ⟨s, hreach, h1, h2, hone, (hwait 3 h3 hnone).mpr (Or.inr hfull)⟩

/-- The first thread runs in segment 0, which is also the number of the third
one. The third one waits, although segment 1 is free. -/
theorem waits_with_free_segment :
    ∃ s, Reachable Initial (step 2) s ∧ s.holds 3 = none ∧
      s.acquire_thread_segment 2 3 = some (false, s) ∧ s.in_use1 1 = false := by
  obtain ⟨s, hs, hnone, hwait, hfree⟩ : ∃ s,
      run (step 2) (fun _ _ => True) stm_setup (three_threads ++ [.start 1]) = .next s ∧
        s.holds 3 = none ∧ s.acquire_thread_segment 2 3 = some (false, s) ∧
        s.in_use1 1 = false := by
    refine ⟨_, rfl, ?_, ?_, ?_⟩
    · decide +kernel
    · rfl
    · decide +kernel
  exact ⟨s, (ReachableIf.start initial_stm_setup).run _ hs, hnone, hwait, hfree⟩

end Segments

end Stmgc.C8
