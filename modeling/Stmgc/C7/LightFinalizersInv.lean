/-
What holds of the lists of light finalizers, and that steps keep it.

[`LightInv`] is about one segment: its two lists have exactly the living
objects that were registered there, each once, also where they will be after
the minor collection that is running. A step that neither calls finalizers nor
changes the lists is a [`LightFrame`] for every segment; for the others we go
through what they do to the segment they are about.
-/
import Stmgc.C7.LightFinalizers

namespace Stmgc.C7

open Stmgc.Lib

/-! ## Objects that are not young -/

/-- An object of segment `i` that no minor collection frees. -/
def Kind.settled (i : ℕ) : Kind → Bool
  | .overflow j => decide (j = i)
  | .old | .dead => true
  | .free | .young _ => false

section

variable {NB_SEGMENTS : ℕ} {cards : Bool} {st st' : St} {b : Act} {i o : ℕ}

theorem ne_free_of_settled {k : Kind} (h : k.settled i = true) : k ≠ .free := by
  rintro rfl
  cases h

theorem ne_young_of_settled {k : Kind} {j : ℕ} (h : k.settled i = true) : k ≠ .young j := by
  rintro rfl
  cases h

theorem settled_step (h : Inv NB_SEGMENTS cards st) (hs : step NB_SEGMENTS st b = .next st')
    (hmajor : ∀ visited, b ≠ .major_collection visited)
    (ho : (st.kind o).settled i = true) : (st'.kind o).settled i = true := by
  have hfate := fate h (ne_free_of_settled ho) hs
  generalize st'.kind o = k at hfate
  cases hfate with
  | same => exact ho
  | aged j hk => exact absurd hk (ne_young_of_settled ho)
  | committed j hk => rfl
  | lost j hk hb => rfl
  | thrown_away j hmem hb => exact absurd ((h.lists j).young o hmem) (ne_young_of_settled ho)
  | swept visited hb _ => exact absurd hb (hmajor visited)

end

/-! ## The lists of one segment -/

/-- The objects in the two lists. -/
def enlisted (p : Priv) : List ObjRef :=
  p.young_objects_with_light_finalizers ++ p.old_objects_with_light_finalizers.map .outside

structure LightInv (NB_SEGMENTS : ℕ) (st : St) (p : Priv) (objects : List ℕ)
    (live : List Registration) (i : ℕ) : Prop where
  enlisted : ∀ x, x ∈ enlisted p ↔ ∃ r ∈ live, r.obj = x
  nodup : (C7.enlisted p).Nodup
  apart : ∀ x ∈ C7.enlisted p, ∀ y ∈ C7.enlisted p,
    resolve p.nursery x = resolve p.nursery y → x = y
  old : ∀ o ∈ p.old_objects_with_light_finalizers, (st.kind o).settled i = true
  outside : ∀ o, .outside o ∈ p.young_objects_with_light_finalizers →
    o ∈ (st.segs i).young_outside_nursery
      ∨ (st.segs i).pc.collecting = true ∧ (st.kind o).settled i = true
  nursery : ∀ w, .nursery w ∈ p.young_objects_with_light_finalizers → w ∈ objects
  moved : ∀ w ∈ objects, p.nursery w = GCWORD_MOVED →
    (st.segs i).pc.collecting = true ∧ (st.kind (p.nursery (w + 1))).settled i = true
  room : ∀ w ∈ objects, w + 2 ≤ p.nursery_current ∧ w + 2 ≤ NURSERY_WORDS
  objects_apart : ∀ w ∈ objects, ∀ w' ∈ objects, w < w' → w + 2 ≤ w'
  committing : (st.segs i).pc.committing = true → p.young_objects_with_light_finalizers = []
  resting : p.transaction_state = .ts_none ∨ p.aborted = true →
    p.young_objects_with_light_finalizers = [] ∧ ∀ r ∈ live, r.committed = true
  aborted : p.aborted = true → p.old_objects_with_light_finalizers = p.light_finalizers_at_start
  started : p.transaction_state ≠ .ts_none → ∀ r ∈ live,
    r.committed = true ↔ r.obj ∈ p.light_finalizers_at_start.map .outside
  committed : ∀ r ∈ live, r.committed = true →
    r.obj ∈ p.old_objects_with_light_finalizers.map .outside
  absent : i ∉ segment_nums NB_SEGMENTS →
    p.transaction_state = .ts_none ∧ p.old_objects_with_light_finalizers = []

section

variable {NB_SEGMENTS : ℕ} {cards : Bool} {st st' : St} {p p' : Priv} {objects : List ℕ}
  {live : List Registration} {i j o w : ℕ} {x : ObjRef} {r : Registration}

/-! ### Where objects are -/

@[simp] theorem resolve_outside (nursery : ℕ → ℕ) (o : ℕ) :
    resolve nursery (.outside o) = .outside o := rfl

theorem moved_location_of_moved {nursery : ℕ → ℕ} (h : nursery w = GCWORD_MOVED) :
    moved_location nursery (.nursery w) = some (nursery (w + 1)) := if_pos h

theorem moved_location_of_not_moved {nursery : ℕ → ℕ} (h : nursery w ≠ GCWORD_MOVED) :
    moved_location nursery (.nursery w) = none := if_neg h

theorem resolve_of_moved {nursery : ℕ → ℕ} (h : nursery w = GCWORD_MOVED) :
    resolve nursery (.nursery w) = .outside (nursery (w + 1)) := by
  unfold resolve
  rw [moved_location_of_moved h]

theorem resolve_of_not_moved {nursery : ℕ → ℕ} (h : nursery w ≠ GCWORD_MOVED) :
    resolve nursery (.nursery w) = .nursery w := by
  unfold resolve
  rw [moved_location_of_not_moved h]

theorem mem_enlisted : x ∈ enlisted p ↔ x ∈ p.young_objects_with_light_finalizers
    ∨ ∃ o ∈ p.old_objects_with_light_finalizers, x = .outside o := by
  unfold enlisted
  rw [List.mem_append, List.mem_map]
  simp only [eq_comm]

theorem nodup_enlisted : (enlisted p).Nodup ↔ p.young_objects_with_light_finalizers.Nodup
    ∧ p.old_objects_with_light_finalizers.Nodup ∧ ∀ o ∈ p.old_objects_with_light_finalizers,
      .outside o ∉ p.young_objects_with_light_finalizers := by
  have hinj : Function.Injective ObjRef.outside := fun _ _ h => ObjRef.outside.inj h
  unfold enlisted
  rw [List.nodup_append, List.nodup_map_iff hinj]
  refine and_congr_right fun _ => and_congr_right fun _ => ?_
  constructor
  · intro h o ho hy
    exact h _ hy _ (List.mem_map_of_mem ho) rfl
  · rintro h x hx y hy rfl
    obtain ⟨o, ho, rfl⟩ := List.mem_map.mp hy
    exact h o ho hx

theorem LightInv.mem_live (h : LightInv NB_SEGMENTS st p objects live i) (hr : r ∈ live) :
    r.obj ∈ C7.enlisted p := (h.enlisted _).mpr ⟨r, hr, rfl⟩

/-- What an object of the lists is, if it is outside the nursery. -/
theorem LightInv.ne_free (h : LightInv NB_SEGMENTS st p objects live i)
    (hinv : Inv NB_SEGMENTS cards st) (hx : x ∈ C7.enlisted p)
    (ho : resolve p.nursery x = .outside o) : st.kind o ≠ .free := by
  rcases mem_enlisted.mp hx with hy | ⟨o', ho', rfl⟩
  · cases x with
    | outside o' =>
        cases ho
        rcases h.outside o hy with hmem | ⟨-, hset⟩
        · rw [(hinv.lists i).young o hmem]
          nofun
        · exact ne_free_of_settled hset
    | nursery w =>
        by_cases hmoved : p.nursery w = GCWORD_MOVED
        · rw [resolve_of_moved hmoved] at ho
          cases ho
          exact ne_free_of_settled (h.moved w (h.nursery w hy) hmoved).2
        · rw [resolve_of_not_moved hmoved] at ho
          cases ho
  · cases ho
    exact ne_free_of_settled (h.old o ho')

/-! ### Steps that leave the lists alone -/

/-- The fields of a segment that the lists depend on. -/
structure PrivFrame (p p' : Priv) (objects : List ℕ) : Prop where
  young : p'.young_objects_with_light_finalizers = p.young_objects_with_light_finalizers
  old : p'.old_objects_with_light_finalizers = p.old_objects_with_light_finalizers
  at_start : p'.light_finalizers_at_start = p.light_finalizers_at_start
  state : p'.transaction_state = .ts_none ↔ p.transaction_state = .ts_none
  aborted : p'.aborted = p.aborted
  moved : ∀ w ∈ objects, (p'.nursery w = GCWORD_MOVED ↔ p.nursery w = GCWORD_MOVED)
    ∧ (p.nursery w = GCWORD_MOVED → p'.nursery (w + 1) = p.nursery (w + 1))
  current : p.nursery_current ≤ p'.nursery_current

theorem PrivFrame.refl : PrivFrame p p objects :=
  ⟨rfl, rfl, rfl, Iff.rfl, rfl, fun _ _ => ⟨Iff.rfl, fun _ => rfl⟩, le_rfl⟩

/-- The fields that the lists depend on stay as they are. -/
theorem PrivFrame.of_eq (hlists :
      p'.young_objects_with_light_finalizers = p.young_objects_with_light_finalizers
      ∧ p'.old_objects_with_light_finalizers = p.old_objects_with_light_finalizers
      ∧ p'.light_finalizers_at_start = p.light_finalizers_at_start)
    (hstate : p'.transaction_state = p.transaction_state ∧ p'.aborted = p.aborted)
    (hnursery : p'.nursery = p.nursery) (hcurrent : p.nursery_current ≤ p'.nursery_current) :
    PrivFrame p p' objects := by
  refine ⟨hlists.1, hlists.2.1, hlists.2.2, ?_, hstate.2, fun w _ => ?_, hcurrent⟩
  · rw [hstate.1]
  · rw [hnursery]
    exact ⟨Iff.rfl, fun _ => rfl⟩

/-- The rest of the state, as seen from segment `i`. -/
structure StFrame (st st' : St) (i : ℕ) : Prop where
  collecting : (st.segs i).pc.collecting = true → (st'.segs i).pc.collecting = true
  committing : (st'.segs i).pc.committing = true → (st.segs i).pc.committing = true
  outside : ∀ o ∈ (st.segs i).young_outside_nursery, o ∈ (st'.segs i).young_outside_nursery
    ∨ (st'.segs i).pc.collecting = true ∧ (st'.kind o).settled i = true
  settled : ∀ o, (st.kind o).settled i = true → (st'.kind o).settled i = true

theorem StFrame.refl : StFrame st st i := ⟨id, id, fun _ => .inl, fun _ => id⟩

theorem StFrame.of_step {b : Act} (h : Inv NB_SEGMENTS cards st)
    (hs : C7.step NB_SEGMENTS st b = .next st') (hend : b.ends_minor_collection st i = false)
    (habort : b ≠ .abort_data_structures i) (hmajor : ∀ visited, b ≠ .major_collection visited) :
    StFrame st st' i := by
  by_cases htrace : ∃ o n, b = .trace_young_outside_nursery i o n
  · obtain ⟨obj, n, rfl⟩ := htrace
    obtain ⟨⟨hpc, -, -⟩, hs'⟩ := guarded_eq_next.mp (guarded_eq_next.mp hs).2
    cases hs'
    refine ⟨fun _ => ?_, fun hc => ?_, fun o ho => ?_, fun o ho => settled_step h hs hmajor ho⟩
    · unfold trace_young_outside_nursery
      dsimp only
      rw [set_segs_self]
      exact hpc
    · unfold trace_young_outside_nursery at hc
      dsimp only at hc
      rw [set_segs_self] at hc
      exact hc
    · unfold trace_young_outside_nursery
      dsimp only
      rw [set_segs_self, List.mem_filter, decide_eq_true_eq]
      by_cases hobj : o = obj
      · subst hobj
        refine .inr ⟨hpc, ?_⟩
        rw [Function.update_self]
        exact decide_eq_true rfl
      · exact .inl ⟨ho, hobj⟩
  · have hframe := seg_frame h hend habort (fun o n hb => htrace ⟨o, n, hb⟩) hs
    exact ⟨hframe.collecting, hframe.committing, fun o ho => .inl (hframe.young o ho),
      fun o ho => settled_step h hs hmajor ho⟩

theorem PrivFrame.enlisted (h : PrivFrame p p' objects) : C7.enlisted p' = C7.enlisted p := by
  unfold C7.enlisted
  rw [h.young, h.old]

theorem PrivFrame.resolve (h : PrivFrame p p' objects)
    (hnursery : ∀ w, x = .nursery w → w ∈ objects) :
    C7.resolve p'.nursery x = C7.resolve p.nursery x := by
  cases x with
  | outside o => rfl
  | nursery w =>
      obtain ⟨hiff, hnext⟩ := h.moved w (hnursery w rfl)
      by_cases hmoved : p.nursery w = GCWORD_MOVED
      · rw [resolve_of_moved hmoved, resolve_of_moved (hiff.mpr hmoved), hnext hmoved]
      · rw [resolve_of_not_moved hmoved, resolve_of_not_moved (fun h => hmoved (hiff.mp h))]

theorem LightInv.nursery_of_mem (h : LightInv NB_SEGMENTS st p objects live i)
    (hx : x ∈ C7.enlisted p) : ∀ w, x = .nursery w → w ∈ objects := by
  rintro w rfl
  rcases mem_enlisted.mp hx with hy | ⟨o, -, ho⟩
  · exact h.nursery w hy
  · cases ho

theorem LightInv.frame (h : LightInv NB_SEGMENTS st p objects live i) (hst : StFrame st st' i)
    (hp : PrivFrame p p' objects) : LightInv NB_SEGMENTS st' p' objects live i where
  enlisted := by
    rw [hp.enlisted]
    exact h.enlisted
  nodup := by
    rw [hp.enlisted]
    exact h.nodup
  apart x hx y hy := by
    rw [hp.enlisted] at hx hy
    rw [hp.resolve (h.nursery_of_mem hx), hp.resolve (h.nursery_of_mem hy)]
    exact h.apart x hx y hy
  old o ho := by
    rw [hp.old] at ho
    exact hst.settled o (h.old o ho)
  outside o ho := by
    rw [hp.young] at ho
    rcases h.outside o ho with hmem | ⟨hpc, hset⟩
    · exact hst.outside o hmem
    · exact .inr ⟨hst.collecting hpc, hst.settled o hset⟩
  nursery w hw := by
    rw [hp.young] at hw
    exact h.nursery w hw
  moved w hw hmoved := by
    obtain ⟨hiff, hnext⟩ := hp.moved w hw
    have hbefore := hiff.mp hmoved
    obtain ⟨hpc, hset⟩ := h.moved w hw hbefore
    rw [hnext hbefore]
    exact ⟨hst.collecting hpc, hst.settled _ hset⟩
  room w hw := ⟨(h.room w hw).1.trans hp.current, (h.room w hw).2⟩
  objects_apart := h.objects_apart
  committing hpc := by
    rw [hp.young]
    exact h.committing (hst.committing hpc)
  resting hrest := by
    rw [hp.young]
    rw [hp.state, hp.aborted] at hrest
    exact h.resting hrest
  aborted hab := by
    rw [hp.old, hp.at_start]
    rw [hp.aborted] at hab
    exact h.aborted hab
  started hne := by
    rw [hp.at_start]
    exact h.started (fun hnone => hne (hp.state.mpr hnone))
  committed := by
    rw [hp.old]
    exact h.committed
  absent hi := by
    rw [hp.state, hp.old]
    exact h.absent hi

end

/-! ## Steps -/

namespace Logged

variable {NB_SEGMENTS : ℕ} {t t' : Logged} {a : SysAct} {i o : ℕ} {r r' : Registration} {x : ObjRef}

theorem step_eq_next (h : t.step NB_SEGMENTS a = .next t') : t.promised a
    ∧ sys_step NB_SEGMENTS t.sys a = .next t'.sys
    ∧ (∀ i, t'.objects i = objects_after t.sys a (t.objects i) i)
    ∧ t'.registrations = t.registrations.map (Registration.after NB_SEGMENTS t.sys t'.sys a)
      ++ a.registers
    ∧ t'.stray = t.stray
      + ((List.range (NB_SEGMENTS + 1)).map (t.stray_calls NB_SEGMENTS a)).sum := by
  obtain ⟨hpromised, h⟩ := guarded_eq_next.mp h
  obtain ⟨sys, hsys, h⟩ := Outcome.bind_eq_next.mp h
  cases h
  exact ⟨hpromised, hsys, fun _ => rfl, rfl, rfl⟩

theorem mem_live : r ∈ t.live i ↔ r ∈ t.registrations ∧ r.alive = true ∧ r.segment = i := by
  unfold live
  rw [List.mem_filter, Bool.and_eq_true, decide_eq_true_eq]

/-- A registration of a living object, after the step. -/
theorem after_of_live (hr : r ∈ t.live i) : r.after NB_SEGMENTS t.sys t'.sys a =
    { segment := i
      obj := r.moved t.sys a
      committed := r.committed || a.commits i
      alive := !r.dies t.sys t'.sys a
      calls := r.calls + (light_finalizer_calls NB_SEGMENTS t.sys i a).count r.obj } := by
  obtain ⟨-, halive, rfl⟩ := mem_live.mp hr
  unfold Registration.after
  rw [if_pos halive]

theorem mem_live_step (h : t.step NB_SEGMENTS a = .next t') : r' ∈ t'.live i ↔
    (∃ r ∈ t.live i, r.dies t.sys t'.sys a = false ∧ r' = r.after NB_SEGMENTS t.sys t'.sys a)
      ∨ r' ∈ a.registers ∧ r'.segment = i := by
  obtain ⟨-, -, -, hregs, -⟩ := step_eq_next h
  have hnew : ∀ r ∈ a.registers, r.alive = true := by
    intro r hr
    cases a with
    | stm_enable_light_finalizer j obj =>
        cases List.mem_singleton.mp hr
        rfl
    | _ => cases hr
  rw [mem_live, hregs, List.mem_append, List.mem_map]
  constructor
  · rintro ⟨⟨r, hr, rfl⟩ | hr, halive, hseg⟩
    · have hbefore : r.alive = true := by
        by_contra hdead
        unfold Registration.after at halive
        rw [if_neg hdead] at halive
        exact hdead halive
      have hsame : (r.after NB_SEGMENTS t.sys t'.sys a).segment = r.segment := by
        unfold Registration.after
        rw [if_pos hbefore]
      have hlive : r ∈ t.live i := mem_live.mpr ⟨hr, hbefore, hsame.symm.trans hseg⟩
      refine .inl ⟨r, hlive, ?_, rfl⟩
      rw [after_of_live hlive] at halive
      exact Bool.not_eq_true' _ ▸ halive
    · exact .inr ⟨hr, hseg⟩
  · rintro (⟨r, hr, hdies, rfl⟩ | ⟨hr, hseg⟩)
    · refine ⟨.inl ⟨r, (mem_live.mp hr).1, rfl⟩, ?_⟩
      rw [after_of_live hr, hdies]
      exact ⟨rfl, rfl⟩
    · exact ⟨.inr hr, hnew r' hr, hseg⟩

/-- What a step does to the objects that were registered in segment `i`: those
that die are the ones whose finalizer is called, once each. -/
structure LightStep (NB_SEGMENTS : ℕ) (t t' : Logged) (a : SysAct) (i : ℕ) : Prop where
  accounted : ∀ r ∈ t.live i, (light_finalizer_calls NB_SEGMENTS t.sys i a).count r.obj
    = if r.dies t.sys t'.sys a then 1 else 0
  matched : ∀ x ∈ light_finalizer_calls NB_SEGMENTS t.sys i a, ∃ r ∈ t.live i, r.obj = x
  inv : LightInv NB_SEGMENTS t'.sys.st (t'.sys.priv i) (t'.objects i) (t'.live i) i

/-- The invariant of one segment. -/
abbrev SegInv (NB_SEGMENTS : ℕ) (t : Logged) (i : ℕ) : Prop :=
  LightInv NB_SEGMENTS t.sys.st (t.sys.priv i) (t.objects i) (t.live i) i

/-- The step changes the lists, or what was registered, of segment `i`. -/
def touches (s : Sys) (i : ℕ) : SysAct → Bool
  | .collect j _ => decide (j = i) && is_traced (s.st.segs i)
  | .abort_data_structures _ j | .commit_transaction j | .stm_enable_light_finalizer j _
  | .stm_allocate j _ | .stm_allocate_weakref j => decide (j = i)
  | .major_collection _ => true
  | _ => false

/-- A living object that is not freed and not moved. -/
theorem after_of_quiet (hr : r ∈ t.live i) (hdies : r.dies t.sys t'.sys a = false)
    (hmoved : r.moved t.sys a = r.obj) (hcommits : a.commits i = false)
    (hcalls : light_finalizer_calls NB_SEGMENTS t.sys i a = []) :
    r.after NB_SEGMENTS t.sys t'.sys a = r := by
  rw [after_of_live hr, hdies, hmoved, hcommits, hcalls]
  obtain ⟨-, halive, rfl⟩ := mem_live.mp hr
  rw [Bool.or_false, List.count_nil, Nat.add_zero, Bool.not_false, ← halive]

theorem LightInv.congr {st : St} {p : Priv} {objects : List ℕ} {live live' : List Registration}
    (h : LightInv NB_SEGMENTS st p objects live i) (hlive : ∀ r, r ∈ live' ↔ r ∈ live) :
    LightInv NB_SEGMENTS st p objects live' i := by
  have hexists : ∀ x, (∃ r ∈ live', r.obj = x) ↔ ∃ r ∈ live, r.obj = x :=
    fun x => exists_congr fun r => and_congr_left' (hlive r)
  exact { h with
    enlisted := fun x => (h.enlisted x).trans (hexists x).symm
    resting := fun hrest => ⟨(h.resting hrest).1,
      fun r hr => (h.resting hrest).2 r ((hlive r).mp hr)⟩
    started := fun hne r hr => h.started hne r ((hlive r).mp hr)
    committed := fun r hr => h.committed r ((hlive r).mp hr) }

/-- An object that is neither freed nor forgotten stays alive. -/
theorem not_dies (hr : r ∈ t.live i) (hends : a.ends_minor_collection t.sys i = false)
    (habort : ∀ gs, a ≠ .abort_data_structures gs i)
    (hfree : ∀ o, r.obj = .outside o → t'.sys.st.kind o ≠ .free) :
    r.dies t.sys t'.sys a = false := by
  obtain ⟨-, -, rfl⟩ := mem_live.mp hr
  unfold Registration.dies
  split
  · rename_i gs n
    rw [decide_eq_false]
    · rfl
    · rintro rfl
      exact habort gs rfl
  · split
    · rw [hends]
      rfl
    · rename_i o ho
      exact decide_eq_false (hfree o ho)

theorem not_moved (hr : r ∈ t.live i) (hends : a.ends_minor_collection t.sys i = false) :
    r.moved t.sys a = r.obj := by
  obtain ⟨-, -, rfl⟩ := mem_live.mp hr
  unfold Registration.moved
  rw [hends]
  rfl

/-- A step that does not touch the lists of the segment. -/
theorem LightStep.of_untouched {cards : Bool} (hs : t.step NB_SEGMENTS a = .next t')
    (hinv : Inv NB_SEGMENTS cards t'.sys.st) (htouches : touches t.sys i a = false)
    (hnew : LightInv NB_SEGMENTS t'.sys.st (t'.sys.priv i) (t.objects i) (t.live i) i) :
    LightStep NB_SEGMENTS t t' a i := by
  obtain ⟨-, -, hobjects, -, -⟩ := step_eq_next hs
  have hends : a.ends_minor_collection t.sys i = false := by
    cases a with
    | collect j val => exact htouches
    | _ => rfl
  have hcalls : light_finalizer_calls NB_SEGMENTS t.sys i a = [] := by
    cases a with
    | collect j val =>
        refine if_neg fun hc => ?_
        replace htouches : (decide (j = i) && is_traced (t.sys.st.segs i)) = false := htouches
        rw [decide_eq_true hc.1, hc.2] at htouches
        cases htouches
    | abort_data_structures gs n => exact if_neg (of_decide_eq_false htouches)
    | major_collection visited => cases htouches
    | _ => rfl
  have hregisters : ∀ r ∈ a.registers, r.segment ≠ i := by
    intro r hr
    cases a with
    | stm_enable_light_finalizer j obj =>
        cases List.mem_singleton.mp hr
        exact of_decide_eq_false htouches
    | _ => cases hr
  have hcommits : a.commits i = false := by
    cases a with
    | commit_transaction j => exact htouches
    | _ => rfl
  have hsame : objects_after t.sys a (t.objects i) i = t.objects i := by
    unfold objects_after
    cases a with
    | stm_allocate j size => exact if_neg (of_decide_eq_false htouches)
    | stm_allocate_weakref j => exact if_neg (of_decide_eq_false htouches)
    | abort_data_structures gs n => exact if_neg (of_decide_eq_false htouches)
    | collect j val =>
        dsimp only
        rw [hends]
        rfl
    | _ => rfl
  have hdies : ∀ r ∈ t.live i, r.dies t.sys t'.sys a = false := by
    intro r hr
    refine not_dies hr hends ?_ fun o ho => ?_
    · rintro gs rfl
      exact of_decide_eq_false htouches rfl
    · refine hnew.ne_free hinv (hnew.mem_live hr) ?_
      rw [ho]
      rfl
  have hafter : ∀ r ∈ t.live i, r.after NB_SEGMENTS t.sys t'.sys a = r := fun r hr =>
    after_of_quiet hr (hdies r hr) (not_moved hr hends) hcommits hcalls
  refine ⟨fun r hr => ?_, fun x hx => ?_, ?_⟩
  · rw [hcalls, hdies r hr]
    rfl
  · rw [hcalls] at hx
    cases hx
  · rw [hobjects, hsame]
    refine LightInv.congr hnew fun r => ?_
    rw [mem_live_step hs]
    constructor
    · rintro (⟨r, hr, -, rfl⟩ | ⟨hr, hseg⟩)
      · rw [hafter r hr]
        exact hr
      · exact absurd hseg (hregisters r hr)
    · intro hr
      exact .inl ⟨r, hr, hdies r hr, (hafter r hr).symm⟩

end Logged

end Stmgc.C7
