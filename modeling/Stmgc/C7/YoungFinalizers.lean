/-
`c7/stm/nursery.c` and `c7/stm/finalizer.c`: the young objects that have a
finalizer.

Such an object is not in the nursery but in `young_outside_nursery`, and every
minor collection has to keep it, even if nothing else points to it. For that,
`collect_objs_still_young_but_with_finalizers` goes through the end of
`objects_with_finalizers`, from `count_non_young` on. A major collection makes
the list shorter, and leaves `count_non_young` as it is.

Every segment is inside one transaction here. Which objects the roots and the
other lists of a collection hold, and what the objects point to, may be
anything, at each collection.
-/
import Stmgc.Lib.Machine
import Stmgc.C7.Finalizer
import Mathlib.Data.List.ReduceOption

open Stmgc.Lib

namespace Stmgc.C7.YoungFinalizers

variable {Obj : Type} [DecidableEq Obj]

/-! ## A minor collection -/

/-- What a minor collection reads of a segment. An object that moves out of the
nursery keeps its name here. -/
structure segment_t (Obj : Type) where
  nursery : List Obj
  young_outside_nursery : List Obj
  objects_pointing_to_nursery : List Obj
  finalizers : Option (finalizers_s Obj)

def minor_trace_if_young (seg : segment_t Obj) : Option Obj → segment_t Obj
  | none => seg
  | some obj =>
      if obj ∈ seg.nursery then
        { seg with
          nursery := seg.nursery.filter fun o => decide (o ≠ obj)
          objects_pointing_to_nursery := list_append seg.objects_pointing_to_nursery obj }
      else if obj ∈ seg.young_outside_nursery then
        -- a young object outside the nursery
        { seg with
          young_outside_nursery := seg.young_outside_nursery.filter fun o => decide (o ≠ obj)
          objects_pointing_to_nursery := list_append seg.objects_pointing_to_nursery obj }
      else seg

/-- One turn of `collect_objs_still_young_but_with_finalizers`. -/
def trace_still_young (seg : segment_t Obj) (o : Obj) : Option (segment_t Obj) := do
  c_assert (o ∉ seg.nursery) -- was not actually movable
  return minor_trace_if_young seg (some o)

def collect_objs_still_young_but_with_finalizers (seg : segment_t Obj) : Option (segment_t Obj) :=
  match seg.finalizers with
  | none => some seg
  | some f => do
    let lst := f.objects_with_finalizers
    let seg ← (lst.drop f.count_non_young).foldlM trace_still_young seg
    return { seg with finalizers := some { f with count_non_young := lst.length } }

/-- `_collect_now`, of an object without the flag `GCFLAG_WRITE_BARRIER`. -/
def collect_now (trace : Obj → List (Option Obj)) (seg : segment_t Obj) (obj : Obj) :
    Option (segment_t Obj) := do
  c_assert (obj ∉ seg.nursery ∧ obj ∉ seg.young_outside_nursery)
  return (trace obj).foldl minor_trace_if_young seg

/-- One turn of `collect_oldrefs_to_nursery`. -/
def collect_oldrefs_body (trace : Obj → List (Option Obj)) (seg : segment_t Obj) :
    Option (ControlFlow (segment_t Obj) (segment_t Obj)) :=
  match list_pop_item seg.objects_pointing_to_nursery with
  | none => some (.done seg)
  | some (lst, obj) => do
    let seg ← collect_now trace { seg with objects_pointing_to_nursery := lst } obj
    return .cont seg

/-- With the objects that it frees. -/
def throw_away_nursery (seg : segment_t Obj) : segment_t Obj × List Obj :=
  ({ seg with nursery := [], young_outside_nursery := [] }, seg.young_outside_nursery)

/-- `_do_minor_collection`. `roots` are the references it goes through before
the finalizers, and `bags` those of `collect_modified_bags`. -/
def do_minor_collection (roots bags : List (Option Obj)) (trace : Obj → List (Option Obj))
    (seg : segment_t Obj) : Option (segment_t Obj × List Obj) := do
  let seg := roots.foldl minor_trace_if_young seg
  let seg ← collect_objs_still_young_but_with_finalizers seg
  let seg := bags.foldl minor_trace_if_young seg
  let seg ← loop (collect_oldrefs_body trace) seg
  return throw_away_nursery seg

/-- `MINOR_NOTHING_TO_DO`. -/
def minor_nothing_to_do (seg : segment_t Obj) : Bool :=
  seg.nursery.isEmpty && seg.young_outside_nursery.isEmpty

/-! ### What it does -/

section Minor

variable {seg seg' seg'' : segment_t Obj} {roots bags : List (Option Obj)}
  {trace : Obj → List (Option Obj)} {p : Option Obj} {x : Obj}

/-- The lists of a collection that goes on. -/
structure Work (seg : segment_t Obj) : Prop where
  apart : ∀ x ∈ seg.nursery, x ∉ seg.young_outside_nursery
  traced : ∀ x ∈ seg.objects_pointing_to_nursery, x ∉ seg.nursery ∧ x ∉ seg.young_outside_nursery

/-- How much there is to do. -/
def todo (seg : segment_t Obj) : ℕ :=
  2 * (seg.nursery.length + seg.young_outside_nursery.length) + seg.objects_pointing_to_nursery.length

/-- Tracing takes young objects away and does nothing else. -/
structure Traced (seg seg' : segment_t Obj) : Prop where
  nursery : ∀ x ∈ seg'.nursery, x ∈ seg.nursery
  young : ∀ x ∈ seg'.young_outside_nursery, x ∈ seg.young_outside_nursery
  finalizers : seg'.finalizers = seg.finalizers
  work : Work seg'
  less : todo seg' ≤ todo seg

omit [DecidableEq Obj] in
theorem Traced.refl (h : Work seg) : Traced seg seg := ⟨fun _ hx => hx, fun _ hx => hx, rfl, h, le_refl _⟩

omit [DecidableEq Obj] in
theorem Traced.trans (h : Traced seg seg') (h' : Traced seg' seg'') : Traced seg seg'' where
  nursery := fun x hx => h.nursery x (h'.nursery x hx)
  young := fun x hx => h.young x (h'.young x hx)
  finalizers := h'.finalizers.trans h.finalizers
  work := h'.work
  less := le_trans h'.less h.less

theorem length_filter_lt {l : List Obj} (h : x ∈ l) :
    (l.filter fun o => decide (o ≠ x)).length < l.length := by
  refine List.length_filter_lt_length_iff_exists.mpr ⟨x, h, ?_⟩
  simp

/-- One reference. -/
theorem traced_minor_trace_if_young (h : Work seg) : Traced seg (minor_trace_if_young seg p) ∧
    ∀ x, p = some x → x ∉ (minor_trace_if_young seg p).young_outside_nursery := by
  cases p with
  | none => exact ⟨.refl h, by simp⟩
  | some obj =>
      unfold minor_trace_if_young
      dsimp only
      by_cases hnursery : obj ∈ seg.nursery
      · rw [if_pos hnursery]
        have hyoung := h.apart obj hnursery
        have hlt := length_filter_lt hnursery
        refine ⟨⟨fun x hx => (List.mem_filter.mp hx).1, fun x hx => hx, rfl, ⟨fun x hx => ?_, fun x hx => ?_⟩, ?_⟩,
          ?_⟩
        · exact h.apart x (List.mem_filter.mp hx).1
        · rcases mem_list_append.mp hx with hx | rfl
          · exact ⟨fun hmem => (h.traced x hx).1 (List.mem_filter.mp hmem).1, (h.traced x hx).2⟩
          · exact ⟨by simp, hyoung⟩
        · unfold todo
          dsimp only
          rw [length_list_append]
          omega
        · rintro x ⟨⟩
          exact hyoung
      · rw [if_neg hnursery]
        by_cases hyoung : obj ∈ seg.young_outside_nursery
        · rw [if_pos hyoung]
          have hlt := length_filter_lt hyoung
          refine ⟨⟨fun x hx => hx, fun x hx => (List.mem_filter.mp hx).1, rfl,
            ⟨fun x hx hmem => ?_, fun x hx => ?_⟩, ?_⟩, ?_⟩
          · exact h.apart x hx (List.mem_filter.mp hmem).1
          · rcases mem_list_append.mp hx with hx | rfl
            · exact ⟨(h.traced x hx).1, fun hmem => (h.traced x hx).2 (List.mem_filter.mp hmem).1⟩
            · exact ⟨hnursery, by simp⟩
          · unfold todo
            dsimp only
            rw [length_list_append]
            omega
          · rintro x ⟨⟩
            simp
        · rw [if_neg hyoung]
          refine ⟨.refl h, ?_⟩
          rintro x ⟨⟩
          exact hyoung

/-- Many of them. -/
theorem traced_foldl (h : Work seg) (l : List (Option Obj)) :
    Traced seg (l.foldl minor_trace_if_young seg) := by
  refine foldl_spec (fun _ seg' => Traced seg seg') ?_ (.refl h)
  intro _ p seg' _ h'
  exact h'.trans (traced_minor_trace_if_young h'.work).1

/-- `collect_objs_still_young_but_with_finalizers` leaves no young object behind
in the part of the list that it goes through. -/
theorem collect_objs_still_young_spec (h : Work seg)
    (hlisted : ∀ f, seg.finalizers = some f → ∀ x ∈ f.objects_with_finalizers, x ∉ seg.nursery) :
    Returns (collect_objs_still_young_but_with_finalizers seg) fun seg' =>
      Traced seg { seg' with finalizers := seg.finalizers } ∧
      (seg'.finalizers = seg.finalizers.map fun f =>
        { f with count_non_young := f.objects_with_finalizers.length }) ∧
      ∀ f, seg.finalizers = some f → ∀ x ∈ f.objects_with_finalizers.drop f.count_non_young,
        x ∉ seg'.young_outside_nursery := by
  unfold collect_objs_still_young_but_with_finalizers
  cases hf : seg.finalizers with
  | none =>
      have hseg : { seg with finalizers := none } = seg := by rw [← hf]
      refine returns_some ⟨?_, hf, by simp⟩
      rw [hseg]
      exact .refl h
  | some f =>
      dsimp only
      have hloop := foldlM_spec (f := trace_still_young) (fun done todo seg' =>
        Traced seg seg' ∧ (∀ x ∈ done, x ∉ seg'.young_outside_nursery) ∧
          ∀ x ∈ todo, x ∈ f.objects_with_finalizers) ?_ (f.objects_with_finalizers.drop f.count_non_young) [] seg
          ⟨.refl h, by simp, fun x hx => List.mem_of_mem_drop hx⟩
      · refine hloop.bind ?_
        rintro seg' ⟨htraced, hdone, -⟩
        refine returns_some ⟨?_, ?_, ?_⟩
        · have hseg : { seg' with finalizers := some f } = seg' := by rw [← hf, ← htraced.finalizers]
          show Traced seg { seg' with finalizers := some f }
          rw [hseg]
          exact htraced
        · rfl
        · rintro f' ⟨⟩
          exact hdone
      · rintro done x todo seg' ⟨htraced, hdone, htodo⟩
        unfold trace_still_young
        refine returns_assert ?_ ?_
        · exact fun hmem => hlisted f hf x (htodo x List.mem_cons_self) (htraced.nursery x hmem)
        · obtain ⟨hnext, hgone⟩ := @traced_minor_trace_if_young _ _ seg' (some x) htraced.work
          refine returns_some ⟨htraced.trans hnext, fun y hy => ?_, fun y hy => htodo y (List.mem_cons_of_mem x hy)⟩
          rcases List.mem_append.mp hy with hy | hy
          · exact fun hmem => hdone y hy (hnext.young y hmem)
          · rw [List.mem_singleton.mp hy]
            exact hgone x rfl

/-- The loop over the objects that are still to trace ends. -/
theorem collect_oldrefs_spec (h : Work seg) : Returns (loop (collect_oldrefs_body trace) seg) fun seg' =>
    Traced seg seg' ∧ seg'.objects_pointing_to_nursery = [] := by
  refine loop.spec_decr_nat todo (fun seg' => Traced seg seg') ?_ (.refl h)
  intro seg' htraced
  unfold collect_oldrefs_body
  cases hpop : list_pop_item seg'.objects_pointing_to_nursery with
  | none => exact returns_some ⟨htraced, list_pop_item_eq_none.mp hpop⟩
  | some r =>
      obtain ⟨lst, obj⟩ := r
      have hlst := list_pop_item_eq_some hpop
      have hwork : Work { seg' with objects_pointing_to_nursery := lst } := by
        refine ⟨htraced.work.apart, fun x hx => htraced.work.traced x ?_⟩
        rw [hlst]
        exact List.mem_append_left _ hx
      have hobj := htraced.work.traced obj (by rw [hlst]; simp)
      have hless : todo { seg' with objects_pointing_to_nursery := lst } < todo seg' := by
        unfold todo
        dsimp only
        rw [hlst, List.length_append, List.length_singleton]
        omega
      unfold collect_now
      dsimp only
      rw [Option.bind_eq_bind]
      refine Returns.bind (P := fun t => t = (trace obj).foldl minor_trace_if_young
        { seg' with objects_pointing_to_nursery := lst }) ?_ ?_
      · exact returns_assert hobj (returns_some rfl)
      · rintro t rfl
        have hnext := traced_foldl hwork (trace obj)
        refine returns_some ⟨⟨fun x hx => ?_, fun x hx => ?_, ?_, hnext.work, ?_⟩, ?_⟩
        · exact htraced.nursery x (hnext.nursery x hx)
        · exact htraced.young x (hnext.young x hx)
        · exact hnext.finalizers.trans htraced.finalizers
        · exact le_trans hnext.less (le_trans (le_of_lt hless) htraced.less)
        · exact lt_of_le_of_lt hnext.less hless

/-- **`_do_minor_collection`**: what it frees was young, and was not in the part
of the list that it went through. -/
theorem do_minor_collection_spec (h : Work seg)
    (hlisted : ∀ f, seg.finalizers = some f → ∀ x ∈ f.objects_with_finalizers, x ∉ seg.nursery) :
    Returns (do_minor_collection roots bags trace seg) fun (seg', dead) =>
      seg'.nursery = [] ∧ seg'.young_outside_nursery = [] ∧ seg'.objects_pointing_to_nursery = [] ∧
      (seg'.finalizers = seg.finalizers.map fun f =>
        { f with count_non_young := f.objects_with_finalizers.length }) ∧
      ∀ x ∈ dead, x ∈ seg.young_outside_nursery ∧
        ∀ f, seg.finalizers = some f → x ∉ f.objects_with_finalizers.drop f.count_non_young := by
  have hroots := traced_foldl h roots
  unfold do_minor_collection
  dsimp only
  refine (collect_objs_still_young_spec hroots.work ?_).bind ?_
  · intro f hf x hx hmem
    exact hlisted f (hroots.finalizers ▸ hf) x hx (hroots.nursery x hmem)
  · rintro t ⟨htraced, hfinalizers, hgone⟩
    have hwork : Work t := ⟨htraced.work.apart, htraced.work.traced⟩
    have hbags := traced_foldl hwork bags
    refine (collect_oldrefs_spec hbags.work).bind ?_
    rintro u ⟨hold, hempty⟩
    refine returns_some ⟨rfl, rfl, hempty, ?_, fun x hx => ?_⟩
    · show u.finalizers = _
      rw [hold.finalizers, hbags.finalizers, hfinalizers, hroots.finalizers]
    · have hyoung := hbags.young x (hold.young x hx)
      refine ⟨hroots.young x (htraced.young x hyoung), fun f hf hmem => ?_⟩
      exact hgone f (hroots.finalizers.trans hf) x hmem hyoung

end Minor

/-! ## The machine -/

structure heap_t (Obj : Type) where
  segs : ℕ → segment_t Obj
  g_finalizers : finalizers_s Obj
  /-- Every object that there has been. No name is given twice. -/
  allocated : List Obj
  /-- What `throw_away_nursery` has freed. -/
  freed : List Obj

/-- `minor_collection` in the segment `i`. -/
def minor_collection (s : heap_t Obj) (i : ℕ) (roots bags : List (Option Obj))
    (trace : Obj → List (Option Obj)) : Option (heap_t Obj) := do
  let (seg, dead) ← do_minor_collection roots bags trace (s.segs i)
  return { s with segs := Function.update s.segs i seg, freed := s.freed ++ dead }

/-- `abort_data_structures_from_segment_num`. -/
def abort_data_structures (s : heap_t Obj) (i : ℕ) : heap_t Obj :=
  let (seg, dead) := throw_away_nursery (s.segs i)
  { s with
    segs := Function.update s.segs i { seg with objects_pointing_to_nursery := [], finalizers := none }
    freed := s.freed ++ dead }

/-- What a major collection finds: the segments that abort when they resume,
what each minor collection of it goes through, the references of each object in
each segment, and the lock bytes after the marking. -/
structure major_t (Obj : Type) where
  must_abort : ℕ → Bool
  roots : ℕ → List (Option Obj)
  bags : ℕ → List (Option Obj)
  view : ℕ → Obj → List (Option Obj)
  write_locks : Obj → ℕ

/-- One turn of `major_do_minor_collections`. -/
def major_do_minor_collection (c : major_t Obj) (s : heap_t Obj) (i : ℕ) : Option (heap_t Obj) :=
  if minor_nothing_to_do (s.segs i) then some s
  else if c.must_abort i then some (abort_data_structures s i)
  else minor_collection s i (c.roots i) (c.bags i) (c.view i)

def major_do_minor_collections (n : ℕ) (c : major_t Obj) (s : heap_t Obj) : Option (heap_t Obj) :=
  (List.range' 1 n).foldlM (major_do_minor_collection c) s

/-- A list of finalizers goes back to its owner. -/
def set_finalizers (s : heap_t Obj) (p : ℕ × Option (finalizers_s Obj)) : heap_t Obj :=
  if p.1 = 0 then { s with g_finalizers := p.2.getD s.g_finalizers }
  else { s with segs := Function.update s.segs p.1 { s.segs p.1 with finalizers := p.2 } }

def major_collection (n : ℕ) (c : major_t Obj) (s : heap_t Obj) : Option (heap_t Obj) := do
  let s ← major_do_minor_collections n c s
  let (out, _) ← deal_with_objects_with_finalizers c.view c.write_locks
    ((List.range n).map fun i => (s.segs (i + 1)).finalizers) s.g_finalizers
  return out.foldl set_finalizers s

inductive action_t (Obj : Type) where
  | stm_allocate (i : ℕ) (obj : Obj)
  | stm_allocate_external (i : ℕ) (obj : Obj)
  | stm_allocate_with_finalizer (i : ℕ) (obj : Obj)
  | minor_collection (i : ℕ) (roots bags : List (Option Obj)) (trace : Obj → List (Option Obj))
  | major_collection (c : major_t Obj)

def init_finalizers : finalizers_s Obj := ⟨[], 0, none, none⟩

/-- The end of `stm_allocate_with_finalizer`. -/
def append_finalizer (f : Option (finalizers_s Obj)) (obj : Obj) : finalizers_s Obj :=
  let f := f.getD init_finalizers
  { f with objects_with_finalizers := list_append f.objects_with_finalizers obj }

/-- A new object in a segment. -/
def add_object (s : heap_t Obj) (i : ℕ) (obj : Obj) (seg : segment_t Obj) : heap_t Obj :=
  { s with segs := Function.update s.segs i seg, allocated := obj :: s.allocated }

/-- The segments are `1 .. n`. -/
def step (n : ℕ) (s : heap_t Obj) : action_t Obj → Outcome (heap_t Obj)
  | .stm_allocate i obj =>
      guarded (1 ≤ i ∧ i ≤ n ∧ obj ∉ s.allocated) <|
        .next (add_object s i obj { s.segs i with nursery := obj :: (s.segs i).nursery })
  | .stm_allocate_external i obj =>
      guarded (1 ≤ i ∧ i ≤ n ∧ obj ∉ s.allocated) <|
        .next (add_object s i obj { s.segs i with
          young_outside_nursery := obj :: (s.segs i).young_outside_nursery })
  | .stm_allocate_with_finalizer i obj =>
      guarded (1 ≤ i ∧ i ≤ n ∧ obj ∉ s.allocated) <|
        .next (add_object s i obj { s.segs i with
          young_outside_nursery := obj :: (s.segs i).young_outside_nursery
          finalizers := some (append_finalizer (s.segs i).finalizers obj) })
  | .minor_collection i roots bags trace =>
      guarded (1 ≤ i ∧ i ≤ n) <| Outcome.ofOption (minor_collection s i roots bags trace)
  | .major_collection c => Outcome.ofOption (major_collection n c s)

def initial : heap_t Obj where
  segs := fun _ => ⟨[], [], [], none⟩
  g_finalizers := init_finalizers
  allocated := []
  freed := []

/-- The list of the segment is not shorter than what `count_non_young` says. It
is shorter after a major collection that has found objects of it to die, up to
the next minor collection. -/
def InStep (s : heap_t Obj) : action_t Obj → Prop
  | .stm_allocate_with_finalizer i _ =>
      ∀ f, (s.segs i).finalizers = some f → f.count_non_young ≤ f.objects_with_finalizers.length
  | _ => True

/-! ## The finalizer pass of a major collection -/

section Pass

/-- An object that is in the list, or about to be finalized. -/
def held (f : finalizers_s Obj) (x : Obj) : Prop :=
  x ∈ f.objects_with_finalizers ∨ some x ∈ f.run_finalizers.getD []

/-- What the pass may do to a list. -/
def Filtered (f f' : Option (finalizers_s Obj)) : Prop :=
  ∀ f₁, f' = some f₁ → ∃ f₀, f = some f₀ ∧ ∀ x, held f₁ x → held f₀ x

variable {trace : Obj → List (Option Obj)} {view : ℕ → Obj → List (Option Obj)}
  {st st' : FinalizerState Obj} {f f' : Option (finalizers_s Obj)} {marked : List Obj}

omit [DecidableEq Obj] in
theorem Filtered.refl : Filtered f f := fun f₁ hf => ⟨f₁, hf, fun _ hx => hx⟩

/-- An object of the list is kept or marked. -/
theorem mark_finalize_step1_listed (h : mark_finalize_step1 trace st f = some (f', marked, st')) :
    ∀ f₁, f' = some f₁ → ∃ f₀, f = some f₀ ∧ ∀ x, held f₁ x ∨ x ∈ marked → held f₀ x := by
  cases f with
  | none =>
      cases h
      simp
  | some f₀ =>
      obtain ⟨⟨lst, marked', st₁⟩, hfold, h⟩ := Option.bind_eq_some_iff.mp h
      cases h
      rintro f₁ ⟨⟩
      have hlisted : ∀ x, x ∈ lst ∨ x ∈ marked → x ∈ f₀.objects_with_finalizers := by
        refine foldlM_some (fun done s => ∀ x, x ∈ s.1 ∨ x ∈ s.2.1 → x ∈ done) ?_ (by simp) hfold
        rintro done y todo ⟨lst, marked, st⟩ s' - hinv hs x hx
        have hin := hinv x
        obtain ⟨-, hs⟩ := c_assert_eq_some.mp hs
        split_ifs at hs with hstate
        · cases hs
          simp only [mem_list_append, List.mem_append, List.mem_singleton] at hx ⊢
          tauto
        · obtain ⟨st₁, -, hs⟩ := Option.bind_eq_some_iff.mp hs
          obtain ⟨-, hs⟩ := c_assert_eq_some.mp hs
          obtain ⟨st₂, -, hs⟩ := Option.bind_eq_some_iff.mp hs
          cases hs
          simp only [mem_list_append, List.mem_append, List.mem_singleton] at hx ⊢
          tauto
      refine ⟨f₀, rfl, fun x hx => ?_⟩
      rcases hx with (hx | hx) | hx
      · exact Or.inl (hlisted x (Or.inl hx))
      · exact Or.inr hx
      · exact Or.inl (hlisted x (Or.inr hx))

/-- What is marked is put back or about to be finalized. -/
theorem mark_finalize_step2_listed (h : mark_finalize_step2 trace st marked f = some (f', st')) :
    ∀ f₁, f' = some f₁ → ∃ f₀, f = some f₀ ∧ ∀ x, held f₁ x → held f₀ x ∨ x ∈ marked := by
  cases f with
  | none =>
      cases h
      simp
  | some f₀ =>
      obtain ⟨⟨f₂, st₂⟩, hfold, h⟩ := Option.bind_eq_some_iff.mp h
      cases h
      rintro f₁ ⟨⟩
      refine ⟨f₀, rfl, ?_⟩
      refine foldlM_some (fun done s => ∀ x, held s.1 x → held f₀ x ∨ x ∈ done) ?_ (by simp) hfold
      rintro done y todo ⟨f₃, st₃⟩ s' - hinv hs x hx
      have hin := hinv x
      obtain ⟨-, hs⟩ := c_assert_eq_some.mp hs
      split_ifs at hs with hstate
      · obtain ⟨st₄, -, hs⟩ := Option.bind_eq_some_iff.mp hs
        cases hs
        unfold held at hx hin ⊢
        simp only [Option.getD_some, mem_list_append, Option.some.injEq, List.mem_append,
          List.mem_singleton] at hx hin ⊢
        tauto
      · cases hs
        unfold held at hx hin ⊢
        simp only [mem_list_append, List.mem_append, List.mem_singleton] at hx hin ⊢
        tauto

theorem mark_finalize_step1_all_listed {owners : List (ℕ × Option (finalizers_s Obj))}
    {out : List (ℕ × Option (finalizers_s Obj) × List Obj)}
    (h : mark_finalize_step1_all view st owners = some (out, st')) :
    ∀ q ∈ out, ∃ p ∈ owners, p.1 = q.1 ∧ ∀ f₁, q.2.1 = some f₁ →
      ∃ f₀, p.2 = some f₀ ∧ ∀ x, held f₁ x ∨ x ∈ q.2.2 → held f₀ x := by
  induction owners generalizing st out with
  | nil =>
      cases h
      simp
  | cons p owners ih =>
      obtain ⟨j, f⟩ := p
      obtain ⟨⟨f', marked, st₁⟩, hstep, h⟩ := Option.bind_eq_some_iff.mp h
      obtain ⟨⟨rest, st₂⟩, hrest, h⟩ := Option.bind_eq_some_iff.mp h
      cases h
      intro q hq
      rcases List.mem_cons.mp hq with rfl | hq
      · exact ⟨(j, f), List.mem_cons_self, rfl, mark_finalize_step1_listed hstep⟩
      · obtain ⟨p, hp, hpq⟩ := ih hrest q hq
        exact ⟨p, List.mem_cons_of_mem _ hp, hpq⟩

theorem mark_finalize_step2_all_listed {marked : List (ℕ × Option (finalizers_s Obj) × List Obj)}
    {out : List (ℕ × Option (finalizers_s Obj))}
    (h : mark_finalize_step2_all view st marked = some (out, st')) :
    ∀ q ∈ out, ∃ p ∈ marked, p.1 = q.1 ∧ ∀ f₁, q.2 = some f₁ →
      ∃ f₀, p.2.1 = some f₀ ∧ ∀ x, held f₁ x → held f₀ x ∨ x ∈ p.2.2 := by
  induction marked generalizing st out with
  | nil =>
      cases h
      simp
  | cons p marked ih =>
      obtain ⟨j, f, ms⟩ := p
      obtain ⟨⟨f', st₁⟩, hstep, h⟩ := Option.bind_eq_some_iff.mp h
      obtain ⟨⟨rest, st₂⟩, hrest, h⟩ := Option.bind_eq_some_iff.mp h
      cases h
      intro q hq
      rcases List.mem_cons.mp hq with rfl | hq
      · exact ⟨(j, f, ms), List.mem_cons_self, rfl, mark_finalize_step2_listed hstep⟩
      · obtain ⟨p, hp, hpq⟩ := ih hrest q hq
        exact ⟨p, List.mem_cons_of_mem _ hp, hpq⟩

/-- The pass puts nothing into a list that the list has not held. -/
theorem deal_with_objects_with_finalizers_listed {write_locks write_locks' : Obj → ℕ}
    {segments : List (Option (finalizers_s Obj))} {g_finalizers : finalizers_s Obj}
    {out : List (ℕ × Option (finalizers_s Obj))}
    (h : deal_with_objects_with_finalizers view write_locks segments g_finalizers
      = some (out, write_locks')) :
    ∀ q ∈ out, ∃ p ∈ finalizer_owners segments g_finalizers, p.1 = q.1 ∧ Filtered p.2 q.2 := by
  obtain ⟨⟨marked, st⟩, hstep1, h⟩ := Option.bind_eq_some_iff.mp h
  obtain ⟨⟨out', st'⟩, hstep2, h⟩ := Option.bind_eq_some_iff.mp h
  cases h
  intro q hq
  obtain ⟨r, hr, hrq, hback⟩ := mark_finalize_step2_all_listed hstep2 q hq
  obtain ⟨p, hp, hpr, hmarked⟩ := mark_finalize_step1_all_listed hstep1 r hr
  refine ⟨p, hp, hpr.trans hrq, fun f₁ hf₁ => ?_⟩
  obtain ⟨f₂, hf₂, hx₂⟩ := hback f₁ hf₁
  obtain ⟨f₀, hf₀, hx₀⟩ := hmarked f₂ hf₂
  exact ⟨f₀, hf₀, fun x hx => hx₀ x (hx₂ x hx)⟩

end Pass

end Stmgc.C7.YoungFinalizers
