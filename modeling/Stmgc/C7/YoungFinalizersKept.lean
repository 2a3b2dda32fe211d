/-
No minor collection frees an object that is in a list of finalizers, as long as
no object with a finalizer is allocated while the list is shorter than
`count_non_young` says.
-/
import Stmgc.C7.YoungFinalizers

open Stmgc.Lib

namespace Stmgc.C7.YoungFinalizers

variable {Obj : Type} [DecidableEq Obj]

/-- The young objects of a list come after the first `count_non_young`. -/
structure Inv (n : ℕ) (s : heap_t Obj) : Prop where
  work : ∀ i, Work (s.segs i) ∧ (s.segs i).objects_pointing_to_nursery = []
  outside : ∀ i, ¬ (1 ≤ i ∧ i ≤ n) → (s.segs i).young_outside_nursery = []
  allocated : ∀ i x, x ∈ (s.segs i).nursery ∨ x ∈ (s.segs i).young_outside_nursery → x ∈ s.allocated
  freed : ∀ x ∈ s.freed, x ∈ s.allocated
  kept : ∀ j f x, (s.segs j).finalizers = some f → held f x →
    x ∈ s.allocated ∧ x ∉ s.freed ∧ ∀ i, x ∉ (s.segs i).nursery
  young : ∀ i j f x, x ∈ (s.segs i).young_outside_nursery → (s.segs j).finalizers = some f → held f x →
    i = j ∧ x ∈ f.objects_with_finalizers.drop f.count_non_young

section Steps

variable {n i : ℕ} {s s' : heap_t Obj} {obj : Obj} {roots bags : List (Option Obj)}
  {trace : Obj → List (Option Obj)} {c : major_t Obj}

omit [DecidableEq Obj] in
theorem inv_initial : Inv n (initial : heap_t Obj) where
  work := fun _ => ⟨⟨by simp [initial], by simp [initial]⟩, rfl⟩
  outside := fun _ _ => rfl
  allocated := by simp [initial]
  freed := by simp [initial]
  kept := by simp [initial]
  young := by simp [initial]

omit [DecidableEq Obj] in
/-- A collection of a segment, or its abort: nothing of it is young any more, and
what was freed was young and in no list. -/
theorem Inv.clear (h : Inv n s) {seg : segment_t Obj} {dead : List Obj}
    (hnursery : seg.nursery = []) (hyoung : seg.young_outside_nursery = [])
    (hwork : seg.objects_pointing_to_nursery = [])
    (hfinalizers : ∀ f, seg.finalizers = some f → ∃ f₀, (s.segs i).finalizers = some f₀ ∧
      ∀ x, held f x → held f₀ x)
    (hdead : ∀ x ∈ dead, x ∈ (s.segs i).young_outside_nursery)
    (hkept : ∀ x ∈ dead, ∀ f, seg.finalizers = some f → ¬ held f x) :
    Inv n { s with segs := Function.update s.segs i seg, freed := s.freed ++ dead } := by
  have hat : ∀ j, j ≠ i → Function.update s.segs i seg j = s.segs j := fun j hj =>
    Function.update_of_ne hj _ _
  have hself : Function.update s.segs i seg i = seg := Function.update_self ..
  have hlist : ∀ j f, (Function.update s.segs i seg j).finalizers = some f →
      ∃ f₀, (s.segs j).finalizers = some f₀ ∧ ∀ x, held f x → held f₀ x := by
    intro j f hf
    by_cases hj : j = i
    · subst hj
      rw [hself] at hf
      exact hfinalizers f hf
    · rw [hat j hj] at hf
      exact ⟨f, hf, fun x hx => hx⟩
  have hless : ∀ j x, x ∈ (Function.update s.segs i seg j).nursery → x ∈ (s.segs j).nursery := by
    intro j x hx
    by_cases hj : j = i
    · rw [hj, hself, hnursery] at hx
      simp at hx
    · rwa [hat j hj] at hx
  have hless' : ∀ j x, x ∈ (Function.update s.segs i seg j).young_outside_nursery →
      j ≠ i ∧ x ∈ (s.segs j).young_outside_nursery := by
    intro j x hx
    by_cases hj : j = i
    · rw [hj, hself, hyoung] at hx
      simp at hx
    · exact ⟨hj, by rwa [hat j hj] at hx⟩
  refine ⟨fun j => ?_, fun j hj => ?_, fun j x hx => ?_, fun x hx => ?_, fun j f x hf hx => ?_,
    fun j k f x hx hf hheld => ?_⟩
  · show Work (Function.update s.segs i seg j) ∧ (Function.update s.segs i seg j).objects_pointing_to_nursery = []
    by_cases hj : j = i
    · rw [hj, hself]
      exact ⟨⟨by simp [hnursery], by simp [hwork]⟩, hwork⟩
    · rw [hat j hj]
      exact h.work j
  · show (Function.update s.segs i seg j).young_outside_nursery = []
    by_cases hji : j = i
    · rw [hji, hself]
      exact hyoung
    · rw [hat j hji]
      exact h.outside j hj
  · rcases hx with hx | hx
    · exact h.allocated j x (Or.inl (hless j x hx))
    · exact h.allocated j x (Or.inr (hless' j x hx).2)
  · rcases List.mem_append.mp hx with hx | hx
    · exact h.freed x hx
    · exact h.allocated i x (Or.inr (hdead x hx))
  · obtain ⟨f₀, hf₀, hheld⟩ := hlist j f hf
    obtain ⟨halloc, hfreed, hout⟩ := h.kept j f₀ x hf₀ (hheld x hx)
    refine ⟨halloc, fun hmem => ?_, fun k hk => hout k (hless k x hk)⟩
    rcases List.mem_append.mp hmem with hmem | hmem
    · exact hfreed hmem
    · -- a young object of the segment is in no other list
      obtain ⟨rfl, -⟩ := h.young i j f₀ x (hdead x hmem) hf₀ (hheld x hx)
      have hf' : seg.finalizers = some f := hself ▸ hf
      exact hkept x hmem f hf' hx
  · obtain ⟨hji, hyoung'⟩ := hless' j x hx
    obtain ⟨f₀, hf₀, hsub⟩ := hlist k f hf
    obtain ⟨hjk, hdrop⟩ := h.young j k f₀ x hyoung' hf₀ (hsub x hheld)
    have hk : Function.update s.segs i seg k = s.segs k := hat k (hjk ▸ hji)
    have hf' : (s.segs k).finalizers = some f := by rwa [← hk]
    obtain rfl : f₀ = f := Option.some.inj (hf₀.symm.trans hf')
    exact ⟨hjk, hdrop⟩

/-- **`minor_collection`** keeps what is in the lists. -/
theorem Inv.do_minor (h : Inv n s) : Returns (do_minor_collection roots bags trace (s.segs i)) fun (seg, dead) =>
    seg.nursery = [] ∧ seg.young_outside_nursery = [] ∧ seg.objects_pointing_to_nursery = [] ∧
    (seg.finalizers = (s.segs i).finalizers.map fun f =>
      { f with count_non_young := f.objects_with_finalizers.length }) ∧
    (∀ x ∈ dead, x ∈ (s.segs i).young_outside_nursery) ∧
    ∀ x ∈ dead, ∀ f, (s.segs i).finalizers = some f → ¬ held f x := by
  refine (do_minor_collection_spec (h.work i).1 ?_).mono ?_
  · intro f hf x hx
    exact (h.kept i f x hf (Or.inl hx)).2.2 i
  · rintro ⟨seg, dead⟩ ⟨hnursery, hyoung, hwork, hfinalizers, hdead⟩
    refine ⟨hnursery, hyoung, hwork, hfinalizers, fun x hx => (hdead x hx).1, fun x hx f hf hheld => ?_⟩
    obtain ⟨-, hdrop⟩ := h.young i i f x (hdead x hx).1 hf hheld
    exact (hdead x hx).2 f hf hdrop

theorem Inv.minor_collection (h : Inv n s) (hs : YoungFinalizers.minor_collection s i roots bags trace = some s') :
    Inv n s' ∧ (s'.segs i).young_outside_nursery = [] ∧ ∀ j, j ≠ i → s'.segs j = s.segs j := by
  obtain ⟨⟨seg, dead⟩, hrun, hnursery, hyoung, hwork, hfinalizers, hdead, hkept⟩ :=
    @Inv.do_minor _ _ n i s roots bags trace h
  unfold YoungFinalizers.minor_collection at hs
  rw [hrun] at hs
  obtain rfl := Option.some.inj hs
  refine ⟨h.clear hnursery hyoung hwork ?_ hdead ?_, ?_, fun j hj => Function.update_of_ne hj _ _⟩
  · intro f hf
    rw [hfinalizers, Option.map_eq_some_iff] at hf
    obtain ⟨f₀, hf₀, rfl⟩ := hf
    exact ⟨f₀, hf₀, fun x hx => hx⟩
  · intro x hx f hf hheld
    rw [hfinalizers, Option.map_eq_some_iff] at hf
    obtain ⟨f₀, hf₀, rfl⟩ := hf
    exact hkept x hx f₀ hf₀ hheld
  · show (Function.update s.segs i seg i).young_outside_nursery = []
    rw [Function.update_self]
    exact hyoung

omit [DecidableEq Obj] in
theorem Inv.abort (h : Inv n s) : Inv n (abort_data_structures s i) ∧
    ((abort_data_structures s i).segs i).young_outside_nursery = [] ∧
    ∀ j, j ≠ i → (abort_data_structures s i).segs j = s.segs j := by
  refine ⟨h.clear rfl rfl rfl (by simp) (fun x hx => hx) (by simp), ?_, fun j hj => Function.update_of_ne hj _ _⟩
  unfold abort_data_structures
  dsimp only
  rw [Function.update_self]
  rfl

/-- After the minor collections of a major one there are no young objects. -/
theorem Inv.major_do_minor_collections (h : Inv n s)
    (hs : YoungFinalizers.major_do_minor_collections n c s = some s') :
    Inv n s' ∧ ∀ i, (s'.segs i).young_outside_nursery = [] := by
  have hloop := foldlM_some (fun done (t : heap_t Obj) => Inv n t ∧
    ∀ i ∈ done, (t.segs i).young_outside_nursery = []) ?_ ⟨h, by simp⟩ hs
  · obtain ⟨hinv, hdone⟩ := hloop
    refine ⟨hinv, fun i => ?_⟩
    by_cases hi : 1 ≤ i ∧ i ≤ n
    · exact hdone i (List.mem_range'_1.mpr (by omega))
    · exact hinv.outside i hi
  · rintro done i todo t t' - ⟨hinv, hdone⟩ ht
    have hnext : Inv n t' ∧ (t'.segs i).young_outside_nursery = [] ∧ ∀ j, j ≠ i → t'.segs j = t.segs j := by
      unfold major_do_minor_collection at ht
      split_ifs at ht with hnothing habort
      · obtain rfl := Option.some.inj ht
        unfold minor_nothing_to_do at hnothing
        simp only [Bool.and_eq_true, List.isEmpty_iff] at hnothing
        exact ⟨hinv, hnothing.2, fun _ _ => rfl⟩
      · obtain rfl := Option.some.inj ht
        exact hinv.abort
      · exact hinv.minor_collection ht
    obtain ⟨hinv', hi, hother⟩ := hnext
    refine ⟨hinv', fun j hj => ?_⟩
    by_cases hji : j = i
    · rw [hji]
      exact hi
    · rcases List.mem_append.mp hj with hj | hj
      · rw [hother j hji]
        exact hdone j hj
      · exact absurd (List.mem_singleton.mp hj) hji

/-- What the second part of a major collection does to the lists. -/
structure Dealt (s s' : heap_t Obj) : Prop where
  nursery : ∀ i, (s'.segs i).nursery = (s.segs i).nursery
  young : ∀ i, (s'.segs i).young_outside_nursery = (s.segs i).young_outside_nursery
  work : ∀ i, (s'.segs i).objects_pointing_to_nursery = (s.segs i).objects_pointing_to_nursery
  finalizers : ∀ i, Filtered (s.segs i).finalizers (s'.segs i).finalizers
  allocated : s'.allocated = s.allocated
  freed : s'.freed = s.freed

omit [DecidableEq Obj] in
theorem Dealt.set_finalizers {t : heap_t Obj} {p : ℕ × Option (finalizers_s Obj)} (h : Dealt s t)
    (hp : p.1 ≠ 0 → Filtered (s.segs p.1).finalizers p.2) : Dealt s (set_finalizers t p) := by
  unfold YoungFinalizers.set_finalizers
  by_cases h0 : p.1 = 0
  · rw [if_pos h0]
    exact ⟨h.nursery, h.young, h.work, h.finalizers, h.allocated, h.freed⟩
  · rw [if_neg h0]
    have hseg : ∀ i, ∃ f, Function.update t.segs p.1 { t.segs p.1 with finalizers := p.2 } i
        = { t.segs i with finalizers := f } ∧ Filtered (s.segs i).finalizers f := by
      intro i
      by_cases hi : i = p.1
      · subst hi
        exact ⟨p.2, Function.update_self .., hp h0⟩
      · exact ⟨(t.segs i).finalizers, Function.update_of_ne hi _ _, h.finalizers i⟩
    refine ⟨fun i => ?_, fun i => ?_, fun i => ?_, fun i => ?_, h.allocated, h.freed⟩
    all_goals
      obtain ⟨f, hf, hfiltered⟩ := hseg i
      dsimp only
      rw [hf]
    · exact h.nursery i
    · exact h.young i
    · exact h.work i
    · exact hfiltered

omit [DecidableEq Obj] in
/-- The second part of a major collection. -/
theorem Inv.dealt (h : Inv n s) (hnone : ∀ i, (s.segs i).young_outside_nursery = []) (hd : Dealt s s') :
    Inv n s' where
  work := fun i => by
    obtain ⟨hwork, hempty⟩ := h.work i
    have hempty' := (hd.work i).trans hempty
    refine ⟨⟨fun x hx => ?_, by simp [hempty']⟩, hempty'⟩
    rw [hd.young i]
    exact hwork.apart x (hd.nursery i ▸ hx)
  outside := fun i _ => (hd.young i).trans (hnone i)
  allocated := fun i x hx => by
    rw [hd.nursery i, hd.young i] at hx
    rw [hd.allocated]
    exact h.allocated i x hx
  freed := fun x hx => by
    rw [hd.freed] at hx
    rw [hd.allocated]
    exact h.freed x hx
  kept := fun j f x hf hx => by
    obtain ⟨f₀, hf₀, hsub⟩ := hd.finalizers j f hf
    obtain ⟨halloc, hfreed, hout⟩ := h.kept j f₀ x hf₀ (hsub x hx)
    refine ⟨?_, ?_, fun i => ?_⟩
    · rwa [hd.allocated]
    · rwa [hd.freed]
    · rw [hd.nursery i]
      exact hout i
  young := fun i j f x hx => by
    rw [hd.young i, hnone i] at hx
    simp at hx

theorem Inv.major_collection (h : Inv n s) (hs : YoungFinalizers.major_collection n c s = some s') :
    Inv n s' := by
  obtain ⟨t, ht, hs⟩ := Option.bind_eq_some_iff.mp hs
  obtain ⟨⟨out, write_locks⟩, hout, hs⟩ := Option.bind_eq_some_iff.mp hs
  obtain rfl := Option.some.inj hs
  obtain ⟨hinv, hnone⟩ := h.major_do_minor_collections ht
  refine hinv.dealt hnone ?_
  refine foldl_spec (fun _ u => Dealt t u) ?_ ⟨fun _ => rfl, fun _ => rfl, fun _ => rfl, fun _ => .refl, rfl, rfl⟩
  intro _ q u hq hdealt
  refine hdealt.set_finalizers fun h0 => ?_
  obtain ⟨p, hp, hpq, hfiltered⟩ := deal_with_objects_with_finalizers_listed hout q hq
  -- the list belongs to a segment
  have howner : p.2 = (t.segs q.1).finalizers := by
    unfold finalizer_owners at hp
    rcases List.mem_append.mp hp with hp | hp
    · obtain ⟨i, hi, rfl⟩ := List.mem_mapIdx.mp hp
      rw [← hpq]
      simp
    · rw [List.mem_singleton.mp hp] at hpq
      exact absurd hpq.symm h0
  rw [← howner]
  exact hfiltered

omit [DecidableEq Obj] in
/-- A new object. -/
theorem Inv.add_object (h : Inv n s) (hi : 1 ≤ i ∧ i ≤ n) (hobj : obj ∉ s.allocated) {seg : segment_t Obj}
    (hwork : Work seg ∧ seg.objects_pointing_to_nursery = [])
    (hnursery : ∀ x ∈ seg.nursery, x = obj ∨ x ∈ (s.segs i).nursery)
    (hyoung : ∀ x ∈ seg.young_outside_nursery, x = obj ∨ x ∈ (s.segs i).young_outside_nursery)
    (hlist : ∀ f x, seg.finalizers = some f → held f x →
      (x = obj ∧ x ∈ f.objects_with_finalizers.drop f.count_non_young ∧ x ∉ seg.nursery) ∨
      ∃ f₀, (s.segs i).finalizers = some f₀ ∧ held f₀ x ∧
        (x ∈ f₀.objects_with_finalizers.drop f₀.count_non_young →
          x ∈ f.objects_with_finalizers.drop f.count_non_young)) :
    Inv n (add_object s i obj seg) := by
  have hat : ∀ j, j ≠ i → Function.update s.segs i seg j = s.segs j := fun j hj =>
    Function.update_of_ne hj _ _
  have hself : Function.update s.segs i seg i = seg := Function.update_self ..
  have hne : ∀ x ∈ s.allocated, x ≠ obj := fun x hx heq => hobj (heq ▸ hx)
  have hnursery' : ∀ j x, x ∈ (Function.update s.segs i seg j).nursery →
      x = obj ∧ j = i ∨ x ∈ (s.segs j).nursery := by
    intro j x hx
    by_cases hj : j = i
    · subst hj
      rw [hself] at hx
      exact (hnursery x hx).imp_left fun heq => ⟨heq, rfl⟩
    · rw [hat j hj] at hx
      exact Or.inr hx
  have hyoung' : ∀ j x, x ∈ (Function.update s.segs i seg j).young_outside_nursery →
      x = obj ∧ j = i ∨ x ∈ (s.segs j).young_outside_nursery := by
    intro j x hx
    by_cases hj : j = i
    · subst hj
      rw [hself] at hx
      exact (hyoung x hx).imp_left fun heq => ⟨heq, rfl⟩
    · rw [hat j hj] at hx
      exact Or.inr hx
  have hlist' : ∀ j f x, (Function.update s.segs i seg j).finalizers = some f → held f x →
      (x = obj ∧ j = i ∧ x ∈ f.objects_with_finalizers.drop f.count_non_young ∧ x ∉ seg.nursery) ∨
      ∃ f₀, (s.segs j).finalizers = some f₀ ∧ held f₀ x ∧
        (x ∈ f₀.objects_with_finalizers.drop f₀.count_non_young →
          x ∈ f.objects_with_finalizers.drop f.count_non_young) := by
    intro j f x hf hx
    by_cases hj : j = i
    · subst hj
      rw [hself] at hf
      exact (hlist f x hf hx).imp_left fun ⟨heq, hrest⟩ => ⟨heq, rfl, hrest⟩
    · rw [hat j hj] at hf
      exact Or.inr ⟨f, hf, hx, fun hdrop => hdrop⟩
  refine ⟨fun j => ?_, fun j hj => ?_, fun j x hx => ?_, fun x hx => ?_, fun j f x hf hx => ?_,
    fun j k f x hx hf hheld => ?_⟩
  · show Work (Function.update s.segs i seg j) ∧ (Function.update s.segs i seg j).objects_pointing_to_nursery = []
    by_cases hj : j = i
    · rw [hj, hself]
      exact hwork
    · rw [hat j hj]
      exact h.work j
  · have hji : j ≠ i := fun heq => hj (heq ▸ hi)
    show (Function.update s.segs i seg j).young_outside_nursery = []
    rw [hat j hji]
    exact h.outside j hj
  · rcases hx with hx | hx
    · rcases hnursery' j x hx with ⟨rfl, -⟩ | hx
      · exact List.mem_cons_self
      · exact List.mem_cons_of_mem _ (h.allocated j x (Or.inl hx))
    · rcases hyoung' j x hx with ⟨rfl, -⟩ | hx
      · exact List.mem_cons_self
      · exact List.mem_cons_of_mem _ (h.allocated j x (Or.inr hx))
  · exact List.mem_cons_of_mem _ (h.freed x hx)
  · rcases hlist' j f x hf hx with ⟨rfl, -, -, hout⟩ | ⟨f₀, hf₀, hheld, -⟩
    · refine ⟨List.mem_cons_self, fun hmem => hobj (h.freed x hmem), fun k hk => ?_⟩
      rcases hnursery' k x hk with ⟨-, rfl⟩ | hk'
      · have hk' : x ∈ seg.nursery := hself ▸ hk
        exact hout hk'
      · exact hobj (h.allocated k x (Or.inl hk'))
    · obtain ⟨halloc, hfreed, hout⟩ := h.kept j f₀ x hf₀ hheld
      refine ⟨List.mem_cons_of_mem _ halloc, hfreed, fun k hk => ?_⟩
      rcases hnursery' k x hk with ⟨heq, -⟩ | hk
      · exact hne x halloc heq
      · exact hout k hk
  · rcases hlist' k f x hf hheld with ⟨rfl, rfl, hdrop, -⟩ | ⟨f₀, hf₀, hheld₀, hdrop⟩
    · rcases hyoung' j x hx with ⟨-, hj⟩ | hx
      · exact ⟨hj, hdrop⟩
      · exact absurd (h.allocated j x (Or.inr hx)) hobj
    · have halloc := (h.kept k f₀ x hf₀ hheld₀).1
      rcases hyoung' j x hx with ⟨heq, -⟩ | hx
      · exact absurd heq (hne x halloc)
      · obtain ⟨hjk, hin⟩ := h.young j k f₀ x hx hf₀ hheld₀
        exact ⟨hjk, hdrop hin⟩

/-- **The step lemma.** -/
theorem Inv.step {a : action_t Obj} (h : Inv n s) (hok : InStep s a)
    (hs : YoungFinalizers.step n s a = .next s') : Inv n s' := by
  cases a with
  | stm_allocate i obj =>
      obtain ⟨⟨hlo, hhi, hobj⟩, hs⟩ := guarded_eq_next.mp hs
      rw [Outcome.next.injEq] at hs
      subst hs
      obtain ⟨hwork, hempty⟩ := h.work i
      refine h.add_object ⟨hlo, hhi⟩ hobj ⟨⟨fun x hx => ?_, by simp [hempty]⟩, hempty⟩
        (fun x hx => List.mem_cons.mp hx) (fun x hx => Or.inr hx) fun f x hf hx => Or.inr ⟨f, hf, hx, fun hd => hd⟩
      rcases List.mem_cons.mp hx with rfl | hx
      · exact fun hmem => hobj (h.allocated i x (Or.inr hmem))
      · exact hwork.apart x hx
  | stm_allocate_external i obj =>
      obtain ⟨⟨hlo, hhi, hobj⟩, hs⟩ := guarded_eq_next.mp hs
      rw [Outcome.next.injEq] at hs
      subst hs
      obtain ⟨hwork, hempty⟩ := h.work i
      refine h.add_object ⟨hlo, hhi⟩ hobj ⟨⟨fun x hx hmem => ?_, by simp [hempty]⟩, hempty⟩
        (fun x hx => Or.inr hx) (fun x hx => List.mem_cons.mp hx) fun f x hf hx => Or.inr ⟨f, hf, hx, fun hd => hd⟩
      rcases List.mem_cons.mp hmem with rfl | hmem
      · exact hobj (h.allocated i x (Or.inl hx))
      · exact hwork.apart x hx hmem
  | stm_allocate_with_finalizer i obj =>
      obtain ⟨⟨hlo, hhi, hobj⟩, hs⟩ := guarded_eq_next.mp hs
      rw [Outcome.next.injEq] at hs
      subst hs
      obtain ⟨hwork, hempty⟩ := h.work i
      have hnursery : obj ∉ (s.segs i).nursery := fun hmem => hobj (h.allocated i obj (Or.inl hmem))
      refine h.add_object ⟨hlo, hhi⟩ hobj ⟨⟨fun x hx hmem => ?_, by simp [hempty]⟩, hempty⟩
        (fun x hx => Or.inr hx) (fun x hx => List.mem_cons.mp hx) ?_
      · rcases List.mem_cons.mp hmem with rfl | hmem
        · exact hnursery hx
        · exact hwork.apart x hx hmem
      · rintro f x ⟨⟩ hx
        unfold append_finalizer list_append at hx ⊢
        dsimp only at hx ⊢
        cases hf : (s.segs i).finalizers with
        | none =>
            rw [hf] at hx
            obtain rfl : x = obj := by simpa [held, init_finalizers] using hx
            exact Or.inl ⟨rfl, by simp [init_finalizers], hnursery⟩
        | some f₀ =>
            rw [hf] at hx
            have hle := hok f₀ hf
            simp only [Option.getD_some] at hx ⊢
            -- the new object comes after the first `count_non_young`
            rw [List.drop_append_of_le_length hle]
            rcases hx with hx | hx
            · rcases List.mem_append.mp hx with hx | hx
              · exact Or.inr ⟨f₀, rfl, Or.inl hx, fun hd => List.mem_append_left _ hd⟩
              · obtain rfl := List.mem_singleton.mp hx
                exact Or.inl ⟨rfl, by simp, hnursery⟩
            · exact Or.inr ⟨f₀, rfl, Or.inr hx, fun hd => List.mem_append_left _ hd⟩
  | minor_collection i roots bags trace =>
      obtain ⟨-, hs⟩ := guarded_eq_next.mp hs
      exact (h.minor_collection (Outcome.ofOption_eq_next.mp hs)).1
  | major_collection c => exact h.major_collection (Outcome.ofOption_eq_next.mp hs)

end Steps

/-! ## Runs -/

section Runs

/-- A minor collection, of any segment and whatever it goes through, ends and
frees no object that the list of the segment holds. -/
def Traces (s : heap_t Obj) : Prop :=
  ∀ i roots bags trace, Returns (do_minor_collection roots bags trace (s.segs i)) fun (_, dead) =>
    ∀ f, (s.segs i).finalizers = some f → ∀ x ∈ f.objects_with_finalizers, x ∉ dead

/-- No object that is in a list, or about to be finalized, has been freed. -/
def NoneFreed (s : heap_t Obj) : Prop :=
  ∀ i f, (s.segs i).finalizers = some f → ∀ x, held f x → x ∉ s.freed

theorem young_finalizers_kept (n : ℕ) (s : heap_t Obj)
    (h : ReachableIf (· = initial) (step n) InStep s) : Traces s ∧ NoneFreed s := by
  have hinv : Inv n s := h.invariant (fun s hs => hs ▸ inv_initial) fun s a s' hinv hok hs => hinv.step hok hs
  refine ⟨fun i roots bags trace => hinv.do_minor.mono ?_, fun i f hf x hx => (hinv.kept i f x hf hx).2.1⟩
  rintro ⟨seg, dead⟩ ⟨-, -, -, -, -, hkept⟩ f hf x hx hmem
  exact hkept x hmem f hf (Or.inl hx)

/-- One object with a finalizer. -/
theorem young_finalizers_kept_one : ∃ s : heap_t ℕ,
    (∃ f, (s.segs 1).finalizers = some f ∧ 7 ∈ f.objects_with_finalizers) ∧
      7 ∈ (s.segs 1).young_outside_nursery ∧ Traces s ∧ NoneFreed s := by
  have hs : step 1 initial (.stm_allocate_with_finalizer 1 7)
      = .next (add_object initial 1 7 ⟨[], [7], [], some ⟨[7], 0, none, none⟩⟩) := rfl
  have hok : InStep (initial : heap_t ℕ) (.stm_allocate_with_finalizer 1 7) := by
    rintro f ⟨⟩
  have hstart : ReachableIf (· = initial) (step 1) InStep (initial : heap_t ℕ) := .start rfl
  exact ⟨_, ⟨⟨[7], 0, none, none⟩, rfl, by decide⟩, by decide, young_finalizers_kept 1 _ (hstart.step hok hs)⟩

/-- The lock byte of 7. -/
def colour (c : ℕ) : ℕ → ℕ := Function.update (fun _ => 0) 7 c

/-- Nothing points to anything. -/
def forgotten : major_t ℕ where
  must_abort := fun _ => false
  roots := fun _ => []
  bags := fun _ => []
  view := fun _ _ => []
  write_locks := colour 0

omit [DecidableEq Obj] in
theorem add_object_self {s : heap_t Obj} {i : ℕ} {obj : Obj} {seg : segment_t Obj} :
    (add_object s i obj seg).segs i = seg := by
  unfold add_object
  dsimp only
  rw [Function.update_self]

theorem minor_collection_seven : do_minor_collection [] [] (fun _ => [])
    (⟨[], [7], [], some ⟨[7], 0, none, none⟩⟩ : segment_t ℕ)
      = some (⟨[], [], [], some ⟨[7], 1, none, none⟩⟩, []) := by
  have hloop : loop (collect_oldrefs_body fun _ => [])
      (⟨[], [], [7], some ⟨[7], 1, none, none⟩⟩ : segment_t ℕ)
        = some ⟨[], [], [], some ⟨[7], 1, none, none⟩⟩ := by
    rw [loop_cont (y := ⟨[], [], [], some ⟨[7], 1, none, none⟩⟩) rfl]
    exact loop_done rfl
  show (loop (collect_oldrefs_body fun _ => [])
    (⟨[], [], [7], some ⟨[7], 1, none, none⟩⟩ : segment_t ℕ)).bind _ = _
  rw [hloop]
  rfl

theorem colour_update {c d : ℕ} : Function.update (colour c) 7 d = colour d := Function.update_idem ..

theorem colour_seven {c : ℕ} : colour c 7 = c := Function.update_self ..

theorem recursively_bump_seven {c : ℕ} {to_state : ℤ} (h : (c : ℤ) - 252 = to_state - 1) :
    recursively_bump_finalization_state (fun _ => []) ⟨colour c, [], []⟩ 7 to_state
      = some ⟨colour (c + 1), [], []⟩ := by
  have hstate : finalization_state (colour c) 7 = to_state - 1 := by
    unfold finalization_state
    rw [colour_seven]
    exact h
  have hloop : loop (recursively_bump_body (fun _ => []) to_state) (colour c, [], 7)
      = some (colour (c + 1), []) := by
    refine loop_done ?_
    unfold recursively_bump_body
    dsimp only
    rw [if_pos hstate, colour_seven, colour_update]
    rfl
  unfold recursively_bump_finalization_state
  rw [hloop]
  rfl

theorem deal_with_seven : deal_with_objects_with_finalizers (fun _ _ => []) (colour 0)
    [some ⟨[7], 1, none, none⟩] (init_finalizers : finalizers_s ℕ)
      = some ([(1, some ⟨[], 1, some [some 7], none⟩), (0, some init_finalizers)], colour 255) := by
  have hpending : loop (mark_finalize_pending_body (fun _ => []))
      (⟨colour 0, [], [7]⟩ : FinalizerState ℕ) = some ⟨colour 253, [], []⟩ := by
    have hturn : mark_finalize_pending_body (fun _ => []) (⟨colour 0, [], [7]⟩ : FinalizerState ℕ)
        = some (.cont ⟨Function.update (colour 0) 7 253, [], []⟩) := rfl
    rw [loop_cont hturn, colour_update]
    exact loop_done rfl
  have hbump2 := @recursively_bump_seven 253 2 rfl
  have hbump3 := @recursively_bump_seven 254 3 rfl
  have hstep1 : mark_finalize_step1 (fun _ => []) ⟨colour 0, [], []⟩ (some ⟨[7], 1, none, none⟩)
      = some (some ⟨[], 1, none, none⟩, [7], ⟨colour 254, [], []⟩) := by
    simp [mark_finalize_step1, mark_finalize_step1_body, finalization_state, WL_FINALIZ_ORDER_1, list_append,
      c_assert, colour_seven, hpending, hbump2]
  have hstep2 : mark_finalize_step2 (fun _ => []) ⟨colour 254, [], []⟩ [7] (some ⟨[], 1, none, none⟩)
      = some (some ⟨[], 1, some [some 7], none⟩, ⟨colour 255, [], []⟩) := by
    simp [mark_finalize_step2, mark_finalize_step2_body, finalization_state, WL_FINALIZ_ORDER_1, list_append,
      c_assert, colour_seven, hbump3]
  have hnone : ∀ st : FinalizerState ℕ, mark_finalize_step1 (fun _ => []) st (some init_finalizers)
      = some (some init_finalizers, [], st) := fun _ => rfl
  have hnone' : ∀ st : FinalizerState ℕ, mark_finalize_step2 (fun _ => []) st [] (some init_finalizers)
      = some (some init_finalizers, st) := fun _ => rfl
  simp [deal_with_objects_with_finalizers, finalizer_owners, mark_finalize_step1_all, mark_finalize_step2_all,
    hstep1, hstep2, hnone, hnone']

/-- A major collection that finds nothing but 7, in the list. -/
theorem major_collection_seven : ∃ s : heap_t ℕ, major_collection 1 forgotten
    (add_object initial 1 7 ⟨[], [7], [], some ⟨[7], 0, none, none⟩⟩) = some s ∧
      s.segs 1 = ⟨[], [], [], some ⟨[], 1, some [some 7], none⟩⟩ ∧ s.allocated = [7] := by
  obtain ⟨s, hs⟩ : ∃ s : heap_t ℕ, s = add_object initial 1 7 ⟨[], [7], [], some ⟨[7], 0, none, none⟩⟩ := ⟨_, rfl⟩
  have hseg : s.segs 1 = ⟨[], [7], [], some ⟨[7], 0, none, none⟩⟩ := by
    rw [hs]
    exact add_object_self
  have hminors : major_do_minor_collections 1 forgotten s
      = some { s with segs := Function.update s.segs 1 ⟨[], [], [], some ⟨[7], 1, none, none⟩⟩
                      freed := s.freed ++ [] } := by
    show (major_do_minor_collection forgotten s 1).bind some = _
    unfold major_do_minor_collection
    rw [hseg, if_neg (by decide), if_neg (by decide)]
    unfold minor_collection
    rw [hseg]
    have hrun := minor_collection_seven
    unfold forgotten
    dsimp only
    rw [hrun]
    rfl
  refine ⟨[(1, some ⟨[], 1, some [some 7], none⟩), (0, some init_finalizers)].foldl set_finalizers
    { s with segs := Function.update s.segs 1 ⟨[], [], [], some ⟨[7], 1, none, none⟩⟩
             freed := s.freed ++ [] }, ?_, ?_, ?_⟩
  · rw [← hs]
    unfold major_collection
    rw [hminors]
    have hdeal := deal_with_seven
    have hview : forgotten.view = fun _ _ => [] := rfl
    have hlocks : forgotten.write_locks = colour 0 := rfl
    have hglobal : s.g_finalizers = init_finalizers := by
      rw [hs]
      rfl
    rw [hview, hlocks]
    simp [hglobal, hdeal]
  · simp [set_finalizers]
  · simp [set_finalizers, hs, add_object, initial]

/-- The second object with a finalizer is allocated at the start of a list that
should have no young objects there. -/
theorem young_finalizer_freed : ¬ ∀ (n : ℕ) (s : heap_t ℕ), Reachable (· = initial) (step n) s →
    Traces s ∧ NoneFreed s := by
  intro hclaim
  obtain ⟨s, hmajor, hseg, hallocated⟩ := major_collection_seven
  have hs1 : step 1 initial (.stm_allocate_with_finalizer 1 7)
      = .next (add_object initial 1 7 ⟨[], [7], [], some ⟨[7], 0, none, none⟩⟩) := rfl
  have hs2 : step 1 (add_object initial 1 7 ⟨[], [7], [], some ⟨[7], 0, none, none⟩⟩)
      (.major_collection forgotten) = .next s := Outcome.ofOption_eq_next.mpr hmajor
  have hs3 : step 1 s (.stm_allocate_with_finalizer 1 8)
      = .next (add_object s 1 8 ⟨[], [8], [], some ⟨[8], 1, some [some 7], none⟩⟩) := by
    refine guarded_eq_next.mpr ⟨⟨le_refl _, le_refl _, by rw [hallocated]; decide⟩, ?_⟩
    rw [hseg]
    rfl
  have hstart : Reachable (· = initial) (step 1) (initial : heap_t ℕ) := .start rfl
  obtain ⟨htraces, -⟩ := hclaim 1 _ (((hstart.step trivial hs1).step trivial hs2).step trivial hs3)
  obtain ⟨⟨seg, dead⟩, hrun, hdead⟩ := htraces 1 [] [] (fun _ => [])
  have hat : (add_object s 1 8 ⟨[], [8], [], some ⟨[8], 1, some [some 7], none⟩⟩).segs 1
      = ⟨[], [8], [], some ⟨[8], 1, some [some 7], none⟩⟩ := add_object_self
  rw [hat] at hrun hdead
  have hloop : loop (collect_oldrefs_body fun _ => [])
      (⟨[], [8], [], some ⟨[8], 1, some [some 7], none⟩⟩ : segment_t ℕ)
        = some ⟨[], [8], [], some ⟨[8], 1, some [some 7], none⟩⟩ := loop_done rfl
  have hfreed : do_minor_collection [] [] (fun _ => [])
      (⟨[], [8], [], some ⟨[8], 1, some [some 7], none⟩⟩ : segment_t ℕ)
        = some (⟨[], [], [], some ⟨[8], 1, some [some 7], none⟩⟩, [8]) := by
    show (loop (collect_oldrefs_body fun _ => [])
      (⟨[], [8], [], some ⟨[8], 1, some [some 7], none⟩⟩ : segment_t ℕ)).bind _ = _
    rw [hloop]
    rfl
  obtain ⟨rfl, rfl⟩ := Prod.mk.inj (Option.some.inj (hfreed.symm.trans hrun))
  exact hdead _ rfl 8 (by decide) (by decide)

end Runs

end Stmgc.C7.YoungFinalizers
