/-
Reachability in a directed graph, and the facts a worklist search needs.

A search floods the nodes that satisfy some predicate `T` (not yet marked, in
a given colour): it visits exactly the nodes joined to its start by a path
that stays inside `T`, [`PathIn`]. [`flood_complete`] is the argument that an
exhausted worklist has reached all of them, and [`workLeft`] the measure by
which every such search terminates on a finite graph.
-/
import Mathlib.Algebra.Order.BigOperators.Group.Finset

namespace Stmgc.Lib

section Graph

variable {α : Type} {R : α → α → Prop} {T : α → Prop}

/-- `b` is reachable from `a`. -/
abbrev Reach (R : α → α → Prop) : α → α → Prop := Relation.ReflTransGen R

/-- Two nodes of one strongly connected component. -/
def SameScc (R : α → α → Prop) (a b : α) : Prop := Reach R a b ∧ Reach R b a

/-- A path from `a` to `b` all of whose nodes satisfy `T`. -/
def PathIn (R : α → α → Prop) (T : α → Prop) (a b : α) : Prop :=
  T a ∧ Reach (fun x y => R x y ∧ T y) a b

theorem PathIn.refl {a : α} (h : T a) : PathIn R T a a := ⟨h, .refl⟩

theorem PathIn.tail {a b c : α} (h : PathIn R T a b) (hbc : R b c) (hc : T c) :
    PathIn R T a c := ⟨h.1, h.2.tail ⟨hbc, hc⟩⟩

theorem PathIn.reach {a b : α} (h : PathIn R T a b) : Reach R a b :=
  Relation.ReflTransGen.mono (fun _ _ hxy => hxy.1) _ _ h.2

theorem PathIn.right {a b : α} (h : PathIn R T a b) : T b := by
  rcases Relation.ReflTransGen.cases_tail h.2 with hab | ⟨_, _, hb⟩
  · exact hab ▸ h.1
  · exact hb.2

/-- An exhausted worklist has visited every node it could: a set that holds
the start and every `T`-successor of its members holds every node joined to
the start inside `T`. -/
theorem flood_complete {V : α → Prop} {a b : α} (h : PathIn R T a b)
    (hstart : T a → V a) (hstep : ∀ v w, V v → R v w → T w → V w) : V b := by
  obtain ⟨ha, hab⟩ := h
  induction hab with
  | refl => exact hstart ha
  | tail _ hbc ih => exact hstep _ _ ih hbc.1 hbc.2

/-- When everything reachable from a `T`-node that satisfies `T` can be left
only into `C`, and `C` is closed and disjoint from `T`, a node of `T` is
reached inside `T`. -/
theorem pathIn_of_reach {C : α → Prop} {a b : α} (hab : Reach R a b) (ha : T a) (hb : T b)
    (hTC : ∀ x y, T x → R x y → T y ∨ C y) (hC : ∀ x y, C x → R x y → C y)
    (hdisj : ∀ x, T x → ¬ C x) : PathIn R T a b := by
  have hall : PathIn R T a b ∨ C b := by
    clear hb
    induction hab with
    | refl => exact .inl (.refl ha)
    | tail _ hbc ih =>
        rcases ih with h | h
        · rcases hTC _ _ h.right hbc with hc | hc
          · exact .inl (h.tail hbc hc)
          · exact .inr hc
        · exact .inr (hC _ _ h hbc)
  exact hall.resolve_right (hdisj b hb)

/-- A closed set holds whatever is reachable from its members. -/
theorem reach_closed {C : α → Prop} {a b : α} (hab : Reach R a b) (ha : C a)
    (hC : ∀ x y, C x → R x y → C y) : C b := by
  induction hab with
  | refl => exact ha
  | tail _ hbc ih => exact hC _ _ ih hbc

/-! ### Acyclic relations -/

/-- No node is joined to itself by a path of one edge or more. -/
def Acyclic (R : α → α → Prop) : Prop := ∀ a, ¬ Relation.TransGen R a a

theorem acyclic_of_forall_not (h : ∀ a b, ¬ R a b) : Acyclic R := by
  intro a hcycle
  obtain ⟨b, hab, -⟩ := Relation.TransGen.head'_iff.mp hcycle
  exact h a b hab

theorem Acyclic.mono {R' : α → α → Prop} (h : Acyclic R) (hsub : ∀ a b, R' a b → R a b) :
    Acyclic R' := by
  intro a hcycle
  exact h a (Relation.TransGen.mono hsub _ _ hcycle)

/-- A new edge into a node that no edge leaves closes no cycle. -/
theorem Acyclic.insert_into_sink {R' : α → α → Prop} {x y : α} (h : Acyclic R)
    (hsub : ∀ a b, R' a b → R a b ∨ (a = x ∧ b = y)) (hsink : ∀ b, ¬ R' y b) : Acyclic R' := by
  -- a path either avoids the new edge or ends in it
  have hpath : ∀ a b, Relation.TransGen R' a b → Relation.TransGen R a b ∨ b = y := by
    intro a b hab
    induction hab with
    | single hab => exact (hsub _ _ hab).imp .single (·.2)
    | tail _ hbc ih =>
        rcases ih with hab | rfl
        · exact (hsub _ _ hbc).imp (hab.tail ·) (·.2)
        · exact absurd hbc (hsink _)
  intro a hcycle
  rcases hpath a a hcycle with ha | rfl
  · exact h a ha
  · obtain ⟨b, hab, -⟩ := Relation.TransGen.head'_iff.mp hcycle
    exact hsink b hab

/-- A new edge out of a node that no edge enters closes no cycle. -/
theorem Acyclic.insert_from_source {R' : α → α → Prop} {x y : α} (h : Acyclic R)
    (hsub : ∀ a b, R' a b → R a b ∨ (a = x ∧ b = y)) (hsource : ∀ a, ¬ R' a x) :
    Acyclic R' := by
  -- a path that starts elsewhere never comes to the new edge
  have hpath : ∀ a b, Relation.TransGen R' a b → a ≠ x → Relation.TransGen R a b := by
    intro a b hab ha
    induction hab with
    | single hab => exact .single ((hsub _ _ hab).resolve_right (fun h => ha h.1))
    | tail hab hbc ih =>
        refine ih.tail ((hsub _ _ hbc).resolve_right ?_)
        rintro ⟨rfl, -⟩
        obtain ⟨c, -, hc⟩ := Relation.TransGen.tail'_iff.mp hab
        exact hsource c hc
  intro a hcycle
  by_cases ha : a = x
  · obtain ⟨c, -, hc⟩ := Relation.TransGen.tail'_iff.mp hcycle
    exact hsource c (ha ▸ hc)
  · exact h a (hpath a a hcycle ha)

/-- A cycle that comes into a region that no edge leaves stays in it; any
other cycle is outside. -/
theorem Acyclic.of_region (hclosed : ∀ a b, T a → R a b → T b)
    (hin : Acyclic fun a b => T a ∧ R a b) (hout : Acyclic fun a b => R a b ∧ ¬ T b) :
    Acyclic R := by
  have hstay : ∀ a b, Relation.TransGen R a b → T a →
      Relation.TransGen (fun a b => T a ∧ R a b) a b ∧ T b := by
    intro a b hab ha
    induction hab with
    | single hab => exact ⟨.single ⟨ha, hab⟩, hclosed _ _ ha hab⟩
    | tail _ hbc ih => exact ⟨ih.1.tail ⟨ih.2, hbc⟩, hclosed _ _ ih.2 hbc⟩
  have hoff : ∀ a b, Relation.TransGen R a b → ¬ T b →
      Relation.TransGen (fun a b => R a b ∧ ¬ T b) a b := by
    intro a b hab hb
    induction hab with
    | single hab => exact .single ⟨hab, hb⟩
    | tail _ hbc ih => exact (ih fun h => hb (hclosed _ _ h hbc)).tail ⟨hbc, hb⟩
  intro a hcycle
  by_cases ha : T a
  · exact hin a (hstay a a hcycle ha).1
  · exact hout a (hoff a a hcycle ha)

/-- Whoever follows the edges of a finite acyclic relation comes to an end. -/
theorem Acyclic.exists_sink (h : Acyclic R) (nodes : Finset α) (hmem : ∀ a b, R a b → b ∈ nodes)
    {a b : α} (hab : R a b) : ∃ c, Relation.TransGen R a c ∧ ∀ d, ¬ R c d := by
  classical
  -- by induction on the number of nodes that can still be reached
  suffices hend : ∀ n a b, R a b → (nodes.filter (Relation.TransGen R b)).card ≤ n →
      ∃ c, Relation.TransGen R a c ∧ ∀ d, ¬ R c d from hend _ a b hab le_rfl
  intro n
  induction n with
  | zero =>
      intro a b hab hcard
      refine ⟨b, .single hab, fun d hbd => ?_⟩
      have hd : d ∈ nodes.filter (Relation.TransGen R b) :=
        Finset.mem_filter.mpr ⟨hmem b d hbd, .single hbd⟩
      rw [Finset.card_eq_zero.mp (Nat.le_zero.mp hcard)] at hd
      exact absurd hd (Finset.notMem_empty d)
  | succ n ih =>
      intro a b hab hcard
      by_cases hb : ∃ d, R b d
      · obtain ⟨d, hbd⟩ := hb
        have hless : nodes.filter (Relation.TransGen R d) ⊂ nodes.filter (Relation.TransGen R b) := by
          refine Finset.ssubset_iff_subset_ne.mpr ⟨fun x hx => ?_, fun heq => ?_⟩
          · rw [Finset.mem_filter] at hx ⊢
            exact ⟨hx.1, .head hbd hx.2⟩
          · have hd : d ∈ nodes.filter (Relation.TransGen R b) :=
              Finset.mem_filter.mpr ⟨hmem b d hbd, .single hbd⟩
            rw [← heq, Finset.mem_filter] at hd
            exact h d hd.2
        have hlt := Finset.card_lt_card hless
        obtain ⟨c, hbc, hc⟩ := ih b d hbd (by omega)
        exact ⟨c, .head hab hbc, hc⟩
      · exact ⟨b, .single hab, fun d hbd => hb ⟨d, hbd⟩⟩

end Graph

/-! ## Termination of a search -/

section WorkLeft

variable {α : Type} [DecidableEq α]

/-- What a search can still push: every unvisited node pushes its references
once, and costs one turn itself. -/
def workLeft (objs : Finset α) (T : α → Prop) [DecidablePred T] (cost : α → ℕ) : ℕ :=
  ∑ o ∈ objs with T o, (cost o + 1)

/-- Visiting `a` uses up its share. -/
theorem workLeft_visit (objs : Finset α) (T T' : α → Prop) [DecidablePred T]
    [DecidablePred T'] (cost : α → ℕ) {a : α} (ha : a ∈ objs) (hTa : T a)
    (hT' : ∀ o, T' o ↔ T o ∧ o ≠ a) :
    workLeft objs T' cost + (cost a + 1) = workLeft objs T cost := by
  have hfilter : (objs.filter T').erase a = (objs.filter T).erase a := by
    ext o
    simp only [Finset.mem_erase, Finset.mem_filter, hT']
    tauto
  have hnot : a ∉ objs.filter T' := by simp [hT']
  rw [Finset.erase_eq_of_notMem hnot] at hfilter
  rw [workLeft, workLeft, hfilter]
  exact Finset.sum_erase_add _ _ (Finset.mem_filter.mpr ⟨ha, hTa⟩)

omit [DecidableEq α] in
/-- Marking further nodes leaves no more work. -/
theorem workLeft_mono (objs : Finset α) (T T' : α → Prop) [DecidablePred T]
    [DecidablePred T'] (cost : α → ℕ) (h : ∀ o, T' o → T o) :
    workLeft objs T' cost ≤ workLeft objs T cost := by
  refine Finset.sum_le_sum_of_subset (fun o ho => ?_)
  rw [Finset.mem_filter] at ho ⊢
  exact ⟨ho.1, h o ho.2⟩

end WorkLeft

end Stmgc.Lib
