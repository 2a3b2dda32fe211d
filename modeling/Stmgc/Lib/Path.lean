/-
Chains of nodes that each lead to the next one.

`Path R a nodes b` says that following `R` from `a` goes through `nodes` and
comes to `b`, which is not among the nodes that are listed. A list in memory
is a path along its links; what is said about it is kept as long as the links
of its nodes are.
-/
import Mathlib.Logic.Relation
import Mathlib.Data.List.Basic

namespace Stmgc.Lib

variable {α : Type} {R R' : α → α → Prop} {a b c : α} {nodes : List α}

inductive Path (R : α → α → Prop) : α → List α → α → Prop where
  | refl (a : α) : Path R a [] a
  | head {a b c : α} {nodes : List α} : R a b → Path R b nodes c → Path R a (a :: nodes) c

theorem Path.nil_iff : Path R a [] b ↔ a = b := by
  constructor
  · intro h
    cases h
    rfl
  · rintro rfl
    exact .refl a

theorem Path.cons_iff {x : α} :
    Path R a (x :: nodes) c ↔ x = a ∧ ∃ b, R a b ∧ Path R b nodes c := by
  constructor
  · intro h
    cases h with
    | head hab hbc => exact ⟨rfl, _, hab, hbc⟩
  · rintro ⟨rfl, b, hab, hbc⟩
    exact .head hab hbc

/-- The path goes one node further. -/
theorem Path.tail (h : Path R a nodes b) (hbc : R b c) : Path R a (nodes ++ [b]) c := by
  induction h with
  | refl a => exact .head hbc (.refl _)
  | head hab _ ih => exact .head hab (ih hbc)

/-- A path depends on the links of its nodes. -/
theorem Path.congr (h : Path R a nodes b) (hR : ∀ x ∈ nodes, ∀ y, R x y → R' x y) :
    Path R' a nodes b := by
  induction h with
  | refl a => exact .refl a
  | head hab _ ih =>
      exact .head (hR _ List.mem_cons_self _ hab)
        (ih fun x hx => hR x (List.mem_cons_of_mem _ hx))

theorem Path.reflTransGen (h : Path R a nodes b) : Relation.ReflTransGen R a b := by
  induction h with
  | refl a => exact .refl
  | head hab _ ih => exact .head hab ih

/-- A path that leads somewhere else comes there by a link. -/
theorem Path.last (h : Path R a nodes b) (hne : a ≠ b) : ∃ x ∈ nodes, R x b := by
  induction h with
  | refl a => exact absurd rfl hne
  | head hab hbc ih =>
      rename_i b c rest
      by_cases hbc' : b = c
      · exact ⟨_, List.mem_cons_self, hbc' ▸ hab⟩
      · obtain ⟨x, hx, hR⟩ := ih hbc'
        exact ⟨x, List.mem_cons_of_mem _ hx, hR⟩

end Stmgc.Lib
