/-
S-expressions: lexemes, the terms that they stand for, and balanced parentheses.

[`Reads`] is the grammar. [`Scanned`] says where somebody ends who reads the
terms of one list from left to right: at the end of the lexemes, at the
parenthesis that closes the list, at the end inside of a list that is not
closed, or at an atom that cannot be read.
-/
import Mathlib.Algebra.Ring.Int.Defs
import Mathlib.Data.Int.Order.Basic
import Mathlib.Algebra.BigOperators.Group.List.Basic

namespace Stmgc.Lib.Sexp

inductive Lexeme (α : Type) where
  | left
  | right
  | newline
  | atom (a : α)

inductive Term (α : Type) where
  | atom (a : α)
  | list (l : List (Term α))

variable {α : Type}

/-- The lexemes are these terms, one after the other. -/
inductive Reads : List (Lexeme α) → List (Term α) → Prop where
  | nil : Reads [] []
  | newline {l : List (Lexeme α)} {ts : List (Term α)} : Reads l ts → Reads (.newline :: l) ts
  | atom {a : α} {l : List (Lexeme α)} {ts : List (Term α)} : Reads l ts →
      Reads (.atom a :: l) (.atom a :: ts)
  | list {l₁ l₂ : List (Lexeme α)} {ts₁ ts₂ : List (Term α)} : Reads l₁ ts₁ → Reads l₂ ts₂ →
      Reads (.left :: (l₁ ++ .right :: l₂)) (.list ts₁ :: ts₂)

/-! ## Balanced parentheses -/

def Lexeme.weight : Lexeme α → ℤ
  | .left => 1
  | .right => -1
  | _ => 0

/-- How many parentheses are open behind the lexemes. -/
def opened (l : List (Lexeme α)) : ℤ := (l.map Lexeme.weight).sum

/-- No parenthesis is closed that is not open, and all are closed in the end. -/
def Balanced (l : List (Lexeme α)) : Prop := (∀ l', l' <+: l → 0 ≤ opened l') ∧ opened l = 0

/-- The lexemes in front of the first parenthesis that closes nothing. -/
def before_excess : ℕ → List (Lexeme α) → List (Lexeme α)
  | _, [] => []
  | d, .left :: l => .left :: before_excess (d + 1) l
  | 0, .right :: _ => []
  | d + 1, .right :: l => .right :: before_excess d l
  | d, .newline :: l => .newline :: before_excess d l
  | d, .atom a :: l => .atom a :: before_excess d l

/-! ## Lines -/

/-- The lexemes in front of the first newline outside of parentheses. -/
def first_line : ℕ → List (Lexeme α) → List (Lexeme α)
  | _, [] => []
  | d, .left :: l => .left :: first_line (d + 1) l
  | d, .right :: l => .right :: first_line (d - 1) l
  | 0, .newline :: _ => []
  | d + 1, .newline :: l => .newline :: first_line (d + 1) l
  | d, .atom a :: l => .atom a :: first_line d l

/-- The lexemes behind the first newline outside of parentheses, if there is one. -/
def other_lines : ℕ → List (Lexeme α) → Option (List (Lexeme α))
  | _, [] => none
  | d, .left :: l => other_lines (d + 1) l
  | d, .right :: l => other_lines (d - 1) l
  | 0, .newline :: l => some l
  | d + 1, .newline :: l => other_lines (d + 1) l
  | d, .atom _ :: l => other_lines d l

section

variable {l l' l₁ l₂ rest : List (Lexeme α)} {ts ts' : List (Term α)} {d : ℕ} {a : α} {good : α → Prop}

@[simp] theorem opened_nil : opened ([] : List (Lexeme α)) = 0 := rfl

@[simp] theorem opened_cons {x : Lexeme α} : opened (x :: l) = x.weight + opened l := by
  unfold opened
  rw [List.map_cons, List.sum_cons]

@[simp] theorem opened_append : opened (l₁ ++ l₂) = opened l₁ + opened l₂ := by
  unfold opened
  rw [List.map_append, List.sum_append]

/-! ## Terms -/

theorem Reads.append (h : Reads l ts) (h' : Reads l' ts') : Reads (l ++ l') (ts ++ ts') := by
  induction h with
  | nil => exact h'
  | newline _ ih => exact .newline ih
  | atom _ ih => exact .atom ih
  | list h₁ _ _ ih =>
      rw [List.cons_append, List.append_assoc, List.cons_append]
      exact .list h₁ ih

/-- Terms leave no parenthesis open. -/
theorem Reads.opened (h : Reads l ts) : opened l = 0 := by
  induction h with
  | nil => rfl
  | newline _ ih => rw [opened_cons, ih]; rfl
  | atom _ ih => rw [opened_cons, ih]; rfl
  | list _ _ ih₁ ih₂ =>
      rw [opened_cons, opened_append, opened_cons, ih₁, ih₂]
      rfl

theorem Reads.balanced (h : Reads l ts) : Balanced l := by
  refine ⟨?_, h.opened⟩
  induction h with
  | nil =>
      intro l' hl'
      rw [List.prefix_nil.mp hl']
      exact le_rfl
  | newline _ ih =>
      intro l' hl'
      rcases List.prefix_cons_iff.mp hl' with rfl | ⟨t, rfl, ht⟩
      · exact le_rfl
      · rw [opened_cons]
        exact Int.add_nonneg le_rfl (ih t ht)
  | atom _ ih =>
      intro l' hl'
      rcases List.prefix_cons_iff.mp hl' with rfl | ⟨t, rfl, ht⟩
      · exact le_rfl
      · rw [opened_cons]
        exact Int.add_nonneg le_rfl (ih t ht)
  | @list l₁ l₂ _ _ h₁ _ ih₁ ih₂ =>
      intro l' hl'
      rcases List.prefix_cons_iff.mp hl' with rfl | ⟨t, rfl, ht⟩
      · exact le_rfl
      · rw [opened_cons]
        rcases List.prefix_or_prefix_of_prefix ht (List.prefix_append l₁ _) with ht₁ | ⟨t, rfl⟩
        · exact Int.add_nonneg Int.one_pos.le (ih₁ _ ht₁)
        · rw [List.prefix_append_right_inj] at ht
          rw [opened_append, h₁.opened]
          rcases List.prefix_cons_iff.mp ht with rfl | ⟨u, rfl, hu⟩
          · exact Int.one_pos.le
          · rw [opened_cons]
            have hpos := ih₂ u hu
            have hleft : (Lexeme.left : Lexeme α).weight = 1 := rfl
            have hright : (Lexeme.right : Lexeme α).weight = -1 := rfl
            omega

theorem Reads.before_excess (h : Reads l ts) (l' : List (Lexeme α)) (d : ℕ) :
    before_excess d (l ++ l') = l ++ before_excess d l' := by
  induction h generalizing d l' with
  | nil => rfl
  | newline _ ih => rw [List.cons_append, Sexp.before_excess, ih]; rfl
  | atom _ ih => rw [List.cons_append, Sexp.before_excess, ih]; rfl
  | list _ _ ih₁ ih₂ =>
      rw [List.cons_append, List.append_assoc, List.cons_append, Sexp.before_excess, ih₁, Sexp.before_excess,
        ih₂, List.cons_append, List.append_assoc, List.cons_append]

theorem Reads.before_excess_self (h : Reads l ts) : Sexp.before_excess d l = l := by
  have heq := h.before_excess [] d
  rw [List.append_nil] at heq
  rw [heq, Sexp.before_excess, List.append_nil]

/-- There is one way only to read lexemes. -/
theorem Reads.unique (h : Reads l ts) (h' : Reads l ts') : ts = ts' := by
  induction h generalizing ts' with
  | nil => cases h'; rfl
  | newline _ ih =>
      cases h' with
      | newline h' => exact ih h'
  | atom _ ih =>
      cases h' with
      | atom h' => rw [ih h']
  | @list l₁ l₂ ts₁ ts₂ h₁ _ ih₁ ih₂ =>
      generalize heq : l₁ ++ Lexeme.right :: l₂ = l at h'
      cases h' with
      | @list l₁' l₂' _ _ h₁' h₂' =>
          -- the list ends at the same parenthesis
          have hsame := congrArg (Sexp.before_excess 0) heq
          rw [h₁.before_excess, h₁'.before_excess, Sexp.before_excess, Sexp.before_excess, List.append_nil,
            List.append_nil] at hsame
          subst hsame
          have hrest := List.append_cancel_left heq
          rw [List.cons.injEq] at hrest
          obtain ⟨-, rfl⟩ := hrest
          rw [ih₁ h₁', ih₂ h₂']

theorem Reads.first_line (h : Reads l ts) (l' : List (Lexeme α)) (d : ℕ) :
    first_line (d + 1) (l ++ l') = l ++ first_line (d + 1) l' := by
  induction h generalizing d l' with
  | nil => rfl
  | newline _ ih => rw [List.cons_append, Sexp.first_line, ih]; rfl
  | atom _ ih => rw [List.cons_append, Sexp.first_line, ih]; rfl
  | list _ _ ih₁ ih₂ =>
      rw [List.cons_append, List.append_assoc, List.cons_append, Sexp.first_line, ih₁, Sexp.first_line,
        Nat.add_sub_cancel, ih₂, List.cons_append, List.append_assoc, List.cons_append]

theorem Reads.other_lines (h : Reads l ts) (l' : List (Lexeme α)) (d : ℕ) :
    other_lines (d + 1) (l ++ l') = other_lines (d + 1) l' := by
  induction h generalizing d l' with
  | nil => rfl
  | newline _ ih => rw [List.cons_append, Sexp.other_lines, ih]
  | atom _ ih => rw [List.cons_append, Sexp.other_lines, ih]
  | list _ _ ih₁ ih₂ =>
      rw [List.cons_append, List.append_assoc, List.cons_append, Sexp.other_lines, ih₁, Sexp.other_lines,
        Nat.add_sub_cancel, ih₂]

theorem first_line_sublist (d : ℕ) (l : List (Lexeme α)) : List.Sublist (Sexp.first_line d l) l := by
  induction l generalizing d with
  | nil =>
      rw [Sexp.first_line]
  | cons x l ih =>
      cases x with
      | left => exact (ih (d + 1)).cons₂ _
      | right => exact (ih (d - 1)).cons₂ _
      | newline =>
          cases d with
          | zero => exact List.nil_sublist _
          | succ d => exact (ih (d + 1)).cons₂ _
      | atom a =>
          rw [Sexp.first_line]
          exact (ih d).cons₂ _

/-! ## Where a reader ends -/

/-- The end of the lexemes, the parenthesis behind the list with the lexemes
behind it, the end inside of another list, or an atom that is not good. -/
inductive End (α : Type) where
  | eof (ts : List (Term α))
  | closed (ts : List (Term α)) (rest : List (Lexeme α))
  | unclosed
  | refused

/-- More terms have been read before. -/
def End.front (ts₀ : List (Term α)) : End α → End α
  | .eof ts => .eof (ts₀ ++ ts)
  | .closed ts rest => .closed (ts₀ ++ ts) rest
  | .unclosed => .unclosed
  | .refused => .refused

def Good (good : α → Prop) (l : List (Lexeme α)) : Prop := ∀ a, .atom a ∈ l → good a

inductive Scanned (good : α → Prop) : List (Lexeme α) → End α → Prop where
  | eof {l : List (Lexeme α)} {ts : List (Term α)} : Reads l ts → Good good l → Scanned good l (.eof ts)
  | closed {l rest : List (Lexeme α)} {ts : List (Term α)} : Reads l ts → Good good l →
      Scanned good (l ++ .right :: rest) (.closed ts rest)
  | unclosed_eof {l l' : List (Lexeme α)} {ts ts' : List (Term α)} : Reads l ts → Good good l →
      Scanned good l' (.eof ts') → Scanned good (l ++ .left :: l') .unclosed
  | unclosed {l l' : List (Lexeme α)} {ts : List (Term α)} : Reads l ts → Good good l →
      Scanned good l' .unclosed → Scanned good (l ++ .left :: l') .unclosed
  | refused_atom {l l' : List (Lexeme α)} {ts : List (Term α)} {a : α} : Reads l ts → Good good l →
      ¬ good a → Scanned good (l ++ .atom a :: l') .refused
  | refused {l l' : List (Lexeme α)} {ts : List (Term α)} : Reads l ts → Good good l →
      Scanned good l' .refused → Scanned good (l ++ .left :: l') .refused

theorem Good.append (h : Good good l) (h' : Good good l') : Good good (l ++ l') := by
  intro a ha
  rcases List.mem_append.mp ha with ha | ha
  · exact h a ha
  · exact h' a ha

theorem good_nil : Good good [] := fun _ ha => absurd ha List.not_mem_nil

theorem Good.cons {x : Lexeme α} (h : Good good l) (hx : ∀ a, x = .atom a → good a) :
    Good good (x :: l) := by
  intro a ha
  rcases List.mem_cons.mp ha with rfl | ha
  · exact hx a rfl
  · exact h a ha

theorem Scanned.front {e : End α} (hr : Reads l ts) (hg : Good good l) (h : Scanned good l' e) :
    Scanned good (l ++ l') (e.front ts) := by
  cases h with
  | eof hr' hg' => exact .eof (hr.append hr') (hg.append hg')
  | closed hr' hg' =>
      rw [← List.append_assoc]
      exact .closed (hr.append hr') (hg.append hg')
  | unclosed_eof hr' hg' h =>
      rw [← List.append_assoc]
      exact .unclosed_eof (hr.append hr') (hg.append hg') h
  | unclosed hr' hg' h =>
      rw [← List.append_assoc]
      exact .unclosed (hr.append hr') (hg.append hg') h
  | refused_atom hr' hg' ha =>
      rw [← List.append_assoc]
      exact .refused_atom (hr.append hr') (hg.append hg') ha
  | refused hr' hg' h =>
      rw [← List.append_assoc]
      exact .refused (hr.append hr') (hg.append hg') h

theorem Scanned.eof_reads (h : Scanned good l (.eof ts)) : Reads l ts ∧ Good good l := by
  cases h with
  | eof hr hg => exact ⟨hr, hg⟩

theorem Scanned.opened_pos {e : End α} (h : Scanned good l e) (he : e = .unclosed) : 0 < opened l := by
  induction h with
  | unclosed_eof hr _ h _ =>
      rw [opened_append, opened_cons, hr.opened, h.eof_reads.1.opened]
      exact Int.one_pos
  | unclosed hr _ _ ih =>
      rw [opened_append, opened_cons, hr.opened, zero_add]
      exact Int.add_pos Int.one_pos (ih rfl)
  | eof => cases he
  | closed => cases he
  | refused_atom => cases he
  | refused => cases he

theorem Scanned.not_balanced_unclosed (h : Scanned good l .unclosed) : ¬ Balanced l :=
  fun hb => (h.opened_pos rfl).ne' hb.2

theorem Scanned.not_balanced_closed (h : Scanned good l (.closed ts rest)) : ¬ Balanced l := by
  intro hb
  cases h with
  | @closed l₁ _ _ hr _ =>
      have hneg := hb.1 (l₁ ++ [.right]) ⟨rest, by rw [List.append_assoc]; rfl⟩
      rw [opened_append, hr.opened, opened_cons, opened_nil] at hneg
      exact absurd hneg (by show ¬ (0 : ℤ) ≤ 0 + (-1 + 0); decide)

/-- Inside of a list that is not closed no parenthesis is one too many. -/
theorem Scanned.before_excess_self {e : End α} (h : Scanned good l e) (he : e = .unclosed) (d : ℕ) :
    before_excess d l = l ∧ Good good l := by
  induction h generalizing d with
  | unclosed_eof hr hg h _ =>
      rw [hr.before_excess, Sexp.before_excess, h.eof_reads.1.before_excess_self]
      exact ⟨rfl, hg.append (h.eof_reads.2.cons nofun)⟩
  | unclosed hr hg _ ih =>
      rw [hr.before_excess, Sexp.before_excess, (ih rfl (d + 1)).1]
      exact ⟨rfl, hg.append ((ih rfl d).2.cons nofun)⟩
  | eof => cases he
  | closed => cases he
  | refused_atom => cases he
  | refused => cases he

theorem Scanned.good_closed (h : Scanned good l (.closed ts rest)) : Good good (before_excess 0 l) := by
  cases h with
  | closed hr hg =>
      rw [hr.before_excess, before_excess, List.append_nil]
      exact hg

theorem Scanned.refused_mem {e : End α} (h : Scanned good l e) (he : e = .refused) (d : ℕ) :
    ¬ Good good (before_excess d l) := by
  induction h generalizing d with
  | @refused_atom l₁ _ _ a hr _ ha =>
      rw [hr.before_excess, before_excess]
      exact fun hg => ha (hg a (List.mem_append_right l₁ List.mem_cons_self))
  | refused hr _ _ ih =>
      rw [hr.before_excess, before_excess]
      exact fun hg => ih rfl (d + 1) fun a ha =>
        hg a (List.mem_append_right _ (List.mem_cons_of_mem _ ha))
  | eof => cases he
  | closed => cases he
  | unclosed_eof => cases he
  | unclosed => cases he

/-- There is no newline outside of parentheses behind one that is not closed. -/
theorem Scanned.first_line_self {e : End α} (h : Scanned good l e) (he : e = .unclosed) (d : ℕ) :
    first_line (d + 1) l = l := by
  induction h generalizing d with
  | unclosed_eof hr _ h _ =>
      have heq := h.eof_reads.1.first_line [] (d + 1)
      rw [List.append_nil, first_line, List.append_nil] at heq
      rw [hr.first_line, first_line, heq]
  | unclosed hr _ _ ih => rw [hr.first_line, first_line, ih rfl]
  | eof => cases he
  | closed => cases he
  | refused_atom => cases he
  | refused => cases he

theorem Scanned.first_line_refused {e : End α} (h : Scanned good l e) (he : e = .refused) (d : ℕ) :
    Scanned good (first_line (d + 1) l) .refused := by
  induction h generalizing d with
  | refused_atom hr hg ha =>
      rw [hr.first_line, first_line]
      exact .refused_atom hr hg ha
  | refused hr hg _ ih =>
      rw [hr.first_line, first_line]
      exact .refused hr hg (ih rfl (d + 1))
  | eof => cases he
  | closed => cases he
  | unclosed_eof => cases he
  | unclosed => cases he

end

end Stmgc.Lib.Sexp
