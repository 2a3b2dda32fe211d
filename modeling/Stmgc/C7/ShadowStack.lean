/-
The shadow stack of a thread, and how `rewind_setjmp.c` saves it.

When a transaction starts, `rewind_jmp_setjmp` copies the part of the shadow
stack that belongs to the innermost frame. The frames around it are copied one
by one, each at the time when the frame inside of it is left and the program
may change it. An abort puts the slices back one after the other. The C stack
itself, which is saved in the same slices, is not modelled.

Entries of the shadow stack are counted from `shadowstack_base`, and frames
from the outermost one, which has number 1.
-/
import Stmgc.Lib.Loop
import Mathlib.Data.List.GetD
import Mathlib.Data.List.Range

namespace Stmgc.C7

open Stmgc.Lib

/-- `stm_thread_local_t` with its `rewind_jmp_thread`. The list `head` has the
`shadowstack_base` of each frame, the innermost first; 0 frames is no frame, so
`moved_off_base` is 0 for `NULL`. -/
structure ThreadLocal where
  entries : ℕ → ℕ
  shadowstack : ℕ
  thread_local_obj : ℕ
  head : List ℕ
  moved_off_base : ℕ
  moved_off_ssbase : ℕ
  moved_off : List (List ℕ)

/-- The entries from `start` on and before `stop`. -/
def slice (entries : ℕ → ℕ) (start stop : ℕ) : List ℕ :=
  (List.range' start (stop - start)).map entries

def copy_stack (t : ThreadLocal) (ssbase : ℕ) : Option ThreadLocal :=
  match t.head with
  | [] => none
  | ssstop :: _ => do
    c_assert (ssstop ≤ ssbase)
    return { t with
      moved_off_base := t.head.length
      moved_off_ssbase := ssstop
      moved_off := slice t.entries ssstop ssbase :: t.moved_off }

/-- `_rewind_jmp_free_stack_slices`. -/
def free_stack_slices (t : ThreadLocal) : ThreadLocal :=
  { t with moved_off := [], moved_off_base := 0, moved_off_ssbase := 0 }

def rewind_jmp_setjmp (t : ThreadLocal) : Option ThreadLocal :=
  copy_stack (if t.moved_off = [] then t else free_stack_slices t) t.shadowstack

def rewind_jmp_enterframe (t : ThreadLocal) : ThreadLocal :=
  { t with head := t.shadowstack :: t.head }

/-- `_rewind_jmp_copy_stack_slice`. -/
def copy_stack_slice (t : ThreadLocal) : Option ThreadLocal :=
  if t.head = [] then some (free_stack_slices t) else copy_stack t t.moved_off_ssbase

def rewind_jmp_leaveframe (t : ThreadLocal) : Option ThreadLocal :=
  match t.head with
  | [] => none
  | shadowstack_base :: prev => do
    c_assert (shadowstack_base = t.shadowstack)
    if t.head.length = t.moved_off_base then
      c_assert (t.moved_off_ssbase = t.shadowstack)
      copy_stack_slice { t with head := prev }
    else return { t with head := prev }

def rewind_jmp_forget (t : ThreadLocal) : ThreadLocal := free_stack_slices t

/-- `rewind_jmp_enum_shadowstack` with `memcpy`. -/
def restore_slices (entries : ℕ → ℕ) (sstarget : ℕ) : List (List ℕ) → (ℕ → ℕ) × ℕ
  | [] => (entries, sstarget)
  | ss_slice :: p =>
    restore_slices (fun k => if sstarget ≤ k ∧ k < sstarget + ss_slice.length
      then ss_slice.getD (k - sstarget) 0 else entries k) (sstarget + ss_slice.length) p

/-- `stm_rewind_jmp_restore_shadowstack`. -/
def restore_shadowstack (t : ThreadLocal) : Option ThreadLocal := do
  c_assert (t.moved_off_base ≠ 0)
  let (entries, shadowstack) := restore_slices t.entries t.moved_off_ssbase t.moved_off
  return { t with entries := entries, shadowstack := shadowstack }

/-! ## The program -/

/-- What the program does with its shadow stack. -/
inductive StackAct where
  | push (x : ℕ)
  | pop
  | set (k x : ℕ)
  | set_thread_local_obj (x : ℕ)
  | enterframe
  | leaveframe
  deriving DecidableEq

/-- The entries of the innermost frame are the only ones that the program may
change. -/
def in_frame (t : ThreadLocal) (k : ℕ) : Prop := k < t.shadowstack ∧ ∀ b ∈ t.head.head?, b ≤ k

instance (t : ThreadLocal) (k : ℕ) : Decidable (in_frame t k) := by
  unfold in_frame
  infer_instance

/-- One step of the program, if it is allowed. -/
def stack_step (t : ThreadLocal) : StackAct → Option ThreadLocal
  | .push x => some { t with
      entries := Function.update t.entries t.shadowstack x
      shadowstack := t.shadowstack + 1 }
  | .pop => if in_frame t (t.shadowstack - 1) then
      some { t with shadowstack := t.shadowstack - 1 } else none
  | .set k x => if in_frame t k then
      some { t with entries := Function.update t.entries k x } else none
  | .set_thread_local_obj x => some { t with thread_local_obj := x }
  | .enterframe => some (rewind_jmp_enterframe t)
  | .leaveframe => rewind_jmp_leaveframe t

/-- The frames lie above one another, and below the top of the shadow stack. -/
def frames_ordered (t : ThreadLocal) : Prop := (t.shadowstack :: t.head).Pairwise (fun a b => b ≤ a)

instance (t : ThreadLocal) : Decidable (frames_ordered t) := by
  unfold frames_ordered
  infer_instance

/-! ## Slices -/

section

variable {e : ℕ → ℕ} {a b c k : ℕ}

theorem length_slice : (slice e a b).length = b - a := by
  simp [slice]

theorem slice_append (hab : a ≤ b) (hbc : b ≤ c) : slice e a b ++ slice e b c = slice e a c := by
  unfold slice
  rw [← List.map_append]
  have hb : b = a + (b - a) := by omega
  have hc : c - a = (b - a) + (c - b) := by omega
  rw [hc, List.range'_append_1.symm, ← hb]

theorem getD_slice (ha : a ≤ k) (hb : k < b) : (slice e a b).getD (k - a) 0 = e k := by
  unfold slice
  have hlt : k - a < ((List.range' a (b - a)).map e).length := by
    rw [List.length_map, List.length_range']
    omega
  rw [List.getD_eq_getElem _ _ hlt, List.getElem_map, List.getElem_range'_1]
  congr 1
  omega

/-- The slices are put back one behind the other. -/
theorem restore_slices_eq (entries : ℕ → ℕ) (slices : List (List ℕ)) (base : ℕ) :
    (restore_slices entries base slices).2 = base + slices.flatten.length
      ∧ ∀ k, (restore_slices entries base slices).1 k =
        if base ≤ k ∧ k < base + slices.flatten.length then slices.flatten.getD (k - base) 0
        else entries k := by
  induction slices generalizing entries base with
  | nil =>
      refine ⟨rfl, fun k => ?_⟩
      rw [if_neg (by simp)]
      rfl
  | cons x p ih =>
      rw [restore_slices, List.flatten_cons, List.length_append]
      obtain ⟨htop, hentries⟩ := ih (fun k => if base ≤ k ∧ k < base + x.length
        then x.getD (k - base) 0 else entries k) (base + x.length)
      refine ⟨by rw [htop, Nat.add_assoc], fun k => ?_⟩
      rw [hentries]
      by_cases hx : k < base + x.length
      · -- in this slice, which the later ones do not touch
        rw [if_neg (by omega)]
        by_cases hb : base ≤ k
        · rw [if_pos ⟨hb, hx⟩, if_pos ⟨hb, by omega⟩, List.getD_append _ _ _ _ (by omega)]
        · rw [if_neg (by omega), if_neg (by omega)]
      · by_cases hp : k < base + x.length + p.flatten.length
        · rw [if_pos ⟨by omega, hp⟩, if_pos ⟨by omega, by omega⟩,
            List.getD_append_right _ _ _ _ (by omega)]
          congr 1
          omega
        · rw [if_neg (by omega), if_neg (by omega), if_neg (by omega)]

end

/-! ## What the slices are worth -/

/-- The slices and the entries below them are the shadow stack as it was. -/
structure Restorable (t : ThreadLocal) (entries : ℕ → ℕ) (shadowstack : ℕ) : Prop where
  armed : t.moved_off_base ≠ 0
  below : t.moved_off_ssbase ≤ shadowstack
  slices : t.moved_off.flatten = slice entries t.moved_off_ssbase shadowstack
  same : ∀ k < t.moved_off_ssbase, t.entries k = entries k

/-- And what is below belongs to a frame that has not been left. -/
structure Saved (t : ThreadLocal) (entries : ℕ → ℕ) (shadowstack : ℕ) : Prop extends
    Restorable t entries shadowstack where
  frame : t.head.reverse[t.moved_off_base - 1]? = some t.moved_off_ssbase
  ordered : frames_ordered t

section Saved

variable {t t' : ThreadLocal} {entries : ℕ → ℕ} {shadowstack : ℕ}

theorem copy_stack_eq_some {ssbase : ℕ} (h : copy_stack t ssbase = some t') :
    ∃ b prev, t.head = b :: prev ∧ b ≤ ssbase ∧ t' = { t with
      moved_off_base := t.head.length
      moved_off_ssbase := b
      moved_off := slice t.entries b ssbase :: t.moved_off } := by
  unfold copy_stack at h
  cases hhead : t.head with
  | nil =>
      rw [hhead] at h
      cases h
  | cons b prev =>
      rw [hhead] at h
      obtain ⟨hb, h⟩ := c_assert_eq_some.mp h
      rw [Option.pure_def, Option.some.injEq] at h
      exact ⟨b, prev, rfl, hb, h.symm⟩

/-- At the start of a transaction. -/
theorem saved_of_setjmp (hord : frames_ordered t) (h : rewind_jmp_setjmp t = some t') :
    Saved t' t.entries t.shadowstack ∧ t'.entries = t.entries ∧ t'.shadowstack = t.shadowstack
      ∧ t'.thread_local_obj = t.thread_local_obj := by
  -- the old slices are gone in any case
  obtain ⟨u, hu, hhead, hmoved, hentries, htop, hlocal⟩ : ∃ u, copy_stack u t.shadowstack = some t'
      ∧ u.head = t.head ∧ u.moved_off = [] ∧ u.entries = t.entries
      ∧ u.shadowstack = t.shadowstack ∧ u.thread_local_obj = t.thread_local_obj := by
    unfold rewind_jmp_setjmp at h
    by_cases hmoved : t.moved_off = []
    · rw [if_pos hmoved] at h
      exact ⟨t, h, rfl, hmoved, rfl, rfl, rfl⟩
    · rw [if_neg hmoved] at h
      exact ⟨free_stack_slices t, h, rfl, rfl, rfl, rfl, rfl⟩
  obtain ⟨b, prev, hcons, hb, rfl⟩ := copy_stack_eq_some hu
  refine ⟨⟨⟨?_, hb, ?_, ?_⟩, ?_, ?_⟩, hentries, htop, hlocal⟩
  · rw [hcons]
    simp
  · rw [hmoved, List.flatten_cons, List.flatten_nil, List.append_nil, hentries]
  · exact fun k _ => congrFun hentries k
  · rw [hcons]
    simp
  · unfold frames_ordered
    dsimp only
    rw [hhead, htop]
    exact hord

/-- The innermost frame does not reach below the slices. -/
theorem Saved.base_le (h : Saved t entries shadowstack) :
    ∃ b prev, t.head = b :: prev ∧ t.moved_off_ssbase ≤ b ∧ b ≤ t.shadowstack := by
  have hmem := List.mem_reverse.mp (List.mem_of_getElem? h.frame)
  have hord := h.ordered
  unfold frames_ordered at hord
  cases hhead : t.head with
  | nil =>
      rw [hhead] at hmem
      cases hmem
  | cons b prev =>
      rw [hhead, List.pairwise_cons, List.pairwise_cons] at hord
      refine ⟨b, prev, rfl, ?_, hord.1 b (by simp)⟩
      rw [hhead, List.mem_cons] at hmem
      rcases hmem with hb | hprev
      · exact hb.le
      · exact hord.2.1 _ hprev

/-- The top of the shadow stack moves inside the innermost frame, and entries
that have been saved may change. -/
theorem Saved.write (h : Saved t entries shadowstack) {e : ℕ → ℕ} {top : ℕ}
    (he : ∀ k < t.moved_off_ssbase, e k = t.entries k) (htop : ∀ b ∈ t.head.head?, b ≤ top)
    (x : ℕ) : Saved { t with entries := e, shadowstack := top, thread_local_obj := x }
      entries shadowstack where
  armed := h.armed
  frame := h.frame
  ordered := by
    have hord := h.ordered
    obtain ⟨b, prev, hhead, -, -⟩ := h.base_le
    unfold frames_ordered at hord ⊢
    dsimp only
    have hb : b ≤ top := htop b (by rw [hhead]; rfl)
    rw [hhead, List.pairwise_cons] at hord ⊢
    refine ⟨fun c hc => ?_, hord.2⟩
    rw [List.mem_cons] at hc
    rcases hc with rfl | hc
    · exact hb
    · exact ((List.pairwise_cons.mp hord.2).1 c hc).trans hb
  below := h.below
  slices := h.slices
  same k hk := (he k hk).trans (h.same k hk)

theorem Saved.enterframe (h : Saved t entries shadowstack) :
    Saved (rewind_jmp_enterframe t) entries shadowstack where
  armed := h.armed
  frame := by
    show (t.shadowstack :: t.head).reverse[t.moved_off_base - 1]? = _
    rw [List.reverse_cons, List.getElem?_append_left]
    · exact h.frame
    · exact (List.getElem?_eq_some_iff.mp h.frame).1
  ordered := by
    have hord := h.ordered
    unfold frames_ordered at hord ⊢
    unfold rewind_jmp_enterframe
    rw [List.pairwise_cons]
    refine ⟨fun b hb => ?_, hord⟩
    rw [List.mem_cons] at hb
    rcases hb with rfl | hb
    · exact le_refl _
    · exact (List.pairwise_cons.mp hord).1 b hb
  below := h.below
  slices := h.slices
  same := h.same

/-- Leaving the frame from which the slices were taken saves the next one. -/
theorem Saved.leaveframe (h : Saved t entries shadowstack) (hout : t.head.length ≠ 1)
    (hs : rewind_jmp_leaveframe t = some t') : Saved t' entries shadowstack := by
  obtain ⟨b, prev, hhead, -, -⟩ := h.base_le
  have hord := h.ordered
  unfold frames_ordered at hord
  rw [hhead, List.pairwise_cons] at hord
  have hord' : (t.shadowstack :: prev).Pairwise (fun a b => b ≤ a) := by
    rw [List.pairwise_cons]
    exact ⟨fun c hc => hord.1 c (List.mem_cons_of_mem _ hc), (List.pairwise_cons.mp hord.2).2⟩
  unfold rewind_jmp_leaveframe at hs
  rw [hhead] at hs
  obtain ⟨hbase, hs⟩ := c_assert_eq_some.mp hs
  by_cases hmoved : (b :: prev).length = t.moved_off_base
  · rw [if_pos hmoved] at hs
    obtain ⟨hss, hs⟩ := c_assert_eq_some.mp hs
    have hprev : prev ≠ [] := by
      rintro rfl
      exact hout (by rw [hhead]; rfl)
    rw [copy_stack_slice, if_neg hprev] at hs
    obtain ⟨c, rest, hcons, hc, rfl⟩ := copy_stack_eq_some hs
    -- the new slice goes below the others
    dsimp only at hcons hc
    rw [hcons] at hord' ⊢
    refine ⟨⟨by simp, hc.trans h.below, ?_, fun k hk => h.same k (hk.trans_le hc)⟩, by simp,
      hord'⟩
    show slice t.entries c t.moved_off_ssbase ++ t.moved_off.flatten = _
    have hcong : slice t.entries c t.moved_off_ssbase = slice entries c t.moved_off_ssbase :=
      List.map_congr_left (fun k hk => h.same k (by rw [List.mem_range'_1] at hk; omega))
    rw [hcong, h.slices]
    exact slice_append hc h.below
  · rw [if_neg hmoved, Option.pure_def, Option.some.injEq] at hs
    rw [← hs]
    have hframe := h.frame
    rw [hhead, List.reverse_cons] at hframe
    have hlt := (List.getElem?_eq_some_iff.mp hframe).1
    rw [List.length_append, List.length_reverse, List.length_singleton] at hlt
    have harmed := h.armed
    rw [List.length_cons] at hmoved
    rw [List.getElem?_append_left (by rw [List.length_reverse]; omega)] at hframe
    exact ⟨⟨harmed, h.below, h.slices, h.same⟩, hframe, hord'⟩

/-- The program never makes the slices worthless, as long as it does not leave
the outermost frame. -/
theorem Saved.stack_step {a : StackAct} (h : Saved t entries shadowstack)
    (hout : a = .leaveframe → t.head.length ≠ 1) (hs : C7.stack_step t a = some t') :
    Saved t' entries shadowstack := by
  obtain ⟨b, prev, hhead, hb, htop⟩ := h.base_le
  have hhead' : ∀ c ∈ t.head.head?, c = b := by
    intro c hc
    rw [hhead] at hc
    exact (Option.some.inj hc).symm
  have hframe : ∀ k, in_frame t k → b ≤ k := fun k hk => hk.2 b (by rw [hhead]; rfl)
  cases a with
  | push x =>
      rw [C7.stack_step, Option.some.injEq] at hs
      rw [← hs]
      refine h.write (fun k hk => Function.update_of_ne (by omega) _ _) (fun c hc => ?_) _
      rw [hhead' c hc]
      omega
  | pop =>
      rw [C7.stack_step] at hs
      by_cases hk : in_frame t (t.shadowstack - 1)
      · rw [if_pos hk, Option.some.injEq] at hs
        rw [← hs]
        refine h.write (fun _ _ => rfl) (fun c hc => ?_) _
        rw [hhead' c hc]
        exact hframe _ hk
      · rw [if_neg hk] at hs
        cases hs
  | set k x =>
      rw [C7.stack_step] at hs
      by_cases hk : in_frame t k
      · rw [if_pos hk, Option.some.injEq] at hs
        rw [← hs]
        have hbk := hframe k hk
        refine h.write (fun j hj => Function.update_of_ne (by omega) _ _) (fun c hc => ?_) _
        rw [hhead' c hc]
        exact htop
      · rw [if_neg hk] at hs
        cases hs
  | set_thread_local_obj x =>
      rw [C7.stack_step, Option.some.injEq] at hs
      rw [← hs]
      refine h.write (fun _ _ => rfl) (fun c hc => ?_) _
      rw [hhead' c hc]
      exact htop
  | enterframe =>
      rw [C7.stack_step, Option.some.injEq] at hs
      rw [← hs]
      exact h.enterframe
  | leaveframe => exact h.leaveframe (hout rfl) hs

/-- A minor collection changes entries that have been saved. -/
theorem Saved.trace_root (h : Saved t entries shadowstack) {k : ℕ} (hk : t.moved_off_ssbase ≤ k)
    (x y : ℕ) : Saved { t with entries := Function.update t.entries k x, thread_local_obj := y }
      entries shadowstack := by
  obtain ⟨b, prev, hhead, -, htop⟩ := h.base_le
  refine h.write (fun j hj => Function.update_of_ne (by omega) _ _) (fun c hc => ?_) y
  rw [hhead] at hc
  exact (Option.some.inj hc) ▸ htop

/-- The abort gets the shadow stack of the start of the transaction back, and
could do so once more. -/
theorem Restorable.restore (h : Restorable t entries shadowstack) :
    ∃ t', restore_shadowstack t = some t' ∧ t'.shadowstack = shadowstack
      ∧ (∀ k < shadowstack, t'.entries k = entries k)
      ∧ ∀ x, Restorable { t' with thread_local_obj := x } entries shadowstack := by
  obtain ⟨htop, hentries⟩ := restore_slices_eq t.entries t.moved_off t.moved_off_ssbase
  have hbelow := h.below
  rw [h.slices, length_slice] at htop hentries
  have hrestored : ∀ k < shadowstack,
      (restore_slices t.entries t.moved_off_ssbase t.moved_off).1 k = entries k := by
    intro k hk
    rw [hentries]
    by_cases hb : t.moved_off_ssbase ≤ k
    · rw [if_pos ⟨hb, by omega⟩]
      exact getD_slice hb hk
    · rw [if_neg (by omega)]
      exact h.same k (by omega)
  refine ⟨_, c_assert_eq_some.mpr ⟨h.armed, rfl⟩, ?_, hrestored, fun x => ?_⟩
  · show (restore_slices t.entries t.moved_off_ssbase t.moved_off).2 = shadowstack
    omega
  · exact ⟨h.armed, h.below, h.slices, fun k hk => hrestored k (by dsimp only at hk; omega)⟩

end Saved

end Stmgc.C7
