/-
What the saved slices of `rewind_setjmp.c` are worth.

[`Tracked`] remembers both stacks as they were at the last call of
`rewind_jmp_setjmp`, and which addresses have been written while they were in
frames that had not been the current one since. Everywhere else the slices and
the rest of the stack are, together, still what they were ([`Saved`]).
-/
import Stmgc.C7.RewindJmp

namespace Stmgc.C7.RewindJmp

open Stmgc.Lib Stmgc.Lib.Memory

/-! ## Runs -/

/-- The two stacks at a call of `rewind_jmp_setjmp`. -/
structure Snapshot (Byte Entry : Type) where
  stack : ℕ → Byte
  saved : ℕ
  sp : ℕ
  entries : ℕ → Entry
  shadowstack : ℕ
  head : List rewind_jmp_buf

/-- A state with what is known about it. -/
structure Tracked (Byte Entry : Type) where
  st : St Byte Entry
  /-- the last call of `rewind_jmp_setjmp`, unless it has been forgotten or its
  outermost frame has been left -/
  snapshot : Option (Snapshot Byte Entry)
  /-- since `rewind_jmp_setjmp` has returned last, the current frame has reached
  up to here, and down to here on the shadow stack -/
  reached : ℕ
  ss_reached : ℕ
  /-- the addresses written beyond that -/
  outside : List ℕ
  ss_outside : List ℕ
  /-- the shadow stack is back, and `rewind_jmp_longjmp` has to follow -/
  restored : Bool

section Functions

variable {Byte Entry : Type}

/-- The shadow stack is restored before `rewind_jmp_longjmp` is called, if any
of it has been saved; in between, only the C stack is used. -/
def allowed (t : Tracked Byte Entry) : Act Byte Entry → Bool
  | .call _ | .ret _ | .write .. | .restore_shadowstack => true
  | .longjmp => t.restored || t.st.moved_off.all (fun p => p.shadowstack.isEmpty)
  | _ => !t.restored

def Tracked.record (t : Tracked Byte Entry) (a : Act Byte Entry) (st : St Byte Entry) :
    Tracked Byte Entry :=
  let t' := { t with st := st }
  match a with
  | .write a _ => if t.reached ≤ a then { t' with outside := a :: t.outside } else t'
  | .set_entry k _ =>
    if k < t.ss_reached then { t' with ss_outside := k :: t.ss_outside } else t'
  | .leaveframe =>
    match st.head with
    | [] => { t' with snapshot := none }
    | buf :: _ =>
      { t' with
        reached := max t.reached buf.frame_base
        ss_reached := min t.ss_reached buf.shadowstack_base }
  | .setjmp saved =>
    { t' with
      snapshot := some
        { stack := t.st.stack
          saved := saved
          sp := t.st.sp
          entries := t.st.entries
          shadowstack := t.st.shadowstack
          head := t.st.head }
      reached := st.moved_off_base
      ss_reached := st.moved_off_ssbase
      outside := []
      ss_outside := [] }
  | .restore_shadowstack => { t' with restored := true }
  | .longjmp =>
    { t' with
      reached := st.moved_off_base
      ss_reached := st.moved_off_ssbase
      restored := false }
  | .forget => { t' with snapshot := none }
  | _ => t'

def Tracked.step (t : Tracked Byte Entry) (a : Act Byte Entry) : Outcome (Tracked Byte Entry) :=
  guarded (allowed t a = true) ((RewindJmp.step t.st a).bind fun st => .next (t.record a st))

/-- A thread that has not entered any frame yet. -/
def Tracked.Initial (t : Tracked Byte Entry) : Prop :=
  t.st.head = [] ∧ t.st.moved_off_base = 0 ∧ t.st.moved_off = [] ∧ t.st.mallocs = 0
    ∧ t.st.freed = [] ∧ t.snapshot = none ∧ t.restored = false

end Functions

/-! ## Slices -/

section Slices

variable {Byte Entry : Type}

/-- All that has been copied from the C stack; the last slice has the highest
addresses. -/
def saved_stack (slices : List (rewind_jmp_moved_s Byte Entry)) : List Byte :=
  (slices.reverse.map (fun p => p.stack)).flatten

/-- All that has been copied from the shadow stack. -/
def saved_entries (slices : List (rewind_jmp_moved_s Byte Entry)) : List Entry :=
  (slices.map (fun p => p.shadowstack)).flatten

variable {slices : List (rewind_jmp_moved_s Byte Entry)} {p : rewind_jmp_moved_s Byte Entry}

theorem saved_stack_cons : saved_stack (p :: slices) = saved_stack slices ++ p.stack := by
  unfold saved_stack
  rw [List.reverse_cons, List.map_append, List.flatten_append, List.map_singleton,
    List.flatten_singleton]

theorem saved_entries_cons : saved_entries (p :: slices) = p.shadowstack ++ saved_entries slices :=
  rfl

/-- The loop of `do_longjmp` copies the slices back in one piece. -/
theorem restore_stack_eq (slices : List (rewind_jmp_moved_s Byte Entry)) (stack : ℕ → Byte)
    (base : ℕ) :
    restore_stack stack (base + (saved_stack slices).length) slices
      = (Memory.memcpy stack base (saved_stack slices), base) := by
  induction slices generalizing stack with
  | nil =>
      change (stack, base) = (Memory.memcpy stack base [], base)
      rw [memcpy_nil]
  | cons p next ih =>
      rw [restore_stack, saved_stack_cons, List.length_append, ← Nat.add_assoc,
        Nat.add_sub_cancel, ih, memcpy_append, memcpy_comm rfl]

theorem enum_shadowstack_eq (slices : List (rewind_jmp_moved_s Byte Entry))
    (entries : ℕ → Entry) (sstarget : ℕ) :
    enum_shadowstack entries sstarget slices
      = (Memory.memcpy entries sstarget (saved_entries slices),
        sstarget + (saved_entries slices).length) := by
  induction slices generalizing entries sstarget with
  | nil =>
      change (entries, sstarget) = (Memory.memcpy entries sstarget [], sstarget)
      rw [memcpy_nil]
  | cons p next ih =>
      rw [enum_shadowstack, ih, saved_entries_cons, List.length_append, memcpy_append,
        Nat.add_assoc]

end Slices

/-! ## The invariant -/

section Invariant

variable {Byte Entry : Type}

/-- The frames lie above one another, and above the top of the C stack. -/
structure Ordered (sp : ℕ) (head : List rewind_jmp_buf) : Prop where
  above : ∀ buf ∈ head, sp ≤ buf.addr ∧ buf.addr < buf.frame_base
  nested : head.Pairwise fun inner outer =>
    inner.frame_base < outer.addr ∧ outer.shadowstack_base ≤ inner.shadowstack_base

/-- What the slices and the stacks are worth for a `longjmp` to `s`. -/
structure Saved (t : Tracked Byte Entry) (s : Snapshot Byte Entry) : Prop where
  jmpbuf : t.st.jmpbuf = { saved := s.saved, ss1 := s.shadowstack, sp := s.sp }
  initial_head : t.st.initial_head = s.head
  nonempty : s.head ≠ []
  ordered : Ordered s.sp s.head
  ss_ordered : ∀ buf ∈ s.head, buf.shadowstack_base ≤ s.shadowstack
  saved_le : s.saved ≤ s.sp
  frame : ∃ buf ∈ t.st.head, buf.frame_base = t.st.moved_off_base
    ∧ buf.shadowstack_base = t.st.moved_off_ssbase
  reached : t.reached = t.st.moved_off_base
  ss_reached : t.ss_reached = t.st.moved_off_ssbase
  length : s.saved + (saved_stack t.st.moved_off).length = t.st.moved_off_base
  stack : ∀ a, s.saved ≤ a → a ∉ t.outside →
    Memory.memcpy t.st.stack s.saved (saved_stack t.st.moved_off) a = s.stack a
  ss_length : t.st.moved_off_ssbase + (saved_entries t.st.moved_off).length = s.shadowstack
  entries : ∀ k < s.shadowstack, k ∉ t.ss_outside →
    Memory.memcpy t.st.entries t.st.moved_off_ssbase (saved_entries t.st.moved_off) k = s.entries k
  restored : t.restored = true → t.st.shadowstack = s.shadowstack
    ∧ ∀ k < s.shadowstack, k ∉ t.ss_outside → t.st.entries k = s.entries k

structure Inv (t : Tracked Byte Entry) : Prop where
  ordered : Ordered t.st.sp t.st.head
  ss_ordered : t.restored = false → ∀ buf ∈ t.st.head, buf.shadowstack_base ≤ t.st.shadowstack
  heap : (t.st.freed ++ t.st.moved_off.map (fun p => p.addr)).Perm (List.range t.st.mallocs)
  unarmed : t.snapshot = none →
    t.st.moved_off_base = 0 ∧ t.st.moved_off = [] ∧ t.restored = false
  saved : ∀ s, t.snapshot = some s → Saved t s

variable {t t' : Tracked Byte Entry} {s : Snapshot Byte Entry}

theorem Inv.init (h : t.Initial) : Inv t := by
  obtain ⟨hhead, hbase, hmoved, hmallocs, hfreed, hsnapshot, hrestored⟩ := h
  refine ⟨⟨?_, ?_⟩, fun _ => ?_, ?_, fun _ => ⟨hbase, hmoved, hrestored⟩, ?_⟩
  · rw [hhead]
    nofun
  · rw [hhead]
    exact List.Pairwise.nil
  · rw [hhead]
    nofun
  · rw [hfreed, hmoved, hmallocs]
    exact List.Perm.refl []
  · rw [hsnapshot]
    nofun

/-- The slices are armed. -/
theorem Saved.base_ne (h : Saved t s) (hord : Ordered t.st.sp t.st.head) :
    t.st.moved_off_base ≠ 0 := by
  obtain ⟨buf, hbuf, hframe, -⟩ := h.frame
  have habove := (hord.above buf hbuf).2
  omega

/-- The saved part of the shadow stack begins below the innermost frame. -/
theorem Saved.head_base (h : Saved t s) (hord : Ordered t.st.sp t.st.head) :
    ∃ buf prev, t.st.head = buf :: prev ∧ t.st.moved_off_ssbase ≤ buf.shadowstack_base
      ∧ buf.frame_base ≤ t.st.moved_off_base := by
  obtain ⟨buf, hbuf, hframe, hss⟩ := h.frame
  cases hhead : t.st.head with
  | nil =>
      rw [hhead] at hbuf
      cases hbuf
  | cons inner prev =>
      refine ⟨inner, prev, rfl, ?_⟩
      have hnested := hord.nested
      rw [hhead] at hbuf hnested
      rcases List.mem_cons.mp hbuf with rfl | hprev
      · omega
      · have hpair := (List.pairwise_cons.mp hnested).1 buf hprev
        have habove := hord.above buf (by rw [hhead]; exact List.mem_cons_of_mem _ hprev)
        omega

theorem copy_stack_eq_some {st st' : St Byte Entry} {base ssbase : ℕ} :
    copy_stack st base ssbase = some st' ↔ ∃ buf prev, st.head = buf :: prev
      ∧ base ≤ buf.frame_base ∧ buf.shadowstack_base ≤ ssbase ∧ st' = { st with
        mallocs := st.mallocs + 1
        moved_off_base := buf.frame_base
        moved_off_ssbase := buf.shadowstack_base
        moved_off :=
          { addr := st.mallocs
            stack := range st.stack base buf.frame_base
            shadowstack := range st.entries buf.shadowstack_base ssbase } :: st.moved_off } := by
  unfold copy_stack
  cases hhead : st.head with
  | nil => exact ⟨nofun, nofun⟩
  | cons buf prev =>
      dsimp only
      rw [c_assert_eq_some, c_assert_eq_some, Option.pure_def, Option.some.injEq]
      constructor
      · rintro ⟨hbase, hss, h⟩
        exact ⟨buf, prev, rfl, hbase, hss, h.symm⟩
      · rintro ⟨buf', prev', hcons, hbase, hss, h⟩
        rw [List.cons.injEq] at hcons
        rw [← hcons.1] at hbase hss h
        exact ⟨hbase, hss, h.symm⟩

/-- One more slice is obtained from `rj_malloc`. -/
theorem heap_malloc {freed addrs : List ℕ} {n : ℕ} (h : (freed ++ addrs).Perm (List.range n)) :
    (freed ++ n :: addrs).Perm (List.range (n + 1)) := by
  rw [List.range_succ]
  have hmiddle : (freed ++ n :: addrs).Perm (n :: (freed ++ addrs)) := List.perm_middle
  have happend : (List.range n ++ [n]).Perm (n :: List.range n) := List.perm_append_singleton _ _
  exact hmiddle.trans ((h.cons n).trans happend.symm)

end Invariant

end Stmgc.C7.RewindJmp
