/-
`rewind_setjmp.c`: going back to a `setjmp` whose function may have returned.

`rewind_jmp_setjmp` copies away the part of the C stack, and of the shadow
stack, that belongs to the innermost frame. The frames around it are copied one
by one, each when the frame inside of it is left. The C stack grows downwards,
the shadow stack upwards; both are memories here, and a frame is known by its
`rewind_jmp_buf`. Frames of the JIT, which lack `frame_base`, are left out.

The rest of the program may call, return, push, pop and write anywhere in the
live part of the two stacks.
-/
import Stmgc.Lib.Loop
import Stmgc.Lib.Machine
import Stmgc.Lib.Memory
import Mathlib.Data.List.Perm.Basic

namespace Stmgc.C7.RewindJmp

open Stmgc.Lib Stmgc.Lib.Memory

/-! ## Data -/

/-- `rewind_jmp_buf`, with its own address. The field `prev` is the order of
the list [`St.head`]. -/
structure rewind_jmp_buf where
  addr : ℕ
  shadowstack_base : ℕ
  frame_base : ℕ
  deriving DecidableEq

/-- `struct _rewind_jmp_moved_s` with the two copies behind it, and what
`rj_malloc` has returned for it. -/
structure rewind_jmp_moved_s (Byte Entry : Type) where
  addr : ℕ
  stack : List Byte
  shadowstack : List Entry

/-- What `__builtin_setjmp` and the local variable `saved` keep: the address of
`saved`, its `ss1`, and the stack pointer of the caller. -/
structure Jmpbuf where
  saved : ℕ
  ss1 : ℕ
  sp : ℕ
  deriving DecidableEq

/-- `rewind_jmp_thread`, the two stacks with their tops, and what has been
obtained from `rj_malloc` and given to `rj_free`. `NULL` is 0. -/
structure St (Byte Entry : Type) where
  head : List rewind_jmp_buf
  initial_head : List rewind_jmp_buf
  moved_off_base : ℕ
  moved_off_ssbase : ℕ
  moved_off : List (rewind_jmp_moved_s Byte Entry)
  jmpbuf : Jmpbuf
  repeat_count : ℕ
  stack : ℕ → Byte
  sp : ℕ
  entries : ℕ → Entry
  shadowstack : ℕ
  mallocs : ℕ
  freed : List ℕ

section Functions

variable {Byte Entry : Type}

/-! ## `rewind_setjmp.c` -/

def copy_stack (t : St Byte Entry) (base ssbase : ℕ) : Option (St Byte Entry) :=
  match t.head with
  | [] => none
  | buf :: _ => do
    let ssstop := buf.shadowstack_base
    let stop := buf.frame_base
    c_assert (base ≤ stop)
    c_assert (ssstop ≤ ssbase)
    return { t with
      mallocs := t.mallocs + 1
      moved_off_base := stop
      moved_off_ssbase := ssstop
      moved_off :=
        { addr := t.mallocs
          stack := range t.stack base stop
          shadowstack := range t.entries ssstop ssbase } :: t.moved_off }

/-- `_rewind_jmp_free_stack_slices`. -/
def free_stack_slices (t : St Byte Entry) : St Byte Entry :=
  { t with
    freed := t.freed ++ t.moved_off.map (fun p => p.addr)
    moved_off := []
    moved_off_base := 0
    moved_off_ssbase := 0 }

/-- `rewind_jmp_setjmp`, when it is called. The argument `saved` is the address
of its local variable. -/
def rewind_jmp_setjmp (t : St Byte Entry) (saved : ℕ) : Option (St Byte Entry) :=
  let t := if t.moved_off = [] then t else free_stack_slices t
  copy_stack { t with
    jmpbuf := { saved := saved, ss1 := t.shadowstack, sp := t.sp }
    initial_head := t.head
    repeat_count := 0 } saved t.shadowstack

/-- The loop of `do_longjmp`. The recursive calls only make room on the stack,
below everything that is copied back. -/
def restore_stack (stack : ℕ → Byte) (moved_off_base : ℕ) :
    List (rewind_jmp_moved_s Byte Entry) → (ℕ → Byte) × ℕ
  | [] => (stack, moved_off_base)
  | p :: next =>
    let target := moved_off_base - p.stack.length
    restore_stack (Memory.memcpy stack target p.stack) target next

/-- `rewind_jmp_longjmp`, and then the second return of `rewind_jmp_setjmp`. -/
def rewind_jmp_longjmp (t : St Byte Entry) : Option (St Byte Entry) := do
  c_assert (t.moved_off_base ≠ 0)
  let (stack, moved_off_base) := restore_stack t.stack t.moved_off_base t.moved_off
  copy_stack { t with
    stack := stack
    moved_off_base := moved_off_base
    moved_off := []
    freed := t.freed ++ t.moved_off.map (fun p => p.addr)
    sp := t.jmpbuf.sp
    head := t.initial_head
    repeat_count := t.repeat_count + 1 } t.jmpbuf.saved t.jmpbuf.ss1

/-- `rewind_jmp_enum_shadowstack` with `memcpy` as its callback. -/
def enum_shadowstack (entries : ℕ → Entry) (sstarget : ℕ) :
    List (rewind_jmp_moved_s Byte Entry) → (ℕ → Entry) × ℕ
  | [] => (entries, sstarget)
  | p :: next =>
    enum_shadowstack (Memory.memcpy entries sstarget p.shadowstack)
      (sstarget + p.shadowstack.length) next

/-- `stm_rewind_jmp_restore_shadowstack`. -/
def rewind_jmp_restore_shadowstack (t : St Byte Entry) : Option (St Byte Entry) := do
  c_assert (t.moved_off_base ≠ 0)
  let (entries, shadowstack) := enum_shadowstack t.entries t.moved_off_ssbase t.moved_off
  return { t with entries := entries, shadowstack := shadowstack }

/-- `_rewind_jmp_copy_stack_slice`. -/
def copy_stack_slice (t : St Byte Entry) : Option (St Byte Entry) :=
  match t.head with
  | [] => some (free_stack_slices t)
  | buf :: _ => do
    c_assert (t.moved_off_base < buf.addr)
    copy_stack t t.moved_off_base t.moved_off_ssbase

/-! ## `rewind_setjmp.h` -/

def rewind_jmp_enterframe (t : St Byte Entry) (addr frame_base : ℕ) : St Byte Entry :=
  { t with head :=
      { addr := addr, shadowstack_base := t.shadowstack, frame_base := frame_base } :: t.head }

def rewind_jmp_leaveframe (t : St Byte Entry) : Option (St Byte Entry) :=
  match t.head with
  | [] => none
  | rjbuf :: prev => do
    c_assert (rjbuf.shadowstack_base = t.shadowstack)
    if rjbuf.frame_base = t.moved_off_base then
      c_assert (t.moved_off_ssbase = t.shadowstack)
      copy_stack_slice { t with head := prev }
    else return { t with head := prev }

def rewind_jmp_forget (t : St Byte Entry) : St Byte Entry :=
  let t := if t.moved_off = [] then t else free_stack_slices t
  { t with moved_off_base := 0, moved_off_ssbase := 0 }

/-! ## The program -/

inductive Act (Byte Entry : Type) where
  /-- a call moves the top of the stack down, a return moves it up -/
  | call (size : ℕ)
  | ret (sp : ℕ)
  | write (a : ℕ) (x : Byte)
  | push (x : Entry)
  | pop
  | set_entry (k : ℕ) (x : Entry)
  | enterframe (addr frame_base : ℕ)
  | leaveframe
  | setjmp (saved : ℕ)
  | restore_shadowstack
  | longjmp
  | forget

/-- The live part of the C stack stays above the innermost frame's
`rewind_jmp_buf`, and the shadow stack above its `shadowstack_base`; a frame is
entered by a function that was called from the one around it. -/
def step (t : St Byte Entry) : Act Byte Entry → Outcome (St Byte Entry)
  | .call size => guarded (size ≤ t.sp) (.next { t with sp := t.sp - size })
  | .ret sp =>
    guarded (t.sp ≤ sp ∧ ∀ buf ∈ t.head.head?, sp ≤ buf.addr) (.next { t with sp := sp })
  | .write a x =>
    guarded (t.sp ≤ a) (.next { t with stack := Function.update t.stack a x })
  | .push x => .next { t with
      entries := Function.update t.entries t.shadowstack x
      shadowstack := t.shadowstack + 1 }
  | .pop =>
    guarded (0 < t.shadowstack ∧ ∀ buf ∈ t.head.head?, buf.shadowstack_base < t.shadowstack)
      (.next { t with shadowstack := t.shadowstack - 1 })
  | .set_entry k x =>
    guarded (k < t.shadowstack) (.next { t with entries := Function.update t.entries k x })
  | .enterframe addr frame_base =>
    guarded (t.sp ≤ addr ∧ addr < frame_base ∧ ∀ buf ∈ t.head.head?, frame_base < buf.addr)
      (.next (rewind_jmp_enterframe t addr frame_base))
  | .leaveframe => .ofOption (rewind_jmp_leaveframe t)
  | .setjmp saved => guarded (saved ≤ t.sp) (.ofOption (rewind_jmp_setjmp t saved))
  | .restore_shadowstack => .ofOption (rewind_jmp_restore_shadowstack t)
  | .longjmp => .ofOption (rewind_jmp_longjmp t)
  | .forget => .next (rewind_jmp_forget t)

end Functions

end Stmgc.C7.RewindJmp
