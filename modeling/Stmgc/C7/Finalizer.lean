/-
`c7/stm/finalizer.c`: ordering the regular finalizers at a major collection.

The collector reuses the base byte of `write_locks` as a colour. Outside the
finalizer pass an object is either visited (`WL_VISITED`) or holds some lock
number below `WL_FINALIZ_ORDER_1`; the pass adds the two intermediate colours.
As in the source the *state* of an object is that byte shifted, so that the
official states 1, 2, 3 come out as such and every lock number as a number
that is at most 0.

An object is any type with decidable equality: only its lock byte and its
references matter here. The references are read through a segment
(`finalizer_trace (base, ..)`), hence the argument `view`, indexed by the
segment number; segment 0 holds the shared pages.
-/
import Stmgc.Lib.Loop
import Stmgc.C7.List

namespace Stmgc.C7

open Stmgc.Lib

/-! ## Colours -/

def WL_FINALIZ_ORDER_1 : ℕ := 253
def WL_FINALIZ_ORDER_2 : ℕ := 254
def WL_VISITED : ℕ := 255

/-- `struct finalizers_s`. The entries of `run_finalizers` become `NULL` once
they have been called. -/
structure finalizers_s (Obj : Type) where
  objects_with_finalizers : List Obj
  count_non_young : ℕ
  run_finalizers : Option (List (Option Obj))
  running_next : Option ℕ

section Order

variable {Obj : Type} [DecidableEq Obj]

/-- `_finalization_state`. -/
def finalization_state (write_locks : Obj → ℕ) (obj : Obj) : ℤ :=
  (write_locks obj : ℤ) - ((WL_FINALIZ_ORDER_1 : ℤ) - 1)

/-- `_bump_finalization_state_from_0_to_1`. -/
def bump_finalization_state_from_0_to_1 (write_locks : Obj → ℕ) (obj : Obj) :
    Option (Obj → ℕ) := do
  c_assert (write_locks obj < WL_FINALIZ_ORDER_1)
  return Function.update write_locks obj WL_FINALIZ_ORDER_1

/-- `_append_to_finalizer_tmpstack`. -/
def append_to_finalizer_tmpstack (tmpstack : List Obj) : Option Obj → List Obj
  | none => tmpstack
  | some obj => list_append tmpstack obj

/-- `finalizer_trace`: the references of `obj`, as `stmcb_trace` enumerates
them in one segment, are appended to `lst`. -/
def finalizer_trace (trace : Obj → List (Option Obj)) (obj : Obj) (lst : List Obj) :
    List Obj :=
  (trace obj).foldl append_to_finalizer_tmpstack lst

/-- The state of the two loops: the bytes, and the two scratch lists
`_finalizer_emptystack` and `_finalizer_pending`. -/
structure FinalizerState (Obj : Type) where
  write_locks : Obj → ℕ
  emptystack : List Obj
  pending : List Obj

/-- One turn of `_recursively_bump_finalization_state`. -/
def recursively_bump_body (trace : Obj → List (Option Obj)) (to_state : ℤ) :
    (Obj → ℕ) × List Obj × Obj → Option (ControlFlow ((Obj → ℕ) × List Obj × Obj)
      ((Obj → ℕ) × List Obj))
  | (write_locks, tmpstack, obj) =>
    let (write_locks, tmpstack) :=
      if finalization_state write_locks obj = to_state - 1 then
        -- bump to the next state, and trace
        (Function.update write_locks obj (write_locks obj + 1),
          finalizer_trace trace obj tmpstack)
      else (write_locks, tmpstack)
    match list_pop_item tmpstack with
    | none => some (.done (write_locks, tmpstack))
    | some (tmpstack, obj) => some (.cont (write_locks, tmpstack, obj))

/-- `_recursively_bump_finalization_state`. -/
def recursively_bump_finalization_state (trace : Obj → List (Option Obj))
    (st : FinalizerState Obj) (obj : Obj) (to_state : ℤ) : Option (FinalizerState Obj) := do
  c_assert (st.emptystack = [])
  let (write_locks, tmpstack) ←
    loop (recursively_bump_body trace to_state) (st.write_locks, st.emptystack, obj)
  return { st with write_locks := write_locks, emptystack := tmpstack }

/-- One turn of the inner loop of `mark_finalize_step1`, which empties
`pending`. -/
def mark_finalize_pending_body (trace : Obj → List (Option Obj)) (st : FinalizerState Obj) :
    Option (ControlFlow (FinalizerState Obj) (FinalizerState Obj)) :=
  match list_pop_item st.pending with
  | none => some (.done st)
  | some (pending, y) => do
    let st := { st with pending := pending }
    let state := finalization_state st.write_locks y
    if state ≤ 0 then
      let write_locks ← bump_finalization_state_from_0_to_1 st.write_locks y
      return .cont { st with
        write_locks := write_locks
        pending := finalizer_trace trace y pending }
    else if state = 2 then
      return .cont (← recursively_bump_finalization_state trace st y 3)
    else
      return .cont st

/-- One turn of the outer loop of `mark_finalize_step1`: `x` is either kept in
`objects_with_finalizers` or appended to `marked`. -/
def mark_finalize_step1_body (trace : Obj → List (Option Obj))
    (s : List Obj × List Obj × FinalizerState Obj) (x : Obj) :
    Option (List Obj × List Obj × FinalizerState Obj) := do
  let (lst, marked, st) := s
  c_assert (finalization_state st.write_locks x ≠ 1)
  if finalization_state st.write_locks x ≥ 2 then
    return (list_append lst x, marked, st)
  let marked := list_append marked x
  let st ← loop (mark_finalize_pending_body trace)
    { st with pending := list_append st.pending x }
  c_assert (finalization_state st.write_locks x = 1)
  let st ← recursively_bump_finalization_state trace st x 2
  return (lst, marked, st)

/-- `mark_finalize_step1`: the list `marked`, and `f` with the objects that
are not marked. -/
def mark_finalize_step1 (trace : Obj → List (Option Obj)) (st : FinalizerState Obj) :
    Option (finalizers_s Obj) →
      Option (Option (finalizers_s Obj) × List Obj × FinalizerState Obj)
  | none => some (none, [], st)
  | some f => do
    let (lst, marked, st) ←
      f.objects_with_finalizers.foldlM (mark_finalize_step1_body trace) ([], [], st)
    return (some { f with objects_with_finalizers := lst }, marked, st)

/-- One turn of `mark_finalize_step2`: `x` is either appended to
`run_finalizers` or put back in `objects_with_finalizers`. -/
def mark_finalize_step2_body (trace : Obj → List (Option Obj))
    (s : finalizers_s Obj × FinalizerState Obj) (x : Obj) :
    Option (finalizers_s Obj × FinalizerState Obj) := do
  let (f, st) := s
  let state := finalization_state st.write_locks x
  c_assert (state ≥ 2)
  if state = 2 then
    let run_finalizers := f.run_finalizers.getD []
    let st ← recursively_bump_finalization_state trace st x 3
    return ({ f with run_finalizers := some (list_append run_finalizers (some x)) }, st)
  else
    return ({ f with
      objects_with_finalizers := list_append f.objects_with_finalizers x }, st)

/-- `mark_finalize_step2`. -/
def mark_finalize_step2 (trace : Obj → List (Option Obj)) (st : FinalizerState Obj)
    (marked : List Obj) :
    Option (finalizers_s Obj) → Option (Option (finalizers_s Obj) × FinalizerState Obj)
  | none => some (none, st)
  | some f => do
    let (f, st) ← marked.foldlM (mark_finalize_step2_body trace) (f, st)
    return (some f, st)

/-- The first loop of `deal_with_objects_with_finalizers`, over the owners of
the lists in their order: a segment number and its `finalizers`. -/
def mark_finalize_step1_all (view : ℕ → Obj → List (Option Obj)) :
    FinalizerState Obj → List (ℕ × Option (finalizers_s Obj)) →
      Option (List (ℕ × Option (finalizers_s Obj) × List Obj) × FinalizerState Obj)
  | st, [] => some ([], st)
  | st, (j, f) :: rest => do
    let (f, marked, st) ← mark_finalize_step1 (view j) st f
    let (out, st) ← mark_finalize_step1_all view st rest
    return ((j, f, marked) :: out, st)

/-- The second loop of `deal_with_objects_with_finalizers`. -/
def mark_finalize_step2_all (view : ℕ → Obj → List (Option Obj)) :
    FinalizerState Obj → List (ℕ × Option (finalizers_s Obj) × List Obj) →
      Option (List (ℕ × Option (finalizers_s Obj)) × FinalizerState Obj)
  | st, [] => some ([], st)
  | st, (j, f, marked) :: rest => do
    let (f, st) ← mark_finalize_step2 (view j) st marked f
    let (out, st) ← mark_finalize_step2_all view st rest
    return ((j, f) :: out, st)

/-- The lists in the order in which both loops take them: segments
`1 .. NB_SEGMENTS`, then `g_finalizers` seen through the shared pages. -/
def finalizer_owners (segments : List (Option (finalizers_s Obj)))
    (g_finalizers : finalizers_s Obj) : List (ℕ × Option (finalizers_s Obj)) :=
  segments.mapIdx (fun i f => (i + 1, f)) ++ [(0, some g_finalizers)]

/-- `deal_with_objects_with_finalizers`: the lists afterwards, in the same
order, and the lock bytes. -/
def deal_with_objects_with_finalizers (view : ℕ → Obj → List (Option Obj))
    (write_locks : Obj → ℕ) (segments : List (Option (finalizers_s Obj)))
    (g_finalizers : finalizers_s Obj) :
    Option (List (ℕ × Option (finalizers_s Obj)) × (Obj → ℕ)) := do
  let (marked, st) ← mark_finalize_step1_all view
    { write_locks := write_locks, emptystack := [], pending := [] }
    (finalizer_owners segments g_finalizers)
  let (out, st) ← mark_finalize_step2_all view st marked
  return (out, st.write_locks)

end Order

end Stmgc.C7
