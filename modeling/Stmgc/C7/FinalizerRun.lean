/-
`c7/stm/finalizer.c`: calling the regular finalizers of committed objects.

Major collections and commits of any thread append to the one queue
`g_finalizers.run_finalizers`. Between two transactions a thread may take the
lock of `_invoke_general_finalizers` and work the queue off in a transaction of
its own. [`FinalizerQueue`] is the queue together with that thread; the other
threads are present by what they append, at any time.
-/
import Stmgc.Lib.Machine
import Stmgc.C7.Finalizer
import Mathlib.Data.List.Count
import Mathlib.Data.List.GetD
import Mathlib.Data.List.ReduceOption
import Mathlib.Data.Option.Basic

namespace Stmgc.C7

open Stmgc.Lib

/-! ## The functions -/

/-- Where the thread in `_invoke_general_finalizers` is: after
`stm_start_transaction`, inside `stmcb_finalizer` with the two variables of
`_execute_finalizers`, where that has returned, and after
`stm_commit_transaction`. -/
inductive InvokePc where
  | started
  | callback (next total : ℕ)
  | executed
  | committed
  deriving DecidableEq

section Execute

variable {Obj : Type}

/-- The body of the `while` loop of `_execute_finalizers`, up to
`stmcb_finalizer`: the list, where the thread is, and the argument of the
call. -/
def call_finalizer (f : finalizers_s Obj) (items : List (Option Obj)) (next total : ℕ) :
    finalizers_s Obj × InvokePc × List (Option Obj) :=
  ({ f with run_finalizers := some (items.set next none), running_next := some (next + 1) },
    .callback (next + 1) total, [items.getD next none])

/-- The end of `_execute_finalizers`. -/
def free_run_finalizers (f : finalizers_s Obj) : finalizers_s Obj × InvokePc × List (Option Obj) :=
  ({ f with run_finalizers := none, running_next := none }, .executed, [])

/-- `_execute_finalizers` after `restart`, with `running_next == NULL`. -/
def execute_all (f : finalizers_s Obj) (items : List (Option Obj)) :
    finalizers_s Obj × InvokePc × List (Option Obj) :=
  if 0 < items.length then call_finalizer f items 0 items.length else free_run_finalizers f

/-- `_execute_finalizers`, up to the first call. -/
def execute_finalizers (f : finalizers_s Obj) : finalizers_s Obj × InvokePc × List (Option Obj) :=
  match f.run_finalizers with
  | none => (f, .executed, [])
  | some items => if f.running_next.isSome then (f, .executed, []) else execute_all f items

/-- What the `memmove` at the end of `_execute_finalizers` makes of a list: the
items from `total` on come to its start, and its `count` stays. -/
def memmove_items (items : List (Option Obj)) (total : ℕ) : List (Option Obj) :=
  items.drop total ++ items.drop (items.length - total)

/-- `_execute_finalizers` from the return of `stmcb_finalizer` to its next call
or to its end. `none` is the read through a `NULL` pointer. -/
def return_from_finalizer (f : finalizers_s Obj) (next total : ℕ) :
    Option (finalizers_s Obj × InvokePc × List (Option Obj)) :=
  match f.run_finalizers with
  | none => none
  | some items =>
    if next < total then some (call_finalizer f items next total)
    else if total < items.length then some (execute_all f (memmove_items items total))
    else some (free_run_finalizers f)

/-- What `_commit_finalizers` appends to `g_finalizers.run_finalizers`. -/
def finalizers_s.to_run (f : finalizers_s Obj) : List (Option Obj) :=
  match f.run_finalizers with
  | none => []
  | some src => src.drop (f.running_next.getD 0)

/-- `_commit_finalizers`, for the list `f` of the segment that commits.
`list_extend` of a `NULL` list reads through the pointer. -/
def commit_finalizers (f g_finalizers : finalizers_s Obj) : Option (finalizers_s Obj) := do
  let g_finalizers ←
    match f.run_finalizers with
    | none => some g_finalizers
    | some src => do
      let frm := f.running_next.getD 0
      c_assert (frm ≤ src.length)
      if frm < src.length then
        g_finalizers.run_finalizers.map fun items =>
          { g_finalizers with run_finalizers := some (items ++ src.drop frm) }
      else some g_finalizers
  return { g_finalizers with
    objects_with_finalizers :=
      g_finalizers.objects_with_finalizers ++ f.objects_with_finalizers }

/-- What `mark_finalize_step2` does to `run_finalizers`, when it finds that the
objects `xs` are to be finalized. -/
def append_run_finalizers (run_finalizers : Option (List (Option Obj))) (xs : List Obj) :
    Option (List (Option Obj)) :=
  if xs = [] then run_finalizers else some (run_finalizers.getD [] ++ xs.map some)

end Execute

/-! ## The machine -/

/-- The thread in `_invoke_general_finalizers`. `restart` is where its
transaction starts again after an abort, and `calls` are the arguments of the
calls of `stmcb_finalizer` in its transaction so far. -/
structure Invocation (Obj : Type) where
  pc : InvokePc
  restart : InvokePc
  calls : List (Option Obj)

/-- `died` are the objects that have been moved to
`g_finalizers.run_finalizers` and `committed` the calls of each transaction
that has committed; the code does not read either. -/
structure FinalizerQueue (Obj : Type) where
  g_finalizers : finalizers_s Obj
  lock : Bool
  invocation : Option (Invocation Obj)
  died : List Obj
  committed : List (List (Option Obj))

namespace FinalizerQueue

variable {Obj : Type}

inductive Act (Obj : Type) where
  /-- a major collection, by any thread -/
  | mark_finalize_step2 (xs : List Obj)
  /-- a commit, by any thread -/
  | commit_finalizers (f : finalizers_s Obj)
  | invoke_general_finalizers
  | execute_finalizers
  | return_from_finalizer
  /-- the finalizer commits the transaction and starts another one -/
  | finalizer_commits
  | abort_transaction
  | commit_transaction
  | release_lock

/-- The thread runs until it is at `r.2.1`. -/
def goes_on (q : FinalizerQueue Obj) (i : Invocation Obj)
    (r : finalizers_s Obj × InvokePc × List (Option Obj)) : FinalizerQueue Obj :=
  { q with
    g_finalizers := r.1
    invocation := some { i with pc := r.2.1, calls := i.calls ++ r.2.2 } }

/-- A step of the thread that holds the lock. -/
def step_invocation (q : FinalizerQueue Obj) (i : Invocation Obj) : Act Obj →
    Outcome (FinalizerQueue Obj)
  | .execute_finalizers =>
    guarded (i.pc = .started) <| .next (q.goes_on i (execute_finalizers q.g_finalizers))
  | .return_from_finalizer =>
    match i.pc with
    | .callback next total =>
      .ofOption ((return_from_finalizer q.g_finalizers next total).map (q.goes_on i))
    | _ => .blocked
  | .finalizer_commits =>
    guarded (i.pc ≠ .committed) <| .next { q with
      invocation := some { i with restart := i.pc, calls := [] }
      committed := q.committed ++ [i.calls] }
  | .abort_transaction =>
    guarded (i.pc ≠ .committed) <| .next { q with
      invocation := some { i with pc := i.restart, calls := [] } }
  | .commit_transaction =>
    guarded (i.pc = .executed) <| .next { q with
      invocation := some { i with pc := .committed, calls := [] }
      committed := q.committed ++ [i.calls] }
  | .release_lock =>
    guarded (i.pc = .committed) <| .next { q with lock := false, invocation := none }
  | _ => .blocked

def step (q : FinalizerQueue Obj) : Act Obj → Outcome (FinalizerQueue Obj)
  | .mark_finalize_step2 xs => .next { q with
      g_finalizers := { q.g_finalizers with
        run_finalizers := append_run_finalizers q.g_finalizers.run_finalizers xs }
      died := q.died ++ xs }
  | .commit_finalizers f =>
    .ofOption ((Stmgc.C7.commit_finalizers f q.g_finalizers).map fun g_finalizers =>
      { q with g_finalizers := g_finalizers, died := q.died ++ f.to_run.reduceOption })
  -- the thread may have read `g_finalizers.run_finalizers` a while ago
  | .invoke_general_finalizers =>
    guarded (q.lock = false) <| .next { q with
      lock := true
      invocation := some { pc := .started, restart := .started, calls := [] } }
  | a =>
    match q.invocation with
    | some i => q.step_invocation i a
    | none => .blocked

/-- After `setup_finalizer`. -/
def initial : FinalizerQueue Obj where
  g_finalizers :=
    { objects_with_finalizers := []
      count_non_young := 0
      run_finalizers := none
      running_next := none }
  lock := false
  invocation := none
  died := []
  committed := []

/-! ## What is promised -/

/-- The calls in the transaction that runs. -/
def calls (q : FinalizerQueue Obj) : List (Option Obj) :=
  match q.invocation with
  | some i => i.calls
  | none => []

def queued (q : FinalizerQueue Obj) : List (Option Obj) := q.g_finalizers.run_finalizers.getD []

/-- The thread is in the loop of `_execute_finalizers`. -/
def in_loop (q : FinalizerQueue Obj) : Bool :=
  match q.invocation with
  | some { pc := .callback .., .. } => true
  | _ => false

/-- The transaction has not called a finalizer yet, nor left the loop of
`_execute_finalizers` in which it started. -/
def Invocation.can_abort (i : Invocation Obj) : Prop :=
  i.calls = [] ∧ (i.pc = i.restart ∨ i.restart = .started)

/-- Nothing is appended to the queue while it is being worked off, and the
transaction that does it does not abort once it has called a finalizer. -/
def undisturbed (q : FinalizerQueue Obj) : Act Obj → Prop
  | .mark_finalize_step2 xs => xs = [] ∨ q.in_loop = false
  | .commit_finalizers f => f.to_run = [] ∨ q.in_loop = false
  | .abort_transaction => ∀ i, q.invocation = some i → Invocation.can_abort i
  | _ => True

section Once

variable [DecidableEq Obj]

/-- Every object has been moved to the queue as often as its finalizer has been
called in a transaction that has committed, except for the calls in the
transaction that runs and the entries that are still queued. -/
def Once (q : FinalizerQueue Obj) : Prop :=
  ∀ x, q.died.count x = q.committed.flatten.count (some x) + q.calls.count (some x)
    + q.queued.count (some x)

/-- A step of a thread in `_invoke_general_finalizers` that goes through. -/
def Act.works_off : Act Obj → Prop
  | .invoke_general_finalizers | .execute_finalizers | .return_from_finalizer
  | .commit_transaction | .release_lock => True
  | _ => False

/-- From `q` on, if nothing else happens, all finalizers are called in
transactions that commit, each as often as its object has been moved to the
queue. -/
def CanFinish (q : FinalizerQueue Obj) : Prop :=
  ∃ q', ReachableIf (· = q) step (fun _ a => a.works_off) q'
    ∧ q'.died = q.died ∧ q'.invocation = none
    ∧ ∀ x, q'.died.count x = q'.committed.flatten.count (some x)

/-! ## Counting -/

omit [DecidableEq Obj] in
theorem getD_append_run_finalizers (run : Option (List (Option Obj))) (xs : List Obj) :
    (append_run_finalizers run xs).getD [] = run.getD [] ++ xs.map some := by
  unfold append_run_finalizers
  split_ifs with hxs
  · rw [hxs, List.map_nil, List.append_nil]
  · rfl

theorem count_map_some (x : Obj) (xs : List Obj) : (xs.map some).count (some x) = xs.count x :=
  List.count_map_of_injective _ _ (Option.some_injective Obj) _

theorem count_reduceOption (x : Obj) (l : List (Option Obj)) :
    l.reduceOption.count x = l.count (some x) := by
  induction l with
  | nil => rfl
  | cons o l ih =>
      cases o with
      | none =>
          rw [List.reduceOption_cons_of_none, ih, List.count_cons_of_ne]
          nofun
      | some y =>
          rw [List.reduceOption_cons_of_some, List.count_cons, List.count_cons, ih]
          simp

/-- A call takes its entry out of the queue. -/
theorem count_call {items : List (Option Obj)} {next : ℕ} (h : next < items.length) (x : Obj) :
    [items.getD next none].count (some x) + (items.set next none).count (some x)
      = items.count (some x) := by
  have hsplit : items = items.take next ++ items[next] :: items.drop (next + 1) := by
    rw [List.getElem_cons_drop, List.take_append_drop]
  have hset : items.set next none = items.take next ++ none :: items.drop (next + 1) := by
    rw [List.set_eq_take_append_cons_drop, if_pos h]
  have hnone : (none :: items.drop (next + 1)).count (some x)
      = (items.drop (next + 1)).count (some x) := by
    apply List.count_cons_of_ne
    nofun
  rw [hset, List.count_append, hnone, List.getD_eq_getElem _ _ h]
  conv_rhs => rw [hsplit]
  rw [List.count_append, List.count_cons, List.count_cons, List.count_nil]
  omega

theorem count_eq_zero_of_none {items : List (Option Obj)}
    (h : ∀ k < items.length, items[k]? = some none) (x : Obj) : items.count (some x) = 0 := by
  rw [List.count_eq_zero]
  intro hx
  obtain ⟨k, hk, hget⟩ := List.mem_iff_getElem.mp hx
  have hnone := h k hk
  rw [List.getElem?_eq_getElem hk, hget] at hnone
  cases hnone

omit [DecidableEq Obj] in
theorem commit_finalizers_run {f g g' : finalizers_s Obj}
    (h : Stmgc.C7.commit_finalizers f g = some g') :
    g'.running_next = g.running_next
      ∧ g'.run_finalizers.getD [] = g.run_finalizers.getD [] ++ f.to_run
      ∧ (f.to_run = [] → g'.run_finalizers = g.run_finalizers) := by
  unfold Stmgc.C7.commit_finalizers at h
  unfold finalizers_s.to_run
  cases hsrc : f.run_finalizers with
  | none =>
      rw [hsrc] at h
      cases h
      exact ⟨rfl, (List.append_nil _).symm, fun _ => rfl⟩
  | some src =>
      rw [hsrc] at h
      obtain ⟨hle, h⟩ := c_assert_eq_some.mp h
      dsimp only at h ⊢
      split_ifs at h with hlt
      · obtain ⟨g1, hg1, h⟩ := Option.bind_eq_some_iff.mp h
        obtain ⟨items, hitems, rfl⟩ := Option.map_eq_some_iff.mp hg1
        cases h
        refine ⟨rfl, by rw [hitems]; rfl, fun hnil => ?_⟩
        rw [List.drop_eq_nil_iff] at hnil
        omega
      · cases h
        rw [List.drop_eq_nil_of_le (by omega), List.append_nil]
        exact ⟨rfl, rfl, fun _ => rfl⟩

/-! ## The invariant -/

/-- Where the thread is, what it has called, and the part of the list that it
has gone through. -/
def InvocationInv (f : finalizers_s Obj) (i : Invocation Obj) : Prop :=
  match i.pc with
  | .started => f.running_next = none ∧ i.restart = .started ∧ i.calls = []
  | .callback next total =>
    (∃ items, f.run_finalizers = some items ∧ items.length = total ∧ next ≤ total
      ∧ ∀ k < next, items[k]? = some none)
    ∧ ((i.restart = .started ∧ i.calls ≠ [])
      ∨ ∃ n, i.restart = .callback n total ∧ n + i.calls.length = next)
  | .executed => f.running_next = none ∧ i.restart ≠ .committed
  | .committed => f.running_next = none ∧ i.calls = []

structure Inv (q : FinalizerQueue Obj) : Prop where
  once : q.Once
  lock : q.lock = q.invocation.isSome
  idle : q.invocation = none → q.g_finalizers.running_next = none
  invocation : ∀ i, q.invocation = some i → InvocationInv q.g_finalizers i

theorem inv_initial : Inv (initial : FinalizerQueue Obj) where
  once _ := rfl
  lock := rfl
  idle _ := rfl
  invocation i h := by cases h

omit [DecidableEq Obj] in
/-- Where the thread is not in the loop it does not know the list. -/
theorem InvocationInv.congr {f g : finalizers_s Obj} {i : Invocation Obj}
    (h : InvocationInv f i) (hnext : g.running_next = f.running_next)
    (hrun : (∃ next total, i.pc = .callback next total) → g.run_finalizers = f.run_finalizers) :
    InvocationInv g i := by
  unfold InvocationInv at h ⊢
  split at h
  · rw [hnext]
    exact h
  · rename_i next total hpc
    rw [hrun ⟨next, total, hpc⟩]
    exact h
  · rw [hnext]
    exact h
  · rw [hnext]
    exact h

/-- Objects come to the end of the queue. -/
theorem Inv.append {q : FinalizerQueue Obj} (h : Inv q) {g : finalizers_s Obj} {xs : List Obj}
    {entries : List (Option Obj)} (hcount : ∀ x, entries.count (some x) = xs.count x)
    (hnext : g.running_next = q.g_finalizers.running_next)
    (hrun : g.run_finalizers.getD [] = q.g_finalizers.run_finalizers.getD [] ++ entries)
    (hloop : q.in_loop = true → g.run_finalizers = q.g_finalizers.run_finalizers) :
    Inv { q with g_finalizers := g, died := q.died ++ xs } where
  once x := by
    have honce := h.once x
    unfold queued calls at honce ⊢
    dsimp only at honce ⊢
    rw [hrun, List.count_append, List.count_append, hcount]
    omega
  lock := h.lock
  idle hi := hnext.trans (h.idle hi)
  invocation i hi := by
    refine (h.invocation i hi).congr hnext fun hpc => hloop ?_
    obtain ⟨next, total, hpc⟩ := hpc
    replace hi : q.invocation = some i := hi
    unfold in_loop
    rw [hi]
    obtain ⟨pc, restart, calls⟩ := i
    cases hpc
    rfl

section Step

variable {q q' : FinalizerQueue Obj} {i : Invocation Obj}

/-- The thread calls the finalizer of the next entry. -/
theorem Inv.call (h : Inv q) (hi : q.invocation = some i) {items : List (Option Obj)}
    {next : ℕ} (hrun : q.g_finalizers.run_finalizers = some items) (hlt : next < items.length)
    (hzero : ∀ k < next, items[k]? = some none)
    (hrestart : i.restart = .started
      ∨ ∃ n, i.restart = .callback n items.length ∧ n + i.calls.length = next) :
    Inv (q.goes_on i (call_finalizer q.g_finalizers items next items.length)) where
  once x := by
    have honce := h.once x
    have hcall := count_call hlt x
    unfold queued calls at honce
    rw [hi, hrun] at honce
    dsimp only [Option.getD_some] at honce
    show q.died.count x = q.committed.flatten.count (some x)
      + (i.calls ++ [items.getD next none]).count (some x) + (items.set next none).count (some x)
    rw [List.count_append]
    omega
  lock := h.lock.trans (by rw [hi]; rfl)
  idle hnone := by cases hnone
  invocation j hj := by
    cases hj
    refine ⟨⟨_, rfl, List.length_set, hlt, fun k hk => ?_⟩, ?_⟩
    · rw [List.getElem?_set]
      split_ifs with hkn
      · rfl
      · exact hzero k (by omega)
    · rcases hrestart with hstart | ⟨n, hn, hlen⟩
      · exact .inl ⟨hstart, List.append_ne_nil_of_right_ne_nil _ (List.cons_ne_nil _ _)⟩
      · refine .inr ⟨n, hn, ?_⟩
        show n + (i.calls ++ [_]).length = _
        rw [List.length_append, List.length_singleton]
        omega

/-- The thread has been through the whole list. -/
theorem Inv.free (h : Inv q) (hi : q.invocation = some i)
    (hzero : ∀ x, q.queued.count (some x) = 0) (hrestart : i.restart ≠ .committed) :
    Inv (q.goes_on i (free_run_finalizers q.g_finalizers)) where
  once x := by
    have honce := h.once x
    have hx := hzero x
    unfold calls at honce
    rw [hi] at honce
    dsimp only at honce
    show q.died.count x = q.committed.flatten.count (some x)
      + (i.calls ++ []).count (some x) + ([] : List (Option Obj)).count (some x)
    rw [List.append_nil, List.count_nil]
    omega
  lock := h.lock.trans (by rw [hi]; rfl)
  idle hnone := by cases hnone
  invocation j hj := by
    cases hj
    exact ⟨rfl, hrestart⟩

theorem Inv.execute (h : Inv q) (hi : q.invocation = some i) (hpc : i.pc = .started) :
    Inv (q.goes_on i (execute_finalizers q.g_finalizers)) := by
  have hinv := h.invocation i hi
  unfold InvocationInv at hinv
  rw [hpc] at hinv
  obtain ⟨hnext, hrestart, hcalls⟩ := hinv
  have hne : i.restart ≠ .committed := by
    rw [hrestart]
    nofun
  unfold execute_finalizers
  cases hrun : q.g_finalizers.run_finalizers with
  | none =>
      have hfree := h.free hi (fun x => by unfold queued; rw [hrun]; rfl) hne
      have heq : q.goes_on i (free_run_finalizers q.g_finalizers)
          = q.goes_on i (q.g_finalizers, .executed, []) := by
        unfold goes_on free_run_finalizers
        rw [← hrun, ← hnext]
      exact heq ▸ hfree
  | some items =>
      dsimp only
      rw [hnext]
      unfold execute_all
      split_ifs with hlen hlen
      · exact absurd hlen (by nofun)
      · exact h.call hi hrun hlen (fun k hk => by omega) (.inl hrestart)
      · refine h.free hi (fun x => ?_) hne
        have hnil : items = [] := List.eq_nil_of_length_eq_zero (by omega)
        unfold queued
        rw [hrun, Option.getD_some, hnil]
        rfl

theorem Inv.return_from_finalizer (h : Inv q) (hi : q.invocation = some i) {next total : ℕ}
    (hpc : i.pc = .callback next total) :
    ∃ r, Stmgc.C7.return_from_finalizer q.g_finalizers next total = some r
      ∧ Inv (q.goes_on i r) := by
  have hinv := h.invocation i hi
  unfold InvocationInv at hinv
  rw [hpc] at hinv
  obtain ⟨⟨items, hrun, rfl, hle, hzero⟩, hrestart⟩ := hinv
  unfold Stmgc.C7.return_from_finalizer
  rw [hrun]
  dsimp only
  split_ifs with hlt hlen
  · exact ⟨_, rfl, h.call hi hrun hlt hzero (hrestart.imp (·.1) id)⟩
  · omega
  · refine ⟨_, rfl, h.free hi (fun x => ?_) ?_⟩
    · unfold queued
      rw [hrun]
      exact count_eq_zero_of_none (fun k hk => hzero k (by omega)) x
    · rcases hrestart with ⟨hstart, -⟩ | ⟨n, hn, -⟩
      · rw [hstart]
        nofun
      · rw [hn]
        nofun

/-- The transaction commits, and another one may start. -/
theorem Inv.commit (h : Inv q) (hi : q.invocation = some i) {j : Invocation Obj}
    (hcalls : j.calls = []) (hinv : InvocationInv q.g_finalizers j) :
    Inv { q with invocation := some j, committed := q.committed ++ [i.calls] } where
  once x := by
    have honce := h.once x
    unfold calls queued at honce ⊢
    rw [hi] at honce
    dsimp only at honce ⊢
    rw [hcalls, List.flatten_append, List.flatten_singleton, List.count_append, List.count_nil]
    omega
  lock := by
    rw [h.lock, hi]
    rfl
  idle hnone := by cases hnone
  invocation k hk := by
    cases hk
    exact hinv

theorem Inv.step_invocation (h : Inv q) (hi : q.invocation = some i) {a : Act Obj}
    (hok : q.undisturbed a) (hs : q.step_invocation i a = .next q') : Inv q' := by
  have hinv := h.invocation i hi
  cases a with
  | mark_finalize_step2 xs => cases hs
  | commit_finalizers f => cases hs
  | invoke_general_finalizers => cases hs
  | execute_finalizers =>
      obtain ⟨hpc, hs⟩ := guarded_eq_next.mp hs
      cases hs
      exact h.execute hi hpc
  | return_from_finalizer =>
      unfold FinalizerQueue.step_invocation at hs
      dsimp only at hs
      split at hs
      · rename_i next total hpc
        obtain ⟨r, hr, hnext⟩ := h.return_from_finalizer hi hpc
        rw [hr] at hs
        cases hs
        exact hnext
      · cases hs
  | finalizer_commits =>
      obtain ⟨hpc, hs⟩ := guarded_eq_next.mp hs
      cases hs
      refine h.commit hi rfl ?_
      unfold InvocationInv at hinv ⊢
      dsimp only
      split at hinv
      · rename_i hstart
        exact ⟨hinv.1, hstart, rfl⟩
      · rename_i next total hcall
        exact ⟨hinv.1, .inr ⟨next, hcall, Nat.add_zero _⟩⟩
      · exact ⟨hinv.1, hpc⟩
      · rename_i hcommitted
        exact absurd hcommitted hpc
  | abort_transaction =>
      obtain ⟨hpc, hs⟩ := guarded_eq_next.mp hs
      cases hs
      obtain ⟨hcalls, hback⟩ := hok i hi
      have hone : { i with pc := i.restart, calls := [] } = i
          ∨ i.restart = .started ∧ q.g_finalizers.running_next = none := by
        rcases hback with hsame | hstart
        · left
          obtain ⟨pc, restart, calls⟩ := i
          cases hsame
          cases hcalls
          rfl
        · right
          refine ⟨hstart, ?_⟩
          unfold InvocationInv at hinv
          split at hinv
          · exact hinv.1
          · rcases hinv.2 with ⟨-, hne⟩ | ⟨n, hn, -⟩
            · exact absurd hcalls hne
            · rw [hstart] at hn
              cases hn
          · exact hinv.1
          · exact hinv.1
      rcases hone with hsame | ⟨hstart, hnext⟩
      · rw [hsame, ← hi]
        exact h
      · -- the transaction has done nothing so far
        refine ⟨fun x => ?_, ?_, nofun, ?_⟩
        · have honce := h.once x
          unfold calls at honce ⊢
          rw [hi] at honce
          dsimp only at honce ⊢
          rw [hcalls] at honce
          exact honce
        · rw [h.lock, hi]
          rfl
        · intro j hj
          cases hj
          unfold InvocationInv
          dsimp only
          rw [hstart]
          exact ⟨hnext, rfl, rfl⟩
  | commit_transaction =>
      obtain ⟨hpc, hs⟩ := guarded_eq_next.mp hs
      cases hs
      unfold InvocationInv at hinv
      rw [hpc] at hinv
      exact h.commit hi rfl ⟨hinv.1, rfl⟩
  | release_lock =>
      obtain ⟨hpc, hs⟩ := guarded_eq_next.mp hs
      cases hs
      unfold InvocationInv at hinv
      rw [hpc] at hinv
      refine ⟨fun x => ?_, rfl, fun _ => hinv.1, nofun⟩
      have honce := h.once x
      unfold calls at honce ⊢
      rw [hi] at honce
      dsimp only at honce ⊢
      rw [hinv.2] at honce
      exact honce

theorem Inv.step {a : Act Obj} (h : Inv q) (hok : q.undisturbed a)
    (hs : q.step a = .next q') : Inv q' := by
  have hown : ∀ b : Act Obj, q.undisturbed b → (match q.invocation with
      | some i => q.step_invocation i b
      | none => .blocked) = .next q' → Inv q' := by
    intro b hb hs
    cases hi : q.invocation with
    | none =>
        rw [hi] at hs
        cases hs
    | some i =>
        rw [hi] at hs
        exact h.step_invocation hi hb hs
  cases a with
  | mark_finalize_step2 xs =>
      cases hs
      refine h.append (fun x => count_map_some x xs) rfl (getD_append_run_finalizers _ _) ?_
      intro hloop
      rcases hok with rfl | hnot
      · rfl
      · rw [hnot] at hloop
        cases hloop
  | commit_finalizers f =>
      obtain ⟨g, hg, rfl⟩ := Option.map_eq_some_iff.mp (Outcome.ofOption_eq_next.mp hs)
      obtain ⟨hnext, hrun, hsame⟩ := commit_finalizers_run hg
      refine h.append (fun x => (count_reduceOption x _).symm) hnext hrun fun hloop => ?_
      rcases hok with hnil | hnot
      · exact hsame hnil
      · rw [hnot] at hloop
        cases hloop
  | invoke_general_finalizers =>
      obtain ⟨hlock, hs⟩ := guarded_eq_next.mp hs
      cases hs
      have hnone : q.invocation = none := by
        rw [h.lock] at hlock
        exact Option.not_isSome_iff_eq_none.mp (by rw [hlock]; nofun)
      refine ⟨fun x => ?_, rfl, nofun, ?_⟩
      · have honce := h.once x
        unfold calls at honce ⊢
        rw [hnone] at honce
        exact honce
      · intro j hj
        cases hj
        exact ⟨h.idle hnone, rfl, rfl⟩
  | execute_finalizers => exact hown _ hok hs
  | return_from_finalizer => exact hown _ hok hs
  | finalizer_commits => exact hown _ hok hs
  | abort_transaction => exact hown _ hok hs
  | commit_transaction => exact hown _ hok hs
  | release_lock => exact hown _ hok hs

/-! ## Working the queue off -/

/-- A run of the thread that holds the lock, without an abort. -/
abbrev Runs (q q' : FinalizerQueue Obj) : Prop :=
  ReachableIf (· = q) FinalizerQueue.step (fun _ a => a.works_off) q'

omit [DecidableEq Obj] in
theorem undisturbed_of_works_off {a : Act Obj} (h : a.works_off) : q.undisturbed a := by
  cases a with
  | mark_finalize_step2 xs => exact absurd h (fun h => h)
  | commit_finalizers f => exact absurd h (fun h => h)
  | abort_transaction => exact absurd h (fun h => h)
  | _ => trivial

theorem Inv.runs (h : Inv q) (hruns : Runs q q') : Inv q' := by
  refine hruns.invariant (fun s hs => ?_) fun s a s' hinv hok hs => ?_
  · exact hs ▸ h
  · exact hinv.step (undisturbed_of_works_off hok) hs

omit [DecidableEq Obj] in
theorem runs_step {a : Act Obj} (hs : q.step a = .next q') (ha : a.works_off) : Runs q q' :=
  .step (.start rfl) ha hs

/-- The loop of `_execute_finalizers` ends, and frees the list. -/
def Executed (q q' : FinalizerQueue Obj) : Prop :=
  Runs q q' ∧ (∃ j, q'.invocation = some j ∧ j.pc = .executed)
    ∧ q'.g_finalizers.run_finalizers = none ∧ q'.died = q.died

omit [DecidableEq Obj] in
theorem Executed.head {t : FinalizerQueue Obj} {a : Act Obj} (hs : q.step a = .next t)
    (ha : a.works_off) (hdied : t.died = q.died) (h : Executed t q') : Executed q q' :=
  ⟨(runs_step hs ha).trans h.1, h.2.1, h.2.2.1, h.2.2.2.trans hdied⟩

omit [DecidableEq Obj] in
theorem step_return_from_finalizer (hi : q.invocation = some i) {next total : ℕ}
    (hpc : i.pc = .callback next total) {r : finalizers_s Obj × InvokePc × List (Option Obj)}
    (hr : Stmgc.C7.return_from_finalizer q.g_finalizers next total = some r) :
    q.step .return_from_finalizer = .next (q.goes_on i r) := by
  unfold FinalizerQueue.step
  rw [hi]
  dsimp only
  unfold FinalizerQueue.step_invocation
  dsimp only
  rw [hpc]
  dsimp only
  rw [hr]
  rfl

/-- By induction on the number of entries that are left. -/
theorem Inv.finish_loop (n : ℕ) {next total : ℕ} (h : Inv q) (hi : q.invocation = some i)
    (hpc : i.pc = .callback next total) (hn : total - next = n) : ∃ q', Executed q q' := by
  induction n generalizing q i next with
  | zero =>
      obtain ⟨r, hr, -⟩ := h.return_from_finalizer hi hpc
      have hstep := step_return_from_finalizer hi hpc hr
      have hloop := h.invocation i hi
      unfold InvocationInv at hloop
      rw [hpc] at hloop
      obtain ⟨⟨items, hrun, hlen, -⟩, -⟩ := hloop
      unfold Stmgc.C7.return_from_finalizer at hr
      rw [hrun] at hr
      dsimp only at hr
      rw [if_neg (by omega), if_neg (by omega)] at hr
      cases hr
      exact ⟨_, runs_step hstep trivial, ⟨_, rfl, rfl⟩, rfl, rfl⟩
  | succ n ih =>
      obtain ⟨r, hr, hinv⟩ := h.return_from_finalizer hi hpc
      have hstep := step_return_from_finalizer hi hpc hr
      have hloop := h.invocation i hi
      unfold InvocationInv at hloop
      rw [hpc] at hloop
      obtain ⟨⟨items, hrun, hlen, -⟩, -⟩ := hloop
      unfold Stmgc.C7.return_from_finalizer at hr
      rw [hrun] at hr
      dsimp only at hr
      rw [if_pos (by omega)] at hr
      cases hr
      obtain ⟨q', hq'⟩ := ih hinv rfl rfl (by omega)
      exact ⟨q', hq'.head hstep trivial rfl⟩

omit [DecidableEq Obj] in
/-- The transaction commits and the lock is released. -/
theorem finish_commit (hi : q.invocation = some i) (hpc : i.pc = .executed) :
    ∃ q', Runs q q' ∧ q'.invocation = none
      ∧ q'.g_finalizers = q.g_finalizers ∧ q'.died = q.died := by
  have hcommit : q.step .commit_transaction = .next { q with
      invocation := some { i with pc := .committed, calls := [] }
      committed := q.committed ++ [i.calls] } := by
    unfold FinalizerQueue.step
    rw [hi]
    dsimp only
    unfold FinalizerQueue.step_invocation
    exact if_pos hpc
  have hrelease := runs_step (a := .release_lock) (q := { q with
      invocation := some { i with pc := .committed, calls := [] }
      committed := q.committed ++ [i.calls] }) rfl trivial
  exact ⟨_, (runs_step hcommit trivial).trans hrelease, rfl, rfl, rfl⟩

theorem Inv.finish_started (h : Inv q) (hi : q.invocation = some i) (hpc : i.pc = .started) :
    ∃ q', Executed q q' := by
  have hinv := h.invocation i hi
  unfold InvocationInv at hinv
  rw [hpc] at hinv
  have hstep : q.step .execute_finalizers
      = .next (q.goes_on i (execute_finalizers q.g_finalizers)) := by
    unfold FinalizerQueue.step
    rw [hi]
    dsimp only
    unfold FinalizerQueue.step_invocation
    exact if_pos hpc
  have hnext := h.execute hi hpc
  unfold execute_finalizers at hstep hnext
  cases hrun : q.g_finalizers.run_finalizers with
  | none =>
      rw [hrun] at hstep
      exact ⟨_, runs_step hstep trivial, ⟨_, rfl, rfl⟩, hrun, rfl⟩
  | some items =>
      rw [hrun] at hstep hnext
      dsimp only at hstep hnext
      rw [hinv.1] at hstep hnext
      unfold execute_all at hstep hnext
      by_cases hlen : 0 < items.length
      · rw [if_neg nofun, if_pos hlen] at hstep hnext
        obtain ⟨q', hq'⟩ := hnext.finish_loop _ rfl rfl rfl
        exact ⟨q', hq'.head hstep trivial rfl⟩
      · rw [if_neg nofun, if_neg hlen] at hstep
        exact ⟨_, runs_step hstep trivial, ⟨_, rfl, rfl⟩, rfl, rfl⟩

/-- Whatever the thread that holds the lock is at, it comes to the end. -/
theorem Inv.finish_invocation (h : Inv q) :
    ∃ q', Runs q q' ∧ q'.invocation = none ∧ q'.died = q.died := by
  have hexecuted : (∃ t, Executed q t) →
      ∃ q', Runs q q' ∧ q'.invocation = none ∧ q'.died = q.died := by
    rintro ⟨t, ht, ⟨j, hj, hjpc⟩, -, hdied⟩
    obtain ⟨q', hq', hnone, -, hdied'⟩ := finish_commit hj hjpc
    exact ⟨q', ht.trans hq', hnone, hdied'.trans hdied⟩
  cases hi : q.invocation with
  | none => exact ⟨q, .start rfl, hi, rfl⟩
  | some i =>
      cases hpc : i.pc with
      | started => exact hexecuted (h.finish_started hi hpc)
      | callback next total => exact hexecuted (h.finish_loop _ hi hpc rfl)
      | executed =>
          obtain ⟨q', hq', hnone, -, hdied⟩ := finish_commit hi hpc
          exact ⟨q', hq', hnone, hdied⟩
      | committed =>
          have hrelease : q.step .release_lock
              = .next { q with lock := false, invocation := none } := by
            unfold FinalizerQueue.step
            rw [hi]
            dsimp only
            unfold FinalizerQueue.step_invocation
            exact if_pos hpc
          exact ⟨_, runs_step hrelease trivial, rfl, rfl⟩

theorem Inv.canFinish (h : Inv q) : q.CanFinish := by
  obtain ⟨q1, hruns1, hnone1, hdied1⟩ := h.finish_invocation
  have h1 := h.runs hruns1
  -- one more invocation, which finds the whole queue
  have hlock : q1.lock = false := by
    rw [h1.lock, hnone1]
    rfl
  have hinvoke : q1.step .invoke_general_finalizers = .next { q1 with
      lock := true
      invocation := some { pc := .started, restart := .started, calls := [] } } := if_pos hlock
  have hruns2 := hruns1.trans (runs_step hinvoke trivial)
  obtain ⟨q3, hruns3, ⟨j, hj, hjpc⟩, hfree, hdied3⟩ := (h.runs hruns2).finish_started rfl rfl
  obtain ⟨q4, hruns4, hnone4, hg, hdied4⟩ := finish_commit hj hjpc
  have hruns := (hruns2.trans hruns3).trans hruns4
  refine ⟨q4, hruns, hdied4.trans (hdied3.trans hdied1), hnone4, fun x => ?_⟩
  have honce := (h.runs hruns).once x
  unfold calls queued at honce
  rw [hnone4, hg, hfree] at honce
  exact honce

end Step

/-! ## Regular finalizers run once -/

/-- In every run whose steps leave the queue alone while it is being worked
off, each finalizer is called in exactly one transaction that commits: none has
been called too often or got lost, and those that are left can be called. -/
theorem regular_finalizers_once {q : FinalizerQueue Obj}
    (h : ReachableIf (· = initial) step undisturbed q) : q.Once ∧ q.CanFinish := by
  have hinv : Inv q := by
    refine h.invariant (fun s hs => ?_) fun s a s' hinv hok hs => hinv.step hok hs
    exact hs ▸ inv_initial
  exact ⟨hinv.once, hinv.canFinish⟩

instance (q : FinalizerQueue Obj) (a : Act Obj) : Decidable (q.undisturbed a) :=
  match a with
  | .mark_finalize_step2 xs => inferInstanceAs (Decidable (xs = [] ∨ q.in_loop = false))
  | .commit_finalizers f => inferInstanceAs (Decidable (f.to_run = [] ∨ q.in_loop = false))
  | .abort_transaction =>
    match hi : q.invocation with
    | none => .isTrue fun i h => by
        rw [hi] at h
        cases h
    | some i => decidable_of_iff (i.calls = [] ∧ (i.pc = i.restart ∨ i.restart = .started)) <| by
        constructor
        · intro h j hj
          rw [hi] at hj
          cases hj
          exact h
        · exact fun h => h i hi
  | .invoke_general_finalizers | .execute_finalizers | .return_from_finalizer
  | .finalizer_commits | .commit_transaction | .release_lock => .isTrue trivial

/-- Two objects die, and a thread calls their finalizers. -/
def two_finalizers : List (Act ℕ) :=
  [.mark_finalize_step2 [7, 8], .invoke_general_finalizers, .execute_finalizers,
    .return_from_finalizer, .return_from_finalizer, .commit_transaction]

theorem regular_finalizers_once_two : ∃ q : FinalizerQueue ℕ,
    run step undisturbed initial two_finalizers = .next q
      ∧ q.committed = [[some 7, some 8]] ∧ q.Once := by
  have htest : (run step undisturbed initial two_finalizers).test
      (fun q => decide (q.committed = [[some 7, some 8]])) = true := by
    decide +kernel
  obtain ⟨q, hrun, hcommitted⟩ := Outcome.of_test htest
  have h0 : ReachableIf (· = (initial : FinalizerQueue ℕ)) step undisturbed initial := .start rfl
  exact ⟨q, hrun, of_decide_eq_true hcommitted, (regular_finalizers_once (h0.run _ hrun)).1⟩

/-- The first of two finalizers has been called when the transaction aborts. -/
def abort_in_finalizer : List (Act ℕ) :=
  [.mark_finalize_step2 [7, 8], .invoke_general_finalizers, .execute_finalizers,
    .abort_transaction]

/-- The entry of the object stays zeroed after the abort; no transaction that
commits has called its finalizer or is going to. -/
theorem regular_finalizers_lost :
    ¬ ∀ q : FinalizerQueue ℕ, Reachable (· = initial) step q → q.Once ∧ q.CanFinish := by
  intro hall
  have htest : (run step (fun _ _ => True) initial abort_in_finalizer).test
      (fun q => decide (q.died.count 7 ≠ q.committed.flatten.count (some 7)
        + q.calls.count (some 7) + q.queued.count (some 7))) = true := by
    decide +kernel
  obtain ⟨q, hrun, hne⟩ := Outcome.of_test htest
  have h0 : Reachable (· = (initial : FinalizerQueue ℕ)) step initial := .start rfl
  exact of_decide_eq_true hne ((hall q (h0.run _ hrun)).1 7)

end Once

end FinalizerQueue

end Stmgc.C7
