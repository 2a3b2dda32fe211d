/-
`c7/stm/finalizer.c`: one call of `_execute_finalizers`.

The callbacks are the application's: they may run major collections, which
append to the list that is being worked off, call `_execute_finalizers` again,
and commit the transaction. [`advance`] goes from one call of
`stmcb_finalizer` to the next one, whatever its callback does.

The same object can be registered and die more than once, and what is called
or lost is an *entry* of the list. So the entries carry their number.
-/
import Stmgc.C7.FinalizerRun
import Mathlib.Logic.Function.Iterate

namespace Stmgc.C7.ExecuteFinalizers

open Stmgc.Lib

/-! ## The function and its callbacks -/

variable {Obj : Type}

/-- An object in `f->run_finalizers`, and how many were appended before it. -/
abbrev Entry (Obj : Type) := Obj × ℕ

/-- What a callback may do to the lists. -/
inductive CallbackAct (Obj : Type) where
  /-- a major collection: the objects `xs` are appended to `f`, and `ys` to
  `g_finalizers`. Where `f` is `g_finalizers` itself, `_commit_finalizers` of
  any segment does the former, and where it is not, the latter. -/
  | mark_finalize_step2 (xs : List Obj) (ys : List (Entry Obj))
  | execute_finalizers
  /-- the transaction whose list is `f` commits -/
  | commit_transaction

/-- `f` is `none` once it is freed. `entries` are the objects that have ever
been appended to `f`, `calls` the arguments of `stmcb_finalizer`, and
`handed_over` is what a commit has moved to `g_finalizers`; the code does not
read these three. -/
structure State (Obj : Type) where
  f : Option (finalizers_s (Entry Obj))
  g_finalizers : finalizers_s (Entry Obj)
  entries : List Obj
  calls : List (Option (Entry Obj))
  handed_over : List (Option (Entry Obj))

/-- Objects that are appended when `n` have been before. -/
def new_entries (xs : List Obj) (n : ℕ) : List (Entry Obj) := xs.zipIdx n

/-- What `mark_finalize_step2` does to a list. -/
def append_to {E : Type} (f : finalizers_s E) (xs : List E) : finalizers_s E :=
  { f with run_finalizers := append_run_finalizers f.run_finalizers xs }

def callback_act (s : State Obj) : CallbackAct Obj → Option (State Obj)
  | .mark_finalize_step2 xs ys =>
    let s := { s with g_finalizers := append_to s.g_finalizers ys }
    match s.f with
    | none => some s
    | some f => some { s with
        f := some (append_to f (new_entries xs s.entries.length))
        entries := s.entries ++ xs }
  | .execute_finalizers =>
    match s.f with
    | none => some s
    | some f =>
      let (f, _, calls) := Stmgc.C7.execute_finalizers f
      some { s with f := some f, calls := s.calls ++ calls }
  | .commit_transaction =>
    match s.f with
    | none => some s
    | some f => (commit_finalizers f s.g_finalizers).map fun g_finalizers =>
        { s with f := none, g_finalizers := g_finalizers, handed_over := f.to_run }

/-- `_execute_finalizers` has read through `NULL`, is inside `stmcb_finalizer`
with its variables `next` and `total`, or has returned. -/
inductive Execution (Obj : Type) where
  | fault
  | in_callback (s : State Obj) (next total : ℕ)
  | returned (s : State Obj)

/-- The loop gets to its next call, or to the end. -/
def goes_on (s : State Obj)
    (r : finalizers_s (Entry Obj) × InvokePc × List (Option (Entry Obj))) : Execution Obj :=
  let s := { s with f := some r.1, calls := s.calls ++ r.2.2 }
  match r.2.1 with
  | .callback next total => .in_callback s next total
  | _ => .returned s

/-- From inside a callback to inside the next one. The callbacks are numbered
by the calls. -/
def advance (callbacks : ℕ → List (CallbackAct Obj)) : Execution Obj → Execution Obj
  | .in_callback s next total =>
    match (callbacks (s.calls.length - 1)).foldlM callback_act s with
    | none => .fault
    | some s =>
      match s.f with
      -- the commit has set `next` to `(uintptr_t)-1`
      | none => .returned s
      | some f =>
        match return_from_finalizer f next total with
        | none => .fault
        | some r => goes_on s r
  | x => x

/-- The list that `_execute_finalizers` is called on, `g_finalizers` at that
time, and what the callbacks do. -/
structure Input (Obj : Type) where
  objects_with_finalizers : List (Entry Obj)
  count_non_young : ℕ
  run_finalizers : Option (List Obj)
  g_finalizers : finalizers_s (Entry Obj)
  callbacks : ℕ → List (CallbackAct Obj)

namespace Input

def f (x : Input Obj) : finalizers_s (Entry Obj) where
  objects_with_finalizers := x.objects_with_finalizers
  count_non_young := x.count_non_young
  run_finalizers := x.run_finalizers.map fun items => (new_entries items 0).map some
  running_next := none

def items (x : Input Obj) : List Obj := x.run_finalizers.getD []

def initial (x : Input Obj) : State Obj where
  f := some x.f
  g_finalizers := x.g_finalizers
  entries := x.items
  calls := []
  handed_over := []

/-- `_execute_finalizers` after `n` callbacks. -/
def execution (x : Input Obj) (n : ℕ) : Execution Obj :=
  (advance x.callbacks)^[n] (goes_on x.initial (execute_finalizers x.f))

end Input

/-! ## What is promised -/

/-- The objects that some acts append to `f`. -/
def appended (acts : List (CallbackAct Obj)) : List Obj :=
  acts.flatMap fun
    | .mark_finalize_step2 xs _ => xs
    | _ => []

/-- The entries that some acts append to `g_finalizers`. -/
def appended_g (acts : List (CallbackAct Obj)) : List (Entry Obj) :=
  acts.flatMap fun
    | .mark_finalize_step2 _ ys => ys
    | _ => []

/-- The calls that are to be made, in this order. -/
def State.to_call (s : State Obj) : List (Option (Entry Obj)) :=
  (new_entries s.entries 0).map some

/-- Every entry gets one call, none is `NULL`, and they come in the order of
the list. At the end no entry is dropped: a commit has moved the entries that
are left to `g_finalizers`, otherwise there are none and `f->run_finalizers`
is `NULL`. -/
def Execution.AsClaimed : Execution Obj → Prop
  | .fault => False
  | .in_callback s _ _ => s.calls <+: s.to_call
  | .returned s =>
    s.calls ++ s.handed_over = s.to_call
      ∧ match s.f with
        | none => s.handed_over <:+: s.g_finalizers.run_finalizers.getD []
        | some f => f.run_finalizers = none ∧ s.handed_over = []

/-- And the loop ends once the callbacks append nothing any more. -/
def Input.AsClaimed (x : Input Obj) : Prop :=
  (∀ n, (x.execution n).AsClaimed)
    ∧ ((∃ m, ∀ k, m ≤ k → appended (x.callbacks k) = []) →
      ∃ n s, x.execution n = .returned s)

/-- What the callbacks numbered below `k` do. -/
def Input.acts_before (x : Input Obj) (k : ℕ) : List (CallbackAct Obj) :=
  (List.range k).flatMap x.callbacks

/-- The first commit in the callback `k` of the first pass over the list, if
there is one, finds no entry left or finds `g_finalizers.run_finalizers` not
`NULL`; if there is none, nothing is appended in that pass. -/
structure Input.BookkeepingAgrees (x : Input Obj) : Prop where
  commit : ∀ k < x.items.length, ∀ pre post,
    x.callbacks k = pre ++ .commit_transaction :: post →
    .commit_transaction ∉ x.acts_before k ++ pre →
    (k + 1 = x.items.length ∧ appended (x.acts_before k ++ pre) = [])
      ∨ x.g_finalizers.run_finalizers ≠ none ∨ appended_g (x.acts_before k ++ pre) ≠ []
  append : .commit_transaction ∉ x.acts_before x.items.length →
    appended (x.acts_before x.items.length) = []

/-! ## Appending -/

theorem append_run_finalizers_some {E : Type} (l : List (Option E)) (xs : List E) :
    append_run_finalizers (some l) xs = some (l ++ xs.map some) := by
  unfold append_run_finalizers
  split_ifs with hxs
  · rw [hxs, List.map_nil, List.append_nil]
  · rfl

theorem append_to_append {E : Type} (f : finalizers_s E) (xs ys : List E) :
    append_to (append_to f xs) ys = append_to f (xs ++ ys) := by
  unfold append_to append_run_finalizers
  by_cases hxs : xs = []
  · simp [hxs]
  · by_cases hys : ys = []
    · simp [hys]
    · simp [hxs, hys]

@[simp] theorem append_to_nil {E : Type} (f : finalizers_s E) : append_to f [] = f := rfl

theorem new_entries_append (xs ys : List Obj) (n : ℕ) :
    new_entries (xs ++ ys) n = new_entries xs n ++ new_entries ys (n + xs.length) := by
  unfold new_entries
  rw [List.zipIdx_append]

@[simp] theorem length_new_entries (xs : List Obj) (n : ℕ) :
    (new_entries xs n).length = xs.length := by
  simp [new_entries]

@[simp] theorem new_entries_eq_nil {xs : List Obj} {n : ℕ} : new_entries xs n = [] ↔ xs = [] := by
  simp [new_entries]

@[simp] theorem appended_nil : appended ([] : List (CallbackAct Obj)) = [] := rfl

@[simp] theorem appended_g_nil : appended_g ([] : List (CallbackAct Obj)) = [] := rfl

theorem appended_append (acts acts' : List (CallbackAct Obj)) :
    appended (acts ++ acts') = appended acts ++ appended acts' :=
  List.flatMap_append

theorem appended_g_append (acts acts' : List (CallbackAct Obj)) :
    appended_g (acts ++ acts') = appended_g acts ++ appended_g acts' :=
  List.flatMap_append

/-! ## One pass over the list -/

section Pass

variable (f g : finalizers_s (Entry Obj)) (entries : List Obj)
  (calls items : List (Option (Entry Obj)))

/-- In a pass over `items` that has started with `entries` and `calls`: `j`
calls have been made and the callbacks have done `acts`. -/
def pass_state (acts : List (CallbackAct Obj)) (j : ℕ) : State Obj where
  f := some { f with
    run_finalizers := some (List.replicate j none ++ items.drop j
      ++ (new_entries (appended acts) entries.length).map some)
    running_next := some j }
  g_finalizers := append_to g (appended_g acts)
  entries := entries ++ appended acts
  calls := calls ++ items.take j
  handed_over := []

variable {f g entries calls items} {acts : List (CallbackAct Obj)} {j : ℕ}

theorem callback_act_pass {a : CallbackAct Obj} (ha : a ≠ .commit_transaction) :
    callback_act (pass_state f g entries calls items acts j) a
      = some (pass_state f g entries calls items (acts ++ [a]) j) := by
  cases a with
  | mark_finalize_step2 xs ys =>
      have hxs : appended (acts ++ [.mark_finalize_step2 xs ys]) = appended acts ++ xs := by
        simp [appended]
      have hys : appended_g (acts ++ [.mark_finalize_step2 xs ys]) = appended_g acts ++ ys := by
        simp [appended_g]
      unfold pass_state callback_act
      rw [hxs, hys, new_entries_append]
      dsimp only
      rw [append_to_append]
      unfold append_to
      dsimp only
      rw [append_run_finalizers_some]
      simp
  -- `running_next` is not `NULL`: the nested call returns at once
  | execute_finalizers =>
      simp [pass_state, callback_act, Stmgc.C7.execute_finalizers, appended, appended_g]
  | commit_transaction => exact absurd rfl ha

theorem foldlM_pass (new : List (CallbackAct Obj)) (hnew : .commit_transaction ∉ new) :
    new.foldlM callback_act (pass_state f g entries calls items acts j)
      = some (pass_state f g entries calls items (acts ++ new) j) := by
  induction new generalizing acts with
  | nil => rw [List.append_nil, List.foldlM_nil, Option.pure_def]
  | cons a new ih =>
      have ha : a ≠ .commit_transaction := fun h => hnew (h ▸ List.mem_cons_self)
      rw [List.foldlM_cons, callback_act_pass ha]
      refine (ih fun h => hnew (List.mem_cons_of_mem a h)).trans ?_
      rw [List.append_assoc, List.singleton_append]

theorem length_calls_pass (hj : j ≤ items.length) :
    (pass_state f g entries calls items acts j).calls.length = calls.length + j := by
  simp [pass_state, hj]

/-- The first call of a pass. -/
theorem goes_on_execute_all (hitems : items ≠ []) {s : State Obj}
    (hg : s.g_finalizers = g) (hentries : s.entries = entries) (hcalls : s.calls = calls)
    (hhanded : s.handed_over = []) :
    goes_on s (execute_all f items)
      = .in_callback (pass_state f g entries calls items [] 1) 1 items.length := by
  obtain ⟨o, items, rfl⟩ := List.exists_cons_of_ne_nil hitems
  subst hg hentries hcalls
  simp [execute_all, call_finalizer, goes_on, pass_state, hhanded]

/-- What a call makes of the list. -/
theorem call_finalizer_pass (hj : j < items.length) (new : List (Option (Entry Obj))) :
    call_finalizer { f with
        run_finalizers := some (List.replicate j none ++ items.drop j ++ new)
        running_next := some j } (List.replicate j none ++ items.drop j ++ new) j items.length
      = ({ f with
          run_finalizers := some (List.replicate (j + 1) none ++ items.drop (j + 1) ++ new)
          running_next := some (j + 1) }, .callback (j + 1) items.length, [items[j]]) := by
  have hset : (List.replicate j none ++ items.drop j ++ new).set j none
      = List.replicate (j + 1) none ++ items.drop (j + 1) ++ new := by
    rw [List.append_assoc, List.set_append_right _ _ (by simp), List.length_replicate,
      Nat.sub_self, List.drop_eq_getElem_cons hj, List.cons_append, List.set_cons_zero,
      List.replicate_succ', List.append_assoc, List.append_assoc, List.singleton_append]
  have hget : (List.replicate j none ++ items.drop j ++ new).getD j none = items[j] := by
    rw [List.append_assoc, List.getD_append_right _ _ _ _ (by simp), List.length_replicate,
      Nat.sub_self, List.drop_eq_getElem_cons hj]
    rfl
  unfold call_finalizer
  rw [hset, hget]

variable {callbacks : ℕ → List (CallbackAct Obj)}

/-- A callback that does not commit, not at the end of the pass. -/
theorem advance_call (hj : j < items.length)
    (hcommit : .commit_transaction ∉ callbacks (calls.length + j - 1)) :
    advance callbacks (.in_callback (pass_state f g entries calls items acts j) j items.length)
      = .in_callback (pass_state f g entries calls items
          (acts ++ callbacks (calls.length + j - 1)) (j + 1)) (j + 1) items.length := by
  unfold advance
  dsimp only
  rw [length_calls_pass (Nat.le_of_lt hj), foldlM_pass _ hcommit]
  dsimp only [pass_state, return_from_finalizer]
  rw [if_pos hj, call_finalizer_pass hj]
  dsimp only [goes_on]
  rw [List.append_assoc calls, List.take_append_getElem hj]

/-- The last callback of the pass does not commit, and nothing was appended. -/
theorem advance_free (hcommit : .commit_transaction ∉ callbacks (calls.length + items.length - 1))
    (hnil : appended (acts ++ callbacks (calls.length + items.length - 1)) = []) :
    ∃ s f', advance callbacks (.in_callback
        (pass_state f g entries calls items acts items.length) items.length items.length)
        = .returned s
      ∧ s.f = some f' ∧ f'.run_finalizers = none ∧ s.entries = entries
      ∧ s.calls = calls ++ items ∧ s.handed_over = [] := by
  refine ⟨{ pass_state f g entries calls items
      (acts ++ callbacks (calls.length + items.length - 1)) items.length with
      f := some { f with run_finalizers := none, running_next := none } },
    { f with run_finalizers := none, running_next := none }, ?_, rfl, rfl, ?_, ?_, rfl⟩
  · unfold advance
    dsimp only
    rw [length_calls_pass le_rfl, foldlM_pass _ hcommit]
    simp [pass_state, return_from_finalizer, hnil, new_entries, free_run_finalizers, goes_on]
  · simp [pass_state, hnil]
  · simp [pass_state]

/-- The last callback of the pass does not commit, and something was appended:
the `memmove` leaves as many entries after the new ones as the pass had. -/
theorem advance_restart
    (hcommit : .commit_transaction ∉ callbacks (calls.length + items.length - 1))
    {acts' : List (CallbackAct Obj)}
    (hacts' : acts' = acts ++ callbacks (calls.length + items.length - 1))
    (hne : appended acts' ≠ []) {new items' : List (Option (Entry Obj))}
    (hnew : new = (new_entries (appended acts') entries.length).map some)
    (hitems' : items' = new ++ (List.replicate items.length none ++ new).drop new.length) :
    advance callbacks (.in_callback
        (pass_state f g entries calls items acts items.length) items.length items.length)
      = .in_callback (pass_state f (append_to g (appended_g acts')) (entries ++ appended acts')
          (calls ++ items) items' [] 1) 1 items'.length := by
  have hlen : 0 < new.length := by
    rw [hnew, List.length_map, length_new_entries]
    exact List.length_pos_iff.mpr hne
  have hmove : memmove_items (List.replicate items.length none ++ new) items.length = items' := by
    rw [hitems', memmove_items, List.drop_left' (by simp)]
    simp
  unfold advance
  dsimp only
  rw [length_calls_pass le_rfl, foldlM_pass _ hcommit, ← hacts']
  dsimp only [pass_state, return_from_finalizer]
  rw [← hnew, List.drop_length, List.append_nil, if_neg (lt_irrefl _), if_pos (by simpa using hlen),
    hmove]
  have hne' : items' ≠ [] := by
    rw [← List.length_pos_iff, hitems', List.length_append]
    omega
  refine goes_on_execute_all hne' rfl rfl ?_ rfl
  rw [List.take_length]

/-! ## A commit inside a callback -/

theorem append_to_eq_none {E : Type} {f : finalizers_s E} {xs : List E} :
    (append_to f xs).run_finalizers = none ↔ f.run_finalizers = none ∧ xs = [] := by
  unfold append_to append_run_finalizers
  split_ifs with hxs
  · exact ⟨fun h => ⟨h, hxs⟩, fun h => h.1⟩
  · exact ⟨nofun, fun h => absurd h.2 hxs⟩

theorem commit_finalizers_eq_none {E : Type} {f g : finalizers_s E} {src : List (Option E)}
    {c : ℕ} (hsrc : f.run_finalizers = some src) (hc : f.running_next = some c)
    (hle : c ≤ src.length) :
    commit_finalizers f g = none ↔ src.drop c ≠ [] ∧ g.run_finalizers = none := by
  have hdrop : src.drop c ≠ [] ↔ c < src.length := by
    rw [Ne, List.drop_eq_nil_iff, Nat.not_le]
  unfold commit_finalizers
  rw [hsrc, hc, hdrop]
  by_cases hlt : c < src.length
  · cases hg : g.run_finalizers with
    | none => simp [c_assert, hle, hlt]
    | some items => simp [c_assert, hle, hlt]
  · simp [c_assert, hle, hlt]

/-- Once `f` is freed, a callback only changes `g_finalizers`. -/
theorem foldlM_freed {s : State Obj} (hf : s.f = none) (acts : List (CallbackAct Obj)) :
    acts.foldlM callback_act s
      = some { s with g_finalizers := append_to s.g_finalizers (appended_g acts) } := by
  induction acts generalizing s with
  | nil => rfl
  | cons a acts ih =>
      rw [List.foldlM_cons]
      cases a with
      | mark_finalize_step2 xs ys =>
          have hact : callback_act s (.mark_finalize_step2 xs ys)
              = some { s with g_finalizers := append_to s.g_finalizers ys } := by
            simp [callback_act, hf]
          rw [hact, Option.bind_eq_bind, Option.bind_some]
          refine (ih (s := { s with g_finalizers := append_to s.g_finalizers ys }) hf).trans ?_
          dsimp only
          rw [append_to_append]
          rfl
      | execute_finalizers =>
          have hact : callback_act s .execute_finalizers = some s := by
            simp [callback_act, hf]
          rw [hact]
          exact ih hf
      | commit_transaction =>
          have hact : callback_act s .commit_transaction = some s := by
            simp [callback_act, hf]
          rw [hact]
          exact ih hf

section Commit

variable {pre post : List (CallbackAct Obj)} {left : List (Option (Entry Obj))}

/-- The list that a commit finds is the one of the pass, its first `j` entries
zeroed. -/
theorem commit_finalizers_pass
    (hleft : left = items.drop j ++ (new_entries (appended acts) entries.length).map some) :
    ∃ f', (pass_state f g entries calls items acts j).f = some f' ∧ f'.to_run = left
      ∧ (commit_finalizers f' (append_to g (appended_g acts)) = none
        ↔ left ≠ [] ∧ g.run_finalizers = none ∧ appended_g acts = []) := by
  refine ⟨_, rfl, ?_, ?_⟩
  · rw [finalizers_s.to_run]
    dsimp only
    rw [Option.getD_some, List.append_assoc, List.drop_left' (by simp), hleft]
  · rw [commit_finalizers_eq_none rfl rfl (by simp), append_to_eq_none,
      List.append_assoc, List.drop_left' (by simp), hleft]

theorem foldlM_commit (hpre : .commit_transaction ∉ pre) :
    (pre ++ .commit_transaction :: post).foldlM callback_act
        (pass_state f g entries calls items acts j)
      = (callback_act (pass_state f g entries calls items (acts ++ pre) j)
          .commit_transaction).bind fun s => post.foldlM callback_act s := by
  rw [List.foldlM_append, foldlM_pass _ hpre, Option.bind_eq_bind, Option.bind_some,
    List.foldlM_cons, Option.bind_eq_bind]

/-- The commit reads `g_finalizers.run_finalizers` through `NULL`. -/
theorem advance_commit_fault (hj : j ≤ items.length)
    (hcb : callbacks (calls.length + j - 1) = pre ++ .commit_transaction :: post)
    (hpre : .commit_transaction ∉ pre)
    (hleft : items.drop j ++ (new_entries (appended (acts ++ pre)) entries.length).map some ≠ [])
    (hg : g.run_finalizers = none) (hys : appended_g (acts ++ pre) = []) :
    advance callbacks (.in_callback (pass_state f g entries calls items acts j) j items.length)
      = .fault := by
  obtain ⟨f', hf', -, hnone⟩ := @commit_finalizers_pass _ f g _ calls _ _ _ _
    (rfl : _ = items.drop j ++ (new_entries (appended (acts ++ pre)) entries.length).map some)
  have hact : callback_act (pass_state f g entries calls items (acts ++ pre) j)
      .commit_transaction = none := by
    unfold callback_act
    rw [hf']
    exact Option.map_eq_none_iff.mpr (hnone.mpr ⟨hleft, hg, hys⟩)
  unfold advance
  dsimp only
  rw [length_calls_pass hj, hcb, foldlM_commit hpre, hact]
  rfl

/-- The commit moves what is left to `g_finalizers`, and the loop ends. -/
theorem advance_commit (hj : j ≤ items.length)
    (hcb : callbacks (calls.length + j - 1) = pre ++ .commit_transaction :: post)
    (hpre : .commit_transaction ∉ pre)
    (hleft : left = items.drop j
      ++ (new_entries (appended (acts ++ pre)) entries.length).map some)
    (hok : left = [] ∨ g.run_finalizers ≠ none ∨ appended_g (acts ++ pre) ≠ []) :
    ∃ s, advance callbacks
        (.in_callback (pass_state f g entries calls items acts j) j items.length) = .returned s
      ∧ s.f = none ∧ s.entries = entries ++ appended (acts ++ pre)
      ∧ s.calls = calls ++ items.take j ∧ s.handed_over = left
      ∧ left <:+: s.g_finalizers.run_finalizers.getD [] := by
  obtain ⟨f', hf', hrun, hnone⟩ := @commit_finalizers_pass _ f g _ calls _ _ _ _
    hleft
  have hsome : commit_finalizers f' (append_to g (appended_g (acts ++ pre))) ≠ none := by
    intro h
    obtain ⟨hne, hgn, hys⟩ := hnone.mp h
    obtain h | h | h := hok
    · exact hne h
    · exact h hgn
    · exact h hys
  obtain ⟨g', hg'⟩ := Option.ne_none_iff_exists'.mp hsome
  have hact : callback_act (pass_state f g entries calls items (acts ++ pre) j)
      .commit_transaction = some { pass_state f g entries calls items (acts ++ pre) j with
        f := none, g_finalizers := g', handed_over := left } := by
    unfold callback_act
    rw [hf']
    dsimp only
    rw [show (pass_state f g entries calls items (acts ++ pre) j).g_finalizers
      = append_to g (appended_g (acts ++ pre)) from rfl, hg', hrun]
    rfl
  refine ⟨{ pass_state f g entries calls items (acts ++ pre) j with
      f := none, g_finalizers := append_to g' (appended_g post), handed_over := left },
    ?_, rfl, rfl, rfl, rfl, ?_⟩
  · unfold advance
    dsimp only
    rw [length_calls_pass hj, hcb, foldlM_commit hpre, hact, Option.bind_some, foldlM_freed rfl]
  · refine ⟨(append_to g (appended_g (acts ++ pre))).run_finalizers.getD [],
      (appended_g post).map some, ?_⟩
    obtain ⟨-, happ, -⟩ := FinalizerQueue.commit_finalizers_run hg'
    rw [hrun] at happ
    have hpost : (append_to g' (appended_g post)).run_finalizers.getD []
        = g'.run_finalizers.getD [] ++ (appended_g post).map some :=
      FinalizerQueue.getD_append_run_finalizers _ _
    rw [hpost, happ]

end Commit

end Pass

/-! ## The first pass -/

namespace Input

variable {x : Input Obj}

/-- The list that `_execute_finalizers` finds. -/
def first_items (x : Input Obj) : List (Option (Entry Obj)) := (new_entries x.items 0).map some

@[simp] theorem length_first_items : x.first_items.length = x.items.length := by
  simp [first_items]

theorem execution_succ (n : ℕ) :
    x.execution (n + 1) = advance x.callbacks (x.execution n) :=
  Function.iterate_succ_apply' _ _ _

theorem execution_after {s : State Obj} {n : ℕ} (h : x.execution n = .returned s) {m : ℕ}
    (hm : n ≤ m) : x.execution m = .returned s := by
  induction m, hm using Nat.le_induction with
  | base => exact h
  | succ m _ ih =>
      rw [execution_succ, ih]
      rfl

theorem acts_before_succ (k : ℕ) : x.acts_before (k + 1) = x.acts_before k ++ x.callbacks k := by
  simp [acts_before, List.range_succ]

/-- In the first pass every call is for the next entry of the list. -/
theorem execution_first {k : ℕ} (hk : k < x.items.length)
    (hcommit : .commit_transaction ∉ x.acts_before k) :
    x.execution k = .in_callback (pass_state x.f x.g_finalizers x.items [] x.first_items
      (x.acts_before k) (k + 1)) (k + 1) x.first_items.length := by
  induction k with
  | zero =>
      have hrun : x.f.run_finalizers = some x.first_items := by
        cases h : x.run_finalizers with
        | none => simp [items, h] at hk
        | some l => simp [f, first_items, items, h]
      have hne : x.first_items ≠ [] := by
        rw [← List.length_pos_iff, length_first_items]
        exact hk
      have hexec : execute_finalizers x.f = execute_all x.f x.first_items := by
        unfold Stmgc.C7.execute_finalizers
        rw [hrun]
        rfl
      rw [execution, Function.iterate_zero_apply, hexec]
      exact goes_on_execute_all hne rfl rfl rfl rfl
  | succ k ih =>
      rw [acts_before_succ, List.mem_append, not_or] at hcommit
      rw [execution_succ, ih (by omega) hcommit.1, acts_before_succ]
      have hnum : ([] : List (Option (Entry Obj))).length + (k + 1) - 1 = k := by simp
      have hcall := @advance_call _ x.f x.g_finalizers x.items [] x.first_items
        (x.acts_before k) (k + 1) x.callbacks (by rwa [length_first_items]) (by rw [hnum]; exact hcommit.2)
      rw [hnum] at hcall
      exact hcall

theorem to_call_append (xs : List Obj) :
    (new_entries (x.items ++ xs) 0).map some
      = x.first_items ++ (new_entries xs x.items.length).map some := by
  rw [new_entries_append, List.map_append, Nat.zero_add, first_items]

theorem asClaimed_first {k : ℕ} (hk : k < x.items.length)
    (hcommit : .commit_transaction ∉ x.acts_before k) : (x.execution k).AsClaimed := by
  rw [execution_first hk hcommit]
  dsimp only [Execution.AsClaimed, State.to_call, pass_state]
  rw [to_call_append, List.nil_append]
  exact (List.take_prefix _ _).trans (List.prefix_append _ _)

/-! ## The loop that ends in the first pass -/

/-- A commit in the first pass that moves all that is left. -/
theorem asClaimed_commit {k : ℕ} (hk : k < x.items.length) {pre post : List (CallbackAct Obj)}
    (hcb : x.callbacks k = pre ++ .commit_transaction :: post)
    (hcommit : .commit_transaction ∉ x.acts_before k ++ pre)
    (hok : (k + 1 = x.items.length ∧ appended (x.acts_before k ++ pre) = [])
      ∨ x.g_finalizers.run_finalizers ≠ none ∨ appended_g (x.acts_before k ++ pre) ≠ []) :
    ∃ s, x.execution (k + 1) = .returned s ∧ (Execution.returned s).AsClaimed := by
  rw [List.mem_append, not_or] at hcommit
  obtain ⟨s, hs, hf, hentries, hcalls, hhanded, hg⟩ := @advance_commit _ x.f
    x.g_finalizers x.items [] x.first_items (x.acts_before k) (k + 1) x.callbacks _ _ _
    (by rw [length_first_items]; omega) (by simpa using hcb) hcommit.2 rfl <| by
      refine hok.imp_left ?_
      rintro ⟨hlast, hnil⟩
      rw [hnil, List.drop_eq_nil_of_le (by rw [length_first_items]; omega)]
      rfl
  refine ⟨s, ?_, ?_⟩
  · rw [execution_succ, execution_first hk hcommit.1, hs]
  · refine ⟨?_, ?_⟩
    · rw [State.to_call, hentries, to_call_append, hcalls, hhanded, List.nil_append,
        ← List.append_assoc, List.take_append_drop]
    · rw [hf, hhanded]
      exact hg

/-- A first pass without a commit, in which nothing is appended. -/
theorem asClaimed_free (hcommit : .commit_transaction ∉ x.acts_before x.items.length)
    (hnil : appended (x.acts_before x.items.length) = []) :
    ∃ s, x.execution x.items.length = .returned s ∧ (Execution.returned s).AsClaimed := by
  cases hn : x.items.length with
  | zero =>
      have hitems : x.items = [] := List.length_eq_zero_iff.mp hn
      rw [execution, Function.iterate_zero_apply]
      cases hrun : x.run_finalizers with
      | none =>
          refine ⟨x.initial, ?_, ?_, ?_⟩
          · simp [Stmgc.C7.execute_finalizers, f, hrun, goes_on, initial]
          · simp [initial, hitems, State.to_call, new_entries]
          · exact ⟨by simp [f, hrun], rfl⟩
      | some l =>
          have hl : l = [] := by simpa [items, hrun] using hitems
          refine ⟨{ x.initial with f := some { x.f with run_finalizers := none } }, ?_, ?_, ?_⟩
          · simp [Stmgc.C7.execute_finalizers, f, hrun, goes_on, initial, hl, execute_all,
              free_run_finalizers, new_entries]
          · simp [initial, hitems, State.to_call, new_entries]
          · exact ⟨rfl, rfl⟩
  | succ n =>
      rw [hn, acts_before_succ] at hcommit hnil
      rw [List.mem_append, not_or] at hcommit
      have hlen : x.first_items.length = n + 1 := by rw [length_first_items, hn]
      have hnum : ([] : List (Option (Entry Obj))).length + x.first_items.length - 1 = n := by
        simp [hn]
      obtain ⟨s, f', hs, hf, hrun, hentries, hcalls, hhanded⟩ := @advance_free _ x.f
        x.g_finalizers x.items [] x.first_items (x.acts_before n) x.callbacks
        (by rw [hnum]; exact hcommit.2) (by rw [hnum]; exact hnil)
      refine ⟨s, ?_, ?_, ?_⟩
      · rw [execution_succ, execution_first (by omega) hcommit.1, ← hlen, hs]
      · rw [State.to_call, hentries, hcalls, hhanded, List.nil_append, List.append_nil]
        rfl
      · rw [hf]
        exact ⟨hrun, hhanded⟩

/-- All is right up to a return that is. -/
theorem asClaimed_of_returned {n : ℕ} {s : State Obj} (hn : n ≤ x.items.length)
    (hbefore : ∀ k < n, .commit_transaction ∉ x.acts_before k)
    (hs : x.execution n = .returned s) (h : (Execution.returned s).AsClaimed) : x.AsClaimed := by
  refine ⟨fun k => ?_, fun _ => ⟨n, s, hs⟩⟩
  by_cases hk : k < n
  · exact asClaimed_first (by omega) (hbefore k hk)
  · rw [execution_after hs (by omega)]
    exact h

theorem mem_acts_before_of_le {a : CallbackAct Obj} {j k : ℕ} (hjk : j ≤ k)
    (h : a ∈ x.acts_before j) : a ∈ x.acts_before k := by
  induction k, hjk using Nat.le_induction with
  | base => exact h
  | succ k _ ih =>
      rw [acts_before_succ]
      exact List.mem_append_left _ ih

theorem exists_first_commit {n : ℕ} (h : .commit_transaction ∈ x.acts_before n) :
    ∃ k < n, .commit_transaction ∉ x.acts_before k ∧ .commit_transaction ∈ x.callbacks k := by
  induction n with
  | zero => cases h
  | succ n ih =>
      by_cases hn : .commit_transaction ∈ x.acts_before n
      · obtain ⟨k, hk, hfirst⟩ := ih hn
        exact ⟨k, by omega, hfirst⟩
      · rw [acts_before_succ, List.mem_append] at h
        exact ⟨n, by omega, hn, h.resolve_left hn⟩

theorem BookkeepingAgrees.asClaimed (h : x.BookkeepingAgrees) : x.AsClaimed := by
  by_cases hcommit : .commit_transaction ∈ x.acts_before x.items.length
  · obtain ⟨k, hlt, hmin, hcb⟩ := exists_first_commit hcommit
    obtain ⟨pre, post, hsplit, hpre⟩ := List.eq_append_cons_of_mem hcb
    have hnot : .commit_transaction ∉ x.acts_before k ++ pre := by
      rw [List.mem_append, not_or]
      exact ⟨hmin, hpre⟩
    obtain ⟨s, hs, hclaim⟩ := asClaimed_commit hlt hsplit hnot (h.commit k hlt pre post hsplit hnot)
    refine asClaimed_of_returned (by omega) (fun j hj hmem => ?_) hs hclaim
    exact hmin (mem_acts_before_of_le (by omega) hmem)
  · obtain ⟨s, hs, hclaim⟩ := asClaimed_free hcommit (h.append hcommit)
    refine asClaimed_of_returned le_rfl (fun j hj hmem => ?_) hs hclaim
    exact hcommit (mem_acts_before_of_le (by omega) hmem)

/-! ## The second pass

What the `memmove` leaves behind the new entries are zeroed entries and copies
of new ones, each in a place before its own number. -/

theorem AsClaimed.commit (h : x.AsClaimed) {k : ℕ} (hk : k < x.items.length)
    {pre post : List (CallbackAct Obj)}
    (hcb : x.callbacks k = pre ++ .commit_transaction :: post)
    (hcommit : .commit_transaction ∉ x.acts_before k ++ pre) :
    (k + 1 = x.items.length ∧ appended (x.acts_before k ++ pre) = [])
      ∨ x.g_finalizers.run_finalizers ≠ none ∨ appended_g (x.acts_before k ++ pre) ≠ [] := by
  by_contra hnot
  rw [not_or, not_or, not_ne_iff, not_ne_iff] at hnot
  obtain ⟨hleft, hg, hys⟩ := hnot
  rw [List.mem_append, not_or] at hcommit
  have hfault := @advance_commit_fault _ x.f x.g_finalizers x.items [] x.first_items
    (x.acts_before k) (k + 1) x.callbacks _ _ (by rw [length_first_items]; omega) (by simpa using hcb) hcommit.2
    (fun hnil => ?_) hg hys
  · have hclaim := h.1 (k + 1)
    rw [execution_succ, execution_first hk hcommit.1, hfault] at hclaim
    exact hclaim
  · rw [List.append_eq_nil_iff, List.drop_eq_nil_iff, length_first_items, List.map_eq_nil_iff,
      new_entries_eq_nil] at hnil
    exact hleft ⟨by omega, hnil.2⟩

section SecondPass

variable {f : finalizers_s (Entry Obj)} {g : finalizers_s (Entry Obj)} {entries : List Obj}
  {calls items : List (Option (Entry Obj))} {n : ℕ}

/-- As long as all is as claimed, a pass over too many items goes on to its
end: a commit would hand over too many. -/
theorem AsClaimed.execution_pass (h : x.AsClaimed)
    (hstart : x.execution n = .in_callback (pass_state f g entries calls items [] 1) 1 items.length)
    (hn : calls.length = n) (hlong : entries.length < calls.length + items.length) {j : ℕ}
    (hj : j < items.length) :
    ∃ acts, x.execution (n + j)
      = .in_callback (pass_state f g entries calls items acts (j + 1)) (j + 1) items.length := by
  induction j with
  | zero => exact ⟨[], hstart⟩
  | succ j ih =>
      obtain ⟨acts, hexec⟩ := ih (by omega)
      have hnum : calls.length + (j + 1) - 1 = n + j := by omega
      by_cases hcommit : .commit_transaction ∈ x.callbacks (n + j)
      · exfalso
        obtain ⟨pre, post, hcb, hpre⟩ := List.eq_append_cons_of_mem hcommit
        rw [← hnum] at hcb
        have hclaim := h.1 (n + j + 1)
        rw [execution_succ, hexec] at hclaim
        by_cases hok : items.drop (j + 1)
            ++ (new_entries (appended (acts ++ pre)) entries.length).map some = []
          ∨ g.run_finalizers ≠ none ∨ appended_g (acts ++ pre) ≠ []
        · obtain ⟨s, hs, -, hentries, hcalls, hhanded, -⟩ := @advance_commit _ f g _ calls
            _ _ _ _ _ _ _ (by omega : j + 1 ≤ items.length) hcb hpre rfl hok
          rw [hs] at hclaim
          have hlen := congrArg List.length hclaim.1
          rw [State.to_call, hentries, hcalls, hhanded] at hlen
          simp only [List.length_append, List.length_take, List.length_drop, List.length_map,
            length_new_entries] at hlen
          omega
        · rw [not_or, not_or, not_ne_iff, not_ne_iff] at hok
          obtain ⟨hleft, hg, hys⟩ := hok
          rw [advance_commit_fault (by omega) hcb hpre hleft hg hys] at hclaim
          exact hclaim
      · rw [← hnum] at hcommit
        refine ⟨acts ++ x.callbacks (n + j), ?_⟩
        have hcall := @advance_call _ f g entries calls _ acts _ _
          (by omega : j + 1 < items.length) hcommit
        rw [hnum] at hcall
        rw [← Nat.add_assoc, execution_succ, hexec, hcall]

/-- As long as all is as claimed, the items of such a pass are entries, with
the numbers of their calls. -/
theorem AsClaimed.getElem_pass (h : x.AsClaimed)
    (hstart : x.execution n = .in_callback (pass_state f g entries calls items [] 1) 1 items.length)
    (hn : calls.length = n) (hlong : entries.length < calls.length + items.length) {j : ℕ}
    (hj : j < items.length) : ∃ obj, items[j] = some (obj, calls.length + j) := by
  obtain ⟨acts, hexec⟩ := h.execution_pass hstart hn hlong hj
  have hclaim := h.1 (n + j)
  rw [hexec] at hclaim
  have hcall : (calls ++ items.take (j + 1))[calls.length + j]? = some items[j] := by
    rw [List.getElem?_append_right (by omega), Nat.add_sub_cancel_left,
      List.getElem?_take_of_lt (by omega), List.getElem?_eq_getElem hj]
  obtain ⟨rest, hrest⟩ := hclaim
  have hto : (pass_state f g entries calls items acts (j + 1)).to_call[calls.length + j]?
      = some items[j] := by
    rw [← hrest, List.getElem?_append_left (by rw [length_calls_pass] <;> omega)]
    exact hcall
  rw [State.to_call, new_entries, List.getElem?_map, List.getElem?_zipIdx, Option.map_map,
    Option.map_eq_some_iff] at hto
  obtain ⟨obj, -, hobj⟩ := hto
  refine ⟨obj, ?_⟩
  rw [← hobj]
  simp

end SecondPass

theorem AsClaimed.append (h : x.AsClaimed)
    (hcommit : .commit_transaction ∉ x.acts_before x.items.length) :
    appended (x.acts_before x.items.length) = [] := by
  by_contra hne
  obtain ⟨n, hn⟩ : ∃ n, x.items.length = n + 1 := by
    apply Nat.exists_eq_succ_of_ne_zero
    intro hzero
    rw [hzero] at hne
    exact hne rfl
  have hlen : x.first_items.length = n + 1 := by rw [length_first_items, hn]
  have hnum : ([] : List (Option (Entry Obj))).length + x.first_items.length - 1 = n := by
    simp [hn]
  rw [hn, acts_before_succ] at hcommit hne
  rw [List.mem_append, not_or] at hcommit
  have hlast : x.execution n = .in_callback (pass_state x.f x.g_finalizers x.items []
      x.first_items (x.acts_before n) x.first_items.length) x.first_items.length
      x.first_items.length := by
    rw [execution_first (by omega) hcommit.1, hlen]
  have hstart := @advance_restart _ x.f x.g_finalizers x.items [] x.first_items
    (x.acts_before n) x.callbacks
    (by rw [hnum]; exact hcommit.2) _ (by rw [hnum]) hne _ _ rfl rfl
  rw [← hlast, ← execution_succ, List.nil_append] at hstart
  generalize hnew : (new_entries (appended (x.acts_before n ++ x.callbacks n))
    x.items.length).map some = new at hstart
  have hlennew : (appended (x.acts_before n ++ x.callbacks n)).length = new.length := by
    rw [← hnew, List.length_map, length_new_entries]
  have hpos : 0 < new.length := by
    rw [← hlennew]
    exact List.length_pos_iff.mpr hne
  -- the first of the items that should not be there
  obtain ⟨obj, hobj⟩ := h.getElem_pass hstart hlen
    (by simp only [List.length_append, List.length_drop, List.length_replicate]; omega)
    (j := new.length)
    (by simp only [List.length_append, List.length_drop, List.length_replicate]; omega)
  rw [List.getElem_append_right le_rfl, List.getElem_drop] at hobj
  simp only [Nat.sub_self, Nat.add_zero] at hobj
  rw [List.getElem_append] at hobj
  split_ifs at hobj with hzeroed
  · rw [List.getElem_replicate] at hobj
    cases hobj
  · simp only [← hnew, List.getElem_map, new_entries, List.getElem_zipIdx, List.length_replicate,
      Option.some.injEq, Prod.mk.injEq] at hobj
    rw [List.length_replicate] at hzeroed
    simp only [List.length_map, List.length_zipIdx] at hobj
    omega

/-- Every entry gets exactly one call, in order and without `NULL`, and none is
dropped, if and only if the first pass over the list appends nothing to it or
ends with a commit that finds a place for what is left. -/
theorem execute_finalizers_iff (x : Input Obj) : x.AsClaimed ↔ x.BookkeepingAgrees :=
  ⟨fun h => ⟨fun _ hk _ _ hcb hcommit => h.commit hk hcb hcommit, h.append⟩,
    BookkeepingAgrees.asClaimed⟩

/-- The callback of the only object runs a major collection, which finds that
a second object has died. -/
def die_in_callback : Input ℕ where
  objects_with_finalizers := []
  count_non_young := 0
  run_finalizers := some [7]
  g_finalizers :=
    { objects_with_finalizers := []
      count_non_young := 0
      run_finalizers := none
      running_next := none }
  callbacks k := if k = 0 then [.mark_finalize_step2 [8] []] else []

/-- The finalizer of the second object is called twice. -/
theorem execute_finalizers_twice : ¬ ∀ x : Input ℕ, x.AsClaimed := by
  intro h
  have hclaim := (h die_in_callback).1 2
  have hprefix : [some (7, 0), some (8, 1), some (8, 1)] <+: [some (7, 0), some (8, 1)] := hclaim
  exact absurd hprefix (by decide)

end Input

end Stmgc.C7.ExecuteFinalizers
