/-
`extra.c`: the callbacks that run when a transaction ends.

Each segment has two trees of callbacks, for commit (0) and for abort (1). A
transaction that commits, turns inevitable or aborts takes one of them away,
clears the other and runs what it has taken. The callbacks may register and
unregister callbacks themselves: a step of the machine below is one call of a
function of `extra.c` or of one callback, and between two callbacks the running
one may call `stm_call_on_commit` and `stm_call_on_abort`.
-/
import Stmgc.C7.Sync
import Mathlib.Data.List.AList

namespace Stmgc.C7.Callbacks

open Stmgc.Lib

/-! ## Data -/

section Data

variable {Key Callback : Type} [DecidableEq Key]

/-- `struct tree_s` as far as its items go. A tree that has had an item since
it was last cleared does not count as cleared, also when it is empty. -/
structure tree_s (Key Callback : Type) where
  items : AList (fun _ : Key => Callback)
  /-- `raw_current == raw_start` -/
  cleared : Bool
  empty_of_cleared : cleared = true → items = ∅

def tree_create : tree_s Key Callback :=
  { items := ∅, cleared := true, empty_of_cleared := fun _ => rfl }

/-- `tree_insert`. `none` is the failure of the assertion that the key is new. -/
def tree_insert (tree : tree_s Key Callback) (key : Key) (callback : Callback) :
    Option (tree_s Key Callback) :=
  if key ∈ tree.items then none
  else some
    { items := tree.items.insert key callback
      cleared := false
      empty_of_cleared := nofun }

/-- `tree_delete_item`, with what it returns. -/
def tree_delete_item (tree : tree_s Key Callback) (key : Key) : Bool × tree_s Key Callback :=
  if key ∈ tree.items then
    (true, { items := tree.items.erase key
             cleared := false
             empty_of_cleared := nofun })
  else (false, tree)

end Data

/-- Who has called `invoke_and_clear_user_callbacks`. -/
inductive Caller where
  | commit
  | inevitable
  | abort
  deriving DecidableEq

scoped instance index_neZero : NeZero 2 := ⟨two_ne_zero⟩

/-- The `index` that the caller passes. -/
def Caller.index : Caller → Fin 2
  | .commit => 0
  | .inevitable => 0
  | .abort => 1

/-- Where the thread of a segment stands. In the loop of
`invoke_and_clear_user_callbacks` the argument is the part of the tree that is
still to be gone through; its order is the one of the hashes of the keys, so
any of them may be next. -/
inductive Pc (Key Callback : Type) where
  | no_transaction
  | running
  | invoking (caller : Caller) (callbacks : AList (fun _ : Key => Callback))

/-- `struct stm_priv_segment_info_s`. The last two fields are not in the
source: the callbacks that the program has registered before the transaction
began to end and not unregistered since, and those that the loop has run. -/
structure Segment (Thread Key Callback : Type) where
  running_thread : Option Thread
  transaction_state : TransactionState
  callbacks_on_commit_and_abort : Fin 2 → tree_s Key Callback
  pc : Pc Key Callback
  registered : Fin 2 → AList (fun _ : Key => Callback)
  invoked : List (Fin 2 × Key × Callback)

structure St (Thread Seg Key Callback : Type) where
  segs : Seg → Segment Thread Key Callback
  associated_segment_num : Thread → Seg
  /-- the callbacks that `stm_call_on_commit` has invoked itself -/
  immediate : List (Key × Callback)

section Functions

variable {Thread Seg Key Callback : Type} [DecidableEq Thread] [DecidableEq Seg]
  [DecidableEq Key]

def St.set (st : St Thread Seg Key Callback) (s : Seg) (seg : Segment Thread Key Callback) :
    St Thread Seg Key Callback :=
  { st with segs := Function.update st.segs s seg }

/-- The segment of the running transaction of a thread, `STM_PSEGMENT`. -/
def St.psegment (st : St Thread Seg Key Callback) (tl : Thread) : Segment Thread Key Callback :=
  st.segs (st.associated_segment_num tl)

def stm_in_transaction (st : St Thread Seg Key Callback) (tl : Thread) : Bool :=
  (st.psegment tl).running_thread = some tl

/-- Replace one of the two trees. -/
def Segment.set_callbacks (seg : Segment Thread Key Callback) (index : Fin 2)
    (tree : tree_s Key Callback) : Segment Thread Key Callback :=
  { seg with callbacks_on_commit_and_abort :=
      Function.update seg.callbacks_on_commit_and_abort index tree }

/-- The program changes what it has registered, while the transaction runs. -/
def Segment.record (seg : Segment Thread Key Callback) (index : Fin 2)
    (f : AList (fun _ : Key => Callback) → AList (fun _ : Key => Callback)) :
    Segment Thread Key Callback :=
  match seg.pc with
  | .running =>
    { seg with registered := Function.update seg.registered index (f (seg.registered index)) }
  | _ => seg

/-! ## `extra.c` -/

/-- `register_callbacks`, with what it returns. A `NULL` callback is `none`. -/
def register_callbacks (st : St Thread Seg Key Callback) (tl : Thread) (key : Key)
    (callback : Option Callback) (index : Fin 2) : Option (ℤ × St Thread Seg Key Callback) :=
  let seg := st.psegment tl
  let callbacks := seg.callbacks_on_commit_and_abort index
  -- not really running a transaction, or an inevitable one
  if stm_in_transaction st tl = false then some (-1, st)
  else if seg.transaction_state = .ts_inevitable then some (-1, st)
  else
    match callback with
    | none =>
      let (deleted, tree) := tree_delete_item callbacks key
      some (if deleted then 1 else 0,
        st.set (st.associated_segment_num tl)
          ((seg.set_callbacks index tree).record index (AList.erase key)))
    | some callback =>
      match tree_insert callbacks key callback with
      | none => none
      | some tree =>
        some (1, st.set (st.associated_segment_num tl)
          ((seg.set_callbacks index tree).record index (AList.insert key callback)))

/-- `stm_call_on_commit`: where nothing could be registered, the callback is
invoked at once. -/
def stm_call_on_commit (st : St Thread Seg Key Callback) (tl : Thread) (key : Key)
    (callback : Option Callback) : Option (ℤ × St Thread Seg Key Callback) :=
  match register_callbacks st tl key callback 0 with
  | none => none
  | some (result, st) =>
    match callback with
    | some callback =>
      if result < 0 then some (result, { st with immediate := st.immediate ++ [(key, callback)] })
      else some (result, st)
    | none => some (result, st)

def stm_call_on_abort (st : St Thread Seg Key Callback) (tl : Thread) (key : Key)
    (callback : Option Callback) : Option (ℤ × St Thread Seg Key Callback) :=
  register_callbacks st tl key callback 1

/-- `invoke_and_clear_user_callbacks` up to its loop. -/
def invoke_and_clear_user_callbacks (seg : Segment Thread Key Callback) (caller : Caller) :
    Segment Thread Key Callback :=
  let index := caller.index
  let seg :=
    if (seg.callbacks_on_commit_and_abort (1 - index)).cleared then seg
    else seg.set_callbacks (1 - index) tree_create
  let callbacks := seg.callbacks_on_commit_and_abort index
  if callbacks.cleared then { seg with pc := .invoking caller ∅ }
  else { seg.set_callbacks index tree_create with pc := .invoking caller callbacks.items }

/-- One round of its loop. -/
def invoke (seg : Segment Thread Key Callback) (caller : Caller)
    (callbacks : AList (fun _ : Key => Callback)) (key : Key) (callback : Callback) :
    Segment Thread Key Callback :=
  { seg with
    pc := .invoking caller (callbacks.erase key)
    invoked := seg.invoked ++ [(caller.index, key, callback)] }

/-! ## `core.c` -/

/-- `_stm_start_transaction`, in a free segment. -/
def start_transaction (seg : Segment Thread Key Callback) (tl : Thread) :
    Segment Thread Key Callback :=
  { seg with
    running_thread := some tl
    transaction_state := .ts_regular
    pc := .running
    registered := fun _ => ∅
    invoked := [] }

/-- `_finish_transaction`. -/
def finish_transaction (seg : Segment Thread Key Callback) : Segment Thread Key Callback :=
  { seg with
    running_thread := none
    transaction_state := .ts_none
    pc := .no_transaction }

/-- What follows `invoke_and_clear_user_callbacks` in its caller. -/
def Caller.return (seg : Segment Thread Key Callback) : Caller → Segment Thread Key Callback
  | .commit => finish_transaction seg
  | .inevitable => { seg with pc := .running }
  | .abort => finish_transaction seg

/-! ## Steps -/

inductive Act (Thread Seg Key Callback : Type) where
  | start_transaction (tl : Thread) (s : Seg)
  | call_on_commit (tl : Thread) (key : Key) (callback : Option Callback)
  | call_on_abort (tl : Thread) (key : Key) (callback : Option Callback)
  | commit_transaction (tl : Thread)
  | become_inevitable (tl : Thread)
  /-- `stm_abort_transaction`, also from a safe point or a conflict -/
  | abort_transaction (tl : Thread)
  /-- the loop reaches this key -/
  | invoke (tl : Thread) (key : Key)
  /-- the loop is done -/
  | continue (tl : Thread)

/-- A step of the library or of the program. The trees must be cleared at the
start of a transaction, and an inevitable transaction cannot abort. -/
def step (st : St Thread Seg Key Callback) :
    Act Thread Seg Key Callback → Outcome (St Thread Seg Key Callback)
  | .start_transaction tl s =>
    if stm_in_transaction st tl then .fault
    else
      match (st.segs s).pc with
      | .no_transaction =>
        if ((st.segs s).callbacks_on_commit_and_abort 0).cleared
            ∧ ((st.segs s).callbacks_on_commit_and_abort 1).cleared then
          .next { st.set s (start_transaction (st.segs s) tl) with
            associated_segment_num := Function.update st.associated_segment_num tl s }
        else .fault
      | _ => .blocked
  | .call_on_commit tl key callback =>
    (Outcome.ofOption (stm_call_on_commit st tl key callback)).bind fun r => .next r.2
  | .call_on_abort tl key callback =>
    (Outcome.ofOption (stm_call_on_abort st tl key callback)).bind fun r => .next r.2
  | .commit_transaction tl =>
    guarded (stm_in_transaction st tl = true)
      (match (st.psegment tl).pc with
      | .running => .next (st.set (st.associated_segment_num tl)
          (invoke_and_clear_user_callbacks (st.psegment tl) .commit))
      | _ => .blocked)
  | .become_inevitable tl =>
    guarded (stm_in_transaction st tl = true)
      (match (st.psegment tl).pc with
      | .running =>
        if (st.psegment tl).transaction_state = .ts_regular then
          .next (st.set (st.associated_segment_num tl) (invoke_and_clear_user_callbacks
            { st.psegment tl with transaction_state := .ts_inevitable } .inevitable))
        else .next st
      | _ => .blocked)
  | .abort_transaction tl =>
    guarded (stm_in_transaction st tl = true)
      (match (st.psegment tl).pc with
      | .running =>
        if (st.psegment tl).transaction_state = .ts_regular then
          .next (st.set (st.associated_segment_num tl)
            (invoke_and_clear_user_callbacks (st.psegment tl) .abort))
        else .fault
      | _ => .blocked)
  | .invoke tl key =>
    guarded (stm_in_transaction st tl = true)
      (match (st.psegment tl).pc with
      | .invoking caller callbacks =>
        match callbacks.lookup key with
        | some callback => .next (st.set (st.associated_segment_num tl)
            (invoke (st.psegment tl) caller callbacks key callback))
        | none => .blocked
      | _ => .blocked)
  | .continue tl =>
    guarded (stm_in_transaction st tl = true)
      (match (st.psegment tl).pc with
      | .invoking caller callbacks =>
        if callbacks.keys = [] then
          .next (st.set (st.associated_segment_num tl) (caller.return (st.psegment tl)))
        else .blocked
      | _ => .blocked)

/-- `stm_setup`. -/
def Initial (st : St Thread Seg Key Callback) : Prop :=
  ∀ s, (st.segs s).running_thread = none ∧ (st.segs s).transaction_state = .ts_none
    ∧ (st.segs s).pc = .no_transaction
    ∧ ∀ index, ((st.segs s).callbacks_on_commit_and_abort index).cleared = true

end Functions

/-! ## What is invoked -/

section Exact

variable {Thread Seg Key Callback : Type} [DecidableEq Thread] [DecidableEq Seg]
  [DecidableEq Key]

/-- The items of a tree as calls of the loop. -/
def calls (index : Fin 2) (callbacks : AList (fun _ : Key => Callback)) :
    List (Fin 2 × Key × Callback) :=
  callbacks.entries.map (fun item => (index, item.1, item.2))

/-- What has been invoked in a transaction, together with what the loop still
has to go through, is what is registered for the way in which it ends. Between
two transactions nothing is left. -/
def Exact (seg : Segment Thread Key Callback) : Prop :=
  match seg.pc with
  | .no_transaction =>
    ∀ index, (seg.callbacks_on_commit_and_abort index).cleared = true
  | .running =>
    seg.invoked.Perm
      (if seg.transaction_state = .ts_inevitable then calls 0 (seg.registered 0) else [])
  | .invoking caller callbacks =>
    (seg.invoked ++ calls caller.index callbacks).Perm
      (calls caller.index (seg.registered caller.index))

/-- A callback registers another one while the loop runs at the end of a
transaction that is not inevitable. -/
def registers_late (st : St Thread Seg Key Callback) : Act Thread Seg Key Callback → Bool
  | .call_on_commit tl _ (some _) | .call_on_abort tl _ (some _) =>
    match (st.psegment tl).pc with
    | .invoking .. =>
      stm_in_transaction st tl && decide ((st.psegment tl).transaction_state ≠ .ts_inevitable)
    | _ => false
  | _ => false

/-- Outside of a running regular transaction the trees are cleared, and inside
they hold what is registered. -/
structure SegInv (seg : Segment Thread Key Callback) : Prop where
  exact : Exact seg
  idle : seg.pc = .no_transaction → seg.running_thread = none
  started : seg.pc = .running → seg.transaction_state ≠ .ts_none
  regular : seg.pc = .running → seg.transaction_state = .ts_regular →
    ∀ index, (seg.callbacks_on_commit_and_abort index).items = seg.registered index
  cleared : (seg.pc = .running → seg.transaction_state = .ts_inevitable) →
    ∀ index, (seg.callbacks_on_commit_and_abort index).cleared = true
  inevitable : ∀ callbacks, seg.pc = .invoking .inevitable callbacks →
    seg.transaction_state = .ts_inevitable

variable {seg : Segment Thread Key Callback} {index : Fin 2}

/-- One round of the loop. -/
theorem calls_erase {callbacks : AList (fun _ : Key => Callback)} {key : Key}
    {callback : Callback} (h : callbacks.lookup key = some callback) :
    (calls index callbacks).Perm ((index, key, callback) :: calls index (callbacks.erase key)) := by
  have hmem : (⟨key, callback⟩ : Sigma fun _ : Key => Callback) ∈ callbacks.entries :=
    AList.mem_lookup_iff.mp h
  obtain ⟨callback', l₁, l₂, -, hentries, herase⟩ :=
    List.exists_of_kerase (List.mem_keys_of_mem hmem)
  have heq : callback' = callback := by
    have hmem' : (⟨key, callback'⟩ : Sigma fun _ : Key => Callback) ∈ callbacks.entries := by
      rw [hentries]
      exact List.mem_append_right _ List.mem_cons_self
    have hlookup : callbacks.lookup key = some callback' := AList.mem_lookup_iff.mpr hmem'
    rw [h, Option.some.injEq] at hlookup
    exact hlookup.symm
  have hperm : callbacks.entries.Perm (⟨key, callback⟩ :: (callbacks.erase key).entries) := by
    change callbacks.entries.Perm (⟨key, callback⟩ :: callbacks.entries.kerase key)
    rw [herase, hentries, heq]
    exact List.perm_middle
  exact hperm.map (fun item => (index, item.1, item.2))

theorem Caller.index_ne (caller : Caller) (index : Fin 2) :
    index = caller.index ∨ index = 1 - caller.index := by
  revert index
  cases caller <;> decide

omit [DecidableEq Key] in
theorem calls_of_keys {callbacks : AList (fun _ : Key => Callback)} (h : callbacks.keys = []) :
    calls index callbacks = [] := by
  unfold calls
  rw [List.map_eq_nil_iff]
  exact List.map_eq_nil_iff.mp h

omit [DecidableEq Key] in
theorem tree_items_of_cleared {tree : tree_s Key Callback} (h : tree.cleared = true) :
    calls index tree.items = [] := by
  rw [tree.empty_of_cleared h]
  rfl

omit [DecidableEq Thread] [DecidableEq Key] in
/-- The transaction begins to end, or turns inevitable, with what is registered
in the tree of the caller. -/
theorem SegInv.invoke_and_clear {caller : Caller}
    (hexact : (seg.invoked ++ calls caller.index
        (seg.callbacks_on_commit_and_abort caller.index).items).Perm
      (calls caller.index (seg.registered caller.index)))
    (hstate : caller = .inevitable → seg.transaction_state = .ts_inevitable) :
    SegInv (invoke_and_clear_user_callbacks seg caller) := by
  have hne : caller.index ≠ 1 - caller.index := by cases caller <;> decide
  -- the other tree is cleared, and the one of the caller is the same as before
  generalize hseg' : (if (seg.callbacks_on_commit_and_abort (1 - caller.index)).cleared then seg
    else seg.set_callbacks (1 - caller.index) tree_create) = seg'
  have hother : (seg'.callbacks_on_commit_and_abort (1 - caller.index)).cleared = true := by
    rw [← hseg']
    split
    · rename_i hcleared
      exact hcleared
    · unfold Segment.set_callbacks
      dsimp only
      rw [Function.update_self]
      rfl
  have hsame : seg'.callbacks_on_commit_and_abort caller.index
        = seg.callbacks_on_commit_and_abort caller.index
      ∧ seg'.invoked = seg.invoked ∧ seg'.registered = seg.registered
      ∧ seg'.transaction_state = seg.transaction_state := by
    rw [← hseg']
    split
    · exact ⟨rfl, rfl, rfl, rfl⟩
    · exact ⟨Function.update_of_ne hne _ _, rfl, rfl, rfl⟩
  obtain ⟨htree, hinvoked, hregistered, hsame_state⟩ := hsame
  have hresult : invoke_and_clear_user_callbacks seg caller =
      if (seg'.callbacks_on_commit_and_abort caller.index).cleared then
        { seg' with pc := .invoking caller ∅ }
      else { seg'.set_callbacks caller.index tree_create with
        pc := .invoking caller (seg'.callbacks_on_commit_and_abort caller.index).items } := by
    rw [← hseg']
    rfl
  rw [hresult]
  rw [← hinvoked, ← hregistered, ← htree] at hexact
  rw [← hsame_state] at hstate
  have hinevitable : ∀ {rest callbacks : AList (fun _ : Key => Callback)},
      Pc.invoking caller rest = Pc.invoking .inevitable callbacks →
      seg'.transaction_state = .ts_inevitable := by
    intro rest callbacks hpc
    rw [Pc.invoking.injEq] at hpc
    exact hstate hpc.1
  split
  · rename_i hcleared
    rw [tree_items_of_cleared hcleared] at hexact
    refine ⟨hexact, nofun, nofun, nofun, fun _ i => ?_, fun _ => hinevitable⟩
    rcases caller.index_ne i with rfl | rfl
    · exact hcleared
    · exact hother
  · refine ⟨hexact, nofun, nofun, nofun, fun _ i => ?_, fun _ => hinevitable⟩
    unfold Segment.set_callbacks
    dsimp only
    rcases caller.index_ne i with rfl | rfl
    · rw [Function.update_self]
      rfl
    · rw [Function.update_of_ne hne.symm]
      exact hother

omit [DecidableEq Thread] in
theorem SegInv.invoke (h : SegInv seg) {caller : Caller}
    {callbacks : AList (fun _ : Key => Callback)} (hpc : seg.pc = .invoking caller callbacks)
    {key : Key} {callback : Callback} (hkey : callbacks.lookup key = some callback) :
    SegInv (invoke seg caller callbacks key callback) := by
  have hexact := h.exact
  unfold Exact at hexact
  rw [hpc] at hexact
  refine ⟨?_, nofun, nofun, nofun, fun _ => h.cleared (by rw [hpc]; nofun), fun rest hrest => ?_⟩
  · change (seg.invoked ++ [(caller.index, key, callback)]
      ++ calls caller.index (callbacks.erase key)).Perm _
    rw [List.append_assoc]
    exact ((calls_erase hkey).symm.append_left seg.invoked).trans hexact
  · unfold Callbacks.invoke at hrest
    rw [Pc.invoking.injEq] at hrest
    exact h.inevitable callbacks (hrest.1 ▸ hpc)

omit [DecidableEq Thread] [DecidableEq Key] in
/-- The loop is done. -/
theorem SegInv.returns (h : SegInv seg) {caller : Caller}
    {callbacks : AList (fun _ : Key => Callback)} (hpc : seg.pc = .invoking caller callbacks)
    (hkeys : callbacks.keys = []) : SegInv (caller.return seg) := by
  have hcleared := h.cleared (by rw [hpc]; nofun)
  have hfinish : SegInv (finish_transaction seg) :=
    ⟨hcleared, fun _ => rfl, nofun, nofun, fun _ => hcleared, nofun⟩
  cases caller with
  | commit => exact hfinish
  | abort => exact hfinish
  | inevitable =>
      have hexact := h.exact
      unfold Exact at hexact
      rw [hpc] at hexact
      have hinev := h.inevitable callbacks hpc
      have hnone : calls (0 : Fin 2) callbacks = [] := calls_of_keys hkeys
      refine ⟨?_, nofun, ?_, ?_, fun _ => hcleared, nofun⟩
      · change seg.invoked.Perm
          (if seg.transaction_state = .ts_inevitable then calls 0 (seg.registered 0) else [])
        rw [if_pos hinev]
        change (seg.invoked ++ calls 0 callbacks).Perm _ at hexact
        rw [hnone, List.append_nil] at hexact
        exact hexact
      · intro _
        change seg.transaction_state ≠ _
        rw [hinev]
        nofun
      · intro _ hreg
        change seg.transaction_state = _ at hreg
        rw [hinev] at hreg
        cases hreg

omit [DecidableEq Thread] [DecidableEq Key] in
/-- A change of one tree of a running regular transaction, and of what is
registered. -/
theorem SegInv.record (h : SegInv seg) (hpc : seg.pc = .running)
    (hstate : seg.transaction_state = .ts_regular) {tree : tree_s Key Callback}
    {f : AList (fun _ : Key => Callback) → AList (fun _ : Key => Callback)}
    (htree : tree.items = f (seg.callbacks_on_commit_and_abort index).items) :
    SegInv ((seg.set_callbacks index tree).record index f) := by
  have hrecord : (seg.set_callbacks index tree).record index f =
      { seg with
        callbacks_on_commit_and_abort :=
          Function.update seg.callbacks_on_commit_and_abort index tree
        registered := Function.update seg.registered index (f (seg.registered index)) } := by
    unfold Segment.record Segment.set_callbacks
    dsimp only
    rw [hpc]
  have hexact := h.exact
  unfold Exact at hexact
  rw [hpc] at hexact
  dsimp only at hexact
  rw [hrecord]
  refine ⟨?_, ?_, ?_, ?_, ?_, ?_⟩
  · unfold Exact
    dsimp only
    rw [hpc]
    dsimp only
    rw [hstate] at hexact ⊢
    exact hexact
  · exact h.idle
  · exact h.started
  · intro _ _ i
    dsimp only
    by_cases hi : i = index
    · rw [hi, Function.update_self, Function.update_self, htree, h.regular hpc hstate]
    · rw [Function.update_of_ne hi, Function.update_of_ne hi]
      exact h.regular hpc hstate i
  · intro himp
    have := himp hpc
    rw [hstate] at this
    cases this
  · intro callbacks hinvoking
    rw [hpc] at hinvoking
    cases hinvoking

/-! ## Runs -/

variable {st st' : St Thread Seg Key Callback} {a : Act Thread Seg Key Callback} {tl : Thread}

omit [DecidableEq Thread] [DecidableEq Key] in
theorem segInv_set (h : ∀ s, SegInv (st.segs s)) {s : Seg} (hseg : SegInv seg) (u : Seg) :
    SegInv ((st.set s seg).segs u) := by
  unfold St.set
  dsimp only
  by_cases hus : u = s
  · rw [hus, Function.update_self]
    exact hseg
  · rw [Function.update_of_ne hus]
    exact h u

theorem SegInv.register_callbacks (h : ∀ s, SegInv (st.segs s)) {key : Key}
    {callback : Option Callback} {result : ℤ}
    (hlate : callback.isSome = true → ∀ caller callbacks,
      (st.psegment tl).pc = .invoking caller callbacks → stm_in_transaction st tl = true →
      (st.psegment tl).transaction_state = .ts_inevitable)
    (hr : register_callbacks st tl key callback index = some (result, st')) :
    ∀ s, SegInv (st'.segs s) := by
  have hseg : SegInv (st.psegment tl) := h _
  unfold Callbacks.register_callbacks at hr
  dsimp only at hr
  by_cases hin : stm_in_transaction st tl = false
  · rw [if_pos hin, Option.some.injEq, Prod.mk.injEq] at hr
    exact hr.2 ▸ h
  rw [if_neg hin] at hr
  by_cases hinev : (st.psegment tl).transaction_state = .ts_inevitable
  · rw [if_pos hinev, Option.some.injEq, Prod.mk.injEq] at hr
    exact hr.2 ▸ h
  rw [if_neg hinev] at hr
  rw [Bool.not_eq_false] at hin
  cases hpc : (st.psegment tl).pc with
  | no_transaction =>
      have hidle := hseg.idle hpc
      unfold stm_in_transaction at hin
      rw [hidle] at hin
      cases hin
  | running =>
      have hreg : (st.psegment tl).transaction_state = .ts_regular := by
        have hstarted := hseg.started hpc
        cases hstate : (st.psegment tl).transaction_state with
        | ts_none => exact absurd hstate hstarted
        | ts_regular => rfl
        | ts_inevitable => exact absurd hstate hinev
      cases callback with
      | none =>
          dsimp only at hr
          rw [Option.some.injEq, Prod.mk.injEq] at hr
          rw [← hr.2]
          apply segInv_set h
          apply hseg.record hpc hreg
          unfold tree_delete_item
          split
          · rfl
          · rename_i hmem
            exact (AList.ext (List.kerase_of_notMem_keys hmem)).symm
      | some callback =>
          dsimp only at hr
          unfold tree_insert at hr
          split at hr
          · cases hr
          · rename_i tree hinsert
            rw [Option.some.injEq, Prod.mk.injEq] at hr
            rw [← hr.2]
            apply segInv_set h
            apply hseg.record hpc hreg
            split at hinsert
            · cases hinsert
            · rw [Option.some.injEq] at hinsert
              rw [← hinsert]
  | invoking caller callbacks =>
      cases callback with
      | some callback => exact absurd (hlate rfl caller callbacks hpc hin) hinev
      | none =>
          -- both trees are cleared, so there is nothing to unregister
          have hempty := ((st.psegment tl).callbacks_on_commit_and_abort index).empty_of_cleared
            (hseg.cleared (by rw [hpc]; nofun) index)
          dsimp only at hr
          have hdelete : tree_delete_item ((st.psegment tl).callbacks_on_commit_and_abort index)
              key = (false, (st.psegment tl).callbacks_on_commit_and_abort index) := by
            unfold tree_delete_item
            rw [if_neg]
            rw [hempty]
            exact AList.notMem_empty key
          rw [hdelete, Option.some.injEq, Prod.mk.injEq] at hr
          rw [← hr.2]
          apply segInv_set h
          have hsame : ((st.psegment tl).set_callbacks index
              ((st.psegment tl).callbacks_on_commit_and_abort index)).record index
                (AList.erase key) = st.psegment tl := by
            unfold Segment.record
            split
            · rename_i hrunning
              rw [Segment.set_callbacks, hpc] at hrunning
              cases hrunning
            · unfold Segment.set_callbacks
              rw [Function.update_eq_self]
          rw [hsame]
          exact hseg

theorem segInv_step (h : ∀ s, SegInv (st.segs s)) (hok : registers_late st a = false)
    (hs : step st a = .next st') : ∀ s, SegInv (st'.segs s) := by
  cases a with
  | start_transaction tl s =>
      simp only [step] at hs
      split at hs
      · cases hs
      · split at hs
        · split at hs
          · rename_i hcleared
            rw [Outcome.next.injEq] at hs
            rw [← hs]
            have hseg : SegInv (start_transaction (st.segs s) tl) := by
              refine ⟨List.Perm.refl [], nofun, nofun, fun _ _ index => ?_, fun himp => ?_, nofun⟩
              · change ((st.segs s).callbacks_on_commit_and_abort index).items = ∅
                apply tree_s.empty_of_cleared
                rcases Caller.commit.index_ne index with rfl | rfl
                · exact hcleared.1
                · exact hcleared.2
              · exact nomatch himp rfl
            exact segInv_set h hseg
          · cases hs
        · cases hs
  | call_on_commit tl key callback =>
      obtain ⟨⟨result, st₁⟩, hcall, hst⟩ := Outcome.bind_eq_next.mp hs
      rw [Outcome.ofOption_eq_next] at hcall
      rw [Outcome.next.injEq] at hst
      rw [← hst]
      unfold stm_call_on_commit at hcall
      split at hcall
      · cases hcall
      · rename_i result₀ st₀ hregister
        have hinv : ∀ s, SegInv (st₀.segs s) := by
          apply SegInv.register_callbacks h _ hregister
          intro hsome caller callbacks hpc hin
          obtain ⟨callback, rfl⟩ := Option.isSome_iff_exists.mp hsome
          simpa [registers_late, hpc, hin] using hok
        split at hcall
        · split at hcall
          · rw [Option.some.injEq, Prod.mk.injEq] at hcall
            exact hcall.2 ▸ hinv
          · rw [Option.some.injEq, Prod.mk.injEq] at hcall
            exact hcall.2 ▸ hinv
        · rw [Option.some.injEq, Prod.mk.injEq] at hcall
          exact hcall.2 ▸ hinv
  | call_on_abort tl key callback =>
      obtain ⟨⟨result, st₁⟩, hcall, hst⟩ := Outcome.bind_eq_next.mp hs
      rw [Outcome.ofOption_eq_next] at hcall
      rw [Outcome.next.injEq] at hst
      rw [← hst]
      apply SegInv.register_callbacks h _ hcall
      intro hsome caller callbacks hpc hin
      obtain ⟨callback, rfl⟩ := Option.isSome_iff_exists.mp hsome
      simpa [registers_late, hpc, hin] using hok
  | commit_transaction tl =>
      obtain ⟨-, hs⟩ := guarded_eq_next.mp hs
      have hseg : SegInv (st.psegment tl) := h _
      split at hs
      · rename_i hpc
        rw [Outcome.next.injEq] at hs
        rw [← hs]
        apply segInv_set h
        refine SegInv.invoke_and_clear ?_ nofun
        have hexact := hseg.exact
        unfold Exact at hexact
        rw [hpc] at hexact
        dsimp only at hexact
        split at hexact
        · -- the callbacks have been invoked when it turned inevitable
          rename_i hinev
          have hcleared := hseg.cleared (fun _ => hinev) 0
          rw [Caller.index, tree_items_of_cleared hcleared, List.append_nil]
          exact hexact
        · rename_i hinev
          have hreg : (st.psegment tl).transaction_state = .ts_regular := by
            have hstarted := hseg.started hpc
            cases hstate : (st.psegment tl).transaction_state with
            | ts_none => exact absurd hstate hstarted
            | ts_regular => rfl
            | ts_inevitable => exact absurd hstate hinev
          rw [List.perm_nil.mp hexact, hseg.regular hpc hreg, List.nil_append]
      · cases hs
  | become_inevitable tl =>
      obtain ⟨-, hs⟩ := guarded_eq_next.mp hs
      have hseg : SegInv (st.psegment tl) := h _
      split at hs
      · rename_i hpc
        split at hs
        · rename_i hreg
          rw [Outcome.next.injEq] at hs
          rw [← hs]
          apply segInv_set h
          refine SegInv.invoke_and_clear ?_ (fun _ => rfl)
          have hexact := hseg.exact
          unfold Exact at hexact
          rw [hpc, hreg] at hexact
          rw [List.perm_nil.mp hexact, hseg.regular hpc hreg, List.nil_append]
        · rw [Outcome.next.injEq] at hs
          exact hs ▸ h
      · cases hs
  | abort_transaction tl =>
      obtain ⟨-, hs⟩ := guarded_eq_next.mp hs
      have hseg : SegInv (st.psegment tl) := h _
      split at hs
      · rename_i hpc
        split at hs
        · rename_i hreg
          rw [Outcome.next.injEq] at hs
          rw [← hs]
          apply segInv_set h
          refine SegInv.invoke_and_clear ?_ nofun
          have hexact := hseg.exact
          unfold Exact at hexact
          rw [hpc, hreg] at hexact
          rw [List.perm_nil.mp hexact, hseg.regular hpc hreg, List.nil_append]
        · cases hs
      · cases hs
  | invoke tl key =>
      obtain ⟨-, hs⟩ := guarded_eq_next.mp hs
      split at hs
      · rename_i caller callbacks hpc
        split at hs
        · rename_i callback hkey
          rw [Outcome.next.injEq] at hs
          rw [← hs]
          exact segInv_set h ((h _).invoke hpc hkey)
        · cases hs
      · cases hs
  | «continue» tl =>
      obtain ⟨-, hs⟩ := guarded_eq_next.mp hs
      split at hs
      · rename_i caller callbacks hpc
        split at hs
        · rename_i hkeys
          rw [Outcome.next.injEq] at hs
          rw [← hs]
          exact segInv_set h ((h _).returns hpc hkeys)
        · cases hs
      · cases hs

omit [DecidableEq Thread] [DecidableEq Seg] [DecidableEq Key] in
theorem segInv_init (h : Initial st) (s : Seg) : SegInv (st.segs s) := by
  obtain ⟨hthread, hstate, hpc, hcleared⟩ := h s
  refine ⟨?_, fun _ => hthread, ?_, ?_, fun _ => hcleared, ?_⟩
  · unfold Exact
    rw [hpc]
    exact hcleared
  · rw [hpc]
    nofun
  · rw [hpc]
    nofun
  · rw [hpc]
    nofun

/-- **Each registered callback runs once, and no other.** In every run in which
no callback registers another one while a transaction that is not inevitable
ends: what the loop has run and has still to run is what is registered for the
way in which the transaction ends, so that it has run exactly this when it is
done, and no registration outlives the transaction. -/
theorem callbacks_exact
    (h : ReachableIf Initial step (fun st a => registers_late st a = false) st) :
    (∀ s, Exact (st.segs s))
      ∧ ∀ tl st' caller callbacks, step st (.continue tl) = .next st' →
        (st.psegment tl).pc = .invoking caller callbacks →
        (st.psegment tl).invoked.Perm
          (calls caller.index ((st.psegment tl).registered caller.index)) := by
  have hinv : ∀ s, SegInv (st.segs s) :=
    h.invariant (fun _ h0 => segInv_init h0) (fun _ _ _ hinv hok hs => segInv_step hinv hok hs)
  refine ⟨fun s => (hinv s).exact, fun tl st' caller callbacks hs hpc => ?_⟩
  have hexact : Exact (st.psegment tl) := (hinv _).exact
  unfold Exact at hexact
  rw [hpc] at hexact
  obtain ⟨-, hs⟩ := guarded_eq_next.mp hs
  rw [hpc] at hs
  dsimp only at hexact hs
  split at hs
  · rename_i hkeys
    rw [calls_of_keys hkeys, List.append_nil] at hexact
    exact hexact
  · cases hs

end Exact

/-! ## A registration that outlives its transaction -/

/-- One thread and one segment. -/
def oneSegment : St Unit Unit ℕ ℕ where
  segs := fun _ =>
    { running_thread := none
      transaction_state := .ts_none
      callbacks_on_commit_and_abort := fun _ => tree_create
      pc := .no_transaction
      registered := fun _ => ∅
      invoked := [] }
  associated_segment_num := fun _ => ()
  immediate := []

theorem oneSegment_initial : Initial oneSegment := fun _ => ⟨rfl, rfl, rfl, fun _ => rfl⟩

/-- A callback on commit that registers one on abort. -/
def registersOther : List (Act Unit Unit ℕ ℕ) :=
  [.start_transaction () (), .call_on_commit () 8 (some 1), .commit_transaction (),
    .invoke () 8, .call_on_abort () 16 (some 2), .continue ()]

/-- The registration is still there after the commit. -/
theorem callbacks_not_exact :
    ¬ ∀ (st : St Unit Unit ℕ ℕ), Reachable Initial step st → ∀ s, Exact (st.segs s) := by
  intro hall
  obtain ⟨st, hrun, hpc, hleft⟩ : ∃ st,
      run step (fun _ _ => True) oneSegment registersOther = .next st
        ∧ (st.segs ()).pc = .no_transaction
        ∧ ((st.segs ()).callbacks_on_commit_and_abort 1).cleared = false :=
    ⟨_, rfl, rfl, rfl⟩
  have h0 : Reachable Initial step oneSegment := .start oneSegment_initial
  have hexact := hall st (h0.run _ hrun) ()
  unfold Exact at hexact
  rw [hpc] at hexact
  have hcleared := hexact 1
  rw [hleft] at hcleared
  cases hcleared

/-- The callbacks left when one of two is unregistered, at the end of the loop
of the commit. -/
theorem callbacks_exact_commit :
    ∃ st, run step (fun st a => registers_late st a = false) oneSegment
        [.start_transaction () (), .call_on_commit () 8 (some 1), .call_on_commit () 16 (some 2),
          .call_on_abort () 8 (some 3), .call_on_commit () 8 none, .commit_transaction (),
          .invoke () 16] = .next st ∧ (st.segs ()).invoked = [(0, 16, 2)]
      ∧ Exact (st.segs ()) := by
  have h0 : ReachableIf Initial step (fun st a => registers_late st a = false) oneSegment :=
    .start oneSegment_initial
  refine ⟨_, rfl, rfl, ?_⟩
  exact (callbacks_exact (h0.run
    [.start_transaction () (), .call_on_commit () 8 (some 1), .call_on_commit () 16 (some 2),
      .call_on_abort () 8 (some 3), .call_on_commit () 8 none, .commit_transaction (),
      .invoke () 16] rfl)).1 ()

end Stmgc.C7.Callbacks
