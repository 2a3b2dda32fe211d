/-
What the two searches of `finalizer.c` compute.

`_recursively_bump_finalization_state` adds one to the byte of every object it
can reach from its start through objects of one colour ([`Bumped`],
[`recursively_bump_spec`]). The `pending` loop followed by the bump to state 2
raises everything reachable from an object `x` of state 0: state 0 becomes 2,
and state 2 becomes 3 ([`Raised`], [`mark_one_spec`]). Both are worklist
searches, so both specifications are total: on a finite heap the loops end.
-/
import Stmgc.Lib.Graph
import Stmgc.C7.Finalizer
import Mathlib.Tactic.Linarith

namespace Stmgc.C7

open Stmgc.Lib

/-- A finite heap: its objects, and the references each of them holds, which
stay inside it. -/
structure HeapGraph (Obj : Type) where
  objs : Finset Obj
  refs : Obj → List (Option Obj)
  closed : ∀ a ∈ objs, ∀ b, some b ∈ refs a → b ∈ objs

/-- `a` holds a reference to `b`. -/
def HeapGraph.Edge {Obj : Type} (H : HeapGraph Obj) (a b : Obj) : Prop := some b ∈ H.refs a

theorem HeapGraph.mem_of_reach {Obj : Type} (H : HeapGraph Obj) {a b : Obj}
    (ha : a ∈ H.objs) (h : Reach H.Edge a b) : b ∈ H.objs :=
  reach_closed (C := fun o => o ∈ H.objs) h ha (fun x y hx hxy => H.closed x hx y hxy)

section Search

variable {Obj : Type} {H : HeapGraph Obj}

/-! ## `finalizer_trace` -/

theorem finalizer_trace_eq (trace : Obj → List (Option Obj)) (obj : Obj) (lst : List Obj) :
    finalizer_trace trace obj lst = lst ++ (trace obj).filterMap id := by
  unfold finalizer_trace
  generalize trace obj = refs
  induction refs generalizing lst with
  | nil => simp
  | cons r refs ih =>
      rw [List.foldl_cons, ih]
      cases r with
      | none => simp [append_to_finalizer_tmpstack]
      | some o => simp [append_to_finalizer_tmpstack, list_append]

theorem mem_finalizer_trace {trace : Obj → List (Option Obj)} {obj o : Obj} {lst : List Obj} :
    o ∈ finalizer_trace trace obj lst ↔ o ∈ lst ∨ some o ∈ trace obj := by
  rw [finalizer_trace_eq, List.mem_append, List.mem_filterMap]
  simp

theorem length_finalizer_trace_le (trace : Obj → List (Option Obj)) (obj : Obj)
    (lst : List Obj) :
    (finalizer_trace trace obj lst).length ≤ lst.length + (trace obj).length := by
  rw [finalizer_trace_eq, List.length_append]
  exact Nat.add_le_add_left (List.length_filterMap_le _ _) _

theorem finalization_state_eq_iff {wl : Obj → ℕ} {o : Obj} {L : ℕ} {s : ℤ}
    (hs : s = (L : ℤ) - 252) : finalization_state wl o = s ↔ wl o = L := by
  unfold finalization_state WL_FINALIZ_ORDER_1
  omega

/-! ## `_recursively_bump_finalization_state` -/

/-- Every object joined to `x` inside the colour `L` has its byte raised to
`L + 1`, and no other byte changes. -/
def Bumped (H : HeapGraph Obj) (L : ℕ) (x : Obj) (wl wl' : Obj → ℕ) : Prop :=
  ∀ o, (PathIn H.Edge (fun o => wl o = L) x o → wl' o = L + 1)
    ∧ (¬ PathIn H.Edge (fun o => wl o = L) x o → wl' o = wl o)

/-- The loop invariant: what is raised is joined to `x`, and what is joined to
`x` is raised, or waits in `work`, or lies behind something that waits. -/
structure BumpInv (H : HeapGraph Obj) (L : ℕ) (x : Obj) (wl wl' : Obj → ℕ)
    (work : List Obj) : Prop where
  changed : ∀ o, wl' o = wl o
    ∨ (PathIn H.Edge (fun o => wl o = L) x o ∧ wl' o = L + 1)
  front : ∀ v w, PathIn H.Edge (fun o => wl o = L) x v → wl' v = L + 1 → H.Edge v w →
    wl w = L → wl' w = L + 1 ∨ w ∈ work
  start : wl x = L → wl' x = L + 1 ∨ x ∈ work
  reach : ∀ w ∈ work, Reach H.Edge x w
    ∧ (wl w = L → PathIn H.Edge (fun o => wl o = L) x w)

theorem BumpInv.init {L : ℕ} {x : Obj} {wl : Obj → ℕ} : BumpInv H L x wl wl [x] where
  changed _ := .inl rfl
  front v w hv hv' _ _ := by
    have := hv.right
    omega
  start _ := .inr (List.mem_singleton.mpr rfl)
  reach w hw := by
    rw [List.mem_singleton] at hw
    subst hw
    exact ⟨.refl, fun h => .refl h⟩

/-- The object taken from the worklist does not have the colour. -/
theorem BumpInv.skip {L : ℕ} {x obj : Obj} {wl wl' : Obj → ℕ} {tmp : List Obj}
    (h : BumpInv H L x wl wl' (tmp ++ [obj])) (hobj : wl' obj ≠ L) :
    BumpInv H L x wl wl' tmp := by
  have hdone : wl obj = L → wl' obj = L + 1 := by
    intro hw
    rcases h.changed obj with hc | hc
    · omega
    · exact hc.2
  have hmove : ∀ w, wl w = L → wl' w = L + 1 ∨ w ∈ tmp ++ [obj] →
      wl' w = L + 1 ∨ w ∈ tmp := by
    intro w hw hor
    rcases hor with hl | hmem
    · exact .inl hl
    · rcases List.mem_append.mp hmem with hm | hm
      · exact .inr hm
      · rw [List.mem_singleton] at hm
        subst hm
        exact .inl (hdone hw)
  refine ⟨h.changed, ?_, fun hx => hmove x hx (h.start hx), ?_⟩
  · intro v w hv hv' hvw hw
    exact hmove w hw (h.front v w hv hv' hvw hw)
  · intro w hw
    exact h.reach w (List.mem_append_left _ hw)

/-- An empty worklist: exactly the joined objects have been raised. -/
theorem BumpInv.finish {L : ℕ} {x : Obj} {wl wl' : Obj → ℕ}
    (h : BumpInv H L x wl wl' []) : Bumped H L x wl wl' := by
  intro o
  constructor
  · intro hpath
    have hV := flood_complete
      (V := fun v => PathIn H.Edge (fun o => wl o = L) x v ∧ wl' v = L + 1) hpath
      (fun hx => ⟨.refl hx, (h.start hx).resolve_right (by simp)⟩)
      (fun v w hv hvw hw => ⟨hv.1.tail hvw hw,
        (h.front v w hv.1 hv.2 hvw hw).resolve_right (by simp)⟩)
    exact hV.2
  · intro hpath
    exact (h.changed o).resolve_right (fun hc => hpath hc.1)

variable [DecidableEq Obj]

/-- The object taken from the worklist has the colour: it is raised, and its
references join the worklist. -/
theorem BumpInv.visit {L : ℕ} {x obj : Obj} {wl wl' : Obj → ℕ} {tmp : List Obj}
    {trace : Obj → List (Option Obj)} (htrace : trace obj = H.refs obj)
    (h : BumpInv H L x wl wl' (tmp ++ [obj])) (hobj : wl' obj = L) :
    BumpInv H L x wl (Function.update wl' obj (wl' obj + 1))
      (finalizer_trace trace obj tmp) := by
  have hwl : wl obj = L := by
    rcases h.changed obj with hc | hc
    · omega
    · omega
  have hpath := (h.reach obj (by simp)).2 hwl
  have hup : ∀ w, Function.update wl' obj (wl' obj + 1) w
      = if w = obj then L + 1 else wl' w := by
    intro w
    rw [Function.update_apply, hobj]
  have hmove : ∀ w, wl' w = L + 1 ∨ w ∈ tmp ++ [obj] →
      Function.update wl' obj (wl' obj + 1) w = L + 1 ∨ w ∈ finalizer_trace trace obj tmp := by
    intro w hor
    rw [hup, mem_finalizer_trace]
    by_cases hwo : w = obj
    · exact .inl (if_pos hwo)
    · rw [if_neg hwo]
      rcases hor with hl | hmem
      · exact .inl hl
      · rcases List.mem_append.mp hmem with hm | hm
        · exact .inr (.inl hm)
        · exact absurd (List.mem_singleton.mp hm) hwo
  refine ⟨?_, ?_, fun hx => hmove x (h.start hx), ?_⟩
  · intro o
    rw [hup]
    by_cases ho : o = obj
    · subst ho
      exact .inr ⟨hpath, if_pos rfl⟩
    · rw [if_neg ho]
      exact h.changed o
  · intro v w hv hv' hvw hw
    by_cases hvo : v = obj
    · subst hvo
      refine .inr (mem_finalizer_trace.mpr (.inr ?_))
      rw [htrace]
      exact hvw
    · rw [hup, if_neg hvo] at hv'
      exact hmove w (h.front v w hv hv' hvw hw)
  · intro w hw
    rcases mem_finalizer_trace.mp hw with hm | hm
    · exact h.reach w (List.mem_append_left _ hm)
    · rw [htrace] at hm
      exact ⟨hpath.reach.tail hm, fun hwL => hpath.tail hm hwL⟩

/-- After the visit of an object both branches pop the next one. -/
theorem BumpInv.pop {L : ℕ} {x obj : Obj} {wl wl' wl'' : Obj → ℕ} {tmp tmp' : List Obj}
    (h : BumpInv H L x wl wl'' tmp')
    (hle : workLeft H.objs (fun o => wl'' o = L) (fun o => (H.refs o).length) + tmp'.length
      ≤ workLeft H.objs (fun o => wl' o = L) (fun o => (H.refs o).length) + tmp.length) :
    Returns (match list_pop_item tmp' with
      | none => some (ControlFlow.done (wl'', tmp'))
      | some (t, o) => some (ControlFlow.cont (wl'', t, o)))
      (Turn (fun s => workLeft H.objs (fun o => s.1 o = L) (fun o => (H.refs o).length) + s.2.1.length)
        (fun s => BumpInv H L x wl s.1 (s.2.1 ++ [s.2.2]))
        (fun r => Bumped H L x wl r.1 ∧ r.2 = []) (wl', tmp, obj)) := by
  cases hp : list_pop_item tmp' with
  | none =>
      have ht : tmp' = [] := list_pop_item_eq_none.mp hp
      rw [ht] at h
      exact returns_some ⟨h.finish, ht⟩
  | some p =>
      obtain ⟨t, o⟩ := p
      have ht := list_pop_item_eq_some hp
      rw [ht] at h hle
      rw [List.length_append, List.length_singleton] at hle
      refine returns_some ⟨h, ?_⟩
      dsimp only
      omega

theorem recursively_bump_spec {trace : Obj → List (Option Obj)} {st : FinalizerState Obj}
    {x : Obj} {L : ℕ} {to_state : ℤ} (hL : to_state = (L : ℤ) - 251) (hx : x ∈ H.objs)
    (htrace : ∀ o, Reach H.Edge x o → trace o = H.refs o) (hempty : st.emptystack = []) :
    Returns (recursively_bump_finalization_state trace st x to_state)
      (fun st' => st'.emptystack = [] ∧ st'.pending = st.pending
        ∧ Bumped H L x st.write_locks st'.write_locks) := by
  unfold recursively_bump_finalization_state
  refine returns_assert hempty ?_
  refine Returns.bind (P := fun r => Bumped H L x st.write_locks r.1 ∧ r.2 = []) ?_ ?_
  · rw [hempty]
    apply loop.spec_decr_nat
      (fun s => workLeft H.objs (fun o => s.1 o = L) (fun o => (H.refs o).length) + s.2.1.length)
      (fun s => BumpInv H L x st.write_locks s.1 (s.2.1 ++ [s.2.2]))
    · rintro ⟨wl', tmp, obj⟩ hinv
      dsimp only at hinv
      have hreach := (hinv.reach obj (by simp)).1
      unfold recursively_bump_body
      by_cases hst : wl' obj = L
      · have hcond : finalization_state wl' obj = to_state - 1 :=
          (finalization_state_eq_iff (by omega)).mpr hst
        simp only [hcond, if_true]
        refine BumpInv.pop (hinv.visit (htrace obj hreach) hst) ?_
        have hwork := workLeft_visit H.objs (fun o => wl' o = L)
          (fun o => Function.update wl' obj (wl' obj + 1) o = L)
          (fun o => (H.refs o).length) (H.mem_of_reach hx hreach) hst
          (by
            intro o
            rw [Function.update_apply]
            by_cases ho : o = obj
            · subst ho
              simp [hst]
            · simp [ho])
        have hlen := length_finalizer_trace_le trace obj tmp
        rw [htrace obj hreach] at hlen
        omega
      · have hcond : ¬ finalization_state wl' obj = to_state - 1 :=
          fun h => hst ((finalization_state_eq_iff (by omega)).mp h)
        simp only [hcond, if_false]
        exact BumpInv.pop (hinv.skip hst) (le_refl _)
    · exact BumpInv.init
  · rintro ⟨wl', tmp⟩ ⟨hb, ht⟩
    exact returns_some ⟨ht, rfl, hb⟩

/-! ## The `pending` loop -/

/-- What holds of the bytes between two objects of the pass: no object is in
state 1, and an object in state 2 or 3 refers only to states at least its
own. -/
structure OrderInv (H : HeapGraph Obj) (wl : Obj → ℕ) : Prop where
  colour : ∀ o, wl o < 253 ∨ wl o = 254 ∨ wl o = 255
  closed2 : ∀ v w, wl v = 254 → H.Edge v w → 254 ≤ wl w
  closed3 : ∀ v w, wl v = 255 → H.Edge v w → wl w = 255

/-- Everything reachable from `x` is raised: state 0 to the state of byte `m`,
state 2 to 3. No other byte changes. -/
def Raised (H : HeapGraph Obj) (m : ℕ) (x : Obj) (wl wl' : Obj → ℕ) : Prop :=
  ∀ o, (Reach H.Edge x o → (wl o < 253 → wl' o = m) ∧ (254 ≤ wl o → wl' o = 255))
    ∧ (¬ Reach H.Edge x o → wl' o = wl o)

/-- The loop invariant. An object in state 1 has its references in states 1
or 3, or waiting in `pending`; state 3 stays closed because each time an
object of state 2 is met, everything of state 2 behind it is raised too. -/
structure PendingInv (H : HeapGraph Obj) (x : Obj) (wl wl' : Obj → ℕ)
    (pending : List Obj) : Prop where
  changed : ∀ o, wl' o = wl o ∨ (Reach H.Edge x o ∧ wl o < 253 ∧ wl' o = 253)
    ∨ (Reach H.Edge x o ∧ wl o = 254 ∧ wl' o = 255)
  closed : ∀ v w, wl' v = 255 → H.Edge v w → wl' w = 255
  front : ∀ v w, wl' v = 253 → H.Edge v w → wl' w = 253 ∨ wl' w = 255 ∨ w ∈ pending
  start : wl' x = 253 ∨ wl' x = 255 ∨ x ∈ pending
  reach : ∀ w ∈ pending, Reach H.Edge x w

omit [DecidableEq Obj] in
theorem PendingInv.init {x : Obj} {wl : Obj → ℕ} (ho : OrderInv H wl) :
    PendingInv H x wl wl [x] where
  changed _ := .inl rfl
  closed := ho.closed3
  front v _ hv _ := by
    have := ho.colour v
    omega
  start := .inr (.inr (List.mem_singleton.mpr rfl))
  reach w hw := by
    rw [List.mem_singleton] at hw
    rw [hw]

omit [DecidableEq Obj] in
/-- `y` is already in state 1 or 3. -/
theorem PendingInv.skip {x y : Obj} {wl wl' : Obj → ℕ} {pending : List Obj}
    (h : PendingInv H x wl wl' (pending ++ [y])) (hy : wl' y = 253 ∨ wl' y = 255) :
    PendingInv H x wl wl' pending := by
  have hmove : ∀ w, wl' w = 253 ∨ wl' w = 255 ∨ w ∈ pending ++ [y] →
      wl' w = 253 ∨ wl' w = 255 ∨ w ∈ pending := by
    intro w hor
    by_cases hwy : w = y
    · subst hwy
      tauto
    · simpa [hwy] using hor
  refine ⟨h.changed, h.closed, fun v w hv hvw => hmove w (h.front v w hv hvw),
    hmove x h.start, ?_⟩
  intro w hw
  exact h.reach w (List.mem_append_left _ hw)

/-- `y` is in state 0: it goes to state 1 and is traced. -/
theorem PendingInv.visit {x y : Obj} {wl wl' : Obj → ℕ} {pending : List Obj}
    {trace : Obj → List (Option Obj)} (htrace : trace y = H.refs y)
    (h : PendingInv H x wl wl' (pending ++ [y])) (hy : wl' y < 253) :
    PendingInv H x wl (Function.update wl' y 253) (finalizer_trace trace y pending) := by
  have hreach : Reach H.Edge x y := h.reach y (by simp)
  have hwl : wl y < 253 := by
    rcases h.changed y with hc | hc | hc
    · omega
    · exact hc.2.1
    · omega
  have hmove : ∀ w, wl' w = 253 ∨ wl' w = 255 ∨ w ∈ pending ++ [y] →
      Function.update wl' y 253 w = 253 ∨ Function.update wl' y 253 w = 255
        ∨ w ∈ finalizer_trace trace y pending := by
    intro w hor
    rw [Function.update_apply, mem_finalizer_trace]
    by_cases hwy : w = y
    · exact .inl (if_pos hwy)
    · rw [if_neg hwy]
      rcases hor with hl | hl | hmem
      · exact .inl hl
      · exact .inr (.inl hl)
      · exact .inr (.inr (.inl (by simpa [hwy] using hmem)))
  refine ⟨?_, ?_, ?_, hmove x h.start, ?_⟩
  · intro o
    rw [Function.update_apply]
    by_cases ho : o = y
    · subst ho
      exact .inr (.inl ⟨hreach, hwl, if_pos rfl⟩)
    · rw [if_neg ho]
      exact h.changed o
  · intro v w hv hvw
    rw [Function.update_apply] at hv ⊢
    by_cases hvy : v = y
    · rw [if_pos hvy] at hv
      omega
    · rw [if_neg hvy] at hv
      have hw := h.closed v w hv hvw
      rw [if_neg (by rintro rfl; omega)]
      exact hw
  · intro v w hv hvw
    by_cases hvy : v = y
    · subst hvy
      refine .inr (.inr (mem_finalizer_trace.mpr (.inr ?_)))
      rw [htrace]
      exact hvw
    · rw [Function.update_apply, if_neg hvy] at hv
      exact hmove w (h.front v w hv hvw)
  · intro w hw
    rcases mem_finalizer_trace.mp hw with hm | hm
    · exact h.reach w (List.mem_append_left _ hm)
    · rw [htrace] at hm
      exact hreach.tail hm

omit [DecidableEq Obj] in
/-- `y` is in state 2: everything of state 2 behind it goes to state 3. -/
theorem PendingInv.bump {x y : Obj} {wl wl' wl'' : Obj → ℕ} {pending : List Obj}
    (ho : OrderInv H wl) (h : PendingInv H x wl wl' (pending ++ [y])) (hy : wl' y = 254)
    (hb : Bumped H 254 y wl' wl'') : PendingInv H x wl wl'' pending := by
  have hreach : Reach H.Edge x y := h.reach y (by simp)
  have hkeep : ∀ o, wl' o ≠ 254 → wl'' o = wl' o :=
    fun o hne => (hb o).2 (fun hp => hne hp.right)
  have hor : ∀ o, wl'' o = wl' o
      ∨ (PathIn H.Edge (fun o => wl' o = 254) y o ∧ wl' o = 254 ∧ wl'' o = 255) := by
    intro o
    by_cases hp : PathIn H.Edge (fun o => wl' o = 254) y o
    · exact .inr ⟨hp, hp.right, (hb o).1 hp⟩
    · exact .inl ((hb o).2 hp)
  have hold : ∀ o, wl' o = 254 → wl o = 254 := by
    intro o h254
    rcases h.changed o with hc | hc | hc <;> omega
  have hmove : ∀ w, wl' w = 253 ∨ wl' w = 255 ∨ w ∈ pending ++ [y] →
      wl'' w = 253 ∨ wl'' w = 255 ∨ w ∈ pending := by
    intro w hw
    by_cases hwy : w = y
    · rw [hwy]
      exact .inr (.inl ((hb y).1 (.refl hy)))
    · rcases hw with hw | hw | hw
      · exact .inl (by rw [hkeep w (by omega)]; exact hw)
      · exact .inr (.inl (by rw [hkeep w (by omega)]; exact hw))
      · exact .inr (.inr (by simpa [hwy] using hw))
  refine ⟨?_, ?_, ?_, hmove x h.start, ?_⟩
  · intro o
    rcases hor o with heq | ⟨hp, h254, h255⟩
    · rw [heq]
      exact h.changed o
    · exact .inr (.inr ⟨hreach.trans hp.reach, hold o h254, h255⟩)
  · intro v w hv hvw
    rcases hor v with heq | ⟨hp, h254, -⟩
    · have hw := h.closed v w (heq ▸ hv) hvw
      rw [hkeep w (by omega)]
      exact hw
    · -- the source of the edge was raised just now, so it was in state 2 before
      have hw := ho.closed2 v w (hold v h254) hvw
      by_cases hw' : wl' w = 254
      · exact (hb w).1 (hp.tail hvw hw')
      · rw [hkeep w hw']
        have := ho.colour w
        rcases h.changed w with hc | hc | hc <;> omega
  · intro v w hv hvw
    rcases hor v with heq | ⟨-, -, h255⟩
    · exact hmove w (h.front v w (heq ▸ hv) hvw)
    · omega
  · intro w hw
    exact h.reach w (List.mem_append_left _ hw)

omit [DecidableEq Obj] in
/-- `pending` is empty: everything reachable from `x` is in state 1 or 3. -/
theorem PendingInv.finish {x : Obj} {wl wl' : Obj → ℕ} (h : PendingInv H x wl wl' []) :
    Raised H 253 x wl wl' := by
  intro o
  constructor
  · intro hreach
    have hend : wl' o = 253 ∨ wl' o = 255 := by
      refine reach_closed (C := fun o => wl' o = 253 ∨ wl' o = 255) hreach ?_ ?_
      · simpa using h.start
      · intro v w hv hvw
        rcases hv with hv | hv
        · simpa using h.front v w hv hvw
        · exact .inr (h.closed v w hv hvw)
    rcases h.changed o with hc | hc | hc <;> constructor <;> omega
  · intro hreach
    rcases h.changed o with hc | hc | hc
    · exact hc
    · exact absurd hc.1 hreach
    · exact absurd hc.1 hreach

theorem mark_finalize_pending_spec {trace : Obj → List (Option Obj)} {x : Obj}
    (st : FinalizerState Obj) (hx : x ∈ H.objs) (htrace : ∀ o, Reach H.Edge x o → trace o = H.refs o)
    (hempty : st.emptystack = []) (hpending : st.pending = [x])
    (ho : OrderInv H st.write_locks) :
    Returns (loop (mark_finalize_pending_body trace) st)
      (fun st' => st'.emptystack = [] ∧ st'.pending = []
        ∧ Raised H 253 x st.write_locks st'.write_locks) := by
  apply loop.spec_decr_nat
    (fun s => workLeft H.objs (fun o => s.write_locks o < 253) (fun o => (H.refs o).length)
      + s.pending.length)
    (fun s => s.emptystack = [] ∧ PendingInv H x st.write_locks s.write_locks s.pending)
  · rintro ⟨wl', emptystack, pend⟩ ⟨hes, hinv⟩
    dsimp only at hes hinv
    unfold mark_finalize_pending_body
    cases hp : list_pop_item pend with
    | none =>
        have hnil : pend = [] := list_pop_item_eq_none.mp hp
        subst hnil
        exact returns_some ⟨hes, rfl, hinv.finish⟩
    | some p =>
        obtain ⟨pending, y⟩ := p
        have happ := list_pop_item_eq_some hp
        subst happ
        have hreach := hinv.reach y (by simp)
        have hcolour : wl' y < 253 ∨ wl' y = 253 ∨ wl' y = 254 ∨ wl' y = 255 := by
          have := ho.colour y
          rcases hinv.changed y with hc | hc | hc <;> omega
        have h0 : finalization_state wl' y ≤ 0 ↔ wl' y < 253 := by
          unfold finalization_state WL_FINALIZ_ORDER_1
          omega
        have h2 : finalization_state wl' y = 2 ↔ wl' y = 254 :=
          finalization_state_eq_iff (by omega)
        dsimp only
        by_cases hy0 : wl' y < 253
        · have hwork := workLeft_visit H.objs (fun o => wl' o < 253)
            (fun o => Function.update wl' y 253 o < 253)
            (fun o => (H.refs o).length) (H.mem_of_reach hx hreach) hy0
            (by
              intro o
              rw [Function.update_apply]
              by_cases hoy : o = y <;> simp [hoy])
          have hlen := length_finalizer_trace_le trace y pending
          rw [htrace y hreach] at hlen
          rw [if_pos (h0.mpr hy0)]
          unfold bump_finalization_state_from_0_to_1
          refine Returns.bind (P := fun w => w = Function.update wl' y 253) ?_ ?_
          · exact returns_assert (by unfold WL_FINALIZ_ORDER_1; omega) (returns_some rfl)
          · rintro w rfl
            refine returns_some ⟨⟨hes, hinv.visit (htrace y hreach) hy0⟩, ?_⟩
            simp only [List.length_append, List.length_singleton]
            omega
        · rw [if_neg (fun h => hy0 (h0.mp h))]
          by_cases hy2 : wl' y = 254
          · rw [if_pos (h2.mpr hy2)]
            refine Returns.bind (recursively_bump_spec (H := H) (L := 254) (by omega)
              (H.mem_of_reach hx hreach) (fun o hyo => htrace o (hreach.trans hyo)) hes) ?_
            rintro ⟨wl'', es, pd⟩ ⟨rfl, rfl, hb⟩
            dsimp only at hb
            refine returns_some ⟨⟨rfl, hinv.bump ho hy2 hb⟩, ?_⟩
            have hle := workLeft_mono H.objs (fun o => wl' o < 253) (fun o => wl'' o < 253)
              (fun o => (H.refs o).length) (by
                intro o hlt
                by_cases hpath : PathIn H.Edge (fun o => wl' o = 254) y o
                · have := (hb o).1 hpath
                  omega
                · rw [(hb o).2 hpath] at hlt
                  exact hlt)
            simp only [List.length_append, List.length_singleton]
            omega
          · rw [if_neg (fun h => hy2 (h2.mp h))]
            refine returns_some ⟨⟨hes, hinv.skip (by omega)⟩, ?_⟩
            simp only [List.length_append, List.length_singleton]
            omega
  · refine ⟨hempty, ?_⟩
    rw [hpending]
    exact PendingInv.init ho

/-! ## One object of `mark_finalize_step1` -/

omit [DecidableEq Obj] in
/-- The `pending` loop leaves exactly the former state 0 in state 1, joined to
`x` inside that colour, so the last bump raises all of it to state 2. -/
theorem Raised.bump {x : Obj} {wl wl' wl'' : Obj → ℕ} (ho : OrderInv H wl)
    (hx : wl x < 253) (h : Raised H 253 x wl wl') (hb : Bumped H 253 x wl' wl'') :
    Raised H 254 x wl wl'' := by
  have hreached : ∀ v, wl' v = 253 → Reach H.Edge x v := by
    intro v hv
    by_contra hn
    have := (h v).2 hn
    have := ho.colour v
    omega
  have hcolour : ∀ v, Reach H.Edge x v → wl' v = 253 ∨ wl' v = 255 := by
    intro v hv
    have := (h v).1 hv
    have := ho.colour v
    omega
  intro o
  constructor
  · intro hxo
    obtain ⟨h0, h2⟩ := (h o).1 hxo
    constructor
    · intro ho0
      refine (hb o).1 (pathIn_of_reach (C := fun v => wl' v = 255) hxo ?_ (h0 ho0) ?_ ?_ ?_)
      · exact ((h x).1 .refl).1 hx
      · intro v w hv hvw
        exact hcolour w ((hreached v hv).tail hvw)
      · intro v w hv hvw
        by_cases hxv : Reach H.Edge x v
        · -- `v` went to state 3, so it was in state 2 or 3 before
          have hv2 : 254 ≤ wl v := by
            by_contra hlt
            have := ((h v).1 hxv).1 (by have := ho.colour v; omega)
            omega
          have hw2 : 254 ≤ wl w := by
            rcases ho.colour v with hv0 | hv2' | hv3
            · omega
            · exact ho.closed2 v w hv2' hvw
            · have := ho.closed3 v w hv3 hvw
              omega
          exact ((h w).1 (hxv.tail hvw)).2 hw2
        · have hw := ho.closed3 v w (by rw [← (h v).2 hxv]; exact hv) hvw
          by_cases hxw : Reach H.Edge x w
          · exact ((h w).1 hxw).2 (by omega)
          · rw [(h w).2 hxw]
            exact hw
      · intro v hv hv'
        omega
    · intro ho2
      rw [(hb o).2 (fun hp => by have := hp.right; have := h2 ho2; omega)]
      exact h2 ho2
  · intro hxo
    rw [(hb o).2 (fun hp => hxo hp.reach)]
    exact (h o).2 hxo

theorem mark_finalize_step1_body_spec {trace : Obj → List (Option Obj)}
    {st : FinalizerState Obj} {lst marked : List Obj} {x : Obj} (hx : x ∈ H.objs)
    (htrace : ∀ o, Reach H.Edge x o → trace o = H.refs o) (hempty : st.emptystack = [])
    (hpending : st.pending = []) (ho : OrderInv H st.write_locks) :
    Returns (mark_finalize_step1_body trace (lst, marked, st) x) (fun r =>
      (254 ≤ st.write_locks x ∧ r = (lst ++ [x], marked, st))
        ∨ (st.write_locks x < 253 ∧ r.1 = lst ∧ r.2.1 = marked ++ [x]
          ∧ r.2.2.emptystack = [] ∧ r.2.2.pending = []
          ∧ Raised H 254 x st.write_locks r.2.2.write_locks)) := by
  have hcolour := ho.colour x
  have hne1 : finalization_state st.write_locks x ≠ 1 := by
    rw [Ne, finalization_state_eq_iff (L := 253) (by omega)]
    omega
  have h2 : finalization_state st.write_locks x ≥ 2 ↔ 254 ≤ st.write_locks x := by
    unfold finalization_state WL_FINALIZ_ORDER_1
    omega
  unfold mark_finalize_step1_body
  refine returns_assert hne1 ?_
  by_cases hx2 : 254 ≤ st.write_locks x
  · simp only [if_pos (h2.mpr hx2)]
    exact returns_some (.inl ⟨hx2, rfl⟩)
  · simp only [if_neg (fun h => hx2 (h2.mp h))]
    refine Returns.bind (mark_finalize_pending_spec (H := H) (x := x)
      { st with pending := list_append st.pending x } hx htrace hempty
      (by rw [hpending]; rfl) ho) ?_
    rintro st1 ⟨hes1, hpd1, hr1⟩
    have hlt : st.write_locks x < 253 := by omega
    have hx1 : finalization_state st1.write_locks x = 1 :=
      (finalization_state_eq_iff (L := 253) (by omega)).mpr (((hr1 x).1 .refl).1 hlt)
    refine returns_assert hx1 ?_
    refine Returns.bind (recursively_bump_spec (H := H) (L := 253) (by omega) hx htrace hes1) ?_
    rintro st2 ⟨hes2, hpd2, hb⟩
    refine returns_some (.inr ⟨hlt, rfl, rfl, hes2, by rw [hpd2, hpd1], ?_⟩)
    exact hr1.bump ho hlt hb

end Search

end Stmgc.C7
