/-
The read barrier's cache of `lists.h`, `struct FXCache`: a window of
`FX_ENTRIES` items into a bigger array, which `fxcache_clear` moves by one
item, and back to the start at the end of the array.

The purpose of the cache is a set of objects with one place for each slot
([`Entries`]). What the window shows of the array is such a set
([`Inv`]); the items that older windows have left in it are too low for the
window where it is now, and so they are never taken for an entry.
-/
import Stmgc.Lib.Loop
import Mathlib.Data.List.Induction

namespace Stmgc.C4

open Stmgc.Lib

namespace FxCache

/-! ## Data -/

/-- A pointer to an object. -/
@[ext] structure gcptr where
  addr : BitVec 64
  ne_null : addr ≠ 0
  aligned : addr.toNat % 8 = 0

def FX_MASK : BitVec 64 := 65535

def FX_ENTRIES : ℕ := (FX_MASK + 1).toNat / 8

def FX_TOTAL : ℕ := FX_ENTRIES * 4 / 3

/-- The cache of a thread, and the item that `stm_read_barrier_cache` of the
thread points to, if it points to an item. -/
structure FXCache where
  shift : ℕ
  cache : ℕ → BitVec 64
  stm_read_barrier_cache : Option ℕ

/-- The item of an object, counted from `stm_read_barrier_cache`. -/
def slot (obj : gcptr) : ℕ := (obj.addr &&& FX_MASK).toNat / 8

def FXCACHE_AT (s : FXCache) (obj : gcptr) : Option (BitVec 64) := do
  let start ← s.stm_read_barrier_cache
  c_assert (start + slot obj < FX_TOTAL)
  return s.cache (start + slot obj)

/-- `FXCACHE_AT(obj) = val` -/
def set_FXCACHE_AT (s : FXCache) (obj : gcptr) (val : BitVec 64) : Option FXCache := do
  let start ← s.stm_read_barrier_cache
  c_assert (start + slot obj < FX_TOTAL)
  return { s with cache := Function.update s.cache (start + slot obj) val }

def _fxcache_reset (s : FXCache) : FXCache :=
  { s with
    shift := 0
    cache := fun _ => 0 }

def fxcache_clear (s : FXCache) : FXCache :=
  let s := { s with shift := s.shift + 1 }
  let s := if s.shift > FX_TOTAL - FX_ENTRIES then _fxcache_reset s else s
  { s with stm_read_barrier_cache := some s.shift }

def fxcache_add (s : FXCache) (newobj : gcptr) : Option FXCache := do
  c_assert (s.stm_read_barrier_cache = some s.shift)
  set_FXCACHE_AT s newobj newobj.addr

def fxcache_remove (s : FXCache) (oldobj : gcptr) : Option FXCache := do
  c_assert (s.stm_read_barrier_cache = some s.shift)
  set_FXCACHE_AT s oldobj 0

/-- What `DescriptorInit` leaves, with the `stm_read_barrier_cache` that the
thread had before. The transaction that comes first clears the cache. -/
def descriptor_init (stm_read_barrier_cache : Option ℕ) : FXCache where
  shift := 0
  cache := fun _ => 0
  stm_read_barrier_cache := stm_read_barrier_cache

inductive Op where
  | fxcache_clear
  | fxcache_add (newobj : gcptr)
  | fxcache_remove (oldobj : gcptr)
  /-- the test of a read barrier -/
  | lookup (obj : gcptr)

def perform (s : FXCache) : Op → Option FXCache
  | .fxcache_clear => some (fxcache_clear s)
  | .fxcache_add newobj => fxcache_add s newobj
  | .fxcache_remove oldobj => fxcache_remove s oldobj
  | .lookup obj => do
    let _ ← FXCACHE_AT s obj
    return s

/-! ## The set of objects -/

/-- The object that each slot has. -/
abbrev Entries : Type := ℕ → Option gcptr

def Entries.empty : Entries := fun _ => none

/-- In case of a collision the old item is discarded. -/
def Entries.perform (e : Entries) : Op → Entries
  | .fxcache_clear => .empty
  | .fxcache_add newobj => Function.update e (slot newobj) (some newobj)
  | .fxcache_remove oldobj => Function.update e (slot oldobj) none
  | .lookup _ => e

/-- The operation takes the object out of the set, if it is there. -/
def Op.discards (obj : gcptr) : Op → Prop
  | .fxcache_clear => True
  | .fxcache_add other | .fxcache_remove other => slot other = slot obj
  | .lookup _ => False

section

variable {e : Entries} {obj : gcptr} {op : Op}

theorem Entries.perform_of_not_discards (h : ¬ op.discards obj) :
    e.perform op (slot obj) = e (slot obj) := by
  cases op with
  | fxcache_clear => exact absurd trivial h
  | fxcache_add newobj => exact Function.update_of_ne (Ne.symm h) _ _
  | fxcache_remove oldobj => exact Function.update_of_ne (Ne.symm h) _ _
  | lookup _ => rfl

theorem Entries.perform_of_discards (h : op.discards obj) :
    e.perform op (slot obj) = some obj ↔ op = .fxcache_add obj := by
  cases op with
  | fxcache_clear => exact ⟨nofun, nofun⟩
  | fxcache_add newobj =>
      have hslot : slot obj = slot newobj := Eq.symm h
      unfold Entries.perform
      dsimp only
      rw [hslot, Function.update_self, Option.some.injEq, Op.fxcache_add.injEq]
  | fxcache_remove oldobj =>
      have hslot : slot obj = slot oldobj := Eq.symm h
      unfold Entries.perform
      dsimp only
      rw [hslot, Function.update_self]
      exact ⟨nofun, nofun⟩
  | lookup _ => exact absurd h id

/-- An object is in the set if it was added and not discarded since. -/
theorem Entries.run_iff {ops : List Op} : ops.foldl Entries.perform .empty (slot obj) = some obj ↔
    ∃ before after, ops = before ++ .fxcache_add obj :: after ∧ ∀ op ∈ after, ¬ op.discards obj := by
  induction ops using List.reverseRecOn with
  | nil =>
      constructor
      · nofun
      · rintro ⟨before, after, hops, -⟩
        exact absurd hops (by simp)
  | append_singleton ops op ih =>
      rw [List.foldl_concat]
      by_cases hop : op.discards obj
      · rw [Entries.perform_of_discards hop]
        constructor
        · rintro rfl
          exact ⟨ops, [], rfl, by simp⟩
        · rintro ⟨before, after, hops, hafter⟩
          -- what is last is not among the operations that discard nothing
          rcases List.eq_nil_or_concat after with rfl | ⟨after, last, rfl⟩
          · exact (List.append_inj' hops rfl).2 |> List.singleton_inj.mp
          · rw [List.concat_eq_append, ← List.cons_append, ← List.append_assoc] at hops
            have hlast := List.singleton_inj.mp (List.append_inj' hops rfl).2
            exact absurd (hlast ▸ hop) (hafter last (by simp))
      · rw [Entries.perform_of_not_discards hop, ih]
        constructor
        · rintro ⟨before, after, rfl, hafter⟩
          refine ⟨before, after ++ [op], by simp, fun o ho => ?_⟩
          rcases List.mem_append.mp ho with ho | ho
          · exact hafter o ho
          · rw [List.mem_singleton.mp ho]
            exact hop
        · rintro ⟨before, after, hops, hafter⟩
          rcases List.eq_nil_or_concat after with rfl | ⟨after, last, rfl⟩
          · refine absurd ?_ hop
            rw [List.singleton_inj.mp (List.append_inj' hops rfl).2]
            rfl
          · rw [List.concat_eq_append, ← List.cons_append, ← List.append_assoc] at hops
            refine ⟨before, after, (List.append_inj' hops rfl).1, fun o ho => hafter o ?_⟩
            rw [List.concat_eq_append]
            exact List.mem_append_left _ ho

end

/-! ## The window -/

section

variable {s s' : FXCache} {e : Entries} {obj other : gcptr} {val : BitVec 64}

theorem slot_lt (obj : gcptr) : slot obj < FX_ENTRIES := by
  unfold slot FX_ENTRIES FX_MASK
  have hle : (obj.addr &&& 65535).toNat ≤ 65535 := by
    rw [BitVec.toNat_and]
    exact Nat.and_le_right
  have hmask : ((65535 : BitVec 64) + 1).toNat = 65536 := rfl
  omega

theorem entries_le_total : FX_ENTRIES ≤ FX_TOTAL := by
  unfold FX_TOTAL
  omega

theorem addr_inj : obj.addr = other.addr ↔ obj = other := by
  rw [gcptr.ext_iff]

/-- The window is inside of the array and shows the set. An item that has an
object is in the place that the object had in this window or in one before it,
which is [`stale`]. -/
structure Inv (s : FXCache) (e : Entries) : Prop where
  start : s.stm_read_barrier_cache = some s.shift
  bounds : s.shift + FX_ENTRIES ≤ FX_TOTAL
  stale : ∀ k obj, s.cache k = obj.addr → k ≤ s.shift + slot obj
  shown : ∀ obj, s.cache (s.shift + slot obj) = obj.addr ↔ e (slot obj) = some obj

theorem Inv.in_bounds (h : Inv s e) (obj : gcptr) : s.shift + slot obj < FX_TOTAL := by
  have hlt := slot_lt obj
  have hbounds := h.bounds
  omega

theorem Inv.FXCACHE_AT (h : Inv s e) (obj : gcptr) :
    FXCACHE_AT s obj = some (s.cache (s.shift + slot obj)) := by
  unfold FxCache.FXCACHE_AT
  rw [h.start]
  exact c_assert_eq_some.mpr ⟨h.in_bounds obj, rfl⟩

theorem Inv.set_FXCACHE_AT (h : Inv s e) (obj : gcptr) (val : BitVec 64) :
    set_FXCACHE_AT s obj val
      = some { s with cache := Function.update s.cache (s.shift + slot obj) val } := by
  unfold FxCache.set_FXCACHE_AT
  rw [h.start]
  exact c_assert_eq_some.mpr ⟨h.in_bounds obj, rfl⟩

/-- A new value for a slot, which may be the object of this slot. -/
theorem Inv.set {x : Option gcptr} (h : Inv s e) (hx : ∀ o, val = o.addr ↔ x = some o)
    (hslot : ∀ o ∈ x, o = obj) :
    Inv { s with cache := Function.update s.cache (s.shift + slot obj) val }
      (Function.update e (slot obj) x) := by
  refine ⟨h.start, h.bounds, fun k o ho => ?_, fun o => ?_⟩
  · dsimp only at ho
    by_cases hk : k = s.shift + slot obj
    · rw [hk, Function.update_self] at ho
      rw [hslot o ((hx o).mp ho)]
      exact Nat.le_of_eq hk
    · rw [Function.update_of_ne hk] at ho
      exact h.stale k o ho
  · dsimp only
    by_cases ho : slot o = slot obj
    · rw [ho, Function.update_self, Function.update_self]
      exact hx o
    · rw [Function.update_of_ne ho, Function.update_of_ne (by omega)]
      exact h.shown o

/-- A set with nothing in it, when no item has an object where this window
looks for it. -/
theorem Inv.of_empty (hstart : s.stm_read_barrier_cache = some s.shift)
    (hbounds : s.shift + FX_ENTRIES ≤ FX_TOTAL)
    (hstale : ∀ k obj, s.cache k = obj.addr → k < s.shift + slot obj) : Inv s .empty := by
  refine ⟨hstart, hbounds, fun k o ho => Nat.le_of_lt (hstale k o ho), fun o => ⟨fun ho => ?_, nofun⟩⟩
  exact absurd (hstale _ o ho) (Nat.lt_irrefl _)

/-- The cache is cleared from a state where no item is above its place in the
window, wherever `stm_read_barrier_cache` points to. -/
theorem inv_clear (hstale : ∀ k obj, s.cache k = obj.addr → k ≤ s.shift + slot obj) :
    Inv (fxcache_clear s) .empty := by
  unfold fxcache_clear _fxcache_reset
  dsimp only
  split_ifs with hshift
  · refine .of_empty rfl ?_ fun k o ho => ?_
    · have hle := entries_le_total
      dsimp only
      omega
    · exact absurd (Eq.symm ho) o.ne_null
  · refine .of_empty rfl ?_ fun k o ho => ?_
    · have hle := entries_le_total
      dsimp only
      omega
    · -- the window has moved past what it showed
      have hk := hstale k o ho
      dsimp only
      omega

theorem Inv.perform (h : Inv s e) (op : Op) :
    Returns (perform s op) fun s' => Inv s' (e.perform op) := by
  cases op with
  | fxcache_clear => exact returns_some (inv_clear h.stale)
  | fxcache_add newobj =>
      refine returns_assert h.start ?_
      rw [h.set_FXCACHE_AT]
      refine returns_some (h.set (fun o => ?_) fun o ho => ?_)
      · rw [addr_inj, Option.some.injEq]
      · exact (Option.some.inj ho).symm
  | fxcache_remove oldobj =>
      refine returns_assert h.start ?_
      rw [h.set_FXCACHE_AT]
      refine returns_some (h.set (fun o => ⟨fun ho => ?_, nofun⟩) nofun)
      exact absurd (Eq.symm ho) o.ne_null
  | lookup obj =>
      refine ⟨s, ?_, h⟩
      unfold FxCache.perform
      dsimp only
      rw [h.FXCACHE_AT]
      rfl

theorem Inv.run (h : Inv s e) (ops : List Op) :
    Returns (ops.foldlM FxCache.perform s) fun s' => Inv s' (ops.foldl Entries.perform e) := by
  induction ops generalizing s e with
  | nil => exact returns_some h
  | cons op ops ih =>
      rw [List.foldlM_cons]
      exact (h.perform op).bind fun s' hs' => ih hs'

end

/-! ## Runs -/

variable {ops : List Op} {stm_read_barrier_cache : Option ℕ} {s : FXCache}

theorem inv_init (stm_read_barrier_cache : Option ℕ) :
    Inv (fxcache_clear (descriptor_init stm_read_barrier_cache)) .empty :=
  inv_clear fun _ obj h => absurd (Eq.symm h) obj.ne_null

/-- The cache has the objects that were added and not discarded since. -/
theorem hit_iff (hs : ops.foldlM perform (fxcache_clear (descriptor_init stm_read_barrier_cache))
      = some s) (obj : gcptr) : FXCACHE_AT s obj = some obj.addr ↔
    ∃ before after, ops = before ++ .fxcache_add obj :: after ∧ ∀ op ∈ after, ¬ op.discards obj := by
  obtain ⟨t, ht, h⟩ := (inv_init stm_read_barrier_cache).run ops
  obtain rfl : t = s := Option.some.inj (ht.symm.trans hs)
  rw [h.FXCACHE_AT, Option.some.injEq, h.shown, Entries.run_iff]

/-- All operations stay in the array and return. A hit is for an object that
was added since the cache was cleared for the last time. -/
theorem fxcache_hit (stm_read_barrier_cache : Option ℕ) (ops : List Op) :
    ∃ s, ops.foldlM perform (fxcache_clear (descriptor_init stm_read_barrier_cache)) = some s ∧
      ∀ obj, ∃ val, FXCACHE_AT s obj = some val ∧ (val = obj.addr →
        ∃ before after, ops = before ++ .fxcache_add obj :: after ∧ .fxcache_clear ∉ after) := by
  obtain ⟨s, hs, h⟩ := (inv_init stm_read_barrier_cache).run ops
  refine ⟨s, hs, fun obj => ⟨_, h.FXCACHE_AT obj, fun hval => ?_⟩⟩
  have hhit : FXCACHE_AT s obj = some obj.addr := (h.FXCACHE_AT obj).trans (congrArg some hval)
  obtain ⟨before, after, hops, hafter⟩ := (hit_iff hs obj).mp hhit
  exact ⟨before, after, hops, fun hclear => hafter _ hclear trivial⟩

end FxCache

end Stmgc.C4
