/-
`prebuilt.c`: copying the static objects into the pages of the GC.

Addresses count words. The first word of an object starts with its
`stm_flags`, in the lower half. What the program that uses the library
provides, the size of an object and the list of its references, is
[`Callbacks`], with what the comment in `stmgc.h` asks for.
-/
import Stmgc.Lib.Loop
import Stmgc.Lib.Memory
import Mathlib.Algebra.Ring.Nat
import Mathlib.Data.Finset.Card

namespace Stmgc.C7

open Stmgc.Lib Stmgc.Lib.Memory Relation

namespace Prebuilt

def GCFLAG_WRITE_BARRIER : ℕ := 1

/-- The flags in the first word of an object. -/
def stm_flags (word : ℕ) : ℕ := word % 2 ^ 32

def set_stm_flags (word flags : ℕ) : ℕ := word - stm_flags word + flags

/-- The object at an address, as the callbacks see it. -/
def object (memory : ℕ → ℕ) (obj : ℕ) : ℕ → ℕ := fun i => memory (obj + i)

/-- `stmcb_size_rounded_up` and `stmcb_trace`. The references are given by the
position of their words. What the callbacks say of an object does not depend
on the flags and on where the references lead to. -/
structure Callbacks where
  stmcb_size_rounded_up : (ℕ → ℕ) → ℕ
  stmcb_trace : (ℕ → ℕ) → List ℕ
  two_le_size : ∀ obj, 2 ≤ stmcb_size_rounded_up obj
  trace_lt : ∀ obj, ∀ i ∈ stmcb_trace obj, 0 < i ∧ i < stmcb_size_rounded_up obj
  trace_nodup : ∀ obj, (stmcb_trace obj).Nodup
  congr : ∀ obj obj', obj' 0 / 2 ^ 32 = obj 0 / 2 ^ 32 →
    (∀ i < stmcb_size_rounded_up obj, i ≠ 0 → i ∉ stmcb_trace obj → obj' i = obj i) →
    stmcb_size_rounded_up obj' = stmcb_size_rounded_up obj ∧ stmcb_trace obj' = stmcb_trace obj

/-- The pages of the GC, and the allocator of old objects: given the blocks
that are allocated already, it returns the address of one that meets none of
them. -/
structure Pages where
  stm_object_pages : ℕ
  Mapped : ℕ → Prop
  allocate_outside_nursery_large : List (ℕ × ℕ) → ℕ → ℕ
  pages_lt : ∀ blocks size, stm_object_pages < allocate_outside_nursery_large blocks size
  mapped : ∀ blocks size, ∀ i < size, Mapped (allocate_outside_nursery_large blocks size + i)
  disjoint : ∀ blocks size, ∀ block ∈ blocks, ∀ i < size, ∀ j < block.2,
    allocate_outside_nursery_large blocks size + i ≠ block.1 + j

/-- What `stm_setup_prebuilt` reads and writes. -/
structure Heap where
  memory : ℕ → ℕ
  /-- the blocks that the allocator has returned, the last one first -/
  allocated : List (ℕ × ℕ)
  testing_prebuilt_objs : List ℕ
  /-- the entries of the tree, the last one that was inserted first -/
  tree_prebuilt_objs : List (ℕ × ℕ)
  /-- the last item first -/
  prebuilt_objects_to_trace : List ℕ

variable (cb : Callbacks) (pg : Pages)

def _stm_allocate_old (s : Heap) (size_rounded_up : ℕ) : ℕ × Heap :=
  let p := pg.allocate_outside_nursery_large s.allocated size_rounded_up
  let memory := Memory.memcpy s.memory p (List.replicate size_rounded_up 0)
  let o := p - pg.stm_object_pages
  (o, { s with
    memory := Function.update memory p (set_stm_flags (memory p) GCFLAG_WRITE_BARRIER)
    allocated := (p, size_rounded_up) :: s.allocated
    testing_prebuilt_objs := s.testing_prebuilt_objs ++ [o] })

/-- `prebuilt_trace`, with what it finds in the reference and what it leaves
there. -/
def prebuilt_trace (s : Heap) (objaddr : ℕ) : Option (ℕ × Heap) :=
  if objaddr = 0 then some (0, s)
  else
    match s.tree_prebuilt_objs.lookup objaddr with
    | some val => some (val, s)  -- already moved
    | none => do
      let size := cb.stmcb_size_rounded_up (object s.memory objaddr)
      let (nobj, s) := _stm_allocate_old pg s (size + 1)
      let realnobj := pg.stm_object_pages + nobj
      let memory := Memory.memcpy s.memory realnobj (range s.memory objaddr (objaddr + size))
      c_assert (stm_flags (memory realnobj) = 0)
      return (nobj, { s with
        memory := Function.update memory realnobj
          (set_stm_flags (memory realnobj) GCFLAG_WRITE_BARRIER)
        tree_prebuilt_objs := (objaddr, nobj) :: s.tree_prebuilt_objs
        prebuilt_objects_to_trace := realnobj :: s.prebuilt_objects_to_trace })

/-- `prebuilt_trace` on a reference in the memory. -/
def prebuilt_trace_at (s : Heap) (pstaticobj_invalid : ℕ) : Option Heap := do
  let (obj, s) ← prebuilt_trace cb pg s (s.memory pstaticobj_invalid)
  return { s with memory := Function.update s.memory pstaticobj_invalid obj }

/-- `stmcb_trace` with `prebuilt_trace`. -/
def trace (s : Heap) (realobj1 : ℕ) : Option Heap :=
  (cb.stmcb_trace (object s.memory realobj1)).foldlM
    (fun s i => prebuilt_trace_at cb pg s (realobj1 + i)) s

/-- A turn of the loop of `stm_setup_prebuilt`. -/
def trace_next (s : Heap) : Option (ControlFlow Heap Heap) :=
  match s.prebuilt_objects_to_trace with
  | [] => some (.done s)
  | realobj1 :: items => do
    let s ← trace cb pg { s with prebuilt_objects_to_trace := items } realobj1
    return .cont s

def stm_setup_prebuilt (s : Heap) (staticobj_invalid : ℕ) : Option (ℕ × Heap) := do
  let (obj, s) ← prebuilt_trace cb pg { s with prebuilt_objects_to_trace := [] } staticobj_invalid
  let s ← loop (trace_next cb pg) s
  return (obj, s)

/-- Several calls, and what they return. -/
def setup_all (s : Heap) : List ℕ → Option (List ℕ × Heap)
  | [] => some ([], s)
  | staticobj :: calls => do
    let (obj, s) ← stm_setup_prebuilt cb pg s staticobj
    let (objs, s) ← setup_all s calls
    return (obj :: objs, s)

/-! ## Static graphs and their copies -/

/-- Static objects in a memory. All references between them lead to their
starts, and nothing of them lies in the pages of the GC. -/
structure StaticGraph where
  memory : ℕ → ℕ
  objects : Finset ℕ
  ne_null : ∀ obj ∈ objects, obj ≠ 0
  flags : ∀ obj ∈ objects, stm_flags (memory obj) = 0
  closed : ∀ obj ∈ objects, ∀ i ∈ cb.stmcb_trace (object memory obj),
    memory (obj + i) = 0 ∨ memory (obj + i) ∈ objects
  unmapped : ∀ obj ∈ objects, ∀ i < cb.stmcb_size_rounded_up (object memory obj),
    ¬ pg.Mapped (obj + i)

variable {cb pg}

/-- Nothing has been copied yet. -/
def StaticGraph.init (G : StaticGraph cb pg) : Heap where
  memory := G.memory
  allocated := []
  testing_prebuilt_objs := []
  tree_prebuilt_objs := []
  prebuilt_objects_to_trace := []

variable (G : StaticGraph cb pg)

def StaticGraph.size (obj : ℕ) : ℕ := cb.stmcb_size_rounded_up (object G.memory obj)

def StaticGraph.references (obj : ℕ) : List ℕ := cb.stmcb_trace (object G.memory obj)

/-- The first object has a reference to the second one. -/
def StaticGraph.Points (obj obj' : ℕ) : Prop :=
  ∃ i ∈ G.references obj, G.memory (obj + i) = obj' ∧ obj' ≠ 0

/-- The object is one that the calls have to copy. -/
def StaticGraph.Reached (calls : List ℕ) (obj : ℕ) : Prop :=
  ∃ call ∈ calls, ReflTransGen G.Points call obj

/-- Where a reference of a static object leads to after the copy. -/
def Heap.moved (s : Heap) (obj : ℕ) : ℕ :=
  if obj = 0 then 0 else (s.tree_prebuilt_objs.lookup obj).getD 0

/-- The object has a copy. -/
def Heap.HasCopy (s : Heap) (obj : ℕ) : Prop := ∃ nobj, (obj, nobj) ∈ s.tree_prebuilt_objs

/-- The copy of an object. The references at the positions `moved` are
rewritten already. -/
structure StaticGraph.Copied (s : Heap) (obj nobj : ℕ) (moved : List ℕ) : Prop where
  header : s.memory (pg.stm_object_pages + nobj)
    = set_stm_flags (G.memory obj) GCFLAG_WRITE_BARRIER
  reference : ∀ i ∈ moved,
    s.memory (pg.stm_object_pages + nobj + i) = s.moved (G.memory (obj + i)) ∧
      (G.memory (obj + i) = 0 ∨ s.HasCopy (G.memory (obj + i)))
  rest : ∀ i < G.size obj, i ≠ 0 → i ∉ moved →
    s.memory (pg.stm_object_pages + nobj + i) = G.memory (obj + i)

/-- What holds between any two references that are visited. `moved` are the
references of each object that are rewritten, and `cur` is the object whose
copy is being traced. -/
structure StaticGraph.Inv (calls : List ℕ) (cur : Option ℕ) (moved : ℕ → List ℕ) (s : Heap) :
    Prop where
  static : ∀ a, ¬ pg.Mapped a → s.memory a = G.memory a
  keys_nodup : (s.tree_prebuilt_objs.map Prod.fst).Nodup
  objects : ∀ e ∈ s.tree_prebuilt_objs, e.1 ∈ G.objects ∧ G.Reached calls e.1
  allocated : s.allocated = s.tree_prebuilt_objs.map fun e =>
    (pg.stm_object_pages + e.2, G.size e.1 + 1)
  objs : s.testing_prebuilt_objs = (s.tree_prebuilt_objs.map Prod.snd).reverse
  ne_null : ∀ e ∈ s.tree_prebuilt_objs, e.2 ≠ 0
  mapped : ∀ e ∈ s.tree_prebuilt_objs, ∀ i < G.size e.1 + 1,
    pg.Mapped (pg.stm_object_pages + e.2 + i)
  apart : s.tree_prebuilt_objs.Pairwise fun e e' =>
    ∀ i < G.size e.1 + 1, ∀ j < G.size e'.1 + 1, e.2 + i ≠ e'.2 + j
  copied : ∀ e ∈ s.tree_prebuilt_objs, G.Copied s e.1 e.2 (moved e.1)
  pending : ∀ realobj ∈ s.prebuilt_objects_to_trace, ∃ e ∈ s.tree_prebuilt_objs,
    realobj = pg.stm_object_pages + e.2 ∧ moved e.1 = [] ∧ cur ≠ some e.1
  pending_nodup : s.prebuilt_objects_to_trace.Nodup
  complete : ∀ e ∈ s.tree_prebuilt_objs,
    pg.stm_object_pages + e.2 ∈ s.prebuilt_objects_to_trace ∨ cur = some e.1 ∨
      moved e.1 = G.references e.1
  fresh : ∀ obj, ¬ s.HasCopy obj → moved obj = []
  references : ∀ obj, ∀ i ∈ moved obj, i ∈ G.references obj
  current : ∀ obj, cur = some obj → s.HasCopy obj

variable {G} {calls : List ℕ} {cur : Option ℕ} {moved : ℕ → List ℕ} {s s' : Heap}
  {obj nobj obj' nobj' : ℕ}

/-! ## The tree and the memory -/

theorem lookup_eq_some {entries : List (ℕ × ℕ)} (hnodup : (entries.map Prod.fst).Nodup) :
    entries.lookup obj = some nobj ↔ (obj, nobj) ∈ entries := by
  induction entries with
  | nil => exact ⟨nofun, nofun⟩
  | cons e entries ih =>
      rw [List.map_cons, List.nodup_cons] at hnodup
      rw [List.lookup_cons, List.mem_cons]
      by_cases he : obj = e.1
      · rw [he, beq_self_eq_true]
        constructor
        · intro h
          exact Or.inl (Prod.ext rfl (Option.some.inj h).symm)
        · rintro (h | h)
          · rw [← h]
          · exact absurd (List.mem_map.mpr ⟨_, h, rfl⟩) hnodup.1
      · rw [beq_false_of_ne he]
        dsimp only
        rw [ih hnodup.2]
        exact ⟨Or.inr, fun h => h.resolve_left fun heq => he (congrArg Prod.fst heq)⟩

theorem lookup_eq_none {entries : List (ℕ × ℕ)} :
    entries.lookup obj = none ↔ ¬ ∃ nobj, (obj, nobj) ∈ entries := by
  rw [List.lookup_eq_none_iff]
  constructor
  · rintro h ⟨nobj, hmem⟩
    exact absurd (h _ hmem) (by simp)
  · intro h e he
    rw [bne_iff_ne]
    rintro rfl
    exact h ⟨e.2, he⟩

theorem moved_of_mem (hnodup : (s.tree_prebuilt_objs.map Prod.fst).Nodup) (hne : obj ≠ 0)
    (hmem : (obj, nobj) ∈ s.tree_prebuilt_objs) : s.moved obj = nobj := by
  unfold Heap.moved
  rw [if_neg hne, (lookup_eq_some hnodup).mpr hmem, Option.getD_some]

/-- What is moved stays where it is while the tree grows. -/
theorem moved_of_subset (hnodup : (s.tree_prebuilt_objs.map Prod.fst).Nodup)
    (hnodup' : (s'.tree_prebuilt_objs.map Prod.fst).Nodup)
    (hsub : s.tree_prebuilt_objs ⊆ s'.tree_prebuilt_objs) (hcopy : obj = 0 ∨ s.HasCopy obj) :
    s'.moved obj = s.moved obj := by
  by_cases hzero : obj = 0
  · unfold Heap.moved
    rw [if_pos hzero, if_pos hzero]
  · obtain ⟨nobj, hmem⟩ := hcopy.resolve_left hzero
    rw [moved_of_mem hnodup hzero hmem, moved_of_mem hnodup' hzero (hsub hmem)]

theorem StaticGraph.size_pos : 0 < G.size obj := Nat.lt_of_lt_of_le Nat.two_pos (cb.two_le_size _)

theorem StaticGraph.Inv.apart_of_ne (hinv : G.Inv calls cur moved s) {e e' : ℕ × ℕ}
    (he : e ∈ s.tree_prebuilt_objs) (he' : e' ∈ s.tree_prebuilt_objs) (hne : e ≠ e')
    {i j : ℕ} (hi : i < G.size e.1 + 1) (hj : j < G.size e'.1 + 1) : e.2 + i ≠ e'.2 + j := by
  have hsymm : Std.Symm fun e e' : ℕ × ℕ =>
      ∀ i < G.size e.1 + 1, ∀ j < G.size e'.1 + 1, e.2 + i ≠ e'.2 + j :=
    ⟨fun e e' h i hi j hj heq => h j hj i hi heq.symm⟩
  exact hinv.apart.forall he he' hne i hi j hj

/-- No two objects have their copies at the same place. -/
theorem StaticGraph.Inv.entry_unique (hinv : G.Inv calls cur moved s) {e e' : ℕ × ℕ}
    (he : e ∈ s.tree_prebuilt_objs) (he' : e' ∈ s.tree_prebuilt_objs) (h : e.2 = e'.2) :
    e = e' := by
  by_contra hne
  exact hinv.apart_of_ne he he' hne (Nat.succ_pos _) (Nat.succ_pos _) (by rw [h])

/-- The callbacks say of a copy what they say of the object, as long as no
more than its references are rewritten. -/
theorem StaticGraph.Copied.callbacks_eq {done : List ℕ} (hcopied : G.Copied s obj nobj done)
    (hflags : stm_flags (G.memory obj) = 0) (hdone : ∀ i ∈ done, i ∈ G.references obj) :
    cb.stmcb_size_rounded_up (object s.memory (pg.stm_object_pages + nobj)) = G.size obj ∧
      cb.stmcb_trace (object s.memory (pg.stm_object_pages + nobj)) = G.references obj := by
  refine cb.congr _ _ ?_ fun i hi hne href => ?_
  · unfold object
    rw [Nat.add_zero, Nat.add_zero, hcopied.header]
    unfold set_stm_flags stm_flags GCFLAG_WRITE_BARRIER
    unfold stm_flags at hflags
    omega
  · exact hcopied.rest i hi hne fun h => href (hdone i h)

/-! ## Making a copy -/

/-- A static object is still as it was. -/
theorem StaticGraph.Inv.object_eq (hinv : G.Inv calls cur moved s) (hobj : obj ∈ G.objects) :
    cb.stmcb_size_rounded_up (object s.memory obj) = G.size obj ∧
      ∀ i < G.size obj, s.memory (obj + i) = G.memory (obj + i) := by
  have hword : ∀ i < G.size obj, s.memory (obj + i) = G.memory (obj + i) := fun i hi =>
    hinv.static _ (G.unmapped obj hobj i hi)
  refine ⟨(cb.congr _ _ ?_ fun i hi _ _ => hword i hi).1, hword⟩
  rw [hword 0 G.size_pos]

theorem memcpy_of_ne {m : ℕ → ℕ} {p k : ℕ} {xs : List ℕ} (h : ∀ j < xs.length, k ≠ p + j) :
    Memory.memcpy m p xs k = m k := by
  by_cases hlt : k < p
  · exact memcpy_of_lt hlt
  · by_cases hge : p + xs.length ≤ k
    · exact memcpy_of_ge hge
    · exact absurd (by omega) (h (k - p) (by omega))

/-- The memory after an object is copied to a new block. -/
def copied_memory (memory : ℕ → ℕ) (p obj size : ℕ) : ℕ → ℕ :=
  let memory := Memory.memcpy memory p (List.replicate (size + 1) 0)
  let memory := Function.update memory p (set_stm_flags (memory p) GCFLAG_WRITE_BARRIER)
  Memory.memcpy memory p (range memory obj (obj + size))

/-- Outside the block nothing changes, and in it is the object. -/
theorem copied_memory_eq {memory : ℕ → ℕ} {p size : ℕ}
    (hout : ∀ i < size, ∀ j < size + 1, obj + i ≠ p + j) :
    (∀ k, (∀ j < size + 1, k ≠ p + j) → copied_memory memory p obj size k = memory k) ∧
    ∀ i < size, copied_memory memory p obj size (p + i) = memory (obj + i) := by
  -- what the first write leaves of the memory outside the block
  have hfirst : ∀ k, (∀ j < size + 1, k ≠ p + j) →
      Function.update (Memory.memcpy memory p (List.replicate (size + 1) 0)) p
        (set_stm_flags (Memory.memcpy memory p (List.replicate (size + 1) 0) p) GCFLAG_WRITE_BARRIER) k
        = memory k := by
    intro k hk
    have hp : k ≠ p := hk 0 (Nat.succ_pos _)
    rw [Function.update_of_ne hp, memcpy_of_ne]
    intro j hj
    rw [List.length_replicate] at hj
    exact hk j hj
  unfold copied_memory
  constructor
  · intro k hk
    rw [memcpy_of_ne]
    · exact hfirst k hk
    · intro j hj
      rw [length_range] at hj
      exact hk j (by omega)
  · intro i hi
    unfold Memory.memcpy
    rw [if_pos (Nat.le_add_right p i), Nat.add_sub_cancel_left,
      getElem?_range (by omega), Option.getD_some]
    exact hfirst _ (hout i hi)

/-- The heap after an object is copied. -/
def Heap.copy (s : Heap) (pg : Pages) (obj size : ℕ) : Heap :=
  let p := pg.allocate_outside_nursery_large s.allocated (size + 1)
  let nobj := p - pg.stm_object_pages
  { memory := Function.update (copied_memory s.memory p obj size) p
      (set_stm_flags (copied_memory s.memory p obj size p) GCFLAG_WRITE_BARRIER)
    allocated := (p, size + 1) :: s.allocated
    testing_prebuilt_objs := s.testing_prebuilt_objs ++ [nobj]
    tree_prebuilt_objs := (obj, nobj) :: s.tree_prebuilt_objs
    prebuilt_objects_to_trace := p :: s.prebuilt_objects_to_trace }

/-- The new block. -/
theorem StaticGraph.Inv.new_block (hinv : G.Inv calls cur moved s) (size : ℕ) :
    let p := pg.allocate_outside_nursery_large s.allocated size
    pg.stm_object_pages + (p - pg.stm_object_pages) = p ∧ p - pg.stm_object_pages ≠ 0 ∧
      ∀ e ∈ s.tree_prebuilt_objs, ∀ i < size, ∀ j < G.size e.1 + 1,
        p - pg.stm_object_pages + i ≠ e.2 + j := by
  have hlt := pg.pages_lt s.allocated size
  refine ⟨by omega, by omega, fun e he i hi j hj heq => ?_⟩
  refine pg.disjoint s.allocated size (pg.stm_object_pages + e.2, G.size e.1 + 1) ?_ i hi j hj
    (by dsimp only; omega)
  rw [hinv.allocated]
  exact List.mem_map.mpr ⟨e, he, rfl⟩

theorem StaticGraph.Inv.prebuilt_trace_of_new (hinv : G.Inv calls cur moved s)
    (hobj : obj ∈ G.objects) (hnew : ¬ s.HasCopy obj) :
    prebuilt_trace cb pg s obj
      = some ((s.copy pg obj (G.size obj)).moved obj, s.copy pg obj (G.size obj)) := by
  obtain ⟨hsize, hword⟩ := hinv.object_eq hobj
  obtain ⟨hreal, -, -⟩ := hinv.new_block (G.size obj + 1)
  have hout : ∀ i < G.size obj, ∀ j < G.size obj + 1,
      obj + i ≠ pg.allocate_outside_nursery_large s.allocated (G.size obj + 1) + j :=
    fun i hi j hj heq => G.unmapped obj hobj i hi (heq ▸ pg.mapped _ _ j hj)
  have hmoved : (s.copy pg obj (G.size obj)).moved obj
      = pg.allocate_outside_nursery_large s.allocated (G.size obj + 1)
        - pg.stm_object_pages := by
    unfold Heap.moved Heap.copy
    rw [if_neg (G.ne_null obj hobj)]
    dsimp only
    rw [List.lookup_cons_self, Option.getD_some]
  unfold prebuilt_trace
  rw [if_neg (G.ne_null obj hobj), lookup_eq_none.mpr hnew, hsize, hmoved]
  dsimp only [_stm_allocate_old]
  rw [hreal, c_assert_eq_some]
  refine ⟨?_, rfl⟩
  -- the flags that are copied are those of the static object
  have hflags := (@copied_memory_eq obj s.memory _ _ hout).2 0 G.size_pos
  rw [Nat.add_zero, hword 0 G.size_pos, Nat.add_zero] at hflags
  exact (congrArg stm_flags hflags).trans (G.flags obj hobj)

/-- The words that a copy changes are those of the new block. -/
theorem StaticGraph.Inv.copy_memory (hinv : G.Inv calls cur moved s) (hobj : obj ∈ G.objects) :
    let p := pg.allocate_outside_nursery_large s.allocated (G.size obj + 1)
    (∀ k, (∀ j < G.size obj + 1, k ≠ p + j) →
      (s.copy pg obj (G.size obj)).memory k = s.memory k) ∧
    (s.copy pg obj (G.size obj)).memory p
      = set_stm_flags (G.memory obj) GCFLAG_WRITE_BARRIER ∧
    ∀ i < G.size obj, i ≠ 0 →
      (s.copy pg obj (G.size obj)).memory (p + i) = G.memory (obj + i) := by
  obtain ⟨-, hword⟩ := hinv.object_eq hobj
  obtain ⟨hout, hin⟩ := @copied_memory_eq obj s.memory
    (pg.allocate_outside_nursery_large s.allocated (G.size obj + 1)) (G.size obj)
    fun i hi j hj heq => G.unmapped obj hobj i hi (heq ▸ pg.mapped _ _ j hj)
  refine ⟨fun k hk => ?_, ?_, fun i hi hne => ?_⟩
  · have hp : k ≠ pg.allocate_outside_nursery_large s.allocated (G.size obj + 1) :=
      hk 0 (Nat.succ_pos _)
    exact (Function.update_of_ne hp ..).trans (hout k hk)
  · have hzero : copied_memory s.memory
        (pg.allocate_outside_nursery_large s.allocated (G.size obj + 1)) obj (G.size obj)
        (pg.allocate_outside_nursery_large s.allocated (G.size obj + 1)) = G.memory obj :=
      (hin 0 G.size_pos).trans (hword 0 G.size_pos)
    unfold Heap.copy
    dsimp only
    rw [Function.update_self, hzero]
  · unfold Heap.copy
    dsimp only
    rw [Function.update_of_ne (by omega), hin i hi, hword i hi]

/-- A copy that is in the tree stays as it is, when neither its words nor the
places of the objects that it refers to change. -/
theorem StaticGraph.Copied.congr {done : List ℕ} (hcopied : G.Copied s obj nobj done)
    (hdone : ∀ i ∈ done, i ∈ G.references obj)
    (hmemory : ∀ i < G.size obj, s'.memory (pg.stm_object_pages + nobj + i)
      = s.memory (pg.stm_object_pages + nobj + i))
    (hnodup : (s.tree_prebuilt_objs.map Prod.fst).Nodup)
    (hnodup' : (s'.tree_prebuilt_objs.map Prod.fst).Nodup)
    (hsub : s.tree_prebuilt_objs ⊆ s'.tree_prebuilt_objs) : G.Copied s' obj nobj done := by
  refine ⟨(hmemory 0 G.size_pos).trans hcopied.header, fun i hi => ?_, fun i hi hne hnot => ?_⟩
  · obtain ⟨hword, hcopy⟩ := hcopied.reference i hi
    rw [hmemory i (cb.trace_lt _ i (hdone i hi)).2, hword, moved_of_subset hnodup hnodup' hsub hcopy]
    exact ⟨rfl, hcopy.imp_right fun ⟨nobj, hmem⟩ => ⟨nobj, hsub hmem⟩⟩
  · rw [hmemory i hi]
    exact hcopied.rest i hi hne hnot

theorem StaticGraph.Inv.copy (hinv : G.Inv calls cur moved s)
    (hobj : obj ∈ G.objects) (hreached : G.Reached calls obj) (hnew : ¬ s.HasCopy obj) :
    G.Inv calls cur moved (s.copy pg obj (G.size obj)) := by
  obtain ⟨hreal, hne, hapart⟩ := hinv.new_block (G.size obj + 1)
  obtain ⟨hout, hheader, hrest⟩ := hinv.copy_memory hobj
  have hkey : obj ∉ s.tree_prebuilt_objs.map Prod.fst := by
    intro hmem
    obtain ⟨e, he, rfl⟩ := List.mem_map.mp hmem
    exact hnew ⟨e.2, he⟩
  have hnodup : ((s.copy pg obj (G.size obj)).tree_prebuilt_objs.map Prod.fst).Nodup :=
    List.nodup_cons.mpr ⟨hkey, hinv.keys_nodup⟩
  have hsub : s.tree_prebuilt_objs ⊆ (s.copy pg obj (G.size obj)).tree_prebuilt_objs :=
    List.subset_cons_self _ _
  have hpending : ∀ e ∈ s.tree_prebuilt_objs, pg.stm_object_pages + e.2
      ≠ pg.allocate_outside_nursery_large s.allocated (G.size obj + 1) := by
    intro e he heq
    have := hapart e he 0 (Nat.succ_pos _) 0 (Nat.succ_pos _)
    omega
  refine ⟨fun a ha => ?_, hnodup, ?_, ?_, ?_, ?_, ?_, ?_, ?_, ?_, ?_, ?_, fun o ho => ?_,
    hinv.references, fun o ho => ?_⟩
  · rw [hout a fun j hj heq => ha (heq ▸ pg.mapped _ _ j hj)]
    exact hinv.static a ha
  · exact List.forall_mem_cons.mpr ⟨⟨hobj, hreached⟩, hinv.objects⟩
  · unfold Heap.copy
    dsimp only
    rw [List.map_cons, ← hinv.allocated, hreal]
  · unfold Heap.copy
    dsimp only
    rw [List.map_cons, List.reverse_cons, ← hinv.objs]
  · exact List.forall_mem_cons.mpr ⟨hne, hinv.ne_null⟩
  · refine List.forall_mem_cons.mpr ⟨fun i hi => ?_, hinv.mapped⟩
    dsimp only
    rw [hreal]
    exact pg.mapped _ _ i hi
  · exact List.pairwise_cons.mpr ⟨hapart, hinv.apart⟩
  · refine List.forall_mem_cons.mpr ⟨?_, fun e he => ?_⟩
    · rw [hinv.fresh obj hnew]
      refine ⟨?_, nofun, fun i hi hi0 _ => ?_⟩
      · rw [hreal]
        exact hheader
      · rw [hreal]
        exact hrest i hi hi0
    · refine (hinv.copied e he).congr (hinv.references e.1) (fun i hi => hout _ fun j hj => ?_)
        hinv.keys_nodup hnodup hsub
      have := hapart e he j hj i (by omega)
      omega
  · refine List.forall_mem_cons.mpr ⟨?_, fun realobj hmem => ?_⟩
    · refine ⟨_, List.mem_cons_self, hreal.symm, hinv.fresh obj hnew, fun hcopy => ?_⟩
      exact hnew (hinv.current obj hcopy)
    · obtain ⟨e, he, h⟩ := hinv.pending realobj hmem
      exact ⟨e, hsub he, h⟩
  · refine List.nodup_cons.mpr ⟨fun hmem => ?_, hinv.pending_nodup⟩
    obtain ⟨e, he, heq, -⟩ := hinv.pending _ hmem
    exact hpending e he heq.symm
  · refine List.forall_mem_cons.mpr ⟨Or.inl ?_, fun e he => ?_⟩
    · dsimp only
      rw [hreal]
      exact List.mem_cons_self
    · exact (hinv.complete e he).imp_left fun h => List.mem_cons_of_mem _ h
  · exact hinv.fresh o fun ⟨nobj, hmem⟩ => ho ⟨nobj, hsub hmem⟩
  · obtain ⟨nobj, hmem⟩ := hinv.current o ho
    exact ⟨nobj, hsub hmem⟩

/-! ## The references -/

/-- Every turn of the loop takes one away: the objects without a copy count
twice, and an object that is copied adds one to the list. -/
def StaticGraph.turns (G : StaticGraph cb pg) (s : Heap) : ℕ :=
  2 * (G.objects.card - s.tree_prebuilt_objs.length) + s.prebuilt_objects_to_trace.length

theorem StaticGraph.Inv.length_le (hinv : G.Inv calls cur moved s) :
    s.tree_prebuilt_objs.length ≤ G.objects.card := by
  rw [← List.length_map (f := Prod.fst), ← List.toFinset_card_of_nodup hinv.keys_nodup]
  refine Finset.card_le_card fun obj hobj => ?_
  obtain ⟨e, he, rfl⟩ := List.mem_map.mp (List.mem_toFinset.mp hobj)
  exact (hinv.objects e he).1

/-- The reference gets the place of the copy, which is made if there is none. -/
theorem StaticGraph.Inv.prebuilt_trace (hinv : G.Inv calls cur moved s)
    (hobj : obj = 0 ∨ obj ∈ G.objects ∧ G.Reached calls obj) :
    Returns (prebuilt_trace cb pg s obj) fun r => r.1 = r.2.moved obj ∧
      (obj = 0 ∨ r.2.HasCopy obj) ∧ G.Inv calls cur moved r.2 ∧
      s.tree_prebuilt_objs ⊆ r.2.tree_prebuilt_objs ∧ G.turns r.2 ≤ G.turns s := by
  by_cases hzero : obj = 0
  · unfold Prebuilt.prebuilt_trace
    rw [if_pos hzero]
    refine returns_some ⟨?_, Or.inl hzero, hinv, List.Subset.refl _, Nat.le_refl _⟩
    unfold Heap.moved
    rw [if_pos hzero]
  · obtain ⟨hmem, hreached⟩ := hobj.resolve_left hzero
    by_cases hcopy : s.HasCopy obj
    · obtain ⟨nobj, hentry⟩ := hcopy
      unfold Prebuilt.prebuilt_trace
      rw [if_neg hzero, (lookup_eq_some hinv.keys_nodup).mpr hentry]
      refine returns_some ⟨?_, Or.inr ⟨nobj, hentry⟩, hinv, List.Subset.refl _, Nat.le_refl _⟩
      exact (moved_of_mem hinv.keys_nodup hzero hentry).symm
    · have hnext := hinv.copy hmem hreached hcopy
      rw [hinv.prebuilt_trace_of_new hmem hcopy]
      refine returns_some ⟨rfl, Or.inr ⟨_, List.mem_cons_self⟩, hnext,
        List.subset_cons_self _ _, ?_⟩
      have hle := hnext.length_le
      unfold StaticGraph.turns
      unfold Heap.copy at hle ⊢
      dsimp only at hle ⊢
      rw [List.length_cons] at hle ⊢
      rw [List.length_cons]
      omega

/-- A reference of the copy that is being traced. -/
theorem StaticGraph.Inv.rewrite (hinv : G.Inv calls (some obj) moved s)
    (hentry : (obj, nobj) ∈ s.tree_prebuilt_objs) {i : ℕ} (hi : i ∈ G.references obj)
    (hcopy : G.memory (obj + i) = 0 ∨ s.HasCopy (G.memory (obj + i))) :
    G.Inv calls (some obj) (Function.update moved obj (moved obj ++ [i]))
      { s with
        memory := Function.update s.memory (pg.stm_object_pages + nobj + i)
          (s.moved (G.memory (obj + i))) } := by
  obtain ⟨hi0, hsize⟩ := cb.trace_lt _ i hi
  have hsize : i < G.size obj := hsize
  refine ⟨fun a ha => ?_, hinv.keys_nodup, hinv.objects, hinv.allocated, hinv.objs,
    hinv.ne_null, hinv.mapped, hinv.apart, fun e he => ?_, fun realobj hmem => ?_,
    hinv.pending_nodup, fun e he => ?_, fun o ho => ?_, fun o j hj => ?_, hinv.current⟩
  · have hne : a ≠ pg.stm_object_pages + nobj + i := fun h =>
      ha (h ▸ hinv.mapped _ hentry i (Nat.lt_succ_of_lt hsize))
    exact (Function.update_of_ne hne ..).trans (hinv.static a ha)
  · by_cases hobj : e.1 = obj
    · -- the copy that is being traced
      have heq : e = (obj, nobj) := by
        refine Prod.ext hobj ?_
        have hlookup := (lookup_eq_some hinv.keys_nodup).mpr he
        rw [hobj, (lookup_eq_some hinv.keys_nodup).mpr hentry] at hlookup
        exact (Option.some.inj hlookup).symm
      subst heq
      rw [Function.update_self]
      have hcopied := hinv.copied _ hentry
      refine ⟨?_, fun j hj => ?_, fun j hj hj0 hnot => ?_⟩
      · exact (Function.update_of_ne (by omega) ..).trans hcopied.header
      · dsimp only
        by_cases hji : j = i
        · rw [hji, Function.update_self]
          exact ⟨rfl, hcopy⟩
        · rw [Function.update_of_ne (by omega)]
          exact hcopied.reference j ((List.mem_append.mp hj).resolve_right fun h =>
            hji (List.mem_singleton.mp h))
      · rw [List.mem_append, List.mem_singleton, not_or] at hnot
        exact (Function.update_of_ne (by omega) ..).trans (hcopied.rest j hj hj0 hnot.1)
    · rw [Function.update_of_ne hobj]
      refine (hinv.copied e he).congr (hinv.references e.1) (fun j hj => ?_) hinv.keys_nodup
        hinv.keys_nodup (List.Subset.refl _)
      have := hinv.apart_of_ne he hentry (fun h => hobj (congrArg Prod.fst h))
        (Nat.lt_succ_of_lt hj) (Nat.lt_succ_of_lt hsize)
      exact Function.update_of_ne (by dsimp only at this; omega) ..
  · obtain ⟨e, he, heq, hnil, hcur⟩ := hinv.pending realobj hmem
    refine ⟨e, he, heq, ?_, hcur⟩
    rw [Function.update_of_ne fun h => hcur (congrArg some h.symm)]
    exact hnil
  · by_cases hobj : e.1 = obj
    · exact Or.inr (Or.inl (congrArg some hobj.symm))
    · rw [Function.update_of_ne hobj]
      exact hinv.complete e he
  · have hne : o ≠ obj := fun h => ho ⟨nobj, h ▸ hentry⟩
    rw [Function.update_of_ne hne]
    exact hinv.fresh o ho
  · rw [Function.update_apply] at hj
    split_ifs at hj with ho
    · rcases List.mem_append.mp hj with hj | hj
      · exact ho ▸ hinv.references obj j hj
      · exact ho ▸ List.mem_singleton.mp hj ▸ hi
    · exact hinv.references o j hj

/-- All references of a copy. -/
theorem StaticGraph.Inv.trace (hinv : G.Inv calls (some obj) moved s)
    (hentry : (obj, nobj) ∈ s.tree_prebuilt_objs) (hnil : moved obj = []) :
    Returns (trace cb pg s (pg.stm_object_pages + nobj)) fun s' =>
      G.Inv calls none (Function.update moved obj (G.references obj)) s' ∧
      s.tree_prebuilt_objs ⊆ s'.tree_prebuilt_objs ∧ G.turns s' ≤ G.turns s := by
  obtain ⟨hobj, hreached⟩ := hinv.objects _ hentry
  unfold Prebuilt.trace
  rw [((hinv.copied _ hentry).callbacks_eq (G.flags obj hobj) (hinv.references obj)).2]
  refine (foldlM_spec (fun done todo s' => done ++ todo = G.references obj ∧
    G.Inv calls (some obj) (Function.update moved obj done) s' ∧
    s.tree_prebuilt_objs ⊆ s'.tree_prebuilt_objs ∧ G.turns s' ≤ G.turns s)
    ?_ _ [] s ?_).mono fun s' h => ?_
  · rintro done i todo t ⟨hall, ht, hsub, hturns⟩
    have hi : i ∈ G.references obj := hall ▸ List.mem_append_right _ List.mem_cons_self
    obtain ⟨hi0, hsize⟩ := cb.trace_lt _ i hi
    -- the reference was not visited before, and still leads to the static object
    have hnodup : (done ++ i :: todo).Nodup := by
      rw [hall]
      exact cb.trace_nodup _
    have hnot : i ∉ done := fun hmem =>
      (List.nodup_append.mp hnodup).2.2 i hmem i List.mem_cons_self rfl
    have hword : t.memory (pg.stm_object_pages + nobj + i) = G.memory (obj + i) := by
      refine (ht.copied _ (hsub hentry)).rest i hsize (Nat.ne_of_gt hi0) ?_
      rw [Function.update_self]
      exact hnot
    have htarget : G.memory (obj + i) = 0 ∨
        G.memory (obj + i) ∈ G.objects ∧ G.Reached calls (G.memory (obj + i)) := by
      by_cases hzero : G.memory (obj + i) = 0
      · exact Or.inl hzero
      · obtain ⟨call, hcall, hpath⟩ := hreached
        exact Or.inr ⟨(G.closed obj hobj i hi).resolve_left hzero,
          call, hcall, hpath.tail ⟨i, hi, rfl, hzero⟩⟩
    unfold prebuilt_trace_at
    rw [hword]
    refine (ht.prebuilt_trace htarget).bind fun r hr => ?_
    obtain ⟨hmoved, hcopy, hr, hgrown, hfewer⟩ := hr
    have hnext := hr.rewrite (hgrown (hsub hentry)) hi hcopy
    rw [Function.update_self, Function.update_idem] at hnext
    refine returns_some ⟨by rw [← hall, List.append_assoc]; rfl, ?_,
      fun e he => hgrown (hsub he), Nat.le_trans hfewer hturns⟩
    rw [hmoved]
    exact hnext
  · refine ⟨rfl, ?_, List.Subset.refl _, Nat.le_refl _⟩
    rw [← hnil, Function.update_eq_self]
    exact hinv
  · obtain ⟨-, hs', hsub, hturns⟩ := h
    refine ⟨?_, hsub, hturns⟩
    refine { hs' with pending := fun realobj hmem => ?_, complete := fun e he => ?_, current := nofun }
    · obtain ⟨e, he, heq, hnil, -⟩ := hs'.pending realobj hmem
      exact ⟨e, he, heq, hnil, nofun⟩
    · rcases hs'.complete e he with h | h | h
      · exact Or.inl h
      · rw [← Option.some.inj h, Function.update_self]
        exact Or.inr (Or.inr rfl)
      · exact Or.inr (Or.inr h)

/-! ## The calls -/

/-- Nothing is left to trace. -/
def StaticGraph.Idle (G : StaticGraph cb pg) (calls : List ℕ) (s : Heap) : Prop :=
  s.prebuilt_objects_to_trace = [] ∧ ∃ moved, G.Inv calls none moved s

theorem StaticGraph.Inv.loop (hinv : G.Inv calls none moved s) :
    Returns (loop (trace_next cb pg) s) fun s' =>
      G.Idle calls s' ∧ s.tree_prebuilt_objs ⊆ s'.tree_prebuilt_objs := by
  refine loop.spec_decr_nat (fun t => G.turns t)
    (fun t => (∃ moved, G.Inv calls none moved t) ∧
      s.tree_prebuilt_objs ⊆ t.tree_prebuilt_objs)
    (fun t ht => ?_) ⟨⟨moved, hinv⟩, List.Subset.refl _⟩
  obtain ⟨⟨moved, ht⟩, hsub⟩ := ht
  unfold trace_next
  cases htodo : t.prebuilt_objects_to_trace with
  | nil => exact returns_some ⟨⟨htodo, moved, ht⟩, hsub⟩
  | cons realobj1 items =>
      obtain ⟨e, he, rfl, hnil, -⟩ := ht.pending realobj1 (htodo ▸ List.mem_cons_self)
      have hnodup := htodo ▸ ht.pending_nodup
      rw [List.nodup_cons] at hnodup
      -- the item is taken from the list, and its copy is the current one
      have hpopped : G.Inv calls (some e.1) moved
          { t with prebuilt_objects_to_trace := items } := by
        refine { ht with
          copied := fun e' he' => (ht.copied e' he').congr (ht.references e'.1) (fun _ _ => rfl)
            ht.keys_nodup ht.keys_nodup (List.Subset.refl _)
          pending := fun realobj hmem => ?_
          pending_nodup := hnodup.2
          complete := fun e' he' => ?_
          current := fun o ho => ⟨e.2, Option.some.inj ho ▸ he⟩ }
        · obtain ⟨e', he', heq, hnil', -⟩ := ht.pending realobj
            (htodo ▸ List.mem_cons_of_mem _ hmem)
          refine ⟨e', he', heq, hnil', fun hcur => ?_⟩
          have hlookup := (lookup_eq_some ht.keys_nodup).mpr he'
          rw [← Option.some.inj hcur, (lookup_eq_some ht.keys_nodup).mpr he] at hlookup
          rw [heq, ← Option.some.inj hlookup] at hmem
          exact hnodup.1 hmem
        · rcases ht.complete e' he' with h | h | h
          · rw [htodo, List.mem_cons] at h
            rcases h with h | h
            · have heq := ht.entry_unique he' he (Nat.add_left_cancel h)
              exact Or.inr (Or.inl (congrArg (fun e => some e.1) heq.symm))
            · exact Or.inl h
          · cases h
          · exact Or.inr (Or.inr h)
      refine (hpopped.trace he hnil).bind fun t' ht' => returns_some ?_
      obtain ⟨hinv', hsub', hturns⟩ := ht'
      refine ⟨⟨⟨_, hinv'⟩, fun e he => hsub' (hsub he)⟩, ?_⟩
      refine Nat.lt_of_le_of_lt hturns ?_
      dsimp only
      unfold StaticGraph.turns
      rw [htodo, List.length_cons]
      exact Nat.lt_succ_self _

/-- More calls are to come. -/
theorem StaticGraph.Inv.mono {calls' : List ℕ} (hinv : G.Inv calls cur moved s)
    (hcalls : calls ⊆ calls') : G.Inv calls' cur moved s :=
  { hinv with
    objects := fun e he => by
      obtain ⟨hmem, call, hcall, hpath⟩ := hinv.objects e he
      exact ⟨hmem, call, hcalls hcall, hpath⟩ }

/-- One call copies the object and all that it leads to. -/
theorem StaticGraph.Idle.stm_setup_prebuilt (hidle : G.Idle calls s) (hobj : obj ∈ G.objects) :
    Returns (stm_setup_prebuilt cb pg s obj) fun r => G.Idle (calls ++ [obj]) r.2 ∧
      s.tree_prebuilt_objs ⊆ r.2.tree_prebuilt_objs ∧ r.2.HasCopy obj ∧
      r.1 = r.2.moved obj := by
  obtain ⟨hempty, moved, hinv⟩ := hidle
  have hstart : { s with prebuilt_objects_to_trace := [] } = s := by
    rw [← hempty]
  unfold Prebuilt.stm_setup_prebuilt
  rw [hstart]
  have hnext := hinv.mono (List.subset_append_left calls [obj])
  have hreached : G.Reached (calls ++ [obj]) obj :=
    ⟨obj, List.mem_append_right _ List.mem_cons_self, .refl⟩
  refine (hnext.prebuilt_trace (Or.inr ⟨hobj, hreached⟩)).bind fun r hr => ?_
  obtain ⟨hmoved, hcopy, hr, hsub, -⟩ := hr
  refine hr.loop.bind fun t ht => returns_some ?_
  obtain ⟨ht, hsub'⟩ := ht
  obtain ⟨nobj, hmem⟩ := hcopy.resolve_left (G.ne_null obj hobj)
  obtain ⟨moved', hinv'⟩ := ht.2
  refine ⟨ht, fun e he => hsub' (hsub he), ⟨nobj, hsub' hmem⟩, ?_⟩
  rw [hmoved]
  exact (moved_of_subset hr.keys_nodup hinv'.keys_nodup hsub' (Or.inr ⟨nobj, hmem⟩)).symm

/-- All calls: each of them returns where its object is in the end. -/
theorem StaticGraph.Idle.setup_all : ∀ {more calls : List ℕ} {s : Heap}, G.Idle calls s →
    (∀ obj ∈ more, obj ∈ G.objects) →
    Returns (setup_all cb pg s more) fun r => G.Idle (calls ++ more) r.2 ∧
      s.tree_prebuilt_objs ⊆ r.2.tree_prebuilt_objs ∧
      (∀ obj ∈ more, r.2.HasCopy obj) ∧ r.1 = more.map r.2.moved
  | [], calls, s, hidle, _ => by
      rw [List.append_nil]
      exact returns_some ⟨hidle, List.Subset.refl _, nofun, rfl⟩
  | obj :: more, calls, s, hidle, hmore => by
      rw [List.forall_mem_cons] at hmore
      refine (hidle.stm_setup_prebuilt hmore.1).bind fun r hr => ?_
      obtain ⟨hr, hsub, ⟨nobj, hmem⟩, hobj⟩ := hr
      refine (hr.setup_all hmore.2).bind fun t ht => returns_some ?_
      obtain ⟨ht, hsub', hcopies, hobjs⟩ := ht
      obtain ⟨moved, hinv⟩ := hr.2
      obtain ⟨moved', hinv'⟩ := ht.2
      rw [List.append_assoc] at ht
      refine ⟨ht, fun e he => hsub' (hsub he),
        List.forall_mem_cons.mpr ⟨⟨nobj, hsub' hmem⟩, hcopies⟩, ?_⟩
      rw [List.map_cons, hobj, hobjs,
        moved_of_subset hinv.keys_nodup hinv'.keys_nodup hsub' (Or.inr ⟨nobj, hmem⟩)]

theorem StaticGraph.idle_init : G.Idle [] G.init := by
  refine ⟨rfl, fun _ => [], fun _ _ => rfl, List.nodup_nil, nofun, rfl, rfl, nofun, nofun,
    List.Pairwise.nil, nofun, nofun, List.nodup_nil, nofun, fun _ _ => rfl, nofun, nofun⟩

/-! ## What the calls leave -/

/-- `nobj` is an old object that has the words of the static object `obj`,
with every reference leading to the copy of its target. -/
structure StaticGraph.CopyOf (G : StaticGraph cb pg) (s : Heap) (obj nobj : ℕ) : Prop where
  size : cb.stmcb_size_rounded_up (object s.memory (pg.stm_object_pages + nobj)) = G.size obj
  references : cb.stmcb_trace (object s.memory (pg.stm_object_pages + nobj)) = G.references obj
  flags : s.memory (pg.stm_object_pages + nobj)
    = set_stm_flags (G.memory obj) GCFLAG_WRITE_BARRIER
  null : ∀ i ∈ G.references obj, G.memory (obj + i) = 0 →
    s.memory (pg.stm_object_pages + nobj + i) = 0
  target : ∀ i ∈ G.references obj, G.memory (obj + i) ≠ 0 →
    (G.memory (obj + i), s.memory (pg.stm_object_pages + nobj + i)) ∈ s.tree_prebuilt_objs
  other : ∀ i < G.size obj, i ≠ 0 → i ∉ G.references obj →
    s.memory (pg.stm_object_pages + nobj + i) = G.memory (obj + i)

theorem StaticGraph.Idle.copyOf (hidle : G.Idle calls s)
    (hentry : (obj, nobj) ∈ s.tree_prebuilt_objs) : G.CopyOf s obj nobj := by
  obtain ⟨hempty, moved, hinv⟩ := hidle
  have hcopied := hinv.copied _ hentry
  have hall : moved obj = G.references obj := by
    rcases hinv.complete _ hentry with h | h | h
    · rw [hempty] at h
      cases h
    · cases h
    · exact h
  obtain ⟨hsize, hrefs⟩ := hcopied.callbacks_eq (G.flags obj (hinv.objects _ hentry).1)
    (hinv.references obj)
  dsimp only at hcopied
  rw [hall] at hcopied
  refine ⟨hsize, hrefs, hcopied.header, fun i hi hzero => ?_, fun i hi hne => ?_, hcopied.rest⟩
  · obtain ⟨hword, -⟩ := hcopied.reference i hi
    rw [hword]
    unfold Heap.moved
    rw [if_pos hzero]
  · obtain ⟨hword, hcopy⟩ := hcopied.reference i hi
    obtain ⟨nobj', hmem⟩ := hcopy.resolve_left hne
    rw [hword, moved_of_mem hinv.keys_nodup hne hmem]
    exact hmem

/-- What the calls lead to is all copied. -/
theorem StaticGraph.Idle.hasCopy_iff (hidle : G.Idle calls s)
    (hcalls : ∀ call ∈ calls, s.HasCopy call) : s.HasCopy obj ↔ G.Reached calls obj := by
  constructor
  · rintro ⟨nobj, hmem⟩
    obtain ⟨moved, hinv⟩ := hidle.2
    exact (hinv.objects _ hmem).2
  · rintro ⟨call, hcall, hpath⟩
    induction hpath with
    | refl => exact hcalls call hcall
    | tail _ hpoints ih =>
        obtain ⟨nobj, hmem⟩ := ih
        obtain ⟨i, hi, rfl, hne⟩ := hpoints
        exact ⟨_, (hidle.copyOf hmem).target i hi hne⟩

/-- For every finite static graph and all calls on its objects: the calls
return, and what each returns is the copy of its object. Every object that the
calls lead to is copied once, no two copies are the same object, and the
copies are the static objects with their references redirected. Of the rest
only the flags differ. -/
theorem stm_setup_prebuilt_copies (G : StaticGraph cb pg) (calls : List ℕ)
    (hcalls : ∀ obj ∈ calls, obj ∈ G.objects) :
    Returns (setup_all cb pg G.init calls) fun (objs, s) =>
      List.Forall₂ (fun call obj => (call, obj) ∈ s.tree_prebuilt_objs) calls objs ∧
      (s.tree_prebuilt_objs.map Prod.fst).Nodup ∧
      (s.tree_prebuilt_objs.map Prod.snd).Nodup ∧
      s.testing_prebuilt_objs = (s.tree_prebuilt_objs.map Prod.snd).reverse ∧
      (∀ obj, s.HasCopy obj ↔ G.Reached calls obj) ∧
      ∀ obj nobj, (obj, nobj) ∈ s.tree_prebuilt_objs → G.CopyOf s obj nobj := by
  refine (StaticGraph.idle_init.setup_all hcalls).mono fun ⟨objs, s⟩ h => ?_
  obtain ⟨hidle, -, hcopies, hobjs⟩ := h
  obtain ⟨hempty, moved, hinv⟩ := hidle
  have hidle : G.Idle calls s := ⟨hempty, moved, hinv⟩
  refine ⟨?_, hinv.keys_nodup, ?_, hinv.objs, fun obj => hidle.hasCopy_iff hcopies,
    fun obj nobj hentry => hidle.copyOf hentry⟩
  · dsimp only at hobjs
    rw [hobjs, List.forall₂_map_right_iff, List.forall₂_same]
    intro call hcall
    obtain ⟨nobj, hmem⟩ := hcopies call hcall
    rw [moved_of_mem hinv.keys_nodup (G.ne_null call (hcalls call hcall)) hmem]
    exact hmem
  · refine List.Nodup.map_on (fun e he e' he' h => hinv.entry_unique he he' h) ?_
    exact hinv.keys_nodup.of_map

/-- Objects that have their size in the upper half of the first word, and
references in all others. -/
def words : Callbacks where
  stmcb_size_rounded_up obj := max 2 (obj 0 / 2 ^ 32)
  stmcb_trace obj := List.range' 1 (max 2 (obj 0 / 2 ^ 32) - 1)
  two_le_size obj := Nat.le_max_left _ _
  trace_lt obj i hi := by
    rw [List.mem_range'_1] at hi
    omega
  trace_nodup obj := List.nodup_range'
  congr obj obj' h _ := by
    rw [h]
    exact ⟨rfl, rfl⟩

/-- Every block is put behind all the others. -/
def behind (blocks : List (ℕ × ℕ)) : ℕ :=
  blocks.foldr (fun block p => max p (block.1 + block.2)) 1001

theorem le_behind (blocks : List (ℕ × ℕ)) :
    1001 ≤ behind blocks ∧ ∀ block ∈ blocks, block.1 + block.2 ≤ behind blocks := by
  induction blocks with
  | nil => exact ⟨Nat.le_refl _, nofun⟩
  | cons block blocks ih =>
      refine ⟨Nat.le_trans ih.1 (Nat.le_max_left _ _), List.forall_mem_cons.mpr
        ⟨Nat.le_max_right _ _, fun other hmem => ?_⟩⟩
      exact Nat.le_trans (ih.2 other hmem) (Nat.le_max_left _ _)

def last_pages : Pages where
  stm_object_pages := 1000
  Mapped a := 1000 ≤ a
  allocate_outside_nursery_large blocks _ := behind blocks
  pages_lt blocks _ := (le_behind blocks).1
  mapped blocks _ i _ := by
    have := (le_behind blocks).1
    omega
  disjoint blocks _ block hmem i _ j hj := by
    have := (le_behind blocks).2 block hmem
    omega

/-- Two objects that refer to each other. -/
def two_objects : StaticGraph words last_pages where
  memory a :=
    if a = 10 ∨ a = 20 then 2 * 2 ^ 32 else if a = 11 then 20 else if a = 21 then 10 else 0
  objects := {10, 20}
  ne_null := by decide
  flags := by decide
  closed := by decide
  unmapped obj hobj i hi := by
    rw [Finset.mem_insert, Finset.mem_singleton] at hobj
    rcases hobj with rfl | rfl
    · change i < 2 at hi
      change ¬ 1000 ≤ 10 + i
      omega
    · change i < 2 at hi
      change ¬ 1000 ≤ 20 + i
      omega

theorem stm_setup_prebuilt_copies_two :
    Returns (setup_all words last_pages two_objects.init [10, 20, 10]) fun (objs, s) =>
      List.Forall₂ (fun call obj => (call, obj) ∈ s.tree_prebuilt_objs) [10, 20, 10] objs ∧
      (s.tree_prebuilt_objs.map Prod.fst).Nodup ∧
      (s.tree_prebuilt_objs.map Prod.snd).Nodup ∧
      s.testing_prebuilt_objs = (s.tree_prebuilt_objs.map Prod.snd).reverse ∧
      (∀ obj, s.HasCopy obj ↔ two_objects.Reached [10, 20, 10] obj) ∧
      ∀ obj nobj, (obj, nobj) ∈ s.tree_prebuilt_objs → two_objects.CopyOf s obj nobj :=
  stm_setup_prebuilt_copies two_objects [10, 20, 10] (by decide)

/-- The first word of a copy is not the one of the static object. -/
theorem flags_of_copy_differ :
    Returns (setup_all words last_pages two_objects.init [10]) fun (_, s) =>
      ∃ nobj, (10, nobj) ∈ s.tree_prebuilt_objs ∧ 0 ∉ two_objects.references 10 ∧
        s.memory (last_pages.stm_object_pages + nobj) ≠ two_objects.memory 10 := by
  refine (two_objects.idle_init.setup_all (by decide)).mono fun ⟨objs, s⟩ h => ?_
  obtain ⟨hidle, -, hcopies, -⟩ := h
  obtain ⟨nobj, hmem⟩ := hcopies 10 List.mem_cons_self
  refine ⟨nobj, hmem, by decide, ?_⟩
  rw [(hidle.copyOf hmem).flags]
  decide

end Prebuilt

end Stmgc.C7
