/-
Minor collections: `nursery.c`, with the write barriers of `core.c` which tell
it what to trace.

The machine is one segment and the program that runs there. An object has its
flags and the references in it, which are the items that its cards are about.
Lists that grow at the end and are popped there have their last item first. The
roots are the shadow stack, from its top, and then `thread_local_obj`. The write
lock of an old object is taken as soon as the object is in
`modified_old_objects`. What a collection does for other segments, weakrefs,
finalizers and markers is not here, neither are the shadows of `HashId`, the
objects of `young_outside_nursery`, nor what `_cards_cleared_in_object` asserts
about cards.

Next to it stand the same programs over a graph of objects without any memory:
there, an object has a name that is never used again, and collections and
barriers do nothing at all.
-/
import Stmgc.Lib.Renaming
import Stmgc.C7.Cards
import Stmgc.C7.HashId

namespace Stmgc.C7.Nursery

open Function Stmgc.Lib
open HashId (NURSERY_START NURSERY_END)

/-! ## Data -/

/-- `uses_cards` is `obj_should_use_cards`. -/
structure Obj where
  write_barrier : Bool
  cards_set : Bool
  overflow_number : ℕ
  uses_cards : Bool
  refs : List (Option ℕ)

/-- What is at the address of an object. Once it has moved, the first word is
`GCWORD_MOVED`, and the second one is where to. -/
inductive Cell where
  | object (o : Obj)
  | moved (nobj : ℕ)

/-- Where a reference can be. -/
inductive Slot where
  | field (obj i : ℕ)
  | root (i : ℕ)

/-- The card bytes are found by object and card index. `unused` is what
`allocate_outside_nursery_large` will return. -/
structure St where
  heap : ℕ → Option Cell
  cards : ℕ → ℕ → ℕ
  roots : List (Option ℕ)
  nursery_current : ℕ
  overflow_number : ℕ
  minor_collect_will_commit_now : Bool
  modified_old_objects : List ℕ
  objects_pointing_to_nursery : Option (List ℕ)
  old_objects_with_cards : List ℕ
  unused : List ℕ

def St.object (s : St) (obj : ℕ) : Option Obj :=
  match s.heap obj with
  | some (.object o) => some o
  | _ => none

def St.put (s : St) (obj : ℕ) (o : Obj) : St :=
  { s with heap := update s.heap obj (some (.object o)) }

def St.load (s : St) : Slot → Option (Option ℕ)
  | .field obj i => (s.object obj).bind (·.refs[i]?)
  | .root i => s.roots[i]?

def St.store (s : St) (slot : Slot) (v : Option ℕ) : Option St :=
  match slot with
  | .field obj i => (s.object obj).map fun o => s.put obj { o with refs := o.refs.set i v }
  | .root i => some { s with roots := s.roots.set i v }

/-- A new object is zeroed. -/
def new_object (uses_cards : Bool) (nrefs : ℕ) : Obj where
  write_barrier := false
  cards_set := false
  overflow_number := 0
  uses_cards := uses_cards
  refs := List.replicate nrefs none

/-! ## Tracing -/

/-- Running out of memory is fatal. -/
def allocate_outside_nursery_large (s : St) : Option (St × ℕ) :=
  match s.unused with
  | [] => none
  | nobj :: unused => some ({ s with unused := unused }, nobj)

/-- The end of `minor_trace_if_young`. -/
def must_trace_later (s : St) (nobj : ℕ) (o : Obj) : Option St := do
  c_assert (o.overflow_number = 0)
  let lst ← s.objects_pointing_to_nursery
  c_assert (o.cards_set = false)
  return { s.put nobj { o with
      overflow_number := if s.minor_collect_will_commit_now then 0 else s.overflow_number } with
    objects_pointing_to_nursery := some (nobj :: lst) }

/-- `minor_trace_if_young`, and what `*pobj` is afterwards. -/
def minor_trace_if_young (s : St) : Option ℕ → Option (St × Option ℕ)
  | none => some (s, none)
  | some obj =>
    if obj < NURSERY_END then
      match s.heap obj with
      | some (.moved nobj) => some (s, some nobj)
      | some (.object o) => do
          let (s, nobj) ← allocate_outside_nursery_large s
          let s ← must_trace_later s nobj o
          return ({ s with heap := update s.heap obj (some (.moved nobj)) }, some nobj)
      | none => none
    else some (s, some obj)

def trace_slot (s : St) (pobj : Slot) : Option St := do
  let v ← s.load pobj
  let (s, v) ← minor_trace_if_young s v
  s.store pobj v

/-- What `stmcb_trace_cards` visits, and with all the indices `stmcb_trace`. -/
def items (obj start stop : ℕ) : List Slot := (List.range' start (stop - start)).map (Slot.field obj)

/-- `_collect_now`. -/
def collect_now (s : St) (obj : ℕ) : Option St := do
  let o ← s.object obj
  c_assert (¬ obj < NURSERY_END)
  c_assert (o.cards_set = false)
  if o.write_barrier then return s
  else
    let s ← (items obj 0 o.refs.length).foldlM trace_slot s
    let o ← s.object obj
    return s.put obj { o with write_barrier := true }

/-- The loop of `_trace_card_object`, where no card byte is read or written by
the callback: what it visits, and the bytes afterwards. -/
def marked_items (s : St) (obj : ℕ) (o : Obj) : List Slot :=
  ((List.range' 1 (get_index_to_card_index (o.refs.length - 1))).filter
    (s.cards obj · = CARD_MARKED)).flatMap fun card_index =>
      items obj (get_card_index_to_index card_index)
        (min (get_card_index_to_index (card_index + 1)) o.refs.length)

def clear_cards (s : St) (obj mark_value : ℕ) : ℕ → ℕ → ℕ :=
  update s.cards obj fun card_index =>
    if s.cards obj card_index = CARD_MARKED then mark_value else s.cards obj card_index

/-- `_trace_card_object`. -/
def trace_card_object (s : St) (obj : ℕ) (o : Obj) : Option St := do
  c_assert (¬ obj < NURSERY_END)
  c_assert (o.write_barrier = true)
  let mark_value := if o.overflow_number = s.overflow_number then CARD_CLEAR else CARD_MARKED_OLD
  let s ← (marked_items s obj o).foldlM trace_slot s
  let o ← s.object obj
  return { s.put obj { o with cards_set := false } with cards := clear_cards s obj mark_value }

/-- One turn of the loop of `collect_cardrefs_to_nursery`. -/
def collect_cardrefs (s : St) (obj : ℕ) : Option St := do
  c_assert (¬ obj < NURSERY_END)
  let o ← s.object obj
  -- sometimes we remove the CARDS_SET in the WB slowpath
  if o.cards_set then trace_card_object s obj o else return s

/-- Nothing is appended to the list that is popped from here. -/
def collect_cardrefs_to_nursery (s : St) : Option St := do
  let s ← s.old_objects_with_cards.foldlM collect_cardrefs s
  return { s with old_objects_with_cards := [] }

def collect_modified_old_objects (s : St) : Option St := s.modified_old_objects.foldlM collect_now s

def collect_roots_in_nursery (s : St) : Option St :=
  ((List.range s.roots.length).map Slot.root).foldlM trace_slot s

def collect_oldrefs_turn (s : St) : Option (ControlFlow St St) :=
  match s.objects_pointing_to_nursery with
  | none => none
  | some [] => some (.done s)
  | some (obj :: lst) => do
      let s ← collect_now { s with objects_pointing_to_nursery := some lst } obj
      return .cont s

def collect_oldrefs_to_nursery (s : St) : Option St := loop collect_oldrefs_turn s

/-! ## Collecting -/

def throw_away_nursery (s : St) : St :=
  { s with
    heap := fun x => if NURSERY_START ≤ x ∧ x < s.nursery_current then none else s.heap x
    nursery_current := NURSERY_START }

/-- `_do_minor_collection`. -/
def do_minor_collection (s : St) (commit : Bool) : Option St := do
  let s := { s with minor_collect_will_commit_now := commit }
  let s ← match s.objects_pointing_to_nursery with
    | none => do
        let s ← collect_cardrefs_to_nursery { s with objects_pointing_to_nursery := some [] }
        collect_modified_old_objects s
    | some _ => collect_cardrefs_to_nursery s
  let s ← collect_roots_in_nursery s
  let s ← collect_oldrefs_to_nursery s
  let s := throw_away_nursery s
  c_assert (s.objects_pointing_to_nursery = some [])
  return s

/-! ## Write barriers -/

/-- `_reset_object_cards`, less the flag. -/
def reset_object_cards (s : St) (obj : ℕ) (o : Obj) (mark_value : ℕ) (mark_all : Bool) : ℕ → ℕ → ℕ :=
  update s.cards obj fun card_index =>
    if 1 ≤ card_index ∧ card_index ≤ get_index_to_card_index (o.refs.length - 1)
        ∧ (mark_all = true ∨ s.cards obj card_index ≠ CARD_CLEAR) then mark_value
    else s.cards obj card_index

/-- The end of both slow paths: either `CARDS_SET`, or neither flag and the
object in `lst`, where `mark_value` is for cards that were set. -/
def change_flags (s : St) (obj : ℕ) (o : Obj) (mark_card : Bool) (lst : Option (List ℕ))
    (mark_value : ℕ) (mark_all : Bool) : St :=
  if mark_card then
    { s.put obj { o with cards_set := true } with
      old_objects_with_cards := obj :: s.old_objects_with_cards }
  else
    { s.put obj { o with write_barrier := false, cards_set := false } with
      cards := if o.cards_set then reset_object_cards s obj o mark_value mark_all else s.cards
      objects_pointing_to_nursery := lst }

/-- `write_slowpath_overflow_obj`. -/
def write_slowpath_overflow_obj (s : St) (obj : ℕ) (o : Obj) (mark_card : Bool) : Option St := do
  let lst ← s.objects_pointing_to_nursery
  c_assert (mark_card = true → o.cards_set = false)
  return change_flags s obj o mark_card (some (obj :: lst)) CARD_CLEAR false

/-- `write_slowpath_common`. -/
def write_slowpath_common (s : St) (obj : ℕ) (mark_card : Bool) : Option St := do
  let o ← s.object obj
  c_assert (¬ obj < NURSERY_END)
  c_assert (o.write_barrier = true)
  if o.overflow_number = s.overflow_number then
    c_assert (obj ∉ s.modified_old_objects)
    write_slowpath_overflow_obj s obj o mark_card
  else
    c_assert (o.cards_set = true → obj ∈ s.modified_old_objects)
    -- the lock is 0, or we own it already
    let s := { s with modified_old_objects := s.modified_old_objects.insert obj }
    return change_flags s obj o mark_card (s.objects_pointing_to_nursery.map (obj :: ·))
      CARD_MARKED_OLD true

def stm_write (s : St) (obj : ℕ) : Option St := do
  let o ← s.object obj
  if o.write_barrier then write_slowpath_common s obj false else return s

/-- `_stm_write_slowpath_card`, where a card must be marked. -/
def mark_card (s : St) (obj index : ℕ) : Option St := do
  let o ← s.object obj
  c_assert (o.write_barrier = true)
  c_assert (o.cards_set = true)
  c_assert (o.overflow_number = s.overflow_number ↔ obj ∉ s.modified_old_objects)
  return { s with
    cards := update s.cards obj (update (s.cards obj) (get_index_to_card_index index) CARD_MARKED) }

def stm_write_card (s : St) (obj index : ℕ) : Option St := do
  let o ← s.object obj
  if o.write_barrier then
    if o.cards_set then mark_card s obj index
    else
      let s ← write_slowpath_common s obj o.uses_cards
      if o.uses_cards then mark_card s obj index else return s
  else return s

/-! ## The machine -/

/-- Where the program can read and write: a root, or a field of the object that
a root points to. -/
inductive Place where
  | root (i : ℕ)
  | field (i k : ℕ)

def Place.slot (roots : List (Option ℕ)) : Place → Option Slot
  | .root i => some (.root i)
  | .field i k => roots[i]?.join.map (.field · k)

/-- A new object is pushed on the shadow stack. The addresses are those that
`largemalloc.c` chooses. -/
inductive Act where
  | stm_allocate (size nrefs : ℕ) (uses_cards : Bool)
  | push (p : Place)
  | pop
  | store (p : Place) (i : ℕ)
  | stm_write (i : ℕ)
  | stm_write_card (i index : ℕ)
  | stm_collect (addrs : List ℕ)

/-- The object may be written to there. -/
def St.may_store (s : St) : Slot → Bool
  | .field obj i => (s.object obj).any fun o => !o.write_barrier ||
      o.cards_set && s.cards obj (get_index_to_card_index i) == CARD_MARKED
  | _ => true

/-- The addresses of the objects in the nursery. -/
def St.young_objects (s : St) : List ℕ :=
  (List.range' NURSERY_START (s.nursery_current - NURSERY_START)).filter fun x => (s.object x).isSome

/-- `largemalloc.c` may return these addresses, and they are enough to move
everything out. -/
def St.may_collect (s : St) (addrs : List ℕ) : Bool :=
  decide addrs.Nodup && addrs.all (fun nobj => decide (NURSERY_END ≤ nobj) && (s.heap nobj).isNone) &&
    decide (s.young_objects.length ≤ addrs.length)

/-- What the program cannot do is blocked. -/
def orBlocked {α : Type} (r : Option α) (f : α → Outcome St) : Outcome St :=
  match r with
  | none => .blocked
  | some x => f x

def step (s : St) : Act → Outcome St
  | .stm_allocate size nrefs uses_cards =>
    guarded (16 ≤ size ∧ size % 8 = 0 ∧ s.nursery_current + size ≤ NURSERY_END) <|
      .next { s.put s.nursery_current (new_object uses_cards nrefs) with
        nursery_current := s.nursery_current + size
        roots := some s.nursery_current :: s.roots }
  | .push p => orBlocked ((p.slot s.roots).bind s.load) fun v =>
      .next { s with roots := v :: s.roots }
  | .pop => guarded (1 < s.roots.length) (.next { s with roots := s.roots.tail })
  | .store p i => orBlocked (p.slot s.roots) fun slot => orBlocked s.roots[i]? fun v =>
      guarded ((s.load slot).isSome = true ∧ s.may_store slot = true) (.ofOption (s.store slot v))
  | .stm_write i => orBlocked (s.roots[i]?.join) fun obj => .ofOption (stm_write s obj)
  | .stm_write_card i index => orBlocked (s.roots[i]?.join) fun obj =>
      guarded ((s.load (.field obj index)).isSome = true) (.ofOption (stm_write_card s obj index))
  | .stm_collect addrs => guarded (s.may_collect addrs = true) <|
      .ofOption (do_minor_collection { s with unused := addrs } false)

/-! ## The program without memory -/

/-- The objects by name, and the roots. -/
structure Graph where
  heap : List (List (Option ℕ))
  roots : List (Option ℕ)

def Graph.load (g : Graph) : Slot → Option (Option ℕ)
  | .field n i => g.heap[n]?.bind (·[i]?)
  | .root i => g.roots[i]?

def Graph.store (g : Graph) (slot : Slot) (v : Option ℕ) : Graph :=
  match slot with
  | .field n i => { g with heap := g.heap.modify n (·.set i v) }
  | .root i => { g with roots := g.roots.set i v }

def Graph.step (g : Graph) : Act → Option Graph
  | .stm_allocate _ nrefs _ => some
      { heap := g.heap ++ [List.replicate nrefs none]
        roots := some g.heap.length :: g.roots }
  | .push p => ((p.slot g.roots).bind g.load).map fun v => { g with roots := v :: g.roots }
  | .pop => some { g with roots := g.roots.tail }
  | .store p i => do
      let slot ← p.slot g.roots
      let v ← g.roots[i]?
      return g.store slot v
  | _ => some g

end Stmgc.C7.Nursery
