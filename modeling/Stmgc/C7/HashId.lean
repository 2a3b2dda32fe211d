/-
`stm_id` and `stm_identityhash`: `hash_id.c`, and the shadows of `nursery.c`.

The id of an object is its address, or for an object in the nursery the
address where it will go: that of its shadow, which is allocated when the id is
first asked for. The machine has what decides about this. The nursery of each
segment is memory, with the flags and the forwarding addresses in it; and there
is one memory for the objects outside, which are all in chunks of
`largemalloc.c`. What the segments see there differs only in objects that some
transaction writes to, but never in `GCFLAG_HAS_SHADOW` or behind an object.

A logical object has a number which it keeps when it moves. All requests are
recorded with that number.
-/
import Stmgc.Lib.Machine
import Stmgc.C7.Pages

namespace Stmgc.C7.HashId

open Stmgc.Lib

/-! ## Data -/

/-- `NB_PAGES * 4096`, with the nursery at the start of the objects. -/
def NB_PAGES : ℕ := 2500 * 256
def NURSERY_START : ℕ := NB_PAGES * 4096 / 16
def NURSERY_END : ℕ := NURSERY_START + 1024 * 4096

/-- `long`, and the words of the memory. An address is that of a byte, and the
words are those at multiples of 8. -/
abbrev Long := BitVec 64

def GCWORD_MOVED : Long := -1
def GCFLAG_HAS_SHADOW : Long := 0x04

/-- `-GCFLAG_OVERFLOW_NUMBER_bit0`, in the 32 bits of `stm_flags`. -/
def OVERFLOW_NUMBER_MASK : Long := 0xfffffff0

/-- Where an object is. -/
inductive Place where
  | nursery (i addr : ℕ)
  | outside (addr : ℕ)
  deriving DecidableEq

/-- `size` is `stmcb_size_rounded_up`, by address. -/
structure Segment where
  nursery_current : ℕ
  nursery : ℕ → Long
  size : ℕ → ℕ
  nursery_objects_shadows : List (ℕ × ℕ)
  young_outside_nursery : List ℕ
  in_minor_collection : Bool

/-- The chunks are those of `largemalloc.c` that are in use, with their sizes.
The last two fields are not in the source: the number of objects so far, and
where each one is. -/
structure St where
  segs : ℕ → Segment
  mem : ℕ → Long
  size : ℕ → ℕ
  chunks : List (ℕ × ℕ)
  created : ℕ
  place : ℕ → Option Place

/-- A state, with the answers to all requests so far. -/
structure Recorded where
  st : St
  ids : List (ℕ × Long)
  hashes : List (ℕ × Long)

def St.set (s : St) (i : ℕ) (seg : Segment) : St :=
  { s with segs := Function.update s.segs i seg }

/-- The object is somewhere else now. -/
def St.move (s : St) (o : ℕ) (p : Place) : St :=
  { s with place := Function.update s.place o (some p) }

/-- `stm_flags & GCFLAG_HAS_SHADOW`, in the first word of an object. -/
def has_shadow (w : Long) : Bool := w &&& GCFLAG_HAS_SHADOW != 0

/-- The flags of a young object have no overflow number. -/
def young_flags (w : Long) : Prop := w &&& OVERFLOW_NUMBER_MASK = 0

instance (w : Long) : Decidable (young_flags w) := by
  unfold young_flags
  infer_instance

def is_in_nursery (obj : ℕ) : Bool := decide (obj < NURSERY_END)

/-- `_stm_large_malloc` may return this address. -/
def may_malloc (s : St) (addr size : ℕ) : Prop :=
  NURSERY_END ≤ addr ∧ addr + size ≤ NB_PAGES * 4096 ∧
    ∀ c ∈ s.chunks, c.1 + c.2 ≤ addr ∨ addr + size ≤ c.1

instance (s : St) (addr size : ℕ) : Decidable (may_malloc s addr size) := by
  unfold may_malloc
  infer_instance

def St.malloc (s : St) (addr size : ℕ) : St := { s with chunks := (addr, size) :: s.chunks }

/-- `memcpy` of a nursery object. -/
def St.copy_out (s : St) (i obj nobj : ℕ) : St :=
  let seg := s.segs i
  { s with
    mem := fun a => if nobj ≤ a ∧ a < nobj + seg.size obj then seg.nursery (obj + (a - nobj))
      else s.mem a
    size := Function.update s.size nobj (seg.size obj) }

/-! ## `hash_id.c` -/

def mangle_hash (i : Long) : Long := i ^^^ i.sshiftRight 5

/-- `find_existing_shadow`, which does not return if there is none. -/
def find_existing_shadow (s : St) (i obj : ℕ) : Option ℕ :=
  (s.segs i).nursery_objects_shadows.lookup obj

/-- `allocate_shadow`, where `_stm_large_malloc` returns `nobj`. -/
def allocate_shadow (s : St) (i obj nobj : ℕ) : St :=
  let seg := s.segs i
  ((s.malloc nobj (seg.size obj)).copy_out i obj nobj).set i { seg with
    nursery := Function.update seg.nursery obj (seg.nursery obj ||| GCFLAG_HAS_SHADOW)
    nursery_objects_shadows := (obj, nobj) :: seg.nursery_objects_shadows }

/-- `find_shadow`. -/
def find_shadow (s : St) (i obj nobj : ℕ) : Option (ℕ × St) :=
  if has_shadow ((s.segs i).nursery obj) then do
    let nobj ← find_existing_shadow s i obj
    return (nobj, s)
  else some (nobj, allocate_shadow s i obj nobj)

/-- `id_or_identityhash` on an object that is not `NULL`. -/
def id_or_identityhash (s : St) (i obj : ℕ) (is_hash : Bool) (nobj : ℕ) : Option (Long × St) := do
  if is_hash && !is_in_nursery obj && has_shadow (s.mem obj) then
    return (s.mem (obj + s.size obj), s)
  else
    let (obj, s) ← if is_in_nursery obj then find_shadow s i obj nobj else some (obj, s)
    let result := BitVec.ofNat 64 obj
    return (if is_hash then mangle_hash result else result, s)

def stm_id (s : St) (i obj nobj : ℕ) : Option (Long × St) := id_or_identityhash s i obj false nobj

def stm_identityhash (s : St) (i obj nobj : ℕ) : Option (Long × St) :=
  id_or_identityhash s i obj true nobj

/-- `stm_set_prebuilt_identityhash`. -/
def stm_set_prebuilt_identityhash (s : St) (obj : ℕ) (hash : Long) : Option St :=
  -- only the flag `GCFLAG_WRITE_BARRIER`
  if (s.mem obj).setWidth 32 = 1 ∧ s.mem (obj + s.size obj) = 0 then
    some { s with
      mem := Function.update (Function.update s.mem obj (s.mem obj ||| GCFLAG_HAS_SHADOW))
        (obj + s.size obj) hash }
  else none

/-! ## Collections -/

/-- `minor_trace_if_young` on an object of the nursery that was not moved yet,
from `copy_large_object` on. -/
def copy_large_object (s : St) (i obj nobj : ℕ) : St :=
  let s := s.copy_out i obj nobj
  let seg := s.segs i
  s.set i { seg with
    nursery := Function.update (Function.update seg.nursery obj GCWORD_MOVED)
      (obj + 8) (BitVec.ofNat 64 nobj) }

/-- The logical object is not at `obj` in the nursery any more. -/
def move_out (s : St) (i obj nobj : ℕ) : St :=
  { s with
    place := fun o => if s.place o = some (.nursery i obj) then some (.outside nobj)
      else s.place o }

/-- `minor_trace_if_young`, where `_stm_large_malloc` returns `nobj`. -/
def minor_trace_if_young (s : St) (i obj nobj : ℕ) : Option St :=
  let seg := s.segs i
  if is_in_nursery obj then
    if has_shadow (seg.nursery obj) then
      if seg.nursery obj = GCWORD_MOVED then some s
      else do
        let nobj ← find_existing_shadow s i obj
        let s := s.set i { seg with
          nursery := Function.update seg.nursery obj (seg.nursery obj &&& ~~~GCFLAG_HAS_SHADOW) }
        return move_out (copy_large_object s i obj nobj) i obj nobj
    else
      some (move_out (copy_large_object (s.malloc nobj (seg.size obj)) i obj nobj) i obj nobj)
  else some (s.set i { seg with
    young_outside_nursery := seg.young_outside_nursery.filter (· ≠ obj) })

/-- The object is thrown away with the nursery of a segment. -/
def thrown_away (seg : Segment) (i : ℕ) : Place → Bool
  | .nursery j _ => decide (j = i)
  | .outside a => decide (a ∈ seg.young_outside_nursery)

/-- `throw_away_nursery`, at the end of a minor collection or in an abort. -/
def throw_away_nursery (s : St) (i : ℕ) : St :=
  let seg := s.segs i
  { s.set i { seg with
      nursery_current := NURSERY_START
      nursery := fun _ => 0
      nursery_objects_shadows := []
      young_outside_nursery := []
      in_minor_collection := false } with
    chunks := s.chunks.filter (fun c => c.1 ∉ seg.young_outside_nursery)
    place := fun o => (s.place o).filter (fun p => !thrown_away seg i p) }

/-- The sweep of a major collection. -/
def sweep (s : St) (visited : List ℕ) : St :=
  { s with
    chunks := s.chunks.filter (fun c => c.1 ∈ visited)
    place := fun o => (s.place o).filter (fun p => match p with
      | .nursery .. => true
      | .outside a => decide (a ∈ visited)) }

/-! ## The machine -/

inductive Act where
  | stm_allocate (i size : ℕ)
  | allocate_external (i obj size : ℕ)
  | nursery_write (i o off : ℕ) (w : Long)
  | write (o off : ℕ) (w : Long)
  /-- `largemalloc.c` writes into its headers and free lists -/
  | largemalloc_write (addr : ℕ) (w : Long)
  | minor_collection (i : ℕ)
  | minor_trace_if_young (i obj nobj : ℕ)
  /-- the end of a minor collection, or an abort -/
  | throw_away_nursery (i : ℕ)
  | major_collection (visited : List ℕ)

/-- A step, or a request by segment `i` about the object `o`. If it allocates,
`_stm_large_malloc` returns `nobj`. -/
inductive Event where
  | act (a : Act)
  | stm_id (i o nobj : ℕ)
  | stm_identityhash (i o nobj : ℕ)

/-- The address of an object, as segment `i` knows it. -/
def address (s : St) (i o : ℕ) : Option ℕ :=
  match s.place o with
  | some (.nursery j a) => if j = i then some a else none
  | some (.outside a) => some a
  | none => none

/-- A write to the first word changes neither `GCFLAG_HAS_SHADOW` nor, of a
young object, the overflow number. -/
def may_write_flags (young : Bool) (off : ℕ) (w w' : Long) : Prop :=
  off = 0 → has_shadow w' = has_shadow w ∧ (young = true → young_flags w')

instance (young : Bool) (off : ℕ) (w w' : Long) : Decidable (may_write_flags young off w w') := by
  unfold may_write_flags
  infer_instance

/-- The call allocates, for an object of the nursery that has no shadow. -/
def takes_chunk (s : St) (i obj : ℕ) : Bool :=
  is_in_nursery obj && !has_shadow ((s.segs i).nursery obj)

/-- The answer to a request, and the state after it. -/
def request (s : St) (i o nobj : ℕ) (is_hash : Bool) : Outcome (Long × St) :=
  match address s i o with
  | none => .blocked
  | some obj =>
    guarded ((s.segs i).in_minor_collection = false
      ∧ (takes_chunk s i obj = true → may_malloc s nobj ((s.segs i).size obj))) <|
    Outcome.ofOption (id_or_identityhash s i obj is_hash nobj)

/-- The segment that acts. -/
def Act.segment_num : Act → Option ℕ
  | .write .. | .largemalloc_write .. | .major_collection .. => none
  | .stm_allocate i .. | .allocate_external i .. | .nursery_write i .. | .minor_collection i
  | .minor_trace_if_young i .. | .throw_away_nursery i => some i

/-- `MINOR_NOTHING_TO_DO`. -/
def minor_nothing_to_do (seg : Segment) : Prop :=
  seg.nursery_current = NURSERY_START ∧ seg.young_outside_nursery = []

instance (seg : Segment) : Decidable (minor_nothing_to_do seg) := by
  unfold minor_nothing_to_do
  infer_instance

def step_segment (NB_SEGMENTS : ℕ) (s : St) : Act → Outcome St
  | .stm_allocate i size =>
    let seg := s.segs i
    guarded (seg.in_minor_collection = false ∧ 16 ≤ size
      ∧ seg.nursery_current + size ≤ NURSERY_END) <|
    .next { (s.set i { seg with
          nursery_current := seg.nursery_current + size
          size := Function.update seg.size seg.nursery_current size }).move s.created
        (.nursery i seg.nursery_current) with created := s.created + 1 }
  | .allocate_external i obj size =>
    let seg := s.segs i
    guarded (seg.in_minor_collection = false ∧ 16 ≤ size ∧ may_malloc s obj size) <|
    .next { ((s.malloc obj size).set i { seg with
          young_outside_nursery := obj :: seg.young_outside_nursery }).move s.created
        (.outside obj) with
      created := s.created + 1
      size := Function.update s.size obj size
      mem := fun a => if obj ≤ a ∧ a < obj + size then 0 else s.mem a }
  | .nursery_write i o off w =>
    match s.place o with
    | some (.nursery j obj) =>
      let seg := s.segs i
      guarded (j = i ∧ seg.in_minor_collection = false ∧ 8 ∣ off ∧ off < seg.size obj
        ∧ may_write_flags true off (seg.nursery obj) w) <|
      .next (s.set i { seg with nursery := Function.update seg.nursery (obj + off) w })
    | _ => .blocked
  | .write o off w =>
    match s.place o with
    | some (.outside obj) =>
      guarded (8 ∣ off ∧ off < s.size obj ∧ may_write_flags false off (s.mem obj) w) <|
      .next { s with mem := Function.update s.mem (obj + off) w }
    | _ => .blocked
  | .largemalloc_write addr w =>
    guarded (∀ c ∈ s.chunks, addr < c.1 ∨ c.1 + c.2 ≤ addr) <|
    .next { s with mem := Function.update s.mem addr w }
  | .minor_collection i =>
    let seg := s.segs i
    guarded (seg.in_minor_collection = false) <|
    .next (s.set i { seg with in_minor_collection := true })
  | .minor_trace_if_young i obj nobj =>
    let seg := s.segs i
    -- a reference is to an object, or to where one has been moved away from
    guarded (seg.in_minor_collection = true
      ∧ ((∃ o < s.created, s.place o = some (.nursery i obj)) ∨ seg.nursery obj = GCWORD_MOVED
        ∨ is_in_nursery obj = false)
      ∧ (takes_chunk s i obj = true → may_malloc s nobj (seg.size obj))) <|
    Outcome.ofOption (minor_trace_if_young s i obj nobj)
  | .throw_away_nursery i => .next (throw_away_nursery s i)
  | .major_collection visited =>
    guarded (∀ i ∈ segment_nums NB_SEGMENTS, minor_nothing_to_do (s.segs i)) <|
    .next (sweep s visited)

def step (NB_SEGMENTS : ℕ) (s : St) (a : Act) : Outcome St :=
  guarded (∀ i ∈ a.segment_num, i ∈ segment_nums NB_SEGMENTS) (step_segment NB_SEGMENTS s a)

/-- `request` answers `stm_id` and `stm_identityhash` in the same way. -/
def recorded_step (NB_SEGMENTS : ℕ) (r : Recorded) : Event → Outcome Recorded
  | .act a => (step NB_SEGMENTS r.st a).bind fun s => .next { r with st := s }
  | .stm_id i o nobj =>
    (request r.st i o nobj false).bind fun (result, s) =>
    .next { r with st := s, ids := (o, result) :: r.ids }
  | .stm_identityhash i o nobj =>
    (request r.st i o nobj true).bind fun (result, s) =>
    .next { r with st := s, hashes := (o, result) :: r.hashes }

/-- After the setup: there are prebuilt objects, each with an extra word for
the hash. -/
structure Initial (s : St) : Prop where
  segs : ∀ i, (s.segs i).nursery_current = NURSERY_START ∧ (∀ a, (s.segs i).nursery a = 0)
    ∧ (s.segs i).nursery_objects_shadows = [] ∧ (s.segs i).young_outside_nursery = []
  chunks : ∀ c ∈ s.chunks, NURSERY_END ≤ c.1 ∧ c.1 + c.2 ≤ NB_PAGES * 4096 ∧ 0 < c.2
  apart : ∀ c ∈ s.chunks, ∀ d ∈ s.chunks, c.1 ≠ d.1 → c.1 + c.2 ≤ d.1 ∨ d.1 + d.2 ≤ c.1
  created : ∀ o, s.created ≤ o → s.place o = none
  prebuilt : ∀ o < s.created, ∃ a, s.place o = some (.outside a) ∧ 16 ≤ s.size a
    ∧ (a, s.size a + 8) ∈ s.chunks
  different : ∀ o o', s.place o = s.place o' → s.place o ≠ none → o = o'

structure Recorded.Initial (r : Recorded) : Prop where
  st : HashId.Initial r.st
  requests : r.ids = [] ∧ r.hashes = []

end Stmgc.C7.HashId
