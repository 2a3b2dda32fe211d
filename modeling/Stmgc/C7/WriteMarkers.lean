/-
The markers of writes (`marker.c`), and all that changes their list.

For each object in `modified_old_objects` a segment has two items in
`modified_old_objects_markers`: the marker at the time of the first write. The
items are filled in only while timing is on. A minor collection moves the young
objects, and so it changes the markers that are new since the last one.

A step is what runs under a marker lock or the mutex. Beside the lists a segment
has the markers of all first writes in `recorded`, with the objects where they
are now. That is for the proofs; no code reads it.
-/
import Stmgc.Lib.Machine
import Stmgc.C7.Pages
import Mathlib

namespace Stmgc.C7

open Stmgc.Lib

namespace WriteMarkers

/-! ## Data -/

/-- The `odd_number` and the `object` of a `stm_loc_marker_t`. -/
structure Marker where
  odd_number : ℕ
  object : ℕ

def NO_MARKER : Marker := ⟨0, 0⟩

/-- What the shadow stack has above its base. -/
inductive ShadowEntry where
  | odd (n : ℕ)
  | obj (p : ℕ)

structure Seg where
  /-- `transaction_state` is not `TS_NONE` -/
  running : Bool
  /-- from the top -/
  shadowstack : List ShadowEntry
  modified_old_objects : List ℕ
  modified_old_objects_markers : List ℕ
  modified_old_objects_markers_num_old : ℕ
  /-- `objects_pointing_to_nursery` is not `NULL` -/
  objects_pointing_to_nursery : Bool
  marker_inev : Marker
  /-- `marker_inev.segment_base` is not `NULL` -/
  marker_inev_segment_base : Bool
  /-- in the nursery or in `young_outside_nursery` -/
  young : List ℕ
  recorded : List Marker

structure St where
  /-- `stmcb_timing_event` is not `NULL` -/
  timing : Bool
  write_locks : ℕ → ℕ
  /-- Other objects are outside of the nurseries. -/
  old : ℕ → Bool
  seg : ℕ → Seg

def St.set_seg (s : St) (i : ℕ) (seg : Seg) : St := { s with seg := Function.update s.seg i seg }

/-- What is left open of a minor collection: where young objects go to, and which
ones are reached from elsewhere. -/
structure Move where
  address : ℕ → ℕ
  survives : ℕ → Bool

inductive Action where
  | set_timing (on : Bool)
  | stm_start_transaction (i : ℕ) (ss : List ShadowEntry)
  | set_shadowstack (i : ℕ) (ss : List ShadowEntry)
  | allocate (i p : ℕ)
  | write_slowpath (i obj : ℕ)
  | become_inevitable (i : ℕ)
  | minor_collection (i : ℕ) (mv : Move)
  | commit (i : ℕ)
  | abort (i : ℕ) (ss : List ShadowEntry)
  /-- another thread runs `abort_data_structures_from_segment_num` -/
  | remote_abort (i : ℕ) (ss : List ShadowEntry)
  | major_collection (keep : ℕ → Bool)

/-! ## `marker.c` -/

/-- The loop of `marker_fetch`. `above` is the object in the entry above, if one
is there. -/
def fetch_from : Option ℕ → List ShadowEntry → Option Marker
  | _, [] => some NO_MARKER
  | above, .odd n :: _ => above.map fun p => ⟨n, p⟩
  | _, .obj p :: ss => fetch_from (some p) ss

def marker_fetch (ss : List ShadowEntry) : Option Marker := fetch_from none ss

/-- `while (list_count(mlstm) < 2 * base_count)` -/
def pad (count : ℕ) (mlstm : List ℕ) : List ℕ :=
  if mlstm.length < count then pad count (mlstm ++ [0, 0]) else mlstm
termination_by count - mlstm.length
decreasing_by
  rw [List.length_append, List.length_cons, List.length_singleton]
  omega

def _timing_record_write (seg : Seg) : Option Seg := do
  let marker ← marker_fetch seg.shadowstack
  let base_count := seg.modified_old_objects.length
  let mlstm := pad (2 * base_count) seg.modified_old_objects_markers
  return { seg with modified_old_objects_markers := mlstm ++ [marker.odd_number, marker.object] }

def timing_record_write (s : St) (seg : Seg) : Option Seg :=
  if s.timing = true then _timing_record_write seg else some seg

def timing_fetch_inev (s : St) (seg : Seg) : Option Seg :=
  if s.timing = true then do
    let marker ← marker_fetch seg.shadowstack
    return { seg with marker_inev := marker }
  else some seg

/-! ## Writes -/

/-- `write_slowpath_common` for an object that is no overflow object. Another
owner of the lock means contention management, and another try. -/
def write_slowpath (i obj : ℕ) (s : St) : Outcome St :=
  let seg := s.seg i
  guarded (seg.running = true ∧ s.old obj = true) <|
    if s.write_locks obj = 0 then
      .ofOption do
        let seg' ← timing_record_write s seg
        return { s with write_locks := Function.update s.write_locks obj i }.set_seg i
          { seg' with
            modified_old_objects := seg'.modified_old_objects ++ [obj]
            recorded := seg.recorded ++ [(marker_fetch seg.shadowstack).getD NO_MARKER] }
    else if s.write_locks obj = i then .next s
    else .blocked

/-! ## Collections -/

/-- Where `minor_trace_if_young` makes a pointer point to. -/
def minor_trace_if_young (mv : Move) (seg : Seg) (p : ℕ) : ℕ :=
  if p ∈ seg.young then mv.address p else p

/-- The items that `collect_roots_from_markers` visits. -/
def visited (num_old total : ℕ) : List ℕ := List.range' (num_old + 1) ((total - num_old) / 2) 2

/-- `num_old` in `_do_minor_collection` -/
def minor_num_old (seg : Seg) : ℕ :=
  if seg.objects_pointing_to_nursery = true then seg.modified_old_objects_markers_num_old else 0

def ShadowEntry.map (f : ℕ → ℕ) : ShadowEntry → ShadowEntry
  | .odd n => .odd n
  | .obj p => .obj (f p)

def Marker.map (f : ℕ → ℕ) (marker : Marker) : Marker := { marker with object := f marker.object }

def shadow_objects (ss : List ShadowEntry) : List ℕ :=
  ss.filterMap fun e => match e with
    | .odd _ => none
    | .obj p => some p

/-- What `collect_roots_from_markers` and `collect_roots_in_nursery` trace. -/
def minor_roots (seg : Seg) : List ℕ :=
  let mlst := seg.modified_old_objects_markers
  (visited (minor_num_old seg) mlst.length).map (mlst.getD · 0) ++
    (if seg.marker_inev_segment_base = true then [seg.marker_inev.object] else []) ++
    shadow_objects seg.shadowstack

/-- The segment after a minor collection. -/
def collect_seg (mv : Move) (seg : Seg) : Seg :=
  let trace := minor_trace_if_young mv seg
  let mlst := seg.modified_old_objects_markers
  { seg with
    modified_old_objects_markers := (visited (minor_num_old seg) mlst.length).foldl
      (fun mlst i => mlst.set i (trace (mlst.getD i 0))) mlst
    modified_old_objects_markers_num_old := mlst.length
    objects_pointing_to_nursery := true
    marker_inev := if seg.marker_inev_segment_base = true then seg.marker_inev.map trace
      else seg.marker_inev
    shadowstack := seg.shadowstack.map (ShadowEntry.map trace)
    young := []
    recorded := seg.recorded.map (Marker.map trace) }

/-- The young objects that are kept are old now. -/
def old_after (mv : Move) (seg : Seg) (old : ℕ → Bool) (q : ℕ) : Bool :=
  old q || seg.young.any fun p =>
    (mv.survives p || decide (p ∈ minor_roots seg)) && decide (mv.address p = q)

section

variable (NB_SEGMENTS : ℕ) (NDEBUG : Bool) (in_nursery : ℕ → Bool)

/-- No object is at this address outside of the nurseries. -/
def is_free (s : St) (p : ℕ) : Prop :=
  p ≠ 0 ∧ s.old p = false ∧ ∀ i ∈ segment_nums NB_SEGMENTS, p ∉ (s.seg i).young

instance (s : St) (p : ℕ) : Decidable (is_free NB_SEGMENTS s p) := by
  unfold is_free
  infer_instance

/-- Objects move from the nursery to free memory, and the others stay. -/
def good_move (mv : Move) (s : St) (seg : Seg) : Prop :=
  ∀ p ∈ seg.young, if in_nursery p = true then
    in_nursery (mv.address p) = false ∧ is_free NB_SEGMENTS s (mv.address p)
  else mv.address p = p

instance (mv : Move) (s : St) (seg : Seg) :
    Decidable (good_move NB_SEGMENTS in_nursery mv s seg) := by
  unfold good_move
  infer_instance

def _do_minor_collection (i : ℕ) (mv : Move) (s : St) : Outcome St :=
  let seg := s.seg i
  guarded (seg.running = true ∧ good_move NB_SEGMENTS in_nursery mv s seg) <|
    if seg.modified_old_objects_markers.length % 2 = 0 then
      .next ({ s with old := old_after mv seg s.old }.set_seg i (collect_seg mv seg))
    else .fault

/-- `mark_visit_from_markers`, for the first `i` items. -/
def marker_items (mlst : List ℕ) : ℕ → List ℕ
  | 0 => []
  | 1 => [mlst.getD 0 0]
  | i + 2 => mlst.getD (i + 1) 0 :: marker_items mlst i

def major_roots (s : St) : List ℕ :=
  (segment_nums NB_SEGMENTS).flatMap fun i =>
    let seg := s.seg i
    seg.modified_old_objects ++
      marker_items seg.modified_old_objects_markers seg.modified_old_objects_markers.length ++
      (if seg.marker_inev_segment_base = true then [seg.marker_inev.object] else []) ++
      shadow_objects seg.shadowstack

/-- The loop over the objects of one segment in `major_restore_write_locks`. -/
def restore_locks (i : ℕ) : List ℕ → (ℕ → ℕ) → Option (ℕ → ℕ)
  | [], write_locks => some write_locks
  | item :: items, write_locks =>
    if write_locks item = 0 then restore_locks i items (Function.update write_locks item i) else none

def major_restore_write_locks (s : St) : List ℕ → (ℕ → ℕ) → Option (ℕ → ℕ)
  | [], write_locks => some write_locks
  | i :: is, write_locks => do
    let write_locks ← restore_locks i (s.seg i).modified_old_objects.reverse write_locks
    major_restore_write_locks s is write_locks

/-- All segments have done a minor collection before. -/
def major_collection (keep : ℕ → Bool) (s : St) : Outcome St :=
  guarded (∀ i ∈ segment_nums NB_SEGMENTS, (s.seg i).young = []) <|
    .ofOption do
      let write_locks ← major_restore_write_locks s (segment_nums NB_SEGMENTS) fun _ => 0
      return { s with
        write_locks
        old := fun p => s.old p && (keep p || decide (p ∈ major_roots NB_SEGMENTS s)) }

/-! ## Transactions -/

/-- The pointers are up to date, and above a number is the object of the marker. -/
def good_stack (s : St) (seg : Seg) (ss : List ShadowEntry) : Prop :=
  (marker_fetch ss).isSome = true ∧ ∀ p ∈ shadow_objects ss, p = 0 ∨ p ∈ seg.young ∨ s.old p = true

instance (s : St) (seg : Seg) (ss : List ShadowEntry) : Decidable (good_stack s seg ss) := by
  unfold good_stack
  infer_instance

def stm_start_transaction (i : ℕ) (ss : List ShadowEntry) (s : St) : Outcome St :=
  let seg := s.seg i
  guarded (seg.running = false ∧ i ∈ segment_nums NB_SEGMENTS ∧ good_stack s seg ss) <|
    if seg.modified_old_objects = [] ∧ seg.modified_old_objects_markers = [] ∧ seg.young = [] ∧
        seg.objects_pointing_to_nursery = false then
      .next (s.set_seg i { seg with
        running := true
        shadowstack := ss
        marker_inev := { seg.marker_inev with object := 0 }
        modified_old_objects_markers_num_old :=
          if NDEBUG = true then seg.modified_old_objects_markers_num_old else 99999999999999999 })
    else .fault

/-- The loops that clear the write locks at a commit and at an abort. -/
def release_locks (i : ℕ) : List ℕ → (ℕ → ℕ) → Option (ℕ → ℕ)
  | [], write_locks => some write_locks
  | item :: items, write_locks =>
    if write_locks item = i then release_locks i items (Function.update write_locks item 0) else none

/-- `push_modified_to_other_segments` and `_finish_transaction`, after a minor
collection. -/
def commit (i : ℕ) (s : St) : Outcome St :=
  let seg := s.seg i
  guarded (seg.running = true ∧ seg.young = []) <|
    .ofOption do
      let write_locks ← release_locks i seg.modified_old_objects.reverse s.write_locks
      return { s with write_locks }.set_seg i { seg with
        running := false
        modified_old_objects := []
        modified_old_objects_markers := []
        objects_pointing_to_nursery := false
        marker_inev := { seg.marker_inev with object := 0 }
        recorded := [] }

/-- The shadow stack is restored. -/
def abort_data_structures_from_segment_num (i : ℕ) (ss : List ShadowEntry) (s : St) : Outcome St :=
  let seg := { s.seg i with young := [] }
  guarded (seg.running = true ∧ good_stack s seg ss) <|
    .ofOption do
      let write_locks ← release_locks i seg.modified_old_objects.reverse s.write_locks
      return { s with write_locks }.set_seg i { seg with
        shadowstack := ss
        modified_old_objects := []
        modified_old_objects_markers := []
        objects_pointing_to_nursery := false
        recorded := [] }

/-- `_finish_transaction` after an abort. -/
def finish_abort (i : ℕ) (s : St) : St :=
  let seg := s.seg i
  s.set_seg i { seg with
    running := false
    marker_inev := { seg.marker_inev with object := 0 } }

/-! ## Machine -/

def step (s : St) : Action → Outcome St
  | .set_timing on => .next { s with timing := on }
  | .stm_start_transaction i ss => stm_start_transaction NB_SEGMENTS NDEBUG i ss s
  | .set_shadowstack i ss =>
    let seg := s.seg i
    guarded (seg.running = true ∧ good_stack s seg ss) (.next (s.set_seg i { seg with shadowstack := ss }))
  | .allocate i p =>
    let seg := s.seg i
    guarded (seg.running = true ∧ p ≠ 0 ∧ s.old p = false ∧
        (in_nursery p = false → is_free NB_SEGMENTS s p)) <|
      .next (s.set_seg i { seg with young := p :: seg.young })
  | .write_slowpath i obj => write_slowpath i obj s
  | .become_inevitable i =>
    guarded ((s.seg i).running = true) <|
      .ofOption do
        let seg ← timing_fetch_inev s (s.seg i)
        return s.set_seg i seg
  | .minor_collection i mv => _do_minor_collection NB_SEGMENTS in_nursery i mv s
  | .commit i => commit i s
  | .abort i ss =>
    (abort_data_structures_from_segment_num i ss s).bind fun s => .next (finish_abort i s)
  | .remote_abort i ss => abort_data_structures_from_segment_num i ss s
  | .major_collection keep => major_collection NB_SEGMENTS keep s

def initial_seg : Seg where
  running := false
  shadowstack := []
  modified_old_objects := []
  modified_old_objects_markers := []
  modified_old_objects_markers_num_old := 0
  objects_pointing_to_nursery := false
  marker_inev := NO_MARKER
  marker_inev_segment_base := false
  young := []
  recorded := []

/-- No transaction has begun. -/
def init (s : St) : Prop :=
  (∀ obj, s.write_locks obj = 0) ∧ (∀ p, s.old p = true → p ≠ 0 ∧ in_nursery p = false) ∧
    ∀ i, s.seg i = initial_seg

end

end WriteMarkers

end Stmgc.C7
