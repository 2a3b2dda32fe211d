/-
The calls of `stmcb_light_finalizer`.

Next to the machine of `Abort` we keep a [`Registration`] for each call of
`stm_enable_light_finalizer`: where its object is now, whether it is alive, and
how often its finalizer has been called. An object dies at the end of a minor
collection that has not reached it, in a major collection that has not marked
it, or when the transaction that created it aborts; a transaction registers
only objects that it has created. A finalizer is called in a segment, by the
`gs` register; one that is called in another segment than the object was
registered in, or on no living object, is [`stray`].

What the program promises is that it allocates at least 16 bytes for an object,
keeps the first word of its objects to the library, and registers existing
objects.
-/
import Stmgc.C7.TransactionFate

namespace Stmgc.C7

open Stmgc.Lib

/-! ## Calls -/

/-- The objects that the loop of `abort_finalizers` forgets, from the end of
the list. -/
def forgotten_light_finalizers (m : Memory) (n overflow_number : ℕ) : ℕ → List ℕ → List ℕ
  | _, [] => []
  | gs, obj :: lst =>
    if flags_say_overflow m gs overflow_number obj then
      obj :: forgotten_light_finalizers m n overflow_number n lst
    else []

/-- The calls of `abort_finalizers`. -/
def abort_calls (m : Memory) (gs n : ℕ) (p : Priv) : List ObjRef :=
  p.young_objects_with_light_finalizers
    ++ (forgotten_light_finalizers m n p.overflow_number (gs_after_young p gs n)
      p.old_objects_with_light_finalizers.reverse).map .outside

/-- The calls of `deal_with_young_objects_with_finalizers`. -/
def young_calls (p : Priv) : List ObjRef :=
  p.young_objects_with_light_finalizers.filter fun x => (moved_location p.nursery x).isNone

/-- The calls of `deal_with_old_objects_with_finalizers` in one segment. -/
def old_calls (st : St) (visited : List ℕ) (p : Priv) : List ObjRef :=
  (p.old_objects_with_light_finalizers.filter fun o => !is_visited st visited o).map .outside

/-- The calls of `stmcb_light_finalizer` by a step in segment `i`. -/
def light_finalizer_calls (NB_SEGMENTS : ℕ) (s : Sys) (i : ℕ) : SysAct → List ObjRef
  | .collect j _ => if j = i ∧ is_traced (s.st.segs i) = true then young_calls (s.priv i) else []
  | .abort_data_structures gs n => if n = i then abort_calls s.st.mem gs n (s.priv n) else []
  | .major_collection visited =>
    if i ∈ segment_nums NB_SEGMENTS then old_calls s.st visited (s.priv i) else []
  | _ => []

/-! ## Registrations -/

structure Registration where
  segment : ℕ
  obj : ObjRef
  committed : Bool
  alive : Bool
  calls : ℕ

/-- The step ends a minor collection of segment `i`. -/
def SysAct.ends_minor_collection (s : Sys) (i : ℕ) : SysAct → Bool
  | .collect j _ => decide (j = i) && is_traced (s.st.segs i)
  | _ => false

/-- The object at its moved location, if it has one. -/
def resolve (nursery : ℕ → ℕ) (x : ObjRef) : ObjRef :=
  match moved_location nursery x with
  | some o => .outside o
  | none => x

/-- Where the object is after the step. -/
def Registration.moved (s : Sys) (a : SysAct) (r : Registration) : ObjRef :=
  if a.ends_minor_collection s r.segment then resolve (s.priv r.segment).nursery r.obj else r.obj

/-- The object dies in the step. -/
def Registration.dies (s s' : Sys) (a : SysAct) (r : Registration) : Bool :=
  match a with
  | .abort_data_structures _ n => decide (n = r.segment) && !r.committed
  | _ => match r.obj with
    | .nursery w => a.ends_minor_collection s r.segment
      && decide ((s.priv r.segment).nursery w ≠ GCWORD_MOVED)
    | .outside o => decide (s'.st.kind o = .free)

def SysAct.commits (i : ℕ) : SysAct → Bool
  | .commit_transaction j => decide (j = i)
  | _ => false

def Registration.after (NB_SEGMENTS : ℕ) (s s' : Sys) (a : SysAct) (r : Registration) :
    Registration :=
  if r.alive then
    { r with
      obj := r.moved s a
      committed := r.committed || a.commits r.segment
      alive := !r.dies s s' a
      calls := r.calls + (light_finalizer_calls NB_SEGMENTS s r.segment a).count r.obj }
  else r

def SysAct.registers : SysAct → List Registration
  | .stm_enable_light_finalizer i obj =>
    [{ segment := i, obj := obj, committed := false, alive := true, calls := 0 }]
  | _ => []

/-- The objects in the nursery of segment `i` after a step, by their first
words. -/
def objects_after (s : Sys) (a : SysAct) (objects : List ℕ) (i : ℕ) : List ℕ :=
  match a with
  | .stm_allocate j _ | .stm_allocate_weakref j =>
    if j = i then (s.priv i).nursery_current :: objects else objects
  | .abort_data_structures _ n => if n = i then [] else objects
  | _ => if a.ends_minor_collection s i then [] else objects

structure Logged where
  sys : Sys
  objects : ℕ → List ℕ
  registrations : List Registration
  stray : ℕ

namespace Logged

/-- The living objects that were registered in segment `i`. -/
def live (t : Logged) (i : ℕ) : List Registration :=
  t.registrations.filter fun r => r.alive && decide (r.segment = i)

/-- The calls in segment `i` on no living object that was registered there. -/
def stray_calls (NB_SEGMENTS : ℕ) (t : Logged) (a : SysAct) (i : ℕ) : ℕ :=
  (light_finalizer_calls NB_SEGMENTS t.sys i a).countP fun x =>
    (t.live i).all fun r => decide (r.obj ≠ x)

def promised (t : Logged) : SysAct → Prop
  | .stm_allocate _ size => 2 ≤ size
  | .nursery_write i word val => (t.sys.st.segs i).pc = .running
    ∧ (word ∈ t.objects i → val ≠ GCWORD_MOVED)
  | .evacuate i word .. => word ∈ t.objects i
  | .stm_enable_light_finalizer i (.nursery w) => (t.sys.st.segs i).pc = .running ∧ w ∈ t.objects i
  | .stm_enable_light_finalizer i (.outside o) => (t.sys.st.segs i).pc = .running
    ∧ (o ∈ (t.sys.st.segs i).young_outside_nursery ∨ t.sys.st.kind o = .overflow i)
  | _ => True

instance (t : Logged) (a : SysAct) : Decidable (t.promised a) := by
  unfold promised
  split <;> infer_instance

def step (NB_SEGMENTS : ℕ) (t : Logged) (a : SysAct) : Outcome Logged :=
  guarded (t.promised a) <|
  (sys_step NB_SEGMENTS t.sys a).bind fun sys => .next {
    sys := sys
    objects := fun i => objects_after t.sys a (t.objects i) i
    registrations := t.registrations.map (Registration.after NB_SEGMENTS t.sys sys a) ++ a.registers
    stray := t.stray
      + ((List.range (NB_SEGMENTS + 1)).map (t.stray_calls NB_SEGMENTS a)).sum }

/-- The loop of `abort_finalizers` takes the objects that the transaction has
registered, and stops there. -/
def takes_registered (s : Sys) (gs n : ℕ) : Prop :=
  let p := s.priv n
  seen_as_overflow s gs n ∧ ∀ o ∈ p.light_finalizers_at_start.getLast?,
    flags_say_overflow s.st.mem (if registered p = [] then gs_after_young p gs n else n)
      p.overflow_number o = false

instance (s : Sys) (gs n : ℕ) : Decidable (takes_registered s gs n) := by
  unfold takes_registered seen_as_overflow
  infer_instance

/-- An object that was registered while it was young outside the nursery. -/
def unreached (st : St) (i : ℕ) : ObjRef → Prop
  | .nursery _ => True
  | .outside o => o ∈ (st.segs i).young_outside_nursery

instance (st : St) (i : ℕ) (x : ObjRef) : Decidable (unreached st i x) := by
  unfold unreached
  split <;> infer_instance

/-- The condition on a run under which light finalizers are called as they
should be. No object is registered twice; what was registered while it was
young outside the nursery is not reached by the next minor collection; and an
abort takes the objects that the transaction has registered. -/
def finalizers_ok (t : Logged) : SysAct → Prop
  | .stm_enable_light_finalizer i obj => ∀ r ∈ t.live i, r.obj ≠ obj
  | .collect i _ => is_traced (t.sys.st.segs i) = true →
    ∀ x ∈ (t.sys.priv i).young_objects_with_light_finalizers, unreached t.sys.st i x
  | .abort_data_structures gs n => takes_registered t.sys gs n
  | _ => True

instance (t : Logged) (a : SysAct) : Decidable (t.finalizers_ok a) := by
  unfold finalizers_ok
  split <;> infer_instance

structure Initial (NB_SEGMENTS : ℕ) (t : Logged) : Prop where
  sys : t.sys.Initial NB_SEGMENTS
  young : ∀ i, (t.sys.priv i).young_objects_with_light_finalizers = []
  objects : ∀ i, t.objects i = []
  registrations : t.registrations = []
  stray : t.stray = 0

end Logged

end Stmgc.C7
