/-
The objects of c4, and what the commit of a transaction does to them.

An object is public, or it belongs to one thread: as a protected object, as a
private one, or as the backup copy of a private one that was protected before.
The local copies of a transaction are the values of `public_to_private`, whose
keys are the public objects they replace. Other threads steal protected
objects, and the backup copies of private ones, through the stubs that point
to them.

A step of the machine is one access to an `h_revision` that other threads use
too, or code that runs under the `collection_lock` of the thread that owns
what the code touches. Left open is what decides the choices of the code:
what the program reads and writes, the global clock and the validation of the
reads. So the runs of the machine include those of the code. What an assertion
of a barrier excludes is not a step; in the code of the commit a failed
assertion is a fault.
-/
import Stmgc.Lib.Exec
import Stmgc.C4.G2L

open Stmgc.Lib

namespace Stmgc.C4

variable {n : ℕ} {Content : Type}

/-! ## Objects -/

/-- What an `h_revision` may be, by its value: an odd number below `LOCKED`;
`LOCKED + 2 * t`, the `my_lock` of the thread `t`; an address; or an address
with the bit 2 set. `IS_POINTER` holds of the last two. -/
inductive revision_t (n : ℕ) where
  | number (v : ℤ)
  | locked (t : Fin n)
  | pointer (p : gcptr)
  | stub (p : gcptr)
deriving DecidableEq

def IS_POINTER : revision_t n → Bool
  | .pointer _ => true
  | .stub _ => true
  | _ => false

/-- An object. `thread` is the one that a protected or private object or a
backup copy belongs to, and the `STUB_THREAD` of a stub; `content` is what the
program sees of it, through the barriers. -/
structure object (n : ℕ) (Content : Type) where
  h_revision : revision_t n
  GCFLAG_OLD : Bool
  GCFLAG_PUBLIC : Bool
  GCFLAG_BACKUP_COPY : Bool
  GCFLAG_PUBLIC_TO_PRIVATE : Bool
  GCFLAG_MOVED : Bool
  GCFLAG_STUB : Bool
  GCFLAG_PRIVATE_FROM_PROTECTED : Bool
  thread : Fin n
  content : Content

abbrev Heap (n : ℕ) (Content : Type) : Type := gcptr → Option (object n Content)

/-! ## Threads -/

/-- Where a thread is: in a transaction or between two; or in
`CommitTransaction` or `AbortTransaction`, with its `collection_lock` taken
unless it is `waiting`. -/
inductive Pc (n : ℕ) where
  | running
  /-- in `AcquireLocks`, at `retry:` for the first item of `todo` -/
  | acquire_locks (todo : List wlog_t)
  /-- the `bool_cas`, after `v` was read from the key of `item` -/
  | acquire_cas (item : wlog_t) (todo : List wlog_t) (v : revision_t n)
  /-- `AcquireLocks` has returned -/
  | acquired
  /-- in `CancelLocks`, before an abort or before a wait for `mutex_inevitable` -/
  | cancel_locks (todo : List wlog_t) (abort : Bool)
  /-- in `AbortTransaction`, without any lock on an object -/
  | aborting
  /-- in `inev_mutex_acquire` -/
  | waiting
  /-- `CommitPrivateFromProtected` has returned -/
  | committed (cur_time : ℤ)
  /-- in the second loop of `UpdateChainHeads`: keys and their new stubs -/
  | chain_heads (todo : List wlog_t)
deriving DecidableEq

/-- The thread holds its own `collection_lock`, `'C'`. -/
def Pc.has_collection_lock : Pc n → Bool
  | .running => false
  | .waiting => false
  | _ => true

/-- The parts of `struct tx_descriptor` and of its public descriptor. -/
structure tx_descriptor (n : ℕ) where
  public_to_private : G2L
  private_from_protected : List gcptr
  /-- the pairs of a stolen backup copy and its private object -/
  stolen_objects : List wlog_t
  stm_private_rev_num : ℤ
  pc : Pc n

def tx_descriptor.items (d : tx_descriptor n) : List wlog_t := d.public_to_private.loop_forward

/-- The value of `h_revision` that `CancelLocks` calls `expected`. -/
def tx_descriptor.expected (d : tx_descriptor n) (R : gcptr) (l : object n Content) : revision_t n :=
  if l.GCFLAG_PRIVATE_FROM_PROTECTED then .pointer R else .number d.stm_private_rev_num

def tx_descriptor.is_private (d : tx_descriptor n) (p : object n Content) : Bool :=
  p.h_revision = .number d.stm_private_rev_num || p.GCFLAG_PRIVATE_FROM_PROTECTED

/-- `stm_normalize_stolen_objects`. The pairs `(L, NULL)` only make it drop `L`
from a cache. -/
def stm_normalize_stolen_objects (d : tx_descriptor n) : Option (tx_descriptor n) :=
  (d.stolen_objects.foldlM (fun (g : G2L) (item : wlog_t) => g.g2l_insert item.1 item.2) d.public_to_private).map
    fun g => { d with public_to_private := g, stolen_objects := [] }

/-- The state of `n` threads. -/
structure State (n : ℕ) (Content : Type) where
  heap : Heap n Content
  threads : Fin n → tx_descriptor n

namespace State

def set_thread (s : State n Content) (t : Fin n) (d : tx_descriptor n) : State n Content :=
  { s with threads := Function.update s.threads t d }

def set_pc (s : State n Content) (t : Fin n) (pc : Pc n) : State n Content :=
  s.set_thread t { s.threads t with pc := pc }

def set_object (s : State n Content) (p : gcptr) (x : object n Content) : State n Content :=
  { s with heap := Function.update s.heap p (some x) }

end State

/-- `_Bool stm_has_got_any_lock(d)`: whether an item is found locked. It fails
when a locked item follows one that is not. -/
def stm_has_got_any_lock (heap : Heap n Content) (my_lock : revision_t n) (d : tx_descriptor n) :
    Option Bool :=
  (d.items.foldlM (fun (found : Bool × Bool) (item : wlog_t) =>
    match heap item.1, heap item.2 with
    | some r, some l =>
        if l.h_revision = d.expected item.1 l then
          if r.h_revision ≠ my_lock then some (found.1, true) else none
        else if found.2 then none else some (true, found.2)
    | _, _ => none) (false, false)).map Prod.fst

/-! ## The objects that are private from protected -/

section PrivateFromProtected

/-- An access to an object. -/
def load (p : gcptr) : Exec (Heap n Content) (object n Content) := fun heap =>
  match heap p with
  | none => .fault
  | some x => .ret x heap

def store (p : gcptr) (x : Option (object n Content)) : Exec (Heap n Content) Unit :=
  .modify fun heap => Function.update heap p x

/-- `CommitPrivateFromProtected`. It leaves through `AbortTransaction`. -/
def CommitPrivateFromProtected (stm_private_rev_num new_revision : ℤ) (items : List gcptr) :
    Exec (Heap n Content) Unit :=
  .forEach items fun P => do
    let p ← load P
    .assert (p.GCFLAG_PRIVATE_FROM_PROTECTED = true)
    store P (some { p with GCFLAG_PRIVATE_FROM_PROTECTED := false })
    match p.h_revision with
    | .pointer B => do
        store P (some { p with
          GCFLAG_PRIVATE_FROM_PROTECTED := false, h_revision := .number new_revision })
        let b ← load B
        if b.GCFLAG_PUBLIC then
          -- B was stolen
          if IS_POINTER b.h_revision then .leave
          else store B (some { b with h_revision := .pointer P })
        else store B none
    | v => .assert (v ≠ .number stm_private_rev_num)

/-- `AbortPrivateFromProtected`. -/
def AbortPrivateFromProtected (items : List gcptr) : Exec (Heap n Content) Unit :=
  .forEach items fun P => do
    let p ← load P
    .assert (p.GCFLAG_PRIVATE_FROM_PROTECTED = true)
    match p.h_revision with
    | .pointer B => do
        let b ← load B
        .assert (b.GCFLAG_OLD = true)
        if b.GCFLAG_PUBLIC then do
          .assert (b.GCFLAG_BACKUP_COPY = false)
          -- P becomes a public outdated object
          store P (some { p with
            GCFLAG_PRIVATE_FROM_PROTECTED := false, GCFLAG_PUBLIC := true
            GCFLAG_MOVED := p.GCFLAG_MOVED || !p.GCFLAG_OLD })
        else do
          .assert (b.GCFLAG_BACKUP_COPY = true)
          store P (some { p with
            GCFLAG_PRIVATE_FROM_PROTECTED := false
            h_revision := b.h_revision, content := b.content })
          store B none
    | _ => .assert False

end PrivateFromProtected

/-! ## Steps -/

/-- The actions. `t` is the thread that runs the code. -/
inductive Act (n : ℕ) (Content : Type) where
  /-- the slot `t` is given up by a thread, and taken by a new one -/
  | DescriptorInit (t : Fin n) (stm_private_rev_num : ℤ)
  /-- a new private object -/
  | allocate (t : Fin n) (o : gcptr) (c : Content)
  /-- the program writes to a private object -/
  | write (t : Fin n) (o : gcptr) (c : Content)
  | LocalizeProtected (t : Fin n) (P B : gcptr)
  | LocalizePublic (t : Fin n) (R L : gcptr) (old : Bool)
  /-- a stub for a protected object, made when a reference to it is published -/
  | stub_malloc (P S : gcptr)
  /-- `stm_steal_stub(S)` of any other thread; `O` is the place of a copy -/
  | stm_steal_stub (S O : gcptr)
  | stm_normalize_stolen_objects (t : Fin n)
  /-- a read barrier of any thread shortcuts the chain at `P_prev` -/
  | shortcut (P_prev P : gcptr)
  | minor_collect (t : Fin n)
  /-- in a major collection: the revision `obj` is moved over `id_copy` -/
  | copy_over_original (obj id_copy : gcptr)
  /-- `CommitTransaction`, up to the call of `AcquireLocks` -/
  | CommitTransaction (t : Fin n)
  /-- one access in `AcquireLocks` -/
  | AcquireLocks (t : Fin n)
  /-- the call of `CancelLocks` -/
  | call_CancelLocks (t : Fin n) (abort : Bool)
  /-- one item in `CancelLocks` -/
  | CancelLocks (t : Fin n)
  /-- the thread has `mutex_inevitable`; it aborts now if the abort was delayed -/
  | wait_over (t : Fin n) (abort : Bool)
  | CommitPrivateFromProtected (t : Fin n) (cur_time : ℤ)
  /-- `newrev`, and the first loop of `UpdateChainHeads`: the items with their stubs -/
  | new_heads (t : Fin n) (items : List (wlog_t × gcptr))
  /-- the store to `R` in the second loop of `UpdateChainHeads` -/
  | UpdateChainHeads (t : Fin n) (R : gcptr)
  /-- `g2l_clear`, and the end of `CommitTransaction` -/
  | commit_done (t : Fin n)
  /-- `AbortTransaction` from the running transaction -/
  | AbortTransaction (t : Fin n)
  /-- `AbortPrivateFromProtected` and the end of `AbortTransaction` -/
  | abort_done (t : Fin n)

section Step

open Act

variable (s : State n Content)

/-- The local copy of the public `R`. -/
def duplicate (r : object n Content) (t : Fin n) (stm_private_rev_num : ℤ) (old : Bool) :
    object n Content :=
  { r with
    h_revision := .number stm_private_rev_num
    GCFLAG_OLD := old
    GCFLAG_PUBLIC := false
    GCFLAG_PUBLIC_TO_PRIVATE := false
    thread := t }

/-- A stub to `p`. -/
def new_stub (p : gcptr) (x : object n Content) : object n Content :=
  { x with
    h_revision := .stub p
    GCFLAG_OLD := true
    GCFLAG_PUBLIC := true
    GCFLAG_BACKUP_COPY := false
    GCFLAG_PUBLIC_TO_PRIVATE := false
    GCFLAG_MOVED := false
    GCFLAG_STUB := true
    GCFLAG_PRIVATE_FROM_PROTECTED := false }

/-- `stm_steal_stub`, past the taking of the `collection_lock` of `foreign`, where
the stub `stub` at `S` points to `l` at `L`. -/
def steal (S O L : gcptr) (stub l : object n Content) (foreign : Fin n) : Outcome (State n Content) :=
  if l.GCFLAG_PRIVATE_FROM_PROTECTED then
    match l.h_revision with
    | .pointer B =>
        match s.heap B with
        | none => .fault
        | some b =>
            if b.GCFLAG_PUBLIC_TO_PRIVATE then
              -- already stolen
              guarded (b.GCFLAG_PUBLIC = true)
                (.next ((s.set_object B { b with GCFLAG_BACKUP_COPY := false }).set_object S
                  { stub with h_revision := .pointer B }))
            else
              guarded (b.GCFLAG_PUBLIC = false)
                (.next (((s.set_object B { b with
                    GCFLAG_BACKUP_COPY := false
                    GCFLAG_PUBLIC_TO_PRIVATE := true
                    GCFLAG_PUBLIC := true }).set_object S
                  { stub with h_revision := .pointer B }).set_thread foreign
                  { s.threads foreign with
                    stolen_objects := (s.threads foreign).stolen_objects ++ [(B, L)] }))
    | _ => .fault
  else if l.GCFLAG_PUBLIC then
    if l.GCFLAG_MOVED then
      match l.h_revision with
      | .pointer O => .next (s.set_object S { stub with h_revision := .pointer O })
      | _ => .fault
    else .next (s.set_object S { stub with h_revision := .pointer L })
  else if l.GCFLAG_OLD then
    .next ((s.set_object L { l with GCFLAG_PUBLIC := true }).set_object S
      { stub with h_revision := .pointer L })
  else
    -- copy the object out of the other thread's nursery
    guarded (s.heap O = none ∧ O ≠ 0)
      (.next (((s.set_object O { l with GCFLAG_OLD := true, GCFLAG_PUBLIC := true }).set_object L
        { l with h_revision := .pointer O, GCFLAG_PUBLIC := true, GCFLAG_MOVED := true }).set_object S
        { stub with h_revision := .pointer O }))

/-- The key `obj` becomes `id_copy`: the item is deleted and inserted again. -/
def rekey (obj id_copy : gcptr) (d : tx_descriptor n) : Option (tx_descriptor n) :=
  match d.public_to_private.g2l_find obj with
  | none => some d
  | some L =>
      ((d.public_to_private.g2l_delete_item obj).g2l_insert id_copy L).map fun g =>
        { d with public_to_private := g }

/-- The heap after `id_copy` got the revision and the content of `obj`. The
references to `obj` that the collector rewrites are redirected at `obj`, those
of the private objects to their backup copies at the objects. What becomes a key
of `public_to_private` gets the flag back. -/
def moved_heap (heap : Heap n Content) (obj id_copy : gcptr) (x : object n Content) : Heap n Content :=
  fun p =>
    if p = obj then some { x with GCFLAG_MOVED := true, h_revision := .pointer id_copy }
    else (heap p).map fun y =>
      if p = id_copy then
        { y with
          h_revision := x.h_revision, content := x.content, GCFLAG_STUB := x.GCFLAG_STUB
          GCFLAG_PUBLIC_TO_PRIVATE := x.GCFLAG_PUBLIC_TO_PRIVATE || y.GCFLAG_PUBLIC_TO_PRIVATE }
      else if y.GCFLAG_PRIVATE_FROM_PROTECTED = true ∧ y.h_revision = .pointer obj then
        { y with h_revision := .pointer id_copy }
      else y

/-- The new revision in the local copy of an item, and the new stub to it. -/
def new_head (new_revision : ℤ) (heap : Heap n Content) (item : wlog_t × gcptr) :
    Option (Heap n Content) :=
  match heap item.1.2, heap item.2 with
  | some l, none =>
      some (Function.update (Function.update heap item.1.2
          (some { l with h_revision := .number new_revision }))
        item.2 (some (new_stub item.1.2 l)))
  | _, _ => none

/-- The step function. -/
def step : State n Content → Act n Content → Outcome (State n Content)
  | s, DescriptorInit t stm_private_rev_num =>
      guarded ((s.threads t).pc = .running ∧ (s.threads t).items = []
          ∧ (s.threads t).private_from_protected = [] ∧ (s.threads t).stolen_objects = [])
        (.next (s.set_thread t { s.threads t with stm_private_rev_num := stm_private_rev_num }))
  | s, allocate t o c =>
      guarded ((s.threads t).pc = .running ∧ s.heap o = none ∧ o ≠ 0)
        (.next (s.set_object o
          { h_revision := .number (s.threads t).stm_private_rev_num
            GCFLAG_OLD := false
            GCFLAG_PUBLIC := false
            GCFLAG_BACKUP_COPY := false
            GCFLAG_PUBLIC_TO_PRIVATE := false
            GCFLAG_MOVED := false
            GCFLAG_STUB := false
            GCFLAG_PRIVATE_FROM_PROTECTED := false
            thread := t
            content := c }))
  | s, write t o c =>
      match s.heap o with
      | none => .blocked
      | some x =>
          guarded ((s.threads t).pc = .running ∧ x.thread = t ∧ x.GCFLAG_PUBLIC = false
              ∧ x.GCFLAG_BACKUP_COPY = false ∧ (s.threads t).is_private x = true)
            (.next (s.set_object o { x with content := c }))
  | s, LocalizeProtected t P B =>
      match s.heap P with
      | none => .blocked
      | some p =>
          guarded ((s.threads t).pc = .running ∧ (s.threads t).stolen_objects = []
              ∧ p.thread = t ∧ p.GCFLAG_PUBLIC = false ∧ p.GCFLAG_BACKUP_COPY = false
              ∧ p.GCFLAG_PUBLIC_TO_PRIVATE = false ∧ (s.threads t).is_private p = false
              ∧ IS_POINTER p.h_revision = false ∧ s.heap B = none ∧ B ≠ 0)
            (.next (((s.set_object B { p with GCFLAG_BACKUP_COPY := true, GCFLAG_OLD := true }).set_object P
              { p with GCFLAG_PRIVATE_FROM_PROTECTED := true, h_revision := .pointer B }).set_thread t
              { s.threads t with
                private_from_protected := (s.threads t).private_from_protected ++ [P] }))
  | s, LocalizePublic t R L old =>
      match s.heap R with
      | none => .blocked
      | some r =>
          guarded ((s.threads t).pc = .running ∧ (s.threads t).stolen_objects = []
              ∧ r.GCFLAG_PUBLIC = true ∧ r.GCFLAG_OLD = true
              ∧ r.GCFLAG_MOVED = false ∧ r.GCFLAG_STUB = false
              ∧ (s.threads t).is_private r = false ∧ s.heap L = none ∧ L ≠ 0)
            ((Outcome.ofOption ((s.threads t).public_to_private.g2l_insert R L)).bind fun g =>
              .next (((s.set_object R { r with GCFLAG_PUBLIC_TO_PRIVATE := true }).set_object L
                (duplicate r t (s.threads t).stm_private_rev_num old)).set_thread t
                { s.threads t with public_to_private := g }))
  | s, stub_malloc P S =>
      match s.heap P with
      | none => .blocked
      | some p =>
          guarded (p.GCFLAG_PUBLIC = false ∧ p.GCFLAG_BACKUP_COPY = false
              ∧ (s.threads p.thread).pc.has_collection_lock = false ∧ s.heap S = none ∧ S ≠ 0
              ∧ (p.GCFLAG_PRIVATE_FROM_PROTECTED = true
                ∨ (s.threads p.thread).is_private p = false))
            (.next (s.set_object S (new_stub P p)))
  | s, stm_steal_stub S O =>
      match s.heap S with
      | none => .blocked
      | some stub =>
          match stub.h_revision with
          | .stub L =>
              match s.heap L with
              | none => .fault
              | some l =>
                  guarded ((s.threads stub.thread).pc.has_collection_lock = false)
                    (steal s S O L stub l stub.thread)
          | _ => .blocked
  | s, .stm_normalize_stolen_objects t =>
      guarded ((s.threads t).pc.has_collection_lock = false)
        ((Outcome.ofOption (Stmgc.C4.stm_normalize_stolen_objects (s.threads t))).bind fun d =>
          .next (s.set_thread t d))
  | s, shortcut P_prev P =>
      match s.heap P_prev, s.heap P with
      | some p_prev, some p =>
          guarded (p_prev.GCFLAG_PUBLIC = true ∧ p_prev.h_revision = .pointer P)
            (match p.h_revision with
            | .pointer v => .next (s.set_object P_prev { p_prev with h_revision := .pointer v })
            | _ => .blocked)
      | _, _ => .blocked
  | s, minor_collect t =>
      guarded ((s.threads t).pc.has_collection_lock = false ∧ (s.threads t).stolen_objects = [])
        (.next { s with heap := fun p => (s.heap p).map fun x =>
          if x.thread = t ∧ x.GCFLAG_PUBLIC = false then { x with GCFLAG_OLD := true } else x })
  | s, copy_over_original obj id_copy =>
      match s.heap obj, s.heap id_copy with
      | some x, some y =>
          guarded ((∀ d, (s.threads d).pc.has_collection_lock = false ∧ (s.threads d).stolen_objects = [])
              ∧ obj ≠ id_copy ∧ x.GCFLAG_PUBLIC = true ∧ x.GCFLAG_STUB = false
              ∧ IS_POINTER x.h_revision = false
              ∧ y.GCFLAG_PUBLIC = true ∧ y.GCFLAG_OLD = true ∧ IS_POINTER y.h_revision = true)
            (if ∀ d, (rekey obj id_copy (s.threads d)).isSome then
              .next
                { heap := moved_heap s.heap obj id_copy x
                  threads := fun d => (rekey obj id_copy (s.threads d)).getD (s.threads d) }
            else .fault)
      | _, _ => .blocked
  | s, CommitTransaction t =>
      guarded ((s.threads t).pc = .running)
        ((Outcome.ofOption (Stmgc.C4.stm_normalize_stolen_objects (s.threads t))).bind fun d =>
          if stm_has_got_any_lock s.heap (.locked t) d = some false then
            .next (s.set_thread t { d with pc := .acquire_locks d.items })
          else .fault)
  | s, AcquireLocks t =>
      match (s.threads t).pc with
      | .acquire_locks [] => .next (s.set_pc t .acquired)
      | .acquire_locks (item :: todo) =>
          match s.heap item.1 with
          | none => .fault
          | some r =>
              if r.GCFLAG_PUBLIC = true ∧ r.GCFLAG_PUBLIC_TO_PRIVATE = true then
                if IS_POINTER r.h_revision then
                  -- "has a more recent revision": AbortTransaction
                  .next (s.set_pc t (.cancel_locks (s.threads t).items true))
                else
                  match r.h_revision with
                  | .locked u => if u ≠ t then .next s else .fault
                  | v => .next (s.set_pc t (.acquire_cas item todo v))
              else .fault
      | .acquire_cas item todo v =>
          match s.heap item.1, s.heap item.2 with
          | some r, some l =>
              if r.h_revision = v then
                if l.h_revision = (s.threads t).expected item.1 l
                    ∧ v ≠ .number (s.threads t).stm_private_rev_num ∧ IS_POINTER v = false then
                  .next (((s.set_object item.1 { r with h_revision := .locked t }).set_object item.2
                    { l with h_revision := v }).set_pc t (.acquire_locks todo))
                else .fault
              else .next (s.set_pc t (.acquire_locks (item :: todo)))
          | _, _ => .fault
      | _ => .blocked
  | s, call_CancelLocks t abort =>
      -- the clock is odd, or the validation has failed
      guarded ((s.threads t).pc = .acquired)
        (.next (s.set_pc t (.cancel_locks (s.threads t).items abort)))
  | s, CancelLocks t =>
      match (s.threads t).pc with
      | .cancel_locks [] abort => .next (s.set_pc t (if abort then .aborting else .waiting))
      | .cancel_locks (item :: todo) abort =>
          match s.heap item.1, s.heap item.2 with
          | some r, some l =>
              if l.h_revision = (s.threads t).expected item.1 l then
                if r.h_revision ≠ .locked t then .next (s.set_pc t (.cancel_locks [] abort)) else .fault
              else if r.h_revision = .locked t then
                .next (((s.set_object item.2
                    { l with h_revision := (s.threads t).expected item.1 l }).set_object item.1
                  { r with h_revision := l.h_revision }).set_pc t (.cancel_locks todo abort))
              else .fault
          | _, _ => .fault
      | _ => .blocked
  | s, wait_over t abort =>
      guarded ((s.threads t).pc = .waiting)
        ((Outcome.ofOption (Stmgc.C4.stm_normalize_stolen_objects (s.threads t))).bind fun d =>
          if stm_has_got_any_lock s.heap (.locked t) d = some false then
            .next (s.set_thread t
              { d with pc := if abort then .aborting else .acquire_locks d.items })
          else .fault)
  | s, .CommitPrivateFromProtected t cur_time =>
      guarded ((s.threads t).pc = .acquired)
        (match Stmgc.C4.CommitPrivateFromProtected (s.threads t).stm_private_rev_num (cur_time + 1)
            (s.threads t).private_from_protected s.heap with
        | .ret _ heap => .next ({ s with heap := heap }.set_thread t
            { s.threads t with private_from_protected := [], pc := .committed cur_time })
        | .leave heap => .next ({ s with heap := heap }.set_pc t
            (.cancel_locks (s.threads t).items true))
        | .fault => .fault)
  | s, new_heads t items =>
      match (s.threads t).pc with
      | .committed cur_time =>
          guarded (items.map Prod.fst = (s.threads t).items)
            ((Outcome.ofOption (items.foldlM (new_head (cur_time + 1)) s.heap)).bind fun heap =>
              .next ({ s with heap := heap }.set_thread t
                { s.threads t with
                  stm_private_rev_num := -(cur_time + 1)
                  pc := .chain_heads (items.map fun (x : wlog_t × gcptr) => (x.1.1, x.2)) }))
      | _ => .blocked
  | s, UpdateChainHeads t R =>
      match (s.threads t).pc with
      | .chain_heads ((R', stub) :: todo) =>
          match s.heap R with
          | none => .fault
          | some r =>
              guarded (R = R')
                (if r.GCFLAG_PUBLIC = true ∧ r.GCFLAG_PUBLIC_TO_PRIVATE = true then
                  .next ((s.set_object R { r with h_revision := .pointer stub }).set_pc t
                    (.chain_heads todo))
                else .fault)
      | _ => .blocked
  | s, commit_done t =>
      guarded ((s.threads t).pc = .chain_heads [])
        (.next (s.set_thread t
          { s.threads t with public_to_private := G2L.g2l_clear, pc := .running }))
  | s, AbortTransaction t =>
      guarded ((s.threads t).pc = .running)
        ((Outcome.ofOption (Stmgc.C4.stm_normalize_stolen_objects (s.threads t))).bind fun d =>
          if stm_has_got_any_lock s.heap (.locked t) d = some false then
            .next (s.set_thread t { d with pc := .aborting })
          else .fault)
  | s, abort_done t =>
      guarded ((s.threads t).pc = .aborting)
        (match AbortPrivateFromProtected (s.threads t).private_from_protected s.heap with
        | .ret _ heap => .next ({ s with heap := heap }.set_thread t
            { s.threads t with
              private_from_protected := []
              public_to_private := G2L.g2l_clear
              pc := .running })
        | _ => .fault)

/-- At the start there are prebuilt objects, and no transactions. -/
structure init (s : State n Content) : Prop where
  null : s.heap 0 = none
  prebuilt : ∀ p x, s.heap p = some x → x.GCFLAG_PUBLIC = true ∧ x.GCFLAG_OLD = true
    ∧ x.GCFLAG_BACKUP_COPY = false ∧ x.GCFLAG_PUBLIC_TO_PRIVATE = false ∧ x.GCFLAG_MOVED = false
    ∧ x.GCFLAG_STUB = false ∧ x.GCFLAG_PRIVATE_FROM_PROTECTED = false ∧ ∃ v, x.h_revision = .number v
  threads : ∀ t, (s.threads t).public_to_private = G2L.g2l_clear
    ∧ (s.threads t).private_from_protected = [] ∧ (s.threads t).stolen_objects = []
    ∧ (s.threads t).pc = .running

end Step

end Stmgc.C4
