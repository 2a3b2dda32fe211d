/-
The frames of duhton (`frame.c`), and its symbols (`symbol.c`).

A frame points to a node, an array of entries in the order of the ids of their
symbols. A symbol that is not there yet gets a new and longer node; an entry
that is there is changed in place. All frames begin with one prebuilt node that
is empty.

An allocation may collect. Then all objects but the prebuilt ones move: a
pointer variable is of no use any more if it was not saved as a root, and all
objects need another write barrier. Here objects have names, and a pointer
variable says how many collections there were when it got its value.
-/
import Stmgc.Lib.BinarySearch
import Stmgc.Lib.Exec
import Mathlib.Algebra.Ring.Nat

namespace Stmgc.Duhton

open Stmgc.Lib

namespace Frame

/-! ## Data -/

/-- A pointer variable. -/
structure Ptr where
  obj : ℕ
  collections : ℕ

/-- The pointers to objects are names here, or `NULL`. -/
structure dictentry_t where
  symbol_id : ℤ
  symbol : Option ℕ
  value : Option ℕ
  builtin_macro : Option ℕ
  func_arglist : Option ℕ
  func_progn : Option ℕ

inductive Object where
  /-- not allocated yet -/
  | none
  | uninitialized
  | symbol (myid : ℤ) (name : String)
  | frame (ob_nodes : ℕ)
  | framenode (ob_count : ℕ) (ob_items : ℕ → dictentry_t)

def _Du_AllSymbols : ℕ := 0
def du_empty_framenode : ℕ := 1
def Du_Globals : ℕ := 2

def is_prebuilt (obj : ℕ) : Prop := obj < 3

instance (obj : ℕ) : Decidable (is_prebuilt obj) := inferInstanceAs (Decidable (obj < 3))

/-- The objects, with the symbols in the order of the list from
`_Du_AllSymbols`. -/
structure Heap where
  objects : ℕ → Object
  next_object : ℕ
  allsymbols : List ℕ
  next_id : ℤ

structure St where
  heap : Heap
  collections : ℕ
  /-- read barriers in this transaction -/
  read : ℕ → Bool
  /-- write barriers since the last collection -/
  written : ℕ → Bool
  shadowstack : List (Option ℕ)

/-- When allocations collect and when they find no memory, by the number of the
object; and what new memory holds. -/
structure Gc where
  collects : ℕ → Bool
  fails : ℕ → Bool
  garbage : ℕ → dictentry_t

/-- A symbol takes 32 bytes of the pages, of which there are `NB_PAGES`. -/
def MAX_SYMBOLS : ℕ := 2500 * 256 * 4096 / 32

def St.set_object (s : St) (obj : ℕ) (x : Object) : St :=
  { s with heap.objects := Function.update s.heap.objects obj x }

def St.is_valid (s : St) (p : Ptr) : Prop := p.collections = s.collections ∨ is_prebuilt p.obj

instance (s : St) (p : Ptr) : Decidable (s.is_valid p) := by
  unfold St.is_valid
  infer_instance

/-- The object may be read. -/
def St.is_read (s : St) (p : Ptr) : Prop :=
  s.is_valid p ∧ (s.read p.obj = true ∨ s.written p.obj = true)

instance (s : St) (p : Ptr) : Decidable (s.is_read p) := by
  unfold St.is_read
  infer_instance

/-- The object may be written to. -/
def St.is_written (s : St) (p : Ptr) : Prop := s.is_valid p ∧ s.written p.obj = true

instance (s : St) (p : Ptr) : Decidable (s.is_written p) := by
  unfold St.is_written
  infer_instance

/-! ## Pointers, roots and barriers -/

/-- What fields, roots and prebuilt variables have is up to date. -/
def pointer (obj : ℕ) : Exec St Ptr := fun s => .ret ⟨obj, s.collections⟩ s

/-- Any use of a pointer variable. -/
def check_pointer (p : Ptr) : Exec St Unit := do
  let s ← Exec.get
  Exec.assert (s.is_valid p)

/-- A variable that may be `NULL`. -/
def check_pointer_or_null : Option Ptr → Exec St Unit
  | none => return ()
  | some p => check_pointer p

def _push_root (p : Option Ptr) : Exec St Unit := do
  check_pointer_or_null p
  Exec.modify fun s => { s with shadowstack := p.map Ptr.obj :: s.shadowstack }

/-- `_pop_root` into a variable that may be `NULL`. -/
def _pop_root_or_null : Exec St (Option Ptr) := fun s =>
  match s.shadowstack with
  | [] => .fault
  | root :: rest => .ret (root.map fun obj => ⟨obj, s.collections⟩) { s with shadowstack := rest }

def _pop_root : Exec St Ptr := fun s =>
  match s.shadowstack with
  | some obj :: rest => .ret ⟨obj, s.collections⟩ { s with shadowstack := rest }
  | _ => .fault

def _du_read1 (p : Ptr) : Exec St Unit := do
  check_pointer p
  Exec.modify fun s => { s with read := Function.update s.read p.obj true }

def _du_write1 (p : Ptr) : Exec St Unit := do
  check_pointer p
  Exec.modify fun s => { s with written := Function.update s.written p.obj true }

/-- A minor collection. -/
def St.collect (s : St) : St := { s with collections := s.collections + 1, written := fun _ => false }

/-- Without memory the process ends. -/
def stm_allocate (gc : Gc) : Exec St Ptr := fun s =>
  if gc.fails s.heap.next_object = true ∨ MAX_SYMBOLS ≤ s.heap.allsymbols.length then .leave s
  else
    let s := if gc.collects s.heap.next_object = true then s.collect else s
    let obj := s.heap.next_object
    let s := s.set_object obj .uninitialized
    .ret ⟨obj, s.collections⟩ { s with
      heap.next_object := obj + 1
      written := Function.update s.written obj true }

/-- All fields of an object are written. -/
def store_object (p : Ptr) (x : Object) : Exec St Unit := do
  let s ← Exec.get
  Exec.assert (s.is_written p)
  Exec.modify fun s => s.set_object p.obj x

/-! ## `symbol.c` -/

/-- `DuSymbol_Ensure` and the fields, which are immutable. -/
def symbol_fields (p : Ptr) : Exec St (ℤ × String) := do
  check_pointer p
  let s ← Exec.get
  match s.heap.objects p.obj with
  | .symbol myid name => return (myid, name)
  | _ => fun _ => .fault

def DuSymbol_Id (ob : Ptr) : Exec St ℤ := do
  let (myid, _) ← symbol_fields ob
  return myid

/-- The loop of `DuSymbol_FromString`. -/
def find_symbol (name : String) : List ℕ → Exec St (Option Ptr)
  | [] => return none
  | p :: next => do
    let p ← pointer p
    _du_read1 p
    let (_, p_name) ← symbol_fields p
    if name = p_name then return some p else find_symbol name next

/-- `__sync_fetch_and_add(&next_id, 1)`, which wraps around. -/
def fetch_and_add_next_id : Exec St ℤ := do
  let s ← Exec.get
  Exec.modify fun s => { s with heap.next_id := Int.bmod (s.heap.next_id + 1) (2 ^ 32) }
  return s.heap.next_id

/-- `p->next = head->next; head->next = p;` -/
def insert_symbol (head p : Ptr) : Exec St Unit := do
  let s ← Exec.get
  Exec.assert (s.is_written head ∧ s.is_written p)
  Exec.modify fun s => { s with
    heap.allsymbols := s.heap.allsymbols.take 1 ++ p.obj :: s.heap.allsymbols.drop 1 }

def DuSymbol_FromString (gc : Gc) (name : String) : Exec St Ptr := do
  let head ← pointer _Du_AllSymbols
  _du_read1 head
  let s ← Exec.get
  match ← find_symbol name s.heap.allsymbols with
  | some p => return p
  | none => do
    let p ← stm_allocate gc
    let myid ← fetch_and_add_next_id
    store_object p (.symbol myid name)
    _du_write1 head
    insert_symbol head p
    return p

/-! ## `frame.c` -/

def DuFrame_New (gc : Gc) : Exec St Ptr := do
  let ob ← stm_allocate gc
  store_object ob (.frame du_empty_framenode)
  return ob

/-- `DuFrame_Ensure` -/
def DuFrame_Ensure (ob : Ptr) : Exec St Unit := do
  check_pointer ob
  let s ← Exec.get
  match s.heap.objects ob.obj with
  | .frame _ => return ()
  | _ => fun _ => .fault

/-- `frame->ob_nodes` -/
def get_ob_nodes (frame : Ptr) : Exec St Ptr := do
  let s ← Exec.get
  Exec.assert (s.is_read frame)
  match s.heap.objects frame.obj with
  | .frame ob_nodes => pointer ob_nodes
  | _ => fun _ => .fault

/-- `ob->ob_count` and `ob->ob_items` -/
def get_entries (ob : Ptr) : Exec St (ℕ × (ℕ → dictentry_t)) := do
  let s ← Exec.get
  Exec.assert (s.is_read ob)
  match s.heap.objects ob.obj with
  | .framenode ob_count ob_items => return (ob_count, ob_items)
  | _ => fun _ => .fault

/-- `frame->ob_nodes = newob` -/
def set_ob_nodes (frame newob : Ptr) : Exec St Unit := do
  check_pointer newob
  store_object frame (.frame newob.obj)

/-- A `dictentry_t *`, which points into a node. -/
structure EntryPtr where
  node : Ptr
  index : ℕ

/-- `*e` -/
def get_entry (e : EntryPtr) : Exec St dictentry_t := do
  let (ob_count, ob_items) ← get_entries e.node
  Exec.assert (e.index < ob_count)
  return ob_items e.index

/-- The fields of `*e` are changed. -/
def set_entry (e : EntryPtr) (f : dictentry_t → dictentry_t) : Exec St Unit := do
  let (ob_count, ob_items) ← get_entries e.node
  Exec.assert (e.index < ob_count)
  store_object e.node
    (.framenode ob_count (Function.update ob_items e.index (f (ob_items e.index))))

/-- What `_clear` leaves. -/
def dictentry_t.zero : dictentry_t where
  symbol_id := 0
  symbol := none
  value := none
  builtin_macro := none
  func_arglist := none
  func_progn := none

/-- The loops of `find_entry` that fill the new node. -/
def newentries (garbage entries : ℕ → dictentry_t) (ob_count left : ℕ) (new : dictentry_t) :
    ℕ → dictentry_t :=
  let newentries := (List.range' 0 left).foldl (fun newentries i =>
    Function.update newentries i (entries i)) garbage
  let newentries := Function.update newentries left new
  (List.range' (left + 1) (ob_count - (left + 1))).foldl (fun newentries i =>
    Function.update newentries i (entries (i - 1))) newentries

/-- `find_entry` from `newob->ob_count = ob->ob_count + 1` on. -/
def fill_node (gc : Gc) (frame symbol ob newob : Ptr) (search_id : ℤ) (left : ℕ) :
    Exec St EntryPtr := do
  let (ob_count, entries) ← get_entries ob
  let _ ← DuSymbol_Id symbol
  store_object newob (.framenode (ob_count + 1)
    (newentries gc.garbage entries (ob_count + 1) left
      { dictentry_t.zero with symbol_id := search_id, symbol := some symbol.obj }))
  _du_write1 frame
  set_ob_nodes frame newob
  return ⟨newob, left⟩

/-- `find_entry` with `write_mode`, where the symbol has no entry. -/
def add_entry (gc : Gc) (frame symbol ob : Ptr) (search_id : ℤ) (left : ℕ) : Exec St EntryPtr := do
  _push_root (some ob)
  _push_root (some symbol)
  _push_root (some frame)
  let newob ← stm_allocate gc
  let frame ← _pop_root
  let symbol ← _pop_root
  let ob ← _pop_root
  fill_node gc frame symbol ob newob search_id left

def find_entry (gc : Gc) (frame symbol : Ptr) (write_mode : Bool) : Exec St (Option EntryPtr) := do
  _du_read1 frame
  let ob ← get_ob_nodes frame
  _du_read1 ob
  let (ob_count, entries) ← get_entries ob
  let search_id ← DuSymbol_Id symbol
  match binary_search (fun i => (entries i).symbol_id) search_id 0 ob_count with
  | .inl middle => do
    Exec.ifThen (write_mode = true) (_du_write1 ob)
    return some ⟨ob, middle⟩
  | .inr left =>
    if write_mode = true then do
      let e ← add_entry gc frame symbol ob search_id left
      return some e
    else return none

def DuFrame_SetBuiltinMacro (gc : Gc) (frame : Ptr) (name : String) (func : ℕ) : Exec St Unit := do
  DuFrame_Ensure frame
  _push_root (some frame)
  let sym ← DuSymbol_FromString gc name
  let frame ← _pop_root
  _push_root (some frame)
  let e ← find_entry gc frame sym true
  let frame ← _pop_root
  -- e is part of frame or a new object
  _du_write1 frame
  match e with
  | none => fun _ => .fault
  | some e => set_entry e fun d => { d with builtin_macro := some func }

def DuFrame_GetSymbol (gc : Gc) (frame symbol : Ptr) : Exec St (Option ℕ) := do
  DuFrame_Ensure frame
  match ← find_entry gc frame symbol false with
  | none => return none
  | some e => do
    -- find_entry does the read barrier
    let d ← get_entry e
    return d.value

def DuFrame_SetSymbol (gc : Gc) (frame symbol : Ptr) (value : Option Ptr) : Exec St Unit := do
  DuFrame_Ensure frame
  _push_root value
  _push_root (some frame)
  let e ← find_entry gc frame symbol true
  let frame ← _pop_root
  let value ← _pop_root_or_null
  -- e is new or part of frame
  _du_write1 frame
  check_pointer_or_null value
  match e with
  | none => fun _ => .fault
  | some e => set_entry e fun d => { d with value := value.map Ptr.obj }

def DuFrame_SetUserFunction (gc : Gc) (frame symbol : Ptr) (arglist progn : Option Ptr) :
    Exec St Unit := do
  DuFrame_Ensure frame
  _push_root arglist
  _push_root progn
  _push_root (some frame)
  let e ← find_entry gc frame symbol true
  let frame ← _pop_root
  let progn ← _pop_root_or_null
  let arglist ← _pop_root_or_null
  -- e is part of frame or new
  _du_write1 frame
  check_pointer_or_null arglist
  check_pointer_or_null progn
  match e with
  | none => fun _ => .fault
  | some e => set_entry e fun d =>
      { d with func_arglist := arglist.map Ptr.obj, func_progn := progn.map Ptr.obj }

/-- The entry that `_DuFrame_EvalCall` looks for in one frame. -/
def lookup (gc : Gc) (frame symbol : Ptr) : Exec St (Option dictentry_t) := do
  DuFrame_Ensure frame
  match ← find_entry gc frame symbol false with
  | none => return none
  | some e => do
    let d ← get_entry e
    return some d

/-! ## Programs -/

/-- A call, with the objects that the caller passes, or the end of its
transaction and the start of the next one. -/
inductive Op where
  | DuFrame_New
  | DuSymbol_FromString (name : String)
  | DuFrame_GetSymbol (frame symbol : ℕ)
  | DuFrame_SetSymbol (frame symbol : ℕ) (value : Option ℕ)
  | DuFrame_SetUserFunction (frame symbol : ℕ) (arglist progn : Option ℕ)
  | DuFrame_SetBuiltinMacro (frame : ℕ) (name : String) (func : ℕ)
  | lookup (frame symbol : ℕ)
  | transaction_break

/-- What a call returns. -/
inductive Answer where
  | void
  | object (obj : ℕ)
  | value (value : Option ℕ)
  | entry (d : Option dictentry_t)

/-- The pointers that the caller passes are up to date. -/
def pointer_or_null : Option ℕ → Exec St (Option Ptr)
  | none => return none
  | some obj => do
    let p ← pointer obj
    return some p

def perform (gc : Gc) : Op → Exec St Answer
  | .DuFrame_New => do
    let ob ← DuFrame_New gc
    return .object ob.obj
  | .DuSymbol_FromString name => do
    let p ← DuSymbol_FromString gc name
    return .object p.obj
  | .DuFrame_GetSymbol frame symbol => do
    let frame ← pointer frame
    let symbol ← pointer symbol
    let value ← DuFrame_GetSymbol gc frame symbol
    return .value value
  | .DuFrame_SetSymbol frame symbol value => do
    let frame ← pointer frame
    let symbol ← pointer symbol
    let value ← pointer_or_null value
    DuFrame_SetSymbol gc frame symbol value
    return .void
  | .DuFrame_SetUserFunction frame symbol arglist progn => do
    let frame ← pointer frame
    let symbol ← pointer symbol
    let arglist ← pointer_or_null arglist
    let progn ← pointer_or_null progn
    DuFrame_SetUserFunction gc frame symbol arglist progn
    return .void
  | .DuFrame_SetBuiltinMacro frame name func => do
    let frame ← pointer frame
    DuFrame_SetBuiltinMacro gc frame name func
    return .void
  | .lookup frame symbol => do
    let frame ← pointer frame
    let symbol ← pointer symbol
    let d ← lookup gc frame symbol
    return .entry d
  | .transaction_break => do
    Exec.modify fun s => { s.collect with read := fun _ => false }
    return .void

/-- After `init_prebuilt_symbol_objects` and `init_prebuilt_frame_objects`. -/
def initial : St where
  heap :=
    { objects := fun obj =>
        if obj = _Du_AllSymbols then .symbol 0 ""
        else if obj = du_empty_framenode then .framenode 0 fun _ => dictentry_t.zero
        else if obj = Du_Globals then .frame du_empty_framenode
        else .none
      next_object := 3
      allsymbols := [_Du_AllSymbols]
      next_id := 1 }
  collections := 0
  read := fun _ => false
  written := fun _ => false
  shadowstack := []

/-! ## Finite maps -/

/-- What a symbol stands for in a frame. -/
structure Binding where
  value : Option ℕ
  /-- the arguments and the body -/
  user_function : Option ℕ × Option ℕ
  builtin_macro : Option ℕ

def Binding.empty : Binding := ⟨none, (none, none), none⟩

def dictentry_t.binding (d : dictentry_t) : Binding where
  value := d.value
  user_function := (d.func_arglist, d.func_progn)
  builtin_macro := d.builtin_macro

/-- A finite map for each frame, from the names of the symbols; and the names of
the symbols that the program has. -/
structure Maps where
  frames : ℕ → Option (String → Option Binding)
  names : ℕ → Option String

def Maps.initial : Maps where
  frames := fun obj => if obj = Du_Globals then some fun _ => none else none
  names := fun _ => none

/-- One component of a symbol is set. -/
def update_binding (map : String → Option Binding) (name : String) (f : Binding → Binding) :
    String → Option Binding :=
  Function.update map name (some (f ((map name).getD .empty)))

def Maps.set (m : Maps) (frame : ℕ) (name : String) (f : Binding → Binding) : Maps :=
  { m with
    frames := Function.update m.frames frame
      ((m.frames frame).map fun map => update_binding map name f) }

/-- What the frame has for the symbol. -/
def Maps.get (m : Maps) (frame symbol : ℕ) : Option Binding := do
  let map ← m.frames frame
  let name ← m.names symbol
  map name

/-- The change that a call makes, and only its own frame is changed. -/
def Maps.perform (m : Maps) : Op → Answer → Maps
  | .DuFrame_New, .object ob => { m with frames := Function.update m.frames ob (some fun _ => none) }
  | .DuSymbol_FromString name, .object p => { m with names := Function.update m.names p (some name) }
  | .DuFrame_SetSymbol frame symbol value, _ =>
    match m.names symbol with
    | none => m
    | some name => m.set frame name fun b => { b with value := value }
  | .DuFrame_SetUserFunction frame symbol arglist progn, _ =>
    match m.names symbol with
    | none => m
    | some name => m.set frame name fun b => { b with user_function := (arglist, progn) }
  | .DuFrame_SetBuiltinMacro frame name func, _ =>
    m.set frame name fun b => { b with builtin_macro := some func }
  | _, _ => m

/-- What a call has to answer. -/
def Maps.answers (m : Maps) : Op → Answer → Prop
  | .DuFrame_New, r => ∃ ob, r = .object ob ∧ m.frames ob = none
  | .DuSymbol_FromString name, r => ∃ p, r = .object p ∧ ∀ q n, m.names q = some n → (q = p ↔ n = name)
  | .DuFrame_GetSymbol frame symbol, r => r = .value ((m.get frame symbol).bind Binding.value)
  | .lookup frame symbol, r => ∃ d, r = .entry d ∧ d.map dictentry_t.binding = m.get frame symbol
  | _, r => r = .void

/-- The program passes frames and symbols that it has. -/
def Maps.may (m : Maps) : Op → Prop
  | .DuFrame_GetSymbol frame symbol | .DuFrame_SetSymbol frame symbol _
  | .DuFrame_SetUserFunction frame symbol _ _ | .lookup frame symbol =>
    (m.frames frame).isSome = true ∧ (m.names symbol).isSome = true
  | .DuFrame_SetBuiltinMacro frame _ _ => (m.frames frame).isSome = true
  | _ => True

/-- The runs of all programs, with the finite maps beside them. -/
inductive Run (gc : Gc) : St → Maps → Prop where
  | start : Run gc initial .initial
  | call {s s' : St} {m : Maps} {op : Op} {r : Answer} : Run gc s m → m.may op →
      perform gc op s = .ret r s' → Run gc s' (m.perform op r)

end Frame

end Stmgc.Duhton
