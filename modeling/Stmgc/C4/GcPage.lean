/-
`c4/gcpage.c`: the pages that hold the small objects, the free lists through
them, and the sweeping of them in a major collection.

Addresses are counted in words, and `NULL` is 0. The free locations of a
thread are a chain through `h_revision`; the chain of its pages is a list, as
is a `struct G2L` whose items all have the form `(p, p)`. Besides the data of
the source there is `live`: the objects that the program has, with their
sizes. An object is no longer live where the code makes its memory free again.

Every step but one runs between accesses of other threads that it cannot see:
`count_global_pages` is read and written without a lock, so its increment is
two steps. A run ends where an assertion fails.
-/
import Stmgc.Lib.Loop
import Stmgc.Lib.Machine
import Stmgc.Lib.Path
import Mathlib.Algebra.BigOperators.Group.Finset.Basic

namespace Stmgc.C4.GcPage

open Stmgc.Lib

def WORD : ℕ := 8

def GC_SMALL_REQUESTS : ℕ := 36

/-- `GC_PAGE_SIZE`, in words. -/
def GC_PAGE_WORDS : ℕ := 1021

def GC_SMALL_REQUEST_THRESHOLD : ℕ := (GC_SMALL_REQUESTS - 1) * WORD

/-- `sizeof (struct stm_object_s)`. -/
def sizeof_object : ℕ := 3 * WORD

/-- The first word of a page is its header. -/
def nblocks_for_size (size_class : ℕ) : ℕ := (GC_PAGE_WORDS * WORD - WORD) / (WORD * size_class)

def GCFLAG_VISITED : BitVec 64 := 1 <<< 33

def GCFLAG_MARKED : BitVec 64 := 1 <<< 45

def DEBUG_WORD (char : BitVec 8) : BitVec 64 := char.zeroExtend 64 * 0x0101010101010101

def is_visited (tid : BitVec 64) : Bool := tid &&& GCFLAG_VISITED != 0

def is_marked (tid : BitVec 64) : Bool := tid &&& GCFLAG_MARKED != 0

/-- The words that an object of this size takes, and its size class when it is
small. -/
def words (size : ℕ) : ℕ := (size + WORD - 1) / WORD

/-- The part of `struct tx_public_descriptor` that is about pages. -/
structure tx_public_descriptor where
  pages_for_size : ℕ → List ℕ
  free_loc_for_size : ℕ → ℕ
  count_pages : ℕ
  nonsmall_objects : List ℕ
  /-- `none` is -1 -/
  free_list_next : Option ℕ

def new_descriptor : tx_public_descriptor where
  pages_for_size _ := []
  free_loc_for_size _ := 0
  count_pages := 0
  nonsmall_objects := []
  free_list_next := none

inductive Pc where
  | running
  /-- in `allocate_new_page`, where `count_global_pages` was read -/
  | allocate_new_page (size count_global_pages : ℕ)
deriving DecidableEq

structure State where
  /-- what `stm_malloc` has given out: addresses and numbers of words -/
  malloced : List (ℕ × ℕ)
  h_tid : ℕ → BitVec 64
  h_revision : ℕ → ℕ
  /-- the entries of `stm_descriptor_array` that are not `NULL` -/
  num_descriptors : ℕ
  descriptor : ℕ → tx_public_descriptor
  descriptor_array_free_list : ℕ
  /-- the indexes of the descriptors of the threads, from `stm_tx_head` on -/
  stm_tx_head : List ℕ
  pc : ℕ → Pc
  count_global_pages : ℕ
  mc_total_in_use : ℕ
  mc_total_reserved : ℕ
  random_char : BitVec 8
  live : ℕ → Option ℕ

namespace State

variable (st : State)

def set_descriptor (i : ℕ) (pd : tx_public_descriptor) : State :=
  { st with descriptor := Function.update st.descriptor i pd }

def set_free_loc (i size_class loc : ℕ) : State :=
  st.set_descriptor i { st.descriptor i with
    free_loc_for_size := Function.update (st.descriptor i).free_loc_for_size size_class loc }

def set_pages (i size_class : ℕ) (pages : List ℕ) : State :=
  st.set_descriptor i { st.descriptor i with
    pages_for_size := Function.update (st.descriptor i).pages_for_size size_class pages }

def set_tid (p : ℕ) (tid : BitVec 64) : State :=
  { st with h_tid := Function.update st.h_tid p tid }

def set_revision (p v : ℕ) : State :=
  { st with h_revision := Function.update st.h_revision p v }

def set_live (p : ℕ) (size : Option ℕ) : State :=
  { st with live := Function.update st.live p size }

/-- What `stm_malloc` may return: nothing of it is in use. -/
def Fresh (p n : ℕ) : Prop := 0 < p ∧ ∀ r ∈ st.malloced, p + n ≤ r.1 ∨ r.1 + r.2 ≤ p

instance (p n : ℕ) : Decidable (st.Fresh p n) :=
  inferInstanceAs (Decidable (0 < p ∧ ∀ r ∈ st.malloced, p + n ≤ r.1 ∨ r.1 + r.2 ≤ p))

/-- It fails when the memory was freed before. -/
def stm_free (p : ℕ) : Option State := do
  c_assert (p ∈ st.malloced.map Prod.fst)
  return { st with malloced := st.malloced.filter fun r => r.1 ≠ p }

end State

/-- The locations of a page, in the order of the loops over them. -/
def blocks (size_class page : ℕ) : List ℕ :=
  (List.range (nblocks_for_size size_class)).map fun j => page + 1 + j * size_class

/-! ## The allocator of a thread -/

/-- The chained list in a page, from the location `current` on. -/
def chain_page (size_class last : ℕ) : ℕ → ℕ → State → State
  | 0, current, st => (st.set_tid current (DEBUG_WORD 0xDD)).set_revision current last
  | count + 1, current, st =>
    let next := current + size_class
    chain_page size_class last count next
      ((st.set_tid current (DEBUG_WORD 0xDD)).set_revision current next)

/-- `allocate_new_page`, after `count_global_pages` was read. -/
def allocate_new_page (st : State) (i size_class page count_global_pages : ℕ) : State :=
  let st := { st with malloced := (page, GC_PAGE_WORDS) :: st.malloced }
  let st := st.set_descriptor i
    { st.descriptor i with count_pages := (st.descriptor i).count_pages + 1 }
  let st := { st with count_global_pages := count_global_pages + 1 }
  let st := st.set_pages i size_class (page :: (st.descriptor i).pages_for_size size_class)
  let head := page + 1
  let st := chain_page size_class ((st.descriptor i).free_loc_for_size size_class)
    (nblocks_for_size size_class - 1) head st
  st.set_free_loc i size_class head

/-- `stmgcpage_malloc` takes the first free location; the caller writes the
header of its object. -/
def take_free_loc (st : State) (i size : ℕ) (tid : BitVec 64) : State :=
  let result := (st.descriptor i).free_loc_for_size (words size)
  ((st.set_free_loc i (words size) (st.h_revision result)).set_live result (some size)).set_tid
    result tid

/-- `stmgcpage_malloc` of a large object. -/
def malloc_nonsmall (st : State) (i size result : ℕ) (tid : BitVec 64) : Option State := do
  let st := { st with malloced := (result, words size) :: st.malloced }
  c_assert (result ∉ (st.descriptor i).nonsmall_objects)
  let st := st.set_descriptor i { st.descriptor i with
    nonsmall_objects := result :: (st.descriptor i).nonsmall_objects }
  return (st.set_live result (some size)).set_tid result tid

/-- `stmgcpage_free`. The header is overwritten when assertions are compiled. -/
def stmgcpage_free (NDEBUG : Bool) (st : State) (i obj size : ℕ) : Option State := do
  if size ≤ GC_SMALL_REQUEST_THRESHOLD then
    let st := if NDEBUG then st else
      { st.set_tid obj (DEBUG_WORD st.random_char) with
        random_char := st.random_char ^^^ (0xAA ^^^ 0x55) }
    let st := st.set_revision obj ((st.descriptor i).free_loc_for_size (words size))
    return (st.set_free_loc i (words size) obj).set_live obj none
  else
    c_assert (obj ∈ (st.descriptor i).nonsmall_objects)
    let st := st.set_descriptor i { st.descriptor i with
      nonsmall_objects := (st.descriptor i).nonsmall_objects.filter (· ≠ obj) }
    let st ← st.stm_free obj
    return st.set_live obj none

/-! ## Major collections: sweeping -/

def clear_flags (tid : BitVec 64) : BitVec 64 := tid &&& ~~~(GCFLAG_VISITED ||| GCFLAG_MARKED)

/-- The first loop over a page: whether an object stays alive. -/
def any_alive (h_tid : ℕ → BitVec 64) : List ℕ → Option Bool
  | [] => some false
  | p :: rest => do
    c_assert (is_visited (h_tid p) = true → is_marked (h_tid p) = true)
    if is_marked (h_tid p) then return true else any_alive h_tid rest

/-- One turn of the second loop. -/
def sweep_block (NDEBUG : Bool) (obj_size : ℕ) (x : State × ℕ) (p : ℕ) : Option (State × ℕ) := do
  let (st, freelist) := x
  c_assert (is_visited (st.h_tid p) = true → is_marked (st.h_tid p) = true)
  if is_marked (st.h_tid p) then
    return ({ st.set_tid p (clear_flags (st.h_tid p)) with
      mc_total_in_use := st.mc_total_in_use + obj_size }, freelist)
  else
    let st := if NDEBUG then st else st.set_tid p (DEBUG_WORD 0xDD)
    return ((st.set_revision p freelist).set_live p none, p)

/-- The memory of a page that is fully free. -/
def free_page (st : State) (i size_class lpage : ℕ) : Option State := do
  let st ← st.stm_free lpage
  c_assert ((st.descriptor i).count_pages > 0)
  c_assert (st.count_global_pages > 0)
  let st := st.set_descriptor i
    { st.descriptor i with count_pages := (st.descriptor i).count_pages - 1 }
  return { st with
    count_global_pages := st.count_global_pages - 1
    live := fun p => if p ∈ blocks size_class lpage then none else st.live p }

/-- The loop of `sweep_pages`: the state, `surviving_pages` and `freelist`. -/
def sweep_loop (NDEBUG : Bool) (i size_class : ℕ) :
    List ℕ → State → List ℕ → ℕ → Option (State × List ℕ × ℕ)
  | [], st, surviving_pages, freelist => some (st, surviving_pages, freelist)
  | lpage :: rest, st, surviving_pages, freelist => do
    let obj_size := size_class * WORD
    let alive ← any_alive st.h_tid (blocks size_class lpage)
    if alive then
      let (st, freelist) ←
        (blocks size_class lpage).foldlM (sweep_block NDEBUG obj_size) (st, freelist)
      let st := { st with
        mc_total_reserved := st.mc_total_reserved + obj_size * nblocks_for_size size_class }
      sweep_loop NDEBUG i size_class rest st (lpage :: surviving_pages) freelist
    else
      let st ← free_page st i size_class lpage
      sweep_loop NDEBUG i size_class rest st surviving_pages freelist

def sweep_pages (NDEBUG : Bool) (i : ℕ) (st : State) (size_class : ℕ) : Option State := do
  let (st, surviving_pages, freelist) ←
    sweep_loop NDEBUG i size_class ((st.descriptor i).pages_for_size size_class) st [] 0
  return (st.set_pages i size_class surviving_pages).set_free_loc i size_class freelist

/-- One turn of the loop over `nonsmall_objects`. -/
def sweep_nonsmall (i : ℕ) (st : State) (p : ℕ) : Option State := do
  c_assert (is_visited (st.h_tid p) = true → is_marked (st.h_tid p) = true)
  if is_marked (st.h_tid p) then
    return st.set_tid p (clear_flags (st.h_tid p))
  else
    let st := st.set_descriptor i { st.descriptor i with
      nonsmall_objects := (st.descriptor i).nonsmall_objects.filter (· ≠ p) }
    let st ← st.stm_free p
    return st.set_live p none

def free_unused_local_pages (NDEBUG : Bool) (st : State) (i : ℕ) : Option State := do
  let st ← (List.range' 1 (GC_SMALL_REQUESTS - 1)).foldlM (sweep_pages NDEBUG i) st
  (st.descriptor i).nonsmall_objects.foldlM (sweep_nonsmall i) st

/-- `free_closed_thread_descriptors`: `index` goes along the chain of
`free_list_next`, to the first entry of the array that is `NULL`. -/
def free_closed_thread_descriptors (NDEBUG : Bool) : ℕ → ℕ → State → Option State
  | fuel, index, st =>
    if index < st.num_descriptors then
      match fuel, (st.descriptor index).free_list_next with
      | fuel + 1, some next => do
        let st ← free_unused_local_pages NDEBUG st index
        free_closed_thread_descriptors NDEBUG fuel next st
      | _, _ => none
    else some st

/-- What the marking did to the headers of the objects. -/
def mark (st : State) (marked visited : ℕ → Bool) : State :=
  { st with h_tid := fun p =>
      if st.live p ≠ none ∧ marked p = true then
        st.h_tid p ||| GCFLAG_MARKED ||| if visited p then GCFLAG_VISITED else 0
      else st.h_tid p }

/-- `major_collect`, from the end of the marking to `update_next_threshold`. -/
def major_collect (NDEBUG : Bool) (st : State) : Option State := do
  let st := { st with mc_total_in_use := 0, mc_total_reserved := 0 }
  let st ← st.stm_tx_head.foldlM (free_unused_local_pages NDEBUG) st
  let st ← free_closed_thread_descriptors NDEBUG st.num_descriptors
    st.descriptor_array_free_list st
  c_assert (st.mc_total_in_use ≤ st.mc_total_reserved)
  return st

/-! ## Steps -/

inductive Act where
  | DescriptorInit
  | DescriptorDone (i : ℕ)
  /-- `p` is what `stm_malloc` returns -/
  | stmgcpage_malloc (i size p : ℕ) (tid : BitVec 64)
  /-- the rest of `allocate_new_page` and of `stmgcpage_malloc` -/
  | new_page (i p : ℕ) (tid : BitVec 64)
  | stmgcpage_free (i obj : ℕ)
  /-- the program writes to an object -/
  | write (obj : ℕ) (tid : BitVec 64) (revision : ℕ)
  /-- a major collection that marks and visits these objects -/
  | major_collect (marked visited : ℕ → Bool)

/-- Outside of a major collection objects have neither flag. -/
def no_flags (tid : BitVec 64) : Bool := !is_marked tid && !is_visited tid

/-- `DescriptorInit` reuses the first descriptor of the chain. -/
def reuse_descriptor (st : State) (i next : ℕ) : State :=
  { st.set_descriptor i { st.descriptor i with free_list_next := none } with
    descriptor_array_free_list := next
    stm_tx_head := i :: st.stm_tx_head }

/-- It fills an entry of the array. -/
def add_descriptor (st : State) (i : ℕ) : State :=
  { st.set_descriptor i new_descriptor with
    descriptor_array_free_list := i + 1
    num_descriptors := i + 1
    stm_tx_head := i :: st.stm_tx_head }

def DescriptorInit (MAX_THREADS : ℕ) (st : State) : Outcome State :=
  let i := st.descriptor_array_free_list
  if i < st.num_descriptors then
    match (st.descriptor i).free_list_next with
    | some next => .next (reuse_descriptor st i next)
    | none => .fault
  else
    guarded (i + 1 ≠ MAX_THREADS) <|
    -- the entries that are not `NULL` come first
    if i = st.num_descriptors then .next (add_descriptor st i) else .fault

def DescriptorDone (st : State) (i : ℕ) : State :=
  { st.set_descriptor i
      { st.descriptor i with free_list_next := some st.descriptor_array_free_list } with
    descriptor_array_free_list := i
    stm_tx_head := st.stm_tx_head.filter (· ≠ i) }

def step (NDEBUG : Bool) (MAX_THREADS : ℕ) (st : State) : Act → Outcome State
  | .DescriptorInit => DescriptorInit MAX_THREADS st
  | .DescriptorDone i =>
    guarded (i ∈ st.stm_tx_head ∧ st.pc i = .running) <| .next (DescriptorDone st i)
  | .stmgcpage_malloc i size p tid =>
    guarded (i ∈ st.stm_tx_head ∧ st.pc i = .running ∧ sizeof_object ≤ size ∧
      no_flags tid = true) <|
    if size ≤ GC_SMALL_REQUEST_THRESHOLD then
      if (st.descriptor i).free_loc_for_size (words size) = 0 then
        .next { st with
          pc := Function.update st.pc i (.allocate_new_page size st.count_global_pages) }
      else .next (take_free_loc st i size tid)
    else guarded (st.Fresh p (words size)) <| Outcome.ofOption (malloc_nonsmall st i size p tid)
  | .new_page i p tid =>
    match st.pc i with
    | .allocate_new_page size count_global_pages =>
      guarded (st.Fresh p GC_PAGE_WORDS ∧ no_flags tid = true) <|
      .next { take_free_loc (allocate_new_page st i (words size) p count_global_pages) i size tid with
        pc := Function.update st.pc i .running }
    | .running => .blocked
  | .stmgcpage_free i obj =>
    match st.live obj with
    | some size =>
      guarded (i ∈ st.stm_tx_head ∧ st.pc i = .running) <|
      Outcome.ofOption (stmgcpage_free NDEBUG st i obj size)
    | none => .blocked
  | .write obj tid revision =>
    guarded (st.live obj ≠ none ∧ no_flags tid = true) <|
    .next ((st.set_tid obj tid).set_revision obj revision)
  | .major_collect marked visited =>
    -- a thread in `stmgcpage_malloc` is not at a safe point
    guarded (∀ i ∈ st.stm_tx_head, st.pc i = .running) <|
    Outcome.ofOption (major_collect NDEBUG (mark st marked visited))

/-- No thread was started yet. -/
structure Initial (st : State) : Prop where
  malloced : st.malloced = []
  num_descriptors : st.num_descriptors = 0
  descriptor_array_free_list : st.descriptor_array_free_list = 0
  descriptor : ∀ i, st.descriptor i = new_descriptor
  stm_tx_head : st.stm_tx_head = []
  pc : ∀ i, st.pc i = .running
  count_global_pages : st.count_global_pages = 0
  mc_total_in_use : st.mc_total_in_use = 0
  mc_total_reserved : st.mc_total_reserved = 0
  random_char : st.random_char = 0x55
  live : ∀ p, st.live p = none

end Stmgc.C4.GcPage
