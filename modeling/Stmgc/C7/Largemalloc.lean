/-
`largemalloc.c`: the allocator of large blocks.

The memory is one function from addresses to words of 8 bytes, so that a write
past the end of a chunk hits whatever is there. A chunk at address `p` has the
words `p` (`prev_size`), `p + 8` (`size`), `p + 16` and `p + 24` (`d.next` and
`d.prev`), `p + 32` and `p + 40` (`u.up` and `u.down`). A `dlist_t *` points to
the word `d.next` of a chunk or to a header [`largebins`], a `ulist_t *` to the
word `u.up`.

`none` is a failed assertion, or a loop that does not end. The flag `debug`
says that the program is compiled without `NDEBUG`: only then are there
assertions, and only then is memory overwritten that is free or fresh.
-/
import Mathlib.Algebra.Ring.Nat
import Mathlib.Data.List.Sort
import Stmgc.Lib.Loop

open Stmgc.Lib

namespace Stmgc.C7.Largemalloc

abbrev mem_t : Type := ℕ → ℕ

def store (m : mem_t) (a v : ℕ) : mem_t := Function.update m a v

/-- `memset`: `n` bytes from `a` on. -/
def memset (m : mem_t) (a byte n : ℕ) : mem_t := fun w =>
  if a ≤ w ∧ w < a + n then byte * 0x0101010101010101 else m w

/-- An `assert`. -/
def check (debug : Bool) (p : Prop) [Decidable p] : Option Unit :=
  if debug = true then c_assert p else some ()

/-- The code between `#ifndef NDEBUG` and `#endif`. -/
def only_debug (debug : Bool) (m m' : mem_t) : mem_t := if debug = true then m' else m

def largebin_index (sz : ℕ) : ℕ :=
  if sz < 48 <<< 6 then sz >>> 6 -- 0 - 47
  else if sz < 24 <<< 9 then 42 + sz >>> 9 -- 48 - 65
  else if sz < 12 <<< 12 then 63 + sz >>> 12 -- 66 - 74
  else if sz < 6 <<< 15 then 74 + sz >>> 15 -- 75 - 79
  else if sz < 3 <<< 18 then 80 + sz >>> 18 -- 80 - 82
  else 83

def N_BINS : ℕ := 84

def LAST_BIN_INDEX (sz : ℕ) : Prop := sz ≥ 3 <<< 18

instance {sz : ℕ} : Decidable (LAST_BIN_INDEX sz) := inferInstanceAs (Decidable (_ ≥ _))

def UU_UNSORTED : ℕ := 1
def THIS_CHUNK_FREE : ℕ := 1
def BOTH_CHUNKS_USED : ℕ := 0
def SIZEOF_CHUNK : ℕ := 48
def CHUNK_HEADER_SIZE : ℕ := 16
def END_MARKER : ℕ := 0xDEADBEEF
def MIN_ALLOC_SIZE : ℕ := SIZEOF_CHUNK - CHUNK_HEADER_SIZE
def LARGE_MALLOC_OVERHEAD : ℕ := 16

/-- The chunk of a `dlist_t *`, and of a pointer to user data. -/
def data2chunk (p : ℕ) : ℕ := p - CHUNK_HEADER_SIZE

def updown2chunk (p : ℕ) : ℕ := p - (CHUNK_HEADER_SIZE + 16)

def next_chunk (m : mem_t) (p : ℕ) : ℕ := p + (CHUNK_HEADER_SIZE + m (p + 8))

/-- `&lm.largebins[index]`. -/
def largebins (index : ℕ) : ℕ := 16 * index + 16

/-- `qsort` with `compare_chunks`. In which order it leaves chunks of one size
is not known. -/
structure qsort_t where
  qsort : (ℕ → ℕ) → List ℕ → List ℕ
  perm : ∀ size chunks, (qsort size chunks).Perm chunks
  sorted : ∀ size chunks, (qsort size chunks).Pairwise fun a b => size a ≤ size b

structure lm_t where
  mem : mem_t
  first_chunk : ℕ
  last_chunk : ℕ
  /-- `pages_ctl.total_allocated`. -/
  total_allocated : BitVec 64

/-! ## The bins -/

def insert_unsorted (m : mem_t) (new : ℕ) : mem_t :=
  let index := if LAST_BIN_INDEX (m (new + 8)) then N_BINS - 1 else largebin_index (m (new + 8))
  let m := store m (new + 16) (largebins index)
  let m := store m (new + 24) (m (largebins index + 8))
  let m := store m (m (new + 24)) (new + 16)
  let m := store m (new + 32) UU_UNSORTED
  let m := store m (new + 40) 0
  store m (largebins index + 8) (new + 16)

/-- The first loop of `really_sort_bin`: `scan` and `count`. -/
def scan_unsorted (m : mem_t) (end_ scan count : ℕ) : Option (ℕ × ℕ) :=
  loop (fun (scan, count) =>
    if scan ≠ end_ ∧ m (data2chunk scan + 32) = UU_UNSORTED then
      some (.cont (m (scan + 8), count + 1))
    else some (.done (scan, count))) (scan, count)

/-- The loop of `really_sort_bin` that fills `chunks`: the chunks, and where
`unsorted` points to at the end. -/
def fill_chunks (m : mem_t) : ℕ → ℕ → List ℕ × ℕ
  | 0, unsorted => ([], unsorted)
  | count + 1, unsorted =>
      let (chunks, last) := fill_chunks m count (m (unsorted + 8))
      (data2chunk unsorted :: chunks, last)

/-- The variables of the last loop of `really_sort_bin`. The `chunks` are the
first `count` ones of the array, last one first. -/
structure sort_t where
  mem : mem_t
  chunk1 : ℕ
  search_size : ℕ
  head : ℕ
  chunks : List ℕ

/-- The end of a turn that has inserted `chunk1`. -/
def next_chunk1 (s : sort_t) : ControlFlow sort_t mem_t :=
  match s.chunks with
  | [] => .done s.mem
  | chunk1 :: chunks =>
      .cont { s with chunk1 := chunk1, search_size := s.mem (chunk1 + 8), chunks := chunks }

/-- Insert `chunk1` before the current head. -/
def insert_before (s : sort_t) : sort_t :=
  let m := store s.mem (s.mem (s.head + 8)) (s.chunk1 + 16)
  let m := store m (s.chunk1 + 24) (m (s.head + 8))
  let m := store m (s.head + 8) (s.chunk1 + 16)
  let m := store m (s.chunk1 + 16) s.head
  let m := store m (s.chunk1 + 32) 0
  let m := store m (s.chunk1 + 40) 0
  { s with mem := m, head := s.chunk1 + 16 }

/-- Insert `chunk1` vertically in the `u` list. -/
def insert_above (debug : Bool) (s : sort_t) : sort_t :=
  let uhead := data2chunk s.head + 32
  let m := store s.mem (s.chunk1 + 32) (s.mem uhead)
  let m := store m (s.chunk1 + 40) uhead
  let m := if m uhead ≠ 0 then store m (m uhead + 8) (s.chunk1 + 32) else m
  let m := store m uhead (s.chunk1 + 32)
  let m := only_debug debug m (store (store m (s.chunk1 + 16) 0x42) (s.chunk1 + 24) 0x42)
  { s with mem := m }

/-- One turn of the last loop of `really_sort_bin`. -/
def sort_turn (debug : Bool) (end_ : ℕ) (s : sort_t) : ControlFlow sort_t mem_t :=
  if s.head = end_ ∨ s.mem (data2chunk s.head + 8) < s.search_size then next_chunk1 (insert_before s)
  else if s.mem (data2chunk s.head + 8) = s.search_size then next_chunk1 (insert_above debug s)
  else .cont { s with head := s.mem s.head }

def really_sort_bin (debug : Bool) (q : qsort_t) (m : mem_t) (index : ℕ) : Option mem_t := do
  let unsorted := m (largebins index + 8)
  let end_ := largebins index
  let (scan, count) ← scan_unsorted m end_ (m (unsorted + 8)) 1
  let m := store m (end_ + 8) scan
  let m := store m scan end_
  let chunks ←
    if count = 1 then some [data2chunk unsorted] -- common case
    else do
      let (chunks, last) := fill_chunks m count unsorted
      check debug (last = scan)
      some (q.qsort (fun p => m (p + 8)) chunks).reverse
  match chunks with
  | [] => none
  | chunk1 :: chunks =>
      loop (fun s => some (sort_turn debug end_ s)) ⟨m, chunk1, m (chunk1 + 8), m end_, chunks⟩

def sort_bin (debug : Bool) (q : qsort_t) (m : mem_t) (index : ℕ) : Option mem_t :=
  let last := m (largebins index + 8)
  if last ≠ largebins index ∧ m (data2chunk last + 32) = UU_UNSORTED then
    really_sort_bin debug q m index
  else some m

def unlink_chunk (m : mem_t) (mscan : ℕ) : mem_t :=
  if m (mscan + 40) ≠ 0 then
    -- unlink mscan from the vertical list 'u'
    let up := m (mscan + 32)
    let down := m (mscan + 40)
    let m := store m down up
    if up ≠ 0 then store m (up + 8) down else m
  else
    let prev := m (mscan + 24)
    let next := m (mscan + 16)
    if m (mscan + 32) = 0 ∨ m (mscan + 32) = UU_UNSORTED then
      -- unlink mscan from the doubly-linked list 'd'
      let m := store m (next + 8) prev
      store m prev next
    else
      -- relink in the 'd' list the item above me
      let above := updown2chunk (m (mscan + 32))
      let m := store m (next + 8) (above + 16)
      let m := store m prev (above + 16)
      let m := store m (above + 16) next
      let m := store m (above + 24) prev
      store m (above + 40) 0

/-! ## `_stm_large_malloc` -/

/-- The scan through the chunks of the current bin, in reverse order. -/
def scan_bin (debug : Bool) (m : mem_t) (end_ request_size scan : ℕ) : Option (Option ℕ) :=
  loop (fun scan =>
    if scan = end_ then some (.done none)
    else do
      let mscan := data2chunk scan
      check debug (m mscan = THIS_CHUNK_FREE)
      check debug (m (next_chunk m mscan) = m (mscan + 8))
      check debug (m (mscan + 24) ≠ end_ → m (data2chunk (m (mscan + 24)) + 8) > m (mscan + 8))
      if m (mscan + 8) ≥ request_size then some (.done (some mscan))
      else some (.cont (m (mscan + 24)))) scan

/-- The search through all higher bins. -/
def search_bins (debug : Bool) (q : qsort_t) (m : mem_t) (index : ℕ) : Option (mem_t × Option ℕ) :=
  match (List.range' (index + 1) (N_BINS - (index + 1))).find? fun index =>
      m (largebins index + 8) ≠ largebins index with
  | none => some (m, none)
  | some index => do
      let m ← sort_bin debug q m index
      some (m, some (data2chunk (m (largebins index + 8))))

/-- The first lines after `found`: the chunk that is taken is out of its bin. -/
def take_chunk (m : mem_t) (mscan : ℕ) : mem_t × ℕ :=
  if m (mscan + 32) ≠ 0 then
    -- fast path: grab the item that is just above
    let above := updown2chunk (m (mscan + 32))
    let two_above := m (above + 32)
    let m := store m (mscan + 32) two_above
    let m := if two_above ≠ 0 then store m (two_above + 8) (mscan + 32) else m
    (m, above)
  else (unlink_chunk m mscan, mscan)

/-- What is left of the chunk becomes a free chunk, if it is large enough: the
memory, and the size of the data in the chunk. -/
def split_chunk (m : mem_t) (mscan request_size : ℕ) : mem_t × ℕ :=
  let remaining_size := m (mscan + 8) - request_size
  if remaining_size < SIZEOF_CHUNK then
    let m := store m (next_chunk m mscan) BOTH_CHUNKS_USED
    (m, m (mscan + 8))
  else
    let new := mscan + (CHUNK_HEADER_SIZE + request_size)
    let m := store m new THIS_CHUNK_FREE
    let remaining_data_size := remaining_size - CHUNK_HEADER_SIZE
    let m := store m (new + 8) remaining_data_size
    let m := store m (next_chunk m new) remaining_data_size
    (insert_unsorted m new, request_size)

/-- `_stm_large_malloc` from `found` on. -/
def found (debug : Bool) (s : lm_t) (m : mem_t) (mscan request_size : ℕ) : Option (lm_t × ℕ) := do
  check debug (m (mscan + 8) ≥ request_size)
  check debug (m (mscan + 32) ≠ UU_UNSORTED)
  let (m, mscan) := take_chunk m mscan
  let (m, request_size) := split_chunk m mscan request_size
  let m := store m (mscan + 8) request_size
  let m := store m mscan BOTH_CHUNKS_USED
  let total_allocated := s.total_allocated + BitVec.ofNat 64 (request_size + LARGE_MALLOC_OVERHEAD)
  let m := only_debug debug m (memset m (mscan + 16) 0xda request_size)
  some ({ s with mem := m, total_allocated := total_allocated }, mscan + 16)

/-- With the pointer that it returns, which may be `NULL`. -/
def _stm_large_malloc (debug : Bool) (q : qsort_t) (s : lm_t) (request_size : ℕ) :
    Option (lm_t × ℕ) := do
  check debug (request_size &&& (8 - 1) = 0)
  let request_size := if request_size < MIN_ALLOC_SIZE then MIN_ALLOC_SIZE else request_size
  let index := largebin_index request_size
  let m ← sort_bin debug q s.mem index
  match ← scan_bin debug m (largebins index) request_size (m (largebins index + 8)) with
  | some mscan => found debug s m mscan request_size
  | none =>
      match ← search_bins debug q m index with
      | (m, some mscan) => found debug s m mscan request_size
      | (m, none) => some ({ s with mem := m }, 0) -- not enough memory

/-! ## `_large_free` -/

/-- The first merge of `_large_free`, with the following chunk in memory. -/
def merge_next (debug : Bool) (m : mem_t) (chunk : ℕ) : Option mem_t :=
  let msize := m (chunk + 8) + CHUNK_HEADER_SIZE
  let mscan := chunk + msize
  if m mscan = BOTH_CHUNKS_USED then do
    check debug (m (mscan + 8) &&& (8 - 1) = 0)
    some (store m mscan (m (chunk + 8)))
  else do
    let fsize := m (mscan + 8)
    let fscan := mscan + (fsize + CHUNK_HEADER_SIZE)
    let m := unlink_chunk m mscan
    let m := only_debug debug m (store (store m mscan (2 ^ 64 - 258)) (mscan + 8) (2 ^ 64 - 515))
    check debug (fsize = m fscan)
    let fsize := fsize + msize
    let m := store m fscan fsize
    some (store m (chunk + 8) fsize)

/-- The second merge of `_large_free`, with the previous chunk in memory: the
memory, and the chunk that is free now. -/
def merge_prev (debug : Bool) (m : mem_t) (chunk : ℕ) : Option (mem_t × ℕ) :=
  if m chunk = BOTH_CHUNKS_USED then some (store m chunk THIS_CHUNK_FREE, chunk)
  else do
    check debug (m chunk &&& (8 - 1) = 0)
    let msize := m chunk + CHUNK_HEADER_SIZE
    let mscan := chunk - msize
    check debug (m mscan = THIS_CHUNK_FREE)
    check debug (m (mscan + 8) = m chunk)
    let m := unlink_chunk m mscan
    let m := store m (mscan + 8) (msize + m (chunk + 8))
    let m := store m (next_chunk m mscan) (m (mscan + 8))
    let m := only_debug debug m (store (store m chunk (2 ^ 64 - 1)) (chunk + 8) (2 ^ 64 - 1))
    some (m, mscan)

def _large_free (debug : Bool) (s : lm_t) (chunk : ℕ) : Option lm_t := do
  let m := s.mem
  check debug (m (chunk + 8) &&& (8 - 1) = 0)
  check debug (m chunk ≠ THIS_CHUNK_FREE)
  let total_allocated := s.total_allocated - BitVec.ofNat 64 (m (chunk + 8) + LARGE_MALLOC_OVERHEAD)
  check debug (m (chunk + 8) ≥ 16)
  check debug (m (chunk + 8) ≤ s.last_chunk - (chunk + 16))
  let m := only_debug debug m (memset m (chunk + 16) 0xDE (m (chunk + 8)))
  let m ← merge_next debug m chunk
  let (m, chunk) ← merge_prev debug m chunk
  some { s with mem := insert_unsorted m chunk, total_allocated := total_allocated }

def _stm_large_free (debug : Bool) (s : lm_t) (data : ℕ) : Option lm_t :=
  _large_free debug s (data2chunk data)

/-! ## The arena -/

/-- The memory may hold anything before. -/
def _stm_largemalloc_init_arena (debug : Bool) (m : mem_t) (total_allocated : BitVec 64)
    (data_start data_size : ℕ) : Option lm_t := do
  let m := (List.range N_BINS).foldl (fun m i =>
    store (store m (largebins i + 8) (largebins i)) (largebins i) (largebins i)) m
  check debug (data_size ≥ 2 * SIZEOF_CHUNK)
  check debug (data_size &&& 31 = 0)
  let first_chunk := data_start
  let m := store m first_chunk THIS_CHUNK_FREE
  let m := store m (first_chunk + 8) (data_size - 2 * CHUNK_HEADER_SIZE)
  let last_chunk := first_chunk + (data_size - CHUNK_HEADER_SIZE)
  let m := store m last_chunk (m (first_chunk + 8))
  let m := store m (last_chunk + 8) END_MARKER
  check debug (last_chunk = next_chunk m first_chunk)
  some
    { mem := insert_unsorted m first_chunk
      first_chunk := first_chunk
      last_chunk := last_chunk
      total_allocated := total_allocated }

/-- The branch of `_stm_largemalloc_resize_arena` for a smaller arena. -/
def reduce_arena (debug : Bool) (s : lm_t) (new_last_chunk : ℕ) : Option (lm_t × ℕ) :=
  let m := s.mem
  let lsize := m s.last_chunk
  do
    check debug (lsize ≠ THIS_CHUNK_FREE)
    if lsize = BOTH_CHUNKS_USED then some (s, 0)
    else
      let prev_chunk := s.last_chunk - (lsize + CHUNK_HEADER_SIZE)
      if new_last_chunk < prev_chunk + SIZEOF_CHUNK then some (s, 0)
      else do
        let m := unlink_chunk m prev_chunk
        check debug (m (prev_chunk + 8) = m s.last_chunk)
        let m := store m (prev_chunk + 8) (new_last_chunk - prev_chunk - CHUNK_HEADER_SIZE)
        let m := store m new_last_chunk (m (prev_chunk + 8))
        let m := store m (new_last_chunk + 8) END_MARKER
        check debug (new_last_chunk = next_chunk m prev_chunk)
        some ({ s with mem := insert_unsorted m prev_chunk, last_chunk := new_last_chunk }, 1)

/-- The branch of `_stm_largemalloc_resize_arena` for a larger arena. -/
def grow_arena (debug : Bool) (s : lm_t) (new_last_chunk extra : ℕ) : Option (lm_t × ℕ) := do
  let old_last_chunk := s.last_chunk
  -- make the new last chunk first, with only the extra size
  let m := store s.mem (old_last_chunk + 8) (extra - CHUNK_HEADER_SIZE)
  let m := store m new_last_chunk BOTH_CHUNKS_USED
  let m := store m (new_last_chunk + 8) END_MARKER
  check debug (new_last_chunk = next_chunk m old_last_chunk)
  -- then free the last_chunk (turn it from "used" to "free)
  let s ← _large_free debug { s with mem := m, last_chunk := new_last_chunk } old_last_chunk
  some (s, 1)

def _stm_largemalloc_resize_arena (debug : Bool) (s : lm_t) (new_size : ℕ) : Option (lm_t × ℕ) :=
  if new_size < 2 * SIZEOF_CHUNK then some (s, 0)
  else do
    check debug (new_size &&& 31 = 0)
    let new_size := new_size - CHUNK_HEADER_SIZE
    let new_last_chunk := s.first_chunk + new_size
    let old_size := s.last_chunk - s.first_chunk
    if new_size < old_size then reduce_arena debug s new_last_chunk
    else if new_size > old_size then grow_arena debug s new_last_chunk (new_size - old_size)
    else some (s, 1)

/-! ## The sweep -/

section Sweep

variable {σ : Type}

/-- One turn of the sweep. The callback `_largemalloc_sweep_keep` has a state of
its own. -/
def sweep_turn (debug : Bool) (keep : σ → ℕ → σ × Bool) (x : lm_t × σ × ℕ) :
    Option (ControlFlow (lm_t × σ × ℕ) (lm_t × σ)) :=
  let (s, st, chunk) := x
  if chunk = s.last_chunk then some (.done (s, st))
  else do
    check debug (s.mem chunk ≠ THIS_CHUNK_FREE)
    -- first figure out the next non-free chunk
    let mnext := next_chunk s.mem chunk
    let mnext := if s.mem mnext = THIS_CHUNK_FREE then next_chunk s.mem mnext else mnext
    let (st, kept) := keep st (chunk + 16)
    if !kept then do
      let s ← _large_free debug s chunk -- dies
      some (.cont (s, st, mnext))
    else some (.cont (s, st, mnext))

def _stm_largemalloc_sweep (debug : Bool) (keep : σ → ℕ → σ × Bool) (s : lm_t) (st : σ) :
    Option (lm_t × σ) :=
  let chunk := s.first_chunk
  let chunk := if s.mem chunk = THIS_CHUNK_FREE then next_chunk s.mem chunk else chunk
  loop (sweep_turn debug keep) (s, st, chunk)

end Sweep

end Stmgc.C7.Largemalloc
