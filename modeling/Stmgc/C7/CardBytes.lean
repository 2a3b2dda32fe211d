/-
The bytes of `write_locks`: every object has a base byte there, at its address
divided by 16, and behind it one byte for each card. No two of them are the
same ([`card_bytes_apart`]).

The array has one byte for 16 bytes of memory, and a card has 32 items. So the
card bytes of an object would be within its own memory if the addresses were
multiples of 16; they are multiples of 8, and the header of the next chunk makes
up for it. What is used of `largemalloc.c` is in [`Allocations`], and its runs
have it ([`exists_allocations`]).
-/
import Stmgc.C7.Cards
import Stmgc.C7.LargemallocSafety

namespace Stmgc.C7.CardBytes

open Stmgc.Lib Stmgc.C7.Largemalloc

/-! ## Live objects -/

/-- The allocations that are live, by their addresses in `stm_object_pages`,
with the sizes of their chunks. -/
structure Allocations where
  chunk_size : ℕ → Option ℕ
  aligned : ∀ obj n, chunk_size obj = some n → obj % 8 = 0
  min_size : ∀ obj n, chunk_size obj = some n → MIN_ALLOC_SIZE ≤ n
  separated : ∀ obj n other n', chunk_size obj = some n → chunk_size other = some n' →
    obj < other → obj + n + CHUNK_HEADER_SIZE ≤ other

/-- What `stmcb_obj_supports_cards`, `stmcb_size_rounded_up` and
`stmcb_get_card_base_itemsize` say of an object. -/
structure Callbacks where
  supports_cards : Bool
  size_rounded_up : ℕ
  offset_itemsize : ℕ × ℕ

def obj_should_use_cards (cb : Callbacks) : Bool :=
  cb.supports_cards && decide (STM_MIN_CARD_OBJ_SIZE ≤ cb.size_rounded_up)

/-- The number of items, as `_reset_object_cards` computes it. -/
def item_count (cb : Callbacks) : ℕ :=
  (cb.size_rounded_up - cb.offset_itemsize.1) / cb.offset_itemsize.2

/-- Every allocation has an object in it. -/
structure LiveObjects extends Allocations where
  callbacks : ℕ → Callbacks
  fits : ∀ obj n, chunk_size obj = some n → (callbacks obj).size_rounded_up ≤ n

def LiveObjects.is_live (live : LiveObjects) (obj : ℕ) : Prop := (live.chunk_size obj).isSome = true

/-- `card_lock_idx` of `_stm_write_slowpath_card`. -/
def card_lock_idx (obj index : ℕ) : ℕ := get_write_lock_idx obj + get_index_to_card_index index

/-- The cards of the items of an object that uses cards. -/
def LiveObjects.has_card (live : LiveObjects) (obj index : ℕ) : Prop :=
  live.is_live obj ∧ obj_should_use_cards (live.callbacks obj) = true ∧
    index < item_count (live.callbacks obj)

/-! ## The bytes -/

section

variable {live : LiveObjects} {obj other index index' : ℕ} {cb : Callbacks}

theorem item_count_le : item_count cb ≤ cb.size_rounded_up :=
  (Nat.div_le_self _ _).trans (Nat.sub_le _ _)

theorem base_lt_card : get_write_lock_idx obj < card_lock_idx obj index := by
  have hpos : 0 < get_index_to_card_index index := Nat.succ_pos _
  unfold card_lock_idx
  omega

/-- The card bytes come before the base byte of any object behind the chunk. -/
theorem card_lt_base {n : ℕ} (hindex : index < n) (hmin : MIN_ALLOC_SIZE ≤ n)
    (hnext : obj + n + CHUNK_HEADER_SIZE ≤ other) :
    card_lock_idx obj index < get_write_lock_idx other := by
  have hmin32 : 32 ≤ n := hmin
  have hnext16 : obj + n + 16 ≤ other := hnext
  -- the cards take at most half of the bytes for the chunk
  have hcard : index / 32 + 1 ≤ n / 16 := by omega
  unfold card_lock_idx get_write_lock_idx get_index_to_card_index CARD_SIZE
  omega

theorem LiveObjects.card_lt_base (hcard : live.has_card obj index) (hother : live.is_live other)
    (hlt : obj < other) : card_lock_idx obj index < get_write_lock_idx other := by
  obtain ⟨hobj, -, hindex⟩ := hcard
  obtain ⟨n, hn⟩ := Option.isSome_iff_exists.mp hobj
  obtain ⟨n', hn'⟩ := Option.isSome_iff_exists.mp hother
  have hfits := live.fits obj n hn
  exact CardBytes.card_lt_base ((hindex.trans_le item_count_le).trans_le hfits)
    (live.min_size obj n hn) (live.separated obj n other n' hn hn' hlt)

/-- The bytes of two objects are in the order of their addresses. -/
theorem LiveObjects.card_ne_base (hcard : live.has_card obj index) (hother : live.is_live other) :
    card_lock_idx obj index ≠ get_write_lock_idx other := by
  rcases lt_or_ge obj other with hlt | hge
  · exact (LiveObjects.card_lt_base hcard hother hlt).ne
  · have hbase : get_write_lock_idx other ≤ get_write_lock_idx obj := Nat.div_le_div_right hge
    have hlt := @base_lt_card obj index
    exact (hbase.trans_lt hlt).ne'

theorem LiveObjects.card_ne_card (hcard : live.has_card obj index)
    (hcard' : live.has_card other index') (hne : obj ≠ other) :
    card_lock_idx obj index ≠ card_lock_idx other index' := by
  rcases lt_or_gt_of_ne hne with hlt | hgt
  · exact ((LiveObjects.card_lt_base hcard hcard'.1 hlt).trans base_lt_card).ne
  · exact ((LiveObjects.card_lt_base hcard' hcard.1 hgt).trans base_lt_card).ne'

/-- The byte of a card is neither the base byte of a live object nor the byte of
a card of another one. -/
theorem card_bytes_apart (live : LiveObjects) (obj index : ℕ) (hcard : live.has_card obj index) :
    (∀ other, live.is_live other → card_lock_idx obj index ≠ get_write_lock_idx other) ∧
      ∀ other index', live.has_card other index' → other ≠ obj →
        card_lock_idx obj index ≠ card_lock_idx other index' :=
  ⟨fun _ hother => LiveObjects.card_ne_base hcard hother,
    fun _ _ hcard' hne => LiveObjects.card_ne_card hcard hcard' hne.symm⟩

end

/-! ## Two arrays -/

/-- Two arrays of bytes next to each other, the first at an address that is not
a multiple of 16. -/
def two_arrays : LiveObjects where
  chunk_size := fun obj => if obj = 8 ∨ obj = 568 then some 544 else none
  aligned obj n h := by
    split_ifs at h
    omega
  min_size obj n h := by
    split_ifs at h
    obtain rfl := Option.some.inj h
    decide
  separated obj n other n' h h' hlt := by
    split_ifs at h h'
    obtain rfl := Option.some.inj h
    show obj + 544 + 16 ≤ other
    omega
  callbacks := fun _ => ⟨true, 544, (16, 1)⟩
  fits obj n h := by
    split_ifs at h
    exact (Option.some.inj h).le

/-- The last byte of the first array, and all of the second. -/
theorem card_bytes_apart_two_arrays :
    card_lock_idx 8 527 = 17 ∧ two_arrays.is_live 568 ∧ get_write_lock_idx 568 = 35 ∧
      card_lock_idx 8 527 ≠ get_write_lock_idx 568 ∧ card_lock_idx 8 527 ≠ card_lock_idx 568 0 := by
  have hcard : two_arrays.has_card 8 527 := ⟨rfl, rfl, by decide⟩
  obtain ⟨hbase, hcards⟩ := card_bytes_apart two_arrays 8 527 hcard
  exact ⟨rfl, rfl, rfl, hbase 568 rfl, hcards 568 0 ⟨rfl, rfl, by decide⟩ (by decide)⟩

/-! ## Runs of the allocator -/

section

variable {debug : Bool} {q : qsort_t} {s : state_t} {stm_object_pages : ℕ}

/-- The used chunk that has its data at the address. -/
def used_chunk (cs : List chunk_t) (stm_object_pages obj : ℕ) : Option chunk_t :=
  (useds cs).find? fun c => c.addr + CHUNK_HEADER_SIZE == stm_object_pages + obj

/-- What has been asked for and not freed, in every state of every run in an
arena of `stm_object_pages`. -/
theorem exists_allocations
    (h : Reachable (Largemalloc.Initial debug) (Largemalloc.step debug q) s) (hpages : stm_object_pages % 8 = 0)
    (hword : s.lm.first_chunk % 8 = 0) (hle : stm_object_pages ≤ s.lm.first_chunk) :
    ∃ live : Allocations, ∀ x ∈ s.live, stm_object_pages ≤ x.1 ∧
      ∃ n, live.chunk_size (x.1 - stm_object_pages) = some n ∧ x.2 ≤ n := by
  obtain ⟨cs, hinv⟩ := Largemalloc.inv_of_reachable h
  have hseg := hinv.heap.seg
  have hchunk : ∀ {obj n}, ((used_chunk cs stm_object_pages obj).map chunk_t.size) = some n →
      ∃ c ∈ cs, c.addr + 16 = stm_object_pages + obj ∧ c.size = n := by
    intro obj n hn
    obtain ⟨c, hc, hsize⟩ := Option.map_eq_some_iff.mp hn
    have haddr : c.addr + CHUNK_HEADER_SIZE = stm_object_pages + obj := by simpa using List.find?_some hc
    exact ⟨c, (mem_useds.mp (List.mem_of_find?_eq_some hc)).1, haddr, hsize⟩
  have hheader : CHUNK_HEADER_SIZE = 16 := rfl
  have hapart : ∀ {c d : chunk_t}, c ∈ cs → d ∈ cs → c ≠ d →
      c.addr + (16 + c.size) ≤ d.addr ∨ d.addr + (16 + d.size) ≤ c.addr := hseg.disjoint
  refine ⟨⟨fun obj => (used_chunk cs stm_object_pages obj).map chunk_t.size, ?_, ?_, ?_⟩, ?_⟩
  · intro obj n hn
    obtain ⟨c, hc, haddr, -⟩ := hchunk hn
    have h8 := hseg.aligned.2 c hc
    omega
  · intro obj n hn
    obtain ⟨c, hc, -, hsize⟩ := hchunk hn
    rw [← hsize]
    exact (hseg.bounds.2.1 c hc).2.2
  · intro obj n other n' hn hn' hlt
    obtain ⟨c, hc, haddr, hsize⟩ := hchunk hn
    obtain ⟨d, hd, haddr', -⟩ := hchunk hn'
    have hdis := hapart hc hd (by rintro rfl; omega)
    omega
  · intro x hx
    obtain ⟨c, hc, haddr, hfit⟩ := hinv.live.fits x hx
    have hlow := (hseg.bounds.2.1 c (mem_useds.mp hc).1).1
    refine ⟨by omega, ?_⟩
    -- the search finds a chunk at this address, and there is only one
    have hsome : (used_chunk cs stm_object_pages (x.1 - stm_object_pages)).isSome = true :=
      List.find?_isSome.mpr ⟨c, hc, beq_iff_eq.mpr (by omega)⟩
    obtain ⟨n, hn⟩ := Option.isSome_iff_exists.mp (Option.isSome_map.trans hsome)
    obtain ⟨d, hd, hdaddr, hsize⟩ := hchunk hn
    have hdc : d = c := by
      by_contra hne
      have hdis := hapart hd (mem_useds.mp hc).1 hne
      omega
    exact ⟨n, hn, hsize ▸ hdc ▸ hfit⟩

/-- All of the arena is in use. -/
theorem exists_allocations_full : ∃ s : state_t, Heap s.lm [⟨2000, 64, false⟩] ∧
    ∃ live : Allocations, ∀ x ∈ s.live, 2000 ≤ x.1 ∧
      ∃ n, live.chunk_size (x.1 - 2000) = some n ∧ x.2 ≤ n := by
  obtain ⟨s, hreach, hheap, -⟩ := exists_full true default
  have hfirst : s.lm.first_chunk = 2000 := hheap.seg.1.symm
  exact ⟨s, hheap, exists_allocations hreach (by decide) (by rw [hfirst]) hfirst.ge⟩

end

end Stmgc.C7.CardBytes
