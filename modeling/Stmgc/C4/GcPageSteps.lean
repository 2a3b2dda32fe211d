/-
What a thread does to the pages keeps the invariant: all steps but the major
collections.
-/
import Stmgc.C4.GcPageInv
import Mathlib.Algebra.BigOperators.Fin
import Mathlib.Algebra.Order.BigOperators.Group.Finset

namespace Stmgc.C4.GcPage

open Stmgc.Lib

def State.pages (st : State) (i c : ℕ) : List ℕ := (st.descriptor i).pages_for_size c

def State.free_loc (st : State) (i c : ℕ) : ℕ := (st.descriptor i).free_loc_for_size c

def State.nonsmall (st : State) (i : ℕ) : List ℕ := (st.descriptor i).nonsmall_objects

/-- The memory, with the free lists `F`. -/
structure Inv (st : State) (F : ℕ → ℕ → List ℕ) : Prop where
  pages : PagesInv st.malloced st.pages st.nonsmall
  block : BlocksInv st.malloced st.pages st.nonsmall st.free_loc st.h_revision st.h_tid st.live F
  unused : ∀ i, st.num_descriptors ≤ i → st.descriptor i = new_descriptor
  count_pages : ∀ i, (st.descriptor i).count_pages
    = ∑ c ∈ Finset.range GC_SMALL_REQUESTS, (st.pages i c).length
  count_global_pages : st.count_global_pages
    = ∑ i ∈ Finset.range st.num_descriptors, (st.descriptor i).count_pages
  totals : st.mc_total_in_use ≤ st.mc_total_reserved

/-- The threads, with the descriptors `closed` that no thread has, in the order
of their chain. -/
structure Threads (st : State) (closed : List ℕ) : Prop where
  tx_nodup : st.stm_tx_head.Nodup
  chain : Path (fun i j => i < st.num_descriptors ∧ (st.descriptor i).free_list_next = some j)
    st.descriptor_array_free_list closed st.num_descriptors
  closed_nodup : closed.Nodup
  used : ∀ i, i < st.num_descriptors ↔ i ∈ st.stm_tx_head ∨ i ∈ closed
  disjoint : ∀ i ∈ st.stm_tx_head, i ∉ closed
  pc : ∀ i, i ∉ st.stm_tx_head → st.pc i = .running
  allocating : ∀ i size count, st.pc i = .allocate_new_page size count →
    sizeof_object ≤ size ∧ Small size

variable {st st' : State} {F : ℕ → ℕ → List ℕ} {closed : List ℕ} {i c b size : ℕ}
  {tid : BitVec 64} {pd : tx_public_descriptor}

/-! ## The parts of a descriptor -/

theorem descriptor_set_descriptor (j : ℕ) :
    (st.set_descriptor i pd).descriptor j = if j = i then pd else st.descriptor j :=
  Function.update_apply ..

theorem pages_of_eq (h : pd.pages_for_size = (st.descriptor i).pages_for_size) :
    (st.set_descriptor i pd).pages = st.pages := by
  funext j d
  unfold State.pages
  rw [descriptor_set_descriptor]
  split_ifs with hj
  · rw [h, hj]
  · rfl

theorem free_loc_of_eq (h : pd.free_loc_for_size = (st.descriptor i).free_loc_for_size) :
    (st.set_descriptor i pd).free_loc = st.free_loc := by
  funext j d
  unfold State.free_loc
  rw [descriptor_set_descriptor]
  split_ifs with hj
  · rw [h, hj]
  · rfl

theorem nonsmall_of_eq (h : pd.nonsmall_objects = (st.descriptor i).nonsmall_objects) :
    (st.set_descriptor i pd).nonsmall = st.nonsmall := by
  funext j
  unfold State.nonsmall
  rw [descriptor_set_descriptor]
  split_ifs with hj
  · rw [h, hj]
  · rfl

theorem count_pages_of_eq (h : pd.count_pages = (st.descriptor i).count_pages) (j : ℕ) :
    ((st.set_descriptor i pd).descriptor j).count_pages = (st.descriptor j).count_pages := by
  rw [descriptor_set_descriptor]
  split_ifs with hj
  · rw [h, hj]
  · rfl

theorem free_list_next_of_eq (h : pd.free_list_next = (st.descriptor i).free_list_next) (j : ℕ) :
    ((st.set_descriptor i pd).descriptor j).free_list_next = (st.descriptor j).free_list_next := by
  rw [descriptor_set_descriptor]
  split_ifs with hj
  · rw [h, hj]
  · rfl

theorem free_loc_of_update {loc : ℕ}
    (h : pd.free_loc_for_size = Function.update (st.descriptor i).free_loc_for_size c loc) :
    (st.set_descriptor i pd).free_loc
      = fun j d => if j = i ∧ d = c then loc else st.free_loc j d := by
  funext j d
  unfold State.free_loc
  rw [descriptor_set_descriptor]
  by_cases hj : j = i
  · rw [if_pos hj, h, Function.update_apply]
    by_cases hd : d = c
    · rw [if_pos hd, if_pos ⟨hj, hd⟩]
    · rw [if_neg hd, if_neg fun h => hd h.2, hj]
  · rw [if_neg hj, if_neg fun h => hj h.1]

theorem pages_of_update {l : List ℕ}
    (h : pd.pages_for_size = Function.update (st.descriptor i).pages_for_size c l) :
    (st.set_descriptor i pd).pages
      = fun j d => if j = i ∧ d = c then l else st.pages j d := by
  funext j d
  unfold State.pages
  rw [descriptor_set_descriptor]
  by_cases hj : j = i
  · rw [if_pos hj, h, Function.update_apply]
    by_cases hd : d = c
    · rw [if_pos hd, if_pos ⟨hj, hd⟩]
    · rw [if_neg hd, if_neg fun h => hd h.2, hj]
  · rw [if_neg hj, if_neg fun h => hj h.1]

theorem nonsmall_set_descriptor : (st.set_descriptor i pd).nonsmall
    = fun j => if j = i then pd.nonsmall_objects else st.nonsmall j := by
  funext j
  unfold State.nonsmall
  rw [descriptor_set_descriptor]
  split_ifs
  · rfl
  · rfl

/-- A step that concerns one descriptor in use. -/
theorem unused_of_lt (hunused : ∀ j, st.num_descriptors ≤ j → st.descriptor j = new_descriptor)
    (hi : i < st.num_descriptors) (j : ℕ) (hj : st.num_descriptors ≤ j) :
    (st.set_descriptor i pd).descriptor j = new_descriptor := by
  rw [descriptor_set_descriptor, if_neg (by omega)]
  exact hunused j hj

/-- A step that is only about memory. -/
structure SameThreads (st st' : State) : Prop where
  num_descriptors : st'.num_descriptors = st.num_descriptors
  descriptor_array_free_list : st'.descriptor_array_free_list = st.descriptor_array_free_list
  stm_tx_head : st'.stm_tx_head = st.stm_tx_head
  free_list_next : ∀ j, (st'.descriptor j).free_list_next = (st.descriptor j).free_list_next
  pc : ∀ j, st'.pc j = st.pc j ∨ st'.pc j = .running

theorem Threads.congr (h : Threads st closed) (hsame : SameThreads st st') : Threads st' closed := by
  refine ⟨hsame.stm_tx_head ▸ h.tx_nodup, ?_, h.closed_nodup, ?_, hsame.stm_tx_head ▸ h.disjoint,
    fun j hj => ?_, fun j size count hj => ?_⟩
  · rw [hsame.num_descriptors, hsame.descriptor_array_free_list]
    exact h.chain.congr fun i _ j hij => ⟨hij.1, (hsame.free_list_next i).trans hij.2⟩
  · rw [hsame.num_descriptors, hsame.stm_tx_head]
    exact h.used
  · rw [hsame.stm_tx_head] at hj
    rcases hsame.pc j with hpc | hpc
    · exact hpc.trans (h.pc j hj)
    · exact hpc
  · rcases hsame.pc j with hpc | hpc
    · exact h.allocating j size count (hpc ▸ hj)
    · rw [hpc] at hj
      cases hj

/-! ## Allocating from a free list, and freeing -/

/-- A step that leaves the pages where they are. -/
theorem Inv.same_pages {F' : ℕ → ℕ → List ℕ} (hinv : Inv st F) (hi : i < st.num_descriptors)
    (hdescriptor : ∀ j, j ≠ i → st'.descriptor j = st.descriptor j)
    (hnum : st'.num_descriptors = st.num_descriptors)
    (hglobal : st'.count_global_pages = st.count_global_pages)
    (htotals : st'.mc_total_in_use ≤ st'.mc_total_reserved) (hpages : st'.pages = st.pages)
    (hcount : ∀ j, (st'.descriptor j).count_pages = (st.descriptor j).count_pages)
    (hp : PagesInv st'.malloced st.pages st'.nonsmall)
    (hb : BlocksInv st'.malloced st.pages st'.nonsmall st'.free_loc st'.h_revision st'.h_tid
      st'.live F') : Inv st' F' := by
  refine ⟨?_, ?_, fun j hj => ?_, fun j => ?_, ?_, htotals⟩
  · rw [hpages]
    exact hp
  · rw [hpages]
    exact hb
  · rw [hnum] at hj
    rw [hdescriptor j (by omega)]
    exact hinv.unused j hj
  · rw [hcount, hpages]
    exact hinv.count_pages j
  · rw [hglobal, hnum]
    exact hinv.count_global_pages.trans (Finset.sum_congr rfl fun j _ => (hcount j).symm)

theorem Inv.take (hinv : Inv st F) (hi : i < st.num_descriptors)
    (hne : st.free_loc i (words size) ≠ 0) (hsize : sizeof_object ≤ size) (hsmall : Small size)
    (htid : no_flags tid = true) :
    Inv (take_free_loc st i size tid)
      (fun j d => if j = i ∧ d = words size then (F i (words size)).tail else F j d) := by
  have hpages : (take_free_loc st i size tid).pages = st.pages := pages_of_eq rfl
  have hnonsmall : (take_free_loc st i size tid).nonsmall = st.nonsmall := nonsmall_of_eq rfl
  have hfree : (take_free_loc st i size tid).free_loc = _ := free_loc_of_update rfl
  refine hinv.same_pages hi (fun j hj => Function.update_of_ne hj ..) rfl rfl hinv.totals hpages
    (count_pages_of_eq rfl) ?_ ?_
  · rw [hnonsmall]
    exact hinv.pages
  · rw [hnonsmall, hfree]
    exact hinv.block.take hinv.pages hne hsize hsmall htid

theorem sameThreads_take : SameThreads st (take_free_loc st i size tid) :=
  ⟨rfl, rfl, rfl, free_list_next_of_eq rfl, fun _ => Or.inl rfl⟩

/-- What `stmgcpage_free` does with a small object, whatever it writes to the
header. -/
def free_small (st : State) (i b size : ℕ) (tid : BitVec 64) (char : BitVec 8) : State :=
  (({ st.set_tid b tid with random_char := char }.set_revision b
    (st.free_loc i (words size))).set_free_loc i (words size) b).set_live b none

def free_large (st : State) (i b : ℕ) : State :=
  { st.set_descriptor i { st.descriptor i with
      nonsmall_objects := (st.nonsmall i).filter (· ≠ b) } with
    malloced := st.malloced.filter fun r => r.1 ≠ b }.set_live b none

theorem Inv.free_small {char : BitVec 8} (hinv : Inv st F) (hi : i < st.num_descriptors)
    (hlive : st.live b = some size) (hsmall : Small size) :
    Inv (GcPage.free_small st i b size tid char)
      (fun j d => if j = i ∧ d = words size then b :: F i (words size) else F j d) := by
  have hpages : (GcPage.free_small st i b size tid char).pages = st.pages := pages_of_eq rfl
  have hnonsmall : (GcPage.free_small st i b size tid char).nonsmall = st.nonsmall :=
    nonsmall_of_eq rfl
  have hfree : (GcPage.free_small st i b size tid char).free_loc
      = fun j d => if j = i ∧ d = words size then b else st.free_loc j d := free_loc_of_update rfl
  refine hinv.same_pages hi (fun j hj => Function.update_of_ne hj ..) rfl rfl hinv.totals hpages
    (count_pages_of_eq rfl) ?_ ?_
  · rw [hnonsmall]
    exact hinv.pages
  · rw [hnonsmall, hfree]
    exact hinv.block.give hinv.pages hlive hsmall

theorem Inv.free_large (hinv : Inv st F) (hi : i < st.num_descriptors)
    (hb : b ∈ st.nonsmall i) : Inv (GcPage.free_large st i b) F := by
  have hpages : (GcPage.free_large st i b).pages = st.pages := pages_of_eq rfl
  have hnonsmall : (GcPage.free_large st i b).nonsmall
      = fun j => if j = i then (st.nonsmall i).filter (· ≠ b) else st.nonsmall j :=
    nonsmall_set_descriptor
  have hfree : (GcPage.free_large st i b).free_loc = st.free_loc := free_loc_of_eq rfl
  refine hinv.same_pages hi (fun j hj => Function.update_of_ne hj ..) rfl rfl hinv.totals hpages
    (count_pages_of_eq rfl) ?_ ?_
  · rw [hnonsmall]
    exact hinv.pages.remove_nonsmall hb
  · rw [hnonsmall, hfree]
    exact hinv.block.remove_nonsmall hinv.pages hb

theorem Inv.free {NDEBUG : Bool} (hinv : Inv st F) (hi : i < st.num_descriptors)
    (hlive : st.live b = some size) (hs : stmgcpage_free NDEBUG st i b size = some st') :
    (∃ F', Inv st' F') ∧ SameThreads st st' := by
  unfold stmgcpage_free at hs
  by_cases hsmall : size ≤ GC_SMALL_REQUEST_THRESHOLD
  · rw [if_pos hsmall] at hs
    cases NDEBUG with
    | true =>
        rw [← Option.some.inj hs]
        have hfree := @Inv.free_small st F i b size (st.h_tid b) st.random_char hinv hi hlive hsmall
        unfold GcPage.free_small State.set_tid at hfree
        rw [Function.update_eq_self] at hfree
        exact ⟨⟨_, hfree⟩, rfl, rfl, rfl, free_list_next_of_eq rfl, fun _ => Or.inl rfl⟩
    | false =>
        rw [← Option.some.inj hs]
        exact ⟨⟨_, hinv.free_small hi hlive hsmall⟩, rfl, rfl, rfl, free_list_next_of_eq rfl,
          fun _ => Or.inl rfl⟩
  · rw [if_neg hsmall, c_assert_eq_some] at hs
    obtain ⟨hb, hs⟩ := hs
    unfold State.stm_free at hs
    dsimp only at hs
    rw [Option.bind_eq_bind, Option.bind_eq_some_iff] at hs
    obtain ⟨st₁, hst₁, hs⟩ := hs
    rw [c_assert_eq_some] at hst₁
    rw [← Option.some.inj hs, ← Option.some.inj hst₁.2]
    exact ⟨⟨_, hinv.free_large hi hb⟩, rfl, rfl, rfl, free_list_next_of_eq rfl,
      fun _ => Or.inl rfl⟩

/-! ## New memory -/

def add_nonsmall (st : State) (i size p : ℕ) (tid : BitVec 64) : State :=
  ({ st.set_descriptor i { st.descriptor i with nonsmall_objects := p :: st.nonsmall i } with
    malloced := (p, words size) :: st.malloced }.set_live p (some size)).set_tid p tid

theorem Inv.add_nonsmall {p : ℕ} (hinv : Inv st F) (hi : i < st.num_descriptors)
    (hfresh : st.Fresh p (words size)) (hsize : sizeof_object ≤ size) (hlarge : ¬ Small size)
    (htid : no_flags tid = true) : Inv (GcPage.add_nonsmall st i size p tid) F := by
  have hpages : (GcPage.add_nonsmall st i size p tid).pages = st.pages := pages_of_eq rfl
  have hnonsmall : (GcPage.add_nonsmall st i size p tid).nonsmall
      = fun j => if j = i then p :: st.nonsmall i else st.nonsmall j := nonsmall_set_descriptor
  have hfree : (GcPage.add_nonsmall st i size p tid).free_loc = st.free_loc := free_loc_of_eq rfl
  refine hinv.same_pages hi (fun j hj => Function.update_of_ne hj ..) rfl rfl hinv.totals hpages
    (count_pages_of_eq rfl) ?_ ?_
  · rw [hnonsmall]
    exact hinv.pages.add_nonsmall hfresh (words_pos hsize)
  · rw [hnonsmall, hfree]
    exact hinv.block.add_nonsmall hinv.pages hfresh hsize hlarge htid

/-- The new address is not in the table, so that the insertion succeeds. -/
theorem Inv.malloc_nonsmall {p : ℕ} (hinv : Inv st F) (hfresh : st.Fresh p (words size))
    (hsize : sizeof_object ≤ size) :
    GcPage.malloc_nonsmall st i size p tid = some (GcPage.add_nonsmall st i size p tid) := by
  unfold GcPage.malloc_nonsmall
  dsimp only
  rw [c_assert_eq_some]
  refine ⟨fun hp => ?_, rfl⟩
  obtain ⟨n, hn⟩ := hinv.pages.nonsmall_malloced i p hp
  have hpos := (hinv.pages.malloced_pos _ hn).2
  have hwords := words_pos hsize
  dsimp only at hpos
  exact FreshIn.not_mem hfresh hn (Nat.le_refl p) (by omega) (Nat.le_refl p) (by omega)

/-- The locations from `current` on. -/
def blocks_from (size_class current n : ℕ) : List ℕ :=
  (List.range n).map fun j => current + j * size_class

theorem blocks_from_succ {current n : ℕ} :
    blocks_from c current (n + 1) = current :: blocks_from c (current + c) n := by
  unfold blocks_from
  rw [List.range_succ_eq_map, List.map_cons, List.map_map]
  simp only [Nat.zero_mul, Nat.add_zero, Function.comp_def, Nat.succ_mul, List.cons.injEq, true_and]
  exact List.map_congr_left fun j _ => by omega

theorem lt_of_mem_blocks_from {current n x : ℕ} (hx : x ∈ blocks_from c current n) :
    current ≤ x := by
  unfold blocks_from at hx
  obtain ⟨j, -, rfl⟩ := List.mem_map.mp hx
  exact Nat.le_add_right _ _

/-- The loop of `allocate_new_page`. -/
theorem chain_page_spec {last : ℕ} {l : List ℕ} :
    ∀ {count current : ℕ} {st : State}, 0 < c → 0 < current →
      Linked st.h_revision last l → (∀ x ∈ l, x ∉ blocks_from c current (count + 1)) →
      ∃ tids next, chain_page c last count current st
          = { st with h_tid := tids, h_revision := next } ∧
        (∀ x ∉ blocks_from c current (count + 1), tids x = st.h_tid x ∧
          next x = st.h_revision x) ∧
        Linked next current (blocks_from c current (count + 1) ++ l)
  | 0, current, st, _, hpos, hl, hout => by
      rw [blocks_from_succ] at hout ⊢
      have hnot : ∀ x ∈ l, x ≠ current := fun x hx h => hout x hx (h ▸ List.mem_cons_self)
      refine ⟨_, _, rfl, fun x hx => ?_, ?_⟩
      · have hne : x ≠ current := fun h => hx (h ▸ List.mem_cons_self)
        exact ⟨Function.update_of_ne hne .., Function.update_of_ne hne ..⟩
      · refine linked_cons.mpr ⟨rfl, by omega, ?_⟩
        dsimp only [State.set_tid]
        rw [Function.update_self]
        exact hl.congr fun x hx => Function.update_of_ne (hnot x hx) ..
  | count + 1, current, st, hc, hpos, hl, hout => by
      rw [blocks_from_succ] at hout ⊢
      have hnot : ∀ x ∈ l, x ≠ current := fun x hx h => hout x hx (h ▸ List.mem_cons_self)
      obtain ⟨tids, next, heq, hframe, hlinked⟩ := @chain_page_spec last l count (current + c)
        ((st.set_tid current (DEBUG_WORD 0xDD)).set_revision current (current + c)) hc (by omega) (hl.congr fun x hx => Function.update_of_ne (hnot x hx) ..)
        fun x hx h => hout x hx (List.mem_cons_of_mem _ h)
      refine ⟨tids, next, heq, fun x hx => ?_, ?_⟩
      · have hne : x ≠ current := fun h => hx (h ▸ List.mem_cons_self)
        obtain ⟨ht, hn⟩ := hframe x fun h => hx (List.mem_cons_of_mem _ h)
        exact ⟨ht.trans (Function.update_of_ne hne ..), hn.trans (Function.update_of_ne hne ..)⟩
      · refine linked_cons.mpr ⟨rfl, by omega, ?_⟩
        have hcur : current ∉ blocks_from c (current + c) (count + 1) := by
          intro h
          have := lt_of_mem_blocks_from h
          omega
        have hnext : next current = current + c :=
          (hframe current hcur).2.trans (Function.update_self ..)
        rw [hnext]
        exact hlinked

/-- What `allocate_new_page` leads to, with the headers of the new locations in
`tids` and `next`. -/
def add_page (st : State) (i c p count : ℕ) (tids : ℕ → BitVec 64) (next : ℕ → ℕ) : State :=
  { st.set_descriptor i { st.descriptor i with
      count_pages := (st.descriptor i).count_pages + 1
      pages_for_size := Function.update (st.descriptor i).pages_for_size c (p :: st.pages i c)
      free_loc_for_size := Function.update (st.descriptor i).free_loc_for_size c (p + 1) } with
    malloced := (p, GC_PAGE_WORDS) :: st.malloced
    h_tid := tids
    h_revision := next
    count_global_pages := count + 1 }

theorem nblocks_pos (hc : 0 < c) (hlt : c < GC_SMALL_REQUESTS) : 0 < nblocks_for_size c := by
  unfold nblocks_for_size
  refine Nat.div_pos ?_ (Nat.mul_pos (by decide) hc)
  unfold GC_SMALL_REQUESTS at hlt
  unfold WORD GC_PAGE_WORDS
  omega

theorem Inv.allocate_new_page_eq {p count : ℕ} (hinv : Inv st F) (hc : 0 < c)
    (hlt : c < GC_SMALL_REQUESTS) (hfresh : st.Fresh p GC_PAGE_WORDS) :
    ∃ tids next, allocate_new_page st i c p count = add_page st i c p count tids next ∧
      (∀ x ∉ blocks c p, tids x = st.h_tid x ∧ next x = st.h_revision x) ∧
      Linked next (p + 1) (blocks c p ++ F i c) := by
  have hn : nblocks_for_size c - 1 + 1 = nblocks_for_size c :=
    Nat.sub_add_cancel (nblocks_pos hc hlt)
  have hold : ∀ x ∈ F i c, x ∉ blocks_from c (p + 1) (nblocks_for_size c - 1 + 1) := by
    intro x hx hnew
    rw [hn] at hnew
    obtain ⟨hpx, hxp⟩ := @block_in_page c p x hnew
    obtain ⟨-, j, q, hq, hb⟩ := hinv.block.free_block i c x hx
    obtain ⟨hqx, hxq⟩ := block_in_page hb
    exact FreshIn.not_mem (y := x) hfresh (hinv.pages.page j c q hq).1 (by omega) (by omega)
      (by omega) (by omega)
  obtain ⟨tids, next, heq, hframe, hlinked⟩ := @chain_page_spec c (st.free_loc i c) (F i c)
    (nblocks_for_size c - 1) (p + 1)
    { st.set_descriptor i { st.descriptor i with
        count_pages := (st.descriptor i).count_pages + 1
        pages_for_size := Function.update (st.descriptor i).pages_for_size c (p :: st.pages i c) } with
      malloced := (p, GC_PAGE_WORDS) :: st.malloced
      count_global_pages := count + 1 } hc (Nat.succ_pos p) (hinv.block.free i c) hold
  rw [hn] at hframe hlinked
  refine ⟨tids, next, ?_, hframe, hlinked⟩
  unfold allocate_new_page add_page
  unfold State.set_pages State.set_free_loc State.set_descriptor State.free_loc at *
  simp only [Function.update_self, Function.update_idem] at heq ⊢
  rw [show (st.descriptor i).pages_for_size c = st.pages i c from rfl, heq]
  simp only [Function.update_self, Function.update_idem]

theorem Inv.add_page {p count : ℕ} {tids : ℕ → BitVec 64} {next : ℕ → ℕ} (hinv : Inv st F)
    (hi : i < st.num_descriptors) (hc : 0 < c) (hlt : c < GC_SMALL_REQUESTS)
    (hfresh : st.Fresh p GC_PAGE_WORDS) (hcount : st.count_global_pages = count)
    (hframe : ∀ x ∉ blocks c p, tids x = st.h_tid x ∧ next x = st.h_revision x)
    (hlinked : Linked next (p + 1) (blocks c p ++ F i c)) :
    Inv (GcPage.add_page st i c p count tids next)
      (fun j d => if j = i ∧ d = c then blocks c p ++ F i c else F j d) := by
  have hpages : (GcPage.add_page st i c p count tids next).pages
      = fun j d => if j = i ∧ d = c then p :: st.pages i c else st.pages j d := pages_of_update rfl
  have hfree : (GcPage.add_page st i c p count tids next).free_loc
      = fun j d => if j = i ∧ d = c then p + 1 else st.free_loc j d := free_loc_of_update rfl
  have hnonsmall : (GcPage.add_page st i c p count tids next).nonsmall = st.nonsmall :=
    nonsmall_of_eq rfl
  have hcounts : ∀ j, ((GcPage.add_page st i c p count tids next).descriptor j).count_pages
      = (st.descriptor j).count_pages + if j = i then 1 else 0 := by
    intro j
    unfold GcPage.add_page
    rw [descriptor_set_descriptor]
    split_ifs with hj
    · rw [hj]
    · rfl
  refine ⟨?_, ?_, unused_of_lt hinv.unused hi, fun j => ?_, ?_, hinv.totals⟩
  · rw [hpages, hnonsmall]
    exact hinv.pages.add_page hfresh hc hlt
  · rw [hpages, hnonsmall, hfree]
    exact hinv.block.add_page hinv.pages hfresh hc hlinked (fun x hx => (hframe x hx).2)
      fun x hx => (hframe x hx).1
  · rw [hcounts, hpages, hinv.count_pages j]
    by_cases hj : j = i
    · -- one page more of this size
      subst hj
      have hlength : ∀ d, (if j = j ∧ d = c then p :: st.pages j c else st.pages j d).length
          = (st.pages j d).length + if d = c then 1 else 0 := by
        intro d
        by_cases hd : d = c
        · rw [if_pos ⟨rfl, hd⟩, if_pos hd, hd, List.length_cons]
        · rw [if_neg fun h => hd h.2, if_neg hd, Nat.add_zero]
      rw [Finset.sum_congr rfl fun d _ => hlength d, Finset.sum_add_distrib,
        Finset.sum_ite_eq' _ c, if_pos (Finset.mem_range.mpr hlt), if_pos rfl]
    · rw [if_neg hj, Nat.add_zero]
      refine Finset.sum_congr rfl fun d _ => ?_
      dsimp only
      rw [if_neg fun h => hj h.1]
  · rw [Finset.sum_congr rfl fun j _ => hcounts j, Finset.sum_add_distrib,
      Finset.sum_ite_eq' _ i]
    show count + 1 = ∑ j ∈ Finset.range st.num_descriptors, (st.descriptor j).count_pages
      + if i ∈ Finset.range st.num_descriptors then 1 else 0
    rw [if_pos (Finset.mem_range.mpr hi), ← hcount, hinv.count_global_pages]

/-- The size class of a small object. -/
theorem words_lt (hsmall : Small size) : words size < GC_SMALL_REQUESTS := by
  unfold Small GC_SMALL_REQUEST_THRESHOLD GC_SMALL_REQUESTS WORD at hsmall
  unfold words GC_SMALL_REQUESTS WORD
  omega

/-- A page is allocated, and its first location taken. -/
theorem Inv.new_page {p count : ℕ} (hinv : Inv st F) (hi : i < st.num_descriptors)
    (hsize : sizeof_object ≤ size) (hsmall : Small size) (hfresh : st.Fresh p GC_PAGE_WORDS)
    (htid : no_flags tid = true) (hcount : st.count_global_pages = count) :
    (∃ F', Inv (take_free_loc (allocate_new_page st i (words size) p count) i size tid) F') ∧
      SameThreads st (take_free_loc (allocate_new_page st i (words size) p count) i size tid) := by
  have hc := words_pos hsize
  obtain ⟨tids, next, heq, hframe, hlinked⟩ :=
    @Inv.allocate_new_page_eq st F i _ p count hinv hc (words_lt hsmall) hfresh
  have hpage := hinv.add_page hi hc (words_lt hsmall) hfresh hcount hframe hlinked
  rw [heq]
  refine ⟨⟨_, hpage.take hi ?_ hsize hsmall htid⟩, rfl, rfl, rfl, fun j => ?_,
    fun _ => Or.inl rfl⟩
  · have hfree : (GcPage.add_page st i (words size) p count tids next).free_loc = _ :=
      free_loc_of_update rfl
    rw [hfree]
    dsimp only
    rw [if_pos ⟨rfl, rfl⟩]
    exact Nat.succ_ne_zero p
  · have htake := (@sameThreads_take (GcPage.add_page st i (words size) p count tids next) i size
      tid).free_list_next j
    have hadd : ∀ j, ((GcPage.add_page st i (words size) p count tids next).descriptor
        j).free_list_next = (st.descriptor j).free_list_next := free_list_next_of_eq rfl
    exact htake.trans (hadd j)

/-! ## Threads -/

/-- Nothing of the memory is touched. -/
theorem Inv.congr (hinv : Inv st F) (hmalloced : st'.malloced = st.malloced)
    (hpages : st'.pages = st.pages) (hnonsmall : st'.nonsmall = st.nonsmall)
    (hfree : st'.free_loc = st.free_loc) (hrevision : st'.h_revision = st.h_revision)
    (htid : st'.h_tid = st.h_tid) (hlive : st'.live = st.live)
    (hunused : ∀ j, st'.num_descriptors ≤ j → st'.descriptor j = new_descriptor)
    (hcount : ∀ j, (st'.descriptor j).count_pages = (st.descriptor j).count_pages)
    (hglobal : st'.count_global_pages
      = ∑ j ∈ Finset.range st'.num_descriptors, (st'.descriptor j).count_pages)
    (htotals : st'.mc_total_in_use ≤ st'.mc_total_reserved) : Inv st' F := by
  refine ⟨?_, ?_, hunused, fun j => ?_, hglobal, htotals⟩
  · rw [hmalloced, hpages, hnonsmall]
    exact hinv.pages
  · rw [hmalloced, hpages, hnonsmall, hfree, hrevision, htid, hlive]
    exact hinv.block
  · rw [hcount, hpages]
    exact hinv.count_pages j

theorem Threads.lt (h : Threads st closed) (hi : i ∈ st.stm_tx_head) : i < st.num_descriptors :=
  (h.used i).mpr (Or.inl hi)

theorem Inv.descriptorDone (hinv : Inv st F) (hthreads : Threads st closed)
    (hi : i ∈ st.stm_tx_head) (hpc : st.pc i = .running) :
    Inv (DescriptorDone st i) F ∧ Threads (DescriptorDone st i) (i :: closed) := by
  have hlt := hthreads.lt hi
  have hpages : (DescriptorDone st i).pages = st.pages := pages_of_eq rfl
  have hnonsmall : (DescriptorDone st i).nonsmall = st.nonsmall := nonsmall_of_eq rfl
  have hfree : (DescriptorDone st i).free_loc = st.free_loc := free_loc_of_eq rfl
  have hcount : ∀ j, ((DescriptorDone st i).descriptor j).count_pages
      = (st.descriptor j).count_pages := count_pages_of_eq rfl
  constructor
  · exact hinv.congr rfl hpages hnonsmall hfree rfl rfl rfl (unused_of_lt hinv.unused hlt) hcount
      (hinv.count_global_pages.trans (Finset.sum_congr rfl fun j _ => (hcount j).symm)) hinv.totals
  · refine ⟨hthreads.tx_nodup.filter _, ?_, List.nodup_cons.mpr ⟨hthreads.disjoint i hi,
      hthreads.closed_nodup⟩, fun j => ?_, fun j hj => ?_, fun j hj => ?_, hthreads.allocating⟩
    · refine Path.head (b := st.descriptor_array_free_list) ⟨hlt, ?_⟩
        (hthreads.chain.congr fun x hx y hxy => ⟨hxy.1, ?_⟩)
      · unfold DescriptorDone
        dsimp only
        rw [descriptor_set_descriptor, if_pos rfl]
      · have hxi : x ≠ i := fun h => hthreads.disjoint i hi (h ▸ hx)
        exact (congrArg tx_public_descriptor.free_list_next
          (Function.update_of_ne hxi ..)).trans hxy.2
    · show j < st.num_descriptors ↔ j ∈ st.stm_tx_head.filter (· ≠ i) ∨ j ∈ i :: closed
      rw [hthreads.used j, List.mem_filter, List.mem_cons, decide_eq_true_eq]
      by_cases hji : j = i
      · subst hji
        exact ⟨fun _ => Or.inr (Or.inl rfl), fun _ => Or.inl hi⟩
      · exact ⟨fun h => h.elim (fun h => Or.inl ⟨h, hji⟩) fun h => Or.inr (Or.inr h),
          fun h => h.elim (fun h => Or.inl h.1) fun h => Or.inr (h.resolve_left hji)⟩
    · obtain ⟨hj, hji⟩ := List.mem_filter.mp hj
      intro hmem
      rcases List.mem_cons.mp hmem with rfl | hmem
      · exact of_decide_eq_true hji rfl
      · exact hthreads.disjoint j hj hmem
    · by_cases hji : j = i
      · exact hji ▸ hpc
      · exact hthreads.pc j fun hmem => hj (List.mem_filter.mpr ⟨hmem, decide_eq_true hji⟩)

/-- The first descriptor of the chain is used again. -/
theorem Inv.reuse_descriptor {next : ℕ} {rest : List ℕ} (hinv : Inv st F)
    (hthreads : Threads st (i :: rest)) (hi : st.descriptor_array_free_list = i)
    (hnext : (st.descriptor i).free_list_next = some next) :
    Inv (GcPage.reuse_descriptor st i next) F ∧ Threads (GcPage.reuse_descriptor st i next) rest := by
  obtain ⟨-, _, ⟨hlt, hnext'⟩, hchain⟩ := Path.cons_iff.mp hthreads.chain
  rw [hi] at hlt hnext'
  obtain rfl := Option.some.inj (hnext.symm.trans hnext')
  obtain ⟨hout, hnodup⟩ := List.nodup_cons.mp hthreads.closed_nodup
  have hpages : (GcPage.reuse_descriptor st i next).pages = st.pages := pages_of_eq rfl
  have hnonsmall : (GcPage.reuse_descriptor st i next).nonsmall = st.nonsmall := nonsmall_of_eq rfl
  have hfree : (GcPage.reuse_descriptor st i next).free_loc = st.free_loc := free_loc_of_eq rfl
  have hcount : ∀ j, ((GcPage.reuse_descriptor st i next).descriptor j).count_pages
      = (st.descriptor j).count_pages := count_pages_of_eq rfl
  constructor
  · exact hinv.congr rfl hpages hnonsmall hfree rfl rfl rfl (unused_of_lt hinv.unused hlt) hcount
      (hinv.count_global_pages.trans (Finset.sum_congr rfl fun j _ => (hcount j).symm)) hinv.totals
  · refine ⟨?_, ?_, hnodup, fun j => ?_, fun j hj => ?_, fun j hj => ?_, hthreads.allocating⟩
    · refine List.nodup_cons.mpr ⟨fun hmem => ?_, hthreads.tx_nodup⟩
      exact hthreads.disjoint _ hmem List.mem_cons_self
    · refine hchain.congr fun x hx y hxy => ⟨hxy.1, ?_⟩
      have hxi : x ≠ i := fun h => hout (h ▸ hx)
      exact (congrArg tx_public_descriptor.free_list_next
        (Function.update_of_ne hxi ..)).trans hxy.2
    · refine (hthreads.used j).trans ?_
      unfold GcPage.reuse_descriptor
      rw [List.mem_cons, List.mem_cons]
      tauto
    · rcases List.mem_cons.mp hj with rfl | hj
      · exact hout
      · exact fun hmem => hthreads.disjoint j hj (List.mem_cons_of_mem _ hmem)
    · exact hthreads.pc j fun hmem => hj (List.mem_cons_of_mem _ hmem)

/-- No descriptor is free, so that the next entry of the array is `NULL`. -/
theorem Inv.add_descriptor (hinv : Inv st F) (hthreads : Threads st [])
    (hi : st.num_descriptors = i) :
    Inv (GcPage.add_descriptor st i) F ∧ Threads (GcPage.add_descriptor st i) [] := by
  -- the descriptor was empty before
  have hdescriptor : (GcPage.add_descriptor st i).descriptor = st.descriptor := by
    unfold GcPage.add_descriptor State.set_descriptor
    dsimp only
    rw [← hinv.unused i (Nat.le_of_eq hi), Function.update_eq_self]
  have hpages : (GcPage.add_descriptor st i).pages = st.pages := by
    unfold State.pages
    rw [hdescriptor]
  have hnonsmall : (GcPage.add_descriptor st i).nonsmall = st.nonsmall := by
    unfold State.nonsmall
    rw [hdescriptor]
  have hfree : (GcPage.add_descriptor st i).free_loc = st.free_loc := by
    unfold State.free_loc
    rw [hdescriptor]
  have hnum : (GcPage.add_descriptor st i).num_descriptors = i + 1 := rfl
  constructor
  · refine hinv.congr rfl hpages hnonsmall hfree rfl rfl rfl (fun j hj => ?_) (fun j => ?_) ?_
      hinv.totals
    · rw [hdescriptor]
      exact hinv.unused j (by omega)
    · rw [hdescriptor]
    · rw [hdescriptor, hnum, Finset.sum_range_succ, hinv.unused i (Nat.le_of_eq hi), ← hi]
      exact hinv.count_global_pages
  · refine ⟨?_, Lib.Path.refl _, List.nodup_nil, fun j => ?_, fun j _ => List.not_mem_nil,
      fun j hj => ?_, hthreads.allocating⟩
    · refine List.nodup_cons.mpr ⟨fun hmem => ?_, hthreads.tx_nodup⟩
      have := hthreads.lt hmem
      omega
    · have hused := hthreads.used j
      unfold GcPage.add_descriptor
      simp only [List.mem_cons, List.not_mem_nil, or_false] at hused ⊢
      rw [← hused]
      omega
    · exact hthreads.pc j fun hmem => hj (List.mem_cons_of_mem _ hmem)

theorem Inv.descriptorInit {MAX_THREADS : ℕ} (hinv : Inv st F) (hthreads : Threads st closed)
    (hs : DescriptorInit MAX_THREADS st = .next st') :
    Inv st' F ∧ ∃ closed', Threads st' closed' := by
  unfold DescriptorInit at hs
  dsimp only at hs
  cases closed with
  | nil =>
      have hnum := Path.nil_iff.mp hthreads.chain
      rw [if_neg (by omega)] at hs
      obtain ⟨-, hs⟩ := guarded_eq_next.mp hs
      rw [if_pos hnum, Outcome.next.injEq] at hs
      subst hs
      obtain ⟨hinv', hthreads'⟩ := hinv.add_descriptor hthreads hnum.symm
      exact ⟨hinv', _, hthreads'⟩
  | cons i rest =>
      obtain ⟨hi, next, ⟨hlt, hnext⟩, -⟩ := Path.cons_iff.mp hthreads.chain
      rw [if_pos hlt, hnext] at hs
      dsimp only at hs
      rw [Outcome.next.injEq] at hs
      subst hs
      rw [← hi] at hnext ⊢
      obtain ⟨hinv', hthreads'⟩ := hinv.reuse_descriptor hthreads hi.symm hnext
      exact ⟨hinv', _, hthreads'⟩

end Stmgc.C4.GcPage
