/-
`c7/stm/hashtable.c`: the tables of a hashtable.

The functions here are about one table: the slots that are probed for an index,
`_insert_clean`, and the copying loop of `_stm_rehash_hashtable`. How threads
and collections get at the tables is in the modules that use this one.

An entry is a pointer to it together with its `index`, which is written before
the entry is stored in a table and never afterwards.
-/
import Stmgc.Lib.Loop
import Stmgc.Lib.Probe
import Mathlib.Data.Finset.Card
import Mathlib.Tactic.Linarith

namespace Stmgc.C7

open Stmgc.Lib Stmgc.Lib.Probe

/-! ## Tables -/

/-- `stm_hashtable_entry_t *`. -/
structure EntryPtr where
  addr : ℕ
  index : ℕ
  deriving DecidableEq

/-- `stm_hashtable_table_t`. -/
structure Table where
  mask : ℕ
  resize_counter : ℕ
  items : ℕ → Option EntryPtr

def INITIAL_HASHTABLE_SIZE : ℕ := 8
def PERTURB_SHIFT : ℕ := 5
def RESIZING_LOCK : ℕ := 0

def IS_EVEN (p : ℕ) : Prop := p &&& 1 = 0

instance (p : ℕ) : Decidable (IS_EVEN p) := inferInstanceAs (Decidable (_ = _))

def init_table (itemcount : ℕ) : Table where
  mask := itemcount - 1
  resize_counter := itemcount * 4 + 1
  items := fun _ => none

def Table.set_item (t : Table) (i : ℕ) (entry : EntryPtr) : Table :=
  { t with items := Function.update t.items i (some entry) }

/-! ## Probing -/

/-- The variables `i` and `perturb`, for the first item that is looked at. -/
def probe_start (mask index : ℕ) : ℕ × ℕ := (index &&& mask, index)

/-- The same for the next item: `i` with the old `perturb`, and `perturb` after
the shift at the end of the turn. -/
def probe_next (mask : ℕ) (p : ℕ × ℕ) : ℕ × ℕ :=
  ((((p.1 <<< 2) + p.1 + p.2 + 1) % 2 ^ 64) &&& mask, p.2 >>> PERTURB_SHIFT)

def probe (mask index n : ℕ) : ℕ × ℕ := (probe_next mask)^[n] (probe_start mask index)

/-- The `n`-th slot that is probed for `index`. -/
def slot (mask index n : ℕ) : ℕ := (probe mask index n).1

/-- A turn of the loop of `_insert_clean`. -/
def insert_clean_body (table : Table) (p : ℕ × ℕ) : Option (ControlFlow (ℕ × ℕ) ℕ) :=
  let p := probe_next table.mask p
  if table.items p.1 = none then some (.done p.1) else some (.cont p)

/-- `_insert_clean`. -/
def insert_clean (table : Table) (entry : EntryPtr) : Option Table :=
  let p := probe_start table.mask entry.index
  if table.items p.1 = none then some (table.set_item p.1 entry)
  else do
    let i ← loop (insert_clean_body table) p
    return table.set_item i entry

/-- A turn of the loop of `_stm_rehash_hashtable`, over `biggertable` and the
variable `rc`. The entries that are not kept are the dead ones. -/
def rehash_body (keep : EntryPtr → Bool) (table : Table) (s : Table × ℕ) (j : ℕ) :
    Option (Table × ℕ) :=
  match table.items j with
  | none => some s
  | some entry =>
    if keep entry then do
      let biggertable ← insert_clean s.1 entry
      return (biggertable, s.2 - 6)
    else some s

/-! ## Every slot is probed -/

theorem probe_succ (mask index n : ℕ) :
    probe mask index (n + 1) = probe_next mask (probe mask index n) :=
  Function.iterate_succ_apply' _ _ _

theorem slot_le_mask (mask index n : ℕ) : slot mask index n ≤ mask := by
  cases n with
  | zero => exact Nat.and_le_right
  | succ n =>
      unfold slot
      rw [probe_succ]
      exact Nat.and_le_right

/-- `mask + 1` is a power of two, and a table of this size fits into memory. -/
def IsMask (mask : ℕ) : Prop := ∃ k, 3 ≤ k ∧ k < 61 ∧ mask + 1 = 2 ^ k

theorem IsMask.probe_next {mask : ℕ} (h : IsMask mask) (p : ℕ × ℕ) :
    (C7.probe_next mask p).1 = (5 * p.1 + p.2 + 1) % (mask + 1) := by
  obtain ⟨k, -, hk, hmask⟩ := h
  have hsub : mask = 2 ^ k - 1 := by omega
  have hdvd : 2 ^ k ∣ 2 ^ 64 := Nat.pow_dvd_pow 2 (by omega)
  unfold C7.probe_next
  dsimp only
  rw [hsub, Nat.and_two_pow_sub_one_eq_mod, Nat.mod_mod_of_dvd _ hdvd, Nat.shiftLeft_eq]
  have hpos : 0 < 2 ^ k := Nat.two_pow_pos k
  rw [Nat.sub_add_cancel hpos]
  congr 1
  ring

/-- `perturb` becomes zero. -/
theorem probe_perturb (mask index n : ℕ) :
    (probe mask index n).2 = index >>> (PERTURB_SHIFT * n) := by
  induction n with
  | zero => rfl
  | succ n ih =>
      rw [probe_succ]
      show (probe mask index n).2 >>> PERTURB_SHIFT = _
      rw [ih, ← Nat.shiftRight_add, Nat.mul_succ]

/-- Once `perturb` is zero the slots follow the recurrence. -/
theorem IsMask.slot_add {mask : ℕ} (h : IsMask mask) {index z : ℕ}
    (hzero : ∀ m, (probe mask index (z + m)).2 = 0) (m : ℕ) :
    slot mask index (z + m) ≡ next_slot^[m] (slot mask index z) [MOD mask + 1] := by
  induction m with
  | zero => rfl
  | succ m ih =>
      rw [Function.iterate_succ_apply', ← Nat.add_assoc]
      unfold slot at ih ⊢
      rw [probe_succ, h.probe_next, hzero m]
      have hstep : 5 * (probe mask index (z + m)).1 + 0 + 1
          ≡ next_slot (next_slot^[m] (probe mask index z).1) [MOD mask + 1] :=
        (ih.mul_left 5).add_right 1
      exact (Nat.mod_modEq _ _).trans hstep

theorem IsMask.slot_surjective {mask : ℕ} (h : IsMask mask) (index : ℕ) {i : ℕ} (hi : i ≤ mask) :
    ∃ n, slot mask index n = i := by
  -- from here on `perturb` is zero
  have hzero : ∀ m, (probe mask index (index + m)).2 = 0 := by
    intro m
    rw [probe_perturb, Nat.shiftRight_eq_div_pow]
    apply Nat.div_eq_of_lt
    calc index < 2 ^ index := Nat.lt_two_pow_self
      _ ≤ 2 ^ (PERTURB_SHIFT * (index + m)) :=
        Nat.pow_le_pow_right (by omega) (by unfold PERTURB_SHIFT; omega)
  obtain ⟨k, -, -, hmask⟩ := id h
  obtain ⟨m, hm⟩ := exists_next_slot_modEq k (slot mask index index) i
  rw [← hmask] at hm
  refine ⟨index + m, ?_⟩
  have heq := (h.slot_add hzero m).trans hm
  have hle := slot_le_mask mask index (index + m)
  exact Nat.ModEq.eq_of_lt_of_lt heq (by omega) (by omega)

/-- For an index of 64 bits `perturb` is zero after 13 turns, and every slot is
among the next `mask + 1`. -/
theorem IsMask.slot_covers {mask : ℕ} (h : IsMask mask) {index : ℕ} (hindex : index < 2 ^ 64)
    {i : ℕ} (hi : i ≤ mask) : ∃ n ≤ mask + 13, slot mask index n = i := by
  have hzero : ∀ m, (probe mask index (13 + m)).2 = 0 := by
    intro m
    rw [probe_perturb, Nat.shiftRight_eq_div_pow]
    apply Nat.div_eq_of_lt
    calc index < 2 ^ 64 := hindex
      _ ≤ 2 ^ (PERTURB_SHIFT * (13 + m)) :=
        Nat.pow_le_pow_right (by omega) (by unfold PERTURB_SHIFT; omega)
  obtain ⟨k, -, -, hmask⟩ := id h
  obtain ⟨m, hlt, hm⟩ := exists_lt_next_slot_modEq k (slot mask index 13) i
  rw [← hmask] at hlt hm
  refine ⟨13 + m, by omega, ?_⟩
  have heq := (h.slot_add hzero m).trans hm
  have hle := slot_le_mask mask index (13 + m)
  exact Nat.ModEq.eq_of_lt_of_lt heq (by omega) (by omega)

/-! ## Counting the items -/

/-- The number of entries in the first `n` slots. -/
def Table.count_below (t : Table) (n : ℕ) : ℕ :=
  ((Finset.range n).filter fun i => (t.items i).isSome).card

def Table.count (t : Table) : ℕ := t.count_below (t.mask + 1)

theorem Table.count_below_succ_none {t : Table} {n : ℕ} (h : t.items n = none) :
    t.count_below (n + 1) = t.count_below n := by
  unfold Table.count_below
  rw [Finset.range_add_one, Finset.filter_insert, if_neg]
  rw [h]
  nofun

theorem Table.count_below_succ_some {t : Table} {n : ℕ} {e : EntryPtr} (h : t.items n = some e) :
    t.count_below (n + 1) = t.count_below n + 1 := by
  unfold Table.count_below
  rw [Finset.range_add_one, Finset.filter_insert, if_pos]
  · apply Finset.card_insert_of_notMem
    simp
  · rw [h]
    rfl

theorem Table.count_below_mono (t : Table) {m n : ℕ} (h : m ≤ n) :
    t.count_below m ≤ t.count_below n := by
  apply Finset.card_le_card
  apply Finset.filter_subset_filter
  exact Finset.range_subset_range.mpr h

theorem Table.count_set_item {t : Table} {i : ℕ} (hi : i ≤ t.mask) (hnone : t.items i = none)
    (entry : EntryPtr) : (t.set_item i entry).count = t.count + 1 := by
  unfold Table.count Table.count_below Table.set_item
  dsimp only
  have heq : (Finset.range (t.mask + 1)).filter
        (fun j => (Function.update t.items i (some entry) j).isSome)
      = insert i ((Finset.range (t.mask + 1)).filter fun j => (t.items j).isSome) := by
    ext j
    rw [Finset.mem_filter, Finset.mem_insert, Finset.mem_filter, Function.update_apply]
    by_cases hj : j = i
    · subst hj
      simp
      omega
    · simp [hj]
  rw [heq, Finset.card_insert_of_notMem]
  rw [Finset.mem_filter, hnone]
  rintro ⟨-, hsome⟩
  cases hsome

/-- A table that is not full has an empty slot. -/
theorem Table.exists_empty {t : Table} (h : t.count < t.mask + 1) :
    ∃ i ≤ t.mask, t.items i = none := by
  by_contra hall
  push Not at hall
  have heq : (Finset.range (t.mask + 1)).filter (fun i => (t.items i).isSome)
      = Finset.range (t.mask + 1) := by
    apply Finset.filter_true_of_mem
    intro i hi
    rw [Finset.mem_range] at hi
    exact Option.isSome_iff_ne_none.mpr (hall i (by omega))
  unfold Table.count Table.count_below at h
  rw [heq, Finset.card_range] at h
  omega

/-! ## Well-formed tables -/

/-- Every entry is in a slot where it is found, and a third of the slots stays
free. -/
structure Table.Ok (t : Table) : Prop where
  mask : IsMask t.mask
  placed : WellPlaced (slot t.mask) EntryPtr.index t.items
  beyond : ∀ i, t.mask < i → t.items i = none
  room : 6 * t.count ≤ 4 * (t.mask + 1)

def Table.contains (t : Table) (entry : EntryPtr) : Prop := ∃ i, t.items i = some entry

theorem Table.Ok.congr {t t' : Table} (h : t.Ok) (hmask : t'.mask = t.mask)
    (hitems : t'.items = t.items) : t'.Ok := by
  obtain ⟨hm, hp, hb, hr⟩ := h
  refine ⟨hmask ▸ hm, ?_, ?_, ?_⟩
  · rw [hmask, hitems]
    exact hp
  · rw [hmask, hitems]
    exact hb
  · unfold Table.count Table.count_below at hr ⊢
    rw [hmask, hitems]
    exact hr

theorem init_table_ok {n k : ℕ} (hn : n = 2 ^ k) (hk : 3 ≤ k) (hk' : k < 61) :
    (init_table n).Ok := by
  have hpos : 0 < 2 ^ k := Nat.two_pow_pos k
  refine ⟨⟨k, hk, hk', ?_⟩, wellPlaced_empty, fun _ _ => rfl, ?_⟩
  · show n - 1 + 1 = _
    omega
  · have hzero : (init_table n).count = 0 := by
      unfold Table.count Table.count_below init_table
      simp
    rw [hzero]
    omega

/-- At most one entry for each index. -/
theorem Table.Ok.unique {t : Table} (h : t.Ok) {e e' : EntryPtr} (he : t.contains e)
    (he' : t.contains e') (hindex : e.index = e'.index) : e = e' := by
  obtain ⟨i, hi⟩ := he
  obtain ⟨j, hj⟩ := he'
  have hij := h.placed.unique hi hj hindex
  rw [hij, hj] at hi
  cases hi
  rfl

/-- The search for any index comes to an empty slot. -/
theorem Table.Ok.exists_empty_slot {t : Table} (h : t.Ok) (index : ℕ) :
    ∃ n, t.items (slot t.mask index n) = none := by
  have hroom := h.room
  obtain ⟨i, hi, hnone⟩ := Table.exists_empty (t := t) (by omega)
  obtain ⟨n, hn⟩ := h.mask.slot_surjective index hi
  exact ⟨n, by rw [hn]; exact hnone⟩

theorem reaches_le_mask {t : Table} {index i : ℕ}
    (h : Reaches (slot t.mask) EntryPtr.index t.items index i) : i ≤ t.mask := by
  obtain ⟨n, rfl, -⟩ := h
  exact slot_le_mask _ _ _

theorem Table.Ok.set_item {t : Table} (h : t.Ok) {entry : EntryPtr} {i : ℕ}
    (hreach : Reaches (slot t.mask) EntryPtr.index t.items entry.index i)
    (hnone : t.items i = none) (hroom : 6 * (t.count + 1) ≤ 4 * (t.mask + 1)) :
    (t.set_item i entry).Ok where
  mask := h.mask
  placed := h.placed.insert hreach hnone
  beyond j hj := by
    have hi := reaches_le_mask hreach
    replace hj : t.mask < j := hj
    show Function.update t.items i (some entry) j = none
    rw [Function.update_of_ne (by omega)]
    exact h.beyond j hj
  room := by
    rw [Table.count_set_item (reaches_le_mask hreach) hnone]
    exact hroom

theorem Table.contains_set_item {t : Table} {i : ℕ} (hnone : t.items i = none)
    {entry e : EntryPtr} : (t.set_item i entry).contains e ↔ t.contains e ∨ e = entry := by
  unfold Table.contains Table.set_item
  dsimp only
  constructor
  · rintro ⟨j, hj⟩
    rw [Function.update_apply] at hj
    split_ifs at hj with hji
    · cases hj
      exact .inr rfl
    · exact .inl ⟨j, hj⟩
  · rintro (⟨j, hj⟩ | rfl)
    · refine ⟨j, ?_⟩
      rw [Function.update_of_ne]
      · exact hj
      · rintro rfl
        rw [hnone] at hj
        cases hj
    · exact ⟨i, Function.update_self _ _ _⟩

/-! ## `_insert_clean` -/

/-- `_insert_clean` finds an empty slot; the table must have room for one more
entry, and none for its index. -/
theorem insert_clean_spec {t : Table} (h : t.Ok) {entry : EntryPtr}
    (hfresh : ∀ e, t.contains e → e.index ≠ entry.index)
    (hroom : 6 * (t.count + 1) ≤ 4 * (t.mask + 1)) :
    Returns (insert_clean t entry) fun t' => t'.Ok ∧ t'.mask = t.mask
      ∧ t'.resize_counter = t.resize_counter ∧ t'.count = t.count + 1
      ∧ Extends t.items t'.items ∧ ∀ e, t'.contains e ↔ t.contains e ∨ e = entry := by
  have hstore : ∀ i, Reaches (slot t.mask) EntryPtr.index t.items entry.index i →
      t.items i = none → (t.set_item i entry).Ok ∧ (t.set_item i entry).mask = t.mask
        ∧ (t.set_item i entry).resize_counter = t.resize_counter
        ∧ (t.set_item i entry).count = t.count + 1
        ∧ Extends t.items (t.set_item i entry).items
        ∧ ∀ e, (t.set_item i entry).contains e ↔ t.contains e ∨ e = entry := by
    intro i hreach hnone
    exact ⟨h.set_item hreach hnone hroom, rfl, rfl,
      Table.count_set_item (reaches_le_mask hreach) hnone _, Extends.insert hnone,
      fun e => Table.contains_set_item hnone⟩
  unfold insert_clean
  dsimp only
  split_ifs with hfirst
  · exact returns_some (hstore _ ⟨0, rfl, passed_zero⟩ hfirst)
  · -- the loop has gone past `n` occupied slots, and there is an empty one ahead
    obtain ⟨N, hN⟩ := h.exists_empty_slot entry.index
    have hpast : ∀ m, Passed (slot t.mask) EntryPtr.index t.items entry.index m →
        t.items (slot t.mask entry.index m) ≠ none →
        Passed (slot t.mask) EntryPtr.index t.items entry.index (m + 1) := by
      intro m hm hsome
      obtain ⟨w, hw⟩ := Option.ne_none_iff_exists'.mp hsome
      exact hm.succ hw (hfresh w ⟨_, hw⟩)
    have hloop : Returns (loop (insert_clean_body t) (probe_start t.mask entry.index)) fun i =>
        Reaches (slot t.mask) EntryPtr.index t.items entry.index i ∧ t.items i = none := by
      refine loop.spec_turns (fun left p => ∃ n, p = probe t.mask entry.index n
        ∧ n + left = N ∧ Passed (slot t.mask) EntryPtr.index t.items entry.index (n + 1))
        (n := N) ?_ ⟨0, rfl, Nat.zero_add N, hpast 0 passed_zero hfirst⟩
      rintro left p ⟨n, rfl, hleft, hpassed⟩
      have hnext : probe_next t.mask (probe t.mask entry.index n)
          = probe t.mask entry.index (n + 1) := (probe_succ _ _ _).symm
      unfold insert_clean_body
      rw [hnext]
      dsimp only
      split_ifs with hempty
      · exact returns_some ⟨⟨n + 1, rfl, hpassed⟩, hempty⟩
      · refine returns_some ⟨left - 1, ?_, n + 1, rfl, ?_, hpast _ hpassed hempty⟩
        · rcases Nat.eq_zero_or_pos left with hzero | hpos
          · -- the empty slot has not been passed
            obtain ⟨w, hw, -⟩ := hpassed N (by omega)
            rw [hN] at hw
            cases hw
          · omega
        · rcases Nat.eq_zero_or_pos left with hzero | hpos
          · obtain ⟨w, hw, -⟩ := hpassed N (by omega)
            rw [hN] at hw
            cases hw
          · omega
    exact hloop.bind fun i hi => returns_some (hstore i hi.1 hi.2)

/-! ## Copying a table -/

/-- After `j` turns of the loop of `_stm_rehash_hashtable` the bigger table has
the entries of the first `j` slots, without the dead ones, and `rc` is what its
counter has to be. -/
structure Copied (keep : EntryPtr → Bool) (table : Table) (j : ℕ) (b : Table) (rc : ℕ) : Prop where
  ok : b.Ok
  contains : ∀ e, b.contains e ↔ keep e = true ∧ ∃ i < j, table.items i = some e
  count : b.count ≤ table.count_below j
  counter : rc + 6 * b.count = 4 * (b.mask + 1) + 1

theorem copied_zero {keep : EntryPtr → Bool} {table : Table} {n k : ℕ} (hn : n = 2 ^ k)
    (hk : 3 ≤ k) (hk' : k < 61) :
    Copied keep table 0 (init_table n) (init_table n).resize_counter := by
  have hpos : 0 < 2 ^ k := Nat.two_pow_pos k
  have hzero : (init_table n).count = 0 := by
    unfold Table.count Table.count_below init_table
    simp
  refine ⟨init_table_ok hn hk hk', fun e => ?_, by rw [hzero]; exact Nat.zero_le _, ?_⟩
  · unfold Table.contains init_table
    simp
  · rw [hzero]
    show n * 4 + 1 + 6 * 0 = 4 * (n - 1 + 1) + 1
    omega

/-- One turn of the loop. -/
theorem rehash_body_spec {keep : EntryPtr → Bool} {table b : Table} {j rc : ℕ} (ht : table.Ok)
    (hj : j ≤ table.mask) (hroom : 6 * table.count ≤ 4 * (b.mask + 1))
    (h : Copied keep table j b rc) :
    Returns (rehash_body keep table (b, rc) j) fun r => Copied keep table (j + 1) r.1 r.2
      ∧ r.1.mask = b.mask ∧ r.1.resize_counter = b.resize_counter
      ∧ Extends b.items r.1.items := by
  have hext : ∀ e, (∃ i < j + 1, table.items i = some e)
      ↔ (∃ i < j, table.items i = some e) ∨ table.items j = some e := by
    intro e
    constructor
    · rintro ⟨i, hi, he⟩
      rcases Nat.lt_succ_iff_lt_or_eq.mp hi with hlt | rfl
      · exact .inl ⟨i, hlt, he⟩
      · exact .inr he
    · rintro (⟨i, hi, he⟩ | he)
      · exact ⟨i, by omega, he⟩
      · exact ⟨j, by omega, he⟩
  unfold rehash_body
  cases hitem : table.items j with
  | none =>
      refine returns_some ⟨⟨h.ok, fun e => ?_, ?_, h.counter⟩, rfl, rfl, Extends.refl⟩
      · rw [h.contains, hext, hitem]
        simp
      · rw [Table.count_below_succ_none hitem]
        exact h.count
  | some entry =>
      dsimp only
      have hcount := Table.count_below_succ_some hitem
      have hmono := table.count_below_mono (m := j + 1) (n := table.mask + 1) (by omega)
      have hle := h.count
      have htotal : table.count = table.count_below (table.mask + 1) := rfl
      split_ifs with hkeep
      · have hfresh : ∀ e, b.contains e → e.index ≠ entry.index := by
          intro e he hindex
          obtain ⟨-, i, hi, hei⟩ := (h.contains e).mp he
          have hij := ht.placed.unique hei hitem hindex
          omega
        refine (insert_clean_spec h.ok hfresh (by omega)).bind ?_
        rintro b' ⟨hok, hmask, hrc, hcount', hext', hcontains⟩
        refine returns_some ⟨⟨hok, fun e => ?_, by dsimp only; omega, ?_⟩, hmask, hrc,
          hext'⟩
        · rw [hcontains, h.contains, hext, hitem]
          constructor
          · rintro (⟨hk, he⟩ | rfl)
            · exact ⟨hk, .inl he⟩
            · exact ⟨hkeep, .inr rfl⟩
          · rintro ⟨hk, he | he⟩
            · exact .inl ⟨hk, he⟩
            · cases he
              exact .inr rfl
        · have hcounter := h.counter
          rw [hmask]
          dsimp only
          omega
      · refine returns_some ⟨⟨h.ok, fun e => ?_, by dsimp only; omega, h.counter⟩, rfl,
          rfl, Extends.refl⟩
        rw [h.contains, hext, hitem]
        constructor
        · rintro ⟨hk, he⟩
          exact ⟨hk, .inl he⟩
        · rintro ⟨hk, he | he⟩
          · exact ⟨hk, he⟩
          · cases he
            exact absurd hk hkeep

/-- After the last turn. -/
theorem Copied.contains_all {keep : EntryPtr → Bool} {table b : Table} {rc : ℕ} (ht : table.Ok)
    (h : Copied keep table (table.mask + 1) b rc) (e : EntryPtr) :
    b.contains e ↔ keep e = true ∧ table.contains e := by
  rw [h.contains]
  refine and_congr_right fun _ => ⟨fun ⟨i, _, hi⟩ => ⟨i, hi⟩, fun ⟨i, hi⟩ => ⟨i, ?_, hi⟩⟩
  by_contra hlt
  rw [ht.beyond i (by omega)] at hi
  cases hi

/-! ## Tables whose indexes are not known -/

/-- What is left of [`Table.Ok`] for a table with any indexes in its entries. -/
structure Table.Fits (t : Table) : Prop where
  mask : IsMask t.mask
  beyond : ∀ i, t.mask < i → t.items i = none
  room : 6 * t.count ≤ 4 * (t.mask + 1)

theorem Table.Ok.fits {t : Table} (h : t.Ok) : t.Fits := ⟨h.mask, h.beyond, h.room⟩

theorem Table.count_below_congr {t t' : Table}
    (hitems : ∀ i, (t'.items i).isSome = (t.items i).isSome) (n : ℕ) :
    t'.count_below n = t.count_below n := by
  unfold Table.count_below
  simp only [hitems]

theorem Table.count_congr {t t' : Table} (hmask : t'.mask = t.mask)
    (hitems : ∀ i, (t'.items i).isSome = (t.items i).isSome) : t'.count = t.count := by
  unfold Table.count
  rw [hmask, Table.count_below_congr hitems]

theorem Table.Fits.congr {t t' : Table} (h : t.Fits) (hmask : t'.mask = t.mask)
    (hitems : ∀ i, (t'.items i).isSome = (t.items i).isSome) : t'.Fits := by
  refine ⟨hmask ▸ h.mask, fun i hi => ?_, ?_⟩
  · have hnone := hitems i
    rw [h.beyond i (hmask ▸ hi)] at hnone
    exact Option.not_isSome_iff_eq_none.mp (by rw [hnone]; decide)
  · rw [Table.count_congr hmask hitems, hmask]
    exact h.room

theorem Table.Fits.exists_empty {t : Table} (h : t.Fits) : ∃ i ≤ t.mask, t.items i = none := by
  have hroom := h.room
  exact Table.exists_empty (by omega)

/-- A search that has gone past `n + 1` occupied slots has not made many
turns. -/
theorem Table.Fits.turns_le {t : Table} (h : t.Fits) {index n : ℕ} (hindex : index < 2 ^ 64)
    (hpast : ∀ m ≤ n, t.items (slot t.mask index m) ≠ none) : n ≤ t.mask + 12 := by
  by_contra hlong
  obtain ⟨i, hi, hnone⟩ := h.exists_empty
  obtain ⟨m, hm, rfl⟩ := h.mask.slot_covers hindex hi
  exact hpast m (by omega) hnone

theorem Table.Fits.set_item {t : Table} (h : t.Fits) {i : ℕ} (hi : i ≤ t.mask)
    (hnone : t.items i = none) (entry : EntryPtr) (hroom : 6 * (t.count + 1) ≤ 4 * (t.mask + 1)) :
    (t.set_item i entry).Fits where
  mask := h.mask
  beyond j hj := by
    replace hj : t.mask < j := hj
    show Function.update t.items i (some entry) j = none
    rw [Function.update_of_ne (by omega)]
    exact h.beyond j hj
  room := by
    rw [Table.count_set_item hi hnone]
    exact hroom

/-- `_insert_clean` ends, at an empty slot. -/
theorem insert_clean_ends {t : Table} (h : t.Fits) (entry : EntryPtr) :
    ∃ i ≤ t.mask, t.items i = none ∧ insert_clean t entry = some (t.set_item i entry) := by
  unfold insert_clean
  dsimp only
  split_ifs with hfirst
  · exact ⟨_, slot_le_mask t.mask entry.index 0, hfirst, rfl⟩
  · obtain ⟨i, hi, hempty⟩ := h.exists_empty
    obtain ⟨N, rfl⟩ := h.mask.slot_surjective entry.index hi
    -- the loop has gone past `n + 1` occupied slots, and slot `N` is still ahead
    have hloop : Returns (loop (insert_clean_body t) (probe_start t.mask entry.index)) fun i =>
        ∃ n, i = slot t.mask entry.index n ∧ t.items i = none := by
      refine loop.spec_turns (fun left p => ∃ n, p = probe t.mask entry.index n ∧ n + left = N
        ∧ ∀ m ≤ n, t.items (slot t.mask entry.index m) ≠ none) (n := N) ?_
        ⟨0, rfl, Nat.zero_add N, ?_⟩
      · rintro left p ⟨n, rfl, hleft, hpast⟩
        have hpos : left ≠ 0 := by
          rintro rfl
          exact hpast N (by omega) hempty
        have hnext : probe_next t.mask (probe t.mask entry.index n)
            = probe t.mask entry.index (n + 1) := (probe_succ _ _ _).symm
        unfold insert_clean_body
        rw [hnext]
        dsimp only
        split_ifs with hfree
        · exact returns_some ⟨n + 1, rfl, hfree⟩
        · refine returns_some ⟨left - 1, by omega, n + 1, rfl, by omega, fun m hm => ?_⟩
          rcases Nat.lt_succ_iff_lt_or_eq.mp (Nat.lt_succ_of_le hm) with hlt | rfl
          · exact hpast m (by omega)
          · exact hfree
      · intro m hm
        have hzero : m = 0 := by omega
        subst hzero
        exact hfirst
    obtain ⟨i, hres, n, rfl, hnone⟩ := hloop
    exact ⟨_, slot_le_mask t.mask entry.index n, hnone, by rw [hres]; rfl⟩

/-- In a table with room for one more entry it leaves a third of the slots
free. -/
theorem insert_clean_fits {t : Table} (h : t.Fits) (entry : EntryPtr)
    (hroom : 6 * (t.count + 1) ≤ 4 * (t.mask + 1)) :
    Returns (insert_clean t entry) fun t' => t'.Fits ∧ t'.mask = t.mask
      ∧ t'.resize_counter = t.resize_counter ∧ t'.count = t.count + 1 := by
  obtain ⟨i, hi, hnone, hres⟩ := insert_clean_ends h entry
  exact ⟨_, hres, h.set_item hi hnone entry hroom, rfl, rfl, Table.count_set_item hi hnone _⟩

/-- The same as [`Copied`], without the entries. -/
structure Filled (table : Table) (j : ℕ) (b : Table) (rc : ℕ) : Prop where
  fits : b.Fits
  count : b.count ≤ table.count_below j
  counter : rc + 6 * b.count = 4 * (b.mask + 1) + 1

theorem filled_zero (table : Table) {n k : ℕ} (hn : n = 2 ^ k) (hk : 3 ≤ k) (hk' : k < 61) :
    Filled table 0 (init_table n) (init_table n).resize_counter := by
  have h : Copied (fun _ => true) table 0 (init_table n) (init_table n).resize_counter :=
    copied_zero hn hk hk'
  exact ⟨h.ok.fits, h.count, h.counter⟩

theorem rehash_body_fits {keep : EntryPtr → Bool} {table b : Table} {j rc : ℕ}
    (hj : j ≤ table.mask) (hroom : 6 * table.count ≤ 4 * (b.mask + 1))
    (h : Filled table j b rc) :
    Returns (rehash_body keep table (b, rc) j) fun r => Filled table (j + 1) r.1 r.2
      ∧ r.1.mask = b.mask ∧ r.1.resize_counter = b.resize_counter := by
  have hle := h.count
  have hcounter := h.counter
  unfold rehash_body
  cases hitem : table.items j with
  | none =>
      refine returns_some ⟨⟨h.fits, ?_, hcounter⟩, rfl, rfl⟩
      rw [Table.count_below_succ_none hitem]
      exact hle
  | some entry =>
      dsimp only
      have hcount := Table.count_below_succ_some hitem
      have hmono := table.count_below_mono (m := j + 1) (n := table.mask + 1) (by omega)
      have htotal : table.count = table.count_below (table.mask + 1) := rfl
      split_ifs with hkeep
      · refine (insert_clean_fits h.fits entry (by omega)).bind ?_
        rintro b' ⟨hfits, hmask, hrc, hcount'⟩
        refine returns_some ⟨⟨hfits, by dsimp only; omega, ?_⟩, hmask, hrc⟩
        rw [hmask]
        dsimp only
        omega
      · exact returns_some ⟨⟨h.fits, by dsimp only; omega, hcounter⟩, rfl, rfl⟩

end Stmgc.C7
