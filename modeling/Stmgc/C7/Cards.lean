/-
Cards: `_reset_object_cards` of `nursery.c`, and `synchronize_object_now` of
`core.c` with its card-wise variant.

The card bytes of an object follow its base byte in `write_locks`. What the
callbacks of the embedding program say about an object is its [`Layout`].

`synchronize_object_now` is modelled without the case `GCFLAG_SMALL_UNIFORM`,
a flag that no code sets.
-/
import Stmgc.Lib.Loop
import Stmgc.C7.Pages

namespace Stmgc.C7

open Stmgc.Lib

/-! ## Cards and their bytes -/

def CARD_SIZE : ℕ := 32
def STM_MIN_CARD_COUNT : ℕ := 17
def STM_MIN_CARD_OBJ_SIZE : ℕ := CARD_SIZE * STM_MIN_CARD_COUNT

def CARD_CLEAR : ℕ := 0
def CARD_MARKED : ℕ := 100
def CARD_MARKED_OLD : ℕ := 101

def get_index_to_card_index (index : ℕ) : ℕ := index / CARD_SIZE + 1

def get_card_index_to_index (card_index : ℕ) : ℕ := (card_index - 1) * CARD_SIZE

/-- `get_write_lock_idx`, counted from `- WRITELOCK_START`. -/
def get_write_lock_idx (obj : ℕ) : ℕ := obj / 16

/-- `stmcb_size_rounded_up`, `stmcb_obj_supports_cards` and
`stmcb_get_card_base_itemsize` of an object. One that supports cards is an
array: what makes it large are its items. -/
structure Layout where
  size : ℕ
  supports_cards : Bool
  card_base : ℕ
  card_itemsize : ℕ
  size_pos : 16 ≤ size
  size_lt : size < 2 ^ 63
  itemsize_pos : 0 < card_itemsize
  has_items : supports_cards = true → STM_MIN_CARD_OBJ_SIZE ≤ size →
    4 ≤ card_base ∧ card_base + card_itemsize ≤ size

def obj_should_use_cards (l : Layout) : Bool :=
  l.supports_cards && decide (STM_MIN_CARD_OBJ_SIZE ≤ l.size)

/-- The number of items, as the loops over cards compute it. -/
def real_idx_count (l : Layout) : ℕ := (l.size - l.card_base) / l.card_itemsize

/-- The maximal valid card index; the subtraction is one of `size_t`. -/
def last_card_index (l : Layout) : ℕ :=
  get_index_to_card_index ((real_idx_count l + 2 ^ 64 - 1) % 2 ^ 64)

/-- The card indices of an object. -/
def card_indices (l : Layout) : List ℕ := List.range' 1 (last_card_index l)

/-- A loop over the card bytes of an object. -/
def map_cards (f : ℕ → ℕ) (write_locks : ℕ → ℕ) (obj : ℕ) (l : Layout) : ℕ → ℕ :=
  (card_indices l).foldl (fun wl card_index =>
    let card_lock_idx := get_write_lock_idx obj + card_index
    Function.update wl card_lock_idx (f (wl card_lock_idx))) write_locks

/-- `_reset_object_cards`, less the flag. -/
def reset_object_cards (write_locks : ℕ → ℕ) (obj : ℕ) (l : Layout) (mark_value : ℕ)
    (mark_all : Bool) : ℕ → ℕ :=
  map_cards (fun card => if mark_all = true ∨ card ≠ CARD_CLEAR then mark_value else card)
    write_locks obj l

/-- What `_trace_card_object` does to the card bytes. -/
def trace_cards (write_locks : ℕ → ℕ) (obj : ℕ) (l : Layout) (mark_value : ℕ) : ℕ → ℕ :=
  map_cards (fun card => if card = CARD_MARKED then mark_value else card) write_locks obj l

/-! ## Synchronizing -/

/-- `_has_private_page_in_range`. -/
def has_private_page_in_range (m : Memory) (seg_num start size : ℕ) : Bool :=
  (List.range' (start / 4096) ((start + size) / 4096 - start / 4096 + 1)).any
    (is_private_page m seg_num)

/-- The state of the loop of `_card_wise_synchronize_object_now`. -/
structure CardSync where
  mem : Memory
  write_locks : ℕ → ℕ
  start_card_index : Option ℕ
  all_cards_were_cleared : Bool

/-- Copy the cards from `start_card_index` up to `next_card_index`. -/
def copy_cards (NB_SEGMENTS : ℕ) (m : Memory) (myself obj : ℕ) (l : Layout)
    (start_card_index next_card_index : ℕ) : Option Memory := do
  let start_card_offset := l.card_base + get_card_index_to_index start_card_index * l.card_itemsize
  let next_card_offset := l.card_base + get_card_index_to_index next_card_index * l.card_itemsize
  let next_card_offset := if next_card_offset > l.size then l.size else next_card_offset
  let start := obj + start_card_offset
  let copy_size := next_card_offset - start_card_offset
  c_assert (copy_size > 0)
  c_assert (has_private_page_in_range m myself start copy_size = true)
  let m := memcpy m 0 myself start copy_size
  return diffuse NB_SEGMENTS (fun m i => has_private_page_in_range m i start copy_size) myself
    start copy_size m

/-- One turn of the loop of `_card_wise_synchronize_object_now`. -/
def card_wise_turn (NB_SEGMENTS myself obj : ℕ) (l : Layout) (s : CardSync) (card_index : ℕ) :
    Option CardSync := do
  let card_lock_idx := get_write_lock_idx obj + card_index
  let card_value := s.write_locks card_lock_idx
  c_assert (card_value = CARD_MARKED_OLD ∨ card_value = CARD_CLEAR)
  let s := if card_value = CARD_MARKED_OLD then
      { s with
        write_locks := Function.update s.write_locks card_lock_idx CARD_CLEAR
        start_card_index := some (s.start_card_index.getD card_index)
        all_cards_were_cleared := false }
    else s
  match s.start_card_index with
  | none => return s
  | some start_card_index =>
    if card_value ≠ CARD_MARKED_OLD ∨ card_index = last_card_index l then
      let next_card_index :=
        if card_value = CARD_MARKED_OLD then card_index + 1 else card_index
      let m ← copy_cards NB_SEGMENTS s.mem myself obj l start_card_index next_card_index
      return { s with mem := m, start_card_index := none }
    else return s

/-- `_card_wise_synchronize_object_now`. The comparison of all bytes at its
end, in debug builds, is what `card_wise_synchronize_object_now_spec` is
about. -/
def card_wise_synchronize_object_now (NB_SEGMENTS : ℕ) (m : Memory) (write_locks : ℕ → ℕ)
    (myself obj : ℕ) (l : Layout) : Option (Memory × (ℕ → ℕ)) :=
  let first_card_index := get_write_lock_idx obj
  let last_card_index := last_card_index l
  -- probably the whole object is marked anyway
  if write_locks (first_card_index + 1) = CARD_MARKED_OLD
      ∧ write_locks (first_card_index + last_card_index) = CARD_MARKED_OLD
      ∧ write_locks (first_card_index + (last_card_index / 2 + 1)) = CARD_MARKED_OLD then
    some (page_wise_synchronize_object_now NB_SEGMENTS m myself obj l.size,
      reset_object_cards write_locks obj l CARD_CLEAR false)
  else do
    let s ← (card_indices l).foldlM (card_wise_turn NB_SEGMENTS myself obj l)
      { mem := m, write_locks := write_locks, start_card_index := none,
        all_cards_were_cleared := true }
    if s.all_cards_were_cleared then
      -- well, seems like we never called stm_write_card() on it
      return (page_wise_synchronize_object_now NB_SEGMENTS s.mem myself obj l.size,
        s.write_locks)
    else return (s.mem, s.write_locks)

/-- `synchronize_object_now`. -/
def synchronize_object_now (NB_SEGMENTS : ℕ) (m : Memory) (write_locks : ℕ → ℕ)
    (myself obj : ℕ) (l : Layout) (ignore_cards : Bool) : Option (Memory × (ℕ → ℕ)) :=
  if ignore_cards || !obj_should_use_cards l then
    some (page_wise_synchronize_object_now NB_SEGMENTS m myself obj l.size, write_locks)
  else card_wise_synchronize_object_now NB_SEGMENTS m write_locks myself obj l

/-! ## Card arithmetic -/

section

variable {l : Layout}

theorem mem_card_indices {c : ℕ} : c ∈ card_indices l ↔ 1 ≤ c ∧ c ≤ last_card_index l := by
  rw [card_indices, List.mem_range'_1]
  omega

/-- An object with items: no wrap-around in `last_card_index`. -/
theorem last_card_index_eq (h : 1 ≤ real_idx_count l) :
    last_card_index l = (real_idx_count l - 1) / 32 + 1 := by
  have hle : real_idx_count l ≤ l.size - l.card_base := Nat.div_le_self _ _
  have hlt := l.size_lt
  unfold last_card_index get_index_to_card_index CARD_SIZE
  have hmod : (real_idx_count l + 2 ^ 64 - 1) % 2 ^ 64 = real_idx_count l - 1 := by
    omega
  rw [hmod]

theorem real_idx_count_pos (h : obj_should_use_cards l = true) : 1 ≤ real_idx_count l := by
  rw [obj_should_use_cards, Bool.and_eq_true, decide_eq_true_eq] at h
  have hitems := (l.has_items h.1 h.2).2
  unfold real_idx_count
  rw [Nat.le_div_iff_mul_le l.itemsize_pos]
  omega

/-- The card bytes of an object come before the base byte of the next one. -/
theorem card_lock_lt (obj : ℕ) {c : ℕ} (h : obj_should_use_cards l = true) (hc : c ∈ card_indices l) :
    get_write_lock_idx obj + c < get_write_lock_idx (obj + l.size) := by
  have hpos := real_idx_count_pos h
  rw [mem_card_indices, last_card_index_eq hpos] at hc
  have hle : real_idx_count l ≤ l.size - l.card_base := Nat.div_le_self _ _
  rw [obj_should_use_cards, Bool.and_eq_true, decide_eq_true_eq] at h
  have hsize := h.2
  unfold STM_MIN_CARD_OBJ_SIZE CARD_SIZE STM_MIN_CARD_COUNT at hsize
  unfold get_write_lock_idx
  omega

/-- The offsets that belong to a card. -/
def in_card (l : Layout) (c off : ℕ) : Prop :=
  l.card_base + get_card_index_to_index c * l.card_itemsize ≤ off
    ∧ off < l.card_base + get_card_index_to_index (c + 1) * l.card_itemsize ∧ off < l.size

theorem get_card_index_to_index_mono {c d : ℕ} (h : c ≤ d) :
    get_card_index_to_index c * l.card_itemsize ≤ get_card_index_to_index d * l.card_itemsize := by
  unfold get_card_index_to_index
  exact Nat.mul_le_mul_right _ (Nat.mul_le_mul_right _ (by omega))

/-- Consecutive cards cover what lies between their ends. -/
theorem exists_in_card {c₀ off : ℕ} (n : ℕ)
    (h : l.card_base + get_card_index_to_index c₀ * l.card_itemsize ≤ off)
    (h' : off < l.card_base + get_card_index_to_index (c₀ + n) * l.card_itemsize)
    (hs : off < l.size) : ∃ c, c₀ ≤ c ∧ c < c₀ + n ∧ in_card l c off := by
  induction n with
  | zero =>
      rw [Nat.add_zero] at h'
      omega
  | succ n ih =>
      by_cases hlt : off < l.card_base + get_card_index_to_index (c₀ + n) * l.card_itemsize
      · obtain ⟨c, h1, h2, h3⟩ := ih hlt
        exact ⟨c, h1, by omega, h3⟩
      · exact ⟨c₀ + n, by omega, by omega, by omega, h', hs⟩

/-! ## Loops over the card bytes -/

theorem map_cards_eq (f : ℕ → ℕ) (wl : ℕ → ℕ) (obj : ℕ) (i : ℕ) :
    map_cards f wl obj l i =
      if ∃ c ∈ card_indices l, i = get_write_lock_idx obj + c then f (wl i) else wl i := by
  unfold map_cards
  generalize hlst : card_indices l = lst
  have hnd : lst.Nodup := hlst ▸ List.nodup_range'
  clear hlst
  induction lst generalizing wl with
  | nil => simp
  | cons c lst ih =>
      rw [List.nodup_cons] at hnd
      rw [List.foldl_cons, ih _ hnd.2]
      by_cases hi : i = get_write_lock_idx obj + c
      · -- the other cards have other bytes
        have hout : ¬ ∃ d ∈ lst, i = get_write_lock_idx obj + d := by
          rintro ⟨d, hd, hid⟩
          have hcd : c = d := by omega
          exact hnd.1 (hcd ▸ hd)
        have hin : ∃ d ∈ c :: lst, i = get_write_lock_idx obj + d := ⟨c, by simp, hi⟩
        rw [if_neg hout, if_pos hin, hi, Function.update_self]
      · rw [Function.update_of_ne hi]
        simp only [List.mem_cons, exists_eq_or_imp, hi, false_or]

theorem map_cards_of_card (f : ℕ → ℕ) (wl : ℕ → ℕ) (obj : ℕ) {c : ℕ} (hc : c ∈ card_indices l) :
    map_cards f wl obj l (get_write_lock_idx obj + c) = f (wl (get_write_lock_idx obj + c)) := by
  rw [map_cards_eq, if_pos ⟨c, hc, rfl⟩]

theorem map_cards_of_ne (f : ℕ → ℕ) (wl : ℕ → ℕ) (obj : ℕ) {i : ℕ}
    (hi : ∀ c ∈ card_indices l, i ≠ get_write_lock_idx obj + c) :
    map_cards f wl obj l i = wl i := by
  rw [map_cards_eq, if_neg]
  rintro ⟨c, hc, h⟩
  exact hi c hc h

/-! ## Copying cards -/

theorem has_private_page_in_range_false {m : Memory} {i start size a : ℕ}
    (h : has_private_page_in_range m i start size = false) (ha : start ≤ a ∧ a < start + size) :
    is_private_page m i (a / 4096) = false := by
  unfold has_private_page_in_range at h
  rw [List.any_eq_false] at h
  have hmem : a / 4096 ∈ List.range' (start / 4096)
      ((start + size) / 4096 - start / 4096 + 1) := by
    rw [List.mem_range'_1]
    omega
  exact Bool.not_eq_true _ ▸ h _ hmem

variable {NB_SEGMENTS myself obj : ℕ} {m m' : Memory}

/-- The bytes that one call of `copy_cards` copies. -/
def cards_range (obj : ℕ) (l : Layout) (c₀ c₁ a : ℕ) : Prop :=
  obj + (l.card_base + get_card_index_to_index c₀ * l.card_itemsize) ≤ a
    ∧ a < obj + (l.card_base + get_card_index_to_index c₁ * l.card_itemsize) ∧ a < obj + l.size

theorem cards_range_iff {c₀ c₁ a : ℕ} (h : c₀ ≤ c₁) :
    cards_range obj l c₀ c₁ a ↔ ∃ c, c₀ ≤ c ∧ c < c₁ ∧ obj ≤ a ∧ in_card l c (a - obj) := by
  constructor
  · rintro ⟨h1, h2, h3⟩
    obtain ⟨n, rfl⟩ := Nat.exists_eq_add_of_le h
    have hlo : l.card_base + get_card_index_to_index c₀ * l.card_itemsize ≤ a - obj := by
      omega
    obtain ⟨c, hc, hc', hin⟩ := exists_in_card n hlo (by omega) (by omega)
    exact ⟨c, hc, hc', by omega, hin⟩
  · rintro ⟨c, hc, hc', ha, h1, h2, h3⟩
    have hlo := get_card_index_to_index_mono (l := l) hc
    have hhi := get_card_index_to_index_mono (l := l) (show c + 1 ≤ c₁ from hc')
    exact ⟨by omega, by omega, by omega⟩

/-- What `copy_cards` does when it does not fail. -/
theorem copy_cards_pushed {c₀ c₁ : ℕ}
    (h : copy_cards NB_SEGMENTS m myself obj l c₀ c₁ = some m') :
    Pushed NB_SEGMENTS myself (cards_range obj l c₀ c₁) m m' := by
  unfold copy_cards at h
  simp only [c_assert, Option.bind_eq_bind, Option.pure_def] at h
  generalize hnext : (if l.card_base + get_card_index_to_index c₁ * l.card_itemsize > l.size
    then l.size else l.card_base + get_card_index_to_index c₁ * l.card_itemsize) = next at h
  by_cases hpos : next - (l.card_base + get_card_index_to_index c₀ * l.card_itemsize) > 0
  · rw [if_pos hpos] at h
    by_cases hpriv : has_private_page_in_range m myself
        (obj + (l.card_base + get_card_index_to_index c₀ * l.card_itemsize))
        (next - (l.card_base + get_card_index_to_index c₀ * l.card_itemsize)) = true
    · rw [if_pos hpriv] at h
      simp only [Option.bind_some, Option.some.injEq] at h
      rw [← h]
      refine (DiffuseInv.start.diffuse
        (fun m i ht a ha => has_private_page_in_range_false ht ha)).congr (fun a => ?_)
      unfold cards_range
      by_cases hgt : l.card_base + get_card_index_to_index c₁ * l.card_itemsize > l.size
      · rw [if_pos hgt] at hnext
        omega
      · rw [if_neg hgt] at hnext
        omega
    · rw [if_neg hpriv] at h
      simp at h
  · rw [if_neg hpos] at h
    simp at h

/-! ## `_card_wise_synchronize_object_now` -/

/-- The addresses of the cards from 1 up to `k` that are marked old. -/
def old_cards (write_locks : ℕ → ℕ) (obj : ℕ) (l : Layout) (k a : ℕ) : Prop :=
  ∃ c, 1 ≤ c ∧ c < k ∧ write_locks (get_write_lock_idx obj + c) = CARD_MARKED_OLD
    ∧ obj ≤ a ∧ in_card l c (a - obj)

/-- The loop before the turn of card `k`: the old cards before it are copied,
except those of the run that starts at `start_card_index`. -/
structure CardSyncInv (NB_SEGMENTS myself obj : ℕ) (l : Layout) (m₀ : Memory) (wl₀ : ℕ → ℕ)
    (k : ℕ) (s : CardSync) : Prop where
  copied : Pushed NB_SEGMENTS myself
    (fun a => old_cards wl₀ obj l (s.start_card_index.getD k) a) m₀ s.mem
  valid : ∀ c, 1 ≤ c → c < k → wl₀ (get_write_lock_idx obj + c) = CARD_MARKED_OLD
    ∨ wl₀ (get_write_lock_idx obj + c) = CARD_CLEAR
  run : ∀ c₀, s.start_card_index = some c₀ → 1 ≤ c₀ ∧ c₀ < k
    ∧ ∀ c, c₀ ≤ c → c < k → wl₀ (get_write_lock_idx obj + c) = CARD_MARKED_OLD
  cleared : ∀ c, 1 ≤ c → c < k → s.write_locks (get_write_lock_idx obj + c) = CARD_CLEAR
  others : ∀ x, (∀ c, 1 ≤ c → c < k → x ≠ get_write_lock_idx obj + c) → s.write_locks x = wl₀ x
  all_cleared : s.all_cards_were_cleared = true ↔
    ∀ c, 1 ≤ c → c < k → wl₀ (get_write_lock_idx obj + c) = CARD_CLEAR

variable {m₀ : Memory} {wl₀ : ℕ → ℕ} {k : ℕ} {s : CardSync}

theorem CardSyncInv.init :
    CardSyncInv NB_SEGMENTS myself obj l m₀ wl₀ 1
      { mem := m₀, write_locks := wl₀, start_card_index := none,
        all_cards_were_cleared := true } where
  copied := by
    refine (Pushed.refl m₀).congr (fun a => ?_)
    constructor
    · exact False.elim
    · rintro ⟨c, hc, hc', -⟩
      dsimp only [Option.getD_none] at hc'
      omega
  valid c hc hc' := by omega
  run c₀ h := by
    dsimp only at h
    exact absurd h (by simp)
  cleared c hc hc' := by omega
  others x _ := rfl
  all_cleared := by
    constructor
    · intro _ c hc hc'
      omega
    · exact fun _ => rfl

/-- An old card joins the run. -/
theorem CardSyncInv.mark (h : CardSyncInv NB_SEGMENTS myself obj l m₀ wl₀ k s) (hk : 1 ≤ k)
    (hold : wl₀ (get_write_lock_idx obj + k) = CARD_MARKED_OLD) :
    CardSyncInv NB_SEGMENTS myself obj l m₀ wl₀ (k + 1)
      { s with
        write_locks := Function.update s.write_locks (get_write_lock_idx obj + k) CARD_CLEAR
        start_card_index := some (s.start_card_index.getD k)
        all_cards_were_cleared := false } where
  copied := h.copied
  valid c hc hc' := by
    by_cases hck : c = k
    · rw [hck]
      exact .inl hold
    · exact h.valid c hc (by omega)
  run c₀ hc₀ := by
    rw [Option.some.injEq] at hc₀
    cases hstart : s.start_card_index with
    | none =>
        rw [hstart, Option.getD_none] at hc₀
        refine ⟨by omega, by omega, fun c hc hc' => ?_⟩
        have hck : c = k := by omega
        rw [hck]
        exact hold
    | some c₁ =>
        rw [hstart, Option.getD_some] at hc₀
        obtain ⟨h1, h2, h3⟩ := h.run c₁ hstart
        refine ⟨by omega, by omega, fun c hc hc' => ?_⟩
        by_cases hck : c = k
        · rw [hck]
          exact hold
        · exact h3 c (by omega) (by omega)
  cleared c hc hc' := by
    dsimp only
    by_cases hck : c = k
    · rw [hck, Function.update_self]
    · rw [Function.update_of_ne (by omega)]
      exact h.cleared c hc (by omega)
  others x hx := by
    dsimp only
    rw [Function.update_of_ne (hx k hk (by omega))]
    exact h.others x (fun c hc hc' => hx c hc (by omega))
  all_cleared := by
    constructor
    · intro hf
      cases hf
    · intro hall
      have hclear := hall k hk (by omega)
      rw [hold] at hclear
      cases hclear

/-- The run is copied. -/
theorem CardSyncInv.flush (h : CardSyncInv NB_SEGMENTS myself obj l m₀ wl₀ k s)
    (hself : myself ≤ NB_SEGMENTS) {c₀ : ℕ} (hstart : s.start_card_index = some c₀)
    (hcopy : copy_cards NB_SEGMENTS s.mem myself obj l c₀ k = some m') :
    CardSyncInv NB_SEGMENTS myself obj l m₀ wl₀ k
      { s with mem := m', start_card_index := none } where
  copied := by
    obtain ⟨h1, h2, h3⟩ := h.run c₀ hstart
    have hcopied := h.copied
    rw [hstart, Option.getD_some] at hcopied
    refine (hcopied.trans hself (copy_cards_pushed hcopy)).congr (fun a => ?_)
    rw [cards_range_iff (by omega)]
    dsimp only [Option.getD_none]
    constructor
    · rintro (⟨c, hc, hc', hin⟩ | ⟨c, hc, hc', hin⟩)
      · exact ⟨c, hc, by omega, hin⟩
      · exact ⟨c, by omega, hc', h3 c hc hc', hin⟩
    · rintro ⟨c, hc, hc', hold, hin⟩
      by_cases hlt : c < c₀
      · exact .inl ⟨c, hc, hlt, hold, hin⟩
      · exact .inr ⟨c, by omega, hc', hin⟩
  valid := h.valid
  run c₁ h1 := absurd h1 (by simp)
  cleared := h.cleared
  others := h.others
  all_cleared := h.all_cleared

/-- A clear card; no run reaches up to it. -/
theorem CardSyncInv.skip (h : CardSyncInv NB_SEGMENTS myself obj l m₀ wl₀ k s)
    (hclear : wl₀ (get_write_lock_idx obj + k) = CARD_CLEAR) (hstart : s.start_card_index = none) :
    CardSyncInv NB_SEGMENTS myself obj l m₀ wl₀ (k + 1) s where
  copied := by
    have hcopied := h.copied
    rw [hstart, Option.getD_none] at hcopied
    refine hcopied.congr (fun a => ?_)
    rw [hstart, Option.getD_none]
    constructor
    · rintro ⟨c, hc, hc', hin⟩
      exact ⟨c, hc, by omega, hin⟩
    · rintro ⟨c, hc, hc', hold, hin⟩
      by_cases hck : c = k
      · rw [hck, hclear] at hold
        cases hold
      · exact ⟨c, hc, by omega, hold, hin⟩
  valid c hc hc' := by
    by_cases hck : c = k
    · rw [hck]
      exact .inr hclear
    · exact h.valid c hc (by omega)
  run c₀ hc₀ := by
    rw [hstart] at hc₀
    cases hc₀
  cleared c hc hc' := by
    by_cases hck : c = k
    · rw [hck, h.others _ (fun d _ _ => by omega), hclear]
    · exact h.cleared c hc (by omega)
  others x hx := h.others x (fun c hc hc' => hx c hc (by omega))
  all_cleared := by
    rw [h.all_cleared]
    constructor
    · intro hall c hc hc'
      by_cases hck : c = k
      · rw [hck, hclear]
      · exact hall c hc (by omega)
    · intro hall c hc hc'
      exact hall c hc (by omega)

theorem CardSyncInv.turn {s' : CardSync} (hself : myself ≤ NB_SEGMENTS) (hk : 1 ≤ k)
    (h : CardSyncInv NB_SEGMENTS myself obj l m₀ wl₀ k s ∧
      (k = last_card_index l + 1 → s.start_card_index = none))
    (hturn : card_wise_turn NB_SEGMENTS myself obj l s k = some s') :
    CardSyncInv NB_SEGMENTS myself obj l m₀ wl₀ (k + 1) s' ∧
      (k + 1 = last_card_index l + 1 → s'.start_card_index = none) := by
  obtain ⟨h, -⟩ := h
  have hval : s.write_locks (get_write_lock_idx obj + k) = wl₀ (get_write_lock_idx obj + k) :=
    h.others _ (fun c _ _ => by omega)
  unfold card_wise_turn at hturn
  simp only [c_assert, Option.bind_eq_bind, Option.pure_def] at hturn
  rw [hval] at hturn
  by_cases hold : wl₀ (get_write_lock_idx obj + k) = CARD_MARKED_OLD
  · have hmark := h.mark hk hold
    simp only [hold, true_or, if_true, Option.bind_some, ne_eq, not_true, false_or] at hturn
    by_cases hlast : k = last_card_index l
    · -- the last card of the object ends the run
      rw [if_pos hlast, Option.bind_eq_some_iff] at hturn
      obtain ⟨m', hcopy, hs'⟩ := hturn
      rw [Option.some.injEq] at hs'
      rw [← hs']
      exact ⟨hmark.flush hself rfl hcopy, fun _ => rfl⟩
    · rw [if_neg hlast, Option.some.injEq] at hturn
      rw [← hturn]
      exact ⟨hmark, fun hk' => absurd (Nat.succ.inj hk') hlast⟩
  · by_cases hclear : wl₀ (get_write_lock_idx obj + k) = CARD_CLEAR
    · simp only [hclear, or_true, if_true, Option.bind_some] at hturn
      rw [if_neg (by decide)] at hturn
      cases hstart : s.start_card_index with
      | none =>
          rw [hstart, Option.some.injEq] at hturn
          rw [← hturn]
          exact ⟨h.skip hclear hstart, fun _ => hstart⟩
      | some c₀ =>
          simp only [hstart] at hturn
          rw [if_pos (.inl (by decide)), if_neg (by decide), Option.bind_eq_some_iff] at hturn
          obtain ⟨m', hcopy, hs'⟩ := hturn
          rw [Option.some.injEq] at hs'
          rw [← hs']
          exact ⟨(h.flush hself hstart hcopy).skip hclear rfl, fun _ => rfl⟩
    · simp only [hold, hclear, or_self, if_false, Option.bind_none] at hturn
      cases hturn

theorem card_wise_loop_spec (hself : myself ≤ NB_SEGMENTS)
    (h : (card_indices l).foldlM (card_wise_turn NB_SEGMENTS myself obj l)
      { mem := m₀, write_locks := wl₀, start_card_index := none,
        all_cards_were_cleared := true } = some s) :
    CardSyncInv NB_SEGMENTS myself obj l m₀ wl₀ (last_card_index l + 1) s
      ∧ s.start_card_index = none := by
  have hend := foldlM_range'_some (fun k s => CardSyncInv NB_SEGMENTS myself obj l m₀ wl₀ k s ∧
      (k = last_card_index l + 1 → s.start_card_index = none))
    (fun k s s' hk _ hinv hturn => CardSyncInv.turn hself hk hinv hturn)
    ⟨CardSyncInv.init, fun _ => rfl⟩ h
  rw [Nat.add_comm] at hend
  exact ⟨hend.1, hend.2 rfl⟩

/-- The two cases in which the object is copied page after page after all. -/
def assumed_fully_marked (write_locks : ℕ → ℕ) (obj : ℕ) (l : Layout) : Prop :=
  write_locks (get_write_lock_idx obj + 1) = CARD_MARKED_OLD
    ∧ write_locks (get_write_lock_idx obj + last_card_index l) = CARD_MARKED_OLD
    ∧ write_locks (get_write_lock_idx obj + (last_card_index l / 2 + 1)) = CARD_MARKED_OLD

def all_cards_cleared (write_locks : ℕ → ℕ) (obj : ℕ) (l : Layout) : Prop :=
  ∀ c ∈ card_indices l, write_locks (get_write_lock_idx obj + c) = CARD_CLEAR

def cards_valid (write_locks : ℕ → ℕ) (obj : ℕ) (l : Layout) : Prop :=
  ∀ c ∈ card_indices l, write_locks (get_write_lock_idx obj + c) = CARD_MARKED_OLD
    ∨ write_locks (get_write_lock_idx obj + c) = CARD_CLEAR

/-- The addresses that `synchronize_object_now` copies. -/
def synchronized_range (write_locks : ℕ → ℕ) (obj : ℕ) (l : Layout) (ignore_cards : Bool)
    (a : ℕ) : Prop :=
  (obj ≤ a ∧ a < obj + l.size) ∧ ((ignore_cards || !obj_should_use_cards l) = true
    ∨ assumed_fully_marked write_locks obj l ∨ all_cards_cleared write_locks obj l
    ∨ old_cards write_locks obj l (last_card_index l + 1) a)

/-- What remains of the card bytes of an object after it was synchronized. -/
structure CardsCleared (obj : ℕ) (l : Layout) (wl wl' : ℕ → ℕ) : Prop where
  cleared : ∀ c ∈ card_indices l, wl' (get_write_lock_idx obj + c) = CARD_CLEAR
  others : ∀ x, (∀ c ∈ card_indices l, x ≠ get_write_lock_idx obj + c) → wl' x = wl x

theorem reset_object_cards_cleared (wl : ℕ → ℕ) :
    CardsCleared obj l wl (reset_object_cards wl obj l CARD_CLEAR false) where
  cleared c hc := by
    rw [reset_object_cards, map_cards_of_card _ _ _ hc]
    by_cases hne : wl (get_write_lock_idx obj + c) ≠ CARD_CLEAR
    · rw [if_pos (.inr hne)]
    · rw [if_neg (by simpa using hne)]
      exact not_not.mp hne
  others x hx := map_cards_of_ne _ _ _ hx

theorem old_cards_le {wl : ℕ → ℕ} {a : ℕ} (h : old_cards wl obj l k a) :
    obj ≤ a ∧ a < obj + l.size := by
  obtain ⟨c, -, -, -, ha, -, -, hs⟩ := h
  omega

theorem card_wise_synchronize_object_now_spec {wl wl' : ℕ → ℕ} (hself : myself ≤ NB_SEGMENTS)
    (hcards : obj_should_use_cards l = true)
    (h : card_wise_synchronize_object_now NB_SEGMENTS m wl myself obj l = some (m', wl')) :
    Pushed NB_SEGMENTS myself (synchronized_range wl obj l false) m m'
      ∧ CardsCleared obj l wl wl' ∧ (assumed_fully_marked wl obj l ∨ cards_valid wl obj l) := by
  have hsize := l.size_pos
  have hwhole : ∀ m₁, Pushed NB_SEGMENTS myself (fun a => obj ≤ a ∧ a < obj + l.size) m₁
      (page_wise_synchronize_object_now NB_SEGMENTS m₁ myself obj l.size) :=
    fun _ => page_wise_synchronize_object_now_spec hself (by omega)
  unfold card_wise_synchronize_object_now at h
  by_cases hheur : assumed_fully_marked wl obj l
  · unfold assumed_fully_marked at hheur
    rw [if_pos hheur, Option.some.injEq, Prod.mk.injEq] at h
    obtain ⟨hm, hwl⟩ := h
    rw [← hm, ← hwl]
    refine ⟨(hwhole m).congr (fun a => ?_), reset_object_cards_cleared wl, .inl hheur⟩
    exact ⟨fun ha => ⟨ha, .inr (.inl hheur)⟩, fun ha => ha.1⟩
  · have hheur' := hheur
    unfold assumed_fully_marked at hheur'
    rw [if_neg hheur', Option.bind_eq_bind, Option.bind_eq_some_iff] at h
    obtain ⟨s, hloop, h⟩ := h
    obtain ⟨hinv, hstart⟩ := card_wise_loop_spec hself hloop
    have hcopied := hinv.copied
    rw [hstart, Option.getD_none] at hcopied
    have hclr : CardsCleared obj l wl s.write_locks := by
      refine ⟨fun c hc => ?_, fun x hx => ?_⟩
      · rw [mem_card_indices] at hc
        exact hinv.cleared c hc.1 (by omega)
      · exact hinv.others x (fun c hc hc' => hx c (mem_card_indices.mpr ⟨hc, by omega⟩))
    have hvalid : cards_valid wl obj l := by
      intro c hc
      rw [mem_card_indices] at hc
      exact hinv.valid c hc.1 (by omega)
    have hall : s.all_cards_were_cleared = true ↔ all_cards_cleared wl obj l := by
      rw [hinv.all_cleared]
      unfold all_cards_cleared
      simp only [mem_card_indices]
      constructor
      · intro ha c hc
        exact ha c hc.1 (by omega)
      · intro ha c hc hc'
        exact ha c ⟨hc, by omega⟩
    by_cases hac : s.all_cards_were_cleared = true
    · -- nothing was copied so far
      rw [if_pos hac, Option.pure_def, Option.some.injEq, Prod.mk.injEq] at h
      obtain ⟨hm, hwl⟩ := h
      rw [← hm, ← hwl]
      refine ⟨(hcopied.trans hself (hwhole s.mem)).congr (fun a => ?_), hclr, .inr hvalid⟩
      constructor
      · rintro (hold | ha)
        · exact ⟨old_cards_le hold, .inr (.inr (.inr hold))⟩
        · exact ⟨ha, .inr (.inr (.inl (hall.mp hac)))⟩
      · exact fun ha => .inr ha.1
    · rw [if_neg hac, Option.pure_def, Option.some.injEq, Prod.mk.injEq] at h
      obtain ⟨hm, hwl⟩ := h
      rw [← hm, ← hwl]
      refine ⟨hcopied.congr (fun a => ?_), hclr, .inr hvalid⟩
      constructor
      · exact fun hold => ⟨old_cards_le hold, .inr (.inr (.inr hold))⟩
      · rintro ⟨-, hig | hfull | hclear | hold⟩
        · simp [hcards] at hig
        · exact absurd hfull hheur
        · exact absurd (hall.mpr hclear) hac
        · exact hold

/-- `synchronize_object_now` shows the addresses of `synchronized_range` to all
segments as `myself` sees them, and changes nothing else; an object with cards
has them all clear afterwards. -/
theorem synchronize_object_now_spec {wl wl' : ℕ → ℕ} {ignore_cards : Bool}
    (hself : myself ≤ NB_SEGMENTS)
    (h : synchronize_object_now NB_SEGMENTS m wl myself obj l ignore_cards = some (m', wl')) :
    Pushed NB_SEGMENTS myself (synchronized_range wl obj l ignore_cards) m m' ∧
      ((ignore_cards || !obj_should_use_cards l) = true ∧ wl' = wl ∨
        (ignore_cards || !obj_should_use_cards l) = false ∧ CardsCleared obj l wl wl'
          ∧ (assumed_fully_marked wl obj l ∨ cards_valid wl obj l)) := by
  unfold synchronize_object_now at h
  by_cases hig : (ignore_cards || !obj_should_use_cards l) = true
  · rw [if_pos hig, Option.some.injEq, Prod.mk.injEq] at h
    obtain ⟨hm, hwl⟩ := h
    have hsize := l.size_pos
    refine ⟨?_, .inl ⟨hig, hwl.symm⟩⟩
    rw [← hm]
    refine (page_wise_synchronize_object_now_spec hself (by omega)).congr (fun a => ?_)
    exact ⟨fun ha => ⟨ha, .inl hig⟩, fun ha => ha.1⟩
  · rw [if_neg hig] at h
    rw [Bool.not_eq_true] at hig
    have hboth : ignore_cards = false ∧ obj_should_use_cards l = true := by
      simpa using hig
    obtain ⟨hpush, hclr⟩ := card_wise_synchronize_object_now_spec hself hboth.2 h
    rw [hboth.1]
    rw [hboth.1] at hig
    exact ⟨hpush, .inr ⟨hig, hclr⟩⟩

end

end Stmgc.C7
