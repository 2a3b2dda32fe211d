/-
The invariant of the machine of `Transaction`.

Most of it is about one object at a time: who owns its write lock and what is
in its card bytes ([`LockInv`]), what the segments see of it ([`ViewInv`]), and
which of its bytes may differ from the shared ones ([`MarkInv`]). A step keeps
it for an object that it does not touch ([`ObjInv.same`]), because objects
share neither bytes nor lock bytes. The rest is about the lists of one segment
([`ListInv`]).

`cards` says whether the objects that use cards are to be coherent too. That
needs a condition on the commits, so it is a parameter.
-/
import Stmgc.C7.Transaction

namespace Stmgc.C7

open Stmgc.Lib

/-! ## The bytes of `write_locks` -/

/-- The base byte of an object, and its card bytes. -/
def lock_of (obj : ℕ) (l : Layout) (x : ℕ) : Prop :=
  x = get_write_lock_idx obj ∨
    obj_should_use_cards l = true ∧ ∃ c ∈ card_indices l, x = get_write_lock_idx obj + c

theorem lock_of_lt {obj x : ℕ} {l : Layout} (h : lock_of obj l x) :
    get_write_lock_idx obj ≤ x ∧ x < get_write_lock_idx (obj + l.size) := by
  rcases h with hx | ⟨hcards, c, hc, hx⟩
  · have hsize := l.size_pos
    rw [hx]
    unfold get_write_lock_idx
    omega
  · have hlt := card_lock_lt obj hcards hc
    omega

/-- Objects that do not overlap have different lock bytes. -/
theorem lock_of_apart {o o' x : ℕ} {l l' : Layout} (h : o + l.size ≤ o' ∨ o' + l'.size ≤ o)
    (hx : lock_of o l x) : ¬ lock_of o' l' x := by
  intro hx'
  have h1 := lock_of_lt hx
  have h2 := lock_of_lt hx'
  rcases h with h | h
  · have : get_write_lock_idx (o + l.size) ≤ get_write_lock_idx o' := Nat.div_le_div_right h
    omega
  · have : get_write_lock_idx (o' + l'.size) ≤ get_write_lock_idx o := Nat.div_le_div_right h
    omega

theorem lock_of_base (o : ℕ) (l : Layout) : lock_of o l (get_write_lock_idx o) := .inl rfl

theorem lock_of_card {o c : ℕ} {l : Layout} (h : obj_should_use_cards l = true)
    (hc : c ∈ card_indices l) : lock_of o l (get_write_lock_idx o + c) := .inr ⟨h, c, hc, rfl⟩

theorem card_ne_base {o c : ℕ} {l : Layout} (hc : c ∈ card_indices l) :
    get_write_lock_idx o + c ≠ get_write_lock_idx o := by
  rw [mem_card_indices] at hc
  omega

/-! ## One object -/

/-- The items of `modified_old_objects` that are not reset yet. -/
def remaining (seg : Segment) : List ℕ :=
  match seg.pc with
  | .resetting todo => seg.modified_old_objects.take todo
  | _ => seg.modified_old_objects

/-- The pages of an object that are still to be privatized. -/
def pending (seg : Segment) (o : ℕ) : List ℕ :=
  match seg.pc with
  | .privatizing obj _ pages => if obj = o then pages else []
  | _ => []

/-- The segment is in the middle of `reset_modified_from_other_segments`. -/
def Pc.is_resetting : Pc → Bool
  | .resetting _ => true
  | _ => false

/-- The address is one of the object. -/
def in_object (s : St) (o a : ℕ) : Prop := o ≤ a ∧ a < o + (s.layout o).size

/-- Who owns the lock of an object, and when its cards are clear. -/
structure LockInv (s : St) (o : ℕ) : Prop where
  owner : ∀ i, o ∈ remaining (s.segs i) → s.write_locks (get_write_lock_idx o) = i
  free : (∀ i, o ∉ remaining (s.segs i)) → s.write_locks (get_write_lock_idx o) = 0
  cards_clear : obj_should_use_cards (s.layout o) = true → (∀ i, o ∉ remaining (s.segs i)) →
    (∀ i, o ∈ (s.segs i).large_overflow_objects →
      (s.segs i).pc.is_resetting = true ∨ has_flag s.mem i o GCFLAG_CARDS_SET = false) →
    all_cards_cleared s.write_locks o (s.layout o)
  listed : ∀ i, o ∈ (s.segs i).large_overflow_objects →
    has_flag s.mem i o GCFLAG_CARDS_SET = true → o ∈ (s.segs i).old_objects_with_cards
  uses : ∀ i, o ∈ remaining (s.segs i) ∨ o ∈ (s.segs i).large_overflow_objects →
    has_flag s.mem i o GCFLAG_CARDS_SET = true → obj_should_use_cards (s.layout o) = true
  overflow_cards : ∀ i, o ∈ (s.segs i).large_overflow_objects →
    obj_should_use_cards (s.layout o) = true → ∀ c ∈ card_indices (s.layout o),
      s.write_locks (get_write_lock_idx o + c) = CARD_CLEAR
        ∨ s.write_locks (get_write_lock_idx o + c) = CARD_MARKED

/-- All segments see the object as segment `i` does, and it is clean. -/
def seen_by_all (NB_SEGMENTS : ℕ) (s : St) (i o : ℕ) : Prop :=
  clean_flags (read s.mem i o) ∧
    ∀ j ≤ NB_SEGMENTS, ∀ a, in_object s o a → read s.mem j a = read s.mem i a

/-- What the segments see of an object. -/
structure ViewInv (NB_SEGMENTS : ℕ) (cards : Bool) (s : St) (o : ℕ) : Prop where
  private_pages : ∀ i, o ∈ remaining (s.segs i) → ∀ p ∈ object_pages o (s.layout o),
    p ∉ pending (s.segs i) o → is_private_page s.mem i p = true
  flags : s.kind o = .old → ∀ i ≤ NB_SEGMENTS, o ∉ remaining (s.segs i) →
    clean_flags (read s.mem i o)
  coherent : s.kind o = .old → (obj_should_use_cards (s.layout o) = true → cards = true) →
    ∀ i ≤ NB_SEGMENTS, o ∉ remaining (s.segs i) → ∀ a, in_object s o a →
      read s.mem i a = read s.mem 0 a
  pushed : ∀ i, (s.segs i).pc = .pushed → o ∈ (s.segs i).large_overflow_objects →
    seen_by_all NB_SEGMENTS s i o

/-- The cards have all been marked. -/
def all_cards_marked (write_locks : ℕ → ℕ) (obj : ℕ) (l : Layout) : Prop :=
  ∀ c ∈ card_indices l, write_locks (get_write_lock_idx obj + c) ≠ CARD_CLEAR

/-- What segment `i` has changed in an object with cards is in marked cards,
if it was written to through `stm_write_card` alone. -/
structure MarkInv (s : St) (i o : ℕ) : Prop where
  flags : other_flags (read s.mem i o) = other_flags (read s.mem 0 o)
  marked : o ∈ (s.segs i).written ∨ all_cards_marked s.write_locks o (s.layout o) ∨
    has_flag s.mem i o GCFLAG_WRITE_BARRIER = true ∧ ∀ a, in_object s o a → a ≠ o →
      read s.mem i a ≠ read s.mem 0 a → ∃ c ∈ card_indices (s.layout o),
        s.write_locks (get_write_lock_idx o + c) ≠ CARD_CLEAR ∧ in_card (s.layout o) c (a - o)

structure ObjInv (NB_SEGMENTS : ℕ) (cards : Bool) (s : St) (o : ℕ) : Prop where
  locks : LockInv s o
  views : ViewInv NB_SEGMENTS cards s o
  marks : cards = true → obj_should_use_cards (s.layout o) = true → ∀ i,
    o ∈ remaining (s.segs i) → MarkInv s i o

/-- An object that is in no list of a transaction. -/
theorem ObjInv.of_unlisted {NB_SEGMENTS : ℕ} {cards : Bool} {s : St} {o : ℕ}
    (hrem : ∀ i, o ∉ remaining (s.segs i)) (hov : ∀ i, o ∉ (s.segs i).large_overflow_objects)
    (hbase : s.write_locks (get_write_lock_idx o) = 0)
    (hcards : obj_should_use_cards (s.layout o) = true →
      all_cards_cleared s.write_locks o (s.layout o))
    (hflags : s.kind o = .old → ∀ j ≤ NB_SEGMENTS, clean_flags (read s.mem j o))
    (hcoherent : s.kind o = .old → (obj_should_use_cards (s.layout o) = true → cards = true) →
      ∀ j ≤ NB_SEGMENTS, ∀ a, in_object s o a → read s.mem j a = read s.mem 0 a) :
    ObjInv NB_SEGMENTS cards s o where
  locks :=
    { owner := fun i hi => absurd hi (hrem i)
      free := fun _ => hbase
      cards_clear := fun hc _ _ => hcards hc
      listed := fun i hi => absurd hi (hov i)
      uses := fun i hi => hi.elim (fun hm => absurd hm (hrem i)) (fun hm => absurd hm (hov i))
      overflow_cards := fun i hi => absurd hi (hov i) }
  views :=
    { private_pages := fun i hi => absurd hi (hrem i)
      flags := fun hk j hj _ => hflags hk j hj
      coherent := fun hk hc j hj _ => hcoherent hk hc j hj
      pushed := fun i _ hi => absurd hi (hov i) }
  marks _ _ i hi := absurd hi (hrem i)

/-! ## Steps that do not touch an object -/

/-- The lists of a segment are the same as far as `o` is concerned. -/
structure SameLists (o : ℕ) (seg seg' : Segment) : Prop where
  remaining : o ∈ remaining seg' ↔ o ∈ remaining seg
  pending : pending seg' o = pending seg o
  overflow : o ∈ seg'.large_overflow_objects ↔ o ∈ seg.large_overflow_objects
  cards : o ∈ seg.large_overflow_objects → o ∈ seg.old_objects_with_cards →
    o ∈ seg'.old_objects_with_cards
  written : o ∈ C7.remaining seg → o ∈ seg.written → o ∈ seg'.written
  pushed : o ∈ seg.large_overflow_objects → seg'.pc = .pushed → seg.pc = .pushed
  resetting : o ∈ seg.large_overflow_objects → seg'.pc.is_resetting = true →
    seg.pc.is_resetting = true

theorem SameLists.refl (o : ℕ) (seg : Segment) : SameLists o seg seg where
  remaining := Iff.rfl
  pending := rfl
  overflow := Iff.rfl
  cards _ h := h
  written _ h := h
  pushed _ h := h
  resetting _ h := h

/-- A step that does not touch the object `o`. -/
structure Same (s s' : St) (o : ℕ) : Prop where
  kind : s'.kind o = s.kind o
  layout : s'.layout o = s.layout o
  views : ∀ j a, in_object s o a → read s'.mem j a = read s.mem j a
  private_pages : ∀ j, o ∈ remaining (s.segs j) → ∀ p ∈ object_pages o (s.layout o),
    is_private_page s.mem j p = true → is_private_page s'.mem j p = true
  locks : ∀ x, lock_of o (s.layout o) x → s'.write_locks x = s.write_locks x
  lists : ∀ j, SameLists o (s.segs j) (s'.segs j)

section Same

variable {NB_SEGMENTS : ℕ} {cards : Bool} {s s' : St} {o : ℕ}

theorem in_object_self (s : St) (o : ℕ) : in_object s o o := by
  have hsize := (s.layout o).size_pos
  unfold in_object
  omega

theorem Same.in_object (h : Same s s' o) (a : ℕ) : in_object s' o a ↔ in_object s o a := by
  unfold C7.in_object
  rw [h.layout]

theorem Same.has_flag (h : Same s s' o) (i : ℕ) (f : UInt8) :
    has_flag s'.mem i o f = has_flag s.mem i o f := by
  unfold C7.has_flag
  rw [h.views i o (in_object_self s o)]

theorem Same.remaining (h : Same s s' o) (i : ℕ) :
    o ∈ remaining (s'.segs i) ↔ o ∈ remaining (s.segs i) := (h.lists i).remaining

theorem Same.notMem (h : Same s s' o) (hn : ∀ i, o ∉ C7.remaining (s'.segs i)) (i : ℕ) :
    o ∉ C7.remaining (s.segs i) := fun hm => hn i ((h.remaining i).mpr hm)

theorem Same.card (h : Same s s' o) (hcards : obj_should_use_cards (s.layout o) = true) {c : ℕ}
    (hc : c ∈ card_indices (s.layout o)) :
    s'.write_locks (get_write_lock_idx o + c) = s.write_locks (get_write_lock_idx o + c) :=
  h.locks _ (lock_of_card hcards hc)

theorem LockInv.same (h : LockInv s o) (hs : Same s s' o) : LockInv s' o where
  owner i hi := by
    rw [hs.locks _ (lock_of_base o _)]
    exact h.owner i ((hs.remaining i).mp hi)
  free hn := by
    rw [hs.locks _ (lock_of_base o _)]
    exact h.free (hs.notMem hn)
  cards_clear hc hn hov := by
    rw [hs.layout] at hc ⊢
    intro c hcm
    rw [hs.card hc hcm]
    refine h.cards_clear hc (hs.notMem hn) (fun i hi => ?_) c hcm
    rw [← hs.has_flag]
    exact (hov i ((hs.lists i).overflow.mpr hi)).imp_left ((hs.lists i).resetting hi)
  listed i hi hf := by
    rw [hs.has_flag] at hf
    have hi' := (hs.lists i).overflow.mp hi
    exact (hs.lists i).cards hi' (h.listed i hi' hf)
  uses i hi hf := by
    rw [hs.has_flag] at hf
    rw [hs.layout]
    exact h.uses i (hi.imp (hs.remaining i).mp (hs.lists i).overflow.mp) hf
  overflow_cards i hi hc c hcm := by
    rw [hs.layout] at hc hcm
    rw [hs.card hc hcm]
    exact h.overflow_cards i ((hs.lists i).overflow.mp hi) hc c hcm

theorem ViewInv.same (h : ViewInv NB_SEGMENTS cards s o) (hs : Same s s' o) :
    ViewInv NB_SEGMENTS cards s' o where
  private_pages i hi p hp hnp := by
    rw [hs.layout] at hp
    rw [(hs.lists i).pending] at hnp
    have hi' := (hs.remaining i).mp hi
    apply hs.private_pages i hi' p hp
    exact h.private_pages i hi' p hp hnp
  flags hk i hi hn := by
    rw [hs.views i o (in_object_self s o)]
    rw [hs.kind] at hk
    exact h.flags hk i hi (fun hm => hn ((hs.remaining i).mpr hm))
  coherent hk hc i hi hn a ha := by
    rw [hs.in_object] at ha
    rw [hs.kind] at hk
    rw [hs.layout] at hc
    rw [hs.views i a ha, hs.views 0 a ha]
    exact h.coherent hk hc i hi (fun hm => hn ((hs.remaining i).mpr hm)) a ha
  pushed i hpc hi := by
    have hi' := (hs.lists i).overflow.mp hi
    obtain ⟨hcl, heq⟩ := h.pushed i ((hs.lists i).pushed hi' hpc) hi'
    unfold seen_by_all
    rw [hs.views i o (in_object_self s o)]
    refine ⟨hcl, fun j hj a ha => ?_⟩
    rw [hs.in_object] at ha
    rw [hs.views j a ha, hs.views i a ha]
    exact heq j hj a ha

theorem MarkInv.same {i : ℕ} (h : MarkInv s i o) (hs : Same s s' o)
    (hcards : obj_should_use_cards (s.layout o) = true) (hi : o ∈ remaining (s.segs i)) :
    MarkInv s' i o where
  flags := by
    rw [hs.views i o (in_object_self s o), hs.views 0 o (in_object_self s o)]
    exact h.flags
  marked := by
    rcases h.marked with hw | hall | ⟨hwb, hd⟩
    · exact .inl ((hs.lists i).written hi hw)
    · refine .inr (.inl (fun c hc => ?_))
      rw [hs.layout] at hc
      rw [hs.card hcards hc]
      exact hall c hc
    · refine .inr (.inr ⟨by rw [hs.has_flag]; exact hwb, fun a ha hao hne => ?_⟩)
      rw [hs.in_object] at ha
      rw [hs.views i a ha, hs.views 0 a ha] at hne
      obtain ⟨c, hc, hcm, hin⟩ := hd a ha hao hne
      rw [hs.layout]
      exact ⟨c, hc, by rw [hs.card hcards hc]; exact hcm, hin⟩

theorem ObjInv.same (h : ObjInv NB_SEGMENTS cards s o) (hs : Same s s' o) :
    ObjInv NB_SEGMENTS cards s' o where
  locks := h.locks.same hs
  views := h.views.same hs
  marks hc hcards i hi := by
    rw [hs.layout] at hcards
    have hi' := (hs.remaining i).mp hi
    exact (h.marks hc hcards i hi').same hs hcards hi'

end Same

/-! ## The lists of a segment -/

structure ListInv (kind : ℕ → Kind) (layout : ℕ → Layout) (seg : Segment) (i : ℕ) : Prop where
  modified : ∀ o ∈ seg.modified_old_objects, kind o = .old
  nodup : seg.modified_old_objects.Nodup
  overflow : ∀ o ∈ seg.large_overflow_objects, kind o = .overflow i
  young : ∀ o ∈ seg.young_outside_nursery, kind o = .young i
  pointing : seg.pc.is_resetting = false → ∀ e ∈ seg.objects_pointing_to_nursery.getD [],
    e.2 = false ∧ (e.1 ∈ seg.modified_old_objects ∨ e.1 ∈ seg.large_overflow_objects) ∨
      e.2 = true ∧ kind e.1 = .overflow i ∧ e.1 ∉ seg.large_overflow_objects
  moved : ((seg.objects_pointing_to_nursery.getD []).filter (fun e => e.2)).Nodup
  cards : seg.pc.is_resetting = false → ∀ o ∈ seg.old_objects_with_cards,
    o ∈ seg.modified_old_objects ∨ o ∈ seg.large_overflow_objects
  todo : ∀ commit todo, seg.pc = .collect_modified commit todo →
    ∀ o ∈ todo, o ∈ seg.modified_old_objects
  privatizing : ∀ obj mark_card pages, seg.pc = .privatizing obj mark_card pages →
    obj ∈ seg.modified_old_objects ∧ ∀ c, mark_card = some c →
      obj_should_use_cards (layout obj) = true ∧ c ∈ card_indices (layout obj)

theorem ListInv.mono {kind kind' : ℕ → Kind} {layout layout' : ℕ → Layout} {seg : Segment} {i : ℕ}
    (h : ListInv kind layout seg i)
    (hk : ∀ o, kind o = .old ∨ kind o = .overflow i ∨ kind o = .young i → kind' o = kind o)
    (hl : ∀ o, kind o = .old → layout' o = layout o) : ListInv kind' layout' seg i where
  modified o ho := by
    have hold := h.modified o ho
    rw [hk o (.inl hold), hold]
  nodup := h.nodup
  overflow o ho := by
    have hov := h.overflow o ho
    rw [hk o (.inr (.inl hov)), hov]
  young o ho := by
    have hy := h.young o ho
    rw [hk o (.inr (.inr hy)), hy]
  pointing hr e he := by
    rcases h.pointing hr e he with hf | ⟨ht, hov, hn⟩
    · exact .inl hf
    · exact .inr ⟨ht, by rw [hk _ (.inr (.inl hov)), hov], hn⟩
  moved := h.moved
  cards := h.cards
  todo := h.todo
  privatizing obj mc pages hpc := by
    obtain ⟨hm, hc⟩ := h.privatizing obj mc pages hpc
    refine ⟨hm, fun c hcm => ?_⟩
    rw [hl obj (h.modified obj hm)]
    exact hc c hcm

theorem ListInv.initial (kind : ℕ → Kind) (layout : ℕ → Layout) (i : ℕ) :
    ListInv kind layout Segment.initial i := by
  constructor <;> simp [Segment.initial]

theorem mem_of_remaining {seg : Segment} {o : ℕ} (h : o ∈ remaining seg) :
    o ∈ seg.modified_old_objects := by
  unfold remaining at h
  split at h
  · exact List.mem_of_mem_take h
  · exact h

theorem remaining_eq {seg : Segment} (h : seg.pc.is_resetting = false) :
    remaining seg = seg.modified_old_objects := by
  unfold remaining
  split
  · rename_i hpc
    rw [hpc] at h
    cases h
  · rfl

theorem remaining_of_resetting {seg : Segment} {todo : ℕ} (h : seg.pc = .resetting todo) :
    remaining seg = seg.modified_old_objects.take todo := by
  unfold remaining
  rw [h]

/-! ## The whole state -/

structure Inv (NB_SEGMENTS : ℕ) (cards : Bool) (s : St) : Prop where
  apart : ∀ o o', s.kind o ≠ .free → s.kind o' ≠ .free → o < o' → o + (s.layout o).size ≤ o'
  locks_used : ∀ x, s.write_locks x ≠ 0 → ∃ o, s.kind o ≠ .free ∧ lock_of o (s.layout o) x
  absent : ∀ i, i ∉ segment_nums NB_SEGMENTS → s.segs i = Segment.initial
  lists : ∀ i, ListInv s.kind s.layout (s.segs i) i
  objs : ∀ o, s.kind o ≠ .free → ObjInv NB_SEGMENTS cards s o

section Inv

variable {NB_SEGMENTS : ℕ} {cards : Bool} {s s' : St} {i obj : ℕ}

theorem Inv.disjoint (h : Inv NB_SEGMENTS cards s) {o o' : ℕ} (ho : s.kind o ≠ .free)
    (ho' : s.kind o' ≠ .free) (hne : o ≠ o') :
    o + (s.layout o).size ≤ o' ∨ o' + (s.layout o').size ≤ o := by
  rcases Nat.lt_or_gt_of_ne hne with hlt | hgt
  · exact .inl (h.apart o o' ho ho' hlt)
  · exact .inr (h.apart o' o ho' ho hgt)

theorem Inv.old_of_modified (h : Inv NB_SEGMENTS cards s)
    (hm : obj ∈ (s.segs i).modified_old_objects) : s.kind obj = .old := (h.lists i).modified obj hm

theorem Inv.old_of_remaining (h : Inv NB_SEGMENTS cards s) (hm : obj ∈ remaining (s.segs i)) :
    s.kind obj = .old := h.old_of_modified (mem_of_remaining hm)

/-- An object is modified by at most one segment. -/
theorem Inv.owner_unique (h : Inv NB_SEGMENTS cards s) {j : ℕ}
    (hi : obj ∈ remaining (s.segs i)) (hj : obj ∈ remaining (s.segs j)) : j = i := by
  have hl := (h.objs obj (by rw [h.old_of_remaining hi]; decide)).locks
  rw [← hl.owner i hi, ← hl.owner j hj]

theorem Inv.zero_notMem (h : Inv NB_SEGMENTS cards s) : obj ∉ remaining (s.segs 0) := by
  rw [h.absent 0 (by rw [mem_segment_nums]; omega)]
  simp [remaining, Segment.initial]

theorem Inv.ne_zero (h : Inv NB_SEGMENTS cards s) (hm : obj ∈ remaining (s.segs i)) : i ≠ 0 := by
  rintro rfl
  exact h.zero_notMem hm

theorem Inv.private_of_remaining (h : Inv NB_SEGMENTS cards s) (hm : obj ∈ remaining (s.segs i))
    (hp : pending (s.segs i) obj = []) {a : ℕ} (ha : in_object s obj a) :
    is_private_page s.mem i (a / 4096) = true := by
  apply (h.objs obj (by rw [h.old_of_remaining hm]; decide)).views.private_pages i hm
  · unfold in_object at ha
    rw [object_pages, List.mem_range'_1]
    omega
  · rw [hp]
    simp

/-- No object outside of the one that is written to notices. -/
theorem Inv.same_of_writesOnly (h : Inv NB_SEGMENTS cards s) (hobj : s.kind obj ≠ .free)
    (hkind : s'.kind = s.kind) (hlayout : s'.layout = s.layout)
    (hmem : WritesOnly i obj (s.layout obj).size s.mem s'.mem)
    (hlocks : ∀ x, ¬ lock_of obj (s.layout obj) x → s'.write_locks x = s.write_locks x)
    {o : ℕ} (ho : s.kind o ≠ .free) (hne : o ≠ obj)
    (hlists : ∀ j, SameLists o (s.segs j) (s'.segs j)) : Same s s' o where
  kind := by rw [hkind]
  layout := by rw [hlayout]
  views j a ha := by
    apply hmem.outside
    have hdis := h.disjoint ho hobj hne
    unfold in_object at ha
    omega
  private_pages j _ p _ hp := by
    rw [hmem.is_private_page]
    exact hp
  locks x hx := hlocks x (lock_of_apart (h.disjoint ho hobj hne) hx)
  lists := hlists

/-- A step of one segment on one object, with no change of kinds. -/
theorem Inv.touch (h : Inv NB_SEGMENTS cards s) (hi : i ∈ segment_nums NB_SEGMENTS)
    (hobj : s.kind obj ≠ .free) (hkind : s'.kind = s.kind) (hlayout : s'.layout = s.layout)
    (hsegs : ∀ j, j ≠ i → s'.segs j = s.segs j)
    (hmem : WritesOnly i obj (s.layout obj).size s.mem s'.mem)
    (hlocks : ∀ x, ¬ lock_of obj (s.layout obj) x → s'.write_locks x = s.write_locks x)
    (hsame : ∀ o, o ≠ obj → SameLists o (s.segs i) (s'.segs i))
    (hlists : ListInv s.kind s.layout (s'.segs i) i)
    (hinv : ObjInv NB_SEGMENTS cards s' obj) : Inv NB_SEGMENTS cards s' where
  apart o o' ho ho' hlt := by
    rw [hkind] at ho ho'
    rw [hlayout]
    exact h.apart o o' ho ho' hlt
  locks_used x hx := by
    rw [hkind, hlayout]
    by_cases hxo : lock_of obj (s.layout obj) x
    · exact ⟨obj, hobj, hxo⟩
    · rw [hlocks x hxo] at hx
      exact h.locks_used x hx
  absent j hj := by
    rw [hsegs j (fun hji => hj (hji ▸ hi))]
    exact h.absent j hj
  lists j := by
    rw [hkind, hlayout]
    by_cases hj : j = i
    · rw [hj]
      exact hlists
    · rw [hsegs j hj]
      exact h.lists j
  objs o ho := by
    rw [hkind] at ho
    by_cases hne : o = obj
    · rw [hne]
      exact hinv
    · refine (h.objs o ho).same (h.same_of_writesOnly hobj hkind hlayout hmem hlocks ho hne ?_)
      intro j
      by_cases hj : j = i
      · rw [hj]
        exact hsame o hne
      · rw [hsegs j hj]
        exact SameLists.refl _ _

/-- An object that the acting segment modifies, with all its pages private. -/
theorem Inv.objInv_modified (h : Inv NB_SEGMENTS cards s) (hm : obj ∈ remaining (s.segs i))
    (hp : pending (s.segs i) obj = []) (hlayout : s'.layout = s.layout)
    (hsegs : ∀ j, j ≠ i → s'.segs j = s.segs j)
    (hmem : WritesOnly i obj (s.layout obj).size s.mem s'.mem)
    (hbase : s'.write_locks (get_write_lock_idx obj) = s.write_locks (get_write_lock_idx obj))
    (hm' : obj ∈ remaining (s'.segs i))
    (hov : (s'.segs i).large_overflow_objects = (s.segs i).large_overflow_objects)
    (huses : has_flag s'.mem i obj GCFLAG_CARDS_SET = true →
      obj_should_use_cards (s.layout obj) = true)
    (hmark : cards = true → obj_should_use_cards (s.layout obj) = true → MarkInv s' i obj) :
    ObjInv NB_SEGMENTS cards s' obj := by
  have hold := h.old_of_remaining hm
  have hobj := h.objs obj (by rw [hold]; decide)
  have hview : ∀ j, j ≠ i → ∀ a, in_object s obj a → read s'.mem j a = read s.mem j a :=
    fun j hj a ha => hmem.private_pages j a hj (h.private_of_remaining hm hp ha)
  have hrem : ∀ j, obj ∈ remaining (s'.segs j) ↔ j = i := by
    intro j
    by_cases hj : j = i
    · rw [hj]
      simp [hm']
    · rw [hsegs j hj]
      exact ⟨fun hmj => h.owner_unique hm hmj, fun hji => absurd hji hj⟩
  have hnov : ∀ j, obj ∉ (s'.segs j).large_overflow_objects := by
    intro j hj
    have hk : s.kind obj = .overflow j := by
      by_cases hji : j = i
      · rw [hji, hov] at hj
        rw [hji]
        exact (h.lists i).overflow obj hj
      · rw [hsegs j hji] at hj
        exact (h.lists j).overflow obj hj
    rw [hold] at hk
    cases hk
  have hi0 := h.ne_zero hm
  refine ⟨⟨?_, ?_, ?_, ?_, ?_, ?_⟩, ⟨?_, ?_, ?_, ?_⟩, ?_⟩
  · intro j hj
    rw [hbase, (hrem j).mp hj]
    exact hobj.locks.owner i hm
  · exact fun hn => absurd hm' (hn i)
  · exact fun _ hn => absurd hm' (hn i)
  · exact fun j hj => absurd hj (hnov j)
  · intro j hj hf
    rw [(hrem j).mp (hj.resolve_right (hnov j))] at hf
    rw [hlayout]
    exact huses hf
  · exact fun j hj => absurd hj (hnov j)
  · intro j hj p hpp _
    rw [(hrem j).mp hj, hmem.is_private_page]
    rw [hlayout] at hpp
    exact hobj.views.private_pages i hm p hpp (by rw [hp]; simp)
  · intro hk j hj hn
    have hji : j ≠ i := fun hji => hn ((hrem j).mpr hji)
    rw [hview j hji obj (in_object_self s obj)]
    exact hobj.views.flags hold j hj (fun hmj => hji (h.owner_unique hm hmj))
  · intro hk hc j hj hn a ha
    have hji : j ≠ i := fun hji => hn ((hrem j).mpr hji)
    unfold in_object at ha
    rw [hlayout] at hc ha
    rw [hview j hji a ha, hview 0 (Ne.symm hi0) a ha]
    exact hobj.views.coherent hold hc j hj (fun hmj => hji (h.owner_unique hm hmj)) a ha
  · exact fun j _ hj => absurd hj (hnov j)
  · intro hc hcards j hj
    rw [(hrem j).mp hj]
    rw [hlayout] at hcards
    exact hmark hc hcards

/-- An object of the running transaction of the acting segment. -/
theorem Inv.objInv_overflow (h : Inv NB_SEGMENTS cards s)
    (hk : s.kind obj = .overflow i ∨ s.kind obj = .young i)
    (hkind : s'.kind = s.kind) (hsegs : ∀ j, j ≠ i → s'.segs j = s.segs j)
    (hmod : (s'.segs i).modified_old_objects = (s.segs i).modified_old_objects)
    (hpc : (s'.segs i).pc.is_resetting = false ∧ (s'.segs i).pc ≠ .pushed)
    (hbase : s'.write_locks (get_write_lock_idx obj) = s.write_locks (get_write_lock_idx obj))
    (hclear : obj_should_use_cards (s'.layout obj) = true →
      (obj ∈ (s'.segs i).large_overflow_objects → has_flag s'.mem i obj GCFLAG_CARDS_SET = false) →
      all_cards_cleared s'.write_locks obj (s'.layout obj))
    (hlisted : obj ∈ (s'.segs i).large_overflow_objects →
      has_flag s'.mem i obj GCFLAG_CARDS_SET = true → obj ∈ (s'.segs i).old_objects_with_cards)
    (huses : obj ∈ (s'.segs i).large_overflow_objects →
      has_flag s'.mem i obj GCFLAG_CARDS_SET = true →
      obj_should_use_cards (s'.layout obj) = true)
    (hvals : obj ∈ (s'.segs i).large_overflow_objects →
      obj_should_use_cards (s'.layout obj) = true → ∀ c ∈ card_indices (s'.layout obj),
        s'.write_locks (get_write_lock_idx obj + c) = CARD_CLEAR
          ∨ s'.write_locks (get_write_lock_idx obj + c) = CARD_MARKED) :
    ObjInv NB_SEGMENTS cards s' obj := by
  have hobj := h.objs obj (by rcases hk with hk | hk <;> rw [hk] <;> simp)
  have hnold0 : s.kind obj ≠ .old := by
    rcases hk with hk | hk <;> rw [hk] <;> simp
  have hnold : s'.kind obj ≠ .old := by
    rw [hkind]
    exact hnold0
  have hnrem : ∀ j, obj ∉ remaining (s'.segs j) := by
    intro j hj
    have hmj := mem_of_remaining hj
    by_cases hji : j = i
    · rw [hji, hmod] at hmj
      exact hnold0 (h.old_of_modified hmj)
    · rw [hsegs j hji] at hmj
      exact hnold0 (h.old_of_modified hmj)
  have hnrem0 : ∀ j, obj ∉ remaining (s.segs j) :=
    fun j hj => hnold0 (h.old_of_remaining hj)
  have hown : ∀ j, obj ∈ (s'.segs j).large_overflow_objects → j = i := by
    intro j hj
    by_contra hji
    rw [hsegs j hji] at hj
    have hkj := (h.lists j).overflow obj hj
    rcases hk with hk | hk
    · rw [hk, Kind.overflow.injEq] at hkj
      exact hji hkj.symm
    · rw [hk] at hkj
      cases hkj
  refine ⟨⟨?_, ?_, ?_, ?_, ?_, ?_⟩, ⟨?_, ?_, ?_, ?_⟩, ?_⟩
  · exact fun j hj => absurd hj (hnrem j)
  · intro _
    rw [hbase]
    exact hobj.locks.free hnrem0
  · refine fun hc _ hov => hclear hc (fun ho => (hov i ho).resolve_left (fun hr => ?_))
    rw [hpc.1] at hr
    cases hr
  · intro j hj hf
    have hji := hown j hj
    subst hji
    exact hlisted hj hf
  · intro j hj hf
    have hj' := hj.resolve_left (hnrem j)
    have hji := hown j hj'
    subst hji
    exact huses hj' hf
  · intro j hj
    have hji := hown j hj
    subst hji
    exact hvals hj
  · exact fun j hj => absurd hj (hnrem j)
  · exact fun hold => absurd hold hnold
  · exact fun hold => absurd hold hnold
  · intro j hpcj hj
    rw [hown j hj] at hpcj
    exact absurd hpcj hpc.2
  · exact fun _ _ j hj => absurd hj (hnrem j)

end Inv

end Stmgc.C7
