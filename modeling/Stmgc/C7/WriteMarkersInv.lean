/-
The lists of markers stay parallel to the lists of modified objects.

[`Parallel`] is about the lists of one segment. Its `settled` says that the first
`modified_old_objects_markers_num_old` items have no young objects, so the next
minor collection may leave them as they are. A young object may be only in its
own segment, and nothing is lost of an old one while a marker has it ([`Inv`]).
-/
import Stmgc.C7.WriteMarkers

namespace Stmgc.C7

open Stmgc.Lib

namespace WriteMarkers

/-! ## Lists of pairs -/

section

variable {l : List ℕ} {a b i j k n count total : ℕ}

/-- The pair at `k`, or no marker behind the end. -/
def pair (l : List ℕ) (k : ℕ) : Marker := ⟨l.getD (2 * k) 0, l.getD (2 * k + 1) 0⟩

theorem getD_append_zeros : (l ++ [0, 0]).getD j 0 = l.getD j 0 := by
  rcases Nat.lt_or_ge j l.length with hlt | hge
  · rw [List.getD_append _ _ _ _ hlt]
  · rw [List.getD_append_right _ _ _ _ hge, List.getD_eq_default l 0 hge]
    match j - l.length with
    | 0 => rfl
    | 1 => rfl
    | _ + 2 => rfl

/-- The items that are filled in are those that one reads anyway. -/
theorem pad_getD : (pad count l).getD j 0 = l.getD j 0 := by
  induction l using pad.induct count with
  | case1 l hlt ih => rw [pad, if_pos hlt, ih, getD_append_zeros]
  | case2 l hge => rw [pad, if_neg hge]

theorem pad_length (hl : l.length % 2 = 0) (hle : l.length ≤ 2 * n) : (pad (2 * n) l).length = 2 * n := by
  generalize hcount : 2 * n = count at hle
  induction l using pad.induct count with
  | case1 l hlt ih =>
      rw [pad, if_pos hlt]
      apply ih
      · rw [List.length_append, List.length_cons, List.length_singleton]
        omega
      · rw [List.length_append, List.length_cons, List.length_singleton]
        omega
  | case2 l hge =>
      rw [pad, if_neg hge]
      omega

theorem pair_append_of_lt (hl : l.length = 2 * n) (hk : k < n) : pair (l ++ [a, b]) k = pair l k := by
  unfold pair
  rw [List.getD_append _ _ _ _ (by omega), List.getD_append _ _ _ _ (by omega)]

theorem pair_append_self (hl : l.length = 2 * n) : pair (l ++ [a, b]) n = ⟨a, b⟩ := by
  unfold pair
  rw [List.getD_append_right _ _ _ _ hl.le, List.getD_append_right _ _ _ _ (by omega), hl, Nat.sub_self,
    Nat.add_sub_cancel_left]
  rfl

theorem pair_of_ge (h : l.length ≤ 2 * k) : pair l k = NO_MARKER := by
  unfold pair
  rw [List.getD_eq_default l 0 h, List.getD_eq_default l 0 (h.trans (Nat.le_succ _))]
  rfl

/-- A loop that changes the items at some indices. -/
theorem foldl_set_getD {f : ℕ → ℕ} {indices : List ℕ} (hnodup : indices.Nodup)
    (hlt : ∀ i ∈ indices, i < l.length) :
    (indices.foldl (fun l i => l.set i (f (l.getD i 0))) l).getD j 0
      = if j ∈ indices then f (l.getD j 0) else l.getD j 0 := by
  induction indices generalizing l with
  | nil => rw [List.foldl_nil, if_neg List.not_mem_nil]
  | cons i indices ih =>
      obtain ⟨hi, hnodup⟩ := List.nodup_cons.mp hnodup
      rw [List.foldl_cons, ih hnodup]
      · have hlen := hlt i List.mem_cons_self
        by_cases hj : j = i
        · rw [hj, if_neg hi, if_pos List.mem_cons_self, List.getD_eq_getElem?_getD,
            List.getElem?_set_self hlen]
          rfl
        · have hsame : (l.set i (f (l.getD i 0))).getD j 0 = l.getD j 0 := by
            rw [List.getD_eq_getElem?_getD, List.getElem?_set_ne (Ne.symm hj), ← List.getD_eq_getElem?_getD]
          rw [hsame]
          by_cases hmem : j ∈ indices
          · rw [if_pos hmem, if_pos (List.mem_cons_of_mem i hmem)]
          · rw [if_neg hmem, if_neg fun h => (List.mem_cons.mp h).elim hj hmem]
      · intro k hk
        rw [List.length_set]
        exact hlt k (List.mem_cons_of_mem i hk)

theorem foldl_set_length {f : ℕ → ℕ} {indices : List ℕ} :
    (indices.foldl (fun l i => l.set i (f (l.getD i 0))) l).length = l.length := by
  induction indices generalizing l with
  | nil => rfl
  | cons i indices ih => rw [List.foldl_cons, ih, List.length_set]

/-- Every second item from `num_old + 1` on. -/
theorem mem_visited : j ∈ visited n total ↔ ∃ i < (total - n) / 2, j = n + 1 + 2 * i := by
  unfold visited
  rw [List.mem_range']

theorem visited_lt (hj : j ∈ visited n total) : j < total := by
  obtain ⟨i, hi, rfl⟩ := mem_visited.mp hj
  omega

theorem nodup_visited : (visited n total).Nodup := List.nodup_range' 2 Nat.two_pos

theorem object_visited (hn : n % 2 = 0) (htotal : total % 2 = 0) :
    2 * k + 1 ∈ visited n total ↔ n ≤ 2 * k ∧ 2 * k + 1 < total := by
  rw [mem_visited]
  constructor
  · rintro ⟨i, hi, heq⟩
    omega
  · rintro ⟨hle, hlt⟩
    exact ⟨k - n / 2, by omega, by omega⟩

theorem number_not_visited (hn : n % 2 = 0) : 2 * k ∉ visited n total := by
  intro h
  obtain ⟨i, -, heq⟩ := mem_visited.mp h
  omega

theorem mem_marker_items (hl : count % 2 = 0) (hk : 2 * k + 1 < count) :
    l.getD (2 * k + 1) 0 ∈ marker_items l count := by
  induction count using Nat.twoStepInduction with
  | zero => exact absurd hk (Nat.not_lt_zero _)
  | one => omega
  | more count ih _ =>
      unfold marker_items
      rcases Nat.lt_or_ge (2 * k + 1) count with hlt | hge
      · exact List.mem_cons_of_mem _ (ih (by omega) hlt)
      · have heq : count + 1 = 2 * k + 1 := by omega
        rw [heq]
        exact List.mem_cons_self

/-! ## The current marker -/

/-- The object of the current marker is on the stack. -/
theorem fetch_from_object {above : Option ℕ} {ss : List ShadowEntry} {marker : Marker}
    (h : fetch_from above ss = some marker) :
    marker.object = 0 ∨ above = some marker.object ∨ marker.object ∈ shadow_objects ss := by
  induction ss generalizing above with
  | nil =>
      obtain rfl := Option.some.inj h
      exact .inl rfl
  | cons e ss ih =>
      cases e with
      | odd n =>
          obtain ⟨p, hp, rfl⟩ := Option.map_eq_some_iff.mp h
          exact .inr (.inl hp)
      | obj p =>
          have hcons : shadow_objects (.obj p :: ss) = p :: shadow_objects ss := rfl
          rw [hcons]
          rcases ih h with h0 | hp | hmem
          · exact .inl h0
          · exact .inr (.inr (Option.some.inj hp ▸ List.mem_cons_self))
          · exact .inr (.inr (List.mem_cons_of_mem p hmem))

theorem marker_fetch_object {ss : List ShadowEntry} {marker : Marker} (h : marker_fetch ss = some marker) :
    marker.object = 0 ∨ marker.object ∈ shadow_objects ss :=
  (fetch_from_object h).imp_right fun h => h.resolve_left nofun

theorem fetch_from_map {f : ℕ → ℕ} {above : Option ℕ} {ss : List ShadowEntry} :
    (fetch_from (above.map f) (ss.map (ShadowEntry.map f))).isSome = (fetch_from above ss).isSome := by
  induction ss generalizing above with
  | nil => rfl
  | cons e ss ih =>
      cases e with
      | odd n =>
          cases above with
          | none => rfl
          | some p => rfl
      | obj p => exact @ih (some p)

theorem shadow_objects_map {f : ℕ → ℕ} {ss : List ShadowEntry} :
    shadow_objects (ss.map (ShadowEntry.map f)) = (shadow_objects ss).map f := by
  induction ss with
  | nil => rfl
  | cons e ss ih =>
      cases e with
      | odd n => exact ih
      | obj p => exact congrArg (f p :: ·) ih

end

/-! ## The invariant -/

/-- The lists of one segment. -/
structure Parallel (seg : Seg) : Prop where
  even : seg.modified_old_objects_markers.length % 2 = 0
  count_le : seg.modified_old_objects_markers.length ≤ 2 * seg.modified_old_objects.length
  recorded_length : seg.recorded.length = seg.modified_old_objects.length
  /-- A pair is missing, or it is the marker of the first write. -/
  pairs : ∀ k, pair seg.modified_old_objects_markers k = NO_MARKER ∨
    seg.recorded[k]? = some (pair seg.modified_old_objects_markers k)
  num_old : minor_num_old seg % 2 = 0 ∧ minor_num_old seg ≤ seg.modified_old_objects_markers.length
  /-- The items that the next minor collection does not visit. -/
  settled : ∀ k, 2 * k + 1 < minor_num_old seg →
    (pair seg.modified_old_objects_markers k).object ∉ seg.young

/-- The pointers that markers and the stack have. -/
structure Live (old : ℕ → Bool) (seg : Seg) : Prop where
  markers : ∀ k, let p := (pair seg.modified_old_objects_markers k).object
    p = 0 ∨ p ∈ seg.young ∨ old p = true
  stack : ∀ p ∈ shadow_objects seg.shadowstack, p = 0 ∨ p ∈ seg.young ∨ old p = true
  fetch : (marker_fetch seg.shadowstack).isSome = true

structure Inv (NB_SEGMENTS : ℕ) (in_nursery : ℕ → Bool) (s : St) : Prop where
  numbered : ∀ i, (s.seg i).running = true → i ∈ segment_nums NB_SEGMENTS
  idle : ∀ i, (s.seg i).running = false → (s.seg i).modified_old_objects = [] ∧
    (s.seg i).modified_old_objects_markers = [] ∧ (s.seg i).young = [] ∧
    (s.seg i).objects_pointing_to_nursery = false ∧ (s.seg i).recorded = []
  locks : ∀ i, 1 ≤ i → ∀ obj, s.write_locks obj = i ↔ obj ∈ (s.seg i).modified_old_objects
  nodup : ∀ i, (s.seg i).modified_old_objects.Nodup
  old_outside : ∀ p, s.old p = true → p ≠ 0 ∧ in_nursery p = false
  young_not_old : ∀ i, ∀ p ∈ (s.seg i).young, p ≠ 0 ∧ s.old p = false
  young_apart : ∀ i j p, i ≠ j → p ∈ (s.seg i).young → p ∈ (s.seg j).young → in_nursery p = true
  parallel : ∀ i, Parallel (s.seg i)
  live : ∀ i, (s.seg i).running = true → Live s.old (s.seg i)

section

variable {s s' : St} {seg seg' : Seg} {old old' : ℕ → Bool} {mv : Move} {k p i : ℕ} {ss : List ShadowEntry}

theorem Parallel.settled_pair (h : Parallel seg) (hk : 2 * k + 1 ∉
    visited (minor_num_old seg) seg.modified_old_objects_markers.length) (hzero : 0 ∉ seg.young) :
    (pair seg.modified_old_objects_markers k).object ∉ seg.young := by
  rw [object_visited h.num_old.1 h.even] at hk
  rcases Nat.lt_or_ge (2 * k + 1) seg.modified_old_objects_markers.length with hlt | hge
  · refine h.settled k ?_
    have heven := h.num_old.1
    omega
  · have hodd : seg.modified_old_objects_markers.length ≤ 2 * k := by
      have heven := h.even
      omega
    rw [pair_of_ge hodd]
    exact hzero

/-- A segment with empty lists. -/
theorem Parallel.of_empty (h1 : seg.modified_old_objects = []) (h2 : seg.modified_old_objects_markers = [])
    (h3 : seg.recorded = []) (h4 : seg.objects_pointing_to_nursery = false) : Parallel seg := by
  have hnum : minor_num_old seg = 0 := if_neg (h4 ▸ Bool.false_ne_true)
  refine ⟨by rw [h2]; rfl, by rw [h2, h1]; rfl, by rw [h3, h1]; rfl, fun k => .inl ?_, ?_, fun k hk => ?_⟩
  · rw [h2]
    exact pair_of_ge (Nat.zero_le _)
  · rw [hnum]
    exact ⟨rfl, Nat.zero_le _⟩
  · rw [hnum] at hk
    exact absurd hk (Nat.not_lt_zero _)

theorem Live.mono (h : Live old seg) (hle : ∀ p, old p = true → old' p = true) : Live old' seg :=
  ⟨fun k => (h.markers k).imp_right fun h => h.imp_right (hle _),
    fun p hp => (h.stack p hp).imp_right fun h => h.imp_right (hle _), h.fetch⟩

/-- No marker is there, and the stack is good. -/
theorem Live.of_empty (h : seg.modified_old_objects_markers = []) (hgood : good_stack s seg ss)
    (hss : seg.shadowstack = ss) : Live s.old seg := by
  refine ⟨fun k => .inl ?_, ?_, ?_⟩
  · rw [h, pair_of_ge (Nat.zero_le _)]
    rfl
  · rw [hss]
    exact hgood.2
  · rw [hss]
    exact hgood.1

/-! ## One segment -/

/-- The pairs are the old ones and maybe the one of the new object. -/
theorem Parallel.pair_recorded (h : Parallel seg) {marker : Marker} {mlstm : List ℕ}
    (hmlstm : mlstm = seg.modified_old_objects_markers ∨
      mlstm = pad (2 * seg.modified_old_objects.length) seg.modified_old_objects_markers ++
        [marker.odd_number, marker.object]) (k : ℕ) :
    pair mlstm k = pair seg.modified_old_objects_markers k ∨
      k = seg.modified_old_objects.length ∧ pair mlstm k = marker := by
  have hpad := pad_length h.even h.count_le
  rcases hmlstm with rfl | rfl
  · exact .inl rfl
  · rcases Nat.lt_trichotomy k seg.modified_old_objects.length with hlt | rfl | hgt
    · left
      rw [pair_append_of_lt hpad hlt]
      unfold pair
      rw [pad_getD, pad_getD]
    · exact .inr ⟨rfl, pair_append_self hpad⟩
    · left
      have hle := h.count_le
      rw [pair_of_ge (by rw [List.length_append, hpad, List.length_cons, List.length_singleton]; omega),
        pair_of_ge (by omega)]

/-- A write to another object, with timing on or off. -/
theorem Parallel.write {obj : ℕ} (h : Parallel seg) (hnum : minor_num_old seg' = minor_num_old seg)
    {marker : Marker} {mlstm : List ℕ} (hmlstm : mlstm = seg.modified_old_objects_markers ∨
      mlstm = pad (2 * seg.modified_old_objects.length) seg.modified_old_objects_markers ++
        [marker.odd_number, marker.object])
    (h1 : seg'.modified_old_objects = seg.modified_old_objects ++ [obj])
    (h2 : seg'.modified_old_objects_markers = mlstm) (h3 : seg'.recorded = seg.recorded ++ [marker])
    (h4 : seg'.young = seg.young) : Parallel seg' := by
  have hpad := pad_length h.even h.count_le
  have hlength : mlstm.length % 2 = 0 ∧ mlstm.length ≤ 2 * (seg.modified_old_objects.length + 1) ∧
      seg.modified_old_objects_markers.length ≤ mlstm.length := by
    have heven := h.even
    have hle := h.count_le
    rcases hmlstm with rfl | rfl
    · omega
    · rw [List.length_append, hpad, List.length_cons, List.length_singleton]
      omega
  have hpair := h.pair_recorded hmlstm
  rw [← h2] at hlength hpair
  refine ⟨hlength.1, ?_, ?_, fun k => ?_, ⟨hnum ▸ h.num_old.1, ?_⟩, fun k hk => ?_⟩
  · rw [h1, List.length_append]
    exact hlength.2.1
  · rw [h3, h1, List.length_append, List.length_append, h.recorded_length]
    rfl
  · rcases hpair k with heq | ⟨rfl, heq⟩
    · rw [heq]
      refine (h.pairs k).imp_right fun hk => ?_
      have hlt : k < seg.recorded.length := (List.getElem?_eq_some_iff.mp hk).1
      rw [h3, List.getElem?_append_left hlt]
      exact hk
    · right
      rw [heq, h3, ← h.recorded_length, List.getElem?_append_right le_rfl, Nat.sub_self]
      rfl
  · rw [hnum]
    exact h.num_old.2.trans hlength.2.2
  · rw [hnum] at hk
    rcases hpair k with heq | ⟨rfl, heq⟩
    · rw [heq, h4]
      exact h.settled k hk
    · have hle := h.num_old.2.trans h.count_le
      omega

/-- What a minor collection makes of a pair. -/
theorem collect_pair (h : Parallel seg) (hzero : 0 ∉ seg.young) :
    pair (collect_seg mv seg).modified_old_objects_markers k
      = (pair seg.modified_old_objects_markers k).map (minor_trace_if_young mv seg) := by
  have hitem := fun j => @foldl_set_getD seg.modified_old_objects_markers j (minor_trace_if_young mv seg)
    _ (@nodup_visited (minor_num_old seg) seg.modified_old_objects_markers.length) fun _ => visited_lt
  unfold collect_seg pair Marker.map
  dsimp only
  rw [hitem, hitem, if_neg (number_not_visited h.num_old.1)]
  by_cases hk : 2 * k + 1 ∈ visited (minor_num_old seg) seg.modified_old_objects_markers.length
  · rw [if_pos hk]
  · rw [if_neg hk]
    -- what is not visited does not move
    have hold := h.settled_pair hk hzero
    have hsame : minor_trace_if_young mv seg (seg.modified_old_objects_markers.getD (2 * k + 1) 0)
        = seg.modified_old_objects_markers.getD (2 * k + 1) 0 := if_neg hold
    rw [hsame]

theorem NO_MARKER_map (hzero : 0 ∉ seg.young) : NO_MARKER.map (minor_trace_if_young mv seg) = NO_MARKER := by
  unfold NO_MARKER Marker.map minor_trace_if_young
  rw [if_neg hzero]

theorem Parallel.collect (h : Parallel seg) (hzero : 0 ∉ seg.young) : Parallel (collect_seg mv seg) := by
  have hlength : (collect_seg mv seg).modified_old_objects_markers.length
      = seg.modified_old_objects_markers.length := foldl_set_length
  have hnum : minor_num_old (collect_seg mv seg) = seg.modified_old_objects_markers.length := if_pos rfl
  refine ⟨hlength ▸ h.even, hlength ▸ h.count_le, ?_, fun k => ?_, ?_, fun _ _ => List.not_mem_nil⟩
  · show (seg.recorded.map _).length = _
    rw [List.length_map]
    exact h.recorded_length
  · rw [collect_pair h hzero]
    rcases h.pairs k with heq | heq
    · rw [heq, NO_MARKER_map hzero]
      exact .inl rfl
    · right
      show (seg.recorded.map _)[k]? = _
      rw [List.getElem?_map, heq]
      rfl
  · rw [hnum, hlength]
    exact ⟨h.even, le_rfl⟩

/-- What a minor collection traces is kept. -/
theorem old_after_trace (hp : p ∈ minor_roots seg) (hlive : p = 0 ∨ p ∈ seg.young ∨ old p = true)
    (hzero : 0 ∉ seg.young) : minor_trace_if_young mv seg p = 0 ∨
      old_after mv seg old (minor_trace_if_young mv seg p) = true := by
  unfold minor_trace_if_young old_after
  by_cases hyoung : p ∈ seg.young
  · right
    rw [if_pos hyoung, Bool.or_eq_true, List.any_eq_true]
    refine .inr ⟨p, hyoung, ?_⟩
    rw [Bool.and_eq_true, Bool.or_eq_true, decide_eq_true_iff, decide_eq_true_iff]
    exact ⟨.inr hp, rfl⟩
  · rw [if_neg hyoung]
    refine hlive.imp_right fun h => ?_
    rw [Bool.or_eq_true]
    exact .inl (h.resolve_left hyoung)

theorem old_after_of_old (h : old p = true) : old_after mv seg old p = true := by
  unfold old_after
  rw [h]
  rfl

theorem Live.collect (h : Live old seg) (hpar : Parallel seg) (hzero : 0 ∉ seg.young) :
    Live (old_after mv seg old) (collect_seg mv seg) := by
  refine ⟨fun k => ?_, fun p hp => ?_, ?_⟩
  · dsimp only
    rw [collect_pair hpar hzero]
    by_cases hk : 2 * k + 1 ∈ visited (minor_num_old seg) seg.modified_old_objects_markers.length
    · have hroot : (pair seg.modified_old_objects_markers k).object ∈ minor_roots seg := by
        unfold minor_roots
        exact List.mem_append_left _ (List.mem_append_left _ (List.mem_map.mpr ⟨_, hk, rfl⟩))
      exact (old_after_trace hroot (h.markers k) hzero).imp_right .inr
    · have hold := hpar.settled_pair hk hzero
      have hsame : minor_trace_if_young mv seg (pair seg.modified_old_objects_markers k).object
          = (pair seg.modified_old_objects_markers k).object := if_neg hold
      show minor_trace_if_young mv seg _ = 0 ∨ _
      unfold Marker.map
      dsimp only
      rw [hsame]
      exact (h.markers k).imp_right fun hp => .inr (old_after_of_old (hp.resolve_left hold))
  · have hmap : shadow_objects (collect_seg mv seg).shadowstack
        = (shadow_objects seg.shadowstack).map (minor_trace_if_young mv seg) := shadow_objects_map
    rw [hmap] at hp
    obtain ⟨q, hq, rfl⟩ := List.mem_map.mp hp
    have hroot : q ∈ minor_roots seg := List.mem_append_right _ hq
    exact (old_after_trace hroot (h.stack q hq) hzero).imp_right .inr
  · have hmap := @fetch_from_map (minor_trace_if_young mv seg) none seg.shadowstack
    exact hmap.trans h.fetch

end

end WriteMarkers

end Stmgc.C7
