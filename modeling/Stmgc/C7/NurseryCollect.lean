/-
`minor_trace_if_young`, and the loops of a minor collection over it.
-/
import Stmgc.C7.NurseryTrace

namespace Stmgc.C7.Nursery

open Function Option Stmgc.Lib
open HashId (NURSERY_START NURSERY_END)

variable {w : Work} {turns : ℕ} {name name' : ℕ → Option ℕ} {g : Graph} {s s' : St}
  {x n : ℕ} {o o' : Obj} {slot t : Slot} {v q : Option ℕ}

/-! ## One pointer -/

/-- What `*pobj` is about stays the same, and it is not young any more. -/
theorem minor_trace_spec (h : Tracing w turns name g s) (hv : Refers name v q) :
    Returns (minor_trace_if_young s v) fun r => ∃ name', Kept name s name' r.1 ∧
      Tracing w turns name' g r.1 ∧ Refers name' r.2 q ∧ ∀ y, r.2 = some y → ¬ y < NURSERY_END := by
  cases v with
  | none => exact returns_some ⟨name, .refl, h, hv, by simp⟩
  | some x =>
      obtain ⟨n, rfl, hn⟩ := refers_some.mp hv
      by_cases hx : x < NURSERY_END
      · rcases h.room.cell hn with ⟨o, ho⟩ | ⟨-, y, hy, hyn, hold⟩
        · obtain ⟨lst, hlst⟩ := isSome_iff_exists.mp h.to_trace
          obtain ⟨todo, htodo, hroom, -⟩ := h.room.todo
          have hpos := List.length_pos_of_mem (htodo hn hx ho)
          cases hun : s.unused with
          | nil =>
              rw [hun, List.length_nil] at hroom
              omega
          | cons nobj unused =>
              have P : Promotion w turns name g s x n o nobj lst unused := ⟨h, hn, hx, ho, hlst, hun⟩
              refine ⟨(P.st, some nobj), ?_, P.names, P.kept, P.tracing', ?_, fun _ hy => ?_⟩
              · simp [minor_trace_if_young, hx, object_eq_some.mp ho, allocate_outside_nursery_large,
                  hun, must_trace_later, c_assert, P.flags.overflow_number, P.flags.cards_set, hlst,
                  Promotion.copy, St.put, update_comm P.ne.symm]
              · exact refers_some.mpr ⟨n, rfl, update_self ..⟩
              · exact some.inj hy ▸ P.old
        · simp only [minor_trace_if_young, if_pos hx, hy]
          exact returns_some ⟨name, .refl, h, refers_some.mpr ⟨n, rfl, hyn⟩,
            fun z hz => some.inj hz ▸ hold⟩
      · simp only [minor_trace_if_young, if_neg hx]
        exact returns_some ⟨name, .refl, h, hv, fun z hz => some.inj hz ▸ hx⟩

/-! ## Slots -/

/-- The slot is there, in an old object or a root. -/
def Traceable (name : ℕ → Option ℕ) (s : St) : Slot → Prop
  | .field x i => ((name x).isSome ∧ ¬ x < NURSERY_END) ∧ ∃ o, s.object x = some o ∧ i < o.refs.length
  | .root i => i < s.roots.length

theorem Kept.traceable (h : Kept name s name' s') (ht : Traceable name s slot) :
    Traceable name' s' slot := by
  cases slot with
  | field x i =>
      obtain ⟨⟨hn, hold⟩, o, ho, hi⟩ := ht
      obtain ⟨refs, ho', hc⟩ := h.object hn hold ho
      exact ⟨⟨h.names.isSome hn, hold⟩, _, ho', hi.trans_eq hc.1.symm⟩
  | root i => exact lt_of_lt_of_eq ht h.roots.1.symm

/-- A young pointer was there before. -/
theorem Kept.load (h : Kept name s name' s') (ht : Traceable name s slot) {y : ℕ}
    (hload : s'.load slot = some (some y)) (hy : y < NURSERY_END) : s.load slot = some (some y) := by
  cases slot with
  | field x i =>
      obtain ⟨⟨hn, hold⟩, o, ho, -⟩ := ht
      obtain ⟨refs, ho', hc⟩ := h.object hn hold ho
      rw [St.load, ho'] at hload
      rw [St.load, ho]
      exact hc.2 i y hload hy
  | root i => exact h.roots.2 i y hload hy

theorem Room.put (h : Room turns name s) (ho : s.object x = some o) : Room turns name (s.put x o') where
  cell := by
    intro y m hm
    by_cases hyx : y = x
    · exact .inl ⟨o', hyx ▸ object_put_self⟩
    · rcases h.cell hm with ⟨oy, hoy⟩ | ⟨hlt, z, hz, hrest⟩
      · exact .inl ⟨oy, (object_put_of_ne hyx).trans hoy⟩
      · exact .inr ⟨hlt, z, (update_of_ne hyx ..).trans hz, hrest⟩
  unused := by
    intro y hy
    obtain ⟨hle, hfree⟩ := h.unused y hy
    refine ⟨hle, (update_of_ne ?_ ..).trans hfree⟩
    rintro rfl
    simp [St.object, hfree] at ho
  nodup := h.nodup
  todo := by
    obtain ⟨todo, htodo, hrest⟩ := h.todo
    refine ⟨todo, fun hm hy hoy => ?_, hrest⟩
    rcases object_put_cases hoy with ⟨rfl, -⟩ | ⟨-, hoy⟩
    · exact htodo hm hy ho
    · exact htodo hm hy hoy

/-- A slot gets a pointer that is not young. -/
theorem Tracing.store (h : Tracing w turns name g s) (hslot : Traceable name s slot)
    (ht : slot.rename name = some t) (hq : g.load t = some q) (hv : Refers name v q)
    (hold : ∀ y, v = some y → ¬ y < NURSERY_END) :
    Returns (s.store slot v) fun s' => Kept name s name s' ∧ Tracing w turns name g s' ∧
      ∀ y, s'.load slot = some (some y) → ¬ y < NURSERY_END := by
  have hg := Graph.store_eq_self hq
  cases slot with
  | field x i =>
      obtain ⟨n, hn, rfl⟩ := map_eq_some_iff.mp ht
      obtain ⟨⟨-, hx⟩, o, ho, -⟩ := hslot
      obtain ⟨refs, hrefs, hall⟩ := h.object hn ho
      rw [Graph.store_field hrefs] at hg
      have hcore := h.put (k := { o with refs := o.refs.set i v }) hn ho (forall₂_set hall i hv) .refl
        (fun hy => absurd hy hx) (fun _ hx => ⟨hx.1, hx.2.1, hx.2.2.1, fun j y hj hy =>
          hx.2.2.2 j y (getElem?_set_young hold hj hy).2 hy⟩)
      rw [hg] at hcore
      rw [St.store, ho, Option.map_some]
      refine returns_some ⟨⟨⟨rfl, rfl, rfl⟩, .refl _, @fun y oy _ _ hoy => ?_, .refl⟩,
        ⟨hcore, h.room.put ho, h.to_trace⟩, fun y hload hy => ?_⟩
      · by_cases hyx : y = x
        · subst hyx
          obtain rfl := some.inj (ho.symm.trans hoy)
          exact ⟨_, object_put_self, .set hold⟩
        · exact ⟨_, (object_put_of_ne hyx).trans hoy, .refl⟩
      · rw [St.load, object_put_self] at hload
        exact (getElem?_set_young hold hload hy).1 rfl
  | root i =>
      obtain rfl := some.inj ht
      have hcore := h.set_roots (forall₂_set h.roots i hv) (fun {y} hmem hy =>
        (List.mem_or_eq_of_mem_set hmem).elim (h.clean · hy) (fun heq => absurd hy (hold y heq.symm)))
      rw [show { g with roots := g.roots.set i q } = g from hg] at hcore
      exact returns_some ⟨⟨⟨rfl, rfl, rfl⟩, .refl _, fun _ _ ho => ⟨_, ho, .refl⟩, .set hold⟩,
        ⟨hcore, ⟨h.room.1, h.room.2, h.room.3, h.room.4⟩, h.to_trace⟩,
        fun y hload hy => (getElem?_set_young hold hload hy).1 rfl⟩

/-- No slot that was traced has a young pointer. -/
theorem trace_slots_spec : ∀ (slots : List Slot) {name : ℕ → Option ℕ} {s : St},
    Tracing w turns name g s → (∀ slot ∈ slots, Traceable name s slot) →
    Returns (slots.foldlM trace_slot s) fun s' => ∃ name', Kept name s name' s' ∧
      Tracing w turns name' g s' ∧
      ∀ slot ∈ slots, ∀ y, s'.load slot = some (some y) → ¬ y < NURSERY_END := by
  intro slots
  induction slots with
  | nil => exact fun h _ => returns_some ⟨_, .refl, h, by simp⟩
  | cons slot slots ih =>
      intro name s h hslots
      have hslot := hslots slot List.mem_cons_self
      obtain ⟨v, t, hv, ht⟩ : ∃ v t, s.load slot = some v ∧ slot.rename name = some t := by
        cases slot with
        | field x i =>
            obtain ⟨⟨hn, -⟩, o, ho, hi⟩ := hslot
            obtain ⟨n, hn⟩ := isSome_iff_exists.mp hn
            exact ⟨_, _, by rw [St.load, ho, bind_some, List.getElem?_eq_getElem hi], by rw [Slot.rename, hn]; rfl⟩
        | root i => exact ⟨_, _, List.getElem?_eq_getElem hslot, rfl⟩
      obtain ⟨q, hq, href⟩ := h.load ht hv
      obtain ⟨⟨s', v'⟩, hrun, name', hkept, htracing, href', hold⟩ := minor_trace_spec h href
      have ht' : slot.rename name' = some t := by
        cases slot with
        | field x i =>
            obtain ⟨n, hn, rfl⟩ := map_eq_some_iff.mp ht
            simp [Slot.rename, hkept.names x n hn]
        | root i => exact ht
      obtain ⟨s'', hstore, hkept', htracing', hdone⟩ :=
        htracing.store (hkept.traceable hslot) ht' hq href' hold
      have hturn : trace_slot s slot = some s'' := by simp [trace_slot, hv, hrun, hstore]
      have htraceable := fun slot hmem => hkept'.traceable (hkept.traceable (hslots slot hmem))
      rw [List.foldlM_cons, hturn]
      obtain ⟨s3, hrest, name3, hkept3, htracing3, hdone3⟩ := ih htracing'
        (fun slot hmem => htraceable slot (List.mem_cons_of_mem _ hmem))
      refine ⟨s3, hrest, name3, (hkept.trans hkept').trans hkept3, htracing3, fun slot' hmem y hload hy => ?_⟩
      rcases List.mem_cons.mp hmem with rfl | hmem
      · exact hdone y (hkept3.load (htraceable _ List.mem_cons_self) hload hy) hy
      · exact hdone3 slot' hmem y hload hy

/-! ## Objects -/

theorem Tracing.work (h : Tracing w turns name g s) {w' : Work}
    (hold : ∀ x o, ¬ x < NURSERY_END → s.object x = some o → Old w s x o → Old w' s x o)
    (hroots : w.roots → w'.roots) : Tracing w' turns name g s :=
  ⟨h.toCore.lists s hold hroots h.listed, h.room, h.to_trace⟩

/-- An object is traced, and then has the flags that `f` gives it. -/
theorem trace_object_spec (h : Tracing w turns name g s) (hn : name x = some n)
    (hold : ¬ x < NURSERY_END) (ho : s.object x = some o) (slots : List Slot)
    (f : Obj → Obj) (w' : Work) (hslots : ∀ slot ∈ slots, ∃ i < o.refs.length, slot = .field x i)
    (hall : ∀ (i : ℕ) y, o.refs[i]? = some (some y) → y < NURSERY_END → .field x i ∈ slots)
    (hf : ∀ o, (f o).refs = o.refs) (hw : Agrees w w' x)
    (ho' : ∀ s refs, (∀ (i : ℕ) y, refs[i]? = some (some y) → ¬ y < NURSERY_END) →
      Old w s x { o with refs := refs } → Old w' s x (f { o with refs := refs })) :
    Returns (do
      let s ← slots.foldlM trace_slot s
      let o ← s.object x
      return s.put x (f o)) fun s' => Same s s' ∧ (∃ refs, s'.object x = some (f { o with refs := refs })) ∧
        ∃ name', Tracing w' turns name' g s' := by
  have hsome : (name x).isSome := by
    rw [hn]
    rfl
  obtain ⟨s', hrun, name', hkept, h', hdone⟩ := trace_slots_spec slots h (fun slot hmem => by
    obtain ⟨i, hi, rfl⟩ := hslots slot hmem
    exact ⟨⟨hsome, hold⟩, o, ho, hi⟩)
  obtain ⟨refs, hx, hc⟩ := hkept.object hsome hold ho
  have hn' := hkept.names x n hn
  obtain ⟨grefs, hget, hall'⟩ := h'.object hn' hx
  -- a young pointer was there before, and so it was traced
  have hclean : ∀ (i : ℕ) y, refs[i]? = some (some y) → ¬ y < NURSERY_END := fun i y hi hy =>
    hdone _ (hall i y (hc.2 i y hi hy) hy) y (by rw [St.load, hx]; exact hi) hy
  have hcore := h'.put (k := f { o with refs := refs }) hn' hx ((hf _).symm ▸ hall') hw
    (fun hy => absurd hy hold) (fun _ => ho' s' refs hclean)
  rw [Graph.set_eq_self hget] at hcore
  refine ⟨s'.put x (f { o with refs := refs }), ?_, hkept.toSame.trans ⟨rfl, rfl, rfl⟩,
    ⟨refs, object_put_self⟩, name', hcore, h'.room.put hx, h'.to_trace⟩
  rw [hrun, Option.bind_eq_bind, Option.bind_some, hx]
  rfl

theorem mem_items {i start stop : ℕ} : .field x i ∈ items x start stop ↔ start ≤ i ∧ i < stop := by
  rw [items, List.mem_map_of_injective (fun i j heq => (Slot.field.inj heq).2), List.mem_range'_1]
  omega

/-- Without cards. -/
def Work.plain (pending : ℕ → Prop) (roots : Prop) : Work where
  pending := pending
  carded := fun _ => False
  roots := roots

theorem Tracing.pending {r : Prop} {p p' : ℕ → Prop} (h : Tracing (.plain p r) turns name g s)
    (hp : ∀ y, p y → p' y) : Tracing (.plain p' r) turns name g s :=
  h.work (fun y _ _ _ hy => hy.congr (hp y) id) id

theorem collect_now_spec {r : Prop} {p : ℕ → Prop} (h : Tracing (.plain p r) turns name g s)
    (hn : name x = some n) (hold : ¬ x < NURSERY_END) (ho : s.object x = some o) :
    Returns (collect_now s x) fun s' => Same s s' ∧
      ∃ name', Tracing (.plain (fun y => p y ∧ y ≠ x) r) turns name' g s' := by
  have hset : o.cards_set = false :=
    Bool.eq_false_iff.mpr (fun hset => ((h.old hn hold ho).2.1 hset).2.1)
  simp only [collect_now, ho, Option.bind_eq_bind, Option.bind_some]
  refine returns_assert hold (returns_assert hset ?_)
  by_cases hb : o.write_barrier = true
  · rw [if_pos hb]
    refine returns_some ⟨.refl, name, h.work (fun y oy _ hoy hy =>
      ⟨fun hbar => (hy.1 hbar).imp_right (fun hp => ⟨hp, ?_⟩), hy.2⟩) id⟩
    rintro rfl
    simp [some.inj (ho.symm.trans hoy), hbar] at hb
  · rw [if_neg hb]
    refine (trace_object_spec h hn hold ho (items x 0 o.refs.length)
      (fun o => { o with write_barrier := true })
      (.plain (fun y => p y ∧ y ≠ x) r) (fun slot hmem => ?_)
      (fun i y hi _ => mem_items.mpr ⟨Nat.zero_le i, (List.getElem?_eq_some_iff.mp hi).1⟩) (fun _ => rfl)
      ⟨fun y hy hp => ⟨hp, hy⟩, fun _ _ hp => hp, id⟩
      (fun s refs hc hx => ⟨fun hbar => by simp at hbar, fun hs => by simp [hset] at hs, hx.2.2.1,
        fun i y hi hy => absurd hy (hc i y hi)⟩)).mono (fun s' hs' => ⟨hs'.1, hs'.2.2⟩)
    obtain ⟨i, hi, rfl⟩ := List.mem_map.mp hmem
    exact ⟨i, (mem_items.mp hmem).2, rfl⟩

theorem mem_marked_items {i : ℕ} : .field x i ∈ marked_items s x o ↔ i < o.refs.length ∧
    s.cards x (get_index_to_card_index i) = CARD_MARKED := by
  simp only [marked_items, List.mem_flatMap, mem_items, List.mem_filter, List.mem_range'_1,
    decide_eq_true_eq, get_index_to_card_index, get_card_index_to_index, CARD_SIZE]
  constructor
  · rintro ⟨c, ⟨hc, hmarked⟩, hi⟩
    rw [show i / 32 + 1 = c by omega]
    exact ⟨by omega, hmarked⟩
  · rintro ⟨hi, hmarked⟩
    exact ⟨i / 32 + 1, ⟨by omega, hmarked⟩, by omega⟩

/-- The cards of an object without `CARDS_SET` may be anything. -/
theorem Core.cards (h : Core w name g s) (hx : ∀ o, s.object x = some o → o.cards_set = false) (f : ℕ → ℕ) :
    Core w name g { s with cards := update s.cards x f } := by
  refine h.lists { s with cards := update s.cards x f } (fun z o _ ho hz => ⟨hz.1, hz.2.1, hz.2.2.1,
    fun i y hi hy => (hz.2.2.2 i y hi hy).imp_right fun hs => ⟨hs.1, ?_⟩⟩) id h.listed
  have hne : z ≠ x := fun heq => by simp [hx o (heq ▸ ho)] at hs
  exact (congrFun (update_of_ne hne ..) _).trans hs.2

theorem trace_card_object_spec (h : Tracing w turns name g s) (hn : name x = some n)
    (hold : ¬ x < NURSERY_END) (ho : s.object x = some o) (hset : o.cards_set = true) :
    Returns (trace_card_object s x o) fun s' => Same s s' ∧
      ∃ name', Tracing { w with carded := fun y => w.carded y ∧ y ≠ x } turns name' g s' := by
  have hx := h.old hn hold ho
  have hb := (hx.2.1 hset).1
  obtain ⟨s', hrun, hsame, ⟨refs, hx'⟩, name', h'⟩ := trace_object_spec h hn hold ho
    (marked_items s x o) (fun o => { o with cards_set := false })
    { w with carded := fun y => w.carded y ∧ y ≠ x }
    (fun slot hmem => by
      obtain ⟨c, hc, hmem'⟩ := List.mem_flatMap.mp hmem
      obtain ⟨i, hi, rfl⟩ := List.mem_map.mp hmem'
      exact ⟨i, (mem_marked_items.mp hmem).1, rfl⟩)
    (fun i y hi hy => mem_marked_items.mpr ⟨(List.getElem?_eq_some_iff.mp hi).1,
      ((hx.2.2.2 i y hi hy).resolve_left (by simp [hb])).2⟩) (fun _ => rfl)
    ⟨fun _ _ hp => hp, fun y hy hp => ⟨hp, hy⟩, id⟩
    (fun s refs hc hx => ⟨hx.1, fun hs => by simp at hs, hx.2.2.1, fun i y hi hy => absurd hy (hc i y hi)⟩)
  obtain ⟨s1, hrun1, hrun⟩ := bind_eq_some_iff.mp hrun
  obtain ⟨o1, ho1, hrun⟩ := bind_eq_some_iff.mp hrun
  obtain rfl := some.inj hrun
  refine returns_assert hold (returns_assert hb ?_)
  rw [hrun1, Option.bind_eq_bind, Option.bind_some, ho1]
  refine returns_some ⟨⟨hsame.1, hsame.2, hsame.3⟩, name', h'.cards (fun o ho => ?_) _,
    ⟨h'.room.1, h'.room.2, h'.room.3, h'.room.4⟩, h'.to_trace⟩
  rw [← some.inj (hx'.symm.trans ho)]

/-! ## The loops -/

theorem Tracing.listed_object (h : Tracing w turns name g s)
    (hx : x ∈ s.modified_old_objects ∨ x ∈ s.old_objects_with_cards ∨ s.remembers x) :
    ∃ n o, name x = some n ∧ s.object x = some o ∧ ¬ x < NURSERY_END := by
  obtain ⟨hsome, hold⟩ := h.listed hx
  obtain ⟨n, hn⟩ := isSome_iff_exists.mp hsome
  obtain ⟨o, ho⟩ := (h.room.cell hn).resolve_right (fun hin => hold hin.1)
  exact ⟨n, o, hn, ho, hold⟩

theorem collect_cardrefs_to_nursery_spec
    (h : Tracing { w with carded := (· ∈ s.old_objects_with_cards) } turns name g s) :
    Returns (collect_cardrefs_to_nursery s) fun s' => Same { s with old_objects_with_cards := [] } s' ∧
      ∃ name', Tracing { w with carded := fun _ => False } turns name' g s' := by
  obtain ⟨s', hrun, -, hsame, name', h'⟩ := foldlM_spec (f := collect_cardrefs) (fun _ todo t =>
      (∀ y ∈ todo, y ∈ s.old_objects_with_cards) ∧ Same s t ∧
      ∃ name', Tracing { w with carded := (· ∈ todo) } turns name' g t)
    (fun _ x todo t ⟨hsub, hsame, name, h⟩ => by
      have hx := hsame.old_objects_with_cards ▸ hsub x List.mem_cons_self
      obtain ⟨n, o, hn, ho, hold⟩ := h.listed_object (.inr (.inl hx))
      have hsub' := fun y hy => hsub y (List.mem_cons_of_mem _ hy)
      refine returns_assert hold ?_
      rw [ho, Option.bind_eq_bind, Option.bind_some]
      by_cases hset : o.cards_set = true
      · rw [if_pos hset]
        refine (trace_card_object_spec h hn hold ho hset).mono
          (fun t' ⟨hsame', name', h'⟩ => ⟨hsub', hsame.trans hsame', name', h'.work
            (fun y o _ _ hy => hy.congr id (fun hmem => (List.mem_cons.mp hmem.1).resolve_left hmem.2)) id⟩)
      · rw [if_neg hset]
        refine returns_some ⟨hsub', hsame, name, h.work (fun y oy _ hoy hy => ⟨hy.1, fun hs =>
          ⟨(hy.2.1 hs).1, (List.mem_cons.mp (hy.2.1 hs).2.1).resolve_left (fun heq => hset ?_),
            (hy.2.1 hs).2.2⟩, hy.2.2⟩) id⟩
        rwa [some.inj (ho.symm.trans (heq ▸ hoy))])
    s.old_objects_with_cards [] s ⟨fun _ hy => hy, .refl, name, h⟩
  refine ⟨{ s' with old_objects_with_cards := [] }, by rw [collect_cardrefs_to_nursery, hrun]; rfl,
    ⟨hsame.1, hsame.2, rfl⟩, name', h'.lists { s' with old_objects_with_cards := [] }
      (fun y o _ _ hy => hy.congr id (fun hmem => List.not_mem_nil hmem)) id
      (fun hy => h'.listed ?_),
    ⟨h'.room.1, h'.room.2, h'.room.3, h'.room.4⟩, h'.to_trace⟩
  exact hy.imp_right (Or.imp_left (fun hmem => absurd hmem List.not_mem_nil))

theorem collect_modified_old_objects_spec {r : Prop}
    (h : Tracing (.plain (· ∈ s.modified_old_objects) r) turns name g s) :
    Returns (collect_modified_old_objects s) fun s' => Same s s' ∧
      ∃ name', Tracing (.plain (fun _ => False) r) turns name' g s' := by
  obtain ⟨s', hrun, -, hsame, name', h'⟩ := foldlM_spec (f := collect_now) (fun _ todo t =>
      (∀ y ∈ todo, y ∈ s.modified_old_objects) ∧ Same s t ∧
      ∃ name', Tracing (.plain (· ∈ todo) r) turns name' g t)
    (fun _ x todo t ⟨hsub, hsame, name, h⟩ => by
      have hx := hsame.modified_old_objects ▸ hsub x List.mem_cons_self
      obtain ⟨n, o, hn, ho, hold⟩ := h.listed_object (.inl hx)
      refine (collect_now_spec h hn hold ho).mono (fun t' ⟨hsame', name', h'⟩ => ?_)
      exact ⟨fun y hy => hsub y (List.mem_cons_of_mem _ hy), hsame.trans hsame', name',
        h'.pending (fun y hy => (List.mem_cons.mp hy.1).resolve_left hy.2)⟩)
    s.modified_old_objects [] s ⟨fun _ hy => hy, .refl, name, h⟩
  exact ⟨s', hrun, hsame, name', h'.pending (fun y hy => absurd hy List.not_mem_nil)⟩

/-- After the roots, nothing is left to trace but `objects_pointing_to_nursery`. -/
theorem collect_roots_in_nursery_spec {r : Prop} (h : Tracing (.plain (fun _ => False) r) turns name g s) :
    Returns (collect_roots_in_nursery s) fun s' => Same s s' ∧
      ∃ name', Tracing (.plain (fun _ => False) False) turns name' g s' := by
  obtain ⟨s', hrun, name', hkept, h', hdone⟩ := trace_slots_spec ((List.range s.roots.length).map Slot.root) h
    (fun slot hmem => by
      obtain ⟨i, hi, rfl⟩ := List.mem_map.mp hmem
      exact List.mem_range.mp hi)
  refine ⟨s', hrun, hkept.toSame, name', ⟨⟨h'.toRepresents, h'.young, h'.old, @fun y hy hys => ?_, h'.listed⟩,
    h'.room, h'.to_trace⟩⟩
  obtain ⟨i, hi⟩ := List.mem_iff_getElem?.mp hy
  have hlt := (List.getElem?_eq_some_iff.mp hi).1
  rw [hkept.roots.1] at hlt
  exact hdone (.root i) (List.mem_map_of_mem (List.mem_range.mpr hlt)) y hi hys

theorem collect_oldrefs_to_nursery_spec (h : Tracing (.plain (fun _ => False) False) turns name g s) :
    Returns (collect_oldrefs_to_nursery s) fun s' => Same s s' ∧ s'.objects_pointing_to_nursery = some [] ∧
      ∃ name' turns, Tracing (.plain (fun _ => False) False) turns name' g s' := by
  refine loop.spec_turns (fun turns t => Same s t ∧
    ∃ name', Tracing (.plain (fun _ => False) False) turns name' g t) ?_ ⟨.refl, name, h⟩
  rintro turns t ⟨hsame, name, h⟩
  obtain ⟨lst, hlst⟩ := isSome_iff_exists.mp h.to_trace
  simp only [collect_oldrefs_turn, hlst]
  cases lst with
  | nil => exact returns_some ⟨hsame, hlst, name, turns, h⟩
  | cons x lst =>
      have hrem : ∀ {y}, t.remembers y ↔ y ∈ x :: lst := by simp [St.remembers, hlst]
      obtain ⟨n, o, hn, ho, hold⟩ := h.listed_object (.inr (.inr (hrem.mpr List.mem_cons_self)))
      obtain ⟨todo, htodo, hroom, hturns⟩ := h.room.todo
      have hpos := hturns _ hlst
      rw [List.length_cons] at hpos
      set t' : St := { t with objects_pointing_to_nursery := some lst }
      have h1 : Tracing (.plain (· = x) False) (turns - 1) name g t' := by
        refine ⟨h.lists t' (fun y o _ _ hy => ⟨fun hb => .symm ?_, hy.2.1, fun heq =>
          ⟨(hy.2.2.1 heq).1, rfl⟩, hy.2.2.2⟩) id
          (fun hy => h.listed (hy.imp_right (Or.imp_right fun hy => hrem.mpr (List.mem_cons_of_mem _ hy)))),
          ⟨h.room.1, h.room.2, h.room.3, todo, htodo, hroom, fun lst' heq => ?_⟩, rfl⟩
        · exact List.mem_cons.mp (hrem.mp ((hy.1 hb).resolve_right not_false))
        · obtain rfl := some.inj heq
          omega
      obtain ⟨t2, hrun, hsame', name', h2⟩ := collect_now_spec h1 hn hold ho
      refine ⟨.cont t2, (congrArg (· >>= _) hrun).trans rfl, turns - 1, by omega,
        hsame.trans ⟨hsame'.1, hsame'.2, hsame'.3⟩, name', ?_⟩
      exact h2.pending (fun y hy => hy.2 hy.1)

end Stmgc.C7.Nursery
