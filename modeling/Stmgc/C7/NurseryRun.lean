/-
Runs of the program with minor collections, beside the same runs without memory.
-/
import Stmgc.C7.NurseryCollect

namespace Stmgc.C7.Nursery

open Function Option Stmgc.Lib
open HashId (NURSERY_START NURSERY_END)

variable {name : ℕ → Option ℕ} {g g' : Graph} {s t : St} {x n : ℕ} {o k : Obj} {addrs : List ℕ}

/-! ## The invariant -/

/-- What is left to do while the program runs. -/
def St.work (s : St) : Work where
  pending := fun _ => False
  carded := (· ∈ s.old_objects_with_cards)
  roots := True

structure Inv (name : ℕ → Option ℕ) (g : Graph) (s : St) : Prop extends Core s.work name g s where
  allocated : ∀ {x n}, name x = some n → ∃ o, s.object x = some o
  start : NURSERY_START ≤ s.nursery_current ∧ s.nursery_current ≤ NURSERY_END
  nursery : ∀ {x n}, name x = some n → x < NURSERY_END → NURSERY_START ≤ x ∧ x < s.nursery_current

/-- The lists after a collection. -/
structure Collected (s : St) : Prop where
  nursery_current : s.nursery_current = NURSERY_START
  objects_pointing_to_nursery : s.objects_pointing_to_nursery = some []
  old_objects_with_cards : s.old_objects_with_cards = []

theorem Collected.not_remembers (h : Collected s) : ¬ s.remembers x := by
  simp [St.remembers, h.2]

/-! ## A collection -/

/-- The state in which the tracing begins. -/
def St.begin (s : St) (addrs : List ℕ) (commit : Bool) : St :=
  { s with
    unused := addrs
    minor_collect_will_commit_now := commit
    objects_pointing_to_nursery := some (s.objects_pointing_to_nursery.getD []) }

theorem Inv.tracing (h : Inv name g s) (hm : s.may_collect addrs = true) (commit : Bool) :
    ∃ turns, Tracing { s.work with pending := fun x => s.objects_pointing_to_nursery = none ∧
      x ∈ s.modified_old_objects } turns name g (s.begin addrs commit) := by
  simp only [St.may_collect, Bool.and_eq_true, decide_eq_true_eq, List.all_eq_true] at hm
  obtain ⟨⟨hnd, hfree⟩, hroom⟩ := hm
  have hrem : ∀ {y}, s.remembers y ↔ (s.begin addrs commit).remembers y ∨
      s.objects_pointing_to_nursery = none ∧ y ∈ s.modified_old_objects := by
    intro y
    cases hopn : s.objects_pointing_to_nursery <;> simp [St.remembers, St.begin, hopn]
  refine ⟨(s.objects_pointing_to_nursery.getD []).length + s.young_objects.length, h.lists (s.begin addrs commit)
    (fun y o _ _ hy => ⟨fun hb => hrem.mp ((hy.1 hb).resolve_right id), hy.2.1, fun heq =>
      ⟨(hy.2.2.1 heq).1, rfl⟩, hy.2.2.2⟩) id
    (fun hy => h.listed (hy.imp_right (Or.imp_right (fun hy => hrem.mpr (.inl hy))))),
    ⟨fun hn => .inl (h.allocated hn), fun y hy => (hfree y hy).imp_right isNone_iff_eq_none.mp, hnd,
      s.young_objects, fun hm hy hoy => ?_, hroom, fun lst hlst => by rw [← some.inj hlst]⟩, rfl⟩
  have hin := h.nursery hm hy
  exact List.mem_filter.mpr ⟨List.mem_range'_1.mpr ⟨hin.1, by omega⟩, isSome_of_mem hoy⟩

/-- The nursery is thrown away, and with it the names of what is still there. -/
theorem throw_away_nursery_spec (h : Inv name g s) {name' : ℕ → Option ℕ} {turns : ℕ}
    (hcur : t.nursery_current = s.nursery_current)
    (ht : Tracing (.plain (fun _ => False) False) turns name' g t)
    (hopn : t.objects_pointing_to_nursery = some []) (hcards : t.old_objects_with_cards = []) :
    Collected (throw_away_nursery t) ∧ ∃ name', Inv name' g (throw_away_nursery t) := by
  have hstart := h.start
  rw [← hcur] at hstart
  set name2 : ℕ → Option ℕ := fun y => if y < NURSERY_END then none else name' y with hname2
  have hname : ∀ {y m}, name2 y = some m → ¬ y < NURSERY_END ∧ name' y = some m := by
    intro y m hm
    simpa [hname2, ite_eq_iff] using hm
  have hobj : ∀ {y o}, (throw_away_nursery t).object y = some o → t.object y = some o := by
    intro y o ho
    rw [object_eq_some] at ho ⊢
    by_cases hin : NURSERY_START ≤ y ∧ y < t.nursery_current
    · simp [throw_away_nursery, hin] at ho
    · exact (if_neg hin).symm.trans ho
  have hc : Collected (throw_away_nursery t) := ⟨rfl, hopn, hcards⟩
  have hkill := ht.kill (c := (throw_away_nursery t).heap) hobj
  -- nothing is left to trace, so no old object and no root has a young pointer
  have hforget := hkill.forget (f := name2) (fun y m hm => (hname hm).2) (fun y hy => if_neg hy)
    (fun {x n o y} hn ho hy => if_neg (fun hys => by
      obtain ⟨hx, hn⟩ := hname hn
      obtain ⟨i, hi⟩ := List.mem_iff_getElem?.mp hy
      have hold := hkill.old hn hx ho
      rcases hold.2.2.2 i y hi hys with hb | hs
      · exact (hold.1 hb).elim hc.not_remembers id
      · exact (hold.2.1 hs.1).2.1))
    (fun hy => if_neg (fun hys => hkill.clean hy hys))
  refine ⟨hc, name2, hforget.lists (throw_away_nursery t) (fun y o _ _ hy => hy.congr False.elim False.elim)
    False.elim hforget.listed, fun hm => ?_,
    ⟨le_refl _, h.start.1.trans h.start.2⟩, fun hm hy => absurd hy (hname hm).1⟩
  obtain ⟨hy, hm⟩ := hname hm
  obtain ⟨o, ho⟩ := (ht.room.cell hm).resolve_right (fun hin => hy hin.1)
  exact ⟨o, (object_congr (if_neg (by omega))).trans ho⟩

theorem do_minor_collection_spec (h : Inv name g s) (hm : s.may_collect addrs = true) (commit : Bool) :
    Returns (do_minor_collection { s with unused := addrs } commit) fun s' =>
      Collected s' ∧ ∃ name', Inv name' g s' := by
  obtain ⟨turns, ht⟩ := h.tracing hm commit
  obtain ⟨s1, hrun1, hsame1, name1, h1⟩ := collect_cardrefs_to_nursery_spec
    (w := .plain _ True) (s := s.begin addrs commit) ht
  have hpend : Returns (if s.objects_pointing_to_nursery.isNone then collect_modified_old_objects s1 else some s1)
      fun s' => Same s1 s' ∧ ∃ name', Tracing (.plain (fun _ => False) True) turns name' g s' := by
    cases hopn : s.objects_pointing_to_nursery with
    | none =>
        refine collect_modified_old_objects_spec (Tracing.pending h1 (fun y hy => ?_))
        exact hsame1.modified_old_objects ▸ hy.2
    | some lst =>
        refine returns_some ⟨.refl, name1, Tracing.pending h1 (fun y hy => ?_)⟩
        simp [Work.plain, hopn] at hy
  obtain ⟨s2, hrun2, hsame2, name2, h2⟩ := hpend
  obtain ⟨s3, hrun3, hsame3, name3, h3⟩ := collect_roots_in_nursery_spec h2
  obtain ⟨s4, hrun4, hsame4, hopn, name4, turns', h4⟩ := collect_oldrefs_to_nursery_spec h3
  have hsame := hsame1.trans ((hsame2.trans hsame3).trans hsame4)
  obtain ⟨hcollected, hinv⟩ := throw_away_nursery_spec h hsame.1 h4 hopn hsame.3
  refine ⟨throw_away_nursery s4, ?_, hcollected, hinv⟩
  cases hopn' : s.objects_pointing_to_nursery <;>
    · simp only [St.begin, hopn', Option.getD_none, Option.getD_some] at hrun1
      simp only [hopn', Option.isNone_none, Option.isNone_some, if_true, if_false, some.injEq,
        Bool.false_eq_true] at hrun2
      simp [do_minor_collection, hrun1, hrun2, hrun3, hrun4, c_assert, hcollected.2]

/-! ## The steps of the program -/

theorem Inv.set_roots (h : Inv name g s) {st st' : List (Option ℕ)}
    (hst : List.Forall₂ (Refers name) st st') :
    Inv name { g with roots := st' } { s with roots := st } :=
  ⟨h.toCore.set_roots hst (fun _ _ => trivial), h.allocated, h.start, h.nursery⟩

theorem Inv.allocate (h : Inv name g s) {size nrefs : ℕ} (uses_cards : Bool) (hsize : 16 ≤ size)
    (hend : s.nursery_current + size ≤ NURSERY_END) :
    Inv (update name s.nursery_current (some g.heap.length))
      ⟨g.heap ++ [List.replicate nrefs none], some g.heap.length :: g.roots⟩
      { s.put s.nursery_current (new_object uses_cards nrefs) with
        nursery_current := s.nursery_current + size
        roots := some s.nursery_current :: s.roots } := by
  have hyoung : s.nursery_current < NURSERY_END := by omega
  have hlt : ∀ {y m}, name y = some m → m < g.heap.length := by
    intro y m hm
    obtain ⟨o, ho⟩ := h.allocated hm
    obtain ⟨refs, hrefs, -⟩ := h.object hm ho
    exact (List.getElem?_eq_some_iff.mp hrefs).1
  have hadd := h.add (u := s.work) (n := g.heap.length)
    (e := { g with heap := g.heap ++ [List.replicate nrefs none] }) (o := new_object uses_cards nrefs)
    (fun m hm => absurd (h.nursery hm hyoung).2 (lt_irrefl _))
    (fun hy => absurd (hlt hy) (lt_irrefl _))
    (fun _ hm => (List.getElem?_append_left (List.getElem?_eq_some_iff.mp hm).1).trans hm)
    rfl (List.getElem?_concat_length ..) (refers_replicate_none _) .refl (fun _ => ⟨rfl, rfl, rfl⟩)
    (fun hold => absurd hyoung hold)
  have hroots : List.Forall₂ (Refers (update name s.nursery_current (some g.heap.length)))
      (some s.nursery_current :: s.roots) (some g.heap.length :: g.roots) :=
    .cons (refers_some.mpr ⟨_, rfl, update_self ..⟩) hadd.roots
  have hcore := (hadd.set_roots hroots (fun _ _ => trivial)).lists
    { s with nursery_current := s.nursery_current + size } (u := s.work) (fun _ _ _ _ ho => ho) id
    hadd.listed
  refine ⟨hcore, @fun y m hm => ?_, ⟨h.start.1.trans (Nat.le_add_right ..), hend⟩, @fun y m hm hy => ?_⟩
  · by_cases hy : y = s.nursery_current
    · exact ⟨new_object uses_cards nrefs, object_eq_some.mpr (hy ▸ update_self ..)⟩
    · exact (h.allocated ((update_of_ne hy ..).symm.trans hm)).imp fun _ ho => (object_put_of_ne hy).trans ho
  · by_cases hyc : y = s.nursery_current
    · rw [hyc]
      exact ⟨h.start.1, Nat.lt_add_of_pos_right (by omega)⟩
    · exact (h.nursery ((update_of_ne hyc ..).symm.trans hm) hy).imp_right (·.trans_le (Nat.le_add_right ..))

/-- One object was written to. -/
theorem Inv.of_core (h : Inv name g s) (hc : Core t.work name g' t)
    (hheap : t.heap = (s.put x k).heap) (hcur : t.nursery_current = s.nursery_current) : Inv name g' t := by
  refine ⟨hc, @fun y m hm => ?_, hcur ▸ h.start, fun hm hy => hcur ▸ h.nursery hm hy⟩
  rw [object_congr (s := s.put x k) (congrFun hheap y)]
  by_cases hy : y = x
  · exact ⟨k, hy ▸ object_put_self⟩
  · exact (h.allocated hm).imp fun _ hoy => (object_put_of_ne hy).trans hoy

/-- A store that the write barrier allows. -/
theorem Inv.store (h : Inv name g s) {slot u : Slot} {v q : Option ℕ} (hu : slot.rename name = some u)
    (hv : Refers name v q) (hload : (s.load slot).isSome) (hmay : s.may_store slot = true) :
    Returns (s.store slot v) (Inv name (g.store u q)) := by
  cases slot with
  | field x i =>
      obtain ⟨n, hn, rfl⟩ := map_eq_some_iff.mp hu
      obtain ⟨w, hw⟩ := isSome_iff_exists.mp hload
      obtain ⟨o, ho, -⟩ := bind_eq_some_iff.mp hw
      obtain ⟨refs, hrefs, hall⟩ := h.object hn ho
      rw [St.store, ho, Option.map_some, Graph.store_field hrefs]
      refine returns_some (h.of_core (h.put hn ho (forall₂_set hall i hv) .refl (fun _ hy => ⟨hy.1, hy.2, hy.3⟩)
        (fun _ hx => ⟨hx.1, hx.2.1, hx.2.2.1, fun j y hj hy => ?_⟩)) rfl rfl)
      by_cases hij : i = j
      · subst hij
        simpa only [St.may_store, ho, Option.any_some, Bool.or_eq_true, Bool.not_eq_true',
          Bool.and_eq_true, beq_iff_eq] using hmay
      · exact hx.2.2.2 j y ((List.getElem?_set_ne hij).symm.trans hj) hy
  | root i =>
      obtain rfl := some.inj hu
      exact returns_some (h.set_roots (forall₂_set h.roots i hv))

/-! ## The write barriers -/

/-- The lists and the cards change. -/
theorem Inv.of_lists (h : Inv name g s) (ho : s.object x = some o) (t : St) (hc : Core t.work name g (t.with_heap s))
    (hcur : t.nursery_current = s.nursery_current) : Inv name g (t.with_heap s) :=
  h.of_core (k := o) hc (update_eq_self_iff.mpr (object_eq_some.mp ho).symm).symm hcur

/-- An object that this transaction has not made is in `modified_old_objects`
from now on. -/
theorem Inv.own (h : Inv name g s) (hn : name x = some n) (ho : s.object x = some o)
    (hold : ¬ x < NURSERY_END) (hnum : o.overflow_number ≠ s.overflow_number) :
    Inv name g { s with modified_old_objects := s.modified_old_objects.insert x } := by
  set t : St := { s with modified_old_objects := s.modified_old_objects.insert x }
  have hrem : ∀ {y}, s.remembers y → t.remembers y := by
    intro y hy
    cases hopn : s.objects_pointing_to_nursery <;> simp_all [St.remembers, t]
  refine h.of_lists ho t (h.lists t (fun y oy _ hoy hy => ⟨fun hb => (hy.1 hb).imp_left hrem, fun hs =>
    (hy.2.1 hs).imp_right (And.imp_right (Or.imp_right List.mem_insert_of_mem)), fun heq => ?_, hy.2.2.2⟩)
    id (fun {y} hy => ?_)) rfl
  · refine (hy.2.2.1 heq).imp_left (fun hnot hin => (List.mem_insert_iff.mp hin).elim (fun hyx => hnum ?_) hnot)
    rwa [some.inj (ho.symm.trans (hyx ▸ hoy))]
  · by_cases hyx : y = x
    · exact hyx ▸ ⟨by simp [hn], hold⟩
    · refine h.listed ?_
      cases hopn : s.objects_pointing_to_nursery <;> simp_all [St.remembers, t]

/-- The end of both slow paths, for an object that this transaction owns. -/
theorem Inv.change_flags (h : Inv name g s) (hn : name x = some n) (ho : s.object x = some o)
    (hold : ¬ x < NURSERY_END) (hb : o.write_barrier = true) (mark : Bool) (v : ℕ) (all : Bool)
    (hown : o.overflow_number = s.overflow_number ∨ x ∈ s.modified_old_objects) :
    Inv name g (change_flags s x o mark (s.objects_pointing_to_nursery.map (x :: ·)) v all) := by
  obtain ⟨refs, hrefs, hall⟩ := h.object hn ho
  have hx := h.old hn hold ho
  have hget := @Graph.set_eq_self g n refs hrefs
  have hnamed : (name x).isSome ∧ ¬ x < NURSERY_END := ⟨by simp [hn], hold⟩
  unfold Nursery.change_flags
  cases mark with
  | true =>
      set t : St := { s with old_objects_with_cards := x :: s.old_objects_with_cards }
      have hlists := h.lists t (u := t.work) (fun y oy _ _ hy => hy.congr id (List.mem_cons_of_mem _)) id
        (fun {y} hy => by
          by_cases hyx : y = x
          · exact hyx ▸ hnamed
          · exact h.listed (hy.imp_right (Or.imp_left fun hy => (List.mem_cons.mp hy).resolve_left hyx)))
      have hcore := hlists.put (k := { o with cards_set := true }) hn ho hall .refl (fun hy => absurd hy hold)
        (fun _ _ => ⟨hx.1, fun _ => ⟨hb, List.mem_cons_self, hown⟩, hx.2.2.1, fun i y hi hy =>
          (hx.2.2.2 i y hi hy).imp_right (fun hs => ⟨rfl, hs.2⟩)⟩)
      rw [hget] at hcore
      exact h.of_core hcore rfl rfl
  | false =>
      set t : St := { s with objects_pointing_to_nursery := s.objects_pointing_to_nursery.map (x :: ·) }
      have hrem : ∀ {y}, t.remembers y ↔ y = x ∨ s.remembers y := by
        intro y
        cases hopn : s.objects_pointing_to_nursery with
        | none =>
            have hmem := hown.resolve_left (fun heq => by simpa [hopn] using (hx.2.2.1 heq).2)
            simp only [St.remembers, t, hopn, Option.map_none, Option.getD_none]
            exact ⟨.inr, fun hy => hy.elim (fun heq => heq ▸ hmem) id⟩
        | some lst => simp [St.remembers, t, hopn]
      have hlists := h.lists t (u := t.work) (fun y oy _ _ hy => ⟨fun hb => (hy.1 hb).imp_left
          fun hy => hrem.mpr (.inr hy), hy.2.1, fun heq => (hy.2.2.1 heq).imp_right (isSome_map.trans ·),
          hy.2.2.2⟩) id
        (fun {y} hy => by
          by_cases hyx : y = x
          · exact hyx ▸ hnamed
          · exact h.listed (hy.imp_right (Or.imp_right fun hy => (hrem.mp hy).resolve_left hyx)))
      have hcore := hlists.put (k := { o with write_barrier := false, cards_set := false }) hn ho hall .refl
        (fun hy => absurd hy hold) (fun _ hx => ⟨fun _ => .inl (hrem.mpr (.inl rfl)), fun hs => by simp at hs,
          hx.2.2.1, fun _ _ _ _ => .inl rfl⟩)
      rw [hget] at hcore
      rw [if_neg (by simp)]
      obtain ⟨f, hf⟩ : ∃ f, (if o.cards_set then reset_object_cards s x o v all else s.cards) =
          update s.cards x f := by
        by_cases hs : o.cards_set = true
        · exact ⟨_, if_pos hs⟩
        · exact ⟨_, (if_neg hs).trans (update_eq_self ..).symm⟩
      rw [hf]
      exact h.of_core (hcore.cards (x := x) (fun oy hoy => by rw [← some.inj (object_put_self.symm.trans hoy)]) f)
        rfl rfl

theorem Inv.slot (h : Inv name g s) {p : Place} {slot : Slot} (hp : p.slot s.roots = some slot) :
    ∃ u, p.slot g.roots = some u ∧ slot.rename name = some u := by
  cases p with
  | root i =>
      obtain rfl := some.inj hp
      exact ⟨_, rfl, rfl⟩
  | field i k =>
      obtain ⟨x, hx, rfl⟩ := map_eq_some_iff.mp hp
      obtain ⟨q, hq, href⟩ := forall₂_getElem? h.roots (join_eq_some_iff.mp hx)
      obtain ⟨n, rfl, hn⟩ := refers_some.mp href
      exact ⟨.field n k, by simp [Place.slot, hq], by simp [Slot.rename, hn]⟩

/-- The object that a root points to. -/
theorem Inv.root (h : Inv name g s) {i : ℕ} (hi : s.roots[i]?.join = some x) :
    ∃ n o, name x = some n ∧ s.object x = some o := by
  obtain ⟨n, hn⟩ := refers_list_name h.roots (List.mem_of_getElem? (join_eq_some_iff.mp hi))
  obtain ⟨o, ho⟩ := h.allocated hn
  exact ⟨n, o, hn, ho⟩

/-- The beginning of a transaction: all objects are old, and nothing was
written to. -/
structure Start (name : ℕ → Option ℕ) (g : Graph) (s : St) : Prop extends Represents name g s where
  old : ∀ {x n}, name x = some n → ∃ o, s.object x = some o ∧ ¬ x < NURSERY_END ∧
    o.write_barrier = true ∧ o.cards_set = false ∧ o.overflow_number ≠ s.overflow_number
  nursery : s.nursery_current = NURSERY_START
  modified_old_objects : s.modified_old_objects = []
  objects_pointing_to_nursery : s.objects_pointing_to_nursery = none
  old_objects_with_cards : s.old_objects_with_cards = []

theorem Start.inv (h : Start name g s) : Inv name g s := by
  have hrem : ∀ {x}, ¬ s.remembers x := by
    simp [St.remembers, h.objects_pointing_to_nursery, h.modified_old_objects]
  have hold : ∀ {x n o}, name x = some n → s.object x = some o → ¬ x < NURSERY_END ∧
      o.write_barrier = true ∧ o.cards_set = false ∧ o.overflow_number ≠ s.overflow_number := by
    intro x n o hn ho
    obtain ⟨o', ho', hrest⟩ := h.old hn
    exact some.inj (ho'.symm.trans ho) ▸ hrest
  have hyoung : ∀ {x n}, name x = some n → ¬ x < NURSERY_END := fun hn => (h.old hn).choose_spec.2.1
  refine ⟨⟨h.toRepresents, fun hn hx => absurd hx (hyoung hn), fun hn _ ho => ?_, fun _ _ => trivial,
    fun hx => ?_⟩, fun hn => (h.old hn).imp fun _ ho => ho.1, ?_,
    fun hn hx => absurd hx (hyoung hn)⟩
  · obtain ⟨-, hb, hset, hnum⟩ := hold hn ho
    refine ⟨fun hf => absurd hf (by simp [hb]), fun hs => absurd hs (by simp [hset]), fun heq => absurd heq hnum,
      fun i y hi hy => ?_⟩
    obtain ⟨refs, -, hall⟩ := h.object hn ho
    obtain ⟨m, hm⟩ := refers_list_name hall (List.mem_of_getElem? hi)
    exact absurd hy (hyoung hm)
  · simp [h.modified_old_objects, h.old_objects_with_cards, hrem] at hx
  · rw [h.nursery]
    decide

/-- The objects of the graph are in memory. -/
def Represented (g : Graph) (s : St) : Prop :=
  ∃ name, Represents name g s ∧ ∀ x n, name x = some n → ∃ o, s.object x = some o

/-- An object that the program can get to. -/
inductive Live (s : St) : ℕ → Prop where
  | root {x : ℕ} : some x ∈ s.roots → Live s x
  | ref {x y : ℕ} {o : Obj} : Live s x → s.object x = some o → some y ∈ o.refs → Live s y

theorem Represents.live (h : Represents name g s) (hx : Live s x) : ∃ n, name x = some n := by
  induction hx with
  | root hx => exact refers_list_name h.roots hx
  | ref _ ho hy ih =>
      obtain ⟨n, hn⟩ := ih
      obtain ⟨refs, -, hall⟩ := h.object hn ho
      exact refers_list_name hall hy

end Stmgc.C7.Nursery
