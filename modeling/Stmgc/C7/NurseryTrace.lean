/-
What tracing keeps.

All names of objects stay what they are when the objects move, so the relation
between the memory and the graph of the objects ([`Represents`]) never changes;
the original of an object that has moved keeps its name too. Beside it is what
a collection has left to do ([`Work`]): an old object has pointers to young ones
only where it is still going to be traced ([`Old`]).
-/
import Stmgc.C7.Nursery

namespace Stmgc.C7.Nursery

open Function Option Stmgc.Lib
open HashId (NURSERY_START NURSERY_END)

/-! ## Objects and slots -/

section

variable {s s' : St} {g : Graph} {x y n i j : ℕ} {o : Obj} {name : ℕ → Option ℕ} {refs ps ps' : List (Option ℕ)}
  {v : Option ℕ}

theorem object_eq_some : s.object x = some o ↔ s.heap x = some (.object o) := by
  unfold St.object
  cases s.heap x with
  | none => simp
  | some c =>
      cases c with
      | object o' => simp
      | moved y => simp

theorem object_congr (h : s'.heap x = s.heap x) : s'.object x = s.object x := by
  unfold St.object
  rw [h]

@[simp] theorem object_put_self : (s.put x o).object x = some o :=
  object_eq_some.mpr (update_self ..)

theorem object_put_of_ne (h : y ≠ x) : (s.put x o).object y = s.object y :=
  object_congr (update_of_ne h ..)

theorem object_put_cases {o' : Obj} (ho : (s.put x o).object y = some o') :
    y = x ∧ o' = o ∨ y ≠ x ∧ s.object y = some o' := by
  by_cases hy : y = x
  · subst hy
    exact .inl ⟨rfl, (some.inj (object_put_self.symm.trans ho)).symm⟩
  · exact .inr ⟨hy, (object_put_of_ne hy).symm.trans ho⟩

/-- What was at `x` is not an object any more. -/
theorem object_kill {c : Option Cell} (hc : ∀ o, c ≠ some (.object o))
    (ho : ({ s with heap := update s.heap x c } : St).object y = some o) : y ≠ x ∧ s.object y = some o := by
  have hy : y ≠ x := by
    rintro rfl
    exact hc o ((update_self y c s.heap).symm.trans (object_eq_some.mp ho))
  exact ⟨hy, (object_congr (update_of_ne hy ..)).symm.trans ho⟩

/-- The same slot in the graph. -/
def Slot.rename (name : ℕ → Option ℕ) : Slot → Option Slot
  | .field x i => (name x).map (.field · i)
  | .root i => some (.root i)

def Graph.set (g : Graph) (n : ℕ) (refs : List (Option ℕ)) : Graph :=
  { g with heap := g.heap.set n refs }

theorem Graph.set_eq_self (h : g.heap[n]? = some refs) : g.set n refs = g := by
  obtain ⟨hn, hget⟩ := List.getElem?_eq_some_iff.mp h
  rw [Graph.set, ← hget, List.set_getElem_self]

theorem Graph.store_field (h : g.heap[n]? = some refs) : g.store (.field n i) v = g.set n (refs.set i v) := by
  simp [Graph.store, Graph.set, List.modify_eq_set_getElem?, h]

theorem Graph.store_eq_self {t : Slot} (h : g.load t = some v) : g.store t v = g := by
  cases t with
  | field n i =>
      obtain ⟨refs, hrefs, hq⟩ := bind_eq_some_iff.mp h
      obtain ⟨hi, hget⟩ := List.getElem?_eq_some_iff.mp hq
      rw [Graph.store_field hrefs, ← hget, List.set_getElem_self, Graph.set_eq_self hrefs]
  | root i =>
      obtain ⟨hi, hget⟩ := List.getElem?_eq_some_iff.mp h
      rw [Graph.store, ← hget, List.set_getElem_self]

/-- No pointer to a young object appears. -/
def Cleaner (ps ps' : List (Option ℕ)) : Prop :=
  ps'.length = ps.length ∧ ∀ (i : ℕ) y, ps'[i]? = some (some y) → y < NURSERY_END → ps[i]? = some (some y)

theorem Cleaner.refl : Cleaner ps ps := ⟨rfl, fun _ _ h _ => h⟩

theorem getElem?_set_young (hv : ∀ y, v = some y → ¬ y < NURSERY_END) (hj : (ps.set i v)[j]? = some (some y))
    (hy : y < NURSERY_END) : i ≠ j ∧ ps[j]? = some (some y) := by
  have hij : i ≠ j := by
    rintro rfl
    obtain ⟨_, hi⟩ := List.getElem?_eq_some_iff.mp hj
    rw [List.getElem_set_self] at hi
    exact hv y hi hy
  exact ⟨hij, (List.getElem?_set_ne hij).symm.trans hj⟩

theorem Cleaner.set (hv : ∀ y, v = some y → ¬ y < NURSERY_END) : Cleaner ps (ps.set i v) :=
  ⟨List.length_set, fun _ _ hj hy => (getElem?_set_young hv hj hy).2⟩

end

/-! ## The invariant -/

/-- The memory represents the graph. An object has one place at most. -/
structure Represents (name : ℕ → Option ℕ) (g : Graph) (s : St) : Prop where
  object : ∀ {x n o}, name x = some n → s.object x = some o →
    ∃ refs, g.heap[n]? = some refs ∧ List.Forall₂ (Refers name) o.refs refs
  inj : ∀ {x y n o o'}, name x = some n → name y = some n → s.object x = some o →
    s.object y = some o' → x = y
  roots : List.Forall₂ (Refers name) s.roots g.roots

/-- What is left to do: objects that are going to be traced although they are
not in `objects_pointing_to_nursery`, objects whose cards are, and the roots. -/
structure Work where
  pending : ℕ → Prop
  carded : ℕ → Prop
  roots : Prop

/-- Until there is `objects_pointing_to_nursery`, `modified_old_objects` stands for it. -/
def St.remembers (s : St) (x : ℕ) : Prop :=
  x ∈ s.objects_pointing_to_nursery.getD s.modified_old_objects

/-- A young object has no flags. -/
structure Young (o : Obj) : Prop where
  write_barrier : o.write_barrier = false
  cards_set : o.cards_set = false
  overflow_number : o.overflow_number = 0

/-- An old object without `WRITE_BARRIER` is going to be traced, and one with
`CARDS_SET` as far as its cards say; only there it has pointers to young ones.
It has `CARDS_SET` only when this transaction has made it or writes to it, and
then it is not new to the transaction. -/
def Old (w : Work) (s : St) (x : ℕ) (o : Obj) : Prop :=
  (o.write_barrier = false → s.remembers x ∨ w.pending x) ∧
  (o.cards_set = true → o.write_barrier = true ∧ w.carded x ∧
    (o.overflow_number = s.overflow_number ∨ x ∈ s.modified_old_objects)) ∧
  (o.overflow_number = s.overflow_number →
    x ∉ s.modified_old_objects ∧ s.objects_pointing_to_nursery.isSome) ∧
  ∀ i y, o.refs[i]? = some (some y) → y < NURSERY_END → o.write_barrier = false ∨
    o.cards_set = true ∧ s.cards x (get_index_to_card_index i) = CARD_MARKED

structure Core (w : Work) (name : ℕ → Option ℕ) (g : Graph) (s : St) : Prop
    extends Represents name g s where
  young : ∀ {x n o}, name x = some n → x < NURSERY_END → s.object x = some o → Young o
  old : ∀ {x n o}, name x = some n → ¬ x < NURSERY_END → s.object x = some o → Old w s x o
  clean : ∀ {y}, some y ∈ s.roots → y < NURSERY_END → w.roots
  listed : ∀ {x}, x ∈ s.modified_old_objects ∨ x ∈ s.old_objects_with_cards ∨ s.remembers x →
    (name x).isSome ∧ ¬ x < NURSERY_END

/-! ## Changes -/

section

variable {w u : Work} {name : ℕ → Option ℕ} {g e : Graph} {s : St} {x n : ℕ} {o k : Obj}
  {slot t : Slot} {v : Option ℕ} {refs : List (Option ℕ)}

theorem Represents.load (h : Represents name g s) (ht : slot.rename name = some t)
    (hv : s.load slot = some v) : ∃ q, g.load t = some q ∧ Refers name v q := by
  cases slot with
  | field x i =>
      obtain ⟨n, hn, rfl⟩ := map_eq_some_iff.mp ht
      obtain ⟨o, ho, hi⟩ := bind_eq_some_iff.mp hv
      obtain ⟨refs, hrefs, hall⟩ := h.object hn ho
      obtain ⟨q, hq, href⟩ := forall₂_getElem? hall hi
      exact ⟨q, by simp [Graph.load, hrefs, hq], href⟩
  | root i =>
      obtain rfl := some.inj ht
      exact forall₂_getElem? h.roots hv

/-- For all objects but `x`, no less is left to do. -/
structure Agrees (w u : Work) (x : ℕ) : Prop where
  pending : ∀ y, y ≠ x → w.pending y → u.pending y
  carded : ∀ y, y ≠ x → w.carded y → u.carded y
  roots : w.roots → u.roots

theorem Agrees.refl : Agrees w w x := ⟨fun _ _ h => h, fun _ _ h => h, id⟩

theorem Old.congr (h : Old w s x o) (hp : w.pending x → u.pending x)
    (hc : w.carded x → u.carded x) : Old u s x o :=
  ⟨fun hb => (h.1 hb).imp_right hp, fun hset => (h.2.1 hset).imp_right (And.imp_left hc), h.2.2⟩

/-- Objects disappear. -/
theorem Core.kill (h : Core w name g s) {c : ℕ → Option Cell}
    (hsub : ∀ {x o}, ({ s with heap := c } : St).object x = some o → s.object x = some o) :
    Core w name g { s with heap := c } :=
  ⟨⟨fun hn ho => h.object hn (hsub ho), fun hx hy ho ho' => h.inj hx hy (hsub ho) (hsub ho'), h.roots⟩,
    fun hn hx ho => h.young hn hx (hsub ho), fun hn hx ho => h.old hn hx (hsub ho), h.clean, h.listed⟩

/-- An object appears, for a name that no object has. -/
theorem Core.add (h : Core w name g s) (hx : ∀ m, name x = some m → m = n)
    (hn : ∀ {y}, name y = some n → s.object y = none)
    (hg : ∀ {m refs}, m ≠ n → g.heap[m]? = some refs → e.heap[m]? = some refs) (hroots : e.roots = g.roots)
    (hget : e.heap[n]? = some refs) (hrefs : List.Forall₂ (Refers name) o.refs refs) (hw : Agrees w u x)
    (hyoung : x < NURSERY_END → Young o) (hold : ¬ x < NURSERY_END → Old u s x o) :
    Core u (update name x (some n)) e (s.put x o) := by
  have hk : KeepsNames name (update name x (some n)) := .update hx
  have hcases : ∀ {y m oy}, update name x (some n) y = some m → (s.put x o).object y = some oy →
      y = x ∧ m = n ∧ oy = o ∨ y ≠ x ∧ m ≠ n ∧ name y = some m ∧ s.object y = some oy := by
    intro y m oy hm hoy
    rcases object_put_cases hoy with ⟨rfl, rfl⟩ | ⟨hy, hoy⟩
    · exact .inl ⟨rfl, (some.inj ((update_self y (some n) name).symm.trans hm)).symm, rfl⟩
    · replace hm := (update_of_ne hy ..).symm.trans hm
      exact .inr ⟨hy, fun heq => by simp [hn (heq ▸ hm)] at hoy, hm, hoy⟩
  refine ⟨⟨fun hm hoy => ?_, fun hy hz hoy hoz => ?_, hroots ▸ hk.refers_list h.roots⟩,
    fun hm hy hoy => ?_, fun hm hy hoy => ?_, fun hy hys => hw.roots (h.clean hy hys),
    fun hy => (h.listed hy).imp_left hk.isSome⟩
  · rcases hcases hm hoy with ⟨rfl, rfl, rfl⟩ | ⟨-, hne, hm, hoy⟩
    · exact ⟨refs, hget, hk.refers_list hrefs⟩
    · obtain ⟨refs', hget', hall⟩ := h.object hm hoy
      exact ⟨refs', hg hne hget', hk.refers_list hall⟩
  · rcases hcases hy hoy with ⟨rfl, rfl, -⟩ | ⟨-, hne, hy, hoy⟩
    · exact ((hcases hz hoz).resolve_right (fun hz => hz.2.1 rfl)).1.symm
    · rcases hcases hz hoz with ⟨-, rfl, -⟩ | ⟨-, -, hz, hoz⟩
      · exact absurd rfl hne
      · exact h.inj hy hz hoy hoz
  · rcases hcases hm hoy with ⟨rfl, -, rfl⟩ | ⟨-, -, hm, hoy⟩
    · exact hyoung hy
    · exact h.young hm hy hoy
  · rcases hcases hm hoy with ⟨rfl, -, rfl⟩ | ⟨hyx, -, hm, hoy⟩
    · exact hold hy
    · exact (h.old hm hy hoy).congr (hw.pending _ hyx) (hw.carded _ hyx)

/-- One object is written to: it disappears, and appears again. -/
theorem Core.put (h : Core w name g s) (hn : name x = some n) (ho : s.object x = some o)
    (hrefs : List.Forall₂ (Refers name) k.refs refs) (hw : Agrees w u x)
    (hyoung : x < NURSERY_END → Young o → Young k)
    (hold : ¬ x < NURSERY_END → Old w s x o → Old u s x k) :
    Core u name (g.set n refs) (s.put x k) := by
  obtain ⟨refs', hget, -⟩ := h.object hn ho
  have hlt := (List.getElem?_eq_some_iff.mp hget).1
  have hgone : ∀ {y oy}, ({ s with heap := update s.heap x none } : St).object y = some oy →
      y ≠ x ∧ s.object y = some oy := object_kill (by simp)
  have hadd := (h.kill (fun hoy => (hgone hoy).2)).add (x := x) (n := n) (e := g.set n refs)
    (fun m hm => some.inj (hm.symm.trans hn))
    (fun hy => eq_none_iff_forall_ne_some.mpr fun oy hoy =>
      (hgone hoy).1 (h.inj hy hn (hgone hoy).2 ho))
    (fun hne hm => (List.getElem?_set_ne hne.symm).trans hm) rfl (List.getElem?_set_self hlt) hrefs hw
    (fun hx => hyoung hx (h.young hn hx ho)) (fun hx => hold hx (h.old hn hx ho))
  rwa [← hn, update_eq_self, St.put, update_idem] at hadd

/-- Names of young objects are forgotten that no pointer needs. -/
theorem Core.forget (h : Core w name g s) {f : ℕ → Option ℕ} (hsub : KeepsNames f name)
    (hold : ∀ x, ¬ x < NURSERY_END → f x = name x)
    (hobj : ∀ {x n o y}, f x = some n → s.object x = some o → some y ∈ o.refs → f y = name y)
    (hroots : ∀ {y}, some y ∈ s.roots → f y = name y) : Core w f g s := by
  refine ⟨⟨@fun x n o hn ho => ?_, fun hx hy => h.inj (hsub _ _ hx) (hsub _ _ hy),
    refers_list_mono h.roots fun y hy m hm => hroots hy ▸ hm⟩, fun hn => h.young (hsub _ _ hn),
    fun hn => h.old (hsub _ _ hn), h.clean, fun hx => ?_⟩
  · obtain ⟨refs, hget, hall⟩ := h.object (hsub _ _ hn) ho
    exact ⟨refs, hget, refers_list_mono hall fun y hy m hm => hobj hn ho hy ▸ hm⟩
  · exact ⟨hold _ (h.listed hx).2 ▸ (h.listed hx).1, (h.listed hx).2⟩

/-- The heap and the roots of `s`, and the rest of `t`. -/
def St.with_heap (t s : St) : St :=
  { t with
    heap := s.heap
    roots := s.roots }

/-- The lists and the cards change, or what is left to do. -/
theorem Core.lists (h : Core w name g s) (t : St)
    (hold : ∀ x o, ¬ x < NURSERY_END → s.object x = some o → Old w s x o → Old u t x o)
    (hroots : w.roots → u.roots)
    (hlisted : ∀ {x}, x ∈ t.modified_old_objects ∨ x ∈ t.old_objects_with_cards ∨ t.remembers x →
      (name x).isSome ∧ ¬ x < NURSERY_END) :
    Core u name g (t.with_heap s) :=
  ⟨⟨h.object, h.inj, h.roots⟩, h.young, fun hn hx ho => hold _ _ hx ho (h.old hn hx ho),
    fun hy hys => hroots (h.clean hy hys), hlisted⟩

/-- The roots change. -/
theorem Core.set_roots (h : Core w name g s) {st st' : List (Option ℕ)}
    (hst : List.Forall₂ (Refers name) st st') (hclean : ∀ {y}, some y ∈ st → y < NURSERY_END → w.roots) :
    Core w name { g with roots := st' } { s with roots := st } :=
  ⟨⟨h.object, h.inj, hst⟩, h.young, h.old, hclean, h.listed⟩

end

/-! ## Moving an object out -/

/-- Every object is where its name says, or has moved. There is memory for all
objects that are still young, and what is left to trace takes `turns` turns at
most. -/
structure Room (turns : ℕ) (name : ℕ → Option ℕ) (s : St) : Prop where
  cell : ∀ {x n}, name x = some n → (∃ o, s.object x = some o) ∨
    x < NURSERY_END ∧ ∃ y, s.heap x = some (.moved y) ∧ name y = some n ∧ ¬ y < NURSERY_END
  unused : ∀ y ∈ s.unused, NURSERY_END ≤ y ∧ s.heap y = none
  nodup : s.unused.Nodup
  todo : ∃ todo : List ℕ,
    (∀ {x n o}, name x = some n → x < NURSERY_END → s.object x = some o → x ∈ todo) ∧
    todo.length ≤ s.unused.length ∧
    ∀ lst, s.objects_pointing_to_nursery = some lst → lst.length + todo.length ≤ turns

structure Tracing (w : Work) (turns : ℕ) (name : ℕ → Option ℕ) (g : Graph) (s : St) : Prop
    extends Core w name g s where
  room : Room turns name s
  to_trace : s.objects_pointing_to_nursery.isSome

/-- What a collection does not change before the end. -/
structure Same (s s' : St) : Prop where
  nursery_current : s'.nursery_current = s.nursery_current
  modified_old_objects : s'.modified_old_objects = s.modified_old_objects
  old_objects_with_cards : s'.old_objects_with_cards = s.old_objects_with_cards

/-- What tracing does not change. -/
structure Kept (name : ℕ → Option ℕ) (s : St) (name' : ℕ → Option ℕ) (s' : St) : Prop
    extends Same s s' where
  names : KeepsNames name name'
  object : ∀ {x o}, (name x).isSome → ¬ x < NURSERY_END → s.object x = some o →
    ∃ refs, s'.object x = some { o with refs := refs } ∧ Cleaner o.refs refs
  roots : Cleaner s.roots s'.roots

section

variable {w : Work} {turns : ℕ} {name name' name'' : ℕ → Option ℕ} {g : Graph} {s s' s'' : St}
  {x n nobj : ℕ} {o : Obj} {lst unused : List ℕ}

theorem Same.refl : Same s s := ⟨rfl, rfl, rfl⟩

theorem Same.trans (h : Same s s') (h' : Same s' s'') : Same s s'' :=
  ⟨h'.1.trans h.1, h'.2.trans h.2, h'.3.trans h.3⟩

theorem Kept.refl : Kept name s name s := ⟨.refl, .refl _, fun _ _ ho => ⟨_, ho, .refl⟩, .refl⟩

theorem Cleaner.trans {ps ps' ps'' : List (Option ℕ)} (h : Cleaner ps ps') (h' : Cleaner ps' ps'') :
    Cleaner ps ps'' := ⟨h'.1.trans h.1, fun i y hi hy => h.2 i y (h'.2 i y hi hy) hy⟩

theorem Kept.trans (h : Kept name s name' s') (h' : Kept name' s' name'' s'') :
    Kept name s name'' s'' where
  toSame := h.toSame.trans h'.toSame
  names := h.names.trans h'.names
  object := by
    intro x o hn hx ho
    obtain ⟨refs, ho', hc⟩ := h.object hn hx ho
    obtain ⟨refs', ho'', hc'⟩ := h'.object (h.names.isSome hn) hx ho'
    exact ⟨refs', ho'', hc.trans hc'⟩
  roots := h.roots.trans h'.roots

/-- `minor_trace_if_young` moves an object out, to memory that was free. -/
structure Promotion (w : Work) (turns : ℕ) (name : ℕ → Option ℕ) (g : Graph) (s : St) (x n : ℕ)
    (o : Obj) (nobj : ℕ) (lst unused : List ℕ) : Prop where
  tracing : Tracing w turns name g s
  named : name x = some n
  young : x < NURSERY_END
  object : s.object x = some o
  to_trace : s.objects_pointing_to_nursery = some lst
  malloc : s.unused = nobj :: unused

namespace Promotion

/-- The copy. -/
def copy (_ : Promotion w turns name g s x n o nobj lst unused) : Obj :=
  { o with overflow_number := if s.minor_collect_will_commit_now then 0 else s.overflow_number }

/-- The state afterwards. -/
abbrev st (P : Promotion w turns name g s x n o nobj lst unused) : St :=
  { s with
    heap := update (update s.heap x (some (.moved nobj))) nobj (some (.object P.copy))
    objects_pointing_to_nursery := some (nobj :: lst)
    unused := unused }

/-- The names afterwards. -/
abbrev names (_ : Promotion w turns name g s x n o nobj lst unused) : ℕ → Option ℕ :=
  update name nobj (some n)

variable {y : ℕ} {oy : Obj} (P : Promotion w turns name g s x n o nobj lst unused)

include P

theorem outside : NURSERY_END ≤ nobj ∧ s.heap nobj = none :=
  P.tracing.room.unused nobj (P.malloc ▸ List.mem_cons_self)

theorem ne : x ≠ nobj := (lt_of_lt_of_le P.young P.outside.1).ne

theorem old : ¬ nobj < NURSERY_END := not_lt.mpr P.outside.1

theorem flags : Young o := P.tracing.young P.named P.young P.object

theorem unnamed : name nobj = none := by
  refine eq_none_iff_forall_ne_some.mpr (fun m hm => ?_)
  rcases P.tracing.room.cell hm with ⟨o, ho⟩ | ⟨hlt, -⟩
  · exact absurd (P.outside.2.symm.trans (object_eq_some.mp ho)) (by simp)
  · exact P.old hlt

theorem keeps : KeepsNames name P.names := .update fun m hm => by simp [P.unnamed] at hm

/-- Whatever had a name and was old is not touched. -/
theorem far (hy : (name y).isSome) (hys : ¬ y < NURSERY_END) : y ≠ x ∧ y ≠ nobj :=
  ⟨fun heq => hys (heq ▸ P.young), fun heq => by simp [heq, P.unnamed] at hy⟩

theorem moved : P.st.heap x = some (.moved nobj) := (update_of_ne P.ne ..).trans (update_self ..)

theorem other (hx : y ≠ x) (hy : y ≠ nobj) : P.st.heap y = s.heap y :=
  (update_of_ne hy ..).trans (update_of_ne hx ..)

theorem remembers : P.st.remembers y ↔ y = nobj ∨ s.remembers y := by simp [St.remembers, P.to_trace]

theorem core : Core w P.names g P.st := by
  obtain ⟨refs, hget, hall⟩ := P.tracing.object P.named P.object
  have hgone : ∀ {y oy}, ({ s with heap := update s.heap x (some (.moved nobj)) } : St).object y = some oy →
      y ≠ x ∧ s.object y = some oy := object_kill (by simp)
  have hnot : ¬ (name nobj).isSome := fun hy => (P.far hy P.old).2 rfl
  -- the object in the nursery goes first, since two objects cannot have one name
  have hadd := (P.tracing.kill (fun hoy => (hgone hoy).2)).add (e := g) (o := P.copy)
    (u := { w with pending := fun y => w.pending y ∨ y = nobj }) (fun m hm => by simp [P.unnamed] at hm)
    (fun hy => eq_none_iff_forall_ne_some.mpr fun oy hoy =>
      (hgone hoy).1 (P.tracing.inj hy P.named (hgone hoy).2 P.object))
    (fun _ hg => hg) rfl hget hall ⟨fun _ _ => .inl, fun _ _ hp => hp, id⟩ (fun hlt => absurd hlt P.old)
    (fun _ => ⟨fun _ => .inr (.inr rfl), fun hset => absurd hset (Bool.eq_false_iff.mp P.flags.cards_set),
      fun _ => ⟨fun hmem => hnot (P.tracing.listed (.inl hmem)).1, P.tracing.to_trace⟩,
      fun _ _ _ _ => .inl P.flags.write_barrier⟩)
  refine hadd.lists P.st (fun y oy _ _ hy => ⟨fun hb => ?_, hy.2.1, fun heq => ⟨(hy.2.2.1 heq).1, rfl⟩, hy.2.2.2⟩)
    id (@fun y hy => ?_)
  · rcases hy.1 hb with hrem | hp | hyn
    · exact .inl (P.remembers.mpr (.inr hrem))
    · exact .inr hp
    · exact .inl (P.remembers.mpr (.inl hyn))
  · by_cases hyn : y = nobj
    · subst hyn
      exact ⟨by simp, P.old⟩
    · exact hadd.listed (hy.imp_right (Or.imp_right fun hy => (P.remembers.mp hy).resolve_left hyn))

theorem room : Room turns P.names P.st where
  cell := by
    intro y m hm
    by_cases hy : y = nobj
    · exact .inl ⟨P.copy, object_eq_some.mpr (hy.symm ▸ update_self ..)⟩
    · replace hm := (update_of_ne hy ..).symm.trans hm
      by_cases hyx : y = x
      · subst hyx
        exact .inr ⟨P.young, nobj, P.moved, (update_self ..).trans (P.named.symm.trans hm), P.old⟩
      · rcases P.tracing.room.cell hm with ⟨o, ho⟩ | ⟨hlt, z, hz, hzm, hzs⟩
        · exact .inl ⟨o, (object_congr (P.other hyx hy)).trans ho⟩
        · exact .inr ⟨hlt, z, (P.other hyx hy).trans hz, P.keeps z m hzm, hzs⟩
  unused := by
    intro y hy
    obtain ⟨hle, hfree⟩ := P.tracing.room.unused y (P.malloc ▸ List.mem_cons_of_mem _ hy)
    have hnd := P.malloc ▸ P.tracing.room.nodup
    refine ⟨hle, (P.other (fun heq => ?_) (fun heq => (List.nodup_cons.mp hnd).1 (heq ▸ hy))).trans hfree⟩
    exact not_lt.mpr hle (heq ▸ P.young)
  nodup := (List.nodup_cons.mp (P.malloc ▸ P.tracing.room.nodup)).2
  todo := by
    obtain ⟨todo, htodo, hroom, hturns⟩ := P.tracing.room.todo
    have hxt := htodo P.named P.young P.object
    have herase := List.length_erase_of_mem hxt
    have hpos := List.length_pos_of_mem hxt
    rw [P.malloc, List.length_cons] at hroom
    refine ⟨todo.erase x, @fun y m oy hm hys hoy => ?_, by change _ ≤ unused.length; omega,
      fun lst' hlst' => ?_⟩
    · have hy : y ≠ nobj := fun heq => P.old (heq ▸ hys)
      have hyx : y ≠ x := by
        rintro rfl
        exact absurd (P.moved.symm.trans (object_eq_some.mp hoy)) (by simp)
      exact (List.mem_erase_of_ne hyx).mpr (htodo ((update_of_ne hy ..).symm.trans hm) hys
        ((object_congr (P.other hyx hy)).symm.trans hoy))
    · obtain rfl := some.inj hlst'
      have hlen := hturns lst P.to_trace
      rw [List.length_cons]
      omega

theorem tracing' : Tracing w turns P.names g P.st := ⟨P.core, P.room, rfl⟩

theorem kept : Kept name s P.names P.st where
  nursery_current := rfl
  modified_old_objects := rfl
  old_objects_with_cards := rfl
  names := P.keeps
  object := fun hy hys ho =>
    ⟨_, (object_congr (P.other (P.far hy hys).1 (P.far hy hys).2)).trans ho, .refl⟩
  roots := .refl

end Promotion

end

end Stmgc.C7.Nursery
