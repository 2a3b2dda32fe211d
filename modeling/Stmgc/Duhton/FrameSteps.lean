/-
Every call keeps the invariant of the frames, answers as the finite maps do, and
uses no pointer that a collection has made useless.
-/
import Stmgc.Duhton.FrameInv

namespace Stmgc.Duhton

open Stmgc.Lib Stmgc.Lib.Exec

namespace Frame

/-! ## Pointers, roots and barriers -/

section

variable {gc : Gc} {s s' : St} {p frame symbol : Ptr} {R : St → Prop} {obj node ob_count : ℕ}
  {ob_items : ℕ → dictentry_t} {id : ℤ} {name : String} {x : Object} {rest : List (Option ℕ)}

@[simp] theorem wp_pointer {Q : Ptr → St → Prop} : wp (pointer obj) Q R s ↔ Q ⟨obj, s.collections⟩ s := Iff.rfl

@[simp] theorem wp_check_pointer {Q : Unit → St → Prop} :
    wp (check_pointer p) Q R s ↔ s.is_valid p ∧ Q () s := by
  unfold check_pointer
  rw [wp_bind, wp_get, wp_assert]

@[simp] theorem wp_check_pointer_or_null {q : Option Ptr} {Q : Unit → St → Prop} :
    wp (check_pointer_or_null q) Q R s ↔ (∀ p ∈ q, s.is_valid p) ∧ Q () s := by
  cases q with
  | none => simp [check_pointer_or_null]
  | some p => simp [check_pointer_or_null]

@[simp] theorem wp_push_root {q : Option Ptr} {Q : Unit → St → Prop} :
    wp (_push_root q) Q R s ↔ (∀ p ∈ q, s.is_valid p) ∧
      Q () { s with shadowstack := q.map Ptr.obj :: s.shadowstack } := by
  unfold _push_root
  rw [wp_bind, wp_check_pointer_or_null, wp_modify]

theorem wp_pop_root {Q : Ptr → St → Prop} (h : s.shadowstack = some obj :: rest) :
    wp _pop_root Q R s ↔ Q ⟨obj, s.collections⟩ { s with shadowstack := rest } := by
  unfold wp _pop_root
  rw [h]

theorem wp_pop_root_or_null {q : Option ℕ} {Q : Option Ptr → St → Prop}
    (h : s.shadowstack = q :: rest) : wp _pop_root_or_null Q R s ↔
      Q (q.map fun obj => ⟨obj, s.collections⟩) { s with shadowstack := rest } := by
  unfold wp _pop_root_or_null
  rw [h]

@[simp] theorem wp_du_read1 {Q : Unit → St → Prop} : wp (_du_read1 p) Q R s ↔ s.is_valid p ∧
    Q () { s with read := Function.update s.read p.obj true } := by
  unfold _du_read1
  rw [wp_bind, wp_check_pointer, wp_modify]

@[simp] theorem wp_du_write1 {Q : Unit → St → Prop} : wp (_du_write1 p) Q R s ↔ s.is_valid p ∧
    Q () { s with written := Function.update s.written p.obj true } := by
  unfold _du_write1
  rw [wp_bind, wp_check_pointer, wp_modify]

@[simp] theorem wp_store_object {Q : Unit → St → Prop} :
    wp (store_object p x) Q R s ↔ s.is_written p ∧ Q () (s.set_object p.obj x) := by
  unfold store_object
  rw [wp_bind, wp_get, wp_bind, wp_assert, wp_modify]

/-- The state after an allocation that succeeds. -/
structure Allocated (s s' : St) : Prop where
  heap : s'.heap = { s.heap with
    objects := Function.update s.heap.objects s.heap.next_object .uninitialized
    next_object := s.heap.next_object + 1 }
  written : s'.written s.heap.next_object = true
  shadowstack : s'.shadowstack = s.shadowstack
  read : s'.read = s.read
  few : s.heap.allsymbols.length < MAX_SYMBOLS

theorem allocated (s : St) (hfew : s.heap.allsymbols.length < MAX_SYMBOLS) :
    Allocated s { s.set_object s.heap.next_object .uninitialized with
      heap.next_object := s.heap.next_object + 1
      written := Function.update s.written s.heap.next_object true } :=
  ⟨rfl, Function.update_self .., rfl, rfl, hfew⟩

theorem wp_stm_allocate {Q : Ptr → St → Prop}
    (h : ∀ s', Allocated s s' → Q ⟨s.heap.next_object, s'.collections⟩ s') :
    wp (stm_allocate gc) Q (fun _ => True) s := by
  unfold wp stm_allocate
  by_cases hfails : gc.fails s.heap.next_object = true ∨ MAX_SYMBOLS ≤ s.heap.allsymbols.length
  · rw [if_pos hfails]
    trivial
  · rw [if_neg hfails]
    have hfew : s.heap.allsymbols.length < MAX_SYMBOLS := not_le.mp fun hle => hfails (.inr hle)
    by_cases hcollects : gc.collects s.heap.next_object = true
    · simp only [if_pos hcollects]
      have hall := allocated s.collect hfew
      exact h _ ⟨hall.heap, hall.written, hall.shadowstack, hall.read, hfew⟩
    · simp only [if_neg hcollects]
      exact h _ (allocated s hfew)

theorem wp_symbol_fields (id : ℤ) (name : String) {Q : ℤ × String → St → Prop} (hy : s.heap.objects p.obj = .symbol id name) :
    wp (symbol_fields p) Q R s ↔ s.is_valid p ∧ Q (id, name) s := by
  unfold symbol_fields
  rw [wp_bind, wp_check_pointer, wp_bind, wp_get, hy]
  exact Iff.rfl

theorem wp_DuSymbol_Id (id : ℤ) (name : String) {Q : ℤ → St → Prop} (hy : s.heap.objects p.obj = .symbol id name) :
    wp (DuSymbol_Id p) Q R s ↔ s.is_valid p ∧ Q id s := by
  unfold DuSymbol_Id
  rw [wp_bind, wp_symbol_fields id name hy]
  exact Iff.rfl

theorem wp_DuFrame_Ensure (node : ℕ) {Q : Unit → St → Prop} (hf : s.heap.objects p.obj = .frame node) :
    wp (DuFrame_Ensure p) Q R s ↔ s.is_valid p ∧ Q () s := by
  unfold DuFrame_Ensure
  rw [wp_bind, wp_check_pointer, wp_bind, wp_get, hf]
  exact Iff.rfl

theorem wp_get_ob_nodes (node : ℕ) {Q : Ptr → St → Prop} (hf : s.heap.objects p.obj = .frame node) :
    wp (get_ob_nodes p) Q R s ↔ s.is_read p ∧ Q ⟨node, s.collections⟩ s := by
  unfold get_ob_nodes
  rw [wp_bind, wp_get, wp_bind, wp_assert, hf]
  exact Iff.rfl

theorem wp_get_entries (ob_count : ℕ) (ob_items : ℕ → dictentry_t) {Q : ℕ × (ℕ → dictentry_t) → St → Prop}
    (hnode : s.heap.objects p.obj = .framenode ob_count ob_items) :
    wp (get_entries p) Q R s ↔ s.is_read p ∧ Q (ob_count, ob_items) s := by
  unfold get_entries
  rw [wp_bind, wp_get, wp_bind, wp_assert, hnode]
  exact Iff.rfl

theorem wp_get_entry (ob_count : ℕ) (ob_items : ℕ → dictentry_t) {e : EntryPtr} {Q : dictentry_t → St → Prop}
    (hnode : s.heap.objects e.node.obj = .framenode ob_count ob_items) :
    wp (get_entry e) Q R s ↔ s.is_read e.node ∧ e.index < ob_count ∧ Q (ob_items e.index) s := by
  unfold get_entry
  rw [wp_bind, wp_get_entries ob_count ob_items hnode]
  dsimp only
  rw [wp_bind, wp_assert, wp_pure]

theorem wp_set_entry (ob_count : ℕ) (ob_items : ℕ → dictentry_t) {e : EntryPtr} {g : dictentry_t → dictentry_t} {Q : Unit → St → Prop}
    (hnode : s.heap.objects e.node.obj = .framenode ob_count ob_items) :
    wp (set_entry e g) Q R s ↔ s.is_read e.node ∧ e.index < ob_count ∧ s.is_written e.node ∧
      Q () (s.set_object e.node.obj
        (.framenode ob_count (Function.update ob_items e.index (g (ob_items e.index))))) := by
  unfold set_entry
  rw [wp_bind, wp_get_entries ob_count ob_items hnode]
  dsimp only
  rw [wp_bind, wp_assert, wp_store_object]

end

/-! ## `find_entry` -/

section

variable {gc : Gc} {s s' : St} {m : Maps} {frame symbol ob : Ptr} {R : St → Prop} {id : ℤ}
  {node ob_count left : ℕ} {ob_items : ℕ → dictentry_t} {name : String}
  {map : String → Option Binding}

theorem St.is_written.is_read {p : Ptr} (h : s.is_written p) : s.is_read p := ⟨h.1, .inr h.2⟩

/-- The loops insert the new entry. -/
theorem newentries_eq {garbage entries : ℕ → dictentry_t} {new : dictentry_t} (hle : left ≤ ob_count) :
    ∀ i < ob_count + 1, newentries garbage entries (ob_count + 1) left new i
      = insert_at entries left new i := by
  intro i hi
  unfold newentries insert_at
  rw [foldl_update_range']
  by_cases hgt : left + 1 ≤ i
  · rw [if_pos (by omega), if_neg (by omega), if_neg (by omega)]
  · rw [if_neg (by omega)]
    by_cases heq : i = left
    · rw [heq, Function.update_self, if_neg (lt_irrefl left), if_pos rfl]
    · rw [Function.update_of_ne heq, foldl_update_range', if_pos (by omega), if_pos (by omega)]

/-- Nothing behind the entries counts. -/
theorem NodeHas.congr {h : Heap} {ob_items' : ℕ → dictentry_t} (hnode : NodeHas h ob_count ob_items map)
    (heq : ∀ i < ob_count, ob_items' i = ob_items i) : NodeHas h ob_count ob_items' map := by
  refine ⟨fun i j hij hj => ?_, fun i hi => ?_, fun name b => ?_⟩
  · dsimp only
    rw [heq i (hij.trans hj), heq j hj]
    exact hnode.ordered i j hij hj
  · rw [heq i hi]
    exact hnode.symbols i hi
  · rw [hnode.has]
    apply exists_congr
    refine fun i => and_congr_right fun hi => ?_
    rw [heq i hi]

theorem update_binding_id {b : Binding} (h : map name = some b) :
    update_binding map name (fun b => b) = map := by
  unfold update_binding
  rw [h, Option.getD_some, ← h, Function.update_eq_self]

theorem Maps.set_of_frames {f : ℕ} {g : Binding → Binding} (hf : m.frames f = some map) :
    m.set f name g = { m with frames := Function.update m.frames f (some (update_binding map name g)) } := by
  unfold Maps.set
  rw [hf]
  rfl

/-- An entry for the symbol is there and may be written to. -/
structure Ready (s s' : St) (m : Maps) (map : String → Option Binding) (f : ℕ) (name : String)
    (e : EntryPtr) : Prop where
  shadowstack : s'.shadowstack = s.shadowstack
  written : s'.is_written e.node
  inv : Inv s'.heap (m.set f name fun b => b)
  entry : ∃ ob_count ob_items, FrameHas s'.heap f e.node.obj ob_count ob_items
    (update_binding map name fun b => b) ∧ e.index < ob_count ∧ EntryFor s'.heap (ob_items e.index) name

/-- What is known of the frame, its node and the symbol. -/
structure Looked (s : St) (m : Maps) (map : String → Option Binding) (f y node : ℕ)
    (name : String) (id : ℤ) (ob_count : ℕ) (ob_items : ℕ → dictentry_t) : Prop where
  inv : Inv s.heap m
  frames : m.frames f = some map
  has : FrameHas s.heap f node ob_count ob_items map
  is_symbol : s.heap.objects y = .symbol id name
  read : s.read node = true

/-- The binary search has ended at `left`. -/
structure Missing (id : ℤ) (ob_count : ℕ) (ob_items : ℕ → dictentry_t) (left : ℕ) : Prop where
  bound : left ≤ ob_count
  below : ∀ j < left, (ob_items j).symbol_id < id
  above : ∀ j, left ≤ j → j < ob_count → id < (ob_items j).symbol_id

/-- A new object is there, and the roots are restored. -/
theorem wp_fill_node {Q : EntryPtr → St → Prop} {newob : Ptr} (hnew : newob.obj = s.heap.next_object)
    (hlook : Looked s m map frame.obj symbol.obj ob.obj name id ob_count ob_items)
    (hmissing : Missing id ob_count ob_items left)
    (hheap : s'.heap = { s.heap with
      objects := Function.update s.heap.objects s.heap.next_object .uninitialized
      next_object := s.heap.next_object + 1 })
    (hread : s'.read = s.read) (hstack : s'.shadowstack = s.shadowstack)
    (hwritten : s'.is_written newob) (hframe : s'.is_valid frame) (hsymbol : s'.is_valid symbol)
    (hob : s'.is_valid ob) (hQ : ∀ e s', Ready s s' m map frame.obj name e → Q e s') :
    wp (fill_node gc frame symbol ob newob id left) Q R s' := by
  have hinv := hlook.inv
  -- the new object is none of the others
  have hold : ∀ {y x}, s.heap.objects y = x → x ≠ .none → s'.heap.objects y = x := by
    intro y x hyx hx
    rw [hheap]
    dsimp only
    rw [Function.update_of_ne (hinv.ne_new hyx hx)]
    exact hyx
  have hnode' : s'.heap.objects ob.obj = .framenode ob_count ob_items := hold hlook.has.entries nofun
  have hsymbol' : s'.heap.objects symbol.obj = .symbol id name := hold hlook.is_symbol nofun
  have hread' : s'.read ob.obj = true := hread.symm ▸ hlook.read
  unfold fill_node
  rw [wp_bind, wp_get_entries ob_count ob_items hnode']
  refine ⟨⟨hob, .inl hread'⟩, ?_⟩
  dsimp only
  rw [wp_bind, wp_DuSymbol_Id id name hsymbol']
  refine ⟨hsymbol, ?_⟩
  rw [wp_bind, wp_store_object]
  refine ⟨hwritten, ?_⟩
  rw [wp_bind, wp_du_write1]
  refine ⟨hframe, ?_⟩
  unfold set_ob_nodes
  rw [wp_bind, wp_bind, wp_check_pointer]
  refine ⟨hwritten.1, ?_⟩
  rw [wp_store_object]
  refine ⟨⟨hframe, Function.update_self ..⟩, ?_⟩
  rw [wp_pure]
  apply hQ
  have hmap : NodeHas s.heap (ob_count + 1) (newentries gc.garbage ob_items (ob_count + 1) left
      { dictentry_t.zero with symbol_id := id, symbol := some symbol.obj })
      (update_binding map name fun b => b) :=
    (hlook.has.node.add_entry hinv hlook.is_symbol hmissing.bound hmissing.below hmissing.above rfl
      rfl rfl).congr (newentries_eq hmissing.bound)
  have hfnew : newob.obj ≠ frame.obj := hnew ▸ (hinv.ne_new hlook.has.ob_nodes nofun).symm
  have hfinal := hinv.new_node hlook.frames hmap
  generalize hitems : newentries gc.garbage ob_items (ob_count + 1) left
    { dictentry_t.zero with symbol_id := id, symbol := some symbol.obj } = items at hmap hfinal
  have hsame : Function.update (Function.update s'.heap.objects newob.obj
      (.framenode (ob_count + 1) items)) frame.obj (.frame newob.obj)
      = (s.heap.with_node frame.obj (ob_count + 1) items).objects := by
    rw [hheap, hnew]
    dsimp only
    rw [Function.update_idem]
    rfl
  have hheap' : { s'.heap with
      objects := Function.update (Function.update s'.heap.objects newob.obj
        (.framenode (ob_count + 1) items)) frame.obj (.frame newob.obj) }
      = s.heap.with_node frame.obj (ob_count + 1) items := by
    rw [hsame, hheap]
    rfl
  refine ⟨hstack, ⟨hwritten.1, ?_⟩, ?_, ob_count + 1, items, ⟨?_, ?_, ?_⟩, Nat.lt_succ_of_le hmissing.bound, ?_⟩
  · show Function.update s'.written frame.obj true newob.obj = true
    rw [Function.update_of_ne hfnew]
    exact hwritten.2
  · show Inv { s'.heap with
      objects := Function.update (Function.update s'.heap.objects newob.obj
        (.framenode (ob_count + 1) items)) frame.obj (.frame newob.obj) } _
    rw [hheap', Maps.set_of_frames hlook.frames]
    exact hfinal
  · exact Function.update_self ..
  · show Function.update (Function.update _ newob.obj _) frame.obj _ newob.obj = _
    rw [Function.update_of_ne hfnew, Function.update_self]
  · refine hmap.kept fun y id' name' hy => ?_
    have hyf : y ≠ frame.obj := by
      rintro rfl
      rw [hlook.has.ob_nodes] at hy
      cases hy
    have hyn : y ≠ newob.obj := hnew ▸ hinv.ne_new hy nofun
    show Function.update (Function.update s'.heap.objects newob.obj _) frame.obj _ y = _
    rw [Function.update_of_ne hyf, Function.update_of_ne hyn]
    exact hold hy nofun
  · have hleft : items left = { dictentry_t.zero with symbol_id := id, symbol := some symbol.obj } := by
      rw [← hitems, newentries_eq hmissing.bound left (Nat.lt_succ_of_le hmissing.bound), insert_at_self]
    have hyf : symbol.obj ≠ frame.obj := by
      intro heq
      have hy := hlook.is_symbol
      rw [heq, hlook.has.ob_nodes] at hy
      cases hy
    have hyn : symbol.obj ≠ newob.obj := hnew ▸ hinv.ne_new hlook.is_symbol nofun
    refine ⟨symbol.obj, by rw [hleft], ?_⟩
    show Function.update (Function.update s'.heap.objects newob.obj _) frame.obj _ symbol.obj = _
    rw [Function.update_of_ne hyf, Function.update_of_ne hyn, hleft]
    exact hsymbol'

theorem wp_add_entry {Q : EntryPtr → St → Prop}
    (hlook : Looked s m map frame.obj symbol.obj ob.obj name id ob_count ob_items)
    (hmissing : Missing id ob_count ob_items left) (hframe : s.is_valid frame)
    (hsymbol : s.is_valid symbol) (hob : s.is_valid ob)
    (hQ : ∀ e s', Ready s s' m map frame.obj name e → Q e s') :
    wp (add_entry gc frame symbol ob id left) Q (fun _ => True) s := by
  unfold add_entry
  rw [wp_bind, wp_push_root]
  refine ⟨fun p hp => Option.some.inj hp ▸ hob, ?_⟩
  rw [wp_bind, wp_push_root]
  refine ⟨fun p hp => Option.some.inj hp ▸ hsymbol, ?_⟩
  rw [wp_bind, wp_push_root]
  refine ⟨fun p hp => Option.some.inj hp ▸ hframe, ?_⟩
  rw [wp_bind]
  apply wp_stm_allocate
  intro t ht
  have hroots := ht.shadowstack
  dsimp only [Option.map_some] at hroots
  rw [wp_bind, wp_pop_root hroots, wp_bind, wp_pop_root rfl, wp_bind, wp_pop_root rfl]
  exact wp_fill_node (s := s) rfl hlook hmissing ht.heap ht.read rfl ⟨.inl rfl, ht.written⟩ (.inl rfl)
    (.inl rfl) (.inl rfl) hQ

/-- The calls before the search, and the search. -/
theorem wp_find_entry {write_mode : Bool} {Q : Option EntryPtr → St → Prop} (hinv : Inv s.heap m)
    (hf : m.frames frame.obj = some map) (hy : s.heap.objects symbol.obj = .symbol id name)
    (hframe : s.is_valid frame) (hsymbol : s.is_valid symbol)
    (hfound : ∀ ob i ob_count ob_items t, Looked t m map frame.obj symbol.obj ob name id ob_count ob_items →
      i < ob_count → (ob_items i).symbol_id = id → t.shadowstack = s.shadowstack →
      t.collections = s.collections → wp (do
        Exec.ifThen (write_mode = true) (_du_write1 ⟨ob, s.collections⟩)
        return some ⟨⟨ob, s.collections⟩, i⟩) Q R t)
    (hmissing : ∀ ob left ob_count ob_items t, Looked t m map frame.obj symbol.obj ob name id ob_count ob_items →
      Missing id ob_count ob_items left → t.shadowstack = s.shadowstack →
      t.collections = s.collections → wp (if write_mode = true then do
          let e ← add_entry gc frame symbol ⟨ob, s.collections⟩ id left
          return some e
        else return none) Q R t) :
    wp (find_entry gc frame symbol write_mode) Q R s := by
  obtain ⟨node, ob_count, ob_items, hhas⟩ := hinv.frames _ map hf
  unfold find_entry
  rw [wp_bind, wp_du_read1]
  refine ⟨hframe, ?_⟩
  rw [wp_bind]
  refine (wp_get_ob_nodes node ?_).mpr ⟨⟨hframe, .inl (Function.update_self ..)⟩, ?_⟩
  · exact hhas.ob_nodes
  rw [wp_bind, wp_du_read1]
  refine ⟨.inl rfl, ?_⟩
  rw [wp_bind]
  refine (wp_get_entries ob_count ob_items ?_).mpr
    ⟨⟨.inl rfl, .inl (Function.update_self ..)⟩, ?_⟩
  · exact hhas.entries
  dsimp only
  rw [wp_bind]
  refine (wp_DuSymbol_Id id name ?_).mpr ⟨hsymbol, ?_⟩
  · exact hy
  have hends := binary_search_ends hhas.node.ordered id
  cases hr : binary_search (fun i => (ob_items i).symbol_id) id 0 ob_count with
  | inl i =>
      cases hr ▸ hends with
      | found _ bound eq =>
          exact hfound node i ob_count ob_items _ ⟨hinv, hf, hhas, hy, Function.update_self ..⟩ bound
            eq.symm rfl rfl
  | inr left =>
      cases hr ▸ hends with
      | missing _ bound below above =>
          exact hmissing node left ob_count ob_items _ ⟨hinv, hf, hhas, hy, Function.update_self ..⟩
            ⟨bound, below, above⟩ rfl rfl

/-- What reading an entry gives. -/
inductive Found (s : St) (map : String → Option Binding) (name : String) : Option EntryPtr → Prop where
  | missing (eq : map name = none) : Found s map name none
  | found (e : EntryPtr) (ob_count : ℕ) (ob_items : ℕ → dictentry_t)
      (entries : s.heap.objects e.node.obj = .framenode ob_count ob_items) (read : s.is_read e.node)
      (bound : e.index < ob_count) (eq : map name = some (ob_items e.index).binding) :
      Found s map name (some e)

theorem wp_find_entry_read {Q : Option EntryPtr → St → Prop} (hinv : Inv s.heap m)
    (hf : m.frames frame.obj = some map) (hy : s.heap.objects symbol.obj = .symbol id name)
    (hframe : s.is_valid frame) (hsymbol : s.is_valid symbol)
    (hQ : ∀ e t, Inv t.heap m → Found t map name e → Q e t) :
    wp (find_entry gc frame symbol false) Q R s := by
  apply wp_find_entry hinv hf hy hframe hsymbol
  · intro ob i ob_count ob_items t hlook hi hid _ hcollections
    rw [wp_bind, wp_ifThen, if_neg Bool.false_ne_true, wp_pure]
    refine hQ _ t hlook.inv (.found _ ob_count ob_items hlook.has.entries ?_ hi ?_)
    · exact ⟨.inl hcollections.symm, .inl hlook.read⟩
    · exact hlook.has.node.get hi ((hlook.has.node.exists_id hlook.inv hlook.is_symbol hi).mp hid)
  · intro ob left ob_count ob_items t hlook hmissing _ _
    rw [if_neg Bool.false_ne_true, wp_pure]
    refine hQ _ t hlook.inv (.missing ?_)
    refine hlook.has.node.eq_none hlook.inv hlook.is_symbol fun i hi => ?_
    rcases Nat.lt_or_ge i left with hlt | hge
    · exact (hmissing.below i hlt).ne
    · exact (hmissing.above i hge hi).ne'

theorem wp_find_entry_write {Q : Option EntryPtr → St → Prop} (hinv : Inv s.heap m)
    (hf : m.frames frame.obj = some map) (hy : s.heap.objects symbol.obj = .symbol id name)
    (hframe : s.is_valid frame) (hsymbol : s.is_valid symbol)
    (hQ : ∀ e t, Ready s t m map frame.obj name e → Q (some e) t) :
    wp (find_entry gc frame symbol true) Q (fun _ => True) s := by
  apply wp_find_entry hinv hf hy hframe hsymbol
  · intro ob i ob_count ob_items t hlook hi hid hstack hcollections
    rw [wp_bind, wp_ifThen, if_pos rfl, wp_du_write1]
    refine ⟨.inl hcollections.symm, ?_⟩
    rw [wp_pure]
    have hname := (hlook.has.node.exists_id hlook.inv hlook.is_symbol hi).mp hid
    have hmap := update_binding_id (hlook.has.node.get hi hname)
    refine hQ _ _ ⟨hstack, ⟨.inl hcollections.symm, Function.update_self ..⟩, ?_, ob_count, ob_items, ?_, hi,
      hname⟩
    · rw [Maps.set_of_frames hlook.frames, hmap, ← hlook.frames, Function.update_eq_self]
      exact hlook.inv
    · rw [hmap]
      exact hlook.has
  · intro ob left ob_count ob_items t hlook hmissing hstack hcollections
    rw [if_pos rfl, wp_bind]
    have hvalid : ∀ {p : Ptr}, s.is_valid p → t.is_valid p := by
      rintro p (hp | hp)
      · exact .inl (hp.trans hcollections.symm)
      · exact .inr hp
    refine wp_add_entry hlook hmissing (hvalid hframe) (hvalid hsymbol) (.inl hcollections.symm) ?_
    intro e u hready
    rw [wp_pure]
    exact hQ e u ⟨hready.shadowstack.trans hstack, hready.written, hready.inv, hready.entry⟩

end

/-! ## The other functions -/

section

variable {gc : Gc} {s t : St} {m : Maps} {p frame symbol : Ptr} {R : St → Prop} {id : ℤ}
  {name : String} {map : String → Option Binding}

/-- What the search for a symbol leaves as it is. -/
structure Searched (s t : St) : Prop where
  heap : t.heap = s.heap
  collections : t.collections = s.collections
  written : t.written = s.written
  shadowstack : t.shadowstack = s.shadowstack

theorem Searched.valid (h : Searched s t) (hp : s.is_valid p) : t.is_valid p :=
  hp.imp (fun hc => hc.trans h.collections.symm) fun hp => hp

theorem wp_find_symbol {Q : Option Ptr → St → Prop} {l : List ℕ}
    (hl : ∀ y ∈ l, ∃ id n, s.heap.objects y = .symbol id n)
    (hfound : ∀ p id t, Searched s t → s.heap.objects p.obj = .symbol id name → s.is_valid p →
      Q (some p) t)
    (hmissing : ∀ t, Searched s t → (∀ y ∈ l, ∀ id, s.heap.objects y ≠ .symbol id name) → Q none t) :
    wp (find_symbol name l) Q R s := by
  have hgen : ∀ t, Searched s t → (∀ t, Searched s t →
      (∀ y ∈ l, ∀ id, s.heap.objects y ≠ .symbol id name) → Q none t) →
      wp (find_symbol name l) Q R t := by
    clear hmissing
    induction l with
    | nil => exact fun t ht hmissing => hmissing t ht fun y hy => absurd hy List.not_mem_nil
    | cons y l ih =>
        intro t ht hmissing
        obtain ⟨id, n, hy⟩ := hl y List.mem_cons_self
        have ht' : Searched s { t with read := Function.update t.read y true } :=
          ⟨ht.heap, ht.collections, ht.written, ht.shadowstack⟩
        unfold find_symbol
        rw [wp_bind, wp_pointer, wp_bind, wp_du_read1]
        refine ⟨.inl rfl, ?_⟩
        rw [wp_bind]
        refine (wp_symbol_fields id n ?_).mpr ⟨.inl rfl, ?_⟩
        · show t.heap.objects y = _
          rw [ht.heap]
          exact hy
        dsimp only
        rw [wp_ite]
        by_cases hname : name = n
        · rw [if_pos hname, wp_pure]
          exact hfound _ id _ ht' (hname ▸ hy) (.inl ht.collections)
        · rw [if_neg hname]
          refine ih (fun z hz => hl z (List.mem_cons_of_mem y hz)) _ ht' fun u hu hnone => ?_
          refine hmissing u hu fun z hz id' heq => ?_
          rcases List.mem_cons.mp hz with rfl | hz
          · rw [hy] at heq
            exact hname (Object.symbol.inj heq).2.symm
          · exact hnone z hz id' heq
  exact hgen s ⟨rfl, rfl, rfl, rfl⟩ hmissing

theorem prebuilt_AllSymbols : is_prebuilt _Du_AllSymbols := by decide

/-- There is one symbol with the name. -/
theorem wp_DuSymbol_FromString {Q : Ptr → St → Prop} (hinv : Inv s.heap m)
    (hQ : ∀ p id t, Inv t.heap m → t.heap.objects p.obj = .symbol id name → t.is_valid p →
      t.shadowstack = s.shadowstack → Q p t) :
    wp (DuSymbol_FromString gc name) Q (fun _ => True) s := by
  unfold DuSymbol_FromString
  rw [wp_bind, wp_pointer, wp_bind, wp_du_read1]
  refine ⟨.inl rfl, ?_⟩
  rw [wp_bind, wp_get, wp_bind]
  apply wp_find_symbol
  · exact fun y hy => (hinv.allsymbols y).mp hy
  · intro p id t ht hp hvalid
    dsimp only
    rw [wp_pure]
    have hheap : t.heap = s.heap := ht.heap
    exact hQ p id t (hheap ▸ hinv) (hheap ▸ hp) (ht.valid hvalid) ht.shadowstack
  · intro t ht hnone
    have hheap : t.heap = s.heap := ht.heap
    dsimp only
    rw [wp_bind]
    apply wp_stm_allocate
    intro u hu
    have hfew : s.heap.allsymbols.length < MAX_SYMBOLS := hheap ▸ hu.few
    have hnew : t.heap.next_object = s.heap.next_object := by rw [hheap]
    have huheap := hu.heap
    have huwritten := hu.written
    rw [hheap] at huheap huwritten
    rw [hnew]
    unfold fetch_and_add_next_id
    rw [wp_bind, wp_bind, wp_get, wp_bind, wp_modify, wp_pure, wp_bind, wp_store_object]
    refine ⟨⟨.inl rfl, huwritten⟩, ?_⟩
    rw [wp_bind, wp_du_write1]
    refine ⟨.inr prebuilt_AllSymbols, ?_⟩
    unfold insert_symbol
    rw [wp_bind, wp_bind, wp_get, wp_bind, wp_assert]
    have hhead : s.heap.next_object ≠ _Du_AllSymbols := by
      have h3 := hinv.prebuilt
      unfold _Du_AllSymbols
      omega
    refine ⟨⟨⟨.inr prebuilt_AllSymbols, ?_⟩, .inl rfl, ?_⟩, ?_⟩
    · exact @Function.update_self ℕ (fun _ => Bool) _ _Du_AllSymbols true u.written
    · show Function.update u.written _Du_AllSymbols true s.heap.next_object = true
      rw [Function.update_of_ne hhead]
      exact huwritten
    · rw [wp_modify, wp_pure]
      have hno : ∀ y id, s.heap.objects y ≠ .symbol id name := fun y id hy =>
        hnone y ((hinv.allsymbols y).mpr ⟨id, name, hy⟩) id hy
      have hid : u.heap.next_id = s.heap.next_id := by rw [huheap]
      have hwith : ({ u.heap with
          objects := Function.update u.heap.objects s.heap.next_object (.symbol u.heap.next_id name)
          allsymbols := u.heap.allsymbols.take 1 ++ s.heap.next_object :: u.heap.allsymbols.drop 1
          next_id := Int.bmod (u.heap.next_id + 1) (2 ^ 32) } : Heap) = s.heap.with_symbol name := by
        rw [huheap]
        unfold Heap.with_symbol
        dsimp only
        rw [Function.update_idem]
      refine hQ _ u.heap.next_id _ ?_ ?_ (.inl rfl) (hu.shadowstack.trans ht.shadowstack)
      · show Inv { u.heap with
          objects := Function.update u.heap.objects s.heap.next_object (.symbol u.heap.next_id name)
          allsymbols := u.heap.allsymbols.take 1 ++ s.heap.next_object :: u.heap.allsymbols.drop 1
          next_id := Int.bmod (u.heap.next_id + 1) (2 ^ 32) } m
        rw [hwith]
        exact hinv.new_symbol hfew hno
      · exact Function.update_self ..

theorem wp_DuFrame_New {Q : Ptr → St → Prop} (hinv : Inv s.heap m)
    (hQ : ∀ ob t, m.frames ob.obj = none → Inv t.heap { m with
      frames := Function.update m.frames ob.obj (some fun _ => none) } → Q ob t) :
    wp (DuFrame_New gc) Q (fun _ => True) s := by
  unfold DuFrame_New
  rw [wp_bind]
  apply wp_stm_allocate
  intro t ht
  rw [wp_bind, wp_store_object]
  refine ⟨⟨.inl rfl, ht.written⟩, ?_⟩
  rw [wp_pure]
  refine hQ _ _ ?_ ?_
  · -- no frame is there yet
    rw [Option.eq_none_iff_forall_ne_some]
    intro map hmap
    obtain ⟨node, c, items, hhas⟩ := hinv.frames _ map hmap
    exact absurd rfl (hinv.ne_new hhas.ob_nodes nofun)
  · have hnew := hinv.new_frame
    have hwith : ({ t.heap with
        objects := Function.update t.heap.objects s.heap.next_object (.frame du_empty_framenode) } : Heap)
        = { s.heap with
          objects := Function.update s.heap.objects s.heap.next_object (.frame du_empty_framenode)
          next_object := s.heap.next_object + 1 } := by
      rw [ht.heap]
      dsimp only
      rw [Function.update_idem]
    rw [← hwith] at hnew
    exact hnew

/-! ## Setting a component -/

theorem update_binding_update {g : Binding → Binding} :
    update_binding (update_binding map name fun b => b) name g = update_binding map name g := by
  unfold update_binding
  rw [Function.update_self, Option.getD_some, Function.update_idem]

/-- Another write barrier. -/
theorem written_update {written : ℕ → Bool} {obj other : ℕ} (h : written obj = true) :
    Function.update written other true obj = true := by
  by_cases heq : obj = other
  · rw [heq, Function.update_self]
  · rw [Function.update_of_ne heq]
    exact h

theorem map_obj_map {q : Option Ptr} {collections : ℕ} :
    ((q.map Ptr.obj).map fun obj => (⟨obj, collections⟩ : Ptr)).map Ptr.obj = q.map Ptr.obj := by
  cases q with
  | none => rfl
  | some p => rfl

/-- A component of an entry is set that `find_entry` has given. -/
theorem wp_set_ready {g : dictentry_t → dictentry_t} {g' : Binding → Binding} {e : EntryPtr} {f : ℕ}
    {s₀ u : St} {Q : Unit → St → Prop} (hf : m.frames f = some map) (hready : Ready s₀ s m map f name e)
    (hheap : u.heap = s.heap) (hwritten : u.is_written e.node) (hid : ∀ d, (g d).symbol_id = d.symbol_id)
    (hsymbol : ∀ d, (g d).symbol = d.symbol) (hbinding : ∀ d, (g d).binding = g' d.binding)
    (hQ : ∀ t, Inv t.heap (m.set f name g') → Q () t) : wp (set_entry e g) Q R u := by
  obtain ⟨ob_count, ob_items, hhas, hbound, hname⟩ := hready.entry
  have hinv := hready.inv
  rw [← hheap] at hhas hname hinv
  refine (wp_set_entry ob_count ob_items hhas.entries).mpr ⟨hwritten.is_read, hbound, hwritten, ?_⟩
  apply hQ
  have hnode := hinv.set_node hhas (Nat.zero_lt_of_lt hbound)
    (hhas.node.set_entry hinv hbound hname hid hsymbol hbinding)
  rw [update_binding_update, Maps.set_of_frames hf] at hnode
  rw [Maps.set_of_frames hf]
  dsimp only at hnode
  rw [Function.update_idem] at hnode
  exact hnode

theorem wp_DuFrame_GetSymbol {Q : Option ℕ → St → Prop} (hinv : Inv s.heap m)
    (hf : m.frames frame.obj = some map) (hy : s.heap.objects symbol.obj = .symbol id name)
    (hframe : s.is_valid frame) (hsymbol : s.is_valid symbol)
    (hQ : ∀ t, Inv t.heap m → Q ((map name).bind Binding.value) t) :
    wp (DuFrame_GetSymbol gc frame symbol) Q R s := by
  obtain ⟨node, ob_count, ob_items, hhas⟩ := hinv.frames _ map hf
  unfold DuFrame_GetSymbol
  rw [wp_bind]
  refine (wp_DuFrame_Ensure node hhas.ob_nodes).mpr ⟨hframe, ?_⟩
  rw [wp_bind]
  apply wp_find_entry_read hinv hf hy hframe hsymbol
  intro e t ht hfound
  cases hfound with
  | missing eq =>
      dsimp only
      rw [wp_pure]
      have hQ' := hQ t ht
      rw [eq] at hQ'
      exact hQ'
  | found e ob_count ob_items entries read bound eq =>
      dsimp only
      rw [wp_bind]
      refine (wp_get_entry ob_count ob_items entries).mpr ⟨read, bound, ?_⟩
      rw [wp_pure]
      have hQ' := hQ t ht
      rw [eq] at hQ'
      exact hQ'

theorem wp_lookup {Q : Option dictentry_t → St → Prop} (hinv : Inv s.heap m)
    (hf : m.frames frame.obj = some map) (hy : s.heap.objects symbol.obj = .symbol id name)
    (hframe : s.is_valid frame) (hsymbol : s.is_valid symbol)
    (hQ : ∀ d t, Inv t.heap m → d.map dictentry_t.binding = map name → Q d t) :
    wp (lookup gc frame symbol) Q R s := by
  obtain ⟨node, ob_count, ob_items, hhas⟩ := hinv.frames _ map hf
  unfold lookup
  rw [wp_bind]
  refine (wp_DuFrame_Ensure node hhas.ob_nodes).mpr ⟨hframe, ?_⟩
  rw [wp_bind]
  apply wp_find_entry_read hinv hf hy hframe hsymbol
  intro e t ht hfound
  cases hfound with
  | missing eq =>
      dsimp only
      rw [wp_pure]
      exact hQ none t ht eq.symm
  | found e ob_count ob_items entries read bound eq =>
      dsimp only
      rw [wp_bind]
      refine (wp_get_entry ob_count ob_items entries).mpr ⟨read, bound, ?_⟩
      rw [wp_pure]
      exact hQ _ t ht eq.symm

theorem wp_DuFrame_SetSymbol {Q : Unit → St → Prop} {value : Option Ptr} (hinv : Inv s.heap m)
    (hf : m.frames frame.obj = some map) (hy : s.heap.objects symbol.obj = .symbol id name)
    (hframe : s.is_valid frame) (hsymbol : s.is_valid symbol) (hvalue : ∀ p ∈ value, s.is_valid p)
    (hQ : ∀ t, Inv t.heap (m.set frame.obj name fun b => { b with value := value.map Ptr.obj }) →
      Q () t) : wp (DuFrame_SetSymbol gc frame symbol value) Q (fun _ => True) s := by
  obtain ⟨node, ob_count, ob_items, hhas⟩ := hinv.frames _ map hf
  unfold DuFrame_SetSymbol
  rw [wp_bind]
  refine (wp_DuFrame_Ensure node hhas.ob_nodes).mpr ⟨hframe, ?_⟩
  rw [wp_bind, wp_push_root]
  refine ⟨hvalue, ?_⟩
  rw [wp_bind, wp_push_root]
  refine ⟨fun p hp => Option.some.inj hp ▸ hframe, ?_⟩
  rw [wp_bind]
  refine wp_find_entry_write hinv hf hy hframe hsymbol fun e t ht => ?_
  have hroots := ht.shadowstack
  dsimp only [Option.map_some] at hroots
  rw [wp_bind, wp_pop_root hroots, wp_bind, wp_pop_root_or_null rfl, wp_bind, wp_du_write1]
  refine ⟨.inl rfl, ?_⟩
  rw [wp_bind, wp_check_pointer_or_null]
  refine ⟨fun p hp => ?_, ?_⟩
  · obtain ⟨obj, -, rfl⟩ := Option.map_eq_some_iff.mp hp
    exact .inl rfl
  dsimp only
  rw [map_obj_map]
  exact wp_set_ready hf ht rfl ⟨ht.written.1, written_update ht.written.2⟩ (fun _ => rfl) (fun _ => rfl)
    (fun _ => rfl) hQ

theorem wp_DuFrame_SetUserFunction {Q : Unit → St → Prop} {arglist progn : Option Ptr}
    (hinv : Inv s.heap m) (hf : m.frames frame.obj = some map)
    (hy : s.heap.objects symbol.obj = .symbol id name) (hframe : s.is_valid frame)
    (hsymbol : s.is_valid symbol) (harglist : ∀ p ∈ arglist, s.is_valid p)
    (hprogn : ∀ p ∈ progn, s.is_valid p)
    (hQ : ∀ t, Inv t.heap (m.set frame.obj name fun b =>
      { b with user_function := (arglist.map Ptr.obj, progn.map Ptr.obj) }) → Q () t) :
    wp (DuFrame_SetUserFunction gc frame symbol arglist progn) Q (fun _ => True) s := by
  obtain ⟨node, ob_count, ob_items, hhas⟩ := hinv.frames _ map hf
  unfold DuFrame_SetUserFunction
  rw [wp_bind]
  refine (wp_DuFrame_Ensure node hhas.ob_nodes).mpr ⟨hframe, ?_⟩
  rw [wp_bind, wp_push_root]
  refine ⟨harglist, ?_⟩
  rw [wp_bind, wp_push_root]
  refine ⟨hprogn, ?_⟩
  rw [wp_bind, wp_push_root]
  refine ⟨fun p hp => Option.some.inj hp ▸ hframe, ?_⟩
  rw [wp_bind]
  refine wp_find_entry_write hinv hf hy hframe hsymbol fun e t ht => ?_
  have hroots := ht.shadowstack
  dsimp only [Option.map_some] at hroots
  rw [wp_bind, wp_pop_root hroots, wp_bind, wp_pop_root_or_null rfl, wp_bind, wp_pop_root_or_null rfl,
    wp_bind, wp_du_write1]
  refine ⟨.inl rfl, ?_⟩
  rw [wp_bind, wp_check_pointer_or_null]
  refine ⟨fun p hp => ?_, ?_⟩
  · obtain ⟨obj, -, rfl⟩ := Option.map_eq_some_iff.mp hp
    exact .inl rfl
  rw [wp_bind, wp_check_pointer_or_null]
  refine ⟨fun p hp => ?_, ?_⟩
  · obtain ⟨obj, -, rfl⟩ := Option.map_eq_some_iff.mp hp
    exact .inl rfl
  dsimp only
  rw [map_obj_map, map_obj_map]
  exact wp_set_ready hf ht rfl ⟨ht.written.1, written_update ht.written.2⟩ (fun _ => rfl) (fun _ => rfl)
    (fun _ => rfl) hQ

theorem wp_DuFrame_SetBuiltinMacro {Q : Unit → St → Prop} {func : ℕ} (hinv : Inv s.heap m)
    (hf : m.frames frame.obj = some map) (hframe : s.is_valid frame)
    (hQ : ∀ t, Inv t.heap (m.set frame.obj name fun b => { b with builtin_macro := some func }) →
      Q () t) : wp (DuFrame_SetBuiltinMacro gc frame name func) Q (fun _ => True) s := by
  obtain ⟨node, ob_count, ob_items, hhas⟩ := hinv.frames _ map hf
  unfold DuFrame_SetBuiltinMacro
  rw [wp_bind]
  refine (wp_DuFrame_Ensure node hhas.ob_nodes).mpr ⟨hframe, ?_⟩
  rw [wp_bind, wp_push_root]
  refine ⟨fun p hp => Option.some.inj hp ▸ hframe, ?_⟩
  rw [wp_bind]
  refine wp_DuSymbol_FromString hinv fun sym id u huinv hsym hvalid hroots => ?_
  dsimp only [Option.map_some] at hroots
  rw [wp_bind, wp_pop_root hroots, wp_bind, wp_push_root]
  refine ⟨fun p hp => Option.some.inj hp ▸ .inl rfl, ?_⟩
  rw [wp_bind]
  refine wp_find_entry_write huinv hf hsym (.inl rfl) hvalid fun e t ht => ?_
  have hroots' := ht.shadowstack
  dsimp only [Option.map_some] at hroots'
  rw [wp_bind, wp_pop_root hroots', wp_bind, wp_du_write1]
  refine ⟨.inl rfl, ?_⟩
  exact wp_set_ready hf ht rfl ⟨ht.written.1, written_update ht.written.2⟩ (fun _ => rfl) (fun _ => rfl)
    (fun _ => rfl) hQ

end

end Frame

end Stmgc.Duhton
