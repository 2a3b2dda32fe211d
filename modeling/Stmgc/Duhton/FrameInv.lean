/-
The invariant of the frames, and what the functions of `frame.c` and `symbol.c`
do to the finite maps of the frames.

The entries of a node are in the order of the ids, and no two symbols have the
same id or the same name ([`Inv`]). Every function has one rule here, for its
weakest precondition.
-/
import Stmgc.Duhton.Frame

namespace Stmgc.Duhton

open Stmgc.Lib Stmgc.Lib.Exec

namespace Frame

/-! ## The invariant -/

/-- The entry is the one of the symbol with this name. -/
def EntryFor (h : Heap) (d : dictentry_t) (name : String) : Prop :=
  ∃ symbol, d.symbol = some symbol ∧ h.objects symbol = .symbol d.symbol_id name

/-- The node has the map in it. -/
structure NodeHas (h : Heap) (ob_count : ℕ) (ob_items : ℕ → dictentry_t)
    (map : String → Option Binding) : Prop where
  ordered : Increasing (fun i => (ob_items i).symbol_id) ob_count
  symbols : ∀ i < ob_count, ∃ name, EntryFor h (ob_items i) name
  has : ∀ name b, map name = some b ↔
    ∃ i < ob_count, EntryFor h (ob_items i) name ∧ (ob_items i).binding = b

/-- The frame points to a node that has the map. -/
structure FrameHas (h : Heap) (frame node ob_count : ℕ) (ob_items : ℕ → dictentry_t)
    (map : String → Option Binding) : Prop where
  ob_nodes : h.objects frame = .frame node
  entries : h.objects node = .framenode ob_count ob_items
  node : NodeHas h ob_count ob_items map

structure Inv (h : Heap) (m : Maps) : Prop where
  unallocated : ∀ obj, h.next_object ≤ obj → h.objects obj = .none
  prebuilt : 3 ≤ h.next_object
  allsymbols : ∀ obj, obj ∈ h.allsymbols ↔ ∃ id name, h.objects obj = .symbol id name
  head : ∃ next, h.allsymbols = _Du_AllSymbols :: next
  next_id : h.next_id = h.allsymbols.length
  few : h.allsymbols.length ≤ MAX_SYMBOLS
  id_lt : ∀ y id name, h.objects y = .symbol id name → id < h.next_id
  id_inj : ∀ y y' id name name', h.objects y = .symbol id name → h.objects y' = .symbol id name' →
    y = y'
  name_inj : ∀ y y' id id' name, h.objects y = .symbol id name → h.objects y' = .symbol id' name →
    y = y'
  empty : ∃ ob_items, h.objects du_empty_framenode = .framenode 0 ob_items
  frames : ∀ f map, m.frames f = some map →
    ∃ node ob_count ob_items, FrameHas h f node ob_count ob_items map
  only : ∀ f node, h.objects f = .frame node → ∃ map, m.frames f = some map
  own : ∀ f f' node, h.objects f = .frame node → h.objects f' = .frame node →
    f = f' ∨ node = du_empty_framenode
  names : ∀ y name, m.names y = some name → ∃ id, h.objects y = .symbol id name
  /-- also of a node that no frame has any more -/
  sorted : ∀ node ob_count ob_items, h.objects node = .framenode ob_count ob_items →
    Increasing (fun i => (ob_items i).symbol_id) ob_count

section

variable {h h' : Heap} {m : Maps} {d : dictentry_t} {name name' : String}
  {f node ob_count obj left : ℕ} {ob_items : ℕ → dictentry_t} {map : String → Option Binding}
  {b : Binding} {x : Object}

theorem EntryFor.inj (hd : EntryFor h d name) (hd' : EntryFor h d name') : name = name' := by
  obtain ⟨y, hy, hsymbol⟩ := hd
  obtain ⟨y', hy', hsymbol'⟩ := hd'
  obtain rfl : y = y' := Option.some.inj (hy.symm.trans hy')
  rw [hsymbol] at hsymbol'
  exact (Object.symbol.inj hsymbol').2

/-- Symbols are immutable. -/
def SymbolsKept (h h' : Heap) : Prop :=
  ∀ y id name, h.objects y = .symbol id name → h'.objects y = .symbol id name

theorem EntryFor.kept (hd : EntryFor h d name) (hkept : SymbolsKept h h') : EntryFor h' d name := by
  obtain ⟨y, hy, hsymbol⟩ := hd
  exact ⟨y, hy, hkept y _ _ hsymbol⟩

theorem NodeHas.kept (hnode : NodeHas h ob_count ob_items map) (hkept : SymbolsKept h h') :
    NodeHas h' ob_count ob_items map := by
  refine ⟨hnode.ordered, fun i hi => ?_, fun name b => ?_⟩
  · obtain ⟨name, hname⟩ := hnode.symbols i hi
    exact ⟨name, hname.kept hkept⟩
  · rw [hnode.has]
    constructor
    · rintro ⟨i, hi, hname, hb⟩
      exact ⟨i, hi, hname.kept hkept, hb⟩
    · rintro ⟨i, hi, hname, hb⟩
      obtain ⟨name₀, hname₀⟩ := hnode.symbols i hi
      rw [← (hname₀.kept hkept).inj hname]
      exact ⟨i, hi, hname₀, hb⟩

theorem NodeHas.get (hnode : NodeHas h ob_count ob_items map) {i : ℕ} (hi : i < ob_count)
    (hname : EntryFor h (ob_items i) name) : map name = some (ob_items i).binding :=
  (hnode.has name _).mpr ⟨i, hi, hname, rfl⟩

/-- The id of a symbol is in a node exactly if its name is in the map. -/
theorem NodeHas.exists_id (hinv : Inv h m) (hnode : NodeHas h ob_count ob_items map) {y : ℕ} {id : ℤ}
    (hy : h.objects y = .symbol id name) {i : ℕ} (hi : i < ob_count) :
    (ob_items i).symbol_id = id ↔ EntryFor h (ob_items i) name := by
  constructor
  · rintro rfl
    obtain ⟨name', y', hy', hsymbol⟩ := hnode.symbols i hi
    obtain rfl := hinv.id_inj y y' _ _ _ hy hsymbol
    exact ⟨y, hy', hy⟩
  · rintro ⟨y', -, hsymbol⟩
    obtain rfl := hinv.name_inj y y' _ _ _ hy hsymbol
    rw [hy] at hsymbol
    exact (Object.symbol.inj hsymbol).1.symm

theorem NodeHas.eq_none (hinv : Inv h m) (hnode : NodeHas h ob_count ob_items map) {y : ℕ} {id : ℤ}
    (hy : h.objects y = .symbol id name) (hid : ∀ i < ob_count, (ob_items i).symbol_id ≠ id) :
    map name = none := by
  rw [Option.eq_none_iff_forall_ne_some]
  intro b hb
  obtain ⟨i, hi, hname, -⟩ := (hnode.has name b).mp hb
  exact hid i hi ((hnode.exists_id hinv hy hi).mpr hname)

/-! ## Changes of the heap -/

/-- A component of an entry is set. -/
theorem NodeHas.set_entry (hinv : Inv h m) (hnode : NodeHas h ob_count ob_items map) {k : ℕ}
    (hk : k < ob_count) (hname : EntryFor h (ob_items k) name) {g : dictentry_t → dictentry_t}
    {g' : Binding → Binding} (hid : ∀ d, (g d).symbol_id = d.symbol_id)
    (hsymbol : ∀ d, (g d).symbol = d.symbol) (hbinding : ∀ d, (g d).binding = g' d.binding) :
    NodeHas h ob_count (Function.update ob_items k (g (ob_items k)))
      (update_binding map name g') := by
  have hitem : ∀ i, (Function.update ob_items k (g (ob_items k)) i).symbol_id = (ob_items i).symbol_id
      ∧ (Function.update ob_items k (g (ob_items k)) i).symbol = (ob_items i).symbol := by
    intro i
    by_cases hi : i = k
    · rw [hi, Function.update_self]
      exact ⟨hid _, hsymbol _⟩
    · rw [Function.update_of_ne hi]
      exact ⟨rfl, rfl⟩
  have hentry : ∀ i name, EntryFor h (Function.update ob_items k (g (ob_items k)) i) name
      ↔ EntryFor h (ob_items i) name := by
    intro i name
    unfold EntryFor
    rw [(hitem i).1, (hitem i).2]
  refine ⟨?_, fun i hi => ?_, fun n b => ?_⟩
  · simp only [(hitem _).1]
    exact hnode.ordered
  · simp only [hentry]
    exact hnode.symbols i hi
  · simp only [hentry]
    unfold update_binding
    by_cases hn : n = name
    · subst hn
      rw [Function.update_self, hnode.get hk hname, Option.getD_some, Option.some.injEq]
      constructor
      · rintro rfl
        exact ⟨k, hk, hname, by rw [Function.update_self, hbinding]⟩
      · rintro ⟨i, hi, hn, rfl⟩
        -- the symbol has one entry only
        obtain ⟨y, hy, hsym⟩ := hname
        have hik : i = k := hnode.ordered.inj hi hk
          ((hnode.exists_id hinv hsym hi).mpr hn)
        rw [hik, Function.update_self, hbinding]
    · rw [Function.update_of_ne hn, hnode.has]
      refine exists_congr fun i => and_congr_right fun hi => and_congr_right fun hin => ?_
      have hik : i ≠ k := by
        rintro rfl
        exact hn (hin.inj hname)
      rw [Function.update_of_ne hik]

/-- An entry is added where the search has ended. -/
theorem NodeHas.add_entry (hinv : Inv h m) (hnode : NodeHas h ob_count ob_items map) {y : ℕ} {id : ℤ}
    (hy : h.objects y = .symbol id name) (hle : left ≤ ob_count)
    (hbelow : ∀ j < left, (ob_items j).symbol_id < id)
    (habove : ∀ j, left ≤ j → j < ob_count → id < (ob_items j).symbol_id) (hd : d.symbol_id = id)
    (hsymbol : d.symbol = some y) (hbinding : d.binding = .empty) :
    NodeHas h (ob_count + 1) (insert_at ob_items left d) (update_binding map name fun b => b) := by
  have hnew : EntryFor h d name := ⟨y, hsymbol, hd.symm ▸ hy⟩
  have hnone : map name = none := by
    refine hnode.eq_none hinv hy fun i hi => ?_
    rcases Nat.lt_or_ge i left with hlt | hge
    · exact (hbelow i hlt).ne
    · exact (habove i hge hi).ne'
  refine ⟨?_, fun i hi => ?_, fun n b => ?_⟩
  · apply hnode.ordered.insert_at hle
    · rw [hd]
      exact hbelow
    · rw [hd]
      exact habove
  · by_contra hno
    -- all items are old ones or the new one
    have hex := (exists_insert_at hle (P := fun e => ∀ name, ¬ EntryFor h e name)).mp
      ⟨i, hi, fun name hname => hno ⟨name, hname⟩⟩
    rcases hex with hex | ⟨j, hj, hex⟩
    · exact hex name hnew
    · obtain ⟨n, hn⟩ := hnode.symbols j hj
      exact hex n hn
  · rw [exists_insert_at hle (P := fun e => EntryFor h e n ∧ e.binding = b), ← hnode.has]
    unfold update_binding
    by_cases hn : n = name
    · subst hn
      rw [Function.update_self, hnone, hbinding, Option.getD_none, Option.some.injEq]
      constructor
      · rintro rfl
        exact .inl ⟨hnew, rfl⟩
      · rintro (⟨-, hb⟩ | hb)
        · exact hb
        · cases hb
    · rw [Function.update_of_ne hn]
      constructor
      · exact fun hb => .inr hb
      · rintro (⟨hname, -⟩ | hb)
        · exact absurd (hname.inj hnew) hn
        · exact hb

/-! ## Changes of the invariant -/

theorem FrameHas.kept (hframe : FrameHas h f node ob_count ob_items map) (hkept : SymbolsKept h h')
    (hf : h'.objects f = h.objects f) (hnode : h'.objects node = h.objects node) :
    FrameHas h' f node ob_count ob_items map :=
  ⟨hf.trans hframe.ob_nodes, hnode.trans hframe.entries, hframe.node.kept hkept⟩

theorem Inv.ne_new (hinv : Inv h m) (hobj : h.objects obj = x) (hx : x ≠ .none) :
    obj ≠ h.next_object := by
  rintro rfl
  exact hx (hobj.symm.trans (hinv.unallocated _ le_rfl))

/-- A new object is not one of the others. -/
theorem Inv.symbolsKept_new (hinv : Inv h m) {x : Object}
    (hobjects : h'.objects = Function.update h.objects h.next_object x) : SymbolsKept h h' := by
  intro y id name hy
  rw [hobjects, Function.update_of_ne (hinv.ne_new hy nofun)]
  exact hy

theorem Inv.new_frame (hinv : Inv h m) : Inv
    { h with
      objects := Function.update h.objects h.next_object (.frame du_empty_framenode)
      next_object := h.next_object + 1 }
    { m with frames := Function.update m.frames h.next_object (some fun _ => none) } := by
  have hkept := @Inv.symbolsKept_new h { h with
      objects := Function.update h.objects h.next_object (.frame du_empty_framenode)
      next_object := h.next_object + 1 } m hinv _ rfl
  have hback : ∀ y id name, Function.update h.objects h.next_object (.frame du_empty_framenode) y
      = .symbol id name → h.objects y = .symbol id name := by
    intro y id name hy
    by_cases hne : y = h.next_object
    · rw [hne, Function.update_self] at hy
      cases hy
    · rwa [Function.update_of_ne hne] at hy
  obtain ⟨ob_items, hempty⟩ := hinv.empty
  have hempty' : du_empty_framenode ≠ h.next_object := hinv.ne_new hempty nofun
  refine ⟨fun obj hobj => ?_, hinv.prebuilt.trans (Nat.le_succ _), fun obj => ?_, hinv.head, hinv.next_id,
    hinv.few, fun y id name hy => hinv.id_lt y id name (hback y id name hy),
    fun y y' id name name' hy hy' => hinv.id_inj y y' _ _ _ (hback _ _ _ hy) (hback _ _ _ hy'),
    fun y y' id id' name hy hy' => hinv.name_inj y y' _ _ _ (hback _ _ _ hy) (hback _ _ _ hy'),
    ⟨ob_items, ?_⟩, fun f map hf => ?_, fun f node hf => ?_, fun f f' node hf hf' => ?_,
    fun y name hy => ?_, fun node c items hnode => ?_⟩
  · have hgt : h.next_object < obj := hobj
    dsimp only
    rw [Function.update_of_ne hgt.ne']
    exact hinv.unallocated obj hgt.le
  · rw [hinv.allsymbols]
    exact ⟨fun ⟨id, name, hy⟩ => ⟨id, name, hkept _ _ _ hy⟩,
      fun ⟨id, name, hy⟩ => ⟨id, name, hback _ _ _ hy⟩⟩
  · dsimp only
    rw [Function.update_of_ne hempty']
    exact hempty
  · dsimp only at hf
    by_cases hne : f = h.next_object
    · rw [hne, Function.update_self, Option.some.injEq] at hf
      subst hf
      refine ⟨du_empty_framenode, 0, ob_items, ⟨?_, ?_, ?_⟩⟩
      · dsimp only
        rw [hne, Function.update_self]
      · dsimp only
        rw [Function.update_of_ne hempty']
        exact hempty
      · exact ⟨fun _ _ _ hj => absurd hj (Nat.not_lt_zero _), fun _ hi => absurd hi (Nat.not_lt_zero _),
          fun _ _ => ⟨nofun, fun ⟨_, hi, _⟩ => absurd hi (Nat.not_lt_zero _)⟩⟩
    · rw [Function.update_of_ne hne] at hf
      obtain ⟨node, ob_count, ob_items, hframe⟩ := hinv.frames f map hf
      refine ⟨node, ob_count, ob_items, hframe.kept hkept ?_ ?_⟩
      · exact Function.update_of_ne hne _ _
      · exact Function.update_of_ne (hinv.ne_new hframe.entries nofun) _ _
  · dsimp only at hf ⊢
    by_cases hne : f = h.next_object
    · rw [hne, Function.update_self]
      exact ⟨_, rfl⟩
    · rw [Function.update_of_ne hne] at hf ⊢
      exact hinv.only f node hf
  · dsimp only at hf hf'
    by_cases hne : f = h.next_object
    · rw [hne, Function.update_self] at hf
      exact .inr (Object.frame.inj hf).symm
    · by_cases hne' : f' = h.next_object
      · rw [hne', Function.update_self] at hf'
        exact .inr (Object.frame.inj hf').symm
      · rw [Function.update_of_ne hne] at hf
        rw [Function.update_of_ne hne'] at hf'
        exact hinv.own f f' node hf hf'
  · obtain ⟨id, hid⟩ := hinv.names y name hy
    exact ⟨id, hkept y id name hid⟩
  · dsimp only at hnode
    by_cases hne : node = h.next_object
    · rw [hne, Function.update_self] at hnode
      cases hnode
    · rw [Function.update_of_ne hne] at hnode
      exact hinv.sorted node c items hnode

/-- The program gets to know a symbol. -/
theorem Inv.add_name (hinv : Inv h m) {y : ℕ} {id : ℤ} (hy : h.objects y = .symbol id name) :
    Inv h { m with names := Function.update m.names y (some name) } :=
  { hinv with
    names := by
      intro y' name' hy'
      dsimp only at hy'
      by_cases hne : y' = y
      · rw [hne, Function.update_self, Option.some.injEq] at hy'
        exact ⟨id, hne ▸ hy' ▸ hy⟩
      · rw [Function.update_of_ne hne] at hy'
        exact hinv.names y' name' hy' }

theorem mem_insert_second {l : List ℕ} {x y : ℕ} : y ∈ l.take 1 ++ x :: l.drop 1 ↔ y = x ∨ y ∈ l := by
  rw [List.mem_append, List.mem_cons, or_left_comm, ← List.mem_append, List.take_append_drop]

/-- The heap after a new symbol is in the list. -/
def Heap.with_symbol (h : Heap) (name : String) : Heap where
  objects := Function.update h.objects h.next_object (.symbol h.next_id name)
  next_object := h.next_object + 1
  allsymbols := h.allsymbols.take 1 ++ h.next_object :: h.allsymbols.drop 1
  next_id := Int.bmod (h.next_id + 1) (2 ^ 32)

theorem Inv.next_id_succ (hinv : Inv h m) (hfew : h.allsymbols.length < MAX_SYMBOLS) :
    Int.bmod (h.next_id + 1) (2 ^ 32) = h.next_id + 1 := by
  have hid := hinv.next_id
  have hmax : MAX_SYMBOLS = 81920000 := by decide
  refine Int.bmod_eq_of_le_mul_two ?_ ?_
  · omega
  · omega

theorem Inv.new_symbol (hinv : Inv h m) (hfew : h.allsymbols.length < MAX_SYMBOLS)
    (hname : ∀ y id, h.objects y ≠ .symbol id name) : Inv (h.with_symbol name) m := by
  have hkept := @Inv.symbolsKept_new h (h.with_symbol name) m hinv _ rfl
  have hid := hinv.next_id_succ hfew
  have hnew : (h.with_symbol name).objects h.next_object = .symbol h.next_id name :=
    Function.update_self ..
  have hold : ∀ {y}, y ≠ h.next_object → (h.with_symbol name).objects y = h.objects y :=
    fun hy => Function.update_of_ne hy _ _
  -- a symbol is the new one or an old one
  have hback : ∀ y id n, (h.with_symbol name).objects y = .symbol id n →
      y = h.next_object ∧ id = h.next_id ∧ n = name ∨ y ≠ h.next_object ∧ h.objects y = .symbol id n := by
    intro y id n hy
    by_cases hne : y = h.next_object
    · rw [hne, hnew, Object.symbol.injEq] at hy
      exact .inl ⟨hne, hy.1.symm, hy.2.symm⟩
    · rw [hold hne] at hy
      exact .inr ⟨hne, hy⟩
  obtain ⟨ob_items, hempty⟩ := hinv.empty
  refine ⟨fun obj hobj => ?_, hinv.prebuilt.trans (Nat.le_succ _), fun obj => ?_, ?_, ?_, ?_,
    fun y id n hy => ?_, fun y y' id n n' hy hy' => ?_, fun y y' id id' n hy hy' => ?_,
    ⟨ob_items, ?_⟩, fun f map hf => ?_, fun f node hf => ?_, fun f f' node hf hf' => ?_,
    fun y n hy => ?_, fun node c items hnode => ?_⟩
  · have hgt : h.next_object < obj := hobj
    rw [hold hgt.ne']
    exact hinv.unallocated obj hgt.le
  · show obj ∈ h.allsymbols.take 1 ++ h.next_object :: h.allsymbols.drop 1 ↔ _
    rw [mem_insert_second, hinv.allsymbols]
    constructor
    · rintro (rfl | ⟨id, n, hy⟩)
      · exact ⟨_, _, hnew⟩
      · exact ⟨id, n, hkept _ _ _ hy⟩
    · rintro ⟨id, n, hy⟩
      rcases hback _ _ _ hy with ⟨rfl, -⟩ | ⟨-, hy⟩
      · exact .inl rfl
      · exact .inr ⟨id, n, hy⟩
  · obtain ⟨next, hnext⟩ := hinv.head
    refine ⟨h.next_object :: next, ?_⟩
    show h.allsymbols.take 1 ++ h.next_object :: h.allsymbols.drop 1 = _
    rw [hnext]
    rfl
  · show Int.bmod (h.next_id + 1) (2 ^ 32) = ((h.allsymbols.take 1 ++ _).length : ℤ)
    rw [hid, hinv.next_id]
    obtain ⟨next, hnext⟩ := hinv.head
    rw [hnext]
    rfl
  · show (h.allsymbols.take 1 ++ h.next_object :: h.allsymbols.drop 1).length ≤ MAX_SYMBOLS
    obtain ⟨next, hnext⟩ := hinv.head
    rw [hnext] at hfew ⊢
    exact hfew
  · show id < Int.bmod (h.next_id + 1) (2 ^ 32)
    rw [hid]
    rcases hback _ _ _ hy with ⟨-, rfl, -⟩ | ⟨-, hy⟩
    · exact Int.lt_succ _
    · exact (hinv.id_lt y id n hy).trans (Int.lt_succ _)
  · rcases hback _ _ _ hy with ⟨rfl, rfl, -⟩ | ⟨-, hy⟩
    · rcases hback _ _ _ hy' with ⟨rfl, -⟩ | ⟨-, hy'⟩
      · rfl
      · exact absurd (hinv.id_lt _ _ _ hy') (lt_irrefl _)
    · rcases hback _ _ _ hy' with ⟨rfl, rfl, -⟩ | ⟨-, hy'⟩
      · exact absurd (hinv.id_lt _ _ _ hy) (lt_irrefl _)
      · exact hinv.id_inj y y' _ _ _ hy hy'
  · rcases hback _ _ _ hy with ⟨hnew, -, hn⟩ | ⟨-, hold⟩
    · rcases hback _ _ _ hy' with ⟨hnew', -⟩ | ⟨-, hold'⟩
      · exact hnew.trans hnew'.symm
      · exact absurd (hn ▸ hold') (hname _ _)
    · rcases hback _ _ _ hy' with ⟨-, -, hn⟩ | ⟨-, hold'⟩
      · exact absurd (hn ▸ hold) (hname _ _)
      · exact hinv.name_inj y y' _ _ _ hold hold'
  · rw [hold (hinv.ne_new hempty nofun)]
    exact hempty
  · obtain ⟨node, ob_count, ob_items, hframe⟩ := hinv.frames f map hf
    refine ⟨node, ob_count, ob_items, hframe.kept hkept ?_ ?_⟩
    · exact hold (hinv.ne_new hframe.ob_nodes nofun)
    · exact hold (hinv.ne_new hframe.entries nofun)
  · by_cases hne : f = h.next_object
    · rw [hne, hnew] at hf
      cases hf
    · rw [hold hne] at hf
      exact hinv.only f node hf
  · by_cases hne : f = h.next_object
    · rw [hne, hnew] at hf
      cases hf
    · by_cases hne' : f' = h.next_object
      · rw [hne', hnew] at hf'
        cases hf'
      · rw [hold hne] at hf
        rw [hold hne'] at hf'
        exact hinv.own f f' node hf hf'
  · obtain ⟨id, hy'⟩ := hinv.names y n hy
    exact ⟨id, hkept _ _ _ hy'⟩
  · by_cases hne : node = h.next_object
    · rw [hne, hnew] at hnode
      cases hnode
    · rw [hold hne] at hnode
      exact hinv.sorted node c items hnode

theorem Inv.frame_ne_node {f' : ℕ} (hinv : Inv h m) (hf : h.objects f = .frame node) (hne : f' ≠ f)
    {node' ob_count' : ℕ} {ob_items' : ℕ → dictentry_t}
    (hframe : FrameHas h f' node' ob_count' ob_items' map) (hnode : node ≠ du_empty_framenode) :
    node' ≠ node := by
  rintro rfl
  exact (hinv.own f' f node' hframe.ob_nodes hf).elim hne hnode

/-- The heap after the frame points to a new node. -/
def Heap.with_node (h : Heap) (frame ob_count : ℕ) (ob_items : ℕ → dictentry_t) : Heap :=
  { h with
    objects := Function.update (Function.update h.objects h.next_object
      (.framenode ob_count ob_items)) frame (.frame h.next_object)
    next_object := h.next_object + 1 }

theorem Inv.new_node {map' : String → Option Binding} (hinv : Inv h m) (hf : m.frames f = some map)
    (hnode : NodeHas h ob_count ob_items map') :
    Inv (h.with_node f ob_count ob_items) { m with frames := Function.update m.frames f (some map') } := by
  obtain ⟨node₀, ob_count₀, ob_items₀, hframe₀⟩ := hinv.frames f map hf
  have hfnew : f ≠ h.next_object := hinv.ne_new hframe₀.ob_nodes nofun
  have hself : (h.with_node f ob_count ob_items).objects f = .frame h.next_object :=
    Function.update_self ..
  have hnew : (h.with_node f ob_count ob_items).objects h.next_object = .framenode ob_count ob_items := by
    show Function.update _ f _ h.next_object = _
    rw [Function.update_of_ne hfnew.symm, Function.update_self]
  have hold : ∀ {y}, y ≠ f → y ≠ h.next_object →
      (h.with_node f ob_count ob_items).objects y = h.objects y := by
    intro y hy hy'
    show Function.update _ f _ y = _
    rw [Function.update_of_ne hy, Function.update_of_ne hy']
  have hne : ∀ {y x}, h.objects y = x → x ≠ .none → (∀ node, x ≠ .frame node) →
      (h.with_node f ob_count ob_items).objects y = x := by
    intro y x hy hx hx'
    rw [hold ?_ (hinv.ne_new hy hx), hy]
    rintro rfl
    exact hx' _ (hy.symm.trans hframe₀.ob_nodes)
  have hkept : SymbolsKept h (h.with_node f ob_count ob_items) := fun y id name hy => hne hy nofun nofun
  have hback : ∀ y id name, (h.with_node f ob_count ob_items).objects y = .symbol id name →
      h.objects y = .symbol id name := by
    intro y id name hy
    by_cases hyf : y = f
    · rw [hyf, hself] at hy
      cases hy
    · by_cases hyn : y = h.next_object
      · rw [hyn, hnew] at hy
        cases hy
      · rwa [hold hyf hyn] at hy
  -- another frame is as it was
  have hframe : ∀ {f' node}, f' ≠ f → (h.with_node f ob_count ob_items).objects f' = .frame node →
      h.objects f' = .frame node := by
    intro f' node hf' hnode
    by_cases hfn : f' = h.next_object
    · rw [hfn, hnew] at hnode
      cases hnode
    · rwa [hold hf' hfn] at hnode
  obtain ⟨ob_items₁, hempty⟩ := hinv.empty
  refine ⟨fun obj hobj => ?_, hinv.prebuilt.trans (Nat.le_succ _), fun obj => ?_, hinv.head, hinv.next_id,
    hinv.few, fun y id name hy => hinv.id_lt y id name (hback y id name hy),
    fun y y' id name name' hy hy' => hinv.id_inj y y' _ _ _ (hback _ _ _ hy) (hback _ _ _ hy'),
    fun y y' id id' name hy hy' => hinv.name_inj y y' _ _ _ (hback _ _ _ hy) (hback _ _ _ hy'),
    ⟨ob_items₁, hne hempty nofun nofun⟩, fun f' map₁ hf' => ?_, fun f' node hf' => ?_,
    fun f' f'' node hf' hf'' => ?_, fun y name hy => ?_, fun node c items hitems => ?_⟩
  · have hgt : h.next_object < obj := hobj
    have hfobj : obj ≠ f := by
      rintro rfl
      exact absurd (hinv.unallocated obj hgt.le) (by rw [hframe₀.ob_nodes]; nofun)
    rw [hold hfobj hgt.ne']
    exact hinv.unallocated obj hgt.le
  · show obj ∈ h.allsymbols ↔ _
    rw [hinv.allsymbols]
    exact ⟨fun ⟨id, name, hy⟩ => ⟨id, name, hkept _ _ _ hy⟩,
      fun ⟨id, name, hy⟩ => ⟨id, name, hback _ _ _ hy⟩⟩
  · dsimp only at hf'
    by_cases hff : f' = f
    · rw [hff, Function.update_self, Option.some.injEq] at hf'
      subst hf'
      exact ⟨h.next_object, ob_count, ob_items, hff ▸ hself, hnew, hnode.kept hkept⟩
    · rw [Function.update_of_ne hff] at hf'
      obtain ⟨node, c, items, hframe'⟩ := hinv.frames f' map₁ hf'
      refine ⟨node, c, items, hframe'.kept hkept (hold hff (hinv.ne_new hframe'.ob_nodes nofun)) ?_⟩
      rw [hne hframe'.entries nofun nofun, hframe'.entries]
  · dsimp only
    by_cases hff : f' = f
    · rw [hff, Function.update_self]
      exact ⟨_, rfl⟩
    · rw [Function.update_of_ne hff]
      exact hinv.only f' node (hframe hff hf')
  · by_cases hff : f' = f
    · by_cases hff' : f'' = f
      · exact .inl (hff.trans hff'.symm)
      · rw [hff, hself, Object.frame.injEq] at hf'
        -- the new node is not the node of an old frame
        obtain ⟨map₁, hmap₁⟩ := hinv.only f'' node (hframe hff' hf'')
        obtain ⟨n, c, items, hframe'⟩ := hinv.frames f'' map₁ hmap₁
        have hn : n = node := Object.frame.inj (hframe'.ob_nodes.symm.trans (hframe hff' hf''))
        exact absurd (hn.trans hf'.symm) (hinv.ne_new hframe'.entries nofun)
    · by_cases hff' : f'' = f
      · rw [hff', hself, Object.frame.injEq] at hf''
        obtain ⟨map₁, hmap₁⟩ := hinv.only f' node (hframe hff hf')
        obtain ⟨n, c, items, hframe'⟩ := hinv.frames f' map₁ hmap₁
        have hn : n = node := Object.frame.inj (hframe'.ob_nodes.symm.trans (hframe hff hf'))
        exact absurd (hn.trans hf''.symm) (hinv.ne_new hframe'.entries nofun)
      · exact hinv.own f' f'' node (hframe hff hf') (hframe hff' hf'')
  · obtain ⟨id, hy'⟩ := hinv.names y name hy
    exact ⟨id, hkept _ _ _ hy'⟩
  · by_cases hnf : node = f
    · rw [hnf, hself] at hitems
      cases hitems
    · by_cases hnn : node = h.next_object
      · rw [hnn, hnew, Object.framenode.injEq] at hitems
        rw [← hitems.1, ← hitems.2]
        exact hnode.ordered
      · rw [hold hnf hnn] at hitems
        exact hinv.sorted node c items hitems

/-- The entries of a node are changed in place. -/
theorem Inv.set_node {ob_items' : ℕ → dictentry_t} {map' : String → Option Binding} (hinv : Inv h m)
    (hframe : FrameHas h f node ob_count ob_items map)
    (hpos : 0 < ob_count) (hnode : NodeHas h ob_count ob_items' map') :
    Inv { h with objects := Function.update h.objects node (.framenode ob_count ob_items') }
      { m with frames := Function.update m.frames f (some map') } := by
  have hold : ∀ {y}, y ≠ node → Function.update h.objects node (.framenode ob_count ob_items') y
      = h.objects y := fun hy => Function.update_of_ne hy _ _
  have hsymbols : ∀ {y id name}, Function.update h.objects node (.framenode ob_count ob_items') y
      = .symbol id name ↔ h.objects y = .symbol id name := by
    intro y id name
    by_cases hy : y = node
    · rw [hy, Function.update_self, hframe.entries]
      exact ⟨nofun, nofun⟩
    · rw [hold hy]
  have hframes : ∀ {y n}, Function.update h.objects node (.framenode ob_count ob_items') y
      = .frame n ↔ h.objects y = .frame n := by
    intro y n
    by_cases hy : y = node
    · rw [hy, Function.update_self, hframe.entries]
      exact ⟨nofun, nofun⟩
    · rw [hold hy]
  have hkept : SymbolsKept h { h with
      objects := Function.update h.objects node (.framenode ob_count ob_items') } :=
    fun y id name hy => hsymbols.mpr hy
  -- the node has entries, so it is not the one that frames share
  have hempty : node ≠ du_empty_framenode := by
    rintro rfl
    obtain ⟨ob_items₁, hempty⟩ := hinv.empty
    rw [hframe.entries, Object.framenode.injEq] at hempty
    exact hpos.ne' hempty.1
  refine ⟨fun obj hobj => ?_, hinv.prebuilt, fun obj => ?_, hinv.head, hinv.next_id, hinv.few,
    fun y id name hy => hinv.id_lt y id name (hsymbols.mp hy),
    fun y y' id name name' hy hy' => hinv.id_inj y y' _ _ _ (hsymbols.mp hy) (hsymbols.mp hy'),
    fun y y' id id' name hy hy' => hinv.name_inj y y' _ _ _ (hsymbols.mp hy) (hsymbols.mp hy'),
    ?_, fun f' map₁ hf' => ?_, fun f' n hf' => ?_,
    fun f' f'' n hf' hf'' => hinv.own f' f'' n (hframes.mp hf') (hframes.mp hf''), fun y name hy => ?_,
    fun n c items hitems => ?_⟩
  · have hnone := hinv.unallocated obj hobj
    dsimp only
    rw [hold ?_]
    · exact hnone
    · rintro rfl
      rw [hframe.entries] at hnone
      cases hnone
  · rw [hinv.allsymbols]
    simp only [hsymbols]
  · obtain ⟨ob_items₁, hempty₁⟩ := hinv.empty
    exact ⟨ob_items₁, (hold hempty.symm).trans hempty₁⟩
  · dsimp only at hf'
    by_cases hff : f' = f
    · rw [hff, Function.update_self, Option.some.injEq] at hf'
      subst hf'
      exact ⟨node, ob_count, ob_items', hframes.mpr (hff ▸ hframe.ob_nodes), Function.update_self ..,
        hnode.kept hkept⟩
    · rw [Function.update_of_ne hff] at hf'
      obtain ⟨n, c, items, hframe'⟩ := hinv.frames f' map₁ hf'
      refine ⟨n, c, items, hframes.mpr hframe'.ob_nodes, ?_, hframe'.node.kept hkept⟩
      rw [← hframe'.entries]
      exact hold (hinv.frame_ne_node hframe.ob_nodes hff hframe' hempty)
  · dsimp only
    by_cases hff : f' = f
    · rw [hff, Function.update_self]
      exact ⟨_, rfl⟩
    · rw [Function.update_of_ne hff]
      exact hinv.only f' n (hframes.mp hf')
  · obtain ⟨id, hy'⟩ := hinv.names y name hy
    exact ⟨id, hkept _ _ _ hy'⟩
  · dsimp only at hitems
    by_cases hn : n = node
    · rw [hn, Function.update_self, Object.framenode.injEq] at hitems
      rw [← hitems.1, ← hitems.2]
      exact hnode.ordered
    · rw [hold hn] at hitems
      exact hinv.sorted n c items hitems

end

end Frame

end Stmgc.Duhton
