/-
Frames are finite maps, in every run of a program.

The invariant holds at the start and every call keeps it, with the change that
the call makes to the maps ([`Inv.perform`]). So no call uses a pointer that a
collection has made useless, and every call answers as the maps do.
-/
import Stmgc.Duhton.FrameSteps

namespace Stmgc.Duhton

open Stmgc.Lib Stmgc.Lib.Exec

namespace Frame

section

variable {gc : Gc} {s t : St} {m : Maps} {R : St → Prop} {f y : ℕ}

/-! ## The start -/

theorem initial_symbol {id : ℤ} {name : String} (h : initial.heap.objects y = .symbol id name) :
    y = _Du_AllSymbols ∧ id = 0 := by
  unfold initial at h
  dsimp only at h
  split_ifs at h with hsymbol
  exact ⟨hsymbol, (Object.symbol.inj h).1.symm⟩

theorem initial_frame {node : ℕ} (h : initial.heap.objects f = .frame node) :
    f = Du_Globals ∧ node = du_empty_framenode := by
  unfold initial at h
  dsimp only at h
  split_ifs at h with h1 h2 hframe
  exact ⟨hframe, (Object.frame.inj h).symm⟩

theorem initial_framenode {ob_count : ℕ} {ob_items : ℕ → dictentry_t}
    (h : initial.heap.objects f = .framenode ob_count ob_items) : ob_count = 0 := by
  unfold initial at h
  dsimp only at h
  split_ifs at h
  exact (Object.framenode.inj h).1.symm

theorem inv_initial : Inv initial.heap .initial where
  unallocated obj hobj := by
    have h3 : 3 ≤ obj := hobj
    unfold initial _Du_AllSymbols du_empty_framenode Du_Globals
    dsimp only
    rw [if_neg (by omega), if_neg (by omega), if_neg (by omega)]
  prebuilt := le_rfl
  allsymbols obj := by
    constructor
    · intro hobj
      rw [List.mem_singleton.mp hobj]
      exact ⟨0, "", rfl⟩
    · rintro ⟨id, name, hobj⟩
      exact List.mem_singleton.mpr (initial_symbol hobj).1
  head := ⟨[], rfl⟩
  next_id := rfl
  few := by decide
  id_lt y id name hy := by
    rw [(initial_symbol hy).2]
    exact Int.one_pos
  id_inj y y' id name name' hy hy' := (initial_symbol hy).1.trans (initial_symbol hy').1.symm
  name_inj y y' id id' name hy hy' := (initial_symbol hy).1.trans (initial_symbol hy').1.symm
  empty := ⟨_, rfl⟩
  frames f map hf := by
    unfold Maps.initial at hf
    dsimp only at hf
    split_ifs at hf with hglobals
    rw [Option.some.injEq] at hf
    subst hf hglobals
    exact ⟨du_empty_framenode, 0, _, rfl, rfl, fun _ _ _ hj => absurd hj (Nat.not_lt_zero _),
      fun _ hi => absurd hi (Nat.not_lt_zero _),
      fun _ _ => ⟨nofun, fun ⟨_, hi, _⟩ => absurd hi (Nat.not_lt_zero _)⟩⟩
  only f node hf := by
    rw [(initial_frame hf).1]
    exact ⟨_, rfl⟩
  own f f' node hf hf' := .inl ((initial_frame hf).1.trans (initial_frame hf').1.symm)
  names := nofun
  sorted node ob_count ob_items hnode := by
    rw [initial_framenode hnode]
    exact fun _ _ _ hj => absurd hj (Nat.not_lt_zero _)

/-! ## One call -/

@[simp] theorem wp_pointer_or_null {q : Option ℕ} {Q : Option Ptr → St → Prop} :
    wp (pointer_or_null q) Q R s ↔ Q (q.map fun obj => ⟨obj, s.collections⟩) s := by
  cases q with
  | none => exact Iff.rfl
  | some obj => exact Iff.rfl

/-- What the caller passes is up to date. -/
theorem valid_of_map {q : Option ℕ} {p : Ptr}
    (h : p ∈ q.map fun obj => (⟨obj, s.collections⟩ : Ptr)) : s.is_valid p := by
  obtain ⟨obj, -, rfl⟩ := Option.map_eq_some_iff.mp h
  exact .inl rfl

theorem map_map_obj {q : Option ℕ} {collections : ℕ} :
    (q.map fun obj => (⟨obj, collections⟩ : Ptr)).map Ptr.obj = q := by
  cases q with
  | none => rfl
  | some obj => rfl

/-- The frame and the symbol that a program may pass. -/
theorem Inv.passed (hinv : Inv s.heap m) (h : (m.frames f).isSome = true ∧ (m.names y).isSome = true) :
    ∃ map name id, m.frames f = some map ∧ m.names y = some name ∧
      s.heap.objects y = .symbol id name ∧ m.get f y = map name := by
  obtain ⟨map, hmap⟩ := Option.isSome_iff_exists.mp h.1
  obtain ⟨name, hname⟩ := Option.isSome_iff_exists.mp h.2
  obtain ⟨id, hid⟩ := hinv.names y name hname
  refine ⟨map, name, id, hmap, hname, hid, ?_⟩
  unfold Maps.get
  rw [hmap, hname]
  rfl

/-- The symbol with a name is the only one, so two symbols of the program are
the same exactly if their names are. -/
theorem Inv.answers_symbol {name : String} {id : ℤ} (hinv : Inv s.heap m)
    (hy : s.heap.objects y = .symbol id name) :
    m.answers (.DuSymbol_FromString name) (.object y) := by
  refine ⟨y, rfl, fun q n hq => ?_⟩
  obtain ⟨id', hq'⟩ := hinv.names q n hq
  constructor
  · rintro rfl
    rw [hy] at hq'
    exact (Object.symbol.inj hq').2.symm
  · rintro rfl
    exact hinv.name_inj _ _ _ _ _ hq' hy

/-- A call keeps the invariant and answers as the maps do. -/
theorem Inv.perform (hinv : Inv s.heap m) (op : Op) (hmay : m.may op) :
    wp (perform gc op) (fun r t => Inv t.heap (m.perform op r) ∧ m.answers op r) (fun _ => True) s := by
  cases op with
  | DuFrame_New =>
      unfold Frame.perform
      rw [wp_bind]
      refine wp_DuFrame_New hinv fun ob t hnone hob => ?_
      rw [wp_pure]
      exact ⟨hob, ob.obj, rfl, hnone⟩
  | DuSymbol_FromString name =>
      unfold Frame.perform
      rw [wp_bind]
      refine wp_DuSymbol_FromString hinv fun p id t ht hp _ _ => ?_
      rw [wp_pure]
      exact ⟨ht.add_name hp, ht.answers_symbol hp⟩
  | DuFrame_GetSymbol frame symbol =>
      obtain ⟨map, name, id, hmap, -, hid, hget⟩ := hinv.passed hmay
      unfold Frame.perform
      rw [wp_bind, wp_pointer, wp_bind, wp_pointer, wp_bind]
      refine wp_DuFrame_GetSymbol hinv hmap hid (.inl rfl) (.inl rfl) fun t ht => ?_
      rw [wp_pure]
      refine ⟨ht, ?_⟩
      show _ = Answer.value ((m.get frame symbol).bind Binding.value)
      rw [hget]
  | DuFrame_SetSymbol frame symbol value =>
      obtain ⟨map, name, id, hmap, hname, hid, -⟩ := hinv.passed hmay
      unfold Frame.perform
      rw [wp_bind, wp_pointer, wp_bind, wp_pointer, wp_bind, wp_pointer_or_null, wp_bind]
      refine wp_DuFrame_SetSymbol hinv hmap hid (.inl rfl) (.inl rfl) (fun _ => valid_of_map)
        fun t ht => ?_
      rw [wp_pure]
      refine ⟨?_, rfl⟩
      unfold Maps.perform
      dsimp only
      rw [hname]
      rw [map_map_obj] at ht
      exact ht
  | DuFrame_SetUserFunction frame symbol arglist progn =>
      obtain ⟨map, name, id, hmap, hname, hid, -⟩ := hinv.passed hmay
      unfold Frame.perform
      rw [wp_bind, wp_pointer, wp_bind, wp_pointer, wp_bind, wp_pointer_or_null, wp_bind,
        wp_pointer_or_null, wp_bind]
      refine wp_DuFrame_SetUserFunction hinv hmap hid (.inl rfl) (.inl rfl) (fun _ => valid_of_map)
        (fun _ => valid_of_map) fun t ht => ?_
      rw [wp_pure]
      refine ⟨?_, rfl⟩
      unfold Maps.perform
      dsimp only
      rw [hname]
      rw [map_map_obj, map_map_obj] at ht
      exact ht
  | DuFrame_SetBuiltinMacro frame name func =>
      obtain ⟨map, hmap⟩ := Option.isSome_iff_exists.mp hmay
      unfold Frame.perform
      rw [wp_bind, wp_pointer, wp_bind]
      refine wp_DuFrame_SetBuiltinMacro hinv hmap (.inl rfl) fun t ht => ?_
      rw [wp_pure]
      exact ⟨ht, rfl⟩
  | lookup frame symbol =>
      obtain ⟨map, name, id, hmap, -, hid, hget⟩ := hinv.passed hmay
      unfold Frame.perform
      rw [wp_bind, wp_pointer, wp_bind, wp_pointer, wp_bind]
      refine wp_lookup hinv hmap hid (.inl rfl) (.inl rfl) fun d t ht hd => ?_
      rw [wp_pure]
      exact ⟨ht, d, rfl, hd.trans hget.symm⟩
  | transaction_break =>
      unfold Frame.perform
      rw [wp_bind, wp_modify, wp_pure]
      exact ⟨hinv, rfl⟩

/-! ## Runs -/

theorem Run.inv (h : Run gc s m) : Inv s.heap m := by
  induction h with
  | start => exact inv_initial
  | call _ hmay hcall ih =>
      have hwp := @Inv.perform gc _ _ ih _ hmay
      unfold wp at hwp
      rw [hcall] at hwp
      exact hwp.1

end

section

variable {m : Maps} {op : Op} {r : Answer} {f : ℕ} {map : String → Option Binding}

end

end Frame

end Stmgc.Duhton
