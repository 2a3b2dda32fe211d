/-
Collections and the end of a hashtable.

When no lookup is running the tables are [`Quiet`]: the current one is unlocked
and the others lead to it. `_stm_compact_hashtable` keeps this and frees the
tables in between; `stm_hashtable_free` frees all of them. A collection or an
abort that comes in the middle of a lookup finds the current table locked.
-/
import Stmgc.C7.HashtableChainInv

namespace Stmgc.C7

open Stmgc.Lib

namespace SharedHashtable

variable {s s' : SharedHashtable} {initial : ℕ} {turns : ℕ → ℕ} {older : List ℕ}

/-! ## Tables that nobody is looking at -/

structure Quiet (s : SharedHashtable) (initial : ℕ) (older : List ℕ) : Prop where
  fits : ∀ p tab, s.tables p = some tab → tab.Fits
  current : ∃ tab, s.tables s.table = some tab ∧ Counts tab tab.resize_counter tab.count
  linked : Linked s initial older none

theorem FitsInv.quiet (h : FitsInv s initial turns) (hidle : ∀ t, s.threads t = .idle) :
    ∃ older, Quiet s initial older := by
  obtain ⟨tab, older, bigger, htab, ⟨-, hcounts, rfl⟩ | ⟨t, ht, -⟩, hlinked⟩ := h.working
  · exact ⟨older, h.fits, ⟨tab, htab, hcounts⟩, hlinked⟩
  · rw [hidle t] at ht
    exact absurd ht (fun h => h)

theorem Quiet.inv (h : Quiet s initial older) (hidle : ∀ t, s.threads t = .idle) :
    FitsInv s initial turns where
  fits := h.fits
  working := by
    obtain ⟨tab, htab, hcounts⟩ := h.current
    refine ⟨tab, older, none, htab, .inl ⟨fun t => ?_, hcounts, rfl⟩, h.linked⟩
    rw [hidle t]
    rfl
  reader t := by
    rw [hidle t]
    trivial
  index t := by
    rw [hidle t]
    decide

/-- A new current table, to which the counter of the old one points. -/
theorem Quiet.push (h : Quiet s initial older) {p : ℕ} {tab : Table} (bigger : Table)
    (htab : s.tables s.table = some tab) (hp : is_pointer p) (hfree : s.tables p = none)
    (hfits : bigger.Fits) (hcounts : Counts bigger bigger.resize_counter bigger.count)
    (htables : s'.tables = ((s.set_table s.table { tab with resize_counter := p }).set_table
      p bigger).tables) (htable : s'.table = p) :
    Quiet s' initial (older ++ [s.table]) := by
  have hread : ∀ q, s'.tables q = if q = p then some bigger
      else if q = s.table then some { tab with resize_counter := p } else s.tables q := by
    intro q
    rw [htables, tables_set_table, tables_set_table]
  have hfresh : ∀ q, (s.tables q).isSome → q ≠ p := by
    rintro q hq rfl
    rw [hfree] at hq
    cases hq
  have hcur : s.table ≠ p := hfresh _ (by rw [htab]; rfl)
  have hold : ∀ q ∈ older, q ≠ p ∧ q ≠ s.table := by
    intro q hq
    refine ⟨hfresh q ((h.linked.live q).mpr (.inl hq)), ?_⟩
    rintro rfl
    exact h.linked.not_mem hq
  refine ⟨fun q T hT => ?_, ⟨bigger, ?_, hcounts⟩, ?_, ?_, fun q => ?_, nofun⟩
  · rw [hread] at hT
    split_ifs at hT
    · cases hT
      exact hfits
    · cases hT
      exact (h.fits _ _ htab).congr rfl fun _ => rfl
    · exact h.fits q T hT
  · rw [htable, hread, if_pos rfl]
  · rw [htable]
    refine Path.tail (h.linked.path.congr fun x hx y hxy => ?_) ⟨{ tab with resize_counter := p },
      ?_, rfl, hp⟩
    · obtain ⟨T, hT, hrc⟩ := hxy
      refine ⟨T, ?_, hrc⟩
      rw [hread, if_neg (hold x hx).1, if_neg (hold x hx).2]
      exact hT
    · rw [hread, if_neg hcur, if_pos rfl]
  · rw [htable, List.nodup_append]
    refine ⟨h.linked.nodup, List.nodup_singleton _, fun a ha b hb => ?_⟩
    cases List.mem_singleton.mp hb
    rcases List.mem_append.mp ha with ha | ha
    · exact (hold a ha).1
    · rw [List.mem_singleton.mp ha]
      exact hcur
  · rw [htable, hread, List.mem_append, List.mem_singleton]
    have hlive := h.linked.live q
    split_ifs with hqp hqs
    · exact ⟨fun _ => .inr (.inl hqp), fun _ => rfl⟩
    · exact ⟨fun _ => .inl (.inr hqs), fun _ => rfl⟩
    · refine hlive.trans ⟨?_, ?_⟩
      · rintro (hq | hq | hq)
        · exact .inl (.inl hq)
        · exact absurd hq hqs
        · cases hq
      · rintro ((hq | hq) | hq | hq)
        · exact .inl hq
        · exact absurd hq hqs
        · exact absurd hq hqp
        · cases hq

/-- The path is empty, or starts with `initial_table`. -/
theorem Linked.older_eq {b : Option ℕ} (h : Linked s initial older b) :
    (older = [] ∧ s.table = initial) ∨ ∃ rest, older = initial :: rest := by
  have hpath := h.path
  cases older with
  | nil => exact .inl ⟨rfl, (Path.nil_iff.mp hpath).symm⟩
  | cons p rest =>
      rw [(Path.cons_iff.mp hpath).1]
      exact .inr ⟨rest, rfl⟩

theorem Linked.initial_isSome {b : Option ℕ} (h : Linked s initial older b) :
    (s.tables initial).isSome := by
  rw [h.live]
  rcases h.older_eq with ⟨-, htable⟩ | ⟨rest, rfl⟩
  · exact .inr (.inl htable.symm)
  · exact .inl List.mem_cons_self

/-- The tables between the first and the current one are gone. -/
theorem Quiet.cut {rest : List ℕ} {first : Table} (h : Quiet s initial (initial :: rest))
    (hfirst : s.tables initial = some first)
    (hread : ∀ q, s'.tables q = if q = initial then some { first with resize_counter := s.table }
      else if q ∈ rest then none else s.tables q) (htable : s'.table = s.table) :
    Quiet s' initial [initial] := by
  obtain ⟨tab, htab, hcounts⟩ := h.current
  have hnodup := h.linked.nodup
  rw [List.cons_append, List.nodup_cons, List.nodup_append] at hnodup
  obtain ⟨hmem, -, -, hdisjoint⟩ := hnodup
  have hne : s.table ≠ initial := by
    rintro heq
    exact hmem (List.mem_append_right _ (List.mem_singleton.mpr heq.symm))
  have hcur : s.table ∉ rest := fun hmem => hdisjoint _ hmem _ List.mem_cons_self rfl
  have hptr : is_pointer s.table := by
    obtain ⟨x, -, T, -, -, hp⟩ := h.linked.path.last hne.symm
    exact hp
  refine ⟨fun q T hT => ?_, ⟨tab, ?_, hcounts⟩, ?_, ?_, fun q => ?_, nofun⟩
  · rw [hread] at hT
    split_ifs at hT
    · cases hT
      exact (h.fits _ _ hfirst).congr rfl fun _ => rfl
    · exact h.fits q T hT
  · rw [htable, hread, if_neg hne, if_neg hcur]
    exact htab
  · rw [htable]
    exact Path.head ⟨_, (hread _).trans (if_pos rfl), rfl, hptr⟩ (.refl _)
  · rw [htable, List.singleton_append, List.nodup_cons, List.mem_singleton]
    exact ⟨Ne.symm hne, List.nodup_singleton _⟩
  · have hlive := h.linked.live q
    rw [List.mem_cons] at hlive
    rw [hread, htable, List.mem_singleton]
    split_ifs with hq hrest
    · exact ⟨fun _ => .inl hq, fun _ => rfl⟩
    · refine ⟨nofun, ?_⟩
      rintro (rfl | rfl | hq')
      · exact absurd rfl hq
      · exact absurd hrest hcur
      · cases hq'
    · rw [hlive]
      refine ⟨?_, ?_⟩
      · rintro ((hq' | hq') | hq' | hq')
        · exact .inl hq'
        · exact absurd hq' hrest
        · exact .inr (.inl hq')
        · cases hq'
      · rintro (hq' | hq' | hq')
        · exact .inl (.inl hq')
        · exact .inr (.inl hq')
        · cases hq'

end SharedHashtable

namespace stm_hashtable_s

open SharedHashtable

variable {s : SharedHashtable} {initial : ℕ} {older : List ℕ}

/-! ## `_stm_compact_hashtable` -/

/-- The new size is a power of two, large enough, and not larger than the old
one. -/
theorem compact_count_spec {mask n : ℕ} (h : IsMask mask) (hn : n ≤ 4 * (mask + 1)) :
    Returns (compact_count n) fun count => count ≤ mask + 1 ∧ n ≤ 4 * count
      ∧ ∃ k, count = 2 ^ k ∧ 3 ≤ k ∧ k < 61 := by
  obtain ⟨k, hk, hk', hmask⟩ := h
  refine loop.spec_turns (fun left count => ∃ j, count = 2 ^ j ∧ 3 ≤ j ∧ j + left = k) (n := k - 3)
    ?_ ⟨3, rfl, le_refl 3, by omega⟩
  rintro left count ⟨j, rfl, hj, hleft⟩
  have hle : 2 ^ j ≤ 2 ^ k := Nat.pow_le_pow_right (by omega) (by omega)
  split_ifs with hmore
  · -- the size of the table is not reached before `4 * count` is large enough
    have hlt : j < k := by
      by_contra hge
      have hjk : j = k := by omega
      rw [hjk, ← hmask] at hmore
      omega
    exact returns_some ⟨left - 1, by omega, j + 1, (pow_succ 2 j).symm, by omega, by omega⟩
  · exact returns_some ⟨by omega, by omega, j, rfl, hj, by omega⟩

theorem stm_rehash_hashtable_spec {p count k : ℕ} {tab : Table} {keep : EntryPtr → Bool}
    (h : SharedHashtable.Quiet s initial older) (htab : s.tables s.table = some tab)
    (hcount : count = 2 ^ k) (hk : 3 ≤ k) (hk' : k < 61) (hroom : 6 * tab.count ≤ 4 * count)
    (hp : is_pointer p) (hfree : s.tables p = none) :
    Returns (stm_rehash_hashtable s p count keep) fun s' =>
      SharedHashtable.Quiet s' initial (older ++ [s.table]) ∧ s'.table = p
        ∧ s'.threads = s.threads ∧ ∀ q, (s'.tables q).isSome = ((s.tables q).isSome || decide (q = p)) := by
  have hpos : 0 < 2 ^ k := Nat.two_pow_pos k
  have hmask : (init_table count).mask + 1 = count := by
    show count - 1 + 1 = count
    omega
  have hinit := filled_zero tab hcount hk hk'
  have hfold := foldlM_range'_spec
    (f := rehash_body keep tab)
    (fun j (r : Table × ℕ) => Filled tab j r.1 r.2 ∧ r.1.mask = (init_table count).mask)
    (a := 0) (n := tab.mask + 1) (s := (init_table count, (init_table count).resize_counter))
    (fun j r _ hj hr => by
      refine (rehash_body_fits (by omega) (by rw [hr.2]; omega) hr.1).mono fun r' hr' => ?_
      exact ⟨hr'.1, hr'.2.1.trans hr.2⟩) ⟨hinit, rfl⟩
  unfold stm_rehash_hashtable
  rw [htab]
  refine hfold.bind ?_
  rintro ⟨bigger, rc⟩ ⟨hfilled, -⟩
  refine returns_some ⟨h.push { bigger with resize_counter := rc } htab hp hfree (hfilled.fits.congr rfl fun _ => rfl) hfilled.counts
    rfl rfl, rfl, rfl, fun q => ?_⟩
  have hcur : (s.tables s.table).isSome := by
    rw [htab]
    rfl
  refine (congrArg Option.isSome (tables_set_table (q := q))).trans ?_
  split_ifs with hqp
  · simp [hqp]
  · rw [isSome_set_table hcur]
    simp [hqp]

/-- The tables at `nodes` have been freed, in this order. -/
def freeing (m : TableHeap) (nodes : List ℕ) : TableHeap where
  tables q := if q ∈ nodes then none else m.tables q
  freed := nodes.reverse ++ m.freed

theorem freeing_nil (m : TableHeap) : freeing m [] = m := by
  unfold freeing
  simp

theorem freeing_cons (m : TableHeap) (p : ℕ) (nodes : List ℕ) :
    freeing { tables := Function.update m.tables p none, freed := p :: m.freed } nodes
      = freeing m (p :: nodes) := by
  unfold freeing
  congr 1
  · funext q
    dsimp only
    rw [Function.update_apply]
    by_cases hq : q = p
    · simp [hq]
    · simp [hq]
  · simp

theorem freeing_append (m : TableHeap) (xs ys : List ℕ) :
    freeing (freeing m xs) ys = freeing m (xs ++ ys) := by
  unfold freeing
  congr 1
  · funext q
    dsimp only
    by_cases hx : q ∈ xs
    · simp [hx]
    · simp [hx]
  · simp

theorem free_eq {m : TableHeap} {p : ℕ} {tab : Table} (h : m.tables p = some tab) :
    m.free p = some { tables := Function.update m.tables p none, freed := p :: m.freed } := by
  unfold TableHeap.free
  rw [h]

/-- The loop of `_stm_compact_hashtable`, on the path `nodes` to the current
table. -/
theorem cut_loop {rc table : ℕ} {nodes : List ℕ} (h : Path s.links rc nodes table)
    (hrc : is_pointer rc) (hnodup : (nodes ++ [table]).Nodup) (m : TableHeap)
    (hm : ∀ p ∈ nodes, m.tables p = s.tables p) :
    loop (cut_body table) (m, rc) = some (freeing m nodes) := by
  induction h generalizing m with
  | refl p =>
      rw [freeing_nil]
      apply loop_done
      unfold cut_body
      rw [c_assert_eq_some, c_assert_eq_some]
      exact ⟨hrc.1, hrc.2, if_pos rfl⟩
  | @head p q table nodes hlink _ ih =>
      obtain ⟨tab, htab, rfl, hq⟩ := hlink
      rw [List.cons_append, List.nodup_cons] at hnodup
      have hne : p ≠ table := by
        rintro rfl
        exact hnodup.1 (List.mem_append_right _ List.mem_cons_self)
      have hread : m.tables p = some tab := (hm p List.mem_cons_self).trans htab
      have hturn : cut_body table (m, p)
          = some (.cont ({ tables := Function.update m.tables p none, freed := p :: m.freed },
            tab.resize_counter)) := by
        unfold cut_body
        rw [c_assert_eq_some, c_assert_eq_some]
        refine ⟨hrc.1, hrc.2, ?_⟩
        dsimp only
        rw [if_neg hne, hread, free_eq hread]
        rfl
      rw [loop_cont hturn, ih hq hnodup.2, freeing_cons]
      intro x hx
      have hxp : x ≠ p := by
        rintro rfl
        exact hnodup.1 (List.mem_append_left _ hx)
      dsimp only
      rw [Function.update_of_ne hxp]
      exact hm x (List.mem_cons_of_mem _ hx)

/-- A turn of the loop of `stm_hashtable_free`. -/
theorem free_turn {m : TableHeap} {p : ℕ} {tab : Table} (hp : is_pointer p)
    (htab : m.tables p = some tab) : free_body (m, p)
      = some (.cont ({ tables := Function.update m.tables p none, freed := p :: m.freed },
        tab.resize_counter)) := by
  unfold free_body
  rw [if_pos hp.1, c_assert_eq_some]
  refine ⟨hp.2, ?_⟩
  dsimp only
  rw [htab, free_eq htab]
  rfl

/-- The loop of `stm_hashtable_free` goes along the path. -/
theorem free_loop {rc table : ℕ} {nodes : List ℕ} (h : Path s.links rc nodes table)
    (hrc : is_pointer rc) (hnodup : nodes.Nodup) (m : TableHeap)
    (hm : ∀ p ∈ nodes, m.tables p = s.tables p) :
    is_pointer table ∧ loop free_body (m, rc) = loop free_body (freeing m nodes, table) := by
  induction h generalizing m with
  | refl p =>
      rw [freeing_nil]
      exact ⟨hrc, rfl⟩
  | @head p q table nodes hlink _ ih =>
      obtain ⟨tab, htab, rfl, hq⟩ := hlink
      rw [List.nodup_cons] at hnodup
      have hread : m.tables p = some tab := (hm p List.mem_cons_self).trans htab
      rw [loop_cont (free_turn hrc hread), ← freeing_cons]
      refine ih hq hnodup.2 _ fun x hx => ?_
      have hxp : x ≠ p := by
        rintro rfl
        exact hnodup.1 hx
      dsimp only
      rw [Function.update_of_ne hxp]
      exact hm x (List.mem_cons_of_mem _ hx)

/-- At an unlocked table the loop frees it and ends. -/
theorem free_loop_last {m : TableHeap} {p : ℕ} {tab : Table} (hp : is_pointer p)
    (htab : m.tables p = some tab) (hodd : ¬ IS_EVEN tab.resize_counter) :
    loop free_body (m, p) = some (freeing m [p]) := by
  rw [loop_cont (free_turn hp htab), ← freeing_cons, freeing_nil]
  apply loop_done
  unfold free_body
  rw [if_neg hodd]

/-- At a locked table it fails its assertion. -/
theorem free_loop_zero (m : TableHeap) : loop free_body (m, RESIZING_LOCK) = none := by
  have hfails : free_body (m, RESIZING_LOCK) = none := by
    unfold free_body c_assert
    rw [if_pos (show IS_EVEN RESIZING_LOCK by decide), if_neg (not_not.mpr rfl)]
    rfl
  rw [loop_eq, hfails]
  rfl

theorem free_loop_locked {m : TableHeap} {p : ℕ} {tab : Table} (hp : is_pointer p)
    (htab : m.tables p = some tab) (hlock : tab.resize_counter = RESIZING_LOCK) :
    loop free_body (m, p) = none := by
  rw [loop_cont (free_turn hp htab), hlock]
  exact free_loop_zero _

/-! ## The invariant of the machine -/

variable {NB_SEGMENTS : ℕ} {h h' : stm_hashtable_s}

/-- The calls of `malloc` that `free` has not undone are the tables that are
allocated, apart from `initial_table`. -/
def Accounted (h : stm_hashtable_s) : Prop :=
  ∀ p, h.malloced.count p = h.freed.count p
    + if (h.shared.tables p).isSome = true ∧ p ≠ h.initial_table then 1 else 0

/-- A lookup has been aborted, and has left the current table locked. -/
def LeftLocked (h : stm_hashtable_s) : Prop :=
  ∃ older tab, h.shared.tables h.shared.table = some tab ∧ tab.resize_counter = RESIZING_LOCK
    ∧ Linked h.shared h.initial_table older none

structure Inv (NB_SEGMENTS : ℕ) (h : stm_hashtable_s) : Prop where
  outside : ∀ t, t ∉ List.range' 1 NB_SEGMENTS → h.shared.threads t = .idle
  fits : ∀ p tab, h.shared.tables p = some tab → tab.Fits
  alive : h.alive = true → FitsInv h.shared h.initial_table h.turns
  dead : h.alive = false → (∀ t, h.shared.threads t = .idle)
    ∧ ((∀ p, h.shared.tables p = none) ∨ h.LeftLocked)
  allocating : ∀ t, h.in_allocate = some t → h.alive = true
    ∧ ∃ index table i rc, h.shared.threads t = .allocate index table i rc
  own : ∀ t, h.nursery = some t ∨ h.in_allocate = some t →
    ∀ u, u ≠ t → h.shared.threads u = .idle
  accounted : h.Accounted

theorem Accounted.congr (hacc : h.Accounted) (hmalloced : h'.malloced = h.malloced)
    (hfreed : h'.freed = h.freed) (hinitial : h'.initial_table = h.initial_table)
    (hlive : ∀ p, (h'.shared.tables p).isSome = (h.shared.tables p).isSome) : h'.Accounted := by
  intro p
  rw [hmalloced, hfreed, hinitial, hlive]
  exact hacc p

/-- A new table. -/
theorem Accounted.malloc (hacc : h.Accounted) {p : ℕ} {b : Option ℕ}
    (hlinked : Linked h.shared h.initial_table older b) (hfree : h.shared.tables p = none)
    (hmalloced : h'.malloced = p :: h.malloced) (hfreed : h'.freed = h.freed)
    (hinitial : h'.initial_table = h.initial_table)
    (hlive : ∀ q, (h'.shared.tables q).isSome
      = ((h.shared.tables q).isSome || decide (q = p))) : h'.Accounted := by
  intro q
  have hq := hacc q
  rw [hmalloced, hfreed, hinitial, hlive, List.count_cons]
  by_cases hqp : q = p
  · subst hqp
    have hne : q ≠ h.initial_table := by
      rintro rfl
      have hinitial := hlinked.initial_isSome
      rw [hfree] at hinitial
      cases hinitial
    rw [hfree] at hq
    simp [hfree, hne] at hq ⊢
    exact hq
  · simp [hqp, Ne.symm hqp] at hq ⊢
    exact hq

/-! ### Compaction -/

/-- What a step of `_stm_compact_hashtable` leaves as it is. -/
structure Compacted (h h' : stm_hashtable_s) : Prop where
  threads : h'.shared.threads = h.shared.threads
  initial_table : h'.initial_table = h.initial_table
  alive : h'.alive = h.alive
  in_allocate : h'.in_allocate = h.in_allocate
  turns : h'.turns = h.turns

theorem compact_spec {biggertable : ℕ} {keep : EntryPtr → Bool}
    (hquiet : SharedHashtable.Quiet h.shared h.initial_table older) (hacc : h.Accounted)
    (hmalloc : h.compact_malloc_ok biggertable) :
    Returns (h.compact biggertable keep) fun h' =>
      (∃ older', SharedHashtable.Quiet h'.shared h'.initial_table older') ∧ h'.Accounted
        ∧ Compacted h h' := by
  obtain ⟨tab, htab, hodd, hcounts⟩ := hquiet.current
  have hfits := hquiet.fits _ _ htab
  have hroom := hfits.room
  unfold compact
  rw [htab]
  refine returns_assert (f := fun _ => _) hodd ?_
  split_ifs with hcompacts
  · obtain ⟨heven, hnotlock, hfree, -⟩ := hmalloc tab htab hcompacts
    refine (compact_count_spec hfits.mask ?_).bind ?_
    · omega
    rintro count ⟨hle, hlarge, k, hcount, hk, hk'⟩
    refine returns_assert (f := fun _ => _) hle ?_
    refine (stm_rehash_hashtable_spec hquiet htab hcount hk hk' ?_ ⟨heven, hnotlock⟩ hfree).bind ?_
    · omega
    rintro shared ⟨hquiet', htable, hthreads, hlive⟩
    exact returns_some ⟨⟨_, hquiet'⟩,
      hacc.malloc hquiet.linked hfree rfl rfl rfl hlive, hthreads, rfl, rfl, rfl, rfl⟩
  · exact returns_some ⟨⟨older, hquiet⟩, hacc, rfl, rfl, rfl, rfl, rfl⟩

/-- Freeing tables other than `initial_table`, each of them once. -/
theorem Accounted.free {nodes : List ℕ} (hacc : h.Accounted) (hnodup : nodes.Nodup)
    (hlive : ∀ p ∈ nodes, (h.shared.tables p).isSome = true ∧ p ≠ h.initial_table) (p : ℕ) :
    h.malloced.count p = (freeing h.heap nodes).freed.count p
      + if ((freeing h.heap nodes).tables p).isSome = true ∧ p ≠ h.initial_table then 1
        else 0 := by
  have hp := hacc p
  show _ = (nodes.reverse ++ h.freed).count p
    + if (if p ∈ nodes then none else h.shared.tables p).isSome = true ∧ p ≠ h.initial_table then 1
      else 0
  rw [List.count_append, List.count_reverse]
  by_cases hmem : p ∈ nodes
  · rw [if_pos (hlive p hmem)] at hp
    rw [if_pos hmem, List.count_eq_one_of_mem hnodup hmem, if_neg (by simp)]
    omega
  · rw [if_neg hmem, List.count_eq_zero_of_not_mem hmem]
    omega

/-- The path is cut after `initial_table`. -/
theorem cut_chain_spec (hquiet : SharedHashtable.Quiet h.shared h.initial_table older)
    (hacc : h.Accounted) :
    Returns h.cut_chain fun h' =>
      (∃ older', SharedHashtable.Quiet h'.shared h'.initial_table older') ∧ h'.Accounted
        ∧ Compacted h h' := by
  obtain ⟨tab, htab, hodd, hcounts⟩ := hquiet.current
  unfold cut_chain
  rw [htab]
  refine returns_assert (f := fun _ => _) hodd ?_
  split_ifs with hne
  · obtain ⟨rest, rfl⟩ := hquiet.linked.older_eq.resolve_left fun heq => hne heq.2
    have hnodup := hquiet.linked.nodup
    rw [List.cons_append, List.nodup_cons] at hnodup
    obtain ⟨-, first, hlink, hpath⟩ := Path.cons_iff.mp hquiet.linked.path
    obtain ⟨initial, hinitial, rfl, hptr⟩ := hlink
    have hloop := cut_loop hpath hptr hnodup.2 h.heap fun _ _ => rfl
    rw [hinitial]
    refine ⟨_, by rw [Option.bind_eq_bind, Option.bind_some, hloop]; rfl, ?_⟩
    have hread : ∀ q, (SharedHashtable.set_table { h.shared with tables :=
        (freeing h.heap rest).tables } h.initial_table
          { initial with resize_counter := h.shared.table }).tables q
        = if q = h.initial_table then some { initial with resize_counter := h.shared.table }
          else if q ∈ rest then none else h.shared.tables q := fun q => tables_set_table
    refine ⟨⟨_, hquiet.cut hinitial hread rfl⟩, fun p => ?_, rfl, rfl, rfl, rfl, rfl⟩
    refine (@Accounted.free _ rest hacc ?_ ?_ p).trans ?_
    · exact (List.nodup_append.mp hnodup.2).1
    · intro q hq
      refine ⟨(hquiet.linked.live q).mpr (.inl (List.mem_cons_of_mem _ hq)), ?_⟩
      rintro rfl
      exact hnodup.1 (List.mem_append_left _ hq)
    · refine congrArg _ (if_congr (and_congr_left fun hp => ?_) rfl rfl)
      exact Eq.to_iff (congrArg (fun T => Option.isSome T = true)
        ((hread p).trans (if_neg hp)).symm)
  · exact returns_some ⟨⟨older, hquiet⟩, hacc, rfl, rfl, rfl, rfl, rfl⟩

theorem Compacted.trans {h'' : stm_hashtable_s} (h1 : Compacted h h') (h2 : Compacted h' h'') :
    Compacted h h'' :=
  ⟨h2.threads.trans h1.threads, h2.initial_table.trans h1.initial_table,
    h2.alive.trans h1.alive, h2.in_allocate.trans h1.in_allocate, h2.turns.trans h1.turns⟩

theorem stm_compact_hashtable_spec {biggertable : ℕ} {keep : EntryPtr → Bool}
    (hquiet : SharedHashtable.Quiet h.shared h.initial_table older) (hacc : h.Accounted)
    (hmalloc : h.compact_malloc_ok biggertable) :
    Returns (h.stm_compact_hashtable biggertable keep) fun h' =>
      (∃ older', SharedHashtable.Quiet h'.shared h'.initial_table older') ∧ h'.Accounted
        ∧ Compacted h h' := by
  refine (compact_spec hquiet hacc hmalloc).bind ?_
  rintro h1 ⟨⟨older', hquiet'⟩, hacc', hcompacted⟩
  exact (cut_chain_spec hquiet' hacc').mono fun h2 h2' => ⟨h2'.1, h2'.2.1, hcompacted.trans h2'.2.2⟩

/-! ### The end -/

/-- The loop of `stm_hashtable_free` frees the tables after `initial_table`. -/
theorem free_all {m : TableHeap} {first : Table} (hquiet : SharedHashtable.Quiet s initial older)
    (hfirst : s.tables initial = some first)
    (hm : m.tables = Function.update s.tables initial none) :
    ∃ nodes, loop free_body (m, first.resize_counter) = some (freeing m nodes) ∧ nodes.Nodup
      ∧ initial ∉ nodes ∧ ∀ p, (s.tables p).isSome ↔ p = initial ∨ p ∈ nodes := by
  obtain ⟨tab, htab, hodd, -⟩ := hquiet.current
  have hnodup := hquiet.linked.nodup
  rcases hquiet.linked.older_eq with ⟨rfl, htable⟩ | ⟨rest, rfl⟩
  · refine ⟨[], ?_, List.nodup_nil, nofun, fun p => ?_⟩
    · rw [htable, hfirst] at htab
      cases htab
      rw [freeing_nil]
      apply loop_done
      unfold free_body
      rw [if_neg hodd]
    · rw [hquiet.linked.live, htable]
      simp
  · rw [List.cons_append, List.nodup_cons] at hnodup
    obtain ⟨-, next, ⟨T, hT, rfl, hptr⟩, hpath⟩ := Path.cons_iff.mp hquiet.linked.path
    rw [hfirst] at hT
    cases hT
    have hread : ∀ p ∈ rest ++ [s.table], m.tables p = s.tables p := by
      intro p hp
      rw [hm, Function.update_of_ne]
      rintro rfl
      exact hnodup.1 hp
    obtain ⟨hrest, -, hdisjoint⟩ := List.nodup_append.mp hnodup.2
    obtain ⟨hcur, hfree⟩ := free_loop hpath hptr hrest m
      fun p hp => hread p (List.mem_append_left _ hp)
    have hlast : (freeing m rest).tables s.table = some tab := by
      show (if s.table ∈ rest then none else m.tables s.table) = _
      rw [if_neg fun hmem => hdisjoint _ hmem _ List.mem_cons_self rfl]
      exact (hread _ (List.mem_append_right _ List.mem_cons_self)).trans htab
    refine ⟨rest ++ [s.table], ?_, hnodup.2, hnodup.1, fun p => ?_⟩
    · rw [hfree, free_loop_last hcur hlast hodd, freeing_append]
    · rw [hquiet.linked.live]
      simp [or_assoc]

/-- `stm_hashtable_free` frees every table. -/
theorem stm_hashtable_free_spec (hquiet : SharedHashtable.Quiet h.shared h.initial_table older)
    (hacc : h.Accounted) : Returns h.stm_hashtable_free fun h' =>
      h'.shared.threads = h.shared.threads ∧ h'.in_allocate = h.in_allocate
        ∧ h'.nursery = h.nursery ∧ h'.alive = false ∧ (∀ p, h'.shared.tables p = none) ∧ h'.Accounted := by
  obtain ⟨first, hfirst⟩ := Option.isSome_iff_exists.mp hquiet.linked.initial_isSome
  obtain ⟨nodes, hloop, hnodup, hinitial, hall⟩ := free_all (m := { h.heap with
    tables := Function.update h.shared.tables h.initial_table none }) hquiet hfirst rfl
  have hnone : ∀ p, p ≠ h.initial_table → p ∉ nodes → h.shared.tables p = none := by
    intro p hp hmem
    rw [← Option.not_isSome_iff_eq_none, hall]
    exact fun hor => hor.elim hp hmem
  have htables : ∀ p, (if p ∈ nodes then none
      else Function.update h.shared.tables h.initial_table none p) = none := by
    intro p
    split_ifs with hmem
    · rfl
    · rw [Function.update_apply]
      split_ifs with hp
      · rfl
      · exact hnone p hp hmem
  unfold stm_hashtable_free
  rw [hfirst]
  refine ⟨_, by rw [Option.bind_eq_bind, Option.bind_some, hloop]; rfl, ?_⟩
  refine ⟨rfl, rfl, rfl, rfl, htables, fun p => ?_⟩
  refine (hacc.free hnodup (fun q hq => ⟨(hall q).mpr (.inr hq), ?_⟩) p).trans ?_
  · rintro rfl
    exact hinitial hq
  · refine congrArg _ (if_congr ?_ rfl rfl)
    refine and_congr_left fun hp => Eq.to_iff (congrArg (fun T => Option.isSome T = true) ?_)
    show (if p ∈ nodes then none else h.shared.tables p) = if p ∈ nodes then none
      else Function.update h.shared.tables h.initial_table none p
    rw [Function.update_of_ne hp]

/-- When an aborted lookup has left the current table locked, it fails. -/
theorem stm_hashtable_free_locked (hlocked : h.LeftLocked) : h.stm_hashtable_free = none := by
  obtain ⟨older, tab, htab, hlock, hlinked⟩ := hlocked
  obtain ⟨first, hfirst⟩ := Option.isSome_iff_exists.mp hlinked.initial_isSome
  have hnodup := hlinked.nodup
  have hloop : loop free_body ({ h.heap with
      tables := Function.update h.shared.tables h.initial_table none }, first.resize_counter)
      = none := by
    rcases hlinked.older_eq with ⟨rfl, htable⟩ | ⟨rest, rfl⟩
    · rw [htable, hfirst] at htab
      cases htab
      rw [hlock]
      exact free_loop_zero _
    · rw [List.cons_append, List.nodup_cons] at hnodup
      obtain ⟨-, next, ⟨T, hT, rfl, hptr⟩, hpath⟩ := Path.cons_iff.mp hlinked.path
      rw [hfirst] at hT
      cases hT
      obtain ⟨hrest, -, hdisjoint⟩ := List.nodup_append.mp hnodup.2
      have hread : ∀ p ∈ rest ++ [h.shared.table],
          Function.update h.shared.tables h.initial_table none p = h.shared.tables p := by
        intro p hp
        rw [Function.update_of_ne]
        rintro rfl
        exact hnodup.1 hp
      obtain ⟨hcur, hfree⟩ := free_loop hpath hptr hrest { h.heap with
        tables := Function.update h.shared.tables h.initial_table none }
        fun p hp => hread p (List.mem_append_left _ hp)
      rw [hfree]
      have hlast : (freeing { h.heap with
          tables := Function.update h.shared.tables h.initial_table none } rest).tables
            h.shared.table = some tab := by
        show (if h.shared.table ∈ rest then none else _) = _
        rw [if_neg fun hmem => hdisjoint _ hmem _ List.mem_cons_self rfl]
        exact (hread _ (List.mem_append_right _ List.mem_cons_self)).trans htab
      exact free_loop_locked hcur hlast hlock
  unfold stm_hashtable_free
  rw [hfirst, Option.bind_eq_bind, Option.bind_some, hloop]
  rfl

end stm_hashtable_s

end Stmgc.C7
