/-
The tables of a hashtable, whatever is in their entries: every table has free
slots, and the counters of the older ones lead to the current one.

[`FitsInv`] says less about a table than the invariant of [`SharedHashtable`]:
which slots are in use, not by which indexes. It says more about the tables
together: those that are allocated are the ones on the path from
`initial_table`, and the one that is being filled.
-/
import Stmgc.C7.HashtableChain
import Stmgc.Lib.Path

namespace Stmgc.C7

open Stmgc.Lib

/-- The table that the segment is filling. -/
def LookupPc.bigger : LookupPc → Option ℕ
  | .copy _ _ b _ _ | .set_counter _ _ b _ | .publish _ _ b => some b
  | _ => none

def LookupPc.index : LookupPc → ℕ
  | .idle => 0
  | .restart index | .first index _ | .probing index _ _ | .read_counter index _ _
  | .cas index _ _ _ | .locked index _ _ _ | .unlock_restart index _ _ | .allocate index _ _ _
  | .store index _ _ _ _ | .unlock index _ _ _ | .malloc index _ | .copy index _ _ _ _
  | .set_counter index _ _ _ | .publish index _ _ => index

theorem Filled.counts {table b : Table} {j rc : ℕ} (h : Filled table j b rc) :
    SharedHashtable.Counts b rc b.count := by
  have hsum := h.counter
  refine ⟨?_, hsum⟩
  rw [SharedHashtable.is_even_iff]
  omega

namespace SharedHashtable

/-! ## The invariant -/

/-- The counter of the table at `p` is a pointer to `q`. -/
def links (s : SharedHashtable) (p q : ℕ) : Prop :=
  ∃ tab, s.tables p = some tab ∧ tab.resize_counter = q ∧ is_pointer q

/-- A segment that only reads, after `turns` turns of its search. -/
def ReaderFits (s : SharedHashtable) (turns : ℕ) : LookupPc → Prop
  | .first _ table => s.published table
  | .probing index table p => s.published table ∧ ∃ tab, s.tables table = some tab
    ∧ p = probe tab.mask index turns
    ∧ ∀ m ≤ turns, tab.items (slot tab.mask index m) ≠ none
  | .read_counter _ table i => s.published table ∧ ∃ tab, s.tables table = some tab ∧ i ≤ tab.mask
  | .cas _ table i rc => s.published table ∧ ¬ IS_EVEN rc
    ∧ ∃ tab, s.tables table = some tab ∧ i ≤ tab.mask
  | _ => True

/-- The segment that writes, at work on the current table `tab`. -/
def WriterFits (s : SharedHashtable) (tab : Table) : LookupPc → Prop
  | .locked _ table i rc => table = s.table ∧ tab.resize_counter = RESIZING_LOCK
    ∧ Counts tab rc tab.count ∧ i ≤ tab.mask
  | .unlock_restart _ table rc => table = s.table ∧ tab.resize_counter = RESIZING_LOCK
    ∧ Counts tab rc tab.count
  | .allocate _ table i rc | .store _ table i rc _ => table = s.table
    ∧ tab.resize_counter = RESIZING_LOCK ∧ Counts tab rc tab.count ∧ i ≤ tab.mask
    ∧ tab.items i = none ∧ 6 < rc
  | .unlock _ table rc _ => table = s.table ∧ tab.resize_counter = RESIZING_LOCK
    ∧ Counts tab (rc - 6) tab.count
  | .malloc _ table => table = s.table ∧ tab.resize_counter = RESIZING_LOCK
  | .copy _ table biggertable j rc => table = s.table ∧ tab.resize_counter = biggertable
    ∧ is_pointer biggertable ∧ biggertable ≠ s.table ∧ j ≤ tab.mask + 1
    ∧ ∃ bigger, s.tables biggertable = some bigger ∧ tab.mask + 1 ≤ bigger.mask + 1
      ∧ bigger.resize_counter = 4 * (bigger.mask + 1) + 1 ∧ Filled tab j bigger rc
  | .set_counter _ table biggertable rc => table = s.table ∧ tab.resize_counter = biggertable
    ∧ is_pointer biggertable ∧ biggertable ≠ s.table
    ∧ ∃ bigger, s.tables biggertable = some bigger
      ∧ bigger.resize_counter = 4 * (bigger.mask + 1) + 1 ∧ Filled tab (tab.mask + 1) bigger rc
  | .publish _ table biggertable => table = s.table ∧ tab.resize_counter = biggertable
    ∧ is_pointer biggertable ∧ biggertable ≠ s.table
    ∧ ∃ bigger, s.tables biggertable = some bigger
      ∧ Counts bigger bigger.resize_counter bigger.count
  | _ => False

/-- The tables before the current one are on the path to it, and there are no
others, apart from the one that is being filled. -/
structure Linked (s : SharedHashtable) (initial : ℕ) (older : List ℕ) (bigger : Option ℕ) :
    Prop where
  path : Path s.links initial older s.table
  nodup : (older ++ [s.table]).Nodup
  live : ∀ p, (s.tables p).isSome ↔ p ∈ older ∨ p = s.table ∨ bigger = some p
  unlinked : ∀ p, bigger = some p → p ∉ older ∧ p ≠ s.table

/-- One segment writes at most, and `bigger` is the table that it is filling.
If none does, the counter of the current table is what its entries have left of
it. -/
def Working (s : SharedHashtable) (tab : Table) (bigger : Option ℕ) : Prop :=
  ((∀ t, (s.threads t).writes = false) ∧ Counts tab tab.resize_counter tab.count
      ∧ bigger = none)
    ∨ ∃ t, WriterFits s tab (s.threads t) ∧ (∀ u, u ≠ t → (s.threads u).writes = false)
      ∧ bigger = (s.threads t).bigger

structure FitsInv (s : SharedHashtable) (initial : ℕ) (turns : ℕ → ℕ) : Prop where
  fits : ∀ p tab, s.tables p = some tab → tab.Fits
  working : ∃ tab older bigger, s.tables s.table = some tab ∧ Working s tab bigger
    ∧ Linked s initial older bigger
  reader : ∀ t, ReaderFits s (turns t) (s.threads t)
  index : ∀ t, (s.threads t).index < 2 ^ 64

variable {s s' : SharedHashtable} {t u initial : ℕ} {pc : LookupPc} {tab : Table}
  {turns turns' : ℕ → ℕ}

/-! ### What the steps keep -/

/-- No slot becomes free, and no table that segments may have come to is
freed. -/
structure Keeps (s s' : SharedHashtable) : Prop where
  tables : ∀ p tab, s.published p → s.tables p = some tab → ∃ tab', s'.tables p = some tab'
    ∧ tab'.mask = tab.mask ∧ ∀ i, tab.items i ≠ none → tab'.items i ≠ none
  published : ∀ p, s.published p → s'.published p

theorem Keeps.reader (h : Keeps s s') {n : ℕ} (hr : ReaderFits s n pc) : ReaderFits s' n pc := by
  cases pc with
  | first index table => exact h.published _ hr
  | probing index table p =>
      obtain ⟨hpub, tab, htab, hp, hpast⟩ := hr
      obtain ⟨tab', htab', hmask, hitems⟩ := h.tables _ _ hpub htab
      refine ⟨h.published _ hpub, tab', htab', ?_, ?_⟩
      · rw [hmask]
        exact hp
      · rw [hmask]
        exact fun m hm => hitems _ (hpast m hm)
  | read_counter index table i =>
      obtain ⟨hpub, tab, htab, hi⟩ := hr
      obtain ⟨tab', htab', hmask, -⟩ := h.tables _ _ hpub htab
      exact ⟨h.published _ hpub, tab', htab', hmask ▸ hi⟩
  | cas index table i rc =>
      obtain ⟨hpub, hodd, tab, htab, hi⟩ := hr
      obtain ⟨tab', htab', hmask, -⟩ := h.tables _ _ hpub htab
      exact ⟨h.published _ hpub, hodd, tab', htab', hmask ▸ hi⟩
  | _ => trivial

theorem WriterFits.writes (h : WriterFits s tab pc) : pc.writes = true := by
  cases pc with
  | idle => exact absurd h (fun h => h)
  | restart index => exact absurd h (fun h => h)
  | first index table => exact absurd h (fun h => h)
  | probing index table p => exact absurd h (fun h => h)
  | read_counter index table i => exact absurd h (fun h => h)
  | cas index table i rc => exact absurd h (fun h => h)
  | _ => rfl

theorem bigger_of_not_writes (h : pc.writes = false) : pc.bigger = none := by
  cases pc with
  | copy index table b j rc => cases h
  | set_counter index table b rc => cases h
  | publish index table b => cases h
  | _ => rfl

/-- With a segment at work the counter of the current table is the lock or a
pointer. -/
theorem WriterFits.even (h : WriterFits s tab pc) : IS_EVEN tab.resize_counter := by
  have hlock : tab.resize_counter = RESIZING_LOCK → IS_EVEN tab.resize_counter := by
    intro hrc
    rw [hrc]
    rfl
  have hptr : ∀ p, tab.resize_counter = p → is_pointer p → IS_EVEN tab.resize_counter := by
    rintro p rfl hp
    exact hp.1
  cases pc with
  | locked index table i rc => exact hlock h.2.1
  | unlock_restart index table rc => exact hlock h.2.1
  | allocate index table i rc => exact hlock h.2.1
  | store index table i rc entry => exact hlock h.2.1
  | unlock index table rc entry => exact hlock h.2.1
  | malloc index table => exact hlock h.2
  | copy index table b j rc => exact hptr b h.2.1 h.2.2.1
  | set_counter index table b rc => exact hptr b h.2.1 h.2.2.1
  | publish index table b => exact hptr b h.2.1 h.2.2.1
  | _ => exact absurd h (fun h => h)

theorem FitsInv.writer (h : FitsInv s initial turns) (ht : (s.threads t).writes = true) :
    ∃ tab older, s.tables s.table = some tab ∧ WriterFits s tab (s.threads t)
      ∧ (∀ u, u ≠ t → (s.threads u).writes = false)
      ∧ Linked s initial older (s.threads t).bigger := by
  obtain ⟨tab, older, bigger, htab, ⟨hnone, -⟩ | ⟨v, hv, hothers, rfl⟩, hlinked⟩ := h.working
  · rw [hnone t] at ht
    cases ht
  · by_cases htv : t = v
    · subst htv
      exact ⟨tab, older, htab, hv, hothers, hlinked⟩
    · rw [hothers t htv] at ht
      cases ht

/-! ### Threads -/

/-- A segment that only reads, and goes on reading. -/
theorem FitsInv.goto (h : FitsInv s initial turns) (pc : LookupPc)
    (ht : (s.threads t).writes = false) (hpc : pc.writes = false) (hindex : pc.index < 2 ^ 64)
    (hreader : ReaderFits s (turns' t) pc) (hturns : ∀ u, u ≠ t → turns' u = turns u)
    (hthreads : s'.threads = Function.update s.threads t pc) (htables : s'.tables = s.tables)
    (htable : s'.table = s.table) : FitsInv s' initial turns' := by
  obtain ⟨table, tables, threads, allocated, inserted, returned⟩ := s'
  dsimp only at hthreads htables htable
  subst hthreads htables htable
  have hread : ∀ u, Function.update s.threads t pc u = if u = t then pc else s.threads u := by
    intro u
    rw [Function.update_apply]
  refine ⟨h.fits, ?_, fun u => ?_, fun u => ?_⟩
  · obtain ⟨tab, older, bigger, htab, hworking, hlinked⟩ := h.working
    refine ⟨tab, older, bigger, htab, ?_, ⟨hlinked.path, hlinked.nodup, hlinked.live,
      hlinked.unlinked⟩⟩
    rcases hworking with ⟨hnone, hcounts, hbigger⟩ | ⟨v, hv, hothers, hbigger⟩
    · refine .inl ⟨fun u => ?_, hcounts, hbigger⟩
      dsimp only
      rw [hread]
      split_ifs
      · exact hpc
      · exact hnone u
    · have hvt : v ≠ t := by
        rintro rfl
        rw [hv.writes] at ht
        cases ht
      refine .inr ⟨v, ?_, fun u hu => ?_, ?_⟩
      · dsimp only
        rw [hread, if_neg hvt]
        exact hv
      · dsimp only
        rw [hread]
        split_ifs
        · exact hpc
        · exact hothers u hu
      · dsimp only
        rw [hread, if_neg hvt]
        exact hbigger
  · dsimp only
    rw [hread]
    split_ifs with hu
    · subst hu
      exact hreader
    · rw [hturns u hu]
      exact h.reader u
  · dsimp only
    rw [hread]
    split_ifs
    · exact hindex
    · exact h.index u

/-- The segment that writes takes a step: what remains to be shown. -/
theorem FitsInv.write (h : FitsInv s initial turns) (pc : LookupPc) (tab : Table)
    (hothers : ∀ u, u ≠ t → (s.threads u).writes = false)
    (hthreads : s'.threads = Function.update s.threads t pc) (hkeeps : Keeps s s')
    (hfits : ∀ p tab, s'.tables p = some tab → tab.Fits)
    (htab : s'.tables s'.table = some tab)
    (hwriter : (pc.writes = false ∧ Counts tab tab.resize_counter tab.count)
      ∨ WriterFits s' tab pc)
    (hreader : ReaderFits s' (turns t) pc) (hindex : pc.index < 2 ^ 64)
    (hlinked : ∃ older, Linked s' initial older pc.bigger) : FitsInv s' initial turns where
  fits := hfits
  working := by
    obtain ⟨older, hlinked⟩ := hlinked
    refine ⟨tab, older, pc.bigger, htab, ?_, hlinked⟩
    rcases hwriter with ⟨hpc, hcounts⟩ | hwriter
    · refine .inl ⟨fun u => ?_, hcounts, bigger_of_not_writes hpc⟩
      rw [hthreads, Function.update_apply]
      split_ifs with hu
      · exact hpc
      · exact hothers u hu
    · refine .inr ⟨t, ?_, fun u hu => ?_, ?_⟩
      · rw [hthreads, Function.update_self]
        exact hwriter
      · rw [hthreads, Function.update_of_ne hu]
        exact hothers u hu
      · rw [hthreads, Function.update_self]
  reader u := by
    rw [hthreads, Function.update_apply]
    split_ifs with hu
    · subst hu
      exact hreader
    · exact hkeeps.reader (h.reader u)
  index u := by
    rw [hthreads, Function.update_apply]
    split_ifs
    · exact hindex
    · exact h.index u

/-! ### Tables -/

section Tables

variable {tab' bigger bigger' : Table} {p : ℕ} {older : List ℕ} {b : Option ℕ}

theorem isSome_set_table {q : ℕ} (htab : (s.tables p).isSome) :
    ((s.set_table p tab').tables q).isSome = (s.tables q).isSome := by
  rw [tables_set_table]
  split_ifs with hq
  · rw [hq, htab]
    rfl
  · rfl

/-- The path goes on as long as the older tables are left alone. -/
theorem Linked.frame (h : Linked s initial older b) (htable : s'.table = s.table)
    (htables : ∀ q ∈ older, s'.tables q = s.tables q)
    (hlive : ∀ q, (s'.tables q).isSome = (s.tables q).isSome) : Linked s' initial older b where
  path := by
    rw [htable]
    refine h.path.congr fun x hx y hxy => ?_
    unfold links at hxy ⊢
    rw [htables x hx]
    exact hxy
  nodup := htable ▸ h.nodup
  live q := by
    rw [hlive, htable]
    exact h.live q
  unlinked q hq := htable ▸ h.unlinked q hq

theorem Linked.not_mem (h : Linked s initial older b) : s.table ∉ older := by
  have hnodup := h.nodup
  rw [List.nodup_append] at hnodup
  exact fun hmem => hnodup.2.2 _ hmem _ List.mem_cons_self rfl

/-- The current table changes. -/
theorem Keeps.set_current (htab : s.tables s.table = some tab) (hmask : tab'.mask = tab.mask)
    (hitems : ∀ i, tab.items i ≠ none → tab'.items i ≠ none)
    (hs : s'.tables = (s.set_table s.table tab').tables) (htable : s'.table = s.table) :
    Keeps s s' := by
  have hread : ∀ q, s'.tables q = if q = s.table then some tab' else s.tables q := by
    intro q
    rw [hs, tables_set_table]
  refine ⟨fun q T _ hT => ?_, fun q hq => ?_⟩
  · rw [hread]
    split_ifs with hq
    · rw [hq, htab] at hT
      cases hT
      exact ⟨tab', rfl, hmask, hitems⟩
    · exact ⟨T, hT, rfl, fun _ hi => hi⟩
  · obtain ⟨T, hT, hcur⟩ := hq
    by_cases hq : q = s.table
    · exact ⟨tab', by rw [hread, if_pos hq], .inl (hq.trans htable.symm)⟩
    · exact ⟨T, by rw [hread, if_neg hq, hT], .inr (hcur.resolve_left hq)⟩

/-- The table that is being filled changes. -/
theorem Keeps.set_bigger (hbigger : s.tables p = some bigger) (hp : p ≠ s.table)
    (hcounter : ¬ is_pointer bigger.resize_counter)
    (hs : s'.tables = (s.set_table p bigger').tables) (htable : s'.table = s.table) :
    Keeps s s' := by
  have hne : ∀ q, s.published q → q ≠ p := by
    rintro q ⟨T, hT, hcur⟩ rfl
    rw [hbigger] at hT
    cases hT
    exact hcur.elim hp hcounter
  have hread : ∀ q, s.published q → s'.tables q = s.tables q := by
    intro q hq
    rw [hs, tables_set_table, if_neg (hne q hq)]
  refine ⟨fun q T hq hT => ⟨T, by rw [hread q hq, hT], rfl, fun _ hi => hi⟩, fun q hq => ?_⟩
  obtain ⟨T, hT, hcur⟩ := id hq
  exact ⟨T, by rw [hread q hq, hT], htable ▸ hcur⟩

theorem Keeps.of_eq (htables : s'.tables = s.tables) (htable : s'.table = s.table) :
    Keeps s s' := by
  refine ⟨fun q T _ hT => ⟨T, by rw [htables, hT], rfl, fun _ hi => hi⟩, fun q hq => ?_⟩
  unfold SharedHashtable.published at hq ⊢
  rw [htables, htable]
  exact hq

/-- The writer changes the current table. -/
theorem FitsInv.write_current (h : FitsInv s initial turns) (pc : LookupPc) (tab' : Table)
    (hothers : ∀ u, u ≠ t → (s.threads u).writes = false)
    (htab : s.tables s.table = some tab) (hlinked : Linked s initial older pc.bigger)
    (hmask : tab'.mask = tab.mask) (hitems : ∀ i, tab.items i ≠ none → tab'.items i ≠ none)
    (hfits : tab'.Fits) (hthreads : s'.threads = Function.update s.threads t pc)
    (htables : s'.tables = (s.set_table s.table tab').tables) (htable : s'.table = s.table)
    (hwriter : (pc.writes = false ∧ Counts tab' tab'.resize_counter tab'.count)
      ∨ WriterFits s' tab' pc)
    (hreader : ReaderFits s' (turns t) pc) (hindex : pc.index < 2 ^ 64) :
    FitsInv s' initial turns := by
  have htab' : s'.tables s'.table = some tab' := by
    rw [htable, htables, tables_set_table, if_pos rfl]
  refine h.write pc tab' hothers hthreads (.set_current htab hmask hitems htables htable) ?_
    htab' hwriter hreader hindex ⟨older, hlinked.frame htable (fun q hq => ?_) fun q => ?_⟩
  · intro q T hT
    rw [htables, tables_set_table] at hT
    split_ifs at hT with hq
    · cases hT
      exact hfits
    · exact h.fits q T hT
  · rw [htables, tables_set_table, if_neg]
    rintro rfl
    exact hlinked.not_mem hq
  · rw [htables]
    exact isSome_set_table (by rw [htab]; rfl)

/-- The writer changes the table that it is filling. -/
theorem FitsInv.write_bigger (h : FitsInv s initial turns) (pc : LookupPc) (bigger' : Table)
    (hothers : ∀ u, u ≠ t → (s.threads u).writes = false)
    (htab : s.tables s.table = some tab) (hlinked : Linked s initial older pc.bigger)
    (hpc : pc.bigger = some p) (hbigger : s.tables p = some bigger)
    (hcounter : ¬ is_pointer bigger.resize_counter) (hfits : bigger'.Fits)
    (hthreads : s'.threads = Function.update s.threads t pc)
    (htables : s'.tables = (s.set_table p bigger').tables) (htable : s'.table = s.table)
    (hwriter : WriterFits s' tab pc) (hreader : ReaderFits s' (turns t) pc)
    (hindex : pc.index < 2 ^ 64) : FitsInv s' initial turns := by
  obtain ⟨hold, hp⟩ := hlinked.unlinked p hpc
  refine h.write pc tab hothers hthreads (.set_bigger hbigger hp hcounter htables htable) ?_ ?_
    (.inr hwriter) hreader hindex ⟨older, hlinked.frame htable (fun q hq => ?_) fun q => ?_⟩
  · intro q T hT
    rw [htables, tables_set_table] at hT
    split_ifs at hT with hq
    · cases hT
      exact hfits
    · exact h.fits q T hT
  · rw [htable, htables, tables_set_table, if_neg (Ne.symm hp)]
    exact htab
  · rw [htables, tables_set_table, if_neg]
    rintro rfl
    exact hold hq
  · rw [htables]
    exact isSome_set_table (by rw [hbigger]; rfl)

/-- The writer only goes on. -/
theorem FitsInv.write_goto (h : FitsInv s initial turns) (pc : LookupPc)
    (hothers : ∀ u, u ≠ t → (s.threads u).writes = false)
    (htab : s.tables s.table = some tab) (hlinked : Linked s initial older pc.bigger)
    (hthreads : s'.threads = Function.update s.threads t pc)
    (htables : s'.tables = s.tables) (htable : s'.table = s.table)
    (hwriter : WriterFits s' tab pc) (hreader : ReaderFits s' (turns t) pc)
    (hindex : pc.index < 2 ^ 64) : FitsInv s' initial turns := by
  refine h.write pc tab hothers hthreads (.of_eq htables htable) ?_ ?_ (.inr hwriter) hreader
    hindex ⟨older, hlinked.frame htable (fun q _ => ?_) fun q => ?_⟩
  · rw [htables]
    exact h.fits
  · rw [htable, htables]
    exact htab
  · rw [htables]
  · rw [htables]

end Tables

/-! ## The steps of the lookups -/

/-- What a step from a state of the invariant may do. -/
def FitsOk (initial : ℕ) (turns : ℕ → ℕ) : Outcome SharedHashtable → Prop
  | .blocked => True
  | .fault => False
  | .next s' => FitsInv s' initial turns

/-- A segment has looked at slot `n` of its search. -/
theorem FitsInv.look_at (h : FitsInv s initial turns) (ht : (s.threads t).writes = false)
    {index p n : ℕ} (hindex : index < 2 ^ 64) (hpub : s.published p)
    (htab : s.tables p = some tab)
    (hpast : ∀ m < n, tab.items (slot tab.mask index m) ≠ none) :
    FitsInv (s.look_at t index p (probe tab.mask index n)
      (tab.items (probe tab.mask index n).1)) initial (Function.update turns t n) := by
  have hturns : ∀ u, u ≠ t → Function.update turns t n u = turns u :=
    fun u hu => Function.update_of_ne hu _ _
  unfold SharedHashtable.look_at
  cases hitem : tab.items (probe tab.mask index n).1 with
  | none =>
      exact h.goto (.read_counter index p _) ht rfl hindex
        ⟨hpub, tab, htab, slot_le_mask _ _ _⟩ hturns rfl rfl rfl
  | some e =>
      dsimp only
      split_ifs with hkey
      · exact h.goto .idle ht rfl (by decide) trivial hturns rfl rfl rfl
      · refine h.goto (.probing index p _) ht rfl hindex ⟨hpub, tab, htab, ?_, fun m hm => ?_⟩
          hturns rfl rfl rfl
        · rw [Function.update_self]
        · rw [Function.update_self] at hm
          rcases Nat.lt_or_eq_of_le hm with hlt | rfl
          · exact hpast m hlt
          · intro hnone
            rw [slot, hitem] at hnone
            cases hnone

theorem FitsInv.step_first (h : FitsInv s initial turns) {index table : ℕ}
    (hpc : s.threads t = .first index table) :
    FitsOk initial (Function.update turns t 0) (s.thread_step t (.first index table)) := by
  have hindex := h.index t
  have hpub := h.reader t
  rw [hpc] at hindex hpub
  obtain ⟨tab, htab, -⟩ := id hpub
  unfold thread_step
  dsimp only
  rw [with_table_eq htab]
  exact h.look_at (n := 0) (by rw [hpc]; rfl) hindex hpub htab
    fun m hm => absurd hm (Nat.not_lt_zero m)

theorem FitsInv.step_probing (h : FitsInv s initial turns) {index table : ℕ} {p : ℕ × ℕ}
    (hpc : s.threads t = .probing index table p) :
    FitsOk initial (Function.update turns t (turns t + 1))
      (s.thread_step t (.probing index table p)) := by
  have hindex := h.index t
  have hreader := h.reader t
  rw [hpc] at hindex hreader
  obtain ⟨hpub, tab, htab, rfl, hpast⟩ := hreader
  unfold thread_step
  dsimp only
  rw [with_table_eq htab, ← probe_succ]
  exact h.look_at (by rw [hpc]; rfl) hindex hpub htab
    fun m hm => hpast m (Nat.le_of_lt_succ hm)

theorem FitsInv.step_read_counter (h : FitsInv s initial turns) {index table i : ℕ}
    (hpc : s.threads t = .read_counter index table i) :
    FitsOk initial turns (s.thread_step t (.read_counter index table i)) := by
  have hindex := h.index t
  have hreader := h.reader t
  have ht : (s.threads t).writes = false := by
    rw [hpc]
    rfl
  rw [hpc] at hindex hreader
  obtain ⟨hpub, tab, htab, hi⟩ := hreader
  unfold thread_step
  dsimp only
  rw [with_table_eq htab]
  split_ifs with heven
  · exact h.goto (.restart index) ht rfl hindex trivial (fun _ _ => rfl) rfl rfl rfl
  · exact h.goto (.cas index table i tab.resize_counter) ht rfl hindex
      ⟨hpub, heven, tab, htab, hi⟩ (fun _ _ => rfl) rfl rfl rfl

/-- The `CAS` succeeds on the current table only, and only if nobody else is at
work. -/
theorem FitsInv.step_cas (h : FitsInv s initial turns) {index table i rc : ℕ}
    (hpc : s.threads t = .cas index table i rc) :
    FitsOk initial turns (s.thread_step t (.cas index table i rc)) := by
  have hindex := h.index t
  have hreader := h.reader t
  have ht : (s.threads t).writes = false := by
    rw [hpc]
    rfl
  rw [hpc] at hindex hreader
  obtain ⟨hpub, hodd, tab, htab, hi⟩ := hreader
  unfold thread_step
  dsimp only
  rw [with_table_eq htab]
  split_ifs with hrc
  · have hcur : table = s.table := by
      obtain ⟨T, hT, hor⟩ := hpub
      rw [htab] at hT
      cases hT
      rcases hor with hcur | hptr
      · exact hcur
      · exact absurd hptr (not_is_pointer_of_odd (hrc ▸ hodd))
    subst hcur
    obtain ⟨T, older, bigger, hT, hworking, hlinked⟩ := h.working
    rw [htab] at hT
    cases hT
    rcases hworking with ⟨hnone, hcounts, rfl⟩ | ⟨v, hv, -, -⟩
    · exact h.write_current (.locked index s.table i rc)
        { tab with resize_counter := RESIZING_LOCK } (fun u _ => hnone u) htab hlinked rfl
        (fun _ hi => hi) ((h.fits _ _ htab).congr rfl fun _ => rfl) rfl rfl rfl
        (.inr ⟨rfl, rfl, hrc ▸ hcounts, hi⟩) trivial hindex
    · exact absurd hv.even (hrc ▸ hodd)
  · exact h.goto (.restart index) ht rfl hindex trivial (fun _ _ => rfl) rfl rfl rfl

theorem FitsInv.step_locked (h : FitsInv s initial turns) {index table i rc : ℕ}
    (hpc : s.threads t = .locked index table i rc) :
    FitsOk initial turns (s.thread_step t (.locked index table i rc)) := by
  have hindex := h.index t
  obtain ⟨tab, older, htab, hw, hothers, hlinked⟩ := h.writer (t := t) (by rw [hpc]; rfl)
  rw [hpc] at hindex hw hlinked
  obtain ⟨rfl, hlock, hcounts, hi⟩ := hw
  unfold thread_step
  dsimp only
  rw [with_table_eq htab, if_pos rfl]
  split_ifs with hitem hroom
  · exact h.write_goto (.unlock_restart index s.table rc) hothers htab hlinked rfl rfl rfl
      ⟨rfl, hlock, hcounts⟩ trivial hindex
  · exact h.write_goto (.allocate index s.table i rc) hothers htab hlinked rfl rfl rfl
      ⟨rfl, hlock, hcounts, hi, not_not.mp hitem, hroom⟩ trivial hindex
  · exact h.write_goto (.malloc index s.table) hothers htab hlinked rfl rfl rfl ⟨rfl, hlock⟩
      trivial hindex

theorem FitsInv.step_unlock_restart (h : FitsInv s initial turns) {index table rc : ℕ}
    (hpc : s.threads t = .unlock_restart index table rc) :
    FitsOk initial turns (s.thread_step t (.unlock_restart index table rc)) := by
  have hindex := h.index t
  obtain ⟨tab, older, htab, hw, hothers, hlinked⟩ := h.writer (t := t) (by rw [hpc]; rfl)
  rw [hpc] at hindex hw hlinked
  obtain ⟨rfl, hlock, hcounts⟩ := hw
  unfold thread_step
  dsimp only
  rw [with_table_eq htab]
  exact h.write_current (.restart index) { tab with resize_counter := rc } hothers htab hlinked
    rfl (fun _ hi => hi) ((h.fits _ _ htab).congr rfl fun _ => rfl) rfl rfl rfl
    (.inl ⟨rfl, hcounts⟩) trivial hindex

theorem FitsInv.step_store (h : FitsInv s initial turns) {index table i rc : ℕ}
    {entry : EntryPtr} (hpc : s.threads t = .store index table i rc entry) :
    FitsOk initial turns (s.thread_step t (.store index table i rc entry)) := by
  have hindex := h.index t
  obtain ⟨tab, older, htab, hw, hothers, hlinked⟩ := h.writer (t := t) (by rw [hpc]; rfl)
  rw [hpc] at hindex hw hlinked
  obtain ⟨rfl, hlock, ⟨hodd, hcounts⟩, hi, hitem, hroom⟩ := hw
  have hcount := Table.count_set_item hi hitem entry
  unfold thread_step
  dsimp only
  rw [with_table_eq htab]
  refine h.write_current (.unlock index s.table rc entry) (tab.set_item i entry) hothers htab
    hlinked rfl (fun j hj => ?_) ((h.fits _ _ htab).set_item hi hitem entry (by omega)) rfl rfl
    rfl (.inr ⟨rfl, hlock, ?_, ?_⟩) trivial hindex
  · show Function.update tab.items i (some entry) j ≠ none
    rw [Function.update_apply]
    split_ifs
    · nofun
    · exact hj
  · rw [is_even_iff] at hodd ⊢
    omega
  · rw [hcount]
    show rc - 6 + 6 * (tab.count + 1) = 4 * (tab.mask + 1) + 1
    omega

theorem FitsInv.step_unlock (h : FitsInv s initial turns) {index table rc : ℕ}
    {entry : EntryPtr} (hpc : s.threads t = .unlock index table rc entry) :
    FitsOk initial turns (s.thread_step t (.unlock index table rc entry)) := by
  obtain ⟨tab, older, htab, hw, hothers, hlinked⟩ := h.writer (t := t) (by rw [hpc]; rfl)
  rw [hpc] at hw hlinked
  obtain ⟨rfl, hlock, hcounts⟩ := hw
  unfold thread_step
  dsimp only
  rw [with_table_eq htab]
  exact h.write_current .idle { tab with resize_counter := rc - 6 } hothers htab hlinked rfl
    (fun _ hi => hi) ((h.fits _ _ htab).congr rfl fun _ => rfl) rfl rfl rfl
    (.inl ⟨rfl, hcounts⟩) trivial (by decide)

theorem FitsInv.step_copy (h : FitsInv s initial turns) {index table biggertable j rc : ℕ}
    (hpc : s.threads t = .copy index table biggertable j rc) :
    FitsOk initial turns (s.thread_step t (.copy index table biggertable j rc)) := by
  have hindex := h.index t
  obtain ⟨tab, older, htab, hw, hothers, hlinked⟩ := h.writer (t := t) (by rw [hpc]; rfl)
  rw [hpc] at hindex hw hlinked
  obtain ⟨rfl, hrc, hptr, hne, hj, bigger, hbigger, hmask, hcounter, hfilled⟩ := hw
  have hodd : ¬ is_pointer bigger.resize_counter := by
    apply not_is_pointer_of_odd
    rw [hcounter, is_even_iff]
    omega
  unfold thread_step
  dsimp only
  rw [with_table_eq htab]
  split_ifs with hmore
  · rw [with_table_eq hbigger]
    have hroom := (h.fits _ _ htab).room
    obtain ⟨⟨bigger', rc'⟩, hbody, hfilled', hmask', hcounter'⟩ :=
      @rehash_body_fits (fun _ => true) tab bigger j rc hmore (by omega) hfilled
    rw [hbody]
    dsimp only at hmask' hcounter' hfilled' ⊢
    refine h.write_bigger (.copy index s.table biggertable (j + 1) rc') bigger' hothers htab
      hlinked rfl hbigger hodd hfilled'.fits rfl rfl rfl
      ⟨rfl, hrc, hptr, hne, by omega, bigger', ?_, ?_, ?_, hfilled'⟩ trivial hindex
    · exact tables_set_table.trans (if_pos rfl)
    · rw [hmask']
      exact hmask
    · rw [hcounter', hmask']
      exact hcounter
  · have hall : j = tab.mask + 1 := by omega
    subst hall
    exact h.write_goto (.set_counter index s.table biggertable rc) hothers htab hlinked rfl rfl
      rfl ⟨rfl, hrc, hptr, hne, bigger, hbigger, hcounter, hfilled⟩ trivial hindex

theorem FitsInv.step_set_counter (h : FitsInv s initial turns) {index table biggertable rc : ℕ}
    (hpc : s.threads t = .set_counter index table biggertable rc) :
    FitsOk initial turns (s.thread_step t (.set_counter index table biggertable rc)) := by
  have hindex := h.index t
  obtain ⟨tab, older, htab, hw, hothers, hlinked⟩ := h.writer (t := t) (by rw [hpc]; rfl)
  rw [hpc] at hindex hw hlinked
  obtain ⟨rfl, hrc, hptr, hne, bigger, hbigger, hcounter, hfilled⟩ := hw
  have hodd : ¬ is_pointer bigger.resize_counter := by
    apply not_is_pointer_of_odd
    rw [hcounter, is_even_iff]
    omega
  unfold thread_step
  dsimp only
  rw [with_table_eq hbigger]
  exact h.write_bigger (.publish index s.table biggertable) { bigger with resize_counter := rc }
    hothers htab hlinked rfl hbigger hodd (hfilled.fits.congr rfl fun _ => rfl) rfl rfl rfl
    ⟨rfl, hrc, hptr, hne, _, tables_set_table.trans (if_pos rfl), hfilled.counts⟩ trivial hindex

/-- The path gets longer by the old table. -/
theorem FitsInv.step_publish (h : FitsInv s initial turns) {index table biggertable : ℕ}
    (hpc : s.threads t = .publish index table biggertable) :
    FitsOk initial turns (s.thread_step t (.publish index table biggertable)) := by
  have hindex := h.index t
  obtain ⟨tab, older, htab, hw, hothers, hlinked⟩ := h.writer (t := t) (by rw [hpc]; rfl)
  rw [hpc] at hindex hw hlinked
  obtain ⟨rfl, hrc, hptr, hne, bigger, hbigger, hcounts⟩ := hw
  obtain ⟨hold, -⟩ := hlinked.unlinked biggertable rfl
  unfold thread_step
  dsimp only
  refine h.write (.restart index) bigger hothers rfl ?_ h.fits hbigger (.inl ⟨rfl, hcounts⟩)
    trivial hindex ⟨older ++ [s.table], ?_, ?_, fun q => ?_, fun q hq => ?_⟩
  · refine ⟨fun q T _ hT => ⟨T, hT, rfl, fun _ hi => hi⟩, fun q hq => ?_⟩
    obtain ⟨T, hT, rfl | hretired⟩ := hq
    · rw [htab] at hT
      cases hT
      exact ⟨tab, htab, .inr (hrc ▸ hptr)⟩
    · exact ⟨T, hT, .inr hretired⟩
  · exact hlinked.path.tail ⟨tab, htab, hrc, hptr⟩
  · rw [List.nodup_append]
    refine ⟨hlinked.nodup, List.nodup_singleton _, fun a ha b hb => ?_⟩
    cases List.mem_singleton.mp hb
    rintro rfl
    rcases List.mem_append.mp ha with ha | ha
    · exact hold ha
    · exact hne (List.mem_singleton.mp ha)
  · refine (hlinked.live q).trans ?_
    rw [List.mem_append, List.mem_singleton]
    show _ ↔ _ ∨ q = biggertable ∨ none = some q
    constructor
    · rintro (hq | hq | hq)
      · exact .inl (.inl hq)
      · exact .inl (.inr hq)
      · exact .inr (.inl (Option.some.inj hq).symm)
    · rintro ((hq | hq) | hq | hq)
      · exact .inl hq
      · exact .inr (.inl hq)
      · exact .inr (.inr (congrArg some hq.symm))
      · cases hq
  · cases hq

theorem FitsInv.step_malloc (h : FitsInv s initial turns) (biggertable : ℕ) {index table : ℕ}
    (hpc : s.threads t = .malloc index table) :
    FitsOk initial turns (s.step (.malloc t biggertable)) := by
  have hindex := h.index t
  obtain ⟨tab, older, htab, hw, hothers, hlinked⟩ := h.writer (t := t) (by rw [hpc]; rfl)
  rw [hpc] at hindex hw hlinked
  obtain ⟨rfl, hlock⟩ := hw
  unfold step
  dsimp only
  rw [hpc]
  dsimp only
  rw [with_table_eq htab]
  unfold guarded
  split_ifs with hmalloc
  swap
  · trivial
  obtain ⟨heven, hnotlock, hfree, hsize⟩ := hmalloc
  obtain ⟨k, hcount, hk, hk', hle⟩ := biggercount_spec (h.fits _ _ htab).mask hsize
  have hne : biggertable ≠ s.table := by
    rintro rfl
    rw [htab] at hfree
    cases hfree
  have hinit := filled_zero tab hcount hk hk'
  have hpos : 0 < 2 ^ k := Nat.two_pow_pos k
  set bigger := init_table (biggercount tab) with hbigger
  have hmask : bigger.mask + 1 = biggercount tab := by
    show biggercount tab - 1 + 1 = _
    omega
  have hread : ∀ q, (((s.set_table s.table { tab with resize_counter := biggertable }).set_table
      biggertable bigger).tables q) = if q = biggertable then some bigger
        else if q = s.table then some { tab with resize_counter := biggertable }
        else s.tables q := by
    intro q
    rw [tables_set_table, tables_set_table]
  have hcur := (hread s.table).trans ((if_neg (Ne.symm hne)).trans (if_pos rfl))
  have hold : ∀ q T, s.tables q = some T → q ≠ biggertable := by
    rintro q T hT rfl
    rw [hfree] at hT
    cases hT
  have hnew : ∀ q ∈ older, q ≠ biggertable ∧ q ≠ s.table := by
    intro q hq
    obtain ⟨T, hT⟩ := Option.isSome_iff_exists.mp ((hlinked.live q).mpr (.inl hq))
    refine ⟨hold q T hT, ?_⟩
    rintro rfl
    exact hlinked.not_mem hq
  refine h.write (.copy index s.table biggertable 0 bigger.resize_counter)
    { tab with resize_counter := biggertable } hothers rfl ⟨fun q T hq hT => ?_, fun q hq => ?_⟩
    (fun q T hT => ?_) hcur (.inr ⟨rfl, rfl, ⟨heven, hnotlock⟩, hne, Nat.zero_le _, bigger, ?_,
      ?_, ?_, ⟨hinit.fits, hinit.count, hinit.counter⟩⟩) trivial hindex
    ⟨older, ?_, hlinked.nodup, fun q => ?_, fun q hq => ?_⟩
  · have hqb := hold q T hT
    by_cases hqs : q = s.table
    · rw [hqs, htab] at hT
      cases hT
      refine ⟨{ tab with resize_counter := biggertable }, ?_, rfl, fun _ hi => hi⟩
      rw [hqs]
      exact hcur
    · refine ⟨T, (hread q).trans ?_, rfl, fun _ hi => hi⟩
      rw [if_neg hqb, if_neg hqs]
      exact hT
  · obtain ⟨T, hT, hpub⟩ := hq
    by_cases hqs : q = s.table
    · rw [hqs]
      exact ⟨_, hcur, .inl rfl⟩
    · refine ⟨T, (hread q).trans ?_, hpub⟩
      rw [if_neg (hold q T hT), if_neg hqs]
      exact hT
  · replace hT := (hread q).symm.trans hT
    split_ifs at hT
    · cases hT
      exact hinit.fits
    · cases hT
      exact (h.fits _ _ htab).congr rfl fun _ => rfl
    · exact h.fits q T hT
  · exact (hread biggertable).trans (if_pos rfl)
  · rw [hmask]
    exact hle
  · rw [hmask]
    show biggercount tab * 4 + 1 = _
    omega
  · refine hlinked.path.congr fun x hx y hxy => ?_
    obtain ⟨T, hT, hrc⟩ := hxy
    refine ⟨T, (hread x).trans ?_, hrc⟩
    rw [if_neg (hnew x hx).1, if_neg (hnew x hx).2]
    exact hT
  · have hlive := hlinked.live q
    refine Iff.trans (Eq.to_iff (congrArg (fun T => Option.isSome T = true) (hread q))) ?_
    show _ ↔ q ∈ older ∨ q = s.table ∨ some biggertable = some q
    split_ifs with hqb hqs
    · exact ⟨fun _ => .inr (.inr (congrArg some hqb.symm)), fun _ => rfl⟩
    · exact ⟨fun _ => .inr (.inl hqs), fun _ => rfl⟩
    · refine hlive.trans ⟨?_, ?_⟩
      · rintro (hq | hq | hq)
        · exact .inl hq
        · exact absurd hq hqs
        · cases hq
      · rintro (hq | hq | hq)
        · exact .inl hq
        · exact absurd hq hqs
        · exact absurd (Option.some.inj hq).symm hqb
  · cases hq
    exact ⟨fun hq => (hnew _ hq).1 rfl, hne⟩

end SharedHashtable

end Stmgc.C7
