/-
`stm_hashtable_lookup` on one hashtable by any number of threads.

Every read or write of shared memory is a step of its own. The hashtable object
is not in the nursery, so entries are allocated outside it, and no collection
runs in the middle of a lookup; that `malloc` returns is taken for granted.
[`SharedHashtable`] also keeps what the code does not: the entries that have
been stored in a table, and what the calls have returned.
-/
import Stmgc.Lib.Machine
import Stmgc.C7.Hashtable

namespace Stmgc.C7

open Stmgc.Lib Stmgc.Lib.Probe

/-! ## The machine -/

/-- Where a thread is in `stm_hashtable_lookup (.., index)`: what it does next,
and its local variables. From `locked` to `unlock` it holds the `RESIZING_LOCK`
of `table`; from `copy` on it is in `_stm_rehash_hashtable`. -/
inductive LookupPc where
  | idle
  | restart (index : ℕ)
  | first (index table : ℕ)
  | probing (index table : ℕ) (p : ℕ × ℕ)
  | read_counter (index table i : ℕ)
  | cas (index table i rc : ℕ)
  | locked (index table i rc : ℕ)
  | unlock_restart (index table rc : ℕ)
  | allocate (index table i rc : ℕ)
  | store (index table i rc : ℕ) (entry : EntryPtr)
  | unlock (index table rc : ℕ) (entry : EntryPtr)
  | malloc (index table : ℕ)
  | copy (index table biggertable j rc : ℕ)
  | set_counter (index table biggertable rc : ℕ)
  | publish (index table biggertable : ℕ)
  deriving DecidableEq

/-- The thread is between the `CAS` and the end of its insertion. -/
def LookupPc.writes : LookupPc → Bool
  | .idle | .restart .. | .first .. | .probing .. | .read_counter .. | .cas .. => false
  | _ => true

structure SharedHashtable where
  table : ℕ
  tables : ℕ → Option Table
  threads : ℕ → LookupPc
  allocated : List ℕ
  inserted : List EntryPtr
  returned : List (ℕ × EntryPtr)

namespace SharedHashtable

inductive Act where
  | call (t index : ℕ)
  /-- the next step of thread `t`; the two allocations apart -/
  | step (t : ℕ)
  | allocate (t addr : ℕ)
  | malloc (t biggertable : ℕ)

def goto (s : SharedHashtable) (t : ℕ) (pc : LookupPc) : SharedHashtable :=
  { s with threads := Function.update s.threads t pc }

def set_table (s : SharedHashtable) (p : ℕ) (table : Table) : SharedHashtable :=
  { s with tables := Function.update s.tables p (some table) }

/-- `return entry`. -/
def return_entry (s : SharedHashtable) (t index : ℕ) (entry : EntryPtr) : SharedHashtable :=
  { s.goto t .idle with returned := s.returned ++ [(index, entry)] }

/-- A step that reads or writes the table at `p`. -/
def with_table (s : SharedHashtable) (p : ℕ) (f : Table → Outcome SharedHashtable) :
    Outcome SharedHashtable :=
  match s.tables p with
  | none => .fault
  | some table => f table

/-- What a thread does with the item it has read from slot `p.1`. -/
def look_at (s : SharedHashtable) (t index table : ℕ) (p : ℕ × ℕ) :
    Option EntryPtr → SharedHashtable
  | none => s.goto t (.read_counter index table p.1)
  | some entry =>
    if entry.index = index then s.return_entry t index entry
    else s.goto t (.probing index table p)

def thread_step (s : SharedHashtable) (t : ℕ) : LookupPc → Outcome SharedHashtable
  | .restart index => .next (s.goto t (.first index s.table))
  | .first index table => s.with_table table fun tab =>
    let p := probe_start tab.mask index
    .next (s.look_at t index table p (tab.items p.1))
  | .probing index table p => s.with_table table fun tab =>
    let p := probe_next tab.mask p
    .next (s.look_at t index table p (tab.items p.1))
  | .read_counter index table i => s.with_table table fun tab =>
    let rc := tab.resize_counter
    if IS_EVEN rc then .next (s.goto t (.restart index))
    else .next (s.goto t (.cas index table i rc))
  | .cas index table i rc => s.with_table table fun tab =>
    if tab.resize_counter = rc then
      .next ((s.set_table table { tab with resize_counter := RESIZING_LOCK }).goto t
        (.locked index table i rc))
    else .next (s.goto t (.restart index))
  | .locked index table i rc => s.with_table table fun tab =>
    if table = s.table then
      if tab.items i ≠ none then .next (s.goto t (.unlock_restart index table rc))
      else if rc > 6 then .next (s.goto t (.allocate index table i rc))
      else .next (s.goto t (.malloc index table))
    else .fault
  | .unlock_restart index table rc => s.with_table table fun tab =>
    .next ((s.set_table table { tab with resize_counter := rc }).goto t (.restart index))
  | .store index table i rc entry => s.with_table table fun tab =>
    .next { (s.set_table table (tab.set_item i entry)).goto t (.unlock index table rc entry) with
      inserted := s.inserted ++ [entry] }
  | .unlock index table rc entry => s.with_table table fun tab =>
    .next ((s.set_table table { tab with resize_counter := rc - 6 }).return_entry t index entry)
  | .copy index table biggertable j rc => s.with_table table fun tab =>
    if j ≤ tab.mask then s.with_table biggertable fun bigger =>
      match rehash_body (fun _ => true) tab (bigger, rc) j with
      | none => .fault
      | some r => .next ((s.set_table biggertable r.1).goto t
          (.copy index table biggertable (j + 1) r.2))
    else .next (s.goto t (.set_counter index table biggertable rc))
  | .set_counter index table biggertable rc => s.with_table biggertable fun bigger =>
    .next ((s.set_table biggertable { bigger with resize_counter := rc }).goto t
      (.publish index table biggertable))
  | .publish index _ biggertable =>
    .next { s.goto t (.restart index) with table := biggertable }
  | .idle | .allocate .. | .malloc .. => .blocked

def biggercount (table : Table) : ℕ :=
  if table.mask + 1 < 50000 then (table.mask + 1) * 4 else (table.mask + 1) * 2

/-- `malloc` returns aligned memory that is not in use, for what fits into the
address space. -/
def malloc_ok (s : SharedHashtable) (count p : ℕ) : Prop :=
  IS_EVEN p ∧ p ≠ RESIZING_LOCK ∧ s.tables p = none ∧ 16 + count * 8 < 2 ^ 64

instance (s : SharedHashtable) (count p : ℕ) : Decidable (s.malloc_ok count p) :=
  inferInstanceAs (Decidable (_ ∧ _ ∧ s.tables p = none ∧ _))

def step (s : SharedHashtable) : Act → Outcome SharedHashtable
  | .call t index => guarded (s.threads t = .idle) <| .next (s.goto t (.restart index))
  | .step t => s.thread_step t (s.threads t)
  | .allocate t addr =>
    match s.threads t with
    | .allocate index table i rc => guarded (addr ∉ s.allocated) <|
      .next { s.goto t (.store index table i rc { addr := addr, index := index }) with
        allocated := addr :: s.allocated }
    | _ => .blocked
  | .malloc t biggertable =>
    match s.threads t with
    | .malloc index table => s.with_table table fun tab =>
      guarded (s.malloc_ok (biggercount tab) biggertable) <|
      let bigger := init_table (biggercount tab)
      .next (((s.set_table table { tab with resize_counter := biggertable }).set_table
        biggertable bigger).goto t (.copy index table biggertable 0 bigger.resize_counter))
    | _ => .blocked

/-! ## The invariant -/

/-- A counter that has become a pointer to the next table. -/
def is_pointer (rc : ℕ) : Prop := IS_EVEN rc ∧ rc ≠ RESIZING_LOCK

/-- A counter that nobody has locked, in a table with `n` entries. -/
def Counts (table : Table) (rc n : ℕ) : Prop := ¬ IS_EVEN rc ∧ rc + 6 * n = 4 * (table.mask + 1) + 1

/-- The current table has the entry. -/
def has (s : SharedHashtable) (entry : EntryPtr) : Prop :=
  ∃ table, s.tables s.table = some table ∧ table.contains entry

/-- A table that threads may have come to. -/
def published (s : SharedHashtable) (p : ℕ) : Prop :=
  ∃ tab, s.tables p = some tab ∧ (p = s.table ∨ is_pointer tab.resize_counter)

/-- The threads that only read: they have come to slot `i`, or past slot `p.1`,
in their search for `index`. -/
def ReaderInv (s : SharedHashtable) : LookupPc → Prop
  | .first _ table => s.published table
  | .probing index table p => s.published table ∧ ∃ tab n, s.tables table = some tab
    ∧ p = probe tab.mask index n ∧ Passed (slot tab.mask) EntryPtr.index tab.items index (n + 1)
  | .read_counter index table i => s.published table ∧ ∃ tab, s.tables table = some tab
    ∧ Reaches (slot tab.mask) EntryPtr.index tab.items index i
  | .cas index table i rc => s.published table ∧ ¬ IS_EVEN rc ∧ ∃ tab, s.tables table = some tab
    ∧ Reaches (slot tab.mask) EntryPtr.index tab.items index i
  | _ => True

/-- The thread that writes, at work on the current table `tab`. -/
def WriterInv (s : SharedHashtable) (tab : Table) : LookupPc → Prop
  | .locked index table i rc => table = s.table ∧ tab.resize_counter = RESIZING_LOCK
    ∧ Counts tab rc tab.count ∧ Reaches (slot tab.mask) EntryPtr.index tab.items index i
  | .unlock_restart _ table rc => table = s.table ∧ tab.resize_counter = RESIZING_LOCK
    ∧ Counts tab rc tab.count
  | .allocate index table i rc => table = s.table ∧ tab.resize_counter = RESIZING_LOCK
    ∧ Counts tab rc tab.count ∧ Reaches (slot tab.mask) EntryPtr.index tab.items index i
    ∧ tab.items i = none ∧ 6 < rc
  | .store index table i rc entry => table = s.table ∧ tab.resize_counter = RESIZING_LOCK
    ∧ Counts tab rc tab.count ∧ Reaches (slot tab.mask) EntryPtr.index tab.items index i
    ∧ tab.items i = none ∧ 6 < rc ∧ entry.index = index
  | .unlock index table rc entry => table = s.table ∧ tab.resize_counter = RESIZING_LOCK
    ∧ Counts tab (rc - 6) tab.count ∧ entry.index = index ∧ tab.contains entry
  | .malloc _ table => table = s.table ∧ tab.resize_counter = RESIZING_LOCK
  | .copy _ table biggertable j rc => table = s.table ∧ tab.resize_counter = biggertable
    ∧ is_pointer biggertable ∧ biggertable ≠ s.table ∧ j ≤ tab.mask + 1
    ∧ ∃ bigger, s.tables biggertable = some bigger ∧ tab.mask + 1 ≤ bigger.mask + 1
      ∧ bigger.resize_counter = 4 * (bigger.mask + 1) + 1
      ∧ Copied (fun _ => true) tab j bigger rc
  | .set_counter _ table biggertable rc => table = s.table ∧ tab.resize_counter = biggertable
    ∧ is_pointer biggertable ∧ biggertable ≠ s.table
    ∧ ∃ bigger, s.tables biggertable = some bigger
      ∧ bigger.resize_counter = 4 * (bigger.mask + 1) + 1
      ∧ Copied (fun _ => true) tab (tab.mask + 1) bigger rc
  | .publish _ table biggertable => table = s.table ∧ tab.resize_counter = biggertable
    ∧ is_pointer biggertable ∧ biggertable ≠ s.table
    ∧ ∃ bigger, s.tables biggertable = some bigger
      ∧ Counts bigger bigger.resize_counter bigger.count
      ∧ Copied (fun _ => true) tab (tab.mask + 1) bigger bigger.resize_counter
  | _ => False

/-- One thread writes at most. If none does, the counter of the current table
is what its entries have left of it. -/
def OneWriter (s : SharedHashtable) (tab : Table) : Prop :=
  ((∀ t, (s.threads t).writes = false) ∧ Counts tab tab.resize_counter tab.count)
    ∨ ∃ t, WriterInv s tab (s.threads t) ∧ ∀ u, u ≠ t → (s.threads u).writes = false

structure Inv (s : SharedHashtable) : Prop where
  ok : ∀ p tab, s.tables p = some tab → tab.Ok
  writer : ∃ tab, s.tables s.table = some tab ∧ OneWriter s tab
  reader : ∀ t, ReaderInv s (s.threads t)
  retired : ∀ p tab, s.tables p = some tab → p ≠ s.table → is_pointer tab.resize_counter →
    ∀ e, tab.contains e → s.has e
  inserted : ∀ e ∈ s.inserted, s.has e
  returned : ∀ r ∈ s.returned, r.2.index = r.1 ∧ s.has r.2

/-- What the steps do to the tables: entries are added, nothing that has been
published is lost. -/
structure Grows (s s' : SharedHashtable) : Prop where
  tables : ∀ p tab, s.tables p = some tab →
    ∃ tab', s'.tables p = some tab' ∧ tab'.mask = tab.mask ∧ Extends tab.items tab'.items
  published : ∀ p, s.published p → s'.published p
  has : ∀ e, s.has e → s'.has e

variable {s s' : SharedHashtable} {t u : ℕ} {pc : LookupPc} {tab : Table}

theorem Grows.reader (h : Grows s s') (hr : ReaderInv s pc) : ReaderInv s' pc := by
  cases pc with
  | first index table => exact h.published _ hr
  | probing index table p =>
      obtain ⟨hpub, tab, n, htab, hp, hpassed⟩ := hr
      obtain ⟨tab', htab', hmask, hext⟩ := h.tables _ _ htab
      refine ⟨h.published _ hpub, tab', n, htab', ?_, ?_⟩
      · rw [hmask]
        exact hp
      · rw [hmask]
        exact hpassed.mono hext
  | read_counter index table i =>
      obtain ⟨hpub, tab, htab, hreach⟩ := hr
      obtain ⟨tab', htab', hmask, hext⟩ := h.tables _ _ htab
      refine ⟨h.published _ hpub, tab', htab', ?_⟩
      rw [hmask]
      exact hreach.mono hext
  | cas index table i rc =>
      obtain ⟨hpub, hodd, tab, htab, hreach⟩ := hr
      obtain ⟨tab', htab', hmask, hext⟩ := h.tables _ _ htab
      refine ⟨h.published _ hpub, hodd, tab', htab', ?_⟩
      rw [hmask]
      exact hreach.mono hext
  | _ => trivial

theorem WriterInv.writes (h : WriterInv s tab pc) : pc.writes = true := by
  cases pc with
  | idle => exact absurd h (fun h => h)
  | restart index => exact absurd h (fun h => h)
  | first index table => exact absurd h (fun h => h)
  | probing index table p => exact absurd h (fun h => h)
  | read_counter index table i => exact absurd h (fun h => h)
  | cas index table i rc => exact absurd h (fun h => h)
  | _ => rfl

/-! ### Threads -/

@[simp] theorem threads_goto : (s.goto t pc).threads u = if u = t then pc else s.threads u := by
  show Function.update s.threads t pc u = _
  rw [Function.update_apply]

theorem Inv.writer_unique (h : Inv s) (ht : (s.threads t).writes = true) :
    ∃ tab, s.tables s.table = some tab ∧ WriterInv s tab (s.threads t)
      ∧ ∀ u, u ≠ t → (s.threads u).writes = false := by
  obtain ⟨tab, htab, ⟨hnone, -⟩ | ⟨v, hv, hothers⟩⟩ := h.writer
  · rw [hnone t] at ht
    cases ht
  · by_cases htv : t = v
    · subst htv
      exact ⟨tab, htab, hv, hothers⟩
    · rw [hothers t htv] at ht
      cases ht

/-- A thread that only reads, and goes on reading. -/
theorem Inv.goto (h : Inv s) (pc : LookupPc) (ht : (s.threads t).writes = false)
    (hpc : pc.writes = false)
    (hreader : ReaderInv s pc) {returned : List (ℕ × EntryPtr)}
    (hreturned : ∀ r ∈ returned, r.2.index = r.1 ∧ s.has r.2) :
    Inv { s.goto t pc with returned := returned } where
  ok := h.ok
  writer := by
    obtain ⟨tab, htab, hwriter⟩ := h.writer
    refine ⟨tab, htab, ?_⟩
    rcases hwriter with ⟨hnone, hcounts⟩ | ⟨v, hv, hothers⟩
    · refine .inl ⟨fun u => ?_, hcounts⟩
      show ((s.goto t pc).threads u).writes = false
      rw [threads_goto]
      split_ifs
      · exact hpc
      · exact hnone u
    · have hvt : v ≠ t := by
        rintro rfl
        rw [hv.writes] at ht
        cases ht
      refine .inr ⟨v, ?_, fun u hu => ?_⟩
      · show WriterInv s tab ((s.goto t pc).threads v)
        rw [threads_goto, if_neg hvt]
        exact hv
      · show ((s.goto t pc).threads u).writes = false
        rw [threads_goto]
        split_ifs
        · exact hpc
        · exact hothers u hu
  reader u := by
    show ReaderInv s ((s.goto t pc).threads u)
    rw [threads_goto]
    split_ifs
    · exact hreader
    · exact h.reader u
  retired := h.retired
  inserted := h.inserted
  returned := hreturned

/-- The thread that writes takes a step: what remains to be shown. -/
theorem Inv.write (h : Inv s) (pc : LookupPc) (tab : Table)
    (hothers : ∀ u, u ≠ t → (s.threads u).writes = false)
    (hthreads : s'.threads = Function.update s.threads t pc) (hgrows : Grows s s')
    (hok : ∀ p tab, s'.tables p = some tab → tab.Ok)
    (htab : s'.tables s'.table = some tab)
    (hwriter : (pc.writes = false ∧ Counts tab tab.resize_counter tab.count)
      ∨ WriterInv s' tab pc)
    (hreader : ReaderInv s' pc)
    (hretired : ∀ p tab, s'.tables p = some tab → p ≠ s'.table →
      is_pointer tab.resize_counter → ∀ e, tab.contains e → s'.has e)
    (hinserted : ∀ e ∈ s'.inserted, e ∈ s.inserted ∨ s'.has e)
    (hreturned : ∀ r ∈ s'.returned, r ∈ s.returned ∨ (r.2.index = r.1 ∧ s'.has r.2)) :
    Inv s' where
  ok := hok
  writer := by
    refine ⟨tab, htab, ?_⟩
    rcases hwriter with ⟨hpc, hcounts⟩ | hwriter
    · refine .inl ⟨fun u => ?_, hcounts⟩
      rw [hthreads, Function.update_apply]
      split_ifs with hu
      · exact hpc
      · exact hothers u hu
    · refine .inr ⟨t, ?_, fun u hu => ?_⟩
      · rw [hthreads, Function.update_self]
        exact hwriter
      · rw [hthreads, Function.update_of_ne hu]
        exact hothers u hu
  reader u := by
    rw [hthreads, Function.update_apply]
    split_ifs
    · exact hreader
    · exact hgrows.reader (h.reader u)
  retired := hretired
  inserted e he := (hinserted e he).elim (fun he => hgrows.has e (h.inserted e he)) id
  returned r hr := (hreturned r hr).elim
    (fun hr => ⟨(h.returned r hr).1, hgrows.has _ (h.returned r hr).2⟩) id

/-! ### Tables -/

section Tables

variable {tab' bigger bigger' : Table} {p : ℕ}

theorem tables_set_table {q : ℕ} :
    (s.set_table p tab).tables q = if q = p then some tab else s.tables q := by
  show Function.update s.tables p (some tab) q = _
  rw [Function.update_apply]

theorem contains_of_extends (hext : Extends tab.items tab'.items) {e : EntryPtr}
    (h : tab.contains e) : tab'.contains e := by
  obtain ⟨i, hi⟩ := h
  exact ⟨i, hext i e hi⟩

theorem has_iff (htab : s.tables s.table = some tab) {e : EntryPtr} :
    s.has e ↔ tab.contains e := by
  constructor
  · rintro ⟨tab', htab', he⟩
    rw [htab] at htab'
    cases htab'
    exact he
  · exact fun he => ⟨tab, htab, he⟩

/-- The current table changes. -/
theorem Grows.set_current (tab' : Table) (htab : s.tables s.table = some tab)
    (hmask : tab'.mask = tab.mask) (hext : Extends tab.items tab'.items) (hs : s'.tables = (s.set_table s.table tab').tables)
    (htable : s'.table = s.table) : Grows s s' := by
  have hread : ∀ q, s'.tables q = if q = s.table then some tab' else s.tables q := by
    intro q
    rw [hs, tables_set_table]
  refine ⟨fun q T hT => ?_, fun q hq => ?_, fun e he => ?_⟩
  · rw [hread]
    split_ifs with hq
    · rw [hq, htab] at hT
      cases hT
      exact ⟨tab', rfl, hmask, hext⟩
    · exact ⟨T, hT, rfl, Extends.refl⟩
  · obtain ⟨T, hT, hcur⟩ := hq
    by_cases hq : q = s.table
    · exact ⟨tab', by rw [hread, if_pos hq], .inl (hq.trans htable.symm)⟩
    · exact ⟨T, by rw [hread, if_neg hq, hT], .inr (hcur.resolve_left hq)⟩
  · have htab' : s'.tables s'.table = some tab' := by
      rw [htable, hread, if_pos rfl]
    exact (has_iff htab').mpr (contains_of_extends hext ((has_iff htab).mp he))

/-- The table that is being built changes. -/
theorem Grows.set_bigger (hbigger : s.tables p = some bigger) (hp : p ≠ s.table)
    (hcounter : ¬ is_pointer bigger.resize_counter) (hmask : bigger'.mask = bigger.mask)
    (hext : Extends bigger.items bigger'.items)
    (hs : s'.tables = (s.set_table p bigger').tables) (htable : s'.table = s.table) :
    Grows s s' := by
  have hread : ∀ q, s'.tables q = if q = p then some bigger' else s.tables q := by
    intro q
    rw [hs, tables_set_table]
  refine ⟨fun q T hT => ?_, fun q hq => ?_, fun e he => ?_⟩
  · rw [hread]
    split_ifs with hq
    · rw [hq, hbigger] at hT
      cases hT
      exact ⟨bigger', rfl, hmask, hext⟩
    · exact ⟨T, hT, rfl, Extends.refl⟩
  · obtain ⟨T, hT, hcur⟩ := hq
    have hqp : q ≠ p := by
      rintro rfl
      rw [hbigger] at hT
      cases hT
      exact hcur.elim hp hcounter
    refine ⟨T, by rw [hread, if_neg hqp, hT], ?_⟩
    rw [htable]
    exact hcur
  · obtain ⟨T, hT, he⟩ := he
    refine ⟨T, ?_, he⟩
    rw [htable, hread, if_neg (Ne.symm hp)]
    exact hT

theorem Grows.refl_of (htables : s'.tables = s.tables) (htable : s'.table = s.table) :
    Grows s s' := by
  refine ⟨fun q T hT => ?_, fun q hq => ?_, fun e he => ?_⟩
  · exact ⟨T, by rw [htables, hT], rfl, Extends.refl⟩
  · unfold SharedHashtable.published at hq ⊢
    rw [htables, htable]
    exact hq
  · unfold SharedHashtable.has at he ⊢
    rw [htables, htable]
    exact he

/-- A new table. -/
theorem Grows.set_fresh (hfree : s.tables p = none) (hcur : p ≠ s.table)
    (hs : s'.tables = (s.set_table p tab).tables) (htable : s'.table = s.table) :
    Grows s s' := by
  have hread : ∀ q T, s.tables q = some T → s'.tables q = some T := by
    intro q T hT
    rw [hs, tables_set_table, if_neg]
    · exact hT
    · rintro rfl
      rw [hfree] at hT
      cases hT
  refine ⟨fun q T hT => ⟨T, hread q T hT, rfl, Extends.refl⟩, fun q hq => ?_, fun e he => ?_⟩
  · obtain ⟨T, hT, hcur⟩ := hq
    exact ⟨T, hread q T hT, htable ▸ hcur⟩
  · obtain ⟨T, hT, he⟩ := he
    exact ⟨T, htable ▸ hread _ T hT, he⟩

theorem Grows.trans {s'' : SharedHashtable} (h : Grows s s') (h' : Grows s' s'') :
    Grows s s'' := by
  refine ⟨fun q T hT => ?_, fun q hq => h'.published q (h.published q hq),
    fun e he => h'.has e (h.has e he)⟩
  obtain ⟨T', hT', hmask', hext'⟩ := h.tables q T hT
  obtain ⟨T'', hT'', hmask'', hext''⟩ := h'.tables q T' hT'
  exact ⟨T'', hT'', hmask''.trans hmask', fun i v hv => hext'' i v (hext' i v hv)⟩

/-- The writer changes the current table. -/
theorem Inv.write_current (h : Inv s) (tab' : Table)
    (hothers : ∀ u, u ≠ t → (s.threads u).writes = false) (htab : s.tables s.table = some tab) (hmask : tab'.mask = tab.mask)
    (hext : Extends tab.items tab'.items) (hok : tab'.Ok)
    (hthreads : s'.threads = Function.update s.threads t pc)
    (htables : s'.tables = (s.set_table s.table tab').tables) (htable : s'.table = s.table)
    (hwriter : (pc.writes = false ∧ Counts tab' tab'.resize_counter tab'.count)
      ∨ WriterInv s' tab' pc)
    (hreader : ReaderInv s' pc)
    (hinserted : ∀ e ∈ s'.inserted, e ∈ s.inserted ∨ tab'.contains e)
    (hreturned : ∀ r ∈ s'.returned, r ∈ s.returned ∨ (r.2.index = r.1 ∧ tab'.contains r.2)) :
    Inv s' := by
  have hgrows : Grows s s' := Grows.set_current tab' htab hmask hext htables htable
  have htab' : s'.tables s'.table = some tab' := by
    rw [htable, htables, tables_set_table, if_pos rfl]
  refine h.write _ _ hothers hthreads hgrows ?_ htab' hwriter hreader ?_ ?_ ?_
  · intro q T hT
    rw [htables, tables_set_table] at hT
    split_ifs at hT with hq
    · cases hT
      exact hok
    · exact h.ok q T hT
  · intro q T hT hq hptr e he
    rw [htable] at hq
    rw [htables, tables_set_table, if_neg hq] at hT
    exact hgrows.has e (h.retired q T hT hq hptr e he)
  · intro e he
    exact (hinserted e he).imp id (has_iff htab').mpr
  · intro r hr
    exact (hreturned r hr).imp id fun hr => ⟨hr.1, (has_iff htab').mpr hr.2⟩

/-- The writer changes the table that it is building. -/
theorem Inv.write_bigger (h : Inv s) (bigger' : Table)
    (hothers : ∀ u, u ≠ t → (s.threads u).writes = false)
    (htab : s.tables s.table = some tab) (hbigger : s.tables p = some bigger)
    (hp : p ≠ s.table) (hcounter : ¬ is_pointer bigger.resize_counter)
    (hcounter' : ¬ is_pointer bigger'.resize_counter)
    (hmask : bigger'.mask = bigger.mask) (hext : Extends bigger.items bigger'.items)
    (hok : bigger'.Ok) (hthreads : s'.threads = Function.update s.threads t pc)
    (htables : s'.tables = (s.set_table p bigger').tables) (htable : s'.table = s.table)
    (hwriter : WriterInv s' tab pc) (hreader : ReaderInv s' pc)
    (hinserted : s'.inserted = s.inserted) (hreturned : s'.returned = s.returned) : Inv s' := by
  have hgrows : Grows s s' :=
    Grows.set_bigger hbigger hp hcounter hmask hext htables htable
  refine h.write _ _ hothers hthreads hgrows ?_ ?_ (.inr hwriter) hreader ?_ ?_ ?_
  · intro q T hT
    rw [htables, tables_set_table] at hT
    split_ifs at hT with hq
    · cases hT
      exact hok
    · exact h.ok q T hT
  · rw [htable, htables, tables_set_table, if_neg (Ne.symm hp)]
    exact htab
  · intro q T hT hq hptr e he
    rw [htables, tables_set_table] at hT
    rw [htable] at hq
    split_ifs at hT with hqp
    · cases hT
      exact absurd hptr hcounter'
    · exact hgrows.has e (h.retired q T hT hq hptr e he)
  · rw [hinserted]
    exact fun e he => .inl he
  · rw [hreturned]
    exact fun r hr => .inl hr

/-- The writer only goes on. -/
theorem Inv.write_goto (h : Inv s) (hothers : ∀ u, u ≠ t → (s.threads u).writes = false)
    (htab : s.tables s.table = some tab) (hthreads : s'.threads = Function.update s.threads t pc)
    (htables : s'.tables = s.tables) (htable : s'.table = s.table)
    (hwriter : WriterInv s' tab pc) (hreader : ReaderInv s' pc)
    (hinserted : s'.inserted = s.inserted) (hreturned : s'.returned = s.returned) : Inv s' := by
  have hgrows : Grows s s' := Grows.refl_of htables htable
  refine h.write _ _ hothers hthreads hgrows ?_ ?_ (.inr hwriter) hreader ?_ ?_ ?_
  · rw [htables]
    exact h.ok
  · rw [htable, htables]
    exact htab
  · intro q T hT hq hptr e he
    rw [htables] at hT
    rw [htable] at hq
    exact hgrows.has e (h.retired q T hT hq hptr e he)
  · rw [hinserted]
    exact fun e he => .inl he
  · rw [hreturned]
    exact fun r hr => .inl hr

end Tables

/-! ## The steps -/

/-- The tables whose counter is a pointer are left alone. -/
def Immutable (s s' : SharedHashtable) : Prop :=
  ∀ p tab, s.tables p = some tab → is_pointer tab.resize_counter → s'.tables p = some tab

/-- What a step from a state of the invariant may do. -/
def StepOk (s : SharedHashtable) : Outcome SharedHashtable → Prop
  | .blocked => True
  | .fault => False
  | .next s' => Inv s' ∧ Immutable s s'

theorem Immutable.of_eq (h : s'.tables = s.tables) : Immutable s s' := by
  intro p tab htab _
  rw [h]
  exact htab

theorem Immutable.set_table {p : ℕ} {tab' : Table} (htab : s.tables p = some tab)
    (hcounter : ¬ is_pointer tab.resize_counter) (h : s'.tables = (s.set_table p tab').tables) :
    Immutable s s' := by
  intro q T hT hptr
  rw [h, tables_set_table, if_neg]
  · exact hT
  · rintro rfl
    rw [htab] at hT
    cases hT
    exact hcounter hptr

theorem not_is_pointer_lock : ¬ is_pointer RESIZING_LOCK := fun h => h.2 rfl

theorem not_is_pointer_of_odd {rc : ℕ} (h : ¬ IS_EVEN rc) : ¬ is_pointer rc := fun hp => h hp.1

theorem is_even_iff (n : ℕ) : IS_EVEN n ↔ n % 2 = 0 := by
  unfold IS_EVEN
  rw [Nat.and_one_is_mod]

theorem with_table_eq {p : ℕ} (h : s.tables p = some tab)
    (f : Table → Outcome SharedHashtable) : s.with_table p f = f tab := by
  unfold with_table
  rw [h]

/-- What a thread finds in a table that has been published is in the current
one. -/
theorem Inv.has_of_published (h : Inv s) {p : ℕ} (hpub : s.published p)
    (htab : s.tables p = some tab) {e : EntryPtr} (he : tab.contains e) : s.has e := by
  by_cases hp : p = s.table
  · subst hp
    exact ⟨tab, htab, he⟩
  · obtain ⟨T, hT, hcur⟩ := hpub
    rw [htab] at hT
    cases hT
    exact h.retired p tab htab hp (hcur.resolve_left hp) e he

theorem Inv.look_at (h : Inv s) (ht : (s.threads t).writes = false) {index p n : ℕ}
    (hpub : s.published p) (htab : s.tables p = some tab)
    (hpassed : Passed (slot tab.mask) EntryPtr.index tab.items index n) :
    StepOk s (.next (s.look_at t index p (probe tab.mask index n)
      (tab.items (probe tab.mask index n).1))) := by
  unfold SharedHashtable.look_at
  cases hitem : tab.items (probe tab.mask index n).1 with
  | none =>
      have hreader : ReaderInv s (.read_counter index p (probe tab.mask index n).1) :=
        ⟨hpub, tab, htab, n, rfl, hpassed⟩
      exact ⟨h.goto _ ht rfl hreader h.returned, .of_eq rfl⟩
  | some e =>
      dsimp only
      split_ifs with hindex
      · refine ⟨h.goto .idle ht rfl trivial fun r hr => ?_, .of_eq rfl⟩
        rcases List.mem_append.mp hr with hr | hr
        · exact h.returned r hr
        · cases List.mem_singleton.mp hr
          exact ⟨hindex, h.has_of_published hpub htab ⟨_, hitem⟩⟩
      · have hreader : ReaderInv s (.probing index p (probe tab.mask index n)) :=
          ⟨hpub, tab, n, htab, rfl, hpassed.succ hitem hindex⟩
        exact ⟨h.goto _ ht rfl hreader h.returned, .of_eq rfl⟩

/-- With a thread at work the counter of the current table is the lock or a
pointer. -/
theorem WriterInv.even (h : WriterInv s tab pc) : IS_EVEN tab.resize_counter := by
  have hlock : tab.resize_counter = RESIZING_LOCK → IS_EVEN tab.resize_counter := by
    intro hrc
    rw [hrc]
    rfl
  have hptr : ∀ p, tab.resize_counter = p → is_pointer p → IS_EVEN tab.resize_counter := by
    rintro p rfl hp
    exact hp.1
  cases pc with
  | locked index table i rc => exact hlock h.2.1
  | unlock_restart index table rc => exact hlock h.2.1
  | allocate index table i rc => exact hlock h.2.1
  | store index table i rc entry => exact hlock h.2.1
  | unlock index table rc entry => exact hlock h.2.1
  | malloc index table => exact hlock h.2
  | copy index table b j rc => exact hptr b h.2.1 h.2.2.1
  | set_counter index table b rc => exact hptr b h.2.1 h.2.2.1
  | publish index table b => exact hptr b h.2.1 h.2.2.1
  | _ => exact absurd h (fun h => h)

theorem Inv.step_first (h : Inv s) {index table : ℕ} (hpc : s.threads t = .first index table) :
    StepOk s (s.thread_step t (.first index table)) := by
  have hpub := h.reader t
  rw [hpc] at hpub
  obtain ⟨tab, htab, -⟩ := id hpub
  unfold thread_step
  dsimp only
  rw [with_table_eq htab]
  exact h.look_at (n := 0) (by rw [hpc]; rfl) hpub htab passed_zero

theorem Inv.step_probing (h : Inv s) {index table : ℕ} {p : ℕ × ℕ}
    (hpc : s.threads t = .probing index table p) :
    StepOk s (s.thread_step t (.probing index table p)) := by
  have hreader := h.reader t
  rw [hpc] at hreader
  obtain ⟨hpub, tab, n, htab, rfl, hpassed⟩ := hreader
  unfold thread_step
  dsimp only
  rw [with_table_eq htab]
  rw [← probe_succ]
  exact h.look_at (by rw [hpc]; rfl) hpub htab hpassed

theorem Inv.step_read_counter (h : Inv s) {index table i : ℕ}
    (hpc : s.threads t = .read_counter index table i) :
    StepOk s (s.thread_step t (.read_counter index table i)) := by
  have hreader := h.reader t
  rw [hpc] at hreader
  obtain ⟨hpub, tab, htab, hreach⟩ := hreader
  have ht : (s.threads t).writes = false := by
    rw [hpc]
    rfl
  unfold thread_step
  dsimp only
  rw [with_table_eq htab]
  split_ifs with heven
  · exact ⟨h.goto (.restart index) ht rfl trivial h.returned, .of_eq rfl⟩
  · have hcas : ReaderInv s (.cas index table i tab.resize_counter) :=
      ⟨hpub, heven, tab, htab, hreach⟩
    exact ⟨h.goto _ ht rfl hcas h.returned, .of_eq rfl⟩

/-- The `CAS` succeeds on the current table only, and only if nobody else is at
work. -/
theorem Inv.step_cas (h : Inv s) {index table i rc : ℕ}
    (hpc : s.threads t = .cas index table i rc) :
    StepOk s (s.thread_step t (.cas index table i rc)) := by
  have hreader := h.reader t
  rw [hpc] at hreader
  obtain ⟨hpub, hodd, tab, htab, hreach⟩ := hreader
  have ht : (s.threads t).writes = false := by
    rw [hpc]
    rfl
  unfold thread_step
  dsimp only
  rw [with_table_eq htab]
  split_ifs with hrc
  · have hcur : table = s.table := by
      obtain ⟨T, hT, hor⟩ := hpub
      rw [htab] at hT
      cases hT
      rcases hor with hcur | hptr
      · exact hcur
      · exact absurd hptr (not_is_pointer_of_odd (hrc ▸ hodd))
    subst hcur
    obtain ⟨T, hT, hwriter⟩ := h.writer
    rw [htab] at hT
    cases hT
    rcases hwriter with ⟨hnone, hcounts⟩ | ⟨v, hv, -⟩
    · refine ⟨h.write_current { tab with resize_counter := RESIZING_LOCK }
        (fun u _ => hnone u) htab rfl Extends.refl ?_ rfl rfl rfl
        (.inr ⟨rfl, rfl, hrc ▸ hcounts, hreach⟩) trivial (fun e he => .inl he)
        (fun r hr => .inl hr), ?_⟩
      · exact (h.ok _ _ htab).congr rfl rfl
      · exact .set_table htab (not_is_pointer_of_odd (hrc ▸ hodd)) rfl
    · exact absurd hv.even (hrc ▸ hodd)
  · exact ⟨h.goto (.restart index) ht rfl trivial h.returned, .of_eq rfl⟩

theorem Inv.step_locked (h : Inv s) {index table i rc : ℕ}
    (hpc : s.threads t = .locked index table i rc) :
    StepOk s (s.thread_step t (.locked index table i rc)) := by
  obtain ⟨tab, htab, hw, hothers⟩ := h.writer_unique (t := t) (by rw [hpc]; rfl)
  rw [hpc] at hw
  obtain ⟨rfl, hlock, hcounts, hreach⟩ := hw
  unfold thread_step
  dsimp only
  rw [with_table_eq htab, if_pos rfl]
  split_ifs with hitem hroom
  · exact ⟨h.write_goto hothers htab rfl rfl rfl ⟨rfl, hlock, hcounts⟩ trivial rfl rfl,
      .of_eq rfl⟩
  · exact ⟨h.write_goto hothers htab rfl rfl rfl
      ⟨rfl, hlock, hcounts, hreach, not_not.mp hitem, hroom⟩ trivial rfl rfl, .of_eq rfl⟩
  · exact ⟨h.write_goto hothers htab rfl rfl rfl ⟨rfl, hlock⟩ trivial rfl rfl, .of_eq rfl⟩

theorem Inv.step_unlock_restart (h : Inv s) {index table rc : ℕ}
    (hpc : s.threads t = .unlock_restart index table rc) :
    StepOk s (s.thread_step t (.unlock_restart index table rc)) := by
  obtain ⟨tab, htab, hw, hothers⟩ := h.writer_unique (t := t) (by rw [hpc]; rfl)
  rw [hpc] at hw
  obtain ⟨rfl, hlock, hcounts⟩ := hw
  unfold thread_step
  dsimp only
  rw [with_table_eq htab]
  refine ⟨h.write_current { tab with resize_counter := rc } hothers htab rfl Extends.refl ?_
    rfl rfl rfl (.inl ⟨rfl, hcounts⟩) trivial (fun e he => .inl he) (fun r hr => .inl hr), ?_⟩
  · exact (h.ok _ _ htab).congr rfl rfl
  · exact .set_table htab (hlock ▸ not_is_pointer_lock) rfl

theorem Inv.step_store (h : Inv s) {index table i rc : ℕ} {entry : EntryPtr}
    (hpc : s.threads t = .store index table i rc entry) :
    StepOk s (s.thread_step t (.store index table i rc entry)) := by
  obtain ⟨tab, htab, hw, hothers⟩ := h.writer_unique (t := t) (by rw [hpc]; rfl)
  rw [hpc] at hw
  obtain ⟨rfl, hlock, ⟨hodd, hcounts⟩, hreach, hitem, hroom, rfl⟩ := hw
  unfold thread_step
  dsimp only
  rw [with_table_eq htab]
  have hcount := Table.count_set_item (reaches_le_mask hreach) hitem entry
  have hcontains : (tab.set_item i entry).contains entry :=
    (Table.contains_set_item hitem).mpr (.inr rfl)
  refine ⟨h.write_current (tab.set_item i entry) hothers htab rfl (Extends.insert hitem) ?_
    rfl rfl rfl (.inr ⟨rfl, hlock, ⟨?_, ?_⟩, rfl, hcontains⟩) trivial (fun e he => ?_)
    (fun r hr => .inl hr), ?_⟩
  · exact (h.ok _ _ htab).set_item hreach hitem (by omega)
  · rw [is_even_iff] at hodd ⊢
    omega
  · rw [hcount]
    show rc - 6 + 6 * (tab.count + 1) = 4 * (tab.mask + 1) + 1
    omega
  · rcases List.mem_append.mp he with he | he
    · exact .inl he
    · cases List.mem_singleton.mp he
      exact .inr hcontains
  · exact .set_table htab (hlock ▸ not_is_pointer_lock) rfl

theorem Inv.step_unlock (h : Inv s) {index table rc : ℕ} {entry : EntryPtr}
    (hpc : s.threads t = .unlock index table rc entry) :
    StepOk s (s.thread_step t (.unlock index table rc entry)) := by
  obtain ⟨tab, htab, hw, hothers⟩ := h.writer_unique (t := t) (by rw [hpc]; rfl)
  rw [hpc] at hw
  obtain ⟨rfl, hlock, hcounts, hindex, hcontains⟩ := hw
  unfold thread_step
  dsimp only
  rw [with_table_eq htab]
  refine ⟨h.write_current { tab with resize_counter := rc - 6 } hothers htab rfl Extends.refl ?_
    rfl rfl rfl (.inl ⟨rfl, hcounts⟩) trivial (fun e he => .inl he) (fun r hr => ?_), ?_⟩
  · exact (h.ok _ _ htab).congr rfl rfl
  · rcases List.mem_append.mp hr with hr | hr
    · exact .inl hr
    · cases List.mem_singleton.mp hr
      exact .inr ⟨hindex, hcontains⟩
  · exact .set_table htab (hlock ▸ not_is_pointer_lock) rfl

theorem Inv.step_copy (h : Inv s) {index table biggertable j rc : ℕ}
    (hpc : s.threads t = .copy index table biggertable j rc) :
    StepOk s (s.thread_step t (.copy index table biggertable j rc)) := by
  obtain ⟨tab, htab, hw, hothers⟩ := h.writer_unique (t := t) (by rw [hpc]; rfl)
  rw [hpc] at hw
  obtain ⟨rfl, hrc, hptr, hne, hj, bigger, hbigger, hmask, hcounter, hcopied⟩ := hw
  have hodd : ¬ is_pointer bigger.resize_counter := by
    apply not_is_pointer_of_odd
    rw [hcounter, is_even_iff]
    omega
  unfold thread_step
  dsimp only
  rw [with_table_eq htab]
  split_ifs with hmore
  · rw [with_table_eq hbigger]
    have hroom := (h.ok _ _ htab).room
    obtain ⟨⟨bigger', rc'⟩, hbody, hcopied', hmask', hcounter', hext⟩ :=
      rehash_body_spec (h.ok _ _ htab) hmore (by omega) hcopied
    rw [hbody]
    dsimp only at hmask' hcounter' hext hcopied' ⊢
    refine ⟨h.write_bigger bigger' hothers htab hbigger hne hodd (hcounter' ▸ hodd) hmask' hext
      hcopied'.ok rfl rfl rfl ⟨rfl, hrc, hptr, hne, by omega, bigger', ?_, ?_, ?_, hcopied'⟩
      trivial rfl rfl, .set_table hbigger hodd rfl⟩
    · exact tables_set_table.trans (if_pos rfl)
    · rw [hmask']
      exact hmask
    · rw [hcounter', hmask']
      exact hcounter
  · have hall : j = tab.mask + 1 := by omega
    subst hall
    exact ⟨h.write_goto hothers htab rfl rfl rfl
      ⟨rfl, hrc, hptr, hne, bigger, hbigger, hcounter, hcopied⟩ trivial rfl rfl, .of_eq rfl⟩

theorem Inv.step_set_counter (h : Inv s) {index table biggertable rc : ℕ}
    (hpc : s.threads t = .set_counter index table biggertable rc) :
    StepOk s (s.thread_step t (.set_counter index table biggertable rc)) := by
  obtain ⟨tab, htab, hw, hothers⟩ := h.writer_unique (t := t) (by rw [hpc]; rfl)
  rw [hpc] at hw
  obtain ⟨rfl, hrc, hptr, hne, bigger, hbigger, hcounter, hcopied⟩ := hw
  have hodd : ¬ is_pointer bigger.resize_counter := by
    apply not_is_pointer_of_odd
    rw [hcounter, is_even_iff]
    omega
  have hcounts : Counts bigger rc bigger.count := by
    refine ⟨?_, hcopied.counter⟩
    have hsum := hcopied.counter
    rw [is_even_iff]
    omega
  unfold thread_step
  dsimp only
  rw [with_table_eq hbigger]
  refine ⟨h.write_bigger { bigger with resize_counter := rc } hothers htab hbigger hne hodd
    (not_is_pointer_of_odd hcounts.1) rfl Extends.refl (hcopied.ok.congr rfl rfl) rfl rfl rfl
    ⟨rfl, hrc, hptr, hne, _, tables_set_table.trans (if_pos rfl), hcounts, ?_⟩ trivial rfl rfl,
    .set_table hbigger hodd rfl⟩
  exact ⟨hcopied.ok.congr rfl rfl, hcopied.contains, hcopied.count, hcopied.counter⟩

/-- The bigger table has all the entries of the old one, whose counter stays a
pointer. -/
theorem Inv.step_publish (h : Inv s) {index table biggertable : ℕ}
    (hpc : s.threads t = .publish index table biggertable) :
    StepOk s (s.thread_step t (.publish index table biggertable)) := by
  obtain ⟨tab, htab, hw, hothers⟩ := h.writer_unique (t := t) (by rw [hpc]; rfl)
  rw [hpc] at hw
  obtain ⟨rfl, hrc, hptr, hne, bigger, hbigger, hcounts, hcopied⟩ := hw
  have hall : ∀ e, s.has e → bigger.contains e := by
    intro e he
    exact (hcopied.contains_all (h.ok _ _ htab) e).mpr ⟨rfl, (has_iff htab).mp he⟩
  unfold thread_step
  dsimp only
  refine ⟨h.write (.restart index) bigger hothers rfl ?_ h.ok hbigger
    (.inl ⟨rfl, hcounts⟩) trivial ?_ (fun e he => .inl he) (fun r hr => .inl hr), .of_eq rfl⟩
  · refine ⟨fun q T hT => ⟨T, hT, rfl, Extends.refl⟩, fun q hq => ?_,
      fun e he => ⟨bigger, hbigger, hall e he⟩⟩
    obtain ⟨T, hT, rfl | hretired⟩ := hq
    · rw [htab] at hT
      cases hT
      exact ⟨tab, htab, .inr (hrc ▸ hptr)⟩
    · exact ⟨T, hT, .inr hretired⟩
  · intro q T hT hq hretired e he
    refine ⟨bigger, hbigger, hall e ?_⟩
    by_cases hold : q = s.table
    · exact ⟨T, hold ▸ hT, he⟩
    · exact h.retired q T hT hold hretired e he

/-! ### The allocations -/

theorem biggercount_spec (h : IsMask tab.mask) (hsize : 16 + biggercount tab * 8 < 2 ^ 64) :
    ∃ k, biggercount tab = 2 ^ k ∧ 3 ≤ k ∧ k < 61 ∧ tab.mask + 1 ≤ biggercount tab := by
  obtain ⟨k, hk, -, hmask⟩ := h
  have hlt : ∀ n, 16 + 2 ^ n * 8 < 2 ^ 64 → n < 61 := by
    intro n hn
    by_contra hge
    have hpow : 2 ^ 61 ≤ 2 ^ n := Nat.pow_le_pow_right (by omega) (by omega)
    omega
  unfold biggercount at hsize ⊢
  rw [hmask] at hsize ⊢
  split_ifs at hsize ⊢
  · have hpow : 2 ^ k * 4 = 2 ^ (k + 2) := by ring
    rw [hpow] at hsize ⊢
    exact ⟨k + 2, rfl, by omega, hlt _ hsize, by rw [← hpow]; omega⟩
  · have hpow : 2 ^ k * 2 = 2 ^ (k + 1) := by ring
    rw [hpow] at hsize ⊢
    exact ⟨k + 1, rfl, by omega, hlt _ hsize, by rw [← hpow]; omega⟩

theorem Inv.step_allocate (h : Inv s) {addr index table i rc : ℕ}
    (hpc : s.threads t = .allocate index table i rc) : StepOk s (s.step (.allocate t addr)) := by
  obtain ⟨tab, htab, hw, hothers⟩ := h.writer_unique (t := t) (by rw [hpc]; rfl)
  rw [hpc] at hw
  obtain ⟨rfl, hlock, hcounts, hreach, hitem, hroom⟩ := hw
  unfold step
  dsimp only
  rw [hpc]
  dsimp only
  unfold guarded
  split_ifs
  · trivial
  · exact ⟨h.write_goto hothers htab rfl rfl rfl
      ⟨rfl, hlock, hcounts, hreach, hitem, hroom, rfl⟩ trivial rfl rfl, .of_eq rfl⟩

theorem Inv.step_malloc (h : Inv s) {biggertable index table : ℕ}
    (hpc : s.threads t = .malloc index table) : StepOk s (s.step (.malloc t biggertable)) := by
  obtain ⟨tab, htab, hw, hothers⟩ := h.writer_unique (t := t) (by rw [hpc]; rfl)
  rw [hpc] at hw
  obtain ⟨rfl, hlock⟩ := hw
  unfold step
  dsimp only
  rw [hpc]
  dsimp only
  rw [with_table_eq htab]
  unfold guarded
  split_ifs with hmalloc
  swap
  · trivial
  obtain ⟨heven, hnotlock, hfree, hsize⟩ := hmalloc
  obtain ⟨k, hcount, hk, hk', hle⟩ := biggercount_spec (h.ok _ _ htab).mask hsize
  have hne : biggertable ≠ s.table := by
    rintro rfl
    rw [htab] at hfree
    cases hfree
  have hinit : Copied (fun _ => true) tab 0 (init_table (biggercount tab))
      (init_table (biggercount tab)).resize_counter := copied_zero hcount hk hk'
  have hpos : 0 < 2 ^ k := Nat.two_pow_pos k
  set bigger := init_table (biggercount tab) with hbigger
  have hmask : bigger.mask + 1 = biggercount tab := by
    show biggercount tab - 1 + 1 = _
    omega
  have hset : Grows s (s.set_table s.table { tab with resize_counter := biggertable }) :=
    Grows.set_current { tab with resize_counter := biggertable } htab rfl Extends.refl rfl rfl
  have hread : ∀ q, (((s.set_table s.table { tab with resize_counter := biggertable }).set_table
      biggertable bigger).tables q) = if q = biggertable then some bigger
        else if q = s.table then some { tab with resize_counter := biggertable }
        else s.tables q := by
    intro q
    rw [tables_set_table, tables_set_table]
  have hcur := (hread s.table).trans ((if_neg (Ne.symm hne)).trans (if_pos rfl))
  have hgrows : Grows s ((s.set_table s.table { tab with resize_counter := biggertable }).set_table
      biggertable bigger) := by
    refine hset.trans (Grows.set_fresh ?_ hne rfl rfl)
    rw [tables_set_table, if_neg hne]
    exact hfree
  refine ⟨h.write (.copy index s.table biggertable 0 bigger.resize_counter)
    { tab with resize_counter := biggertable } hothers rfl (hgrows.trans (.refl_of rfl rfl)) ?_
    hcur (.inr ⟨rfl, rfl, ⟨heven, hnotlock⟩, hne, Nat.zero_le _, bigger, ?_, ?_, ?_, ?_⟩)
    trivial ?_ (fun e he => .inl he) (fun r hr => .inl hr), ?_⟩
  · intro q T hT
    replace hT := (hread q).symm.trans hT
    split_ifs at hT
    · cases hT
      exact hinit.ok
    · cases hT
      exact (h.ok _ _ htab).congr rfl rfl
    · exact h.ok q T hT
  · exact (hread biggertable).trans (if_pos rfl)
  · rw [hmask]
    exact hle
  · rw [hmask]
    show biggercount tab * 4 + 1 = _
    omega
  · exact ⟨hinit.ok, hinit.contains, hinit.count, hinit.counter⟩
  · intro q T hT hq hptr e he
    replace hT := (hread q).symm.trans hT
    replace hq : q ≠ s.table := hq
    rw [if_neg hq] at hT
    split_ifs at hT
    · cases hT
      obtain ⟨i, hi⟩ := he
      cases hi
    · exact hgrows.has e (h.retired q T hT hq hptr e he)
  · intro q T hT hptr
    refine (hread q).trans ?_
    have hqb : q ≠ biggertable := by
      rintro rfl
      rw [hfree] at hT
      cases hT
    have hqs : q ≠ s.table := by
      rintro rfl
      rw [htab] at hT
      cases hT
      exact not_is_pointer_lock (hlock ▸ hptr)
    rw [if_neg hqb, if_neg hqs]
    exact hT

/-- Every step of every thread. -/
theorem Inv.step (h : Inv s) (a : Act) : StepOk s (s.step a) := by
  cases a with
  | call t index =>
      unfold SharedHashtable.step
      dsimp only
      unfold guarded
      split_ifs with hidle
      · have ht : (s.threads t).writes = false := by
          rw [hidle]
          rfl
        exact ⟨h.goto (.restart index) ht rfl trivial h.returned, .of_eq rfl⟩
      · trivial
  | step t =>
      unfold SharedHashtable.step
      dsimp only
      cases hpc : s.threads t with
      | restart index =>
          obtain ⟨tab, htab, -⟩ := h.writer
          have ht : (s.threads t).writes = false := by
            rw [hpc]
            rfl
          exact ⟨h.goto (.first index s.table) ht rfl ⟨tab, htab, .inl rfl⟩ h.returned, .of_eq rfl⟩
      | first index table => exact h.step_first hpc
      | probing index table p => exact h.step_probing hpc
      | read_counter index table i => exact h.step_read_counter hpc
      | cas index table i rc => exact h.step_cas hpc
      | locked index table i rc => exact h.step_locked hpc
      | unlock_restart index table rc => exact h.step_unlock_restart hpc
      | store index table i rc entry => exact h.step_store hpc
      | unlock index table rc entry => exact h.step_unlock hpc
      | copy index table biggertable j rc => exact h.step_copy hpc
      | set_counter index table biggertable rc => exact h.step_set_counter hpc
      | publish index table biggertable => exact h.step_publish hpc
      | _ => trivial
  | allocate t addr =>
      cases hpc : s.threads t with
      | allocate index table i rc => exact h.step_allocate hpc
      | _ =>
          unfold SharedHashtable.step
          dsimp only
          rw [hpc]
          trivial
  | malloc t biggertable =>
      cases hpc : s.threads t with
      | malloc index table => exact h.step_malloc hpc
      | _ =>
          unfold SharedHashtable.step
          dsimp only
          rw [hpc]
          trivial

/-! ## Runs -/

/-- No call is running. The current table is well-formed and has what has been
inserted; the others are the older ones. -/
structure Initial (s : SharedHashtable) : Prop where
  threads : ∀ t, s.threads t = .idle
  table : ∃ tab, s.tables s.table = some tab ∧ tab.Ok ∧ Counts tab tab.resize_counter tab.count
  older : ∀ p tab, s.tables p = some tab → p ≠ s.table →
    tab.Ok ∧ is_pointer tab.resize_counter ∧ ∀ e, tab.contains e → s.has e
  inserted : ∀ e ∈ s.inserted, s.has e
  returned : s.returned = []

theorem Initial.inv (h : Initial s) : Inv s where
  ok p tab hp := by
    obtain ⟨cur, hcur, hok, -⟩ := h.table
    by_cases heq : p = s.table
    · subst heq
      rw [hcur] at hp
      cases hp
      exact hok
    · exact (h.older p tab hp heq).1
  writer := by
    obtain ⟨cur, hcur, -, hcounts⟩ := h.table
    refine ⟨cur, hcur, .inl ⟨fun t => ?_, hcounts⟩⟩
    rw [h.threads]
    rfl
  reader t := by
    rw [h.threads]
    trivial
  retired p tab hp heq _ e he := (h.older p tab hp heq).2.2 e he
  inserted := h.inserted
  returned := by
    rw [h.returned]
    nofun

/-- `stm_hashtable_create`. -/
def create (p : ℕ) : SharedHashtable where
  table := p
  tables := Function.update (fun _ => none) p (some (init_table INITIAL_HASHTABLE_SIZE))
  threads := fun _ => .idle
  allocated := []
  inserted := []
  returned := []

theorem initial_create (p : ℕ) : Initial (create p) where
  threads _ := rfl
  table := by
    refine ⟨init_table INITIAL_HASHTABLE_SIZE, Function.update_self p _ (fun _ => none),
      init_table_ok (k := 3) rfl (Nat.le_refl 3) (by omega), by decide, ?_⟩
    have hzero : (init_table INITIAL_HASHTABLE_SIZE).count = 0 := by
      unfold Table.count Table.count_below init_table
      simp
    rw [hzero]
    rfl
  older q tab hq hne := by
    replace hq : Function.update (fun _ => none) p (some (init_table INITIAL_HASHTABLE_SIZE)) q
      = some tab := hq
    replace hne : q ≠ p := hne
    rw [Function.update_of_ne hne] at hq
    cases hq
  inserted := by nofun
  returned := rfl

/-- The calls of `stm_hashtable_lookup` by all threads, in any interleaving.
All calls for an index return one entry, and the current table keeps every
entry that has been inserted and has one for each index. No step fails, the
assertion `table == hashtable->table` among them, and none writes to a table
whose counter has become a pointer. -/
theorem stm_hashtable_lookup_interleaved (h : Reachable Initial step s) :
    (∀ r ∈ s.returned, r.2.index = r.1 ∧ s.has r.2)
      ∧ (∀ r ∈ s.returned, ∀ r' ∈ s.returned, r.1 = r'.1 → r.2 = r'.2)
      ∧ (∀ e ∈ s.inserted, s.has e)
      ∧ (∀ e e', s.has e → s.has e' → e.index = e'.index → e = e')
      ∧ ∀ a, s.step a ≠ .fault ∧ ∀ s', s.step a = .next s' → Immutable s s' := by
  have hinv : Inv s := by
    refine ReachableIf.invariant ?_ ?_ h
    · exact fun _ => Initial.inv
    · intro s a s' hs _ hstep
      have hok := hs.step a
      rw [hstep] at hok
      exact hok.1
  have hunique : ∀ e e', s.has e → s.has e' → e.index = e'.index → e = e' := by
    intro e e' he he' hindex
    obtain ⟨tab, htab, -⟩ := hinv.writer
    exact (hinv.ok _ _ htab).unique ((has_iff htab).mp he) ((has_iff htab).mp he') hindex
  refine ⟨hinv.returned, fun r hr r' hr' hindex => ?_, hinv.inserted, hunique, fun a => ?_⟩
  · have hr := hinv.returned r hr
    have hr' := hinv.returned r' hr'
    exact hunique _ _ hr.2 hr'.2 (by rw [hr.1, hr'.1, hindex])
  · have hok := hinv.step a
    constructor
    · intro hfault
      rw [hfault] at hok
      exact hok
    · intro s' hs'
      rw [hs'] at hok
      exact hok.2

/-- Threads 1 and 2 look up the same index in an empty table. Thread 2 comes
while thread 1 is inserting. -/
def two_lookups : List Act :=
  [.call 1 5, .step 1, .step 1, .step 1, .call 2 5, .step 2, .step 2, .step 1, .step 2, .step 1,
    .allocate 1 64, .step 1, .step 2, .step 2, .step 1]

theorem stm_hashtable_lookup_interleaved_two : ∃ s,
    run step (fun _ _ => True) (create 2) two_lookups = .next s
      ∧ s.returned = [(5, ⟨64, 5⟩), (5, ⟨64, 5⟩)] ∧ s.has ⟨64, 5⟩ := by
  have htest : (run step (fun _ _ => True) (create 2) two_lookups).test
      (fun s => decide (s.returned = [(5, ⟨64, 5⟩), (5, ⟨64, 5⟩)])) = true := by
    decide +kernel
  obtain ⟨s, hrun, hreturned⟩ := Outcome.of_test htest
  have hreturned := of_decide_eq_true hreturned
  have h0 : Reachable Initial step (create 2) := .start (initial_create 2)
  have hall := (stm_hashtable_lookup_interleaved (h0.run _ hrun)).1 (5, ⟨64, 5⟩)
  refine ⟨s, hrun, hreturned, (hall ?_).2⟩
  rw [hreturned]
  exact List.mem_cons_self

end SharedHashtable

end Stmgc.C7
