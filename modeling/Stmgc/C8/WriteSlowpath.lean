/-
The page privatization in `_stm_write_slowpath`, between any two steps of which
the threads of the other segments may run.

A test of `by_segment`, the acquiring or releasing of one lock, one bit that is
set, the `pwrite` of one page and the remapping of one page are one step each.
The first byte of an object has its `GCFLAG_WRITE_BARRIER`. The program stores
into an object after the write barrier, and a minor collection or a commit
gives the flag back; validation, which copies what others have committed, is
not among the actions here.
-/
import Stmgc.C8.Pages
import Stmgc.Lib.Loop
import Stmgc.Lib.Machine

namespace Stmgc.C8.WriteSlowpath

open Stmgc.Lib

/-- The old objects: where they are, and how large they are. -/
structure Objects where
  is_object : ℕ → Bool
  stmcb_size_rounded_up : ℕ → ℕ
  size_pos : ∀ obj, 0 < stmcb_size_rounded_up obj
  disjoint : ∀ obj obj', is_object obj = true → is_object obj' = true → obj ≠ obj' →
    ∀ i < stmcb_size_rounded_up obj, obj + i ≠ obj'

def GCFLAG_WRITE_BARRIER : BitVec 8 := 1

def has_write_barrier (byte : BitVec 8) : Bool := byte &&& GCFLAG_WRITE_BARRIER != 0

/-- Where `page_privatize_in` stands for one segment. -/
inductive Stage where
  | set_bit
  | pwrite
  | remap

/-- Where a thread stands in `_stm_write_slowpath`. -/
inductive Pc where
  | running
  /-- at the head of the loop over the pages -/
  | next_page (obj page : ℕ)
  | acquire (obj page i : ℕ)
  /-- all locks are acquired -/
  | recheck (obj page : ℕ)
  /-- in `page_privatize_in (i, ..)` -/
  | privatize (obj page i : ℕ) (stage : Stage)
  | set_private (obj page : ℕ)
  | release (obj page i : ℕ)
  | acquire_own (obj : ℕ)
  | clear_flag (obj : ℕ)
  | release_own (obj : ℕ)

structure St where
  pages : Pages
  /-- the segment whose thread holds the `privatization_lock` of a segment -/
  privatization_lock : ℕ → Option ℕ
  pc : ℕ → Pc
  /-- the pages that `_privatize_shared_page` was called for -/
  privatized : List ℕ

inductive Act where
  | write (s obj : ℕ)
  /-- a store into the part of an object behind its flags -/
  | store (s obj k : ℕ) (byte : BitVec 8)
  /-- the object gets its flag back -/
  | set_flag (s obj : ℕ)
  | continue (s : ℕ)

/-- The segment whose thread takes the step. -/
def Act.segment : Act → ℕ
  | .write s _ => s
  | .store s _ _ _ => s
  | .set_flag s _ => s
  | .continue s => s

section

variable (NB_SEGMENTS : ℕ) (O : Objects)

def first_page (obj : ℕ) : ℕ := obj / 4096

def end_page (obj : ℕ) : ℕ := (obj + O.stmcb_size_rounded_up obj - 1) / 4096

def St.goto (st : St) (s : ℕ) (pc : Pc) : St := { st with pc := Function.update st.pc s pc }

def acquire_privatization_lock (st : St) (s i : ℕ) : St :=
  { st with privatization_lock := Function.update st.privatization_lock i (some s) }

def release_privatization_lock (st : St) (i : ℕ) : St :=
  { st with privatization_lock := Function.update st.privatization_lock i none }

/-- The loop of `_privatize_shared_page`. -/
def privatize_from (obj page i : ℕ) : Pc :=
  if i < NB_SEGMENTS then .privatize obj page i .set_bit else .set_private obj page

/-- A C `assert` before a step. -/
def asserting (p : Prop) [Decidable p] (r : Outcome St) : Outcome St := if p then r else .fault

def continue_step (st : St) (s : ℕ) : Outcome St :=
  match st.pc s with
  | .running => .blocked
  | .next_page obj page =>
    if page ≤ end_page O obj then
      if st.pages.is_shared_log_page page then .next (st.goto s (.acquire obj page 0))
      else .next (st.goto s (.next_page obj (page + 1)))
    else .next (st.goto s (.acquire_own obj))
  | .acquire obj page i =>
    guarded (st.privatization_lock i = none) <|
    .next ((acquire_privatization_lock st s i).goto s
      (if i + 1 < NB_SEGMENTS then .acquire obj page (i + 1) else .recheck obj page))
  | .recheck obj page =>
    if st.pages.is_shared_log_page page then
      asserting (∀ l < NB_SEGMENTS, st.privatization_lock l ≠ none) <|
      .next ({ st with privatized := page :: st.privatized }.goto s
        (privatize_from NB_SEGMENTS obj page 1))
    else .next (st.goto s (.release obj page (NB_SEGMENTS - 1)))
  | .privatize obj page i .set_bit =>
    asserting (st.pages.is_private_log_page_in i page = false) <|
    .next ({ st with pages := st.pages.set_page_private_in i page }.goto s
      (.privatize obj page i .pwrite))
  | .privatize obj page i .pwrite =>
    .next ({ st with pages := st.pages.pwrite i page }.goto s (.privatize obj page i .remap))
  | .privatize obj page i .remap =>
    .next ({ st with pages := st.pages.d_remap_file_pages i page }.goto s
      (privatize_from NB_SEGMENTS obj page (i + 1)))
  | .set_private obj page =>
    asserting (st.pages.is_private_log_page_in 0 page = false) <|
    let pages := st.pages.set_page_private_in 0 page
    asserting (pages.is_private_log_page_in s page = true ∧ pages.is_shared_log_page page = false) <|
    .next ({ st with pages := pages }.goto s (.release obj page (NB_SEGMENTS - 1)))
  | .release obj page i =>
    asserting (st.privatization_lock i ≠ none) <|
    .next ((release_privatization_lock st i).goto s
      (if i = 0 then .next_page obj (page + 1) else .release obj page (i - 1)))
  | .acquire_own obj =>
    guarded (st.privatization_lock s = none) <|
    asserting (st.pages.is_private_log_page_in s (first_page obj) = true) <|
    .next ((acquire_privatization_lock st s s).goto s (.clear_flag obj))
  | .clear_flag obj =>
    .next ({ st with
      pages := st.pages.write s obj (st.pages.read s obj &&& ~~~GCFLAG_WRITE_BARRIER)
    }.goto s (.release_own obj))
  | .release_own _ =>
    asserting (st.privatization_lock s ≠ none) <|
    .next ((release_privatization_lock st s).goto s .running)

/-- One step. Segments are numbered from 0. -/
def step (st : St) (a : Act) : Outcome St :=
  guarded (a.segment < NB_SEGMENTS) <|
  match a with
  | .write s obj =>
    match st.pc s with
    | .running => guarded (O.is_object obj ∧ has_write_barrier (st.pages.read s obj)) <|
      .next (st.goto s (.next_page obj (first_page obj)))
    | _ => .blocked
  | .store s obj k byte =>
    match st.pc s with
    | .running => guarded (O.is_object obj ∧ has_write_barrier (st.pages.read s obj) = false ∧
        0 < k ∧ k < O.stmcb_size_rounded_up obj) <|
      .next { st with pages := st.pages.write s (obj + k) byte }
    | _ => .blocked
  | .set_flag s obj =>
    match st.pc s with
    | .running => guarded (O.is_object obj ∧ has_write_barrier (st.pages.read s obj) = false) <|
      .next { st with
        pages := st.pages.write s obj (st.pages.read s obj ||| GCFLAG_WRITE_BARRIER) }
    | _ => .blocked
  | .continue s => continue_step NB_SEGMENTS O st s

/-- No page is privatized, every virtual page is mapped to the file page of
segment 0, and all objects have their flags. -/
structure Initial (st : St) : Prop where
  shared : ∀ p, Pages.Shared NB_SEGMENTS st.pages p
  privatization_lock : ∀ i, st.privatization_lock i = none
  pc : ∀ s, st.pc s = .running
  privatized : st.privatized = []
  flags : ∀ s < NB_SEGMENTS, ∀ obj, O.is_object obj = true →
    has_write_barrier (st.pages.read s obj) = true

/-! ## The invariant -/

/-- The page that the thread is privatizing. -/
def Pc.working : Pc → Option ℕ
  | .privatize _ page _ _ => some page
  | .set_private _ page => some page
  | _ => none

/-- The locks that the thread holds. -/
def Pc.Holds (s : ℕ) : Pc → ℕ → Prop
  | .running, _ => False
  | .next_page _ _, _ => False
  | .acquire _ _ i, l => l < i
  | .recheck _ _, l => l < NB_SEGMENTS
  | .privatize _ _ _ _, l => l < NB_SEGMENTS
  | .set_private _ _, l => l < NB_SEGMENTS
  | .release _ _ i, l => l ≤ i
  | .acquire_own _, _ => False
  | .clear_flag _, l => l = s
  | .release_own _, l => l = s

/-- The pages of an object. -/
def OnPage (obj p : ℕ) : Prop := first_page obj ≤ p ∧ p ≤ end_page O obj

/-- The thread has found that the pages of the object below this one are not
shared. -/
def Seen (pg : Pages) (obj bound : ℕ) : Prop :=
  ∀ p, first_page obj ≤ p → p < bound → pg.by_segment p ≠ 0

/-- What a thread knows at a point of the slow path. -/
def Pc.Knows (pg : Pages) : Pc → Prop
  | .running => True
  | .next_page obj page => O.is_object obj = true ∧ Seen pg obj page
  | .acquire obj page i => O.is_object obj = true ∧ Seen pg obj page ∧ i < NB_SEGMENTS
  | .recheck obj page => O.is_object obj = true ∧ Seen pg obj page
  | .privatize obj page i .set_bit => O.is_object obj = true ∧ Seen pg obj page ∧
      0 < i ∧ i < NB_SEGMENTS ∧ Pages.Partial NB_SEGMENTS pg page i i i
  | .privatize obj page i .pwrite => O.is_object obj = true ∧ Seen pg obj page ∧
      0 < i ∧ i < NB_SEGMENTS ∧ Pages.Partial NB_SEGMENTS pg page (i + 1) i i
  | .privatize obj page i .remap => O.is_object obj = true ∧ Seen pg obj page ∧
      0 < i ∧ i < NB_SEGMENTS ∧ Pages.Partial NB_SEGMENTS pg page (i + 1) (i + 1) i
  | .set_private obj page => O.is_object obj = true ∧ Seen pg obj page ∧
      Pages.Partial NB_SEGMENTS pg page NB_SEGMENTS NB_SEGMENTS NB_SEGMENTS
  | .release obj page i => O.is_object obj = true ∧ Seen pg obj (page + 1) ∧ i < NB_SEGMENTS
  | .acquire_own obj => O.is_object obj = true ∧ Seen pg obj (end_page O obj + 1)
  | .clear_flag obj => O.is_object obj = true ∧
      ∀ p, OnPage O obj p → Pages.Private NB_SEGMENTS pg p
  | .release_own _ => True

structure Inv (st : St) : Prop where
  holds : ∀ s < NB_SEGMENTS, ∀ l,
    st.privatization_lock l = some s ↔ (st.pc s).Holds NB_SEGMENTS s l
  pages : ∀ p, Pages.Shared NB_SEGMENTS st.pages p ∨ Pages.Private NB_SEGMENTS st.pages p ∨
    ∃ s < NB_SEGMENTS, (st.pc s).working = some p
  knows : ∀ s < NB_SEGMENTS, (st.pc s).Knows NB_SEGMENTS O st.pages
  flags : ∀ s < NB_SEGMENTS, ∀ obj, O.is_object obj = true →
    has_write_barrier (st.pages.read s obj) = false →
    ∀ p, OnPage O obj p → Pages.Private NB_SEGMENTS st.pages p
  privatized_nodup : st.privatized.Nodup
  privatized : ∀ p ∈ st.privatized,
    st.pages.by_segment p ≠ 0 ∨ ∃ s < NB_SEGMENTS, (st.pc s).working = some p

end

variable {NB_SEGMENTS : ℕ} {O : Objects} {st st' : St} {pg pg' : Pages} {s t p : ℕ}

/-! ## One thread at a time privatizes -/

theorem Pc.holds_of_working {pc : Pc} (h : pc.working = some p) {l : ℕ} (hl : l < NB_SEGMENTS) :
    pc.Holds NB_SEGMENTS s l := by
  cases pc with
  | privatize obj page i stage => exact hl
  | set_private obj page => exact hl
  | running => cases h
  | next_page obj page => cases h
  | acquire obj page i => cases h
  | recheck obj page => cases h
  | release obj page i => cases h
  | acquire_own obj => cases h
  | clear_flag obj => cases h
  | release_own obj => cases h

/-- Who holds a lock is alone with a page that is being privatized. -/
theorem Inv.alone (hinv : Inv NB_SEGMENTS O st) (hs : s < NB_SEGMENTS) (ht : t < NB_SEGMENTS)
    {l : ℕ} (hl : l < NB_SEGMENTS) (hholds : (st.pc s).Holds NB_SEGMENTS s l)
    (hwork : (st.pc t).working = some p) : t = s := by
  have hlock := (hinv.holds t ht l).mpr (Pc.holds_of_working hwork hl)
  exact Option.some.inj (hlock.symm.trans ((hinv.holds s hs l).mpr hholds))

/-- The part of a page that is being privatized. -/
theorem Pc.Knows.part {pc : Pc} (h : pc.Knows NB_SEGMENTS O pg)
    (hwork : pc.working = some p) :
    ∃ bits written mapped, Pages.Partial NB_SEGMENTS pg p bits written mapped := by
  cases pc with
  | privatize obj page i stage =>
      cases hwork
      cases stage with
      | set_bit => exact ⟨_, _, _, h.2.2.2.2⟩
      | pwrite => exact ⟨_, _, _, h.2.2.2.2⟩
      | remap => exact ⟨_, _, _, h.2.2.2.2⟩
  | set_private obj page =>
      cases hwork
      exact ⟨_, _, _, h.2.2⟩
  | running => cases hwork
  | next_page obj page => cases hwork
  | acquire obj page i => cases hwork
  | recheck obj page => cases hwork
  | release obj page i => cases hwork
  | acquire_own obj => cases hwork
  | clear_flag obj => cases hwork
  | release_own obj => cases hwork

/-- A page that is not shared, and that nobody is at work on, is private. -/
theorem Inv.private_of_ne_zero (hinv : Inv NB_SEGMENTS O st) (hne : st.pages.by_segment p ≠ 0)
    (hidle : ∀ s < NB_SEGMENTS, (st.pc s).working ≠ some p) :
    Pages.Private NB_SEGMENTS st.pages p := by
  rcases hinv.pages p with hshared | hprivate | ⟨s, hs, hwork⟩
  · exact absurd hshared.by_segment hne
  · exact hprivate
  · exact absurd hwork (hidle s hs)

/-! ## What is kept -/

/-- Pages are never shared again. -/
structure Grows (NB_SEGMENTS : ℕ) (pg pg' : Pages) : Prop where
  by_segment : ∀ p, pg.by_segment p ≠ 0 → pg'.by_segment p ≠ 0
  is_private : ∀ p, Pages.Private NB_SEGMENTS pg p → Pages.Private NB_SEGMENTS pg' p

theorem Grows.refl : Grows NB_SEGMENTS pg pg := ⟨fun _ h => h, fun _ h => h⟩

theorem Seen.mono {obj bound : ℕ} (h : Seen pg obj bound) (hgrows : Grows NB_SEGMENTS pg pg') :
    Seen pg' obj bound := fun p hfirst hp => hgrows.by_segment p (h p hfirst hp)

theorem Pc.Knows.mono {pc : Pc} (h : pc.Knows NB_SEGMENTS O pg) (hgrows : Grows NB_SEGMENTS pg pg')
    (hwork : ∀ p, pc.working = some p → Pages.SameAt pg pg' p) : pc.Knows NB_SEGMENTS O pg' := by
  cases pc with
  | running => trivial
  | next_page obj page => exact ⟨h.1, h.2.mono hgrows⟩
  | acquire obj page i => exact ⟨h.1, h.2.1.mono hgrows, h.2.2⟩
  | recheck obj page => exact ⟨h.1, h.2.mono hgrows⟩
  | privatize obj page i stage =>
      have hsame := hwork page rfl
      cases stage with
      | set_bit => exact ⟨h.1, h.2.1.mono hgrows, h.2.2.1, h.2.2.2.1, h.2.2.2.2.congr hsame⟩
      | pwrite => exact ⟨h.1, h.2.1.mono hgrows, h.2.2.1, h.2.2.2.1, h.2.2.2.2.congr hsame⟩
      | remap => exact ⟨h.1, h.2.1.mono hgrows, h.2.2.1, h.2.2.2.1, h.2.2.2.2.congr hsame⟩
  | set_private obj page => exact ⟨h.1, h.2.1.mono hgrows, h.2.2.congr (hwork page rfl)⟩
  | release obj page i => exact ⟨h.1, h.2.1.mono hgrows, h.2.2⟩
  | acquire_own obj => exact ⟨h.1, h.2.mono hgrows⟩
  | clear_flag obj => exact ⟨h.1, fun p hp => hgrows.is_private p (h.2 p hp)⟩
  | release_own obj => trivial

/-- A step of segment `s` that the others do not see. -/
structure Isolated (NB_SEGMENTS : ℕ) (O : Objects) (st : St) (s : ℕ) (st' : St) : Prop where
  inv : Inv NB_SEGMENTS O st'
  others : ∀ t < NB_SEGMENTS, t ≠ s → ∀ addr, st'.pages.read t addr = st.pages.read t addr

/-- A step that nobody sees. -/
structure Quiet (NB_SEGMENTS : ℕ) (O : Objects) (st st' : St) : Prop where
  inv : Inv NB_SEGMENTS O st'
  views : ∀ t < NB_SEGMENTS, ∀ addr, st'.pages.read t addr = st.pages.read t addr

theorem Quiet.isolated (h : Quiet NB_SEGMENTS O st st') : Isolated NB_SEGMENTS O st s st' :=
  ⟨h.inv, fun t ht _ => h.views t ht⟩

/-- A step of one thread: what it has to establish for itself, and what it must
not touch of the others. -/
theorem Inv.update (hinv : Inv NB_SEGMENTS O st) (hs : s < NB_SEGMENTS) {pc : Pc}
    {lock : ℕ → Option ℕ} {log : List ℕ} (hgrows : Grows NB_SEGMENTS st.pages pg)
    (hsame : ∀ t < NB_SEGMENTS, t ≠ s → ∀ p, (st.pc t).working = some p →
      Pages.SameAt st.pages pg p)
    (hlock : ∀ l, lock l = some s ↔ pc.Holds NB_SEGMENTS s l)
    (hother : ∀ t, t ≠ s → ∀ l, lock l = some t ↔ st.privatization_lock l = some t)
    (hpages : ∀ p, Pages.Shared NB_SEGMENTS pg p ∨ Pages.Private NB_SEGMENTS pg p ∨
      pc.working = some p ∨ ∃ t < NB_SEGMENTS, t ≠ s ∧ (st.pc t).working = some p)
    (hknows : pc.Knows NB_SEGMENTS O pg)
    (hflags : ∀ t < NB_SEGMENTS, ∀ obj, O.is_object obj = true →
      has_write_barrier (pg.read t obj) = false →
      ∀ p, OnPage O obj p → Pages.Private NB_SEGMENTS pg p)
    (hnodup : log.Nodup)
    (hlog : ∀ p ∈ log, pg.by_segment p ≠ 0 ∨ pc.working = some p ∨
      ∃ t < NB_SEGMENTS, t ≠ s ∧ (st.pc t).working = some p) :
    Inv NB_SEGMENTS O
      { pages := pg, privatization_lock := lock, pc := Function.update st.pc s pc,
        privatized := log } := by
  have hworking : ∀ p, (pc.working = some p ∨
        ∃ t < NB_SEGMENTS, t ≠ s ∧ (st.pc t).working = some p) →
      ∃ t < NB_SEGMENTS, (Function.update st.pc s pc t).working = some p := by
    rintro p (hwork | ⟨t, ht, hne, hwork⟩)
    · exact ⟨s, hs, by rw [Function.update_self]; exact hwork⟩
    · exact ⟨t, ht, by rw [Function.update_of_ne hne]; exact hwork⟩
  refine ⟨fun t ht l => ?_, fun p => ?_, fun t ht => ?_, hflags, hnodup, fun p hp => ?_⟩
  · dsimp only
    by_cases hts : t = s
    · rw [hts, Function.update_self]
      exact hlock l
    · rw [Function.update_of_ne hts, hother t hts l]
      exact hinv.holds t ht l
  · exact (hpages p).imp_right fun h => h.imp_right (hworking p)
  · dsimp only
    by_cases hts : t = s
    · rw [hts, Function.update_self]
      exact hknows
    · rw [Function.update_of_ne hts]
      exact (hinv.knows t ht).mono hgrows (hsame t ht hts)
  · exact (hlog p hp).imp_right (hworking p)

/-- Other threads go on with what they do. -/
theorem Inv.others (hinv : Inv NB_SEGMENTS O st) (hidle : (st.pc s).working = none) :
    ∀ p, Pages.Shared NB_SEGMENTS st.pages p ∨ Pages.Private NB_SEGMENTS st.pages p ∨
      ∃ t < NB_SEGMENTS, t ≠ s ∧ (st.pc t).working = some p := by
  intro p
  refine (hinv.pages p).imp_right fun h => h.imp_right ?_
  rintro ⟨t, ht, hwork⟩
  refine ⟨t, ht, fun hts => ?_, hwork⟩
  rw [hts, hidle] at hwork
  cases hwork

/-- A step that neither touches the pages nor starts to. -/
theorem Inv.move (hinv : Inv NB_SEGMENTS O st) (hs : s < NB_SEGMENTS) {pc : Pc}
    {lock : ℕ → Option ℕ} (hidle : (st.pc s).working = none)
    (hlock : ∀ l, lock l = some s ↔ pc.Holds NB_SEGMENTS s l)
    (hother : ∀ t, t ≠ s → ∀ l, lock l = some t ↔ st.privatization_lock l = some t)
    (hknows : pc.Knows NB_SEGMENTS O st.pages) :
    Inv NB_SEGMENTS O
      { pages := st.pages, privatization_lock := lock, pc := Function.update st.pc s pc,
        privatized := st.privatized } := by
  refine hinv.update hs Grows.refl (fun _ _ _ _ _ => ⟨rfl, fun _ => rfl, fun _ _ _ => rfl⟩) hlock
    hother (fun p => ?_) hknows hinv.flags hinv.privatized_nodup fun p hp => ?_
  · exact (hinv.others hidle p).imp_right fun h => h.imp_right Or.inr
  · refine (hinv.privatized p hp).imp_right ?_
    rintro ⟨t, ht, hwork⟩
    refine Or.inr ⟨t, ht, fun hts => ?_, hwork⟩
    rw [hts, hidle] at hwork
    cases hwork

/-- A step of the thread that privatizes a page. What the segments see of it
stays the same. -/
theorem Inv.work (hinv : Inv NB_SEGMENTS O st) (hs : s < NB_SEGMENTS) {pc : Pc}
    (hwork : (st.pc s).working = some p) (hsame : ∀ q ≠ p, Pages.SameAt st.pages pg q)
    (hgrows : st.pages.by_segment p ≠ 0 → pg.by_segment p ≠ 0)
    (hread : ∀ t < NB_SEGMENTS, ∀ addr, addr / 4096 = p →
      pg.read t addr = st.pages.read t addr)
    (hlock : ∀ l, pc.Holds NB_SEGMENTS s l ↔ l < NB_SEGMENTS)
    (hbefore : ∀ l, (st.pc s).Holds NB_SEGMENTS s l ↔ l < NB_SEGMENTS)
    (hpage : pc.working = some p ∨ Pages.Private NB_SEGMENTS pg p)
    (hknows : Grows NB_SEGMENTS st.pages pg → pc.Knows NB_SEGMENTS O pg) :
    Quiet NB_SEGMENTS O st
      { pages := pg, privatization_lock := st.privatization_lock,
        pc := Function.update st.pc s pc, privatized := st.privatized } := by
  have hpos : 0 < NB_SEGMENTS := Nat.zero_lt_of_lt hs
  have hpartial : ¬ Pages.Private NB_SEGMENTS st.pages p := by
    obtain ⟨bits, written, mapped, h⟩ := (hinv.knows s hs).part hwork
    exact h.not_private hpos
  have hprivate : ∀ q, Pages.Private NB_SEGMENTS st.pages q → Pages.Private NB_SEGMENTS pg q :=
    fun q hq => hq.congr (hsame q fun heq => hpartial (heq ▸ hq))
  -- nobody else is at work on a page
  have halone : ∀ t < NB_SEGMENTS, ∀ q, (st.pc t).working = some q → t = s := fun t ht q hq =>
    hinv.alone hs ht hpos ((hbefore 0).mpr hpos) hq
  have hviews : ∀ t < NB_SEGMENTS, ∀ addr, pg.read t addr = st.pages.read t addr := by
    intro t ht addr
    by_cases hp : addr / 4096 = p
    · exact hread t ht addr hp
    · exact (hsame _ hp).read
  have hworks : ∀ q, (∃ t < NB_SEGMENTS, (st.pc t).working = some q) → q = p := by
    rintro q ⟨t, ht, hq⟩
    rw [halone t ht q hq, hwork] at hq
    exact (Option.some.inj hq).symm
  have hmore : Grows NB_SEGMENTS st.pages pg := by
    refine ⟨fun q hq => ?_, hprivate⟩
    by_cases hqp : q = p
    · rw [hqp] at hq ⊢
      exact hgrows hq
    · rw [(hsame q hqp).by_segment]
      exact hq
  refine ⟨hinv.update hs hmore (fun t ht hne q hq => ?_) (fun l => ?_)
    (fun _ _ _ => Iff.rfl) (fun q => ?_) (hknows hmore) (fun t ht obj hobj hflag q hq => ?_)
    hinv.privatized_nodup fun q hq => ?_, hviews⟩
  · exact absurd (halone t ht q hq) hne
  · rw [hinv.holds s hs l, hbefore l, hlock l]
  · by_cases hqp : q = p
    · rw [hqp]
      exact hpage.elim (fun h => Or.inr (Or.inr (Or.inl h))) fun h => Or.inr (Or.inl h)
    · rcases hinv.pages q with hshared | hpriv | hq
      · exact Or.inl (hshared.congr (hsame q hqp))
      · exact Or.inr (Or.inl (hprivate q hpriv))
      · exact absurd (hworks q hq) hqp
  · rw [hviews t ht obj] at hflag
    exact hprivate q (hinv.flags t ht obj hobj hflag q hq)
  · by_cases hqp : q = p
    · rw [hqp]
      exact hpage.elim (fun h => Or.inr (Or.inl h)) fun h => Or.inl (h.not_shared hpos)
    · rcases hinv.privatized q hq with hne | hq
      · exact Or.inl (by rw [(hsame q hqp).by_segment]; exact hne)
      · exact absurd (hworks q hq) hqp

end Stmgc.C8.WriteSlowpath
