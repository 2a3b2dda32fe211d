/-
The privatization of pages is not seen by any thread.

Every step of `_stm_write_slowpath` before the flag is removed leaves all views
as they are ([`Quiet`]), and a store is seen by the segment that does it only
([`Isolated`]), because all pages of the object are private by then.
-/
import Stmgc.C8.WriteSlowpath

namespace Stmgc.C8.WriteSlowpath

open Stmgc.Lib

variable {NB_SEGMENTS : ℕ} {O : Objects} {st st' : St} {pg : Pages} {s obj page : ℕ}

theorem safe_asserting {p : Prop} [Decidable p] {r : Outcome St} {Q : St → Prop} (hp : p)
    (h : r.Safe Q) : (asserting p r).Safe Q := by
  unfold asserting
  rw [if_pos hp]
  exact h

/-! ## The locks -/

section

variable {lock : ℕ → Option ℕ} {i l t : ℕ}

theorem acquired_iff :
    Function.update lock i (some s) l = some s ↔ l = i ∨ lock l = some s := by
  rw [Function.update_apply]
  split_ifs with hl
  · exact ⟨fun _ => Or.inl hl, fun _ => rfl⟩
  · exact ⟨Or.inr, fun h => h.resolve_left hl⟩

theorem acquired_other (hfree : lock i = none) (hne : t ≠ s) :
    Function.update lock i (some s) l = some t ↔ lock l = some t := by
  rw [Function.update_apply]
  split_ifs with hl
  · rw [hl, hfree]
    exact ⟨fun h => absurd (Option.some.inj h).symm hne, nofun⟩
  · exact Iff.rfl

theorem released_iff : Function.update lock i none l = some s ↔ l ≠ i ∧ lock l = some s := by
  rw [Function.update_apply]
  split_ifs with hl
  · exact ⟨nofun, fun h => absurd hl h.1⟩
  · exact ⟨fun h => ⟨hl, h⟩, fun h => h.2⟩

theorem released_other (hheld : lock i = some s) (hne : t ≠ s) :
    Function.update lock i none l = some t ↔ lock l = some t := by
  rw [Function.update_apply]
  split_ifs with hl
  · rw [hl, hheld]
    exact ⟨nofun, fun h => absurd (Option.some.inj h).symm hne⟩
  · exact Iff.rfl

end

/-! ## The loop over the pages -/

theorem first_le_end (O : Objects) (obj : ℕ) : first_page obj ≤ end_page O obj :=
  Nat.div_le_div_right (by have := O.size_pos obj; omega)

/-- A page of the object more is not shared. -/
theorem Seen.succ (h : Seen pg obj page) (hne : pg.by_segment page ≠ 0) :
    Seen pg obj (page + 1) := by
  intro p hfirst hp
  rcases Nat.lt_succ_iff_lt_or_eq.mp hp with hlt | rfl
  · exact h p hfirst hlt
  · exact hne

theorem is_shared_iff {p : ℕ} : pg.is_shared_log_page p = true ↔ pg.by_segment p = 0 := by
  unfold Pages.is_shared_log_page
  exact beq_iff_eq

theorem Inv.next_page (hinv : Inv NB_SEGMENTS O st) (hs : s < NB_SEGMENTS)
    (hpc : st.pc s = .next_page obj page) :
    (continue_step NB_SEGMENTS O st s).Safe (Quiet NB_SEGMENTS O st) := by
  have hidle : (st.pc s).working = none := by rw [hpc]; rfl
  have hlock : ∀ l, st.privatization_lock l = some s ↔ False := fun l => by
    rw [hinv.holds s hs l, hpc]
    rfl
  obtain ⟨hobj, hseen⟩ : O.is_object obj = true ∧ Seen st.pages obj page := by
    have := hinv.knows s hs
    rwa [hpc] at this
  unfold continue_step
  rw [hpc]
  dsimp only
  split_ifs with hend hshared
  · refine ⟨hinv.move hs hidle (fun l => ?_) (fun _ _ _ => Iff.rfl)
      ⟨hobj, hseen, Nat.zero_lt_of_lt hs⟩, fun _ _ _ => rfl⟩
    rw [hlock l]
    exact ⟨False.elim, fun h => absurd h (Nat.not_lt_zero l)⟩
  · rw [is_shared_iff] at hshared
    exact ⟨hinv.move hs hidle hlock (fun _ _ _ => Iff.rfl) ⟨hobj, hseen.succ hshared⟩,
      fun _ _ _ => rfl⟩
  · refine ⟨hinv.move hs hidle hlock (fun _ _ _ => Iff.rfl) ⟨hobj, fun p hfirst hp => ?_⟩,
      fun _ _ _ => rfl⟩
    exact hseen p hfirst (by omega)

theorem Inv.acquire {i : ℕ} (hinv : Inv NB_SEGMENTS O st) (hs : s < NB_SEGMENTS)
    (hpc : st.pc s = .acquire obj page i) :
    (continue_step NB_SEGMENTS O st s).Safe (Quiet NB_SEGMENTS O st) := by
  have hidle : (st.pc s).working = none := by rw [hpc]; rfl
  have hlock : ∀ l, st.privatization_lock l = some s ↔ l < i := fun l => by
    rw [hinv.holds s hs l, hpc]
    rfl
  obtain ⟨hobj, hseen, hi⟩ :
      O.is_object obj = true ∧ Seen st.pages obj page ∧ i < NB_SEGMENTS := by
    have := hinv.knows s hs
    rwa [hpc] at this
  unfold continue_step
  rw [hpc]
  dsimp only
  apply Outcome.Safe.guarded
  intro hfree
  have hnow : ∀ l, Function.update st.privatization_lock i (some s) l = some s ↔ l < i + 1 := by
    intro l
    rw [acquired_iff, hlock l]
    omega
  refine ⟨hinv.move hs hidle (fun l => ?_) (fun t hne l => acquired_other hfree hne) ?_,
    fun _ _ _ => rfl⟩
  · refine (hnow l).trans ?_
    split_ifs with hnext
    · exact Iff.rfl
    · rw [show i + 1 = NB_SEGMENTS by omega]
      exact Iff.rfl
  · split_ifs with hnext
    · exact ⟨hobj, hseen, hnext⟩
    · exact ⟨hobj, hseen⟩

theorem Inv.release {i : ℕ} (hinv : Inv NB_SEGMENTS O st) (hs : s < NB_SEGMENTS)
    (hpc : st.pc s = .release obj page i) :
    (continue_step NB_SEGMENTS O st s).Safe (Quiet NB_SEGMENTS O st) := by
  have hidle : (st.pc s).working = none := by rw [hpc]; rfl
  have hlock : ∀ l, st.privatization_lock l = some s ↔ l ≤ i := fun l => by
    rw [hinv.holds s hs l, hpc]
    rfl
  obtain ⟨hobj, hseen, hi⟩ :
      O.is_object obj = true ∧ Seen st.pages obj (page + 1) ∧ i < NB_SEGMENTS := by
    have := hinv.knows s hs
    rwa [hpc] at this
  have hheld : st.privatization_lock i = some s := (hlock i).mpr (Nat.le_refl i)
  unfold continue_step
  rw [hpc]
  dsimp only
  apply safe_asserting
  · rw [hheld]
    exact nofun
  · refine ⟨hinv.move hs hidle (fun l => ?_) (fun t hne l => released_other hheld hne) ?_,
      fun _ _ _ => rfl⟩
    · refine released_iff.trans ?_
      rw [hlock l]
      split_ifs with hzero
      · exact ⟨fun h => absurd (Nat.le_zero.mp (hzero ▸ h.2)) (hzero ▸ h.1), False.elim⟩
      · show l ≠ i ∧ l ≤ i ↔ l ≤ i - 1
        omega
    · split_ifs with hzero
      · exact ⟨hobj, hseen⟩
      · exact ⟨hobj, hseen, by omega⟩

/-! ## `_privatize_shared_page` -/

section

variable {i : ℕ}

theorem privatize_from_working : (privatize_from NB_SEGMENTS obj page i).working = some page := by
  unfold privatize_from
  split_ifs
  · rfl
  · rfl

theorem privatize_from_holds {l : ℕ} :
    (privatize_from NB_SEGMENTS obj page i).Holds NB_SEGMENTS s l ↔ l < NB_SEGMENTS := by
  unfold privatize_from
  split_ifs
  · exact Iff.rfl
  · exact Iff.rfl

theorem privatize_from_knows (hobj : O.is_object obj = true) (hseen : Seen pg obj page)
    (hpos : 0 < i) (hi : i ≤ NB_SEGMENTS) (hpart : Pages.Partial NB_SEGMENTS pg page i i i) :
    (privatize_from NB_SEGMENTS obj page i).Knows NB_SEGMENTS O pg := by
  unfold privatize_from
  split_ifs with hlt
  · exact ⟨hobj, hseen, hpos, hlt, hpart⟩
  · obtain rfl : i = NB_SEGMENTS := by omega
    exact ⟨hobj, hseen, hpart⟩

end

/-- Who has all the locks finds that a page which is not private is shared. -/
theorem Inv.shared_of_zero (hinv : Inv NB_SEGMENTS O st) (hs : s < NB_SEGMENTS)
    (hidle : (st.pc s).working = none)
    (hholds : ∀ l < NB_SEGMENTS, (st.pc s).Holds NB_SEGMENTS s l) {p : ℕ}
    (hzero : st.pages.by_segment p = 0) : Pages.Shared NB_SEGMENTS st.pages p := by
  have hpos : 0 < NB_SEGMENTS := Nat.zero_lt_of_lt hs
  rcases hinv.pages p with hshared | hprivate | ⟨t, ht, hwork⟩
  · exact hshared
  · exact absurd hzero (hprivate.not_shared hpos)
  · rw [hinv.alone hs ht hpos (hholds 0 hpos) hwork, hidle] at hwork
    cases hwork

theorem Inv.recheck (hinv : Inv NB_SEGMENTS O st) (hs : s < NB_SEGMENTS)
    (hpc : st.pc s = .recheck obj page) :
    (continue_step NB_SEGMENTS O st s).Safe (Quiet NB_SEGMENTS O st) := by
  have hpos : 0 < NB_SEGMENTS := Nat.zero_lt_of_lt hs
  have hidle : (st.pc s).working = none := by rw [hpc]; rfl
  have hholds : ∀ l < NB_SEGMENTS, (st.pc s).Holds NB_SEGMENTS s l := fun l hl => by
    rw [hpc]
    exact hl
  have hlock : ∀ l, st.privatization_lock l = some s ↔ l < NB_SEGMENTS := fun l => by
    rw [hinv.holds s hs l, hpc]
    rfl
  obtain ⟨hobj, hseen⟩ : O.is_object obj = true ∧ Seen st.pages obj page := by
    have := hinv.knows s hs
    rwa [hpc] at this
  unfold continue_step
  rw [hpc]
  dsimp only
  split_ifs with hshared
  · rw [is_shared_iff] at hshared
    apply safe_asserting
    · intro l hl
      rw [(hlock l).mpr hl]
      exact nofun
    · have hpage := hinv.shared_of_zero hs hidle hholds hshared
      -- the page was not privatized before: it would not be shared
      have hnew : page ∉ st.privatized := by
        intro hmem
        rcases hinv.privatized page hmem with hne | ⟨t, ht, hwork⟩
        · exact hne hshared
        · rw [hinv.alone hs ht hpos (hholds 0 hpos) hwork, hidle] at hwork
          cases hwork
      refine ⟨hinv.update hs Grows.refl
        (fun _ _ _ _ _ => ⟨rfl, fun _ => rfl, fun _ _ _ => rfl⟩)
        (fun l => (hlock l).trans privatize_from_holds.symm) (fun _ _ _ => Iff.rfl)
        (fun p => (hinv.others hidle p).imp_right fun h => h.imp_right Or.inr)
        (privatize_from_knows hobj hseen Nat.one_pos hpos hpage.partial_one) hinv.flags
        (List.nodup_cons.mpr ⟨hnew, hinv.privatized_nodup⟩) fun p hp => ?_, fun _ _ _ => rfl⟩
      rcases List.mem_cons.mp hp with rfl | hp
      · exact Or.inr (Or.inl privatize_from_working)
      · refine (hinv.privatized p hp).imp_right ?_
        rintro ⟨t, ht, hwork⟩
        rw [hinv.alone hs ht hpos (hholds 0 hpos) hwork, hidle] at hwork
        cases hwork
  · rw [is_shared_iff] at hshared
    refine ⟨hinv.move hs hidle (fun l => ?_) (fun _ _ _ => Iff.rfl)
      ⟨hobj, hseen.succ hshared, by omega⟩, fun _ _ _ => rfl⟩
    rw [hlock l]
    show l < NB_SEGMENTS ↔ l ≤ NB_SEGMENTS - 1
    omega

theorem Inv.privatize {i : ℕ} {stage : Stage} (hinv : Inv NB_SEGMENTS O st)
    (hs : s < NB_SEGMENTS) (hpc : st.pc s = .privatize obj page i stage) :
    (continue_step NB_SEGMENTS O st s).Safe (Quiet NB_SEGMENTS O st) := by
  have hpos : 0 < NB_SEGMENTS := Nat.zero_lt_of_lt hs
  have hwork : (st.pc s).working = some page := by rw [hpc]; rfl
  have hbefore : ∀ l, (st.pc s).Holds NB_SEGMENTS s l ↔ l < NB_SEGMENTS := fun l => by
    rw [hpc]
    rfl
  have hknows := hinv.knows s hs
  rw [hpc] at hknows
  unfold continue_step
  rw [hpc]
  cases stage with
  | set_bit =>
      obtain ⟨hobj, hseen, hi, hlt, hpart⟩ := hknows
      have hnext := hpart.set_bit hi
      dsimp only
      apply safe_asserting
      · exact hpart.bits_lt i (Nat.le_refl i)
      · exact hinv.work hs hwork (fun q hq => Pages.sameAt_set hq) (fun _ => Pages.set_ne_zero)
          (fun _ _ _ _ => rfl) (fun _ => Iff.rfl) hbefore (Or.inl rfl)
          fun hgrows => ⟨hobj, hseen.mono hgrows, hi, hlt, hnext⟩
  | pwrite =>
      obtain ⟨hobj, hseen, hi, hlt, hpart⟩ := hknows
      have hnext := hpart.pwrite hi hpos
      refine hinv.work hs hwork (fun q hq => Pages.sameAt_pwrite hq) id (fun t ht addr ha => ?_)
        (fun _ => Iff.rfl) hbefore (Or.inl rfl)
        fun hgrows => ⟨hobj, hseen.mono hgrows, hi, hlt, hnext⟩
      -- the file page of segment 0 is not written
      exact hpart.views hnext (Pages.file_pwrite_of_ne (Nat.ne_of_lt hi)) ht ha
  | remap =>
      obtain ⟨hobj, hseen, hi, hlt, hpart⟩ := hknows
      have hnext := hpart.remap
      refine hinv.work hs hwork (fun q hq => Pages.sameAt_remap hq) id (fun t ht addr ha => ?_)
        (fun _ => privatize_from_holds) hbefore (Or.inl privatize_from_working)
        fun hgrows => privatize_from_knows hobj (hseen.mono hgrows) (Nat.succ_pos i) hlt hnext
      exact hpart.views hnext rfl ht ha

theorem Inv.set_private (hinv : Inv NB_SEGMENTS O st) (hs : s < NB_SEGMENTS)
    (hpc : st.pc s = .set_private obj page) :
    (continue_step NB_SEGMENTS O st s).Safe (Quiet NB_SEGMENTS O st) := by
  have hpos : 0 < NB_SEGMENTS := Nat.zero_lt_of_lt hs
  have hwork : (st.pc s).working = some page := by rw [hpc]; rfl
  have hbefore : ∀ l, (st.pc s).Holds NB_SEGMENTS s l ↔ l < NB_SEGMENTS := fun l => by
    rw [hpc]
    rfl
  obtain ⟨hobj, hseen, hpart⟩ : O.is_object obj = true ∧ Seen st.pages obj page ∧
      Pages.Partial NB_SEGMENTS st.pages page NB_SEGMENTS NB_SEGMENTS NB_SEGMENTS := by
    have := hinv.knows s hs
    rwa [hpc] at this
  have hprivate := hpart.finish
  unfold continue_step
  rw [hpc]
  dsimp only
  apply safe_asserting
  · rw [Bool.eq_false_iff]
    exact fun hbit => absurd ((hpart.is_private 0 hpos).mp hbit).1 (Nat.lt_irrefl 0)
  · apply safe_asserting
    · refine ⟨hprivate.is_private s hs, ?_⟩
      rw [Bool.eq_false_iff, ne_eq, is_shared_iff]
      exact hprivate.not_shared hpos
    · refine hinv.work hs hwork (fun q hq => Pages.sameAt_set hq) (fun _ => Pages.set_ne_zero)
        (fun _ _ _ _ => rfl) (fun l => ?_) hbefore (Or.inr hprivate) fun hgrows => ?_
      · show l ≤ NB_SEGMENTS - 1 ↔ l < NB_SEGMENTS
        omega
      · exact ⟨hobj, (hseen.mono hgrows).succ (hprivate.not_shared hpos), by omega⟩

/-! ## Removing the flag -/

/-- With the lock of a segment held no page is being privatized. -/
theorem Inv.private_of_free (hinv : Inv NB_SEGMENTS O st) (hs : s < NB_SEGMENTS)
    (hfree : st.privatization_lock s = none) {p : ℕ} (hne : st.pages.by_segment p ≠ 0) :
    Pages.Private NB_SEGMENTS st.pages p := by
  refine hinv.private_of_ne_zero hne fun t ht hwork => ?_
  have hheld := (hinv.holds t ht s).mpr (Pc.holds_of_working hwork hs)
  rw [hfree] at hheld
  cases hheld

theorem Inv.acquire_own (hinv : Inv NB_SEGMENTS O st) (hs : s < NB_SEGMENTS)
    (hpc : st.pc s = .acquire_own obj) :
    (continue_step NB_SEGMENTS O st s).Safe (Quiet NB_SEGMENTS O st) := by
  have hidle : (st.pc s).working = none := by rw [hpc]; rfl
  have hlock : ∀ l, st.privatization_lock l = some s ↔ False := fun l => by
    rw [hinv.holds s hs l, hpc]
    rfl
  obtain ⟨hobj, hseen⟩ : O.is_object obj = true ∧ Seen st.pages obj (end_page O obj + 1) := by
    have := hinv.knows s hs
    rwa [hpc] at this
  unfold continue_step
  rw [hpc]
  dsimp only
  apply Outcome.Safe.guarded
  intro hfree
  have hprivate : ∀ p, OnPage O obj p → Pages.Private NB_SEGMENTS st.pages p := fun p hp =>
    hinv.private_of_free hs hfree (hseen p hp.1 (Nat.lt_succ_of_le hp.2))
  apply safe_asserting
  · exact (hprivate _ ⟨Nat.le_refl _, first_le_end O obj⟩).is_private s hs
  · refine ⟨hinv.move hs hidle (fun l => ?_) (fun t hne l => acquired_other hfree hne)
      ⟨hobj, hprivate⟩, fun _ _ _ => rfl⟩
    refine acquired_iff.trans ?_
    rw [hlock l, or_false]
    exact Iff.rfl

theorem Inv.release_own (hinv : Inv NB_SEGMENTS O st) (hs : s < NB_SEGMENTS)
    (hpc : st.pc s = .release_own obj) :
    (continue_step NB_SEGMENTS O st s).Safe (Quiet NB_SEGMENTS O st) := by
  have hidle : (st.pc s).working = none := by rw [hpc]; rfl
  have hlock : ∀ l, st.privatization_lock l = some s ↔ l = s := fun l => by
    rw [hinv.holds s hs l, hpc]
    rfl
  have hheld : st.privatization_lock s = some s := (hlock s).mpr rfl
  unfold continue_step
  rw [hpc]
  dsimp only
  apply safe_asserting
  · rw [hheld]
    exact nofun
  · refine ⟨hinv.move hs hidle (fun l => ?_) (fun t hne l => released_other hheld hne) trivial,
      fun _ _ _ => rfl⟩
    refine released_iff.trans ?_
    rw [hlock l]
    exact ⟨fun h => h.1 h.2, False.elim⟩

/-- A byte of a page that is private is written. -/
theorem Inv.write_private (hinv : Inv NB_SEGMENTS O st) (hs : s < NB_SEGMENTS) {pc : Pc}
    {addr : ℕ} {byte : BitVec 8} (hidle : (st.pc s).working = none)
    (hprivate : Pages.Private NB_SEGMENTS st.pages (addr / 4096))
    (hlock : ∀ l, st.privatization_lock l = some s ↔ pc.Holds NB_SEGMENTS s l)
    (hknows : Grows NB_SEGMENTS st.pages (st.pages.write s addr byte) →
      pc.Knows NB_SEGMENTS O (st.pages.write s addr byte))
    (hflags : ∀ obj, O.is_object obj = true → addr = obj →
      ∀ p, OnPage O obj p → Pages.Private NB_SEGMENTS st.pages p) :
    Isolated NB_SEGMENTS O st s
      { pages := st.pages.write s addr byte, privatization_lock := st.privatization_lock,
        pc := Function.update st.pc s pc, privatized := st.privatized } := by
  have hmore : Grows NB_SEGMENTS st.pages (st.pages.write s addr byte) :=
    ⟨fun _ h => h, fun _ h => ⟨h.is_private, h.mapped_to⟩⟩
  have hothers : ∀ t < NB_SEGMENTS, t ≠ s → ∀ a,
      (st.pages.write s addr byte).read t a = st.pages.read t a :=
    fun t ht hne _ => hprivate.read_write hs ht hne
  refine ⟨hinv.update hs hmore (fun t ht _ p hwork => ?_) hlock (fun _ _ _ => Iff.rfl)
    (fun p => ?_) (hknows hmore) (fun t ht obj hobj hflag p hp => ?_) hinv.privatized_nodup
    fun p hp => ?_, hothers⟩
  · -- the page that another thread is at work on is not private
    refine Pages.sameAt_write fun heq => ?_
    obtain ⟨bits, written, mapped, hpart⟩ := (hinv.knows t ht).part hwork
    exact hpart.not_private (Nat.zero_lt_of_lt hs) (heq ▸ hprivate)
  · rcases hinv.others hidle p with hshared | hpriv | hwork
    · exact Or.inl ⟨hshared.by_segment, hshared.mapped_to⟩
    · exact Or.inr (Or.inl (hmore.is_private p hpriv))
    · exact Or.inr (Or.inr (Or.inr hwork))
  · apply hmore.is_private
    by_cases haddr : obj = addr
    · exact hflags obj hobj haddr.symm p hp
    · refine hinv.flags t ht obj hobj ?_ p hp
      by_cases hts : t = s
      · rw [hts, Pages.read_write_of_ne haddr] at hflag
        rw [hts]
        exact hflag
      · rw [hothers t ht hts] at hflag
        exact hflag
  · refine (hinv.privatized p hp).imp_right ?_
    rintro ⟨t, ht, hwork⟩
    refine Or.inr ⟨t, ht, fun hts => ?_, hwork⟩
    rw [hts, hidle] at hwork
    cases hwork

theorem Inv.clear_flag (hinv : Inv NB_SEGMENTS O st) (hs : s < NB_SEGMENTS)
    (hpc : st.pc s = .clear_flag obj) :
    (continue_step NB_SEGMENTS O st s).Safe (Isolated NB_SEGMENTS O st s) := by
  have hidle : (st.pc s).working = none := by rw [hpc]; rfl
  have hlock : ∀ l, st.privatization_lock l = some s ↔ l = s := fun l => by
    rw [hinv.holds s hs l, hpc]
    rfl
  obtain ⟨hobj, hprivate⟩ : O.is_object obj = true ∧
      ∀ p, OnPage O obj p → Pages.Private NB_SEGMENTS st.pages p := by
    have := hinv.knows s hs
    rwa [hpc] at this
  unfold continue_step
  rw [hpc]
  refine hinv.write_private hs hidle (hprivate _ ⟨Nat.le_refl _, first_le_end O obj⟩) hlock
    (fun _ => trivial) fun obj' _ heq p hp => ?_
  subst heq
  exact hprivate p hp

/-! ## All steps -/

theorem Inv.continue_step (hinv : Inv NB_SEGMENTS O st) (hs : s < NB_SEGMENTS) :
    (WriteSlowpath.continue_step NB_SEGMENTS O st s).Safe fun st' =>
      Isolated NB_SEGMENTS O st s st' ∧
        ((∀ obj, st.pc s ≠ .clear_flag obj) → Quiet NB_SEGMENTS O st st') := by
  have hquiet : ∀ {r : Outcome St}, r.Safe (Quiet NB_SEGMENTS O st) → r.Safe fun st' =>
      Isolated NB_SEGMENTS O st s st' ∧
        ((∀ obj, st.pc s ≠ .clear_flag obj) → Quiet NB_SEGMENTS O st st') :=
    fun h => h.mono fun st' hq => ⟨hq.isolated, fun _ => hq⟩
  cases hpc : st.pc s with
  | running =>
      unfold WriteSlowpath.continue_step
      rw [hpc]
      trivial
  | next_page obj page => exact hpc ▸ hquiet (hinv.next_page hs hpc)
  | acquire obj page i => exact hpc ▸ hquiet (hinv.acquire hs hpc)
  | recheck obj page => exact hpc ▸ hquiet (hinv.recheck hs hpc)
  | privatize obj page i stage => exact hpc ▸ hquiet (hinv.privatize hs hpc)
  | set_private obj page => exact hpc ▸ hquiet (hinv.set_private hs hpc)
  | release obj page i => exact hpc ▸ hquiet (hinv.release hs hpc)
  | acquire_own obj => exact hpc ▸ hquiet (hinv.acquire_own hs hpc)
  | clear_flag obj =>
      exact (hinv.clear_flag hs hpc).mono fun st' hiso => ⟨hiso, fun h => absurd rfl (h obj)⟩
  | release_own obj => exact hpc ▸ hquiet (hinv.release_own hs hpc)

theorem on_page {k : ℕ} (hk : k < O.stmcb_size_rounded_up obj) :
    OnPage O obj ((obj + k) / 4096) :=
  ⟨Nat.div_le_div_right (Nat.le_add_right obj k), Nat.div_le_div_right (by omega)⟩

/-- The program writes into an object whose flag is removed. -/
theorem Inv.program_write (hinv : Inv NB_SEGMENTS O st) (hs : s < NB_SEGMENTS)
    (hpc : st.pc s = .running) (hobj : O.is_object obj = true)
    (hflag : has_write_barrier (st.pages.read s obj) = false) {k : ℕ}
    (hk : k < O.stmcb_size_rounded_up obj) (byte : BitVec 8) :
    Isolated NB_SEGMENTS O st s
      { st with pages := st.pages.write s (obj + k) byte } := by
  have hprivate := hinv.flags s hs obj hobj hflag
  have hknows : (st.pc s).Knows NB_SEGMENTS O (st.pages.write s (obj + k) byte) := by
    rw [hpc]
    trivial
  have hwrite := hinv.write_private hs (by rw [hpc]; rfl) (hprivate _ (on_page hk))
    (hinv.holds s hs) (fun _ => hknows) fun obj' hobj' heq => ?_
  · rwa [Function.update_eq_self] at hwrite
  · by_cases hsame : obj = obj'
    · exact hsame ▸ hprivate
    · exact absurd heq (O.disjoint obj obj' hobj hobj' hsame k hk)

theorem Inv.step (hinv : Inv NB_SEGMENTS O st) (a : Act) :
    (WriteSlowpath.step NB_SEGMENTS O st a).Safe fun st' =>
      Isolated NB_SEGMENTS O st a.segment st' ∧
        (∀ s, a = .continue s → (∀ obj, st.pc s ≠ .clear_flag obj) →
          Quiet NB_SEGMENTS O st st') := by
  apply Outcome.Safe.guarded
  intro hs
  cases a with
  | write s obj =>
      replace hs : s < NB_SEGMENTS := hs
      dsimp only
      cases hpc : st.pc s with
      | running =>
          apply Outcome.Safe.guarded
          rintro ⟨hobj, -⟩
          have hlock : ∀ l, st.privatization_lock l = some s ↔ (st.pc s).Holds NB_SEGMENTS s l :=
            hinv.holds s hs
          rw [hpc] at hlock
          refine ⟨⟨hinv.move hs (by rw [hpc]; rfl) hlock (fun _ _ _ => Iff.rfl)
            ⟨hobj, fun p hfirst hp => ?_⟩, fun _ _ _ _ => rfl⟩, nofun⟩
          exact absurd hp (Nat.not_lt.mpr hfirst)
      | _ => trivial
  | store s obj k byte =>
      dsimp only
      cases hpc : st.pc s with
      | running =>
          apply Outcome.Safe.guarded
          rintro ⟨hobj, hflag, -, hk⟩
          exact ⟨hinv.program_write hs hpc hobj hflag hk byte, nofun⟩
      | _ => trivial
  | set_flag s obj =>
      dsimp only
      cases hpc : st.pc s with
      | running =>
          apply Outcome.Safe.guarded
          rintro ⟨hobj, hflag⟩
          exact ⟨hinv.program_write hs hpc hobj hflag (O.size_pos obj) _, nofun⟩
      | _ => trivial
  | «continue» s =>
      refine (hinv.continue_step hs).mono fun st' h => ⟨h.1, fun t ht => ?_⟩
      cases ht
      exact h.2

theorem Inv.initial (hinit : Initial NB_SEGMENTS O st) : Inv NB_SEGMENTS O st := by
  refine ⟨fun s _ l => ?_, fun p => Or.inl (hinit.shared p), fun s _ => ?_,
    fun s hs obj hobj hflag => ?_, ?_, ?_⟩
  · rw [hinit.privatization_lock, hinit.pc]
    exact ⟨nofun, False.elim⟩
  · rw [hinit.pc]
    trivial
  · rw [hinit.flags s hs obj hobj] at hflag
    cases hflag
  · rw [hinit.privatized]
    exact List.nodup_nil
  · rw [hinit.privatized]
    exact nofun

theorem Inv.reachable
    (h : Reachable (Initial NB_SEGMENTS O) (WriteSlowpath.step NB_SEGMENTS O) st) :
    Inv NB_SEGMENTS O st :=
  h.invariant (fun _ => Inv.initial) fun _ a _ hinv _ hs => ((hinv.step a).of_next hs).1.inv

/-- In every run of any number of segments, whatever the objects and however
the threads take turns: no assertion fails; a step of a thread in
`_stm_write_slowpath`, other than the one that removes the flag, changes what
no segment sees; when the flag is removed every page of the object is private
in all segments; no step changes what the other segments see; and
`_privatize_shared_page` is called at most once for a page. -/
theorem page_privatization_invisible
    (h : Reachable (Initial NB_SEGMENTS O) (step NB_SEGMENTS O) st) :
    st.privatized.Nodup ∧
    (∀ s < NB_SEGMENTS, ∀ obj, st.pc s = .clear_flag obj → ∀ p, OnPage O obj p →
      ∀ t < NB_SEGMENTS, st.pages.is_private_log_page_in t p = true) ∧
    ∀ a, step NB_SEGMENTS O st a ≠ .fault ∧
      ∀ st', step NB_SEGMENTS O st a = .next st' →
        (∀ t < NB_SEGMENTS, t ≠ a.segment → ∀ addr,
          st'.pages.read t addr = st.pages.read t addr) ∧
        ∀ s, a = .continue s → (∀ obj, st.pc s ≠ .clear_flag obj) →
          ∀ t < NB_SEGMENTS, ∀ addr, st'.pages.read t addr = st.pages.read t addr := by
  have hinv := Inv.reachable h
  refine ⟨hinv.privatized_nodup, fun s hs obj hpc p hp t ht => ?_, fun a => ⟨?_, fun st' hs => ?_⟩⟩
  · have hknows := hinv.knows s hs
    rw [hpc] at hknows
    exact (hknows.2 p hp).is_private t ht
  · exact (hinv.step a).ne_fault
  · obtain ⟨hisolated, hquiet⟩ := (hinv.step a).of_next hs
    exact ⟨hisolated.others, fun s ha hpc => (hquiet s ha hpc).views⟩

/-- An object with a byte on each of two pages. -/
def straddling : Objects where
  is_object obj := obj == 8191
  stmcb_size_rounded_up _ := 2
  size_pos _ := Nat.two_pos
  disjoint obj obj' h h' hne := absurd ((beq_iff_eq.mp h).trans (beq_iff_eq.mp h').symm) hne

def all_shared : St where
  pages := ⟨fun _ => 0, fun _ _ => 0, fun _ _ => GCFLAG_WRITE_BARRIER⟩
  privatization_lock _ := none
  pc _ := .running
  privatized := []

theorem page_privatization_invisible_two : ∃ st : St, st.pc 1 = .clear_flag 8191 ∧
    st.privatized.Nodup ∧ ∀ t < 2, st.pages.is_private_log_page_in t 2 = true := by
  obtain ⟨st, hrun, htest⟩ := Outcome.of_test (r := run (step 2 straddling) (fun _ _ => True)
    all_shared (.write 1 8191 :: List.replicate 22 (.continue 1)))
    (p := fun st => match st.pc 1 with | .clear_flag obj => obj == 8191 | _ => false)
    (by decide +kernel)
  have hflag : has_write_barrier GCFLAG_WRITE_BARRIER = true := by decide
  have hreach : Reachable (Initial 2 straddling) (step 2 straddling) st :=
    (ReachableIf.start ⟨fun p => ⟨rfl, fun _ _ => rfl⟩, fun _ => rfl, fun _ => rfl, rfl,
      fun _ _ _ _ => hflag⟩).run _ hrun
  obtain ⟨hnodup, hprivate, -⟩ := page_privatization_invisible hreach
  cases hpc : st.pc 1 with
  | clear_flag obj =>
      rw [hpc] at htest
      obtain rfl : obj = 8191 := beq_iff_eq.mp htest
      exact ⟨st, hpc, hnodup, hprivate 1 (by decide) 8191 hpc 2 ⟨by decide, by decide⟩⟩
  | _ =>
      rw [hpc] at htest
      cases htest

end Stmgc.C8.WriteSlowpath
