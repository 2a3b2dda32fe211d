/-
A major collection moves the newest revision of an object over the original,
and the invariant of the commit protocol is kept: the keys and the private
objects follow, and no object is locked while the collector runs.
-/
import Stmgc.C4.CommitSteps

open Stmgc.Lib

namespace Stmgc.C4

variable {n : ℕ} {Content : Type} {s s' : State n Content} {t : Fin n}

/-! ## The heap -/

section Heap

variable {heap : Heap n Content} {obj id_copy p : gcptr} {x y y' : object n Content}

/-- The flags that a thread relies on are those of before. -/
structure SameFlags (y y' : object n Content) : Prop where
  PUBLIC : y'.GCFLAG_PUBLIC = y.GCFLAG_PUBLIC
  BACKUP_COPY : y'.GCFLAG_BACKUP_COPY = y.GCFLAG_BACKUP_COPY
  PRIVATE_FROM_PROTECTED : y'.GCFLAG_PRIVATE_FROM_PROTECTED = y.GCFLAG_PRIVATE_FROM_PROTECTED
  OLD : y'.GCFLAG_OLD = y.GCFLAG_OLD
  thread : y'.thread = y.thread

/-- An object that is not public stays well-formed. -/
theorem Shape.moved (h : Shape y) (hflags : SameFlags y y') (hpub : y.GCFLAG_PUBLIC = false)
    (hrev : y'.h_revision =
      if y.GCFLAG_PRIVATE_FROM_PROTECTED = true ∧ y.h_revision = .pointer obj then .pointer id_copy
      else y.h_revision) : Shape y' := by
  by_cases hpfp : y.GCFLAG_PRIVATE_FROM_PROTECTED = true ∧ y.h_revision = .pointer obj
  · rw [if_pos hpfp] at hrev
    refine ⟨fun _ => ⟨hflags.PUBLIC.trans hpub, hflags.BACKUP_COPY.trans (h.pfp hpfp.1).2⟩,
      fun _ => hflags.PUBLIC.trans hpub, fun _ hnot => ?_, fun u hu => ?_, fun q hq => ?_⟩
    · rw [hflags.PRIVATE_FROM_PROTECTED, hpfp.1] at hnot
      exact absurd hnot (by simp)
    · exact absurd hu (by simp [hrev])
    · exact absurd hq (by simp [hrev])
  · rw [if_neg hpfp] at hrev
    obtain ⟨h1, h2, h3, h4, h5⟩ := h
    constructor
    · rwa [hflags.PRIVATE_FROM_PROTECTED, hflags.PUBLIC, hflags.BACKUP_COPY]
    · rwa [hflags.PUBLIC, hflags.BACKUP_COPY]
    · rwa [hflags.PUBLIC, hflags.PRIVATE_FROM_PROTECTED, hrev]
    · rwa [hflags.PUBLIC, hrev]
    · rwa [hflags.PUBLIC, hrev]

/-- Every object keeps its flags. Those that are not public keep the revision too,
but for the address of a backup copy that was stolen and moved. -/
theorem moved_heap_some (hx : heap obj = some x) (hxpub : x.GCFLAG_PUBLIC = true)
    (hpub : ∀ z, heap id_copy = some z → z.GCFLAG_PUBLIC = true) (hy : heap p = some y) :
    ∃ y', moved_heap heap obj id_copy x p = some y' ∧ SameFlags y y'
      ∧ (y.GCFLAG_PUBLIC = false → y'.h_revision =
        if y.GCFLAG_PRIVATE_FROM_PROTECTED = true ∧ y.h_revision = .pointer obj then .pointer id_copy
        else y.h_revision) := by
  rw [moved_heap]
  by_cases hobj : p = obj
  · subst hobj
    rw [hx, Option.some.injEq] at hy
    subst hy
    rw [if_pos rfl]
    exact ⟨_, rfl, ⟨rfl, rfl, rfl, rfl, rfl⟩, fun hnot => absurd hxpub (by simp [hnot])⟩
  · rw [if_neg hobj, hy, Option.map_some]
    by_cases hid : p = id_copy
    · rw [if_pos hid]
      subst hid
      exact ⟨_, rfl, ⟨rfl, rfl, rfl, rfl, rfl⟩, fun hnot => absurd (hpub y hy) (by simp [hnot])⟩
    · rw [if_neg hid]
      by_cases hpfp : y.GCFLAG_PRIVATE_FROM_PROTECTED = true ∧ y.h_revision = .pointer obj
      · rw [if_pos hpfp]
        exact ⟨_, rfl, ⟨rfl, rfl, rfl, rfl, rfl⟩, fun _ => (if_pos hpfp).symm⟩
      · rw [if_neg hpfp]
        exact ⟨_, rfl, ⟨rfl, rfl, rfl, rfl, rfl⟩, fun _ => (if_neg hpfp).symm⟩

theorem moved_heap_eq_none (hx : heap obj = some x) :
    moved_heap heap obj id_copy x p = none ↔ heap p = none := by
  rw [moved_heap]
  by_cases hobj : p = obj
  · subst hobj
    simp [hx]
  · simp [hobj]

/-- What the revision of an object may be after the move. -/
theorem moved_heap_revision (hy' : moved_heap heap obj id_copy x p = some y') :
    (∃ q, y'.h_revision = .pointer q) ∨ y'.h_revision = x.h_revision
      ∨ ∃ y, heap p = some y ∧ y'.h_revision = y.h_revision := by
  rw [moved_heap] at hy'
  by_cases hobj : p = obj
  · rw [if_pos hobj, Option.some.injEq] at hy'
    subst hy'
    exact Or.inl ⟨_, rfl⟩
  · rw [if_neg hobj, Option.map_eq_some_iff] at hy'
    obtain ⟨y, hy, rfl⟩ := hy'
    by_cases hid : p = id_copy
    · rw [if_pos hid]
      exact Or.inr (Or.inl rfl)
    · rw [if_neg hid]
      by_cases hpfp : y.GCFLAG_PRIVATE_FROM_PROTECTED = true ∧ y.h_revision = .pointer obj
      · rw [if_pos hpfp]
        exact Or.inl ⟨_, rfl⟩
      · rw [if_neg hpfp]
        exact Or.inr (Or.inr ⟨y, hy, rfl⟩)

end Heap

/-! ## The keys -/

/-- The items after the key `obj` became `id_copy`. -/
theorem rekey_spec {obj id_copy : gcptr} {d d' : tx_descriptor n}
    (h : rekey obj id_copy d = some d') :
    d' = { d with public_to_private := d'.public_to_private }
      ∧ ∀ x, x ∈ d'.items ↔ (x ∈ d.items ∧ x.1 ≠ obj)
        ∨ (x.1 = id_copy ∧ (obj, x.2) ∈ d.items) := by
  rw [rekey] at h
  cases hfind : d.public_to_private.g2l_find obj with
  | none =>
      rw [hfind] at h
      dsimp only at h
      rw [Option.some.injEq] at h
      subst h
      refine ⟨rfl, fun x => ?_⟩
      have hnot : ∀ v, (obj, v) ∉ d.items := fun v hv =>
        G2L.g2l_find_eq_none.mp hfind (G2L.mem_keys.mpr ⟨v, hv⟩)
      constructor
      · intro hx
        refine Or.inl ⟨hx, ?_⟩
        rintro rfl
        exact hnot x.2 hx
      · rintro (⟨hx, -⟩ | ⟨-, hx⟩)
        · exact hx
        · exact absurd hx (hnot _)
  | some L =>
      rw [hfind] at h
      dsimp only at h
      obtain ⟨g, hg, rfl⟩ := Option.map_eq_some_iff.mp h
      refine ⟨rfl, fun x => ?_⟩
      have hmem : (obj, L) ∈ d.items := G2L.g2l_find_eq_some.mp hfind
      show x ∈ g.loop_forward ↔ _
      rw [(G2L.g2l_insert_spec hg).1, G2L.mem_g2l_delete_item, or_comm]
      refine or_congr_right ⟨?_, ?_⟩
      · rintro rfl
        exact ⟨rfl, hmem⟩
      · rintro ⟨hfst, hx⟩
        exact Prod.ext hfst (G2L.eq_of_mem hx hmem)

/-! ## The step -/

/-- While no thread holds its `collection_lock`, no object is locked. -/
theorem Inv.not_locked (h : Inv s) (hfree : ∀ d, (s.threads d).pc.has_collection_lock = false)
    {R : gcptr} {r : object n Content} (hr : s.heap R = some r) : r.h_revision ≠ .locked t := by
  intro hlock
  obtain ⟨v, hv⟩ := G2L.mem_keys.mp ((h.thread t).own R r hr hlock)
  obtain ⟨r₁, l, hr₁, -, hnot, -⟩ := (h.thread t).unlocked (hfree t) _ hv
  rw [hr, Option.some.injEq] at hr₁
  exact hnot (hr₁ ▸ hlock)

/-- One thread after the move. -/
theorem ThreadInv.copy_over_original {obj id_copy : gcptr} {x y : object n Content}
    {d' : tx_descriptor n} (h : Inv s) (hfree : ∀ d, (s.threads d).pc.has_collection_lock = false)
    (hstolen : (s.threads t).stolen_objects = [])
    (hx : s.heap obj = some x) (hxpub : x.GCFLAG_PUBLIC = true)
    (hy : s.heap id_copy = some y) (hypub : y.GCFLAG_PUBLIC = true) (hyold : y.GCFLAG_OLD = true)
    (hd' : rekey obj id_copy (s.threads t) = some d') :
    ThreadInv (moved_heap s.heap obj id_copy x) t d' := by
  obtain ⟨hd'eq, hmem⟩ := rekey_spec hd'
  have hd := h.thread t
  have hun := hd.unlocked (hfree t)
  have hsome : ∀ {p z}, s.heap p = some z → ∃ z', moved_heap s.heap obj id_copy x p = some z'
      ∧ SameFlags z z' ∧ (z.GCFLAG_PUBLIC = false → z'.h_revision =
        if z.GCFLAG_PRIVATE_FROM_PROTECTED = true ∧ z.h_revision = .pointer obj then .pointer id_copy
        else z.h_revision) := fun hz =>
    moved_heap_some hx hxpub (fun z hz => by rw [hy, Option.some.injEq] at hz; exact hz ▸ hypub) hz
  have hpfpd : d'.private_from_protected = (s.threads t).private_from_protected := by rw [hd'eq]
  have hprv : d'.stm_private_rev_num = (s.threads t).stm_private_rev_num := by rw [hd'eq]
  have hpcd : d'.pc = (s.threads t).pc := by rw [hd'eq]
  have hstolend : d'.stolen_objects = [] := by rw [hd'eq]; exact hstolen
  -- the values are those of before
  have hval : ∀ P, (∀ R, (R, P) ∉ d'.items) → ∀ R, (R, P) ∉ (s.threads t).items := by
    intro P hP R hR
    by_cases hRobj : R = obj
    · exact hP id_copy ((hmem _).mpr (Or.inr ⟨rfl, hRobj ▸ hR⟩))
    · exact hP R ((hmem _).mpr (Or.inl ⟨hR, hRobj⟩))
  have hitem : ∀ z ∈ d'.items, ∃ R l l', (R, z.2) ∈ (s.threads t).items ∧ s.heap z.2 = some l
      ∧ moved_heap s.heap obj id_copy x z.2 = some l' ∧ SameFlags l l' ∧ l.GCFLAG_PUBLIC = false
      ∧ l.GCFLAG_BACKUP_COPY = false ∧ l.thread = t
      ∧ l'.h_revision = (s.threads t).expected z.1 l := by
    intro z hz
    have hkey : ∃ R, (R, z.2) ∈ (s.threads t).items
        ∧ (if R = obj then id_copy else R) = z.1 := by
      rcases (hmem z).mp hz with ⟨hz, hne⟩ | ⟨hfst, hz⟩
      · exact ⟨z.1, hz, if_neg hne⟩
      · exact ⟨obj, hz, by rw [if_pos rfl, hfst]⟩
    obtain ⟨R, hR, hRz⟩ := hkey
    obtain ⟨r, l, -, hl, -, -, hnpub, hback, hthread⟩ := hd.item _ hR
    obtain ⟨r₁, l₁, -, hl₁, -, hrev⟩ := hun _ hR
    rw [hl, Option.some.injEq] at hl₁
    subst hl₁
    obtain ⟨l', hl', hflags, hrev'⟩ := hsome hl
    refine ⟨R, l, l', hR, hl, hl', hflags, hnpub, hback, hthread, ?_⟩
    rw [hrev' hnpub]
    rw [tx_descriptor.expected] at hrev ⊢
    by_cases hpfp : l.GCFLAG_PRIVATE_FROM_PROTECTED = true
    · rw [if_pos hpfp] at hrev ⊢
      rw [hrev, ← hRz]
      by_cases hRobj : R = obj
      · rw [if_pos ⟨hpfp, congrArg revision_t.pointer hRobj⟩, if_pos hRobj]
      · rw [if_neg fun hnot => hRobj (revision_t.pointer.inj hnot.2), if_neg hRobj]
    · rw [if_neg hpfp] at hrev ⊢
      rw [if_neg fun hnot => hpfp hnot.1, hrev]
  -- what is not a value has a backup copy, which does not move
  have hbackup : ∀ P ∈ (s.threads t).private_from_protected, (∀ R, (R, P) ∉ d'.items) →
      ∃ p p' B b, s.heap P = some p ∧ moved_heap s.heap obj id_copy x P = some p'
        ∧ p.h_revision = .pointer B ∧ p'.h_revision = .pointer B ∧ s.heap B = some b
        ∧ b.GCFLAG_OLD = true ∧ b.GCFLAG_BACKUP_COPY = true ∧ b.thread = t := by
    intro P hP hPval
    obtain ⟨p, B, b, hp, hrev, hb, hold, hcase⟩ := hd.backup P hP (hval P hPval)
    obtain ⟨p₁, hp₁, hflag, -⟩ := (hd.pfp P).mp hP
    rw [hp, Option.some.injEq] at hp₁
    subst hp₁
    obtain ⟨p', hp', -, hrev'⟩ := hsome hp
    rcases hcase with ⟨hback, hthread⟩ | hnot
    · have hne : B ≠ obj := by
        rintro rfl
        rw [hx, Option.some.injEq] at hb
        exact absurd ((h.shape _ x hx).backup (hb ▸ hback)) (by simp [hxpub])
      refine ⟨p, p', B, b, hp, hp', hrev, ?_, hb, hold, hback, hthread⟩
      rw [hrev' ((h.shape P p hp).pfp hflag).1, if_neg, hrev]
      rintro ⟨-, hobj⟩
      rw [hrev] at hobj
      exact hne (revision_t.pointer.inj hobj)
    · exact absurd hnot (by simp [hstolen])
  have hnolock : ∀ R r, moved_heap s.heap obj id_copy x R = some r → r.h_revision ≠ .locked t := by
    intro R r hr hlock
    rcases moved_heap_revision hr with ⟨q, hq⟩ | hrev | ⟨r₀, hr₀, hrev⟩
    · rw [hq] at hlock
      exact absurd hlock (by simp)
    · exact h.not_locked hfree hx (hrev ▸ hlock)
    · exact h.not_locked hfree hr₀ (hrev ▸ hlock)
  have hpublic : ∀ z ∈ d'.items, ∃ r, moved_heap s.heap obj id_copy x z.1 = some r
      ∧ r.GCFLAG_PUBLIC = true ∧ r.GCFLAG_OLD = true := by
    intro z hz
    rcases (hmem z).mp hz with ⟨hz, hne⟩ | ⟨hfst, -⟩
    · obtain ⟨r, -, hr, -, hpub, hold, -⟩ := hd.item z hz
      obtain ⟨r', hr', hflags, -⟩ := hsome hr
      exact ⟨r', hr', hflags.PUBLIC.trans hpub, hflags.OLD.trans hold⟩
    · obtain ⟨r', hr', hflags, -⟩ := hsome hy
      exact ⟨r', by rw [hfst, hr'], hflags.PUBLIC.trans hypub, hflags.OLD.trans hyold⟩
  have hunlocked : ∀ z ∈ d'.items, Unlocked (moved_heap s.heap obj id_copy x) t d' z := by
    intro z hz
    obtain ⟨r, hr, -⟩ := hpublic z hz
    obtain ⟨R, l, l', -, -, hl', hflags, -, -, -, hrev⟩ := hitem z hz
    refine ⟨r, l', hr, hl', hnolock _ r hr, ?_⟩
    rw [hrev, tx_descriptor.expected, tx_descriptor.expected, hflags.PRIVATE_FROM_PROTECTED, hprv]
  refine ⟨?_, ?_, hpfpd ▸ hd.pfp_nodup, fun P => ?_, ?_, ?_, by simp [hstolend], by simp [hstolend],
    fun _ => hstolend, ?_, ?_⟩
  · intro z hz
    obtain ⟨r, hr, hpub, hold⟩ := hpublic z hz
    obtain ⟨R, l, l', -, -, hl', hflags, hnpub, hback, hthread, -⟩ := hitem z hz
    exact ⟨r, l', hr, hl', hpub, hold, hflags.PUBLIC.trans hnpub, hflags.BACKUP_COPY.trans hback,
      hflags.thread.trans hthread⟩
  · intro z hz w hw hzw
    -- two items with one value come from one item
    rcases (hmem z).mp hz with ⟨hz, hne⟩ | ⟨hfst, hz⟩
    · rcases (hmem w).mp hw with ⟨hw, -⟩ | ⟨-, hw⟩
      · exact hd.val_inj z hz w hw hzw
      · exact absurd (congrArg Prod.fst (hd.val_inj z hz _ hw hzw)) hne
    · rcases (hmem w).mp hw with ⟨hw, hne⟩ | ⟨hfst', -⟩
      · exact absurd (congrArg Prod.fst (hd.val_inj w hw _ hz hzw.symm)) hne
      · exact Prod.ext (hfst.trans hfst'.symm) hzw
  · rw [hpfpd, hd.pfp]
    constructor
    · rintro ⟨p, hp, hflag, hthread⟩
      obtain ⟨p', hp', hflags, -⟩ := hsome hp
      exact ⟨p', hp', hflags.PRIVATE_FROM_PROTECTED.trans hflag, hflags.thread.trans hthread⟩
    · rintro ⟨p', hp', hflag, hthread⟩
      cases hp : s.heap P with
      | none =>
          rw [(moved_heap_eq_none hx).mpr hp] at hp'
          exact absurd hp' (by simp)
      | some p =>
          obtain ⟨p₁, hp₁, hflags, -⟩ := hsome hp
          rw [hp', Option.some.injEq] at hp₁
          subst hp₁
          exact ⟨p, rfl, hflags.PRIVATE_FROM_PROTECTED.symm.trans hflag, hflags.thread.symm.trans hthread⟩
  · intro P hP hPval
    obtain ⟨p, p', B, b, -, hp', -, hrev', hb, hold, hback, hthread⟩ :=
      hbackup P (hpfpd ▸ hP) hPval
    obtain ⟨b', hb', hflags, -⟩ := hsome hb
    exact ⟨p', B, b', hp', hrev', hb', hflags.OLD.trans hold,
      Or.inl ⟨hflags.BACKUP_COPY.trans hback, hflags.thread.trans hthread⟩⟩
  · intro P p₁ Q q₁ B hP hQ hPval hQval hp₁ hq₁ hrevp hrevq
    obtain ⟨p, p', B₁, b₁, hp, hp', hrev, hrev', -⟩ := hbackup P (hpfpd ▸ hP) hPval
    obtain ⟨q, q', B₂, b₂, hq, hq', hrev₂, hrev₂', -⟩ := hbackup Q (hpfpd ▸ hQ) hQval
    rw [hp', Option.some.injEq] at hp₁
    rw [hq', Option.some.injEq] at hq₁
    subst hp₁ hq₁
    rw [hrev', revision_t.pointer.injEq] at hrevp
    rw [hrev₂', revision_t.pointer.injEq] at hrevq
    subst hrevp hrevq
    exact hd.backup_inj P p Q q _ (hpfpd ▸ hP) (hpfpd ▸ hQ) (hval P hPval) (hval Q hQval) hp hq
      hrev hrev₂
  · intro R r hr hlock
    exact absurd hlock (hnolock R r hr)
  · rw [hpcd]
    have hfree' := hfree t
    cases hpc : (s.threads t).pc with
    | running => exact hunlocked
    | waiting => exact hunlocked
    | _ => simp [hpc, Pc.has_collection_lock] at hfree'

theorem Inv.copy_over_original {obj id_copy : gcptr} (h : Inv s)
    (hs : step s (.copy_over_original obj id_copy) = .next s') : Inv s' := by
  rw [step] at hs
  cases hx : s.heap obj with
  | none =>
      rw [hx] at hs
      simp at hs
  | some x =>
      cases hy : s.heap id_copy with
      | none =>
          rw [hx, hy] at hs
          simp at hs
      | some y =>
          rw [hx, hy] at hs
          obtain ⟨⟨hall, hne, hxpub, -, hxrev, hypub, hyold, -⟩, hs⟩ := guarded_eq_next.mp hs
          by_cases hkeys : ∀ d, (rekey obj id_copy (s.threads d)).isSome = true
          · rw [if_pos hkeys, Outcome.next.injEq] at hs
            have hfree : ∀ d, (s.threads d).pc.has_collection_lock = false := fun d => (hall d).1
            have hrekey : ∀ d, rekey obj id_copy (s.threads d)
                = some ((rekey obj id_copy (s.threads d)).getD (s.threads d)) := by
              intro d
              obtain ⟨d', hd'⟩ := Option.isSome_iff_exists.mp (hkeys d)
              rw [hd', Option.getD_some]
            have hidpub : ∀ z, s.heap id_copy = some z → z.GCFLAG_PUBLIC = true := by
              intro z hz
              rw [hy, Option.some.injEq] at hz
              exact hz ▸ hypub
            have hsome : ∀ {p z}, s.heap p = some z →
                ∃ z', moved_heap s.heap obj id_copy x p = some z' ∧ SameFlags z z' := by
              intro p z hz
              obtain ⟨z', hz', hflags, -⟩ := moved_heap_some hx hxpub hidpub hz
              exact ⟨z', hz', hflags⟩
            rw [← hs]
            refine h.of_parts (fun p z' hz' => Or.inr ?_) ?_ (fun S z' L hz' hrev => Or.inl ?_)
              (fun u => ThreadInv.copy_over_original h hfree (hall u).2 hx hxpub hy hypub hyold
                (hrekey u))
            · -- every object has the flags of one that was there
              change moved_heap s.heap obj id_copy x p = some z' at hz'
              cases hp : s.heap p with
              | none =>
                  rw [(moved_heap_eq_none hx).mpr hp] at hz'
                  exact absurd hz' (by simp)
              | some z =>
                  obtain ⟨z₁, hz₁, hflags, hrev⟩ := moved_heap_some hx hxpub hidpub hp
                  rw [hz', Option.some.injEq] at hz₁
                  subst hz₁
                  have hshape := h.shape p z hp
                  by_cases hpub : z.GCFLAG_PUBLIC = true
                  · exact .of_public (hflags.PUBLIC.trans hpub)
                      (hflags.PRIVATE_FROM_PROTECTED.trans (hshape.pfp_eq_false hpub))
                      (hflags.BACKUP_COPY.trans (hshape.backup_eq_false hpub))
                  · exact hshape.moved hflags (by simpa using hpub) (hrev (by simpa using hpub))
            · rintro _ x₀ L - - ⟨l, hl, hthread, hback, hcase⟩
              obtain ⟨l', hl', hflags⟩ := hsome hl
              obtain ⟨hd'eq, hmem⟩ := rekey_spec (hrekey x₀.thread)
              refine ⟨l', hl', hflags.thread.trans hthread, hflags.BACKUP_COPY.trans hback, ?_⟩
              rw [Pc.past_locks_eq_false (hfree _)] at hcase
              rw [hflags.PUBLIC, hflags.PRIVATE_FROM_PROTECTED]
              rcases hcase with hcase | hcase | hcase | hcase
              · exact absurd hcase (by simp)
              · exact Or.inr (Or.inl hcase)
              · exact Or.inr (Or.inr (Or.inl hcase))
              · refine Or.inr (Or.inr (Or.inr fun R hR => ?_))
                rcases (hmem _).mp hR with ⟨hR, -⟩ | ⟨-, hR⟩
                · exact hcase R hR
                · exact hcase obj hR
            · change moved_heap s.heap obj id_copy x S = some z' at hz'
              rcases moved_heap_revision hz' with ⟨q, hq⟩ | hx' | ⟨z, hz, hzrev⟩
              · exact absurd hrev (by simp [hq])
              · rw [← hx', hrev] at hxrev
                exact absurd hxrev (by simp [IS_POINTER])
              · obtain ⟨z₁, hz₁, hflags⟩ := hsome hz
                rw [hz', Option.some.injEq] at hz₁
                subst hz₁
                exact ⟨z, hz, hzrev ▸ hrev, hflags.thread.symm⟩
          · rw [if_neg hkeys] at hs
            simp at hs

end Stmgc.C4
