/-
The steps of the machine of `HashId` keep the invariant, and the answers that
were given stay right.
-/
import Stmgc.C7.HashIdInv

namespace Stmgc.C7.HashId

open Stmgc.Lib

section Steps

variable {NB_SEGMENTS i o n obj nobj : ℕ} {s t : St} {ids hashes : List (ℕ × Long)}

/-! ## Shadows -/

/-- There is no shadow without the flag. -/
theorem Inv.no_shadow (h : Inv NB_SEGMENTS s) (ho : s.place o = some (.nursery i obj))
    (hflag : has_shadow ((s.segs i).nursery obj) = false) : ¬ is_shadow s i obj n := by
  intro hn
  rw [((h.nursery o i obj ho).target n hn).1] at hflag
  cases hflag

theorem Inv.set_shadow (h : Inv NB_SEGMENTS s) {c : ℕ}
    (ho : s.place o = some (.nursery i obj))
    (hflag : has_shadow ((s.segs i).nursery obj) = false) (hc : (n, c) ∈ s.chunks)
    (hle : (s.segs i).size obj ≤ c) (hfree : ∀ o, s.place o ≠ some (.outside n))
    (hshadow : ∀ j a, ¬ is_shadow s j a n)
    (hyoung : ∀ j, n ∉ (s.segs j).young_outside_nursery) :
    Inv NB_SEGMENTS (s.set i { s.segs i with
      nursery := Function.update (s.segs i).nursery obj
        ((s.segs i).nursery obj ||| GCFLAG_HAS_SHADOW)
      nursery_objects_shadows := (obj, n) :: (s.segs i).nursery_objects_shadows }) := by
  have hobj := h.nursery o i obj ho
  have hnone : ∀ n', ¬ is_shadow s i obj n' := fun n' => h.no_shadow ho hflag
  generalize hseg : ({ s.segs i with
      nursery := Function.update (s.segs i).nursery obj
        ((s.segs i).nursery obj ||| GCFLAG_HAS_SHADOW)
      nursery_objects_shadows := (obj, n) :: (s.segs i).nursery_objects_shadows } : Segment)
    = seg
  -- the only new shadow is that of the object
  have hiff : ∀ j a n', is_shadow (s.set i seg) j a n' ↔
      is_shadow s j a n' ∨ j = i ∧ a = obj ∧ n' = n := by
    intro j a n'
    unfold is_shadow
    by_cases hj : j = i
    · rw [hj, segs_set_self, ← hseg, List.mem_cons, Prod.mk.injEq]
      simp [or_comm]
    · rw [segs_set_of_ne _ _ hj]
      simp [hj]
  have hsegs : ∀ j, ((s.set i seg).segs j).nursery_current = (s.segs j).nursery_current
      ∧ ((s.set i seg).segs j).size = (s.segs j).size
      ∧ ((s.set i seg).segs j).young_outside_nursery = (s.segs j).young_outside_nursery
      ∧ ∀ a, (j = i → a ≠ obj) → ((s.set i seg).segs j).nursery a = (s.segs j).nursery a := by
    intro j
    by_cases hj : j = i
    · rw [hj, segs_set_self, ← hseg]
      exact ⟨rfl, rfl, rfl, fun a ha => Function.update_of_ne (ha rfl) _ _⟩
    · rw [segs_set_of_ne _ _ hj]
      exact ⟨rfl, rfl, rfl, fun _ _ => rfl⟩
  refine ⟨h.chunks, h.apart, h.created, h.different, fun o' j a ho' => ?_,
    fun o₁ o₂ j a a' h₁ h₂ hne => ?_, fun o' a ho' => ?_, fun j => ?_, fun j hj => ?_,
    fun j k a a' n' h₁ h₂ => ?_, fun j k a h₁ h₂ => ?_⟩
  · by_cases hsame : j = i ∧ a = obj
    · -- the object itself
      obtain ⟨rfl, rfl⟩ := hsame
      refine ⟨hobj.start, ?_, ?_, ?_, fun _ => ⟨n, (hiff _ _ _).mpr (.inr ⟨rfl, rfl, rfl⟩)⟩,
        fun n' hn' => ?_⟩
      · rw [(hsegs j).2.1]
        exact hobj.size
      · rw [(hsegs j).1, (hsegs j).2.1]
        exact hobj.fits
      · rw [segs_set_self, ← hseg]
        dsimp only
        rw [Function.update_self]
        exact young_flags_or hobj.flags
      · rcases (hiff _ _ _).mp hn' with hold | ⟨-, -, rfl⟩
        · exact absurd hold (hnone n')
        · rw [(hsegs j).2.1]
          refine ⟨?_, hfree, c, hc, hle⟩
          rw [segs_set_self, ← hseg]
          dsimp only
          rw [Function.update_self]
          exact has_shadow_or _
    · refine (h.nursery o' j a ho').frame (congrFun (hsegs j).2.1 a) (hsegs j).1.ge ?_
        (fun n' => ?_) (fun _ _ _ hp => hp) (fun _ _ _ hc => hc)
      · exact (hsegs j).2.2.2 a fun hj ha => hsame ⟨hj, ha⟩
      · rw [hiff]
        refine ⟨fun hs => hs.resolve_right fun hr => hsame ⟨hr.1, hr.2.1⟩, .inl⟩
  · rw [(hsegs j).2.1]
    exact h.nursery_apart o₁ o₂ j a a' h₁ h₂ hne
  · exact (h.outside o' a ho').frame rfl rfl (fun _ hc => hc)
  · have hj := h.segs j
    refine ⟨?_, ?_, fun a ha => ?_, fun a n₁ n₂ h₁ h₂ => ?_, fun a n' hn' => ?_, fun a ha => ?_⟩
    · rw [(hsegs j).1]
      exact hj.start
    · rw [(hsegs j).1]
      exact hj.fits
    · rw [(hsegs j).1] at ha
      rw [(hsegs j).2.2.2 a]
      · exact hj.zero a ha
      · rintro rfl rfl
        have hfits := hobj.fits
        have hsize := hobj.size
        omega
    · rcases (hiff _ _ _).mp h₁ with h₁ | ⟨hji, rfl, rfl⟩
      · rcases (hiff _ _ _).mp h₂ with h₂ | ⟨hji, rfl, rfl⟩
        · exact hj.keys a n₁ n₂ h₁ h₂
        · exact absurd (hji ▸ h₁) (hnone n₁)
      · rcases (hiff _ _ _).mp h₂ with h₂ | ⟨-, -, rfl⟩
        · exact absurd (hji ▸ h₂) (hnone n₂)
        · rfl
    · rw [(hsegs j).1]
      have hyoung' : ∀ n' k, n' ∈ ((s.set i seg).segs k).young_outside_nursery ↔
          n' ∈ (s.segs k).young_outside_nursery := by
        intro n' k
        rw [(hsegs k).2.2.1]
      rcases (hiff _ _ _).mp hn' with hold | ⟨rfl, rfl, rfl⟩
      · obtain ⟨hchunk, hstart, hlt, hnot⟩ := hj.shadow a n' hold
        exact ⟨hchunk, hstart, hlt, fun k hk => hnot k ((hyoung' n' k).mp hk)⟩
      · have hfits := hobj.fits
        have hsize := hobj.size
        exact ⟨⟨c, hc⟩, hobj.start, by omega, fun k hk => hyoung k ((hyoung' n' k).mp hk)⟩
    · rw [(hsegs j).2.2.1] at ha
      exact hj.young a ha
  · rw [(hsegs j).1, (hsegs j).2.2.1]
    exact h.absent j hj
  · rcases (hiff _ _ _).mp h₁ with hold₁ | ⟨hj, ha, hn'⟩
    · rcases (hiff _ _ _).mp h₂ with hold₂ | ⟨-, -, hn'⟩
      · exact h.values j k a a' n' hold₁ hold₂
      · exact absurd (hn' ▸ hold₁) (hshadow j a)
    · rcases (hiff _ _ _).mp h₂ with hold₂ | ⟨hk, ha', -⟩
      · exact absurd (hn' ▸ hold₂) (hshadow k a')
      · exact ⟨hj.trans hk.symm, ha.trans ha'.symm⟩
  · rw [(hsegs j).2.2.1] at h₁
    rw [(hsegs k).2.2.1] at h₂
    exact h.young_apart j k a h₁ h₂

theorem LogInv.set_shadow (hl : LogInv s ids hashes) {seg : Segment}
    (hshadows : seg.nursery_objects_shadows = (obj, n) :: (s.segs i).nursery_objects_shadows) :
    LogInv (s.set i seg) ids hashes := by
  refine hl.frame_of_mem le_rfl (fun _ _ _ hp => hp) (fun o j a n' _ hn' => ?_)
    fun _ _ _ _ => ⟨rfl, rfl, fun _ => rfl⟩
  unfold is_shadow at hn' ⊢
  by_cases hj : j = i
  · rw [hj] at hn' ⊢
    rw [segs_set_self, hshadows]
    exact List.mem_cons_of_mem _ hn'
  · rw [segs_set_of_ne _ _ hj]
    exact hn'

/-- `allocate_shadow`, for an object without a shadow. -/
theorem Inv.allocate_shadow (h : Inv NB_SEGMENTS s) (hl : LogInv s ids hashes)
    (ho : s.place o = some (.nursery i obj))
    (hflag : has_shadow ((s.segs i).nursery obj) = false)
    (hm : may_malloc s nobj ((s.segs i).size obj)) :
    Inv NB_SEGMENTS (HashId.allocate_shadow s i obj nobj)
      ∧ LogInv (HashId.allocate_shadow s i obj nobj) ids hashes
      ∧ is_shadow (HashId.allocate_shadow s i obj nobj) i obj nobj := by
  have hsize : 0 < (s.segs i).size obj := by
    have := (h.nursery o i obj ho).size
    omega
  obtain ⟨hfree, hshadow, hyoung⟩ := h.new_address (h.new_chunk hm hsize)
  have hmalloc := h.malloc hm hsize
  have hchunk : (nobj, (s.segs i).size obj) ∈ (s.malloc nobj ((s.segs i).size obj)).chunks :=
    List.mem_cons_self
  have hlog : LogInv (s.malloc nobj ((s.segs i).size obj)) ids hashes :=
    hl.frame_of_mem le_rfl (fun _ _ _ hp => hp) (fun _ _ _ _ _ hs => hs)
      fun _ _ _ _ => ⟨rfl, rfl, fun _ => rfl⟩
  have hcopy : ∀ a, ¬ (nobj ≤ a ∧ a < nobj + (s.segs i).size obj) →
      (if nobj ≤ a ∧ a < nobj + (s.segs i).size obj then
        (s.segs i).nursery (obj + (a - nobj)) else s.mem a) = s.mem a := fun a ha => if_neg ha
  have hfilled := hmalloc.fill hchunk hfree le_rfl hcopy
  refine ⟨hfilled.set_shadow ho hflag hchunk le_rfl hfree hshadow hyoung,
    (hlog.fill hmalloc hchunk hfree le_rfl hcopy).set_shadow rfl, ?_⟩
  unfold is_shadow HashId.allocate_shadow
  dsimp only
  rw [segs_set_self]
  exact List.mem_cons_self

/-! ## Moving an object -/

/-- The object is copied to a chunk where no object is; and if it has a shadow,
it is copied there. -/
theorem Inv.move (h : Inv NB_SEGMENTS s) {c : ℕ} {seg : Segment}
    (ho : s.place o = some (.nursery i obj)) (hc : (n, c) ∈ s.chunks)
    (hsize : s.size n = (s.segs i).size obj) (hle : (s.segs i).size obj ≤ c)
    (hflag : has_shadow (s.mem n) = false) (hfree : ∀ o, s.place o ≠ some (.outside n))
    (hothers : ∀ j a, is_shadow s j a n → j = i ∧ a = obj)
    (hcurrent : seg.nursery_current = (s.segs i).nursery_current)
    (hsizes : seg.size = (s.segs i).size)
    (hshadows : seg.nursery_objects_shadows = (s.segs i).nursery_objects_shadows)
    (hyoung : seg.young_outside_nursery = (s.segs i).young_outside_nursery)
    (hnursery : ∀ a, a ≠ obj → a ≠ obj + 8 → seg.nursery a = (s.segs i).nursery a) :
    Inv NB_SEGMENTS (move_out (s.set i seg) i obj n) := by
  have hobj := h.nursery o i obj ho
  have hsegs : ∀ j, ((move_out (s.set i seg) i obj n).segs j).nursery_current
        = (s.segs j).nursery_current
      ∧ ((move_out (s.set i seg) i obj n).segs j).size = (s.segs j).size
      ∧ ((move_out (s.set i seg) i obj n).segs j).nursery_objects_shadows
        = (s.segs j).nursery_objects_shadows
      ∧ ((move_out (s.set i seg) i obj n).segs j).young_outside_nursery
        = (s.segs j).young_outside_nursery
      ∧ ∀ a, (j = i → a ≠ obj ∧ a ≠ obj + 8) →
        ((move_out (s.set i seg) i obj n).segs j).nursery a = (s.segs j).nursery a := by
    intro j
    by_cases hj : j = i
    · rw [hj, show (move_out (s.set i seg) i obj n).segs i = seg from segs_set_self s i seg]
      exact ⟨hcurrent, hsizes, hshadows, hyoung, fun a ha => hnursery a (ha rfl).1 (ha rfl).2⟩
    · rw [show (move_out (s.set i seg) i obj n).segs j = s.segs j from segs_set_of_ne s seg hj]
      exact ⟨rfl, rfl, rfl, rfl, fun _ _ => rfl⟩
  have hiff : ∀ j a n', is_shadow (move_out (s.set i seg) i obj n) j a n' ↔ is_shadow s j a n' := by
    intro j a n'
    unfold is_shadow
    rw [(hsegs j).2.2.1]
  -- an object that is not where it was is the one that is moved
  have hplace : ∀ o' p, (move_out (s.set i seg) i obj n).place o' = some p →
      s.place o' = some p ∧ p ≠ .nursery i obj
        ∨ s.place o' = some (.nursery i obj) ∧ p = .outside n := by
    intro o' p hp
    change (if s.place o' = some (.nursery i obj) then some (Place.outside n) else s.place o')
      = some p at hp
    split at hp
    · rename_i hmoved
      rw [Option.some.injEq] at hp
      exact .inr ⟨hmoved, hp.symm⟩
    · rename_i hne
      refine .inl ⟨hp, ?_⟩
      rintro rfl
      exact hne hp
  refine ⟨h.chunks, h.apart, fun o' ho' => ?_, fun o₁ o₂ heq hne => ?_, fun o' j a ho' => ?_,
    fun o₁ o₂ j a a' h₁ h₂ hne => ?_, fun o' a ho' => ?_, fun j => ?_, fun j hj => ?_,
    fun j k a a' n' h₁ h₂ => ?_, fun j k a h₁ h₂ => ?_⟩
  · change (if s.place o' = some (.nursery i obj) then some (Place.outside n) else s.place o') = none
    rw [h.created o' ho', if_neg nofun]
  · obtain ⟨p, hp⟩ := Option.ne_none_iff_exists'.mp hne
    have hp' := heq.symm.trans hp
    rcases hplace o₁ p hp with ⟨h₁, -⟩ | ⟨h₁, hpn⟩
    · rcases hplace o₂ p hp' with ⟨h₂, -⟩ | ⟨h₂, hpn⟩
      · exact h.different o₁ o₂ (h₁.trans h₂.symm) (by rw [h₁]; nofun)
      · exact absurd (hpn ▸ h₁) (hfree o₁)
    · rcases hplace o₂ p hp' with ⟨h₂, -⟩ | ⟨h₂, -⟩
      · exact absurd (hpn ▸ h₂) (hfree o₂)
      · exact h.different o₁ o₂ (h₁.trans h₂.symm) (by rw [h₁]; nofun)
  · rcases hplace o' _ ho' with ⟨hold, hne⟩ | ⟨-, hp⟩
    · refine (h.nursery o' j a hold).frame (congrFun (hsegs j).2.1 a) (hsegs j).1.ge ?_
        (hiff j a) (fun n' o'' hn' hp => ?_) (fun _ _ _ hc => hc)
      · -- its first word is not one of those that are overwritten
        refine (hsegs j).2.2.2.2 a fun hj => ?_
        subst hj
        have hao : a ≠ obj := by
          rintro rfl
          exact hne rfl
        have happart := h.nursery_apart o' o j a obj hold ho hao
        have h16 := (h.nursery o' j a hold).size
        have h16' := hobj.size
        omega
      · rcases hplace o'' _ hp with ⟨hold', -⟩ | ⟨-, heq⟩
        · exact hold'
        · rw [Place.outside.injEq] at heq
          rw [heq] at hn'
          obtain ⟨rfl, rfl⟩ := hothers j a hn'
          exact absurd rfl hne
    · cases hp
  · have hold : ∀ o' a, (move_out (s.set i seg) i obj n).place o' = some (.nursery j a) →
        s.place o' = some (.nursery j a) := by
      intro o' a hp
      rcases hplace o' _ hp with ⟨hold, -⟩ | ⟨-, heq⟩
      · exact hold
      · cases heq
    rw [(hsegs j).2.1]
    exact h.nursery_apart o₁ o₂ j a a' (hold o₁ a h₁) (hold o₂ a' h₂) hne
  · rcases hplace o' _ ho' with ⟨hold, -⟩ | ⟨-, hp⟩
    · exact (h.outside o' a hold).frame rfl rfl (fun _ hc => hc)
    · rw [Place.outside.injEq] at hp
      rw [hp]
      refine ⟨?_, c, hc, ?_⟩
      · exact hobj.size.trans hsize.ge
      · change s.size n + (if has_shadow (s.mem n) = true then 8 else 0) ≤ c
        rw [hflag, hsize]
        exact hle
  · have hj := h.segs j
    refine ⟨?_, ?_, fun a ha => ?_, fun a n₁ n₂ h₁ h₂ => ?_, fun a n' hn' => ?_, fun a ha => ?_⟩
    · rw [(hsegs j).1]
      exact hj.start
    · rw [(hsegs j).1]
      exact hj.fits
    · rw [(hsegs j).1] at ha
      rw [(hsegs j).2.2.2.2 a]
      · exact hj.zero a ha
      · rintro rfl
        have hfits := hobj.fits
        have h16 := hobj.size
        omega
    · exact hj.keys a n₁ n₂ ((hiff _ _ _).mp h₁) ((hiff _ _ _).mp h₂)
    · obtain ⟨hchunk, hstart, hlt, hnot⟩ := hj.shadow a n' ((hiff _ _ _).mp hn')
      rw [(hsegs j).1]
      refine ⟨hchunk, hstart, hlt, fun k hk => ?_⟩
      rw [(hsegs k).2.2.2.1] at hk
      exact hnot k hk
    · rw [(hsegs j).2.2.2.1] at ha
      exact hj.young a ha
  · rw [(hsegs j).1, (hsegs j).2.2.2.1]
    exact h.absent j hj
  · exact h.values j k a a' n' ((hiff _ _ _).mp h₁) ((hiff _ _ _).mp h₂)
  · rw [(hsegs j).2.2.2.1] at h₁
    rw [(hsegs k).2.2.2.1] at h₂
    exact h.young_apart j k a h₁ h₂

/-- The answers about the object say where it is now. -/
theorem LogInv.move (hl : LogInv s ids hashes) {seg : Segment}
    (hshadows : seg.nursery_objects_shadows = (s.segs i).nursery_objects_shadows)
    (hflag : has_shadow (s.mem n) = false) (hsame : ∀ n', is_shadow s i obj n' → n' = n) :
    LogInv (move_out (s.set i seg) i obj n) ids hashes := by
  have hiff : ∀ j a n', is_shadow (move_out (s.set i seg) i obj n) j a n' ↔ is_shadow s j a n' := by
    intro j a n'
    unfold is_shadow
    by_cases hj : j = i
    · rw [hj, show (move_out (s.set i seg) i obj n).segs i = seg from segs_set_self s i seg,
        hshadows]
    · rw [show (move_out (s.set i seg) i obj n).segs j = s.segs j from segs_set_of_ne s seg hj]
  have hplace : ∀ o' p, (move_out (s.set i seg) i obj n).place o' = some p →
      s.place o' = some p ∨ s.place o' = some (.nursery i obj) ∧ p = .outside n := by
    intro o' p hp
    change (if s.place o' = some (.nursery i obj) then some (Place.outside n) else s.place o')
      = some p at hp
    split at hp
    · rename_i hmoved
      rw [Option.some.injEq] at hp
      exact .inr ⟨hmoved, hp.symm⟩
    · exact .inl hp
  refine ⟨fun o v hmem p hp => ?_, hl.same_id, fun o v hmem p hp => ?_, hl.same_hash, hl.requests⟩
  · rcases hplace o p hp with hold | ⟨hold, rfl⟩
    · have hv := hl.id o v hmem p hold
      cases p with
      | nursery j a =>
          obtain ⟨n', hn', heq⟩ := hv
          exact ⟨n', (hiff j a n').mpr hn', heq⟩
      | outside a => exact hv
    · obtain ⟨n', hn', heq⟩ := hl.id o v hmem _ hold
      rw [hsame n' hn'] at heq
      exact heq
  · rcases hplace o p hp with hold | ⟨hold, rfl⟩
    · have hv := hl.hash o v hmem p hold
      cases p with
      | nursery j a =>
          obtain ⟨n', hn', heq⟩ := hv
          exact ⟨n', (hiff j a n').mpr hn', heq⟩
      | outside a => exact hv
    · obtain ⟨n', hn', heq⟩ := hl.hash o v hmem _ hold
      rw [hsame n' hn'] at heq
      change v = if has_shadow (s.mem n) = true then s.mem (n + s.size n)
        else mangle_hash (BitVec.ofNat 64 n)
      rw [hflag]
      exact heq

/-- The object of the nursery is in the nursery. -/
theorem Inv.is_in_nursery (h : Inv NB_SEGMENTS s) (ho : s.place o = some (.nursery i obj)) :
    HashId.is_in_nursery obj = true := by
  have hobj := h.nursery o i obj ho
  have hfits := hobj.fits
  have h16 := hobj.size
  have hend := (h.segs i).fits
  unfold HashId.is_in_nursery
  rw [decide_eq_true_eq]
  omega

theorem Inv.not_in_nursery (h : Inv NB_SEGMENTS s) (ho : s.place o = some (.outside obj)) :
    HashId.is_in_nursery obj = false := by
  obtain ⟨c, hc, -⟩ := (h.outside o obj ho).chunk
  have hstart := (h.chunks _ hc).1
  unfold HashId.is_in_nursery
  rw [decide_eq_false_iff_not]
  omega

/-- The shadow that `find_existing_shadow` finds. -/
theorem Inv.find_existing_shadow (h : Inv NB_SEGMENTS s) (hn : is_shadow s i obj n) :
    HashId.find_existing_shadow s i obj = some n := by
  unfold HashId.find_existing_shadow
  cases hfind : (s.segs i).nursery_objects_shadows.lookup obj with
  | none =>
      rw [List.lookup_eq_none_iff] at hfind
      have hne := hfind (obj, n) hn
      simp at hne
  | some n' =>
      obtain ⟨l₁, l₂, heq, -⟩ := List.lookup_eq_some_iff.mp hfind
      have hn' : is_shadow s i obj n' := by
        unfold is_shadow
        rw [heq]
        simp
      rw [(h.segs i).keys obj n' n hn' hn]

/-- At most, some young objects outside the nursery are not young any more. -/
theorem Inv.set_young (h : Inv NB_SEGMENTS s) (hl : LogInv s ids hashes) {seg : Segment}
    (hcurrent : seg.nursery_current = (s.segs i).nursery_current)
    (hsize : seg.size = (s.segs i).size) (hnursery : seg.nursery = (s.segs i).nursery)
    (hshadows : seg.nursery_objects_shadows = (s.segs i).nursery_objects_shadows)
    (hyoung : ∀ a ∈ seg.young_outside_nursery, a ∈ (s.segs i).young_outside_nursery) :
    Inv NB_SEGMENTS (s.set i seg) ∧ LogInv (s.set i seg) ids hashes := by
  have hsegs : ∀ j, ((s.set i seg).segs j).nursery_current = (s.segs j).nursery_current
      ∧ ((s.set i seg).segs j).size = (s.segs j).size
      ∧ ((s.set i seg).segs j).nursery = (s.segs j).nursery
      ∧ ((s.set i seg).segs j).nursery_objects_shadows = (s.segs j).nursery_objects_shadows
      ∧ (∀ a ∈ ((s.set i seg).segs j).young_outside_nursery,
        a ∈ (s.segs j).young_outside_nursery) := by
    intro j
    by_cases hj : j = i
    · rw [hj, segs_set_self]
      exact ⟨hcurrent, hsize, hnursery, hshadows, hyoung⟩
    · rw [segs_set_of_ne _ _ hj]
      exact ⟨rfl, rfl, rfl, rfl, fun _ ha => ha⟩
  have hiff : ∀ j a n', is_shadow (s.set i seg) j a n' ↔ is_shadow s j a n' := by
    intro j a n'
    unfold is_shadow
    rw [(hsegs j).2.2.2.1]
  refine ⟨⟨h.chunks, h.apart, h.created, h.different, fun o j a ho => ?_, fun o₁ o₂ j a a' => ?_,
    fun o a ho => ?_, fun j => ?_, fun j hj => ?_, fun j k a a' n' h₁ h₂ => ?_,
    fun j k a h₁ h₂ => ?_⟩, ?_⟩
  · exact (h.nursery o j a ho).frame (congrFun (hsegs j).2.1 a) (hsegs j).1.ge
      (congrFun (hsegs j).2.2.1 a) (hiff j a) (fun _ _ _ hp => hp) (fun _ _ _ hc => hc)
  · rw [(hsegs j).2.1]
    exact h.nursery_apart o₁ o₂ j a a'
  · exact (h.outside o a ho).frame rfl rfl (fun _ hc => hc)
  · have hj := h.segs j
    refine ⟨?_, ?_, ?_, fun a n₁ n₂ h₁ h₂ => ?_, fun a n' hn' => ?_, fun a ha => ?_⟩
    · rw [(hsegs j).1]
      exact hj.start
    · rw [(hsegs j).1]
      exact hj.fits
    · rw [(hsegs j).1, (hsegs j).2.2.1]
      exact hj.zero
    · exact hj.keys a n₁ n₂ ((hiff _ _ _).mp h₁) ((hiff _ _ _).mp h₂)
    · obtain ⟨hchunk, hstart, hlt, hnot⟩ := hj.shadow a n' ((hiff _ _ _).mp hn')
      rw [(hsegs j).1]
      exact ⟨hchunk, hstart, hlt, fun k hk => hnot k ((hsegs k).2.2.2.2 n' hk)⟩
    · exact hj.young a ((hsegs j).2.2.2.2 a ha)
  · obtain ⟨hcurrent, hyoung⟩ := h.absent j hj
    rw [(hsegs j).1]
    refine ⟨hcurrent, List.eq_nil_iff_forall_not_mem.mpr fun a ha => ?_⟩
    have hmem := (hsegs j).2.2.2.2 a ha
    rw [hyoung] at hmem
    cases hmem
  · exact h.values j k a a' n' ((hiff _ _ _).mp h₁) ((hiff _ _ _).mp h₂)
  · exact h.young_apart j k a ((hsegs j).2.2.2.2 a h₁) ((hsegs k).2.2.2.2 a h₂)
  · exact hl.frame_of_mem le_rfl (fun _ _ _ hp => hp) (fun _ j a n' _ => (hiff j a n').mpr)
      fun _ _ _ _ => ⟨rfl, rfl, fun _ => rfl⟩

/-- What `copy_large_object` leaves, with the first word of the object as in
`nursery` when it is copied. -/
theorem copy_large_object_set (nursery : ℕ → Long) :
    copy_large_object (s.set i { s.segs i with nursery := nursery }) i obj n
      = St.set { s with
          mem := fun a => if n ≤ a ∧ a < n + (s.segs i).size obj then nursery (obj + (a - n))
            else s.mem a
          size := Function.update s.size n ((s.segs i).size obj) } i { s.segs i with
        nursery := Function.update (Function.update nursery obj GCWORD_MOVED) (obj + 8)
          (BitVec.ofNat 64 n) } := by
  unfold copy_large_object St.copy_out
  dsimp only
  rw [segs_set_self]
  unfold St.set
  dsimp only
  rw [Function.update_idem]

/-- The object is copied without the flag, and then it is at the copy. -/
theorem Inv.copy_large_object (h : Inv NB_SEGMENTS s) (hl : LogInv s ids hashes) {c : ℕ}
    {nursery : ℕ → Long} (ho : s.place o = some (.nursery i obj)) (hc : (n, c) ∈ s.chunks)
    (hle : (s.segs i).size obj ≤ c) (hfree : ∀ o, s.place o ≠ some (.outside n))
    (hothers : ∀ j a, is_shadow s j a n → j = i ∧ a = obj)
    (hsame : ∀ n', is_shadow s i obj n' → n' = n)
    (hflag : has_shadow (nursery obj) = false)
    (hnursery : ∀ a, a ≠ obj → nursery a = (s.segs i).nursery a) :
    Inv NB_SEGMENTS (move_out (HashId.copy_large_object
        (s.set i { s.segs i with nursery := nursery }) i obj n) i obj n)
      ∧ LogInv (move_out (HashId.copy_large_object
        (s.set i { s.segs i with nursery := nursery }) i obj n) i obj n) ids hashes := by
  rw [copy_large_object_set]
  have h16 := (h.nursery o i obj ho).size
  have hcopy : ∀ a, ¬ (n ≤ a ∧ a < n + (s.segs i).size obj) →
      (if n ≤ a ∧ a < n + (s.segs i).size obj then nursery (obj + (a - n)) else s.mem a)
        = s.mem a := fun a ha => if_neg ha
  -- the first word of the copy
  have hword : has_shadow (if n ≤ n ∧ n < n + (s.segs i).size obj then nursery (obj + (n - n))
      else s.mem n) = false := by
    rw [if_pos ⟨le_rfl, by omega⟩, Nat.sub_self, Nat.add_zero]
    exact hflag
  have hrest : ∀ a, a ≠ obj → a ≠ obj + 8 → Function.update (Function.update nursery obj
      GCWORD_MOVED) (obj + 8) (BitVec.ofNat 64 n) a = (s.segs i).nursery a := by
    intro a h₁ h₂
    rw [Function.update_of_ne h₂, Function.update_of_ne h₁]
    exact hnursery a h₁
  exact ⟨(h.fill hc hfree hle hcopy).move ho hc (Function.update_self _ _ _) hle hword hfree
    hothers rfl rfl rfl rfl hrest, (hl.fill h hc hfree hle hcopy).move rfl hword hsame⟩

theorem Inv.minor_trace_if_young (h : Inv NB_SEGMENTS s) (hl : LogInv s ids hashes)
    (hobj : (∃ o < s.created, s.place o = some (.nursery i obj))
      ∨ (s.segs i).nursery obj = GCWORD_MOVED ∨ HashId.is_in_nursery obj = false)
    (hm : takes_chunk s i obj = true → may_malloc s nobj ((s.segs i).size obj))
    (hs : HashId.minor_trace_if_young s i obj nobj = some t) :
    Inv NB_SEGMENTS t ∧ LogInv t ids hashes := by
  unfold HashId.minor_trace_if_young at hs
  dsimp only at hs
  by_cases hin : HashId.is_in_nursery obj = true
  · rw [if_pos hin] at hs
    by_cases hmoved : (s.segs i).nursery obj = GCWORD_MOVED
    · -- already moved
      rw [if_pos (by rw [hmoved]; exact has_shadow_moved), if_pos hmoved,
        Option.some.injEq] at hs
      rw [← hs]
      exact ⟨h, hl⟩
    obtain ⟨o, ho⟩ : ∃ o, s.place o = some (.nursery i obj) := by
      rcases hobj with ⟨o, -, ho⟩ | hmoved' | hout
      · exact ⟨o, ho⟩
      · exact absurd hmoved' hmoved
      · rw [hin] at hout
        cases hout
    have hobj' := h.nursery o i obj ho
    by_cases hflag : has_shadow ((s.segs i).nursery obj) = true
    · -- really has a shadow
      obtain ⟨n, hn⟩ := hobj'.shadow hflag
      obtain ⟨-, hfree, c, hc, hle⟩ := hobj'.target n hn
      rw [if_pos hflag, if_neg hmoved, h.find_existing_shadow hn, Option.bind_eq_bind,
        Option.bind_some, Option.pure_def, Option.some.injEq] at hs
      rw [← hs]
      refine h.copy_large_object hl ho hc hle hfree (fun j a hs' => h.values j i a obj n hs' hn)
        (fun n' hn' => (h.segs i).keys obj n' n hn' hn) ?_ fun a ha => Function.update_of_ne ha _ _
      rw [Function.update_self]
      exact has_shadow_clear _
    · rw [if_neg hflag, Option.some.injEq] at hs
      rw [← hs]
      rw [Bool.not_eq_true] at hflag
      have hm' := hm (by unfold takes_chunk; rw [hin, hflag]; rfl)
      have hpos : 0 < (s.segs i).size obj := by
        have h16 := hobj'.size
        omega
      obtain ⟨hfree, hshadow, -⟩ := h.new_address (h.new_chunk hm' hpos)
      have hlog : LogInv (s.malloc nobj ((s.segs i).size obj)) ids hashes :=
        hl.frame_of_mem le_rfl (fun _ _ _ hp => hp) (fun _ _ _ _ _ hs => hs)
          fun _ _ _ _ => ⟨rfl, rfl, fun _ => rfl⟩
      have hset : (s.malloc nobj ((s.segs i).size obj)).set i
          { s.segs i with nursery := (s.segs i).nursery } = s.malloc nobj ((s.segs i).size obj) := by
        unfold St.set St.malloc
        dsimp only
        rw [Function.update_eq_self]
      have hcopied := (h.malloc hm' hpos).copy_large_object hlog ho List.mem_cons_self le_rfl hfree (fun j a hs' => absurd hs' (hshadow j a))
        (fun n' hn' => absurd hn' (h.no_shadow ho hflag)) hflag fun _ _ => rfl
      rw [← hset]
      exact hcopied
  · rw [if_neg hin, Option.some.injEq] at hs
    rw [← hs]
    -- a young object outside the nursery is not young any more
    exact h.set_young hl rfl rfl rfl rfl fun _ ha => List.mem_of_mem_filter ha

end Steps

end Stmgc.C7.HashId
