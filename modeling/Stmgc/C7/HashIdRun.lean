/-
The other steps of the machine of `HashId`, the requests, and what the answers
of `stm_id` and `stm_identityhash` are in every run.
-/
import Stmgc.C7.HashIdSteps

namespace Stmgc.C7.HashId

open Stmgc.Lib

section Run

variable {NB_SEGMENTS i o n obj size : ℕ} {s t : St} {ids hashes : List (ℕ × Long)}

/-! ## Allocations -/

/-- Where a new object is, nothing was before. -/
theorem place_new {p q : Place}
    (hq : Function.update s.place s.created (some p) o = some q) :
    s.place o = some q ∧ o ≠ s.created ∨ o = s.created ∧ q = p := by
  rw [Function.update_apply] at hq
  split at hq
  · rename_i ho
    rw [Option.some.injEq] at hq
    exact .inr ⟨ho, hq.symm⟩
  · rename_i ho
    exact .inl ⟨hq, ho⟩

theorem Inv.created_new (h : Inv NB_SEGMENTS s) (p : Place) (ho : s.created + 1 ≤ o) :
    Function.update s.place s.created (some p) o = none := by
  rw [Function.update_of_ne (by omega)]
  exact h.created o (by omega)

theorem Inv.different_new (h : Inv NB_SEGMENTS s) {p : Place} (hp : ∀ o, s.place o ≠ some p)
    (o o' : ℕ) (heq : Function.update s.place s.created (some p) o
      = Function.update s.place s.created (some p) o')
    (hne : Function.update s.place s.created (some p) o ≠ none) : o = o' := by
  obtain ⟨q, hq⟩ := Option.ne_none_iff_exists'.mp hne
  rcases place_new hq with ⟨ho, -⟩ | ⟨ho, hqp⟩
  · rcases place_new (heq.symm.trans hq) with ⟨ho', -⟩ | ⟨-, hqp⟩
    · exact h.different o o' (ho.trans ho'.symm) (by rw [ho]; nofun)
    · exact absurd (hqp ▸ ho) (hp o)
  · rcases place_new (heq.symm.trans hq) with ⟨ho', -⟩ | ⟨ho', -⟩
    · exact absurd (hqp ▸ ho') (hp o')
    · exact ho.trans ho'.symm

theorem Inv.stm_allocate (h : Inv NB_SEGMENTS s) (hl : LogInv s ids hashes)
    (hi : i ∈ segment_nums NB_SEGMENTS) (hsize : 16 ≤ size)
    (hfits : (s.segs i).nursery_current + size ≤ NURSERY_END)
    (ht : t = { (s.set i { s.segs i with
          nursery_current := (s.segs i).nursery_current + size
          size := Function.update (s.segs i).size (s.segs i).nursery_current size }).move s.created
        (.nursery i (s.segs i).nursery_current) with created := s.created + 1 }) :
    Inv NB_SEGMENTS t ∧ LogInv t ids hashes := by
  have hplace : t.place = Function.update s.place s.created
      (some (.nursery i (s.segs i).nursery_current)) := by
    rw [ht]
    rfl
  have hcreated : t.created = s.created + 1 := by rw [ht]
  have hkeep : t.chunks = s.chunks ∧ t.mem = s.mem ∧ t.size = s.size := by
    rw [ht]
    exact ⟨rfl, rfl, rfl⟩
  have hseg : t.segs i = { s.segs i with
      nursery_current := (s.segs i).nursery_current + size
      size := Function.update (s.segs i).size (s.segs i).nursery_current size } := by
    rw [ht]
    exact segs_set_self _ _ _
  have hother : ∀ j, j ≠ i → t.segs j = s.segs j := by
    intro j hj
    rw [ht]
    exact segs_set_of_ne _ _ hj
  have hsegs : ∀ j, (t.segs j).nursery = (s.segs j).nursery
      ∧ (t.segs j).nursery_objects_shadows = (s.segs j).nursery_objects_shadows
      ∧ (t.segs j).young_outside_nursery = (s.segs j).young_outside_nursery
      ∧ (s.segs j).nursery_current ≤ (t.segs j).nursery_current
      ∧ (t.segs j).nursery_current ≤ NURSERY_END
      ∧ ∀ a < (s.segs j).nursery_current, (t.segs j).size a = (s.segs j).size a := by
    intro j
    by_cases hj : j = i
    · rw [hj, hseg]
      exact ⟨rfl, rfl, rfl, Nat.le_add_right _ _, hfits,
        fun a ha => Function.update_of_ne (Nat.ne_of_lt ha) _ _⟩
    · rw [hother j hj]
      exact ⟨rfl, rfl, rfl, le_rfl, (h.segs j).fits, fun _ _ => rfl⟩
  have hiff : ∀ j a n, is_shadow t j a n ↔ is_shadow s j a n := by
    intro j a n
    unfold is_shadow
    rw [(hsegs j).2.1]
  -- no object is at `nursery_current`
  have hlt : ∀ o j a, s.place o = some (.nursery j a) → a < (s.segs j).nursery_current := by
    intro o j a ho
    have hobj := h.nursery o j a ho
    have hfit := hobj.fits
    have h16 := hobj.size
    omega
  have hfree : ∀ o, s.place o ≠ some (.nursery i (s.segs i).nursery_current) :=
    fun o ho => Nat.lt_irrefl _ (hlt o i _ ho)
  refine ⟨⟨?_, ?_, ?_, ?_, fun o j a ho => ?_, fun o₁ o₂ j a a' h₁ h₂ hne => ?_,
    fun o a ho => ?_, fun j => ?_, fun j hj => ?_, fun j k a a' n h₁ h₂ => ?_,
    fun j k a h₁ h₂ => ?_⟩, ?_⟩
  · rw [hkeep.1]
    exact h.chunks
  · rw [hkeep.1]
    exact h.apart
  · rw [hplace, hcreated]
    exact fun o => h.created_new _
  · rw [hplace]
    exact h.different_new hfree
  · rw [hplace] at ho
    rcases place_new ho with ⟨hold, -⟩ | ⟨-, hnew⟩
    · refine (h.nursery o j a hold).frame ((hsegs j).2.2.2.2.2 a (hlt o j a hold))
        (hsegs j).2.2.2.1 (congrFun (hsegs j).1 a) (hiff j a) (fun n o' _ ho' => ?_)
        (fun n c _ hc => hkeep.1 ▸ hc)
      rw [hplace] at ho'
      rcases place_new ho' with ⟨hold', -⟩ | ⟨-, hnew⟩
      · exact hold'
      · cases hnew
    · -- the new object
      rw [Place.nursery.injEq] at hnew
      obtain ⟨rfl, rfl⟩ := hnew
      have hseg' := h.segs j
      have hzero := hseg'.zero (s.segs j).nursery_current le_rfl
      refine ⟨hseg'.start, ?_, ?_, ?_, fun hf => ?_, fun n hn => ?_⟩
      · rw [hseg]
        dsimp only
        rw [Function.update_self]
        exact hsize
      · rw [hseg]
        dsimp only
        rw [Function.update_self]
      · rw [(hsegs j).1, hzero]
        exact young_flags_zero
      · rw [(hsegs j).1, hzero, has_shadow_zero] at hf
        cases hf
      · have hlt' := (hseg'.shadow _ n ((hiff j _ n).mp hn)).2.2.1
        exact absurd hlt' (Nat.lt_irrefl _)
  · rw [hplace] at h₁ h₂
    rcases place_new h₁ with ⟨hold₁, -⟩ | ⟨-, hnew₁⟩
    · rcases place_new h₂ with ⟨hold₂, -⟩ | ⟨-, hnew₂⟩
      · rw [(hsegs j).2.2.2.2.2 a (hlt o₁ j a hold₁), (hsegs j).2.2.2.2.2 a' (hlt o₂ j a' hold₂)]
        exact h.nursery_apart o₁ o₂ j a a' hold₁ hold₂ hne
      · rw [Place.nursery.injEq] at hnew₂
        obtain ⟨rfl, rfl⟩ := hnew₂
        rw [(hsegs j).2.2.2.2.2 a (hlt o₁ j a hold₁)]
        exact .inl (h.nursery o₁ j a hold₁).fits
    · rw [Place.nursery.injEq] at hnew₁
      obtain ⟨rfl, rfl⟩ := hnew₁
      rcases place_new h₂ with ⟨hold₂, -⟩ | ⟨-, hnew₂⟩
      · rw [(hsegs j).2.2.2.2.2 a' (hlt o₂ j a' hold₂)]
        exact .inr (h.nursery o₂ j a' hold₂).fits
      · rw [Place.nursery.injEq] at hnew₂
        exact absurd hnew₂.2.symm hne
  · rw [hplace] at ho
    rcases place_new ho with ⟨hold, -⟩ | ⟨-, hnew⟩
    · exact (h.outside o a hold).frame (congrFun hkeep.2.2 a) (by rw [hkeep.2.1])
        (fun c hc => hkeep.1 ▸ hc)
    · cases hnew
  · have hj := h.segs j
    refine ⟨hj.start.trans (hsegs j).2.2.2.1, (hsegs j).2.2.2.2.1, fun a ha => ?_,
      fun a n₁ n₂ h₁ h₂ => ?_, fun a n hn => ?_, fun a ha => ?_⟩
    · rw [(hsegs j).1]
      exact hj.zero a ((hsegs j).2.2.2.1.trans ha)
    · exact hj.keys a n₁ n₂ ((hiff j a n₁).mp h₁) ((hiff j a n₂).mp h₂)
    · obtain ⟨hchunk, hstart, hlt', hnot⟩ := hj.shadow a n ((hiff j a n).mp hn)
      rw [hkeep.1]
      refine ⟨hchunk, hstart, hlt'.trans_le (hsegs j).2.2.2.1, fun k hk => ?_⟩
      rw [(hsegs k).2.2.1] at hk
      exact hnot k hk
    · rw [(hsegs j).2.2.1] at ha
      rw [hkeep.1]
      exact hj.young a ha
  · have hji : j ≠ i := by
      rintro rfl
      exact hj hi
    rw [hother j hji]
    exact h.absent j hj
  · exact h.values j k a a' n ((hiff j a n).mp h₁) ((hiff k a' n).mp h₂)
  · rw [(hsegs j).2.2.1] at h₁
    rw [(hsegs k).2.2.1] at h₂
    exact h.young_apart j k a h₁ h₂
  · refine hl.frame_of_mem (by omega) (fun o ho p hp => ?_) (fun _ j a n _ => (hiff j a n).mpr)
      fun o a _ _ => ?_
    · rw [hplace, Function.update_of_ne (Nat.ne_of_lt ho)] at hp
      exact hp
    · rw [hkeep.2.1, hkeep.2.2]
      exact ⟨rfl, rfl, fun _ => rfl⟩

/-- A young object outside the nursery, in a chunk that is already there. -/
theorem Inv.new_outside (h : Inv NB_SEGMENTS s) (hl : LogInv s ids hashes) {c : ℕ}
    (hi : i ∈ segment_nums NB_SEGMENTS) (hsize : 16 ≤ s.size obj) (hc : (obj, c) ∈ s.chunks)
    (hle : s.size obj ≤ c) (hflag : has_shadow (s.mem obj) = false)
    (hfree : ∀ o, s.place o ≠ some (.outside obj)) (hshadow : ∀ j a, ¬ is_shadow s j a obj)
    (hyoung : ∀ j, obj ∉ (s.segs j).young_outside_nursery)
    (ht : t = { (s.set i { s.segs i with
          young_outside_nursery := obj :: (s.segs i).young_outside_nursery }).move s.created
        (.outside obj) with created := s.created + 1 }) :
    Inv NB_SEGMENTS t ∧ LogInv t ids hashes := by
  have hplace : t.place = Function.update s.place s.created (some (.outside obj)) := by
    rw [ht]
    rfl
  have hkeep : t.chunks = s.chunks ∧ t.mem = s.mem ∧ t.size = s.size
      ∧ t.created = s.created + 1 := by
    rw [ht]
    exact ⟨rfl, rfl, rfl, rfl⟩
  have hother : ∀ j, j ≠ i → t.segs j = s.segs j := by
    intro j hj
    rw [ht]
    exact segs_set_of_ne _ _ hj
  have hsegs : ∀ j, (t.segs j).nursery = (s.segs j).nursery
      ∧ (t.segs j).nursery_objects_shadows = (s.segs j).nursery_objects_shadows
      ∧ (t.segs j).nursery_current = (s.segs j).nursery_current
      ∧ (t.segs j).size = (s.segs j).size
      ∧ ∀ a ∈ (t.segs j).young_outside_nursery,
        a ∈ (s.segs j).young_outside_nursery ∨ a = obj ∧ j = i := by
    intro j
    by_cases hj : j = i
    · have hseg : t.segs i = { s.segs i with
          young_outside_nursery := obj :: (s.segs i).young_outside_nursery } := by
        rw [ht]
        exact segs_set_self _ _ _
      rw [hj, hseg]
      exact ⟨rfl, rfl, rfl, rfl, fun a ha => (List.mem_cons.mp ha).symm.imp_right (⟨·, rfl⟩)⟩
    · rw [hother j hj]
      exact ⟨rfl, rfl, rfl, rfl, fun _ ha => .inl ha⟩
  have hiff : ∀ j a n, is_shadow t j a n ↔ is_shadow s j a n := by
    intro j a n
    unfold is_shadow
    rw [(hsegs j).2.1]
  have hnursery : ∀ o j a, t.place o = some (.nursery j a) →
      s.place o = some (.nursery j a) := by
    intro o j a ho
    rw [hplace] at ho
    rcases place_new ho with ⟨hold, -⟩ | ⟨-, hnew⟩
    · exact hold
    · cases hnew
  refine ⟨⟨?_, ?_, ?_, ?_, fun o j a ho => ?_, fun o₁ o₂ j a a' h₁ h₂ => ?_,
    fun o a ho => ?_, fun j => ?_, fun j hj => ?_, fun j k a a' n h₁ h₂ => ?_,
    fun j k a h₁ h₂ => ?_⟩, ?_⟩
  · rw [hkeep.1]
    exact h.chunks
  · rw [hkeep.1]
    exact h.apart
  · rw [hplace, hkeep.2.2.2]
    exact fun o => h.created_new _
  · rw [hplace]
    exact h.different_new hfree
  · refine (h.nursery o j a (hnursery o j a ho)).frame (congrFun (hsegs j).2.2.2.1 a)
      (hsegs j).2.2.1.ge (congrFun (hsegs j).1 a) (hiff j a) (fun n o' hn ho' => ?_)
      (fun n c _ hc => hkeep.1 ▸ hc)
    rw [hplace] at ho'
    rcases place_new ho' with ⟨hold, -⟩ | ⟨-, hnew⟩
    · exact hold
    · rw [Place.outside.injEq] at hnew
      exact absurd (hnew ▸ hn) (hshadow j a)
  · rw [(hsegs j).2.2.2.1]
    exact h.nursery_apart o₁ o₂ j a a' (hnursery o₁ j a h₁) (hnursery o₂ j a' h₂)
  · rw [hplace] at ho
    rcases place_new ho with ⟨hold, -⟩ | ⟨-, hnew⟩
    · exact (h.outside o a hold).frame (congrFun hkeep.2.2.1 a) (by rw [hkeep.2.1])
        (fun c hc => hkeep.1 ▸ hc)
    · rw [Place.outside.injEq] at hnew
      rw [hnew]
      refine ⟨?_, c, ?_, ?_⟩
      · rw [hkeep.2.2.1]
        exact hsize
      · rw [hkeep.1]
        exact hc
      · rw [hkeep.2.1, hkeep.2.2.1, hflag]
        exact hle
  · have hj := h.segs j
    refine ⟨?_, ?_, fun a ha => ?_, fun a n₁ n₂ h₁ h₂ => ?_, fun a n hn => ?_, fun a ha => ?_⟩
    · rw [(hsegs j).2.2.1]
      exact hj.start
    · rw [(hsegs j).2.2.1]
      exact hj.fits
    · rw [(hsegs j).2.2.1] at ha
      rw [(hsegs j).1]
      exact hj.zero a ha
    · exact hj.keys a n₁ n₂ ((hiff j a n₁).mp h₁) ((hiff j a n₂).mp h₂)
    · rw [hiff] at hn
      obtain ⟨hchunk, hstart, hlt, hnot⟩ := hj.shadow a n hn
      rw [hkeep.1, (hsegs j).2.2.1]
      refine ⟨hchunk, hstart, hlt, fun k hk => ?_⟩
      rcases (hsegs k).2.2.2.2 n hk with hk | ⟨rfl, -⟩
      · exact hnot k hk
      · exact hshadow j a hn
    · rw [hkeep.1]
      rcases (hsegs j).2.2.2.2 a ha with ha | ⟨rfl, -⟩
      · exact hj.young a ha
      · exact ⟨c, hc⟩
  · have hji : j ≠ i := by
      rintro rfl
      exact hj hi
    rw [hother j hji]
    exact h.absent j hj
  · exact h.values j k a a' n ((hiff j a n).mp h₁) ((hiff k a' n).mp h₂)
  · rcases (hsegs j).2.2.2.2 a h₁ with h₁ | ⟨rfl, rfl⟩
    · rcases (hsegs k).2.2.2.2 a h₂ with h₂ | ⟨rfl, -⟩
      · exact h.young_apart j k a h₁ h₂
      · exact absurd h₁ (hyoung j)
    · rcases (hsegs k).2.2.2.2 a h₂ with h₂ | ⟨-, rfl⟩
      · exact absurd h₂ (hyoung k)
      · rfl
  · refine hl.frame_of_mem (by omega) (fun o ho p hp => ?_) (fun _ j a n _ => (hiff j a n).mpr)
      fun o a _ _ => ?_
    · rw [hplace, Function.update_of_ne (Nat.ne_of_lt ho)] at hp
      exact hp
    · rw [hkeep.2.1, hkeep.2.2.1]
      exact ⟨rfl, rfl, fun _ => rfl⟩

theorem Inv.allocate_external (h : Inv NB_SEGMENTS s) (hl : LogInv s ids hashes)
    (hi : i ∈ segment_nums NB_SEGMENTS) (hsize : 16 ≤ size) (hm : may_malloc s obj size)
    (ht : t = { ((s.malloc obj size).set i { s.segs i with
          young_outside_nursery := obj :: (s.segs i).young_outside_nursery }).move s.created
        (.outside obj) with
      created := s.created + 1
      size := Function.update s.size obj size
      mem := fun a => if obj ≤ a ∧ a < obj + size then 0 else s.mem a }) :
    Inv NB_SEGMENTS t ∧ LogInv t ids hashes := by
  have hpos : 0 < size := by omega
  obtain ⟨hfree, hshadow, hyoung⟩ := h.new_address (h.new_chunk hm hpos)
  have hlog : LogInv (s.malloc obj size) ids hashes :=
    hl.frame_of_mem le_rfl (fun _ _ _ hp => hp) (fun _ _ _ _ _ hs => hs)
      fun _ _ _ _ => ⟨rfl, rfl, fun _ => rfl⟩
  have hzero : ∀ a, ¬ (obj ≤ a ∧ a < obj + size) →
      (if obj ≤ a ∧ a < obj + size then 0 else s.mem a) = s.mem a := fun a ha => if_neg ha
  have hchunk : (obj, size) ∈ (s.malloc obj size).chunks := List.mem_cons_self
  refine ((h.malloc hm hpos).fill hchunk hfree le_rfl hzero).new_outside
    (hlog.fill (h.malloc hm hpos) hchunk hfree le_rfl hzero) hi ?_ hchunk ?_ ?_ hfree hshadow hyoung ht
  · dsimp only
    rw [Function.update_self]
    exact hsize
  · dsimp only
    rw [Function.update_self]
  · dsimp only
    rw [if_pos ⟨le_rfl, by omega⟩]
    exact has_shadow_zero

/-! ## Writes -/

theorem Inv.nursery_write (h : Inv NB_SEGMENTS s) (hl : LogInv s ids hashes) {off : ℕ} {w : Long}
    (ho : s.place o = some (.nursery i obj)) (hoff : off < (s.segs i).size obj)
    (hw : may_write_flags true off ((s.segs i).nursery obj) w) :
    Inv NB_SEGMENTS (s.set i { s.segs i with
        nursery := Function.update (s.segs i).nursery (obj + off) w })
      ∧ LogInv (s.set i { s.segs i with
        nursery := Function.update (s.segs i).nursery (obj + off) w }) ids hashes := by
  generalize hseg : ({ s.segs i with
    nursery := Function.update (s.segs i).nursery (obj + off) w } : Segment) = seg
  have hobj := h.nursery o i obj ho
  have hsegs : ∀ j, ((s.set i seg).segs j).nursery_current = (s.segs j).nursery_current
      ∧ ((s.set i seg).segs j).size = (s.segs j).size
      ∧ ((s.set i seg).segs j).nursery_objects_shadows = (s.segs j).nursery_objects_shadows
      ∧ ((s.set i seg).segs j).young_outside_nursery = (s.segs j).young_outside_nursery
      ∧ ∀ a, (j = i → a ≠ obj + off) → ((s.set i seg).segs j).nursery a = (s.segs j).nursery a := by
    intro j
    by_cases hj : j = i
    · rw [hj, segs_set_self, ← hseg]
      exact ⟨rfl, rfl, rfl, rfl, fun a ha => Function.update_of_ne (ha rfl) _ _⟩
    · rw [segs_set_of_ne _ _ hj]
      exact ⟨rfl, rfl, rfl, rfl, fun _ _ => rfl⟩
  have hiff : ∀ j a n, is_shadow (s.set i seg) j a n ↔ is_shadow s j a n := by
    intro j a n
    unfold is_shadow
    rw [(hsegs j).2.2.1]
  -- what the first word of an object says is the same
  have hword : ∀ o' j a, s.place o' = some (.nursery j a) →
      has_shadow (((s.set i seg).segs j).nursery a) = has_shadow ((s.segs j).nursery a)
        ∧ young_flags (((s.set i seg).segs j).nursery a) := by
    intro o' j a ho'
    have hobj' := h.nursery o' j a ho'
    by_cases hat : j = i ∧ a = obj + off
    · obtain ⟨rfl, rfl⟩ := hat
      have h16 := hobj'.size
      have hoff0 : off = 0 := by
        by_contra hne
        have happart := h.nursery_apart o' o j _ obj ho' ho (by omega)
        omega
      obtain ⟨hsame, hyoung⟩ := hw hoff0
      rw [segs_set_self, ← hseg]
      dsimp only
      rw [Function.update_self, hsame, hoff0]
      exact ⟨rfl, hyoung rfl⟩
    · rw [(hsegs j).2.2.2.2 a fun hj ha => hat ⟨hj, ha⟩]
      exact ⟨rfl, hobj'.flags⟩
  refine ⟨⟨h.chunks, h.apart, h.created, h.different, fun o' j a ho' => ?_,
    fun o₁ o₂ j a a' => ?_, fun o a ho => ?_, fun j => ?_, fun j hj => ?_,
    fun j k a a' n h₁ h₂ => ?_, fun j k a h₁ h₂ => ?_⟩, ?_⟩
  · have hobj' := h.nursery o' j a ho'
    refine ⟨hobj'.start, ?_, ?_, (hword o' j a ho').2, fun hf => ?_, fun n hn => ?_⟩
    · rw [(hsegs j).2.1]
      exact hobj'.size
    · rw [(hsegs j).1, (hsegs j).2.1]
      exact hobj'.fits
    · rw [(hword o' j a ho').1] at hf
      obtain ⟨n, hn⟩ := hobj'.shadow hf
      exact ⟨n, (hiff j a n).mpr hn⟩
    · rw [(hword o' j a ho').1, (hsegs j).2.1]
      exact hobj'.target n ((hiff j a n).mp hn)
  · rw [(hsegs j).2.1]
    exact h.nursery_apart o₁ o₂ j a a'
  · exact (h.outside o a ho).frame rfl rfl (fun _ hc => hc)
  · have hj := h.segs j
    refine ⟨?_, ?_, fun a ha => ?_, fun a n₁ n₂ h₁ h₂ => ?_, fun a n hn => ?_, fun a ha => ?_⟩
    · rw [(hsegs j).1]
      exact hj.start
    · rw [(hsegs j).1]
      exact hj.fits
    · rw [(hsegs j).1] at ha
      rw [(hsegs j).2.2.2.2 a]
      · exact hj.zero a ha
      · rintro rfl rfl
        have hfits := hobj.fits
        omega
    · exact hj.keys a n₁ n₂ ((hiff j a n₁).mp h₁) ((hiff j a n₂).mp h₂)
    · obtain ⟨hchunk, hstart, hlt, hnot⟩ := hj.shadow a n ((hiff j a n).mp hn)
      rw [(hsegs j).1]
      refine ⟨hchunk, hstart, hlt, fun k hk => ?_⟩
      rw [(hsegs k).2.2.2.1] at hk
      exact hnot k hk
    · rw [(hsegs j).2.2.2.1] at ha
      exact hj.young a ha
  · rw [(hsegs j).1, (hsegs j).2.2.2.1]
    exact h.absent j hj
  · exact h.values j k a a' n ((hiff j a n).mp h₁) ((hiff k a' n).mp h₂)
  · rw [(hsegs j).2.2.2.1] at h₁
    rw [(hsegs k).2.2.2.1] at h₂
    exact h.young_apart j k a h₁ h₂
  · exact hl.frame_of_mem le_rfl (fun _ _ _ hp => hp) (fun _ j a n _ => (hiff j a n).mpr)
      fun _ _ _ _ => ⟨rfl, rfl, fun _ => rfl⟩

/-- The memory outside changes, but neither the flags nor the hashes there. -/
theorem Inv.write_mem (h : Inv NB_SEGMENTS s) (hl : LogInv s ids hashes) {mem : ℕ → Long}
    (hmem : ∀ o a, s.place o = some (.outside a) → has_shadow (mem a) = has_shadow (s.mem a)
      ∧ (has_shadow (s.mem a) = true → mem (a + s.size a) = s.mem (a + s.size a))) :
    Inv NB_SEGMENTS { s with mem := mem } ∧ LogInv { s with mem := mem } ids hashes := by
  refine ⟨⟨h.chunks, h.apart, h.created, h.different, fun o i a ho => ?_, h.nursery_apart,
    fun o a ho => ?_, fun i => ?_, h.absent, h.values, h.young_apart⟩, ?_⟩
  · exact (h.nursery o i a ho).frame rfl le_rfl rfl (fun _ => Iff.rfl) (fun _ _ _ ho => ho)
      (fun _ _ _ hc => hc)
  · exact (h.outside o a ho).frame rfl (hmem o a ho).1 (fun _ hc => hc)
  · exact (h.segs i).frame rfl (fun _ _ _ hj => hj) (fun _ _ _ hc => hc)
  · exact hl.frame_of_mem le_rfl (fun _ _ _ hp => hp) (fun _ _ _ _ _ hs => hs)
      fun o a ho _ => ⟨rfl, hmem o a ho⟩

theorem Inv.write (h : Inv NB_SEGMENTS s) (hl : LogInv s ids hashes) {off : ℕ} {w : Long}
    (ho : s.place o = some (.outside obj)) (hoff : off < s.size obj)
    (hw : may_write_flags false off (s.mem obj) w) :
    Inv NB_SEGMENTS { s with mem := Function.update s.mem (obj + off) w }
      ∧ LogInv { s with mem := Function.update s.mem (obj + off) w } ids hashes := by
  refine h.write_mem hl fun o' a ho' => ?_
  by_cases ha : a = obj
  · rw [ha]
    refine ⟨?_, fun _ => Function.update_of_ne (by omega) _ _⟩
    by_cases hoff0 : off = 0
    · rw [hoff0, Nat.add_zero, Function.update_self]
      exact (hw hoff0).1
    · rw [Function.update_of_ne (by omega)]
  · -- another object, in another chunk
    obtain ⟨c, hc, hle⟩ := (h.outside o obj ho).chunk
    have hfree : s.place o' ≠ some (.outside obj) := by
      rw [ho', Ne, Option.some.injEq, Place.outside.injEq]
      exact ha
    have hne := h.ne_of_chunk ho' hc hfree (by omega) (b := obj + off) (k := s.size obj)
      ⟨by omega, by omega⟩
    rw [Function.update_of_ne hne.1]
    exact ⟨rfl, fun hf => Function.update_of_ne (hne.2 hf) _ _⟩

theorem Inv.largemalloc_write (h : Inv NB_SEGMENTS s) (hl : LogInv s ids hashes) {addr : ℕ}
    {w : Long} (haddr : ∀ c ∈ s.chunks, addr < c.1 ∨ c.1 + c.2 ≤ addr) :
    Inv NB_SEGMENTS { s with mem := Function.update s.mem addr w }
      ∧ LogInv { s with mem := Function.update s.mem addr w } ids hashes := by
  refine h.write_mem hl fun o a ho => ?_
  obtain ⟨c, hc, hle⟩ := (h.outside o a ho).chunk
  have h16 := (h.outside o a ho).size
  have hout := haddr _ hc
  dsimp only at hout
  rw [Function.update_of_ne (by omega)]
  refine ⟨rfl, fun hf => Function.update_of_ne ?_ _ _⟩
  rw [hf, if_pos rfl] at hle
  omega

/-! ## Collections -/

theorem place_filter {keep : Place → Bool} {p : Place}
    (hp : (s.place o).filter keep = some p) : s.place o = some p ∧ keep p = true := by
  rwa [Option.filter_eq_some_iff] at hp

/-- Objects and chunks go away. -/
theorem Inv.different_filter (h : Inv NB_SEGMENTS s) {keep : Place → Bool} (o o' : ℕ)
    (heq : (s.place o).filter keep = (s.place o').filter keep)
    (hne : (s.place o).filter keep ≠ none) : o = o' := by
  obtain ⟨p, hp⟩ := Option.ne_none_iff_exists'.mp hne
  have h₁ := (place_filter hp).1
  have h₂ := (place_filter (heq.symm.trans hp)).1
  exact h.different o o' (h₁.trans h₂.symm) (by rw [h₁]; nofun)

theorem Inv.throw_away_nursery (h : Inv NB_SEGMENTS s) (hl : LogInv s ids hashes) :
    Inv NB_SEGMENTS (HashId.throw_away_nursery s i)
      ∧ LogInv (HashId.throw_away_nursery s i) ids hashes := by
  generalize ht : HashId.throw_away_nursery s i = t
  unfold HashId.throw_away_nursery at ht
  have hseg : (t.segs i).nursery_current = NURSERY_START ∧ (∀ a, (t.segs i).nursery a = 0)
      ∧ (t.segs i).nursery_objects_shadows = [] ∧ (t.segs i).young_outside_nursery = [] := by
    rw [← ht]
    dsimp only
    rw [segs_set_self]
    exact ⟨rfl, fun _ => rfl, rfl, rfl⟩
  have hother : ∀ j, j ≠ i → t.segs j = s.segs j := by
    intro j hj
    rw [← ht]
    exact segs_set_of_ne _ _ hj
  have hchunks : ∀ c, c ∈ t.chunks ↔ c ∈ s.chunks ∧ c.1 ∉ (s.segs i).young_outside_nursery := by
    intro c
    rw [← ht]
    dsimp only
    rw [List.mem_filter, decide_eq_true_eq]
  have hplace : ∀ o p, t.place o = some p →
      s.place o = some p ∧ thrown_away (s.segs i) i p = false := by
    intro o p hp
    rw [← ht] at hp
    obtain ⟨hold, hkeep⟩ := place_filter hp
    rw [Bool.not_eq_true'] at hkeep
    exact ⟨hold, hkeep⟩
  have hmem : t.mem = s.mem ∧ t.size = s.size ∧ t.created = s.created := by
    rw [← ht]
    exact ⟨rfl, rfl, rfl⟩
  have hyoung : ∀ j, ∀ a ∈ (t.segs j).young_outside_nursery,
      a ∈ (s.segs j).young_outside_nursery ∧ j ≠ i := by
    intro j a ha
    by_cases hj : j = i
    · rw [hj, hseg.2.2.2] at ha
      cases ha
    · rw [hother j hj] at ha
      exact ⟨ha, hj⟩
  -- what stays in a nursery is in that of another segment
  have hnursery : ∀ o j a, t.place o = some (.nursery j a) →
      s.place o = some (.nursery j a) ∧ j ≠ i := by
    intro o j a ho
    obtain ⟨hold, hkeep⟩ := hplace o _ ho
    exact ⟨hold, of_decide_eq_false hkeep⟩
  have hiff : ∀ j a n, is_shadow t j a n ↔ is_shadow s j a n ∧ j ≠ i := by
    intro j a n
    unfold is_shadow
    by_cases hj : j = i
    · rw [hj, hseg.2.2.1]
      simp
    · rw [hother j hj]
      exact ⟨fun hn => ⟨hn, hj⟩, fun hn => hn.1⟩
  -- and its shadow stays
  have hshadow : ∀ j a n c, is_shadow s j a n → (n, c) ∈ s.chunks → (n, c) ∈ t.chunks :=
    fun j a n c hn hc => (hchunks _).mpr ⟨hc, ((h.segs j).shadow a n hn).2.2.2 i⟩
  refine ⟨⟨fun c hc => h.chunks c ((hchunks c).mp hc).1, fun c hc d hd => ?_, fun o ho => ?_, ?_,
    fun o j a ho => ?_, fun o₁ o₂ j a a' h₁ h₂ => ?_, fun o a ho => ?_, fun j => ?_,
    fun j hj => ?_, fun j k a a' n h₁ h₂ => ?_, fun j k a h₁ h₂ => ?_⟩, ?_⟩
  · exact h.apart c ((hchunks c).mp hc).1 d ((hchunks d).mp hd).1
  · rw [hmem.2.2] at ho
    rw [← ht]
    dsimp only
    rw [h.created o ho]
    rfl
  · rw [← ht]
    exact h.different_filter
  · obtain ⟨hold, hj⟩ := hnursery o j a ho
    refine (h.nursery o j a hold).frame (by rw [hother j hj]) (by rw [hother j hj])
      (by rw [hother j hj]) (fun n => ?_) (fun n o' _ ho' => (hplace o' _ ho').1)
      (fun n c hn hc => hshadow j a n c hn hc)
    rw [hiff]
    exact ⟨fun hn => hn.1, fun hn => ⟨hn, hj⟩⟩
  · obtain ⟨hold₁, hj⟩ := hnursery o₁ j a h₁
    rw [hother j hj]
    exact h.nursery_apart o₁ o₂ j a a' hold₁ (hnursery o₂ j a' h₂).1
  · obtain ⟨hold, hkeep⟩ := hplace o _ ho
    exact (h.outside o a hold).frame (congrFun hmem.2.1 a) (by rw [hmem.1])
      fun c hc => (hchunks _).mpr ⟨hc, of_decide_eq_false hkeep⟩
  · by_cases hj : j = i
    · rw [hj]
      refine ⟨hseg.1.ge, ?_, fun a _ => hseg.2.1 a, fun a n n' hn => ?_, fun a n hn => ?_,
        fun a ha => ?_⟩
      · rw [hseg.1]
        exact (h.segs i).start.trans (h.segs i).fits
      · exact absurd rfl ((hiff i a n).mp hn).2
      · exact absurd rfl ((hiff i a n).mp hn).2
      · rw [hseg.2.2.2] at ha
        cases ha
    · refine (h.segs j).frame (hother j hj) (fun n k _ hk => (hyoung k n hk).1)
        (fun n c hn hc => ?_)
      rcases hn with ⟨a, hn⟩ | hn
      · exact hshadow j a n c hn hc
      · exact (hchunks _).mpr ⟨hc, fun hi => hj (h.young_apart j i n hn hi)⟩
  · by_cases hji : j = i
    · rw [hji]
      exact ⟨hseg.1, hseg.2.2.2⟩
    · rw [hother j hji]
      exact h.absent j hj
  · exact h.values j k a a' n ((hiff j a n).mp h₁).1 ((hiff k a' n).mp h₂).1
  · exact h.young_apart j k a (hyoung j a h₁).1 (hyoung k a h₂).1
  · refine hl.frame_of_mem hmem.2.2.ge (fun o _ p hp => (hplace o p hp).1)
      (fun o j a n ho hn => (hiff j a n).mpr ⟨hn, (hnursery o j a ho).2⟩) fun _ _ _ _ => ?_
    rw [hmem.1, hmem.2.1]
    exact ⟨rfl, rfl, fun _ => rfl⟩

/-- Nothing is in the nurseries. -/
theorem Inv.nothing_young (h : Inv NB_SEGMENTS s)
    (hnothing : ∀ i ∈ segment_nums NB_SEGMENTS, minor_nothing_to_do (s.segs i)) (i : ℕ) :
    (s.segs i).nursery_current = NURSERY_START ∧ (s.segs i).young_outside_nursery = [] := by
  by_cases hi : i ∈ segment_nums NB_SEGMENTS
  · exact hnothing i hi
  · exact h.absent i hi

theorem Inv.sweep (h : Inv NB_SEGMENTS s) (hl : LogInv s ids hashes) {visited : List ℕ}
    (hnothing : ∀ i ∈ segment_nums NB_SEGMENTS, minor_nothing_to_do (s.segs i)) :
    Inv NB_SEGMENTS (HashId.sweep s visited)
      ∧ LogInv (HashId.sweep s visited) ids hashes := by
  have hnone := h.nothing_young hnothing
  have hnursery : ∀ o i a, s.place o ≠ some (.nursery i a) := by
    intro o i a ho
    have hobj := h.nursery o i a ho
    have hstart := hobj.start
    have hfits := hobj.fits
    have h16 := hobj.size
    rw [(hnone i).1] at hfits
    omega
  have hshadow : ∀ i a n, ¬ is_shadow s i a n := by
    intro i a n hn
    obtain ⟨-, hstart, hlt, -⟩ := (h.segs i).shadow a n hn
    rw [(hnone i).1] at hlt
    omega
  have hplace : ∀ o p, (HashId.sweep s visited).place o = some p →
      ∃ a, s.place o = some (.outside a) ∧ p = .outside a ∧ a ∈ visited := by
    intro o p hp
    obtain ⟨hold, hkeep⟩ := place_filter hp
    cases p with
    | nursery i a => exact absurd hold (hnursery o i a)
    | outside a => exact ⟨a, hold, rfl, of_decide_eq_true hkeep⟩
  have hchunks : ∀ c, c ∈ (HashId.sweep s visited).chunks ↔ c ∈ s.chunks ∧ c.1 ∈ visited := by
    intro c
    unfold HashId.sweep
    rw [List.mem_filter, decide_eq_true_eq]
  refine ⟨⟨fun c hc => h.chunks c ((hchunks c).mp hc).1, fun c hc d hd => ?_, fun o ho => ?_,
    h.different_filter, fun o i a ho => ?_, fun o _ i a _ ho => ?_, fun o a ho => ?_,
    fun i => ?_, h.absent, h.values, h.young_apart⟩, ?_⟩
  · exact h.apart c ((hchunks c).mp hc).1 d ((hchunks d).mp hd).1
  · unfold HashId.sweep
    dsimp only
    rw [h.created o ho]
    rfl
  · obtain ⟨b, hold, heq, -⟩ := hplace o _ ho
    cases heq
  · obtain ⟨b, hold, heq, -⟩ := hplace o _ ho
    cases heq
  · obtain ⟨b, hold, heq, hvisited⟩ := hplace o _ ho
    rw [Place.outside.injEq] at heq
    subst heq
    exact (h.outside o a hold).frame rfl rfl fun c hc => (hchunks _).mpr ⟨hc, hvisited⟩
  · refine (h.segs i).frame rfl (fun _ _ _ hj => hj) fun n c hn _ => ?_
    rcases hn with ⟨a, hn⟩ | hn
    · exact absurd hn (hshadow i a n)
    · rw [(hnone i).2] at hn
      cases hn
  · refine hl.frame_of_mem le_rfl (fun o _ p hp => ?_) (fun _ _ _ _ _ hn => hn)
      fun _ _ _ _ => ⟨rfl, rfl, fun _ => rfl⟩
    obtain ⟨a, hold, rfl, -⟩ := hplace o p hp
    exact hold

/-- Each step keeps the invariant and the answers. -/
theorem step_inv {a : Act} (h : Inv NB_SEGMENTS s) (hl : LogInv s ids hashes)
    (hs : step NB_SEGMENTS s a = .next t) : Inv NB_SEGMENTS t ∧ LogInv t ids hashes := by
  unfold step at hs
  obtain ⟨hseg, hs⟩ := guarded_eq_next.mp hs
  cases a with
  | stm_allocate i size =>
      obtain ⟨⟨-, hsize, hfits⟩, hs⟩ := guarded_eq_next.mp hs
      rw [Outcome.next.injEq] at hs
      exact h.stm_allocate hl (hseg i rfl) hsize hfits hs.symm
  | allocate_external i obj size =>
      obtain ⟨⟨-, hsize, hm⟩, hs⟩ := guarded_eq_next.mp hs
      rw [Outcome.next.injEq] at hs
      exact h.allocate_external hl (hseg i rfl) hsize hm hs.symm
  | nursery_write i o off w =>
      unfold step_segment at hs
      dsimp only at hs
      split at hs
      · rename_i j obj ho
        obtain ⟨⟨rfl, -, -, hoff, hw⟩, hs⟩ := guarded_eq_next.mp hs
        rw [Outcome.next.injEq] at hs
        rw [← hs]
        exact h.nursery_write hl ho hoff hw
      · cases hs
  | write o off w =>
      unfold step_segment at hs
      dsimp only at hs
      split at hs
      · rename_i obj ho
        obtain ⟨⟨-, hoff, hw⟩, hs⟩ := guarded_eq_next.mp hs
        rw [Outcome.next.injEq] at hs
        rw [← hs]
        exact h.write hl ho hoff hw
      · cases hs
  | largemalloc_write addr w =>
      obtain ⟨haddr, hs⟩ := guarded_eq_next.mp hs
      rw [Outcome.next.injEq] at hs
      rw [← hs]
      exact h.largemalloc_write hl haddr
  | minor_collection i =>
      obtain ⟨-, hs⟩ := guarded_eq_next.mp hs
      rw [Outcome.next.injEq] at hs
      rw [← hs]
      exact h.set_young hl rfl rfl rfl rfl fun _ ha => ha
  | minor_trace_if_young i obj nobj =>
      obtain ⟨⟨-, hobj, hm⟩, hs⟩ := guarded_eq_next.mp hs
      rw [Outcome.ofOption_eq_next] at hs
      exact h.minor_trace_if_young hl hobj hm hs
  | throw_away_nursery i =>
      have hs' : HashId.throw_away_nursery s i = t := Outcome.next.inj hs
      rw [← hs']
      exact h.throw_away_nursery hl
  | major_collection visited =>
      obtain ⟨hnothing, hs⟩ := guarded_eq_next.mp hs
      rw [Outcome.next.injEq] at hs
      rw [← hs]
      exact h.sweep hl hnothing

/-! ## Requests -/

/-- The right answer to one of the two requests. -/
def answer_of (s : St) (is_hash : Bool) (v : Long) (p : Place) : Prop :=
  if is_hash then hash_of s v p else id_of s v p

theorem Inv.find_shadow {nobj : ℕ} (h : Inv NB_SEGMENTS s) (hl : LogInv s ids hashes)
    (ho : s.place o = some (.nursery i obj))
    (hm : has_shadow ((s.segs i).nursery obj) = false →
      may_malloc s nobj ((s.segs i).size obj)) :
    ∃ n t, HashId.find_shadow s i obj nobj = some (n, t) ∧ Inv NB_SEGMENTS t
      ∧ LogInv t ids hashes ∧ t.place = s.place ∧ is_shadow t i obj n := by
  unfold HashId.find_shadow
  by_cases hflag : has_shadow ((s.segs i).nursery obj) = true
  · obtain ⟨n, hn⟩ := (h.nursery o i obj ho).shadow hflag
    refine ⟨n, s, ?_, h, hl, rfl, hn⟩
    rw [if_pos hflag, h.find_existing_shadow hn]
    rfl
  · rw [if_neg hflag]
    rw [Bool.not_eq_true] at hflag
    obtain ⟨hinv, hlog, hn⟩ := h.allocate_shadow hl ho hflag (hm hflag)
    exact ⟨nobj, _, rfl, hinv, hlog, rfl, hn⟩

/-- There is an answer, and it is right. -/
theorem Inv.id_or_identityhash {nobj : ℕ} (h : Inv NB_SEGMENTS s) (hl : LogInv s ids hashes)
    (is_hash : Bool) (hobj : address s i o = some obj)
    (hm : takes_chunk s i obj = true → may_malloc s nobj ((s.segs i).size obj)) :
    ∃ v t p, HashId.id_or_identityhash s i obj is_hash nobj = some (v, t) ∧ Inv NB_SEGMENTS t
      ∧ LogInv t ids hashes ∧ t.place o = some p ∧ answer_of t is_hash v p := by
  unfold address at hobj
  split at hobj
  · -- in the nursery of the segment: the answer comes from the shadow
    rename_i j a ho
    split at hobj
    · rename_i hj
      rw [Option.some.injEq] at hobj
      subst hj hobj
      have hin := h.is_in_nursery ho
      have hm' : has_shadow ((s.segs j).nursery a) = false →
          may_malloc s nobj ((s.segs j).size a) := by
        intro hflag
        apply hm
        unfold takes_chunk
        rw [hin, hflag]
        rfl
      obtain ⟨n, t, hfind, hinv, hlog, hplace, hn⟩ := h.find_shadow hl ho hm'
      refine ⟨if is_hash then mangle_hash (BitVec.ofNat 64 n) else BitVec.ofNat 64 n, t, _, ?_,
        hinv, hlog, (congrFun hplace o).trans ho, ?_⟩
      · unfold HashId.id_or_identityhash
        rw [hin, hfind, Bool.not_true, Bool.and_false, Bool.false_and, if_neg nofun]
        rfl
      · cases is_hash with
        | false => exact ⟨n, hn, rfl⟩
        | true => exact ⟨n, hn, rfl⟩
    · cases hobj
  · rename_i a ho
    rw [Option.some.injEq] at hobj
    subst hobj
    have hin := h.not_in_nursery ho
    unfold HashId.id_or_identityhash
    rw [hin, Bool.not_false, Bool.and_true]
    by_cases hword : (is_hash && has_shadow (s.mem a)) = true
    · -- a prebuilt object with its hash behind it
      rw [if_pos hword]
      refine ⟨s.mem (a + s.size a), s, _, rfl, h, hl, ho, ?_⟩
      rw [Bool.and_eq_true] at hword
      unfold answer_of hash_of
      dsimp only
      rw [if_pos hword.1, if_pos hword.2]
    · rw [if_neg hword]
      refine ⟨if is_hash then mangle_hash (BitVec.ofNat 64 a) else BitVec.ofNat 64 a, s, _, rfl, h,
        hl, ho, ?_⟩
      cases is_hash with
      | false => rfl
      | true =>
          rw [Bool.true_and] at hword
          unfold answer_of hash_of
          dsimp only
          rw [if_pos rfl, if_neg hword]
          rfl
  · cases hobj

theorem Inv.request {nobj : ℕ} (h : Inv NB_SEGMENTS s) (hl : LogInv s ids hashes)
    {is_hash : Bool} {v : Long} (hs : request s i o nobj is_hash = .next (v, t)) :
    Inv NB_SEGMENTS t ∧ LogInv t ids hashes
      ∧ ∃ p, t.place o = some p ∧ answer_of t is_hash v p := by
  unfold HashId.request at hs
  split at hs
  · cases hs
  · rename_i obj hobj
    obtain ⟨⟨-, hm⟩, hs⟩ := guarded_eq_next.mp hs
    obtain ⟨v', t', p, heq, hinv, hlog, hp, hv⟩ := h.id_or_identityhash hl is_hash hobj hm
    rw [Outcome.ofOption_eq_next, heq, Option.some.injEq, Prod.mk.injEq] at hs
    rw [← hs.1, ← hs.2]
    exact ⟨hinv, hlog, p, hp, hv⟩

/-! ## Runs -/

theorem Initial.inv (h : Initial s) : Inv NB_SEGMENTS s := by
  have hplace : ∀ o p, s.place o = some p →
      ∃ a, p = .outside a ∧ 16 ≤ s.size a ∧ (a, s.size a + 8) ∈ s.chunks := by
    intro o p hp
    have ho : o < s.created := by
      by_contra hlt
      rw [h.created o (Nat.le_of_not_lt hlt)] at hp
      cases hp
    obtain ⟨a, ha, hsize, hchunk⟩ := h.prebuilt o ho
    rw [hp, Option.some.injEq] at ha
    exact ⟨a, ha, hsize, hchunk⟩
  have hshadow : ∀ i a n, ¬ is_shadow s i a n := by
    intro i a n hn
    unfold is_shadow at hn
    rw [(h.segs i).2.2.1] at hn
    cases hn
  have hyoung : ∀ i a, a ∉ (s.segs i).young_outside_nursery := by
    intro i a ha
    rw [(h.segs i).2.2.2] at ha
    cases ha
  refine ⟨h.chunks, h.apart, h.created, h.different, fun o i a ho => ?_,
    fun o _ i a _ ho => ?_, fun o a ho => ?_, fun i => ?_,
    fun i _ => ⟨(h.segs i).1, (h.segs i).2.2.2⟩, fun i _ a _ n hn => absurd hn (hshadow i a n),
    fun i _ a ha => absurd ha (hyoung i a)⟩
  · obtain ⟨b, heq, -⟩ := hplace o _ ho
    cases heq
  · obtain ⟨b, heq, -⟩ := hplace o _ ho
    cases heq
  · obtain ⟨b, heq, hsize, hchunk⟩ := hplace o _ ho
    rw [Place.outside.injEq] at heq
    subst heq
    refine ⟨hsize, _, hchunk, ?_⟩
    -- there is room for the hash, whether it has been set or not
    split
    · exact le_rfl
    · exact Nat.le_add_right _ _
  · obtain ⟨hcurrent, hzero, -, -⟩ := h.segs i
    refine ⟨hcurrent.ge, ?_, fun a _ => hzero a, fun a n _ hn => absurd hn (hshadow i a n),
      fun a n hn => absurd hn (hshadow i a n), fun a ha => absurd ha (hyoung i a)⟩
    rw [hcurrent]
    decide

/-- The answers so far, and the state. -/
def Recorded.Inv (NB_SEGMENTS : ℕ) (r : Recorded) : Prop :=
  HashId.Inv NB_SEGMENTS r.st ∧ LogInv r.st r.ids r.hashes

theorem Recorded.Inv.step {r r' : Recorded} {e : Event} (h : r.Inv NB_SEGMENTS)
    (hs : recorded_step NB_SEGMENTS r e = .next r') : r'.Inv NB_SEGMENTS := by
  cases e with
  | act a =>
      obtain ⟨s, hstep, hs⟩ := Outcome.bind_eq_next.mp hs
      rw [Outcome.next.injEq] at hs
      rw [← hs]
      exact step_inv h.1 h.2 hstep
  | stm_id i o nobj =>
      obtain ⟨⟨v, s⟩, hreq, hs⟩ := Outcome.bind_eq_next.mp hs
      rw [Outcome.next.injEq] at hs
      rw [← hs]
      obtain ⟨hinv, hlog, p, hp, hv⟩ := h.1.request h.2 hreq
      exact ⟨hinv, hlog.log_id hinv hp hv⟩
  | stm_identityhash i o nobj =>
      obtain ⟨⟨v, s⟩, hreq, hs⟩ := Outcome.bind_eq_next.mp hs
      rw [Outcome.next.injEq] at hs
      rw [← hs]
      obtain ⟨hinv, hlog, p, hp, hv⟩ := h.1.request h.2 hreq
      exact ⟨hinv, hlog.log_hash hinv hp hv⟩

theorem recorded_inv_of_reachable {r : Recorded}
    (h : Reachable Recorded.Initial (recorded_step NB_SEGMENTS) r) : r.Inv NB_SEGMENTS := by
  refine h.invariant (fun r h0 => ⟨h0.st.inv, ?_⟩) fun _ _ _ hinv _ hs => hinv.step hs
  rw [h0.requests.1, h0.requests.2]
  exact ⟨nofun, nofun, nofun, nofun, by rintro o (⟨v, hv⟩ | ⟨v, hv⟩) <;> cases hv⟩

/-- The addresses fit in a `long`. -/
theorem Inv.ofNat_inj (h : Inv NB_SEGMENTS s) {a b c d : ℕ} (ha : (a, c) ∈ s.chunks)
    (hb : (b, d) ∈ s.chunks) (heq : BitVec.ofNat 64 a = BitVec.ofNat 64 b) : a = b := by
  have hab := congrArg BitVec.toNat heq
  rw [BitVec.toNat_ofNat, BitVec.toNat_ofNat] at hab
  have hbound : NB_PAGES * 4096 < 2 ^ 64 := by decide
  obtain ⟨-, hafits, -⟩ := h.chunks _ ha
  obtain ⟨-, hbfits, -⟩ := h.chunks _ hb
  dsimp only at hafits hbfits
  rw [Nat.mod_eq_of_lt (by omega), Nat.mod_eq_of_lt (by omega)] at hab
  exact hab

/-- Objects at different places have different ids. -/
theorem Inv.id_of_inj (h : Inv NB_SEGMENTS s) {o' : ℕ} {p p' : Place} {v : Long}
    (ho : s.place o = some p) (ho' : s.place o' = some p') (hv : id_of s v p)
    (hv' : id_of s v p') : o = o' := by
  -- an object of the nursery with a shadow, and an object outside
  have hmixed : ∀ {o o' i a b}, s.place o = some (.nursery i a) →
      s.place o' = some (.outside b) → ¬ (id_of s v (.nursery i a) ∧ id_of s v (.outside b)) := by
    rintro o o' i a b ho ho' ⟨⟨n, hn, hv⟩, hv'⟩
    obtain ⟨-, hfree, c, hc, -⟩ := (h.nursery o i a ho).target n hn
    obtain ⟨d, hd, -⟩ := (h.outside o' b ho').chunk
    rw [← h.ofNat_inj hc hd (hv.symm.trans hv')] at ho'
    exact hfree o' ho'
  have hsame : s.place o = s.place o' → o = o' :=
    fun heq => h.different o o' heq (by rw [ho]; nofun)
  cases p with
  | nursery i a =>
      cases p' with
      | nursery j b =>
          obtain ⟨n, hn, hv⟩ := hv
          obtain ⟨n', hn', hv'⟩ := hv'
          obtain ⟨-, -, c, hc, -⟩ := (h.nursery o i a ho).target n hn
          obtain ⟨-, -, d, hd, -⟩ := (h.nursery o' j b ho').target n' hn'
          rw [← h.ofNat_inj hc hd (hv.symm.trans hv')] at hn'
          obtain ⟨rfl, rfl⟩ := h.values i j a b n hn hn'
          exact hsame (ho.trans ho'.symm)
      | outside b => exact absurd ⟨hv, hv'⟩ (hmixed ho ho')
  | outside a =>
      cases p' with
      | nursery j b => exact absurd ⟨hv', hv⟩ (hmixed ho' ho)
      | outside b =>
          obtain ⟨c, hc, -⟩ := (h.outside o a ho).chunk
          obtain ⟨d, hd, -⟩ := (h.outside o' b ho').chunk
          rw [← h.ofNat_inj hc hd (hv.symm.trans hv')] at ho'
          exact hsame (ho.trans ho'.symm)

/-- `stm_id` is constant, and it is the address of an object that is outside the
nursery; `stm_identityhash` is constant; objects that are there at the same time
have different ids. And the requests do not fail. -/
theorem stm_id_constant {r : Recorded}
    (h : Reachable Recorded.Initial (recorded_step NB_SEGMENTS) r) :
    (∀ o v v', (o, v) ∈ r.ids → (o, v') ∈ r.ids → v = v')
      ∧ (∀ o v a, (o, v) ∈ r.ids → r.st.place o = some (.outside a) → v = BitVec.ofNat 64 a)
      ∧ (∀ o v v', (o, v) ∈ r.hashes → (o, v') ∈ r.hashes → v = v')
      ∧ (∀ o o' v v', r.st.place o ≠ none → r.st.place o' ≠ none → o ≠ o' →
        (o, v) ∈ r.ids → (o', v') ∈ r.ids → v ≠ v')
      ∧ ∀ i o nobj is_hash, request r.st i o nobj is_hash ≠ .fault := by
  obtain ⟨hinv, hlog⟩ := recorded_inv_of_reachable h
  refine ⟨hlog.same_id, fun o v a hv ho => hlog.id o v hv _ ho, hlog.same_hash,
    fun o o' v v' ho ho' hne hv hv' => ?_, fun i o nobj is_hash => ?_⟩
  · rintro rfl
    obtain ⟨p, hp⟩ := Option.ne_none_iff_exists'.mp ho
    obtain ⟨p', hp'⟩ := Option.ne_none_iff_exists'.mp ho'
    exact hne (hinv.id_of_inj hp hp' (hlog.id o v hv p hp) (hlog.id o' v hv' p' hp'))
  · unfold request guarded
    split
    · nofun
    · rename_i obj hobj
      split
      · rename_i hguard
        obtain ⟨v, t, p, heq, -⟩ := hinv.id_or_identityhash hlog is_hash hobj hguard.2
        rw [heq]
        nofun
      · nofun

/-- Nothing is allocated yet. -/
def empty_heap : Recorded where
  st := {
    segs := fun _ => ⟨NURSERY_START, fun _ => 0, fun _ => 0, [], [], false⟩
    mem := fun _ => 0
    size := fun _ => 0
    chunks := []
    created := 0
    place := fun _ => none }
  ids := []
  hashes := []

/-- Two objects of the nursery. The id of the first one is taken before and
after it is moved, and its hash in between; the second one has only an id. -/
def two_objects : List Event :=
  [.act (.stm_allocate 1 16), .act (.stm_allocate 1 32), .stm_id 1 0 NURSERY_END,
    .stm_id 1 1 (NURSERY_END + 16), .stm_identityhash 1 0 0, .act (.minor_collection 1),
    .act (.minor_trace_if_young 1 NURSERY_START 0),
    .act (.minor_trace_if_young 1 (NURSERY_START + 16) 0), .act (.throw_away_nursery 1),
    .stm_id 1 0 0, .stm_identityhash 1 0 0]

theorem empty_heap_initial : empty_heap.Initial where
  st := {
    segs := fun _ => ⟨rfl, fun _ => rfl, rfl, rfl⟩
    chunks := nofun
    apart := nofun
    created := fun _ _ => rfl
    prebuilt := nofun
    different := fun _ _ _ hne => absurd rfl hne }
  requests := ⟨rfl, rfl⟩

theorem stm_id_of_two_objects : ∃ r,
    run (recorded_step 2) (fun _ _ => True) empty_heap two_objects = .next r
      ∧ r.ids.map Prod.fst = [0, 1, 0] ∧ r.hashes.map Prod.fst = [0, 0]
      ∧ (∀ v ∈ r.ids, v.1 = 0 → v.2 = BitVec.ofNat 64 NURSERY_END)
      ∧ ∀ v ∈ r.ids, ∀ v' ∈ r.ids, v.1 = 0 → v'.1 = 1 → v.2 ≠ v'.2 := by
  have htest : (run (recorded_step 2) (fun _ _ => True) empty_heap two_objects).test
      (fun r => decide (r.ids.map Prod.fst = [0, 1, 0]) && decide (r.hashes.map Prod.fst = [0, 0])
        && decide (r.st.place 0 = some (.outside NURSERY_END))
        && decide (r.st.place 1 ≠ none)) = true := by
    decide +kernel
  obtain ⟨r, hrun, htest⟩ := Outcome.of_test htest
  simp only [Bool.and_eq_true, decide_eq_true_eq] at htest
  obtain ⟨⟨⟨hids, hhashes⟩, hplace⟩, hlive⟩ := htest
  have h := stm_id_constant ((ReachableIf.start empty_heap_initial).run _ hrun)
  refine ⟨r, hrun, hids, hhashes, fun v hv h0 => ?_, fun v hv v' hv' h0 h1 => ?_⟩
  · exact h.2.1 0 v.2 NURSERY_END (h0 ▸ hv) hplace
  · exact h.2.2.2.1 0 1 v.2 v'.2 (by rw [hplace]; nofun) hlive (by decide) (h0 ▸ hv) (h1 ▸ hv')

end Run

end Stmgc.C7.HashId
