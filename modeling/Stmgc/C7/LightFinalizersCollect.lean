/-
Light finalizers and collections.

At the end of a minor collection an object of the nursery that was moved out
goes to the other list, and the finalizers of the rest are called. One that is
young outside the nursery is among the rest whether it was reached or not. A
major collection looks at the marks.
-/
import Stmgc.C7.LightFinalizersSteps

namespace Stmgc.C7.Logged

open Stmgc.Lib

variable {NB_SEGMENTS : ℕ} {t t' : Logged} {i o : ℕ} {x y : ObjRef} {r : Registration}

/-! ## Minor collections -/

theorem moved_location_eq_some {nursery : ℕ → ℕ} : moved_location nursery x = some o ↔
    ∃ w, x = .nursery w ∧ nursery w = GCWORD_MOVED ∧ nursery (w + 1) = o := by
  cases x with
  | outside o' =>
      unfold moved_location
      constructor
      · nofun
      · rintro ⟨w, hw, -⟩
        cases hw
  | nursery w =>
      constructor
      · intro h
        by_cases hmoved : nursery w = GCWORD_MOVED
        · rw [moved_location_of_moved hmoved] at h
          exact ⟨w, rfl, hmoved, Option.some.inj h⟩
        · rw [moved_location_of_not_moved hmoved] at h
          cases h
      · rintro ⟨w', hw, hmoved, ho⟩
        cases hw
        rw [moved_location_of_moved hmoved, ho]

theorem resolve_of_moved_location {nursery : ℕ → ℕ} (h : moved_location nursery x = some o) :
    resolve nursery x = .outside o := by
  unfold resolve
  rw [h]

/-- The list of old objects after a minor collection. -/
theorem SegInv.nodup_collected (h : t.SegInv NB_SEGMENTS i) :
    ((t.sys.priv i).old_objects_with_light_finalizers
      ++ (t.sys.priv i).young_objects_with_light_finalizers.filterMap
        (moved_location (t.sys.priv i).nursery)).Nodup := by
  obtain ⟨hyoung, hold, -⟩ := nodup_enlisted.mp h.nodup
  refine List.nodup_append.mpr ⟨hold, ?_, ?_⟩
  · refine List.Pairwise.filterMap _ ?_ (hyoung.imp_of_mem (S := fun x y =>
      resolve (t.sys.priv i).nursery x ≠ resolve (t.sys.priv i).nursery y) ?_)
    · rintro x y hne o ho o' ho' rfl
      rw [resolve_of_moved_location ho, resolve_of_moved_location ho'] at hne
      exact hne rfl
    · intro x y hx hy hne heq
      exact hne (h.apart x (mem_enlisted.mpr (.inl hx)) y (mem_enlisted.mpr (.inl hy)) heq)
  · rintro o ho o' ho' rfl
    -- an object that was moved is not at the address of another
    obtain ⟨x, hx, hmoved⟩ := List.mem_filterMap.mp ho'
    have heq := h.apart (.outside o) (mem_enlisted.mpr (.inr ⟨o, ho, rfl⟩)) x
      (mem_enlisted.mpr (.inl hx)) (resolve_of_moved_location hmoved).symm
    rw [← heq] at hmoved
    cases hmoved

theorem LightStep.collect {cards : Bool} {val : ℕ → UInt8}
    (hs : t.step NB_SEGMENTS (.collect i val) = .next t') (h : t.SegInv NB_SEGMENTS i)
    (hpriv : PrivInv (t.sys.priv i)) (hinv : Inv NB_SEGMENTS cards t.sys.st)
    (htraced : is_traced (t.sys.st.segs i) = true)
    (hok : t.finalizers_ok (.collect i val)) : LightStep NB_SEGMENTS t t' (.collect i val) i := by
  obtain ⟨-, hsys, hobjects, -, -⟩ := step_eq_next hs
  obtain ⟨hactive, hsys⟩ := guarded_eq_next.mp hsys
  obtain ⟨st, hst, hsys⟩ := Outcome.bind_eq_next.mp hsys
  obtain ⟨hstate, hab⟩ := state_of_active hactive
  have hkind := kind_of_is_traced htraced (guarded_eq_next.mp hst).2
  rw [if_pos htraced, Outcome.next.injEq] at hsys
  have hst' : t'.sys.st = st := by
    rw [← hsys]
    rfl
  set p := t.sys.priv i with hp
  have hends : (SysAct.collect i val).ends_minor_collection t.sys i = true := by
    show (decide (i = i) && is_traced (t.sys.st.segs i)) = true
    rw [decide_eq_true rfl, htraced]
    rfl
  have hcalls : light_finalizer_calls NB_SEGMENTS t.sys i (.collect i val) = young_calls p :=
    if_pos ⟨rfl, htraced⟩
  have hsettled : ∀ o, (t.sys.st.kind o).settled i = true → st.kind o = t.sys.st.kind o := by
    intro o ho
    rw [hkind]
    exact if_neg fun hmem => ne_young_of_settled ho ((hinv.lists i).young o hmem)
  have hoff := hok htraced
  -- an object dies if it has not been moved out, or if it was young outside the nursery
  have hdies : ∀ r ∈ t.live i, r.dies t.sys t'.sys (.collect i val) = true
      ↔ r.obj ∈ p.young_objects_with_light_finalizers ∧ moved_location p.nursery r.obj = none := by
    intro r hr
    have hmem := h.mem_live hr
    obtain ⟨-, -, hseg⟩ := mem_live.mp hr
    unfold Registration.dies
    dsimp only
    rw [hseg, hends, hst']
    cases hobj : r.obj with
    | nursery w =>
        rw [hobj] at hmem
        have hyoung : .nursery w ∈ p.young_objects_with_light_finalizers := by
          rcases mem_enlisted.mp hmem with hy | ⟨o, -, ho⟩
          · exact hy
          · cases ho
        dsimp only
        rw [Bool.true_and, decide_eq_true_eq]
        constructor
        · exact fun hne => ⟨hyoung, moved_location_of_not_moved hne⟩
        · rintro ⟨-, hnone⟩ hmoved
          rw [moved_location_of_moved hmoved] at hnone
          cases hnone
    | outside o =>
        rw [hobj] at hmem
        dsimp only
        rw [decide_eq_true_eq]
        constructor
        · intro hfree
          rcases mem_enlisted.mp hmem with hy | ⟨o', ho', heq⟩
          · exact ⟨hy, rfl⟩
          · cases heq
            have hset := h.old o ho'
            rw [hsettled o hset] at hfree
            exact absurd hfree (ne_free_of_settled hset)
        · rintro ⟨hy, -⟩
          rw [hkind]
          exact if_pos (hoff _ hy)
  have hcalled : ∀ r ∈ t.live i, r.obj ∈ young_calls p
      ↔ r.dies t.sys t'.sys (.collect i val) = true := by
    intro r hr
    rw [hdies r hr]
    unfold young_calls
    rw [List.mem_filter, Option.isNone_iff_eq_none]
  obtain ⟨hyoung, hold, hapart⟩ := nodup_enlisted.mp h.nodup
  refine ⟨fun r hr => ?_, fun x hx => ?_, ?_⟩
  · have hnodup : (young_calls p).Nodup := hyoung.filter _
    rw [hcalls, List.Nodup.count hnodup]
    exact if_congr (hcalled r hr) rfl rfl
  · rw [hcalls] at hx
    exact (h.enlisted x).mp (mem_enlisted.mpr (.inl (List.mem_of_mem_filter hx)))
  have hafter : ∀ r ∈ t.live i, r.dies t.sys t'.sys (.collect i val) = false →
      r.after NB_SEGMENTS t.sys t'.sys (.collect i val)
        = { r with obj := resolve p.nursery r.obj } := by
    intro r hr hd
    have hnot : r.obj ∉ light_finalizer_calls NB_SEGMENTS t.sys i (.collect i val) := by
      rw [hcalls, hcalled r hr, hd]
      simp
    have hmoved : r.moved t.sys (.collect i val) = resolve p.nursery r.obj := by
      obtain ⟨-, -, hseg⟩ := mem_live.mp hr
      unfold Registration.moved
      rw [hseg, hends]
      rfl
    rw [after_of_live hr, hd, hmoved, List.count_eq_zero_of_not_mem hnot]
    obtain ⟨-, halive, rfl⟩ := mem_live.mp hr
    rw [Bool.not_false, ← halive, Nat.add_zero]
    show { r with committed := r.committed || false, obj := _ } = _
    rw [Bool.or_false]
  have hlive : ∀ r', r' ∈ t'.live i ↔ ∃ r ∈ t.live i,
      r.dies t.sys t'.sys (.collect i val) = false
        ∧ r' = { r with obj := resolve p.nursery r.obj } := by
    intro r'
    rw [mem_live_step hs]
    constructor
    · rintro (⟨r, hr, hd, rfl⟩ | ⟨hr, -⟩)
      · exact ⟨r, hr, hd, hafter r hr hd⟩
      · cases hr
    · rintro ⟨r, hr, hd, rfl⟩
      exact .inl ⟨r, hr, hd, (hafter r hr hd).symm⟩
  have hobj : t'.objects i = [] := by
    rw [hobjects]
    unfold objects_after
    dsimp only
    rw [hends]
    rfl
  obtain ⟨p', hp', hy, ho, hat, hpab, hpstate⟩ : ∃ p', t'.sys.priv i = p'
      ∧ p'.young_objects_with_light_finalizers = []
      ∧ p'.old_objects_with_light_finalizers = p.old_objects_with_light_finalizers
        ++ p.young_objects_with_light_finalizers.filterMap (moved_location p.nursery)
      ∧ p'.light_finalizers_at_start = p.light_finalizers_at_start
      ∧ p'.aborted = p.aborted ∧ p'.transaction_state = p.transaction_state := by
    rw [← hsys]
    exact ⟨_, Function.update_self _ _ _, rfl, rfl, rfl, rfl, rfl⟩
  have hlist : ∀ x, x ∈ C7.enlisted p' ↔ ∃ o, x = .outside o
      ∧ (o ∈ p.old_objects_with_light_finalizers
        ∨ ∃ y ∈ p.young_objects_with_light_finalizers, moved_location p.nursery y = some o) := by
    intro x
    rw [mem_enlisted, hy, ho]
    simp only [List.not_mem_nil, false_or, List.mem_append, List.mem_filterMap]
    exact exists_congr fun o => and_comm
  rw [hobj, hst', hp']
  exact {
    enlisted := by
      intro x
      rw [hlist]
      constructor
      · rintro ⟨o, rfl, ho | ⟨y, hy, hmoved⟩⟩
        · obtain ⟨r, hr, hro⟩ := (h.enlisted (.outside o)).mp (mem_enlisted.mpr (.inr ⟨o, ho, rfl⟩))
          have hd : r.dies t.sys t'.sys (.collect i val) = false := by
            rw [← Bool.not_eq_true, hdies r hr, hro]
            rintro ⟨hyo, -⟩
            exact hapart o ho hyo
          refine ⟨_, (hlive _).mpr ⟨r, hr, hd, rfl⟩, ?_⟩
          dsimp only
          rw [hro, resolve_outside]
        · obtain ⟨r, hr, hry⟩ := (h.enlisted y).mp (mem_enlisted.mpr (.inl hy))
          have hd : r.dies t.sys t'.sys (.collect i val) = false := by
            rw [← Bool.not_eq_true, hdies r hr, hry, hmoved]
            rintro ⟨-, hnone⟩
            cases hnone
          refine ⟨_, (hlive _).mpr ⟨r, hr, hd, rfl⟩, ?_⟩
          dsimp only
          rw [hry, resolve_of_moved_location hmoved]
      · rintro ⟨r', hr', rfl⟩
        obtain ⟨r, hr, hd, rfl⟩ := (hlive r').mp hr'
        rw [← Bool.not_eq_true, hdies r hr] at hd
        dsimp only
        rcases mem_enlisted.mp (h.mem_live hr) with hyo | ⟨o, ho, heq⟩
        · cases hmoved : moved_location p.nursery r.obj with
          | none => exact absurd ⟨hyo, hmoved⟩ hd
          | some o => exact ⟨o, resolve_of_moved_location hmoved, .inr ⟨r.obj, hyo, hmoved⟩⟩
        · exact ⟨o, by rw [heq, resolve_outside], .inl ho⟩
    nodup := by
      rw [nodup_enlisted, hy, ho]
      exact ⟨List.nodup_nil, h.nodup_collected, fun _ _ => List.not_mem_nil⟩
    apart := by
      intro x hx y hy heq
      obtain ⟨o, rfl, -⟩ := (hlist x).mp hx
      obtain ⟨o', rfl, -⟩ := (hlist y).mp hy
      exact heq
    old := by
      rw [ho]
      intro o hmem
      have hset : (t.sys.st.kind o).settled i = true := by
        rcases List.mem_append.mp hmem with hmem | hmem
        · exact h.old o hmem
        · obtain ⟨y, hyo, hmoved⟩ := List.mem_filterMap.mp hmem
          obtain ⟨w, rfl, hw, rfl⟩ := moved_location_eq_some.mp hmoved
          exact (h.moved w (h.nursery w hyo) hw).2
      rw [hsettled o hset]
      exact hset
    outside := by
      rw [hy]
      simp
    nursery := by
      rw [hy]
      simp
    moved := (by simp)
    room := (by simp)
    objects_apart := (by simp)
    committing := fun _ => hy
    resting := by
      rw [hpstate, hpab, hab]
      rintro (hn | hn)
      · exact absurd hn hstate
      · cases hn
    aborted := by
      rw [hpab, hab]
      simp
    started := by
      intro _ r' hr'
      obtain ⟨r, hr, hd, rfl⟩ := (hlive r').mp hr'
      rw [hat]
      dsimp only
      rw [h.started hstate r hr]
      cases hobj : r.obj with
      | outside o => rfl
      | nursery w =>
          -- it was registered in this transaction, and is not at the address of another
          constructor
          · intro hw
            obtain ⟨o, -, ho⟩ := List.mem_map.mp hw
            cases ho
          · intro hres
            obtain ⟨o, ho, heq⟩ := List.mem_map.mp hres
            have hmem := (hpriv.light_of_active hactive).subset ho
            have happ := h.apart (.outside o) (mem_enlisted.mpr (.inr ⟨o, hmem, rfl⟩))
              (.nursery w) (hobj ▸ h.mem_live hr) heq
            cases happ
    committed := by
      intro r' hr' hc
      obtain ⟨r, hr, hd, rfl⟩ := (hlive r').mp hr'
      obtain ⟨o, hmem, heq⟩ := List.mem_map.mp (h.committed r hr hc)
      dsimp only
      rw [← heq, resolve_outside, ho]
      exact List.mem_map_of_mem (List.mem_append_left _ hmem)
    absent := fun hi => absurd (h.mem_segment_nums hactive) hi }

/-! ## Major collections -/

end Stmgc.C7.Logged
