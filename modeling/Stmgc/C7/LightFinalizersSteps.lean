/-
The steps that change the lists of light finalizers, one by one.
-/
import Stmgc.C7.LightFinalizersInv

namespace Stmgc.C7.Logged

open Stmgc.Lib

variable {NB_SEGMENTS : ℕ} {t t' : Logged} {a : SysAct} {i j o w : ℕ} {r : Registration}

theorem state_of_active {p : Priv} (h : p.is_active = true) :
    p.transaction_state ≠ .ts_none ∧ p.aborted = false := by
  unfold Priv.is_active at h
  rw [Bool.and_eq_true, decide_eq_true_eq, Bool.not_eq_true'] at h
  exact h

/-- In a segment whose transaction runs. -/
theorem SegInv.mem_segment_nums (h : t.SegInv NB_SEGMENTS i)
    (hactive : (t.sys.priv i).is_active = true) : i ∈ segment_nums NB_SEGMENTS := by
  by_contra hi
  exact (state_of_active hactive).1 (h.absent hi).1

/-- What was there at the start of the transaction is at the start of the list. -/
theorem SegInv.prefix_at_start (h : t.SegInv NB_SEGMENTS i) (hpriv : PrivInv (t.sys.priv i))
    (hstate : (t.sys.priv i).transaction_state ≠ .ts_none) :
    (t.sys.priv i).light_finalizers_at_start
      <+: (t.sys.priv i).old_objects_with_light_finalizers := by
  rcases hpriv.light hstate with hstarts | ⟨hab, -⟩
  · exact hstarts
  · exact h.aborted hab ▸ List.prefix_rfl

/-! ## Transactions -/

/-- `stm_start_transaction`: what is in the list now is what was there at the
start. -/
theorem SegInv.start_transaction {tl : ThreadLocal} {p : Priv} (h : t.SegInv NB_SEGMENTS i)
    (hpriv : PrivInv (t.sys.priv i)) (hi : i ∈ segment_nums NB_SEGMENTS)
    (hnone : (t.sys.priv i).transaction_state = .ts_none)
    (hs : C7.start_transaction (t.sys.priv i) tl = some p) :
    LightInv NB_SEGMENTS t.sys.st p (t.objects i) (t.live i) i := by
  have hab : (t.sys.priv i).aborted = false := by
    by_contra habort
    rw [Bool.not_eq_false] at habort
    rw [hpriv.aborted habort] at hnone
    cases hnone
  obtain ⟨hyoung, hcommitted⟩ := h.resting (.inl hnone)
  unfold C7.start_transaction at hs
  rw [Option.bind_eq_bind, Option.bind_eq_some_iff] at hs
  obtain ⟨tl', -, hs⟩ := hs
  rw [Option.pure_def, Option.some.injEq] at hs
  have hp : p.young_objects_with_light_finalizers
      = (t.sys.priv i).young_objects_with_light_finalizers
      ∧ p.old_objects_with_light_finalizers = (t.sys.priv i).old_objects_with_light_finalizers
      ∧ p.light_finalizers_at_start = (t.sys.priv i).old_objects_with_light_finalizers
      ∧ p.transaction_state = .ts_regular ∧ p.aborted = (t.sys.priv i).aborted
      ∧ p.nursery = (t.sys.priv i).nursery
      ∧ p.nursery_current = (t.sys.priv i).nursery_current := by
    rw [← hs]
    unfold next_read_version
    dsimp only
    split
    · exact ⟨rfl, rfl, rfl, rfl, rfl, rfl, rfl⟩
    · exact ⟨rfl, rfl, rfl, rfl, rfl, rfl, rfl⟩
  obtain ⟨hy, hold, hstart, hstate, habort, hnursery, hcurrent⟩ := hp
  have henlisted : C7.enlisted p = C7.enlisted (t.sys.priv i) := by
    unfold C7.enlisted
    rw [hy, hold]
  exact {
    enlisted := by
      rw [henlisted]
      exact h.enlisted
    nodup := by
      rw [henlisted]
      exact h.nodup
    apart := by
      rw [henlisted, hnursery]
      exact h.apart
    old := by
      rw [hold]
      exact h.old
    outside := by
      rw [hy]
      exact h.outside
    nursery := by
      rw [hy]
      exact h.nursery
    moved := by
      rw [hnursery]
      exact h.moved
    room := by
      rw [hcurrent]
      exact h.room
    objects_apart := h.objects_apart
    committing := by
      rw [hy]
      exact h.committing
    resting := by
      rw [hstate, habort, hab]
      rintro (hn | hn)
      · cases hn
      · cases hn
    aborted := by
      rw [habort, hab]
      simp
    started := fun _ r hr => by
      rw [hstart]
      exact ⟨fun _ => h.committed r hr (hcommitted r hr), fun _ => hcommitted r hr⟩
    committed := by
      rw [hold]
      exact h.committed
    absent := fun hn => absurd hi hn }

/-- `_finish_transaction` of an abort. -/
theorem SegInv.finish_abort (h : t.SegInv NB_SEGMENTS i)
    (hab : (t.sys.priv i).aborted = true) :
    LightInv NB_SEGMENTS t.sys.st
      { t.sys.priv i with transaction_state := .ts_none, aborted := false }
      (t.objects i) (t.live i) i :=
  { h with
    resting := fun _ => h.resting (.inr hab)
    aborted := nofun
    started := fun hne => absurd rfl hne
    absent := fun hi => ⟨rfl, (h.absent hi).2⟩ }

/-! ## The nursery -/

/-- A new object in the nursery. -/
theorem LightStep.allocate {cards : Bool} {size : ℕ}
    (hs : t.step NB_SEGMENTS a = .next t') (h : t.SegInv NB_SEGMENTS i)
    (hpriv : PrivInv (t.sys.priv i)) (hinv : Inv NB_SEGMENTS cards t.sys.st)
    (hfresh : a.registers = [] ∧ light_finalizer_calls NB_SEGMENTS t.sys i a = []
      ∧ a.commits i = false ∧ a.ends_minor_collection t.sys i = false
      ∧ ∀ gs, a ≠ .abort_data_structures gs i)
    (hobjects : objects_after t.sys a (t.objects i) i
      = (t.sys.priv i).nursery_current :: t.objects i)
    (hst : t'.sys.st = t.sys.st) (hsize : 2 ≤ size)
    (hroom : (t.sys.priv i).nursery_current + size ≤ NURSERY_WORDS)
    (hframe : PrivFrame (t.sys.priv i) (t'.sys.priv i) (t.objects i))
    (hnursery : (t'.sys.priv i).nursery = (t.sys.priv i).nursery)
    (hcurrent : (t'.sys.priv i).nursery_current = (t.sys.priv i).nursery_current + size) :
    LightStep NB_SEGMENTS t t' a i := by
  obtain ⟨hregisters, hcalls, hcommits, hends, habort⟩ := hfresh
  obtain ⟨-, -, hobj, -, -⟩ := step_eq_next hs
  have hold : LightInv NB_SEGMENTS t'.sys.st (t'.sys.priv i) (t.objects i) (t.live i) i :=
    h.frame (hst ▸ .refl) hframe
  have hdies : ∀ r ∈ t.live i, r.dies t.sys t'.sys a = false := by
    intro r hr
    refine not_dies hr hends habort fun o ho => ?_
    have hinv' : Inv NB_SEGMENTS cards t'.sys.st := hst ▸ hinv
    refine hold.ne_free hinv' (hold.mem_live hr) ?_
    rw [ho]
    rfl
  have hafter : ∀ r ∈ t.live i, r.after NB_SEGMENTS t.sys t'.sys a = r := fun r hr =>
    after_of_quiet hr (hdies r hr) (not_moved hr hends) hcommits hcalls
  refine ⟨fun r hr => ?_, fun x hx => ?_, ?_⟩
  · rw [hcalls, hdies r hr]
    rfl
  · rw [hcalls] at hx
    cases hx
  · rw [hobj, hobjects]
    have hnew : LightInv NB_SEGMENTS t'.sys.st (t'.sys.priv i)
        ((t.sys.priv i).nursery_current :: t.objects i) (t.live i) i :=
      { hold with
        nursery := fun w hw => List.mem_cons_of_mem _ (hold.nursery w hw)
        moved := by
          intro w hw hmoved
          rcases List.mem_cons.mp hw with rfl | hw
          · -- the nursery is zero from there on
            rw [hnursery, hpriv.nursery _ le_rfl (by omega)] at hmoved
            cases hmoved
          · exact hold.moved w hw hmoved
        room := by
          intro w hw
          rcases List.mem_cons.mp hw with rfl | hw
          · omega
          · exact hold.room w hw
        objects_apart := by
          intro w hw w' hw' hlt
          rcases List.mem_cons.mp hw with rfl | hw
          · rcases List.mem_cons.mp hw' with rfl | hw'
            · omega
            · have hroom := (h.room w' hw').1
              omega
          · rcases List.mem_cons.mp hw' with rfl | hw'
            · exact (h.room w hw).1
            · exact h.objects_apart w hw w' hw' hlt }
    refine LightInv.congr hnew fun r => ?_
    rw [mem_live_step hs, hregisters]
    constructor
    · rintro (⟨r, hr, -, rfl⟩ | ⟨hr, -⟩)
      · rw [hafter r hr]
        exact hr
      · cases hr
    · intro hr
      exact .inl ⟨r, hr, hdies r hr, (hafter r hr).symm⟩

/-- A nursery object is copied to a new address. -/
theorem SegInv.evacuate {cards : Bool} {word obj : ℕ} {st : St} (h : t.SegInv NB_SEGMENTS i)
    (hinv : Inv NB_SEGMENTS cards t.sys.st) (hword : word ∈ t.objects i)
    (hpc : (t.sys.st.segs i).pc.collecting = true) (hfree : t.sys.st.kind obj = .free)
    (hst : StFrame t.sys.st st i) (hkind : st.kind obj = .overflow i) :
    LightInv NB_SEGMENTS st (forward (t.sys.priv i) word obj) (t.objects i) (t.live i) i := by
  have hbase : LightInv NB_SEGMENTS st (t.sys.priv i) (t.objects i) (t.live i) i :=
    h.frame hst .refl
  have hset : (st.kind obj).settled i = true := by
    rw [hkind]
    exact decide_eq_true rfl
  set nursery := (t.sys.priv i).nursery with hnursery
  set nursery' := (forward (t.sys.priv i) word obj).nursery with hnursery'
  have hread : ∀ w, nursery' w = if w = word + 1 then obj
      else if w = word then GCWORD_MOVED else nursery w := by
    intro w
    show Function.update (Function.update nursery word GCWORD_MOVED) (word + 1) obj w = _
    rw [Function.update_apply, Function.update_apply]
  have hself : nursery' word = GCWORD_MOVED ∧ nursery' (word + 1) = obj := by
    rw [hread, hread, if_neg (by omega), if_pos rfl, if_pos rfl]
    exact ⟨rfl, rfl⟩
  have hother : ∀ w ∈ t.objects i, w ≠ word →
      nursery' w = nursery w ∧ nursery' (w + 1) = nursery (w + 1) := by
    intro w hw hne
    -- objects do not overlap
    have hapart : w + 2 ≤ word ∨ word + 2 ≤ w := by
      rcases Nat.lt_or_gt_of_ne hne with hlt | hgt
      · exact .inl (h.objects_apart w hw word hword hlt)
      · exact .inr (h.objects_apart word hword w hw hgt)
    rw [hread, hread, if_neg (by omega), if_neg hne, if_neg (by omega), if_neg (by omega)]
    exact ⟨rfl, rfl⟩
  have hresolve : ∀ x ∈ C7.enlisted (t.sys.priv i), resolve nursery' x
      = if x = .nursery word then .outside obj else resolve nursery x := by
    intro x hx
    split
    · rename_i hxw
      rw [hxw, resolve_of_moved hself.1, hself.2]
    · rename_i hxw
      cases x with
      | outside o => rfl
      | nursery w =>
          have hw := h.nursery_of_mem hx w rfl
          have hne : w ≠ word := by
            rintro rfl
            exact hxw rfl
          obtain ⟨h0, h1⟩ := hother w hw hne
          by_cases hmoved : nursery w = GCWORD_MOVED
          · rw [resolve_of_moved hmoved, resolve_of_moved (h0.trans hmoved), h1]
          · rw [resolve_of_not_moved hmoved, resolve_of_not_moved (by rw [h0]; exact hmoved)]
  -- the new address is not one of an object that was there
  have hfresh : ∀ x ∈ C7.enlisted (t.sys.priv i), resolve nursery x ≠ .outside obj := by
    intro x hx heq
    exact h.ne_free hinv hx heq hfree
  exact { hbase with
    apart := by
      intro x hx y hy heq
      replace heq : resolve nursery' x = resolve nursery' y := heq
      rw [hresolve x hx, hresolve y hy] at heq
      split_ifs at heq with hxw hyw hyw
      · exact hxw.trans hyw.symm
      · exact absurd heq.symm (hfresh y hy)
      · exact absurd heq (hfresh x hx)
      · exact hbase.apart x hx y hy heq
    moved := by
      intro w hw hmoved
      replace hmoved : nursery' w = GCWORD_MOVED := hmoved
      show (st.segs i).pc.collecting = true ∧ (st.kind (nursery' (w + 1))).settled i = true
      by_cases hww : w = word
      · rw [hww, hself.2]
        exact ⟨hst.collecting hpc, hset⟩
      · obtain ⟨h0, h1⟩ := hother w hw hww
        rw [h1]
        exact hbase.moved w hw (h0.symm.trans hmoved) }

/-! ## Registering an object -/

theorem fields_of_end_commit {s s' : Sys} (hs : end_commit s i = some s') :
    ∃ p, s'.priv i = p ∧ p.transaction_state = .ts_none ∧ p.aborted = (s.priv i).aborted
      ∧ p.nursery = (s.priv i).nursery ∧ p.nursery_current = (s.priv i).nursery_current
      ∧ C7.enlisted p = C7.enlisted (s.priv i)
      ∧ p.young_objects_with_light_finalizers = (s.priv i).young_objects_with_light_finalizers
      ∧ p.old_objects_with_light_finalizers = (s.priv i).old_objects_with_light_finalizers := by
  unfold end_commit at hs
  dsimp only at hs
  split at hs
  · obtain ⟨-, hs⟩ := c_assert_eq_some.mp hs
    cases hs
    exact ⟨_, Function.update_self _ _ _, rfl, rfl, rfl, rfl, rfl, rfl, rfl⟩
  · cases hs
    exact ⟨_, Function.update_self _ _ _, rfl, rfl, rfl, rfl, rfl, rfl, rfl⟩

/-- From then on, an abort does not concern the objects that the transaction has
registered. -/
theorem LightStep.commit {cards : Bool}
    (hs : t.step NB_SEGMENTS (.commit_transaction i) = .next t') (h : t.SegInv NB_SEGMENTS i)
    (hinv : Inv NB_SEGMENTS cards t.sys.st) :
    LightStep NB_SEGMENTS t t' (.commit_transaction i) i := by
  obtain ⟨-, hsys, hobjects, -, -⟩ := step_eq_next hs
  obtain ⟨hactive, hsys⟩ := guarded_eq_next.mp hsys
  obtain ⟨st, hst, hsys⟩ := Outcome.bind_eq_next.mp hsys
  have hend := Outcome.ofOption_eq_next.mp hsys
  have hst' : t'.sys.st = st := st_of_end_commit hend
  obtain ⟨p, hp, hstate, hab, hfn, hfc, henlisted, hyoung, hold⟩ := fields_of_end_commit hend
  have hpc : (t.sys.st.segs i).pc = .pushed :=
    (guarded_eq_next.mp (guarded_eq_next.mp hst).2).1
  have hnone : (t.sys.priv i).young_objects_with_light_finalizers = [] := by
    refine h.committing ?_
    rw [hpc]
    rfl
  have hsettled : ∀ o, (t.sys.st.kind o).settled i = true → (t'.sys.st.kind o).settled i = true := by
    intro o ho
    rw [hst']
    exact settled_step hinv hst (by simp) ho
  have hlist : ∀ x ∈ C7.enlisted (t.sys.priv i), ∃ o,
      o ∈ (t.sys.priv i).old_objects_with_light_finalizers ∧ x = .outside o := by
    intro x hx
    rcases mem_enlisted.mp hx with hx | ⟨o, ho, rfl⟩
    · rw [hnone] at hx
      cases hx
    · exact ⟨o, ho, rfl⟩
  have hdies : ∀ r ∈ t.live i, r.dies t.sys t'.sys (.commit_transaction i) = false := by
    intro r hr
    refine not_dies hr rfl (by simp) fun o ho => ?_
    obtain ⟨o', ho', hro⟩ := hlist _ (h.mem_live hr)
    cases ho.symm.trans hro
    exact ne_free_of_settled (hsettled o (h.old o ho'))
  have hafter : ∀ r ∈ t.live i, r.after NB_SEGMENTS t.sys t'.sys (.commit_transaction i)
      = { r with committed := true } := by
    intro r hr
    rw [after_of_live hr, hdies r hr, not_moved hr rfl]
    obtain ⟨-, halive, rfl⟩ := mem_live.mp hr
    have hcommits : (SysAct.commit_transaction r.segment).commits r.segment = true :=
      decide_eq_true rfl
    rw [hcommits, Bool.or_true, Bool.not_false, ← halive]
    rfl
  have hlive : ∀ r', r' ∈ t'.live i ↔ ∃ r ∈ t.live i, r' = { r with committed := true } := by
    intro r'
    rw [mem_live_step hs]
    constructor
    · rintro (⟨r, hr, -, rfl⟩ | ⟨hr, -⟩)
      · exact ⟨r, hr, hafter r hr⟩
      · cases hr
    · rintro ⟨r, hr, rfl⟩
      exact .inl ⟨r, hr, hdies r hr, (hafter r hr).symm⟩
  refine ⟨fun r hr => ?_, (by intros; contradiction), ?_⟩
  · rw [hdies r hr]
    rfl
  have hobj : t'.objects i = t.objects i := (hobjects i).trans rfl
  rw [hobj, hp]
  exact {
    enlisted := by
      intro x
      rw [henlisted, h.enlisted]
      constructor
      · rintro ⟨r, hr, hrx⟩
        exact ⟨_, (hlive _).mpr ⟨r, hr, rfl⟩, hrx⟩
      · rintro ⟨r', hr', hrx⟩
        obtain ⟨r, hr, rfl⟩ := (hlive _).mp hr'
        exact ⟨r, hr, hrx⟩
    nodup := by
      rw [henlisted]
      exact h.nodup
    apart := by
      rw [henlisted, hfn]
      exact h.apart
    old := by
      rw [hold]
      exact fun o ho => hsettled o (h.old o ho)
    outside := by
      rw [hyoung, hnone]
      simp
    nursery := by
      rw [hyoung, hnone]
      simp
    moved := by
      rw [hfn]
      intro w hw hmoved
      have hc := (h.moved w hw hmoved).1
      rw [hpc] at hc
      cases hc
    room := by
      rw [hfc]
      exact h.room
    objects_apart := h.objects_apart
    committing := fun _ => hyoung.trans hnone
    resting := by
      refine fun _ => ⟨hyoung.trans hnone, fun r' hr' => ?_⟩
      obtain ⟨r, -, rfl⟩ := (hlive r').mp hr'
      rfl
    aborted := by
      rw [hab, (state_of_active hactive).2]
      simp
    started := fun hne => absurd hstate hne
    committed := by
      intro r' hr' _
      obtain ⟨r, hr, rfl⟩ := (hlive r').mp hr'
      obtain ⟨o, ho, hro⟩ := hlist _ (h.mem_live hr)
      rw [hold]
      exact List.mem_map.mpr ⟨o, ho, hro.symm⟩
    absent := fun hi => absurd (h.mem_segment_nums hactive) hi }

/-! ## Abort -/

section

variable {m : Memory} {gs n number : ℕ}

/-- The loop takes objects as long as they look like overflow objects. -/
theorem forgotten_light_finalizers_append {added : List ℕ} (rest : List ℕ)
    (hlast : ∀ o ∈ added.head?, flags_say_overflow m gs number o = true)
    (hothers : ∀ o ∈ added.tail, flags_say_overflow m n number o = true) :
    forgotten_light_finalizers m n number gs (added ++ rest)
      = added ++ forgotten_light_finalizers m n number (if added = [] then gs else n) rest := by
  induction added generalizing gs with
  | nil => rfl
  | cons o added ih =>
      have ho := hlast o rfl
      have htail : ∀ o ∈ added.head?, flags_say_overflow m n number o = true :=
        fun o ho => hothers o (List.mem_of_mem_head? ho)
      have hrest := ih htail fun o ho => hothers o (List.mem_of_mem_tail ho)
      rw [List.cons_append, forgotten_light_finalizers, if_pos ho, hrest, ite_self,
        if_neg (List.cons_ne_nil _ _)]
      rfl

theorem forgotten_light_finalizers_of_head {rest : List ℕ}
    (h : ∀ o ∈ rest.head?, flags_say_overflow m gs number o = false) :
    forgotten_light_finalizers m n number gs rest = [] := by
  cases rest with
  | nil => rfl
  | cons o rest =>
      rw [forgotten_light_finalizers, h o rfl]
      rfl

/-- The loop leaves the other objects in the list. -/
theorem forgotten_append_forget (m : Memory) (n number gs : ℕ) (lst : List ℕ) :
    forgotten_light_finalizers m n number gs lst ++ forget_light_finalizers m n number gs lst
      = lst := by
  induction lst generalizing gs with
  | nil => rfl
  | cons o lst ih =>
      rw [forgotten_light_finalizers, forget_light_finalizers]
      split
      · rw [List.cons_append, ih]
      · rfl

end

/-- What `abort_finalizers` takes from the list. -/
theorem taken_by_abort {gs n : ℕ} {s : Sys} {p : Priv} (hp : s.priv n = p)
    (hstarts : p.light_finalizers_at_start <+: p.old_objects_with_light_finalizers)
    (hok : takes_registered s gs n) :
    forgotten_light_finalizers s.st.mem n p.overflow_number (gs_after_young p gs n)
        p.old_objects_with_light_finalizers.reverse = (registered p).reverse
      ∧ (abort_finalizers s.st.mem gs n p).old_objects_with_light_finalizers
        = p.light_finalizers_at_start := by
  obtain ⟨⟨hlast, hothers⟩, hstop⟩ := hok
  rw [hp] at hlast hothers hstop
  have happend : p.light_finalizers_at_start ++ registered p
      = p.old_objects_with_light_finalizers := by
    unfold registered
    exact List.prefix_iff_eq_append.mp hstarts
  have hreverse : p.old_objects_with_light_finalizers.reverse
      = (registered p).reverse ++ p.light_finalizers_at_start.reverse := by
    rw [← happend, List.reverse_append]
  have hforgotten : forgotten_light_finalizers s.st.mem n p.overflow_number
      (gs_after_young p gs n) p.old_objects_with_light_finalizers.reverse
      = (registered p).reverse := by
    rw [hreverse, forgotten_light_finalizers_append, forgotten_light_finalizers_of_head,
      List.append_nil]
    · intro o ho
      rw [List.head?_reverse] at ho
      simp only [List.reverse_eq_nil_iff]
      exact hstop o ho
    · intro o ho
      rw [List.head?_reverse] at ho
      exact hlast o ho
    · intro o ho
      rw [List.tail_reverse, List.mem_reverse] at ho
      exact hothers o ho
  refine ⟨hforgotten, ?_⟩
  have hforget := forgotten_append_forget s.st.mem n p.overflow_number (gs_after_young p gs n)
    p.old_objects_with_light_finalizers.reverse
  rw [hforgotten, hreverse] at hforget
  unfold abort_finalizers
  dsimp only
  rw [hreverse, List.append_cancel_left hforget, List.reverse_reverse]

/-- The kinds of objects after an abort. -/
theorem kind_of_abort {st st' : St} {n : ℕ}
    (h : ResetAll NB_SEGMENTS (abort_data_structures st n) st' n) (o : ℕ) : st'.kind o =
      if o ∈ (st.segs n).young_outside_nursery then .free
      else if st.kind o = .overflow n then .dead else st.kind o := by
  rw [h.kind]
  dsimp only
  rw [kind_abort_data_structures]
  split
  · rfl
  · rfl

theorem settled_of_abort {cards : Bool} {st st' : St} {n : ℕ} (hinv : Inv NB_SEGMENTS cards st)
    (h : ResetAll NB_SEGMENTS (abort_data_structures st n) st' n)
    (ho : (st.kind o).settled i = true) : (st'.kind o).settled i = true := by
  have hne : o ∉ (st.segs n).young_outside_nursery := fun hmem =>
    ne_young_of_settled ho ((hinv.lists n).young o hmem)
  rw [kind_of_abort h, if_neg hne]
  split
  · rfl
  · exact ho

/-- The transaction of the segment is aborted, with all that it has registered. -/
theorem LightStep.abort {gs : ℕ}
    (hs : t.step NB_SEGMENTS (.abort_data_structures gs i) = .next t')
    (h : t.SegInv NB_SEGMENTS i) (hpriv : PrivInv (t.sys.priv i))
    (hinv : Inv NB_SEGMENTS false t.sys.st)
    (hok : t.finalizers_ok (.abort_data_structures gs i)) :
    LightStep NB_SEGMENTS t t' (.abort_data_structures gs i) i := by
  obtain ⟨-, hsys, hobjects, -, -⟩ := step_eq_next hs
  obtain ⟨⟨-, hi, hstate, hpc⟩, hsys⟩ := guarded_eq_next.mp hsys
  obtain ⟨-, st, tl, hreset, -, -, hs'⟩ := abort_eq_next hsys
  obtain ⟨st₁, hreset', hall⟩ := reset_all_modified_spec hinv hi hpc
  cases hreset.symm.trans hreset'
  set p := t.sys.priv i with hp
  have hstarts : p.light_finalizers_at_start <+: p.old_objects_with_light_finalizers :=
    h.prefix_at_start hpriv hstate
  obtain ⟨hforgotten, hkept⟩ := taken_by_abort hp.symm hstarts hok
  have happend : p.light_finalizers_at_start ++ registered p
      = p.old_objects_with_light_finalizers := List.prefix_iff_eq_append.mp hstarts
  have hcalls : light_finalizer_calls NB_SEGMENTS t.sys i (.abort_data_structures gs i)
      = p.young_objects_with_light_finalizers
        ++ (registered p).reverse.map .outside := by
    show (if i = i then abort_calls t.sys.st.mem gs i p else []) = _
    rw [if_pos rfl, abort_calls, hforgotten]
  -- the list has the objects of before the transaction, and those of the calls
  have hperm : (C7.enlisted p).Perm (p.light_finalizers_at_start.map .outside
      ++ light_finalizer_calls NB_SEGMENTS t.sys i (.abort_data_structures gs i)) := by
    rw [hcalls]
    unfold C7.enlisted
    rw [← happend, List.map_append, List.map_reverse]
    refine (List.perm_append_comm_assoc _ _ _).trans ?_
    exact ((List.reverse_perm _).symm.append_left _).append_left _
  have hnodup := List.nodup_append.mp (hperm.nodup_iff.mp h.nodup)
  have hcalled : ∀ r ∈ t.live i,
      r.obj ∈ light_finalizer_calls NB_SEGMENTS t.sys i (.abort_data_structures gs i)
        ↔ r.committed = false := by
    intro r hr
    have hmem := List.mem_append.mp (hperm.mem_iff.mp (h.mem_live hr))
    rw [← Bool.not_eq_true, h.started hstate r hr]
    constructor
    · exact fun hcall hat => hnodup.2.2 _ hat _ hcall rfl
    · exact fun hat => hmem.resolve_left hat
  have hdies : ∀ r ∈ t.live i, r.dies t.sys t'.sys (.abort_data_structures gs i)
      = !r.committed := by
    intro r hr
    obtain ⟨-, -, rfl⟩ := mem_live.mp hr
    show (decide (r.segment = r.segment) && !r.committed) = _
    rw [decide_eq_true rfl, Bool.true_and]
  refine ⟨fun r hr => ?_, fun x hx => ?_, ?_⟩
  · rw [List.Nodup.count hnodup.2.1, hdies r hr]
    refine if_congr ?_ rfl rfl
    rw [hcalled r hr, Bool.not_eq_true']
  · exact (h.enlisted x).mp (hperm.mem_iff.mpr (List.mem_append_right _ hx))
  have hlive : ∀ r', r' ∈ t'.live i ↔ r' ∈ t.live i ∧ r'.committed = true := by
    have hafter : ∀ r ∈ t.live i, r.committed = true →
        r.after NB_SEGMENTS t.sys t'.sys (.abort_data_structures gs i) = r := by
      intro r hr hc
      have hnot : r.obj ∉ light_finalizer_calls NB_SEGMENTS t.sys i
          (.abort_data_structures gs i) := by
        rw [hcalled r hr, hc]
        nofun
      rw [after_of_live hr, hdies r hr, not_moved hr rfl, List.count_eq_zero_of_not_mem hnot, hc]
      obtain ⟨-, halive, rfl⟩ := mem_live.mp hr
      cases r
      cases halive
      cases hc
      rfl
    intro r'
    rw [mem_live_step hs]
    constructor
    · rintro (⟨r, hr, hd, rfl⟩ | ⟨hr, -⟩)
      · rw [hdies r hr, Bool.not_eq_false'] at hd
        rw [hafter r hr hd]
        exact ⟨hr, hd⟩
      · cases hr
    · rintro ⟨hr, hc⟩
      refine .inl ⟨r', hr, ?_, (hafter r' hr hc).symm⟩
      rw [hdies r' hr, hc]
      rfl
  have hobj : t'.objects i = [] := (hobjects i).trans (if_pos rfl)
  have hst : t'.sys.st = st := by rw [hs']; rfl
  obtain ⟨p', hp', hy, ho, hat, hab, hpstate⟩ : ∃ p', t'.sys.priv i = p'
      ∧ p'.young_objects_with_light_finalizers = []
      ∧ p'.old_objects_with_light_finalizers = p.light_finalizers_at_start
      ∧ p'.light_finalizers_at_start = p.light_finalizers_at_start
      ∧ p'.aborted = true ∧ p'.transaction_state = p.transaction_state := by
    rw [hs']
    exact ⟨_, Function.update_self _ _ _, rfl, hkept, rfl, rfl, rfl⟩
  have hlist : C7.enlisted p' = p.light_finalizers_at_start.map .outside := by
    unfold C7.enlisted
    rw [hy, ho]
    rfl
  have hmember : ∀ r ∈ t.live i, r.committed = true →
      r.obj ∈ p.light_finalizers_at_start.map .outside := fun r hr hc =>
    (h.started hstate r hr).mp hc
  rw [hobj, hst, hp']
  exact {
    enlisted := by
      intro x
      rw [hlist]
      constructor
      · intro hx
        obtain ⟨r, hr, rfl⟩ := (h.enlisted x).mp
          (hperm.mem_iff.mpr (List.mem_append_left _ hx))
        exact ⟨r, (hlive r).mpr ⟨hr, (h.started hstate r hr).mpr hx⟩, rfl⟩
      · rintro ⟨r, hr, rfl⟩
        obtain ⟨hr, hc⟩ := (hlive r).mp hr
        exact hmember r hr hc
    nodup := by
      rw [hlist]
      exact hnodup.1
    apart := by
      intro x hx y hy heq
      rw [hlist] at hx hy
      obtain ⟨o, -, rfl⟩ := List.mem_map.mp hx
      obtain ⟨o', -, rfl⟩ := List.mem_map.mp hy
      exact heq
    old := by
      rw [ho]
      intro o hmem
      exact settled_of_abort hinv hall (h.old o (hstarts.subset hmem))
    outside := by
      rw [hy]
      nofun
    nursery := by
      rw [hy]
      nofun
    moved := nofun
    room := nofun
    objects_apart := nofun
    committing := fun _ => hy
    resting := fun _ => ⟨hy, fun r hr => ((hlive r).mp hr).2⟩
    aborted := fun _ => ho.trans hat.symm
    started := by
      intro _ r hr
      obtain ⟨hr, hc⟩ := (hlive r).mp hr
      rw [hat]
      exact ⟨fun _ => hmember r hr hc, fun _ => hc⟩
    committed := by
      intro r hr _
      obtain ⟨hr, hc⟩ := (hlive r).mp hr
      rw [ho]
      exact hmember r hr hc
    absent := fun hn => absurd hi hn }

/-- An abort of another segment. -/
theorem StFrame.abort_other {st st' : St} {n : ℕ} {cards : Bool} (hinv : Inv NB_SEGMENTS cards st)
    (h : ResetAll NB_SEGMENTS (abort_data_structures st n) st' n) (hne : i ≠ n) :
    StFrame st st' i := by
  have hseg : st'.segs i = st.segs i :=
    (h.others i hne).trans (others_abort_data_structures st hne)
  refine ⟨?_, ?_, ?_, fun o ho => settled_of_abort hinv h ho⟩
  · rw [hseg]
    exact id
  · rw [hseg]
    exact id
  · rw [hseg]
    exact fun _ => .inl

end Stmgc.C7.Logged
