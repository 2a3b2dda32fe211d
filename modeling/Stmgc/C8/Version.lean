/-
What a segment of `c8` offers between validations, in a run without stale
copies: the versions of the entries that it has applied ([`versionInv`]).
-/
import Stmgc.C8.Snapshot

namespace Stmgc.C8

open Stmgc.Lib

section Moves

variable {Seg Obj Data : Type} [DecidableEq Seg] [DecidableEq Obj] {st : St Seg Obj Data}
  {s : Seg} {acc : List (Access Obj Data)} {obj : Option Obj} {seg : Segment Obj Data}

/-! ## What a thread changes of its versions -/

theorem current_check_was_read (seg : Segment Obj Data) (caller : Caller Obj) (needs_abort : Bool)
    {obj o : Obj} (written : List Obj) (ho : o ≠ obj) :
    current (check_was_read seg caller needs_abort obj written) o = current seg o := by
  unfold check_was_read
  split
  · unfold current
    dsimp only
    rw [AList.lookup_erase_ne ho]
  · rfl

omit [DecidableEq Seg] in
/-- Only objects of entries of the log are ever given another version. -/
theorem Moves.current_of_unlisted (hinv : Inv st) (hreads : ReadSet st.log (st.segs s) acc)
    (hm : Moves st s obj seg) {o : Obj} (ho : ∀ e ∈ st.log, o ∉ e.written) :
    current seg o = current (st.segs s) o := by
  have hb := (hinv.segs s).barriers
  -- the objects of the entry that is being applied
  have hpending : ∀ todo, (st.segs s).pc.pending = some todo → o ∉ todo := by
    intro todo ht hmem
    obtain ⟨e, he, hsub, -⟩ := hreads.pending todo ht
    exact ho e (List.mem_of_getElem? he) (hsub o hmem)
  cases hm with
  | read obj hpc => rfl
  | write obj hpc hexists hwb => exact current_stm_write_slowpath _ obj o
  | register_backup obj bk hpc => exact current_register_backup hb hpc o
  | store obj data hpc hwb => exact current_store hb hpc hwb data o
  | minor_collection trace hpc => exact current_minor_collection hb hpc trace o
  | commit_transaction trace hpc => exact current_minor_collection hb hpc trace o
  | call_validate caller hpc hcaller => rfl
  | retry caller hpc hne => rfl
  | enter_entry caller needs_abort cl hpc he => rfl
  | update caller needs_abort obj written cl realobj hpc he hcopy =>
      have hne : o ≠ obj := by
        rintro rfl
        exact hpending _ (by rw [hpc]; rfl) List.mem_cons_self
      refine current_congr rfl fun _ => ?_
      dsimp only
      rw [Function.update_of_ne hne]
  | check caller needs_abort obj written hpc =>
      apply current_check_was_read
      rintro rfl
      exact hpending _ (by rw [hpc]; rfl) List.mem_cons_self
  | entry_done caller needs_abort hpc => rfl
  | returns caller hpc hlast => rfl
  | gives_up hpc => rfl
  | clear_modified hpc =>
      obtain ⟨e, he, -, hsame, -, -⟩ := (hinv.segs s).applied.attached hpc
      have hn : o ∉ (st.segs s).modified_old_objects := fun hmem =>
        ho e (List.mem_of_getElem? he) ((hsame o).mpr hmem)
      rw [current_of_notMem hn, current_of_notMem (AList.notMem_empty o)]
      unfold C8.clear_modified
      dsimp only
      rw [if_neg hn]
  | finish_transaction hpc => rfl
  | abort_transaction hpc =>
      rw [current_of_notMem (AList.notMem_empty o)]
      obtain ⟨hpage, hflag⟩ := abort_transaction_page hb hpc o
      rw [object_s.set_write_barrier_self hflag, hpage]

omit [DecidableEq Seg] in
/-- A thread gets out of a validation only at the end of the log. -/
theorem Moves.settled (hinv : Inv st) (hm : Moves st s obj seg) (hsettled : seg.pc.settled = true) :
    (∀ o, current seg o = current (st.segs s) o)
      ∧ seg.last_commit_log_entry = (st.segs s).last_commit_log_entry
      ∧ ((st.segs s).pc.settled = true
        ∨ st.log.length ≤ (st.segs s).last_commit_log_entry) := by
  have hb := (hinv.segs s).barriers
  have hrunning : (st.segs s).pc = .running → (st.segs s).pc.settled = true := by
    intro hpc
    rw [hpc]
    rfl
  cases hm with
  | read obj hpc => exact ⟨fun _ => rfl, rfl, .inl (hrunning hpc)⟩
  | write obj hpc hexists hwb =>
      exact ⟨current_stm_write_slowpath _ obj, rfl, .inl (hrunning hpc)⟩
  | register_backup obj bk hpc =>
      exact ⟨current_register_backup hb hpc, rfl, .inl (by rw [hpc]; rfl)⟩
  | store obj data hpc hwb => exact ⟨current_store hb hpc hwb data, rfl, .inl (hrunning hpc)⟩
  | minor_collection trace hpc =>
      exact ⟨current_minor_collection hb hpc trace, rfl, .inl (hrunning hpc)⟩
  | commit_transaction trace hpc =>
      exact ⟨current_minor_collection hb hpc trace, rfl, .inl (hrunning hpc)⟩
  | call_validate caller hpc hcaller => cases hsettled
  | retry caller hpc hne => cases hsettled
  | enter_entry caller needs_abort cl hpc he => cases hsettled
  | update caller needs_abort obj written cl realobj hpc he hcopy => cases hsettled
  | check caller needs_abort obj written hpc =>
      unfold check_was_read at hsettled
      split at hsettled
      · cases hsettled
      · cases hsettled
  | entry_done caller needs_abort hpc => cases hsettled
  | returns caller hpc hlast => exact ⟨fun _ => rfl, rfl, .inr hlast⟩
  | gives_up hpc =>
      refine ⟨fun _ => rfl, rfl, ?_⟩
      rcases hpc with hpc | ⟨_, _, -, hlast⟩
      · exact .inl (hrunning hpc)
      · exact .inr hlast
  | clear_modified hpc => cases hsettled
  | finish_transaction hpc => cases hsettled
  | abort_transaction hpc => cases hsettled

end Moves

/-! ## All segments -/

section

variable {Seg Obj Data : Type} [DecidableEq Seg] [DecidableEq Obj] {t t' : Tracked Seg Obj Data}
  {a : Act Seg Obj Data}

omit [DecidableEq Seg] in
theorem version_update_base {base : Obj → Data} {log : List (stm_commit_log_entry_s Seg Obj Data)}
    {k : ℕ} {obj o : Obj} (ho : o ≠ obj) (data : Data) :
    version (Function.update base obj data) log k o = version base log k o := by
  unfold version
  rw [Function.update_of_ne ho]

omit [DecidableEq Seg] in
/-- At the end of the log every version that a segment offers is the last. -/
theorem current_at_end {st : St Seg Obj Data} {base : Obj → Data} (hinv : Inv st)
    (hbase : ∀ s o, (∀ e ∈ st.log, o ∉ e.written) →
      current (st.segs s) o = { write_barrier := true, data := base o })
    {s : Seg} (hlast : st.log.length ≤ (st.segs s).last_commit_log_entry) (o : Obj) :
    current (st.segs s) o = version base st.log (st.segs s).last_commit_log_entry o := by
  have hall := ((hinv.segs s).applied.value o).all hlast
  unfold version
  cases hlatest : latest st.log (st.segs s).last_commit_log_entry o with
  | some e => exact hall e hlatest
  | none =>
      apply hbase
      intro e he hmem
      unfold latest at hlatest
      rw [List.take_of_length_le hlast, List.find?_eq_none] at hlatest
      exact hlatest e (List.mem_reverse.mpr he) (decide_eq_true hmem)

omit [DecidableEq Seg] in
theorem VersionInv.init (h : t.Initial) : VersionInv t := by
  obtain ⟨hinit, hpages, hacc, hcommitted⟩ := h
  have hinv : Inv t.st := .init hinit
  obtain ⟨-, -, data, hsegs⟩ := hinit
  refine ⟨hinv, ?_, ?_, ?_, ?_⟩
  · intro s o _
    have hmod : (t.st.segs s).modified_old_objects = ∅ := by rw [hsegs]
    rw [current_of_notMem (by rw [hmod]; exact AList.notMem_empty o), hpages]
    rfl
  · intro s hs
    rw [hsegs] at hs
    cases hs
  · intro s x hx
    rw [hacc] at hx
    cases hx
  · intro c hc
    rw [hcommitted] at hc
    cases hc

omit [DecidableEq Seg] in
/-- The read barriers of the step find the version of the moment. -/
theorem VersionInv.observed (h : VersionInv t) {s : Seg} {obj : Option Obj}
    {seg : Segment Obj Data} (hm : Moves t.st s obj seg)
    (hexists : ∀ o ∈ obj, t.st.allocated o = true) :
    ∀ x ∈ observed (t.st.segs s) obj, t.st.allocated x.obj = true ∧
      (x.own = false → x.found = version t.base t.st.log x.applied x.obj) := by
  have hb := (h.inv.segs s).barriers
  cases obj with
  | none => nofun
  | some o =>
      have hpc : (t.st.segs s).pc = .running := by
        cases hm with
        | read _ hpc => exact hpc
        | write _ hpc _ _ => exact hpc
      intro x hx
      rw [List.mem_singleton.mp hx]
      refine ⟨hexists o rfl, fun hown => ?_⟩
      have hn : o ∉ (t.st.segs s).modified_old_objects := of_decide_eq_false hown
      have hflag : ((t.st.segs s).page o).write_barrier = true := by
        by_contra hf
        rw [Bool.not_eq_true] at hf
        rcases hb.clear o hf with ht | ⟨bk, hbk⟩
        · exact hn ht
        · rw [hpc] at hbk
          cases hbk
      have hcur := h.settled s (by rw [hpc]; rfl) o
      rw [current_of_notMem hn, object_s.set_write_barrier_self hflag] at hcur
      exact hcur

/-- A step that changes one segment. -/
theorem VersionInv.set (h : VersionInv t) {s : Seg} (seg : Segment Obj Data)
    (hinv : Inv (t.st.set s seg)) {acc : List (Access Obj Data)}
    (hbase : ∀ o, (∀ e ∈ t.st.log, o ∉ e.written) → current seg o = current (t.st.segs s) o)
    (hsettled : seg.pc.settled = true → ∀ o,
      current seg o = version t.base t.st.log seg.last_commit_log_entry o)
    (hacc : ∀ x ∈ acc, t.st.allocated x.obj = true ∧
      (x.own = false → x.found = version t.base t.st.log x.applied x.obj)) (v : Seg → ℕ) :
    VersionInv { t with
      st := t.st.set s seg
      validated_at_start := v
      accessed := Function.update t.accessed s acc } := by
  refine ⟨hinv, ?_, ?_, ?_, h.committed⟩
  · intro u o ho
    unfold St.set
    dsimp only
    by_cases hus : u = s
    · rw [hus, Function.update_self, hbase o ho]
      exact h.base s o ho
    · rw [Function.update_of_ne hus]
      exact h.base u o ho
  · intro u
    unfold St.set
    dsimp only
    by_cases hus : u = s
    · rw [hus, Function.update_self]
      exact hsettled
    · rw [Function.update_of_ne hus]
      exact h.settled u
  · intro u
    dsimp only
    by_cases hus : u = s
    · rw [hus, Function.update_self]
      exact hacc
    · rw [Function.update_of_ne hus]
      exact h.found u

theorem VersionInv.attach (h : VersionInv t) (ht : TrackedInv t) {s : Seg} {written : List Obj}
    (hinv : Inv (attach_entry t.st s written)) (hpc : (t.st.segs s).pc = .attach_commit written)
    (v : Seg → ℕ) :
    VersionInv { t with
      st := attach_entry t.st s written
      validated_at_start := v
      committed := t.committed ++ [⟨t.validated_at_start s, t.accessed s⟩] } := by
  have hlist : ∀ o, (∀ e ∈ (attach_entry t.st s written).log, o ∉ e.written) →
      ∀ e ∈ t.st.log, o ∉ e.written := fun o ho e he => ho e (List.mem_append_left _ he)
  have hsegs : ∀ u, current ((attach_entry t.st s written).segs u) = current (t.st.segs u)
      ∧ ((attach_entry t.st s written).segs u).last_commit_log_entry
        = (t.st.segs u).last_commit_log_entry
      ∧ (((attach_entry t.st s written).segs u).pc.settled = true →
        (t.st.segs u).pc.settled = true) := by
    intro u
    unfold attach_entry
    dsimp only
    by_cases hus : u = s
    · subst hus
      rw [Function.update_self]
      exact ⟨rfl, rfl, nofun⟩
    · rw [Function.update_of_ne hus]
      exact ⟨rfl, rfl, id⟩
  have hold : ∀ {k : ℕ} (o : Obj), k ≤ t.st.log.length →
      version t.base (attach_entry t.st s written).log k o = version t.base t.st.log k o :=
    fun _ hk => version_append hk
  have hfound : ∀ u, ∀ x ∈ t.accessed u, t.st.allocated x.obj = true ∧ (x.own = false →
      x.found = version t.base (attach_entry t.st s written).log x.applied x.obj) := by
    intro u x hx
    rw [hold _ (le_trans ((ht.reads u).applied x hx) (ht.tail.segs u).last_le)]
    exact h.found u x hx
  refine ⟨hinv, ?_, ?_, hfound, ?_⟩
  · intro u o ho
    rw [(hsegs u).1]
    exact h.base u o (hlist o ho)
  · intro u hu o
    rw [(hsegs u).1, (hsegs u).2.1, hold o (ht.tail.segs u).last_le]
    exact h.settled u ((hsegs u).2.2 hu) o
  · intro c hc x hx
    rcases List.mem_append.mp hc with hc | hc
    · obtain ⟨k, hk⟩ := List.getElem?_of_mem hc
      have hlt := (List.getElem?_eq_some_iff.mp hk).1
      rw [ht.committed.length] at hlt
      have happlied := (ht.committed.unlisted k c hk x hx).1
      rw [hold _ (by omega)]
      exact h.committed c hc x hx
    · rw [List.mem_singleton.mp hc] at hx
      exact hfound s x hx

omit [DecidableEq Seg] in
/-- A new object is in no entry, and no transaction has accessed it. -/
theorem VersionInv.allocate_old (h : VersionInv t) {obj : Obj} (data : Data)
    (hobj : t.st.allocated obj ≠ true) {st' : St Seg Obj Data}
    (hst : st' = { t.st with
      allocated := Function.update t.st.allocated obj true
      segs := fun s => { t.st.segs s with
        page := Function.update (t.st.segs s).page obj
          { write_barrier := true, data := data } } }) (hinv : Inv st') (v : Seg → ℕ) :
    VersionInv { t with
      st := st'
      base := Function.update t.base obj data
      validated_at_start := v } := by
  have hunlisted : ∀ e ∈ t.st.log, obj ∉ e.written := fun e he hmem =>
    hobj (h.inv.log e he obj hmem)
  have hlog : st'.log = t.st.log := by rw [hst]
  have hsame : ∀ s o, o ≠ obj → current (st'.segs s) o = current (t.st.segs s) o := by
    intro s o ho
    rw [hst]
    refine current_congr rfl fun _ => ?_
    dsimp only
    rw [Function.update_of_ne ho]
  have hnew : ∀ s, current (st'.segs s) obj = { write_barrier := true, data := data } := by
    intro s
    have hn : obj ∉ (st'.segs s).modified_old_objects := by
      rw [hst]
      exact fun hmem => hobj ((h.inv.segs s).barriers.exists_old obj hmem)
    rw [current_of_notMem hn, hst]
    dsimp only
    rw [Function.update_self]
    rfl
  have hkeep : ∀ o, t.st.allocated o = true → st'.allocated o = true ∧ o ≠ obj := by
    intro o ho
    have hne : o ≠ obj := by
      rintro rfl
      exact hobj ho
    rw [hst]
    dsimp only
    rw [Function.update_of_ne hne]
    exact ⟨ho, hne⟩
  have hfound : ∀ x : Access Obj Data, t.st.allocated x.obj = true ∧
      (x.own = false → x.found = version t.base t.st.log x.applied x.obj) →
      st'.allocated x.obj = true ∧ (x.own = false →
        x.found = version (Function.update t.base obj data) st'.log x.applied x.obj) := by
    rintro x ⟨hx, hfx⟩
    rw [hlog, version_update_base (hkeep _ hx).2]
    exact ⟨(hkeep _ hx).1, hfx⟩
  refine ⟨hinv, ?_, ?_, fun s x hx => hfound x (h.found s x hx),
    fun c hc x hx => hfound x (h.committed c hc x hx)⟩
  · intro s o ho
    by_cases hoo : o = obj
    · rw [hoo, hnew]
      dsimp only
      rw [Function.update_self]
    · rw [hsame s o hoo]
      dsimp only
      rw [Function.update_of_ne hoo]
      exact h.base s o (hlog ▸ ho)
  · intro s hs o
    have hlast : (st'.segs s).last_commit_log_entry = (t.st.segs s).last_commit_log_entry := by
      rw [hst]
    rw [hlast, hlog]
    by_cases hoo : o = obj
    · rw [hoo, hnew, version_of_unlisted hunlisted]
      dsimp only
      rw [Function.update_self]
    · rw [hsame s o hoo, version_update_base hoo]
      apply h.settled s
      rw [hst] at hs
      exact hs

theorem VersionInv.step (h : VersionInv t) (htr : TrackedInv t) (hok : clean t a)
    (ht : t.step a = .next t') : VersionInv t' := by
  have hinv : Inv t'.st := h.inv.step hok (tracked_step_eq_next.mp ht).2.1
  obtain ⟨v, hr⟩ := recorded_of_step ht
  cases hr with
  | stays => exact ⟨h.inv, h.base, h.settled, h.found, h.committed⟩
  | starts s hpc hkeys hlist =>
      refine h.set _ hinv (fun _ _ => rfl) nofun ?_ v
      exact nofun
  | moves s obj seg hm hexists =>
      apply h.set _ hinv (fun o ho => hm.current_of_unlisted h.inv (htr.reads s) ho)
      · intro hsettled o
        obtain ⟨hcur, hlast, hwhere⟩ := hm.settled h.inv hsettled
        rw [hcur, hlast]
        rcases hwhere with hwhere | hend
        · exact h.settled s hwhere o
        · exact current_at_end h.inv h.base hend o
      · intro x hx
        rcases List.mem_append.mp hx with hx | hx
        · exact h.found s x hx
        · exact h.observed hm hexists x hx
  | attaches s written hpc hlast => exact h.attach htr hinv hpc v
  | turns_inevitable s hpc hlast =>
      have hset := h.set (s := s) { t.st.segs s with
          transaction_state := .TS_INEVITABLE
          pc := .running } ⟨hinv.segs, hinv.log⟩ (fun _ _ => rfl)
        (fun _ => h.settled s (by rw [hpc]; rfl)) (h.found s) v
      rw [Function.update_eq_self] at hset
      exact ⟨hinv, hset.base, hset.settled, hset.found, hset.committed⟩
  | allocates obj data hobj => exact h.allocate_old data hobj rfl hinv v

/-- What holds in the runs without stale copies. -/
theorem versionInv (h : ReachableIf Tracked.Initial Tracked.step clean t) :
    TrackedInv t ∧ VersionInv t :=
  h.invariant (fun t h0 => (⟨.init h0, .init h0⟩ : TrackedInv t ∧ VersionInv t))
    (fun _ _ _ hi hok hs => ⟨hi.1.step hs, hi.2.step hi.1 hok hs⟩)

theorem trackedInv (h : Reachable Tracked.Initial Tracked.step t) : TrackedInv t :=
  h.invariant (fun _ => .init) (fun _ _ _ hi _ hs => hi.step hs)

end

end Stmgc.C8
