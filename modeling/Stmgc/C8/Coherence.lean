/-
When `stm_validate` leaves a segment with what the commit log says.

Between the compare-and-swap that attaches an entry and the critical section
that clears the modified objects, the committing segment still offers the
versions from before its commit. A validation that copies from it then ends
with a stale object ([`not_commitLogCoherent`]); in a run where none does, it
ends with the contents of the last entry that wrote the object
([`stm_validate_coherent`]).
-/
import Stmgc.C8.CommitLogInv

namespace Stmgc.C8

open Stmgc.Lib

/-! ## All segments -/

section Run

variable {Seg Obj Data : Type} [DecidableEq Seg] [DecidableEq Obj]

/-- The invariant of a state, and that the log lists only objects that exist. -/
structure Inv (st : St Seg Obj Data) : Prop where
  segs : ∀ s, SegInv st.log st.allocated s (st.segs s)
  log : ∀ e ∈ st.log, ∀ o ∈ e.written, st.allocated o = true

omit [DecidableEq Seg] in
theorem Inv.init {st : St Seg Obj Data} (h : Initial st) : Inv st := by
  obtain ⟨hlog, -, data, hsegs⟩ := h
  refine ⟨fun s => ?_, by simp [hlog]⟩
  rw [hsegs, hlog]
  constructor
  · constructor <;> simp [Pc.written]
  · constructor <;> simp [Pc.pending, CommittedFrom, Agrees, latest]

/-- A step that only changes one segment. -/
theorem Inv.set {st : St Seg Obj Data} (h : Inv st) {s : Seg} {seg : Segment Obj Data}
    (hseg : SegInv st.log st.allocated s seg) : Inv (st.set s seg) := by
  refine ⟨fun t => ?_, h.log⟩
  by_cases hts : t = s
  · subst hts
    simpa [St.set] using hseg
  · simpa [St.set, hts] using h.segs t

omit [DecidableEq Seg] in
/-- Another segment's entry changes nothing for a segment. -/
theorem SegInv.other_entry {log : List (stm_commit_log_entry_s Seg Obj Data)}
    {allocated : Obj → Bool} {t : Seg} {seg : Segment Obj Data}
    (h : SegInv log allocated t seg) {e : stm_commit_log_entry_s Seg Obj Data}
    (he : e.segment_num ≠ t) : SegInv (log ++ [e]) allocated t seg := by
  have ha := h.applied
  have hold : ∀ (j : ℕ) e', (log ++ [e])[j]? = some e' → e'.segment_num = t →
      log[j]? = some e' := by
    intro j e' hj hs
    by_cases hlt : j < log.length
    · rwa [List.getElem?_append_left hlt] at hj
    · rw [List.getElem?_append_right (by omega)] at hj
      rw [List.getElem?_singleton] at hj
      by_cases hz : j - log.length = 0
      · rw [if_pos hz, Option.some.injEq] at hj
        exact absurd (hj ▸ hs) he
      · rw [if_neg hz] at hj
        cases hj
  have hnew : ∀ (j : ℕ) e', log[j]? = some e' → (log ++ [e])[j]? = some e' := by
    intro j e' hj
    rw [List.getElem?_append_left (List.getElem?_eq_some_iff.mp hj).1]
    exact hj
  refine ⟨h.barriers, ⟨?_, ?_, ?_, fun o => (ha.value o).append, ?_, ?_, ?_⟩⟩
  · rw [List.length_append]
    have := ha.last_le
    omega
  · intro j e' hj hs
    exact ha.own j e' (hold j e' hj hs) hs
  · intro hpc
    obtain ⟨e', he', hrest⟩ := ha.attached hpc
    exact ⟨e', hnew _ _ he', hrest⟩
  · intro hpc e' he' hs o
    exact (ha.own_value hpc e' (hold _ _ he' hs) hs o).append
  · intro todo ht
    obtain ⟨e', he', hp⟩ := ha.progress todo ht
    exact ⟨e', hnew _ _ he', fun o ho => (hp o ho).imp_right (fun hc => hc.append)⟩
  · intro caller na o todo hw
    exact (ha.updated caller na o todo hw).imp_right (fun hc => hc.append)

theorem Inv.attach {st : St Seg Obj Data} (h : Inv st) {s : Seg} {written : List Obj}
    (hpc : (st.segs s).pc = .attach_commit written)
    (hlast : st.log[(st.segs s).last_commit_log_entry]? = none) :
    Inv (attach_entry st s written) := by
  refine ⟨fun t => ?_, ?_⟩
  · by_cases hts : t = s
    · subst hts
      simpa [attach_entry] using (h.segs t).attach hpc hlast
    · have := (h.segs t).other_entry (e := ⟨s, written, (st.segs s).page⟩) (Ne.symm hts)
      simpa [attach_entry, hts] using this
  · intro e he o ho
    have hb := (h.segs s).barriers
    rcases List.mem_append.mp he with he | he
    · exact h.log e he o ho
    · rw [List.mem_singleton.mp he] at ho
      obtain ⟨-, hsame⟩ := hb.written written (by rw [hpc]; rfl)
      exact hb.exists_old o ((hsame (by rw [hpc]; rfl) o).mp ho)

omit [DecidableEq Seg] in
/-- A new object is in no entry and in no set of modified objects. -/
theorem Inv.allocate_old {st : St Seg Obj Data} (h : Inv st) {obj : Obj} (data : Data)
    (hnew : ¬ st.allocated obj = true) :
    Inv { st with
      allocated := Function.update st.allocated obj true
      segs := fun s => { st.segs s with
        page := Function.update (st.segs s).page obj { write_barrier := true, data := data } } } := by
  have hkeep : ∀ o, st.allocated o = true → Function.update st.allocated obj true o = true := by
    intro o ho
    by_cases hoo : o = obj <;> simp [hoo, ho]
  have hlatest : ∀ k, latest st.log k obj = none := by
    intro k
    unfold latest
    rw [List.find?_eq_none]
    intro e he hmem
    rw [List.mem_reverse] at he
    exact hnew (h.log e (List.mem_of_mem_take he) obj (of_decide_eq_true hmem))
  refine ⟨fun s => ?_, fun e he o ho => hkeep o (h.log e he o ho)⟩
  have hb := (h.segs s).barriers
  have ha := (h.segs s).applied
  generalize hseg' : ({ st.segs s with
    page := Function.update (st.segs s).page obj { write_barrier := true, data := data } } :
      Segment Obj Data) = seg'
  have hpage : ∀ o, o ≠ obj → seg'.page o = (st.segs s).page o := by
    intro o ho
    rw [← hseg']
    simp [ho]
  have hcommitted : ∀ lo o c c', CommittedFrom st.log lo o c → (o ≠ obj → c' = c) →
      CommittedFrom st.log lo o c' := by
    rintro lo o c c' ⟨k, hk, hlen, hagree⟩ hc
    refine ⟨k, hk, hlen, ?_⟩
    intro e he
    by_cases hoo : o = obj
    · rw [hoo, hlatest] at he
      cases he
    · rw [hc hoo]
      exact hagree e he
  have hcur : ∀ o, o ≠ obj → current seg' o = current (st.segs s) o := by
    intro o ho
    exact current_congr (by rw [← hseg']) (fun _ => by rw [hpage o ho])
  have hflag : ∀ o, (seg'.page o).write_barrier = false →
      ((st.segs s).page o).write_barrier = false := by
    intro o ho
    by_cases hoo : o = obj
    · rw [hoo, ← hseg'] at ho
      simp at ho
    · rwa [hpage o hoo] at ho
  subst hseg'
  refine ⟨⟨hb.marked, hb.backup, fun o ho => hkeep o (hb.exists_old o ho), ?_, ?_, hb.nursery, ?_,
    hb.written, hb.finish⟩, ⟨ha.last_le, ha.own, ?_, ?_, ?_, ?_, ?_⟩⟩
  · intro o ho
    exact hb.listed o (hflag o ho)
  · intro o ho
    exact hb.clear o (hflag o ho)
  · intro o bk hw
    obtain ⟨hex, hbk, hm⟩ := hb.slowpath o bk hw
    refine ⟨hkeep o hex, ?_, hm⟩
    rw [hpage o (by rintro rfl; exact hnew hex)]
    exact hbk
  · intro hpc
    obtain ⟨e, he, hs, hsame, hcontents, hlist⟩ := ha.attached hpc
    refine ⟨e, he, hs, hsame, fun o ho => ?_, hlist⟩
    have hex := h.log e (List.mem_of_getElem? he) o ho
    rw [hpage o (by rintro rfl; exact hnew hex)]
    exact hcontents o ho
  · intro o
    exact hcommitted _ o _ _ (ha.value o) (hcur o)
  · intro hpc e he hs o
    exact hcommitted _ o _ _ (ha.own_value hpc e he hs o) (hcur o)
  · intro todo ht
    obtain ⟨e, he, hp⟩ := ha.progress todo ht
    exact ⟨e, he, fun o ho => (hp o ho).imp_right (fun hc => hcommitted _ o _ _ hc (hcur o))⟩
  · intro caller na o todo hw
    obtain ⟨hf, hc⟩ := ha.updated caller na o todo hw
    refine ⟨?_, hcommitted _ o _ _ hc (hpage o)⟩
    by_cases hoo : o = obj
    · simp [hoo]
    · rw [hpage o hoo]
      exact hf

/-! ## Runs -/

/-- The step copies an object of an entry whose committer has not cleared its
modified objects yet. -/
def copies_from_attached (st : St Seg Obj Data) : Act Seg Obj Data → Bool
  | .continue s =>
    match (st.segs s).pc with
    | .update _ _ (_ :: _) =>
      match next st (st.segs s).last_commit_log_entry with
      | .entry cl =>
        match (st.segs cl.segment_num).pc with
        | .attached =>
          (st.segs cl.segment_num).last_commit_log_entry == (st.segs s).last_commit_log_entry
        | _ => false
      | _ => false
    | _ => false
  | _ => false

omit [DecidableEq Seg] [DecidableEq Obj] in
theorem next_eq_entry {st : St Seg Obj Data} {k : ℕ} {e : stm_commit_log_entry_s Seg Obj Data}
    (h : next st k = .entry e) : st.log[k]? = some e := by
  unfold next at h
  cases hk : st.log[k]? with
  | some e' =>
      rw [hk, Next.entry.injEq] at h
      rw [h]
  | none =>
      rw [hk] at h
      by_cases ht : st.tail_inevitable = true
      · rw [if_pos ht] at h
        cases h
      · rw [if_neg ht] at h
        cases h

omit [DecidableEq Seg] in
/-- What `_update_obj_from` copies for an entry takes that entry into account,
unless its committer is between attaching it and clearing. -/
theorem Inv.update_obj_from {st : St Seg Obj Data} (h : Inv st) {k : ℕ}
    {e : stm_commit_log_entry_s Seg Obj Data} (he : st.log[k]? = some e)
    (hatt : (st.segs e.segment_num).pc = .attached →
      (st.segs e.segment_num).last_commit_log_entry ≠ k) {obj : Obj} {realobj : object_s Data}
    (hcopy : update_obj_from (st.segs e.segment_num) obj = some realobj) :
    realobj.write_barrier = true ∧ CommittedFrom st.log (k + 1) obj realobj := by
  generalize hsrc : st.segs e.segment_num = src at hatt hcopy
  have ha : Applied st.log e.segment_num src := hsrc ▸ (h.segs e.segment_num).applied
  have hcur : realobj.write_barrier = true ∧ current src obj = realobj := by
    unfold C8.update_obj_from at hcopy
    cases hl : src.modified_old_objects.lookup obj with
    | some bk =>
        rw [hl] at hcopy
        by_cases hbk : bk.write_barrier = true
        · simp only [if_pos hbk, Option.some.injEq] at hcopy
          exact hcopy ▸ ⟨hbk, current_of_lookup hl⟩
        · simp only [if_neg hbk] at hcopy
          cases hcopy
    | none =>
        rw [hl] at hcopy
        simp only [Option.some.injEq] at hcopy
        exact hcopy ▸ ⟨rfl, current_of_notMem (AList.lookup_eq_none.mp hl)⟩
  refine ⟨hcur.1, hcur.2 ▸ ?_⟩
  have hle := ha.own k e he rfl
  by_cases hk : src.last_commit_log_entry = k
  · have hv := ha.own_value (fun hpc => hatt hpc hk) e (hk.symm ▸ he) rfl obj
    rwa [hk] at hv
  · exact (ha.value obj).mono (by omega)

theorem Inv.continue_step {st st' : St Seg Obj Data} (h : Inv st) {s : Seg}
    (hok : copies_from_attached st (.continue s) = false)
    (hs : continue_step st s = .next st') : Inv st' := by
  have hseg := h.segs s
  unfold C8.continue_step at hs
  unfold copies_from_attached at hok
  cases hpc : (st.segs s).pc with
  | no_transaction => simp [hpc] at hs
  | running => simp [hpc] at hs
  | write_slowpath obj bk =>
      simp only [hpc, Outcome.next.injEq] at hs
      exact hs ▸ h.set (hseg.register_backup hpc)
  | validate caller needs_abort =>
      cases hn : next st (st.segs s).last_commit_log_entry with
      | entry cl =>
          simp only [hpc, hn, Outcome.next.injEq] at hs
          exact hs ▸ h.set (hseg.enter_entry hpc (next_eq_entry hn))
      | inevitable =>
          simp only [hpc, hn, Outcome.next.injEq] at hs
          exact hs ▸ h
      | null =>
          simp only [hpc, hn] at hs
          by_cases hna : needs_abort = true
          · simp only [if_pos hna, Outcome.next.injEq] at hs
            refine hs ▸ h.set (hseg.goto (by simp [hpc]) (by simp) (by simp)
              (fun hab => by cases hab) (fun w hw => by cases hw) ?_)
            exact hseg.applied.local rfl (fun _ => rfl) (by simp [hpc]) (by simp) rfl
          · simp only [if_neg hna, Outcome.next.injEq] at hs
            have hab : (st.segs s).pc.aborting = false := by
              rw [hpc]
              simpa [Pc.aborting] using hna
            refine hs ▸ h.set (hseg.goto (by simp [hpc]) ?_ ?_ (fun _ => hab) ?_
              (hseg.applied.local rfl (fun _ => rfl) (by simp [hpc]) ?_ ?_))
            · cases caller <;> simp [Caller.return_pc]
            · cases caller <;> simp [Caller.return_pc]
            · intro w hw
              refine hseg.barriers.written w ?_ |>.imp id (fun hs _ => hs hab)
              rw [hpc]
              cases caller <;> exact hw
            · cases caller <;> simp [Caller.return_pc]
            · cases caller <;> rfl
  | update caller needs_abort written =>
      cases written with
      | nil =>
          simp only [hpc, Outcome.next.injEq] at hs
          exact hs ▸ h.set (hseg.entry_done hpc)
      | cons obj written =>
          cases hn : next st (st.segs s).last_commit_log_entry with
          | null => simp [hpc, hn] at hs
          | inevitable => simp [hpc, hn] at hs
          | entry cl =>
              simp only [hpc, hn] at hs hok
              cases hcopy : C8.update_obj_from (st.segs cl.segment_num) obj with
              | none => simp [hcopy] at hs
              | some realobj =>
                  simp only [hcopy, Outcome.next.injEq] at hs
                  have hatt : (st.segs cl.segment_num).pc = .attached →
                      (st.segs cl.segment_num).last_commit_log_entry
                        ≠ (st.segs s).last_commit_log_entry := by
                    intro hatt heq
                    simp [hatt, heq] at hok
                  obtain ⟨hflag, hval⟩ := h.update_obj_from (next_eq_entry hn) hatt hcopy
                  exact hs ▸ h.set (hseg.update_obj hpc hval hflag)
  | was_read caller needs_abort obj written =>
      simp only [hpc, Outcome.next.injEq] at hs
      exact hs ▸ h.set (hseg.check_was_read hpc)
  | attach_commit written =>
      have hretry : Inv (st.set s { st.segs s with pc := .validate (.commit written) false }) := by
        refine h.set (hseg.goto (by simp [hpc]) (by simp) (by simp)
          (fun _ => by rw [hpc]; rfl) ?_
          (hseg.applied.local rfl (fun _ => rfl) (by simp [hpc]) (by simp) rfl))
        intro w hw
        exact hseg.barriers.written w (by rw [hpc]; exact hw)
          |>.imp id (fun hs _ => hs (by rw [hpc]; rfl))
      have hattach : (∀ e, next st (st.segs s).last_commit_log_entry ≠ .entry e) →
          Inv (attach_entry st s written) := fun hn => h.attach hpc (next_none hn)
      simp only [hpc] at hs
      by_cases hts : (st.segs s).transaction_state = .TS_INEVITABLE
      · simp only [if_pos hts] at hs
        cases hn : next st (st.segs s).last_commit_log_entry with
        | null => simp [hn] at hs
        | entry cl => simp [hn] at hs
        | inevitable =>
            simp only [hn, Outcome.next.injEq] at hs
            exact hs ▸ hattach (by simp [hn])
      · simp only [if_neg hts] at hs
        cases hn : next st (st.segs s).last_commit_log_entry with
        | null =>
            simp only [hn, Outcome.next.injEq] at hs
            exact hs ▸ hattach (by simp [hn])
        | entry cl =>
            simp only [hn, Outcome.next.injEq] at hs
            exact hs ▸ hretry
        | inevitable =>
            simp only [hn, Outcome.next.injEq] at hs
            exact hs ▸ hretry
  | attach_inevitable =>
      have hgoto : ∀ pc ts, pc = .running ∨ pc = .validate .inevitable false →
          SegInv st.log st.allocated s { st.segs s with pc := pc, transaction_state := ts } := by
        intro pc ts hor
        rcases hor with rfl | rfl
        · exact hseg.goto (by simp [hpc]) (by simp) (by simp) (fun _ => by rw [hpc]; rfl)
            (fun w hw => by cases hw)
            (hseg.applied.local rfl (fun _ => rfl) (by simp [hpc]) (by simp) rfl)
        · exact hseg.goto (by simp [hpc]) (by simp) (by simp) (fun _ => by rw [hpc]; rfl)
            (fun w hw => by cases hw)
            (hseg.applied.local rfl (fun _ => rfl) (by simp [hpc]) (by simp) rfl)
      simp only [hpc] at hs
      cases hn : next st (st.segs s).last_commit_log_entry with
      | null =>
          simp only [hn, Outcome.next.injEq] at hs
          have h' : Inv { st with tail_inevitable := true } := ⟨h.segs, h.log⟩
          exact hs ▸ h'.set (hgoto .running _ (.inl rfl))
      | entry cl =>
          simp only [hn, Outcome.next.injEq] at hs
          exact hs ▸ h.set (hgoto _ _ (.inr rfl))
      | inevitable =>
          simp only [hn, Outcome.next.injEq] at hs
          exact hs ▸ h.set (hgoto _ _ (.inr rfl))
  | attached =>
      simp only [hpc, Outcome.next.injEq] at hs
      exact hs ▸ h.set (hseg.clear_modified hpc)
  | finish =>
      simp only [hpc, Outcome.next.injEq] at hs
      exact hs ▸ h.set (hseg.commit_finished hpc)
  | abort =>
      simp only [hpc] at hs
      by_cases hts : (st.segs s).transaction_state = .TS_REGULAR
      · simp only [if_pos hts, Outcome.next.injEq] at hs
        exact hs ▸ h.set (hseg.abort_transaction hpc)
      · simp [hts] at hs

theorem Inv.step {st st' : St Seg Obj Data} (h : Inv st) {a : Act Seg Obj Data}
    (hok : copies_from_attached st a = false) (hs : step st a = .next st') : Inv st' := by
  cases a with
  | start_transaction s =>
      cases hpc : (st.segs s).pc <;> simp only [C8.step, hpc] at hs <;> try cases hs
      by_cases hclear : (st.segs s).modified_old_objects.keys = []
          ∧ (st.segs s).objects_pointing_to_nursery = []
      · simp only [if_pos hclear, Outcome.next.injEq] at hs
        exact hs ▸ h.set ((h.segs s).start_transaction hpc hclear.1 hclear.2)
      · simp [hclear] at hs
  | read s obj =>
      cases hpc : (st.segs s).pc <;> simp only [C8.step, hpc] at hs <;> try cases hs
      exact h.set ((h.segs s).stm_read hpc obj)
  | write s obj =>
      cases hpc : (st.segs s).pc <;> simp only [C8.step, hpc] at hs <;> try cases hs
      by_cases hobj : st.allocated obj = true
      · by_cases hwb : ((st.segs s).page obj).write_barrier = true
        · simp only [if_pos hobj, if_pos hwb, Outcome.next.injEq] at hs
          exact hs ▸ h.set ((h.segs s).stm_write_slowpath hpc hobj hwb)
        · simp only [if_pos hobj, if_neg hwb, Outcome.next.injEq] at hs
          exact hs ▸ h
      · simp [hobj] at hs
  | store s obj data =>
      cases hpc : (st.segs s).pc <;> simp only [C8.step, hpc] at hs <;> try cases hs
      by_cases hwb : ((st.segs s).page obj).write_barrier = true
      · simp [hwb] at hs
      · simp only [if_neg hwb, Outcome.next.injEq] at hs
        rw [Bool.not_eq_true] at hwb
        exact hs ▸ h.set ((h.segs s).store hpc hwb data)
  | allocate_old obj data =>
      by_cases hobj : st.allocated obj = true
      · simp [C8.step, hobj] at hs
      · simp only [C8.step, if_neg hobj, Outcome.next.injEq] at hs
        exact hs ▸ h.allocate_old data hobj
  | minor_collection s trace =>
      cases hpc : (st.segs s).pc <;> simp only [C8.step, hpc] at hs <;> try cases hs
      exact h.set ((h.segs s).minor_collection hpc trace)
  | validate s =>
      cases hpc : (st.segs s).pc <;> simp only [C8.step, hpc] at hs <;> try cases hs
      by_cases hts : (st.segs s).transaction_state = .TS_INEVITABLE
      · simp only [if_pos hts] at hs
        cases hn : next st (st.segs s).last_commit_log_entry with
        | inevitable =>
            simp only [hn, Outcome.next.injEq] at hs
            exact hs ▸ h
        | null => simp [hn] at hs
        | entry cl => simp [hn] at hs
      · simp only [if_neg hts, Outcome.next.injEq] at hs
        exact hs ▸ h.set ((h.segs s).call_validate hpc (by simp))
  | become_inevitable s =>
      cases hpc : (st.segs s).pc <;> simp only [C8.step, hpc] at hs <;> try cases hs
      by_cases hts : (st.segs s).transaction_state = .TS_REGULAR
      · simp only [if_pos hts, Outcome.next.injEq] at hs
        exact hs ▸ h.set ((h.segs s).call_validate hpc (by simp))
      · simp only [if_neg hts, Outcome.next.injEq] at hs
        exact hs ▸ h
  | commit_transaction s trace =>
      cases hpc : (st.segs s).pc <;> simp only [C8.step, hpc] at hs <;> try cases hs
      exact h.set ((h.segs s).commit_transaction hpc trace)
  | abort_transaction s =>
      have hgoto : (∀ o bk, (st.segs s).pc ≠ .write_slowpath o bk) →
          (st.segs s).pc ≠ .attached → Inv (st.set s { st.segs s with pc := .abort }) := by
        intro hslow hatt
        exact h.set ((h.segs s).goto hslow (by simp) (by simp) (fun hab => by cases hab)
          (fun w hw => by cases hw)
          ((h.segs s).applied.local rfl (fun _ => rfl) hatt (by simp) rfl))
      cases hpc : (st.segs s).pc with
      | running =>
          simp only [C8.step, hpc, Outcome.next.injEq] at hs
          exact hs ▸ hgoto (by simp [hpc]) (by simp [hpc])
      | validate caller needs_abort =>
          cases hn : next st (st.segs s).last_commit_log_entry with
          | inevitable =>
              simp only [C8.step, hpc, hn, Outcome.next.injEq] at hs
              exact hs ▸ hgoto (by simp [hpc]) (by simp [hpc])
          | null => simp [C8.step, hpc, hn] at hs
          | entry cl => simp [C8.step, hpc, hn] at hs
      | _ => simp [C8.step, hpc] at hs
  | «continue» s => exact h.continue_step hok hs

/-- In this step `stm_validate` returns to its caller in segment `s`. -/
def stm_validate_returns (st : St Seg Obj Data) (a : Act Seg Obj Data) (s : Seg) : Prop :=
  (a = .continue s ∧ (∃ caller, (st.segs s).pc = .validate caller false)
      ∧ next st (st.segs s).last_commit_log_entry = .null)
    ∨ (a = .validate s ∧ (st.segs s).transaction_state = .TS_INEVITABLE)

/-- An object the segment has not modified is in its pages as the last entry
that wrote it has committed it, among the entries the segment has applied. -/
def Coherent (st : St Seg Obj Data) (s : Seg) : Prop :=
  ∀ obj, obj ∉ (st.segs s).modified_old_objects →
    ∀ e, latest st.log (st.segs s).last_commit_log_entry obj = some e →
      (st.segs s).page obj = e.contents obj

omit [DecidableEq Seg] in
/-- At the end of the log there is only one prefix that is long enough. -/
theorem Inv.coherent {st : St Seg Obj Data} (h : Inv st) {s : Seg}
    (hlast : st.log[(st.segs s).last_commit_log_entry]? = none)
    (hpc : ∀ o bk, (st.segs s).pc ≠ .write_slowpath o bk) : Coherent st s := by
  intro obj hobj e he
  have hb := (h.segs s).barriers
  have hflag : ((st.segs s).page obj).write_barrier = true := by
    by_contra hn
    rw [Bool.not_eq_true] at hn
    rcases hb.clear obj hn with ht | ⟨bk, hbk⟩
    · exact hobj ht
    · exact hpc obj bk hbk
  have hv := ((h.segs s).applied.value obj).all (List.getElem?_eq_none_iff.mp hlast)
  rw [current_of_notMem hobj, object_s.set_write_barrier_self hflag] at hv
  exact hv e he

/-- **Coherence of a validation.** In every run in which no thread copies from
a segment that has attached its entry and not yet cleared its modified
objects, a segment is coherent with the log whenever `stm_validate` returns. -/
theorem stm_validate_coherent {st st' : St Seg Obj Data} {a : Act Seg Obj Data} {s : Seg}
    (h : ReachableIf Initial step (fun st a => copies_from_attached st a = false) st)
    (hs : step st a = .next st') (hret : stm_validate_returns st a s) : Coherent st' s := by
  have hinv : Inv st := h.invariant (fun _ => Inv.init) (fun _ _ _ hi hok hs => hi.step hok hs)
  rcases hret with ⟨rfl, ⟨caller, hpc⟩, hnull⟩ | ⟨rfl, hts⟩
  · have hok : copies_from_attached st (.continue s) = false := by
      simp [copies_from_attached, hpc]
    have hinv' := hinv.step hok hs
    simp only [C8.step, C8.continue_step, hpc, hnull, Bool.false_eq_true, if_false,
      Outcome.next.injEq] at hs
    subst hs
    have hlast : st.log[(st.segs s).last_commit_log_entry]? = none :=
      next_none (by simp [hnull])
    refine hinv'.coherent ?_ ?_
    · simpa [St.set] using hlast
    · cases caller <;> simp [St.set, Caller.return_pc]
  · cases hpc : (st.segs s).pc <;> simp only [C8.step, hpc] at hs <;> try cases hs
    simp only [if_pos hts] at hs
    cases hn : next st (st.segs s).last_commit_log_entry with
    | null => simp [hn] at hs
    | entry cl => simp [hn] at hs
    | inevitable =>
        simp only [hn, Outcome.next.injEq] at hs
        subst hs
        exact hinv.coherent (next_none (by simp [hn])) (by simp [hpc])

/-- The start of a program with one prebuilt object. -/
def oneObject : St Bool Unit ℕ where
  log := []
  tail_inevitable := false
  allocated := fun _ => true
  segs := fun _ =>
    { pc := .no_transaction
      transaction_state := .TS_NONE
      transaction_read_version := 0xff
      read_marker := fun _ => 0
      page := fun _ => { write_barrier := true, data := 0 }
      modified_old_objects := ∅
      objects_pointing_to_nursery := []
      last_commit_log_entry := 0 }

theorem oneObject_initial : Initial oneObject := ⟨rfl, rfl, fun _ => 0, fun _ => rfl⟩

/-- Segment `false` writes the object and attaches its entry. -/
def commitOne : List (Act Bool Unit ℕ) :=
  [.start_transaction false, .continue false, .write false (), .continue false,
    .store false () 1, .commit_transaction false id, .continue false, .continue false]

/-- Segment `true` starts, up to the return of its `stm_validate`. -/
def startOther : List (Act Bool Unit ℕ) :=
  [.start_transaction true, .continue true, .continue true, .continue true, .continue true]

/-- The start of the other segment falls between the attaching of the entry
and the clearing of the modified objects: it copies the backup copy. -/
theorem stm_validate_not_coherent :
    ¬ ∀ (st st' : St Bool Unit ℕ) (a : Act Bool Unit ℕ) (s : Bool),
      Reachable Initial step st → step st a = .next st' → stm_validate_returns st a s →
        Coherent st' s := by
  intro hall
  obtain ⟨st, st', e, hrun, hs, hpc, hnull, htree, he, hstale⟩ : ∃ st st' e,
      run step (fun _ _ => True) oneObject (commitOne ++ startOther) = .next st
        ∧ step st (.continue true) = .next st'
        ∧ (st.segs true).pc = .validate .start false
        ∧ next st (st.segs true).last_commit_log_entry = .null
        ∧ (st'.segs true).modified_old_objects = ∅
        ∧ latest st'.log (st'.segs true).last_commit_log_entry () = some e
        ∧ (st'.segs true).page () ≠ e.contents () :=
    ⟨_, _, _, rfl, rfl, rfl, rfl, rfl, rfl, by decide⟩
  have h0 : Reachable Initial step oneObject := .start oneObject_initial
  have hcoh := hall st st' _ true (h0.run _ hrun) hs (.inl ⟨rfl, ⟨_, hpc⟩, hnull⟩)
  exact hstale (hcoh () (by rw [htree]; exact AList.notMem_empty ()) e he)

/-- The same, but the committer clears its modified objects before. -/
theorem stm_validate_coherent_cleared :
    ∃ st st', run step (fun st a => copies_from_attached st a = false) oneObject
        (commitOne ++ [.continue false] ++ startOther) = .next st
      ∧ step st (.continue true) = .next st' ∧ Coherent st' true := by
  have h0 : ReachableIf Initial step (fun st a => copies_from_attached st a = false) oneObject :=
    .start oneObject_initial
  refine ⟨_, _, rfl, rfl, ?_⟩
  exact stm_validate_coherent (a := .continue true)
    (h0.run (commitOne ++ [.continue false] ++ startOther) rfl) rfl (.inl ⟨rfl, ⟨_, rfl⟩, rfl⟩)

end Run

end Stmgc.C8
