/-
How a segment of `c8` stands to the commit log.

The version of an object that a segment offers to the others, [`current`], is
its backup copy or else its pages. It is always what some prefix of the log
has committed, a prefix at least as long as what the segment has applied.
[`SegInv`] says so for one segment, with what the barriers and the steps of a
validation in between need, and there is one lemma for each function of
`core.c` that it is kept.
-/
import Stmgc.C8.CommitLog
import Mathlib.Data.List.TakeDrop

namespace Stmgc.C8

open Stmgc.Lib

/-! ## What the log says about an object -/

section Log

variable {Seg Obj Data : Type} [DecidableEq Obj]

/-- The last of the first `k` entries of the log that lists `obj`. -/
def latest (log : List (stm_commit_log_entry_s Seg Obj Data)) (k : ℕ) (obj : Obj) :
    Option (stm_commit_log_entry_s Seg Obj Data) :=
  (log.take k).reverse.find? (fun e => obj ∈ e.written)

variable {log : List (stm_commit_log_entry_s Seg Obj Data)}
  {e : stm_commit_log_entry_s Seg Obj Data} {k : ℕ} {obj : Obj}

theorem latest_succ (he : log[k]? = some e) :
    latest log (k + 1) obj = if obj ∈ e.written then some e else latest log k obj := by
  unfold latest
  rw [List.take_add_one, he]
  simp only [Option.toList_some, List.reverse_append, List.reverse_singleton,
    List.singleton_append, List.find?_cons]
  by_cases h : obj ∈ e.written <;> simp [h]

theorem latest_append (hk : k ≤ log.length) : latest (log ++ [e]) k obj = latest log k obj := by
  unfold latest
  rw [List.take_append_of_le_length hk]

/-- `c` is what the first `k` entries say about `obj`, if they list it. -/
def Agrees (log : List (stm_commit_log_entry_s Seg Obj Data)) (k : ℕ) (obj : Obj)
    (c : object_s Data) : Prop :=
  ∀ e, latest log k obj = some e → c = e.contents obj

/-- `c` is what some prefix of the log says about `obj`, of at least `lo`
entries. -/
def CommittedFrom (log : List (stm_commit_log_entry_s Seg Obj Data)) (lo : ℕ) (obj : Obj)
    (c : object_s Data) : Prop :=
  ∃ k, lo ≤ k ∧ k ≤ log.length ∧ Agrees log k obj c

theorem CommittedFrom.mono {lo lo' : ℕ} {c : object_s Data}
    (h : CommittedFrom log lo obj c) (hlo : lo' ≤ lo) : CommittedFrom log lo' obj c := by
  obtain ⟨k, hk, hlen, ha⟩ := h
  exact ⟨k, by omega, hlen, ha⟩

theorem CommittedFrom.append {lo : ℕ} {c : object_s Data}
    (h : CommittedFrom log lo obj c) : CommittedFrom (log ++ [e]) lo obj c := by
  obtain ⟨k, hk, hlen, ha⟩ := h
  refine ⟨k, hk, by rw [List.length_append]; omega, ?_⟩
  intro e' he'
  rw [latest_append hlen] at he'
  exact ha e' he'

/-- An entry that does not list `obj` says nothing new about it. -/
theorem CommittedFrom.succ {c : object_s Data} (h : CommittedFrom log k obj c)
    (he : log[k]? = some e) (hobj : obj ∉ e.written) : CommittedFrom log (k + 1) obj c := by
  obtain ⟨k', hk, hlen, ha⟩ := h
  by_cases heq : k' = k
  · refine ⟨k + 1, le_refl _, ?_, ?_⟩
    · have := (List.getElem?_eq_some_iff.mp he).1
      omega
    · intro e' he'
      rw [latest_succ he, if_neg hobj] at he'
      exact ha e' (heq ▸ he')
  · exact ⟨k', by omega, hlen, ha⟩

/-- The contents of an entry are what the log says from that entry on. -/
theorem committedFrom_entry (he : log[k]? = some e) (hobj : obj ∈ e.written) :
    CommittedFrom log (k + 1) obj (e.contents obj) := by
  refine ⟨k + 1, le_refl _, (List.getElem?_eq_some_iff.mp he).1, ?_⟩
  intro e' he'
  rw [latest_succ he, if_pos hobj, Option.some.injEq] at he'
  rw [he']

theorem CommittedFrom.all {c : object_s Data} (h : CommittedFrom log k obj c)
    (hk : log.length ≤ k) : Agrees log k obj c := by
  obtain ⟨k', hk', hlen, ha⟩ := h
  have : k' = k := by omega
  exact this ▸ ha

end Log

/-! ## The invariant of one segment -/

section Invariant

variable {Seg Obj Data : Type} [DecidableEq Obj]

/-- The version of `obj` that the segment offers: what `_update_obj_from`
copies. -/
def current (seg : Segment Obj Data) (obj : Obj) : object_s Data :=
  (seg.modified_old_objects.lookup obj).getD (seg.page obj).set_write_barrier

theorem current_of_notMem {seg : Segment Obj Data} {obj : Obj}
    (h : obj ∉ seg.modified_old_objects) :
    current seg obj = (seg.page obj).set_write_barrier := by
  unfold current
  rw [AList.lookup_eq_none.mpr h, Option.getD_none]

theorem current_of_lookup {seg : Segment Obj Data} {obj : Obj} {bk : object_s Data}
    (h : seg.modified_old_objects.lookup obj = some bk) : current seg obj = bk := by
  unfold current
  rw [h, Option.getD_some]

theorem current_congr {seg seg' : Segment Obj Data} {obj : Obj}
    (htree : seg'.modified_old_objects = seg.modified_old_objects)
    (hpage : obj ∉ seg.modified_old_objects → (seg'.page obj).data = (seg.page obj).data) :
    current seg' obj = current seg obj := by
  by_cases h : obj ∈ seg.modified_old_objects
  · unfold current
    rw [htree]
    obtain ⟨bk, hbk⟩ := Option.isSome_iff_exists.mp (AList.lookup_isSome.mpr h)
    rw [hbk]
    rfl
  · rw [current_of_notMem h, current_of_notMem (by rw [htree]; exact h)]
    exact object_s.set_write_barrier_congr (hpage h)

/-- A validation has found a conflict, or the transaction is aborting. -/
def Pc.aborting : Pc Obj Data → Bool
  | .validate _ needs_abort => needs_abort
  | .update _ needs_abort _ => needs_abort
  | .was_read _ needs_abort _ _ => needs_abort
  | .abort => true
  | _ => false

/-- The `written` array of a commit that is under way and not attached. -/
def Pc.written : Pc Obj Data → Option (List Obj)
  | .validate (.commit written) _ => some written
  | .update (.commit written) _ _ => some written
  | .was_read (.commit written) _ _ _ => some written
  | .attach_commit written => some written
  | _ => none

/-- The objects of the entry being applied that are not done yet. -/
def Pc.pending : Pc Obj Data → Option (List Obj)
  | .update _ _ written => some written
  | .was_read _ _ obj written => some (obj :: written)
  | _ => none

/-- The objects in `modified_old_objects` have a backup copy with its flag set
and are in the read set; the objects whose flag is clear are among them, and
wait in `objects_pointing_to_nursery`. -/
structure Barriers (seg : Segment Obj Data) (allocated : Obj → Bool) : Prop where
  marked : ∀ o ∈ seg.modified_old_objects, seg.read_marker o = seg.transaction_read_version
  backup : ∀ o bk, seg.modified_old_objects.lookup o = some bk → bk.write_barrier = true
  exists_old : ∀ o ∈ seg.modified_old_objects, allocated o = true
  listed : ∀ o, (seg.page o).write_barrier = false → o ∈ seg.objects_pointing_to_nursery
  clear : ∀ o, (seg.page o).write_barrier = false →
    o ∈ seg.modified_old_objects ∨ ∃ bk, seg.pc = .write_slowpath o bk
  nursery : seg.pc.aborting = false → ∀ o ∈ seg.objects_pointing_to_nursery,
    o ∈ seg.modified_old_objects ∨ ∃ bk, seg.pc = .write_slowpath o bk
  slowpath : ∀ o bk, seg.pc = .write_slowpath o bk →
    allocated o = true ∧ bk = (seg.page o).set_write_barrier
      ∧ seg.read_marker o = seg.transaction_read_version
  written : ∀ w, seg.pc.written = some w → seg.objects_pointing_to_nursery = []
    ∧ (seg.pc.aborting = false → ∀ o, o ∈ w ↔ o ∈ seg.modified_old_objects)
  finish : seg.pc = .finish → seg.modified_old_objects = ∅

/-- How a segment stands to the log. -/
structure Applied (log : List (stm_commit_log_entry_s Seg Obj Data)) (s : Seg)
    (seg : Segment Obj Data) : Prop where
  last_le : seg.last_commit_log_entry ≤ log.length
  own : ∀ (j : ℕ) e, log[j]? = some e → e.segment_num = s → j ≤ seg.last_commit_log_entry
  attached : seg.pc = .attached → ∃ e, log[seg.last_commit_log_entry]? = some e
    ∧ e.segment_num = s ∧ (∀ o, o ∈ e.written ↔ o ∈ seg.modified_old_objects)
    ∧ (∀ o ∈ e.written, e.contents o = seg.page o) ∧ seg.objects_pointing_to_nursery = []
  value : ∀ o, CommittedFrom log seg.last_commit_log_entry o (current seg o)
  own_value : seg.pc ≠ .attached → ∀ e, log[seg.last_commit_log_entry]? = some e →
    e.segment_num = s → ∀ o, CommittedFrom log (seg.last_commit_log_entry + 1) o (current seg o)
  progress : ∀ todo, seg.pc.pending = some todo → ∃ e, log[seg.last_commit_log_entry]? = some e
    ∧ ∀ o ∈ e.written, o ∈ todo
      ∨ CommittedFrom log (seg.last_commit_log_entry + 1) o (current seg o)
  updated : ∀ caller needs_abort o todo, seg.pc = .was_read caller needs_abort o todo →
    (seg.page o).write_barrier = true
      ∧ CommittedFrom log (seg.last_commit_log_entry + 1) o (seg.page o)

structure SegInv (log : List (stm_commit_log_entry_s Seg Obj Data)) (allocated : Obj → Bool)
    (s : Seg) (seg : Segment Obj Data) : Prop where
  barriers : Barriers seg allocated
  applied : Applied log s seg

variable {log : List (stm_commit_log_entry_s Seg Obj Data)} {allocated : Obj → Bool} {s : Seg}
  {seg seg' : Segment Obj Data}

/-! ## What each function keeps -/

/-- A function that changes no version, outside of the application of an entry
and of the last part of a commit. -/
theorem Applied.local (h : Applied log s seg)
    (hlast : seg'.last_commit_log_entry = seg.last_commit_log_entry)
    (hcur : ∀ o, current seg' o = current seg o) (hpc : seg.pc ≠ .attached)
    (hpc' : seg'.pc ≠ .attached) (hpend : seg'.pc.pending = none) : Applied log s seg' := by
  refine ⟨?_, ?_, fun ha => absurd ha hpc', ?_, ?_, ?_, ?_⟩
  · rw [hlast]
    exact h.last_le
  · intro j e hj hs
    rw [hlast]
    exact h.own j e hj hs
  · intro o
    rw [hlast, hcur]
    exact h.value o
  · intro _ e he hs o
    rw [hlast] at he ⊢
    rw [hcur]
    exact h.own_value hpc e he hs o
  · intro todo ht
    rw [hpend] at ht
    cases ht
  · intro caller na o todo hw
    rw [hw] at hpend
    cases hpend

/-! ### Versions that stay as they are -/

theorem current_stm_write_slowpath (seg : Segment Obj Data) (obj o : Obj) :
    current (stm_write_slowpath seg obj) o = current seg o := by
  refine current_congr rfl (fun _ => ?_)
  by_cases hoo : o = obj <;> simp [stm_write_slowpath, hoo]

theorem current_register_backup (h : Barriers seg allocated) {obj : Obj} {bk : object_s Data}
    (hpc : seg.pc = .write_slowpath obj bk) (o : Obj) :
    current (register_backup seg obj bk) o = current seg o := by
  obtain ⟨-, hbk, -⟩ := h.slowpath obj bk hpc
  by_cases hobj : obj ∈ seg.modified_old_objects
  · exact current_congr (by simp [register_backup, hobj]) (fun _ => rfl)
  · by_cases hoo : o = obj
    · subst hoo
      rw [current_of_notMem hobj, ← hbk]
      refine current_of_lookup ?_
      simp [register_backup, hobj]
    · unfold current
      simp only [register_backup, if_neg hobj, AList.lookup_insert_ne hoo]

/-- A store only changes an object that has a backup copy. -/
theorem current_store (h : Barriers seg allocated) (hpc : seg.pc = .running) {obj : Obj}
    (hwb : (seg.page obj).write_barrier = false) (data : Data) (o : Obj) :
    current (store seg obj data) o = current seg o := by
  refine current_congr rfl (fun hn => ?_)
  by_cases hoo : o = obj
  · rcases h.clear obj hwb with ht | ⟨bk, hbk⟩
    · exact absurd (hoo ▸ ht) hn
    · rw [hpc] at hbk
      cases hbk
  · simp [store, hoo]

theorem foldl_collect_now (trace : Data → Data) (lst : List Obj) :
    ∀ (page : Obj → object_s Data) (o : Obj),
      (o ∉ lst → lst.foldl (collect_now trace) page o = page o)
        ∧ (o ∈ lst → (lst.foldl (collect_now trace) page o).write_barrier = true) := by
  induction lst with
  | nil => simp
  | cons x lst ih =>
      intro page o
      obtain ⟨hout, hin⟩ := ih (collect_now trace page x) o
      rw [List.foldl_cons]
      constructor
      · intro ho
        rw [List.mem_cons, not_or] at ho
        rw [hout ho.2, collect_now, Function.update_apply, if_neg ho.1]
      · intro ho
        by_cases hol : o ∈ lst
        · exact hin hol
        · rw [hout hol, collect_now, Function.update_apply,
            if_pos ((List.mem_cons.mp ho).resolve_right hol)]

/-- A minor collection only changes objects that have a backup copy. -/
theorem current_minor_collection (h : Barriers seg allocated) (hpc : seg.pc = .running)
    (trace : Data → Data) (o : Obj) :
    current (minor_collection trace seg) o = current seg o := by
  refine current_congr rfl (fun hn => ?_)
  have hol : o ∉ seg.objects_pointing_to_nursery := by
    intro ho
    rcases h.nursery (by rw [hpc]; rfl) o ho with ht | ⟨bk, hbk⟩
    · exact hn ht
    · rw [hpc] at hbk
      cases hbk
  exact congrArg object_s.data ((foldl_collect_now trace _ _ o).1 hol)

/-! ### Barriers -/

theorem SegInv.stm_read (h : SegInv log allocated s seg) (hpc : seg.pc = .running) (obj : Obj) :
    SegInv log allocated s (stm_read seg obj) where
  barriers := {
    h.barriers with
    marked := by
      intro o ho
      have hm := h.barriers.marked o ho
      simp only [C8.stm_read, Function.update_apply] at hm ⊢
      by_cases hoo : o = obj <;> simp [hoo, hm]
    slowpath := by
      intro o bk hw
      exact absurd (hpc.symm.trans hw) (by simp) }
  applied := h.applied.local rfl (fun _ => rfl) (by simp [hpc])
    (by simp [C8.stm_read, hpc]) (by simp [C8.stm_read, hpc, Pc.pending])

theorem SegInv.stm_write_slowpath (h : SegInv log allocated s seg) (hpc : seg.pc = .running)
    {obj : Obj} (hobj : allocated obj = true) (hwb : (seg.page obj).write_barrier = true) :
    SegInv log allocated s (stm_write_slowpath seg obj) where
  barriers := by
    have hb := h.barriers
    have hpage : ∀ o, o ≠ obj → (C8.stm_write_slowpath seg obj).page o = seg.page o := by
      intro o ho
      simp [C8.stm_write_slowpath, ho]
    refine ⟨?_, hb.backup, hb.exists_old, ?_, ?_, ?_, ?_, ?_, ?_⟩
    · intro o ho
      have hm := hb.marked o ho
      simp only [C8.stm_write_slowpath, C8.stm_read, Function.update_apply]
      by_cases hoo : o = obj <;> simp [hoo, hm]
    · intro o ho
      by_cases hoo : o = obj
      · simp [C8.stm_write_slowpath, hoo]
      · rw [hpage o hoo] at ho
        exact List.mem_append_left _ (hb.listed o ho)
    · intro o ho
      by_cases hoo : o = obj
      · exact .inr ⟨seg.page obj, by rw [hoo]; rfl⟩
      · rw [hpage o hoo] at ho
        rcases hb.clear o ho with ht | ⟨bk, hbk⟩
        · exact .inl ht
        · rw [hpc] at hbk
          cases hbk
    · intro _ o ho
      rcases List.mem_append.mp ho with ho | ho
      · rcases hb.nursery (by rw [hpc]; rfl) o ho with ht | ⟨bk, hbk⟩
        · exact .inl ht
        · rw [hpc] at hbk
          cases hbk
      · rw [List.mem_singleton.mp ho]
        exact .inr ⟨seg.page obj, rfl⟩
    · intro o bk hw
      simp only [C8.stm_write_slowpath, Pc.write_slowpath.injEq] at hw
      obtain ⟨rfl, rfl⟩ := hw
      refine ⟨hobj, ?_, ?_⟩
      · have hset : ((C8.stm_write_slowpath seg obj).page obj).set_write_barrier
            = (seg.page obj).set_write_barrier :=
          object_s.set_write_barrier_congr (by simp [C8.stm_write_slowpath])
        rw [hset, object_s.set_write_barrier_self hwb]
      · simp [C8.stm_write_slowpath, C8.stm_read]
    · intro w hw
      simp [C8.stm_write_slowpath, Pc.written] at hw
    · intro hw
      simp [C8.stm_write_slowpath] at hw
  applied := by
    refine h.applied.local rfl ?_ (by simp [hpc]) (by simp [C8.stm_write_slowpath])
      (by simp [C8.stm_write_slowpath, Pc.pending])
    exact current_stm_write_slowpath seg obj

theorem SegInv.register_backup (h : SegInv log allocated s seg) {obj : Obj}
    {bk : object_s Data} (hpc : seg.pc = .write_slowpath obj bk) :
    SegInv log allocated s (register_backup seg obj bk) := by
  have hb := h.barriers
  obtain ⟨hex, hbk, hmark⟩ := hb.slowpath obj bk hpc
  have hmem : ∀ o, o ∈ (C8.register_backup seg obj bk).modified_old_objects
      ↔ o = obj ∨ o ∈ seg.modified_old_objects := by
    intro o
    unfold C8.register_backup
    by_cases hobj : obj ∈ seg.modified_old_objects
    · simp only [if_pos hobj]
      exact ⟨.inr, fun ho => ho.elim (fun h => h ▸ hobj) id⟩
    · simp only [if_neg hobj]
      exact AList.mem_insert _
  have hor : ∀ o, (o ∈ seg.modified_old_objects ∨ ∃ bk, seg.pc = .write_slowpath o bk) →
      o ∈ (C8.register_backup seg obj bk).modified_old_objects := by
    intro o ho
    rw [hmem]
    rcases ho with ht | ⟨bk', hbk'⟩
    · exact .inr ht
    · rw [hpc, Pc.write_slowpath.injEq] at hbk'
      exact .inl hbk'.1.symm
  refine ⟨⟨?_, ?_, ?_, hb.listed, ?_, ?_, ?_, ?_, ?_⟩, ?_⟩
  · intro o ho
    rcases (hmem o).mp ho with rfl | ho
    · exact hmark
    · exact hb.marked o ho
  · intro o bk' hl
    by_cases hobj : obj ∈ seg.modified_old_objects
    · simp only [C8.register_backup, if_pos hobj] at hl
      exact hb.backup o bk' hl
    · simp only [C8.register_backup, if_neg hobj] at hl
      by_cases hoo : o = obj
      · subst hoo
        rw [AList.lookup_insert, Option.some.injEq] at hl
        rw [← hl, hbk, object_s.write_barrier_set]
      · rw [AList.lookup_insert_ne hoo] at hl
        exact hb.backup o bk' hl
  · intro o ho
    rcases (hmem o).mp ho with rfl | ho
    · exact hex
    · exact hb.exists_old o ho
  · intro o ho
    exact .inl (hor o (hb.clear o ho))
  · intro _ o ho
    exact .inl (hor o (hb.nursery (by rw [hpc]; rfl) o ho))
  · intro o bk' hw
    simp [C8.register_backup] at hw
  · intro w hw
    simp [C8.register_backup, Pc.written] at hw
  · intro hw
    simp [C8.register_backup] at hw
  · exact h.applied.local rfl (current_register_backup hb hpc) (by simp [hpc])
      (by simp [C8.register_backup]) (by simp [C8.register_backup, Pc.pending])

theorem SegInv.store (h : SegInv log allocated s seg) (hpc : seg.pc = .running) {obj : Obj}
    (hwb : (seg.page obj).write_barrier = false) (data : Data) :
    SegInv log allocated s (store seg obj data) := by
  have hb := h.barriers
  have hflag : ∀ o, ((C8.store seg obj data).page o).write_barrier = false →
      (seg.page o).write_barrier = false := by
    intro o ho
    by_cases hoo : o = obj
    · rw [hoo]
      exact hwb
    · simpa [C8.store, hoo] using ho
  refine ⟨{ hb with listed := ?_, clear := ?_, slowpath := ?_ }, ?_⟩
  · intro o ho
    exact hb.listed o (hflag o ho)
  · intro o ho
    exact hb.clear o (hflag o ho)
  · intro o bk hw
    exact absurd (hpc.symm.trans hw) (by simp)
  · exact h.applied.local rfl (current_store hb hpc hwb data) (by simp [hpc])
      (by simp [C8.store, hpc]) (by simp [C8.store, hpc, Pc.pending])

/-! ### Collections -/

/-- After a minor collection every flag is set. -/
theorem minor_collection_barrier (h : Barriers seg allocated) (trace : Data → Data) (o : Obj) :
    ((minor_collection trace seg).page o).write_barrier = true := by
  obtain ⟨hout, hin⟩ :=
    foldl_collect_now trace seg.objects_pointing_to_nursery seg.page o
  by_cases ho : o ∈ seg.objects_pointing_to_nursery
  · exact hin ho
  · by_contra hn
    rw [Bool.not_eq_true] at hn
    have hsame : (minor_collection trace seg).page o = seg.page o := hout ho
    exact ho (h.listed o (hsame ▸ hn))

theorem SegInv.minor_collection (h : SegInv log allocated s seg) (hpc : seg.pc = .running)
    (trace : Data → Data) : SegInv log allocated s (minor_collection trace seg) := by
  have hb := h.barriers
  have hflag := minor_collection_barrier hb trace
  refine ⟨⟨hb.marked, hb.backup, hb.exists_old, ?_, ?_, ?_, ?_, ?_, hb.finish⟩, ?_⟩
  · intro o ho
    rw [hflag o] at ho
    cases ho
  · intro o ho
    rw [hflag o] at ho
    cases ho
  · intro _ o ho
    simp [C8.minor_collection] at ho
  · intro o bk hw
    exact absurd (hpc.symm.trans hw) (by simp)
  · intro w hw
    simp [C8.minor_collection, hpc, Pc.written] at hw
  · exact h.applied.local rfl (current_minor_collection hb hpc trace) (by simp [hpc])
      (by simp [C8.minor_collection, hpc]) (by simp [C8.minor_collection, hpc, Pc.pending])

/-! ### Moving to another part of the code -/

/-- A function that only changes where the thread stands, and not to or from
the middle of the write barrier. -/
theorem SegInv.goto (h : SegInv log allocated s seg) {pc : Pc Obj Data}
    {ts : transaction_state} (hslow : ∀ o bk, seg.pc ≠ .write_slowpath o bk)
    (hslow' : ∀ o bk, pc ≠ .write_slowpath o bk) (hfinish : pc ≠ .finish)
    (habort : pc.aborting = false → seg.pc.aborting = false)
    (hwritten : ∀ w, pc.written = some w → seg.objects_pointing_to_nursery = []
      ∧ (pc.aborting = false → ∀ o, o ∈ w ↔ o ∈ seg.modified_old_objects))
    (ha : Applied log s { seg with pc := pc, transaction_state := ts }) :
    SegInv log allocated s { seg with pc := pc, transaction_state := ts } := by
  have hb := h.barriers
  refine ⟨⟨hb.marked, hb.backup, hb.exists_old, hb.listed, ?_, ?_, ?_, hwritten,
    fun h => absurd h hfinish⟩, ha⟩
  · intro o ho
    rcases hb.clear o ho with ht | ⟨bk, hbk⟩
    · exact .inl ht
    · exact absurd hbk (hslow o bk)
  · intro hab o ho
    rcases hb.nursery (habort hab) o ho with ht | ⟨bk, hbk⟩
    · exact .inl ht
    · exact absurd hbk (hslow o bk)
  · intro o bk hw
    exact absurd hw (hslow' o bk)

/-- A call of `stm_validate` from a running transaction. -/
theorem SegInv.call_validate (h : SegInv log allocated s seg) (hpc : seg.pc = .running)
    {caller : Caller Obj} (hcaller : ∀ w, caller ≠ .commit w) :
    SegInv log allocated s { seg with pc := .validate caller false } := by
  refine h.goto (by simp [hpc]) (by simp) (by simp) (fun _ => by rw [hpc]; rfl) ?_
    (h.applied.local rfl (fun _ => rfl) (by simp [hpc]) (by simp) rfl)
  intro w hw
  cases caller with
  | commit w' => exact absurd rfl (hcaller w')
  | start => simp [Pc.written] at hw
  | running => simp [Pc.written] at hw
  | inevitable => simp [Pc.written] at hw

theorem SegInv.commit_transaction (h : SegInv log allocated s seg) (hpc : seg.pc = .running)
    (trace : Data → Data) : SegInv log allocated s (commit_transaction trace seg) := by
  have hm := h.minor_collection hpc trace
  have hpc' : (C8.minor_collection trace seg).pc = .running := hpc
  have hwritten : ∀ pc : Pc Obj Data,
      pc.written = some (C8.minor_collection trace seg).modified_old_objects.keys →
      ∀ w, pc.written = some w → (C8.minor_collection trace seg).objects_pointing_to_nursery = []
        ∧ (pc.aborting = false →
          ∀ o, o ∈ w ↔ o ∈ (C8.minor_collection trace seg).modified_old_objects) := by
    intro pc hk w hw
    rw [hk, Option.some.injEq] at hw
    refine ⟨rfl, fun _ o => ?_⟩
    rw [← hw]
    exact AList.mem_keys.symm
  unfold C8.commit_transaction
  by_cases hts : (C8.minor_collection trace seg).transaction_state = .TS_INEVITABLE
  · simp only [if_pos hts]
    exact hm.goto (by simp [hpc']) (by simp) (by simp) (fun _ => by rw [hpc']; rfl)
      (hwritten (.attach_commit _) rfl)
      (hm.applied.local rfl (fun _ => rfl) (by simp [hpc']) (by simp) rfl)
  · simp only [if_neg hts]
    exact hm.goto (by simp [hpc']) (by simp) (by simp) (fun _ => by rw [hpc']; rfl)
      (hwritten (.validate (.commit _) false) rfl)
      (hm.applied.local rfl (fun _ => rfl) (by simp [hpc']) (by simp) rfl)

theorem SegInv.start_transaction (h : SegInv log allocated s seg) (hpc : seg.pc = .no_transaction)
    (hkeys : seg.modified_old_objects.keys = [])
    (hlist : seg.objects_pointing_to_nursery = []) :
    SegInv log allocated s (start_transaction seg) := by
  have hb := h.barriers
  have hmem : ∀ o, o ∉ seg.modified_old_objects := by
    intro o ho
    rw [AList.mem_keys, hkeys] at ho
    cases ho
  refine ⟨⟨fun o ho => absurd ho (hmem o), hb.backup, hb.exists_old, hb.listed, ?_, ?_, ?_, ?_,
    ?_⟩, ?_⟩
  · intro o ho
    have := hb.listed o ho
    rw [hlist] at this
    cases this
  · intro _ o ho
    rw [C8.start_transaction, hlist] at ho
    cases ho
  · intro o bk hw
    simp [C8.start_transaction] at hw
  · intro w hw
    simp [C8.start_transaction, Pc.written] at hw
  · intro hw
    simp [C8.start_transaction] at hw
  · exact h.applied.local rfl (fun _ => rfl) (by simp [hpc]) (by simp [C8.start_transaction]) rfl

/-! ### Validation -/

/-- The loop of `stm_validate` takes up the next entry. -/
theorem SegInv.enter_entry (h : SegInv log allocated s seg) {caller : Caller Obj}
    {needs_abort : Bool} (hpc : seg.pc = .validate caller needs_abort)
    {e : stm_commit_log_entry_s Seg Obj Data}
    (he : log[seg.last_commit_log_entry]? = some e) :
    SegInv log allocated s { seg with pc := .update caller needs_abort e.written } := by
  have ha := h.applied
  refine h.goto (by simp [hpc]) (by simp) (by simp) (fun hab => by rw [hpc]; exact hab) ?_ ?_
  · intro w hw
    refine h.barriers.written w ?_ |>.imp id (fun hs hab => hs (by rw [hpc]; exact hab))
    rw [hpc]
    cases caller <;> exact hw
  · refine ⟨ha.last_le, ha.own, by simp, ha.value, fun _ => ha.own_value (by simp [hpc]), ?_,
      by simp⟩
    intro todo ht
    simp only [Pc.pending, Option.some.injEq] at ht
    exact ⟨e, he, fun o ho => .inl (ht ▸ ho)⟩

/-- `_update_obj_from` brings in a version that takes the entry into account. -/
theorem SegInv.update_obj (h : SegInv log allocated s seg) {caller : Caller Obj}
    {needs_abort : Bool} {obj : Obj} {written : List Obj} {realobj : object_s Data}
    (hpc : seg.pc = .update caller needs_abort (obj :: written))
    (hobj : CommittedFrom log (seg.last_commit_log_entry + 1) obj realobj)
    (hflag : realobj.write_barrier = true) :
    SegInv log allocated s { seg with
      page := Function.update seg.page obj realobj
      pc := .was_read caller needs_abort obj written } := by
  have hb := h.barriers
  have ha := h.applied
  generalize hseg' : ({ seg with
      page := Function.update seg.page obj realobj
      pc := .was_read caller needs_abort obj written } : Segment Obj Data) = seg'
  have hlast : seg'.last_commit_log_entry = seg.last_commit_log_entry := by rw [← hseg']
  have htree : seg'.modified_old_objects = seg.modified_old_objects := by rw [← hseg']
  have hlist : seg'.objects_pointing_to_nursery = seg.objects_pointing_to_nursery := by
    rw [← hseg']
  have hpc' : seg'.pc = .was_read caller needs_abort obj written := by rw [← hseg']
  have hself : seg'.page obj = realobj := by rw [← hseg']; simp
  have hother : ∀ o, o ≠ obj → seg'.page o = seg.page o := by
    intro o ho
    rw [← hseg']
    simp [ho]
  have hclear : ∀ o, (seg'.page o).write_barrier = false → (seg.page o).write_barrier = false := by
    intro o ho
    by_cases hoo : o = obj
    · rw [hoo, hself, hflag] at ho
      cases ho
    · rwa [hother o hoo] at ho
  have hcur : ∀ o, o ≠ obj → current seg' o = current seg o :=
    fun o ho => current_congr htree (fun _ => by rw [hother o ho])
  have hcurobj : current seg' obj = current seg obj ∨ current seg' obj = realobj := by
    by_cases hm : obj ∈ seg.modified_old_objects
    · exact .inl (current_congr htree (fun hn => absurd hm hn))
    · refine .inr ?_
      rw [current_of_notMem (by rw [htree]; exact hm), hself,
        object_s.set_write_barrier_self hflag]
  refine ⟨⟨?_, ?_, ?_, ?_, ?_, ?_, ?_, ?_, ?_⟩, ⟨?_, ?_, ?_, ?_, ?_, ?_, ?_⟩⟩
  · rw [← hseg']
    exact hb.marked
  · rw [htree]
    exact hb.backup
  · rw [htree]
    exact hb.exists_old
  · intro o ho
    rw [hlist]
    exact hb.listed o (hclear o ho)
  · intro o ho
    rcases hb.clear o (hclear o ho) with ht | ⟨bk, hbk⟩
    · exact .inl (htree ▸ ht)
    · rw [hpc] at hbk
      cases hbk
  · intro hab o ho
    rw [hlist] at ho
    rw [hpc'] at hab
    rcases hb.nursery (by rw [hpc]; exact hab) o ho with ht | ⟨bk, hbk⟩
    · exact .inl (htree ▸ ht)
    · rw [hpc] at hbk
      cases hbk
  · intro o bk hw
    rw [hpc'] at hw
    cases hw
  · intro w hw
    rw [hlist, htree]
    rw [hpc'] at hw ⊢
    refine hb.written w ?_ |>.imp id (fun hs hab => hs (by rw [hpc]; exact hab))
    rw [hpc]
    cases caller <;> exact hw
  · intro hw
    rw [hpc'] at hw
    cases hw
  · rw [hlast]
    exact ha.last_le
  · rw [hlast]
    exact ha.own
  · intro hw
    rw [hpc'] at hw
    cases hw
  · intro o
    rw [hlast]
    by_cases hoo : o = obj
    · subst hoo
      rcases hcurobj with hc | hc
      · rw [hc]
        exact ha.value o
      · rw [hc]
        exact hobj.mono (by omega)
    · rw [hcur o hoo]
      exact ha.value o
  · intro _ e he hs o
    rw [hlast] at he ⊢
    by_cases hoo : o = obj
    · subst hoo
      rcases hcurobj with hc | hc
      · rw [hc]
        exact ha.own_value (by simp [hpc]) e he hs o
      · rw [hc]
        exact hobj
    · rw [hcur o hoo]
      exact ha.own_value (by simp [hpc]) e he hs o
  · intro todo ht
    rw [hpc', Pc.pending, Option.some.injEq] at ht
    obtain ⟨e, he, hp⟩ := ha.progress (obj :: written) (by rw [hpc]; rfl)
    rw [hlast]
    refine ⟨e, he, fun o ho => ?_⟩
    rw [← ht]
    by_cases hoo : o = obj
    · exact .inl (by simp [hoo])
    · rw [hcur o hoo]
      exact hp o ho
  · intro caller' na o todo hw
    rw [hpc', Pc.was_read.injEq] at hw
    obtain ⟨-, -, rfl, -⟩ := hw
    rw [hlast, hself]
    exact ⟨hflag, hobj⟩

/-- After the check, `obj` is offered as it has been copied: if it still had a
backup copy, it was in the read set. -/
theorem SegInv.check_was_read (h : SegInv log allocated s seg) {caller : Caller Obj}
    {needs_abort : Bool} {obj : Obj} {written : List Obj}
    (hpc : seg.pc = .was_read caller needs_abort obj written) :
    SegInv log allocated s (check_was_read seg caller needs_abort obj written) := by
  have hb := h.barriers
  have ha := h.applied
  obtain ⟨hflag, hupd⟩ := ha.updated caller needs_abort obj written hpc
  obtain ⟨e, he, hp⟩ := ha.progress (obj :: written) (by rw [hpc]; rfl)
  have hset := object_s.set_write_barrier_self hflag
  have hw : ∀ na w, (Pc.update caller na written : Pc Obj Data).written = some w →
      seg.pc.written = some w := by
    intro na w hw
    rw [hpc]
    cases caller <;> exact hw
  unfold C8.check_was_read
  by_cases hread : stm_was_read seg obj = true
  · simp only [if_pos hread]
    generalize hseg' : ({ seg with
        modified_old_objects := seg.modified_old_objects.erase obj
        pc := .update caller true written } : Segment Obj Data) = seg'
    have hcurobj : current seg' obj = seg.page obj := by
      rw [← hset, ← hseg']
      exact current_of_notMem (by simp [AList.mem_erase])
    have hcur : ∀ o, o ≠ obj → current seg' o = current seg o := by
      intro o ho
      rw [← hseg']
      unfold current
      simp only [AList.lookup_erase_ne ho]
    subst hseg'
    refine ⟨⟨?_, ?_, ?_, hb.listed, ?_, ?_, ?_, ?_, ?_⟩,
      ⟨ha.last_le, ha.own, by simp, ?_, ?_, ?_, by simp⟩⟩
    · intro o ho
      exact hb.marked o (AList.mem_erase.mp ho).2
    · intro o bk hl
      by_cases hoo : o = obj
      · rw [hoo, AList.lookup_erase] at hl
        cases hl
      · rw [AList.lookup_erase_ne hoo] at hl
        exact hb.backup o bk hl
    · intro o ho
      exact hb.exists_old o (AList.mem_erase.mp ho).2
    · intro o ho
      have hoo : o ≠ obj := by
        rintro rfl
        rw [hflag] at ho
        cases ho
      rcases hb.clear o ho with ht | ⟨bk, hbk⟩
      · exact .inl (AList.mem_erase.mpr ⟨hoo, ht⟩)
      · rw [hpc] at hbk
        cases hbk
    · intro hab
      cases hab
    · intro o bk hw
      cases hw
    · intro w hw'
      exact ⟨(hb.written w (hw true w hw')).1, fun hab => by cases hab⟩
    · intro hw
      cases hw
    · intro o
      by_cases hoo : o = obj
      · subst hoo
        rw [hcurobj]
        exact hupd.mono (by simp)
      · rw [hcur o hoo]
        exact ha.value o
    · intro _ e he hs o
      by_cases hoo : o = obj
      · subst hoo
        rw [hcurobj]
        exact hupd
      · rw [hcur o hoo]
        exact ha.own_value (by simp [hpc]) e he hs o
    · intro todo ht
      simp only [Pc.pending, Option.some.injEq] at ht
      refine ⟨e, he, fun o ho => ?_⟩
      rw [← ht]
      by_cases hoo : o = obj
      · subst hoo
        rw [hcurobj]
        exact .inr hupd
      · rw [hcur o hoo]
        exact (hp o ho).imp_left (fun hm => (List.mem_cons.mp hm).resolve_left hoo)
  · simp only [if_neg hread]
    -- not in the read set, so not modified either: what is offered is the copy
    have hobj : current seg obj = seg.page obj := by
      rw [← hset]
      refine current_of_notMem (fun hm => hread ?_)
      rw [stm_was_read, beq_iff_eq]
      exact hb.marked obj hm
    refine h.goto (by simp [hpc]) (by simp) (by simp) (fun hab => by rw [hpc]; exact hab) ?_ ?_
    · intro w hw'
      exact hb.written w (hw _ w hw') |>.imp id (fun hs hab => hs (by rw [hpc]; exact hab))
    · refine ⟨ha.last_le, ha.own, by simp, ha.value, fun _ => ha.own_value (by simp [hpc]), ?_,
        by simp⟩
      intro todo ht
      simp only [Pc.pending, Option.some.injEq] at ht
      refine ⟨e, he, fun o ho => ?_⟩
      rw [← ht]
      by_cases hoo : o = obj
      · subst hoo
        refine .inr ?_
        have : CommittedFrom log (seg.last_commit_log_entry + 1) o (current seg o) := by
          rw [hobj]
          exact hupd
        exact this
      · exact (hp o ho).imp_left (fun hm => (List.mem_cons.mp hm).resolve_left hoo)

/-- The entry has been applied. -/
theorem SegInv.entry_done (h : SegInv log allocated s seg) {caller : Caller Obj}
    {needs_abort : Bool} (hpc : seg.pc = .update caller needs_abort []) :
    SegInv log allocated s { seg with
      last_commit_log_entry := seg.last_commit_log_entry + 1
      pc := .validate caller needs_abort } := by
  have hb := h.barriers
  have ha := h.applied
  obtain ⟨e, he, hp⟩ := ha.progress [] (by rw [hpc]; rfl)
  have hlt : seg.last_commit_log_entry < log.length := (List.getElem?_eq_some_iff.mp he).1
  refine ⟨⟨hb.marked, hb.backup, hb.exists_old, hb.listed, ?_, ?_, ?_, ?_, ?_⟩,
    ⟨hlt, ?_, by simp, ?_, ?_, ?_, by simp⟩⟩
  · intro o ho
    rcases hb.clear o ho with ht | ⟨bk, hbk⟩
    · exact .inl ht
    · rw [hpc] at hbk
      cases hbk
  · intro hab o ho
    rcases hb.nursery (by rw [hpc]; exact hab) o ho with ht | ⟨bk, hbk⟩
    · exact .inl ht
    · rw [hpc] at hbk
      cases hbk
  · intro o bk hw
    cases hw
  · intro w hw
    refine hb.written w ?_ |>.imp id (fun hs hab => hs (by rw [hpc]; exact hab))
    rw [hpc]
    cases caller <;> exact hw
  · intro hw
    cases hw
  · intro j e' hj hs
    exact Nat.le_succ_of_le (ha.own j e' hj hs)
  · intro o
    by_cases ho : o ∈ e.written
    · exact (hp o ho).resolve_left (by simp)
    · exact (ha.value o).succ he ho
  · intro _ e' he' hs
    have hle : seg.last_commit_log_entry + 1 ≤ seg.last_commit_log_entry := ha.own _ e' he' hs
    omega
  · intro todo ht
    cases ht

/-! ### The end of a transaction -/

omit [DecidableEq Obj] in
theorem next_none {st : St Seg Obj Data} {cl : ℕ}
    (h : ∀ e, next st cl ≠ .entry e) : st.log[cl]? = none := by
  unfold next at h
  cases hcl : st.log[cl]? with
  | none => rfl
  | some e => exact absurd (by rw [hcl]) (h e)

/-- The compare-and-swap succeeds at the end of the log only. -/
theorem SegInv.attach (h : SegInv log allocated s seg) {written : List Obj}
    (hpc : seg.pc = .attach_commit written) (hlast : log[seg.last_commit_log_entry]? = none) :
    SegInv (log ++ [⟨s, written, seg.page⟩]) allocated s { seg with pc := .attached } := by
  have hb := h.barriers
  have ha := h.applied
  have heq : seg.last_commit_log_entry = log.length := by
    have := List.getElem?_eq_none_iff.mp hlast
    have := ha.last_le
    omega
  obtain ⟨hlist, hwritten⟩ := hb.written written (by rw [hpc]; rfl)
  have hsame := hwritten (by rw [hpc]; rfl)
  refine ⟨⟨hb.marked, hb.backup, hb.exists_old, hb.listed, ?_, ?_, ?_, ?_, ?_⟩,
    ⟨?_, ?_, ?_, ?_, by simp, ?_, by simp⟩⟩
  · intro o ho
    rcases hb.clear o ho with ht | ⟨bk, hbk⟩
    · exact .inl ht
    · rw [hpc] at hbk
      cases hbk
  · intro _ o ho
    rw [hlist] at ho
    cases ho
  · intro o bk hw
    cases hw
  · intro w hw
    cases hw
  · intro hw
    cases hw
  · have := ha.last_le
    simp only [List.length_append, List.length_singleton]
    omega
  · intro j e hj _
    have hlen := (List.getElem?_eq_some_iff.mp hj).1
    simp only [List.length_append, List.length_singleton] at hlen ⊢
    omega
  · intro _
    refine ⟨⟨s, written, seg.page⟩, ?_, rfl, hsame, fun _ _ => rfl, hlist⟩
    simp [heq]
  · intro o
    exact (ha.value o).append
  · intro todo ht
    cases ht

/-- Once the modified objects are cleared, what the segment offers is what it
has committed. -/
theorem SegInv.clear_modified (h : SegInv log allocated s seg) (hpc : seg.pc = .attached) :
    SegInv log allocated s (clear_modified seg) := by
  have hb := h.barriers
  have ha := h.applied
  obtain ⟨e, he, hs, hsame, hcontents, hlist⟩ := ha.attached hpc
  have hflag : ∀ o, (seg.page o).write_barrier = true := by
    intro o
    by_contra hn
    rw [Bool.not_eq_true] at hn
    have := hb.listed o hn
    rw [hlist] at this
    cases this
  have hpage : ∀ o, (C8.clear_modified seg).page o = seg.page o := by
    intro o
    simp only [C8.clear_modified]
    by_cases ho : o ∈ seg.modified_old_objects
    · rw [if_pos ho, object_s.set_write_barrier_self (hflag o)]
    · rw [if_neg ho]
  have hcur : ∀ o, current (C8.clear_modified seg) o = seg.page o := by
    intro o
    rw [current_of_notMem (AList.notMem_empty o), hpage,
      object_s.set_write_barrier_self (hflag o)]
  have hval : ∀ o, CommittedFrom log (seg.last_commit_log_entry + 1) o
      (current (C8.clear_modified seg) o) := by
    intro o
    rw [hcur]
    by_cases ho : o ∈ e.written
    · rw [← hcontents o ho]
      exact committedFrom_entry he ho
    · have hn : o ∉ seg.modified_old_objects := fun hm => ho ((hsame o).mpr hm)
      have hv := ha.value o
      rw [current_of_notMem hn, object_s.set_write_barrier_self (hflag o)] at hv
      exact hv.succ he ho
  refine ⟨⟨?_, ?_, ?_, ?_, ?_, ?_, ?_, ?_, ?_⟩,
    ⟨ha.last_le, ha.own, by simp [C8.clear_modified], ?_, ?_, ?_, ?_⟩⟩
  · intro o ho
    exact absurd ho (AList.notMem_empty o)
  · intro o bk hl
    simp [C8.clear_modified] at hl
  · intro o ho
    exact absurd ho (AList.notMem_empty o)
  · intro o ho
    rw [hpage, hflag] at ho
    cases ho
  · intro o ho
    rw [hpage, hflag] at ho
    cases ho
  · intro _ o ho
    rw [C8.clear_modified, hlist] at ho
    cases ho
  · intro o bk hw
    cases hw
  · intro w hw
    cases hw
  · intro _
    rfl
  · intro o
    exact (hval o).mono (Nat.le_succ _)
  · intro _ e' _ _ o
    exact hval o
  · intro todo ht
    cases ht
  · intro caller na o todo hw
    cases hw

/-- The transaction is over, with every flag set and nothing modified. -/
theorem SegInv.finish_transaction (h : SegInv log allocated s seg) {page : Obj → object_s Data}
    (hpc : seg.pc ≠ .attached) (hflag : ∀ o, (page o).write_barrier = true)
    (hcur : ∀ o, page o = current seg o) :
    SegInv log allocated s
      (C8.finish_transaction { seg with page := page, modified_old_objects := ∅ }) := by
  have ha := h.applied
  refine ⟨⟨?_, ?_, ?_, ?_, ?_, ?_, ?_, ?_, ?_⟩, ha.local rfl ?_ hpc
    (by simp [C8.finish_transaction]) rfl⟩
  · intro o ho
    exact absurd ho (AList.notMem_empty o)
  · intro o bk hl
    simp [C8.finish_transaction] at hl
  · intro o ho
    exact absurd ho (AList.notMem_empty o)
  · intro o ho
    rw [C8.finish_transaction, hflag] at ho
    cases ho
  · intro o ho
    rw [C8.finish_transaction, hflag] at ho
    cases ho
  · intro _ o ho
    cases ho
  · intro o bk hw
    cases hw
  · intro w hw
    cases hw
  · intro hw
    cases hw
  · intro o
    rw [current_of_notMem (AList.notMem_empty o), ← hcur]
    exact object_s.set_write_barrier_self (hflag o)

theorem SegInv.commit_finished (h : SegInv log allocated s seg) (hpc : seg.pc = .finish) :
    SegInv log allocated s (C8.finish_transaction seg) := by
  have htree := h.barriers.finish hpc
  have hflag : ∀ o, (seg.page o).write_barrier = true := by
    intro o
    by_contra hn
    rw [Bool.not_eq_true] at hn
    rcases h.barriers.clear o hn with ht | ⟨bk, hbk⟩
    · rw [htree] at ht
      exact AList.notMem_empty o ht
    · rw [hpc] at hbk
      cases hbk
  have hseg : seg = { seg with page := seg.page, modified_old_objects := ∅ } := by rw [← htree]
  rw [hseg]
  refine h.finish_transaction (by simp [hpc]) hflag (fun o => ?_)
  rw [current_of_notMem (by rw [htree]; exact AList.notMem_empty o)]
  exact (object_s.set_write_barrier_self (hflag o)).symm

/-- An abort puts back what the segment offered all along. -/
theorem abort_transaction_page (h : Barriers seg allocated) (hpc : seg.pc = .abort) (o : Obj) :
    (abort_transaction seg).page o = current seg o
      ∧ ((abort_transaction seg).page o).write_barrier = true := by
  change (seg.modified_old_objects.lookup o).getD (seg.page o) = current seg o
    ∧ ((seg.modified_old_objects.lookup o).getD (seg.page o)).write_barrier = true
  cases hl : seg.modified_old_objects.lookup o with
  | some bk => exact ⟨(current_of_lookup hl).symm, h.backup o bk hl⟩
  | none =>
      have hn : o ∉ seg.modified_old_objects := AList.lookup_eq_none.mp hl
      have hflag : (seg.page o).write_barrier = true := by
        by_contra hf
        rw [Bool.not_eq_true] at hf
        rcases h.clear o hf with ht | ⟨bk, hbk⟩
        · exact hn ht
        · rw [hpc] at hbk
          cases hbk
      rw [current_of_notMem hn, object_s.set_write_barrier_self hflag]
      exact ⟨rfl, hflag⟩

theorem SegInv.abort_transaction (h : SegInv log allocated s seg) (hpc : seg.pc = .abort) :
    SegInv log allocated s (C8.abort_transaction seg) :=
  h.finish_transaction (by simp [hpc]) (fun o => (abort_transaction_page h.barriers hpc o).2)
    (fun o => (abort_transaction_page h.barriers hpc o).1)

end Invariant

end Stmgc.C8
