/-
What a transaction of `c8` has accessed, next to the machine of `CommitLog`.

[`Tracked`] adds to a state of that machine, for each running transaction, the
list of its accesses to old objects, and for each entry of the log the
transaction that it committed. None of this is in the source, and no step
depends on it. [`ReadSet`] says what the read markers and the loop of
`stm_validate` guarantee about the accesses of one segment.
-/
import Stmgc.C8.CommitLogCases

namespace Stmgc.C8

open Stmgc.Lib

/-! ## The accesses of a run -/

/-- One passage of a read or write barrier on an old object. -/
structure Access (Obj Data : Type) where
  obj : Obj
  /-- the entries that the segment has applied -/
  applied : ℕ
  /-- what the pages of the segment hold -/
  found : object_s Data
  /-- the object is in `modified_old_objects`: what is found is the work of the
  transaction itself -/
  own : Bool

/-- A transaction that has attached its entry. -/
structure Committed (Obj Data : Type) where
  /-- the entries that the `stm_validate` of its start has applied -/
  validated_at_start : ℕ
  accesses : List (Access Obj Data)

structure Tracked (Seg Obj Data : Type) where
  st : St Seg Obj Data
  /-- the contents with which each object has come into being -/
  base : Obj → Data
  validated_at_start : Seg → ℕ
  accessed : Seg → List (Access Obj Data)
  /-- one for each entry of the log -/
  committed : List (Committed Obj Data)

section Functions

variable {Seg Obj Data : Type} [DecidableEq Seg] [DecidableEq Obj]

def observe (seg : Segment Obj Data) (obj : Obj) : Access Obj Data :=
  { obj := obj
    applied := seg.last_commit_log_entry
    found := seg.page obj
    own := decide (obj ∈ seg.modified_old_objects) }

/-- The accesses of all segments after a step. -/
def accessed_after (st : St Seg Obj Data) (a : Act Seg Obj Data)
    (accessed : Seg → List (Access Obj Data)) : Seg → List (Access Obj Data) :=
  match a with
  | .start_transaction s => Function.update accessed s []
  | _ =>
    match accesses st a with
    | some (s, obj) => Function.update accessed s (accessed s ++ [observe (st.segs s) obj])
    | none => accessed

/-- The segment whose `stm_validate` at the start of a transaction returns. -/
def started (st st' : St Seg Obj Data) : Act Seg Obj Data → Option Seg
  | .continue s =>
    match (st.segs s).pc, (st'.segs s).pc with
    | .validate .start _, .running => some s
    | _, _ => none
  | _ => none

/-- The segment that attaches its entry. -/
def attached (st st' : St Seg Obj Data) : Act Seg Obj Data → Option Seg
  | .continue s => if st.log.length < st'.log.length then some s else none
  | _ => none

/-- What is known after a step from `t.st` to `st'`. -/
def Tracked.record (t : Tracked Seg Obj Data) (a : Act Seg Obj Data) (st' : St Seg Obj Data) :
    Tracked Seg Obj Data :=
  { st := st'
    base :=
      match a with
      | .allocate_old obj data => Function.update t.base obj data
      | _ => t.base
    validated_at_start :=
      match started t.st st' a with
      | some s => Function.update t.validated_at_start s (st'.segs s).last_commit_log_entry
      | none => t.validated_at_start
    accessed := accessed_after t.st a t.accessed
    committed :=
      match attached t.st st' a with
      | some s => t.committed ++ [⟨t.validated_at_start s, t.accessed s⟩]
      | none => t.committed }

/-- The program reads only objects that exist. -/
def reads_existing (st : St Seg Obj Data) : Act Seg Obj Data → Bool
  | .read _ obj => st.allocated obj
  | _ => true

/-- A step of the machine, with what is known about it. -/
def Tracked.step (t : Tracked Seg Obj Data) (a : Act Seg Obj Data) :
    Outcome (Tracked Seg Obj Data) :=
  guarded (reads_existing t.st a = true) ((C8.step t.st a).bind fun st' => .next (t.record a st'))

def Tracked.Initial (t : Tracked Seg Obj Data) : Prop :=
  C8.Initial t.st ∧ (∀ s obj, (t.st.segs s).page obj = ⟨true, t.base obj⟩)
    ∧ (∀ s, t.accessed s = []) ∧ t.committed = []

theorem tracked_step_eq_next {t t' : Tracked Seg Obj Data} {a : Act Seg Obj Data} :
    t.step a = .next t' ↔ reads_existing t.st a = true
      ∧ C8.step t.st a = .next t'.st ∧ t' = t.record a t'.st := by
  unfold Tracked.step
  rw [guarded_eq_next, Outcome.bind_eq_next]
  apply and_congr_right
  intro _
  constructor
  · rintro ⟨st', hs, ht⟩
    rw [Outcome.next.injEq] at ht
    rw [← ht]
    exact ⟨hs, rfl⟩
  · rintro ⟨hs, ht⟩
    exact ⟨t'.st, hs, congrArg _ ht.symm⟩

end Functions

/-! ## The read set of one segment -/

section ReadSet

variable {Seg Obj Data : Type} [DecidableEq Obj]

/-- A transaction that can still attach its entry. -/
def Pc.live : Pc Obj Data → Bool
  | .no_transaction | .attached | .finish => false
  | pc => !pc.aborting

/-- No entry from number `i` to before `j` lists `obj`. -/
def Unlisted (log : List (stm_commit_log_entry_s Seg Obj Data)) (i j : ℕ) (obj : Obj) : Prop :=
  ∀ k e, i ≤ k → k < j → log[k]? = some e → obj ∉ e.written

/-- The accesses `acc` of the transaction of a segment, its read markers, and
the entries it has applied. -/
structure ReadSet (log : List (stm_commit_log_entry_s Seg Obj Data)) (seg : Segment Obj Data)
    (acc : List (Access Obj Data)) : Prop where
  marked : ∀ x ∈ acc, seg.read_marker x.obj = seg.transaction_read_version
  applied : ∀ x ∈ acc, x.applied ≤ seg.last_commit_log_entry
  modified : ∀ o ∈ seg.modified_old_objects, ∃ x ∈ acc, x.obj = o
  slowpath : ∀ o bk, seg.pc = .write_slowpath o bk → ∃ x ∈ acc, x.obj = o
  written : ∀ w, seg.pc.written = some w → ∀ o ∈ w, ∃ x ∈ acc, x.obj = o
  pending : ∀ todo, seg.pc.pending = some todo → ∃ e,
    log[seg.last_commit_log_entry]? = some e ∧ (∀ o ∈ todo, o ∈ e.written)
      ∧ (seg.pc.live = true → ∀ x ∈ acc, x.obj ∈ e.written → x.obj ∈ todo)
  unlisted : seg.pc.live = true →
    ∀ x ∈ acc, Unlisted log x.applied seg.last_commit_log_entry x.obj

variable {log : List (stm_commit_log_entry_s Seg Obj Data)} {seg seg' : Segment Obj Data}
  {acc : List (Access Obj Data)}

omit [DecidableEq Obj] in
theorem Unlisted.append {i j : ℕ} {obj : Obj} (h : Unlisted log i j obj) (hj : j ≤ log.length)
    (e : stm_commit_log_entry_s Seg Obj Data) : Unlisted (log ++ [e]) i j obj := by
  intro k e' hi hk he
  rw [List.getElem?_append_left (lt_of_lt_of_le hk hj)] at he
  exact h k e' hi hk he

omit [DecidableEq Obj] in
theorem Unlisted.succ {i j : ℕ} {obj : Obj} (h : Unlisted log i j obj)
    {e : stm_commit_log_entry_s Seg Obj Data} (he : log[j]? = some e) (hobj : obj ∉ e.written) :
    Unlisted log i (j + 1) obj := by
  intro k e' hi hk he'
  rcases Nat.lt_succ_iff_lt_or_eq.mp hk with hlt | rfl
  · exact h k e' hi hlt he'
  · rw [he, Option.some.injEq] at he'
    exact he' ▸ hobj

omit [DecidableEq Obj] in
/-- Another entry is attached. -/
theorem ReadSet.longer (h : ReadSet log seg acc) (hlast : seg.last_commit_log_entry ≤ log.length)
    (e : stm_commit_log_entry_s Seg Obj Data) : ReadSet (log ++ [e]) seg acc := by
  refine { h with pending := ?_, unlisted := ?_ }
  · intro todo ht
    obtain ⟨e', he', hrest⟩ := h.pending todo ht
    refine ⟨e', ?_, hrest⟩
    rw [List.getElem?_append_left (List.getElem?_eq_some_iff.mp he').1]
    exact he'
  · intro hlive x hx
    exact (h.unlisted hlive x hx).append hlast e

omit [DecidableEq Obj] in
/-- A step that neither reads nor applies anything, to a place where no entry
is being applied. -/
theorem ReadSet.goto (h : ReadSet log seg acc) (hmarker : seg'.read_marker = seg.read_marker)
    (hversion : seg'.transaction_read_version = seg.transaction_read_version)
    (hlast : seg'.last_commit_log_entry = seg.last_commit_log_entry)
    (hmodified : ∀ o ∈ seg'.modified_old_objects, ∃ x ∈ acc, x.obj = o)
    (hslow : ∀ o bk, seg'.pc ≠ .write_slowpath o bk)
    (hwritten : ∀ w, seg'.pc.written = some w → ∀ o ∈ w, ∃ x ∈ acc, x.obj = o)
    (hpending : seg'.pc.pending = none) (hlive : seg'.pc.live = true → seg.pc.live = true) :
    ReadSet log seg' acc := by
  refine ⟨?_, ?_, hmodified, fun o bk hw => absurd hw (hslow o bk), hwritten, ?_, ?_⟩
  · rw [hmarker, hversion]
    exact h.marked
  · rw [hlast]
    exact h.applied
  · rw [hpending]
    nofun
  · rw [hlast]
    exact fun hl => h.unlisted (hlive hl)

/-- An access from a running transaction. -/
theorem ReadSet.access (h : ReadSet log seg acc) (hpc : seg.pc = .running) (obj : Obj)
    (hmarker : seg'.read_marker = (stm_read seg obj).read_marker)
    (hversion : seg'.transaction_read_version = seg.transaction_read_version)
    (hlast : seg'.last_commit_log_entry = seg.last_commit_log_entry)
    (hmodified : seg'.modified_old_objects = seg.modified_old_objects)
    (hpc' : seg'.pc = .running ∨ ∃ bk, seg'.pc = .write_slowpath obj bk) :
    ReadSet log seg' (acc ++ [observe seg obj]) := by
  have hwritten : seg'.pc.written = none := by
    rcases hpc' with hr | ⟨bk, hw⟩
    · rw [hr]
      rfl
    · rw [hw]
      rfl
  have hpending : seg'.pc.pending = none := by
    rcases hpc' with hr | ⟨bk, hw⟩
    · rw [hr]
      rfl
    · rw [hw]
      rfl
  refine ⟨?_, ?_, ?_, ?_, ?_, ?_, ?_⟩
  · intro x hx
    rw [hmarker, hversion]
    change Function.update seg.read_marker obj seg.transaction_read_version x.obj = _
    rw [Function.update_apply]
    split
    · rfl
    · rename_i hne
      rcases List.mem_append.mp hx with hx | hx
      · exact h.marked x hx
      · rw [List.mem_singleton.mp hx] at hne
        exact absurd rfl hne
  · intro x hx
    rw [hlast]
    rcases List.mem_append.mp hx with hx | hx
    · exact h.applied x hx
    · rw [List.mem_singleton.mp hx]
      exact le_rfl
  · intro o ho
    rw [hmodified] at ho
    obtain ⟨x, hx, rfl⟩ := h.modified o ho
    exact ⟨x, List.mem_append_left _ hx, rfl⟩
  · intro o bk hw
    rcases hpc' with hr | ⟨bk', hw'⟩
    · rw [hr] at hw
      cases hw
    · rw [hw', Pc.write_slowpath.injEq] at hw
      exact ⟨_, List.mem_append_right _ (List.mem_singleton.mpr rfl), hw.1⟩
  · rw [hwritten]
    nofun
  · rw [hpending]
    nofun
  · intro _ x hx
    rw [hlast]
    rcases List.mem_append.mp hx with hx | hx
    · exact h.unlisted (by rw [hpc]; rfl) x hx
    · -- nothing has been applied since the access
      rw [List.mem_singleton.mp hx]
      intro k e hi hk
      exact absurd hk (Nat.not_lt.mpr hi)

theorem ReadSet.register_backup (h : ReadSet log seg acc) {obj : Obj} {bk : object_s Data}
    (hpc : seg.pc = .write_slowpath obj bk) :
    ReadSet log (register_backup seg obj bk) acc := by
  refine h.goto rfl rfl rfl ?_ nofun nofun rfl (fun _ => by rw [hpc]; rfl)
  intro o ho
  unfold C8.register_backup at ho
  split at ho
  · exact h.modified o ho
  · rcases (AList.mem_insert _).mp ho with rfl | ho
    · exact h.slowpath o bk hpc
    · exact h.modified o ho

theorem ReadSet.commit_transaction (h : ReadSet log seg acc) (hpc : seg.pc = .running)
    (trace : Data → Data) : ReadSet log (commit_transaction trace seg) acc := by
  have hkeys : ∀ o ∈ (minor_collection trace seg).modified_old_objects.keys,
      ∃ x ∈ acc, x.obj = o := fun o ho => h.modified o (AList.mem_keys.mpr ho)
  unfold C8.commit_transaction
  dsimp only
  split
  · refine h.goto rfl rfl rfl h.modified (by simp) ?_ rfl (fun _ => by rw [hpc]; rfl)
    intro w hw
    rw [Pc.written, Option.some.injEq] at hw
    exact hw ▸ hkeys
  · refine h.goto rfl rfl rfl h.modified (by simp) ?_ rfl (fun _ => by rw [hpc]; rfl)
    intro w hw
    rw [Pc.written, Option.some.injEq] at hw
    exact hw ▸ hkeys

omit [DecidableEq Obj] in
/-- The loop of `stm_validate` takes up the next entry. -/
theorem ReadSet.enter_entry (h : ReadSet log seg acc) {caller : Caller Obj} {needs_abort : Bool}
    (hpc : seg.pc = .validate caller needs_abort) {e : stm_commit_log_entry_s Seg Obj Data}
    (he : log[seg.last_commit_log_entry]? = some e) :
    ReadSet log { seg with pc := .update caller needs_abort e.written } acc := by
  refine ⟨h.marked, h.applied, h.modified, nofun, ?_, ?_, ?_⟩
  · intro w hw
    apply h.written w
    rw [hpc]
    cases caller <;> exact hw
  · intro todo ht
    rw [Pc.pending, Option.some.injEq] at ht
    exact ⟨e, he, fun o ho => ht ▸ ho, fun _ x _ hx => ht ▸ hx⟩
  · intro hlive
    apply h.unlisted
    rw [hpc]
    exact hlive

/-- `_update_obj_from` touches neither the read markers nor the sets. -/
theorem ReadSet.update (h : ReadSet log seg acc) {caller : Caller Obj} {needs_abort : Bool}
    {obj : Obj} {written : List Obj} (hpc : seg.pc = .update caller needs_abort (obj :: written))
    (realobj : object_s Data) :
    ReadSet log { seg with
      page := Function.update seg.page obj realobj
      pc := .was_read caller needs_abort obj written } acc := by
  refine ⟨h.marked, h.applied, h.modified, nofun, ?_, ?_, ?_⟩
  · intro w hw
    apply h.written w
    rw [hpc]
    cases caller <;> exact hw
  · intro todo ht
    obtain ⟨e, he, hsub, hleft⟩ := h.pending todo (by rw [hpc]; exact ht)
    exact ⟨e, he, hsub, fun hlive => hleft (by rw [hpc]; exact hlive)⟩
  · intro hlive
    apply h.unlisted
    rw [hpc]
    exact hlive

/-- An object that the transaction has accessed makes it abort, so of a live
transaction none is among the objects that are done. -/
theorem ReadSet.check_was_read (h : ReadSet log seg acc) {caller : Caller Obj}
    {needs_abort : Bool} {obj : Obj} {written : List Obj}
    (hpc : seg.pc = .was_read caller needs_abort obj written) :
    ReadSet log (check_was_read seg caller needs_abort obj written) acc := by
  obtain ⟨e, he, hsub, hleft⟩ := h.pending (obj :: written) (by rw [hpc]; rfl)
  have hsub' : ∀ o ∈ written, o ∈ e.written := fun o ho => hsub o (List.mem_cons_of_mem _ ho)
  have hwritten : ∀ na w, (Pc.update caller na written : Pc Obj Data).written = some w →
      ∀ o ∈ w, ∃ x ∈ acc, x.obj = o := by
    intro na w hw
    apply h.written w
    rw [hpc]
    cases caller <;> exact hw
  unfold C8.check_was_read
  split
  · refine ⟨h.marked, h.applied, ?_, (by simp), hwritten true, ?_, (by intros; contradiction)⟩
    · intro o ho
      exact h.modified o (AList.mem_erase.mp ho).2
    · intro todo ht
      rw [Pc.pending, Option.some.injEq] at ht
      exact ⟨e, he, fun o ho => hsub' o (ht ▸ ho), (by intros; contradiction)⟩
  · rename_i hread
    refine ⟨h.marked, h.applied, h.modified, (by simp), hwritten needs_abort, ?_, ?_⟩
    · intro todo ht
      rw [Pc.pending, Option.some.injEq] at ht
      refine ⟨e, he, fun o ho => hsub' o (ht ▸ ho), fun hlive x hx hxe => ht ▸ ?_⟩
      have hx' := hleft (by rw [hpc]; exact hlive) x hx hxe
      apply (List.mem_cons.mp hx').resolve_left
      -- not in the read set, so not accessed
      rintro rfl
      apply hread
      rw [stm_was_read, beq_iff_eq]
      exact h.marked x hx
    · intro hlive
      apply h.unlisted
      rw [hpc]
      exact hlive

omit [DecidableEq Obj] in
theorem ReadSet.entry_done (h : ReadSet log seg acc) {caller : Caller Obj} {needs_abort : Bool}
    (hpc : seg.pc = .update caller needs_abort []) :
    ReadSet log { seg with
      last_commit_log_entry := seg.last_commit_log_entry + 1
      pc := .validate caller needs_abort } acc := by
  obtain ⟨e, he, -, hleft⟩ := h.pending [] (by rw [hpc]; rfl)
  refine ⟨h.marked, ?_, h.modified, nofun, ?_, nofun, ?_⟩
  · intro x hx
    exact Nat.le_succ_of_le (h.applied x hx)
  · intro w hw
    apply h.written w
    rw [hpc]
    cases caller <;> exact hw
  · intro hlive x hx
    have hl : seg.pc.live = true := by
      rw [hpc]
      exact hlive
    exact (h.unlisted hl x hx).succ he fun hxe => nomatch hleft hl x hx hxe

omit [DecidableEq Obj] in
/-- The transaction can no longer attach its entry, or has done so. -/
theorem ReadSet.ended (h : ReadSet log seg acc) (hmarker : seg'.read_marker = seg.read_marker)
    (hversion : seg'.transaction_read_version = seg.transaction_read_version)
    (hlast : seg'.last_commit_log_entry = seg.last_commit_log_entry)
    (hmodified : ∀ o ∈ seg'.modified_old_objects, o ∈ seg.modified_old_objects)
    (hslow : ∀ o bk, seg'.pc ≠ .write_slowpath o bk) (hwritten : seg'.pc.written = none)
    (hpending : seg'.pc.pending = none) (hlive : seg'.pc.live = false) :
    ReadSet log seg' acc := by
  refine h.goto hmarker hversion hlast (fun o ho => h.modified o (hmodified o ho)) hslow ?_
    hpending ?_
  · rw [hwritten]
    nofun
  · rw [hlive]
    nofun

omit [DecidableEq Obj] in
theorem ReadSet.start_transaction (hkeys : seg.modified_old_objects.keys = []) :
    ReadSet log (start_transaction seg) [] := by
  refine ⟨nofun, nofun, ?_, nofun, nofun, nofun, fun _ => nofun⟩
  intro o ho
  have ho' : o ∈ seg.modified_old_objects.keys := AList.mem_keys.mp ho
  rw [hkeys] at ho'
  cases ho'

end ReadSet

/-! ## Runs -/

section Run

variable {Seg Obj Data : Type} [DecidableEq Seg] [DecidableEq Obj] {st : St Seg Obj Data}
  {s : Seg} {acc : List (Access Obj Data)}

/-- The accesses of a step of the thread of a segment. -/
def observed (seg : Segment Obj Data) (obj : Option Obj) : List (Access Obj Data) :=
  (obj.map (observe seg)).toList

omit [DecidableEq Seg] in
theorem ReadSet.moves (h : ReadSet st.log (st.segs s) acc) {obj : Option Obj}
    {seg : Segment Obj Data} (hm : Moves st s obj seg) :
    ReadSet st.log seg (acc ++ observed (st.segs s) obj) := by
  have hnone : acc ++ observed (st.segs s) none = acc := List.append_nil acc
  cases hm with
  | read obj hpc => exact h.access hpc obj rfl rfl rfl rfl (.inl hpc)
  | write obj hpc _ _ => exact h.access hpc obj rfl rfl rfl rfl (.inr ⟨_, rfl⟩)
  | register_backup obj bk hpc =>
      rw [hnone]
      exact h.register_backup hpc
  | store obj data hpc _ =>
      rw [hnone]
      refine h.goto rfl rfl rfl h.modified ?_ h.written ?_ id
      · rw [C8.store, hpc]
        simp
      · rw [C8.store, hpc]
        rfl
  | minor_collection trace hpc =>
      rw [hnone]
      refine h.goto rfl rfl rfl h.modified ?_ h.written ?_ id
      · rw [C8.minor_collection, hpc]
        simp
      · rw [C8.minor_collection, hpc]
        rfl
  | commit_transaction trace hpc =>
      rw [hnone]
      exact h.commit_transaction hpc trace
  | call_validate caller hpc hcaller =>
      rw [hnone]
      refine h.goto rfl rfl rfl h.modified (by simp) ?_ rfl (fun _ => by rw [hpc]; rfl)
      intro w hw
      cases caller with
      | commit w' => exact absurd rfl (hcaller w')
      | _ => cases hw
  | retry caller hpc _ =>
      rw [hnone]
      refine h.goto rfl rfl rfl h.modified (by simp) ?_ rfl (fun _ => ?_)
      · intro w hw
        apply h.written w
        rw [hpc]
        cases caller <;> exact hw
      · rw [hpc]
        cases caller <;> rfl
  | enter_entry caller needs_abort cl hpc he =>
      rw [hnone]
      exact h.enter_entry hpc he
  | update caller needs_abort obj written cl realobj hpc _ _ =>
      rw [hnone]
      exact h.update hpc realobj
  | check caller needs_abort obj written hpc =>
      rw [hnone]
      exact h.check_was_read hpc
  | entry_done caller needs_abort hpc =>
      rw [hnone]
      exact h.entry_done hpc
  | returns caller hpc _ =>
      rw [hnone]
      refine h.goto rfl rfl rfl h.modified ?_ ?_ ?_ (fun _ => by rw [hpc]; rfl)
      · cases caller <;> simp [Caller.return_pc]
      · intro w hw
        apply h.written w
        rw [hpc]
        cases caller <;> exact hw
      · cases caller <;> rfl
  | gives_up _ =>
      rw [hnone]
      exact h.ended rfl rfl rfl (fun _ => id) (by simp) rfl rfl rfl
  | clear_modified _ =>
      rw [hnone]
      exact h.ended rfl rfl rfl (fun _ ho => absurd ho (AList.notMem_empty _))
        (by simp [clear_modified]) rfl rfl rfl
  | finish_transaction _ =>
      rw [hnone]
      exact h.ended rfl rfl rfl (fun _ => id) (by simp [finish_transaction]) rfl rfl rfl
  | abort_transaction _ =>
      rw [hnone]
      exact h.ended rfl rfl rfl (fun _ ho => absurd ho (AList.notMem_empty _))
        (by simp [abort_transaction, finish_transaction]) rfl rfl rfl

end Run

end Stmgc.C8
