/-
What one step of the machine of `CommitLog` can do.

[`Moves`] lists what a thread does to its own segment, with what holds before
it, and [`Stepped`] the other things that a step can be: the start of a
transaction, one of the two compare-and-swaps, and a new old object. Invariants
are proved by cases on these ([`step_cases`]).
-/
import Stmgc.C8.Coherence
import Stmgc.C8.Inevitable

namespace Stmgc.C8

open Stmgc.Lib

section

variable {Seg Obj Data : Type} [DecidableEq Seg] [DecidableEq Obj]

/-- The segment after a step of its thread, which reads or writes the first
argument. -/
inductive Moves (st : St Seg Obj Data) (s : Seg) : Option Obj → Segment Obj Data → Prop where
  | read (obj : Obj) : (st.segs s).pc = .running → Moves st s (some obj) (stm_read (st.segs s) obj)
  | write (obj : Obj) : (st.segs s).pc = .running → st.allocated obj = true →
      ((st.segs s).page obj).write_barrier = true →
      Moves st s (some obj) (stm_write_slowpath (st.segs s) obj)
  | register_backup (obj : Obj) (bk : object_s Data) : (st.segs s).pc = .write_slowpath obj bk →
      Moves st s none (register_backup (st.segs s) obj bk)
  | store (obj : Obj) (data : Data) : (st.segs s).pc = .running →
      ((st.segs s).page obj).write_barrier = false →
      Moves st s none (store (st.segs s) obj data)
  | minor_collection (trace : Data → Data) : (st.segs s).pc = .running →
      Moves st s none (minor_collection trace (st.segs s))
  | commit_transaction (trace : Data → Data) : (st.segs s).pc = .running →
      Moves st s none (commit_transaction trace (st.segs s))
  | call_validate (caller : Caller Obj) : (st.segs s).pc = .running →
      (∀ written, caller ≠ .commit written) →
      Moves st s none { st.segs s with pc := .validate caller false }
  | retry (caller : Caller Obj) : (st.segs s).pc = caller.return_pc →
      (st.segs s).pc ≠ .running →
      Moves st s none { st.segs s with pc := .validate caller false }
  | enter_entry (caller : Caller Obj) (needs_abort : Bool)
      (cl : stm_commit_log_entry_s Seg Obj Data) :
      (st.segs s).pc = .validate caller needs_abort →
      st.log[(st.segs s).last_commit_log_entry]? = some cl →
      Moves st s none { st.segs s with pc := .update caller needs_abort cl.written }
  | update (caller : Caller Obj) (needs_abort : Bool) (obj : Obj) (written : List Obj)
      (cl : stm_commit_log_entry_s Seg Obj Data) (realobj : object_s Data) :
      (st.segs s).pc = .update caller needs_abort (obj :: written) →
      st.log[(st.segs s).last_commit_log_entry]? = some cl →
      update_obj_from (st.segs cl.segment_num) obj = some realobj →
      Moves st s none { st.segs s with
        page := Function.update (st.segs s).page obj realobj
        pc := .was_read caller needs_abort obj written }
  | check (caller : Caller Obj) (needs_abort : Bool) (obj : Obj) (written : List Obj) :
      (st.segs s).pc = .was_read caller needs_abort obj written →
      Moves st s none (check_was_read (st.segs s) caller needs_abort obj written)
  | entry_done (caller : Caller Obj) (needs_abort : Bool) :
      (st.segs s).pc = .update caller needs_abort [] →
      Moves st s none { st.segs s with
        last_commit_log_entry := (st.segs s).last_commit_log_entry + 1
        pc := .validate caller needs_abort }
  | returns (caller : Caller Obj) : (st.segs s).pc = .validate caller false →
      st.log.length ≤ (st.segs s).last_commit_log_entry →
      Moves st s none { st.segs s with pc := caller.return_pc }
  | gives_up : (st.segs s).pc = .running ∨ (∃ caller needs_abort,
        (st.segs s).pc = .validate caller needs_abort
          ∧ st.log.length ≤ (st.segs s).last_commit_log_entry) →
      Moves st s none { st.segs s with pc := .abort }
  | clear_modified : (st.segs s).pc = .attached → Moves st s none (clear_modified (st.segs s))
  | finish_transaction : (st.segs s).pc = .finish →
      Moves st s none (finish_transaction (st.segs s))
  | abort_transaction : (st.segs s).pc = .abort →
      Moves st s none (abort_transaction (st.segs s))

/-- The object that a step reads or writes, and its segment. -/
def accesses (st : St Seg Obj Data) : Act Seg Obj Data → Option (Seg × Obj)
  | .read s obj => some (s, obj)
  | .write s obj => if ((st.segs s).page obj).write_barrier then some (s, obj) else none
  | _ => none

/-- Neither the start of a transaction nor a new object. -/
def Act.ordinary : Act Seg Obj Data → Bool
  | .start_transaction _ | .allocate_old .. => false
  | _ => true

/-- What a step can be. -/
inductive Stepped (st : St Seg Obj Data) (a : Act Seg Obj Data) : St Seg Obj Data → Prop where
  | stays : accesses st a = none → a.ordinary = true → Stepped st a st
  | starts (s : Seg) : a = .start_transaction s → (st.segs s).pc = .no_transaction →
      (st.segs s).modified_old_objects.keys = [] →
      (st.segs s).objects_pointing_to_nursery = [] →
      Stepped st a (st.set s (start_transaction (st.segs s)))
  | moves (s : Seg) (obj : Option Obj) (seg : Segment Obj Data) : Moves st s obj seg →
      accesses st a = obj.map (fun o => (s, o)) → a.ordinary = true →
      Stepped st a (st.set s seg)
  | attaches (s : Seg) (written : List Obj) : a = .continue s →
      (st.segs s).pc = .attach_commit written →
      st.log.length ≤ (st.segs s).last_commit_log_entry →
      Stepped st a (attach_entry st s written)
  | turns_inevitable (s : Seg) : a = .continue s → (st.segs s).pc = .attach_inevitable →
      st.log.length ≤ (st.segs s).last_commit_log_entry →
      Stepped st a (({ st with tail_inevitable := true }).set s { st.segs s with
        transaction_state := .TS_INEVITABLE
        pc := .running })
  | allocates (obj : Obj) (data : Data) : a = .allocate_old obj data → st.allocated obj ≠ true →
      Stepped st a { st with
        allocated := Function.update st.allocated obj true
        segs := fun s => { st.segs s with
          page :=
            Function.update (st.segs s).page obj { write_barrier := true, data := data } } }

variable {st st' : St Seg Obj Data} {s : Seg} {a : Act Seg Obj Data}

theorem continue_step_cases (hs : continue_step st s = .next st') :
    Stepped st (.continue s) st' := by
  have hmoves : ∀ {seg : Segment Obj Data}, Moves st s none seg →
      Stepped st (.continue s) (st.set s seg) := fun h => .moves s none _ h rfl rfl
  unfold continue_step at hs
  cases hpc : (st.segs s).pc with
  | no_transaction => simp [hpc] at hs
  | running => simp [hpc] at hs
  | write_slowpath obj bk =>
      simp only [hpc, Outcome.next.injEq] at hs
      exact hs ▸ hmoves (.register_backup obj bk hpc)
  | validate caller needs_abort =>
      simp only [hpc] at hs
      cases hn : next st (st.segs s).last_commit_log_entry with
      | entry cl =>
          simp only [hn, Outcome.next.injEq] at hs
          exact hs ▸ hmoves (.enter_entry caller needs_abort cl hpc (next_eq_entry hn))
      | inevitable =>
          simp only [hn, Outcome.next.injEq] at hs
          exact hs ▸ .stays rfl rfl
      | null =>
          have hlast : st.log.length ≤ (st.segs s).last_commit_log_entry :=
            length_le_of_next (by rw [hn]; simp)
          simp only [hn] at hs
          cases needs_abort with
          | true =>
              simp only [if_true, Outcome.next.injEq] at hs
              exact hs ▸ hmoves (.gives_up (.inr ⟨caller, true, hpc, hlast⟩))
          | false =>
              simp only [Bool.false_eq_true, if_false, Outcome.next.injEq] at hs
              exact hs ▸ hmoves (.returns caller hpc hlast)
  | update caller needs_abort written =>
      cases written with
      | nil =>
          simp only [hpc, Outcome.next.injEq] at hs
          exact hs ▸ hmoves (.entry_done caller needs_abort hpc)
      | cons obj written =>
          simp only [hpc] at hs
          cases hn : next st (st.segs s).last_commit_log_entry with
          | entry cl =>
              simp only [hn] at hs
              cases hcopy : update_obj_from (st.segs cl.segment_num) obj with
              | none => simp [hcopy] at hs
              | some realobj =>
                  simp only [hcopy, Outcome.next.injEq] at hs
                  exact hs ▸ hmoves (.update caller needs_abort obj written cl realobj hpc
                    (next_eq_entry hn) hcopy)
          | inevitable => simp [hn] at hs
          | null => simp [hn] at hs
  | was_read caller needs_abort obj written =>
      simp only [hpc, Outcome.next.injEq] at hs
      exact hs ▸ hmoves (.check caller needs_abort obj written hpc)
  | attach_commit written =>
      have hretry : Moves st s none
          { st.segs s with pc := .validate (.commit written) false } :=
        .retry (.commit written) hpc (by rw [hpc]; simp)
      simp only [hpc] at hs
      split at hs
      · cases hn : next st (st.segs s).last_commit_log_entry with
        | inevitable =>
            simp only [hn, Outcome.next.injEq] at hs
            exact hs ▸ .attaches s written rfl hpc (length_le_of_next (by rw [hn]; simp))
        | entry cl => simp [hn] at hs
        | null => simp [hn] at hs
      · cases hn : next st (st.segs s).last_commit_log_entry with
        | null =>
            simp only [hn, Outcome.next.injEq] at hs
            exact hs ▸ .attaches s written rfl hpc (length_le_of_next (by rw [hn]; simp))
        | entry cl =>
            simp only [hn, Outcome.next.injEq] at hs
            exact hs ▸ hmoves hretry
        | inevitable =>
            simp only [hn, Outcome.next.injEq] at hs
            exact hs ▸ hmoves hretry
  | attach_inevitable =>
      have hretry : Moves st s none { st.segs s with pc := .validate .inevitable false } :=
        .retry .inevitable hpc (by rw [hpc]; simp)
      simp only [hpc] at hs
      cases hn : next st (st.segs s).last_commit_log_entry with
      | null =>
          simp only [hn, Outcome.next.injEq] at hs
          exact hs ▸ .turns_inevitable s rfl hpc (length_le_of_next (by rw [hn]; simp))
      | entry cl =>
          simp only [hn, Outcome.next.injEq] at hs
          exact hs ▸ hmoves hretry
      | inevitable =>
          simp only [hn, Outcome.next.injEq] at hs
          exact hs ▸ hmoves hretry
  | attached =>
      simp only [hpc, Outcome.next.injEq] at hs
      exact hs ▸ hmoves (.clear_modified hpc)
  | finish =>
      simp only [hpc, Outcome.next.injEq] at hs
      exact hs ▸ hmoves (.finish_transaction hpc)
  | abort =>
      simp only [hpc] at hs
      split at hs
      · rw [Outcome.next.injEq] at hs
        exact hs ▸ hmoves (.abort_transaction hpc)
      · cases hs

/-- Every step is one of these. -/
theorem step_cases (hs : step st a = .next st') : Stepped st a st' := by
  cases a with
  | start_transaction s =>
      cases hpc : (st.segs s).pc <;> simp only [step, hpc] at hs <;> try cases hs
      split at hs
      · rename_i hclear
        rw [Outcome.next.injEq] at hs
        exact hs ▸ .starts s rfl hpc hclear.1 hclear.2
      · cases hs
  | read s obj =>
      cases hpc : (st.segs s).pc <;> simp only [step, hpc] at hs <;> try cases hs
      exact .moves s (some obj) _ (.read obj hpc) rfl rfl
  | write s obj =>
      cases hpc : (st.segs s).pc <;> simp only [step, hpc] at hs <;> try cases hs
      by_cases hobj : st.allocated obj = true
      · rw [if_pos hobj] at hs
        by_cases hwb : ((st.segs s).page obj).write_barrier = true
        · rw [if_pos hwb, Outcome.next.injEq] at hs
          exact hs ▸ .moves s (some obj) _ (.write obj hpc hobj hwb) (if_pos hwb) rfl
        · rw [if_neg hwb, Outcome.next.injEq] at hs
          exact hs ▸ .stays (if_neg hwb) rfl
      · rw [if_neg hobj] at hs
        cases hs
  | store s obj data =>
      cases hpc : (st.segs s).pc <;> simp only [step, hpc] at hs <;> try cases hs
      by_cases hwb : ((st.segs s).page obj).write_barrier = true
      · rw [if_pos hwb] at hs
        cases hs
      · rw [if_neg hwb, Outcome.next.injEq] at hs
        rw [Bool.not_eq_true] at hwb
        exact hs ▸ .moves s none _ (.store obj data hpc hwb) rfl rfl
  | allocate_old obj data =>
      by_cases hobj : st.allocated obj = true
      · simp only [step, if_pos hobj] at hs
        cases hs
      · simp only [step, if_neg hobj, Outcome.next.injEq] at hs
        exact hs ▸ .allocates obj data rfl hobj
  | minor_collection s trace =>
      cases hpc : (st.segs s).pc <;> simp only [step, hpc] at hs <;> try cases hs
      exact .moves s none _ (.minor_collection trace hpc) rfl rfl
  | validate s =>
      cases hpc : (st.segs s).pc <;> simp only [step, hpc] at hs <;> try cases hs
      split at hs
      · split at hs
        · cases hs
          exact .stays rfl rfl
        · cases hs
      · rw [Outcome.next.injEq] at hs
        exact hs ▸ .moves s none _ (.call_validate .running hpc (by simp)) rfl rfl
  | become_inevitable s =>
      cases hpc : (st.segs s).pc <;> simp only [step, hpc] at hs <;> try cases hs
      split at hs
      · rw [Outcome.next.injEq] at hs
        exact hs ▸ .moves s none _ (.call_validate .inevitable hpc (by simp)) rfl rfl
      · cases hs
        exact .stays rfl rfl
  | commit_transaction s trace =>
      cases hpc : (st.segs s).pc <;> simp only [step, hpc] at hs <;> try cases hs
      exact .moves s none _ (.commit_transaction trace hpc) rfl rfl
  | abort_transaction s =>
      cases hpc : (st.segs s).pc with
      | running =>
          simp only [step, hpc, Outcome.next.injEq] at hs
          exact hs ▸ .moves s none _ (.gives_up (.inl hpc)) rfl rfl
      | validate caller needs_abort =>
          cases hn : next st (st.segs s).last_commit_log_entry with
          | inevitable =>
              simp only [step, hpc, hn, Outcome.next.injEq] at hs
              have hlast : st.log.length ≤ (st.segs s).last_commit_log_entry :=
                length_le_of_next (by rw [hn]; simp)
              exact hs ▸ .moves s none _ (.gives_up (.inr ⟨_, _, hpc, hlast⟩)) rfl rfl
          | null => simp [step, hpc, hn] at hs
          | entry cl => simp [step, hpc, hn] at hs
      | _ => simp [step, hpc] at hs
  | «continue» s => exact continue_step_cases hs

end

end Stmgc.C8
