/-
The mark of an inevitable transaction in the commit log.

[`TailInv`] holds in every run: the mark is at the end of the log exactly while
one transaction holds it, and that transaction has applied the whole log. It
says where a thread can stand in a transaction of either kind, and that it has
not run past the end of the log.
-/
import Stmgc.C8.CommitLog

namespace Stmgc.C8

open Stmgc.Lib

section Local

variable {Obj Data : Type}

/-- Inside `stm_validate`, or before the compare-and-swap that turns the
transaction inevitable. -/
def Pc.validating : Pc Obj Data → Bool
  | .validate .. | .update .. | .was_read .. | .attach_inevitable => true
  | _ => false

/-- Inside the inner loop of `stm_validate`. -/
def Pc.applying : Pc Obj Data → Bool
  | .update .. | .was_read .. => true
  | _ => false

/-- After the compare-and-swap of a commit. -/
def Pc.committed : Pc Obj Data → Bool
  | .attached | .finish => true
  | _ => false

/-- Between the two compare-and-swaps of an inevitable transaction. -/
def Segment.holds_tail (seg : Segment Obj Data) : Bool :=
  decide (seg.transaction_state = .TS_INEVITABLE) && !seg.pc.committed

/-- Where a thread stands in a transaction of each kind, when the log has `len`
entries and ends with the mark or not. -/
structure TailSeg (len : ℕ) (tail_inevitable : Bool) (seg : Segment Obj Data) : Prop where
  none : seg.transaction_state = .TS_NONE ↔ seg.pc = .no_transaction
  regular : seg.pc.validating = true → seg.transaction_state = .TS_REGULAR
  last_le : seg.last_commit_log_entry ≤ len
  applying : seg.pc.applying = true → seg.last_commit_log_entry < len
  holds : seg.holds_tail = true → tail_inevitable = true ∧ seg.last_commit_log_entry = len

variable {len : ℕ} {tail : Bool} {seg seg' : Segment Obj Data}

theorem holds_tail_iff : seg.holds_tail = true ↔
    seg.transaction_state = .TS_INEVITABLE ∧ seg.pc.committed = false := by
  unfold Segment.holds_tail
  rw [Bool.and_eq_true, decide_eq_true_eq, Bool.not_eq_true']

/-- A step that goes on to a place of the same kind. -/
theorem TailSeg.goto (h : TailSeg len tail seg)
    (hstate : seg'.transaction_state = seg.transaction_state)
    (hlast : seg'.last_commit_log_entry = seg.last_commit_log_entry)
    (hnone : seg.pc ≠ .no_transaction) (hnone' : seg'.pc ≠ .no_transaction)
    (hvalidating : seg'.pc.validating = true → seg.transaction_state = .TS_REGULAR)
    (happlying : seg'.pc.applying = true → seg.last_commit_log_entry < len)
    (hcommitted : seg'.pc.committed = seg.pc.committed) : TailSeg len tail seg' := by
  refine ⟨?_, ?_, ?_, ?_, ?_⟩
  · rw [hstate, h.none]
    exact iff_of_false hnone hnone'
  · rw [hstate]
    exact hvalidating
  · rw [hlast]
    exact h.last_le
  · rw [hlast]
    exact happlying
  · rw [holds_tail_iff, hstate, hcommitted, hlast, ← holds_tail_iff]
    exact h.holds

/-- A regular transaction, anywhere before the compare-and-swap of its commit. -/
theorem TailSeg.of_regular (hstate : seg.transaction_state = .TS_REGULAR)
    (hnone : seg.pc ≠ .no_transaction) (hlast : seg.last_commit_log_entry ≤ len)
    (happlying : seg.pc.applying = true → seg.last_commit_log_entry < len) :
    TailSeg len tail seg := by
  refine ⟨?_, fun _ => hstate, hlast, happlying, fun hholds => ?_⟩
  · rw [hstate]
    exact iff_of_false nofun hnone
  · rw [holds_tail_iff, hstate] at hholds
    cases hholds.1

theorem TailSeg.of_none (hstate : seg.transaction_state = .TS_NONE)
    (hnone : seg.pc = .no_transaction) (hlast : seg.last_commit_log_entry ≤ len) :
    TailSeg len tail seg := by
  refine ⟨iff_of_true hstate hnone, ?_, hlast, ?_, fun hholds => ?_⟩
  · rw [hnone]
    nofun
  · rw [hnone]
    nofun
  · rw [holds_tail_iff, hstate] at hholds
    cases hholds.1

/-- Past the compare-and-swap of the commit. -/
theorem TailSeg.of_committed (hstate : seg.transaction_state ≠ .TS_NONE)
    (hcommitted : seg.pc.committed = true) (hlast : seg.last_commit_log_entry ≤ len) :
    TailSeg len tail seg := by
  refine ⟨iff_of_false hstate ?_, ?_, hlast, ?_, fun hholds => ?_⟩
  · intro hpc
    rw [hpc] at hcommitted
    cases hcommitted
  · cases hpc : seg.pc with
    | attached => nofun
    | finish => nofun
    | _ =>
        rw [hpc] at hcommitted
        cases hcommitted
  · cases hpc : seg.pc with
    | attached => nofun
    | finish => nofun
    | _ =>
        rw [hpc] at hcommitted
        cases hcommitted
  · rw [holds_tail_iff, hcommitted] at hholds
    cases hholds.2

/-- The log grows, and this segment does not hold its end. -/
theorem TailSeg.longer {len' : ℕ} {tail' : Bool} (h : TailSeg len tail seg) (hlen : len ≤ len')
    (hholds : seg.holds_tail = false) : TailSeg len' tail' seg := by
  refine ⟨h.none, h.regular, le_trans h.last_le hlen,
    fun ha => lt_of_lt_of_le (h.applying ha) hlen, ?_⟩
  rw [hholds]
  nofun

end Local

/-! ## All segments -/

section

variable {Seg Obj Data : Type} [DecidableEq Seg]

structure TailInv (st : St Seg Obj Data) : Prop where
  segs : ∀ s, TailSeg st.log.length st.tail_inevitable (st.segs s)
  held : st.tail_inevitable = true → ∃ s, (st.segs s).holds_tail = true
  one : ∀ s t, (st.segs s).holds_tail = true → (st.segs t).holds_tail = true → s = t

variable {st : St Seg Obj Data} {s : Seg} {seg : Segment Obj Data}

omit [DecidableEq Seg] in
theorem TailInv.init (h : Initial st) : TailInv st := by
  obtain ⟨hlog, htail, data, hsegs⟩ := h
  refine ⟨fun s => .of_none ?_ ?_ ?_, ?_, fun s t hs => ?_⟩
  · rw [hsegs]
  · rw [hsegs]
  · rw [hsegs]
    exact Nat.zero_le _
  · rw [htail]
    nofun
  · rw [holds_tail_iff, hsegs] at hs
    cases hs.1

/-- A step of one segment that leaves the end of the log alone. -/
theorem TailInv.set (h : TailInv st)
    (hseg : TailSeg st.log.length st.tail_inevitable seg)
    (hholds : seg.holds_tail = (st.segs s).holds_tail) : TailInv (st.set s seg) := by
  have hsame : ∀ t, ((st.set s seg).segs t).holds_tail = (st.segs t).holds_tail := by
    intro t
    unfold St.set
    dsimp only
    rw [Function.update_apply]
    split
    · rename_i hts
      rw [hts]
      exact hholds
    · rfl
  refine ⟨fun t => ?_, fun htail => ?_, fun t u ht hu => ?_⟩
  · unfold St.set
    dsimp only
    rw [Function.update_apply]
    split
    · exact hseg
    · exact h.segs t
  · obtain ⟨t, ht⟩ := h.held htail
    exact ⟨t, (hsame t).trans ht⟩
  · rw [hsame] at ht hu
    exact h.one t u ht hu

/-- The entry of a commit is attached: where the log ends with `NULL`, or with
the mark of this transaction. -/
theorem TailInv.attach {written : List Obj} (h : TailInv st)
    (hpc : (st.segs s).pc = .attach_commit written)
    (hheld : st.tail_inevitable = true → (st.segs s).holds_tail = true) :
    TailInv (attach_entry st s written) := by
  have hothers : ∀ t, t ≠ s → (st.segs t).holds_tail = false := by
    intro t hts
    by_contra ht
    rw [Bool.not_eq_false] at ht
    exact hts (h.one t s ht (hheld ((h.segs t).holds ht).1))
  have hnew : (attach_entry st s written).segs s = { st.segs s with pc := .attached } :=
    Function.update_self _ _ _
  have hself : ((attach_entry st s written).segs s).holds_tail = false := by
    rw [hnew]
    exact Bool.and_false _
  have hother : ∀ t, t ≠ s → (attach_entry st s written).segs t = st.segs t := fun t hts =>
    Function.update_of_ne hts _ _
  have hlen : st.log.length ≤ (attach_entry st s written).log.length := by
    unfold attach_entry
    dsimp only
    rw [List.length_append]
    omega
  refine ⟨fun t => ?_, ?_, fun t u ht => ?_⟩
  · by_cases hts : t = s
    · subst hts
      rw [hnew]
      refine .of_committed ?_ rfl (le_trans (h.segs t).last_le hlen)
      rw [Ne, (h.segs t).none, hpc]
      nofun
    · rw [hother t hts]
      exact (h.segs t).longer hlen (hothers t hts)
  · nofun
  · -- nobody holds the end of the log
    by_cases hts : t = s
    · subst hts
      rw [hself] at ht
      cases ht
    · rw [hother t hts, hothers t hts] at ht
      cases ht

/-- The compare-and-swap that turns a transaction inevitable. -/
theorem TailInv.turn_inevitable (h : TailInv st) (htail : st.tail_inevitable = false)
    (hlast : (st.segs s).last_commit_log_entry = st.log.length) :
    TailInv (({ st with tail_inevitable := true }).set s { st.segs s with
      transaction_state := .TS_INEVITABLE
      pc := .running }) := by
  have hnobody : ∀ t, (st.segs t).holds_tail = false := by
    intro t
    by_contra ht
    rw [Bool.not_eq_false] at ht
    rw [((h.segs t).holds ht).1] at htail
    cases htail
  set new : Segment Obj Data := { st.segs s with
    transaction_state := .TS_INEVITABLE
    pc := .running } with hnew
  have hsegs : ∀ t, (({ st with tail_inevitable := true }).set s new).segs t
      = if t = s then new else st.segs t := by
    intro t
    unfold St.set
    dsimp only
    rw [Function.update_apply]
  refine ⟨fun t => ?_, fun _ => ⟨s, ?_⟩, fun t u ht hu => ?_⟩
  · rw [hsegs]
    split
    · refine ⟨iff_of_false nofun nofun, nofun, (h.segs s).last_le, nofun, fun _ => ⟨rfl, hlast⟩⟩
    · exact (h.segs t).longer le_rfl (hnobody t)
  · rw [hsegs, if_pos rfl]
    rfl
  · rw [hsegs] at ht hu
    split at ht
    · split at hu
      · rename_i hts hus
        exact hts.trans hus.symm
      · rw [hnobody u] at hu
        cases hu
    · rw [hnobody t] at ht
      cases ht

/-- A regular transaction goes on. -/
theorem TailInv.set_regular (h : TailInv st) (hstate : (st.segs s).transaction_state = .TS_REGULAR)
    (hsame : seg.transaction_state = .TS_REGULAR) (hnone : seg.pc ≠ .no_transaction)
    (hlast : seg.last_commit_log_entry ≤ st.log.length)
    (happlying : seg.pc.applying = true → seg.last_commit_log_entry < st.log.length) :
    TailInv (st.set s seg) := by
  refine h.set (.of_regular hsame hnone hlast happlying) ?_
  unfold Segment.holds_tail
  rw [hstate, hsame]
  rfl

/-- A step of a running transaction that goes on running, or is in a function
of its own segment. -/
theorem TailInv.set_running (h : TailInv st) (hpc : (st.segs s).pc = .running)
    (hstate : seg.transaction_state = (st.segs s).transaction_state)
    (hlast : seg.last_commit_log_entry = (st.segs s).last_commit_log_entry)
    (hnone : seg.pc ≠ .no_transaction)
    (hvalidating : seg.pc.validating = true → (st.segs s).transaction_state = .TS_REGULAR)
    (happlying : seg.pc.applying = false) (hcommitted : seg.pc.committed = false) :
    TailInv (st.set s seg) := by
  refine h.set ((h.segs s).goto hstate hlast (by rw [hpc]; nofun) hnone hvalidating ?_ ?_) ?_
  · rw [happlying]
    nofun
  · rw [hcommitted, hpc]
    rfl
  · unfold Segment.holds_tail
    rw [hstate, hcommitted, hpc]
    rfl

omit [DecidableEq Seg] in
theorem length_le_of_next {k : ℕ} (h : ∀ e, next st k ≠ .entry e) : st.log.length ≤ k := by
  unfold next at h
  cases he : st.log[k]? with
  | none => exact List.getElem?_eq_none_iff.mp he
  | some e =>
      rw [he] at h
      exact absurd rfl (h e)

omit [DecidableEq Seg] in
theorem tail_of_next_null {k : ℕ} (h : next st k = .null) : st.tail_inevitable = false := by
  unfold next at h
  split at h
  · cases h
  · split at h
    · cases h
    · rename_i htail
      exact Bool.not_eq_true _ ▸ htail

omit [DecidableEq Seg] in
theorem lt_of_next_entry {k : ℕ} {e : stm_commit_log_entry_s Seg Obj Data}
    (h : next st k = .entry e) : k < st.log.length := by
  unfold next at h
  split at h
  · rename_i he
    exact (List.getElem?_eq_some_iff.mp he).1
  · split at h
    · cases h
    · cases h

end

/-! ## Steps -/

section

variable {Seg Obj Data : Type} [DecidableEq Seg] [DecidableEq Obj] {st st' : St Seg Obj Data}
  {s : Seg} {a : Act Seg Obj Data}

theorem TailInv.continue_step (h : TailInv st) (hs : continue_step st s = .next st') :
    TailInv st' := by
  have hseg := h.segs s
  unfold C8.continue_step at hs
  cases hpc : (st.segs s).pc with
  | no_transaction => simp [hpc] at hs
  | running => simp [hpc] at hs
  | write_slowpath obj bk =>
      simp only [hpc, Outcome.next.injEq] at hs
      rw [← hs]
      have hgo : TailSeg st.log.length st.tail_inevitable (register_backup (st.segs s) obj bk) :=
        hseg.goto rfl rfl (by rw [hpc]; nofun) nofun nofun nofun (by rw [hpc]; rfl)
      refine h.set hgo ?_
      unfold Segment.holds_tail
      rw [hpc]
      rfl
  | validate caller needs_abort =>
      have hreg : (st.segs s).transaction_state = .TS_REGULAR := hseg.regular (by rw [hpc]; rfl)
      simp only [hpc] at hs
      cases hn : next st (st.segs s).last_commit_log_entry with
      | entry cl =>
          simp only [hn, Outcome.next.injEq] at hs
          rw [← hs]
          exact h.set_regular hreg hreg nofun hseg.last_le fun _ => lt_of_next_entry hn
      | inevitable =>
          simp only [hn, Outcome.next.injEq] at hs
          rw [← hs]
          exact h
      | null =>
          simp only [hn] at hs
          split at hs
          · rw [Outcome.next.injEq] at hs
            rw [← hs]
            exact h.set_regular hreg hreg nofun hseg.last_le nofun
          · rw [Outcome.next.injEq] at hs
            rw [← hs]
            refine h.set_regular hreg hreg ?_ hseg.last_le ?_
            · cases caller <;> nofun
            · cases caller <;> nofun
  | update caller needs_abort written =>
      have hreg : (st.segs s).transaction_state = .TS_REGULAR := hseg.regular (by rw [hpc]; rfl)
      have hlt : (st.segs s).last_commit_log_entry < st.log.length :=
        hseg.applying (by rw [hpc]; rfl)
      cases written with
      | nil =>
          simp only [hpc, Outcome.next.injEq] at hs
          rw [← hs]
          exact h.set_regular hreg hreg nofun hlt nofun
      | cons obj written =>
          simp only [hpc] at hs
          split at hs
          · split at hs
            · rw [Outcome.next.injEq] at hs
              rw [← hs]
              exact h.set_regular hreg hreg nofun hseg.last_le fun _ => hlt
            · cases hs
          · cases hs
  | was_read caller needs_abort obj written =>
      have hreg : (st.segs s).transaction_state = .TS_REGULAR := hseg.regular (by rw [hpc]; rfl)
      have hlt : (st.segs s).last_commit_log_entry < st.log.length :=
        hseg.applying (by rw [hpc]; rfl)
      simp only [hpc, Outcome.next.injEq] at hs
      rw [← hs]
      unfold check_was_read
      split
      · exact h.set_regular hreg hreg nofun hseg.last_le fun _ => hlt
      · exact h.set_regular hreg hreg nofun hseg.last_le fun _ => hlt
  | attach_commit written =>
      simp only [hpc] at hs
      have hheld : (st.segs s).transaction_state = .TS_INEVITABLE →
          (st.segs s).holds_tail = true := by
        intro hstate
        rw [holds_tail_iff, hpc]
        exact ⟨hstate, rfl⟩
      by_cases hts : (st.segs s).transaction_state = .TS_INEVITABLE
      · simp only [if_pos hts] at hs
        split at hs
        · rw [Outcome.next.injEq] at hs
          rw [← hs]
          exact h.attach hpc fun _ => hheld hts
        · cases hs
      · simp only [if_neg hts] at hs
        have hreg : (st.segs s).transaction_state = .TS_REGULAR := by
          have hnone := hseg.none
          rw [hpc] at hnone
          cases hstate : (st.segs s).transaction_state with
          | TS_NONE => exact nomatch hnone.mp hstate
          | TS_REGULAR => rfl
          | TS_INEVITABLE => exact absurd hstate hts
        split at hs
        · rename_i hn
          rw [Outcome.next.injEq] at hs
          rw [← hs]
          refine h.attach hpc fun htail => ?_
          rw [tail_of_next_null hn] at htail
          cases htail
        · rw [Outcome.next.injEq] at hs
          rw [← hs]
          exact h.set_regular hreg hreg nofun hseg.last_le nofun
  | attach_inevitable =>
      have hreg : (st.segs s).transaction_state = .TS_REGULAR := hseg.regular (by rw [hpc]; rfl)
      simp only [hpc] at hs
      split at hs
      · rename_i hn
        rw [Outcome.next.injEq] at hs
        rw [← hs]
        have hlen : st.log.length ≤ (st.segs s).last_commit_log_entry :=
          length_le_of_next (by rw [hn]; nofun)
        exact h.turn_inevitable (tail_of_next_null hn) (le_antisymm hseg.last_le hlen)
      · rw [Outcome.next.injEq] at hs
        rw [← hs]
        exact h.set_regular hreg hreg nofun hseg.last_le nofun
  | attached =>
      simp only [hpc, Outcome.next.injEq] at hs
      rw [← hs]
      have hstate : (st.segs s).transaction_state ≠ .TS_NONE := by
        rw [Ne, hseg.none, hpc]
        nofun
      refine h.set (.of_committed hstate rfl hseg.last_le) ?_
      unfold Segment.holds_tail
      rw [hpc]
      rfl
  | finish =>
      simp only [hpc, Outcome.next.injEq] at hs
      rw [← hs]
      refine h.set (.of_none rfl rfl hseg.last_le) ?_
      unfold Segment.holds_tail
      rw [hpc]
      exact (Bool.and_false _).symm
  | abort =>
      simp only [hpc] at hs
      split at hs
      · rename_i hreg
        rw [Outcome.next.injEq] at hs
        rw [← hs]
        refine h.set (.of_none rfl rfl hseg.last_le) ?_
        unfold Segment.holds_tail
        rw [hreg]
        rfl
      · cases hs

theorem TailInv.step (h : TailInv st) (hs : step st a = .next st') : TailInv st' := by
  cases a with
  | start_transaction s =>
      cases hpc : (st.segs s).pc <;> simp only [C8.step, hpc] at hs <;> try cases hs
      split at hs
      · rw [Outcome.next.injEq] at hs
        rw [← hs]
        have hnone : (st.segs s).transaction_state = .TS_NONE := (h.segs s).none.mpr hpc
        have hgo : TailSeg st.log.length st.tail_inevitable (start_transaction (st.segs s)) :=
          .of_regular rfl nofun (h.segs s).last_le nofun
        refine h.set hgo ?_
        unfold Segment.holds_tail
        rw [hnone]
        rfl
      · cases hs
  | read s obj =>
      cases hpc : (st.segs s).pc <;> simp only [C8.step, hpc] at hs <;> try cases hs
      refine h.set_running hpc rfl rfl ?_ ?_ ?_ ?_ <;> rw [stm_read, hpc]
      · nofun
      · nofun
      · rfl
      · rfl
  | write s obj =>
      cases hpc : (st.segs s).pc <;> simp only [C8.step, hpc] at hs <;> try cases hs
      split at hs
      · split at hs
        · rw [Outcome.next.injEq] at hs
          rw [← hs]
          exact h.set_running hpc rfl rfl nofun nofun rfl rfl
        · cases hs
          exact h
      · cases hs
  | store s obj data =>
      cases hpc : (st.segs s).pc <;> simp only [C8.step, hpc] at hs <;> try cases hs
      split at hs
      · cases hs
      · rw [Outcome.next.injEq] at hs
        rw [← hs]
        refine h.set_running hpc rfl rfl ?_ ?_ ?_ ?_ <;> rw [C8.store, hpc]
        · nofun
        · nofun
        · rfl
        · rfl
  | allocate_old obj data =>
      simp only [C8.step] at hs
      split at hs
      · cases hs
      · cases hs
        exact ⟨fun s => ⟨(h.segs s).none, (h.segs s).regular, (h.segs s).last_le,
          (h.segs s).applying, (h.segs s).holds⟩, h.held, h.one⟩
  | minor_collection s trace =>
      cases hpc : (st.segs s).pc <;> simp only [C8.step, hpc] at hs <;> try cases hs
      refine h.set_running hpc rfl rfl ?_ ?_ ?_ ?_ <;> rw [C8.minor_collection, hpc]
      · nofun
      · nofun
      · rfl
      · rfl
  | validate s =>
      cases hpc : (st.segs s).pc <;> simp only [C8.step, hpc] at hs <;> try cases hs
      split at hs
      · split at hs
        · cases hs
          exact h
        · cases hs
      · rename_i hts
        rw [Outcome.next.injEq] at hs
        rw [← hs]
        have hnone := (h.segs s).none
        rw [hpc] at hnone
        refine h.set_running hpc rfl rfl nofun (fun _ => ?_) rfl rfl
        cases hstate : (st.segs s).transaction_state with
        | TS_NONE => exact nomatch hnone.mp hstate
        | TS_REGULAR => rfl
        | TS_INEVITABLE => exact absurd hstate hts
  | become_inevitable s =>
      cases hpc : (st.segs s).pc <;> simp only [C8.step, hpc] at hs <;> try cases hs
      split at hs
      · rename_i hreg
        rw [Outcome.next.injEq] at hs
        rw [← hs]
        exact h.set_running hpc rfl rfl nofun (fun _ => hreg) rfl rfl
      · cases hs
        exact h
  | commit_transaction s trace =>
      cases hpc : (st.segs s).pc <;> simp only [C8.step, hpc] at hs <;> try cases hs
      by_cases hts : (st.segs s).transaction_state = .TS_INEVITABLE
      · refine h.set_running hpc rfl rfl ?_ ?_ ?_ ?_ <;>
          rw [C8.commit_transaction, C8.minor_collection, if_pos hts]
        · nofun
        · nofun
        · rfl
        · rfl
      · have hnone := (h.segs s).none
        rw [hpc] at hnone
        have hreg : (st.segs s).transaction_state = .TS_REGULAR := by
          cases hstate : (st.segs s).transaction_state with
          | TS_NONE => exact nomatch hnone.mp hstate
          | TS_REGULAR => rfl
          | TS_INEVITABLE => exact absurd hstate hts
        refine h.set_running hpc rfl rfl ?_ (fun _ => hreg) ?_ ?_ <;>
          rw [C8.commit_transaction, C8.minor_collection, if_neg hts]
        · nofun
        · rfl
        · rfl
  | abort_transaction s =>
      cases hpc : (st.segs s).pc with
      | running =>
          simp only [C8.step, hpc, Outcome.next.injEq] at hs
          rw [← hs]
          exact h.set_running hpc rfl rfl nofun nofun rfl rfl
      | validate caller needs_abort =>
          have hreg : (st.segs s).transaction_state = .TS_REGULAR :=
            (h.segs s).regular (by rw [hpc]; rfl)
          simp only [C8.step, hpc] at hs
          split at hs
          · rw [Outcome.next.injEq] at hs
            rw [← hs]
            exact h.set_regular hreg hreg nofun (h.segs s).last_le nofun
          · cases hs
      | _ => simp [C8.step, hpc] at hs
  | «continue» s => exact h.continue_step hs

theorem tailInv_of_reachable (h : Reachable Initial step st) : TailInv st :=
  h.invariant (fun _ => TailInv.init) (fun _ _ _ hinv _ hs => hinv.step hs)

end

end Stmgc.C8
