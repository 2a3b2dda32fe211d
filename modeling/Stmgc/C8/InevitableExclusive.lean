/-
An inevitable transaction has the end of the commit log to itself.

The mark `-1` is in the `next` field of the last entry of the chain exactly
while one transaction is inevitable and has not yet attached its entry. Until
then no other thread changes a `next` field, and so its compare-and-swap does
not fail ([`inevitable_exclusive`]).
-/
import Stmgc.C8.CommitLogRefine

namespace Stmgc.C8.Chain

open Stmgc.Lib

section

variable {Seg Obj Data : Type} [DecidableEq Seg] [DecidableEq Obj] {m m' : PSt Seg Obj Data}
  {st : St Seg Obj Data} {nodes : List ℕ} {s : Seg}

/-- What a compare-and-swap was about that succeeds in this step. -/
inductive Swap (m : PSt Seg Obj Data) (s : Seg) : Prop where
  | commit (written : List Obj) : (m.segs s).pc = .attach_commit written →
      m.next (m.segs s).last_commit_log_entry = .null → Swap m s
  | commit_inevitable (written : List Obj) : (m.segs s).pc = .attach_commit written →
      (m.segs s).transaction_state = .TS_INEVITABLE → Swap m s
  | turn_inevitable : (m.segs s).pc = .attach_inevitable →
      m.next (m.segs s).last_commit_log_entry = .null → Swap m s

theorem next_of_continue_step (hs : Chain.continue_step m s = .next m') :
    m'.next = m.next ∨ Swap m s := by
  unfold Chain.continue_step at hs
  cases hpc : (m.segs s).pc with
  | attach_commit written =>
      simp only [hpc] at hs
      by_cases hts : (m.segs s).transaction_state = .TS_INEVITABLE
      · exact .inr (.commit_inevitable written hpc hts)
      · simp only [if_neg hts, compare_and_swap] at hs
        by_cases hn : m.next (m.segs s).last_commit_log_entry = .null
        · exact .inr (.commit written hpc hn)
        · simp only [if_neg hn, Outcome.next.injEq] at hs
          rw [← hs]
          exact .inl rfl
  | attach_inevitable =>
      simp only [hpc, compare_and_swap] at hs
      by_cases hn : m.next (m.segs s).last_commit_log_entry = .null
      · exact .inr (.turn_inevitable hpc hn)
      · simp only [if_neg hn, Outcome.next.injEq] at hs
        rw [← hs]
        exact .inl rfl
  | validate caller needs_abort =>
      simp only [hpc] at hs
      split at hs
      · split at hs
        · cases hs
          exact .inl rfl
        · cases hs
      · cases hs
        exact .inl rfl
      · split at hs
        · cases hs
          exact .inl rfl
        · cases hs
          exact .inl rfl
  | update caller needs_abort written =>
      cases written with
      | nil =>
          simp only [hpc, Outcome.next.injEq] at hs
          rw [← hs]
          exact .inl rfl
      | cons obj written =>
          simp only [hpc] at hs
          split at hs
          · split at hs
            · cases hs
              exact .inl rfl
            · cases hs
          · cases hs
  | abort =>
      simp only [hpc] at hs
      split at hs
      · cases hs
        exact .inl rfl
      · cases hs
  | no_transaction => simp [hpc] at hs
  | running => simp [hpc] at hs
  | _ =>
      simp only [hpc, Outcome.next.injEq] at hs
      rw [← hs]
      exact .inl rfl

/-- A step that changes a `next` field is a compare-and-swap of its thread. -/
theorem Refines.next_of_step (h : Refines m st nodes) {a : Act Seg Obj Data} {addr : ℕ}
    (hs : Chain.step m (a, addr) = .next m') :
    m'.next = m.next ∨ ∃ s, a = .continue s ∧ Swap m s := by
  cases a with
  | «continue» s => exact (next_of_continue_step hs).imp_right fun hswap => ⟨s, rfl, hswap⟩
  | commit_transaction s trace =>
      simp only [Chain.step] at hs
      split at hs
      · obtain ⟨⟨hfree, hroot⟩, hs⟩ := guarded_eq_next.mp hs
        rw [Option.isNone_iff_eq_none] at hfree
        rw [Outcome.next.injEq] at hs
        -- the new entry is not in the chain, so its `next` field was `NULL`
        refine .inl (funext fun b => ?_)
        rw [← hs]
        show Function.update m.next addr .null b = m.next b
        rw [Function.update_apply]
        split
        · rename_i hb
          rw [hb, h.others addr (h.notMem hfree hroot)]
        · rfl
      · cases hs
  | allocate_old obj data =>
      simp only [Chain.step] at hs
      split at hs
      · cases hs
      · cases hs
        exact .inl rfl
  | write s obj =>
      simp only [Chain.step] at hs
      split at hs
      · split at hs
        · split at hs
          · cases hs
            exact .inl rfl
          · cases hs
            exact .inl rfl
        · cases hs
      · cases hs
  | validate s =>
      simp only [Chain.step] at hs
      split at hs
      · split at hs
        · split at hs
          · cases hs
            exact .inl rfl
          · cases hs
        · cases hs
          exact .inl rfl
      · cases hs
  | abort_transaction s =>
      simp only [Chain.step] at hs
      split at hs
      · cases hs
        exact .inl rfl
      · split at hs
        · cases hs
          exact .inl rfl
        · cases hs
      · cases hs
  | start_transaction s =>
      simp only [Chain.step] at hs
      split at hs
      · split at hs
        · cases hs
          exact .inl rfl
        · cases hs
      · cases hs
  | store s obj data =>
      simp only [Chain.step] at hs
      split at hs
      · split at hs
        · cases hs
        · cases hs
          exact .inl rfl
      · cases hs
  | become_inevitable s =>
      simp only [Chain.step] at hs
      split at hs
      · split at hs
        · cases hs
          exact .inl rfl
        · cases hs
          exact .inl rfl
      · cases hs
  | _ =>
      simp only [Chain.step] at hs
      split at hs
      · cases hs
        exact .inl rfl
      · cases hs

omit [DecidableEq Seg] [DecidableEq Obj] in
/-- Where the mark is. -/
theorem Refines.getLast_of_inevitable (h : Refines m st nodes) {a : ℕ}
    (ha : m.next a = .inevitable) : nodes.getLast? = some a ∧ st.tail_inevitable = true := by
  have hmem : a ∈ nodes := by
    by_contra hnot
    rw [h.others a hnot] at ha
    cases ha
  obtain ⟨i, hi⟩ := List.mem_iff_getElem?.mp hmem
  have hlt := (List.getElem?_eq_some_iff.mp hi).1
  have hlen := h.length
  have hend : i = st.log.length := by
    by_contra hne
    have hnext : nodes[i + 1]? = some nodes[i + 1] := List.getElem?_eq_getElem (by omega)
    rw [(h.chain.next i a hi _).mpr hnext] at ha
    cases ha
  subst hend
  constructor
  · rw [List.getLast?_eq_getElem?, hlen]
    exact hi
  · rw [h.tail a hi] at ha
    cases htail : st.tail_inevitable with
    | true => rfl
    | false =>
        rw [htail] at ha
        cases ha

omit [DecidableEq Seg] [DecidableEq Obj] in
theorem Refines.holds_tail (h : Refines m st nodes) (s : Seg) :
    (m.segs s).holds_tail = (st.segs s).holds_tail := by
  obtain ⟨a, -, hm⟩ := h.segs s
  rw [hm]
  rfl

omit [DecidableEq Seg] [DecidableEq Obj] in
theorem Refines.next_of_holds (h : Refines m st nodes) (hinv : TailInv st)
    (hs : (m.segs s).holds_tail = true) :
    m.next (m.segs s).last_commit_log_entry = .inevitable := by
  rw [h.holds_tail] at hs
  obtain ⟨htail, hlast⟩ := (hinv.segs s).holds hs
  obtain ⟨a, ha, hm⟩ := h.segs s
  rw [hlast] at ha
  rw [hm]
  show m.next a = _
  rw [h.tail a ha, htail]
  rfl

/-- **The end of the commit log.** In every run the entries that are reachable
from `commit_log_root` are one finite chain, and the `last_commit_log_entry` of
every segment is in it. The mark `-1` occurs only in the `next` field of its
last entry; it is there if and only if a transaction is between the
compare-and-swap that turned it inevitable and the one of its commit, and there
is at most one such transaction. Meanwhile no step changes a `next` field, but
for the compare-and-swap of that commit, which does not fail. -/
theorem inevitable_exclusive (h : Reachable Chain.Initial Chain.step m) :
    ∃ nodes : List ℕ, IsChain m.next nodes
      ∧ (∀ s, (m.segs s).last_commit_log_entry ∈ nodes)
      ∧ (∀ a, m.next a = .inevitable → nodes.getLast? = some a)
      ∧ ((∃ a, m.next a = .inevitable) ↔ ∃ s, (m.segs s).holds_tail = true)
      ∧ (∀ s t, (m.segs s).holds_tail = true → (m.segs t).holds_tail = true → s = t)
      ∧ (∀ s, (m.segs s).holds_tail = true → ∀ a m', Chain.step m a = .next m' →
        m'.next = m.next
          ∨ a.1 = .continue s ∧ ∃ written, (m.segs s).pc = .attach_commit written)
      ∧ ∀ s written, (m.segs s).holds_tail = true → (m.segs s).pc = .attach_commit written →
        ∃ m', Chain.continue_step m s = .next m' ∧ (m'.segs s).pc = .attached
          ∧ m'.next (m.segs s).last_commit_log_entry = .entry (m.new s) := by
  obtain ⟨st, nodes, hreach, hrefines⟩ := refines_of_reachable h
  have hinv := tailInv_of_reachable hreach
  refine ⟨nodes, hrefines.chain, fun s => ?_, fun a ha => (hrefines.getLast_of_inevitable ha).1,
    ⟨?_, ?_⟩, fun s t hs ht => ?_, fun s hs a m' hstep => ?_, fun s written hs hpc => ?_⟩
  · obtain ⟨a, ha, hm⟩ := hrefines.segs s
    rw [hm]
    exact List.mem_of_getElem? ha
  · rintro ⟨a, ha⟩
    obtain ⟨s, hs⟩ := hinv.held (hrefines.getLast_of_inevitable ha).2
    exact ⟨s, (hrefines.holds_tail s).trans hs⟩
  · rintro ⟨s, hs⟩
    exact ⟨_, hrefines.next_of_holds hinv hs⟩
  · rw [hrefines.holds_tail] at hs ht
    exact hinv.one s t hs ht
  · -- nobody else finds what it expects at the end of the log
    have hnull : ∀ t, m.next (m.segs t).last_commit_log_entry ≠ .null := by
      intro t hn
      obtain ⟨a, ha, hm⟩ := hrefines.segs t
      have hst : st.tail_inevitable = true :=
        ((hinv.segs s).holds ((hrefines.holds_tail s).symm.trans hs)).1
      rw [hm] at hn
      have hnext := (hrefines.next_eq ha).symm.trans hn
      cases hc : C8.next st (st.segs t).last_commit_log_entry with
      | null =>
          rw [tail_of_next_null hc] at hst
          cases hst
      | inevitable =>
          rw [hc] at hnext
          cases hnext
      | entry e =>
          rw [hc] at hnext
          cases hnext
    rcases hrefines.next_of_step hstep with heq | ⟨t, ha, hswap⟩
    · exact .inl heq
    · cases hswap with
      | commit written _ hn => exact absurd hn (hnull t)
      | turn_inevitable _ hn => exact absurd hn (hnull t)
      | commit_inevitable written hpc hts =>
          have ht : (m.segs t).holds_tail = true := by
            rw [holds_tail_iff, hpc]
            exact ⟨hts, rfl⟩
          rw [hrefines.holds_tail] at hs ht
          cases hinv.one s t hs ht
          exact .inr ⟨ha, written, hpc⟩
  · have hnext := hrefines.next_of_holds hinv hs
    have hts := (holds_tail_iff.mp hs).1
    refine ⟨attach_entry m s (Function.update m.next (m.segs s).last_commit_log_entry
      (.entry (m.new s))), ?_, ?_, Function.update_self _ _ _⟩
    · unfold Chain.continue_step compare_and_swap
      simp only [hpc, if_pos hts, if_pos hnext]
    · show (Function.update m.segs s _ s).pc = .attached
      rw [Function.update_self]

/-- Two segments and one prebuilt object. -/
def oneObject : PSt Bool Unit ℕ where
  next _ := .null
  entry _ := none
  allocated _ := true
  segs _ :=
    { pc := .no_transaction
      transaction_state := .TS_NONE
      transaction_read_version := 0xff
      read_marker := fun _ => 0
      page := fun _ => { write_barrier := true, data := 0 }
      modified_old_objects := ∅
      objects_pointing_to_nursery := []
      last_commit_log_entry := commit_log_root }
  cl _ := 0
  new _ := 0

theorem oneObject_initial : Chain.Initial oneObject :=
  ⟨fun _ => rfl, fun _ => rfl, fun _ => 0, fun _ => rfl⟩

/-- Both segments start, and one of them turns inevitable. -/
def turn_inevitable : List (Act Bool Unit ℕ × ℕ) :=
  [(.start_transaction false, 0), (.continue false, 0), (.start_transaction true, 0),
    (.continue true, 0), (.become_inevitable false, 0), (.continue false, 0), (.continue false, 0)]

theorem inevitable_exclusive_two : ∃ m,
    run Chain.step (fun _ _ => True) oneObject turn_inevitable = .next m
      ∧ m.next commit_log_root = .inevitable ∧ (m.segs true).holds_tail = false := by
  obtain ⟨m, hrun, hnext, hholds⟩ : ∃ m,
      run Chain.step (fun _ _ => True) oneObject turn_inevitable = .next m
        ∧ m.next commit_log_root = .inevitable ∧ (m.segs false).holds_tail = true :=
    ⟨_, rfl, rfl, rfl⟩
  have h0 : Reachable Chain.Initial Chain.step oneObject := .start oneObject_initial
  obtain ⟨nodes, -, -, -, -, hone, -⟩ := inevitable_exclusive (h0.run _ hrun)
  refine ⟨m, hrun, hnext, ?_⟩
  by_contra htrue
  rw [Bool.not_eq_false] at htrue
  cases hone _ _ htrue hholds

end

end Stmgc.C8.Chain
