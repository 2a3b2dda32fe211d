/-
Serializability of the transactions of `c8`, in the order of the commit log.

No entry between what a transaction had applied when it accessed an object and
its own entry lists that object. This is not so for all the entries since its
start ([`not_unlisted_since_start`]): turning inevitable applies entries to a
running transaction, which may then access the objects that they list. Without
stale copies the transactions of the log are serial ([`commit_log_serial`]).
-/
import Stmgc.C8.Version
import Stmgc.Lib.Serial

namespace Stmgc.C8

open Stmgc.Lib

section

variable {Seg Obj Data : Type} [DecidableEq Obj]

/-- What the transaction of an entry has found in the objects it had not
modified itself, and what it has left. -/
def Committed.txn (c : Committed Obj Data) (cl : stm_commit_log_entry_s Seg Obj Data) :
    Txn Obj (object_s Data) :=
  { found := (c.accesses.filter (fun x => !x.own)).map (fun x => (x.obj, x.found))
    left := fun o => if o ∈ cl.written then some (cl.contents o) else none }

/-- The transactions of the log. -/
def Tracked.txns (t : Tracked Seg Obj Data) : List (Txn Obj (object_s Data)) :=
  List.zipWith Committed.txn t.committed t.st.log

/-- The objects as they have come into being. -/
def Tracked.store (t : Tracked Seg Obj Data) : Obj → object_s Data :=
  fun o => { write_barrier := true, data := t.base o }

/-- The store after the first `k` transactions is what the first `k` entries
say. -/
theorem after_take_txns (t : Tracked Seg Obj Data) (hlen : t.committed.length = t.st.log.length)
    {k : ℕ} (hk : k ≤ t.st.log.length) (o : Obj) :
    after t.store (t.txns.take k) o = version t.base t.st.log k o := by
  induction k with
  | zero => rfl
  | succ k ih =>
      have hlt : k < t.committed.length := by omega
      have hc : t.committed[k]? = some t.committed[k] := List.getElem?_eq_getElem hlt
      have he : t.st.log[k]? = some t.st.log[k] := List.getElem?_eq_getElem hk
      have htxn : t.txns[k]? = some (t.committed[k].txn t.st.log[k]) := by
        unfold Tracked.txns
        rw [List.getElem?_zipWith, hc, he]
      rw [List.take_add_one, htxn, after_append, version_succ he, ← ih (Nat.le_of_succ_le hk)]
      change (if o ∈ t.st.log[k].written then some (t.st.log[k].contents o) else none).getD _ = _
      split_ifs <;> rfl

variable [DecidableEq Seg]

/-- **Serializability in commit log order.** In every run, an entry lists only
objects that its transaction has accessed, and none of the objects it has
accessed is listed between what had been applied at the access and its own
entry. If no validation copies from a segment that has attached its entry and
not cleared its modified objects, then each transaction has found what the ones
before it in the log have left. -/
theorem commit_log_serial {t : Tracked Seg Obj Data}
    (h : Reachable Tracked.Initial Tracked.step t) :
    t.committed.length = t.st.log.length
      ∧ (∀ (k : ℕ) cl c, t.st.log[k]? = some cl → t.committed[k]? = some c →
        (∀ obj ∈ cl.written, ∃ x ∈ c.accesses, x.obj = obj)
          ∧ ∀ x ∈ c.accesses, x.applied ≤ k ∧ Unlisted t.st.log x.applied k x.obj)
      ∧ (ReachableIf Tracked.Initial Tracked.step clean t → Serial t.store t.txns) := by
  have hcommitted := (trackedInv h).committed
  refine ⟨hcommitted.length, ?_, fun hclean => ?_⟩
  · intro k cl c hcl hc
    exact ⟨hcommitted.written k cl c hcl hc, hcommitted.unlisted k c hc⟩
  · have hfound := (versionInv hclean).2.committed
    apply serial_of_forall
    intro k u hu y hy
    obtain ⟨c, cl, hc, hcl, rfl⟩ := List.getElem?_zipWith_eq_some.mp hu
    obtain ⟨x, hx, rfl⟩ := List.mem_map.mp hy
    obtain ⟨hx, hown⟩ := List.mem_filter.mp hx
    rw [Bool.not_eq_true'] at hown
    obtain ⟨happlied, hunlisted⟩ := hcommitted.unlisted k c hc x hx
    have hk := (List.getElem?_eq_some_iff.mp hcl).1
    -- the version at the access is still the one at the entry
    rw [after_take_txns t hcommitted.length (Nat.le_of_lt hk)]
    rw [version_of_range hunlisted happlied]
    exact (hfound c (List.mem_of_getElem? hc) x hx).2 hown

/-! ## Entries applied to a running transaction -/

/-- The start of the program with one prebuilt object. -/
def oneTracked : Tracked Bool Unit ℕ where
  st := oneObject
  base := fun _ => 0
  validated_at_start := fun _ => 0
  accessed := fun _ => []
  committed := []

theorem oneTracked_initial : oneTracked.Initial :=
  ⟨oneObject_initial, fun _ _ => rfl, fun _ => rfl, rfl⟩

/-- Segment `true` starts, segment `false` commits a change of the object, and
then segment `true` turns inevitable, reads the object and commits. -/
def inevitableReads : List (Act Bool Unit ℕ) :=
  [.start_transaction true, .continue true] ++ commitOne ++ [.continue false, .continue false]
    ++ [.become_inevitable true, .continue true, .continue true, .continue true, .continue true,
      .continue true, .continue true, .read true (), .commit_transaction true id, .continue true]

theorem not_unlisted_since_start :
    ¬ ∀ (t : Tracked Bool Unit ℕ), Reachable Tracked.Initial Tracked.step t →
      ∀ (k : ℕ) cl c, t.st.log[k]? = some cl → t.committed[k]? = some c →
        ∀ x ∈ c.accesses, Unlisted t.st.log c.validated_at_start k x.obj := by
  intro hall
  obtain ⟨t, cl, cl₀, c, x, hrun, hcl, hcl₀, hc, hstart, hx, hlisted⟩ : ∃ t cl cl₀ c x,
      run Tracked.step (fun _ _ => True) oneTracked inevitableReads = .next t
        ∧ t.st.log[1]? = some cl ∧ t.st.log[0]? = some cl₀ ∧ t.committed[1]? = some c
        ∧ c.validated_at_start = 0 ∧ c.accesses = [x] ∧ x.obj ∈ cl₀.written :=
    ⟨_, _, _, _, _, rfl, rfl, rfl, rfl, rfl, rfl, List.mem_singleton.mpr rfl⟩
  have h0 : Reachable Tracked.Initial Tracked.step oneTracked := .start oneTracked_initial
  have hun := hall t (h0.run _ hrun) 1 cl c hcl hc x (by rw [hx]; exact List.mem_singleton.mpr rfl)
  exact hun 0 cl₀ (by rw [hstart]) Nat.one_pos hcl₀ hlisted

/-- In that run the object is read after the entry of the other segment. -/
theorem commit_log_serial_inevitable :
    ∃ t, run Tracked.step clean oneTracked inevitableReads = .next t
      ∧ t.committed.length = 2 ∧ Serial t.store t.txns := by
  have h0 : ReachableIf Tracked.Initial Tracked.step clean oneTracked := .start oneTracked_initial
  have h1 : Reachable Tracked.Initial Tracked.step oneTracked := .start oneTracked_initial
  refine ⟨_, rfl, rfl, ?_⟩
  exact (commit_log_serial (h1.run inevitableReads rfl)).2.2 (h0.run inevitableReads rfl)

end

end Stmgc.C8
