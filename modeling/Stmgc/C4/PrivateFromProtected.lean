/-
The objects that are private from protected, at the end of their transaction.

A commit that has its locks cannot abort any more, and makes every private copy
the current version: in the place of the protected object, or behind a stub at
the end of the chain of public revisions when the backup copy was stolen. An
abort changes nothing for a reader: who follows the chains, and the backup
copies of the private objects, sees what was there before.
-/
import Stmgc.C4.Chains

open Stmgc.Lib

namespace Stmgc.C4

variable {n : ℕ} {Content : Type} {s s' : State n Content} {t : Fin n} {a : Act n Content}

/-! ## What a reader sees -/

/-- A reader that comes to `p` sees `c`: it follows pointers and stubs, and from an
object that is private from protected goes on to the backup copy. -/
inductive Sees (heap : Heap n Content) : gcptr → Content → Prop where
  | here {p : gcptr} {x : object n Content} (hx : heap p = some x)
      (hrev : IS_POINTER x.h_revision = false) : Sees heap p x.content
  | pointer {p q : gcptr} {x : object n Content} {c : Content} (hx : heap p = some x)
      (hrev : x.h_revision = .pointer q) (h : Sees heap q c) : Sees heap p c
  | stub {p q : gcptr} {x : object n Content} {c : Content} (hx : heap p = some x)
      (hrev : x.h_revision = .stub q) (h : Sees heap q c) : Sees heap p c

theorem Sees.of_pointer {heap : Heap n Content} {p q : gcptr} {x : object n Content} {c : Content}
    (h : Sees heap p c) (hx : heap p = some x) (hrev : x.h_revision = .pointer q) :
    Sees heap q c := by
  cases h with
  | here hx₁ hrev₁ =>
      rw [hx, Option.some.injEq] at hx₁
      subst hx₁
      exact absurd hrev₁ (by rw [hrev]; exact nofun)
  | pointer hx₁ hrev₁ h₁ =>
      rw [hx, Option.some.injEq] at hx₁
      subst hx₁
      obtain rfl := revision_t.pointer.inj (hrev.symm.trans hrev₁)
      exact h₁
  | stub hx₁ hrev₁ _ =>
      rw [hx, Option.some.injEq] at hx₁
      subst hx₁
      exact absurd hrev₁ (by simp [hrev])

theorem Sees.of_number {heap : Heap n Content} {p : gcptr} {x : object n Content} {c : Content}
    (h : Sees heap p c) (hx : heap p = some x) (hrev : IS_POINTER x.h_revision = false) :
    c = x.content := by
  cases h with
  | here hx₁ _ =>
      rw [hx, Option.some.injEq] at hx₁
      rw [hx₁]
  | pointer hx₁ hrev₁ _ =>
      rw [hx, Option.some.injEq] at hx₁
      subst hx₁
      exact absurd hrev (by rw [hrev₁]; exact nofun)
  | stub hx₁ hrev₁ _ =>
      rw [hx, Option.some.injEq] at hx₁
      subst hx₁
      exact absurd hrev (by rw [hrev₁]; exact nofun)

/-! ## The abort -/

/-- An item of a thread that has not committed is locked, or it is not. -/
theorem ThreadInv.locked_or_unlocked {heap : Heap n Content} {d : tx_descriptor n}
    (h : ThreadInv heap t d) (hpast : d.pc.past_locks = false) {x : wlog_t} (hx : x ∈ d.items) :
    Locked heap t d x ∨ Unlocked heap t d x := by
  have hlocks := h.locks
  cases hpc : d.pc with
  | running =>
      rw [hpc] at hlocks
      exact Or.inr (hlocks x hx)
  | waiting =>
      rw [hpc] at hlocks
      exact Or.inr (hlocks x hx)
  | aborting =>
      rw [hpc] at hlocks
      exact Or.inr (hlocks x hx)
  | acquired =>
      rw [hpc] at hlocks
      exact Or.inl (hlocks x hx)
  | acquire_locks todo =>
      rw [hpc] at hlocks
      obtain ⟨done, hsplit, hdone, htodo⟩ := hlocks
      rw [hsplit, List.mem_append] at hx
      exact hx.imp (hdone x) (htodo x)
  | acquire_cas item todo v =>
      rw [hpc] at hlocks
      obtain ⟨-, done, hsplit, hdone, htodo⟩ := hlocks
      rw [hsplit, List.mem_append] at hx
      exact hx.imp (hdone x) (htodo x)
  | cancel_locks todo abort =>
      rw [hpc] at hlocks
      obtain ⟨restored, locked, rest, hsplit, htodo, hrestored, hlocked, hrest⟩ := hlocks
      rw [hsplit, htodo, List.mem_append, List.mem_append] at hx
      rcases hx with hx | hx | hx
      · exact Or.inr (hrestored x hx)
      · exact Or.inl (hlocked x hx)
      · exact Or.inr (hrest x hx)
  | committed cur_time => exact absurd hpast (by rw [hpc]; exact nofun)
  | chain_heads todo => exact absurd hpast (by rw [hpc]; exact nofun)

/-- What is private from protected leads to a public object or to its own backup copy. -/
theorem Inv.pfp_pointer (h : Inv s) {P q : gcptr} {p : object n Content} (hp : s.heap P = some p)
    (hpfp : p.GCFLAG_PRIVATE_FROM_PROTECTED = true) (hrev : p.h_revision = .pointer q) :
    ∃ b, s.heap q = some b
      ∧ (b.GCFLAG_PUBLIC = true ∨ b.GCFLAG_BACKUP_COPY = true ∧ b.thread = p.thread) := by
  have hd := h.thread p.thread
  have hP := (hd.pfp P).mpr ⟨p, hp, hpfp, rfl⟩
  by_cases hval : ∀ R, (R, P) ∉ (s.threads p.thread).items
  · obtain ⟨p₁, B, b, hp₁, hrev₁, hb, -, hcase⟩ := hd.backup P hP hval
    rw [hp, Option.some.injEq] at hp₁
    subst hp₁
    obtain rfl := revision_t.pointer.inj (hrev.symm.trans hrev₁)
    refine ⟨b, hb, ?_⟩
    rcases hcase with hback | hmem
    · exact Or.inr hback
    · obtain ⟨-, -, -, b₁, hb₁, hpub, -⟩ := hd.stolen _ hmem
      rw [hb, Option.some.injEq] at hb₁
      exact Or.inl (hb₁ ▸ hpub)
  · rw [not_forall] at hval
    obtain ⟨R, hmem⟩ := hval
    rw [not_not] at hmem
    have hpast : (s.threads p.thread).pc.past_locks = false := by
      by_contra hpast
      have hlocks := hd.locks
      cases hpc : (s.threads p.thread).pc with
      | committed cur_time =>
          rw [hpc] at hlocks
          rw [hlocks.1] at hP
          exact List.not_mem_nil hP
      | chain_heads todo =>
          rw [hpc] at hlocks
          rw [hlocks.1] at hP
          exact List.not_mem_nil hP
      | _ => exact hpast (by rw [hpc]; rfl)
    obtain ⟨r, l, hr, hl, hpub, -⟩ := hd.item _ hmem
    rcases hd.locked_or_unlocked hpast hmem with ⟨r₁, l₁, v, -, hl₁, -, hv, -⟩ | ⟨r₁, l₁, -, hl₁, -, hexp⟩
    · rw [hp, Option.some.injEq] at hl₁
      subst hl₁
      exact absurd hrev (by simp [hv])
    · rw [hp, Option.some.injEq] at hl₁
      subst hl₁
      rw [tx_descriptor.expected, if_pos hpfp] at hexp
      obtain rfl := revision_t.pointer.inj (hrev.symm.trans hexp)
      exact ⟨r, hr, Or.inl hpub⟩

section Abort

variable {heap' : Heap n Content} (h : Inv s) (hpc : (s.threads t).pc = .aborting)
  (hdone : PfpDone s.heap (aborted_object s.heap) (s.threads t).private_from_protected heap')
include h hpc hdone

/-- Nothing new is seen after the abort. -/
theorem sees_of_aborted {p : gcptr} {c : Content} (hsees : Sees heap' p c) : Sees s.heap p c := by
  have hown := h.aborting_backups hpc
  induction hsees with
  | @here p x' hx' hrev =>
      rcases h.pfp_done_of_some hown hdone hx' with ⟨hp, x, hx, rfl⟩ | ⟨-, hx⟩
      · obtain ⟨B, b, hptr, hb, ⟨-, hout⟩ | ⟨-, ⟨v, hv⟩, hout⟩⟩ := h.aborted_object_cases hpc hp hx
        · exact absurd hrev (by rw [hout, show _ = revision_t.pointer B from hptr]; exact nofun)
        · have hB : Sees s.heap B b.content := .here hb (by rw [hv]; rfl)
          rw [hout]
          exact .pointer hx hptr hB
      · exact .here hx hrev
  | @pointer p q x' c hx' hrev _ ih =>
      rcases h.pfp_done_of_some hown hdone hx' with ⟨hp, x, hx, rfl⟩ | ⟨-, hx⟩
      · obtain ⟨B, b, hptr, hb, ⟨-, hout⟩ | ⟨-, ⟨v, hv⟩, hout⟩⟩ := h.aborted_object_cases hpc hp hx
        · rw [hout] at hrev
          exact .pointer hx hrev ih
        · rw [hout] at hrev
          exact absurd hrev (by simp [hv])
      · exact .pointer hx hrev ih
  | @stub p q x' c hx' hrev _ ih =>
      rcases h.pfp_done_of_some hown hdone hx' with ⟨hp, x, hx, rfl⟩ | ⟨-, hx⟩
      · exact absurd hrev ((h.aborted_good hpc).stub p hp x hx q)
      · exact .stub hx hrev ih

/-- And nothing else is lost than the backup copies of the thread. -/
theorem sees_aborted (hc : Chains s) {p : gcptr} {c : Content} (hsees : Sees s.heap p c)
    (hkeep : ∀ y, s.heap p = some y → y.GCFLAG_BACKUP_COPY = true → y.thread ≠ t) :
    Sees heap' p c := by
  have hown := h.aborting_backups hpc
  -- an object that is not among the private ones, nor freed
  have hsame : ∀ q y, s.heap q = some y → q ∉ (s.threads t).private_from_protected →
      (y.GCFLAG_BACKUP_COPY = true → y.thread ≠ t) → heap' q = some y := by
    intro q y hy hq hfree
    rcases hdone.cases (h.pfp_list hown) q with ⟨hmem, -⟩
      | ⟨-, -, P, hP, x, b, hx, hrev, hb, hpub⟩ | ⟨-, hh⟩
    · exact absurd hmem hq
    · rw [hy, Option.some.injEq] at hb
      subst hb
      obtain ⟨-, hback, hthread⟩ := hown P hP x q y hx hrev hy hpub
      exact absurd hthread (hfree hback)
    · exact hh.trans hy
  have hpublic : ∀ q, IsPublic s q → ∀ y, s.heap q = some y → y.GCFLAG_BACKUP_COPY = true →
      y.thread ≠ t := by
    rintro q ⟨y₁, hy₁, hpub⟩ y hy hback
    rw [hy, Option.some.injEq] at hy₁
    exact absurd ((h.shape q y hy).backup_eq_false (hy₁ ▸ hpub)) (by simp [hback])
  induction hsees with
  | @here p x hx hrev =>
      refine .here (hsame p x hx (fun hp => ?_) (hkeep x hx)) hrev
      obtain ⟨B, b, hptr, -⟩ := h.aborting_pfp hpc hp hx
      exact absurd hrev (by rw [hptr]; exact nofun)
  | @pointer p q x c hx hrev hq ih =>
      by_cases hp : p ∈ (s.threads t).private_from_protected
      · obtain ⟨B, b, hptr, hb, ⟨hpub, hout⟩ | ⟨-, ⟨v, hv⟩, hout⟩⟩ := h.aborted_object_cases hpc hp hx
        · obtain rfl := revision_t.pointer.inj (hrev.symm.trans hptr)
          have hx' := hdone.out p hp x hx
          rw [hout] at hx'
          exact .pointer hx' hrev (ih (hpublic q ⟨b, hb, hpub⟩))
        · obtain rfl := revision_t.pointer.inj (hrev.symm.trans hptr)
          have hx' := hdone.out p hp x hx
          rw [hout] at hx'
          rw [hq.of_number hb (by rw [hv]; rfl)]
          have hsees' := Sees.here hx' (by rw [show _ = revision_t.number v from hv]; rfl)
          exact hsees'
      · refine .pointer (hsame p x hx hp (hkeep x hx)) hrev (ih fun y hy hback => ?_)
        by_cases hpub : x.GCFLAG_PUBLIC = true
        · exact hpublic q (hc.outdated p x q hx hpub hrev) y hy hback
        · rw [Bool.not_eq_true] at hpub
          have hpfp : x.GCFLAG_PRIVATE_FROM_PROTECTED = true := by
            by_contra hnot
            obtain ⟨v, hv⟩ := (h.shape p x hx).number hpub (by simpa using hnot)
            exact absurd hrev (by simp [hv])
          obtain ⟨b, hb, hcase⟩ := h.pfp_pointer hx hpfp hrev
          rw [hy, Option.some.injEq] at hb
          subst hb
          rcases hcase with hypub | ⟨-, hthread⟩
          · exact hpublic q ⟨y, hy, hypub⟩ y hy hback
          · rintro rfl
            exact hp (((h.thread _).pfp p).mpr ⟨x, hx, hpfp, hthread.symm⟩)
  | @stub p q x c hx hrev _ ih =>
      have hp : p ∉ (s.threads t).private_from_protected := by
        intro hp
        obtain ⟨B, b, hptr, -⟩ := h.aborting_pfp hpc hp hx
        exact absurd hrev (by simp [hptr])
      refine .stub (hsame p x hx hp (hkeep x hx)) hrev (ih fun y hy hback => ?_)
      obtain ⟨l, hl, -, hlback, -⟩ := h.stub p x q hx hrev
      rw [hy, Option.some.injEq] at hl
      exact absurd hback (by simp [hl, hlback])

end Abort

/-! ## The commit -/

/-- After `CommitPrivateFromProtected`: the copy `p` at `P` is what its thread goes on
with, under the number of the commit unless it is the local copy of a public object. -/
structure Copied (s₀ : State n Content) (t : Fin n) (cur_time : ℤ) (P : gcptr) (p : object n Content)
    (s : State n Content) : Prop where
  items : (s.threads t).items = (s₀.threads t).items
  pc : (s.threads t).pc = .committed cur_time
    ∨ (∃ todo, (s.threads t).pc = .chain_heads todo)
      ∧ (s.threads t).stm_private_rev_num = -(cur_time + 1)
  copy : ∃ p', s.heap P = some p' ∧ p'.content = p.content ∧ p'.thread = t
    ∧ p'.GCFLAG_PUBLIC = false ∧ p'.GCFLAG_PRIVATE_FROM_PROTECTED = false
    ∧ ((∀ R, (R, P) ∉ (s₀.threads t).items) → p'.h_revision = .number (cur_time + 1))

section Commit

variable {s₀ : State n Content} {cur_time : ℤ} {P : gcptr} {p : object n Content}

/-- A step of the second half of the commit, or of another thread. -/
theorem Copied.step (h : Inv s) (hc : Copied s₀ t cur_time P p s)
    (hs : Stmgc.C4.step s a = .next s') (hpast : (s'.threads t).pc.past_locks = true) :
    Copied s₀ t cur_time P p s' := by
  obtain ⟨hitems, hpc, p', hp', hcontent, hthread, hpub, hpfp, hnum⟩ := hc
  have hpast₀ : (s.threads t).pc.past_locks = true := by
    rcases hpc with hpc | ⟨⟨todo, hpc⟩, -⟩
    · rw [hpc]
      rfl
    · rw [hpc]
      rfl
  by_cases ha : a.commits t
  · cases a with
    | AcquireLocks u =>
        obtain rfl : u = t := ha
        exact absurd hpast (by simp [(acquire_threads hs).2.2])
    | CancelLocks u =>
        obtain rfl : u = t := ha
        exact absurd hpast (by simp [(cancel_threads h hs).2.2])
    | call_CancelLocks u abort =>
        obtain rfl : u = t := ha
        rw [Stmgc.C4.step, guarded_eq_next] at hs
        exact absurd hpast₀ (by rw [hs.1]; simp [Pc.past_locks])
    | CommitPrivateFromProtected u cur_time =>
        obtain rfl : u = t := ha
        rw [Stmgc.C4.step, guarded_eq_next] at hs
        exact absurd hpast₀ (by rw [hs.1]; simp [Pc.past_locks])
    | new_heads u items =>
        obtain rfl : u = t := ha
        rw [Stmgc.C4.step] at hs
        cases hpc₁ : (s.threads u).pc with
        | committed cur_time₁ =>
            rcases hpc with hpc | ⟨⟨todo, hpc⟩, -⟩
            · obtain rfl := Pc.committed.inj (hpc₁.symm.trans hpc)
              rw [hpc₁] at hs
              dsimp only at hs
              rw [guarded_eq_next] at hs
              obtain ⟨hmap, hs⟩ := hs
              obtain ⟨heap', hheap, hs⟩ := Outcome.bind_eq_next.mp hs
              rw [Outcome.ofOption_eq_next] at hheap
              rw [Outcome.next.injEq] at hs
              have hheads := h.new_heads_list hmap hheap
              subst hs
              refine ⟨?_, Or.inr ⟨⟨_, by rw [State.set_thread_self]⟩, by rw [State.set_thread_self]⟩, ?_⟩
              · rw [State.set_thread_self]
                exact hitems
              · rcases hheads.cases hmap P with ⟨R, l, hmem, hl, hl'⟩ | ⟨hnone, -⟩ | ⟨-, hsame⟩
                · rw [hp', Option.some.injEq] at hl
                  subst hl
                  exact ⟨_, hl', hcontent, hthread, hpub, hpfp, fun _ => rfl⟩
                · exact absurd hp' (by simp [hnone])
                · exact ⟨p', hsame.trans hp', hcontent, hthread, hpub, hpfp, hnum⟩
            · exact absurd hpc₁ (by simp [hpc])
        | _ =>
            rw [hpc₁] at hs
            simp at hs
    | UpdateChainHeads u R =>
        obtain rfl : u = t := ha
        rw [Stmgc.C4.step] at hs
        cases hpc₁ : (s.threads u).pc with
        | chain_heads todo =>
            cases todo with
            | nil =>
                rw [hpc₁] at hs
                simp at hs
            | cons y todo =>
                rw [hpc₁] at hs
                dsimp only at hs
                cases hr : s.heap R with
                | none =>
                    rw [hr] at hs
                    simp at hs
                | some r =>
                    rw [hr] at hs
                    dsimp only at hs
                    rw [guarded_eq_next] at hs
                    obtain ⟨-, hs⟩ := hs
                    split_ifs at hs with hflag
                    rw [Outcome.next.injEq] at hs
                    subst hs
                    have hPR : P ≠ R := by
                      rintro rfl
                      rw [hr, Option.some.injEq] at hp'
                      exact absurd hflag.1 (by simp [hp', hpub])
                    have hprv : (s.threads u).stm_private_rev_num = -(cur_time + 1) := by
                      rcases hpc with hpc | ⟨-, hprv⟩
                      · exact absurd hpc₁ (by simp [hpc])
                      · exact hprv
                    refine ⟨?_, Or.inr ⟨⟨_, by rw [State.set_pc_self]⟩, ?_⟩, p', ?_, hcontent, hthread,
                      hpub, hpfp, hnum⟩
                    · rw [State.set_pc_self]
                      exact hitems
                    · rw [State.set_pc_self]
                      exact hprv
                    · rw [State.set_pc_heap, State.set_object_heap, Function.update_of_ne hPR, hp']
        | _ =>
            rw [hpc₁] at hs
            simp at hs
    | commit_done u =>
        obtain rfl : u = t := ha
        rw [Stmgc.C4.step, guarded_eq_next, Outcome.next.injEq] at hs
        rw [← hs.2, State.set_thread_self] at hpast
        simp [Pc.past_locks] at hpast
    | abort_done u =>
        obtain rfl : u = t := ha
        rw [Stmgc.C4.step, guarded_eq_next] at hs
        exact absurd hpast₀ (by rw [hs.1]; simp [Pc.past_locks])
    | _ => exact absurd ha id
  · have hlock : (s.threads t).pc.has_collection_lock = true := by
      by_contra hfree
      rw [Pc.past_locks_eq_false (by simpa using hfree)] at hpast₀
      simp at hpast₀
    have hthreads := threads_step h hlock ha hs
    obtain ⟨p'', hp'', hsame, hcontent'⟩ := own_step h hlock ha hs hp' hthread hpub
    exact ⟨by rw [hthreads, hitems], by rw [hthreads]; exact hpc, p'', hp'', hcontent'.trans hcontent,
      hsame.thread.trans hthread, hsame.PUBLIC.trans hpub, hsame.PRIVATE_FROM_PROTECTED.trans hpfp,
      fun hval => hsame.h_revision.trans (hnum hval)⟩

/-- The step of `CommitPrivateFromProtected`. -/
theorem commit_step (h : Inv s) (hpc : (s.threads t).pc = .acquired) (cur_time : ℤ) :
    ∃ s', step s (.CommitPrivateFromProtected t cur_time) = .next s'
      ∧ (s'.threads t).pc = .committed cur_time
      ∧ PfpDone s.heap (committed_object (cur_time + 1)) (s.threads t).private_from_protected s'.heap
      ∧ ∀ P ∈ (s.threads t).private_from_protected, ∀ p, s.heap P = some p →
        Copied s t cur_time P p s' := by
  obtain ⟨heap', hrun, hdone⟩ := h.commit_private_from_protected hpc cur_time
  refine ⟨({ s with heap := heap' }.set_thread t
    { s.threads t with private_from_protected := [], pc := .committed cur_time }), ?_, ?_, hdone, ?_⟩
  · rw [step, guarded_eq_next]
    refine ⟨hpc, ?_⟩
    rw [hrun]
  · rw [State.set_thread_self]
  · intro P hP p hp
    obtain ⟨p₁, hp₁, hflag, hthread⟩ := ((h.thread t).pfp P).mp hP
    rw [hp, Option.some.injEq] at hp₁
    subst hp₁
    refine ⟨?_, Or.inl (by rw [State.set_thread_self]), committed_object (cur_time + 1) p,
      hdone.out P hP p hp, rfl, hthread, ((h.shape P p hp).pfp hflag).1, rfl, fun hval => ?_⟩
    · rw [State.set_thread_self]
      rfl
    · rcases h.acquired_pfp hpc hP hp with ⟨R, v, hmem, -⟩ | ⟨-, B, b, hrev, -⟩
      · exact absurd hmem (hval R)
      · rw [committed_object, hrev]
        rfl

/-- At the end of the commit the private copy is the current version. -/
theorem Copied.current (hc : Chains s) (hcopied : Copied s₀ t cur_time P p s)
    (hpc : (s.threads t).pc = .chain_heads []) :
    ∃ p', s.heap P = some p' ∧ p'.content = p.content ∧ p'.GCFLAG_PRIVATE_FROM_PROTECTED = false
      ∧ p'.h_revision = .number (cur_time + 1)
      ∧ ∀ B, (B, P) ∈ (s₀.threads t).items → ∃ r S stub, s.heap B = some r ∧ r.GCFLAG_PUBLIC = true
        ∧ r.h_revision = .pointer S ∧ s.heap S = some stub ∧ stub.GCFLAG_PUBLIC = true
        ∧ stub.h_revision = .stub P := by
  obtain ⟨hitems, hcase, p', hp', hcontent, -, -, hpfp, hnum⟩ := hcopied
  have hprv : (s.threads t).stm_private_rev_num = -(cur_time + 1) := by
    rcases hcase with hnot | ⟨-, hprv⟩
    · exact absurd hnot (by simp [hpc])
    · exact hprv
  have hhead : ∀ B, (B, P) ∈ (s₀.threads t).items → HasHead s t [] (B, P) := fun B hmem =>
    hc.heads t [] hpc (B, P) (hitems ▸ hmem)
  refine ⟨p', hp', hcontent, hpfp, ?_, fun B hmem => ?_⟩
  · by_cases hval : ∀ R, (R, P) ∉ (s₀.threads t).items
    · exact hnum hval
    · rw [not_forall] at hval
      obtain ⟨R, hmem⟩ := hval
      rw [not_not] at hmem
      obtain ⟨⟨l, hl, hlrev⟩, -⟩ := hhead R hmem
      rw [hp', Option.some.injEq] at hl
      rw [hl, hlrev, hprv, neg_neg]
  · obtain ⟨-, S, stub, hS, hSpub, hstub, -, hnil | ⟨r, hr, hrpub, hptr⟩⟩ := hhead B hmem
    · exact absurd hnil List.not_mem_nil
    · exact ⟨r, S, stub, hr, hrpub, hptr, hS, hSpub, hstub⟩

end Commit

/-! ## In every run -/

/-- A commit that has its locks goes through and makes every private copy the current
version; an abort leaves to every reader what was in the backup copies. -/
theorem private_from_protected_all_or_nothing (hreach : Reachable init step s) (t : Fin n) :
    ((s.threads t).pc = .acquired → ∀ cur_time, ∃ s',
      step s (.CommitPrivateFromProtected t cur_time) = .next s'
      ∧ (s'.threads t).pc = .committed cur_time
      ∧ (∀ P ∈ (s.threads t).private_from_protected, ∀ p, s.heap P = some p →
        (∃ B b, p.h_revision = .pointer B ∧ s.heap B = some b ∧ b.GCFLAG_BACKUP_COPY = true
            ∧ s'.heap B = none)
          ∨ ∃ B, (B, P) ∈ (s.threads t).items ∧ LockedBy s' t B)
      ∧ ∀ s₁, ReachableIf (· = s') step (fun s₂ _ => (s₂.threads t).pc.past_locks = true) s₁ →
        (s₁.threads t).pc.past_locks = true →
        (∀ a s₂, step s₁ a = .next s₂ → (s₂.threads t).pc.past_locks = true
          ∨ a = .commit_done t ∧ (s₁.threads t).pc = .chain_heads [])
        ∧ ((s₁.threads t).pc = .chain_heads [] →
          ∀ P ∈ (s.threads t).private_from_protected, ∀ p, s.heap P = some p →
          ∃ p', s₁.heap P = some p' ∧ p'.content = p.content
            ∧ p'.GCFLAG_PRIVATE_FROM_PROTECTED = false ∧ p'.h_revision = .number (cur_time + 1)
            ∧ ∀ B, (B, P) ∈ (s.threads t).items → ∃ r S stub, s₁.heap B = some r
              ∧ r.GCFLAG_PUBLIC = true ∧ r.h_revision = .pointer S ∧ s₁.heap S = some stub
              ∧ stub.GCFLAG_PUBLIC = true ∧ stub.h_revision = .stub P))
    ∧ ((s.threads t).pc = .aborting → ∃ s', step s (.abort_done t) = .next s'
      ∧ (s'.threads t).pc = .running
      ∧ (∀ P ∈ (s.threads t).private_from_protected, ∃ p B b, s.heap P = some p
        ∧ p.h_revision = .pointer B ∧ s.heap B = some b
        ∧ (∀ c, Sees s'.heap P c ↔ Sees s.heap B c)
        ∧ (b.GCFLAG_BACKUP_COPY = true → s'.heap B = none
          ∧ ∃ p', s'.heap P = some p' ∧ p'.content = b.content ∧ p'.h_revision = b.h_revision))
      ∧ ∀ q c, (∀ y, s.heap q = some y → y.GCFLAG_BACKUP_COPY = true → y.thread ≠ t) →
        (Sees s'.heap q c ↔ Sees s.heap q c)) := by
  obtain ⟨h, hc⟩ := Chains.reachable hreach
  constructor
  · intro hpc cur_time
    obtain ⟨s', hs, hpc', hdone, hcopied⟩ := commit_step h hpc cur_time
    refine ⟨s', hs, hpc', fun P hP p hp => ?_, fun s₁ hrun hpast₁ => ?_⟩
    · rcases h.acquired_pfp hpc hP hp with ⟨B, v, hmem, -⟩ | ⟨-, B, b, hrev, hb, hback, -⟩
      · obtain ⟨r, l, w, hr, -, hrev, -⟩ := h.acquired_locked hpc _ hmem
        have hr' := h.pfp_done_public (h.acquired_backups hpc) hdone hr ((h.shape _ r hr).locked t hrev)
        exact Or.inr ⟨B, hmem, r, hr', hrev⟩
      · exact Or.inl ⟨B, b, hrev, hb, hback,
          hdone.free P hP p B b hp hrev hb ((h.shape B b hb).backup hback)⟩
    · have hinv : Inv s₁ ∧ Chains s₁ ∧ ((s₁.threads t).pc.past_locks = true →
          ∀ P ∈ (s.threads t).private_from_protected, ∀ p, s.heap P = some p →
          Copied s t cur_time P p s₁) := by
        refine @ReachableIf.invariant _ _ _ _ _ (fun s₁ => Inv s₁ ∧ Chains s₁
          ∧ ((s₁.threads t).pc.past_locks = true → ∀ P ∈ (s.threads t).private_from_protected, ∀ p,
            s.heap P = some p → Copied s t cur_time P p s₁)) (fun s₂ hs₂ => ?_)
          (fun s₂ a s₃ hinv hpast hs₂ => ?_) _ hrun
        · rw [hs₂]
          exact ⟨h.step hs, hc.step h hs, fun _ => hcopied⟩
        · obtain ⟨h₂, hc₂, hcopied₂⟩ := hinv
          exact ⟨h₂.step hs₂, hc₂.step h₂ hs₂, fun hpast₃ P hP p hp =>
            (hcopied₂ hpast P hP p hp).step h₂ hs₂ hpast₃⟩
      obtain ⟨h₁, hc₁, hcopied₁⟩ := hinv
      exact ⟨fun a s₂ hs₂ => past_or_done h₁ hs₂ hpast₁, fun hpc₁ P hP p hp =>
        (hcopied₁ hpast₁ P hP p hp).current hc₁ hpc₁⟩
  · intro hpc
    obtain ⟨heap', hrun, hdone⟩ := h.abort_private_from_protected hpc
    refine ⟨{ s with heap := heap' }.set_thread t { s.threads t with
      private_from_protected := [], public_to_private := G2L.g2l_clear, pc := .running }, ?_, ?_,
      fun P hP => ?_, fun q c hkeep => ?_⟩
    · rw [step, guarded_eq_next]
      refine ⟨hpc, ?_⟩
      rw [hrun]
    · rw [State.set_thread_self]
    · obtain ⟨p, hp, hflag, -⟩ := ((h.thread t).pfp P).mp hP
      have hpback := ((h.shape P p hp).pfp hflag).2
      obtain ⟨B, b, hrev, hb, hout⟩ := h.aborted_object_cases hpc hP hp
      refine ⟨p, B, b, hp, hrev, hb, fun c => ⟨fun hsees => ?_, fun hsees => ?_⟩, fun hback => ?_⟩
      · exact (sees_of_aborted h hpc hdone hsees).of_pointer hp hrev
      · refine sees_aborted h hpc hdone hc (.pointer hp hrev hsees) fun y hy hback => ?_
        rw [hp, Option.some.injEq] at hy
        exact absurd hback (by simp [← hy, hpback])
      · rcases hout with ⟨hpub, -⟩ | ⟨⟨hpub, -⟩, -, hout⟩
        · exact absurd ((h.shape B b hb).backup hback) (by simp [hpub])
        · have hp' := hdone.out P hP p hp
          rw [hout] at hp'
          exact ⟨hdone.free P hP p B b hp hrev hb hpub, _, hp', rfl, rfl⟩
    · exact ⟨fun hsees => sees_of_aborted h hpc hdone hsees,
        fun hsees => sees_aborted h hpc hdone hc hsees hkeep⟩

/-- The first thread makes the object 10, changes it in a second transaction and
commits, after its backup copy 11 was stolen through the stub 12. -/
def stolen_commit : List (Act 2 ℕ) :=
  [.allocate 0 10 5, .CommitTransaction 0, .AcquireLocks 0, .CommitPrivateFromProtected 0 2,
    .new_heads 0 [], .commit_done 0, .stub_malloc 10 12, .LocalizeProtected 0 10 11, .write 0 10 6,
    .stm_steal_stub 12 0, .CommitTransaction 0, .AcquireLocks 0, .AcquireLocks 0, .AcquireLocks 0]

theorem private_from_protected_stolen :
    ∃ s s' : State 2 ℕ, (s.threads 0).private_from_protected = [10] ∧ (11, 10) ∈ (s.threads 0).items
      ∧ step s (.CommitPrivateFromProtected 0 4) = .next s'
      ∧ (s'.threads 0).pc = .committed 4
      ∧ ∀ s₁, ReachableIf (· = s') step (fun s₂ _ => (s₂.threads 0).pc.past_locks = true) s₁ →
        (s₁.threads 0).pc = .chain_heads [] → ∃ p', s₁.heap 10 = some p' ∧ p'.content = 6 := by
  have hrun : (run step (fun _ _ => True) two_threads stolen_commit).test (fun s =>
      decide ((s.threads 0).pc = .acquired)
        && decide ((s.threads 0).private_from_protected = [10])
        && decide ((11, 10) ∈ (s.threads 0).items)
        && decide ((s.heap 10).map object.content = some 6)) = true := by decide +kernel
  obtain ⟨s, hs, htest⟩ := Outcome.of_test hrun
  rw [Bool.and_eq_true, Bool.and_eq_true, Bool.and_eq_true, decide_eq_true_eq, decide_eq_true_eq,
    decide_eq_true_eq, decide_eq_true_eq] at htest
  obtain ⟨⟨⟨hpc, hpfp⟩, hmem⟩, hcontent⟩ := htest
  have hreach : Reachable init step s := (ReachableIf.start init_two_threads).run stolen_commit hs
  obtain ⟨p, hp, hp6⟩ := Option.map_eq_some_iff.mp hcontent
  obtain ⟨s', hs', hpc', -, hend⟩ := (private_from_protected_all_or_nothing hreach 0).1 hpc 4
  refine ⟨s, s', hpfp, hmem, hs', hpc', fun s₁ hrun₁ hpc₁ => ?_⟩
  obtain ⟨-, hcurrent⟩ := hend s₁ hrun₁ (by rw [hpc₁]; rfl)
  obtain ⟨p', hp', hpc6, -⟩ := hcurrent hpc₁ 10 (by rw [hpfp]; simp) p hp
  exact ⟨p', hp', hpc6.trans hp6⟩

end Stmgc.C4
