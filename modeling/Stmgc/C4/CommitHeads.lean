/-
The end of a commit and of an abort keep the invariant of the commit protocol.

`CommitPrivateFromProtected` and `AbortPrivateFromProtected` are verified from
one description of what a prefix of their loop does, [`PfpDone`].
-/
import Stmgc.Lib.Loop
import Stmgc.C4.CommitLocks

open Stmgc.Lib

namespace Stmgc.C4

variable {n : ℕ} {Content : Type} {s s' : State n Content} {t : Fin n}

/-! ## The loop over `private_from_protected` -/

section Loop

variable (heap : Heap n Content) (out : object n Content → object n Content)

/-- The objects in `done` became what `out` says, and the backup copies that were
not stolen are free. -/
structure PfpDone (done : List gcptr) (h : Heap n Content) : Prop where
  out : ∀ P ∈ done, ∀ p, heap P = some p → h P = some (out p)
  free : ∀ P ∈ done, ∀ p B b, heap P = some p → p.h_revision = .pointer B → heap B = some b →
    b.GCFLAG_PUBLIC = false → h B = none
  same : ∀ q, q ∉ done → (∀ P ∈ done, ∀ p b, heap P = some p → p.h_revision = .pointer q →
    heap q = some b → b.GCFLAG_PUBLIC = true) → h q = heap q

/-- The backup copies are distinct, and no objects of the list. -/
structure PfpList (items : List gcptr) : Prop where
  nodup : items.Nodup
  mem : ∀ P ∈ items, ∃ p, heap P = some p ∧ p.GCFLAG_PRIVATE_FROM_PROTECTED = true
  not_mem : ∀ P ∈ items, ∀ p B b, heap P = some p → p.h_revision = .pointer B → heap B = some b →
    b.GCFLAG_PUBLIC = false → B ∉ items
  inj : ∀ P ∈ items, ∀ Q ∈ items, ∀ p q B b, heap P = some p → heap Q = some q →
    p.h_revision = .pointer B → q.h_revision = .pointer B → heap B = some b →
    b.GCFLAG_PUBLIC = false → P = Q

variable {heap out} {items done todo : List gcptr} {h : Heap n Content} {P : gcptr}
  {p : object n Content}

theorem pfpDone_nil : PfpDone heap out [] heap :=
  ⟨fun _ hP => absurd hP (by simp), fun _ hP => absurd hP (by simp), fun _ _ _ => rfl⟩

section Next

variable (hlist : PfpList heap items) (hsplit : items = done ++ P :: todo) (hd : PfpDone heap out done h)
  (hp : heap P = some p)
include hlist hsplit hd

/-- What the next iteration finds. -/
theorem PfpDone.head : h P = heap P := by
  have hmem : P ∈ items := by rw [hsplit]; simp
  have hnot : P ∉ done := by
    have hnodup := hlist.nodup
    rw [hsplit, List.nodup_append] at hnodup
    exact fun hP => hnodup.2.2 P hP P List.mem_cons_self rfl
  refine hd.same P hnot fun Q hQ q b hq hrev hb => ?_
  by_contra hpub
  refine hlist.not_mem Q (by rw [hsplit]; simp [hQ]) q P b hq hrev hb (by simpa using hpub) hmem

include hp

/-- The backup copy that it finds. -/
theorem PfpDone.backup {B : gcptr} {b : object n Content} (hrev : p.h_revision = .pointer B)
    (hb : heap B = some b) : h B = some b ∧ B ≠ P ∨ b.GCFLAG_PUBLIC = true := by
  by_cases hpub : b.GCFLAG_PUBLIC = true
  · exact Or.inr hpub
  · rw [Bool.not_eq_true] at hpub
    have hPmem : P ∈ items := by rw [hsplit]; simp
    have hB := hlist.not_mem P hPmem p B b hp hrev hb hpub
    have hnodup := hlist.nodup
    rw [hsplit, List.nodup_append] at hnodup
    refine Or.inl ⟨?_, fun heq => hB (heq ▸ hPmem)⟩
    rw [hd.same B (fun hmem => hB (by rw [hsplit]; simp [hmem])), hb]
    intro Q hQ q b₁ hq hqrev hb₁
    have hQP := hlist.inj Q (by rw [hsplit]; simp [hQ]) P hPmem q p B b hq hp hqrev hrev hb hpub
    exact absurd rfl (hnodup.2.2 P (hQP ▸ hQ) P List.mem_cons_self)

/-- An iteration that frees no backup copy. -/
theorem PfpDone.next (hkeep : ∀ B b, p.h_revision = .pointer B → heap B = some b →
    b.GCFLAG_PUBLIC = true) :
    PfpDone heap out (done ++ [P]) (Function.update h P (some (out p))) := by
  have hPmem : P ∈ items := by rw [hsplit]; simp
  have hnodup := hlist.nodup
  rw [hsplit, List.nodup_append] at hnodup
  have hnot : ∀ Q ∈ done, Q ≠ P := fun Q hQ heq => hnodup.2.2 Q hQ P List.mem_cons_self heq
  refine ⟨fun Q hQ q hq => ?_, fun Q hQ q B b hq hrev hb hpub => ?_, fun q hq hfree => ?_⟩
  · rcases List.mem_append.mp hQ with hQ | hQ
    · rw [Function.update_of_ne (hnot Q hQ)]
      exact hd.out Q hQ q hq
    · rw [List.mem_singleton] at hQ
      subst hQ
      rw [hp, Option.some.injEq] at hq
      rw [Function.update_self, hq]
  · rcases List.mem_append.mp hQ with hQ | hQ
    · have hB := hlist.not_mem Q (by rw [hsplit]; simp [hQ]) q B b hq hrev hb hpub
      rw [Function.update_of_ne (fun heq : B = P => hB (heq ▸ hPmem))]
      exact hd.free Q hQ q B b hq hrev hb hpub
    · rw [List.mem_singleton] at hQ
      subst hQ
      rw [hp, Option.some.injEq] at hq
      exact absurd (hkeep B b (hq ▸ hrev) hb) (by simp [hpub])
  · rw [List.mem_append, not_or, List.mem_singleton] at hq
    rw [Function.update_of_ne hq.2]
    exact hd.same q hq.1 fun Q hQ => hfree Q (List.mem_append_left _ hQ)

/-- An iteration that frees a backup copy. -/
theorem PfpDone.next_free {B : gcptr} {b : object n Content} (hrev : p.h_revision = .pointer B)
    (hb : heap B = some b) (hpub : b.GCFLAG_PUBLIC = false) :
    PfpDone heap out (done ++ [P])
      (Function.update (Function.update h P (some (out p))) B none) := by
  have hPmem : P ∈ items := by rw [hsplit]; simp
  have hnodup := hlist.nodup
  rw [hsplit, List.nodup_append] at hnodup
  have hnot : ∀ Q ∈ done, Q ≠ P := fun Q hQ heq => hnodup.2.2 Q hQ P List.mem_cons_self heq
  have hB := hlist.not_mem P hPmem p B b hp hrev hb hpub
  have hne : ∀ Q ∈ items, Q ≠ B := fun Q hQ heq => hB (heq ▸ hQ)
  refine ⟨fun Q hQ q hq => ?_, fun Q hQ q B' b' hq hrev' hb' hpub' => ?_, fun q hq hfree => ?_⟩
  · rcases List.mem_append.mp hQ with hQ | hQ
    · rw [Function.update_of_ne (hne Q (by rw [hsplit]; simp [hQ])),
        Function.update_of_ne (hnot Q hQ)]
      exact hd.out Q hQ q hq
    · rw [List.mem_singleton] at hQ
      subst hQ
      rw [hp, Option.some.injEq] at hq
      rw [Function.update_of_ne (hne Q hPmem), Function.update_self, hq]
  · by_cases hBB : B' = B
    · rw [hBB, Function.update_self]
    · rcases List.mem_append.mp hQ with hQ | hQ
      · have hB' := hlist.not_mem Q (by rw [hsplit]; simp [hQ]) q B' b' hq hrev' hb' hpub'
        rw [Function.update_of_ne hBB, Function.update_of_ne (fun heq : B' = P => hB' (heq ▸ hPmem))]
        exact hd.free Q hQ q B' b' hq hrev' hb' hpub'
      · rw [List.mem_singleton] at hQ
        subst hQ
        rw [hp, Option.some.injEq] at hq
        subst hq
        rw [hrev, revision_t.pointer.injEq] at hrev'
        exact absurd hrev'.symm hBB
  · rw [List.mem_append, not_or, List.mem_singleton] at hq
    have hqB : q ≠ B := by
      rintro rfl
      exact absurd (hfree P (List.mem_append_right _ (List.mem_singleton_self P)) p b hp hrev hb)
        (by simp [hpub])
    rw [Function.update_of_ne hqB, Function.update_of_ne hq.2]
    exact hd.same q hq.1 fun Q hQ => hfree Q (List.mem_append_left _ hQ)

end Next

/-! ### The two functions -/

/-- What a private object becomes at a commit. -/
def committed_object (new_revision : ℤ) (p : object n Content) : object n Content :=
  { p with
    GCFLAG_PRIVATE_FROM_PROTECTED := false
    h_revision := if IS_POINTER p.h_revision then .number new_revision else p.h_revision }

/-- What it becomes at an abort. -/
def aborted_object (heap : Heap n Content) (p : object n Content) : object n Content :=
  match p.h_revision with
  | .pointer B =>
      match heap B with
      | some b =>
          if b.GCFLAG_PUBLIC then
            { p with
              GCFLAG_PRIVATE_FROM_PROTECTED := false, GCFLAG_PUBLIC := true
              GCFLAG_MOVED := p.GCFLAG_MOVED || !p.GCFLAG_OLD }
          else
            { p with
              GCFLAG_PRIVATE_FROM_PROTECTED := false
              h_revision := b.h_revision, content := b.content }
      | none => p
  | _ => p

theorem wp_load {Q : object n Content → Heap n Content → Prop} {R : Heap n Content → Prop}
    {q : gcptr} {x : object n Content} (hx : h q = some x) :
    Exec.wp (load q) Q R h ↔ Q x h := by
  unfold Exec.wp load
  rw [hx]

theorem wp_store {Q : Unit → Heap n Content → Prop} {R : Heap n Content → Prop} {q : gcptr}
    {o : Option (object n Content)} :
    Exec.wp (store q o) Q R h ↔ Q () (Function.update h q o) := Iff.rfl

/-- `CommitPrivateFromProtected` does not abort where no backup copy was stolen but
those of objects whose revision is saved. -/
theorem commit_private_from_protected_spec {prv new_revision : ℤ} (hlist : PfpList heap items)
    (hcase : ∀ P ∈ items, ∀ p, heap P = some p → (∃ v, p.h_revision = .number v ∧ v ≠ prv)
      ∨ ∃ B b, p.h_revision = .pointer B ∧ heap B = some b ∧ b.GCFLAG_PUBLIC = false) :
    Exec.wp (CommitPrivateFromProtected prv new_revision items)
      (fun _ h => PfpDone heap (committed_object new_revision) items h) (fun _ => False) heap := by
  refine (Exec.wp_forEach (fun todo h => ∃ done, items = done ++ todo
    ∧ PfpDone heap (committed_object new_revision) done h) ?_ ⟨[], rfl, pfpDone_nil⟩).mono ?_
    (fun _ h => h)
  · rintro P todo h ⟨done, hsplit, hd⟩
    have hmem : P ∈ items := by rw [hsplit]; simp
    obtain ⟨p, hp, hflag⟩ := hlist.mem P hmem
    have hhP : h P = some p := (hd.head hlist hsplit).trans hp
    rw [Exec.wp_bind, wp_load hhP, Exec.wp_bind, Exec.wp_assert, Exec.wp_bind, wp_store]
    refine ⟨hflag, ?_⟩
    rcases hcase P hmem p hp with ⟨v, hv, hne⟩ | ⟨B, b, hrev, hb, hpub⟩
    · have hnext := hd.next hlist hsplit hp (fun B b hB => absurd hB (by simp [hv]))
      rw [hv]
      dsimp only
      rw [Exec.wp_assert]
      refine ⟨fun heq => hne (revision_t.number.inj heq), done ++ [P],
        by rw [List.append_assoc]; exact hsplit, ?_⟩
      rw [committed_object, hv] at hnext
      exact hnext
    · have hnext := hd.next_free hlist hsplit hp hrev hb hpub
      rcases hd.backup hlist hsplit hp hrev hb with ⟨hhB, hne⟩ | hnot
      · have hload : ∀ o o' : Option (object n Content),
            Function.update (Function.update h P o) P o' B = some b := by
          intro o o'
          rw [Function.update_of_ne hne, Function.update_of_ne hne, hhB]
        rw [hrev]
        dsimp only
        rw [Exec.wp_bind, wp_store, Exec.wp_bind, wp_load (hload _ _), if_neg (by simp [hpub]),
          wp_store]
        refine ⟨done ++ [P], by rw [List.append_assoc]; exact hsplit, ?_⟩
        rw [Function.update_idem]
        rw [committed_object, hrev] at hnext
        exact hnext
      · exact absurd hnot (by simp [hpub])
  · rintro - h ⟨done, hsplit, hd⟩
    rw [List.append_nil] at hsplit
    exact hsplit ▸ hd

/-- `AbortPrivateFromProtected` fails no assertion. -/
theorem abort_private_from_protected_spec (hlist : PfpList heap items)
    (hcase : ∀ P ∈ items, ∀ p, heap P = some p → ∃ B b, p.h_revision = .pointer B ∧ heap B = some b
      ∧ b.GCFLAG_OLD = true ∧ b.GCFLAG_BACKUP_COPY = !b.GCFLAG_PUBLIC)
    (hpublic : ∀ P ∈ items, ∀ b, heap P = some b → b.GCFLAG_PUBLIC = false) :
    Exec.wp (AbortPrivateFromProtected items)
      (fun _ h => PfpDone heap (aborted_object heap) items h) (fun _ => False) heap := by
  refine (Exec.wp_forEach (fun todo h => ∃ done, items = done ++ todo
    ∧ PfpDone heap (aborted_object heap) done h) ?_ ⟨[], rfl, pfpDone_nil⟩).mono ?_ (fun _ h => h)
  · rintro P todo h ⟨done, hsplit, hd⟩
    have hmem : P ∈ items := by rw [hsplit]; simp
    obtain ⟨p, hp, hflag⟩ := hlist.mem P hmem
    obtain ⟨B, b, hrev, hb, hold, hback⟩ := hcase P hmem p hp
    have hhP : h P = some p := (hd.head hlist hsplit).trans hp
    rw [Exec.wp_bind, wp_load hhP, Exec.wp_bind, Exec.wp_assert]
    refine ⟨hflag, ?_⟩
    rw [hrev]
    dsimp only
    have hout : aborted_object heap p = if b.GCFLAG_PUBLIC then { p with
        GCFLAG_PRIVATE_FROM_PROTECTED := false, GCFLAG_PUBLIC := true
        GCFLAG_MOVED := p.GCFLAG_MOVED || !p.GCFLAG_OLD }
        else { p with
          GCFLAG_PRIVATE_FROM_PROTECTED := false
          h_revision := b.h_revision, content := b.content } := by
      rw [aborted_object, hrev]
      dsimp only
      rw [hb]
    by_cases hpub : b.GCFLAG_PUBLIC = true
    · have hhB : h B = some b := by
        rw [hd.same B, hb]
        · intro hB
          exact absurd (hpublic B (by rw [hsplit]; simp [hB]) b hb) (by simp [hpub])
        · intro Q hQ q b₁ hq hqrev hb₁
          rw [hb, Option.some.injEq] at hb₁
          exact hb₁ ▸ hpub
      have hnext := hd.next hlist hsplit hp (fun B' b' hB' hb' => by
        rw [hrev, revision_t.pointer.injEq] at hB'
        rw [← hB', hb, Option.some.injEq] at hb'
        exact hb' ▸ hpub)
      rw [Exec.wp_bind, wp_load hhB, Exec.wp_bind, Exec.wp_assert, if_pos hpub, Exec.wp_bind,
        Exec.wp_assert, wp_store]
      refine ⟨hold, by rw [hback, hpub]; rfl, done ++ [P],
        by rw [List.append_assoc]; exact hsplit, ?_⟩
      rw [hout, if_pos hpub, hrev] at hnext
      exact hnext
    · have hpub' := hpub
      rw [Bool.not_eq_true] at hpub'
      rcases hd.backup hlist hsplit hp hrev hb with ⟨hhB, hne⟩ | hnot
      · have hnext := hd.next_free hlist hsplit hp hrev hb hpub'
        rw [Exec.wp_bind, wp_load hhB, Exec.wp_bind, Exec.wp_assert, if_neg hpub, Exec.wp_bind,
          Exec.wp_assert, Exec.wp_bind, wp_store, wp_store]
        refine ⟨hold, by rw [hback, hpub']; rfl, done ++ [P],
          by rw [List.append_assoc]; exact hsplit, ?_⟩
        rw [hout, if_neg hpub] at hnext
        exact hnext
      · exact absurd hnot hpub
  · rintro - h ⟨done, hsplit, hd⟩
    rw [List.append_nil] at hsplit
    exact hsplit ▸ hd

/-- What the loop did to any object. -/
theorem PfpDone.cases (hlist : PfpList heap items) (hd : PfpDone heap out items h) (q : gcptr) :
    (q ∈ items ∧ ∃ p, heap q = some p ∧ h q = some (out p))
      ∨ (q ∉ items ∧ h q = none ∧ ∃ P ∈ items, ∃ p b, heap P = some p ∧ p.h_revision = .pointer q
        ∧ heap q = some b ∧ b.GCFLAG_PUBLIC = false)
      ∨ (q ∉ items ∧ h q = heap q) := by
  by_cases hq : q ∈ items
  · obtain ⟨p, hp, -⟩ := hlist.mem q hq
    exact Or.inl ⟨hq, p, hp, hd.out q hq p hp⟩
  · by_cases hfree : ∃ P ∈ items, ∃ p b, heap P = some p ∧ p.h_revision = .pointer q
        ∧ heap q = some b ∧ b.GCFLAG_PUBLIC = false
    · obtain ⟨P, hP, p, b, hp, hrev, hb, hpub⟩ := hfree
      exact Or.inr (Or.inl ⟨hq, hd.free P hP p q b hp hrev hb hpub, P, hP, p, b, hp, hrev, hb, hpub⟩)
    · refine Or.inr (Or.inr ⟨hq, hd.same q hq fun P hP p b hp hrev hb => ?_⟩)
      by_contra hpub
      exact hfree ⟨P, hP, p, b, hp, hrev, hb, by simpa using hpub⟩

end Loop

/-! ## The invariant after the loop -/

section Done

variable {out : object n Content → object n Content} {heap' : Heap n Content}

/-- The backup copies that are not public are the thread's own. -/
def OwnBackups (s : State n Content) (t : Fin n) : Prop :=
  ∀ P ∈ (s.threads t).private_from_protected, ∀ p B b, s.heap P = some p →
    p.h_revision = .pointer B → s.heap B = some b → b.GCFLAG_PUBLIC = false →
    (∀ R, (R, P) ∉ (s.threads t).items) ∧ b.GCFLAG_BACKUP_COPY = true ∧ b.thread = t

theorem Inv.pfp_list (h : Inv s) (hown : OwnBackups s t) :
    PfpList s.heap (s.threads t).private_from_protected := by
  have hd := h.thread t
  refine ⟨hd.pfp_nodup, fun P hP => ?_, fun P hP p B b hp hrev hb hpub hB => ?_,
    fun P hP Q hQ p q B b hp hq hprev hqrev hb hpub => ?_⟩
  · obtain ⟨p, hp, hflag, -⟩ := (hd.pfp P).mp hP
    exact ⟨p, hp, hflag⟩
  · obtain ⟨b₁, hb₁, hflag, -⟩ := (hd.pfp B).mp hB
    rw [hb, Option.some.injEq] at hb₁
    exact absurd (hown P hP p B b hp hrev hb hpub).2.1
      (by simp [((h.shape _ _ hb).pfp (hb₁ ▸ hflag)).2])
  · exact hd.backup_inj P p Q q B hP hQ (hown P hP p B b hp hprev hb hpub).1
      (hown Q hQ q B b hq hqrev hb hpub).1 hp hq hprev hqrev

/-- What the loop makes of the objects keeps them well formed. -/
structure GoodOut (s : State n Content) (t : Fin n) (out : object n Content → object n Content) :
    Prop where
  shape : ∀ P ∈ (s.threads t).private_from_protected, ∀ p, s.heap P = some p → Shape (out p)
  thread : ∀ p, (out p).thread = p.thread
  BACKUP_COPY : ∀ p, (out p).GCFLAG_BACKUP_COPY = p.GCFLAG_BACKUP_COPY
  pfp : ∀ P ∈ (s.threads t).private_from_protected, ∀ p, s.heap P = some p →
    (out p).GCFLAG_PRIVATE_FROM_PROTECTED = false
  locked : ∀ P ∈ (s.threads t).private_from_protected, ∀ p, s.heap P = some p →
    ∀ u, (out p).h_revision ≠ .locked u
  stub : ∀ P ∈ (s.threads t).private_from_protected, ∀ p, s.heap P = some p →
    ∀ L, (out p).h_revision ≠ .stub L

variable (h : Inv s) (hown : OwnBackups s t) (hout : GoodOut s t out)
  (hdone : PfpDone s.heap out (s.threads t).private_from_protected heap')
include h hown hdone

/-- What is public stays. -/
theorem Inv.pfp_done_public {q : gcptr} {x : object n Content} (hx : s.heap q = some x)
    (hpub : x.GCFLAG_PUBLIC = true) : heap' q = some x := by
  rcases hdone.cases (h.pfp_list hown) q with ⟨hq, -⟩ | ⟨-, -, P, hP, p, b, hp, hrev, hb, hbpub⟩ | ⟨-, hq⟩
  · obtain ⟨x₁, hx₁, hflag, -⟩ := ((h.thread t).pfp q).mp hq
    rw [hx, Option.some.injEq] at hx₁
    exact absurd ((h.shape q x hx).pfp (hx₁ ▸ hflag)).1 (by simp [hpub])
  · rw [hx, Option.some.injEq] at hb
    exact absurd hbpub (by simp [← hb, hpub])
  · rw [hq, hx]

/-- What is no backup copy is not freed. -/
theorem Inv.pfp_done_some {q : gcptr} {x : object n Content} (hx : s.heap q = some x)
    (hback : x.GCFLAG_BACKUP_COPY = false) :
    (q ∈ (s.threads t).private_from_protected ∧ heap' q = some (out x))
      ∨ (q ∉ (s.threads t).private_from_protected ∧ heap' q = some x) := by
  rcases hdone.cases (h.pfp_list hown) q with ⟨hq, p, hp, hh⟩ | ⟨-, -, P, hP, p, b, hp, hrev, hb, hbpub⟩
    | ⟨hq, hh⟩
  · rw [hx, Option.some.injEq] at hp
    exact Or.inl ⟨hq, hp ▸ hh⟩
  · rw [hx, Option.some.injEq] at hb
    exact absurd (hown P hP p q b hp hrev (hb ▸ hx) hbpub).2.1 (by simp [← hb, hback])
  · exact Or.inr ⟨hq, hh.trans hx⟩

omit hdone in
/-- What there is after the loop was there before. -/
theorem Inv.pfp_done_of_some (hdone : PfpDone s.heap out (s.threads t).private_from_protected heap')
    {q : gcptr} {x' : object n Content} (hx' : heap' q = some x') :
    (q ∈ (s.threads t).private_from_protected ∧ ∃ p, s.heap q = some p ∧ x' = out p)
      ∨ (q ∉ (s.threads t).private_from_protected ∧ s.heap q = some x') := by
  rcases hdone.cases (h.pfp_list hown) q with ⟨hq, p, hp, hh⟩ | ⟨-, hnone, -⟩ | ⟨hq, hh⟩
  · rw [hx', Option.some.injEq] at hh
    exact Or.inl ⟨hq, p, hp, hh⟩
  · exact absurd hx' (by simp [hnone])
  · exact Or.inr ⟨hq, hh ▸ hx'⟩

include hout

/-- The loop keeps the invariant of the other threads. -/
theorem Inv.pfp_done {d : tx_descriptor n} (hd : ThreadInv heap' t d)
    (hitems : d.pc.past_locks = true ∨ d.items = []) :
    Inv ({ s with heap := heap' }.set_thread t d) := by
  refine h.of_parts (fun p x' hx' => ?_) ?_ (fun S x' L hx' hrev => Or.inl ?_) (fun u => ?_)
  · rcases h.pfp_done_of_some hown hdone hx' with ⟨hp, x, hx, rfl⟩ | ⟨-, hx⟩
    · exact Or.inr (hout.shape p hp x hx)
    · exact Or.inl hx
  · rintro _ x₀ L - - ⟨l, hl, hthread, hback, hcase⟩
    have hcase' : ∀ l' : object n Content, (x₀.thread ≠ t → l' = l) →
        (({ s with heap := heap' }.set_thread t d).threads x₀.thread).pc.past_locks = true
        ∨ l'.GCFLAG_PUBLIC = true ∨ l'.GCFLAG_PRIVATE_FROM_PROTECTED = true
        ∨ ∀ R, (R, L) ∉ (({ s with heap := heap' }.set_thread t d).threads x₀.thread).items := by
      intro l' hl'
      by_cases hu : x₀.thread = t
      · rw [hu, State.set_thread_self]
        exact hitems.imp_right fun hnil => Or.inr (Or.inr (by simp [hnil]))
      · rw [State.set_thread_of_ne hu, hl' hu]
        exact hcase
    rcases h.pfp_done_some hown hdone hl hback with ⟨hL, hh⟩ | ⟨-, hh⟩
    · refine ⟨out l, hh, (hout.thread l).trans hthread, (hout.BACKUP_COPY l).trans hback,
        hcase' _ fun hu => ?_⟩
      obtain ⟨l₁, hl₁, -, hlt⟩ := ((h.thread t).pfp L).mp hL
      rw [hl, Option.some.injEq] at hl₁
      exact absurd (hthread.symm.trans (hl₁ ▸ hlt)) hu
    · exact ⟨l, hh, hthread, hback, hcase' l fun _ => rfl⟩
  · rcases h.pfp_done_of_some hown hdone hx' with ⟨hS, x, hx, rfl⟩ | ⟨-, hx⟩
    · exact absurd hrev (hout.stub S hS x hx L)
    · exact ⟨x', hx, hrev, rfl⟩
  · by_cases hu : u = t
    · subst hu
      rw [State.set_thread_self]
      exact hd
    · rw [State.set_thread_of_ne hu]
      refine (h.thread u).frame (fun q => ?_) h.shape
      show FrameAt u _ q (s.heap q) (heap' q)
      rcases hdone.cases (h.pfp_list hown) q with ⟨hq, p, hp, hh⟩
        | ⟨-, hnone, P, hP, p, b, hp, hrev, hb, hbpub⟩ | ⟨-, hh⟩
      · obtain ⟨p₁, hp₁, hflag, hthread⟩ := ((h.thread t).pfp q).mp hq
        rw [hp, Option.some.injEq] at hp₁
        subst hp₁
        rw [hp, hh]
        refine .other ((h.shape q p hp).pfp hflag).1 (Or.inl (hthread ▸ Ne.symm hu)) ?_
        intro x' hx'
        rw [Option.some.injEq] at hx'
        subst hx'
        exact ⟨hout.locked q hq p hp u, fun hnot => absurd hnot (by simp [hout.pfp q hq p hp])⟩
      · rw [hb, hnone]
        refine .other hbpub (Or.inl ?_) (fun x' hx' => absurd hx' (by simp))
        exact (hown P hP p q b hp hrev hb hbpub).2.2 ▸ Ne.symm hu
      · rw [hh]
        exact .refl

end Done

/-! ## `CommitPrivateFromProtected` -/

section Commit

variable (h : Inv s)
include h

theorem Inv.acquired_locked (hpc : (s.threads t).pc = .acquired) :
    ∀ x ∈ (s.threads t).items, Locked s.heap t (s.threads t) x := by
  have hlocks := (h.thread t).locks
  rwa [hpc] at hlocks

/-- Once the locks are taken, a private object has a saved revision, or its own
backup copy. -/
theorem Inv.acquired_pfp (hpc : (s.threads t).pc = .acquired) {P : gcptr} {p : object n Content}
    (hP : P ∈ (s.threads t).private_from_protected) (hp : s.heap P = some p) :
    (∃ R v, (R, P) ∈ (s.threads t).items ∧ p.h_revision = .number v
        ∧ v ≠ (s.threads t).stm_private_rev_num)
      ∨ (∀ R, (R, P) ∉ (s.threads t).items) ∧ ∃ B b, p.h_revision = .pointer B
        ∧ s.heap B = some b ∧ b.GCFLAG_BACKUP_COPY = true ∧ b.thread = t := by
  have hd := h.thread t
  by_cases hval : ∀ R, (R, P) ∉ (s.threads t).items
  · obtain ⟨p₁, B, b, hp₁, hrev, hb, -, hcase⟩ := hd.backup P hP hval
    rw [hp, Option.some.injEq] at hp₁
    subst hp₁
    have hstolen := hd.normalized (by rw [hpc]; rfl)
    rcases hcase with hback | hmem
    · exact Or.inr ⟨hval, B, b, hrev, hb, hback⟩
    · exact absurd hmem (by simp [hstolen])
  · rw [not_forall] at hval
    obtain ⟨R, hmem⟩ := hval
    rw [not_not] at hmem
    obtain ⟨r, l, v, -, hl, -, hv, hne⟩ := h.acquired_locked hpc _ hmem
    rw [hp, Option.some.injEq] at hl
    subst hl
    exact Or.inl ⟨R, v, hmem, hv, hne⟩

theorem Inv.acquired_backups (hpc : (s.threads t).pc = .acquired) : OwnBackups s t := by
  intro P hP p B b hp hrev hb hpub
  rcases h.acquired_pfp hpc hP hp with ⟨R, v, -, hv, -⟩ | ⟨hval, B₁, b₁, hrev₁, hb₁, hback⟩
  · exact absurd hv (by simp [hrev])
  · rw [hrev, revision_t.pointer.injEq] at hrev₁
    subst hrev₁
    rw [hb, Option.some.injEq] at hb₁
    subst hb₁
    exact ⟨hval, hback⟩

/-- `CommitPrivateFromProtected` neither aborts nor fails an assertion. -/
theorem Inv.commit_private_from_protected (hpc : (s.threads t).pc = .acquired) (cur_time : ℤ) :
    ∃ heap', CommitPrivateFromProtected (s.threads t).stm_private_rev_num (cur_time + 1)
        (s.threads t).private_from_protected s.heap = .ret () heap'
      ∧ PfpDone s.heap (committed_object (cur_time + 1)) (s.threads t).private_from_protected
        heap' := by
  have hspec := @commit_private_from_protected_spec _ _ _ _ (s.threads t).stm_private_rev_num
    (cur_time + 1) (h.pfp_list (h.acquired_backups hpc)) (fun P hP p hp => ?_)
  · rw [Exec.wp] at hspec
    cases hrun : CommitPrivateFromProtected (s.threads t).stm_private_rev_num (cur_time + 1)
        (s.threads t).private_from_protected s.heap with
    | ret _ heap' =>
        rw [hrun] at hspec
        exact ⟨heap', rfl, hspec⟩
    | leave heap' =>
        rw [hrun] at hspec
        exact absurd hspec id
    | fault =>
        rw [hrun] at hspec
        exact absurd hspec id
  · rcases h.acquired_pfp hpc hP hp with ⟨R, v, -, hv⟩ | ⟨-, B, b, hrev, hb, hback, -⟩
    · exact Or.inl ⟨v, hv⟩
    · exact Or.inr ⟨B, b, hrev, hb, (h.shape B b hb).backup hback⟩

theorem Inv.committed_good (hpc : (s.threads t).pc = .acquired) (new_revision : ℤ) :
    GoodOut s t (committed_object new_revision) := by
  have hnumber : ∀ P ∈ (s.threads t).private_from_protected, ∀ p, s.heap P = some p →
      ∃ v, (committed_object new_revision p).h_revision = .number v := by
    intro P hP p hp
    rcases h.acquired_pfp hpc hP hp with ⟨R, v, -, hv, -⟩ | ⟨-, B, b, hrev, -⟩
    · exact ⟨v, by rw [committed_object, hv]; rfl⟩
    · exact ⟨new_revision, by rw [committed_object, hrev]; rfl⟩
  refine ⟨fun P hP p hp => ?_, fun _ => rfl, fun _ => rfl, fun _ _ _ _ => rfl,
    fun P hP p hp u hu => ?_, fun P hP p hp L hL => ?_⟩
  · obtain ⟨p₁, hp₁, hflag, -⟩ := ((h.thread t).pfp P).mp hP
    rw [hp, Option.some.injEq] at hp₁
    subst hp₁
    obtain ⟨v, hv⟩ := hnumber P hP p hp
    exact .of_number ((h.shape P p hp).pfp hflag).1 hv (fun _ => ((h.shape P p hp).pfp hflag).2)
  · obtain ⟨v, hv⟩ := hnumber P hP p hp
    exact absurd hu (by simp [hv])
  · obtain ⟨v, hv⟩ := hnumber P hP p hp
    exact absurd hL (by simp [hv])

/-- What follows for the thread from the loop: only locked objects are left. -/
theorem Inv.committed_thread {heap' : Heap n Content} {cur_time : ℤ}
    (hpc : (s.threads t).pc = .acquired)
    (hdone : PfpDone s.heap (committed_object (cur_time + 1)) (s.threads t).private_from_protected
      heap') :
    ThreadInv heap' t
      { s.threads t with private_from_protected := [], pc := .committed cur_time } := by
  have hd := h.thread t
  have hown := h.acquired_backups hpc
  have hstolen := hd.normalized (by rw [hpc]; rfl)
  refine ⟨fun x hx => ?_, hd.val_inj, List.nodup_nil, fun P => ?_,
    fun _ hP => absurd hP List.not_mem_nil, fun _ _ _ _ _ hP => absurd hP List.not_mem_nil,
    fun x hx => ?_, hd.stolen_nodup, fun _ => hstolen, fun R r hr hrev => ?_, rfl, fun x hx => ?_⟩
  · obtain ⟨r, l, hr, hl, hpub, hold, hlpub, hlback, hlt⟩ := hd.item x hx
    have hr' := h.pfp_done_public hown hdone hr hpub
    rcases h.pfp_done_some hown hdone hl hlback with ⟨-, hl'⟩ | ⟨-, hl'⟩
    · exact ⟨r, _, hr', hl', hpub, hold, hlpub, hlback, hlt⟩
    · exact ⟨r, l, hr', hl', hpub, hold, hlpub, hlback, hlt⟩
  · constructor
    · exact fun hP => absurd hP List.not_mem_nil
    · rintro ⟨p', hp', hflag, hthread⟩
      rcases h.pfp_done_of_some hown hdone hp' with ⟨-, p, -, rfl⟩ | ⟨hP, hp⟩
      · exact absurd hflag (by simp [committed_object])
      · exact absurd ((hd.pfp P).mpr ⟨p', hp, hflag, hthread⟩) hP
  · exact absurd hx (by simp [hstolen])
  · rcases h.pfp_done_of_some hown hdone hr with ⟨hR, p, hp, rfl⟩ | ⟨-, hR⟩
    · exact absurd hrev ((h.committed_good hpc (cur_time + 1)).locked R hR p hp t)
    · exact hd.own R r hR hrev
  · obtain ⟨r, l, v, hr, hl, hrev, hv, hne⟩ := h.acquired_locked hpc x hx
    obtain ⟨r₁, l₁, hr₁, hl₁, hpub, -, -, hlback, -⟩ := hd.item x hx
    rw [hr, Option.some.injEq] at hr₁
    rw [hl, Option.some.injEq] at hl₁
    subst hr₁ hl₁
    have hr' := h.pfp_done_public hown hdone hr hpub
    rcases h.pfp_done_some hown hdone hl hlback with ⟨-, hl'⟩ | ⟨-, hl'⟩
    · exact ⟨r, _, v, hr', hl', hrev, by rw [committed_object, hv]; rfl, hne⟩
    · exact ⟨r, l, v, hr', hl', hrev, hv, hne⟩

theorem Inv.CommitPrivateFromProtected {cur_time : ℤ}
    (hs : step s (.CommitPrivateFromProtected t cur_time) = .next s') : Inv s' := by
  rw [step, guarded_eq_next] at hs
  obtain ⟨hpc, hs⟩ := hs
  obtain ⟨heap', hrun, hdone⟩ := h.commit_private_from_protected hpc cur_time
  rw [hrun] at hs
  dsimp only at hs
  rw [Outcome.next.injEq] at hs
  rw [← hs]
  exact h.pfp_done (h.acquired_backups hpc) (h.committed_good hpc _) hdone
    (h.committed_thread hpc hdone) (Or.inl rfl)

end Commit

/-! ## `AbortPrivateFromProtected` -/

section Abort

variable (h : Inv s)
include h

theorem Inv.aborting_unlocked (hpc : (s.threads t).pc = .aborting) :
    ∀ x ∈ (s.threads t).items, Unlocked s.heap t (s.threads t) x := by
  have hlocks := (h.thread t).locks
  rwa [hpc] at hlocks

/-- At an abort, a private object leads to its public version or to its own
backup copy. -/
theorem Inv.aborting_pfp (hpc : (s.threads t).pc = .aborting) {P : gcptr} {p : object n Content}
    (hP : P ∈ (s.threads t).private_from_protected) (hp : s.heap P = some p) :
    ∃ B b, p.h_revision = .pointer B ∧ s.heap B = some b ∧ b.GCFLAG_OLD = true
      ∧ ((B, P) ∈ (s.threads t).items ∧ b.GCFLAG_PUBLIC = true
        ∨ (∀ R, (R, P) ∉ (s.threads t).items) ∧ b.GCFLAG_BACKUP_COPY = true ∧ b.thread = t) := by
  have hd := h.thread t
  obtain ⟨B, b, hrev, hb, hold, hcase⟩ := hd.pfp_target (h.aborting_unlocked hpc) hP hp
  refine ⟨B, b, hrev, hb, hold, ?_⟩
  rcases hcase with hitem | hback | ⟨-, hmem⟩
  · exact Or.inl hitem
  · exact Or.inr hback
  · exact absurd hmem (by simp [hd.normalized (by rw [hpc]; rfl)])

theorem Inv.aborting_backups (hpc : (s.threads t).pc = .aborting) : OwnBackups s t := by
  intro P hP p B b hp hrev hb hpub
  obtain ⟨B₁, b₁, hrev₁, hb₁, -, hcase⟩ := h.aborting_pfp hpc hP hp
  rw [hrev, revision_t.pointer.injEq] at hrev₁
  subst hrev₁
  rw [hb, Option.some.injEq] at hb₁
  subst hb₁
  rcases hcase with ⟨-, hnot⟩ | hback
  · exact absurd hnot (by simp [hpub])
  · exact hback

/-- `AbortPrivateFromProtected` fails no assertion. -/
theorem Inv.abort_private_from_protected (hpc : (s.threads t).pc = .aborting) :
    ∃ heap', AbortPrivateFromProtected (s.threads t).private_from_protected s.heap = .ret () heap'
      ∧ PfpDone s.heap (aborted_object s.heap) (s.threads t).private_from_protected heap' := by
  have hspec := abort_private_from_protected_spec (h.pfp_list (h.aborting_backups hpc))
    (fun P hP p hp => ?_) (fun P hP b hb => ?_)
  · rw [Exec.wp] at hspec
    cases hrun : AbortPrivateFromProtected (s.threads t).private_from_protected s.heap with
    | ret _ heap' =>
        rw [hrun] at hspec
        exact ⟨heap', rfl, hspec⟩
    | leave heap' =>
        rw [hrun] at hspec
        exact absurd hspec id
    | fault =>
        rw [hrun] at hspec
        exact absurd hspec id
  · obtain ⟨B, b, hrev, hb, hold, hcase⟩ := h.aborting_pfp hpc hP hp
    refine ⟨B, b, hrev, hb, hold, ?_⟩
    rcases hcase with ⟨-, hpub⟩ | ⟨-, hback, -⟩
    · rw [(h.shape B b hb).backup_eq_false hpub, hpub]
      rfl
    · rw [hback, (h.shape B b hb).backup hback]
      rfl
  · obtain ⟨p, hp, hflag, -⟩ := ((h.thread t).pfp P).mp hP
    rw [hb, Option.some.injEq] at hp
    exact ((h.shape P b hb).pfp (hp ▸ hflag)).1

/-- What the loop made of an object: a public outdated one, or what it was before. -/
theorem Inv.aborted_object_cases (hpc : (s.threads t).pc = .aborting) {P : gcptr}
    {p : object n Content} (hP : P ∈ (s.threads t).private_from_protected) (hp : s.heap P = some p) :
    ∃ B b, p.h_revision = .pointer B ∧ s.heap B = some b
      ∧ (b.GCFLAG_PUBLIC = true ∧ aborted_object s.heap p = { p with
          GCFLAG_PRIVATE_FROM_PROTECTED := false, GCFLAG_PUBLIC := true
          GCFLAG_MOVED := p.GCFLAG_MOVED || !p.GCFLAG_OLD }
        ∨ (b.GCFLAG_PUBLIC = false ∧ b.GCFLAG_BACKUP_COPY = true) ∧ (∃ v, b.h_revision = .number v)
          ∧ aborted_object s.heap p = { p with
            GCFLAG_PRIVATE_FROM_PROTECTED := false
            h_revision := b.h_revision, content := b.content }) := by
  obtain ⟨B, b, hrev, hb, -, hcase⟩ := h.aborting_pfp hpc hP hp
  have hshape := h.shape B b hb
  refine ⟨B, b, hrev, hb, ?_⟩
  rw [aborted_object, hrev]
  dsimp only
  rw [hb]
  rcases hcase with ⟨-, hpub⟩ | ⟨-, hback, -⟩
  · exact Or.inl ⟨hpub, by dsimp only; rw [if_pos hpub]⟩
  · have hpub := hshape.backup hback
    refine Or.inr ⟨⟨hpub, hback⟩, hshape.number hpub ?_, by dsimp only; rw [if_neg (by simp [hpub])]⟩
    by_contra hflag
    exact absurd (hshape.pfp (by simpa using hflag)).2 (by simp [hback])

theorem Inv.aborted_good (hpc : (s.threads t).pc = .aborting) :
    GoodOut s t (aborted_object s.heap) := by
  have hpfp : ∀ P ∈ (s.threads t).private_from_protected, ∀ p, s.heap P = some p →
      p.GCFLAG_PUBLIC = false ∧ p.GCFLAG_BACKUP_COPY = false := by
    intro P hP p hp
    obtain ⟨p₁, hp₁, hflag, -⟩ := ((h.thread t).pfp P).mp hP
    rw [hp, Option.some.injEq] at hp₁
    exact (h.shape P p hp).pfp (hp₁ ▸ hflag)
  have hsame : ∀ p : object n Content, (aborted_object s.heap p).thread = p.thread
      ∧ (aborted_object s.heap p).GCFLAG_BACKUP_COPY = p.GCFLAG_BACKUP_COPY := by
    intro p
    rw [aborted_object]
    split
    · split
      · split_ifs
        · exact ⟨rfl, rfl⟩
        · exact ⟨rfl, rfl⟩
      · exact ⟨rfl, rfl⟩
    · exact ⟨rfl, rfl⟩
  refine ⟨fun P hP p hp => ?_, fun p => (hsame p).1, fun p => (hsame p).2, fun P hP p hp => ?_,
    fun P hP p hp u => ?_, fun P hP p hp L => ?_⟩
  · obtain ⟨B, b, hrev, hb, ⟨-, hout⟩ | ⟨-, ⟨v, hv⟩, hout⟩⟩ := h.aborted_object_cases hpc hP hp
    · rw [hout]
      exact .of_public rfl rfl (hpfp P hP p hp).2
    · rw [hout]
      exact .of_number (hpfp P hP p hp).1 hv nofun
  · obtain ⟨B, b, -, -, ⟨-, hout⟩ | ⟨-, -, hout⟩⟩ := h.aborted_object_cases hpc hP hp
    · rw [hout]
    · rw [hout]
  · obtain ⟨B, b, hrev, -, ⟨-, hout⟩ | ⟨-, ⟨v, hv⟩, hout⟩⟩ := h.aborted_object_cases hpc hP hp
    · simp [hout, hrev]
    · simp [hout, hv]
  · obtain ⟨B, b, hrev, -, ⟨-, hout⟩ | ⟨-, ⟨v, hv⟩, hout⟩⟩ := h.aborted_object_cases hpc hP hp
    · simp [hout, hrev]
    · simp [hout, hv]

theorem Inv.aborted_thread {heap' : Heap n Content} (hpc : (s.threads t).pc = .aborting)
    (hdone : PfpDone s.heap (aborted_object s.heap) (s.threads t).private_from_protected heap') :
    ThreadInv heap' t { s.threads t with
      private_from_protected := [], public_to_private := G2L.g2l_clear, pc := .running } := by
  have hd := h.thread t
  have hown := h.aborting_backups hpc
  have hstolen := hd.normalized (by rw [hpc]; rfl)
  have hnil : ∀ x, x ∉ G2L.g2l_clear.loop_forward := by simp [G2L.loop_forward_g2l_clear]
  refine ⟨fun x hx => absurd hx (hnil x), fun x hx => absurd hx (hnil x), List.nodup_nil, fun P => ?_,
    fun _ hP => absurd hP List.not_mem_nil, fun _ _ _ _ _ hP => absurd hP List.not_mem_nil,
    fun x hx => ?_, hd.stolen_nodup, fun _ => hstolen, fun R r hr hrev => ?_,
    fun x hx => absurd hx (hnil x)⟩
  · constructor
    · exact fun hP => absurd hP List.not_mem_nil
    · rintro ⟨p', hp', hflag, hthread⟩
      rcases h.pfp_done_of_some hown hdone hp' with ⟨hP, p, hp, rfl⟩ | ⟨hP, hp⟩
      · exact absurd hflag (by simp [(h.aborted_good hpc).pfp P hP p hp])
      · exact absurd ((hd.pfp P).mpr ⟨p', hp, hflag, hthread⟩) hP
  · exact absurd hx (by simp [hstolen])
  · rcases h.pfp_done_of_some hown hdone hr with ⟨hR, p, hp, rfl⟩ | ⟨-, hR⟩
    · exact absurd hrev ((h.aborted_good hpc).locked R hR p hp t)
    · obtain ⟨v, hv⟩ := G2L.mem_keys.mp (hd.own R r hR hrev)
      obtain ⟨r₁, l, hr₁, -, hnot, -⟩ := h.aborting_unlocked hpc _ hv
      rw [hR, Option.some.injEq] at hr₁
      exact absurd (hr₁ ▸ hrev) hnot

theorem Inv.abort_done (hs : step s (.abort_done t) = .next s') : Inv s' := by
  rw [step, guarded_eq_next] at hs
  obtain ⟨hpc, hs⟩ := hs
  obtain ⟨heap', hrun, hdone⟩ := h.abort_private_from_protected hpc
  rw [hrun] at hs
  dsimp only at hs
  rw [Outcome.next.injEq] at hs
  rw [← hs]
  exact h.pfp_done (h.aborting_backups hpc) (h.aborted_good hpc) hdone (h.aborted_thread hpc hdone)
    (Or.inr G2L.loop_forward_g2l_clear)

end Abort

/-! ## `UpdateChainHeads` -/

section Heads

/-- What the loop over the items did when it has handled `done`. -/
structure NewHeads (new_revision : ℤ) (heap : Heap n Content) (done : List (wlog_t × gcptr))
    (h : Heap n Content) : Prop where
  val : ∀ x ∈ done, ∃ l, heap x.1.2 = some l
    ∧ h x.1.2 = some { l with h_revision := .number new_revision }
  stub : ∀ x ∈ done, heap x.2 = none
    ∧ ∃ l, heap x.1.2 = some l ∧ h x.2 = some (new_stub x.1.2 l)
  same : ∀ q, q ∉ done.map (fun x => x.1.2) → q ∉ done.map Prod.snd → h q = heap q

theorem new_heads_spec {new_revision : ℤ} {heap heap' : Heap n Content}
    {items : List (wlog_t × gcptr)} (hnodup : (items.map fun x => x.1.2).Nodup)
    (hval : ∀ x ∈ items, (heap x.1.2).isSome)
    (hs : items.foldlM (new_head new_revision) heap = some heap') :
    NewHeads new_revision heap items heap' := by
  refine foldlM_some (fun done h => NewHeads new_revision heap done h) ?_
    ⟨fun _ hx => absurd hx List.not_mem_nil, fun _ hx => absurd hx List.not_mem_nil,
      fun _ _ _ => rfl⟩ hs
  intro done x todo h h' hsplit hd hh
  have hx : x.1.2 ∉ done.map (fun x => x.1.2) := by
    rw [hsplit, List.map_append, List.nodup_append] at hnodup
    exact fun hmem => hnodup.2.2 _ hmem _ List.mem_cons_self rfl
  have hxstub : ∀ y ∈ items, y.1.2 ∉ done.map Prod.snd := by
    intro y hy hmem
    obtain ⟨z, hz, heq⟩ := List.mem_map.mp hmem
    have hsome := hval y hy
    rw [← heq, (hd.stub z hz).1] at hsome
    exact absurd hsome (by simp)
  have hxmem : x ∈ items := by rw [hsplit]; simp
  have hhx := hd.same x.1.2 hx (hxstub x hxmem)
  rw [new_head] at hh
  cases hl : h x.1.2 with
  | none =>
      rw [hl] at hh
      exact absurd hh nofun
  | some l =>
      cases hstub : h x.2 with
      | some z =>
          rw [hl, hstub] at hh
          exact absurd hh nofun
      | none =>
          rw [hl, hstub] at hh
          dsimp only at hh
          rw [Option.some.injEq] at hh
          subst hh
          rw [hhx] at hl
          -- a place without an object is the place of none of the items
          have hfree : ∀ y ∈ items, y.1.2 ≠ x.2 := by
            intro y hy heq
            by_cases hmem : y.1.2 ∈ done.map fun x => x.1.2
            · obtain ⟨z, hz, hzeq⟩ := List.mem_map.mp hmem
              obtain ⟨l', -, hl'⟩ := hd.val z hz
              rw [hzeq, heq, hstub] at hl'
              exact absurd hl' nofun
            · rw [← heq, hd.same y.1.2 hmem (hxstub y hy)] at hstub
              exact absurd (hval y hy) (by simp [hstub])
          have hfree' : ∀ y ∈ done, y.2 ≠ x.2 := by
            intro y hy heq
            obtain ⟨-, l', -, hl'⟩ := hd.stub y hy
            rw [heq, hstub] at hl'
            exact absurd hl' nofun
          have hdone : ∀ y ∈ done, y ∈ items := fun y hy => by rw [hsplit]; simp [hy]
          refine ⟨fun y hy => ?_, fun y hy => ?_, fun q hq hq' => ?_⟩
          · rcases List.mem_append.mp hy with hy | hy
            · obtain ⟨l', hl', hy'⟩ := hd.val y hy
              refine ⟨l', hl', ?_⟩
              rw [Function.update_of_ne (hfree y (hdone y hy)), Function.update_of_ne, hy']
              exact fun heq => hx (heq ▸ List.mem_map_of_mem hy)
            · rw [List.mem_singleton] at hy
              subst hy
              exact ⟨l, hl, by rw [Function.update_of_ne (hfree y hxmem), Function.update_self]⟩
          · rcases List.mem_append.mp hy with hy | hy
            · obtain ⟨hnone, l', hl', hy'⟩ := hd.stub y hy
              refine ⟨hnone, l', hl', ?_⟩
              rw [Function.update_of_ne (hfree' y hy), Function.update_of_ne, hy']
              exact fun heq => hxstub x hxmem (heq ▸ List.mem_map_of_mem hy)
            · rw [List.mem_singleton] at hy
              subst hy
              refine ⟨?_, l, hl, Function.update_self _ _ _⟩
              by_cases hmem : y.2 ∈ done.map fun x => x.1.2
              · obtain ⟨z, hz, hzeq⟩ := List.mem_map.mp hmem
                exact absurd hzeq (hfree z (hdone z hz))
              · rw [← hd.same y.2 hmem, hstub]
                intro hmem'
                obtain ⟨z, hz, hzeq⟩ := List.mem_map.mp hmem'
                exact hfree' z hz hzeq
          · rw [List.map_append, List.mem_append, not_or] at hq hq'
            rw [Function.update_of_ne, Function.update_of_ne, hd.same q hq.1 hq'.1]
            · rintro rfl
              exact hq.2 (by simp)
            · rintro rfl
              exact hq'.2 (by simp)

variable (h : Inv s)
include h

/-- The objects of `NewHeads`, for the items of a thread. -/
theorem Inv.new_heads_list {items : List (wlog_t × gcptr)} {cur_time : ℤ} {heap' : Heap n Content}
    (hitems : items.map Prod.fst = (s.threads t).items)
    (hs : items.foldlM (new_head (cur_time + 1)) s.heap = some heap') :
    NewHeads (cur_time + 1) s.heap items heap' := by
  have hd := h.thread t
  have hmem : ∀ x ∈ items, x.1 ∈ (s.threads t).items := fun x hx =>
    hitems ▸ List.mem_map_of_mem hx
  refine new_heads_spec ?_ (fun x hx => ?_) hs
  · have hnodup := List.Nodup.map_on hd.val_inj hd.items_nodup
    rwa [← hitems, List.map_map] at hnodup
  · obtain ⟨r, l, -, hl, -⟩ := hd.item x.1 (hmem x hx)
    simp [hl]

omit h in
/-- What an object is after the loop. -/
theorem NewHeads.cases {items : List (wlog_t × gcptr)} {new_revision : ℤ} {heap' : Heap n Content}
    (hd : NewHeads new_revision s.heap items heap')
    (hitems : items.map Prod.fst = (s.threads t).items) (q : gcptr) :
    (∃ R l, (R, q) ∈ (s.threads t).items ∧ s.heap q = some l
        ∧ heap' q = some { l with h_revision := .number new_revision })
      ∨ (s.heap q = none ∧ ∃ R L l, (R, L) ∈ (s.threads t).items ∧ s.heap L = some l
        ∧ heap' q = some (new_stub L l))
      ∨ ((∀ R, (R, q) ∉ (s.threads t).items) ∧ heap' q = s.heap q) := by
  have hmem : ∀ x ∈ items, x.1 ∈ (s.threads t).items := fun x hx =>
    hitems ▸ List.mem_map_of_mem hx
  by_cases hval : q ∈ items.map fun x => x.1.2
  · obtain ⟨x, hx, rfl⟩ := List.mem_map.mp hval
    obtain ⟨l, hl, hl'⟩ := hd.val x hx
    exact Or.inl ⟨x.1.1, l, hmem x hx, hl, hl'⟩
  · by_cases hstub : q ∈ items.map Prod.snd
    · obtain ⟨x, hx, rfl⟩ := List.mem_map.mp hstub
      obtain ⟨hnone, l, hl, hl'⟩ := hd.stub x hx
      exact Or.inr (Or.inl ⟨hnone, x.1.1, x.1.2, l, hmem x hx, hl, hl'⟩)
    · refine Or.inr (Or.inr ⟨fun R hR => hval ?_, hd.same q hval hstub⟩)
      rw [← hitems] at hR
      obtain ⟨x, hx, heq⟩ := List.mem_map.mp hR
      exact List.mem_map.mpr ⟨x, hx, by rw [heq]⟩

/-- The keys have their locks, and the local copies their new revision. -/
theorem Inv.new_heads_thread {items : List (wlog_t × gcptr)} {cur_time : ℤ} {heap' : Heap n Content}
    (hpc : (s.threads t).pc = .committed cur_time)
    (hitems : items.map Prod.fst = (s.threads t).items)
    (hheads : NewHeads (cur_time + 1) s.heap items heap') :
    ThreadInv heap' t { s.threads t with
      stm_private_rev_num := -(cur_time + 1)
      pc := .chain_heads (items.map fun (x : wlog_t × gcptr) => (x.1.1, x.2)) } := by
  have hd := h.thread t
  have hlocks := hd.locks
  rw [hpc] at hlocks
  obtain ⟨hnil, hlocked⟩ := hlocks
  have hstolen := hd.normalized (by rw [hpc]; rfl)
  have hpublic : ∀ R r, s.heap R = some r → r.GCFLAG_PUBLIC = true → heap' R = some r := by
    intro R r hr hpub
    rcases hheads.cases hitems R with ⟨R', l, hmem, hl, -⟩ | ⟨hnone, -⟩ | ⟨-, hsame⟩
    · obtain ⟨-, l₁, -, hl₁, -, -, hlpub, -⟩ := hd.item _ hmem
      rw [hr, Option.some.injEq] at hl₁
      exact absurd hlpub (by simp [← hl₁, hpub])
    · exact absurd hr (by simp [hnone])
    · rw [hsame, hr]
  have hback : ∀ R r', heap' R = some r' → r'.h_revision = .locked t → s.heap R = some r' := by
    intro R r' hr' hrev
    rcases hheads.cases hitems R with ⟨R', l, -, -, hl'⟩ | ⟨-, R', L, l, -, -, hl'⟩
      | ⟨-, hsame⟩
    · rw [hr', Option.some.injEq] at hl'
      exact absurd hrev (by simp [hl'])
    · rw [hr', Option.some.injEq] at hl'
      exact absurd hrev (by simp [hl', new_stub])
    · rw [← hsame, hr']
  have hkeys : (items.map fun (x : wlog_t × gcptr) => (x.1.1, x.2)).map Prod.fst
      = (s.threads t).public_to_private.keys := by
    rw [G2L.keys, ← tx_descriptor.items, ← hitems, List.map_map, List.map_map]
    rfl
  refine ⟨fun x hx => ?_, hd.val_inj, hd.pfp_nodup, fun P => ?_, fun P hP => ?_,
    fun P p Q q B hP => ?_, fun x hx => ?_, hd.stolen_nodup, fun _ => hstolen,
    fun R r hr hrev => hd.own R r (hback R r hr hrev) hrev, hnil, ?_, fun x hx => ?_,
    fun R r hr hrev => ?_⟩
  · obtain ⟨r, l, hr, hl, hpub, hold, hlpub, hlback, hlt⟩ := hd.item x hx
    refine ⟨r, { l with h_revision := .number (cur_time + 1) }, hpublic _ r hr hpub, ?_, hpub, hold,
      hlpub, hlback, hlt⟩
    rcases hheads.cases hitems x.2 with ⟨R', l₁, -, hl₁, hl'⟩ | ⟨hnone, -⟩ | ⟨hnot, -⟩
    · rw [hl, Option.some.injEq] at hl₁
      rw [hl', hl₁]
    · exact absurd hl (by simp [hnone])
    · exact absurd hx (hnot x.1)
  · rw [hnil]
    constructor
    · exact fun hP => absurd hP List.not_mem_nil
    · rintro ⟨p', hp', hflag, hthread⟩
      have hno : ∀ p, s.heap P = some p → p.GCFLAG_PRIVATE_FROM_PROTECTED = true → p.thread ≠ t := by
        intro p hp hflag hthread
        have hP := (hd.pfp P).mpr ⟨p, hp, hflag, hthread⟩
        rw [hnil] at hP
        exact absurd hP List.not_mem_nil
      rcases hheads.cases hitems P with ⟨R', l, -, hl, hl'⟩ | ⟨-, R', L, l, -, -, hl'⟩
        | ⟨-, hsame⟩
      · rw [hp', Option.some.injEq] at hl'
        subst hl'
        exact absurd hthread (hno l hl hflag)
      · rw [hp', Option.some.injEq] at hl'
        exact absurd hflag (by simp [hl', new_stub])
      · exact absurd hthread (hno p' (hsame ▸ hp') hflag)
  · rw [hnil] at hP
    exact absurd hP List.not_mem_nil
  · rw [hnil] at hP
    exact absurd hP List.not_mem_nil
  · exact absurd hx (by simp [hstolen])
  · rw [hkeys]
    exact (s.threads t).public_to_private.keys_nodup
  · obtain ⟨y, hy, rfl⟩ := List.mem_map.mp hx
    have hmem : y.1 ∈ (s.threads t).items := hitems ▸ List.mem_map_of_mem hy
    obtain ⟨r, l, v, hr, -, hrev, -⟩ := hlocked y.1 hmem
    exact ⟨r, hpublic _ r hr ((h.shape _ r hr).locked t hrev), hrev⟩
  · rw [hkeys]
    exact hd.own R r (hback R r hr hrev) hrev

theorem Inv.of_new_heads {items : List (wlog_t × gcptr)} {new_revision : ℤ} {heap' : Heap n Content}
    {d : tx_descriptor n} (hpast : (s.threads t).pc.past_locks = true)
    (hitems : items.map Prod.fst = (s.threads t).items)
    (hheads : NewHeads new_revision s.heap items heap') (hthread : ThreadInv heap' t d)
    (hpast' : d.pc.past_locks = true) : Inv ({ s with heap := heap' }.set_thread t d) := by
  have hd := h.thread t
  -- the thread's own local copies may be targets of stubs now
  have htarget : ∀ u L l, l.thread = u → l.GCFLAG_BACKUP_COPY = false → heap' L = some l →
      (u = t ∨ l.GCFLAG_PUBLIC = true ∨ l.GCFLAG_PRIVATE_FROM_PROTECTED = true
        ∨ (s.threads u).pc.past_locks = true ∨ ∀ R, (R, L) ∉ (s.threads u).items) →
      StubTarget ({ s with heap := heap' }.set_thread t d) u L := by
    intro u L l hlt hback hl hcase
    refine ⟨l, hl, hlt, hback, ?_⟩
    by_cases hu : u = t
    · rw [hu, State.set_thread_self]
      exact Or.inl hpast'
    · rw [State.set_thread_of_ne hu]
      tauto
  refine h.of_parts (fun q x' hx' => ?_) ?_ (fun S x' L hx' hrev => ?_) (fun u => ?_)
  · rcases hheads.cases hitems q with ⟨R, l, hmem, hl, hl'⟩ | ⟨-, R, L, l, -, -, hl'⟩ | ⟨-, hsame⟩
    · obtain ⟨r₁, l₁, -, hl₁, -, -, hlpub, hlback, -⟩ := hd.item _ hmem
      rw [hl, Option.some.injEq] at hl₁
      subst hl₁
      obtain rfl := Option.some.inj (hx'.symm.trans hl')
      exact Or.inr (.of_number hlpub rfl fun _ => hlback)
    · obtain rfl := Option.some.inj (hx'.symm.trans hl')
      exact Or.inr (.of_public rfl rfl rfl)
    · exact Or.inl (hsame.symm.trans hx')
  · rintro _ x₀ L - - ⟨l, hl, hlt, hback, hcase⟩
    rcases hheads.cases hitems L with ⟨R, l₁, hmem, hl₁, hl'⟩ | ⟨hnone, -⟩ | ⟨-, hsame⟩
    · rw [hl, Option.some.injEq] at hl₁
      subst hl₁
      refine htarget _ L { l with h_revision := .number new_revision } hlt hback hl' ?_
      tauto
    · exact absurd hl (by simp [hnone])
    · refine htarget _ L l hlt hback (hsame.trans hl) ?_
      tauto
  · rcases hheads.cases hitems S with ⟨R, l, hmem, hl, hl'⟩ | ⟨-, R, L', l, hmem, hl, hl'⟩ | ⟨-, hsame⟩
    · obtain rfl := Option.some.inj (hx'.symm.trans hl')
      exact absurd hrev nofun
    · obtain rfl := Option.some.inj (hx'.symm.trans hl')
      obtain rfl := revision_t.stub.inj hrev
      obtain ⟨r₁, l₁, -, hl₁, -, -, hlpub, hlback, hlt⟩ := hd.item _ hmem
      rw [hl, Option.some.injEq] at hl₁
      subst hl₁
      refine Or.inr ?_
      rcases hheads.cases hitems L' with ⟨-, l₁, -, hl₁, hL'⟩ | ⟨hnone, -⟩ | ⟨hnot, -⟩
      · rw [hl, Option.some.injEq] at hl₁
        subst hl₁
        exact htarget _ L' { l with h_revision := .number new_revision } rfl hlback hL'
          (Or.inl hlt)
      · exact absurd hl (by simp [hnone])
      · exact absurd hmem (hnot R)
    · exact Or.inl ⟨x', hsame.symm.trans hx', hrev, rfl⟩
  · by_cases hu : u = t
    · subst hu
      rw [State.set_thread_self]
      exact hthread
    · rw [State.set_thread_of_ne hu]
      refine (h.thread u).frame (fun q => ?_) h.shape
      show FrameAt u _ q (s.heap q) (heap' q)
      rcases hheads.cases hitems q with ⟨R, l, hmem, hl, hl'⟩ | ⟨hnone, R, L, l, hmem, hl, hl'⟩
        | ⟨-, hsame⟩
      · obtain ⟨r₁, l₁, -, hl₁, -, -, hlpub, hlback, hlt⟩ := hd.item _ hmem
        rw [hl, Option.some.injEq] at hl₁
        subst hl₁
        rw [hl, hl']
        refine .other hlpub (Or.inl (hlt ▸ Ne.symm hu)) fun x' hx' => ?_
        obtain rfl := Option.some.inj hx'
        exact ⟨nofun, fun _ => hlt ▸ Ne.symm hu⟩
      · rw [hnone, hl']
        exact .fresh nofun nofun
      · rw [hsame]
        exact .refl

theorem Inv.new_heads {items : List (wlog_t × gcptr)}
    (hs : step s (.new_heads t items) = .next s') : Inv s' := by
  rw [step] at hs
  cases hpc : (s.threads t).pc with
  | committed cur_time =>
      rw [hpc] at hs
      dsimp only at hs
      rw [guarded_eq_next] at hs
      obtain ⟨hitems, hs⟩ := hs
      obtain ⟨heap', hheap, hs⟩ := Outcome.bind_eq_next.mp hs
      rw [Outcome.ofOption_eq_next] at hheap
      rw [Outcome.next.injEq] at hs
      rw [← hs]
      have hheads := h.new_heads_list hitems hheap
      exact h.of_new_heads (by rw [hpc]; rfl) hitems hheads (h.new_heads_thread hpc hitems hheads) rfl
  | _ =>
      rw [hpc] at hs
      simp at hs

/-- The store to a locked key: it becomes outdated. -/
theorem Inv.UpdateChainHeads {R : gcptr} (hs : step s (.UpdateChainHeads t R) = .next s') :
    Inv s' := by
  rw [step] at hs
  cases hpc : (s.threads t).pc with
  | chain_heads todo =>
      cases todo with
      | nil =>
          rw [hpc] at hs
          simp at hs
      | cons x todo =>
          obtain ⟨R', stub⟩ := x
          rw [hpc] at hs
          dsimp only at hs
          cases hr : s.heap R with
          | none =>
              rw [hr] at hs
              simp at hs
          | some r =>
              rw [hr] at hs
              dsimp only at hs
              rw [guarded_eq_next] at hs
              obtain ⟨rfl, hs⟩ := hs
              split_ifs at hs with hflag
              rw [Outcome.next.injEq] at hs
              rw [← hs]
              have hd := h.thread t
              have hlocks := hd.locks
              rw [hpc] at hlocks
              obtain ⟨hnil, hnodup, htodo, hall⟩ := hlocks
              obtain ⟨r₁, hr₁, hrev⟩ := htodo _ List.mem_cons_self
              rw [hr, Option.some.injEq] at hr₁
              subst hr₁
              obtain ⟨L, hmem⟩ := G2L.mem_keys.mp (hd.own R r hr hrev)
              obtain ⟨r₁, l, -, hl, -, -, hlpub, -, hlt⟩ := hd.item _ hmem
              have hne := hd.key_ne_val hmem hmem
              have hlpfp : l.GCFLAG_PRIVATE_FROM_PROTECTED = false := by
                by_contra hnot
                have hL := (hd.pfp L).mpr ⟨l, hl, by simpa using hnot, hlt⟩
                rw [hnil] at hL
                exact List.not_mem_nil hL
              -- the local copy stays as it is
              have hheap : s.set_object R { r with h_revision := .pointer stub }
                  = { s with heap := (item_heap s.heap (R, L) r l (.pointer stub) l.h_revision) } := by
                have hl' : Function.update s.heap R (some { r with h_revision := .pointer stub }) L
                    = some l := by
                  rw [Function.update_of_ne (Ne.symm hne), hl]
                rw [State.set_object, item_heap, ← hl', Function.update_eq_self]
              rw [hheap]
              rw [List.map_cons, List.nodup_cons] at hnodup
              refine h.set_item (by rw [hpc]; rfl) hmem hr hl (fun u hu => ?_) (by simp) (by simp)
                (Or.inl ((h.shape L l hl).number hlpub hlpfp)) (fun _ => rfl)
                ⟨hnil, hnodup.2, fun x hx => ?_, fun R₁ r₁ hr₁ hrev₁ => ?_⟩
              · rw [hrev]
                simp [hu.symm]
              · obtain ⟨r₁, hr₁, hrev₁⟩ := htodo x (List.mem_cons_of_mem _ hx)
                refine ⟨r₁, ?_, hrev₁⟩
                rw [item_heap_of_ne, hr₁]
                · exact fun hxR => hnodup.1 (List.mem_map.mpr ⟨x, hx, hxR⟩)
                · rintro hxL
                  rw [hxL, hl, Option.some.injEq] at hr₁
                  exact absurd ((h.shape L l hl).locked t (hr₁ ▸ hrev₁)) (by simp [hlpub])
              · by_cases hR₁ : R₁ = R
                · rw [hR₁, item_heap_key hne, Option.some.injEq] at hr₁
                  rw [← hr₁] at hrev₁
                  simp at hrev₁
                · by_cases hL₁ : R₁ = L
                  · rw [hL₁, item_heap_val, Option.some.injEq] at hr₁
                    rw [← hr₁] at hrev₁
                    exact absurd ((h.shape L l hl).locked t hrev₁) (by simp [hlpub])
                  · rw [item_heap_of_ne hR₁ hL₁] at hr₁
                    have hmem₁ := hall R₁ r₁ hr₁ hrev₁
                    rw [List.map_cons, List.mem_cons] at hmem₁
                    exact hmem₁.resolve_left hR₁
  | _ =>
      rw [hpc] at hs
      simp at hs

theorem Inv.commit_done (hs : step s (.commit_done t) = .next s') : Inv s' := by
  rw [step, guarded_eq_next, Outcome.next.injEq] at hs
  obtain ⟨hpc, hs⟩ := hs
  rw [← hs]
  have hd := h.thread t
  have hlocks := hd.locks
  rw [hpc] at hlocks
  obtain ⟨hnil, -, -, hall⟩ := hlocks
  have hstolen := hd.normalized (by rw [hpc]; rfl)
  have hclear : ∀ x, x ∉ G2L.g2l_clear.loop_forward := by simp [G2L.loop_forward_g2l_clear]
  refine h.set_thread ⟨fun x hx => absurd hx (hclear x), fun x hx => absurd hx (hclear x),
    hd.pfp_nodup, hd.pfp, fun P hP => ?_, fun P p Q q B hP => ?_, fun x hx => ?_, hd.stolen_nodup,
    fun _ => hstolen, fun R r hr hrev => ?_, fun x hx => absurd hx (hclear x)⟩ ?_
  · rw [hnil] at hP
    exact absurd hP List.not_mem_nil
  · rw [hnil] at hP
    exact absurd hP List.not_mem_nil
  · exact absurd hx (by simp [hstolen])
  · exact absurd (hall R r hr hrev) List.not_mem_nil
  · intro _ _ L l _ _ _ _ _
    exact Or.inr (Or.inr (Or.inr fun R => hclear (R, L)))

end Heads

/-! ## Every run -/

theorem Inv.init (h : init s) : Inv s := by
  have hnumber : ∀ p x, s.heap p = some x → ∃ v, x.h_revision = .number v := fun p x hx => by
    obtain ⟨-, -, -, -, -, -, -, hv⟩ := h.prebuilt p x hx
    exact hv
  refine ⟨fun p x hx => ?_, fun S x L hx hrev => ?_, fun t => ?_⟩
  · obtain ⟨hpub, -, hback, -, -, -, hpfp, -⟩ := h.prebuilt p x hx
    exact .of_public hpub hpfp hback
  · obtain ⟨v, hv⟩ := hnumber S x hx
    exact absurd hrev (by simp [hv])
  · obtain ⟨hg2l, hpfp, hstolen, hpc⟩ := h.threads t
    have hitems : (s.threads t).items = [] := by
      rw [tx_descriptor.items, hg2l, G2L.loop_forward_g2l_clear]
    refine ⟨fun x hx => ?_, fun x hx => ?_, by simp [hpfp], fun P => ?_, fun P hP => ?_,
      fun P p Q q B hP => ?_, fun x hx => ?_, by simp [hstolen], fun _ => hstolen,
      fun R r hr hrev => ?_, ?_⟩
    · exact absurd hx (by simp [hitems])
    · exact absurd hx (by simp [hitems])
    · constructor
      · exact fun hP => absurd hP (by simp [hpfp])
      · rintro ⟨p, hp, hflag, -⟩
        obtain ⟨-, -, -, -, -, -, hnot, -⟩ := h.prebuilt P p hp
        exact absurd hflag (by simp [hnot])
    · exact absurd hP (by simp [hpfp])
    · exact absurd hP (by simp [hpfp])
    · exact absurd hx (by simp [hstolen])
    · obtain ⟨v, hv⟩ := hnumber R r hr
      exact absurd hrev (by simp [hv])
    · rw [hpc]
      exact fun x hx => absurd hx (by simp [hitems])

theorem Inv.DescriptorInit {rev : ℤ} (h : Inv s)
    (hs : step s (.DescriptorInit t rev) = .next s') : Inv s' := by
  rw [Stmgc.C4.step, guarded_eq_next, Outcome.next.injEq] at hs
  obtain ⟨⟨hpc, hitems, hpfp, hstolen⟩, hs⟩ := hs
  rw [← hs]
  have hd := h.thread t
  refine h.set_thread ⟨hd.item, hd.val_inj, hd.pfp_nodup, hd.pfp, hd.backup, hd.backup_inj,
    hd.stolen, hd.stolen_nodup, hd.normalized, hd.own, ?_⟩ ?_
  · show LockState s.heap t _ (s.threads t).pc
    rw [hpc]
    exact fun x (hx : x ∈ (s.threads t).items) => absurd hx (by simp [hitems])
  · intro _ _ L l _ _ _ _ hcase
    exact hcase

theorem Inv.step {a : Act n Content} (h : Inv s) (hs : step s a = .next s') : Inv s' := by
  cases a with
  | DescriptorInit t rev => exact h.DescriptorInit hs
  | allocate t o c => exact h.allocate hs
  | write t o c => exact h.write hs
  | LocalizeProtected t P B => exact h.LocalizeProtected hs
  | LocalizePublic t R L old => exact h.LocalizePublic hs
  | stub_malloc P S => exact h.stub_malloc hs
  | stm_steal_stub S O => exact h.steal_step hs
  | stm_normalize_stolen_objects t => exact h.normalize_step hs
  | shortcut P_prev P => exact h.shortcut hs
  | minor_collect t => exact h.minor_collect hs
  | copy_over_original obj id_copy => exact h.copy_over_original hs
  | CommitTransaction t => exact h.CommitTransaction hs
  | AcquireLocks t => exact h.AcquireLocks hs
  | call_CancelLocks t abort => exact h.call_CancelLocks hs
  | CancelLocks t => exact h.CancelLocks hs
  | wait_over t abort => exact h.wait_over hs
  | CommitPrivateFromProtected t cur_time => exact h.CommitPrivateFromProtected hs
  | new_heads t items => exact h.new_heads hs
  | UpdateChainHeads t R => exact h.UpdateChainHeads hs
  | commit_done t => exact h.commit_done hs
  | AbortTransaction t => exact h.AbortTransaction hs
  | abort_done t => exact h.abort_done hs

theorem Inv.reachable {ok : State n Content → Act n Content → Prop}
    (h : ReachableIf Stmgc.C4.init Stmgc.C4.step ok s) : Inv s :=
  h.invariant (fun _ => Inv.init) fun _ _ _ hs _ => hs.step

end Stmgc.C4
