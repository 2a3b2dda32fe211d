/-
The steps of the commit protocol keep its invariant: what is done outside of
`CommitTransaction` and `AbortTransaction`.

A step is taken apart into changes of one object or of the tables of one
thread, each with its own lemma.
-/
import Stmgc.C4.CommitInv

open Stmgc.Lib

namespace Stmgc.C4

variable {n : ℕ} {Content : Type}

namespace State

variable {s : State n Content} {t : Fin n} {d : tx_descriptor n} {p : gcptr} {x : object n Content}
  {pc : Pc n}

@[simp] theorem set_object_heap : (s.set_object p x).heap = Function.update s.heap p (some x) := rfl

@[simp] theorem set_object_threads : (s.set_object p x).threads = s.threads := rfl

@[simp] theorem set_thread_heap : (s.set_thread t d).heap = s.heap := rfl

@[simp] theorem set_thread_self : (s.set_thread t d).threads t = d := by
  simp [set_thread]

theorem set_thread_of_ne {u : Fin n} (h : u ≠ t) : (s.set_thread t d).threads u = s.threads u := by
  simp [set_thread, h]

@[simp] theorem set_pc_heap : (s.set_pc t pc).heap = s.heap := rfl

@[simp] theorem set_pc_self : (s.set_pc t pc).threads t = { s.threads t with pc := pc } := by
  simp [set_pc]

end State

variable {s s' : State n Content}

/-! ## Changes of one object -/

/-- The invariant after a step, in parts. -/
theorem Inv.of_parts (h : Inv s)
    (hshape : ∀ p x', s'.heap p = some x' → s.heap p = some x' ∨ Shape x')
    (htarget : ∀ S x₀ L, s.heap S = some x₀ → x₀.h_revision = .stub L →
      StubTarget s x₀.thread L → StubTarget s' x₀.thread L)
    (hstub : ∀ S x L, s'.heap S = some x → x.h_revision = .stub L →
      (∃ x₀, s.heap S = some x₀ ∧ x₀.h_revision = .stub L ∧ x₀.thread = x.thread)
        ∨ StubTarget s' x.thread L)
    (hthread : ∀ u, ThreadInv s'.heap u (s'.threads u)) : Inv s' := by
  refine ⟨fun p x hx => ?_, fun S x L hx hrev => ?_, hthread⟩
  · rcases hshape p x hx with h₀ | hx'
    · exact h.shape p x h₀
    · exact hx'
  · rcases hstub S x L hx hrev with ⟨x₀, hx₀, hrev₀, hthread₀⟩ | htarget'
    · exact hthread₀ ▸ htarget S x₀ L hx₀ hrev₀ (h.stub S x₀ L hx₀ hrev₀)
    · exact htarget'

section Object

variable {p : gcptr} {x x' : object n Content}

/-- An update at an object frames every thread, when it does at that object. -/
theorem frame_update {heap : Heap n Content} {u : Fin n} {d : tx_descriptor n}
    {o : Option (object n Content)} (h : FrameAt u d p (heap p) o) :
    Frame u d heap (Function.update heap p o) := by
  intro q
  by_cases hq : q = p
  · subst hq
    rwa [Function.update_self]
  · rw [Function.update_of_ne hq]
    exact .refl

/-- A new object. -/
theorem Inv.set_fresh (h : Inv s) (hp : s.heap p = none) (hshape : Shape x')
    (hlock : ∀ u, x'.h_revision ≠ .locked u) (hpfp : x'.GCFLAG_PRIVATE_FROM_PROTECTED = false)
    (hstub : ∀ L, x'.h_revision = .stub L → StubTarget s x'.thread L) :
    Inv (s.set_object p x') := by
  have hne : ∀ q x, s.heap q = some x → q ≠ p := by
    rintro q x hq rfl
    exact absurd hq (by simp [hp])
  have htarget : ∀ t L, StubTarget s t L → StubTarget (s.set_object p x') t L := by
    rintro t L ⟨l, hl, hrest⟩
    exact ⟨l, by rw [State.set_object_heap, Function.update_of_ne (hne _ _ hl), hl], hrest⟩
  refine h.of_parts (fun q y hy => ?_) (fun _ x₀ L _ _ => htarget x₀.thread L)
    (fun S y L hy hrev => ?_) (fun u => ?_)
  · rw [State.set_object_heap, Function.update_apply] at hy
    by_cases hq : q = p
    · rw [if_pos hq, Option.some.injEq] at hy
      exact Or.inr (hy ▸ hshape)
    · rw [if_neg hq] at hy
      exact Or.inl hy
  · rw [State.set_object_heap, Function.update_apply] at hy
    by_cases hq : S = p
    · rw [if_pos hq, Option.some.injEq] at hy
      subst hy
      exact Or.inr (htarget _ _ (hstub L hrev))
    · rw [if_neg hq] at hy
      exact Or.inl ⟨y, hy, hrev, rfl⟩
  · refine (h.thread u).frame (frame_update ?_) h.shape
    rw [hp]
    exact .fresh (hlock u) (by simp [hpfp])

/-- Objects change in what no thread relies on. -/
theorem Inv.same_headers {heap' : Heap n Content} (h : Inv s)
    (hheap : ∀ p, s.heap p = none ∧ heap' p = none
      ∨ ∃ x x', s.heap p = some x ∧ heap' p = some x' ∧ SameHeader x x') :
    Inv { s with heap := heap' } := by
  have hsome : ∀ p x, s.heap p = some x → ∃ x', heap' p = some x' ∧ SameHeader x x' := by
    intro p x hx
    rcases hheap p with ⟨hnone, -⟩ | ⟨x₁, x', hx₁, hx', hsame⟩
    · exact absurd hx (by simp [hnone])
    · rw [hx, Option.some.injEq] at hx₁
      subst hx₁
      exact ⟨x', hx', hsame⟩
  have hsome' : ∀ p x', heap' p = some x' → ∃ x, s.heap p = some x ∧ SameHeader x x' := by
    intro p x' hx'
    rcases hheap p with ⟨-, hnone⟩ | ⟨x, x₁, hx, hx₁, hsame⟩
    · exact absurd hx' (by simp [hnone])
    · rw [hx', Option.some.injEq] at hx₁
      subst hx₁
      exact ⟨x, hx, hsame⟩
  refine h.of_parts (fun p x' hx' => Or.inr ?_) ?_ (fun S x' L hx' hrev => Or.inl ?_) (fun u => ?_)
  · obtain ⟨x, hx, hsame⟩ := hsome' p x' hx'
    obtain ⟨h1, h2, h3, h4, h5⟩ := h.shape p x hx
    constructor
    · rw [hsame.PRIVATE_FROM_PROTECTED, hsame.PUBLIC, hsame.BACKUP_COPY]
      exact h1
    · rw [hsame.PUBLIC, hsame.BACKUP_COPY]
      exact h2
    · rw [hsame.PUBLIC, hsame.PRIVATE_FROM_PROTECTED, hsame.h_revision]
      exact h3
    · rw [hsame.PUBLIC, hsame.h_revision]
      exact h4
    · rw [hsame.PUBLIC, hsame.h_revision]
      exact h5
  · rintro _ _ L - - ⟨l, hl, hthread, hback, hcase⟩
    obtain ⟨l', hl', hsame⟩ := hsome L l hl
    exact ⟨l', hl', by rw [hsame.thread, hthread], by rw [hsame.BACKUP_COPY, hback],
      by rwa [hsame.PUBLIC, hsame.PRIVATE_FROM_PROTECTED]⟩
  · obtain ⟨x, hx, hsame⟩ := hsome' S x' hx'
    exact ⟨x, hx, by rw [← hsame.h_revision, hrev], hsame.thread.symm⟩
  · refine (h.thread u).frame (fun p => ?_) h.shape
    rcases hheap p with ⟨hnone, hnone'⟩ | ⟨x, x', hx, hx', hsame⟩
    · show FrameAt u _ p (s.heap p) (heap' p)
      rw [hnone, hnone']
      exact .none
    · show FrameAt u _ p (s.heap p) (heap' p)
      rw [hx, hx']
      exact .same hsame

theorem Inv.set_same (h : Inv s) (hx : s.heap p = some x) (hsame : SameHeader x x') :
    Inv (s.set_object p x') := by
  refine h.same_headers fun q => ?_
  by_cases hq : q = p
  · subst hq
    exact Or.inr ⟨x, x', hx, Function.update_self _ _ _, hsame⟩
  · rw [Function.update_of_ne hq]
    cases hs : s.heap q with
    | none => exact Or.inl ⟨rfl, rfl⟩
    | some y => exact Or.inr ⟨y, y, rfl, rfl, .refl y⟩

/-- A public object gets another revision, or becomes public. It is not in use by
its thread. -/
theorem Inv.set_public (h : Inv s) (hx : s.heap p = some x) (hshape : Shape x')
    (hpub : x'.GCFLAG_PUBLIC = true)
    (hcase : (x.GCFLAG_PUBLIC = true ∧ ∀ u, x'.h_revision = .locked u ↔ x.h_revision = .locked u)
      ∨ (x.GCFLAG_PUBLIC = false ∧ x.GCFLAG_PRIVATE_FROM_PROTECTED = false
        ∧ x.GCFLAG_BACKUP_COPY = false ∧ (∀ R, (R, p) ∉ (s.threads x.thread).items)
        ∧ ∀ u, x'.h_revision ≠ .locked u))
    (hold : x.GCFLAG_OLD = true → x'.GCFLAG_OLD = true) (hthread : x'.thread = x.thread)
    (hstub : ∀ L, x'.h_revision = .stub L → x.h_revision = .stub L) :
    Inv (s.set_object p x') := by
  have hpfp := hshape.pfp_eq_false hpub
  have hback := hshape.backup_eq_false hpub
  refine h.of_parts (fun q y hy => ?_) ?_ (fun S y L hy hrev => Or.inl ?_) (fun u => ?_)
  · rw [State.set_object_heap, Function.update_apply] at hy
    by_cases hq : q = p
    · rw [if_pos hq, Option.some.injEq] at hy
      exact Or.inr (hy ▸ hshape)
    · rw [if_neg hq] at hy
      exact Or.inl hy
  · rintro _ _ L - - ⟨l, hl, hlthread, hlback, hlcase⟩
    by_cases hL : L = p
    · subst hL
      rw [hx, Option.some.injEq] at hl
      subst hl
      exact ⟨x', Function.update_self _ _ _, hthread.trans hlthread, hback, Or.inr (Or.inl hpub)⟩
    · exact ⟨l, by rw [State.set_object_heap, Function.update_of_ne hL, hl], hlthread, hlback, hlcase⟩
  · rw [State.set_object_heap, Function.update_apply] at hy
    by_cases hS : S = p
    · rw [if_pos hS, Option.some.injEq] at hy
      subst hy hS
      exact ⟨x, hx, hstub L hrev, hthread.symm⟩
    · rw [if_neg hS] at hy
      exact ⟨y, hy, hrev, rfl⟩
  · refine (h.thread u).frame (frame_update ?_) h.shape
    rw [hx]
    rcases hcase with ⟨hxpub, hlock⟩ | ⟨hxpub, hxpfp, hxback, hitem, hlock⟩
    · exact .outdated hxpub hpub hold (h.shape p x hx) hpfp (hlock u)
    · refine .other hxpub ?_ ?_
      · by_cases hu : x.thread = u
        · subst hu
          exact Or.inr ⟨hxpfp, hxback, hitem⟩
        · exact Or.inl hu
      · intro y hy
        rw [Option.some.injEq] at hy
        subst hy
        exact ⟨hlock u, by simp [hpfp]⟩

end Object

/-! ## Changes of the tables of one thread -/

/-- The heap stays, and one thread gets other tables. -/
theorem Inv.set_thread {t : Fin n} {d : tx_descriptor n} (h : Inv s) (hd : ThreadInv s.heap t d)
    (hcase : ∀ S x L l, s.heap S = some x → x.h_revision = .stub L →
      s.heap L = some l → l.thread = t → (s.threads t).pc.past_locks = true
      ∨ l.GCFLAG_PUBLIC = true ∨ l.GCFLAG_PRIVATE_FROM_PROTECTED = true
      ∨ (∀ R, (R, L) ∉ (s.threads t).items) →
      d.pc.past_locks = true ∨ l.GCFLAG_PUBLIC = true ∨ l.GCFLAG_PRIVATE_FROM_PROTECTED = true
      ∨ ∀ R, (R, L) ∉ d.items) : Inv (s.set_thread t d) := by
  refine h.of_parts (fun q y hy => Or.inl hy) ?_ (fun S y L hy hrev => Or.inl ⟨y, hy, hrev, rfl⟩)
    (fun u => ?_)
  · rintro S x L hx hrev ⟨l, hl, hthread, hback, hlcase⟩
    refine ⟨l, hl, hthread, hback, ?_⟩
    by_cases hu : x.thread = t
    · rw [hu] at hthread hlcase ⊢
      rw [State.set_thread_self]
      exact hcase S x L l hx hrev hl hthread hlcase
    · rwa [State.set_thread_of_ne hu]
  · by_cases hu : u = t
    · subst hu
      rwa [State.set_thread_self]
    · rw [State.set_thread_of_ne hu]
      exact h.thread u

/-- A thread goes on to another place, with its tables as they are. -/
theorem Inv.set_pc {t : Fin n} {pc : Pc n} (h : Inv s)
    (hpast : (s.threads t).pc.past_locks = true → pc.past_locks = true)
    (hnorm : pc.has_collection_lock = true → (s.threads t).stolen_objects = [])
    (hlocks : LockState s.heap t { s.threads t with pc := pc } pc) : Inv (s.set_pc t pc) := by
  obtain ⟨h1, h2, h3, h4, h5, h6, h7, h8, h9, h10, -⟩ := h.thread t
  refine h.set_thread ⟨h1, h2, h3, h4, h5, h6, h7, h8, hnorm, h10, hlocks⟩ ?_
  intro _ _ L l _ _ hl hthread hcase
  exact hcase.imp_left hpast

/-! ## The steps -/

section Steps

variable {t : Fin n}

/-- A thread without its `collection_lock` has no locked item. -/
theorem ThreadInv.unlocked {heap : Heap n Content} {d : tx_descriptor n} (h : ThreadInv heap t d)
    (hpc : d.pc.has_collection_lock = false) : ∀ x ∈ d.items, Unlocked heap t d x := by
  have hlocks := h.locks
  cases hpc' : d.pc with
  | running => rwa [hpc'] at hlocks
  | waiting => rwa [hpc'] at hlocks
  | _ => simp [hpc', Pc.has_collection_lock] at hpc

/-- What is private from protected leads to an old object: its backup copy, or
the public object that the backup copy became. -/
theorem ThreadInv.pfp_target {heap : Heap n Content} {d : tx_descriptor n} {P : gcptr}
    {p : object n Content} (h : ThreadInv heap t d)
    (hunlocked : ∀ x ∈ d.items, Unlocked heap t d x)
    (hP : P ∈ d.private_from_protected) (hp : heap P = some p) :
    ∃ B b, p.h_revision = .pointer B ∧ heap B = some b ∧ b.GCFLAG_OLD = true
      ∧ ((B, P) ∈ d.items ∧ b.GCFLAG_PUBLIC = true
        ∨ (∀ R, (R, P) ∉ d.items) ∧ b.GCFLAG_BACKUP_COPY = true ∧ b.thread = t
        ∨ (∀ R, (R, P) ∉ d.items) ∧ (B, P) ∈ d.stolen_objects) := by
  by_cases hval : ∀ R, (R, P) ∉ d.items
  · obtain ⟨p₁, B, b, hp₁, hrev, hb, hold, hcase⟩ := h.backup P hP hval
    rw [hp, Option.some.injEq] at hp₁
    subst hp₁
    refine ⟨B, b, hrev, hb, hold, Or.inr ?_⟩
    exact hcase.imp (fun hback => ⟨hval, hback⟩) fun hstolen => ⟨hval, hstolen⟩
  · rw [not_forall] at hval
    obtain ⟨R, hmem⟩ := hval
    rw [not_not] at hmem
    obtain ⟨r, l, hr, hl, hpub, hold, -⟩ := h.item _ hmem
    obtain ⟨r₁, l₁, hr₁, hl₁, -, hrev⟩ := hunlocked _ hmem
    obtain ⟨p₁, hp₁, hflag, -⟩ := (h.pfp P).mp hP
    rw [hp, Option.some.injEq] at hl₁ hp₁
    subst hl₁ hp₁
    rw [tx_descriptor.expected, if_pos hflag] at hrev
    exact ⟨R, r, hrev, hr, hold, Or.inl ⟨hmem, hpub⟩⟩

theorem Pc.past_locks_eq_false {pc : Pc n} (h : pc.has_collection_lock = false) :
    pc.past_locks = false := by
  cases pc with
  | running => rfl
  | waiting => rfl
  | _ => simp [Pc.has_collection_lock] at h

/-- An object of a thread that is neither in use nor public may be a stub's target. -/
theorem StubTarget.of_free {L : gcptr} (h : StubTarget s t L)
    (hpc : (s.threads t).pc.has_collection_lock = false) :
    ∃ l, s.heap L = some l ∧ l.thread = t ∧ l.GCFLAG_BACKUP_COPY = false
      ∧ (l.GCFLAG_PUBLIC = false → l.GCFLAG_PRIVATE_FROM_PROTECTED = false →
        ∀ R, (R, L) ∉ (s.threads l.thread).items) := by
  obtain ⟨l, hl, hthread, hback, hcase⟩ := h
  refine ⟨l, hl, hthread, hback, fun hpub hpfp => ?_⟩
  rw [Pc.past_locks_eq_false hpc, hpub, hpfp] at hcase
  rw [hthread]
  simpa using hcase

/-- A protected object of a running thread is not one of its local copies. -/
theorem ThreadInv.not_val {heap : Heap n Content} {d : tx_descriptor n} {P : gcptr}
    {p : object n Content} (h : ThreadInv heap t d) (hpc : d.pc.has_collection_lock = false)
    (hp : heap P = some p) (hpriv : d.is_private p = false) : ∀ R, (R, P) ∉ d.items := by
  intro R hmem
  obtain ⟨r, l, -, hl, -, hrev⟩ := h.unlocked hpc _ hmem
  rw [hp, Option.some.injEq] at hl
  subst hl
  rw [tx_descriptor.is_private, Bool.or_eq_false_iff, decide_eq_false_iff_not] at hpriv
  rw [tx_descriptor.expected, hpriv.2] at hrev
  exact hpriv.1 hrev

/-- A protected object with a new backup copy becomes private. -/
theorem Inv.privatize {P B : gcptr} {p b : object n Content} (h : Inv s)
    (hpc : (s.threads t).pc = .running) (hstolen : (s.threads t).stolen_objects = [])
    (hp : s.heap P = some p) (hthread : p.thread = t) (hpub : p.GCFLAG_PUBLIC = false)
    (hback : p.GCFLAG_BACKUP_COPY = false) (hpriv : (s.threads t).is_private p = false)
    (hb : s.heap B = some b) (hbback : b.GCFLAG_BACKUP_COPY = true) (hbthread : b.thread = t)
    (hbold : b.GCFLAG_OLD = true)
    (hnew : ∀ Q ∈ (s.threads t).private_from_protected, ∀ q, s.heap Q = some q →
      q.h_revision ≠ .pointer B) :
    Inv ((s.set_object P { p with
        GCFLAG_PRIVATE_FROM_PROTECTED := true, h_revision := .pointer B }).set_thread t
      { s.threads t with
        private_from_protected := (s.threads t).private_from_protected ++ [P] }) := by
  have hfree : (s.threads t).pc.has_collection_lock = false := by rw [hpc]; rfl
  have hd := h.thread t
  have hpfp : p.GCFLAG_PRIVATE_FROM_PROTECTED = false := by
    rw [tx_descriptor.is_private, Bool.or_eq_false_iff] at hpriv
    exact hpriv.2
  have hnotval := hd.not_val hfree hp hpriv
  have hPnot : P ∉ (s.threads t).private_from_protected := by
    intro hmem
    obtain ⟨p₁, hp₁, hflag, -⟩ := (hd.pfp P).mp hmem
    rw [hp, Option.some.injEq] at hp₁
    subst hp₁
    exact absurd hflag (by simp [hpfp])
  generalize hp' : { p with GCFLAG_PRIVATE_FROM_PROTECTED := true, h_revision := .pointer B } = p'
  have hheap : ∀ q, q ≠ P → Function.update s.heap P (some p') q = s.heap q := fun q hq =>
    Function.update_of_ne hq _ _
  have hitem : ∀ x ∈ (s.threads t).items, x.1 ≠ P ∧ x.2 ≠ P := by
    intro x hx
    obtain ⟨r, l, hr, hl, hrpub, -⟩ := hd.item x hx
    constructor
    · rintro rfl
      rw [hp, Option.some.injEq] at hr
      exact absurd hrpub (by simp [← hr, hpub])
    · rintro rfl
      exact hnotval x.1 hx
  have hne : ∀ Q ∈ (s.threads t).private_from_protected, Q ≠ P := by
    rintro Q hQ rfl
    exact hPnot hQ
  refine h.of_parts (fun q y hy => ?_) ?_ (fun S y L hy hrev => Or.inl ?_) (fun u => ?_)
  · rw [State.set_thread_heap, State.set_object_heap, Function.update_apply] at hy
    by_cases hq : q = P
    · rw [if_pos hq, Option.some.injEq] at hy
      subst hy hp'
      exact Or.inr ⟨fun _ => ⟨hpub, hback⟩, fun _ => hpub, fun _ hnot => absurd hnot (by simp),
        fun u hu => absurd hu (by simp), fun q hq => absurd hq (by simp)⟩
    · rw [if_neg hq] at hy
      exact Or.inl hy
  · rintro _ x₀ L - - ⟨l, hl, hlthread, hlback, hcase⟩
    generalize x₀.thread = u at hlthread hcase ⊢
    have hcase' : (((s.set_object P p').set_thread t { s.threads t with
        private_from_protected := (s.threads t).private_from_protected ++ [P] }).threads u).pc
          = (s.threads u).pc
        ∧ (((s.set_object P p').set_thread t { s.threads t with
        private_from_protected := (s.threads t).private_from_protected ++ [P] }).threads u).items
          = (s.threads u).items := by
      by_cases hu : u = t
      · subst hu
        rw [State.set_thread_self]
        exact ⟨rfl, rfl⟩
      · rw [State.set_thread_of_ne hu]
        exact ⟨rfl, rfl⟩
    rw [StubTarget, hcase'.1, hcase'.2]
    by_cases hL : L = P
    · subst hL
      rw [hp, Option.some.injEq] at hl
      subst hl hp'
      exact ⟨_, Function.update_self _ _ _, hlthread, hlback, Or.inr (Or.inr (Or.inl rfl))⟩
    · exact ⟨l, (hheap L hL).trans hl, hlthread, hlback, hcase⟩
  · rw [State.set_thread_heap, State.set_object_heap, Function.update_apply] at hy
    by_cases hS : S = P
    · rw [if_pos hS, Option.some.injEq] at hy
      subst hy hp'
      exact absurd hrev (by simp)
    · rw [if_neg hS] at hy
      exact ⟨y, hy, hrev, rfl⟩
  · by_cases hu : u = t
    · subst hu
      rw [State.set_thread_self, State.set_thread_heap, State.set_object_heap]
      refine ⟨?_, hd.val_inj, ?_, fun Q => ?_, ?_, ?_, ?_, hd.stolen_nodup, hd.normalized, ?_, ?_⟩
      · intro x hx
        obtain ⟨r, l, hr, hl, hrest⟩ := hd.item x hx
        exact ⟨r, l, (hheap _ (hitem x hx).1).trans hr, (hheap _ (hitem x hx).2).trans hl, hrest⟩
      · exact List.nodup_append.mpr ⟨hd.pfp_nodup, List.nodup_singleton P, by
          rintro Q hQ Q' hQ' rfl
          rw [List.mem_singleton] at hQ'
          exact hne Q hQ hQ'⟩
      · rw [List.mem_append, List.mem_singleton, hd.pfp, Function.update_apply]
        by_cases hQ : Q = P
        · subst hQ
          rw [if_pos rfl]
          exact ⟨fun _ => ⟨p', rfl, by rw [← hp'], by rw [← hp']; exact hthread⟩, fun _ => Or.inr rfl⟩
        · rw [if_neg hQ]
          exact or_iff_left hQ
      · intro Q hQ hQitem
        rcases List.mem_append.mp hQ with hQ | hQ
        · obtain ⟨q, B', b', hq, hrev, hb', hold, hcase⟩ := hd.backup Q hQ hQitem
          have hB' : B' ≠ P := by
            rintro rfl
            rw [hp, Option.some.injEq] at hb'
            subst hb'
            rcases hcase with ⟨hnot, -⟩ | hnot
            · exact absurd hnot (by simp [hback])
            · exact absurd hnot (by simp [hstolen])
          exact ⟨q, B', b', (hheap Q (hne Q hQ)).trans hq, hrev, (hheap B' hB').trans hb', hold, hcase⟩
        · rw [List.mem_singleton] at hQ
          subst hQ
          have hB : B ≠ Q := by
            rintro rfl
            rw [hp, Option.some.injEq] at hb
            subst hb
            exact absurd hbback (by simp [hback])
          exact ⟨p', B, b, Function.update_self _ _ _, by rw [← hp'], (hheap B hB).trans hb, hbold,
            Or.inl ⟨hbback, hbthread⟩⟩
      · -- the new backup copy belongs to `P` only
        have hinj : ∀ Q ∈ (s.threads u).private_from_protected, ∀ q q' B',
            Function.update s.heap P (some p') Q = some q →
            Function.update s.heap P (some p') P = some q' → q.h_revision = .pointer B' →
            q'.h_revision = .pointer B' → False := by
          intro Q hQ q q' B' hq hq' hrev hrev'
          rw [hheap Q (hne Q hQ)] at hq
          rw [Function.update_self, Option.some.injEq] at hq'
          subst hq' hp'
          cases hrev'
          exact hnew Q hQ q hq hrev
        intro Q q Q' q' B' hQ hQ' hQitem hQitem' hq hq' hrev hrev'
        rcases List.mem_append.mp hQ with hold | hQP
        · rcases List.mem_append.mp hQ' with hold' | hQP'
          · rw [hheap Q (hne Q hold)] at hq
            rw [hheap Q' (hne Q' hold')] at hq'
            exact hd.backup_inj Q q Q' q' B' hold hold' hQitem hQitem' hq hq' hrev hrev'
          · rw [List.mem_singleton] at hQP'
            subst hQP'
            exact absurd (hinj Q hold q q' B' hq hq' hrev hrev') id
        · rw [List.mem_singleton] at hQP
          subst hQP
          rcases List.mem_append.mp hQ' with hold' | hQP'
          · exact absurd (hinj Q' hold' q' q B' hq' hq hrev' hrev) id
          · rw [List.mem_singleton] at hQP'
            exact hQP'.symm
      · intro x hx
        exact absurd hx (by simp [hstolen])
      · intro R r hr hrev
        rw [Function.update_apply] at hr
        by_cases hR : R = P
        · rw [if_pos hR, Option.some.injEq] at hr
          subst hr hp'
          exact absurd hrev (by simp)
        · rw [if_neg hR] at hr
          exact hd.own R r hr hrev
      · show LockState _ u _ (s.threads u).pc
        rw [hpc]
        intro x hx
        obtain ⟨r, l, hr, hl, hrest⟩ := hd.unlocked hfree x hx
        exact ⟨r, l, (hheap _ (hitem x hx).1).trans hr, (hheap _ (hitem x hx).2).trans hl, hrest⟩
    · rw [State.set_thread_of_ne hu, State.set_thread_heap, State.set_object_heap,
        State.set_object_threads]
      refine (h.thread u).frame (frame_update ?_) h.shape
      rw [hp]
      refine .other hpub (Or.inl (hthread ▸ Ne.symm hu)) ?_
      intro y hy
      rw [Option.some.injEq] at hy
      subst hy hp'
      exact ⟨by simp, fun _ => hthread ▸ Ne.symm hu⟩

theorem Inv.allocate {o : gcptr} {c : Content} (h : Inv s)
    (hs : step s (.allocate t o c) = .next s') : Inv s' := by
  rw [step, guarded_eq_next] at hs
  obtain ⟨⟨-, ho, -⟩, hs⟩ := hs
  rw [Outcome.next.injEq] at hs
  rw [← hs]
  exact h.set_fresh ho (.of_number rfl rfl nofun) (fun u => nofun) rfl (fun L => nofun)

theorem Inv.write {o : gcptr} {c : Content} (h : Inv s)
    (hs : step s (.write t o c) = .next s') : Inv s' := by
  rw [step] at hs
  cases hx : s.heap o with
  | none =>
      rw [hx] at hs
      exact absurd hs nofun
  | some x =>
      rw [hx] at hs
      obtain ⟨-, hs⟩ := guarded_eq_next.mp hs
      rw [Outcome.next.injEq] at hs
      rw [← hs]
      exact h.set_same hx ⟨rfl, rfl, rfl, rfl, id, rfl⟩

/-- The backup copy of `P` is a new object. -/
theorem Inv.LocalizeProtected {P B : gcptr} (h : Inv s)
    (hs : step s (.LocalizeProtected t P B) = .next s') : Inv s' := by
  rw [step] at hs
  cases hp : s.heap P with
  | none =>
      rw [hp] at hs
      exact absurd hs nofun
  | some p =>
      rw [hp] at hs
      obtain ⟨⟨hpc, hstolen, hthread, hpub, hback, -, hpriv, hrev, hB, -⟩, hs⟩ := guarded_eq_next.mp hs
      rw [Outcome.next.injEq] at hs
      have hpfp : p.GCFLAG_PRIVATE_FROM_PROTECTED = false := by
        rw [tx_descriptor.is_private, Bool.or_eq_false_iff] at hpriv
        exact hpriv.2
      obtain ⟨v, hv⟩ := (h.shape P p hp).number hpub hpfp
      have hPB : P ≠ B := by
        rintro rfl
        exact absurd hp (by simp [hB])
      -- first the backup copy
      have h₁ : Inv (s.set_object B { p with GCFLAG_BACKUP_COPY := true, GCFLAG_OLD := true }) :=
        h.set_fresh hB (.of_number hpub hv fun hnot => absurd hnot (by simp [hpfp])) (fun u => by simp [hv]) hpfp (fun L hL => absurd hL (by simp [hv]))
      have hne : ∀ q y, s.heap q = some y → q ≠ B := by
        rintro q y hq rfl
        exact absurd hq (by simp [hB])
      have h₂ := Inv.privatize (t := t) (P := P) (B := B) (p := p) h₁ hpc hstolen
        ((Function.update_of_ne hPB _ _).trans hp) hthread hpub hback hpriv
        (Function.update_self _ _ _) rfl hthread rfl (by
          intro Q hQ q hq hrevq
          rw [State.set_object_threads] at hQ
          obtain ⟨q₁, hq₁, hflag, -⟩ := ((h.thread t).pfp Q).mp hQ
          rw [State.set_object_heap, Function.update_of_ne (hne Q q₁ hq₁), hq₁, Option.some.injEq] at hq
          subst hq
          obtain ⟨B', b', hrev', hb', -⟩ := (h.thread t).pfp_target
            ((h.thread t).unlocked (by rw [hpc]; rfl)) hQ hq₁
          rw [hrev'] at hrevq
          cases hrevq
          exact hne _ b' hb' rfl)
      rw [← hs]
      exact h₂

/-- The table of a thread without locks gets items more, which are all that was
stolen from it. -/
theorem ThreadInv.add_items {heap : Heap n Content} {d d' : tx_descriptor n} {new : List wlog_t}
    (h : ThreadInv heap t d) (hunlocked : ∀ x ∈ d.items, Unlocked heap t d x)
    (hmem : ∀ x, x ∈ d'.items ↔ x ∈ new ∨ x ∈ d.items)
    (hpfp : d'.private_from_protected = d.private_from_protected)
    (hprv : d'.stm_private_rev_num = d.stm_private_rev_num) (hstolen : d'.stolen_objects = [])
    (hall : ∀ x ∈ d.stolen_objects, x ∈ new)
    (hitem : ∀ x ∈ new, ∃ r l, heap x.1 = some r ∧ heap x.2 = some l
      ∧ r.GCFLAG_PUBLIC = true ∧ r.GCFLAG_OLD = true ∧ l.GCFLAG_PUBLIC = false
      ∧ l.GCFLAG_BACKUP_COPY = false ∧ l.thread = t)
    (hnew : ∀ x ∈ new, Unlocked heap t d x)
    (hinj : ∀ x ∈ new, ∀ y, y ∈ new ∨ y ∈ d.items → x.2 = y.2 → x = y)
    (hlocks : (∀ x ∈ d'.items, Unlocked heap t d' x) → LockState heap t d' d'.pc) :
    ThreadInv heap t d' := by
  have hval : ∀ P, (∀ R, (R, P) ∉ d'.items) → ∀ R, (R, P) ∉ d.items := fun P hP R hR =>
    hP R ((hmem _).mpr (Or.inr hR))
  refine ⟨?_, ?_, hpfp ▸ h.pfp_nodup, hpfp ▸ h.pfp, ?_, ?_, ?_, by simp [hstolen], fun _ => hstolen,
    ?_, hlocks ?_⟩
  · intro x hx
    rcases (hmem x).mp hx with hx | hx
    · exact hitem x hx
    · exact h.item x hx
  · intro x hx y hy hxy
    rcases (hmem x).mp hx with hx | hx
    · exact hinj x hx y ((hmem y).mp hy) hxy
    · rcases (hmem y).mp hy with hy | hy
      · exact (hinj y hy x (Or.inr hx) hxy.symm).symm
      · exact h.val_inj x hx y hy hxy
  · intro P hP hPval
    rw [hpfp] at hP
    obtain ⟨p, B, b, hp, hrev, hb, hold, hcase⟩ := h.backup P hP (hval P hPval)
    refine ⟨p, B, b, hp, hrev, hb, hold, Or.inl ?_⟩
    rcases hcase with hback | hmem'
    · exact hback
    · exact absurd ((hmem _).mpr (Or.inl (hall _ hmem'))) (hPval B)
  · intro P p Q q B hP hQ hPval hQval
    rw [hpfp] at hP hQ
    exact h.backup_inj P p Q q B hP hQ (hval P hPval) (hval Q hQval)
  · intro x hx
    exact absurd hx (by simp [hstolen])
  · intro R r hr hrev
    obtain ⟨v, hv⟩ := G2L.mem_keys.mp (h.own R r hr hrev)
    exact G2L.mem_keys.mpr ⟨v, (hmem _).mpr (Or.inr hv)⟩
  · intro x hx
    have hun : Unlocked heap t d x := by
      rcases (hmem x).mp hx with hx | hx
      · exact hnew x hx
      · exact hunlocked x hx
    obtain ⟨r, l, hr, hl, hrev, hexp⟩ := hun
    exact ⟨r, l, hr, hl, hrev, by rw [hexp, tx_descriptor.expected, tx_descriptor.expected, hprv]⟩

theorem stm_normalize_stolen_objects_spec {d d' : tx_descriptor n}
    (hs : stm_normalize_stolen_objects d = some d') :
    (∀ x, x ∈ d'.items ↔ x ∈ d.stolen_objects ∨ x ∈ d.items)
      ∧ d' = { d with public_to_private := d'.public_to_private, stolen_objects := [] } := by
  rw [stm_normalize_stolen_objects, Option.map_eq_some_iff] at hs
  obtain ⟨g, hg, rfl⟩ := hs
  exact ⟨G2L.foldlM_insert_spec hg, rfl⟩

/-- `stm_normalize_stolen_objects`, and what the thread does next. -/
theorem Inv.normalize {d : tx_descriptor n} {pc : Pc n} (h : Inv s)
    (hfree : (s.threads t).pc.has_collection_lock = false)
    (hs : stm_normalize_stolen_objects (s.threads t) = some d)
    (hlocks : (∀ x ∈ d.items, Unlocked s.heap t { d with pc := pc } x) →
      LockState s.heap t { d with pc := pc } pc) :
    Inv (s.set_thread t { d with pc := pc }) := by
  obtain ⟨hmem, hd⟩ := stm_normalize_stolen_objects_spec hs
  have ht := h.thread t
  have hstolen : ∀ x ∈ (s.threads t).stolen_objects, ∃ r l, s.heap x.1 = some r
      ∧ s.heap x.2 = some l ∧ r.GCFLAG_PUBLIC = true ∧ r.GCFLAG_OLD = true
      ∧ l.GCFLAG_PUBLIC = false ∧ l.GCFLAG_BACKUP_COPY = false ∧ l.thread = t
      ∧ l.GCFLAG_PRIVATE_FROM_PROTECTED = true ∧ l.h_revision = .pointer x.1 := by
    intro x hx
    obtain ⟨-, hpfp, ⟨p, hp, hrev⟩, b, hb, hpub, hold⟩ := ht.stolen x hx
    obtain ⟨p₁, hp₁, hflag, hthread⟩ := (ht.pfp x.2).mp hpfp
    rw [hp, Option.some.injEq] at hp₁
    subst hp₁
    obtain ⟨hnpub, hnback⟩ := (h.shape _ _ hp).pfp hflag
    exact ⟨b, p, hb, hp, hpub, hold, hnpub, hnback, hthread, hflag, hrev⟩
  refine h.set_thread ?_ ?_
  · refine ht.add_items (ht.unlocked hfree) hmem
      (by rw [hd]) (by rw [hd]) (by rw [hd]) (fun x hx => hx) ?_ ?_ ?_ hlocks
    · intro x hx
      obtain ⟨r, l, hr, hl, hpub, hold, hnpub, hnback, hthread, -⟩ := hstolen x hx
      exact ⟨r, l, hr, hl, hpub, hold, hnpub, hnback, hthread⟩
    · intro x hx
      obtain ⟨r, l, hr, hl, hpub, hold, -, -, -, hflag, hrev⟩ := hstolen x hx
      refine ⟨r, l, hr, hl, fun hlock => ?_, ?_⟩
      · exact (ht.stolen x hx).1 (ht.own x.1 r hr hlock)
      · rw [tx_descriptor.expected, if_pos hflag, hrev]
    · -- the revision of a private object names the key
      intro x hx y hy hxy
      obtain ⟨-, l, -, hl, -, -, -, -, -, hflag, hrev⟩ := hstolen x hx
      have hyrev : l.h_revision = .pointer y.1 := by
        rcases hy with hy | hy
        · obtain ⟨-, l', -, hl', -, -, -, -, -, -, hrev'⟩ := hstolen y hy
          rw [← hxy, hl, Option.some.injEq] at hl'
          subst hl'
          exact hrev'
        · obtain ⟨-, l', -, hl', -, hrev'⟩ := ht.unlocked hfree y hy
          rw [← hxy, hl, Option.some.injEq] at hl'
          subst hl'
          rwa [tx_descriptor.expected, if_pos hflag] at hrev'
      rw [hrev, revision_t.pointer.injEq] at hyrev
      exact Prod.ext hyrev hxy
  · intro _ _ L l _ _ hl hthread hcase
    rw [Pc.past_locks_eq_false hfree] at hcase
    rcases hcase with hcase | hcase | hcase | hcase
    · exact absurd hcase (by simp)
    · exact Or.inr (Or.inl hcase)
    · exact Or.inr (Or.inr (Or.inl hcase))
    · by_cases hflag : l.GCFLAG_PRIVATE_FROM_PROTECTED = true
      · exact Or.inr (Or.inr (Or.inl hflag))
      · refine Or.inr (Or.inr (Or.inr fun R hR => ?_))
        rcases (hmem _).mp hR with hR | hR
        · obtain ⟨-, l', -, hl', -, -, -, -, -, hflag', -⟩ := hstolen _ hR
          rw [hl, Option.some.injEq] at hl'
          subst hl'
          exact hflag hflag'
        · exact hcase R hR

theorem Inv.normalize_step (h : Inv s)
    (hs : step s (.stm_normalize_stolen_objects t) = .next s') : Inv s' := by
  rw [step, guarded_eq_next] at hs
  obtain ⟨hfree, hs⟩ := hs
  obtain ⟨d, hd, hs⟩ := Outcome.bind_eq_next.mp hs
  rw [Outcome.ofOption_eq_next] at hd
  rw [Outcome.next.injEq] at hs
  have hpc : d.pc = (s.threads t).pc := by rw [(stm_normalize_stolen_objects_spec hd).2]
  rw [← hs]
  refine h.normalize hfree hd (?_ : _ → LockState s.heap t d d.pc)
  intro hun
  rw [hpc] at hun ⊢
  cases hpc' : (s.threads t).pc with
  | running => rwa [hpc'] at hun
  | waiting => rwa [hpc'] at hun
  | _ => simp [hpc', Pc.has_collection_lock] at hfree

theorem Inv.LocalizePublic {R L : gcptr} {old : Bool} (h : Inv s)
    (hs : step s (.LocalizePublic t R L old) = .next s') : Inv s' := by
  rw [step] at hs
  cases hr : s.heap R with
  | none =>
      rw [hr] at hs
      exact absurd hs nofun
  | some r =>
      rw [hr] at hs
      obtain ⟨⟨hpc, hstolen, hpub, hold, -, -, hpriv, hL, -⟩, hs⟩ := guarded_eq_next.mp hs
      obtain ⟨g, hg, hs⟩ := Outcome.bind_eq_next.mp hs
      rw [Outcome.ofOption_eq_next] at hg
      rw [Outcome.next.injEq] at hs
      obtain ⟨hmem, hkey⟩ := G2L.g2l_insert_spec hg
      have hRL : R ≠ L := by
        rintro rfl
        exact absurd hr (by simp [hL])
      have hpfp := (h.shape R r hr).pfp_eq_false hpub
      have hback := (h.shape R r hr).backup_eq_false hpub
      -- the flag of `R`, then the copy, then the table
      have h₁ : Inv (s.set_object R { r with GCFLAG_PUBLIC_TO_PRIVATE := true }) :=
        h.set_same hr ⟨rfl, rfl, rfl, rfl, id, rfl⟩
      have h₂ : Inv ((s.set_object R { r with GCFLAG_PUBLIC_TO_PRIVATE := true }).set_object L
          (duplicate r t (s.threads t).stm_private_rev_num old)) := h₁.set_fresh
        ((Function.update_of_ne hRL.symm _ _).trans hL)
        (.of_number rfl rfl fun _ => by simp [duplicate, hback])
        (fun u => by simp [duplicate]) (by simp [duplicate, hpfp])
        (fun M hM => absurd hM (by simp [duplicate]))
      have ht := h₂.thread t
      have hfree : (s.threads t).pc.has_collection_lock = false := by rw [hpc]; rfl
      have hRheap : ((s.set_object R { r with GCFLAG_PUBLIC_TO_PRIVATE := true }).set_object L
          (duplicate r t (s.threads t).stm_private_rev_num old)).heap R
          = some { r with GCFLAG_PUBLIC_TO_PRIVATE := true } := by
        rw [State.set_object_heap, Function.update_of_ne hRL, State.set_object_heap,
          Function.update_self]
      have hLheap : ((s.set_object R { r with GCFLAG_PUBLIC_TO_PRIVATE := true }).set_object L
          (duplicate r t (s.threads t).stm_private_rev_num old)).heap L
          = some (duplicate r t (s.threads t).stm_private_rev_num old) := by
        rw [State.set_object_heap, Function.update_self]
      have hLval : ∀ y ∈ (s.threads t).items, y.2 ≠ L := by
        rintro y hy rfl
        obtain ⟨-, l, -, hl, -⟩ := (h.thread t).item y hy
        exact absurd hl (by simp [hL])
      have hnotlock : r.h_revision ≠ .locked t := by
        intro hlock
        obtain ⟨v, hv⟩ := G2L.mem_keys.mp ((h.thread t).own R r hr hlock)
        exact hkey _ hv rfl
      rw [← hs]
      refine h₂.set_thread ?_ ?_
      · refine @ThreadInv.add_items _ _ _ _ (s.threads t) _ [(R, L)] ht (ht.unlocked hfree)
          (fun x => (hmem x).trans (by rw [List.mem_singleton]; rfl)) rfl rfl hstolen
          (by simp [hstolen]) ?_ ?_ ?_ ?_
        · intro x hx
          rw [List.mem_singleton] at hx
          subst hx
          exact ⟨_, _, hRheap, hLheap, hpub, hold, rfl, by simp [duplicate, hback], rfl⟩
        · intro x hx
          rw [List.mem_singleton] at hx
          subst hx
          refine ⟨_, _, hRheap, hLheap, hnotlock, ?_⟩
          rw [tx_descriptor.expected, if_neg (by simp [duplicate, hpfp])]
          rfl
        · intro x hx y hy hxy
          rw [List.mem_singleton] at hx
          subst hx
          rcases hy with hy | hy
          · rw [List.mem_singleton] at hy
            exact hy.symm
          · exact absurd hxy.symm (hLval y hy)
        · intro hun
          show LockState _ t _ (s.threads t).pc
          rw [hpc]
          exact hun
      · intro S x M m hx hrev hm hthread hcase
        rw [Pc.past_locks_eq_false hfree]
        rcases hcase with hcase | hcase | hcase | hcase
        · exact absurd hcase (by simp [Pc.past_locks_eq_false hfree])
        · exact Or.inr (Or.inl hcase)
        · exact Or.inr (Or.inr (Or.inl hcase))
        · by_cases hM : M = L
          · -- the new object is no stub's target
            subst hM
            obtain ⟨l, hl, -⟩ := h₁.stub S x M (by
              rw [State.set_object_heap, Function.update_apply] at hx
              by_cases hS : S = M
              · rw [if_pos hS, Option.some.injEq] at hx
                subst hx
                exact absurd hrev (by simp [duplicate])
              · rwa [if_neg hS] at hx) hrev
            rw [State.set_object_heap, Function.update_of_ne hRL.symm, hL] at hl
            exact absurd hl (by simp)
          · refine Or.inr (Or.inr (Or.inr fun R' hR' => ?_))
            rcases (hmem _).mp hR' with hR' | hR'
            · exact hM (Prod.mk.inj hR').2
            · exact hcase R' hR'

theorem Inv.stub_malloc {P S : gcptr} (h : Inv s)
    (hs : step s (.stub_malloc P S) = .next s') : Inv s' := by
  rw [step] at hs
  cases hp : s.heap P with
  | none =>
      rw [hp] at hs
      exact absurd hs nofun
  | some p =>
      rw [hp] at hs
      obtain ⟨⟨hpub, hback, hfree, hS, -, hcase⟩, hs⟩ := guarded_eq_next.mp hs
      rw [Outcome.next.injEq] at hs
      rw [← hs]
      refine h.set_fresh hS (.of_public rfl rfl rfl) (fun u => nofun) rfl ?_
      intro L hL
      cases hL
      refine ⟨p, hp, rfl, hback, Or.inr (Or.inr ?_)⟩
      exact hcase.imp id fun hpriv => (h.thread _).not_val hfree hp hpriv

/-- A stub gets the address of what was stolen. -/
theorem Inv.unstub {S L X : gcptr} {x x₀ : object n Content} (h : Inv s) (hx : s.heap S = some x)
    (hrev : x.h_revision = .stub L) (hx₀ : SameHeader x₀ x) (hold : x.GCFLAG_OLD = x₀.GCFLAG_OLD) :
    Inv (s.set_object S { x₀ with h_revision := .pointer X }) := by
  have hpub := (h.shape S x hx).stub L hrev
  refine h.set_public hx (.of_public ?_ ?_ ?_) ?_ (Or.inl ⟨hpub, fun u => ?_⟩) ?_ ?_ nofun
  · exact hx₀.PUBLIC.symm.trans hpub
  · exact hx₀.PRIVATE_FROM_PROTECTED.symm.trans ((h.shape S x hx).pfp_eq_false hpub)
  · exact hx₀.BACKUP_COPY.symm.trans ((h.shape S x hx).backup_eq_false hpub)
  · exact hx₀.PUBLIC.symm.trans hpub
  · simp [hrev]
  · exact fun h => hold ▸ h
  · exact hx₀.thread.symm

/-- The backup copy `B` of the private object `L` is stolen. -/
theorem Inv.steal_backup {L B : gcptr} {l b : object n Content} (h : Inv s)
    (hfree : (s.threads t).pc.has_collection_lock = false) (hl : s.heap L = some l)
    (hthread : l.thread = t) (hpfp : l.GCFLAG_PRIVATE_FROM_PROTECTED = true)
    (hrev : l.h_revision = .pointer B) (hb : s.heap B = some b) (hbpub : b.GCFLAG_PUBLIC = false) :
    Inv ((s.set_object B { b with
        GCFLAG_BACKUP_COPY := false
        GCFLAG_PUBLIC_TO_PRIVATE := true
        GCFLAG_PUBLIC := true }).set_thread t
      { s.threads t with stolen_objects := (s.threads t).stolen_objects ++ [(B, L)] }) := by
  have hd := h.thread t
  have hL : L ∈ (s.threads t).private_from_protected := (hd.pfp L).mpr ⟨l, hl, hpfp, hthread⟩
  -- `B` is a backup copy, since it is not public yet
  obtain ⟨B₁, b₁, hrev₁, hb₁, hold, hcase⟩ := hd.pfp_target (hd.unlocked hfree) hL hl
  rw [hrev, revision_t.pointer.injEq] at hrev₁
  subst hrev₁
  rw [hb, Option.some.injEq] at hb₁
  subst hb₁
  have hval : (∀ R, (R, L) ∉ (s.threads t).items) ∧ b.GCFLAG_BACKUP_COPY = true ∧ b.thread = t := by
    rcases hcase with ⟨-, hnot⟩ | hback | ⟨-, hmem⟩
    · exact absurd hnot (by simp [hbpub])
    · exact hback
    · obtain ⟨-, -, -, b₂, hb₂, hnot, -⟩ := hd.stolen _ hmem
      rw [hb, Option.some.injEq] at hb₂
      exact absurd hnot (by simp [← hb₂, hbpub])
  obtain ⟨hval, hbback, hbthread⟩ := hval
  have hbpfp : b.GCFLAG_PRIVATE_FROM_PROTECTED = false := by
    by_contra hnot
    exact absurd ((h.shape B b hb).pfp (by simpa using hnot)).2 (by simp [hbback])
  obtain ⟨v, hv⟩ := (h.shape B b hb).number hbpub hbpfp
  generalize hb' : { b with
    GCFLAG_BACKUP_COPY := false
    GCFLAG_PUBLIC_TO_PRIVATE := true
    GCFLAG_PUBLIC := true } = b'
  have hshape' : Shape b' := by
    rw [← hb']
    exact .of_public rfl hbpfp rfl
  have hheap : ∀ q, q ≠ B → Function.update s.heap B (some b') q = s.heap q := fun q hq =>
    Function.update_of_ne hq _ _
  have hitem : ∀ x ∈ (s.threads t).items, x.1 ≠ B ∧ x.2 ≠ B := by
    intro x hx
    obtain ⟨r, m, hr, hm, hrpub, -, -, hmback, -⟩ := hd.item x hx
    constructor
    · rintro rfl
      rw [hb, Option.some.injEq] at hr
      exact absurd hrpub (by simp [← hr, hbpub])
    · rintro rfl
      rw [hb, Option.some.injEq] at hm
      exact absurd hbback (by simp [hm, hmback])
  have hstolen : ∀ x ∈ (s.threads t).stolen_objects, x.1 ≠ B := by
    rintro x hx rfl
    obtain ⟨-, -, -, b₂, hb₂, hnot, -⟩ := hd.stolen x hx
    rw [hb, Option.some.injEq] at hb₂
    exact absurd hnot (by simp [← hb₂, hbpub])
  have hpfpne : ∀ P ∈ (s.threads t).private_from_protected, P ≠ B := by
    rintro P hP rfl
    obtain ⟨p, hp, hflag, -⟩ := (hd.pfp P).mp hP
    rw [hb, Option.some.injEq] at hp
    exact absurd hflag (by simp [← hp, hbpfp])
  refine h.of_parts (fun q y hy => ?_) ?_ (fun S y M hy hrev => Or.inl ?_) (fun u => ?_)
  · rw [State.set_thread_heap, State.set_object_heap, Function.update_apply] at hy
    by_cases hq : q = B
    · rw [if_pos hq, Option.some.injEq] at hy
      exact Or.inr (hy ▸ hshape')
    · rw [if_neg hq] at hy
      exact Or.inl hy
  · rintro _ x₀ M - - ⟨m, hm, hmthread, hmback, hmcase⟩
    refine ⟨m, ?_, hmthread, hmback, ?_⟩
    · rw [State.set_thread_heap, State.set_object_heap, hheap, hm]
      rintro rfl
      rw [hb, Option.some.injEq] at hm
      exact absurd hbback (by simp [hm, hmback])
    · by_cases hu : x₀.thread = t
      · rw [hu] at hmcase ⊢
        rw [State.set_thread_self]
        exact hmcase
      · rwa [State.set_thread_of_ne hu]
  · rw [State.set_thread_heap, State.set_object_heap, Function.update_apply] at hy
    by_cases hS : S = B
    · rw [if_pos hS, Option.some.injEq] at hy
      subst hy hb'
      exact absurd hrev (by simp [hv])
    · rw [if_neg hS] at hy
      exact ⟨y, hy, hrev, rfl⟩
  · by_cases hu : u = t
    · subst hu
      rw [State.set_thread_self, State.set_thread_heap, State.set_object_heap]
      refine ⟨?_, hd.val_inj, hd.pfp_nodup, fun P => ?_, ?_, ?_, ?_, ?_, ?_, ?_, ?_⟩
      · intro x hx
        obtain ⟨r, m, hr, hm, hrest⟩ := hd.item x hx
        exact ⟨r, m, (hheap _ (hitem x hx).1).trans hr, (hheap _ (hitem x hx).2).trans hm, hrest⟩
      · rw [hd.pfp, Function.update_apply]
        by_cases hP : P = B
        · subst hP
          rw [if_pos rfl, hb]
          simp [← hb', hbpfp]
        · rw [if_neg hP]
      · intro P hP hPval
        obtain ⟨p, B', b₂, hp, hprev, hb₂, hb₂old, hb₂case⟩ := hd.backup P hP hPval
        by_cases hB' : B' = B
        · -- `L` is the only object with this backup copy
          subst hB'
          have hPL := hd.backup_inj P p L l B' hP hL hPval hval hp hl hprev hrev
          subst hPL
          exact ⟨p, B', b', (hheap _ (hpfpne _ hP)).trans hp, hprev, Function.update_self _ _ _,
            by rw [← hb']; exact hold, Or.inr (List.mem_append_right _ (List.mem_singleton_self _))⟩
        · exact ⟨p, B', b₂, (hheap _ (hpfpne _ hP)).trans hp, hprev, (hheap _ hB').trans hb₂, hb₂old,
            hb₂case.imp id (List.mem_append_left _)⟩
      · intro P p Q q B' hP hQ hPval hQval hp hq
        rw [hheap _ (hpfpne _ hP)] at hp
        rw [hheap _ (hpfpne _ hQ)] at hq
        exact hd.backup_inj P p Q q B' hP hQ hPval hQval hp hq
      · intro x hx
        rcases List.mem_append.mp hx with hx | hx
        · obtain ⟨hkey, hmem, ⟨p, hp, hprev⟩, b₂, hb₂, hrest⟩ := hd.stolen x hx
          exact ⟨hkey, hmem, ⟨p, (hheap _ (hpfpne _ hmem)).trans hp, hprev⟩, b₂,
            (hheap _ (hstolen x hx)).trans hb₂, hrest⟩
        · rw [List.mem_singleton] at hx
          subst hx
          refine ⟨fun hkey => ?_, hL, ⟨l, (hheap _ (hpfpne _ hL)).trans hl, hrev⟩, b',
            Function.update_self _ _ _, by rw [← hb'], by rw [← hb']; exact hold⟩
          obtain ⟨m, hm⟩ := G2L.mem_keys.mp hkey
          exact (hitem _ hm).1 rfl
      · rw [List.map_append, List.nodup_append]
        refine ⟨hd.stolen_nodup, List.nodup_singleton _, ?_⟩
        rintro C hC C' hC' rfl
        obtain ⟨x, hx, rfl⟩ := List.mem_map.mp hC
        exact hstolen x hx (List.mem_singleton.mp hC')
      · intro hnot
        exact absurd hnot (by simp [hfree])
      · intro R r hr hlock
        rw [Function.update_apply] at hr
        by_cases hR : R = B
        · rw [if_pos hR, Option.some.injEq] at hr
          subst hr hb'
          exact absurd hlock (by simp [hv])
        · rw [if_neg hR] at hr
          exact hd.own R r hr hlock
      · have hun : ∀ x ∈ (s.threads u).items,
            Unlocked (Function.update s.heap B (some b')) u (s.threads u) x := by
          intro x hx
          obtain ⟨r, m, hr, hm, hrest⟩ := hd.unlocked hfree x hx
          exact ⟨r, m, (hheap _ (hitem x hx).1).trans hr, (hheap _ (hitem x hx).2).trans hm, hrest⟩
        show LockState _ u _ (s.threads u).pc
        cases hpc : (s.threads u).pc with
        | running => exact hun
        | waiting => exact hun
        | _ => simp [hpc, Pc.has_collection_lock] at hfree
    · rw [State.set_thread_of_ne hu, State.set_thread_heap, State.set_object_heap,
        State.set_object_threads]
      refine (h.thread u).frame (frame_update ?_) h.shape
      rw [hb]
      refine .other hbpub (Or.inl (hbthread ▸ Ne.symm hu)) ?_
      intro y hy
      rw [Option.some.injEq] at hy
      subst hy hb'
      exact ⟨by simp [hv], fun hnot => absurd hnot (by simp [hbpfp])⟩

/-- A protected object of another thread is stolen, or copied out of its nursery. -/
theorem Inv.publish {L : gcptr} {l l' : object n Content} (h : Inv s)
    (hfree : (s.threads t).pc.has_collection_lock = false) (htarget : StubTarget s t L)
    (hl : s.heap L = some l) (hpub : l.GCFLAG_PUBLIC = false)
    (hpfp : l.GCFLAG_PRIVATE_FROM_PROTECTED = false) (hl' : Shape l') (hpub' : l'.GCFLAG_PUBLIC = true)
    (hlock : ∀ u, l'.h_revision ≠ .locked u) (hstub : ∀ M, l'.h_revision ≠ .stub M)
    (hold : l'.GCFLAG_OLD = l.GCFLAG_OLD) (hthread : l'.thread = l.thread) :
    Inv (s.set_object L l') := by
  obtain ⟨l₁, hl₁, hlthread, hback, hval⟩ := htarget.of_free hfree
  rw [hl, Option.some.injEq] at hl₁
  subst hl₁
  exact h.set_public hl hl' hpub' (Or.inr ⟨hpub, hpfp, hback, hval hpub hpfp, hlock⟩)
    (fun ho => by rw [hold, ho]) hthread (fun M hM => absurd hM (hstub M))

theorem Inv.steal {S O L : gcptr} {stub l : object n Content} (h : Inv s)
    (hfree : (s.threads stub.thread).pc.has_collection_lock = false)
    (hS : s.heap S = some stub) (hrev : stub.h_revision = .stub L) (hl : s.heap L = some l)
    (hs : steal s S O L stub l stub.thread = .next s') : Inv s' := by
  have htarget := h.stub S stub L hS hrev
  have hSpub := (h.shape S stub hS).stub L hrev
  obtain ⟨l₁, hl₁, hthread, hback, -⟩ := htarget.of_free hfree
  rw [hl, Option.some.injEq] at hl₁
  subst hl₁
  have hne : l.GCFLAG_PUBLIC = false → S ≠ L := by
    rintro hnot rfl
    rw [hS, Option.some.injEq] at hl
    exact absurd hSpub (by simp [hl, hnot])
  rw [Stmgc.C4.steal] at hs
  by_cases hpfp : l.GCFLAG_PRIVATE_FROM_PROTECTED = true
  · rw [if_pos hpfp] at hs
    cases hlrev : l.h_revision with
    | pointer B =>
        rw [hlrev] at hs
        dsimp only at hs
        cases hb : s.heap B with
        | none =>
            rw [hb] at hs
            exact absurd hs nofun
        | some b =>
            rw [hb] at hs
            dsimp only at hs
            by_cases hflag : b.GCFLAG_PUBLIC_TO_PRIVATE = true
            · -- already stolen
              rw [if_pos hflag, guarded_eq_next, Outcome.next.injEq] at hs
              obtain ⟨hbpub, hs⟩ := hs
              have hbback := (h.shape B b hb).backup_eq_false hbpub
              have h₁ : Inv (s.set_object B { b with GCFLAG_BACKUP_COPY := false }) :=
                h.set_same hb ⟨rfl, rfl, hbback.symm, rfl, id, rfl⟩
              rw [← hs]
              by_cases hSB : S = B
              · subst hSB
                rw [hS, Option.some.injEq] at hb
                subst hb
                exact h₁.unstub (Function.update_self _ _ _) hrev
                  ⟨rfl, rfl, hbback.symm, rfl, id, rfl⟩ rfl
              · exact h₁.unstub ((Function.update_of_ne hSB _ _).trans hS) hrev (.refl _) rfl
            · rw [if_neg hflag, guarded_eq_next, Outcome.next.injEq] at hs
              obtain ⟨hbpub, hs⟩ := hs
              have hSB : S ≠ B := by
                rintro rfl
                rw [hS, Option.some.injEq] at hb
                exact absurd hSpub (by simp [hb, hbpub])
              have h₁ := h.steal_backup hfree hl hthread hpfp hlrev hb hbpub
              rw [← hs]
              exact h₁.unstub ((Function.update_of_ne hSB _ _).trans hS) hrev (.refl _) rfl
    | _ =>
        rw [hlrev] at hs
        exact absurd hs nofun
  · rw [if_neg hpfp] at hs
    rw [Bool.not_eq_true] at hpfp
    by_cases hpub : l.GCFLAG_PUBLIC = true
    · rw [if_pos hpub] at hs
      by_cases hmoved : l.GCFLAG_MOVED = true
      · rw [if_pos hmoved] at hs
        cases hlrev : l.h_revision with
        | pointer X =>
            rw [hlrev] at hs
            dsimp only at hs
            rw [Outcome.next.injEq] at hs
            rw [← hs]
            exact h.unstub hS hrev (.refl _) rfl
        | _ =>
            rw [hlrev] at hs
            exact absurd hs nofun
      · rw [if_neg hmoved, Outcome.next.injEq] at hs
        rw [← hs]
        exact h.unstub hS hrev (.refl _) rfl
    · rw [if_neg hpub] at hs
      rw [Bool.not_eq_true] at hpub
      obtain ⟨v, hv⟩ := (h.shape L l hl).number hpub hpfp
      by_cases hold : l.GCFLAG_OLD = true
      · rw [if_pos hold, Outcome.next.injEq] at hs
        have h₁ : Inv (s.set_object L { l with GCFLAG_PUBLIC := true }) :=
          h.publish hfree htarget hl hpub hpfp (.of_public rfl hpfp hback) rfl (by simp [hv]) (by simp [hv]) rfl rfl
        rw [← hs]
        exact h₁.unstub ((Function.update_of_ne (hne hpub) _ _).trans hS) hrev (.refl _) rfl
      · rw [if_neg hold, guarded_eq_next, Outcome.next.injEq] at hs
        obtain ⟨⟨hO, -⟩, hs⟩ := hs
        have hSO : S ≠ O := by
          rintro rfl
          exact absurd hS (by simp [hO])
        have hLO : L ≠ O := by
          rintro rfl
          exact absurd hl (by simp [hO])
        -- the copy, then the young object, then the stub
        have h₁ : Inv (s.set_object O { l with GCFLAG_OLD := true, GCFLAG_PUBLIC := true }) :=
          h.set_fresh hO (.of_public rfl hpfp hback) (by simp [hv]) hpfp (by simp [hv])
        have h₂ : Inv ((s.set_object O { l with GCFLAG_OLD := true, GCFLAG_PUBLIC := true }).set_object
            L { l with h_revision := .pointer O, GCFLAG_PUBLIC := true, GCFLAG_MOVED := true }) :=
          h₁.publish hfree (h₁.stub S stub L ((Function.update_of_ne hSO _ _).trans hS) hrev)
          ((Function.update_of_ne hLO _ _).trans hl) hpub hpfp (.of_public rfl hpfp hback) rfl
          (by simp) (by simp) rfl rfl
        rw [← hs]
        refine h₂.unstub ?_ hrev (.refl _) rfl
        rw [State.set_object_heap, Function.update_of_ne (hne hpub), State.set_object_heap,
          Function.update_of_ne hSO, hS]

theorem Inv.steal_step {S O : gcptr} (h : Inv s)
    (hs : step s (.stm_steal_stub S O) = .next s') : Inv s' := by
  rw [step] at hs
  cases hS : s.heap S with
  | none =>
      rw [hS] at hs
      exact absurd hs nofun
  | some stub =>
      rw [hS] at hs
      dsimp only at hs
      cases hrev : stub.h_revision with
      | stub L =>
          rw [hrev] at hs
          dsimp only at hs
          cases hl : s.heap L with
          | none =>
              rw [hl] at hs
              exact absurd hs nofun
          | some l =>
              rw [hl] at hs
              obtain ⟨hfree, hs⟩ := guarded_eq_next.mp hs
              exact h.steal hfree hS hrev hl hs
      | _ =>
          rw [hrev] at hs
          exact absurd hs nofun

theorem Inv.shortcut {P_prev P : gcptr} (h : Inv s)
    (hs : step s (.shortcut P_prev P) = .next s') : Inv s' := by
  rw [step] at hs
  cases hprev : s.heap P_prev with
  | none =>
      rw [hprev] at hs
      exact absurd hs nofun
  | some p_prev =>
      cases hp : s.heap P with
      | none =>
          rw [hprev, hp] at hs
          exact absurd hs nofun
      | some p =>
          rw [hprev, hp] at hs
          obtain ⟨⟨hpub, hrev⟩, hs⟩ := guarded_eq_next.mp hs
          cases hv : p.h_revision with
          | pointer v =>
              rw [hv] at hs
              dsimp only at hs
              rw [Outcome.next.injEq] at hs
              have hshape := h.shape P_prev p_prev hprev
              rw [← hs]
              exact h.set_public hprev
                (.of_public hpub (hshape.pfp_eq_false hpub) (hshape.backup_eq_false hpub)) hpub
                (Or.inl ⟨hpub, fun u => by simp [hrev]⟩) id rfl (fun L hL => absurd hL (by simp))
          | _ =>
              rw [hv] at hs
              exact absurd hs nofun

theorem Inv.minor_collect (h : Inv s) (hs : step s (.minor_collect t) = .next s') : Inv s' := by
  rw [step, guarded_eq_next, Outcome.next.injEq] at hs
  rw [← hs.2]
  refine h.same_headers fun p => ?_
  cases hp : s.heap p with
  | none => exact Or.inl ⟨rfl, rfl⟩
  | some x =>
      refine Or.inr ⟨x, _, rfl, rfl, ?_⟩
      dsimp only
      by_cases hx : x.thread = t ∧ x.GCFLAG_PUBLIC = false
      · rw [if_pos hx]
        exact ⟨rfl, rfl, rfl, rfl, fun _ => rfl, rfl⟩
      · rw [if_neg hx]
        exact .refl x

end Steps

end Stmgc.C4
