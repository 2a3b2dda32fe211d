/-
The invariant of the commit protocol.

[`ThreadInv`] says of one thread how its tables and the heap fit together, and
[`LockState`] which of its items are locked, by where the thread is.
[`ThreadInv.frame`] is why it is kept by what other threads do: they do not
touch the objects of a thread, and they lock a public object only with their
own lock.
-/
import Stmgc.C4.Commit

open Stmgc.Lib

namespace Stmgc.C4

variable {n : ℕ} {Content : Type}

/-! ## One object -/

/-- The flags of an object agree with one another and with its revision. -/
structure Shape (x : object n Content) : Prop where
  pfp : x.GCFLAG_PRIVATE_FROM_PROTECTED = true →
    x.GCFLAG_PUBLIC = false ∧ x.GCFLAG_BACKUP_COPY = false
  backup : x.GCFLAG_BACKUP_COPY = true → x.GCFLAG_PUBLIC = false
  /-- a protected object, a backup copy and a local copy have a number -/
  number : x.GCFLAG_PUBLIC = false → x.GCFLAG_PRIVATE_FROM_PROTECTED = false →
    ∃ v, x.h_revision = .number v
  locked : ∀ t, x.h_revision = .locked t → x.GCFLAG_PUBLIC = true
  stub : ∀ p, x.h_revision = .stub p → x.GCFLAG_PUBLIC = true

/-- A public object. -/
theorem Shape.of_public {x : object n Content} (hpub : x.GCFLAG_PUBLIC = true)
    (hpfp : x.GCFLAG_PRIVATE_FROM_PROTECTED = false) (hback : x.GCFLAG_BACKUP_COPY = false) :
    Shape x :=
  ⟨fun h => absurd h (by simp [hpfp]), fun h => absurd h (by simp [hback]),
    fun h => absurd h (by simp [hpub]), fun _ _ => hpub, fun _ _ => hpub⟩

theorem Shape.pfp_eq_false {x : object n Content} (h : Shape x) (hpub : x.GCFLAG_PUBLIC = true) :
    x.GCFLAG_PRIVATE_FROM_PROTECTED = false := by
  by_contra hnot
  exact absurd (h.pfp (by simpa using hnot)).1 (by simp [hpub])

theorem Shape.backup_eq_false {x : object n Content} (h : Shape x) (hpub : x.GCFLAG_PUBLIC = true) :
    x.GCFLAG_BACKUP_COPY = false := by
  by_contra hnot
  exact absurd (h.backup (by simpa using hnot)) (by simp [hpub])

/-- An object that is not public, and has a number. -/
theorem Shape.of_number {x : object n Content} {v : ℤ} (hpub : x.GCFLAG_PUBLIC = false)
    (hrev : x.h_revision = .number v)
    (hflag : x.GCFLAG_PRIVATE_FROM_PROTECTED = true → x.GCFLAG_BACKUP_COPY = false) : Shape x :=
  ⟨fun h => ⟨hpub, hflag h⟩, fun _ => hpub, fun _ _ => ⟨v, hrev⟩,
    fun t h => absurd h (by simp [hrev]), fun p h => absurd h (by simp [hrev])⟩

/-! ## One thread -/

section Thread

variable (heap : Heap n Content) (t : Fin n) (d : tx_descriptor n)

/-- `AcquireLocks` has locked the item, and saved its revision. -/
def Locked (x : wlog_t) : Prop :=
  ∃ r l v, heap x.1 = some r ∧ heap x.2 = some l ∧ r.h_revision = .locked t
    ∧ l.h_revision = .number v ∧ v ≠ d.stm_private_rev_num

/-- The item is not locked by this thread. -/
def Unlocked (x : wlog_t) : Prop :=
  ∃ r l, heap x.1 = some r ∧ heap x.2 = some l ∧ r.h_revision ≠ .locked t
    ∧ l.h_revision = d.expected x.1 l

/-- Which items are locked, by where the thread is. -/
def LockState : Pc n → Prop
  | .running => ∀ x ∈ d.items, Unlocked heap t d x
  | .waiting => ∀ x ∈ d.items, Unlocked heap t d x
  | .aborting => ∀ x ∈ d.items, Unlocked heap t d x
  | .acquire_locks todo => ∃ done, d.items = done ++ todo
      ∧ (∀ x ∈ done, Locked heap t d x) ∧ ∀ x ∈ todo, Unlocked heap t d x
  | .acquire_cas item todo v => (∃ w, v = .number w) ∧ ∃ done, d.items = done ++ item :: todo
      ∧ (∀ x ∈ done, Locked heap t d x) ∧ ∀ x ∈ item :: todo, Unlocked heap t d x
  | .acquired => ∀ x ∈ d.items, Locked heap t d x
  | .cancel_locks todo _ => ∃ restored locked rest, d.items = restored ++ todo
      ∧ todo = locked ++ rest ∧ (∀ x ∈ restored, Unlocked heap t d x)
      ∧ (∀ x ∈ locked, Locked heap t d x) ∧ ∀ x ∈ rest, Unlocked heap t d x
  | .committed _ => d.private_from_protected = [] ∧ ∀ x ∈ d.items, Locked heap t d x
  | .chain_heads todo => d.private_from_protected = [] ∧ (todo.map Prod.fst).Nodup
      ∧ (∀ x ∈ todo, ∃ r, heap x.1 = some r ∧ r.h_revision = .locked t)
      ∧ ∀ R r, heap R = some r → r.h_revision = .locked t → R ∈ todo.map Prod.fst

/-- How the tables of a thread and the heap fit together. -/
structure ThreadInv : Prop where
  item : ∀ x ∈ d.items, ∃ r l, heap x.1 = some r ∧ heap x.2 = some l
    ∧ r.GCFLAG_PUBLIC = true ∧ r.GCFLAG_OLD = true
    ∧ l.GCFLAG_PUBLIC = false ∧ l.GCFLAG_BACKUP_COPY = false ∧ l.thread = t
  /-- an object is the local copy of one public object -/
  val_inj : ∀ x ∈ d.items, ∀ y ∈ d.items, x.2 = y.2 → x = y
  pfp_nodup : d.private_from_protected.Nodup
  pfp : ∀ P, P ∈ d.private_from_protected
    ↔ ∃ p, heap P = some p ∧ p.GCFLAG_PRIVATE_FROM_PROTECTED = true ∧ p.thread = t
  /-- what is not a local copy has its backup copy, perhaps a stolen one -/
  backup : ∀ P ∈ d.private_from_protected, (∀ R, (R, P) ∉ d.items) →
    ∃ p B b, heap P = some p ∧ p.h_revision = .pointer B ∧ heap B = some b ∧ b.GCFLAG_OLD = true
      ∧ (b.GCFLAG_BACKUP_COPY = true ∧ b.thread = t ∨ (B, P) ∈ d.stolen_objects)
  backup_inj : ∀ P p Q q B, P ∈ d.private_from_protected → Q ∈ d.private_from_protected →
    (∀ R, (R, P) ∉ d.items) → (∀ R, (R, Q) ∉ d.items) → heap P = some p → heap Q = some q →
    p.h_revision = .pointer B → q.h_revision = .pointer B → P = Q
  stolen : ∀ x ∈ d.stolen_objects, x.1 ∉ d.public_to_private.keys
    ∧ x.2 ∈ d.private_from_protected
    ∧ (∃ p, heap x.2 = some p ∧ p.h_revision = .pointer x.1)
    ∧ ∃ b, heap x.1 = some b ∧ b.GCFLAG_PUBLIC = true ∧ b.GCFLAG_OLD = true
  stolen_nodup : (d.stolen_objects.map Prod.fst).Nodup
  /-- a thread that holds its `collection_lock` has normalized -/
  normalized : d.pc.has_collection_lock = true → d.stolen_objects = []
  /-- a thread locks the keys of its own table only -/
  own : ∀ R r, heap R = some r → r.h_revision = .locked t → R ∈ d.public_to_private.keys
  locks : LockState heap t d d.pc

end Thread

/-- The code past which a local copy may have become a protected object. -/
def Pc.past_locks : Pc n → Bool
  | .committed _ => true
  | .chain_heads _ => true
  | _ => false

/-- A stub of the thread `t` may point to `L`: an object of `t` that is not one of
its local copies, but for those that are private from protected. -/
def StubTarget (s : State n Content) (t : Fin n) (L : gcptr) : Prop :=
  ∃ l, s.heap L = some l ∧ l.thread = t ∧ l.GCFLAG_BACKUP_COPY = false
    ∧ ((s.threads t).pc.past_locks = true ∨ l.GCFLAG_PUBLIC = true
      ∨ l.GCFLAG_PRIVATE_FROM_PROTECTED = true ∨ ∀ R, (R, L) ∉ (s.threads t).items)

structure Inv (s : State n Content) : Prop where
  shape : ∀ p x, s.heap p = some x → Shape x
  stub : ∀ S x L, s.heap S = some x → x.h_revision = .stub L → StubTarget s x.thread L
  thread : ∀ t, ThreadInv s.heap t (s.threads t)

/-! ## What other threads do -/

/-- The parts of an object that its thread relies on. -/
structure SameHeader (x x' : object n Content) : Prop where
  h_revision : x'.h_revision = x.h_revision
  PUBLIC : x'.GCFLAG_PUBLIC = x.GCFLAG_PUBLIC
  BACKUP_COPY : x'.GCFLAG_BACKUP_COPY = x.GCFLAG_BACKUP_COPY
  PRIVATE_FROM_PROTECTED : x'.GCFLAG_PRIVATE_FROM_PROTECTED = x.GCFLAG_PRIVATE_FROM_PROTECTED
  OLD : x.GCFLAG_OLD = true → x'.GCFLAG_OLD = true
  thread : x'.thread = x.thread

theorem SameHeader.refl (x : object n Content) : SameHeader x x := ⟨rfl, rfl, rfl, rfl, id, rfl⟩

/-- What may happen to the object at `p` for `ThreadInv` of `u` not to notice. -/
inductive FrameAt (u : Fin n) (d : tx_descriptor n) (p : gcptr) :
    Option (object n Content) → Option (object n Content) → Prop where
  | none : FrameAt u d p none none
  | same {x x' : object n Content} (h : SameHeader x x') : FrameAt u d p (some x) (some x')
  /-- a new object -/
  | fresh {x' : object n Content} (hlock : x'.h_revision ≠ .locked u)
      (hpfp : x'.GCFLAG_PRIVATE_FROM_PROTECTED = true → x'.thread ≠ u) : FrameAt u d p none (some x')
  /-- a public object gets another revision -/
  | outdated {x x' : object n Content} (hx : x.GCFLAG_PUBLIC = true) (hx' : x'.GCFLAG_PUBLIC = true)
      (hold : x.GCFLAG_OLD = true → x'.GCFLAG_OLD = true) (hshape : Shape x)
      (hpfp' : x'.GCFLAG_PRIVATE_FROM_PROTECTED = false)
      (hlock : x'.h_revision = .locked u ↔ x.h_revision = .locked u) :
      FrameAt u d p (some x) (some x')
  /-- an object that is not public, and not in use by `u` -/
  | other {x : object n Content} {o : Option (object n Content)} (hx : x.GCFLAG_PUBLIC = false)
      (huse : x.thread ≠ u ∨ (x.GCFLAG_PRIVATE_FROM_PROTECTED = false
        ∧ x.GCFLAG_BACKUP_COPY = false ∧ ∀ R, (R, p) ∉ d.items))
      (ho : ∀ x', o = some x' → x'.h_revision ≠ .locked u
        ∧ (x'.GCFLAG_PRIVATE_FROM_PROTECTED = true → x'.thread ≠ u)) :
      FrameAt u d p (some x) o

def Frame (u : Fin n) (d : tx_descriptor n) (heap heap' : Heap n Content) : Prop :=
  ∀ p, FrameAt u d p (heap p) (heap' p)

section Frame

variable {heap heap' : Heap n Content} {u : Fin n} {d : tx_descriptor n} {p : gcptr}
  {x x' : object n Content}

theorem FrameAt.refl {o : Option (object n Content)} : FrameAt u d p o o := by
  cases o with
  | none => exact .none
  | some x => exact .same (.refl x)

/-- An object that the thread uses stays. -/
theorem Frame.used (h : Frame u d heap heap') (hx : heap p = some x)
    (hpub : x.GCFLAG_PUBLIC = false) (hthread : x.thread = u)
    (huse : x.GCFLAG_PRIVATE_FROM_PROTECTED = true ∨ x.GCFLAG_BACKUP_COPY = true
      ∨ ∃ R, (R, p) ∈ d.items) :
    ∃ x', heap' p = some x' ∧ SameHeader x x' := by
  have hp := h p
  rw [hx] at hp
  generalize ho : heap' p = o at hp
  cases hp with
  | same hsame => exact ⟨_, rfl, hsame⟩
  | outdated hx => exact absurd hx (by simp [hpub])
  | other _ hnot _ =>
      rcases hnot with hne | ⟨hpfp, hbackup, hitem⟩
      · exact absurd hthread hne
      · rcases huse with huse | huse | ⟨R, huse⟩
        · exact absurd huse (by simp [hpfp])
        · exact absurd huse (by simp [hbackup])
        · exact absurd huse (hitem R)

/-- A public object stays public, and is locked by the thread as it was. -/
theorem Frame.public (h : Frame u d heap heap') (hx : heap p = some x)
    (hpub : x.GCFLAG_PUBLIC = true) :
    ∃ x', heap' p = some x' ∧ x'.GCFLAG_PUBLIC = true
      ∧ (x.GCFLAG_OLD = true → x'.GCFLAG_OLD = true)
      ∧ (x'.h_revision = .locked u ↔ x.h_revision = .locked u) := by
  have hp := h p
  rw [hx] at hp
  generalize ho : heap' p = o at hp
  cases hp with
  | same hsame =>
      exact ⟨_, rfl, by rw [hsame.PUBLIC, hpub], hsame.OLD, by rw [hsame.h_revision]⟩
  | outdated _ hx' hold _ _ hlock => exact ⟨_, rfl, hx', hold, hlock⟩
  | other hx => exact absurd hpub (by simp [hx])

/-- What the thread has private from protected is not new. -/
theorem Frame.pfp (h : Frame u d heap heap') (hx' : heap' p = some x')
    (hpfp : x'.GCFLAG_PRIVATE_FROM_PROTECTED = true) (hthread : x'.thread = u) :
    ∃ x, heap p = some x ∧ SameHeader x x' := by
  have hp := h p
  rw [hx'] at hp
  generalize ho : heap p = o at hp
  cases hp with
  | same hsame => exact ⟨_, rfl, hsame⟩
  | fresh _ hnot => exact absurd hthread (hnot hpfp)
  | outdated _ _ _ _ hnot => exact absurd hpfp (by simp [hnot])
  | other _ _ ho => exact absurd hthread ((ho _ rfl).2 hpfp)

/-- A lock of the thread is not new. -/
theorem Frame.locked (h : Frame u d heap heap') (hx' : heap' p = some x')
    (hlock : x'.h_revision = .locked u) : ∃ x, heap p = some x ∧ x.h_revision = .locked u := by
  have hp := h p
  rw [hx'] at hp
  generalize ho : heap p = o at hp
  cases hp with
  | same hsame => exact ⟨_, rfl, by rw [← hsame.h_revision, hlock]⟩
  | fresh hnot _ => exact absurd hlock hnot
  | outdated _ _ _ _ _ hiff => exact ⟨_, rfl, hiff.mp hlock⟩
  | other _ _ ho => exact absurd hlock (ho _ rfl).1

variable (hinv : ThreadInv heap u d) (h : Frame u d heap heap')
include hinv h

theorem ThreadInv.frame_item {y : wlog_t} (hy : y ∈ d.items) : ∃ r l r' l',
    heap y.1 = some r ∧ heap y.2 = some l ∧ heap' y.1 = some r' ∧ heap' y.2 = some l'
    ∧ r'.GCFLAG_PUBLIC = true ∧ r'.GCFLAG_OLD = true ∧ SameHeader l l'
    ∧ (r'.h_revision = .locked u ↔ r.h_revision = .locked u)
    ∧ l.GCFLAG_PUBLIC = false ∧ l.GCFLAG_BACKUP_COPY = false ∧ l.thread = u := by
  obtain ⟨r, l, hr, hl, hpub, hold, hnpub, hback, hthread⟩ := hinv.item y hy
  obtain ⟨r', hr', hpub', hold', hlock⟩ := h.public hr hpub
  obtain ⟨l', hl', hsame⟩ := h.used hl hnpub hthread (Or.inr (Or.inr ⟨y.1, hy⟩))
  exact ⟨r, l, r', l', hr, hl, hr', hl', hpub', hold' hold, hsame, hlock, hnpub, hback, hthread⟩

theorem ThreadInv.frame_locked {y : wlog_t} (hy : y ∈ d.items) (hl : Locked heap u d y) :
    Locked heap' u d y := by
  obtain ⟨r, l, r', l', hr, hl₀, hr', hl', -, -, hsame, hlock, -⟩ := hinv.frame_item h hy
  obtain ⟨r₁, l₁, v, hr₁, hl₁, hrev, hv, hne⟩ := hl
  rw [hr, Option.some.injEq] at hr₁
  rw [hl₀, Option.some.injEq] at hl₁
  subst hr₁ hl₁
  exact ⟨r', l', v, hr', hl', hlock.mpr hrev, hsame.h_revision ▸ hv, hne⟩

theorem ThreadInv.frame_unlocked {y : wlog_t} (hy : y ∈ d.items) (hu : Unlocked heap u d y) :
    Unlocked heap' u d y := by
  obtain ⟨r, l, r', l', hr, hl₀, hr', hl', -, -, hsame, hlock, -⟩ := hinv.frame_item h hy
  obtain ⟨r₁, l₁, hr₁, hl₁, hrev, hv⟩ := hu
  rw [hr, Option.some.injEq] at hr₁
  rw [hl₀, Option.some.injEq] at hl₁
  subst hr₁ hl₁
  refine ⟨r', l', hr', hl', fun hrev' => hrev (hlock.mp hrev'), ?_⟩
  rw [hsame.h_revision, hv, tx_descriptor.expected, tx_descriptor.expected,
    hsame.PRIVATE_FROM_PROTECTED]

theorem ThreadInv.frame_locks : LockState heap' u d d.pc := by
  have hlocks := hinv.locks
  have hown := hinv.own
  have hkeep : ∀ {y}, y ∈ d.items → Locked heap u d y → Locked heap' u d y := hinv.frame_locked h
  have hkeep' : ∀ {y}, y ∈ d.items → Unlocked heap u d y → Unlocked heap' u d y :=
    hinv.frame_unlocked h
  generalize d.pc = pc at hlocks ⊢
  cases pc with
  | running => exact fun x hx => hkeep' hx (hlocks x hx)
  | waiting => exact fun x hx => hkeep' hx (hlocks x hx)
  | aborting => exact fun x hx => hkeep' hx (hlocks x hx)
  | acquired => exact fun x hx => hkeep hx (hlocks x hx)
  | acquire_locks todo =>
      obtain ⟨done, hsplit, hdone, htodo⟩ := hlocks
      refine ⟨done, hsplit, fun x hx => hkeep ?_ (hdone x hx), fun x hx => hkeep' ?_ (htodo x hx)⟩
      · simp [hsplit, hx]
      · simp [hsplit, hx]
  | acquire_cas item todo v =>
      obtain ⟨hv, done, hsplit, hdone, htodo⟩ := hlocks
      refine ⟨hv, done, hsplit, fun x hx => hkeep ?_ (hdone x hx),
        fun x hx => hkeep' ?_ (htodo x hx)⟩
      · simp [hsplit, hx]
      · rw [hsplit, List.mem_append]
        exact Or.inr hx
  | cancel_locks todo abort =>
      obtain ⟨restored, locked, rest, hsplit, htodo, hrestored, hlocked, hrest⟩ := hlocks
      refine ⟨restored, locked, rest, hsplit, htodo, fun x hx => hkeep' ?_ (hrestored x hx),
        fun x hx => hkeep ?_ (hlocked x hx), fun x hx => hkeep' ?_ (hrest x hx)⟩
      · simp [hsplit, hx]
      · simp [hsplit, htodo, hx]
      · simp [hsplit, htodo, hx]
  | committed cur_time => exact ⟨hlocks.1, fun x hx => hkeep hx (hlocks.2 x hx)⟩
  | chain_heads todo =>
      obtain ⟨hnil, hnodup, htodo, hlocked⟩ := hlocks
      refine ⟨hnil, hnodup, fun x hx => ?_, fun R r hr hrev => ?_⟩
      · obtain ⟨r, hr, hrev⟩ := htodo x hx
        obtain ⟨v, hv⟩ := G2L.mem_keys.mp (hown _ _ hr hrev)
        obtain ⟨r₁, l, r', l', hr₁, -, hr', -, -, -, -, hlock, -⟩ := hinv.frame_item h hv
        rw [hr, Option.some.injEq] at hr₁
        subst hr₁
        exact ⟨r', hr', hlock.mpr hrev⟩
      · obtain ⟨r₀, hr₀, hrev₀⟩ := h.locked hr hrev
        exact hlocked R r₀ hr₀ hrev₀

theorem ThreadInv.frame (hshape : ∀ p x, heap p = some x → Shape x) : ThreadInv heap' u d := by
  have hpfp : ∀ P ∈ d.private_from_protected, ∃ p p', heap P = some p ∧ heap' P = some p'
      ∧ SameHeader p p' := by
    intro P hP
    obtain ⟨p, hp, hflag, hthread⟩ := (hinv.pfp P).mp hP
    obtain ⟨p', hp', hsame⟩ := h.used hp ((hshape _ _ hp).pfp hflag).1 hthread (Or.inl hflag)
    exact ⟨p, p', hp, hp', hsame⟩
  refine ⟨?_, hinv.val_inj, hinv.pfp_nodup, ?_, ?_, ?_, ?_, hinv.stolen_nodup, hinv.normalized, ?_,
    hinv.frame_locks h⟩
  · intro x hx
    obtain ⟨r, l, r', l', -, -, hr', hl', hpub, hold, hsame, -, hnpub, hback, hthread⟩ :=
      hinv.frame_item h hx
    exact ⟨r', l', hr', hl', hpub, hold, by rw [hsame.PUBLIC, hnpub],
      by rw [hsame.BACKUP_COPY, hback], by rw [hsame.thread, hthread]⟩
  · intro P
    rw [hinv.pfp]
    constructor
    · rintro ⟨p, hp, hflag, hthread⟩
      obtain ⟨p', hp', hsame⟩ := h.used hp ((hshape _ _ hp).pfp hflag).1 hthread (Or.inl hflag)
      exact ⟨p', hp', by rw [hsame.PRIVATE_FROM_PROTECTED, hflag], by rw [hsame.thread, hthread]⟩
    · rintro ⟨p', hp', hflag, hthread⟩
      obtain ⟨p, hp, hsame⟩ := h.pfp hp' hflag hthread
      exact ⟨p, hp, by rw [← hsame.PRIVATE_FROM_PROTECTED, hflag], by rw [← hsame.thread, hthread]⟩
  · intro P hP hitem
    obtain ⟨p, B, b, hp, hrev, hb, hold, hcase⟩ := hinv.backup P hP hitem
    obtain ⟨p₁, p', hp₁, hp', hsame⟩ := hpfp P hP
    rw [hp, Option.some.injEq] at hp₁
    subst hp₁
    rcases hcase with ⟨hback, hthread⟩ | hstolen
    · obtain ⟨b', hb', hsameb⟩ := h.used hb ((hshape _ _ hb).backup hback) hthread
        (Or.inr (Or.inl hback))
      exact ⟨p', B, b', hp', by rw [hsame.h_revision, hrev], hb', hsameb.OLD hold,
        Or.inl ⟨by rw [hsameb.BACKUP_COPY, hback], by rw [hsameb.thread, hthread]⟩⟩
    · obtain ⟨-, -, -, b₁, hb₁, hpub, hold₁⟩ := hinv.stolen _ hstolen
      obtain ⟨b', hb', hpub', hold', -⟩ := h.public hb₁ hpub
      exact ⟨p', B, b', hp', by rw [hsame.h_revision, hrev], hb', hold' hold₁, Or.inr hstolen⟩
  · intro P p' Q q' B hP hQ hitemP hitemQ hp' hq' hrevp hrevq
    obtain ⟨p, p₁, hp, hp₁, hsame⟩ := hpfp P hP
    obtain ⟨q, q₁, hq, hq₁, hsameq⟩ := hpfp Q hQ
    rw [hp', Option.some.injEq] at hp₁
    rw [hq', Option.some.injEq] at hq₁
    subst hp₁ hq₁
    exact hinv.backup_inj P p Q q B hP hQ hitemP hitemQ hp hq (hsame.h_revision ▸ hrevp)
      (hsameq.h_revision ▸ hrevq)
  · intro x hx
    obtain ⟨hkey, hmem, ⟨p, hp, hrev⟩, b, hb, hpub, hold⟩ := hinv.stolen x hx
    obtain ⟨p₁, p', hp₁, hp', hsame⟩ := hpfp x.2 hmem
    rw [hp, Option.some.injEq] at hp₁
    subst hp₁
    obtain ⟨b', hb', hpub', hold', -⟩ := h.public hb hpub
    exact ⟨hkey, hmem, ⟨p', hp', by rw [hsame.h_revision, hrev]⟩, b', hb', hpub', hold' hold⟩
  · intro R r hr hrev
    obtain ⟨r₀, hr₀, hrev₀⟩ := h.locked hr hrev
    exact hinv.own R r₀ hr₀ hrev₀

end Frame

end Stmgc.C4
