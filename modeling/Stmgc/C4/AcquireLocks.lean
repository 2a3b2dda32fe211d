/-
What `AcquireLocks` and `CancelLocks` guarantee in every run of any number of
threads.

The order of the locks is the order of `G2L_LOOP_FORWARD`, which the addresses
alone decide. So the objects that the threads of a chain of waits wait for come
one after another in it, and no chain closes. What `CancelLocks` puts back is
what the objects had: the number of a public object is in its `h_revision`, or
saved by the thread that has it locked, until a commit replaces it.
-/
import Stmgc.C4.CommitEffect

open Stmgc.Lib

namespace Stmgc.C4

variable {n : ℕ} {Content : Type} {s s' : State n Content} {t : Fin n} {a : Act n Content}

/-! ## The order of the locks -/

/-- The items that `AcquireLocks` has still to lock. -/
def Pc.to_lock : Pc n → Option (List wlog_t)
  | .acquire_locks todo => some todo
  | .acquire_cas item todo _ => some (item :: todo)
  | .acquired => some []
  | _ => none

def LockedBy (s : State n Content) (t : Fin n) (R : gcptr) : Prop :=
  ∃ r, s.heap R = some r ∧ r.h_revision = .locked t

/-- `t` spins in `AcquireLocks` on an object that `u` has locked. -/
def WaitsFor (s : State n Content) (t u : Fin n) : Prop :=
  ∃ R L todo, (s.threads t).pc = .acquire_locks ((R, L) :: todo) ∧ u ≠ t ∧ LockedBy s u R

/-- The locked objects are the first ones of the order. -/
theorem locked_prefix (h : Inv s) {todo : List wlog_t}
    (hpc : (s.threads t).pc.to_lock = some todo) :
    ∃ done, (s.threads t).items = done ++ todo ∧ ∀ R, LockedBy s t R ↔ R ∈ done.map Prod.fst := by
  have hd := h.thread t
  have hlocks := hd.locks
  have hsplit : ∃ done, (s.threads t).items = done ++ todo
      ∧ (∀ x ∈ done, Locked s.heap t (s.threads t) x)
      ∧ ∀ x ∈ todo, Unlocked s.heap t (s.threads t) x := by
    cases hpc' : (s.threads t).pc with
    | acquire_locks todo' =>
        rw [hpc'] at hpc hlocks
        obtain rfl := Option.some.inj hpc
        exact hlocks
    | acquire_cas item todo' v =>
        rw [hpc'] at hpc hlocks
        obtain rfl := Option.some.inj hpc
        exact hlocks.2
    | acquired =>
        rw [hpc'] at hpc hlocks
        obtain rfl := Option.some.inj hpc
        exact ⟨_, (List.append_nil _).symm, hlocks, nofun⟩
    | _ =>
        rw [hpc'] at hpc
        exact absurd hpc nofun
  obtain ⟨done, hsplit, hdone, htodo⟩ := hsplit
  refine ⟨done, hsplit, fun R => ⟨?_, fun hR => ?_⟩⟩
  · rintro ⟨r, hr, hrev⟩
    obtain ⟨L, hmem⟩ := G2L.mem_keys.mp (hd.own R r hr hrev)
    have hmem' : (R, L) ∈ done ++ todo := hsplit ▸ hmem
    rcases List.mem_append.mp hmem' with hdone' | htodo'
    · exact List.mem_map_of_mem hdone'
    · obtain ⟨r', l, hr', -, hnot, -⟩ := htodo _ htodo'
      rw [hr, Option.some.injEq] at hr'
      exact absurd (hr' ▸ hrev) hnot
  · obtain ⟨x, hx, rfl⟩ := List.mem_map.mp hR
    obtain ⟨r, l, v, hr, -, hrev, -⟩ := hdone x hx
    exact ⟨r, hr, hrev⟩

/-- The object that `t` waits for. -/
def WaitsOn (s : State n Content) (t : Fin n) (R : gcptr) : Prop :=
  ∃ L todo, (s.threads t).pc = .acquire_locks ((R, L) :: todo)

/-- What a thread has locked comes before what it waits for. -/
theorem Inv.locked_before (h : Inv s) {R R' : gcptr} (hR : LockedBy s t R) (hR' : WaitsOn s t R') :
    Before R R' := by
  obtain ⟨L, todo, hpc⟩ := hR'
  have htodo : (s.threads t).pc.to_lock = some ((R', L) :: todo) := by rw [hpc]; rfl
  obtain ⟨done, hsplit, hiff⟩ := locked_prefix h htodo
  obtain ⟨x, hx, rfl⟩ := List.mem_map.mp ((hiff R).mp hR)
  exact G2L.before_of_split hsplit hx

theorem Inv.waits_before (h : Inv s) {u : Fin n} (hchain : Relation.TransGen (WaitsFor s) t u)
    {R R' : gcptr} (hR : WaitsOn s t R) (hR' : WaitsOn s u R') : Before R R' := by
  have hhead : ∀ {v w : Fin n} {Q Q' : gcptr}, WaitsFor s v w → WaitsOn s v Q → WaitsOn s w Q' →
      Before Q Q' := by
    rintro v w Q Q' ⟨P, L, todo, hpc, -, hlocked⟩ ⟨L', todo', hpc'⟩ hQ'
    rw [hpc, Pc.acquire_locks.injEq, List.cons.injEq, Prod.mk.injEq] at hpc'
    exact hpc'.1.1 ▸ h.locked_before hlocked hQ'
  induction hchain generalizing R' with
  | single hw => exact hhead hw hR hR'
  | tail _ hw ih =>
      obtain ⟨P, L, todo, hpc, -⟩ := id hw
      exact (ih ⟨L, todo, hpc⟩).trans (hhead hw ⟨L, todo, hpc⟩ hR')

/-- No thread waits for itself, through any number of others. -/
theorem Inv.not_waits (h : Inv s) (t : Fin n) : ¬ Relation.TransGen (WaitsFor s) t t := by
  intro hchain
  obtain ⟨u, ⟨R, L, todo, hpc, -⟩, -⟩ := Relation.TransGen.head'_iff.mp hchain
  exact Before.irrefl (h.waits_before hchain ⟨L, todo, hpc⟩ ⟨L, todo, hpc⟩)

/-! ## The revisions of the public objects -/

/-- The revision number of the public `R` is `w`: it is in the object, or saved
by the thread that has it locked and has not committed. -/
def Revision (s : State n Content) (R : gcptr) (w : ℤ) : Prop :=
  ∃ r, s.heap R = some r ∧ r.GCFLAG_PUBLIC = true
    ∧ (r.h_revision = .number w
      ∨ ∃ u L l, r.h_revision = .locked u ∧ (s.threads u).pc.past_locks = false
        ∧ (R, L) ∈ (s.threads u).items ∧ s.heap L = some l ∧ l.h_revision = .number w)

/-- A transaction has committed another version of the public `R`. -/
def Published (s : State n Content) (R : gcptr) : Prop :=
  ∃ r, s.heap R = some r ∧ r.GCFLAG_PUBLIC = true
    ∧ (IS_POINTER r.h_revision = true
      ∨ ∃ u, r.h_revision = .locked u ∧ (s.threads u).pc.past_locks = true)

/-- A thread with a lock on an object is in its commit, and has the object in its table. -/
theorem Inv.locked_item (h : Inv s) {R : gcptr} {r : object n Content} (hr : s.heap R = some r)
    (hrev : r.h_revision = .locked t) :
    (s.threads t).pc.has_collection_lock = true ∧ ∃ L, (R, L) ∈ (s.threads t).items := by
  have hd := h.thread t
  obtain ⟨L, hmem⟩ := G2L.mem_keys.mp (hd.own R r hr hrev)
  refine ⟨?_, L, hmem⟩
  by_contra hfree
  obtain ⟨r', l, hr', -, hnot, -⟩ := hd.unlocked (by simpa using hfree) _ hmem
  rw [hr, Option.some.injEq] at hr'
  exact hnot (hr' ▸ hrev)

/-- An object of a thread that holds its `collection_lock`, after a step of another. -/
theorem own_step (h : Inv s) (hlock : (s.threads t).pc.has_collection_lock = true)
    (ha : ¬ a.commits t) (hs : step s a = .next s') {p : gcptr} {x : object n Content}
    (hx : s.heap p = some x) (hthread : x.thread = t) (hpub : x.GCFLAG_PUBLIC = false) :
    ∃ x', s'.heap p = some x' ∧ SameHeader x x' ∧ x'.content = x.content := by
  cases effect_at h hs hx with
  | same x' hx' hsame hcontent => exact ⟨x', hx', hsame, hcontent⟩
  | own _ hfree =>
      rw [hthread] at hfree
      rcases hfree with hfree | hcommits
      · exact absurd hlock (by simp [hfree])
      · exact absurd hcommits ha
  | shared _ hnot _ _ _ _ _ => exact absurd hnot (by simp [hpub])
  | moved _ hnot _ _ _ => exact absurd hnot (by simp [hpub])

/-- `AcquireLocks` keeps the table. -/
theorem acquire_threads (hs : step s (.AcquireLocks t) = .next s') :
    (s'.threads t).items = (s.threads t).items
      ∧ ((s.threads t).pc.past_locks = false ∧ (s'.threads t).pc.past_locks = false) := by
  cases acquire_step hs with
  | spin hpc hr hrev hu => exact ⟨rfl, by rw [hpc]; rfl, by rw [hpc]; rfl⟩
  | done hpc => exact ⟨by rw [State.set_pc_self]; rfl, by rw [hpc]; rfl, by rw [State.set_pc_self]; rfl⟩
  | abort hpc hr hrev =>
      exact ⟨by rw [State.set_pc_self]; rfl, by rw [hpc]; rfl, by rw [State.set_pc_self]; rfl⟩
  | load hpc hr hrev =>
      exact ⟨by rw [State.set_pc_self]; rfl, by rw [hpc]; rfl, by rw [State.set_pc_self]; rfl⟩
  | retry hpc => exact ⟨by rw [State.set_pc_self]; rfl, by rw [hpc]; rfl, by rw [State.set_pc_self]; rfl⟩
  | lock hpc hr hl hrev hexp hv =>
      exact ⟨by rw [State.set_pc_self]; rfl, by rw [hpc]; rfl, by rw [State.set_pc_self]; rfl⟩

theorem cancel_threads (h : Inv s) (hs : step s (.CancelLocks t) = .next s') :
    (s'.threads t).items = (s.threads t).items
      ∧ ((s.threads t).pc.past_locks = false ∧ (s'.threads t).pc.past_locks = false) := by
  cases h.cancel_step hs with
  | @done abort hpc =>
      refine ⟨by rw [State.set_pc_self]; rfl, by rw [hpc]; rfl, ?_⟩
      rw [State.set_pc_self]
      cases abort with
      | true => rfl
      | false => rfl
  | stop hpc hr hl hexp =>
      exact ⟨by rw [State.set_pc_self]; rfl, by rw [hpc]; rfl, by rw [State.set_pc_self]; rfl⟩
  | unlock hpc hr hl hexp hne =>
      exact ⟨by rw [State.set_pc_self]; rfl, by rw [hpc]; rfl, by rw [State.set_pc_self]; rfl⟩

/-- A saved revision stays saved while the object is locked, until the thread commits. -/
theorem saved_step (h : Inv s) (hs : step s a = .next s') {R L : gcptr} {r r' l : object n Content}
    {u : Fin n} {w : ℤ} (hr : s.heap R = some r) (hrev : r.h_revision = .locked u)
    (hpast : (s.threads u).pc.past_locks = false) (hmem : (R, L) ∈ (s.threads u).items)
    (hl : s.heap L = some l) (hlrev : l.h_revision = .number w) (hr' : s'.heap R = some r')
    (hrev' : r'.h_revision = .locked u) :
    (s'.threads u).pc.past_locks = true
      ∨ (s'.threads u).pc.past_locks = false ∧ (R, L) ∈ (s'.threads u).items
        ∧ ∃ l', s'.heap L = some l' ∧ l'.h_revision = .number w := by
  have hd := h.thread u
  obtain ⟨r₁, l₁, hr₁, hl₁, hrpub, -, hlpub, -, hlt⟩ := hd.item _ hmem
  rw [hr, Option.some.injEq] at hr₁
  rw [hl, Option.some.injEq] at hl₁
  subst hr₁ hl₁
  by_cases ha : a.commits u
  · have hitem : ∀ {item : wlog_t} {b c : revision_t n} {r₀ l₀ : object n Content},
        item ∈ (s.threads u).items → (R, L) ≠ item → s'.heap = item_heap s.heap item r₀ l₀ b c →
        ∃ l', s'.heap L = some l' ∧ l'.h_revision = .number w := by
      intro item b c r₀ l₀ hitem hne hheap
      obtain ⟨-, -, h3, h4⟩ := hd.item_ne hitem hmem hne
      exact ⟨l, by rw [hheap, item_heap_of_ne h3 h4, hl], hlrev⟩
    cases a with
    | AcquireLocks v =>
        obtain rfl : v = u := ha
        obtain ⟨hitems, -, hpast'⟩ := acquire_threads hs
        refine Or.inr ⟨hpast', hitems ▸ hmem, ?_⟩
        have hlocks := hd.locks
        cases acquire_step hs with
        | @lock item todo r₀ l₀ v₀ hpc hr₀ hl₀ hv₀ hexp hv =>
            rw [hpc] at hlocks
            obtain ⟨⟨w₀, rfl⟩, done, hsplit, -, -⟩ := hlocks
            have hlocked : item ∈ (s.threads v).items := by rw [hsplit]; simp
            refine hitem hlocked ?_ rfl
            rintro rfl
            rw [hr, Option.some.injEq] at hr₀
            exact absurd hrev (by simp [hr₀, hv₀])
        | _ => exact ⟨l, hl, hlrev⟩
    | CancelLocks v =>
        obtain rfl : v = u := ha
        obtain ⟨hitems, -, hpast'⟩ := cancel_threads h hs
        refine Or.inr ⟨hpast', hitems ▸ hmem, ?_⟩
        cases h.cancel_step hs with
        | @unlock item todo abort r₀ l₀ hpc hr₀ hl₀ hexp hne =>
            obtain ⟨hitem', -⟩ := h.cancel_head hpc
            refine hitem hitem' ?_ rfl
            rintro rfl
            rw [hl, Option.some.injEq] at hl₀
            subst hl₀
            obtain rfl := Option.some.inj ((item_heap_key hne).symm.trans hr')
            exact absurd hrev' (by simp [hlrev])
        | _ => exact ⟨l, hl, hlrev⟩
    | call_CancelLocks v abort =>
        obtain rfl : v = u := ha
        rw [step, guarded_eq_next, Outcome.next.injEq] at hs
        rw [← hs.2]
        refine Or.inr ⟨by rw [State.set_pc_self]; rfl, by rw [State.set_pc_self]; exact hmem, l, hl, hlrev⟩
    | CommitPrivateFromProtected v cur_time =>
        obtain rfl : v = u := ha
        rw [step, guarded_eq_next] at hs
        obtain ⟨hpc, hs⟩ := hs
        obtain ⟨heap', hrun, -⟩ := h.commit_private_from_protected hpc cur_time
        rw [hrun] at hs
        dsimp only at hs
        rw [Outcome.next.injEq] at hs
        refine Or.inl ?_
        rw [← hs, State.set_thread_self]
        rfl
    | new_heads v items =>
        obtain rfl : v = u := ha
        rw [step] at hs
        cases hpc : (s.threads v).pc with
        | committed cur_time => exact absurd hpast (by rw [hpc]; simp [Pc.past_locks])
        | _ =>
            rw [hpc] at hs
            simp at hs
    | UpdateChainHeads v R₀ =>
        obtain rfl : v = u := ha
        rw [step] at hs
        cases hpc : (s.threads v).pc with
        | chain_heads todo => exact absurd hpast (by rw [hpc]; simp [Pc.past_locks])
        | _ =>
            rw [hpc] at hs
            simp at hs
    | commit_done v =>
        obtain rfl : v = u := ha
        rw [step, guarded_eq_next] at hs
        exact absurd hpast (by rw [hs.1]; simp [Pc.past_locks])
    | abort_done v =>
        obtain rfl : v = u := ha
        rw [step, guarded_eq_next] at hs
        obtain ⟨r₁, l₁, hr₁, -, hnot, -⟩ := h.aborting_unlocked hs.1 _ hmem
        rw [hr, Option.some.injEq] at hr₁
        exact absurd (hr₁ ▸ hrev) hnot
    | _ => exact absurd ha id
  · obtain ⟨hlock, -⟩ := h.locked_item hr hrev
    have hthread := threads_step h hlock ha hs
    obtain ⟨l', hl', hsame, -⟩ := own_step h hlock ha hs hl hlt hlpub
    rw [hthread]
    exact Or.inr ⟨hpast, hmem, l', hl', by rw [hsame.h_revision, hlrev]⟩

/-- The revision of a public object stays, until a transaction commits another. -/
theorem revision_step (h : Inv s) (hlock : (s.threads t).pc.has_collection_lock = true)
    (hs : step s a = .next s') {R : gcptr} {w : ℤ} (hR : Revision s R w) :
    Revision s' R w ∨ Published s' R := by
  obtain ⟨r, hr, hpub, hcase⟩ := hR
  -- when the `h_revision` itself stays
  have hkeep : ∀ r', s'.heap R = some r' → r'.GCFLAG_PUBLIC = true → r'.h_revision = r.h_revision →
      Revision s' R w ∨ Published s' R := by
    intro r' hr' hpub' hsame
    rcases hcase with hnum | ⟨u, L, l, hrev, hpast, hmem, hl, hlrev⟩
    · exact Or.inl ⟨r', hr', hpub', Or.inl (hsame.trans hnum)⟩
    · have hrev' := hsame.trans hrev
      rcases saved_step h hs hr hrev hpast hmem hl hlrev hr' hrev' with hpast' | ⟨hpast', hmem', l', hl', hlrev'⟩
      · exact Or.inr ⟨r', hr', hpub', Or.inr ⟨u, hrev', hpast'⟩⟩
      · exact Or.inl ⟨r', hr', hpub', Or.inr ⟨u, L, l', hrev', hpast', hmem', hl', hlrev'⟩⟩
  cases effect_at h hs hr with
  | same r' hr' hsame _ => exact hkeep r' hr' (hsame.PUBLIC.trans hpub) hsame.h_revision
  | own hnot _ => exact absurd hpub (by simp [hnot])
  | moved _ _ _ _ hfree => exact absurd hlock (by simp [hfree t])
  | shared r' _ hr' hpub' _ _ hrev =>
      generalize hv' : r'.h_revision = v' at hrev
      cases hrev with
      | same => exact hkeep r' hr' hpub' hv'
      | @lock u L l w' ha hv hmem hl hlrev =>
          subst ha
          obtain ⟨hitems, -, hpast⟩ := acquire_threads hs
          rcases hcase with hnum | ⟨u', L', l', hrev', -⟩
          · obtain rfl := revision_t.number.inj (hv.symm.trans hnum)
            exact Or.inl ⟨r', hr', hpub', Or.inr ⟨u, L, l, hv', hpast, hitems ▸ hmem, hl, hlrev⟩⟩
          · exact absurd hv (by simp [hrev'])
      | @unlock u L l w' ha hv hmem hl hlrev =>
          rcases hcase with hnum | ⟨u', L', l', hrev', -, hmem', hl', hlrev'⟩
          · exact absurd hv (by simp [hnum])
          · obtain rfl := revision_t.locked.inj (hv.symm.trans hrev')
            obtain rfl := G2L.eq_of_mem hmem hmem'
            rw [hl, Option.some.injEq] at hl'
            subst hl'
            obtain rfl := revision_t.number.inj (hlrev.symm.trans hlrev')
            exact Or.inl ⟨r', hr', hpub', Or.inl hv'⟩
      | publish ha hv => exact Or.inr ⟨r', hr', hpub', Or.inl (by rw [hv']; rfl)⟩
      | steal ha hv hfree => exact Or.inr ⟨r', hr', hpub', Or.inl (by rw [hv']; rfl)⟩
      | shortcut ha hv hp hrev => exact Or.inr ⟨r', hr', hpub', Or.inl (by rw [hv']; rfl)⟩

/-- A thread past its locks goes on until all its keys have their new heads. -/
theorem past_or_done (h : Inv s) (hs : step s a = .next s') {u : Fin n}
    (hpast : (s.threads u).pc.past_locks = true) :
    (s'.threads u).pc.past_locks = true
      ∨ a = .commit_done u ∧ (s.threads u).pc = .chain_heads [] := by
  by_cases ha : a.commits u
  · cases a with
    | AcquireLocks v =>
        obtain rfl : v = u := ha
        exact absurd (acquire_threads hs).2.1 (by simp [hpast])
    | CancelLocks v =>
        obtain rfl : v = u := ha
        exact absurd (cancel_threads h hs).2.1 (by simp [hpast])
    | call_CancelLocks v abort =>
        obtain rfl : v = u := ha
        rw [step, guarded_eq_next] at hs
        exact absurd hpast (by rw [hs.1]; simp [Pc.past_locks])
    | CommitPrivateFromProtected v cur_time =>
        obtain rfl : v = u := ha
        rw [step, guarded_eq_next] at hs
        exact absurd hpast (by rw [hs.1]; simp [Pc.past_locks])
    | new_heads v items =>
        obtain rfl : v = u := ha
        rw [step] at hs
        cases hpc : (s.threads v).pc with
        | committed cur_time =>
            rw [hpc] at hs
            dsimp only at hs
            rw [guarded_eq_next] at hs
            obtain ⟨heap', -, hs'⟩ := Outcome.bind_eq_next.mp hs.2
            rw [Outcome.next.injEq] at hs'
            rw [← hs', State.set_thread_self]
            exact Or.inl rfl
        | _ =>
            rw [hpc] at hs
            simp at hs
    | UpdateChainHeads v R₀ =>
        obtain rfl : v = u := ha
        rw [step] at hs
        cases hpc : (s.threads v).pc with
        | chain_heads todo =>
            cases todo with
            | nil =>
                rw [hpc] at hs
                simp at hs
            | cons y todo =>
                rw [hpc] at hs
                dsimp only at hs
                cases hr₀ : s.heap R₀ with
                | none =>
                    rw [hr₀] at hs
                    simp at hs
                | some r₀ =>
                    rw [hr₀] at hs
                    dsimp only at hs
                    rw [guarded_eq_next] at hs
                    obtain ⟨-, hs⟩ := hs
                    split_ifs at hs with hflag
                    rw [Outcome.next.injEq] at hs
                    rw [← hs, State.set_pc_self]
                    exact Or.inl rfl
        | _ =>
            rw [hpc] at hs
            simp at hs
    | commit_done v =>
        obtain rfl : v = u := ha
        rw [step, guarded_eq_next] at hs
        exact Or.inr ⟨rfl, hs.1⟩
    | abort_done v =>
        obtain rfl : v = u := ha
        rw [step, guarded_eq_next] at hs
        exact absurd hpast (by rw [hs.1]; simp [Pc.past_locks])
    | _ => exact absurd ha id
  · have hlock : (s.threads u).pc.has_collection_lock = true := by
      by_contra hfree
      rw [Pc.past_locks_eq_false (by simpa using hfree)] at hpast
      simp at hpast
    exact Or.inl (by rw [threads_step h hlock ha hs, hpast])

/-- A thread that has an object locked has not set all its keys. -/
theorem past_locks_step (h : Inv s) (hs : step s a = .next s') {u : Fin n} {R : gcptr}
    {r : object n Content} (hr : s.heap R = some r) (hrev : r.h_revision = .locked u)
    (hpast : (s.threads u).pc.past_locks = true) : (s'.threads u).pc.past_locks = true := by
  refine (past_or_done h hs hpast).resolve_right ?_
  rintro ⟨-, hpc⟩
  have hlocks := (h.thread u).locks
  rw [hpc] at hlocks
  obtain ⟨-, -, -, hall⟩ := hlocks
  exact List.not_mem_nil (hall R r hr hrev)

theorem published_step (h : Inv s) (hlock : (s.threads t).pc.has_collection_lock = true)
    (hs : step s a = .next s') {R : gcptr} (hR : Published s R) : Published s' R := by
  obtain ⟨r, hr, hpub, hcase⟩ := hR
  have hkeep : ∀ r', s'.heap R = some r' → r'.GCFLAG_PUBLIC = true → r'.h_revision = r.h_revision →
      Published s' R := by
    intro r' hr' hpub' hsame
    rcases hcase with hptr | ⟨u, hrev, hpast⟩
    · exact ⟨r', hr', hpub', Or.inl (hsame.symm ▸ hptr)⟩
    · exact ⟨r', hr', hpub', Or.inr ⟨u, hsame.trans hrev, past_locks_step h hs hr hrev hpast⟩⟩
  cases effect_at h hs hr with
  | same r' hr' hsame _ => exact hkeep r' hr' (hsame.PUBLIC.trans hpub) hsame.h_revision
  | own hnot _ => exact absurd hpub (by simp [hnot])
  | moved _ _ _ _ hfree => exact absurd hlock (by simp [hfree t])
  | shared r' _ hr' hpub' _ _ hrev =>
      generalize hv' : r'.h_revision = v' at hrev
      cases hrev with
      | same => exact hkeep r' hr' hpub' hv'
      | lock ha hv hmem hl hlrev =>
          rcases hcase with hptr | ⟨u', hrev', -⟩
          · exact absurd hptr (by rw [hv]; exact nofun)
          · exact absurd hv (by simp [hrev'])
      | unlock ha hv hmem hl hlrev =>
          subst ha
          rcases hcase with hptr | ⟨u', hrev', hpast⟩
          · exact absurd hptr (by rw [hv]; exact nofun)
          · obtain rfl := revision_t.locked.inj (hv.symm.trans hrev')
            exact absurd (cancel_threads h hs).2.1 (by simp [hpast])
      | publish ha hv => exact ⟨r', hr', hpub', Or.inl (by rw [hv']; rfl)⟩
      | steal ha hv hfree => exact ⟨r', hr', hpub', Or.inl (by rw [hv']; rfl)⟩
      | shortcut ha hv hp hrev => exact ⟨r', hr', hpub', Or.inl (by rw [hv']; rfl)⟩

/-! ## From the call of `AcquireLocks` to the return of `CancelLocks` -/

section Segment

/-- The thread is in `AcquireLocks` or `CancelLocks`, or between the two. -/
def Pc.in_locks : Pc n → Bool
  | .acquire_locks _ => true
  | .acquire_cas _ _ _ => true
  | .acquired => true
  | .cancel_locks _ _ => true
  | _ => false

theorem Pc.has_lock_of_in_locks {pc : Pc n} (h : pc.in_locks = true) :
    pc.has_collection_lock = true ∧ pc.past_locks = false := by
  cases pc with
  | acquire_locks todo => exact ⟨rfl, rfl⟩
  | acquire_cas item todo v => exact ⟨rfl, rfl⟩
  | acquired => exact ⟨rfl, rfl⟩
  | cancel_locks todo abort => exact ⟨rfl, rfl⟩
  | _ => exact absurd h nofun

/-- The table of the thread and the flags of its local copies stay. -/
structure SameTable (s₀ s : State n Content) (t : Fin n) : Prop where
  items : (s.threads t).items = (s₀.threads t).items
  prv : (s.threads t).stm_private_rev_num = (s₀.threads t).stm_private_rev_num
  val : ∀ x ∈ (s₀.threads t).items, ∀ l₀, s₀.heap x.2 = some l₀ → ∃ l, s.heap x.2 = some l
    ∧ l.GCFLAG_PRIVATE_FROM_PROTECTED = l₀.GCFLAG_PRIVATE_FROM_PROTECTED

theorem SameTable.refl : SameTable s s t := ⟨rfl, rfl, fun _ _ l₀ hl => ⟨l₀, hl, rfl⟩⟩

theorem SameTable.trans {s₀ : State n Content} (h : SameTable s₀ s t) (h' : SameTable s s' t) :
    SameTable s₀ s' t := by
  refine ⟨h'.items.trans h.items, h'.prv.trans h.prv, fun x hx l₀ hl₀ => ?_⟩
  obtain ⟨l, hl, hflag⟩ := h.val x hx l₀ hl₀
  obtain ⟨l', hl', hflag'⟩ := h'.val x (h.items ▸ hx) l hl
  exact ⟨l', hl', hflag'.trans hflag⟩

theorem SameTable.set_pc {pc : Pc n} : SameTable s (s.set_pc t pc) t := by
  refine ⟨?_, ?_, fun _ _ l₀ hl => ⟨l₀, hl, rfl⟩⟩
  · rw [State.set_pc_self]
    rfl
  · rw [State.set_pc_self]

theorem SameTable.set_item {pc : Pc n} {item : wlog_t} {r l : object n Content} {b c : revision_t n}
    (h : Inv s) (hmem : item ∈ (s.threads t).items) (hl : s.heap item.2 = some l) :
    SameTable s ({ s with heap := item_heap s.heap item r l b c }.set_pc t pc) t := by
  refine ⟨?_, ?_, fun x hx l₀ hl₀ => ?_⟩
  · rw [State.set_pc_self]
    rfl
  · rw [State.set_pc_self]
  · rw [State.set_pc_heap]
    by_cases hxi : x = item
    · subst hxi
      rw [hl, Option.some.injEq] at hl₀
      subst hl₀
      exact ⟨_, item_heap_val, rfl⟩
    · obtain ⟨-, -, h3, h4⟩ := (h.thread t).item_ne hmem hx hxi
      exact ⟨l₀, (item_heap_of_ne h3 h4).trans hl₀, rfl⟩

/-- Unless the thread commits, a step of any thread keeps the table. -/
theorem same_table_step (h : Inv s) (hpc : (s.threads t).pc.in_locks = true)
    (hs : step s a = .next s') :
    (s'.threads t).pc.past_locks = true ∨ SameTable s s' t := by
  have hd := h.thread t
  obtain ⟨hlock, hpast⟩ := Pc.has_lock_of_in_locks hpc
  by_cases ha : a.commits t
  · cases a with
    | AcquireLocks u =>
        obtain rfl : u = t := ha
        have hlocks := hd.locks
        cases acquire_step hs with
        | spin hpc hr hrev hu => exact Or.inr .refl
        | @lock item todo r l v hpc hr hl hrev hexp hv =>
            rw [hpc] at hlocks
            obtain ⟨-, done, hsplit, -, -⟩ := hlocks
            exact Or.inr (.set_item h (by rw [hsplit]; simp) hl)
        | _ => exact Or.inr .set_pc
    | CancelLocks u =>
        obtain rfl : u = t := ha
        cases h.cancel_step hs with
        | @unlock item todo abort r l hpc hr hl hexp hne =>
            exact Or.inr (.set_item h (h.cancel_head hpc).1 hl)
        | _ => exact Or.inr .set_pc
    | call_CancelLocks u abort =>
        obtain rfl : u = t := ha
        rw [step, guarded_eq_next, Outcome.next.injEq] at hs
        rw [← hs.2]
        exact Or.inr .set_pc
    | CommitPrivateFromProtected u cur_time =>
        obtain rfl : u = t := ha
        rw [step, guarded_eq_next] at hs
        obtain ⟨heap', hrun, -⟩ := h.commit_private_from_protected hs.1 cur_time
        rw [hrun] at hs
        dsimp only at hs
        rw [Outcome.next.injEq] at hs
        refine Or.inl ?_
        rw [← hs.2, State.set_thread_self]
        rfl
    | new_heads u items =>
        obtain rfl : u = t := ha
        rw [step] at hs
        cases hpc' : (s.threads u).pc with
        | committed cur_time => exact absurd hpast (by rw [hpc']; simp [Pc.past_locks])
        | _ =>
            rw [hpc'] at hs
            simp at hs
    | UpdateChainHeads u R =>
        obtain rfl : u = t := ha
        rw [step] at hs
        cases hpc' : (s.threads u).pc with
        | chain_heads todo => exact absurd hpast (by rw [hpc']; simp [Pc.past_locks])
        | _ =>
            rw [hpc'] at hs
            simp at hs
    | commit_done u =>
        obtain rfl : u = t := ha
        rw [step, guarded_eq_next] at hs
        exact absurd hpast (by rw [hs.1]; simp [Pc.past_locks])
    | abort_done u =>
        obtain rfl : u = t := ha
        rw [step, guarded_eq_next] at hs
        exact absurd hpc (by rw [hs.1]; simp [Pc.in_locks])
    | _ => exact absurd ha id
  · have hthread := threads_step h hlock ha hs
    refine Or.inr ⟨by rw [hthread], by rw [hthread], fun x hx l₀ hl₀ => ?_⟩
    obtain ⟨r, l, -, hl, -, -, hlpub, -, hlt⟩ := hd.item x hx
    rw [hl₀, Option.some.injEq] at hl
    subst hl
    obtain ⟨l', hl', hsame, -⟩ := own_step h hlock ha hs hl₀ hlt hlpub
    exact ⟨l', hl', hsame.PRIVATE_FROM_PROTECTED⟩

variable {s₀ s₁ : State n Content}

/-- The thread has locked nothing when `CancelLocks` has returned. -/
theorem cancelled_unlocked (h : Inv s) (hpc : (s.threads t).pc = .waiting ∨ (s.threads t).pc = .aborting) :
    ∀ x ∈ (s.threads t).items, Unlocked s.heap t (s.threads t) x := by
  have hlocks := (h.thread t).locks
  rcases hpc with hpc | hpc
  · rwa [hpc] at hlocks
  · rwa [hpc] at hlocks

theorem cancelled_not_locked (h : Inv s)
    (hpc : (s.threads t).pc = .waiting ∨ (s.threads t).pc = .aborting) (R : gcptr) :
    ¬ LockedBy s t R := by
  rintro ⟨r, hr, hrev⟩
  obtain ⟨-, L, hmem⟩ := h.locked_item hr hrev
  obtain ⟨r', l, hr', -, hnot, -⟩ := cancelled_unlocked h hpc _ hmem
  rw [hr, Option.some.injEq] at hr'
  exact hnot (hr' ▸ hrev)

theorem Pc.not_past {pc : Pc n} (h : pc = .waiting ∨ pc = .aborting) : pc.past_locks = false := by
  rcases h with rfl | rfl
  · rfl
  · rfl

/-- The local copies have their revisions back. -/
theorem cancelled_val {ok : State n Content → Act n Content → Prop} (h₀ : Inv s₀)
    (hpc₀ : (s₀.threads t).pc = .acquire_locks (s₀.threads t).items)
    (hok : ∀ s a, ok s a → (s.threads t).pc.in_locks = true)
    (hrun : ReachableIf (· = s₀) step ok s₁)
    (hpc₁ : (s₁.threads t).pc = .waiting ∨ (s₁.threads t).pc = .aborting) :
    (s₁.threads t).items = (s₀.threads t).items
      ∧ ∀ x ∈ (s₀.threads t).items, ∃ l₀ l₁, s₀.heap x.2 = some l₀ ∧ s₁.heap x.2 = some l₁
        ∧ l₁.h_revision = (s₁.threads t).expected x.1 l₁ ∧ l₁.h_revision = l₀.h_revision := by
  have hinv : Inv s₁ ∧ ((s₁.threads t).pc.past_locks = true ∨ SameTable s₀ s₁ t) := by
    refine @ReachableIf.invariant _ _ _ _ _
      (fun s => Inv s ∧ ((s.threads t).pc.past_locks = true ∨ SameTable s₀ s t))
      (fun s hs => ?_) (fun s a s' hinv hoks hs => ?_) _ hrun
    · rw [hs]
      exact ⟨h₀, Or.inr .refl⟩
    · have hin := hok s a hoks
      refine ⟨hinv.1.step hs, (same_table_step hinv.1 hin hs).imp_right fun htable => ?_⟩
      rcases hinv.2 with hpast | htable₀
      · exact absurd hpast (by simp [(Pc.has_lock_of_in_locks hin).2])
      · exact htable₀.trans htable
  obtain ⟨h₁, htable⟩ := hinv
  have htable := htable.resolve_left (by simp [Pc.not_past hpc₁])
  refine ⟨htable.items, fun x hx => ?_⟩
  have hlocks := (h₀.thread t).locks
  rw [hpc₀] at hlocks
  obtain ⟨done, hsplit, -, htodo⟩ := hlocks
  obtain ⟨r₀, l₀, -, hl₀, -, hrev₀⟩ := htodo x hx
  obtain ⟨l₁, hl₁, hflag⟩ := htable.val x hx l₀ hl₀
  obtain ⟨r₁, l₁', -, hl₁', -, hrev₁⟩ := cancelled_unlocked h₁ hpc₁ x (htable.items ▸ hx)
  rw [hl₁, Option.some.injEq] at hl₁'
  subst hl₁'
  refine ⟨l₀, l₁, hl₀, hl₁, hrev₁, ?_⟩
  rw [hrev₁, hrev₀, tx_descriptor.expected, tx_descriptor.expected, hflag, htable.prv]

/-- What no other transaction has replaced has its revision back. -/
theorem cancelled_revision {ok : State n Content → Act n Content → Prop} {R : gcptr} {w : ℤ}
    (h₀ : Inv s₀) (hok : ∀ s a, ok s a → (s.threads t).pc.in_locks = true)
    (hrun : ReachableIf (· = s₀) step ok s₁) (hR : Revision s₀ R w) :
    Revision s₁ R w ∨ Published s₁ R := by
  have hinv : Inv s₁ ∧ (Revision s₁ R w ∨ Published s₁ R) := by
    refine @ReachableIf.invariant _ _ _ _ _ (fun s => Inv s ∧ (Revision s R w ∨ Published s R))
      (fun s hs => ?_) (fun s a s' hinv hoks hs => ?_) _ hrun
    · rw [hs]
      exact ⟨h₀, Or.inl hR⟩
    · obtain ⟨hlock, -⟩ := Pc.has_lock_of_in_locks (hok s a hoks)
      refine ⟨hinv.1.step hs, ?_⟩
      rcases hinv.2 with hrevision | hpublished
      · exact revision_step hinv.1 hlock hs hrevision
      · exact Or.inr (published_step hinv.1 hlock hs hpublished)
  exact hinv.2

/-- The `h_revision` of `R` is the same before and after a step of another thread. -/
def LeavesRevision (t : Fin n) (R : gcptr) (s : State n Content) (a : Act n Content) : Prop :=
  ¬ a.commits t → ∀ s' r r', step s a = .next s' → s.heap R = some r → s'.heap R = some r' →
    r'.h_revision = r.h_revision

/-- The revision `v` of the public `R` is in the object, or saved by `t`. -/
def SavedBy (t : Fin n) (R : gcptr) (v : revision_t n) (s : State n Content) : Prop :=
  ∃ r, s.heap R = some r ∧ r.GCFLAG_PUBLIC = true
    ∧ (r.h_revision = v ∨ (s.threads t).pc.past_locks = true
      ∨ r.h_revision = .locked t ∧ ∃ L l w, v = .number w ∧ (R, L) ∈ (s.threads t).items
        ∧ s.heap L = some l ∧ l.h_revision = .number w)

/-- A step of `UpdateChainHeads`. -/
theorem update_past {R : gcptr} (hs : step s (.UpdateChainHeads t R) = .next s') :
    (s.threads t).pc.past_locks = true := by
  rw [step] at hs
  cases hpc : (s.threads t).pc with
  | chain_heads todo => rfl
  | _ =>
      rw [hpc] at hs
      simp at hs

theorem saved_by_step {R : gcptr} {v : revision_t n} (h : Inv s) (hv : v ≠ .locked t)
    (hpc : (s.threads t).pc.in_locks = true) (hleaves : LeavesRevision t R s a)
    (hs : step s a = .next s') (hR : SavedBy t R v s) : SavedBy t R v s' := by
  obtain ⟨r, hr, hpub, hcase⟩ := hR
  obtain ⟨hlock, hpast⟩ := Pc.has_lock_of_in_locks hpc
  have hkeep : ∀ r', s'.heap R = some r' → r'.GCFLAG_PUBLIC = true → r'.h_revision = r.h_revision →
      SavedBy t R v s' := by
    intro r' hr' hpub' hsame
    refine ⟨r', hr', hpub', ?_⟩
    rcases hcase with hsame₀ | hnot | ⟨hrev, L, l, w, hw, hmem, hl, hlrev⟩
    · exact Or.inl (hsame.trans hsame₀)
    · exact absurd hnot (by simp [hpast])
    · have hrev' := hsame.trans hrev
      rcases saved_step h hs hr hrev hpast hmem hl hlrev hr' hrev' with hpast' | ⟨-, hmem', l', hl', hlrev'⟩
      · exact Or.inr (Or.inl hpast')
      · exact Or.inr (Or.inr ⟨hrev', L, l', w, hw, hmem', hl', hlrev'⟩)
  cases effect_at h hs hr with
  | same r' hr' hsame _ => exact hkeep r' hr' (hsame.PUBLIC.trans hpub) hsame.h_revision
  | own hnot _ => exact absurd hpub (by simp [hnot])
  | moved _ _ _ _ hfree => exact absurd hlock (by simp [hfree t])
  | shared r' _ hr' hpub' _ _ hrev =>
      by_cases ha : a.commits t
      · generalize hv' : r'.h_revision = v' at hrev
        cases hrev with
        | same => exact hkeep r' hr' hpub' hv'
        | @lock u L l w hau hnum hmem hl hlrev =>
            subst hau
            obtain rfl : u = t := ha
            obtain ⟨hitems, -⟩ := acquire_threads hs
            rcases hcase with hsame₀ | hnot | ⟨hrev, -⟩
            · exact ⟨r', hr', hpub', Or.inr (Or.inr ⟨hv', L, l, w, hsame₀.symm.trans hnum,
                hitems ▸ hmem, hl, hlrev⟩)⟩
            · exact absurd hnot (by simp [hpast])
            · exact absurd hnum (by simp [hrev])
        | @unlock u L l w hau hlocked hmem hl hlrev =>
            subst hau
            obtain rfl : u = t := ha
            refine ⟨r', hr', hpub', Or.inl ?_⟩
            rcases hcase with hsame₀ | hnot | ⟨hrev, L', l', w', hw', hmem', hl', hlrev'⟩
            · exact absurd (hsame₀.symm.trans hlocked) hv
            · exact absurd hnot (by simp [hpast])
            · obtain rfl := G2L.eq_of_mem hmem hmem'
              rw [hl, Option.some.injEq] at hl'
              subst hl'
              rw [hv', hw', ← hlrev, hlrev']
        | publish hau hlocked =>
            subst hau
            obtain rfl := ha
            exact absurd (update_past hs) (by simp [hpast])
        | steal hau _ _ =>
            subst hau
            exact absurd ha id
        | shortcut hau _ _ _ =>
            subst hau
            exact absurd ha id
      · exact hkeep r' hr' hpub' (hleaves ha s' r r' hs hr hr')

/-- What no other thread has touched is as it was. -/
theorem cancelled_same {R : gcptr} {r₀ : object n Content} (h₀ : Inv s₀)
    (hpc₀ : (s₀.threads t).pc = .acquire_locks (s₀.threads t).items)
    (hrun : ReachableIf (· = s₀) step
      (fun s a => (s.threads t).pc.in_locks = true ∧ LeavesRevision t R s a) s₁)
    (hr₀ : s₀.heap R = some r₀) (hpub₀ : r₀.GCFLAG_PUBLIC = true)
    (hpc₁ : (s₁.threads t).pc = .waiting ∨ (s₁.threads t).pc = .aborting) :
    ∃ r₁, s₁.heap R = some r₁ ∧ r₁.h_revision = r₀.h_revision := by
  have hv : r₀.h_revision ≠ .locked t := by
    intro hrev
    obtain ⟨-, L, hmem⟩ := h₀.locked_item hr₀ hrev
    have hlocks := (h₀.thread t).locks
    rw [hpc₀] at hlocks
    obtain ⟨done, hsplit, -, htodo⟩ := hlocks
    obtain ⟨r, l, hr, -, hnot, -⟩ := htodo _ hmem
    rw [hr₀, Option.some.injEq] at hr
    exact hnot (hr ▸ hrev)
  have hinv : Inv s₁ ∧ SavedBy t R r₀.h_revision s₁ := by
    refine @ReachableIf.invariant _ _ _ _ _ (fun s => Inv s ∧ SavedBy t R r₀.h_revision s)
      (fun s hs => ?_) (fun s a s' hinv hoks hs => ?_) _ hrun
    · rw [hs]
      exact ⟨h₀, r₀, hr₀, hpub₀, Or.inl rfl⟩
    · exact ⟨hinv.1.step hs, saved_by_step hinv.1 hv hoks.1 hoks.2 hs hinv.2⟩
  obtain ⟨h₁, r₁, hr₁, -, hsame | hpast | ⟨hrev, -⟩⟩ := hinv
  · exact ⟨r₁, hr₁, hsame⟩
  · exact absurd hpast (by simp [Pc.not_past hpc₁])
  · exact absurd ⟨r₁, hr₁, hrev⟩ (cancelled_not_locked h₁ hpc₁ R)

end Segment

/-! ## In every run -/

/-- The order of the locks is decided by the addresses; what is locked is a prefix of
it; no threads wait for each other; and `CancelLocks` puts every revision back,
but for objects of which another transaction has committed a version. -/
theorem AcquireLocks_CancelLocks (h : Reachable init step s) :
    (∀ g g' : G2L, (∀ R, R ∈ g.keys ↔ R ∈ g'.keys) → g.keys = g'.keys)
    ∧ (∀ t todo, (s.threads t).pc.to_lock = some todo →
      ∃ done, (s.threads t).items = done ++ todo ∧ ∀ R, LockedBy s t R ↔ R ∈ done.map Prod.fst)
    ∧ (∀ t, ¬ Relation.TransGen (WaitsFor s) t t)
    ∧ ∀ t s₁, (s.threads t).pc = .acquire_locks (s.threads t).items →
      ReachableIf (· = s) step (fun s' _ => (s'.threads t).pc.in_locks = true) s₁ →
      ((s₁.threads t).pc = .waiting ∨ (s₁.threads t).pc = .aborting) →
      ((s₁.threads t).items = (s.threads t).items
        ∧ ∀ x ∈ (s.threads t).items, ∃ l₀ l₁, s.heap x.2 = some l₀ ∧ s₁.heap x.2 = some l₁
          ∧ l₁.h_revision = (s₁.threads t).expected x.1 l₁ ∧ l₁.h_revision = l₀.h_revision)
      ∧ (∀ R, ¬ LockedBy s₁ t R)
      ∧ (∀ R w, Revision s R w → Revision s₁ R w ∨ Published s₁ R)
      ∧ ∀ R r₀, s.heap R = some r₀ → r₀.GCFLAG_PUBLIC = true →
        ReachableIf (· = s) step
          (fun s' a => (s'.threads t).pc.in_locks = true ∧ LeavesRevision t R s' a) s₁ →
        ∃ r₁, s₁.heap R = some r₁ ∧ r₁.h_revision = r₀.h_revision := by
  have hinv := Inv.reachable h
  refine ⟨fun g g' hkeys => G2L.keys_eq_iff.mpr hkeys, fun t todo => locked_prefix hinv,
    hinv.not_waits, fun t s₁ hpc hrun hpc₁ => ?_⟩
  have hinv₁ : Inv s₁ := by
    refine hrun.invariant (fun s' hs' => ?_) fun s' a s'' hs' _ hstep => hs'.step hstep
    rw [hs']
    exact hinv
  refine ⟨cancelled_val hinv hpc (fun _ _ hok => hok) hrun hpc₁, cancelled_not_locked hinv₁ hpc₁,
    fun R w => cancelled_revision hinv (fun _ _ hok => hok) hrun, ?_⟩
  intro R r₀ hr₀ hpub₀ hrun'
  exact cancelled_same hinv hpc hrun' hr₀ hpub₀ hpc₁

section Example

scoped instance threads_neZero : NeZero 2 := ⟨two_ne_zero⟩

/-- Two threads, and two prebuilt objects. -/
def two_threads : State 2 ℕ where
  heap p :=
    if p = 1 ∨ p = 2 then some
      { h_revision := .number 1
        GCFLAG_OLD := true
        GCFLAG_PUBLIC := true
        GCFLAG_BACKUP_COPY := false
        GCFLAG_PUBLIC_TO_PRIVATE := false
        GCFLAG_MOVED := false
        GCFLAG_STUB := false
        GCFLAG_PRIVATE_FROM_PROTECTED := false
        thread := 0
        content := 0 }
    else none
  threads t :=
    { public_to_private := G2L.g2l_clear
      private_from_protected := []
      stolen_objects := []
      stm_private_rev_num := -(1001 + 2 * t)
      pc := .running }

theorem init_two_threads : init two_threads := by
  refine ⟨rfl, fun p x hx => ?_, fun t => ⟨rfl, rfl, rfl, rfl⟩⟩
  rw [two_threads] at hx
  dsimp only at hx
  split_ifs at hx
  obtain rfl := Option.some.inj hx
  exact ⟨rfl, rfl, rfl, rfl, rfl, rfl, rfl, 1, rfl⟩

/-- Both threads change the object 1, and the first one commits. -/
def two_commits : List (Act 2 ℕ) :=
  [.LocalizePublic 0 1 10 false, .LocalizePublic 0 2 11 false, .LocalizePublic 1 1 20 false,
    .CommitTransaction 0, .AcquireLocks 0, .AcquireLocks 0, .CommitTransaction 1]

/-- The second thread waits for the first one, but not the first one for the second. -/
theorem AcquireLocks_CancelLocks_two :
    ∃ s : State 2 ℕ, (s.threads 1).pc = .acquire_locks [(1, 20)] ∧ LockedBy s 0 1
      ∧ (s.threads 0).pc.to_lock = some [(2, 11)] ∧ ¬ Relation.TransGen (WaitsFor s) 1 1
      ∧ ∃ done, (s.threads 0).items = done ++ [(2, 11)]
        ∧ ∀ R, LockedBy s 0 R ↔ R ∈ done.map Prod.fst := by
  have hrun : (run step (fun _ _ => True) two_threads two_commits).test (fun s =>
      decide ((s.threads 1).pc = .acquire_locks [(1, 20)])
        && decide ((s.heap 1).map object.h_revision = some (.locked 0))
        && decide ((s.threads 0).pc.to_lock = some [(2, 11)])) = true := by decide +kernel
  obtain ⟨s, hs, htest⟩ := Outcome.of_test hrun
  rw [Bool.and_eq_true, Bool.and_eq_true, decide_eq_true_eq, decide_eq_true_eq,
    decide_eq_true_eq] at htest
  have hreach : Reachable init step s := (ReachableIf.start init_two_threads).run two_commits hs
  obtain ⟨-, hprefix, hwaits, -⟩ := AcquireLocks_CancelLocks hreach
  obtain ⟨r, hr, hrev⟩ := Option.map_eq_some_iff.mp htest.1.2
  exact ⟨s, htest.1.1, ⟨r, hr, hrev⟩, htest.2, hwaits 1, hprefix 0 _ htest.2⟩

end Example

end Stmgc.C4
