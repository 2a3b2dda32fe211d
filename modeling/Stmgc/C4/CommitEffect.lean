/-
What one step of the commit machine does to one object.

[`EffectAt`] lists it. A thread that holds its `collection_lock` finds its own
objects as it left them, and a public object gets another revision in a few ways
only: [`PublicRev`].
-/
import Stmgc.C4.CommitHeads

open Stmgc.Lib

namespace Stmgc.C4

variable {n : ℕ} {Content : Type} {s s' : State n Content} {t : Fin n}

/-- The steps of the thread `t` while it holds its `collection_lock`. -/
def Act.commits (t : Fin n) : Act n Content → Prop
  | .AcquireLocks u => u = t
  | .call_CancelLocks u _ => u = t
  | .CancelLocks u => u = t
  | .CommitPrivateFromProtected u _ => u = t
  | .new_heads u _ => u = t
  | .UpdateChainHeads u _ => u = t
  | .commit_done u => u = t
  | .abort_done u => u = t
  | _ => False

/-- How the revision `v` of the public `R` may change. -/
inductive PublicRev (s s' : State n Content) (a : Act n Content) (R : gcptr) (v : revision_t n) :
    revision_t n → Prop where
  | same : PublicRev s s' a R v v
  /-- the revision is saved in the local copy -/
  | lock {u : Fin n} {L : gcptr} {l : object n Content} {w : ℤ} (ha : a = .AcquireLocks u)
      (hv : v = .number w) (hmem : (R, L) ∈ (s.threads u).items) (hl : s'.heap L = some l)
      (hrev : l.h_revision = .number w) : PublicRev s s' a R v (.locked u)
  | unlock {u : Fin n} {L : gcptr} {l : object n Content} {w : ℤ} (ha : a = .CancelLocks u)
      (hv : v = .locked u) (hmem : (R, L) ∈ (s.threads u).items) (hl : s.heap L = some l)
      (hrev : l.h_revision = .number w) : PublicRev s s' a R v (.number w)
  | publish {u : Fin n} {q : gcptr} (ha : a = .UpdateChainHeads u R) (hv : v = .locked u) :
      PublicRev s s' a R v (.pointer q)
  | steal {L q : gcptr} {O : gcptr} (ha : a = .stm_steal_stub R O) (hv : v = .stub L)
      (hfree : ∀ x, s.heap R = some x → (s.threads x.thread).pc.has_collection_lock = false) :
      PublicRev s s' a R v (.pointer q)
  | shortcut {P q : gcptr} {p : object n Content} (ha : a = .shortcut R P) (hv : v = .pointer P)
      (hp : s.heap P = some p) (hrev : p.h_revision = .pointer q) : PublicRev s s' a R v (.pointer q)

/-- What a step does to the object `x` at `p`. -/
inductive EffectAt (s s' : State n Content) (a : Act n Content) (p : gcptr) (x : object n Content) :
    Prop where
  | same (x' : object n Content) (hx' : s'.heap p = some x') (hsame : SameHeader x x')
      (hcontent : x'.content = x.content) : EffectAt s s' a p x
  /-- the object is not public, and its thread works with it -/
  | own (hpub : x.GCFLAG_PUBLIC = false)
      (hfree : (s.threads x.thread).pc.has_collection_lock = false ∨ a.commits x.thread) :
      EffectAt s s' a p x
  | shared (x' : object n Content) (hpub : x.GCFLAG_PUBLIC = true) (hx' : s'.heap p = some x')
      (hpub' : x'.GCFLAG_PUBLIC = true) (hthread : x'.thread = x.thread)
      (hcontent : x'.content = x.content) (hrev : PublicRev s s' a p x.h_revision x'.h_revision) :
      EffectAt s s' a p x
  /-- a major collection -/
  | moved (x' : object n Content) (hpub : x.GCFLAG_PUBLIC = true) (hx' : s'.heap p = some x')
      (hpub' : x'.GCFLAG_PUBLIC = true)
      (hfree : ∀ u, (s.threads u).pc.has_collection_lock = false) : EffectAt s s' a p x

section Effect

variable {a : Act n Content} {p : gcptr} {x : object n Content}

theorem EffectAt.refl (hx : s.heap p = some x) (h : s'.heap p = s.heap p) : EffectAt s s' a p x :=
  .same x (h.trans hx) (.refl x) rfl

/-- An update at another place. -/
theorem EffectAt.of_ne {q : gcptr} {o : Option (object n Content)} (hx : s.heap p = some x)
    (h : s'.heap = Function.update s.heap q o) (hne : p ≠ q) : EffectAt s s' a p x :=
  .refl hx (by rw [h, Function.update_of_ne hne])

/-- An update at a place that was free. -/
theorem EffectAt.of_fresh {q : gcptr} {o : Option (object n Content)} (hx : s.heap p = some x)
    (hq : s.heap q = none) (h : s'.heap = Function.update s.heap q o) : EffectAt s s' a p x := by
  refine .of_ne hx h ?_
  rintro rfl
  exact absurd hx (by simp [hq])

theorem effect_allocate {o : gcptr} {c : Content} (hs : step s (.allocate t o c) = .next s')
    (hx : s.heap p = some x) : EffectAt s s' (.allocate t o c) p x := by
  rw [step, guarded_eq_next, Outcome.next.injEq] at hs
  obtain ⟨⟨-, ho, -⟩, hs⟩ := hs
  exact .of_fresh hx ho (by rw [← hs]; rfl)

theorem effect_write {o : gcptr} {c : Content} (hs : step s (.write t o c) = .next s')
    (hx : s.heap p = some x) : EffectAt s s' (.write t o c) p x := by
  rw [step] at hs
  cases ho : s.heap o with
  | none =>
      rw [ho] at hs
      simp at hs
  | some y =>
      rw [ho] at hs
      obtain ⟨⟨hpc, hthread, hpub, -⟩, hs⟩ := guarded_eq_next.mp hs
      rw [Outcome.next.injEq] at hs
      by_cases hp : p = o
      · rw [hp, ho, Option.some.injEq] at hx
        subst hx
        exact .own hpub (Or.inl (by rw [hthread, hpc]; rfl))
      · exact .of_ne hx (by rw [← hs]; rfl) hp

theorem effect_LocalizeProtected {P B : gcptr} (hs : step s (.LocalizeProtected t P B) = .next s')
    (hx : s.heap p = some x) : EffectAt s s' (.LocalizeProtected t P B) p x := by
  rw [step] at hs
  cases hP : s.heap P with
  | none =>
      rw [hP] at hs
      simp at hs
  | some y =>
      rw [hP] at hs
      obtain ⟨⟨hpc, -, hthread, hpub, -, -, -, -, hB, -⟩, hs⟩ := guarded_eq_next.mp hs
      rw [Outcome.next.injEq] at hs
      by_cases hp : p = P
      · rw [hp, hP, Option.some.injEq] at hx
        subst hx
        exact .own hpub (Or.inl (by rw [hthread, hpc]; rfl))
      · have hpB : p ≠ B := by
          rintro rfl
          exact absurd hx (by simp [hB])
        refine .refl hx ?_
        rw [← hs, State.set_thread_heap, State.set_object_heap, Function.update_of_ne hp,
          State.set_object_heap, Function.update_of_ne hpB]

theorem effect_LocalizePublic {R L : gcptr} {old : Bool}
    (hs : step s (.LocalizePublic t R L old) = .next s') (hx : s.heap p = some x) :
    EffectAt s s' (.LocalizePublic t R L old) p x := by
  rw [step] at hs
  cases hR : s.heap R with
  | none =>
      rw [hR] at hs
      simp at hs
  | some r =>
      rw [hR] at hs
      obtain ⟨⟨-, -, -, -, -, -, -, hL, -⟩, hs⟩ := guarded_eq_next.mp hs
      obtain ⟨g, -, hs⟩ := Outcome.bind_eq_next.mp hs
      rw [Outcome.next.injEq] at hs
      have hpL : p ≠ L := by
        rintro rfl
        exact absurd hx (by simp [hL])
      have hheap : s'.heap p = Function.update s.heap R
          (some { r with GCFLAG_PUBLIC_TO_PRIVATE := true }) p := by
        rw [← hs, State.set_thread_heap, State.set_object_heap, Function.update_of_ne hpL,
          State.set_object_heap]
      by_cases hp : p = R
      · subst hp
        rw [hR, Option.some.injEq] at hx
        subst hx
        rw [Function.update_self] at hheap
        exact .same _ hheap ⟨rfl, rfl, rfl, rfl, id, rfl⟩ rfl
      · rw [Function.update_of_ne hp] at hheap
        exact .refl hx hheap

theorem effect_stub_malloc {P S : gcptr} (hs : step s (.stub_malloc P S) = .next s')
    (hx : s.heap p = some x) : EffectAt s s' (.stub_malloc P S) p x := by
  rw [step] at hs
  cases hP : s.heap P with
  | none =>
      rw [hP] at hs
      simp at hs
  | some y =>
      rw [hP] at hs
      obtain ⟨⟨-, -, -, hS, -⟩, hs⟩ := guarded_eq_next.mp hs
      rw [Outcome.next.injEq] at hs
      exact .of_fresh hx hS (by rw [← hs]; rfl)

theorem effect_shortcut {P_prev P : gcptr} (hs : step s (.shortcut P_prev P) = .next s')
    (hx : s.heap p = some x) : EffectAt s s' (.shortcut P_prev P) p x := by
  rw [step] at hs
  cases hprev : s.heap P_prev with
  | none =>
      rw [hprev] at hs
      simp at hs
  | some p_prev =>
      cases hP : s.heap P with
      | none =>
          rw [hprev, hP] at hs
          simp at hs
      | some y =>
          rw [hprev, hP] at hs
          obtain ⟨⟨hpub, hrev⟩, hs⟩ := guarded_eq_next.mp hs
          cases hv : y.h_revision with
          | pointer v =>
              rw [hv] at hs
              dsimp only at hs
              rw [Outcome.next.injEq] at hs
              by_cases hp : p = P_prev
              · subst hp
                rw [hprev, Option.some.injEq] at hx
                subst hx
                exact .shared { p_prev with h_revision := .pointer v } hpub
                  (by rw [← hs, State.set_object_heap, Function.update_self]) hpub rfl rfl
                  (.shortcut rfl hrev hP hv)
              · exact .of_ne hx (by rw [← hs]; rfl) hp
          | _ =>
              rw [hv] at hs
              simp at hs

theorem effect_minor_collect (hs : step s (.minor_collect t) = .next s') (hx : s.heap p = some x) :
    EffectAt s s' (.minor_collect t) p x := by
  rw [step, guarded_eq_next, Outcome.next.injEq] at hs
  have hheap : s'.heap p = some (if x.thread = t ∧ x.GCFLAG_PUBLIC = false then
      { x with GCFLAG_OLD := true } else x) := by
    rw [← hs.2]
    dsimp only
    rw [hx]
    rfl
  refine .same _ hheap ?_ ?_
  · by_cases hcase : x.thread = t ∧ x.GCFLAG_PUBLIC = false
    · rw [if_pos hcase]
      exact ⟨rfl, rfl, rfl, rfl, fun _ => rfl, rfl⟩
    · rw [if_neg hcase]
      exact .refl x
  · by_cases hcase : x.thread = t ∧ x.GCFLAG_PUBLIC = false
    · rw [if_pos hcase]
    · rw [if_neg hcase]

/-- A step that changes nothing but where a thread is. -/
theorem effect_thread {u : Fin n} {d : tx_descriptor n} (hs : s.set_thread u d = s')
    (hx : s.heap p = some x) : EffectAt s s' a p x :=
  .refl hx (by rw [← hs]; rfl)

/-- The stub gets another revision last. -/
theorem effect_stub {S O L X : gcptr} {stub : object n Content} {r : State n Content}
    (hS : s.heap S = some stub) (hpub : stub.GCFLAG_PUBLIC = true) (hrev : stub.h_revision = .stub L)
    (hfree : (s.threads stub.thread).pc.has_collection_lock = false)
    (hs : s'.heap = Function.update r.heap S (some { stub with h_revision := .pointer X }))
    (hx : s.heap p = some x)
    (hrest : p ≠ S → r.heap p = s'.heap p → EffectAt s s' (.stm_steal_stub S O) p x) :
    EffectAt s s' (.stm_steal_stub S O) p x := by
  by_cases hp : p = S
  · subst hp
    rw [hS, Option.some.injEq] at hx
    subst hx
    refine .shared { stub with h_revision := .pointer X } hpub (by rw [hs, Function.update_self])
      hpub rfl rfl (.steal rfl hrev ?_)
    intro y hy
    rw [hS, Option.some.injEq] at hy
    rwa [← hy]
  · exact hrest hp (by rw [hs, Function.update_of_ne hp])

/-- What is private from protected, and not yet stolen, has its own backup copy. -/
theorem Inv.backup_of_free {L B : gcptr} {l b : object n Content} (h : Inv s)
    (hfree : (s.threads t).pc.has_collection_lock = false) (hl : s.heap L = some l)
    (hthread : l.thread = t) (hpfp : l.GCFLAG_PRIVATE_FROM_PROTECTED = true)
    (hrev : l.h_revision = .pointer B) (hb : s.heap B = some b) (hbpub : b.GCFLAG_PUBLIC = false) :
    b.GCFLAG_BACKUP_COPY = true ∧ b.thread = t ∧ ∃ v, b.h_revision = .number v := by
  have hd := h.thread t
  obtain ⟨B', b', hrev', hb', -, hcase⟩ := hd.pfp_target (hd.unlocked hfree)
    ((hd.pfp L).mpr ⟨l, hl, hpfp, hthread⟩) hl
  rw [hrev, revision_t.pointer.injEq] at hrev'
  subst hrev'
  rw [hb, Option.some.injEq] at hb'
  subst hb'
  rcases hcase with ⟨-, hnot⟩ | ⟨-, hback, hbthread⟩ | ⟨-, hmem⟩
  · exact absurd hnot (by simp [hbpub])
  · refine ⟨hback, hbthread, (h.shape B b hb).number hbpub ?_⟩
    by_contra hnot
    exact absurd ((h.shape B b hb).pfp (by simpa using hnot)).2 (by simp [hback])
  · obtain ⟨-, -, -, b₁, hb₁, hnot, -⟩ := hd.stolen _ hmem
    rw [hb, Option.some.injEq] at hb₁
    exact absurd hnot (by simp [← hb₁, hbpub])

theorem effect_stm_steal_stub {S O : gcptr} (h : Inv s)
    (hs : step s (.stm_steal_stub S O) = .next s') (hx : s.heap p = some x) :
    EffectAt s s' (.stm_steal_stub S O) p x := by
  rw [step] at hs
  cases hS : s.heap S with
  | none =>
      rw [hS] at hs
      simp at hs
  | some stub =>
      rw [hS] at hs
      dsimp only at hs
      cases hrev : stub.h_revision with
      | stub L =>
          rw [hrev] at hs
          dsimp only at hs
          cases hl : s.heap L with
          | none =>
              rw [hl] at hs
              simp at hs
          | some l =>
              rw [hl] at hs
              obtain ⟨hfree, hs⟩ := guarded_eq_next.mp hs
              have hSpub := (h.shape S stub hS).stub L hrev
              obtain ⟨l₁, hl₁, hthread, -, -⟩ := (h.stub S stub L hS hrev).of_free hfree
              rw [hl, Option.some.injEq] at hl₁
              subst hl₁
              rw [Stmgc.C4.steal] at hs
              split_ifs at hs with hpfp hpub hmoved hold
              · cases hlrev : l.h_revision with
                | pointer B =>
                    rw [hlrev] at hs
                    dsimp only at hs
                    cases hb : s.heap B with
                    | none =>
                        rw [hb] at hs
                        simp at hs
                    | some b =>
                        rw [hb] at hs
                        dsimp only at hs
                        split_ifs at hs with hflag
                        · rw [guarded_eq_next, Outcome.next.injEq] at hs
                          obtain ⟨hbpub, hs⟩ := hs
                          refine effect_stub (r := s.set_object B { b with
                              GCFLAG_BACKUP_COPY := false }) hS hSpub hrev hfree
                            (by rw [← hs]; rfl) hx fun _ hp => ?_
                          by_cases hpB : p = B
                          · subst hpB
                            rw [hb, Option.some.injEq] at hx
                            subst hx
                            rw [State.set_object_heap, Function.update_self] at hp
                            exact .same _ hp.symm
                              ⟨rfl, rfl, ((h.shape p b hb).backup_eq_false hbpub).symm, rfl, id, rfl⟩ rfl
                          · rw [State.set_object_heap, Function.update_of_ne hpB] at hp
                            exact .refl hx hp.symm
                        · rw [guarded_eq_next, Outcome.next.injEq] at hs
                          obtain ⟨hbpub, hs⟩ := hs
                          refine effect_stub (r := s.set_object B { b with
                              GCFLAG_BACKUP_COPY := false
                              GCFLAG_PUBLIC_TO_PRIVATE := true
                              GCFLAG_PUBLIC := true }) hS hSpub hrev hfree
                            (by rw [← hs]; rfl) hx fun _ hp => ?_
                          by_cases hpB : p = B
                          · subst hpB
                            rw [hb, Option.some.injEq] at hx
                            subst hx
                            have hback := h.backup_of_free hfree hl hthread hpfp hlrev hb hbpub
                            exact .own hbpub (Or.inl (by rw [hback.2.1]; exact hfree))
                          · rw [State.set_object_heap, Function.update_of_ne hpB] at hp
                            exact .refl hx hp.symm
                | _ =>
                    rw [hlrev] at hs
                    simp at hs
              · cases hlrev : l.h_revision with
                | pointer X =>
                    rw [hlrev] at hs
                    dsimp only at hs
                    rw [Outcome.next.injEq] at hs
                    exact effect_stub (r := s) hS hSpub hrev hfree (by rw [← hs]; rfl) hx
                      fun _ hp => .refl hx hp.symm
                | _ =>
                    rw [hlrev] at hs
                    simp at hs
              · rw [Outcome.next.injEq] at hs
                exact effect_stub (r := s) hS hSpub hrev hfree (by rw [← hs]; rfl) hx
                  fun _ hp => .refl hx hp.symm
              · rw [Outcome.next.injEq] at hs
                rw [Bool.not_eq_true] at hpub
                refine effect_stub (r := s.set_object L { l with GCFLAG_PUBLIC := true }) hS hSpub hrev
                  hfree (by rw [← hs]; rfl) hx fun _ hp => ?_
                by_cases hpL : p = L
                · rw [hpL, hl, Option.some.injEq] at hx
                  subst hx
                  exact .own hpub (Or.inl (by rw [hthread]; exact hfree))
                · rw [State.set_object_heap, Function.update_of_ne hpL] at hp
                  exact .refl hx hp.symm
              · rw [guarded_eq_next, Outcome.next.injEq] at hs
                obtain ⟨⟨hO, -⟩, hs⟩ := hs
                rw [Bool.not_eq_true] at hpub
                refine effect_stub (r := (s.set_object O { l with
                    GCFLAG_OLD := true, GCFLAG_PUBLIC := true }).set_object L { l with
                    h_revision := .pointer O, GCFLAG_PUBLIC := true, GCFLAG_MOVED := true }) hS hSpub
                  hrev hfree (by rw [← hs]; rfl) hx fun _ hp => ?_
                by_cases hpL : p = L
                · rw [hpL, hl, Option.some.injEq] at hx
                  subst hx
                  exact .own hpub (Or.inl (by rw [hthread]; exact hfree))
                · have hpO : p ≠ O := by
                    rintro rfl
                    exact absurd hx (by simp [hO])
                  rw [State.set_object_heap, Function.update_of_ne hpL, State.set_object_heap,
                    Function.update_of_ne hpO] at hp
                  exact .refl hx hp.symm
      | _ =>
          rw [hrev] at hs
          simp at hs

theorem effect_copy_over_original {obj id_copy : gcptr}
    (hs : step s (.copy_over_original obj id_copy) = .next s') (hx : s.heap p = some x) :
    EffectAt s s' (.copy_over_original obj id_copy) p x := by
  rw [step] at hs
  cases hobj : s.heap obj with
  | none =>
      rw [hobj] at hs
      simp at hs
  | some y =>
      cases hid : s.heap id_copy with
      | none =>
          rw [hobj, hid] at hs
          simp at hs
      | some z =>
          rw [hobj, hid] at hs
          dsimp only at hs
          rw [guarded_eq_next] at hs
          obtain ⟨⟨hfree, -, hypub, -, -, hzpub, -⟩, hs⟩ := hs
          split_ifs at hs with hsome
          rw [Outcome.next.injEq] at hs
          by_cases hpub : x.GCFLAG_PUBLIC = true
          · have hidpub : ∀ w, s.heap id_copy = some w → w.GCFLAG_PUBLIC = true := by
              intro w hw
              rw [hid, Option.some.injEq] at hw
              exact hw ▸ hzpub
            obtain ⟨x', hx', hflags, -⟩ := moved_heap_some hobj hypub hidpub hx
            exact .moved x' hpub (by rw [← hs]; exact hx') (hflags.PUBLIC.trans hpub)
              fun u => (hfree u).1
          · exact .own (by simpa using hpub) (Or.inl (hfree _).1)

/-! ## The steps of a commit -/

/-- A step that gives an item other revisions. -/
theorem effect_item {u : Fin n} {item : wlog_t} {r l : object n Content} {b c : revision_t n}
    (h : Inv s) (hmem : item ∈ (s.threads u).items) (ha : a.commits u) (hr : s.heap item.1 = some r)
    (hs : s'.heap = item_heap s.heap item r l b c)
    (hrev : PublicRev s s' a item.1 r.h_revision b) (hx : s.heap p = some x) :
    EffectAt s s' a p x := by
  have hd := h.thread u
  have hne := hd.key_ne_val hmem hmem
  obtain ⟨r₁, l₁, hr₁, hl₁, hpub, -, hlpub, -, hlt⟩ := hd.item item hmem
  by_cases hp₁ : p = item.1
  · subst hp₁
    rw [hr, Option.some.injEq] at hr₁ hx
    subst hr₁ hx
    exact .shared { r with h_revision := b } hpub (by rw [hs, item_heap_key hne]) hpub rfl rfl hrev
  · by_cases hp₂ : p = item.2
    · subst hp₂
      rw [hl₁, Option.some.injEq] at hx
      subst hx
      exact .own hlpub (Or.inr (by rw [hlt]; exact ha))
    · exact .refl hx (by rw [hs, item_heap_of_ne hp₁ hp₂])

theorem effect_AcquireLocks (h : Inv s) (hs : step s (.AcquireLocks t) = .next s')
    (hx : s.heap p = some x) : EffectAt s s' (.AcquireLocks t) p x := by
  have hlocks := (h.thread t).locks
  cases acquire_step hs with
  | done hpc => exact .refl hx rfl
  | abort hpc hr hrev => exact .refl hx rfl
  | spin hpc hr hrev hu => exact .refl hx rfl
  | load hpc hr hrev => exact .refl hx rfl
  | retry hpc => exact .refl hx rfl
  | @lock item todo r l v hpc hr hl hrev hexp hv =>
      rw [hpc] at hlocks
      obtain ⟨⟨w, rfl⟩, done, hsplit, -, -⟩ := hlocks
      have hmem : item ∈ (s.threads t).items := by rw [hsplit]; simp
      exact effect_item (u := t) h hmem rfl hr rfl
        (.lock rfl hrev hmem item_heap_val rfl) hx

theorem effect_CancelLocks (h : Inv s) (hs : step s (.CancelLocks t) = .next s')
    (hx : s.heap p = some x) : EffectAt s s' (.CancelLocks t) p x := by
  cases h.cancel_step hs with
  | done hpc => exact .refl hx rfl
  | stop hpc hr hl hexp => exact .refl hx rfl
  | @unlock item todo abort r l hpc hr hl hexp hne =>
      obtain ⟨hmem, hcase⟩ := h.cancel_head hpc
      rcases hcase with ⟨r₁, l₁, v, hr₁, hl₁, hrev, hv, -⟩ | ⟨r₁, l₁, -, hl₁, -, hexp₁⟩
      · rw [hr, Option.some.injEq] at hr₁
        rw [hl, Option.some.injEq] at hl₁
        subst hr₁ hl₁
        refine effect_item (u := t) h hmem rfl hr rfl ?_ hx
        rw [hv]
        exact .unlock rfl hrev hmem hl hv
      · rw [hl, Option.some.injEq] at hl₁
        exact absurd (hl₁ ▸ hexp₁) hexp

/-- The loops over `private_from_protected` change objects of their thread only. -/
theorem effect_pfp {out : object n Content → object n Content} (h : Inv s) (hown : OwnBackups s t)
    (ha : a.commits t)
    (hdone : PfpDone s.heap out (s.threads t).private_from_protected s'.heap)
    (hx : s.heap p = some x) : EffectAt s s' a p x := by
  rcases hdone.cases (h.pfp_list hown) p with ⟨hp, -⟩ | ⟨-, -, P, hP, q, b, hq, hrev, hb, hpub⟩ | ⟨-, hh⟩
  · obtain ⟨x₁, hx₁, hflag, hthread⟩ := ((h.thread t).pfp p).mp hp
    rw [hx, Option.some.injEq] at hx₁
    subst hx₁
    exact .own ((h.shape p x hx).pfp hflag).1 (Or.inr (hthread ▸ ha))
  · rw [hx, Option.some.injEq] at hb
    subst hb
    exact .own hpub (Or.inr ((hown P hP q p x hq hrev hx hpub).2.2 ▸ ha))
  · exact .refl hx hh

theorem effect_CommitPrivateFromProtected {cur_time : ℤ} (h : Inv s)
    (hs : step s (.CommitPrivateFromProtected t cur_time) = .next s') (hx : s.heap p = some x) :
    EffectAt s s' (.CommitPrivateFromProtected t cur_time) p x := by
  rw [step, guarded_eq_next] at hs
  obtain ⟨hpc, hs⟩ := hs
  obtain ⟨heap', hrun, hdone⟩ := h.commit_private_from_protected hpc cur_time
  rw [hrun] at hs
  dsimp only at hs
  rw [Outcome.next.injEq] at hs
  subst hs
  exact effect_pfp (t := t) h (h.acquired_backups hpc) rfl hdone hx

theorem effect_abort_done (h : Inv s) (hs : step s (.abort_done t) = .next s')
    (hx : s.heap p = some x) : EffectAt s s' (.abort_done t) p x := by
  rw [step, guarded_eq_next] at hs
  obtain ⟨hpc, hs⟩ := hs
  obtain ⟨heap', hrun, hdone⟩ := h.abort_private_from_protected hpc
  rw [hrun] at hs
  dsimp only at hs
  rw [Outcome.next.injEq] at hs
  subst hs
  exact effect_pfp (t := t) h (h.aborting_backups hpc) rfl hdone hx

theorem effect_new_heads {items : List (wlog_t × gcptr)} (h : Inv s)
    (hs : step s (.new_heads t items) = .next s') (hx : s.heap p = some x) :
    EffectAt s s' (.new_heads t items) p x := by
  rw [step] at hs
  cases hpc : (s.threads t).pc with
  | committed cur_time =>
      rw [hpc] at hs
      dsimp only at hs
      rw [guarded_eq_next] at hs
      obtain ⟨hitems, hs⟩ := hs
      obtain ⟨heap', hheap, hs⟩ := Outcome.bind_eq_next.mp hs
      rw [Outcome.ofOption_eq_next] at hheap
      rw [Outcome.next.injEq] at hs
      have hheads := h.new_heads_list hitems hheap
      rcases hheads.cases hitems p with ⟨R, l, hmem, hl, -⟩ | ⟨hnone, -⟩ | ⟨-, hsame⟩
      · obtain ⟨r₁, l₁, -, hl₁, -, -, hlpub, -, hlt⟩ := (h.thread t).item _ hmem
        rw [hx, Option.some.injEq] at hl₁
        subst hl₁
        exact .own hlpub (Or.inr (by rw [hlt]; rfl))
      · exact absurd hx (by simp [hnone])
      · exact .refl hx (by rw [← hs]; exact hsame)
  | _ =>
      rw [hpc] at hs
      simp at hs

theorem effect_UpdateChainHeads {R : gcptr} (h : Inv s)
    (hs : step s (.UpdateChainHeads t R) = .next s') (hx : s.heap p = some x) :
    EffectAt s s' (.UpdateChainHeads t R) p x := by
  rw [step] at hs
  cases hpc : (s.threads t).pc with
  | chain_heads todo =>
      cases todo with
      | nil =>
          rw [hpc] at hs
          simp at hs
      | cons y todo =>
          obtain ⟨R', stub⟩ := y
          rw [hpc] at hs
          dsimp only at hs
          cases hr : s.heap R with
          | none =>
              rw [hr] at hs
              simp at hs
          | some r =>
              rw [hr] at hs
              dsimp only at hs
              rw [guarded_eq_next] at hs
              obtain ⟨rfl, hs⟩ := hs
              split_ifs at hs with hflag
              rw [Outcome.next.injEq] at hs
              have hlocks := (h.thread t).locks
              rw [hpc] at hlocks
              obtain ⟨-, -, htodo, -⟩ := hlocks
              obtain ⟨r₁, hr₁, hrev⟩ := htodo _ List.mem_cons_self
              rw [hr, Option.some.injEq] at hr₁
              subst hr₁
              by_cases hp : p = R
              · subst hp
                rw [hr, Option.some.injEq] at hx
                subst hx
                exact .shared { r with h_revision := .pointer stub } hflag.1
                  (by rw [← hs, State.set_pc_heap, State.set_object_heap, Function.update_self])
                  hflag.1 rfl rfl (.publish rfl hrev)
              · exact .of_ne hx (by rw [← hs]; rfl) hp
  | _ =>
      rw [hpc] at hs
      simp at hs

/-! ## Every step -/

/-- The effect of a step of the machine on an object. -/
theorem effect_at (h : Inv s) (hs : step s a = .next s') (hx : s.heap p = some x) :
    EffectAt s s' a p x := by
  cases a with
  | allocate t o c => exact effect_allocate hs hx
  | write t o c => exact effect_write hs hx
  | LocalizeProtected t P B => exact effect_LocalizeProtected hs hx
  | LocalizePublic t R L old => exact effect_LocalizePublic hs hx
  | stub_malloc P S => exact effect_stub_malloc hs hx
  | stm_steal_stub S O => exact effect_stm_steal_stub h hs hx
  | shortcut P_prev P => exact effect_shortcut hs hx
  | minor_collect t => exact effect_minor_collect hs hx
  | copy_over_original obj id_copy => exact effect_copy_over_original hs hx
  | AcquireLocks t => exact effect_AcquireLocks h hs hx
  | CancelLocks t => exact effect_CancelLocks h hs hx
  | CommitPrivateFromProtected t cur_time => exact effect_CommitPrivateFromProtected h hs hx
  | new_heads t items => exact effect_new_heads h hs hx
  | UpdateChainHeads t R => exact effect_UpdateChainHeads h hs hx
  | abort_done t => exact effect_abort_done h hs hx
  | DescriptorInit t rev =>
      rw [step, guarded_eq_next, Outcome.next.injEq] at hs
      exact effect_thread hs.2 hx
  | call_CancelLocks t abort =>
      rw [step, guarded_eq_next, Outcome.next.injEq] at hs
      exact effect_thread hs.2 hx
  | commit_done t =>
      rw [step, guarded_eq_next, Outcome.next.injEq] at hs
      exact effect_thread hs.2 hx
  | stm_normalize_stolen_objects t =>
      rw [step, guarded_eq_next] at hs
      obtain ⟨d, -, hs⟩ := Outcome.bind_eq_next.mp hs.2
      rw [Outcome.next.injEq] at hs
      exact effect_thread hs hx
  | CommitTransaction t =>
      rw [step, guarded_eq_next] at hs
      obtain ⟨d, -, hs⟩ := Outcome.bind_eq_next.mp hs.2
      split_ifs at hs
      rw [Outcome.next.injEq] at hs
      exact effect_thread hs hx
  | wait_over t abort =>
      rw [step, guarded_eq_next] at hs
      obtain ⟨d, -, hs⟩ := Outcome.bind_eq_next.mp hs.2
      by_cases hlock : stm_has_got_any_lock s.heap (.locked t) d = some false
      · rw [if_pos hlock, Outcome.next.injEq] at hs
        exact effect_thread hs hx
      · rw [if_neg hlock] at hs
        simp at hs
  | AbortTransaction t =>
      rw [step, guarded_eq_next] at hs
      obtain ⟨d, -, hs⟩ := Outcome.bind_eq_next.mp hs.2
      split_ifs at hs
      rw [Outcome.next.injEq] at hs
      exact effect_thread hs hx

/-- What a step does to the thread `t`. -/
inductive ThreadsAt (s s' : State n Content) (a : Act n Content) (t : Fin n) : Prop where
  | same (hsame : s'.threads t = s.threads t) : ThreadsAt s s' a t
  /-- the thread runs its program or waits -/
  | free (hfree : (s.threads t).pc.has_collection_lock = false)
      (hpast : (s'.threads t).pc.past_locks = false) : ThreadsAt s s' a t
  | commits (ha : a.commits t) : ThreadsAt s s' a t

/-- One thread changes. -/
theorem ThreadsAt.of_update {u : Fin n} {d : tx_descriptor n}
    (hs : s'.threads = Function.update s.threads u d)
    (hu : ThreadsAt s s' a u ∨ a.commits u) : ThreadsAt s s' a t := by
  by_cases ht : t = u
  · subst ht
    exact hu.elim id .commits
  · exact .same (by rw [hs, Function.update_of_ne ht])

/-- A thread without its `collection_lock` does not come past its locks. -/
theorem ThreadsAt.of_free {u : Fin n} {d : tx_descriptor n}
    (hs : s'.threads = Function.update s.threads u d)
    (hfree : (s.threads u).pc.has_collection_lock = false) (hpast : d.pc.past_locks = false) :
    ThreadsAt s s' a t := by
  refine .of_update hs (Or.inl (.free hfree ?_))
  rw [hs, Function.update_self]
  exact hpast

theorem threads_at_steal {S O L : gcptr} {stub l : object n Content} {u : Fin n}
    (hfree : (s.threads u).pc.has_collection_lock = false)
    (hs : steal s S O L stub l u = .next s') : ThreadsAt s s' a t := by
  rw [steal] at hs
  split_ifs at hs with hpfp hpub hmoved hold
  · cases hlrev : l.h_revision with
    | pointer B =>
        rw [hlrev] at hs
        dsimp only at hs
        cases hb : s.heap B with
        | none =>
            rw [hb] at hs
            simp at hs
        | some b =>
            rw [hb] at hs
            dsimp only at hs
            split_ifs at hs with hflag
            · rw [guarded_eq_next, Outcome.next.injEq] at hs
              exact .same (by rw [← hs.2]; rfl)
            · rw [guarded_eq_next, Outcome.next.injEq] at hs
              refine .of_free (by rw [← hs.2]; rfl) hfree ?_
              exact Pc.past_locks_eq_false hfree
    | _ =>
        rw [hlrev] at hs
        simp at hs
  · cases hlrev : l.h_revision with
    | pointer X =>
        rw [hlrev] at hs
        dsimp only at hs
        rw [Outcome.next.injEq] at hs
        exact .same (by rw [← hs]; rfl)
    | _ =>
        rw [hlrev] at hs
        simp at hs
  · rw [Outcome.next.injEq] at hs
    exact .same (by rw [← hs]; rfl)
  · rw [Outcome.next.injEq] at hs
    exact .same (by rw [← hs]; rfl)
  · rw [guarded_eq_next, Outcome.next.injEq] at hs
    exact .same (by rw [← hs.2]; rfl)

theorem threads_at (h : Inv s) (hs : step s a = .next s') : ThreadsAt s s' a t := by
  cases a with
  | DescriptorInit u rev =>
      rw [step, guarded_eq_next, Outcome.next.injEq] at hs
      have hfree : (s.threads u).pc.has_collection_lock = false := by rw [hs.1.1]; rfl
      refine .of_free (by rw [← hs.2]; rfl) hfree ?_
      exact Pc.past_locks_eq_false hfree
  | allocate u o c =>
      rw [step, guarded_eq_next, Outcome.next.injEq] at hs
      exact .same (by rw [← hs.2]; rfl)
  | write u o c =>
      rw [step] at hs
      cases ho : s.heap o with
      | none =>
          rw [ho] at hs
          simp at hs
      | some y =>
          rw [ho] at hs
          dsimp only at hs
          rw [guarded_eq_next, Outcome.next.injEq] at hs
          exact .same (by rw [← hs.2]; rfl)
  | LocalizeProtected u P B =>
      rw [step] at hs
      cases hP : s.heap P with
      | none =>
          rw [hP] at hs
          simp at hs
      | some y =>
          rw [hP] at hs
          dsimp only at hs
          rw [guarded_eq_next, Outcome.next.injEq] at hs
          have hfree : (s.threads u).pc.has_collection_lock = false := by rw [hs.1.1]; rfl
          refine .of_free (by rw [← hs.2]; rfl) hfree ?_
          exact Pc.past_locks_eq_false hfree
  | LocalizePublic u R L old =>
      rw [step] at hs
      cases hR : s.heap R with
      | none =>
          rw [hR] at hs
          simp at hs
      | some r =>
          rw [hR] at hs
          dsimp only at hs
          rw [guarded_eq_next] at hs
          obtain ⟨g, -, hs'⟩ := Outcome.bind_eq_next.mp hs.2
          rw [Outcome.next.injEq] at hs'
          have hfree : (s.threads u).pc.has_collection_lock = false := by rw [hs.1.1]; rfl
          refine .of_free (by rw [← hs']; rfl) hfree ?_
          exact Pc.past_locks_eq_false hfree
  | stub_malloc P S =>
      rw [step] at hs
      cases hP : s.heap P with
      | none =>
          rw [hP] at hs
          simp at hs
      | some y =>
          rw [hP] at hs
          dsimp only at hs
          rw [guarded_eq_next, Outcome.next.injEq] at hs
          exact .same (by rw [← hs.2]; rfl)
  | stm_steal_stub S O =>
      rw [step] at hs
      cases hS : s.heap S with
      | none =>
          rw [hS] at hs
          simp at hs
      | some stub =>
          rw [hS] at hs
          dsimp only at hs
          cases hrev : stub.h_revision with
          | stub L =>
              rw [hrev] at hs
              dsimp only at hs
              cases hl : s.heap L with
              | none =>
                  rw [hl] at hs
                  simp at hs
              | some l =>
                  rw [hl] at hs
                  dsimp only at hs
                  rw [guarded_eq_next] at hs
                  exact threads_at_steal hs.1 hs.2
          | _ =>
              rw [hrev] at hs
              simp at hs
  | stm_normalize_stolen_objects u =>
      rw [step, guarded_eq_next] at hs
      obtain ⟨d, hd, hs'⟩ := Outcome.bind_eq_next.mp hs.2
      rw [Outcome.ofOption_eq_next] at hd
      rw [Outcome.next.injEq] at hs'
      refine .of_free (by rw [← hs']; rfl) hs.1 ?_
      rw [(stm_normalize_stolen_objects_spec hd).2]
      exact Pc.past_locks_eq_false hs.1
  | shortcut P_prev P =>
      rw [step] at hs
      cases hprev : s.heap P_prev with
      | none =>
          rw [hprev] at hs
          simp at hs
      | some p_prev =>
          cases hP : s.heap P with
          | none =>
              rw [hprev, hP] at hs
              simp at hs
          | some y =>
              rw [hprev, hP] at hs
              dsimp only at hs
              obtain ⟨-, hs⟩ := guarded_eq_next.mp hs
              cases hv : y.h_revision with
              | pointer v =>
                  rw [hv] at hs
                  dsimp only at hs
                  rw [Outcome.next.injEq] at hs
                  exact .same (by rw [← hs]; rfl)
              | _ =>
                  rw [hv] at hs
                  simp at hs
  | minor_collect u =>
      rw [step, guarded_eq_next, Outcome.next.injEq] at hs
      exact .same (by rw [← hs.2])
  | copy_over_original obj id_copy =>
      rw [step] at hs
      cases hobj : s.heap obj with
      | none =>
          rw [hobj] at hs
          simp at hs
      | some y =>
          cases hid : s.heap id_copy with
          | none =>
              rw [hobj, hid] at hs
              simp at hs
          | some z =>
              rw [hobj, hid] at hs
              dsimp only at hs
              rw [guarded_eq_next] at hs
              obtain ⟨⟨hfree, -⟩, hs⟩ := hs
              split_ifs at hs with hsome
              rw [Outcome.next.injEq] at hs
              refine .free (hfree t).1 ?_
              obtain ⟨d, hd⟩ := Option.isSome_iff_exists.mp (hsome t)
              rw [← hs]
              dsimp only
              rw [hd, Option.getD_some, (rekey_spec hd).1]
              exact Pc.past_locks_eq_false (hfree t).1
  | CommitTransaction u =>
      rw [step, guarded_eq_next] at hs
      obtain ⟨d, -, hs'⟩ := Outcome.bind_eq_next.mp hs.2
      split_ifs at hs'
      rw [Outcome.next.injEq] at hs'
      exact .of_free (by rw [← hs']; rfl) (by rw [hs.1]; rfl) rfl
  | AbortTransaction u =>
      rw [step, guarded_eq_next] at hs
      obtain ⟨d, -, hs'⟩ := Outcome.bind_eq_next.mp hs.2
      split_ifs at hs'
      rw [Outcome.next.injEq] at hs'
      exact .of_free (by rw [← hs']; rfl) (by rw [hs.1]; rfl) rfl
  | wait_over u abort =>
      rw [step, guarded_eq_next] at hs
      obtain ⟨d, -, hs'⟩ := Outcome.bind_eq_next.mp hs.2
      by_cases hno : stm_has_got_any_lock s.heap (.locked u) d = some false
      · rw [if_pos hno, Outcome.next.injEq] at hs'
        refine .of_free (by rw [← hs']; rfl) (by rw [hs.1]; rfl) ?_
        cases abort with
        | true => rfl
        | false => rfl
      · rw [if_neg hno] at hs'
        simp at hs'
  | AcquireLocks u =>
      cases acquire_step hs with
      | spin hpc hr hrev hu => exact .same rfl
      | _ => exact .of_update rfl (Or.inr rfl)
  | call_CancelLocks u abort =>
      rw [step, guarded_eq_next, Outcome.next.injEq] at hs
      exact .of_update (by rw [← hs.2]; rfl) (Or.inr rfl)
  | CancelLocks u =>
      cases h.cancel_step hs with
      | _ => exact .of_update rfl (Or.inr rfl)
  | CommitPrivateFromProtected u cur_time =>
      rw [step, guarded_eq_next] at hs
      obtain ⟨hpc, hs⟩ := hs
      obtain ⟨heap', hrun, -⟩ := h.commit_private_from_protected hpc cur_time
      rw [hrun] at hs
      dsimp only at hs
      rw [Outcome.next.injEq] at hs
      exact .of_update (by rw [← hs]; rfl) (Or.inr rfl)
  | new_heads u items =>
      rw [step] at hs
      cases hpc : (s.threads u).pc with
      | committed cur_time =>
          rw [hpc] at hs
          dsimp only at hs
          rw [guarded_eq_next] at hs
          obtain ⟨heap', -, hs'⟩ := Outcome.bind_eq_next.mp hs.2
          rw [Outcome.next.injEq] at hs'
          exact .of_update (by rw [← hs']; rfl) (Or.inr rfl)
      | _ =>
          rw [hpc] at hs
          simp at hs
  | UpdateChainHeads u R =>
      rw [step] at hs
      cases hpc : (s.threads u).pc with
      | chain_heads todo =>
          cases todo with
          | nil =>
              rw [hpc] at hs
              simp at hs
          | cons y todo =>
              rw [hpc] at hs
              dsimp only at hs
              cases hr : s.heap R with
              | none =>
                  rw [hr] at hs
                  simp at hs
              | some r =>
                  rw [hr] at hs
                  dsimp only at hs
                  rw [guarded_eq_next] at hs
                  obtain ⟨-, hs⟩ := hs
                  split_ifs at hs with hflag
                  rw [Outcome.next.injEq] at hs
                  exact .of_update (by rw [← hs]; rfl) (Or.inr rfl)
      | _ =>
          rw [hpc] at hs
          simp at hs
  | commit_done u =>
      rw [step, guarded_eq_next, Outcome.next.injEq] at hs
      exact .of_update (by rw [← hs.2]; rfl) (Or.inr rfl)
  | abort_done u =>
      rw [step, guarded_eq_next] at hs
      obtain ⟨hpc, hs⟩ := hs
      obtain ⟨heap', hrun, -⟩ := h.abort_private_from_protected hpc
      rw [hrun] at hs
      dsimp only at hs
      rw [Outcome.next.injEq] at hs
      exact .of_update (by rw [← hs]; rfl) (Or.inr rfl)

/-- A thread that holds its `collection_lock` is where it was after a step of another. -/
theorem threads_step (h : Inv s) (hlock : (s.threads t).pc.has_collection_lock = true)
    (ha : ¬ a.commits t) (hs : step s a = .next s') : s'.threads t = s.threads t := by
  cases threads_at (t := t) h hs with
  | same hsame => exact hsame
  | free hfree _ => exact absurd hlock (by simp [hfree])
  | commits hcommits => exact absurd hcommits ha

/-- Only a commit brings a thread past its locks. -/
theorem past_of_step (h : Inv s) (ha : ¬ a.commits t) (hs : step s a = .next s')
    (hpast : (s'.threads t).pc.past_locks = true) : (s.threads t).pc.past_locks = true := by
  cases threads_at (t := t) h hs with
  | same hsame => rwa [hsame] at hpast
  | free _ hnot => exact absurd hpast (by simp [hnot])
  | commits hcommits => exact absurd hcommits ha

end Effect

end Stmgc.C4
