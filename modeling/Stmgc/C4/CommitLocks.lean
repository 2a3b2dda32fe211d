/-
`AcquireLocks` and `CancelLocks` keep the invariant of the commit protocol.

Both work on one item at a time: they give the key and its local copy other
revisions, [`Inv.set_item`].
-/
import Stmgc.C4.CommitMoved

open Stmgc.Lib

namespace Stmgc.C4

variable {n : ℕ} {Content : Type} {s s' : State n Content} {t : Fin n}

/-! ## One item -/

section Item

variable {heap : Heap n Content} {d : tx_descriptor n} {item x : wlog_t}
  {r l : object n Content}

/-- A key is not a local copy. -/
theorem ThreadInv.key_ne_val (h : ThreadInv heap t d) (hitem : item ∈ d.items) (hx : x ∈ d.items) :
    x.1 ≠ item.2 := by
  obtain ⟨r, l, -, hl, -, -, hlpub, -⟩ := h.item item hitem
  obtain ⟨r', l', hr', -, hrpub', -⟩ := h.item x hx
  intro heq
  rw [heq, hl, Option.some.injEq] at hr'
  exact absurd hrpub' (by simp [← hr', hlpub])

/-- Two items of a table have nothing in common. -/
theorem ThreadInv.item_ne (h : ThreadInv heap t d) (hitem : item ∈ d.items) (hx : x ∈ d.items)
    (hne : x ≠ item) :
    x.1 ≠ item.1 ∧ x.1 ≠ item.2 ∧ x.2 ≠ item.1 ∧ x.2 ≠ item.2 := by
  refine ⟨fun heq => hne ?_, h.key_ne_val hitem hx, (h.key_ne_val hx hitem).symm, fun heq => hne ?_⟩
  · exact Prod.ext heq (G2L.eq_of_mem (heq ▸ hx) hitem)
  · exact h.val_inj x hx item hitem heq

theorem ThreadInv.items_nodup (_ : ThreadInv heap t d) : d.items.Nodup :=
  List.Nodup.of_map _ d.public_to_private.keys_nodup

variable (heap item) in
/-- The heap after the item got the revisions `a` and `b`. -/
def item_heap (r l : object n Content) (a b : revision_t n) : Heap n Content :=
  Function.update (Function.update heap item.1 (some { r with h_revision := a })) item.2
    (some { l with h_revision := b })

variable {a b : revision_t n}

theorem item_heap_of_ne {p : gcptr} (h₁ : p ≠ item.1) (h₂ : p ≠ item.2) :
    item_heap heap item r l a b p = heap p := by
  rw [item_heap, Function.update_of_ne h₂, Function.update_of_ne h₁]

theorem item_heap_val : item_heap heap item r l a b item.2 = some { l with h_revision := b } :=
  Function.update_self _ _ _

theorem item_heap_key (hne : item.1 ≠ item.2) :
    item_heap heap item r l a b item.1 = some { r with h_revision := a } := by
  rw [item_heap, Function.update_of_ne hne, Function.update_self]

theorem ThreadInv.locked_item_heap (h : ThreadInv heap t d) (hitem : item ∈ d.items)
    (hx : x ∈ d.items) (hne : x ≠ item) (hlocked : Locked heap t d x) :
    Locked (item_heap heap item r l a b) t d x := by
  obtain ⟨h1, h2, h3, h4⟩ := h.item_ne hitem hx hne
  obtain ⟨r', l', v, hr', hl', hrest⟩ := hlocked
  exact ⟨r', l', v, by rw [item_heap_of_ne h1 h2, hr'], by rw [item_heap_of_ne h3 h4, hl'], hrest⟩

theorem ThreadInv.unlocked_item_heap (h : ThreadInv heap t d) (hitem : item ∈ d.items)
    (hx : x ∈ d.items) (hne : x ≠ item) (hunlocked : Unlocked heap t d x) :
    Unlocked (item_heap heap item r l a b) t d x := by
  obtain ⟨h1, h2, h3, h4⟩ := h.item_ne hitem hx hne
  obtain ⟨r', l', hr', hl', hrest⟩ := hunlocked
  exact ⟨r', l', by rw [item_heap_of_ne h1 h2, hr'], by rw [item_heap_of_ne h3 h4, hl'], hrest⟩

end Item

/-- An item gets other revisions, while its thread holds the `collection_lock`. -/
theorem Inv.set_item {item : wlog_t} {pc : Pc n} {r l : object n Content} {a b : revision_t n}
    (h : Inv s) (hlock : (s.threads t).pc.has_collection_lock = true)
    (hmem : item ∈ (s.threads t).items) (hr : s.heap item.1 = some r) (hl : s.heap item.2 = some l)
    (hru : ∀ u, u ≠ t → r.h_revision ≠ .locked u) (hau : ∀ u, u ≠ t → a ≠ .locked u)
    (ha : ∀ M, a ≠ .stub M)
    (hb : (∃ v, b = .number v) ∨ l.GCFLAG_PRIVATE_FROM_PROTECTED = true ∧ ∃ q, b = .pointer q)
    (hpast : (s.threads t).pc.past_locks = true → pc.past_locks = true)
    (hlocks : LockState (item_heap s.heap item r l a b) t { s.threads t with pc := pc } pc) :
    Inv ({ s with heap := item_heap s.heap item r l a b }.set_pc t pc) := by
  have hd := h.thread t
  have hstolen := hd.normalized hlock
  obtain ⟨r₁, l₁, hr₁, hl₁, hrpub, hrold, hlpub, hlback, hlthread⟩ := hd.item item hmem
  rw [hr, Option.some.injEq] at hr₁
  rw [hl, Option.some.injEq] at hl₁
  subst hr₁ hl₁
  have hne : item.1 ≠ item.2 := by
    intro heq
    rw [heq, hl, Option.some.injEq] at hr
    exact absurd hrpub (by simp [← hr, hlpub])
  have hbstub : ∀ M, b ≠ .stub M := by
    rintro M rfl
    rcases hb with ⟨v, hv⟩ | ⟨-, q, hq⟩
    · exact absurd hv (by simp)
    · exact absurd hq (by simp)
  have hblock : ∀ u, b ≠ .locked u := by
    rintro u rfl
    rcases hb with ⟨v, hv⟩ | ⟨-, q, hq⟩
    · exact absurd hv (by simp)
    · exact absurd hq (by simp)
  have hrshape : Shape { r with h_revision := a } :=
    .of_public hrpub ((h.shape _ r hr).pfp_eq_false hrpub) ((h.shape _ r hr).backup_eq_false hrpub)
  have hlshape : Shape { l with h_revision := b } := by
    refine ⟨fun hpfp => ⟨hlpub, hlback⟩, fun _ => hlpub, fun _ hpfp => ?_,
      fun u hu => absurd hu (hblock u), fun M hM => absurd hM (hbstub M)⟩
    rcases hb with hv | ⟨hnot, -⟩
    · exact hv
    · exact absurd hnot (by simpa using hpfp)
  -- an object that is not the key nor the local copy stays
  have hheap : ∀ p x', item_heap s.heap item r l a b p = some x' →
      (p = item.1 ∧ x' = { r with h_revision := a }) ∨ (p = item.2 ∧ x' = { l with h_revision := b })
        ∨ (p ≠ item.1 ∧ p ≠ item.2 ∧ s.heap p = some x') := by
    intro p x' hx'
    by_cases hp₂ : p = item.2
    · subst hp₂
      rw [item_heap_val, Option.some.injEq] at hx'
      exact Or.inr (Or.inl ⟨rfl, hx'.symm⟩)
    · by_cases hp₁ : p = item.1
      · subst hp₁
        rw [item_heap_key hne, Option.some.injEq] at hx'
        exact Or.inl ⟨rfl, hx'.symm⟩
      · rw [item_heap_of_ne hp₁ hp₂] at hx'
        exact Or.inr (Or.inr ⟨hp₁, hp₂, hx'⟩)
  have hpfpne : ∀ P ∈ (s.threads t).private_from_protected, P ≠ item.1 := by
    rintro P hP rfl
    obtain ⟨p, hp, hflag, -⟩ := (hd.pfp _).mp hP
    rw [hr, Option.some.injEq] at hp
    exact absurd ((h.shape _ r hr).pfp (hp ▸ hflag)).1 (by simp [hrpub])
  have hvalne : ∀ P, (∀ R, (R, P) ∉ (s.threads t).items) → P ≠ item.2 := by
    rintro P hP rfl
    exact hP item.1 hmem
  refine h.of_parts (fun p x' hx' => ?_) ?_ (fun S x' L hx' hrev => Or.inl ?_) (fun u => ?_)
  · rcases hheap p x' hx' with ⟨-, rfl⟩ | ⟨-, rfl⟩ | ⟨-, -, hx⟩
    · exact Or.inr hrshape
    · exact Or.inr hlshape
    · exact Or.inl hx
  · rintro _ x₀ L - - ⟨m, hm, hmthread, hmback, hmcase⟩
    have hcase : (({ s with heap := item_heap s.heap item r l a b }.set_pc t pc).threads
        x₀.thread).pc.past_locks = true ∨ m.GCFLAG_PUBLIC = true
        ∨ m.GCFLAG_PRIVATE_FROM_PROTECTED = true
        ∨ ∀ R, (R, L) ∉ (({ s with heap := item_heap s.heap item r l a b }.set_pc t pc).threads
          x₀.thread).items := by
      by_cases hu : x₀.thread = t
      · rw [hu] at hmcase ⊢
        rw [State.set_pc_self]
        exact hmcase.imp_left hpast
      · rw [State.set_pc, State.set_thread_of_ne hu]
        exact hmcase
    by_cases hL₂ : L = item.2
    · subst hL₂
      rw [hl, Option.some.injEq] at hm
      subst hm
      exact ⟨_, item_heap_val, hmthread, hmback, hcase⟩
    · by_cases hL₁ : L = item.1
      · subst hL₁
        rw [hr, Option.some.injEq] at hm
        subst hm
        exact ⟨_, item_heap_key hne, hmthread, hmback, hcase⟩
      · exact ⟨m, (item_heap_of_ne hL₁ hL₂).trans hm, hmthread, hmback, hcase⟩
  · rcases hheap S x' hx' with ⟨-, rfl⟩ | ⟨-, rfl⟩ | ⟨-, -, hx⟩
    · exact absurd hrev (ha L)
    · exact absurd hrev (hbstub L)
    · exact ⟨x', hx, hrev, rfl⟩
  · by_cases hu : u = t
    · subst hu
      rw [State.set_pc_self, State.set_pc_heap]
      refine ⟨fun x hx => ?_, hd.val_inj, hd.pfp_nodup, fun P => ?_, fun P hP hPval => ?_, ?_, ?_,
        hd.stolen_nodup, fun _ => hstolen, fun R r' hr' hrev => ?_, hlocks⟩
      · by_cases hxi : x = item
        · subst hxi
          exact ⟨_, _, item_heap_key hne, item_heap_val, hrpub, hrold, hlpub, hlback, hlthread⟩
        · obtain ⟨h1, h2, h3, h4⟩ := hd.item_ne hmem hx hxi
          obtain ⟨r', l', hr', hl', hrest⟩ := hd.item x hx
          exact ⟨r', l', (item_heap_of_ne h1 h2).trans hr', (item_heap_of_ne h3 h4).trans hl', hrest⟩
      · rw [hd.pfp]
        constructor
        · rintro ⟨p, hp, hflag, hthread⟩
          by_cases hP₂ : P = item.2
          · subst hP₂
            rw [hl, Option.some.injEq] at hp
            subst hp
            exact ⟨_, item_heap_val, hflag, hthread⟩
          · have hP₁ := hpfpne P ((hd.pfp P).mpr ⟨p, hp, hflag, hthread⟩)
            exact ⟨p, (item_heap_of_ne hP₁ hP₂).trans hp, hflag, hthread⟩
        · rintro ⟨p', hp', hflag, hthread⟩
          rcases hheap P p' hp' with ⟨rfl, rfl⟩ | ⟨rfl, rfl⟩ | ⟨-, -, hp⟩
          · exact ⟨r, hr, hflag, hthread⟩
          · exact ⟨l, hl, hflag, hthread⟩
          · exact ⟨p', hp, hflag, hthread⟩
      · obtain ⟨p, B, b₁, hp, hrev, hb₁, hold, hcase⟩ := hd.backup P hP hPval
        rcases hcase with hback | hnot
        · have hB₁ : B ≠ item.1 := by
            rintro rfl
            rw [hr, Option.some.injEq] at hb₁
            exact absurd ((h.shape _ r hr).backup (hb₁ ▸ hback.1)) (by simp [hrpub])
          have hB₂ : B ≠ item.2 := by
            rintro rfl
            rw [hl, Option.some.injEq] at hb₁
            exact absurd hback.1 (by simp [← hb₁, hlback])
          exact ⟨p, B, b₁, (item_heap_of_ne (hpfpne P hP) (hvalne P hPval)).trans hp, hrev,
            (item_heap_of_ne hB₁ hB₂).trans hb₁, hold, Or.inl hback⟩
        · exact absurd hnot (by simp [hstolen])
      · intro P p Q q B hP hQ hPval hQval hp hq
        have hp' := (item_heap_of_ne (hpfpne P hP) (hvalne P hPval)).symm.trans hp
        have hq' := (item_heap_of_ne (hpfpne Q hQ) (hvalne Q hQval)).symm.trans hq
        exact hd.backup_inj P p Q q B hP hQ hPval hQval hp' hq'
      · intro x hx
        exact absurd hx (by simp [hstolen])
      · rcases hheap R r' hr' with ⟨rfl, -⟩ | ⟨-, rfl⟩ | ⟨-, -, hR⟩
        · exact G2L.mem_keys.mpr ⟨item.2, hmem⟩
        · exact absurd hrev (hblock u)
        · exact hd.own R r' hR hrev
    · rw [State.set_pc, State.set_thread_of_ne hu]
      refine (h.thread u).frame (fun p => ?_) h.shape
      show FrameAt u _ p (s.heap p) (item_heap s.heap item r l a b p)
      by_cases hp₂ : p = item.2
      · subst hp₂
        rw [hl, item_heap_val]
        refine .other hlpub (Or.inl (hlthread ▸ Ne.symm hu)) ?_
        intro y hy
        rw [Option.some.injEq] at hy
        subst hy
        exact ⟨hblock u, fun _ => hlthread ▸ Ne.symm hu⟩
      · by_cases hp₁ : p = item.1
        · subst hp₁
          rw [hr, item_heap_key hne]
          exact .outdated hrpub hrpub id (h.shape _ r hr) ((h.shape _ r hr).pfp_eq_false hrpub)
            ⟨fun hnot => absurd hnot (hau u hu), fun hnot => absurd hnot (hru u hu)⟩
        · rw [item_heap_of_ne hp₁ hp₂]
          exact .refl

/-! ## `AcquireLocks` -/

section Acquire

theorem Inv.CommitTransaction (h : Inv s) (hs : step s (.CommitTransaction t) = .next s') :
    Inv s' := by
  rw [step, guarded_eq_next] at hs
  obtain ⟨hpc, hs⟩ := hs
  obtain ⟨d, hd, hs⟩ := Outcome.bind_eq_next.mp hs
  rw [Outcome.ofOption_eq_next] at hd
  by_cases hlock : stm_has_got_any_lock s.heap (.locked t) d = some false
  · rw [if_pos hlock, Outcome.next.injEq] at hs
    rw [← hs]
    exact h.normalize (by rw [hpc]; rfl) hd fun hun => ⟨[], rfl, (by simp), hun⟩
  · rw [if_neg hlock] at hs
    simp at hs

theorem Inv.wait_over {abort : Bool} (h : Inv s) (hs : step s (.wait_over t abort) = .next s') :
    Inv s' := by
  rw [step, guarded_eq_next] at hs
  obtain ⟨hpc, hs⟩ := hs
  obtain ⟨d, hd, hs⟩ := Outcome.bind_eq_next.mp hs
  rw [Outcome.ofOption_eq_next] at hd
  by_cases hlock : stm_has_got_any_lock s.heap (.locked t) d = some false
  · rw [if_pos hlock, Outcome.next.injEq] at hs
    rw [← hs]
    cases abort with
    | true => exact h.normalize (by rw [hpc]; rfl) hd fun hun => hun
    | false => exact h.normalize (by rw [hpc]; rfl) hd fun hun => ⟨[], rfl, (by simp), hun⟩
  · rw [if_neg hlock] at hs
    simp at hs

theorem Inv.AbortTransaction (h : Inv s) (hs : step s (.AbortTransaction t) = .next s') :
    Inv s' := by
  rw [step, guarded_eq_next] at hs
  obtain ⟨hpc, hs⟩ := hs
  obtain ⟨d, hd, hs⟩ := Outcome.bind_eq_next.mp hs
  rw [Outcome.ofOption_eq_next] at hd
  by_cases hlock : stm_has_got_any_lock s.heap (.locked t) d = some false
  · rw [if_pos hlock, Outcome.next.injEq] at hs
    rw [← hs]
    exact h.normalize (by rw [hpc]; rfl) hd fun hun => hun
  · rw [if_neg hlock] at hs
    simp at hs

/-- What one step of `AcquireLocks` does. -/
inductive AcquireStep (s : State n Content) (t : Fin n) : State n Content → Prop where
  | done (hpc : (s.threads t).pc = .acquire_locks []) : AcquireStep s t (s.set_pc t .acquired)
  /-- the key has a more recent revision -/
  | abort {item : wlog_t} {todo : List wlog_t} {r : object n Content}
      (hpc : (s.threads t).pc = .acquire_locks (item :: todo)) (hr : s.heap item.1 = some r)
      (hrev : IS_POINTER r.h_revision = true) :
      AcquireStep s t (s.set_pc t (.cancel_locks (s.threads t).items true))
  /-- the key is locked by another thread -/
  | spin {item : wlog_t} {todo : List wlog_t} {r : object n Content} {u : Fin n}
      (hpc : (s.threads t).pc = .acquire_locks (item :: todo)) (hr : s.heap item.1 = some r)
      (hrev : r.h_revision = .locked u) (hu : u ≠ t) : AcquireStep s t s
  | load {item : wlog_t} {todo : List wlog_t} {r : object n Content} {v : ℤ}
      (hpc : (s.threads t).pc = .acquire_locks (item :: todo)) (hr : s.heap item.1 = some r)
      (hrev : r.h_revision = .number v) :
      AcquireStep s t (s.set_pc t (.acquire_cas item todo (.number v)))
  /-- the key has changed since -/
  | retry {item : wlog_t} {todo : List wlog_t} {v : revision_t n}
      (hpc : (s.threads t).pc = .acquire_cas item todo v) :
      AcquireStep s t (s.set_pc t (.acquire_locks (item :: todo)))
  | lock {item : wlog_t} {todo : List wlog_t} {r l : object n Content} {v : revision_t n}
      (hpc : (s.threads t).pc = .acquire_cas item todo v) (hr : s.heap item.1 = some r)
      (hl : s.heap item.2 = some l) (hrev : r.h_revision = v)
      (hexp : l.h_revision = (s.threads t).expected item.1 l)
      (hv : v ≠ .number (s.threads t).stm_private_rev_num) :
      AcquireStep s t ({ s with heap := item_heap s.heap item r l (.locked t) v }.set_pc t
        (.acquire_locks todo))

theorem acquire_step (hs : step s (.AcquireLocks t) = .next s') : AcquireStep s t s' := by
  rw [step] at hs
  cases hpc : (s.threads t).pc with
  | acquire_locks todo =>
      rw [hpc] at hs
      cases todo with
      | nil =>
          dsimp only at hs
          rw [Outcome.next.injEq] at hs
          exact hs ▸ .done hpc
      | cons item todo =>
          dsimp only at hs
          cases hr : s.heap item.1 with
          | none =>
              rw [hr] at hs
              simp at hs
          | some r =>
              rw [hr] at hs
              dsimp only at hs
              split_ifs at hs with hflag hptr
              · rw [Outcome.next.injEq] at hs
                exact hs ▸ .abort hpc hr hptr
              · cases hrev : r.h_revision with
                | locked u =>
                    rw [hrev] at hs
                    dsimp only at hs
                    split_ifs at hs with hu
                    rw [Outcome.next.injEq] at hs
                    exact hs ▸ .spin hpc hr hrev hu
                | number v =>
                    rw [hrev] at hs
                    dsimp only at hs
                    rw [Outcome.next.injEq] at hs
                    exact hs ▸ .load hpc hr hrev
                | _ => exact absurd (by rw [hrev]; rfl) hptr
  | acquire_cas item todo v =>
      rw [hpc] at hs
      dsimp only at hs
      cases hr : s.heap item.1 with
      | none =>
          rw [hr] at hs
          simp at hs
      | some r =>
          cases hl : s.heap item.2 with
          | none =>
              rw [hr, hl] at hs
              simp at hs
          | some l =>
              rw [hr, hl] at hs
              dsimp only at hs
              split_ifs at hs with hrev hexp
              · rw [Outcome.next.injEq] at hs
                exact hs ▸ .lock hpc hr hl hrev hexp.1 hexp.2.1
              · rw [Outcome.next.injEq] at hs
                exact hs ▸ .retry hpc
  | _ =>
      rw [hpc] at hs
      simp at hs

theorem Inv.AcquireLocks (h : Inv s) (hs : step s (.AcquireLocks t) = .next s') : Inv s' := by
  have hd := h.thread t
  have hlocks := hd.locks
  cases acquire_step hs with
  | done hpc =>
      rw [hpc] at hlocks
      obtain ⟨done, hsplit, hdone, -⟩ := hlocks
      refine h.set_pc (by rw [hpc]; exact nofun) (fun _ => hd.normalized (by rw [hpc]; rfl)) ?_
      intro x hx
      rw [List.append_nil] at hsplit
      exact hdone x (hsplit ▸ hx)
  | abort hpc hr hrev =>
      rw [hpc] at hlocks
      obtain ⟨done, hsplit, hdone, htodo⟩ := hlocks
      exact h.set_pc (by rw [hpc]; exact nofun) (fun _ => hd.normalized (by rw [hpc]; rfl))
        ⟨[], done, _, rfl, hsplit, nofun, hdone, htodo⟩
  | spin hpc hr hrev hu => exact h
  | load hpc hr hrev =>
      rw [hpc] at hlocks
      exact h.set_pc (by rw [hpc]; exact nofun) (fun _ => hd.normalized (by rw [hpc]; rfl))
        ⟨⟨_, rfl⟩, hlocks⟩
  | retry hpc =>
      rw [hpc] at hlocks
      exact h.set_pc (by rw [hpc]; exact nofun) (fun _ => hd.normalized (by rw [hpc]; rfl)) hlocks.2
  | @lock item todo r l v hpc hr hl hrev hexp hv =>
      rw [hpc] at hlocks
      obtain ⟨⟨w, rfl⟩, done, hsplit, hdone, htodo⟩ := hlocks
      have hmem : item ∈ (s.threads t).items := by rw [hsplit]; simp
      have hnodup := hd.items_nodup
      rw [hsplit, List.nodup_append, List.nodup_cons] at hnodup
      refine h.set_item (by rw [hpc]; rfl) hmem hr hl (by simp [hrev]) (fun u hu => ?_) (by simp)
        (Or.inl ⟨w, rfl⟩) (by rw [hpc]; exact nofun) ?_
      · simp [hu.symm]
      · refine ⟨done ++ [item], by rw [List.append_assoc]; exact hsplit, fun x hx => ?_, fun x hx => ?_⟩
        · rcases List.mem_append.mp hx with hold | hnew
          · refine hd.locked_item_heap hmem (by rw [hsplit]; simp [hold]) ?_ (hdone x hold)
            rintro rfl
            exact hnodup.2.2 _ hold _ List.mem_cons_self rfl
          · rw [List.mem_singleton] at hnew
            subst hnew
            exact ⟨_, _, w, item_heap_key (hd.key_ne_val hmem hmem), item_heap_val, rfl, rfl,
              fun heq => hv (heq ▸ rfl)⟩
        · refine hd.unlocked_item_heap hmem (by rw [hsplit]; simp [hx]) ?_
            (htodo x (List.mem_cons_of_mem _ hx))
          rintro rfl
          exact hnodup.2.1.1 hx

end Acquire

/-! ## `CancelLocks` -/

section Cancel

/-- An item is not both locked and not locked. -/
theorem Locked.not_unlocked {heap : Heap n Content} {d : tx_descriptor n} {x : wlog_t}
    (h : Locked heap t d x) : ¬ Unlocked heap t d x := by
  rintro ⟨r', l', hr', hl', hrev', hexp⟩
  obtain ⟨r, l, v, hr, hl, hrev, hv, hne⟩ := h
  rw [hr, Option.some.injEq] at hr'
  subst hr'
  exact hrev' hrev

/-- The test of `CancelLocks` on a local copy tells whether the item is locked. -/
theorem Locked.ne_expected {heap : Heap n Content} {d : tx_descriptor n} {x : wlog_t}
    {l : object n Content} (h : Locked heap t d x) (hl : heap x.2 = some l) :
    l.h_revision ≠ d.expected x.1 l := by
  obtain ⟨r, l', v, -, hl', -, hv, hne⟩ := h
  rw [hl, Option.some.injEq] at hl'
  subst hl'
  rw [hv, tx_descriptor.expected]
  by_cases hpfp : l.GCFLAG_PRIVATE_FROM_PROTECTED = true
  · rw [if_pos hpfp]
    simp
  · rw [if_neg hpfp]
    exact fun heq => hne (revision_t.number.inj heq)

/-- What one step of `CancelLocks` does. -/
inductive CancelStep (s : State n Content) (t : Fin n) : State n Content → Prop where
  | done {abort : Bool} (hpc : (s.threads t).pc = .cancel_locks [] abort) :
      CancelStep s t (s.set_pc t (if abort then .aborting else .waiting))
  /-- the first item that is not locked: the rest is not either -/
  | stop {item : wlog_t} {todo : List wlog_t} {abort : Bool} {r l : object n Content}
      (hpc : (s.threads t).pc = .cancel_locks (item :: todo) abort) (hr : s.heap item.1 = some r)
      (hl : s.heap item.2 = some l) (hexp : l.h_revision = (s.threads t).expected item.1 l) :
      CancelStep s t (s.set_pc t (.cancel_locks [] abort))
  | unlock {item : wlog_t} {todo : List wlog_t} {abort : Bool} {r l : object n Content}
      (hpc : (s.threads t).pc = .cancel_locks (item :: todo) abort) (hr : s.heap item.1 = some r)
      (hl : s.heap item.2 = some l) (hexp : l.h_revision ≠ (s.threads t).expected item.1 l)
      (hne : item.1 ≠ item.2) :
      CancelStep s t ({ s with
        heap := (item_heap s.heap item r l l.h_revision ((s.threads t).expected item.1 l)) }.set_pc t
          (.cancel_locks todo abort))

variable (h : Inv s)
include h

/-- The next item of `CancelLocks`, and what is known of it. -/
theorem Inv.cancel_head {item : wlog_t} {todo : List wlog_t} {abort : Bool}
    (hpc : (s.threads t).pc = .cancel_locks (item :: todo) abort) :
    item ∈ (s.threads t).items
      ∧ (Locked s.heap t (s.threads t) item ∨ Unlocked s.heap t (s.threads t) item) := by
  have hlocks := (h.thread t).locks
  rw [hpc] at hlocks
  obtain ⟨restored, locked, rest, hsplit, htodo, -, hlocked, hrest⟩ := hlocks
  refine ⟨by rw [hsplit]; simp, ?_⟩
  have hmem : item ∈ locked ++ rest := htodo ▸ List.mem_cons_self
  exact (List.mem_append.mp hmem).imp (hlocked item) (hrest item)

theorem Inv.cancel_step (hs : step s (.CancelLocks t) = .next s') : CancelStep s t s' := by
  rw [step] at hs
  cases hpc : (s.threads t).pc with
  | cancel_locks todo abort =>
      rw [hpc] at hs
      cases todo with
      | nil =>
          dsimp only at hs
          rw [Outcome.next.injEq] at hs
          exact hs ▸ .done hpc
      | cons item todo =>
          obtain ⟨hmem, -⟩ := h.cancel_head hpc
          have hne := (h.thread t).key_ne_val hmem hmem
          dsimp only at hs
          cases hr : s.heap item.1 with
          | none =>
              rw [hr] at hs
              simp at hs
          | some r =>
              cases hl : s.heap item.2 with
              | none =>
                  rw [hr, hl] at hs
                  simp at hs
              | some l =>
                  rw [hr, hl] at hs
                  dsimp only at hs
                  split_ifs at hs with hexp hrev hrev
                  · rw [Outcome.next.injEq] at hs
                    exact hs ▸ .stop hpc hr hl hexp
                  · rw [Outcome.next.injEq] at hs
                    have heq : (s.set_object item.2 { l with
                          h_revision := (s.threads t).expected item.1 l }).set_object item.1
                          { r with h_revision := l.h_revision }
                        = { s with heap := (item_heap s.heap item r l l.h_revision
                              ((s.threads t).expected item.1 l)) } := by
                      rw [State.set_object, State.set_object, item_heap, Function.update_comm hne]
                    rw [heq] at hs
                    exact hs ▸ .unlock hpc hr hl hexp hne
  | _ =>
      rw [hpc] at hs
      simp at hs

theorem Inv.call_CancelLocks {abort : Bool} (hs : step s (.call_CancelLocks t abort) = .next s') :
    Inv s' := by
  rw [step, guarded_eq_next, Outcome.next.injEq] at hs
  obtain ⟨hpc, hs⟩ := hs
  have hlocks := (h.thread t).locks
  rw [hpc] at hlocks
  rw [← hs]
  exact h.set_pc (by rw [hpc]; intros; contradiction) (fun _ => (h.thread t).normalized (by rw [hpc]; rfl))
    ⟨[], (s.threads t).items, [], rfl, (List.append_nil _).symm, (by simp), hlocks, (by simp)⟩

theorem Inv.CancelLocks (hs : step s (.CancelLocks t) = .next s') : Inv s' := by
  have hd := h.thread t
  have hlocks := hd.locks
  cases h.cancel_step hs with
  | @done abort hpc =>
      rw [hpc] at hlocks
      obtain ⟨restored, locked, rest, hsplit, -, hrestored, -⟩ := hlocks
      rw [List.append_nil] at hsplit
      have hun : ∀ x ∈ (s.threads t).items, Unlocked s.heap t (s.threads t) x := fun x hx =>
        hrestored x (hsplit ▸ hx)
      refine h.set_pc (by rw [hpc]; exact nofun) (fun _ => hd.normalized (by rw [hpc]; rfl)) ?_
      cases abort with
      | true => exact hun
      | false => exact hun
  | @stop item todo abort r l hpc hr hl hexp =>
      rw [hpc] at hlocks
      obtain ⟨restored, locked, rest, hsplit, htodo, hrestored, hlocked, hrest⟩ := hlocks
      -- the locked items come first, so there is none left
      have hnil : locked = [] := by
        cases locked with
        | nil => rfl
        | cons y ys =>
            obtain ⟨rfl, -⟩ := List.cons.inj htodo
            exact absurd hexp ((hlocked item List.mem_cons_self).ne_expected hl)
      subst hnil
      rw [List.nil_append] at htodo
      refine h.set_pc (by rw [hpc]; exact nofun) (fun _ => hd.normalized (by rw [hpc]; rfl))
        ⟨(s.threads t).items, [], [], (List.append_nil _).symm, rfl, fun x hx => ?_, nofun, nofun⟩
      rw [hsplit, htodo] at hx
      exact (List.mem_append.mp hx).elim (hrestored x) (hrest x)
  | @unlock item todo abort r l hpc hr hl hexp hne =>
      obtain ⟨hmem, hcase⟩ := h.cancel_head hpc
      rw [hpc] at hlocks
      obtain ⟨restored, locked, rest, hsplit, htodo, hrestored, hlocked, hrest⟩ := hlocks
      have hitem : Locked s.heap t (s.threads t) item := by
        rcases hcase with hitem | ⟨r₁, l₁, -, hl₁, -, hexp₁⟩
        · exact hitem
        · rw [hl, Option.some.injEq] at hl₁
          exact absurd (hl₁ ▸ hexp₁) hexp
      obtain ⟨r₁, l₁, v, hr₁, hl₁, hrev, hv, -⟩ := id hitem
      rw [hr, Option.some.injEq] at hr₁
      rw [hl, Option.some.injEq] at hl₁
      subst hr₁ hl₁
      have hnodup := hd.items_nodup
      rw [hsplit, List.nodup_append, List.nodup_cons] at hnodup
      -- the item is the first of the locked ones
      obtain ⟨ys, rfl⟩ : ∃ ys, locked = item :: ys := by
        cases locked with
        | nil =>
            rw [List.nil_append] at htodo
            exact absurd (hrest item (htodo ▸ List.mem_cons_self)) hitem.not_unlocked
        | cons y ys => exact ⟨ys, by rw [(List.cons.inj htodo).1]⟩
      have htodo' : todo = ys ++ rest := (List.cons.inj htodo).2
      refine h.set_item (by rw [hpc]; rfl) hmem hr hl (fun u hu => ?_) (by simp [hv]) (by simp [hv])
        ?_ (by rw [hpc]; exact nofun) ?_
      · rw [hrev]
        simp [hu.symm]
      · rw [tx_descriptor.expected]
        by_cases hpfp : l.GCFLAG_PRIVATE_FROM_PROTECTED = true
        · rw [if_pos hpfp]
          exact Or.inr ⟨hpfp, _, rfl⟩
        · rw [if_neg hpfp]
          exact Or.inl ⟨_, rfl⟩
      · refine ⟨restored ++ [item], ys, rest, by rw [List.append_assoc]; exact hsplit, htodo',
          fun x hx => ?_, fun x hx => ?_, fun x hx => ?_⟩
        · rcases List.mem_append.mp hx with hold | hnew
          · refine hd.unlocked_item_heap hmem (by rw [hsplit]; simp [hold]) ?_ (hrestored x hold)
            rintro rfl
            exact hnodup.2.2 _ hold _ List.mem_cons_self rfl
          · rw [List.mem_singleton] at hnew
            subst hnew
            refine ⟨_, _, item_heap_key hne, item_heap_val, by simp [hv], ?_⟩
            rfl
        · refine hd.locked_item_heap hmem (by rw [hsplit, htodo']; simp [hx]) ?_
            (hlocked x (List.mem_cons_of_mem _ hx))
          rintro rfl
          exact hnodup.2.1.1 (htodo' ▸ List.mem_append_left _ hx)
        · refine hd.unlocked_item_heap hmem (by rw [hsplit, htodo']; simp [hx]) ?_ (hrest x hx)
          rintro rfl
          exact hnodup.2.1.1 (htodo' ▸ List.mem_append_right _ hx)

end Cancel

end Stmgc.C4
