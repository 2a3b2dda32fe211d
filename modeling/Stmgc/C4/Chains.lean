/-
The chains of public revisions.

A public object that is outdated leads to a public object. While a thread is in
`UpdateChainHeads`, each of its items has a public stub to the local copy, and
the key points to the stub already or is still locked. [`Origin`] says where the
`h_revision` of an object comes from in one step.
-/
import Stmgc.C4.AcquireLocks

open Stmgc.Lib

namespace Stmgc.C4

variable {n : ℕ} {Content : Type} {s s' : State n Content} {t : Fin n} {a : Act n Content}

def IsPublic (s : State n Content) (p : gcptr) : Prop :=
  ∃ x, s.heap p = some x ∧ x.GCFLAG_PUBLIC = true

/-- The item of a thread in `UpdateChainHeads` has its new head: a stub to the local copy. -/
def HasHead (s : State n Content) (t : Fin n) (todo : List wlog_t) (x : wlog_t) : Prop :=
  (∃ l, s.heap x.2 = some l ∧ l.h_revision = .number (-(s.threads t).stm_private_rev_num))
    ∧ ∃ S stub, s.heap S = some stub ∧ stub.GCFLAG_PUBLIC = true ∧ stub.h_revision = .stub x.2
      ∧ stub.thread = t
      ∧ ((x.1, S) ∈ todo ∨ ∃ r, s.heap x.1 = some r ∧ r.GCFLAG_PUBLIC = true ∧ r.h_revision = .pointer S)

structure Chains (s : State n Content) : Prop where
  outdated : ∀ p x q, s.heap p = some x → x.GCFLAG_PUBLIC = true → x.h_revision = .pointer q →
    IsPublic s q
  heads : ∀ t todo, (s.threads t).pc = .chain_heads todo → ∀ x ∈ (s.threads t).items,
    HasHead s t todo x

/-- The next key of `UpdateChainHeads` is locked, and its new head is a public stub. -/
theorem Chains.head_of_todo (hc : Chains s) (h : Inv s) {R S : gcptr} {todo : List wlog_t}
    (hpc : (s.threads t).pc = .chain_heads ((R, S) :: todo)) :
    ∃ stub, s.heap S = some stub ∧ stub.GCFLAG_PUBLIC = true ∧ stub.thread = t
      ∧ ∃ L, (R, L) ∈ (s.threads t).items ∧ stub.h_revision = .stub L := by
  have hd := h.thread t
  have hlocks := hd.locks
  rw [hpc] at hlocks
  obtain ⟨-, hnodup, htodo, -⟩ := hlocks
  obtain ⟨r, hr, hrev⟩ := htodo _ List.mem_cons_self
  obtain ⟨L, hmem⟩ := G2L.mem_keys.mp (hd.own R r hr hrev)
  obtain ⟨-, S', stub, hS', hpub, hstub, hthread, hcase⟩ := hc.heads t _ hpc (R, L) hmem
  rcases hcase with hS | ⟨r', hr', -, hptr⟩
  · have heq := List.inj_on_of_nodup_map hnodup hS List.mem_cons_self rfl
    rw [Prod.mk.injEq] at heq
    exact ⟨stub, heq.2 ▸ hS', hpub, hthread, L, hmem, hstub⟩
  · rw [hr, Option.some.injEq] at hr'
    exact absurd hptr (by simp [← hr', hrev])

/-- Where the `h_revision` of the object `x'` at `p` comes from. -/
inductive Origin (s s' : State n Content) (p : gcptr) (x' : object n Content) : Prop where
  | same {x : object n Content} (hx : s.heap p = some x) (hpub : x'.GCFLAG_PUBLIC = x.GCFLAG_PUBLIC)
      (hrev : x'.h_revision = x.h_revision) : Origin s s' p x'
  | own (hpub : x'.GCFLAG_PUBLIC = false) : Origin s s' p x'
  /-- the most recent public revision, or a stub -/
  | head (hrev : ∀ q, x'.h_revision ≠ .pointer q) : Origin s s' p x'
  | outdated {q : gcptr} (hrev : x'.h_revision = .pointer q) (hq : IsPublic s' q) : Origin s s' p x'

section Origin

variable {p : gcptr} {x' : object n Content}

theorem Origin.of_eq (hx' : s'.heap p = some x') (h : s'.heap p = s.heap p) : Origin s s' p x' :=
  .same (h.symm.trans hx') rfl rfl

/-- A public object stays public. -/
theorem public_step (h : Inv s) (hs : step s a = .next s') {q : gcptr} (hq : IsPublic s q) :
    IsPublic s' q := by
  obtain ⟨x, hx, hpub⟩ := hq
  cases effect_at h hs hx with
  | same x' hx' hsame _ => exact ⟨x', hx', hsame.PUBLIC.trans hpub⟩
  | own hnot _ => exact absurd hpub (by simp [hnot])
  | shared x' _ hx' hpub' _ _ _ => exact ⟨x', hx', hpub'⟩
  | moved x' _ hx' hpub' _ => exact ⟨x', hx', hpub'⟩

theorem origin_update {q : gcptr} {y : object n Content} (h : s'.heap = Function.update s.heap q (some y))
    (hy : p = q → Origin s s' p y) (hx' : s'.heap p = some x') : Origin s s' p x' := by
  by_cases hp : p = q
  · have hx := hx'
    rw [h, hp, Function.update_self, Option.some.injEq] at hx
    exact hx ▸ hy hp
  · exact .of_eq hx' (by rw [h, Function.update_of_ne hp])

theorem origin_update₂ {q q' : gcptr} {y y' : object n Content}
    (h : s'.heap = Function.update (Function.update s.heap q (some y)) q' (some y'))
    (hy : p = q → p ≠ q' → Origin s s' p y) (hy' : p = q' → Origin s s' p y')
    (hx' : s'.heap p = some x') : Origin s s' p x' := by
  by_cases hp' : p = q'
  · have hx := hx'
    rw [h, hp', Function.update_self, Option.some.injEq] at hx
    exact hx ▸ hy' hp'
  · by_cases hp : p = q
    · have hx := hx'
      rw [h, Function.update_of_ne hp', hp, Function.update_self, Option.some.injEq] at hx
      exact hx ▸ hy hp hp'
    · exact .of_eq hx' (by rw [h, Function.update_of_ne hp', Function.update_of_ne hp])

theorem origin_steal {S O : gcptr} (h : Inv s) (hc : Chains s)
    (hs : step s (.stm_steal_stub S O) = .next s') (hx' : s'.heap p = some x') :
    Origin s s' p x' := by
  have hstep := hs
  rw [step] at hs
  cases hS : s.heap S with
  | none =>
      rw [hS] at hs
      simp at hs
  | some stub =>
      rw [hS] at hs
      dsimp only at hs
      cases hrev : stub.h_revision with
      | stub L =>
          rw [hrev] at hs
          dsimp only at hs
          cases hl : s.heap L with
          | none =>
              rw [hl] at hs
              simp at hs
          | some l =>
              rw [hl] at hs
              obtain ⟨hfree, hs⟩ := guarded_eq_next.mp hs
              have hSpub := (h.shape S stub hS).stub L hrev
              have hplace : ∀ q y, s'.heap q = some y → y.GCFLAG_PUBLIC = true → IsPublic s' q :=
                fun _ y hy hpub => ⟨y, hy, hpub⟩
              obtain ⟨l₁, hl₁, hthread, -, -⟩ := (h.stub S stub L hS hrev).of_free hfree
              rw [hl, Option.some.injEq] at hl₁
              subst hl₁
              rw [Stmgc.C4.steal] at hs
              split_ifs at hs with hpfp hpub hmoved hold
              · cases hlrev : l.h_revision with
                | pointer B =>
                    rw [hlrev] at hs
                    dsimp only at hs
                    cases hb : s.heap B with
                    | none =>
                        rw [hb] at hs
                        simp at hs
                    | some b =>
                        rw [hb] at hs
                        dsimp only at hs
                        split_ifs at hs with hflag
                        · rw [guarded_eq_next, Outcome.next.injEq] at hs
                          obtain ⟨hbpub, hs⟩ := hs
                          refine origin_update₂ (y := { b with GCFLAG_BACKUP_COPY := false })
                            (by rw [← hs]; rfl) (fun hp _ => ?_) (fun _ => ?_) hx'
                          · subst hp
                            exact .same hb rfl rfl
                          · exact .outdated rfl (public_step h hstep ⟨b, hb, hbpub⟩)
                        · rw [guarded_eq_next, Outcome.next.injEq] at hs
                          obtain ⟨hbpub, hs⟩ := hs
                          have hSB : S ≠ B := by
                            rintro rfl
                            rw [hS, Option.some.injEq] at hb
                            exact absurd hSpub (by simp [hb, hbpub])
                          refine origin_update₂ (y := { b with
                              GCFLAG_BACKUP_COPY := false
                              GCFLAG_PUBLIC_TO_PRIVATE := true
                              GCFLAG_PUBLIC := true }) (by rw [← hs]; rfl) (fun hp _ => ?_) (fun _ => ?_) hx'
                          · obtain ⟨-, -, v, hv⟩ := h.backup_of_free hfree hl hthread hpfp hlrev hb hbpub
                            exact .head fun q hq => absurd hq (by simp [hv])
                          · refine .outdated rfl (hplace B { b with
                              GCFLAG_BACKUP_COPY := false
                              GCFLAG_PUBLIC_TO_PRIVATE := true
                              GCFLAG_PUBLIC := true } ?_ rfl)
                            rw [← hs, State.set_thread_heap, State.set_object_heap,
                              Function.update_of_ne (Ne.symm hSB), State.set_object_heap,
                              Function.update_self]
                | _ =>
                    rw [hlrev] at hs
                    simp at hs
              · cases hlrev : l.h_revision with
                | pointer X =>
                    rw [hlrev] at hs
                    dsimp only at hs
                    rw [Outcome.next.injEq] at hs
                    refine origin_update (by rw [← hs]; rfl) (fun _ => ?_) hx'
                    exact .outdated rfl (public_step h hstep (hc.outdated L l X hl hpub hlrev))
                | _ =>
                    rw [hlrev] at hs
                    simp at hs
              · rw [Outcome.next.injEq] at hs
                refine origin_update (by rw [← hs]; rfl) (fun _ => ?_) hx'
                exact .outdated rfl (public_step h hstep ⟨l, hl, hpub⟩)
              · rw [Outcome.next.injEq] at hs
                rw [Bool.not_eq_true] at hpfp hpub
                obtain ⟨v, hv⟩ := (h.shape L l hl).number hpub hpfp
                have hSL : S ≠ L := by
                  rintro rfl
                  rw [hS, Option.some.injEq] at hl
                  exact absurd hSpub (by simp [hl, hpub])
                refine origin_update₂ (y := { l with GCFLAG_PUBLIC := true }) (by rw [← hs]; rfl)
                  (fun _ _ => .head fun q hq => absurd hq (by simp [hv])) (fun _ => ?_) hx'
                refine .outdated rfl (hplace L { l with GCFLAG_PUBLIC := true } ?_ rfl)
                rw [← hs, State.set_object_heap, Function.update_of_ne (Ne.symm hSL),
                  State.set_object_heap, Function.update_self]
              · rw [guarded_eq_next, Outcome.next.injEq] at hs
                obtain ⟨⟨hO, -⟩, hs⟩ := hs
                rw [Bool.not_eq_true] at hpfp hpub
                obtain ⟨v, hv⟩ := (h.shape L l hl).number hpub hpfp
                have hSO : S ≠ O := by
                  rintro rfl
                  exact absurd hS (by simp [hO])
                have hLO : L ≠ O := by
                  rintro rfl
                  exact absurd hl (by simp [hO])
                -- the copy is public, and the other two lead to it
                have hOpub : IsPublic s' O := by
                  refine hplace O { l with GCFLAG_OLD := true, GCFLAG_PUBLIC := true } ?_ rfl
                  rw [← hs, State.set_object_heap, Function.update_of_ne (Ne.symm hSO),
                    State.set_object_heap, Function.update_of_ne (Ne.symm hLO), State.set_object_heap,
                    Function.update_self]
                by_cases hpO : p = O
                · subst hpO
                  obtain ⟨y, hy, -⟩ := hOpub
                  refine .head fun q hq => ?_
                  rw [← hs, State.set_object_heap, Function.update_of_ne (Ne.symm hSO),
                    State.set_object_heap, Function.update_of_ne (Ne.symm hLO), State.set_object_heap,
                    Function.update_self, Option.some.injEq] at hx'
                  exact absurd hq (by simp [← hx', hv])
                · by_cases hpS : p = S
                  · subst hpS
                    rw [← hs, State.set_object_heap, Function.update_self, Option.some.injEq] at hx'
                    exact hx' ▸ .outdated rfl (hs.symm ▸ hOpub)
                  · by_cases hpL : p = L
                    · subst hpL
                      rw [← hs, State.set_object_heap, Function.update_of_ne hpS,
                        State.set_object_heap, Function.update_self, Option.some.injEq] at hx'
                      exact hx' ▸ .outdated rfl (hs.symm ▸ hOpub)
                    · refine .of_eq hx' ?_
                      rw [← hs, State.set_object_heap, Function.update_of_ne hpS, State.set_object_heap,
                        Function.update_of_ne hpL, State.set_object_heap, Function.update_of_ne hpO]
      | _ =>
          rw [hrev] at hs
          simp at hs

theorem origin_shortcut {P_prev P : gcptr} (h : Inv s) (hc : Chains s)
    (hs : step s (.shortcut P_prev P) = .next s') (hx' : s'.heap p = some x') :
    Origin s s' p x' := by
  have hstep := hs
  rw [step] at hs
  cases hprev : s.heap P_prev with
  | none =>
      rw [hprev] at hs
      simp at hs
  | some p_prev =>
      cases hP : s.heap P with
      | none =>
          rw [hprev, hP] at hs
          simp at hs
      | some y =>
          rw [hprev, hP] at hs
          obtain ⟨⟨hpub, hrev⟩, hs⟩ := guarded_eq_next.mp hs
          cases hv : y.h_revision with
          | pointer v =>
              rw [hv] at hs
              dsimp only at hs
              rw [Outcome.next.injEq] at hs
              -- the chain goes on with public objects
              obtain ⟨y₁, hy₁, hypub⟩ := hc.outdated P_prev p_prev P hprev hpub hrev
              rw [hP, Option.some.injEq] at hy₁
              subst hy₁
              refine origin_update (by rw [← hs]; rfl) (fun _ => ?_) hx'
              exact .outdated rfl (public_step h hstep (hc.outdated P y v hP hypub hv))
          | _ =>
              rw [hv] at hs
              simp at hs

theorem origin_copy_over_original {obj id_copy : gcptr} (h : Inv s)
    (hs : step s (.copy_over_original obj id_copy) = .next s') (hx' : s'.heap p = some x') :
    Origin s s' p x' := by
  have hstep := hs
  rw [step] at hs
  cases hobj : s.heap obj with
  | none =>
      rw [hobj] at hs
      simp at hs
  | some x =>
      cases hid : s.heap id_copy with
      | none =>
          rw [hobj, hid] at hs
          simp at hs
      | some z =>
          rw [hobj, hid] at hs
          dsimp only at hs
          rw [guarded_eq_next] at hs
          obtain ⟨⟨-, -, hxpub, -, hxrev, hzpub, -, -⟩, hs⟩ := hs
          split_ifs at hs with hsome
          rw [Outcome.next.injEq] at hs
          rw [← hs] at hx'
          dsimp only at hx'
          rw [moved_heap] at hx'
          by_cases hpobj : p = obj
          · rw [if_pos hpobj, Option.some.injEq] at hx'
            subst hx'
            exact .outdated rfl (public_step h hstep ⟨z, hid, hzpub⟩)
          · rw [if_neg hpobj, Option.map_eq_some_iff] at hx'
            obtain ⟨y, hy, rfl⟩ := hx'
            by_cases hpid : p = id_copy
            · rw [if_pos hpid]
              exact .head fun q hq => absurd hxrev (by simp [show x.h_revision = .pointer q from hq, IS_POINTER])
            · rw [if_neg hpid]
              by_cases hpfp : y.GCFLAG_PRIVATE_FROM_PROTECTED = true ∧ y.h_revision = .pointer obj
              · rw [if_pos hpfp]
                exact .own ((h.shape p y hy).pfp hpfp.1).1
              · rw [if_neg hpfp]
                exact .same hy rfl rfl

theorem origin_item {item : wlog_t} {r l : object n Content} {b c : revision_t n}
    (hheap : s'.heap = item_heap s.heap item r l b c) (hb : ∀ q, b ≠ .pointer q)
    (hl : l.GCFLAG_PUBLIC = false) (hx' : s'.heap p = some x') : Origin s s' p x' :=
  origin_update₂ hheap (fun _ _ => .head hb) (fun _ => .own hl) hx'

theorem origin_pfp {out : object n Content → object n Content} (h : Inv s) (hown : OwnBackups s t)
    (hdone : PfpDone s.heap out (s.threads t).private_from_protected s'.heap)
    (hout : ∀ P ∈ (s.threads t).private_from_protected, ∀ y, s.heap P = some y →
      Origin s s' P (out y)) (hx' : s'.heap p = some x') : Origin s s' p x' := by
  rcases h.pfp_done_of_some hown hdone hx' with ⟨hp, y, hy, rfl⟩ | ⟨-, hx⟩
  · exact hout p hp y hy
  · exact .same hx rfl rfl

theorem origin (h : Inv s) (hc : Chains s) (hs : step s a = .next s') (hx' : s'.heap p = some x') :
    Origin s s' p x' := by
  have hstep := hs
  cases a with
  | DescriptorInit u rev =>
      rw [step, guarded_eq_next, Outcome.next.injEq] at hs
      exact .of_eq hx' (by rw [← hs.2]; rfl)
  | allocate u o c =>
      rw [step, guarded_eq_next, Outcome.next.injEq] at hs
      exact origin_update (by rw [← hs.2]; rfl) (fun _ => .own rfl) hx'
  | write u o c =>
      rw [step] at hs
      cases ho : s.heap o with
      | none =>
          rw [ho] at hs
          simp at hs
      | some y =>
          rw [ho] at hs
          dsimp only at hs
          rw [guarded_eq_next, Outcome.next.injEq] at hs
          obtain ⟨⟨-, -, hpub, -⟩, hs⟩ := hs
          refine origin_update (by rw [← hs]; rfl) (fun _ => ?_) hx'
          exact .own hpub
  | LocalizeProtected u P B =>
      rw [step] at hs
      cases hP : s.heap P with
      | none =>
          rw [hP] at hs
          simp at hs
      | some y =>
          rw [hP] at hs
          dsimp only at hs
          rw [guarded_eq_next, Outcome.next.injEq] at hs
          obtain ⟨⟨-, -, -, hpub, -⟩, hs⟩ := hs
          refine origin_update₂ (y := { y with GCFLAG_BACKUP_COPY := true, GCFLAG_OLD := true })
            (by rw [← hs]; rfl) (fun _ _ => .own hpub) (fun _ => ?_) hx'
          exact .own hpub
  | LocalizePublic u R L old =>
      rw [step] at hs
      cases hR : s.heap R with
      | none =>
          rw [hR] at hs
          simp at hs
      | some r =>
          rw [hR] at hs
          dsimp only at hs
          rw [guarded_eq_next] at hs
          obtain ⟨g, -, hs'⟩ := Outcome.bind_eq_next.mp hs.2
          rw [Outcome.next.injEq] at hs'
          refine origin_update₂ (y := { r with GCFLAG_PUBLIC_TO_PRIVATE := true })
            (by rw [← hs']; rfl) (fun hp _ => ?_) (fun _ => .own rfl) hx'
          subst hp
          exact .same hR rfl rfl
  | stub_malloc P S =>
      rw [step] at hs
      cases hP : s.heap P with
      | none =>
          rw [hP] at hs
          simp at hs
      | some y =>
          rw [hP] at hs
          dsimp only at hs
          rw [guarded_eq_next, Outcome.next.injEq] at hs
          refine origin_update (y := new_stub P y) (by rw [← hs.2]; rfl) (fun _ => ?_) hx'
          exact .head (by simp [new_stub])
  | stm_steal_stub S O => exact origin_steal h hc hs hx'
  | stm_normalize_stolen_objects u =>
      rw [step, guarded_eq_next] at hs
      obtain ⟨d, -, hs'⟩ := Outcome.bind_eq_next.mp hs.2
      rw [Outcome.next.injEq] at hs'
      exact .of_eq hx' (by rw [← hs']; rfl)
  | shortcut P_prev P => exact origin_shortcut h hc hs hx'
  | minor_collect u =>
      rw [step, guarded_eq_next, Outcome.next.injEq] at hs
      rw [← hs.2] at hx'
      dsimp only at hx'
      obtain ⟨x, hx, rfl⟩ := Option.map_eq_some_iff.mp hx'
      refine .same hx ?_ ?_
      · split_ifs
        · rfl
        · rfl
      · split_ifs
        · rfl
        · rfl
  | copy_over_original obj id_copy => exact origin_copy_over_original h hs hx'
  | CommitTransaction u =>
      rw [step, guarded_eq_next] at hs
      obtain ⟨d, -, hs'⟩ := Outcome.bind_eq_next.mp hs.2
      split_ifs at hs'
      rw [Outcome.next.injEq] at hs'
      exact .of_eq hx' (by rw [← hs']; rfl)
  | AbortTransaction u =>
      rw [step, guarded_eq_next] at hs
      obtain ⟨d, -, hs'⟩ := Outcome.bind_eq_next.mp hs.2
      split_ifs at hs'
      rw [Outcome.next.injEq] at hs'
      exact .of_eq hx' (by rw [← hs']; rfl)
  | wait_over u abort =>
      rw [step, guarded_eq_next] at hs
      obtain ⟨d, -, hs'⟩ := Outcome.bind_eq_next.mp hs.2
      by_cases hno : stm_has_got_any_lock s.heap (.locked u) d = some false
      · rw [if_pos hno, Outcome.next.injEq] at hs'
        exact .of_eq hx' (by rw [← hs']; rfl)
      · rw [if_neg hno] at hs'
        simp at hs'
  | AcquireLocks u =>
      have hd := h.thread u
      have hlocks := hd.locks
      cases acquire_step hs with
      | @lock item todo r l v hpc hr hl hrev hexp hv =>
          rw [hpc] at hlocks
          obtain ⟨-, done, hsplit, -, -⟩ := hlocks
          obtain ⟨r₁, l₁, -, hl₁, -, -, hlpub, -⟩ := hd.item item (by rw [hsplit]; simp)
          rw [hl, Option.some.injEq] at hl₁
          exact origin_item rfl (by simp) (hl₁ ▸ hlpub) hx'
      | _ => exact .of_eq hx' rfl
  | call_CancelLocks u abort =>
      rw [step, guarded_eq_next, Outcome.next.injEq] at hs
      exact .of_eq hx' (by rw [← hs.2]; rfl)
  | CancelLocks u =>
      cases h.cancel_step hs with
      | @unlock item todo abort r l hpc hr hl hexp hne =>
          obtain ⟨hmem, hcase⟩ := h.cancel_head hpc
          obtain ⟨r₁, l₁, -, hl₁, -, -, hlpub, -⟩ := (h.thread u).item item hmem
          rw [hl, Option.some.injEq] at hl₁
          subst hl₁
          -- a locked item has a number
          rcases hcase with ⟨r₂, l₂, v, -, hl₂, -, hv, -⟩ | ⟨r₂, l₂, -, hl₂, -, hexp₂⟩
          · rw [hl, Option.some.injEq] at hl₂
            subst hl₂
            exact origin_item rfl (fun q hq => absurd hq (by simp [hv])) hlpub hx'
          · rw [hl, Option.some.injEq] at hl₂
            exact absurd (hl₂ ▸ hexp₂) hexp
      | _ => exact .of_eq hx' rfl
  | CommitPrivateFromProtected u cur_time =>
      rw [step, guarded_eq_next] at hs
      obtain ⟨hpc, hs⟩ := hs
      obtain ⟨heap', hrun, hdone⟩ := h.commit_private_from_protected hpc cur_time
      rw [hrun] at hs
      dsimp only at hs
      rw [Outcome.next.injEq] at hs
      subst hs
      refine origin_pfp h (h.acquired_backups hpc) hdone (fun P hP y hy => ?_) hx'
      obtain ⟨y₁, hy₁, hflag, -⟩ := ((h.thread u).pfp P).mp hP
      rw [hy, Option.some.injEq] at hy₁
      exact .own ((h.shape P y hy).pfp (hy₁ ▸ hflag)).1
  | new_heads u items =>
      rw [step] at hs
      cases hpc : (s.threads u).pc with
      | committed cur_time =>
          rw [hpc] at hs
          dsimp only at hs
          rw [guarded_eq_next] at hs
          obtain ⟨hitems, hs⟩ := hs
          obtain ⟨heap', hheap, hs⟩ := Outcome.bind_eq_next.mp hs
          rw [Outcome.ofOption_eq_next] at hheap
          rw [Outcome.next.injEq] at hs
          have hheads := h.new_heads_list hitems hheap
          have hx₁ : heap' p = some x' := by rw [← hx', ← hs]; rfl
          rcases hheads.cases hitems p with ⟨R, l, -, -, hl'⟩ | ⟨-, R, L, l, -, -, hl'⟩ | ⟨-, hsame⟩
          · obtain rfl := Option.some.inj (hx₁.symm.trans hl')
            exact .head (by simp)
          · obtain rfl := Option.some.inj (hx₁.symm.trans hl')
            exact .head (by simp [new_stub])
          · exact .same (hsame.symm.trans hx₁) rfl rfl
      | _ =>
          rw [hpc] at hs
          simp at hs
  | UpdateChainHeads u R =>
      rw [step] at hs
      cases hpc : (s.threads u).pc with
      | chain_heads todo =>
          cases todo with
          | nil =>
              rw [hpc] at hs
              simp at hs
          | cons y todo =>
              obtain ⟨R', stub⟩ := y
              rw [hpc] at hs
              dsimp only at hs
              cases hr : s.heap R with
              | none =>
                  rw [hr] at hs
                  simp at hs
              | some r =>
                  rw [hr] at hs
                  dsimp only at hs
                  rw [guarded_eq_next] at hs
                  obtain ⟨rfl, hs⟩ := hs
                  split_ifs at hs with hflag
                  rw [Outcome.next.injEq] at hs
                  refine origin_update (by rw [← hs]; rfl) (fun _ => ?_) hx'
                  obtain ⟨st, hst, hstpub, -⟩ := hc.head_of_todo h hpc
                  exact .outdated rfl (public_step h hstep ⟨st, hst, hstpub⟩)
      | _ =>
          rw [hpc] at hs
          simp at hs
  | commit_done u =>
      rw [step, guarded_eq_next, Outcome.next.injEq] at hs
      exact .of_eq hx' (by rw [← hs.2]; rfl)
  | abort_done u =>
      rw [step, guarded_eq_next] at hs
      obtain ⟨hpc, hs⟩ := hs
      obtain ⟨heap', hrun, hdone⟩ := h.abort_private_from_protected hpc
      rw [hrun] at hs
      dsimp only at hs
      rw [Outcome.next.injEq] at hs
      subst hs
      refine origin_pfp h (h.aborting_backups hpc) hdone (fun P hP y hy => ?_) hx'
      obtain ⟨B, b, hrev, hb, ⟨hbpub, hout⟩ | ⟨-, ⟨v, hv⟩, hout⟩⟩ := h.aborted_object_cases hpc hP hy
      · rw [hout]
        exact .outdated hrev (public_step h hstep ⟨b, hb, hbpub⟩)
      · rw [hout]
        exact .head fun q hq => absurd hq (by simp [hv])

end Origin

/-! ## Every step keeps the chains -/

/-- A new head stays while its thread is in `UpdateChainHeads`. -/
theorem HasHead.step (h : Inv s) (hlock : (s.threads t).pc.has_collection_lock = true)
    (ha : ¬ a.commits t) (hs : Stmgc.C4.step s a = .next s') {todo : List wlog_t} {x : wlog_t}
    (hmem : x ∈ (s.threads t).items) (hx : HasHead s t todo x) : HasHead s' t todo x := by
  obtain ⟨⟨l, hl, hlrev⟩, S, stub, hS, hSpub, hstub, hthread, hcase⟩ := hx
  have hthreads := threads_step h hlock ha hs
  obtain ⟨r₁, l₁, -, hl₁, -, -, hlpub, -, hlt⟩ := (h.thread t).item x hmem
  rw [hl, Option.some.injEq] at hl₁
  subst hl₁
  refine ⟨?_, ?_⟩
  · obtain ⟨l', hl', hsame, -⟩ := own_step h hlock ha hs hl hlt hlpub
    exact ⟨l', hl', by rw [hsame.h_revision, hlrev, hthreads]⟩
  · -- nobody steals the stub, nor takes it out of the chain
    have hstub' : ∃ stub', s'.heap S = some stub' ∧ stub'.GCFLAG_PUBLIC = true
        ∧ stub'.h_revision = .stub x.2 ∧ stub'.thread = t := by
      cases effect_at h hs hS with
      | same y hy hsame _ =>
          exact ⟨y, hy, hsame.PUBLIC.trans hSpub, hsame.h_revision.trans hstub,
            hsame.thread.trans hthread⟩
      | own hnot _ => exact absurd hSpub (by simp [hnot])
      | moved _ _ _ _ hfree => exact absurd hlock (by simp [hfree t])
      | shared y _ hy hypub hythread _ hrev =>
          generalize hv : y.h_revision = v at hrev
          cases hrev with
          | same => exact ⟨y, hy, hypub, hv.trans hstub, hythread.trans hthread⟩
          | lock _ hnot _ _ _ => exact absurd hnot (by simp [hstub])
          | unlock _ hnot _ _ _ => exact absurd hnot (by simp [hstub])
          | publish _ hnot => exact absurd hnot (by simp [hstub])
          | steal _ _ hfree =>
              have hnot := hfree stub hS
              rw [hthread] at hnot
              exact absurd hlock (by simp [hnot])
          | shortcut _ hnot _ _ => exact absurd hnot (by simp [hstub])
    obtain ⟨stub', hS', hpub', hrev', hthread'⟩ := hstub'
    refine ⟨S, stub', hS', hpub', hrev', hthread', hcase.imp_right ?_⟩
    rintro ⟨r, hr, hrpub, hrrev⟩
    cases effect_at h hs hr with
    | same y hy hsame _ => exact ⟨y, hy, hsame.PUBLIC.trans hrpub, hsame.h_revision.trans hrrev⟩
    | own hnot _ => exact absurd hrpub (by simp [hnot])
    | moved _ _ _ _ hfree => exact absurd hlock (by simp [hfree t])
    | shared y _ hy hypub _ _ hrev =>
        generalize hv : y.h_revision = v at hrev
        cases hrev with
        | same => exact ⟨y, hy, hypub, hv.trans hrrev⟩
        | lock _ hnot _ _ _ => exact absurd hnot (by simp [hrrev])
        | unlock _ hnot _ _ _ => exact absurd hnot (by simp [hrrev])
        | publish _ hnot => exact absurd hnot (by simp [hrrev])
        | steal _ hnot _ => exact absurd hnot (by simp [hrrev])
        | shortcut _ hptr hp hprev =>
            obtain rfl := revision_t.pointer.inj (hrrev.symm.trans hptr)
            rw [hS, Option.some.injEq] at hp
            exact absurd hprev (by simp [← hp, hstub])

/-- The first loop of `UpdateChainHeads` makes the heads. -/
theorem new_heads_has_head (h : Inv s) {items : List (wlog_t × gcptr)} {todo : List wlog_t}
    (hs : step s (.new_heads t items) = .next s') (hpc : (s'.threads t).pc = .chain_heads todo) :
    ∀ x ∈ (s'.threads t).items, HasHead s' t todo x := by
  rw [step] at hs
  cases hpc₀ : (s.threads t).pc with
  | committed cur_time =>
      rw [hpc₀] at hs
      dsimp only at hs
      rw [guarded_eq_next] at hs
      obtain ⟨hitems, hs⟩ := hs
      obtain ⟨heap', hheap, hs⟩ := Outcome.bind_eq_next.mp hs
      rw [Outcome.ofOption_eq_next] at hheap
      rw [Outcome.next.injEq] at hs
      have hheads := h.new_heads_list hitems hheap
      subst hs
      intro x hx
      rw [State.set_thread_self] at hx hpc
      rw [Pc.chain_heads.injEq] at hpc
      have hmem : x ∈ items.map Prod.fst := hitems ▸ hx
      obtain ⟨y, hy, rfl⟩ := List.mem_map.mp hmem
      obtain ⟨l, hl, hl'⟩ := hheads.val y hy
      obtain ⟨-, l₁, hl₁, hstub⟩ := hheads.stub y hy
      rw [hl, Option.some.injEq] at hl₁
      subst hl₁
      obtain ⟨r₁, l₁, -, hl₁, -, -, -, -, hlt⟩ := (h.thread t).item y.1 hx
      rw [hl, Option.some.injEq] at hl₁
      subst hl₁
      refine ⟨⟨_, hl', by rw [State.set_thread_self, neg_neg]⟩, y.2, _, hstub, rfl, rfl, hlt, Or.inl ?_⟩
      rw [← hpc]
      exact List.mem_map.mpr ⟨y, hy, rfl⟩
  | _ =>
      rw [hpc₀] at hs
      simp at hs

/-- The second loop sets one key after another. -/
theorem update_has_head (h : Inv s) (hc : Chains s) {R : gcptr} {todo : List wlog_t}
    (hs : step s (.UpdateChainHeads t R) = .next s') (hpc : (s'.threads t).pc = .chain_heads todo) :
    ∀ x ∈ (s'.threads t).items, HasHead s' t todo x := by
  rw [step] at hs
  cases hpc₀ : (s.threads t).pc with
  | chain_heads todo₀ =>
      cases todo₀ with
      | nil =>
          rw [hpc₀] at hs
          simp at hs
      | cons y todo₀ =>
          obtain ⟨R', S⟩ := y
          obtain ⟨stub, hS, hSpub, hSt, L, hmem, hstub⟩ := hc.head_of_todo h hpc₀
          have hheads := hc.heads t _ hpc₀
          have hlocks := (h.thread t).locks
          rw [hpc₀] at hlocks
          obtain ⟨-, hnodup, htodo, -⟩ := hlocks
          rw [hpc₀] at hs
          dsimp only at hs
          cases hr : s.heap R with
          | none =>
              rw [hr] at hs
              simp at hs
          | some r =>
              rw [hr] at hs
              dsimp only at hs
              rw [guarded_eq_next] at hs
              obtain ⟨rfl, hs⟩ := hs
              split_ifs at hs with hflag
              rw [Outcome.next.injEq] at hs
              subst hs
              rw [State.set_pc_self] at hpc ⊢
              obtain rfl := Pc.chain_heads.inj hpc
              obtain ⟨r₁, hr₁, hrlock⟩ := htodo _ List.mem_cons_self
              rw [hr, Option.some.injEq] at hr₁
              subst hr₁
              intro x hx
              obtain ⟨⟨l, hl, hlrev⟩, S', stub', hS', hpub', hstub', ht', hcase⟩ := hheads x hx
              obtain ⟨r₁, l₁, -, hl₁, -, -, hlpub, -⟩ := (h.thread t).item x hx
              rw [hl, Option.some.injEq] at hl₁
              subst hl₁
              have hlR : x.2 ≠ R := by
                rintro hxR
                rw [hxR, hr, Option.some.injEq] at hl
                exact absurd hflag.1 (by simp [hl, hlpub])
              have hSR : S' ≠ R := by
                rintro rfl
                rw [hr, Option.some.injEq] at hS'
                exact absurd hstub' (by simp [← hS', hrlock])
              refine ⟨⟨l, ?_, ?_⟩, S', stub', ?_, hpub', hstub', ht', ?_⟩
              · rw [State.set_pc_heap, State.set_object_heap, Function.update_of_ne hlR, hl]
              · rw [State.set_pc_self]
                exact hlrev
              · rw [State.set_pc_heap, State.set_object_heap, Function.update_of_ne hSR, hS']
              · by_cases hxR : x.1 = R
                · refine Or.inr ⟨{ r with h_revision := .pointer S }, ?_, hflag.1, ?_⟩
                  · rw [hxR, State.set_pc_heap, State.set_object_heap, Function.update_self]
                  · rcases hcase with hS'mem | ⟨r', hr', -, hptr⟩
                    · have heq := List.inj_on_of_nodup_map hnodup hS'mem List.mem_cons_self hxR
                      rw [Prod.mk.injEq] at heq
                      rw [heq.2]
                    · rw [hxR, hr, Option.some.injEq] at hr'
                      exact absurd hptr (by simp [← hr', hrlock])
                · rcases hcase with hS'mem | ⟨r', hr', hrpub', hptr⟩
                  · refine Or.inl ((List.mem_cons.mp hS'mem).resolve_left fun heq => hxR ?_)
                    rw [Prod.mk.injEq] at heq
                    exact heq.1
                  · refine Or.inr ⟨r', ?_, hrpub', hptr⟩
                    rw [State.set_pc_heap, State.set_object_heap, Function.update_of_ne hxR, hr']
  | _ =>
      rw [hpc₀] at hs
      simp at hs

theorem Chains.step (h : Inv s) (hc : Chains s) (hs : Stmgc.C4.step s a = .next s') : Chains s' := by
  refine ⟨fun p x' q hx' hpub hrev => ?_, fun t todo hpc => ?_⟩
  · cases origin h hc hs hx' with
    | same hx hpub₀ hrev₀ =>
        exact public_step h hs (hc.outdated p _ q hx (hpub₀.symm.trans hpub) (hrev₀.symm.trans hrev))
    | own hnot => exact absurd hpub (by simp [hnot])
    | head hnot => exact absurd hrev (hnot q)
    | outdated hrev' hq =>
        obtain rfl := revision_t.pointer.inj (hrev'.symm.trans hrev)
        exact hq
  · have hpast : (s'.threads t).pc.past_locks = true := by rw [hpc]; rfl
    by_cases ha : a.commits t
    · cases a with
      | new_heads u items =>
          obtain rfl : u = t := ha
          exact new_heads_has_head h hs hpc
      | UpdateChainHeads u R =>
          obtain rfl : u = t := ha
          exact update_has_head h hc hs hpc
      | AcquireLocks u =>
          obtain rfl : u = t := ha
          exact absurd hpast (by simp [(acquire_threads hs).2.2])
      | CancelLocks u =>
          obtain rfl : u = t := ha
          exact absurd hpast (by simp [(cancel_threads h hs).2.2])
      | call_CancelLocks u abort =>
          obtain rfl : u = t := ha
          rw [Stmgc.C4.step, guarded_eq_next, Outcome.next.injEq] at hs
          rw [← hs.2, State.set_pc_self] at hpc
          simp at hpc
      | CommitPrivateFromProtected u cur_time =>
          obtain rfl : u = t := ha
          rw [Stmgc.C4.step, guarded_eq_next] at hs
          obtain ⟨hpc₀, hs⟩ := hs
          obtain ⟨heap', hrun, -⟩ := h.commit_private_from_protected hpc₀ cur_time
          rw [hrun] at hs
          dsimp only at hs
          rw [Outcome.next.injEq] at hs
          rw [← hs, State.set_thread_self] at hpc
          simp at hpc
      | commit_done u =>
          obtain rfl : u = t := ha
          rw [Stmgc.C4.step, guarded_eq_next, Outcome.next.injEq] at hs
          rw [← hs.2, State.set_thread_self] at hpc
          simp at hpc
      | abort_done u =>
          obtain rfl : u = t := ha
          rw [Stmgc.C4.step, guarded_eq_next] at hs
          obtain ⟨hpc₀, hs⟩ := hs
          obtain ⟨heap', hrun, -⟩ := h.abort_private_from_protected hpc₀
          rw [hrun] at hs
          dsimp only at hs
          rw [Outcome.next.injEq] at hs
          rw [← hs, State.set_thread_self] at hpc
          simp at hpc
      | _ => exact absurd ha id
    · have hlock : (s.threads t).pc.has_collection_lock = true := by
        have hpast₀ := past_of_step h ha hs hpast
        by_contra hfree
        rw [Pc.past_locks_eq_false (by simpa using hfree)] at hpast₀
        simp at hpast₀
      have hthreads := threads_step h hlock ha hs
      rw [hthreads] at hpc ⊢
      exact fun x hx => HasHead.step h hlock ha hs hx (hc.heads t todo hpc x hx)

theorem Chains.init (h : Stmgc.C4.init s) : Chains s := by
  refine ⟨fun p x q hx _ hrev => ?_, fun t todo hpc => ?_⟩
  · obtain ⟨-, -, -, -, -, -, -, v, hv⟩ := h.prebuilt p x hx
    exact absurd hrev (by simp [hv])
  · exact absurd hpc (by simp [(h.threads t).2.2.2])

theorem Chains.reachable {ok : State n Content → Act n Content → Prop}
    (h : ReachableIf Stmgc.C4.init Stmgc.C4.step ok s) : Inv s ∧ Chains s := by
  refine @ReachableIf.invariant _ _ _ _ _ (fun s => Inv s ∧ Chains s) (fun s hs => ?_)
    (fun s a s' hinv _ hs => ?_) _ h
  · exact ⟨Inv.init hs, Chains.init hs⟩
  · exact ⟨hinv.1.step hs, hinv.2.step hinv.1 hs⟩

end Stmgc.C4
