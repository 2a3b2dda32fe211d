/-
Who frees the backup copies of `c8/stm/core.c`.

The machine of `CommitLog` has the contents of the backup copies. This one adds
the blocks that hold them: every `malloc` in `_stm_write_slowpath` gives a new
block, and the `val` of an entry of `modified_old_objects` is its block.
-/
import Stmgc.C8.CommitLogCases

namespace Stmgc.C8

open Stmgc.Lib

/-- The blocks of the backup copies. -/
structure Backups (Seg Obj : Type) where
  /-- the segments that have called `malloc`, in order -/
  malloced : List Seg
  /-- the local variable `bk_obj` of `_stm_write_slowpath` -/
  bk_obj : Seg → Option ℕ
  /-- the `val` fields of `modified_old_objects` -/
  vals : Seg → AList (fun _ : Obj => ℕ)
  freed : List ℕ

namespace Backups

section

variable {Seg Obj Data : Type} [DecidableEq Seg] [DecidableEq Obj]

def malloc (b : Backups Seg Obj) (s : Seg) : Backups Seg Obj :=
  { b with
    malloced := b.malloced ++ [s]
    bk_obj := Function.update b.bk_obj s (some b.malloced.length) }

/-- The end of `_stm_write_slowpath`. -/
def register (b : Backups Seg Obj) (s : Seg) (obj : Obj) : Backups Seg Obj :=
  let returned := { b with bk_obj := Function.update b.bk_obj s none }
  match b.bk_obj s with
  | some k =>
    if obj ∈ b.vals s then returned
    else { returned with vals := Function.update b.vals s ((b.vals s).insert obj k) }
  | none => returned

/-- `free` of one entry, which is then deleted. -/
def free_entry (b : Backups Seg Obj) (s : Seg) (obj : Obj) : Backups Seg Obj :=
  match (b.vals s).lookup obj with
  | some k =>
    { b with
      freed := b.freed ++ [k]
      vals := Function.update b.vals s ((b.vals s).erase obj) }
  | none => b

/-- `free` of all entries, and `tree_clear`. -/
def free_all (b : Backups Seg Obj) (s : Seg) : Backups Seg Obj :=
  { b with
    freed := b.freed ++ (b.vals s).entries.map (fun e => e.2)
    vals := Function.update b.vals s ∅ }

/-- What a step does to the blocks. -/
def step (st : St Seg Obj Data) (b : Backups Seg Obj) : Act Seg Obj Data → Backups Seg Obj
  | .write s obj =>
    if ((st.segs s).page obj).write_barrier then b.malloc s else b
  | .continue s =>
    match (st.segs s).pc with
    | .write_slowpath obj _ => b.register s obj
    | .was_read _ _ obj _ => if stm_was_read (st.segs s) obj then b.free_entry s obj else b
    | .attached => b.free_all s
    | .abort => b.free_all s
    | _ => b
  | _ => b

end

end Backups

/-- The machine with its blocks. -/
structure Owned (Seg Obj Data : Type) where
  st : St Seg Obj Data
  backups : Backups Seg Obj

namespace Owned

section

variable {Seg Obj Data : Type} [DecidableEq Seg] [DecidableEq Obj]

def step (x : Owned Seg Obj Data) (a : Act Seg Obj Data) : Outcome (Owned Seg Obj Data) :=
  (C8.step x.st a).bind fun st => .next { st := st, backups := x.backups.step x.st a }

def Initial (x : Owned Seg Obj Data) : Prop :=
  C8.Initial x.st ∧
    x.backups = { malloced := [], bk_obj := fun _ => none, vals := fun _ => ∅, freed := [] }

/-- The object that `_stm_write_slowpath` is called for is not in
`modified_old_objects` yet. -/
def first_write (x : Owned Seg Obj Data) : Act Seg Obj Data → Bool
  | .write s obj => !((x.st.segs s).page obj).write_barrier ||
      decide (obj ∉ (x.st.segs s).modified_old_objects)
  | _ => true

end

end Owned

/-! ## Every block is in one place -/

namespace Backups

section

variable {Seg Obj Data : Type} [DecidableEq Seg] [DecidableEq Obj]

/-- Every block is in the local variable of the segment that has called
`malloc`, or in one entry of this segment, or it is freed. -/
structure Accounted (b : Backups Seg Obj) : Prop where
  covered : ∀ k s, b.malloced[k]? = some s →
    k ∈ b.freed ∨ b.bk_obj s = some k ∨ ∃ obj, (b.vals s).lookup obj = some k
  local_owner : ∀ s k, b.bk_obj s = some k →
    b.malloced[k]? = some s ∧ k ∉ b.freed ∧ ∀ obj, (b.vals s).lookup obj ≠ some k
  entry_owner : ∀ s obj k, (b.vals s).lookup obj = some k →
    b.malloced[k]? = some s ∧ k ∉ b.freed
  entry_unique : ∀ s obj obj' k, (b.vals s).lookup obj = some k →
    (b.vals s).lookup obj' = some k → obj = obj'
  freed_nodup : b.freed.Nodup
  freed_lt : ∀ k ∈ b.freed, k < b.malloced.length

variable {b : Backups Seg Obj} {s : Seg} {obj : Obj}

theorem Accounted.malloc (h : b.Accounted) (hnone : b.bk_obj s = none) :
    (b.malloc s).Accounted := by
  have hgrown : ∀ {k : ℕ} {t : Seg}, b.malloced[k]? = some t →
      (b.malloced ++ [s])[k]? = some t := fun {k t} hk => by
    rw [List.getElem?_append_left (List.getElem?_eq_some_iff.mp hk).1]
    exact hk
  refine ⟨fun k t hk => ?_, fun t k hk => ?_, fun t o k hk => ?_, h.entry_unique,
    h.freed_nodup, fun k hk => ?_⟩
  · dsimp only [Backups.malloc] at hk ⊢
    rw [List.getElem?_append] at hk
    split_ifs at hk with hlt
    · rcases h.covered k t hk with hfreed | hlocal | hentry
      · exact Or.inl hfreed
      · -- the other local variables are as before
        have hne : t ≠ s := fun heq => by
          rw [heq, hnone] at hlocal
          cases hlocal
        rw [Function.update_of_ne hne]
        exact Or.inr (Or.inl hlocal)
      · exact Or.inr (Or.inr hentry)
    · obtain ⟨hzero, hts⟩ := List.getElem?_eq_some_iff.mp hk
      rw [List.length_singleton] at hzero
      have hts : s = t := by
        rw [← hts]
        simp
      subst hts
      rw [Function.update_self]
      refine Or.inr (Or.inl (congrArg some ?_))
      omega
  · dsimp only [Backups.malloc] at hk ⊢
    rw [Function.update_apply] at hk
    split_ifs at hk with hts
    · cases hk
      rw [hts]
      refine ⟨List.getElem?_concat_length, fun hfreed => ?_, fun o ho => ?_⟩
      · exact absurd (h.freed_lt _ hfreed) (Nat.lt_irrefl _)
      · have hlt := (List.getElem?_eq_some_iff.mp (h.entry_owner s o _ ho).1).1
        exact absurd hlt (Nat.lt_irrefl _)
    · obtain ⟨howner, hfreed, hentry⟩ := h.local_owner t k hk
      exact ⟨hgrown howner, hfreed, hentry⟩
  · obtain ⟨howner, hfreed⟩ := h.entry_owner t o k hk
    exact ⟨hgrown howner, hfreed⟩
  · have hlt := h.freed_lt k hk
    dsimp only [Backups.malloc]
    rw [List.length_append, List.length_singleton]
    omega

/-- The slow path returns with its block registered. -/
theorem Accounted.register {k : ℕ} (h : b.Accounted) (hlocal : b.bk_obj s = some k)
    (hnew : obj ∉ b.vals s) : (b.register s obj).Accounted := by
  obtain ⟨howner, hfreed, hentry⟩ := h.local_owner s k hlocal
  have heq : b.register s obj = { b with
      bk_obj := Function.update b.bk_obj s none
      vals := Function.update b.vals s ((b.vals s).insert obj k) } := by
    unfold Backups.register
    rw [hlocal]
    exact if_neg hnew
  -- the other entries are as before
  have hlookup : ∀ t o j, (Function.update b.vals s ((b.vals s).insert obj k) t).lookup o = some j →
      t = s ∧ o = obj ∧ j = k ∨ (t ≠ s ∨ o ≠ obj) ∧ (b.vals t).lookup o = some j := by
    intro t o j hj
    rw [Function.update_apply] at hj
    split_ifs at hj with hts
    · subst hts
      by_cases ho : o = obj
      · rw [ho, AList.lookup_insert] at hj
        exact Or.inl ⟨rfl, ho, (Option.some.inj hj).symm⟩
      · rw [AList.lookup_insert_ne ho] at hj
        exact Or.inr ⟨Or.inr ho, hj⟩
    · exact Or.inr ⟨Or.inl hts, hj⟩
  rw [heq]
  refine ⟨fun j t hj => ?_, fun t j hj => ?_, fun t o j hj => ?_, fun t o o' j hj hj' => ?_,
    h.freed_nodup, h.freed_lt⟩
  · dsimp only
    rcases h.covered j t hj with hmem | hbk | ⟨o, ho⟩
    · exact Or.inl hmem
    · by_cases hts : t = s
      · rw [hts, hlocal] at hbk
        refine Or.inr (Or.inr ⟨obj, ?_⟩)
        rw [hts, Function.update_self, AList.lookup_insert, hbk]
      · rw [Function.update_of_ne hts]
        exact Or.inr (Or.inl hbk)
    · refine Or.inr (Or.inr ⟨o, ?_⟩)
      rw [Function.update_apply]
      split_ifs with hts
      · have hne : o ≠ obj := fun heq => by
          rw [heq, hts, AList.lookup_eq_none.mpr hnew] at ho
          cases ho
        rw [AList.lookup_insert_ne hne, ← hts]
        exact ho
      · exact ho
  · dsimp only at hj ⊢
    rw [Function.update_apply] at hj
    split_ifs at hj with hts
    obtain ⟨howner', hfreed', hentry'⟩ := h.local_owner t j hj
    rw [Function.update_of_ne hts]
    exact ⟨howner', hfreed', hentry'⟩
  · rcases hlookup t o j hj with ⟨rfl, rfl, rfl⟩ | ⟨-, hj⟩
    · exact ⟨howner, hfreed⟩
    · exact h.entry_owner t o j hj
  · rcases hlookup t o j hj with ⟨hts, ho, hjk⟩ | ⟨-, hold⟩
    · rcases hlookup t o' j hj' with ⟨-, ho', -⟩ | ⟨-, hold'⟩
      · exact ho.trans ho'.symm
      · rw [hts, hjk] at hold'
        exact absurd hold' (hentry o')
    · rcases hlookup t o' j hj' with ⟨hts, -, hjk⟩ | ⟨-, hold'⟩
      · rw [hts, hjk] at hold
        exact absurd hold (hentry o)
      · exact h.entry_unique t o o' j hold hold'

/-- Some entries of a segment are freed: those that are gone. -/
theorem Accounted.free (h : b.Accounted) {ks : List ℕ} {vals : AList (fun _ : Obj => ℕ)}
    (hnodup : ks.Nodup) (hks : ∀ k ∈ ks, ∃ obj, (b.vals s).lookup obj = some k)
    (hrest : ∀ obj k, vals.lookup obj = some k ↔ (b.vals s).lookup obj = some k ∧ k ∉ ks) :
    Accounted { b with
      freed := b.freed ++ ks
      vals := Function.update b.vals s vals } := by
  have hentry : ∀ t o k, (Function.update b.vals s vals t).lookup o = some k →
      (b.vals t).lookup o = some k ∧ (t = s → k ∉ ks) := by
    intro t o k hk
    rw [Function.update_apply] at hk
    split_ifs at hk with hts
    · rw [hrest] at hk
      exact ⟨hts ▸ hk.1, fun _ => hk.2⟩
    · exact ⟨hk, fun h => absurd h hts⟩
  refine ⟨fun k t hk => ?_, fun t k hk => ?_, fun t o k hk => ?_, fun t o o' k hk hk' => ?_,
    ?_, fun k hk => ?_⟩
  · dsimp only
    rcases h.covered k t hk with hfreed | hlocal | ⟨o, ho⟩
    · exact Or.inl (List.mem_append_left _ hfreed)
    · exact Or.inr (Or.inl hlocal)
    · by_cases hts : t = s
      · subst hts
        by_cases hmem : k ∈ ks
        · exact Or.inl (List.mem_append_right _ hmem)
        · rw [Function.update_self]
          exact Or.inr (Or.inr ⟨o, (hrest o k).mpr ⟨ho, hmem⟩⟩)
      · rw [Function.update_of_ne hts]
        exact Or.inr (Or.inr ⟨o, ho⟩)
  · obtain ⟨howner, hfreed, hlocal⟩ := h.local_owner t k hk
    refine ⟨howner, fun hmem => ?_, fun o ho => hlocal o (hentry t o k ho).1⟩
    rcases List.mem_append.mp hmem with hmem | hmem
    · exact hfreed hmem
    · obtain ⟨o, ho⟩ := hks k hmem
      have hts : s = t := Option.some.inj ((h.entry_owner s o k ho).1.symm.trans howner)
      exact hlocal o (hts ▸ ho)
  · obtain ⟨hk, hnot⟩ := hentry t o k hk
    obtain ⟨howner, hfreed⟩ := h.entry_owner t o k hk
    refine ⟨howner, fun hmem => ?_⟩
    rcases List.mem_append.mp hmem with hmem | hmem
    · exact hfreed hmem
    · obtain ⟨o', ho'⟩ := hks k hmem
      exact hnot (Option.some.inj (howner.symm.trans (h.entry_owner s o' k ho').1)) hmem
  · exact h.entry_unique t o o' k (hentry t o k hk).1 (hentry t o' k hk').1
  · refine List.nodup_append.mpr ⟨h.freed_nodup, hnodup, fun k hk j hj heq => ?_⟩
    obtain ⟨o, ho⟩ := hks j hj
    exact (h.entry_owner s o j ho).2 (heq ▸ hk)
  · rcases List.mem_append.mp hk with hk | hk
    · exact h.freed_lt k hk
    · obtain ⟨o, ho⟩ := hks k hk
      exact (List.getElem?_eq_some_iff.mp (h.entry_owner s o k ho).1).1

theorem Accounted.free_entry (h : b.Accounted) : (b.free_entry s obj).Accounted := by
  unfold Backups.free_entry
  cases hlookup : (b.vals s).lookup obj with
  | none => exact h
  | some k =>
      refine h.free (List.nodup_singleton k) (fun j hj => ⟨obj, ?_⟩) fun o j => ?_
      · rw [hlookup, List.mem_singleton.mp hj]
      · rw [List.mem_singleton]
        by_cases ho : o = obj
        · rw [ho, AList.lookup_erase, hlookup]
          exact ⟨nofun, fun hj => absurd (Option.some.inj hj.1).symm hj.2⟩
        · rw [AList.lookup_erase_ne ho]
          refine ⟨fun hj => ⟨hj, fun hjk => ho ?_⟩, fun hj => hj.1⟩
          exact h.entry_unique s o obj k (hjk ▸ hj) hlookup

theorem Accounted.free_all (h : b.Accounted) : (b.free_all s).Accounted := by
  have hmem : ∀ k, k ∈ (b.vals s).entries.map (fun e => e.2) ↔
      ∃ obj, (b.vals s).lookup obj = some k := by
    intro k
    rw [List.mem_map]
    constructor
    · rintro ⟨e, he, rfl⟩
      exact ⟨e.1, AList.mem_lookup_iff.mpr he⟩
    · rintro ⟨o, ho⟩
      exact ⟨⟨o, k⟩, AList.mem_lookup_iff.mp ho, rfl⟩
  refine h.free ?_ (fun k hk => (hmem k).mp hk) fun o k => ?_
  · refine List.Nodup.map_on (fun e he e' he' heq => ?_) (b.vals s).nodupKeys.nodup
    have ho := h.entry_unique s e.1 e'.1 e.2 (AList.mem_lookup_iff.mpr he)
      (heq ▸ AList.mem_lookup_iff.mpr he')
    exact Sigma.ext ho (heq_of_eq heq)
  · constructor
    · exact nofun
    · rintro ⟨ho, hnot⟩
      exact absurd ((hmem k).mpr ⟨o, ho⟩) hnot

end

end Backups

/-! ## The machine -/

section

variable {Seg Obj Data : Type} [DecidableEq Seg] [DecidableEq Obj]

/-- The thread is in `_stm_write_slowpath`. -/
def Pc.slow : Pc Obj Data → Bool
  | .write_slowpath _ _ => true
  | _ => false

omit [DecidableEq Obj] in
theorem Caller.slow_return_pc {caller : Caller Obj} :
    (caller.return_pc : Pc Obj Data).slow = false := by
  cases caller with
  | start => rfl
  | running => rfl
  | commit written => rfl
  | inevitable => rfl

/-- Nothing happens to the backup copies of any segment. -/
def Quiet (st st' : St Seg Obj Data) : Prop :=
  ∀ s, (st'.segs s).modified_old_objects = (st.segs s).modified_old_objects ∧
    ((st'.segs s).pc = (st.segs s).pc ∨
      (st.segs s).pc.slow = false ∧ (st'.segs s).pc.slow = false)

variable {st st' : St Seg Obj Data} {s : Seg} {a : Act Seg Obj Data}

omit [DecidableEq Seg] [DecidableEq Obj] in
theorem Quiet.refl : Quiet st st := fun _ => ⟨rfl, Or.inl rfl⟩

omit [DecidableEq Obj] in
/-- One segment moves on outside the slow path. -/
theorem Quiet.of_segs {seg : Segment Obj Data} (hsegs : st'.segs = Function.update st.segs s seg)
    (hmodified : seg.modified_old_objects = (st.segs s).modified_old_objects)
    (hslow : (st.segs s).pc.slow = false) (hslow' : seg.pc.slow = false) : Quiet st st' := by
  intro t
  rw [hsegs, Function.update_apply]
  split_ifs with hts
  · exact ⟨hts ▸ hmodified, Or.inr ⟨hts ▸ hslow, hslow'⟩⟩
  · exact ⟨rfl, Or.inl rfl⟩

/-- Only `stm_write` and the functions that the thread is inside of do anything
to the backup copies. -/
theorem quiet_of_step (hs : step st a = .next st') (hwrite : ∀ s obj, a ≠ .write s obj)
    (hcontinue : ∀ s, a ≠ .continue s) : Quiet st st' := by
  cases a with
  | write s obj => exact absurd rfl (hwrite s obj)
  | «continue» s => exact absurd rfl (hcontinue s)
  | allocate_old obj data =>
      simp only [step] at hs
      split_ifs at hs
      rw [Outcome.next.injEq] at hs
      subst hs
      exact fun _ => ⟨rfl, Or.inl rfl⟩
  | start_transaction s =>
      simp only [step] at hs
      split at hs
      · rename_i hpc
        split_ifs at hs
        rw [Outcome.next.injEq] at hs
        subst hs
        exact .of_segs rfl rfl (by rw [hpc]; rfl) rfl
      · cases hs
  | read s obj =>
      simp only [step] at hs
      split at hs
      · rename_i hpc
        rw [Outcome.next.injEq] at hs
        subst hs
        exact .of_segs rfl rfl (by rw [hpc]; rfl) (by rw [stm_read, hpc]; rfl)
      · cases hs
  | store s obj data =>
      simp only [step] at hs
      split at hs
      · rename_i hpc
        split_ifs at hs
        rw [Outcome.next.injEq] at hs
        subst hs
        exact .of_segs rfl rfl (by rw [hpc]; rfl) (by rw [store, hpc]; rfl)
      · cases hs
  | minor_collection s trace =>
      simp only [step] at hs
      split at hs
      · rename_i hpc
        rw [Outcome.next.injEq] at hs
        subst hs
        exact .of_segs rfl rfl (by rw [hpc]; rfl) (by rw [minor_collection, hpc]; rfl)
      · cases hs
  | validate s =>
      simp only [step] at hs
      split at hs
      · rename_i hpc
        split_ifs at hs
        · split at hs
          · rw [Outcome.next.injEq] at hs
            subst hs
            exact .refl
          · cases hs
        · rw [Outcome.next.injEq] at hs
          subst hs
          exact .of_segs rfl rfl (by rw [hpc]; rfl) rfl
      · cases hs
  | become_inevitable s =>
      simp only [step] at hs
      split at hs
      · rename_i hpc
        split_ifs at hs
        · rw [Outcome.next.injEq] at hs
          subst hs
          exact .of_segs rfl rfl (by rw [hpc]; rfl) rfl
        · rw [Outcome.next.injEq] at hs
          subst hs
          exact .refl
      · cases hs
  | commit_transaction s trace =>
      simp only [step] at hs
      split at hs
      · rename_i hpc
        rw [Outcome.next.injEq] at hs
        subst hs
        refine .of_segs rfl rfl (by rw [hpc]; rfl) ?_
        unfold commit_transaction
        dsimp only
        split_ifs
        · rfl
        · rfl
      · cases hs
  | abort_transaction s =>
      simp only [step] at hs
      split at hs
      · rename_i hpc
        rw [Outcome.next.injEq] at hs
        subst hs
        exact .of_segs rfl rfl (by rw [hpc]; rfl) rfl
      · rename_i hpc
        split at hs
        · rw [Outcome.next.injEq] at hs
          subst hs
          exact .of_segs rfl rfl (by rw [hpc]; rfl) rfl
        · cases hs
      · cases hs

/-- Inside the functions, everything but the ends of the slow path, of a
commit and of an abort, and the deletion by `stm_validate`. -/
theorem quiet_of_continue (hs : continue_step st s = .next st')
    (hslow : (st.segs s).pc.slow = false)
    (hread : ∀ caller needs_abort obj written,
      (st.segs s).pc ≠ .was_read caller needs_abort obj written)
    (hattached : (st.segs s).pc ≠ .attached) (habort : (st.segs s).pc ≠ .abort) :
    Quiet st st' := by
  cases hpc : (st.segs s).pc with
  | write_slowpath obj bk =>
      rw [hpc] at hslow
      cases hslow
  | was_read caller needs_abort obj written => exact absurd hpc (hread _ _ _ _)
  | attached => exact absurd hpc hattached
  | abort => exact absurd hpc habort
  | no_transaction => simp [continue_step, hpc] at hs
  | running => simp [continue_step, hpc] at hs
  | validate caller needs_abort =>
      simp only [continue_step, hpc] at hs
      split at hs
      · rw [Outcome.next.injEq] at hs
        subst hs
        exact .of_segs rfl rfl hslow rfl
      · rw [Outcome.next.injEq] at hs
        subst hs
        exact .refl
      · split_ifs at hs
        · rw [Outcome.next.injEq] at hs
          subst hs
          exact .of_segs rfl rfl hslow rfl
        · rw [Outcome.next.injEq] at hs
          subst hs
          exact .of_segs rfl rfl hslow Caller.slow_return_pc
  | update caller needs_abort written =>
      cases written with
      | nil =>
          simp only [continue_step, hpc] at hs
          rw [Outcome.next.injEq] at hs
          subst hs
          exact .of_segs rfl rfl hslow rfl
      | cons obj written =>
          simp only [continue_step, hpc] at hs
          split at hs
          · split at hs
            · rw [Outcome.next.injEq] at hs
              subst hs
              exact .of_segs rfl rfl hslow rfl
            · cases hs
          · cases hs
  | attach_commit written =>
      simp only [continue_step, hpc] at hs
      split_ifs at hs
      · split at hs
        · rw [Outcome.next.injEq] at hs
          subst hs
          exact .of_segs rfl rfl hslow rfl
        · cases hs
      · split at hs
        · rw [Outcome.next.injEq] at hs
          subst hs
          exact .of_segs rfl rfl hslow rfl
        · rw [Outcome.next.injEq] at hs
          subst hs
          exact .of_segs rfl rfl hslow rfl
  | attach_inevitable =>
      simp only [continue_step, hpc] at hs
      split at hs
      · rw [Outcome.next.injEq] at hs
        subst hs
        exact .of_segs rfl rfl hslow rfl
      · rw [Outcome.next.injEq] at hs
        subst hs
        exact .of_segs rfl rfl hslow rfl
  | finish =>
      simp only [continue_step, hpc] at hs
      rw [Outcome.next.injEq] at hs
      subst hs
      exact .of_segs rfl rfl hslow rfl

end

namespace Owned

section

variable {Seg Obj Data : Type} [DecidableEq Seg] [DecidableEq Obj]

structure Inv (x : Owned Seg Obj Data) : Prop where
  accounted : x.backups.Accounted
  keys : ∀ s obj, obj ∈ x.backups.vals s ↔ obj ∈ (x.st.segs s).modified_old_objects
  slow : ∀ s obj bk, (x.st.segs s).pc = .write_slowpath obj bk →
    obj ∉ (x.st.segs s).modified_old_objects ∧ x.backups.bk_obj s ≠ none
  idle : ∀ s, (x.st.segs s).pc.slow = false → x.backups.bk_obj s = none

variable {x x' : Owned Seg Obj Data} {st st' : St Seg Obj Data} {b : Backups Seg Obj} {s : Seg}
  {obj : Obj} {a : Act Seg Obj Data}

omit [DecidableEq Seg] in
theorem Inv.quiet (hinv : Inv ⟨st, b⟩) (h : Quiet st st') : Inv ⟨st', b⟩ := by
  refine ⟨hinv.accounted, fun s obj => ?_, fun s obj bk hpc => ?_, fun s hslow => ?_⟩
  · rw [(h s).1]
    exact hinv.keys s obj
  · rcases (h s).2 with heq | ⟨-, hslow⟩
    · rw [(h s).1]
      exact hinv.slow s obj bk (heq ▸ hpc)
    · rw [show (st'.segs s).pc = _ from hpc] at hslow
      cases hslow
  · rcases (h s).2 with heq | ⟨hbefore, -⟩
    · exact hinv.idle s (heq ▸ hslow)
    · exact hinv.idle s hbefore

/-- The other segments see nothing of what one segment does to its own
backup copies. -/
theorem Inv.of_set {seg : Segment Obj Data} {b' : Backups Seg Obj} (hinv : Inv ⟨st, b⟩)
    (haccounted : b'.Accounted) (hother : ∀ t, t ≠ s → b'.bk_obj t = b.bk_obj t ∧ b'.vals t = b.vals t)
    (hkeys : ∀ obj, obj ∈ b'.vals s ↔ obj ∈ seg.modified_old_objects)
    (hslow : ∀ obj bk, seg.pc = .write_slowpath obj bk →
      obj ∉ seg.modified_old_objects ∧ b'.bk_obj s ≠ none)
    (hidle : seg.pc.slow = false → b'.bk_obj s = none) : Inv ⟨st.set s seg, b'⟩ := by
  have hsegs : ∀ t, t ≠ s → (st.set s seg).segs t = st.segs t := fun t ht =>
    Function.update_of_ne ht ..
  have hself : (st.set s seg).segs s = seg := Function.update_self ..
  refine ⟨haccounted, fun t o => ?_, fun t o bk hpc => ?_, fun t ht => ?_⟩
  · dsimp only
    by_cases hts : t = s
    · rw [hts, hself]
      exact hkeys o
    · rw [hsegs t hts, (hother t hts).2]
      exact hinv.keys t o
  · dsimp only at hpc ⊢
    by_cases hts : t = s
    · rw [hts, hself] at hpc ⊢
      exact hslow o bk hpc
    · rw [hsegs t hts] at hpc ⊢
      rw [(hother t hts).1]
      exact hinv.slow t o bk hpc
  · dsimp only at ht ⊢
    by_cases hts : t = s
    · rw [hts, hself] at ht
      rw [hts]
      exact hidle ht
    · rw [hsegs t hts] at ht
      rw [(hother t hts).1]
      exact hinv.idle t ht

/-- `_stm_write_slowpath` for an object that has no backup copy yet. -/
theorem Inv.write (hinv : Inv ⟨st, b⟩) (hrunning : (st.segs s).pc = .running)
    (hnew : obj ∉ (st.segs s).modified_old_objects) :
    Inv ⟨st.set s (stm_write_slowpath (st.segs s) obj), b.malloc s⟩ := by
  have hnone : b.bk_obj s = none := hinv.idle s (by dsimp only; rw [hrunning]; rfl)
  refine hinv.of_set (hinv.accounted.malloc hnone)
    (fun t ht => ⟨Function.update_of_ne ht .., rfl⟩) (hinv.keys s) (fun o bk hpc => ?_) nofun
  obtain ⟨rfl, -⟩ := Pc.write_slowpath.inj hpc
  refine ⟨hnew, ?_⟩
  unfold Backups.malloc
  dsimp only
  rw [Function.update_self]
  exact nofun

theorem Inv.register {bk : object_s Data} (hinv : Inv ⟨st, b⟩)
    (hpc : (st.segs s).pc = .write_slowpath obj bk) :
    Inv ⟨st.set s (register_backup (st.segs s) obj bk), b.register s obj⟩ := by
  obtain ⟨hnew, hlocal⟩ := hinv.slow s obj bk hpc
  obtain ⟨k, hk⟩ := Option.ne_none_iff_exists'.mp hlocal
  dsimp only at hnew hk
  have hnew' : obj ∉ b.vals s := fun h => hnew ((hinv.keys s obj).mp h)
  have heq : b.register s obj = { b with
      bk_obj := Function.update b.bk_obj s none
      vals := Function.update b.vals s ((b.vals s).insert obj k) } := by
    unfold Backups.register
    rw [hk]
    exact if_neg hnew'
  refine hinv.of_set (hinv.accounted.register hk hnew') (fun t ht => ?_) (fun o => ?_) nofun
    (fun _ => ?_)
  · rw [heq]
    exact ⟨Function.update_of_ne ht .., Function.update_of_ne ht ..⟩
  · rw [heq]
    unfold register_backup
    dsimp only
    rw [Function.update_self, if_neg hnew, AList.mem_insert, AList.mem_insert]
    exact or_congr_right (hinv.keys s o)
  · rw [heq]
    exact Function.update_self ..

theorem Inv.check {caller : Caller Obj} {needs_abort : Bool} {written : List Obj}
    (hinv : Inv ⟨st, b⟩) (hpc : (st.segs s).pc = .was_read caller needs_abort obj written) :
    Inv ⟨st.set s (check_was_read (st.segs s) caller needs_abort obj written),
      if stm_was_read (st.segs s) obj then b.free_entry s obj else b⟩ := by
  have hnone : b.bk_obj s = none := hinv.idle s (by dsimp only; rw [hpc]; rfl)
  have hkeys := hinv.keys s
  dsimp only at hkeys
  unfold check_was_read
  split_ifs with hread
  · refine hinv.of_set hinv.accounted.free_entry (fun t ht => ?_) (fun o => ?_) nofun (fun _ => ?_)
    · unfold Backups.free_entry
      split
      · exact ⟨rfl, Function.update_of_ne ht ..⟩
      · exact ⟨rfl, rfl⟩
    · dsimp only
      rw [AList.mem_erase, ← hkeys o]
      unfold Backups.free_entry
      cases hlookup : (b.vals s).lookup obj with
      | none =>
          -- the object was not in the tree, and nothing is deleted
          refine ⟨fun ho => ⟨fun heq => ?_, ho⟩, fun ho => ho.2⟩
          exact AList.lookup_eq_none.mp hlookup (heq ▸ ho)
      | some k =>
          dsimp only
          rw [Function.update_self, AList.mem_erase]
    · unfold Backups.free_entry
      split
      · exact hnone
      · exact hnone
  · exact hinv.of_set hinv.accounted (fun _ _ => ⟨rfl, rfl⟩) hkeys nofun (fun _ => hnone)

/-- The end of a transaction. -/
theorem Inv.free_all {seg : Segment Obj Data} (hinv : Inv ⟨st, b⟩)
    (hslow : (st.segs s).pc.slow = false) (hslow' : seg.pc.slow = false)
    (hempty : seg.modified_old_objects = ∅) : Inv ⟨st.set s seg, b.free_all s⟩ := by
  refine hinv.of_set hinv.accounted.free_all (fun t ht => ⟨rfl, Function.update_of_ne ht ..⟩)
    (fun o => ?_) (fun o bk hpc => ?_) (fun _ => hinv.idle s hslow)
  · unfold Backups.free_all
    dsimp only
    rw [Function.update_self, hempty]
    exact iff_of_false (AList.notMem_empty o) (AList.notMem_empty o)
  · rw [hpc] at hslow'
    cases hslow'

theorem Inv.continue (hinv : Inv ⟨st, b⟩) (hs : continue_step st s = .next st') :
    Inv ⟨st', b.step st (.continue s)⟩ := by
  have hquiet : (st.segs s).pc.slow = false →
      (∀ caller needs_abort obj written,
        (st.segs s).pc ≠ .was_read caller needs_abort obj written) →
      (st.segs s).pc ≠ .attached → (st.segs s).pc ≠ .abort → Inv ⟨st', b⟩ :=
    fun hslow hread hattached habort =>
      hinv.quiet (quiet_of_continue hs hslow hread hattached habort)
  cases hpc : (st.segs s).pc with
  | write_slowpath obj bk =>
      simp only [continue_step, hpc, Outcome.next.injEq] at hs
      simp only [Backups.step, hpc]
      exact hs ▸ hinv.register hpc
  | was_read caller needs_abort obj written =>
      simp only [continue_step, hpc, Outcome.next.injEq] at hs
      simp only [Backups.step, hpc]
      exact hs ▸ hinv.check hpc
  | attached =>
      simp only [continue_step, hpc, Outcome.next.injEq] at hs
      simp only [Backups.step, hpc]
      have hend := @Inv.free_all _ _ _ _ _ st b s (clear_modified (st.segs s)) hinv
        (by rw [hpc]; rfl) rfl rfl
      exact hs ▸ hend
  | abort =>
      simp only [continue_step, hpc] at hs
      split_ifs at hs
      rw [Outcome.next.injEq] at hs
      simp only [Backups.step, hpc]
      have hend := @Inv.free_all _ _ _ _ _ st b s (abort_transaction (st.segs s)) hinv
        (by rw [hpc]; rfl) rfl rfl
      exact hs ▸ hend
  | no_transaction => simp [continue_step, hpc] at hs
  | running => simp [continue_step, hpc] at hs
  | validate caller needs_abort =>
      simp only [Backups.step, hpc]
      exact hquiet (by rw [hpc]; rfl) (by simp [hpc]) (by simp [hpc]) (by simp [hpc])
  | update caller needs_abort written =>
      simp only [Backups.step, hpc]
      exact hquiet (by rw [hpc]; rfl) (by simp [hpc]) (by simp [hpc]) (by simp [hpc])
  | attach_commit written =>
      simp only [Backups.step, hpc]
      exact hquiet (by rw [hpc]; rfl) (by simp [hpc]) (by simp [hpc]) (by simp [hpc])
  | attach_inevitable =>
      simp only [Backups.step, hpc]
      exact hquiet (by rw [hpc]; rfl) (by simp [hpc]) (by simp [hpc]) (by simp [hpc])
  | finish =>
      simp only [Backups.step, hpc]
      exact hquiet (by rw [hpc]; rfl) (by simp [hpc]) (by simp [hpc]) (by simp [hpc])

theorem Inv.step (hinv : Inv x) (hok : first_write x a = true) (hs : x.step a = .next x') :
    Inv x' := by
  obtain ⟨st, b⟩ := x
  obtain ⟨st', hst, hx⟩ := Outcome.bind_eq_next.mp hs
  rw [Outcome.next.injEq] at hx
  subst hx
  dsimp only at hst
  cases a with
  | write s obj =>
      simp only [C8.step] at hst
      split at hst
      · rename_i hrunning
        split_ifs at hst with hallocated hflag
        · rw [Outcome.next.injEq] at hst
          subst hst
          have hnew : obj ∉ (st.segs s).modified_old_objects := by
            unfold first_write at hok
            dsimp only at hok
            rw [hflag] at hok
            exact of_decide_eq_true hok
          dsimp only [Backups.step]
          rw [if_pos hflag]
          exact hinv.write hrunning hnew
        · rw [Outcome.next.injEq] at hst
          subst hst
          dsimp only [Backups.step]
          rw [if_neg hflag]
          exact hinv
      · cases hst
  | «continue» s => exact hinv.continue hst
  | start_transaction s => exact hinv.quiet (quiet_of_step hst (by simp) (by simp))
  | read s obj => exact hinv.quiet (quiet_of_step hst (by simp) (by simp))
  | store s obj data => exact hinv.quiet (quiet_of_step hst (by simp) (by simp))
  | allocate_old obj data => exact hinv.quiet (quiet_of_step hst (by simp) (by simp))
  | minor_collection s trace => exact hinv.quiet (quiet_of_step hst (by simp) (by simp))
  | validate s => exact hinv.quiet (quiet_of_step hst (by simp) (by simp))
  | become_inevitable s => exact hinv.quiet (quiet_of_step hst (by simp) (by simp))
  | commit_transaction s trace => exact hinv.quiet (quiet_of_step hst (by simp) (by simp))
  | abort_transaction s => exact hinv.quiet (quiet_of_step hst (by simp) (by simp))

omit [DecidableEq Seg] in
theorem Inv.initial (hinit : Initial x) : Inv x := by
  obtain ⟨st, b⟩ := x
  obtain ⟨⟨-, -, data, hsegs⟩, hb⟩ := hinit
  dsimp only at hsegs hb
  subst hb
  refine ⟨⟨nofun, nofun, nofun, nofun, List.nodup_nil, nofun⟩, fun s obj => ?_,
    fun s obj bk hpc => ?_, fun _ _ => rfl⟩
  · dsimp only
    rw [hsegs]
    exact Iff.rfl
  · dsimp only at hpc
    rw [hsegs] at hpc
    cases hpc

/-- The block is the `val` of one entry, of the segment that has called
`malloc`, and not freed, or it is in no entry and was freed once. -/
def Kept (x : Owned Seg Obj Data) (s : Seg) (k : ℕ) : Prop :=
  (∃ obj, ∀ s' obj', (x.backups.vals s').lookup obj' = some k ↔ s' = s ∧ obj' = obj) ∧
      x.backups.freed.count k = 0 ∨
    (∀ s' obj', (x.backups.vals s').lookup obj' ≠ some k) ∧ x.backups.freed.count k = 1

/-- **Backup copies are neither leaked nor freed twice**, in every run in which
`_stm_write_slowpath` is only called for objects that have no backup copy in
the segment. While the slow path runs its block is in a local variable. -/
theorem backups_kept (h : ReachableIf Initial step (fun x a => first_write x a = true) x) :
    (∀ s k, x.backups.malloced[k]? = some s → x.backups.bk_obj s ≠ some k → x.Kept s k) ∧
    ∀ s, (x.st.segs s).pc.slow = false → x.backups.bk_obj s = none := by
  have hinv : Inv x := ReachableIf.invariant (fun _ h => Inv.initial h)
    (fun _ _ _ hinv hok hs => hinv.step hok hs) h
  refine ⟨fun s k hk hlocal => ?_, hinv.idle⟩
  have hacc := hinv.accounted
  rcases hacc.covered k s hk with hfreed | hbk | ⟨obj, hobj⟩
  · refine Or.inr ⟨fun s' obj' h => (hacc.entry_owner s' obj' k h).2 hfreed, ?_⟩
    exact List.count_eq_one_of_mem hacc.freed_nodup hfreed
  · exact absurd hbk hlocal
  · refine Or.inl ⟨⟨obj, fun s' obj' => ⟨fun h => ?_, ?_⟩⟩, ?_⟩
    · have hs : s' = s := Option.some.inj ((hacc.entry_owner s' obj' k h).1.symm.trans hk)
      subst hs
      exact ⟨rfl, hacc.entry_unique s' obj' obj k h hobj⟩
    · rintro ⟨rfl, rfl⟩
      exact hobj
    · exact List.count_eq_zero_of_not_mem (hacc.entry_owner s obj k hobj).2

end

/-- The start of a program with one prebuilt object. -/
def oneOwned : Owned Bool Unit ℕ where
  st := oneObject
  backups := { malloced := [], bk_obj := fun _ => none, vals := fun _ => ∅, freed := [] }

theorem oneOwned_initial : oneOwned.Initial := ⟨oneObject_initial, rfl⟩

/-- A transaction writes the object and commits. -/
def write_and_commit : List (Act Bool Unit ℕ) :=
  [.start_transaction false, .continue false, .write false (), .continue false,
    .commit_transaction false id, .continue false, .continue false, .continue false,
    .continue false]

theorem backups_kept_commit : ∃ x : Owned Bool Unit ℕ,
    run step (fun x a => first_write x a = true) oneOwned write_and_commit = .next x ∧
      x.backups.malloced[0]? = some false ∧ x.Kept false 0 := by
  have h0 : ReachableIf Initial step (fun x a => first_write x a = true) oneOwned :=
    .start oneOwned_initial
  refine ⟨_, rfl, rfl, ?_⟩
  exact (backups_kept (h0.run write_and_commit rfl)).1 false 0 rfl nofun

/-- After a minor collection the object has its flag again. The second write
allocates a block that is not registered, and that nothing frees. -/
def write_twice : List (Act Bool Unit ℕ) :=
  [.start_transaction false, .continue false, .write false (), .continue false,
    .minor_collection false id, .write false (), .continue false,
    .commit_transaction false id, .continue false, .continue false, .continue false,
    .continue false]

theorem second_backup_leaks : ∃ x : Owned Bool Unit ℕ, Reachable Initial step x ∧
    (x.st.segs false).pc = .no_transaction ∧ x.backups.malloced[1]? = some false ∧
    x.backups.bk_obj false ≠ some 1 ∧ ¬ x.Kept false 1 := by
  have h0 : Reachable Initial step oneOwned := .start oneOwned_initial
  obtain ⟨x, hrun, hpc, hmalloc, hlocal, hcount, hvals⟩ : ∃ x : Owned Bool Unit ℕ,
      run step (fun _ _ => True) oneOwned write_twice = .next x ∧
        (x.st.segs false).pc = .no_transaction ∧ x.backups.malloced[1]? = some false ∧
        x.backups.bk_obj false ≠ some 1 ∧ x.backups.freed.count 1 = 0 ∧
        (x.backups.vals false).lookup () = none :=
    ⟨_, rfl, rfl, rfl, nofun, rfl, rfl⟩
  refine ⟨x, h0.run write_twice hrun, hpc, hmalloc, hlocal, ?_⟩
  rintro (⟨⟨obj, hobj⟩, -⟩ | ⟨-, hone⟩)
  · have hentry := (hobj false ()).mpr ⟨rfl, rfl⟩
    rw [hvals] at hentry
    cases hentry
  · rw [hcount] at hone
    cases hone

end Owned

end Stmgc.C8
