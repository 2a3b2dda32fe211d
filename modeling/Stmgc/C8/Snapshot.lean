/-
The snapshot of the objects that a transaction of `c8` works on.

[`version`] is what a prefix of the log says about an object, from the contents
it has come into being with. In a run without the copies of
[`copies_from_attached`], a segment that is not in the middle of a validation
offers the versions of the entries it has applied ([`VersionInv.settled`]), and
so an access finds the version of its moment ([`VersionInv.found`]).
-/
import Stmgc.C8.ReadSet

namespace Stmgc.C8

open Stmgc.Lib

/-! ## Versions -/

section Version

variable {Seg Obj Data : Type} [DecidableEq Obj]

/-- The object after the first `k` entries. -/
def version (base : Obj → Data) (log : List (stm_commit_log_entry_s Seg Obj Data)) (k : ℕ)
    (obj : Obj) : object_s Data :=
  match latest log k obj with
  | some e => e.contents obj
  | none => { write_barrier := true, data := base obj }

variable {base : Obj → Data} {log : List (stm_commit_log_entry_s Seg Obj Data)}
  {e : stm_commit_log_entry_s Seg Obj Data} {k : ℕ} {obj : Obj}

theorem latest_eq_none (h : ∀ e ∈ log, obj ∉ e.written) : latest log k obj = none := by
  unfold latest
  rw [List.find?_eq_none]
  intro e he hmem
  rw [List.mem_reverse] at he
  exact h e (List.mem_of_mem_take he) (of_decide_eq_true hmem)

theorem version_of_unlisted (h : ∀ e ∈ log, obj ∉ e.written) :
    version base log k obj = ⟨true, base obj⟩ := by
  unfold version
  rw [latest_eq_none h]

theorem version_succ (he : log[k]? = some e) :
    version base log (k + 1) obj =
      if obj ∈ e.written then e.contents obj else version base log k obj := by
  unfold version
  rw [latest_succ he]
  split_ifs <;> rfl

theorem version_append (hk : k ≤ log.length) :
    version base (log ++ [e]) k obj = version base log k obj := by
  unfold version
  rw [latest_append hk]

/-- Entries that do not list the object leave its version. -/
theorem version_of_range {i j : ℕ} (h : Unlisted log i j obj) (hij : i ≤ j) :
    version base log j obj = version base log i obj := by
  induction j, hij using Nat.le_induction with
  | base => rfl
  | succ j hij ih =>
      have ih' := ih fun k e hi hk => h k e hi (Nat.lt_succ_of_lt hk)
      cases he : log[j]? with
      | some e => rw [version_succ he, if_neg (h j e hij (Nat.lt_succ_self j) he), ih']
      | none =>
          have hlen := List.getElem?_eq_none_iff.mp he
          have htake : latest log (j + 1) obj = latest log j obj := by
            unfold latest
            rw [List.take_of_length_le hlen, List.take_of_length_le (by omega)]
          rw [← ih']
          unfold version
          rw [htake]

end Version

/-! ## What a step records -/

section Record

variable {Seg Obj Data : Type} [DecidableEq Seg] [DecidableEq Obj]

/-- A step of the machine with what is known after it, but for the entries
validated at a start. -/
inductive Recorded (t : Tracked Seg Obj Data) (v : Seg → ℕ) : Tracked Seg Obj Data → Prop where
  | stays : Recorded t v { t with validated_at_start := v }
  | starts (s : Seg) : (t.st.segs s).pc = .no_transaction →
      (t.st.segs s).modified_old_objects.keys = [] →
      (t.st.segs s).objects_pointing_to_nursery = [] →
      Recorded t v { t with
        st := t.st.set s (start_transaction (t.st.segs s))
        validated_at_start := v
        accessed := Function.update t.accessed s [] }
  | moves (s : Seg) (obj : Option Obj) (seg : Segment Obj Data) : Moves t.st s obj seg →
      (∀ o ∈ obj, t.st.allocated o = true) →
      Recorded t v { t with
        st := t.st.set s seg
        validated_at_start := v
        accessed :=
          Function.update t.accessed s (t.accessed s ++ observed (t.st.segs s) obj) }
  | attaches (s : Seg) (written : List Obj) : (t.st.segs s).pc = .attach_commit written →
      t.st.log.length ≤ (t.st.segs s).last_commit_log_entry →
      Recorded t v { t with
        st := attach_entry t.st s written
        validated_at_start := v
        committed := t.committed ++ [⟨t.validated_at_start s, t.accessed s⟩] }
  | turns_inevitable (s : Seg) : (t.st.segs s).pc = .attach_inevitable →
      t.st.log.length ≤ (t.st.segs s).last_commit_log_entry →
      Recorded t v { t with
        st := ({ t.st with tail_inevitable := true }).set s { t.st.segs s with
          transaction_state := .TS_INEVITABLE
          pc := .running }
        validated_at_start := v }
  | allocates (obj : Obj) (data : Data) : t.st.allocated obj ≠ true →
      Recorded t v { t with
        st := { t.st with
          allocated := Function.update t.st.allocated obj true
          segs := fun s => { t.st.segs s with
            page := Function.update (t.st.segs s).page obj
              { write_barrier := true, data := data } } }
        base := Function.update t.base obj data
        validated_at_start := v }

theorem accessed_after_ordinary {st : St Seg Obj Data} {a : Act Seg Obj Data}
    (ha : a.ordinary = true) (accessed : Seg → List (Access Obj Data)) :
    accessed_after st a accessed =
      match accesses st a with
      | some (s, obj) => Function.update accessed s (accessed s ++ [observe (st.segs s) obj])
      | none => accessed := by
  cases a with
  | start_transaction s => cases ha
  | _ => rfl

omit [DecidableEq Seg] [DecidableEq Obj] in
theorem attached_of_log {st st' : St Seg Obj Data} (hlog : st'.log = st.log)
    (a : Act Seg Obj Data) : attached st st' a = none := by
  cases a with
  | «continue» s =>
      unfold attached
      dsimp only
      rw [hlog, if_neg (lt_irrefl _)]
  | _ => rfl

/-- Only objects that exist are accessed. -/
theorem allocated_of_accesses {st st' : St Seg Obj Data} {a : Act Seg Obj Data}
    (hexists : reads_existing st a = true) (hs : step st a = .next st') {s : Seg} {obj : Obj}
    (hacc : accesses st a = some (s, obj)) : st.allocated obj = true := by
  cases a with
  | read s' o =>
      rw [accesses, Option.some.injEq, Prod.mk.injEq] at hacc
      exact hacc.2 ▸ hexists
  | write s' o =>
      rw [accesses] at hacc
      split at hacc
      · rw [Option.some.injEq, Prod.mk.injEq] at hacc
        rw [← hacc.2]
        by_contra hn
        cases hpc : (st.segs s').pc <;> simp [step, hpc, hn] at hs
      · cases hacc
  | _ => cases hacc

/-- Every step of the machine is recorded in one of these ways. -/
theorem recorded_of_step {t t' : Tracked Seg Obj Data} {a : Act Seg Obj Data}
    (ht : t.step a = .next t') : ∃ v, Recorded t v t' := by
  refine ⟨t'.validated_at_start, ?_⟩
  obtain ⟨hexists, hs, ht'⟩ := tracked_step_eq_next.mp ht
  have hbase : (∀ obj data, a ≠ .allocate_old obj data) → t'.base = t.base := by
    intro ha
    rw [ht']
    cases a with
    | allocate_old obj data => exact absurd rfl (ha obj data)
    | _ => rfl
  have hordinary : a.ordinary = true → ∀ obj data, a ≠ .allocate_old obj data := by
    rintro ha obj data rfl
    cases ha
  have hcommitted : t'.st.log = t.st.log → t'.committed = t.committed := by
    intro hlog
    rw [ht']
    unfold Tracked.record
    dsimp only
    rw [attached_of_log hlog]
  have haccessed : t'.accessed = accessed_after t.st a t.accessed := by
    rw [ht']
    rfl
  have hcommits : ∀ s, attached t.st t'.st a = some s →
      t'.committed = t.committed ++ [⟨t.validated_at_start s, t.accessed s⟩] := by
    intro s hs
    rw [ht']
    unfold Tracked.record
    dsimp only
    rw [hs]
  have hallocated : ∀ obj data, a = .allocate_old obj data →
      t'.base = Function.update t.base obj data := by
    rintro obj data rfl
    rw [ht']
    rfl
  obtain ⟨st', base', v, accessed', committed'⟩ := t'
  dsimp only at hs hbase hcommitted haccessed hcommits hallocated ⊢
  cases step_cases hs with
  | stays hnone hord =>
      rw [accessed_after_ordinary hord, hnone] at haccessed
      rw [hbase (hordinary hord), hcommitted rfl, haccessed]
      exact .stays
  | starts s ha hpc hkeys hlist =>
      subst ha
      rw [hbase (by simp), hcommitted rfl, haccessed]
      exact .starts s hpc hkeys hlist
  | moves s obj seg hm hacc hord =>
      have hupdate : accessed' =
          Function.update t.accessed s (t.accessed s ++ observed (t.st.segs s) obj) := by
        rw [haccessed, accessed_after_ordinary hord, hacc]
        cases obj with
        | some o => rfl
        | none =>
            change t.accessed = Function.update t.accessed s (t.accessed s ++ [])
            rw [List.append_nil, Function.update_eq_self]
      rw [hbase (hordinary hord), hcommitted rfl, hupdate]
      refine .moves s obj seg hm fun o ho => ?_
      apply allocated_of_accesses hexists hs (s := s)
      rw [hacc, Option.mem_def.mp ho]
      rfl
  | attaches s written ha hpc hlast =>
      subst ha
      rw [hbase (by simp), haccessed]
      have hlen : t.st.log.length < (attach_entry t.st s written).log.length := by
        unfold attach_entry
        dsimp only
        rw [List.length_append]
        exact Nat.lt_succ_self _
      rw [hcommits s (if_pos hlen)]
      exact .attaches s written hpc hlast
  | turns_inevitable s ha hpc hlast =>
      subst ha
      rw [hbase (by simp), haccessed, hcommitted rfl]
      exact .turns_inevitable s hpc hlast
  | allocates obj data ha hobj =>
      rw [hallocated obj data ha, hcommitted rfl, haccessed, ha]
      exact .allocates obj data hobj

end Record

/-! ## Every run -/

section Every

variable {Seg Obj Data : Type}

/-- The transactions of the log. None has accessed an object that an entry
lists between what had been applied at the access and its own entry. -/
structure CommittedInv (log : List (stm_commit_log_entry_s Seg Obj Data))
    (committed : List (Committed Obj Data)) : Prop where
  length : committed.length = log.length
  written : ∀ (k : ℕ) e c, log[k]? = some e → committed[k]? = some c →
    ∀ o ∈ e.written, ∃ x ∈ c.accesses, x.obj = o
  unlisted : ∀ (k : ℕ) c, committed[k]? = some c → ∀ x ∈ c.accesses,
    x.applied ≤ k ∧ Unlisted log x.applied k x.obj

theorem getElem?_concat_some {α : Type} {l : List α} {a b : α} {k : ℕ}
    (h : (l ++ [a])[k]? = some b) :
    (k < l.length ∧ l[k]? = some b) ∨ (k = l.length ∧ b = a) := by
  by_cases hk : k < l.length
  · rw [List.getElem?_append_left hk] at h
    exact .inl ⟨hk, h⟩
  · have hlen := (List.getElem?_eq_some_iff.mp h).1
    rw [List.length_append, List.length_singleton] at hlen
    have heq : k = l.length := by omega
    rw [heq, List.getElem?_concat_length, Option.some.injEq] at h
    exact .inr ⟨heq, h.symm⟩

variable {log : List (stm_commit_log_entry_s Seg Obj Data)} {committed : List (Committed Obj Data)}

theorem CommittedInv.attach (h : CommittedInv log committed)
    {e : stm_commit_log_entry_s Seg Obj Data} {c : Committed Obj Data}
    (hwritten : ∀ o ∈ e.written, ∃ x ∈ c.accesses, x.obj = o)
    (happlied : ∀ x ∈ c.accesses, x.applied ≤ log.length)
    (hunlisted : ∀ x ∈ c.accesses, Unlisted log x.applied log.length x.obj) :
    CommittedInv (log ++ [e]) (committed ++ [c]) := by
  refine ⟨?_, ?_, ?_⟩
  · rw [List.length_append, List.length_append, h.length]
    rfl
  · intro k e' c' he hc
    rcases getElem?_concat_some he with ⟨hk, he⟩ | ⟨rfl, rfl⟩
    · rcases getElem?_concat_some hc with ⟨-, hc⟩ | ⟨rfl, -⟩
      · exact h.written k e' c' he hc
      · exact absurd hk (Nat.not_lt.mpr (Nat.le_of_eq h.length.symm))
    · rcases getElem?_concat_some hc with ⟨hk, -⟩ | ⟨-, rfl⟩
      · exact absurd hk (Nat.not_lt.mpr (Nat.le_of_eq h.length))
      · exact hwritten
  · intro k c' hc x hx
    rcases getElem?_concat_some hc with ⟨hk, hc⟩ | ⟨rfl, rfl⟩
    · rw [h.length] at hk
      exact (h.unlisted k c' hc x hx).imp_right fun hu => hu.append (Nat.le_of_lt hk) e
    · rw [h.length]
      exact ⟨happlied x hx, (hunlisted x hx).append le_rfl e⟩

variable [DecidableEq Seg] [DecidableEq Obj] {t t' : Tracked Seg Obj Data}
  {a : Act Seg Obj Data}

structure TrackedInv (t : Tracked Seg Obj Data) : Prop where
  tail : TailInv t.st
  reads : ∀ s, ReadSet t.st.log (t.st.segs s) (t.accessed s)
  committed : CommittedInv t.st.log t.committed

omit [DecidableEq Seg] [DecidableEq Obj] in
theorem TrackedInv.init (h : t.Initial) : TrackedInv t := by
  obtain ⟨hinit, -, hacc, hcommitted⟩ := h
  have htail : TailInv t.st := .init hinit
  obtain ⟨hlog, -, data, hsegs⟩ := hinit
  refine ⟨htail, fun s => ?_, ?_⟩
  · rw [hsegs, hacc]
    exact ⟨nofun, nofun, fun o ho => absurd ho (AList.notMem_empty o), nofun, nofun, nofun,
      fun _ => nofun⟩
  · rw [hlog, hcommitted]
    exact ⟨rfl, nofun, nofun⟩

omit [DecidableEq Obj] in
/-- A step that changes one segment and its accesses. -/
theorem reads_set (h : ∀ s, ReadSet t.st.log (t.st.segs s) (t.accessed s)) {s : Seg}
    {seg : Segment Obj Data} {acc : List (Access Obj Data)} (hs : ReadSet t.st.log seg acc)
    (u : Seg) :
    ReadSet t.st.log ((t.st.set s seg).segs u) (Function.update t.accessed s acc u) := by
  unfold St.set
  dsimp only
  by_cases hus : u = s
  · rw [hus, Function.update_self, Function.update_self]
    exact hs
  · rw [Function.update_of_ne hus, Function.update_of_ne hus]
    exact h u

theorem TrackedInv.step (h : TrackedInv t) (ht : t.step a = .next t') : TrackedInv t' := by
  have htail : TailInv t'.st := h.tail.step (tracked_step_eq_next.mp ht).2.1
  refine ⟨htail, ?_, ?_⟩
  · obtain ⟨v, hr⟩ := recorded_of_step ht
    cases hr with
    | stays => exact h.reads
    | starts s hpc hkeys hlist => exact reads_set h.reads (.start_transaction hkeys)
    | moves s obj seg hm hexists => exact reads_set h.reads ((h.reads s).moves hm)
    | attaches s written hpc hlast =>
        intro u
        have hu := (h.reads u).longer (h.tail.segs u).last_le
          ⟨s, written, (t.st.segs s).page⟩
        unfold attach_entry
        dsimp only
        by_cases hus : u = s
        · subst hus
          rw [Function.update_self]
          exact hu.ended rfl rfl rfl (fun _ => id) nofun rfl rfl rfl
        · rw [Function.update_of_ne hus]
          exact hu
    | turns_inevitable s hpc hlast =>
        have hs : ReadSet t.st.log { t.st.segs s with
            transaction_state := .TS_INEVITABLE
            pc := .running } (t.accessed s) :=
          (h.reads s).goto rfl rfl rfl (h.reads s).modified nofun nofun rfl
            (fun _ => by rw [hpc]; rfl)
        intro u
        have hu := reads_set h.reads (s := s) hs u
        rw [Function.update_eq_self] at hu
        exact hu
    | allocates obj data hobj =>
        intro u
        have hu := h.reads u
        exact ⟨hu.marked, hu.applied, hu.modified, hu.slowpath, hu.written, hu.pending,
          hu.unlisted⟩
  · obtain ⟨v, hr⟩ := recorded_of_step ht
    cases hr with
    | attaches s written hpc hlast =>
        have hs := h.reads s
        have heq : (t.st.segs s).last_commit_log_entry = t.st.log.length :=
          le_antisymm (h.tail.segs s).last_le hlast
        apply h.committed.attach
        · exact hs.written written (by rw [hpc]; rfl)
        · exact heq ▸ hs.applied
        · exact heq ▸ hs.unlisted (by rw [hpc]; rfl)
    | _ => exact h.committed

/-! ## Runs without stale copies -/

/-- No validation copies from a segment that has attached its entry and not
cleared its modified objects. -/
def clean (t : Tracked Seg Obj Data) (a : Act Seg Obj Data) : Prop :=
  copies_from_attached t.st a = false

instance (t : Tracked Seg Obj Data) (a : Act Seg Obj Data) : Decidable (clean t a) :=
  inferInstanceAs (Decidable (copies_from_attached t.st a = false))

/-- Outside of a validation, and of the last part of a commit. -/
def Pc.settled : Pc Obj Data → Bool
  | .running | .write_slowpath .. | .attach_commit _ | .attach_inevitable | .abort => true
  | _ => false

/-- What a segment offers is a version, and what has been found is one. -/
structure VersionInv (t : Tracked Seg Obj Data) : Prop where
  inv : Inv t.st
  base : ∀ s o, (∀ e ∈ t.st.log, o ∉ e.written) →
    current (t.st.segs s) o = { write_barrier := true, data := t.base o }
  settled : ∀ s, (t.st.segs s).pc.settled = true → ∀ o, current (t.st.segs s) o =
    version t.base t.st.log (t.st.segs s).last_commit_log_entry o
  found : ∀ s, ∀ x ∈ t.accessed s, t.st.allocated x.obj = true ∧ (x.own = false →
    x.found = version t.base t.st.log x.applied x.obj)
  committed : ∀ c ∈ t.committed, ∀ x ∈ c.accesses, t.st.allocated x.obj = true ∧
    (x.own = false → x.found = version t.base t.st.log x.applied x.obj)

end Every

end Stmgc.C8
