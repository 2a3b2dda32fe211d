/-
The read markers, and what they say about the running transaction.

Next to the machine of `Abort` we keep for each segment the objects on which
its transaction has executed `stm_read`, in the program or in the write
barrier; an object that is freed is taken off. The read markers are bytes that
belong to addresses. They are never cleared at the end of a transaction, and
the version is a byte that wraps around. What the program promises is to call
`stm_read` on objects that its transaction sees.
-/
import Stmgc.C7.TransactionFate

namespace Stmgc.C7

open Stmgc.Lib

/-! ## Reads -/

/-- The transaction of segment `i` sees the object. -/
def Kind.seen_by (i : ℕ) : Kind → Bool
  | .old => true
  | .young j | .overflow j => decide (j = i)
  | .free | .dead => false

/-- The `stm_read` of a step: the segment and the object. -/
def SysAct.reads (s : Sys) : SysAct → Option (ℕ × ℕ)
  | .stm_read i obj => some (i, obj)
  | .stm_write i obj _ => if stm_write_reads s.st i obj then some (i, obj) else none
  | .stm_write_card i obj _ _ => if stm_write_card_reads s.st i obj then some (i, obj) else none
  | _ => none

/-- The objects that a step reads in segment `i`. -/
def reads_of (s : Sys) (a : SysAct) (i : ℕ) : List ℕ :=
  match a.reads s with
  | some (j, obj) => if j = i then [obj] else []
  | none => []

/-- The segment in which a step starts a transaction. -/
def SysAct.starts : SysAct → Option ℕ
  | .start_transaction i _ => some i
  | _ => none

structure Tracked where
  sys : Sys
  has_read : ℕ → List ℕ

/-- What the transaction of segment `i` has read after a step. -/
def reads_after (s s' : Sys) (a : SysAct) (has_read : List ℕ) (i : ℕ) : List ℕ :=
  let before := if a.starts = some i then [] else has_read
  (reads_of s a i ++ before).filter (fun o => s'.st.kind o ≠ .free)

def may_read (s : Sys) : SysAct → Prop
  | .stm_read i obj => (s.st.kind obj).seen_by i = true
  | _ => True

instance (s : Sys) (a : SysAct) : Decidable (may_read s a) := by
  unfold may_read
  split <;> infer_instance

namespace Tracked

def step (NB_SEGMENTS : ℕ) (t : Tracked) (a : SysAct) : Outcome Tracked :=
  guarded (may_read t.sys a) <|
  (sys_step NB_SEGMENTS t.sys a).bind fun sys =>
    .next { sys := sys, has_read := fun i => reads_after t.sys sys a (t.has_read i) i }

/-- After the setup. -/
structure Initial (NB_SEGMENTS : ℕ) (t : Tracked) : Prop where
  sys : t.sys.Initial NB_SEGMENTS
  has_read : ∀ i, t.has_read i = []

theorem step_eq_next {NB_SEGMENTS : ℕ} {t t' : Tracked} {a : SysAct}
    (h : t.step NB_SEGMENTS a = .next t') : may_read t.sys a
      ∧ sys_step NB_SEGMENTS t.sys a = .next t'.sys
      ∧ ∀ i, t'.has_read i = reads_after t.sys t'.sys a (t.has_read i) i := by
  obtain ⟨hmay, h⟩ := guarded_eq_next.mp h
  obtain ⟨sys, hsys, h⟩ := Outcome.bind_eq_next.mp h
  cases h
  exact ⟨hmay, hsys, fun _ => rfl⟩

end Tracked

section

variable {NB_SEGMENTS : ℕ} {s s' : Sys} {a : SysAct} {i j o x : ℕ} {reads : List ℕ}

/-! ## The invariant of a running transaction -/

/-- The read markers with the current version are those of the objects that
the transaction has read. -/
structure ReadInv (s : Sys) (reads : List ℕ) (i : ℕ) : Prop where
  version : 0 < (s.priv i).transaction_read_version
  seen : ∀ o ∈ reads, (s.st.kind o).seen_by i = true
  marker : ∀ x, (s.priv i).read_markers x = (s.priv i).transaction_read_version ↔
    ∃ o ∈ reads, get_write_lock_idx o = x

theorem ne_free_of_seen {k : Kind} (h : k.seen_by i = true) : k ≠ .free := by
  rintro rfl
  cases h

/-- The addresses of two objects have different read markers. -/
theorem eq_of_same_marker {cards : Bool} {st : St} (h : Inv NB_SEGMENTS cards st) {o o' : ℕ}
    (ho : st.kind o ≠ .free) (ho' : st.kind o' ≠ .free)
    (heq : get_write_lock_idx o = get_write_lock_idx o') : o = o' := by
  by_contra hne
  refine lock_of_apart (h.disjoint ho ho' hne) (lock_of_base o _) ?_
  rw [heq]
  exact lock_of_base o' _

/-- What a step may do to the read markers of a running transaction: the
objects that it reads are marked, and the marker of an address is cleared if,
and only if, its object is freed. -/
structure MarkStep (s s' : Sys) (i : ℕ) (read : List ℕ) : Prop where
  active : (s'.priv i).is_active = true → (s.priv i).is_active = true
  version : (s'.priv i).transaction_read_version = (s.priv i).transaction_read_version
  markers : ∀ x, ((s'.priv i).read_markers x = if x ∈ read.map get_write_lock_idx then
      (s.priv i).transaction_read_version else (s.priv i).read_markers x)
    ∨ (s'.priv i).read_markers x = 0
      ∧ ∃ o, s.st.kind o ≠ .free ∧ s'.st.kind o = .free ∧ get_write_lock_idx o = x
  freed : ∀ o, (s.st.kind o).seen_by i = true → s'.st.kind o = .free →
    (s'.priv i).read_markers (get_write_lock_idx o) = 0
  seen : ∀ o, (s.st.kind o).seen_by i = true →
    s'.st.kind o = .free ∨ (s'.st.kind o).seen_by i = true
  read : ∀ o ∈ read, (s.st.kind o).seen_by i = true

theorem ReadInv.step {cards : Bool} {read : List ℕ} (h : ReadInv s reads i)
    (hinv : Inv NB_SEGMENTS cards s.st) (hs : MarkStep s s' i read) :
    ReadInv s' ((read ++ reads).filter (fun o => s'.st.kind o ≠ .free)) i := by
  have hall : ∀ o ∈ read ++ reads, (s.st.kind o).seen_by i = true := by
    intro o ho
    rcases List.mem_append.mp ho with ho | ho
    · exact hs.read o ho
    · exact h.seen o ho
  have hbefore : ∀ x, (if x ∈ read.map get_write_lock_idx then
      (s.priv i).transaction_read_version else (s.priv i).read_markers x)
        = (s.priv i).transaction_read_version ↔ ∃ o ∈ read ++ reads, get_write_lock_idx o = x := by
    intro x
    simp only [List.mem_append, or_and_right, exists_or]
    split
    · rename_i hx
      rw [List.mem_map] at hx
      exact ⟨fun _ => .inl hx, fun _ => rfl⟩
    · rename_i hx
      rw [List.mem_map] at hx
      rw [h.marker]
      exact ⟨.inr, fun hor => hor.resolve_left hx⟩
  have hmem : ∀ o, o ∈ (read ++ reads).filter (fun o => s'.st.kind o ≠ .free) ↔
      o ∈ read ++ reads ∧ s'.st.kind o ≠ .free := by
    intro o
    rw [List.mem_filter, decide_eq_true_eq]
  have hpos := h.version
  refine ⟨hs.version.symm ▸ hpos, fun o ho => ?_, fun x => ?_⟩
  · obtain ⟨ho, hk⟩ := (hmem o).mp ho
    exact (hs.seen o (hall o ho)).resolve_left hk
  · simp only [hmem, and_assoc]
    rw [hs.version]
    constructor
    · intro hx
      rcases hs.markers x with heq | ⟨hzero, -⟩
      · rw [heq, hbefore] at hx
        obtain ⟨o, ho, rfl⟩ := hx
        refine ⟨o, ho, fun hk => ?_, rfl⟩
        have hcleared := hs.freed o (hall o ho) hk
        have hmarked := (hbefore (get_write_lock_idx o)).mpr ⟨o, ho, rfl⟩
        rw [hcleared, hmarked] at heq
        omega
      · omega
    · rintro ⟨o, ho, hk, rfl⟩
      rcases hs.markers (get_write_lock_idx o) with heq | ⟨-, o', ho', hfreed, hsame⟩
      · rw [heq, hbefore]
        exact ⟨o, ho, rfl⟩
      · -- the object that is freed is the only one at this address
        have hoo := eq_of_same_marker hinv ho' (ne_free_of_seen (hall o ho)) hsame
        rw [hoo] at hfreed
        exact absurd hfreed hk

/-! ## The steps of the machine -/

/-- Marks the steps that free no object seen by segment `i`, and do not end its
transaction. -/
def Act.spares (st : St) (b : Act) (i : ℕ) : Prop :=
  (∀ visited, b ≠ .major_collection visited)
    ∧ (∀ val, b = .collect i val → is_traced (st.segs i) = false)
    ∧ b ≠ .abort_data_structures i ∧ b ≠ .commit_transaction i ∧ b ≠ .reset_modified i

theorem seen_of_spares {cards : Bool} {st st' : St} {b : Act} (h : Inv NB_SEGMENTS cards st)
    (hs : C7.step NB_SEGMENTS st b = .next st') (hb : b.spares st i)
    (ho : (st.kind o).seen_by i = true) : (st'.kind o).seen_by i = true := by
  obtain ⟨hmajor, hcollect, habort, hcommit, hreset⟩ := hb
  have hfate := fate h (ne_free_of_seen ho) hs
  generalize st'.kind o = k at hfate
  cases hfate with
  | same => exact ho
  | aged j hk =>
      rw [hk] at ho
      exact ho
  | committed j hk => rfl
  | lost j hk hb =>
      rw [hk] at ho
      obtain rfl : j = i := of_decide_eq_true ho
      rcases hb with rfl | rfl
      · exact absurd rfl hcommit
      · exact absurd rfl hreset
  | thrown_away j hmem hb =>
      rw [(h.lists j).young o hmem] at ho
      obtain rfl : j = i := of_decide_eq_true ho
      rcases hb with ⟨⟨val, rfl⟩, ht⟩ | rfl
      · rw [hcollect val rfl] at ht
        cases ht
      · exact absurd rfl habort
  | swept visited hb _ => exact absurd hb (hmajor visited)

/-- A step that leaves the read markers alone. -/
theorem MarkStep.quiet
    (hactive : (s'.priv i).is_active = true → (s.priv i).is_active = true)
    (hversion : (s'.priv i).transaction_read_version = (s.priv i).transaction_read_version)
    (hmarkers : (s'.priv i).read_markers = (s.priv i).read_markers)
    (hseen : ∀ o, (s.st.kind o).seen_by i = true → (s'.st.kind o).seen_by i = true) :
    MarkStep s s' i [] where
  active := hactive
  version := hversion
  markers x := .inl (by rw [hmarkers]; simp)
  freed o ho hk := absurd hk (ne_free_of_seen (hseen o ho))
  seen o ho := .inr (hseen o ho)
  read := by nofun

theorem MarkStep.read_barrier {obj : ℕ} (ho : (s.st.kind obj).seen_by i = true)
    (hactive : (s'.priv i).is_active = true → (s.priv i).is_active = true)
    (hversion : (s'.priv i).transaction_read_version = (s.priv i).transaction_read_version)
    (hmarkers : (s'.priv i).read_markers = (stm_read (s.priv i) obj).read_markers)
    (hkind : s'.st.kind = s.st.kind) : MarkStep s s' i [obj] where
  active := hactive
  version := hversion
  markers x := by
    refine .inl ?_
    rw [hmarkers]
    show Function.update _ _ _ x = _
    rw [Function.update_apply]
    simp
  freed o ho hk := by
    rw [hkind] at hk
    exact absurd hk (ne_free_of_seen ho)
  seen o ho := .inr (by rw [hkind]; exact ho)
  read o hmem := by
    rw [List.mem_singleton.mp hmem]
    exact ho

/-- The fields that [`MarkStep`] is about are the same. -/
structure SameMarkers (p p' : Priv) : Prop where
  active : p'.is_active = true → p.is_active = true
  version : p'.transaction_read_version = p.transaction_read_version
  markers : p'.read_markers = p.read_markers

theorem SameMarkers.rfl {p : Priv} : SameMarkers p p := ⟨id, Eq.refl _, Eq.refl _⟩

theorem SameMarkers.set {p : Priv} (st : St) (hp : i = j → SameMarkers (s.priv i) p) :
    SameMarkers (s.priv i) (({ s with st := st }.set j p).priv i) := by
  rw [priv_set]
  split
  · rename_i hij
    exact hp hij
  · exact .rfl

/-- A step of the machine of `Transaction` that leaves the read markers
alone. -/
theorem MarkStep.of_lift {cards : Bool} {b : Act} {p : Priv} (h : Inv NB_SEGMENTS cards s.st)
    (hs : s.lift NB_SEGMENTS b j p = .next s') (hb : b.spares s.st i)
    (hp : i = j → SameMarkers (s.priv i) p) : MarkStep s s' i [] := by
  obtain ⟨st, hst, hs⟩ := Outcome.bind_eq_next.mp hs
  cases hs
  have hsame : SameMarkers (s.priv i) (({ s with st := st }.set j p).priv i) := .set st hp
  exact .quiet hsame.active hsame.version hsame.markers fun o ho => seen_of_spares h hst hb ho

theorem MarkStep.of_set {p : Priv} (hp : i = j → SameMarkers (s.priv i) p) :
    MarkStep s (s.set j p) i [] := by
  have hsame : SameMarkers (s.priv i) ((s.set j p).priv i) := .set s.st hp
  exact .quiet hsame.active hsame.version hsame.markers fun o ho => ho

/-- A write barrier, which may do a read barrier. -/
theorem MarkStep.of_write_barrier {cards reads : Bool} {b : Act} {obj : ℕ}
    {marker : Option (ℕ × ℕ)} (h : Inv NB_SEGMENTS cards s.st)
    (hs : s.lift NB_SEGMENTS b j
      (if reads then record_write (s.priv j) obj marker else s.priv j) = .next s')
    (hb : ∀ i, b.spares s.st i) (hkind : ∀ st, C7.step NB_SEGMENTS s.st b = .next st →
      st.kind = s.st.kind ∧ (reads = true → s.st.kind obj = .old)) :
    MarkStep s s' i (match if reads then some (j, obj) else none with
      | some (k, obj) => if k = i then [obj] else []
      | none => []) := by
  cases reads with
  | false => exact .of_lift h hs (hb i) fun hij => hij ▸ .rfl
  | true =>
      obtain ⟨st, hst, hs⟩ := Outcome.bind_eq_next.mp hs
      cases hs
      obtain ⟨hk, hold⟩ := hkind st hst
      simp only [↓reduceIte]
      by_cases hij : j = i
      · subst hij
        rw [if_pos rfl]
        have hpriv := priv_set s j j (record_write (s.priv j) obj marker) st
        rw [if_pos rfl] at hpriv
        refine .read_barrier (by rw [hold rfl]; rfl) ?_ ?_ ?_ hk
        · rw [hpriv]
          exact id
        · rw [hpriv]
          rfl
        · rw [hpriv]
          rfl
      · rw [if_neg hij]
        have hsame : SameMarkers (s.priv i)
            (({ s with st := st }.set j (record_write (s.priv j) obj marker)).priv i) :=
          .set st fun h => absurd h.symm hij
        refine .quiet hsame.active hsame.version hsame.markers fun o ho => ?_
        rw [← hk] at ho
        exact ho

/-- The end of a minor collection, and nothing before it. -/
theorem MarkStep.of_collect {cards : Bool} {val : ℕ → UInt8} (h : Inv NB_SEGMENTS cards s.st)
    (hs : s.lift NB_SEGMENTS (.collect j val) j (if is_traced (s.st.segs j) then
      end_minor_collection (s.priv j) (s.st.segs j).young_outside_nursery
      else s.priv j) = .next s') : MarkStep s s' i [] := by
  by_cases ht : is_traced (s.st.segs j) = true
  swap
  · refine .of_lift h hs ⟨nofun, ?_, nofun, nofun, nofun⟩ fun hij => ?_
    · rintro val heq
      cases heq
      exact Bool.not_eq_true _ ▸ ht
    · rw [if_neg ht, hij]
      exact .rfl
  by_cases hij : i = j
  swap
  · refine .of_lift h hs ⟨nofun, ?_, nofun, nofun, nofun⟩ fun heq => absurd heq hij
    rintro val heq
    cases heq
    exact absurd rfl hij
  subst hij
  obtain ⟨st, hst, hs⟩ := Outcome.bind_eq_next.mp hs
  cases hs
  have hkind : st.kind = fun o => if o ∈ (s.st.segs i).young_outside_nursery then .free
      else s.st.kind o := kind_of_is_traced ht (guarded_eq_next.mp hst).2
  have hpriv := priv_set s i i (if is_traced (s.st.segs i) then
      end_minor_collection (s.priv i) (s.st.segs i).young_outside_nursery else s.priv i) st
  rw [if_pos rfl, if_pos ht] at hpriv
  have hmarkers : ∀ x, (end_minor_collection (s.priv i)
      (s.st.segs i).young_outside_nursery).read_markers x
        = if x ∈ (s.st.segs i).young_outside_nursery.map get_write_lock_idx then 0
          else (s.priv i).read_markers x := fun _ => rfl
  refine ⟨?_, ?_, fun x => ?_, fun o ho hk => ?_, fun o ho => ?_, by nofun⟩
  · rw [if_pos ht, hpriv]
    exact id
  · rw [if_pos ht, hpriv]
    rfl
  · rw [if_pos ht, hpriv, hmarkers]
    split
    · rename_i hx
      obtain ⟨o, ho, rfl⟩ := List.mem_map.mp hx
      refine .inr ⟨rfl, o, ?_, ?_, rfl⟩
      · rw [(h.lists i).young o ho]
        nofun
      · show st.kind o = .free
        rw [hkind]
        exact if_pos ho
    · exact .inl (by simp)
  · rw [if_pos ht, hpriv, hmarkers, if_pos]
    apply List.mem_map_of_mem
    by_contra hn
    replace hk : st.kind o = .free := hk
    rw [hkind] at hk
    dsimp only at hk
    rw [if_neg hn] at hk
    exact ne_free_of_seen ho hk
  · show st.kind o = .free ∨ (st.kind o).seen_by i = true
    rw [hkind]
    dsimp only
    split
    · exact .inl rfl
    · exact .inr ho

/-- A major collection clears the markers of what it frees, in all segments. -/
theorem MarkStep.of_major_collection {cards : Bool} {visited : List ℕ} {st : St}
    (h : Inv NB_SEGMENTS cards s.st) (hmay : may_collect NB_SEGMENTS s.st visited)
    (hs : C7.major_collection_now NB_SEGMENTS s.st visited = some st) :
    MarkStep s { s with st := st, priv := fun i => end_major_collection s.st visited (s.priv i) }
      i [] := by
  have hkind : ∀ o, s.st.kind o ≠ .free → st.kind o = if o ∈ visited then s.st.kind o else .free :=
    fun o ho => kind_major_collection h hmay hs ho
  have hvisited : ∀ o, s.st.kind o ≠ .free → (is_visited s.st visited o = true ↔ o ∈ visited) := by
    intro o ho
    unfold is_visited
    rw [beq_iff_eq]
    exact is_visited_iff h hmay.2 (h.modified_of_may_collect hmay) ho
  have hmarkers : ∀ x, (end_major_collection s.st visited (s.priv i)).read_markers x
      = if (List.range' (x * 16) 16).any
          (fun o => decide (s.st.kind o ≠ .free) && !is_visited s.st visited o) then 0
        else (s.priv i).read_markers x := fun _ => rfl
  refine ⟨id, rfl, fun x => ?_, fun o ho hk => ?_, fun o ho => ?_, by nofun⟩
  · rw [hmarkers]
    split
    · rename_i hany
      rw [List.any_eq_true] at hany
      obtain ⟨o, hmem, ho⟩ := hany
      rw [Bool.and_eq_true, decide_eq_true_eq, Bool.not_eq_true'] at ho
      refine .inr ⟨rfl, o, ho.1, ?_, ?_⟩
      · refine (hkind o ho.1).trans (if_neg fun hv => ?_)
        rw [(hvisited o ho.1).mpr hv] at ho
        cases ho.2
      · rw [List.mem_range'_1] at hmem
        unfold get_write_lock_idx
        omega
    · exact .inl (by simp)
  · rw [hmarkers, if_pos]
    have hne := ne_free_of_seen ho
    rw [List.any_eq_true]
    refine ⟨o, ?_, ?_⟩
    · rw [List.mem_range'_1]
      unfold get_write_lock_idx
      omega
    · rw [Bool.and_eq_true, decide_eq_true_eq, Bool.not_eq_true']
      refine ⟨hne, ?_⟩
      by_contra hv
      rw [Bool.not_eq_false, hvisited o hne] at hv
      exact hne (((hkind o hne).trans (if_pos hv)).symm.trans hk)
  · show st.kind o = .free ∨ (st.kind o).seen_by i = true
    rw [hkind o (ne_free_of_seen ho)]
    split
    · exact .inr ho
    · exact .inl rfl

/-- The abort of another segment. -/
theorem MarkStep.of_abort {gs n : ℕ} (h : Inv NB_SEGMENTS false s.st)
    (hn : n ∈ segment_nums NB_SEGMENTS) (hpc : may_abort (s.st.segs n)) (hne : i ≠ n)
    (hs : abort_data_structures_from_segment_num s gs n = .next s') : MarkStep s s' i [] := by
  obtain ⟨-, st, tl, hst, -, -, rfl⟩ := abort_eq_next hs
  obtain ⟨st', hst', hreset⟩ := reset_all_modified_spec h hn hpc
  rw [hst] at hst'
  cases hst'
  have hsame : SameMarkers (s.priv i) (({ s with st := st }.set n
      { (abort_finalizers s.st.mem gs n (s.priv n)).throw_away_nursery
          (s.st.segs n).young_outside_nursery with
        modified_old_objects_markers := []
        young_weakrefs := []
        running_thread := { tl with
          thread_local_obj := (s.priv n).threadlocal_at_start_of_transaction }
        aborted := true }).priv i) := .set st fun hin => absurd hin hne
  refine .quiet hsame.active hsame.version hsame.markers fun o ho => ?_
  show (st.kind o).seen_by i = true
  have hyoung : o ∉ (s.st.segs n).young_outside_nursery := by
    intro hmem
    rw [(h.lists n).young o hmem] at ho
    exact hne (of_decide_eq_true ho).symm
  have hoverflow : s.st.kind o ≠ .overflow n := by
    intro hk
    rw [hk] at ho
    exact hne (of_decide_eq_true ho).symm
  rw [hreset.kind]
  dsimp only
  rw [kind_abort_data_structures, if_neg hyoung, if_neg hoverflow]
  exact ho

/-- Every step, for a segment whose transaction is running after it. -/
theorem mark_step (h : Inv NB_SEGMENTS false s.st) (hstart : a.starts ≠ some i)
    (hmay : may_read s a) (hs : sys_step NB_SEGMENTS s a = .next s')
    (hactive : (s'.priv i).is_active = true) : MarkStep s s' i (reads_of s a i) := by
  cases a with
  | plain b =>
      obtain ⟨⟨hplain, -⟩, hs⟩ := guarded_eq_next.mp hs
      obtain ⟨st, hst, hs⟩ := Outcome.bind_eq_next.mp hs
      cases hs
      refine .quiet id rfl rfl fun o ho => seen_of_spares h hst ?_ ho
      cases b with
      | major_collection => cases hplain
      | collect => cases hplain
      | abort_data_structures => cases hplain
      | commit_transaction => cases hplain
      | reset_modified => cases hplain
      | _ => exact ⟨(by simp), (by simp), (by simp), (by simp), (by simp)⟩
  | start_transaction j tl =>
      obtain ⟨-, hs⟩ := guarded_eq_next.mp hs
      obtain ⟨p, -, hs⟩ := Outcome.bind_eq_next.mp hs
      cases hs
      exact .of_set fun hij => absurd (congrArg some hij.symm) hstart
  | become_inevitable j =>
      obtain ⟨⟨hj, -⟩, hs⟩ := guarded_eq_next.mp hs
      cases hs
      exact .of_set fun hij => ⟨fun _ => hij ▸ hj, by rw [hij]; rfl, by rw [hij]; rfl⟩
  | stm_read j obj =>
      obtain ⟨hj, hs⟩ := guarded_eq_next.mp hs
      cases hs
      by_cases hij : j = i
      · subst hij
        have hpriv := priv_set s j j (stm_read (s.priv j) obj) s.st
        rw [if_pos rfl] at hpriv
        replace hpriv : (s.set j (stm_read (s.priv j) obj)).priv j
          = stm_read (s.priv j) obj := hpriv
        show MarkStep s _ j (if j = j then [obj] else [])
        rw [if_pos rfl]
        exact .read_barrier hmay (fun _ => hj) (by rw [hpriv]; rfl) (by rw [hpriv]) rfl
      · show MarkStep s _ i (if j = i then [obj] else [])
        rw [if_neg hij]
        exact .of_set fun h => absurd h.symm hij
  | stm_write j obj marker =>
      refine .of_write_barrier h (guarded_eq_next.mp hs).2
        (fun _ => ⟨(by simp), (by simp), (by simp), (by simp), (by simp)⟩) fun st hst => ?_
      obtain ⟨⟨-, hvisible⟩, hst⟩ := guarded_eq_next.mp (guarded_eq_next.mp hst).2
      refine ⟨kind_stm_write hst, fun hreads => ?_⟩
      unfold stm_write_reads at hreads
      simp only [Bool.and_eq_true, Bool.not_eq_true', decide_eq_false_iff_not] at hreads
      exact hvisible.resolve_right hreads.2
  | stm_write_card j obj index marker =>
      refine .of_write_barrier h (guarded_eq_next.mp hs).2
        (fun _ => ⟨(by simp), (by simp), (by simp), (by simp), (by simp)⟩) fun st hst => ?_
      obtain ⟨⟨-, hvisible, -⟩, hst⟩ := guarded_eq_next.mp (guarded_eq_next.mp hst).2
      refine ⟨kind_stm_write_card hst, fun hreads => ?_⟩
      unfold stm_write_card_reads stm_write_reads at hreads
      simp only [Bool.and_eq_true, Bool.not_eq_true', decide_eq_false_iff_not] at hreads
      exact hvisible.resolve_right hreads.1.2
  | stm_enable_light_finalizer j obj =>
      obtain ⟨⟨hj, -⟩, hs⟩ := guarded_eq_next.mp hs
      cases hs
      refine .of_set fun hij => ?_
      subst hij
      unfold stm_enable_light_finalizer
      split
      · exact ⟨fun _ => hj, rfl, rfl⟩
      · split
        · exact ⟨fun _ => hj, rfl, rfl⟩
        · exact ⟨fun _ => hj, rfl, rfl⟩
  | stack j b =>
      obtain ⟨⟨hj, -⟩, hs⟩ := guarded_eq_next.mp hs
      obtain ⟨tl, -, hs⟩ := Outcome.bind_eq_next.mp hs
      cases hs
      exact .of_set fun hij => ⟨fun _ => hij ▸ hj, by rw [hij], by rw [hij]⟩
  | stm_allocate_with_finalizer j obj l =>
      obtain ⟨hj, hs⟩ := guarded_eq_next.mp hs
      exact .of_lift h hs ⟨(by simp), (by simp), (by simp), (by simp), (by simp)⟩
        fun hij => ⟨fun _ => hij ▸ hj, by rw [hij]; rfl, by rw [hij]; rfl⟩
  | minor_collection j commit =>
      obtain ⟨hj, hs⟩ := guarded_eq_next.mp hs
      exact .of_lift h hs ⟨(by simp), (by simp), (by simp), (by simp), (by simp)⟩
        fun hij => ⟨fun _ => hij ▸ hj, by rw [hij], by rw [hij]⟩
  | evacuate j word obj l val =>
      obtain ⟨⟨hj, -⟩, hs⟩ := guarded_eq_next.mp hs
      exact .of_lift h hs ⟨(by simp), (by simp), (by simp), (by simp), (by simp)⟩
        fun hij => ⟨fun _ => hij ▸ hj, by rw [hij]; rfl, by rw [hij]; rfl⟩
  | trace_young_outside_nursery j obj =>
      exact .of_lift h (guarded_eq_next.mp hs).2 ⟨(by simp), (by simp), (by simp), (by simp), (by simp)⟩
        fun hij => hij ▸ .rfl
  | collect j val => exact .of_collect h (guarded_eq_next.mp hs).2
  | commit_transaction j =>
      obtain ⟨-, hs⟩ := guarded_eq_next.mp hs
      obtain ⟨st, hst, hs⟩ := Outcome.bind_eq_next.mp hs
      have hend := Outcome.ofOption_eq_next.mp hs
      obtain ⟨hnone, hothers⟩ := priv_of_end_commit hend
      have hij : i ≠ j := by
        rintro rfl
        rw [not_active_of_none hnone] at hactive
        cases hactive
      have hpriv := hothers i hij
      refine .quiet ?_ ?_ ?_ fun o ho => ?_
      · rw [hpriv]
        exact id
      · rw [hpriv]
      · rw [hpriv]
      · rw [st_of_end_commit hend]
        refine seen_of_spares h hst ⟨(by simp), (by simp), (by simp), ?_, (by simp)⟩ ho
        rintro heq
        cases heq
        exact hij rfl
  | abort_data_structures gs n =>
      obtain ⟨⟨-, hn, -, hpc⟩, hs⟩ := guarded_eq_next.mp hs
      refine .of_abort h hn hpc ?_ hs
      rintro rfl
      obtain ⟨-, st, tl, -, -, -, rfl⟩ := abort_eq_next hs
      rw [priv_set, if_pos rfl] at hactive
      unfold Priv.is_active at hactive
      simp at hactive
  | finish_abort n =>
      obtain ⟨-, hs⟩ := guarded_eq_next.mp hs
      cases hs
      refine .of_set fun hij => ?_
      subst hij
      have hpriv := priv_set s i i { s.priv i with transaction_state := .ts_none, aborted := false }
        s.st
      rw [if_pos rfl] at hpriv
      replace hactive := (congrArg Priv.is_active hpriv).symm.trans hactive
      rw [not_active_of_none rfl] at hactive
      cases hactive
  | major_collection visited =>
      obtain ⟨-, hs⟩ := guarded_eq_next.mp hs
      obtain ⟨st, hst, hs⟩ := Outcome.bind_eq_next.mp hs
      cases hs
      obtain ⟨hmaycollect, hst⟩ := guarded_eq_next.mp (guarded_eq_next.mp hst).2
      split at hst
      · cases hst
      · rename_i t hmajor
        cases hst
        exact .of_major_collection h hmaycollect hmajor
  | nursery_write j word val =>
      obtain ⟨⟨hj, -⟩, hs⟩ := guarded_eq_next.mp hs
      cases hs
      exact .of_set fun hij => ⟨fun _ => hij ▸ hj, by rw [hij], by rw [hij]⟩
  | execute_finalizers j f =>
      obtain ⟨hj, hs⟩ := guarded_eq_next.mp hs
      cases hs
      exact .of_set fun hij => ⟨fun _ => hij ▸ hj, by rw [hij], by rw [hij]⟩
  | trace_markers j markers =>
      obtain ⟨hj, hs⟩ := guarded_eq_next.mp hs
      cases hs
      exact .of_set fun hij => ⟨fun _ => hij ▸ hj, by rw [hij], by rw [hij]⟩
  | advance_nursery j size =>
      obtain ⟨hj, hs⟩ := guarded_eq_next.mp hs
      cases hs
      exact .of_set fun hij => ⟨fun _ => hij ▸ hj, by rw [hij], by rw [hij]⟩
  | _ =>
      obtain ⟨⟨hj, -⟩, hs⟩ := guarded_eq_next.mp hs
      cases hs
      exact .of_set fun hij => ⟨fun _ => hij ▸ hj, by rw [hij], by rw [hij]⟩

/-- A transaction starts with nothing read, and no marker of its version. -/
theorem readInv_of_start {tl : ThreadLocal} (h : PrivInv (s.priv i))
    (hs : sys_step NB_SEGMENTS s (.start_transaction i tl) = .next s') : ReadInv s' [] i := by
  obtain ⟨-, hs⟩ := guarded_eq_next.mp hs
  obtain ⟨p, hp, hs⟩ := Outcome.bind_eq_next.mp hs
  cases hs
  have hpriv := priv_set s i i p s.st
  rw [if_pos rfl] at hpriv
  replace hpriv : (s.set i p).priv i = p := hpriv
  have hp := Outcome.ofOption_eq_next.mp hp
  unfold start_transaction at hp
  rw [Option.bind_eq_bind, Option.bind_eq_some_iff] at hp
  obtain ⟨t, -, hp⟩ := hp
  rw [Option.pure_def, Option.some.injEq] at hp
  have hlt : ∀ x, p.read_markers x < p.transaction_read_version := by
    rw [← hp]
    intro x
    have hnew := h.next_read_version.1 x
    unfold next_read_version at hnew ⊢
    dsimp only
    split
    · exact Nat.zero_lt_one
    · rename_i hold
      rw [if_neg hold] at hnew
      exact hnew
  refine ⟨?_, by nofun, fun x => ?_⟩
  · rw [hpriv]
    exact (Nat.zero_le _).trans_lt (hlt 0)
  · rw [hpriv]
    refine ⟨fun hx => absurd hx (hlt x).ne, ?_⟩
    rintro ⟨o, ho, -⟩
    cases ho

end

/-! ## Runs -/

namespace Tracked

variable {NB_SEGMENTS : ℕ} {t t' : Tracked}

theorem sys_reachable (h : Reachable (Initial NB_SEGMENTS) (step NB_SEGMENTS) t) :
    Reachable (Sys.Initial NB_SEGMENTS) (sys_step NB_SEGMENTS) t.sys := by
  induction h with
  | start h0 => exact .start h0.sys
  | step _ _ hs ih => exact ih.step trivial (step_eq_next hs).2.1

theorem readInv_of_reachable (h : Reachable (Initial NB_SEGMENTS) (step NB_SEGMENTS) t) (i : ℕ)
    (hactive : (t.sys.priv i).is_active = true) : ReadInv t.sys (t.has_read i) i := by
  induction h with
  | start h0 =>
      rw [not_active_of_none (h0.sys.priv i).transaction_state] at hactive
      cases hactive
  | @step t t' a hreach _ hs ih =>
      obtain ⟨hmay, hsys, hreads⟩ := step_eq_next hs
      have hsysreach := sys_reachable hreach
      have hinv := inv_of_reachable (reachable_st hsysreach)
      rw [hreads]
      unfold reads_after
      by_cases hstart : a.starts = some i
      · rw [if_pos hstart]
        cases a with
        | start_transaction j tl =>
            cases hstart
            exact readInv_of_start (inv_of_sys_reachable hsysreach _) hsys
        | _ => cases hstart
      · rw [if_neg hstart]
        have hmark := mark_step hinv hstart hmay hsys hactive
        exact (ih (hmark.active hactive)).step hinv hmark

/-- **Read markers.** In every run the marker of every address is at most the
version of its segment, and so `was_read_remote` never fails. While a
transaction runs, the old objects whose marker has its version are exactly
those that it has read. -/
theorem read_markers_sound (h : Reachable (Initial NB_SEGMENTS) (step NB_SEGMENTS) t) (i : ℕ) :
    (∀ o, (t.sys.priv i).read_markers (get_write_lock_idx o)
        ≤ (t.sys.priv i).transaction_read_version)
      ∧ (t.sys.priv i).transaction_read_version ≤ 0xff
      ∧ ((t.sys.priv i).is_active = true → ∀ o, t.sys.st.kind o = .old →
        ((t.sys.priv i).read_markers (get_write_lock_idx o)
            = (t.sys.priv i).transaction_read_version ↔ o ∈ t.has_read i)) := by
  have hpriv := inv_of_sys_reachable (sys_reachable h) i
  have hinv := inv_of_reachable (reachable_st (sys_reachable h))
  refine ⟨fun o => hpriv.read_markers _, hpriv.read_version, fun hactive o ho => ?_⟩
  have hread := readInv_of_reachable h i hactive
  rw [hread.marker]
  constructor
  · rintro ⟨o', ho', hsame⟩
    have hne := ne_free_of_seen (hread.seen o' ho')
    have heq := eq_of_same_marker hinv hne (by rw [ho]; nofun) hsame
    exact heq ▸ ho'
  · exact fun hmem => ⟨o, hmem, rfl⟩

/-- A transaction reads the object at 8192 through its write barrier and then
commits. The next one allocates an object outside the nursery, reads it, and
loses it in a minor collection. -/
def read_and_free : List SysAct :=
  [.start_transaction 1 one_root, .stm_write 1 8192 none, .plain (.page_privatize 1),
    .plain (.write_slowpath_owned 1), .minor_collection 1 true, .collect 1 (fun _ => 0),
    .collect 1 (fun _ => 0), .collect 1 (fun _ => 0), .collect 1 (fun _ => 0),
    .plain (.push_overflow_objects 1), .commit_transaction 1, .start_transaction 1 one_root,
    .stm_allocate_with_finalizer 1 64 small, .stm_read 1 64, .minor_collection 1 false,
    .collect 1 (fun _ => 0), .collect 1 (fun _ => 0), .collect 1 (fun _ => 0)]

theorem read_markers_sound_free : ∃ t,
    run (step 2) (fun _ _ => True) { sys := one_thread, has_read := fun _ => [] } read_and_free
        = .next t
      ∧ t.sys.st.kind 64 = .free ∧ (t.sys.priv 1).transaction_read_version = 2
      ∧ (t.sys.priv 1).read_markers (get_write_lock_idx 8192) ≠ 2 := by
  have htest : (run (step 2) (fun _ _ => True) { sys := one_thread, has_read := fun _ => [] }
      read_and_free).test (fun t => decide (t.sys.st.kind 64 = .free)
        && decide (t.sys.st.kind 8192 = .old)
        && decide ((t.sys.priv 1).transaction_read_version = 2)
        && (t.sys.priv 1).is_active && decide (t.has_read 1 = [])) = true := by
    decide +kernel
  obtain ⟨t, hrun, htest⟩ := Outcome.of_test htest
  simp only [Bool.and_eq_true, decide_eq_true_eq] at htest
  obtain ⟨⟨⟨⟨hfree, hold⟩, hversion⟩, hactive⟩, hreads⟩ := htest
  have h0 : Reachable (Initial 2) (step 2) { sys := one_thread, has_read := fun _ => [] } :=
    .start ⟨one_thread_initial, fun _ => rfl⟩
  have hsound := (read_markers_sound (h0.run _ hrun) 1).2.2 hactive 8192 hold
  refine ⟨t, hrun, hfree, hversion, fun hmarked => ?_⟩
  rw [hversion, hreads] at hsound
  cases hsound.mp hmarked

end Tracked

end Stmgc.C7
