/-
The invariant of the synchronization, and that the C functions of `Sync` keep
it.

[`SegInv`] is about one segment and the globals: what the program counter says
about the other fields, and which signals may stand in `nursery_end`.
[`Inv`] adds what holds between segments: one inevitable transaction, one
thread that waits for the others to pause, whom a blocked thread waits for, and
who owns a write lock. One lemma for each function says what it does to the
state, or that it keeps the invariant; none of its assertions fails.
-/
import Stmgc.Lib.Graph
import Stmgc.C7.Sync

namespace Stmgc.C7.Sync

open Stmgc.Lib Stmgc.Lib.Exec

variable {NB_SEGMENTS : ℕ} {s : State} {i j k : ℕ}

/-! ## Program counters -/

def CondWait.safe_point : CondWait → SafePoint
  | .request_removed _ => .sp_wait_for_c_request_removed
  | .at_safe_point _ => .sp_wait_for_c_at_safe_point
  | .transaction_done .. => .sp_wait_for_c_transaction_done
  | .aborted .. => .sp_running

def Pc.safe_point : Pc → SafePoint
  | .no_transaction => .sp_no_transaction
  | .blocked wait | .woken wait => wait.safe_point
  | _ => .sp_running

/-- The thread has the mutex. -/
def Pc.locked : Pc → Bool
  | .has_mutex | .synchronized _ | .restart_inevitable => true
  | _ => false

/-- The `cond_wait` the thread is in. -/
def Pc.wait : Pc → Option CondWait
  | .blocked wait | .woken wait => some wait
  | _ => none

/-- What the caller that goes on after the wait counts on. -/
def CondWait.state_ok (ts : TransactionState) : CondWait → Prop
  | .request_removed (.synchronize_all_threads .become_globally_unique_transaction)
  | .at_safe_point .become_globally_unique_transaction => ts = .ts_inevitable
  | .transaction_done _ .inevitable | .aborted _ .inevitable => ts = .ts_regular
  | .transaction_done _ .write_write => False
  | _ => True

/-- The thread waits for the others to pause. -/
def Pc.requester : Pc → Bool
  | .blocked (.at_safe_point _) | .woken (.at_safe_point _) => true
  | _ => false

/-- The segment that a thread in `contention_management` waits for. -/
def Pc.other : Pc → Option ℕ
  | .blocked (.transaction_done other _) | .woken (.transaction_done other _)
  | .blocked (.aborted other _) | .woken (.aborted other _) => some other
  | _ => none

/-- The segment whose end the thread is blocked for. -/
def Pc.awaits_done : Pc → Option ℕ
  | .blocked (.transaction_done other _) => some other
  | _ => none

/-- The segment whose abort the thread is blocked for. -/
def Pc.awaits_abort : Pc → Option ℕ
  | .blocked (.aborted other _) => some other
  | _ => none

/-! ## The invariant -/

/-- One segment, with what it depends on: `pause_signalled`,
`globally_unique_transaction`, its `in_use1`, and whether its thread holds the
mutex. -/
structure SegInv (signalled unique in_use : Bool) (holds : Prop) (seg : Segment) : Prop where
  safe_point : seg.safe_point = seg.pc.safe_point
  idle : seg.transaction_state = .ts_none ↔ seg.pc = .no_transaction
  thread : seg.running_thread.isSome = true ↔ seg.pc ≠ .no_transaction
  in_use : in_use = true ↔ seg.pc ≠ .no_transaction
  holder : holds ↔ seg.pc.locked = true
  paused : signalled = true → seg.nursery_end = .nursery_end →
    unique = true ∧ seg.transaction_state = .ts_inevitable
  pause : seg.nursery_end = .nse_sigpause → signalled = true
  aborting : seg.nursery_end = .nse_sigabort → seg.transaction_state = .ts_regular
  alone : unique = true → seg.safe_point = .sp_running → ¬ holds →
    seg.transaction_state = .ts_inevitable
  requester : seg.pc.requester = true → signalled = true ∧ unique = false
    ∧ seg.nursery_end ≠ .nse_sigcommitsoon
  wait_ok : ∀ w, seg.pc.wait = some w → w.state_ok seg.transaction_state
  restart : seg.pc = .restart_inevitable → seg.transaction_state = .ts_regular
    ∧ seg.nursery_end ≠ .nse_sigabort
  synchronized : ∀ c, seg.pc = .synchronized c → seg.nursery_end = .nursery_end

def State.seg_inv (s : State) (i : ℕ) : Prop :=
  SegInv s.pause_signalled s.globally_unique_transaction (s.in_use1 i) (s.mutex = some i) (s.segs i)

/-- Who owns the write locks. -/
structure LockInv (NB_SEGMENTS : ℕ) (s : State) : Prop where
  owner : ∀ x, s.write_locks x ≠ 0 → s.write_locks x ∈ segment_nums NB_SEGMENTS
    ∧ x ∈ (s.segs (s.write_locks x)).modified_old_objects
  nodup : ∀ i ∈ segment_nums NB_SEGMENTS, (s.segs i).modified_old_objects.Nodup
  owned : ∀ i ∈ segment_nums NB_SEGMENTS, ∀ x ∈ (s.segs i).modified_old_objects,
    s.write_locks x = i
  idle : ∀ i ∈ segment_nums NB_SEGMENTS, (s.segs i).transaction_state = .ts_none →
    (s.segs i).modified_old_objects = []

/-- Thread `i` is blocked until the transaction of segment `j` is done. -/
def awaits_done (NB_SEGMENTS : ℕ) (s : State) (i j : ℕ) : Prop :=
  i ∈ segment_nums NB_SEGMENTS ∧ (s.segs i).pc.awaits_done = some j

/-- Thread `i` is blocked until that of segment `j` aborts. -/
def awaits_abort (NB_SEGMENTS : ℕ) (s : State) (i j : ℕ) : Prop :=
  i ∈ segment_nums NB_SEGMENTS ∧ (s.segs i).pc.awaits_abort = some j

structure Inv (NB_SEGMENTS : ℕ) (s : State) : Prop where
  seg : ∀ i ∈ segment_nums NB_SEGMENTS, s.seg_inv i
  requested : s.safe_points_requested = s.pause_signalled
  unique : s.globally_unique_transaction = true → s.pause_signalled = true
    ∧ ∃ i ∈ segment_nums NB_SEGMENTS, (s.segs i).transaction_state = .ts_inevitable
      ∧ (s.segs i).nursery_end = .nursery_end
  one_inevitable : ∀ i ∈ segment_nums NB_SEGMENTS, ∀ j ∈ segment_nums NB_SEGMENTS,
    (s.segs i).transaction_state = .ts_inevitable →
    (s.segs j).transaction_state = .ts_inevitable → i = j
  one_requester : ∀ i ∈ segment_nums NB_SEGMENTS, ∀ j ∈ segment_nums NB_SEGMENTS,
    (s.segs i).pc.requester = true → (s.segs j).pc.requester = true → i = j
  calm : ∀ i ∈ segment_nums NB_SEGMENTS, ∀ j ∈ segment_nums NB_SEGMENTS, ∀ c,
    (s.segs i).pc = .synchronized c → j ≠ i → (s.segs j).safe_point ≠ .sp_running
  other : ∀ i ∈ segment_nums NB_SEGMENTS, ∀ j, (s.segs i).pc.other = some j →
    j ∈ segment_nums NB_SEGMENTS
  awaits_done : ∀ i ∈ segment_nums NB_SEGMENTS, ∀ j, (s.segs i).pc.awaits_done = some j →
    (s.segs j).signal_when_done = true ∧ (s.segs j).transaction_state ≠ .ts_none
  awaits_abort : ∀ i ∈ segment_nums NB_SEGMENTS, ∀ j, (s.segs i).pc.awaits_abort = some j →
    (s.segs j).nursery_end = .nse_sigabort ∧ (s.segs j).safe_point = .sp_running
  locks : LockInv NB_SEGMENTS s
  acyclic_done : Acyclic (Sync.awaits_done NB_SEGMENTS s)
  acyclic_abort : Acyclic (Sync.awaits_abort NB_SEGMENTS s)

theorem inv_initial : Inv NB_SEGMENTS State.initial where
  seg i _ := by
    unfold State.seg_inv
    constructor <;> simp [State.initial, Segment.initial, Pc.safe_point, Pc.locked, Pc.requester,
      Pc.wait]
  requested := rfl
  unique h := by simp [State.initial] at h
  one_inevitable i _ j _ h := by simp [State.initial, Segment.initial] at h
  one_requester i _ j _ h := by simp [State.initial, Segment.initial, Pc.requester] at h
  calm i _ j _ c h := by simp [State.initial, Segment.initial] at h
  other i _ j h := by simp [State.initial, Segment.initial, Pc.other] at h
  awaits_done i _ j h := by simp [State.initial, Segment.initial, Pc.awaits_done] at h
  awaits_abort i _ j h := by simp [State.initial, Segment.initial, Pc.awaits_abort] at h
  locks := by constructor <;> simp [State.initial, Segment.initial]
  acyclic_done := acyclic_of_forall_not fun i j h => by
    simp [Sync.awaits_done, State.initial, Segment.initial, Pc.awaits_done] at h
  acyclic_abort := acyclic_of_forall_not fun i j h => by
    simp [Sync.awaits_abort, State.initial, Segment.initial, Pc.awaits_abort] at h

/-! ## The fields after an assignment -/

@[simp] theorem segs_set {f : Segment → Segment} :
    (s.set i f).segs k = if k = i then f (s.segs i) else s.segs k := by
  show Function.update s.segs i (f (s.segs i)) k = _
  rw [Function.update_apply]

section Fields

variable {f : Segment → Segment}

end Fields

theorem LockInv.congr {t : State} (h : LockInv NB_SEGMENTS s) (hlocks : t.write_locks = s.write_locks)
    (hmod : ∀ k, (t.segs k).modified_old_objects = (s.segs k).modified_old_objects)
    (hts : ∀ k, (t.segs k).transaction_state = .ts_none → (s.segs k).transaction_state = .ts_none) :
    LockInv NB_SEGMENTS t where
  owner x hx := by
    rw [hlocks] at hx ⊢
    rw [hmod]
    exact h.owner x hx
  nodup k hk := by
    rw [hmod]
    exact h.nodup k hk
  owned k hk x hx := by
    rw [hmod] at hx
    rw [hlocks]
    exact h.owned k hk x hx
  idle k hk hnone := by
    rw [hmod]
    exact h.idle k hk (hts k hnone)

/-! ## A change of one segment -/

section Update

/-- Fields of a segment change that the program counter says nothing about. -/
theorem Inv.update_fields (h : Inv NB_SEGMENTS s) (hi : i ∈ segment_nums NB_SEGMENTS)
    {f : Segment → Segment} (hpc : (f (s.segs i)).pc = (s.segs i).pc)
    (hsp : (f (s.segs i)).safe_point = (s.segs i).safe_point)
    (hmod : (f (s.segs i)).modified_old_objects = (s.segs i).modified_old_objects)
    (hseg : SegInv s.pause_signalled s.globally_unique_transaction (s.in_use1 i)
      (s.mutex = some i) (f (s.segs i)))
    (hts : (f (s.segs i)).transaction_state = (s.segs i).transaction_state
      ∨ (f (s.segs i)).transaction_state = .ts_inevitable
        ∧ ∀ k ∈ segment_nums NB_SEGMENTS, (s.segs k).transaction_state ≠ .ts_inevitable)
    (hsignal : (s.segs i).signal_when_done = true → (f (s.segs i)).signal_when_done = true)
    (hunique : s.globally_unique_transaction = true →
      (s.segs i).transaction_state = .ts_inevitable → (s.segs i).nursery_end = .nursery_end →
      (f (s.segs i)).nursery_end = .nursery_end)
    (habort : (s.segs i).nursery_end = .nse_sigabort →
      (f (s.segs i)).nursery_end = .nse_sigabort) :
    Inv NB_SEGMENTS (s.set i f) := by
  have hpcs : ∀ k, ((s.set i f).segs k).pc = (s.segs k).pc := by
    intro k
    rw [segs_set]
    split_ifs with hki
    · rw [hpc, hki]
    · rfl
  have hsps : ∀ k, ((s.set i f).segs k).safe_point = (s.segs k).safe_point := by
    intro k
    rw [segs_set]
    split_ifs with hki
    · rw [hsp, hki]
    · rfl
  have hmods : ∀ k, ((s.set i f).segs k).modified_old_objects
      = (s.segs k).modified_old_objects := by
    intro k
    rw [segs_set]
    split_ifs with hki
    · rw [hmod, hki]
    · rfl
  have htss : ∀ k, ((s.set i f).segs k).transaction_state = (s.segs k).transaction_state
      ∨ ((s.set i f).segs k).transaction_state = .ts_inevitable ∧ k = i
        ∧ ∀ k ∈ segment_nums NB_SEGMENTS, (s.segs k).transaction_state ≠ .ts_inevitable := by
    intro k
    rw [segs_set]
    split_ifs with hki
    · subst hki
      exact hts.imp id fun h => ⟨h.1, rfl, h.2⟩
    · exact .inl rfl
  constructor
  case seg =>
    intro k hk
    unfold State.seg_inv
    rw [segs_set]
    split_ifs with hki
    · subst hki
      exact hseg
    · exact h.seg k hk
  case requested => exact h.requested
  case unique =>
    intro hu
    obtain ⟨hp, k, hk, hts', hne⟩ := h.unique hu
    refine ⟨hp, k, hk, ?_, ?_⟩
    · rcases htss k with h' | ⟨h', -⟩
      · rw [h', hts']
      · exact h'
    · rw [segs_set]
      split_ifs with hki
      · subst hki
        exact hunique hu hts' hne
      · exact hne
  case one_inevitable =>
    intro k hk l hl hkts hlts
    rcases htss k with hk' | ⟨-, rfl, hno⟩
    · rcases htss l with hl' | ⟨-, -, hno⟩
      · exact h.one_inevitable k hk l hl (hk' ▸ hkts) (hl' ▸ hlts)
      · exact absurd (hk' ▸ hkts) (hno k hk)
    · rcases htss l with hl' | ⟨-, hli, -⟩
      · exact absurd (hl' ▸ hlts) (hno l hl)
      · exact hli.symm
  case one_requester =>
    intro k hk l hl hkr hlr
    rw [hpcs] at hkr hlr
    exact h.one_requester k hk l hl hkr hlr
  case calm =>
    intro k hk l hl c hc
    rw [hpcs] at hc
    rw [hsps]
    exact h.calm k hk l hl c hc
  case other =>
    intro k hk l hl
    rw [hpcs] at hl
    exact h.other k hk l hl
  case awaits_done =>
    intro k hk l hl
    rw [hpcs] at hl
    obtain ⟨hsw, hnone⟩ := h.awaits_done k hk l hl
    constructor
    · rw [segs_set]
      split_ifs with hli
      · subst hli
        exact hsignal hsw
      · exact hsw
    · rcases htss l with h' | ⟨h', -⟩
      · rwa [h']
      · rw [h']
        decide
  case awaits_abort =>
    intro k hk l hl
    rw [hpcs] at hl
    obtain ⟨hne, hrun⟩ := h.awaits_abort k hk l hl
    rw [hsps]
    refine ⟨?_, hrun⟩
    rw [segs_set]
    split_ifs with hli
    · subst hli
      exact habort hne
    · exact hne
  case locks =>
    refine h.locks.congr rfl hmods fun k hk => ?_
    rcases htss k with h' | ⟨h', -⟩
    · rwa [← h']
    · rw [h'] at hk
      cases hk
  case acyclic_done =>
    refine h.acyclic_done.mono fun k l hkl => ?_
    unfold Sync.awaits_done at hkl
    rwa [hpcs] at hkl
  case acyclic_abort =>
    refine h.acyclic_abort.mono fun k l hkl => ?_
    unfold Sync.awaits_abort at hkl
    rwa [hpcs] at hkl

/-- The thread of a segment goes on to `pc`, and the mutex may change hands. -/
theorem Inv.update_pc (h : Inv NB_SEGMENTS s) (hi : i ∈ segment_nums NB_SEGMENTS) (pc : Pc)
    {f : Segment → Segment} {mutex : Option ℕ}
    (hf : f (s.segs i) = { s.segs i with pc := pc, safe_point := pc.safe_point })
    (hmutex : ∀ k ∈ segment_nums NB_SEGMENTS, k ≠ i → (mutex = some k ↔ s.mutex = some k))
    (hseg : SegInv s.pause_signalled s.globally_unique_transaction (s.in_use1 i)
      (mutex = some i) { s.segs i with pc := pc, safe_point := pc.safe_point })
    (hrequester : pc.requester = true → ∀ k ∈ segment_nums NB_SEGMENTS, k ≠ i →
      (s.segs k).pc.requester = false)
    (hcalm : ∀ c, pc = .synchronized c → ∀ k ∈ segment_nums NB_SEGMENTS, k ≠ i →
      (s.segs k).safe_point ≠ .sp_running)
    (hrunning : pc.safe_point = .sp_running → (s.segs i).safe_point = .sp_running
      ∨ ∀ k ∈ segment_nums NB_SEGMENTS, ∀ c, (s.segs k).pc ≠ .synchronized c)
    (hother : ∀ j, pc.other = some j → j ∈ segment_nums NB_SEGMENTS)
    (hdone : ∀ j, pc.awaits_done = some j → j ≠ i ∧ (s.segs j).signal_when_done = true
      ∧ (s.segs j).transaction_state ≠ .ts_none ∧ (s.segs j).pc.awaits_done = none)
    (habort : ∀ j, pc.awaits_abort = some j → j ≠ i ∧ (s.segs j).nursery_end = .nse_sigabort
      ∧ (s.segs j).safe_point = .sp_running)
    (hsource : (s.segs i).safe_point = .sp_running ∧ pc.safe_point ≠ .sp_running
      ∨ pc.awaits_abort ≠ none → (s.segs i).nursery_end ≠ .nse_sigabort) :
    Inv NB_SEGMENTS { s.set i f with mutex := mutex } := by
  have hsegs : ∀ k, ({ s.set i f with mutex := mutex } : State).segs k
      = if k = i then { s.segs i with pc := pc, safe_point := pc.safe_point } else s.segs k := by
    intro k
    show (s.set i f).segs k = _
    rw [segs_set, hf]
  have hfield : ∀ {α : Type} (g : Segment → α),
      g { s.segs i with pc := pc, safe_point := pc.safe_point } = g (s.segs i) →
      ∀ k, g (({ s.set i f with mutex := mutex } : State).segs k) = g (s.segs k) := by
    intro α g hg k
    rw [hsegs]
    split_ifs with hki
    · rw [hg, hki]
    · rfl
  have htss := hfield Segment.transaction_state rfl
  have hnes := hfield Segment.nursery_end rfl
  -- a thread that is blocked for an abort of this one finds it as it was
  have hfree : ∀ k ∈ segment_nums NB_SEGMENTS, (s.segs k).pc.awaits_abort = some i →
      pc.safe_point = .sp_running ∧ pc.awaits_abort = none := by
    intro k hk hki
    obtain ⟨hsig, hrun⟩ := h.awaits_abort k hk i hki
    constructor
    · exact of_not_not fun hne => hsource (.inl ⟨hrun, hne⟩) hsig
    · exact of_not_not fun hne => hsource (.inr hne) hsig
  constructor
  case seg =>
    intro k hk
    unfold State.seg_inv
    rw [hsegs]
    split_ifs with hki
    · subst hki
      exact hseg
    · have := h.seg k hk
      unfold State.seg_inv at this
      rw [← hmutex k hk hki] at this
      exact this
  case requested => exact h.requested
  case unique =>
    intro hu
    obtain ⟨hp, k, hk, hts, hne⟩ := h.unique hu
    exact ⟨hp, k, hk, by rw [htss, hts], by rw [hnes, hne]⟩
  case one_inevitable =>
    intro k hk l hl hkts hlts
    rw [htss] at hkts hlts
    exact h.one_inevitable k hk l hl hkts hlts
  case one_requester =>
    intro k hk l hl hkr hlr
    rw [hsegs] at hkr hlr
    by_cases hki : k = i
    · by_cases hli : l = i
      · rw [hki, hli]
      · rw [if_pos hki] at hkr
        rw [if_neg hli, hrequester hkr l hl hli] at hlr
        cases hlr
    · rw [if_neg hki] at hkr
      by_cases hli : l = i
      · rw [if_pos hli] at hlr
        rw [hrequester hlr k hk hki] at hkr
        cases hkr
      · rw [if_neg hli] at hlr
        exact h.one_requester k hk l hl hkr hlr
  case calm =>
    intro k hk l hl c hc hne
    rw [hsegs] at hc ⊢
    by_cases hki : k = i
    · subst hki
      rw [if_pos rfl] at hc
      rw [if_neg hne]
      exact hcalm c hc l hl hne
    · rw [if_neg hki] at hc
      by_cases hli : l = i
      · subst hli
        rw [if_pos rfl]
        intro hsp
        rcases hrunning hsp with hrun | hno
        · exact h.calm k hk l hl c hc hne hrun
        · exact hno k hk c hc
      · rw [if_neg hli]
        exact h.calm k hk l hl c hc hne
  case other =>
    intro k hk l hl
    rw [hsegs] at hl
    split_ifs at hl with hki
    · exact hother l hl
    · exact h.other k hk l hl
  case awaits_done =>
    intro k hk l hl
    rw [hfield Segment.signal_when_done rfl, htss]
    rw [hsegs] at hl
    split_ifs at hl with hki
    · exact ⟨(hdone l hl).2.1, (hdone l hl).2.2.1⟩
    · exact h.awaits_done k hk l hl
  case awaits_abort =>
    intro k hk l hl
    rw [hnes, hsegs l]
    rw [hsegs] at hl
    split_ifs at hl with hki
    · rw [if_neg (habort l hl).1]
      exact (habort l hl).2
    · split_ifs with hli
      · subst hli
        exact ⟨(h.awaits_abort k hk l hl).1, (hfree k hk hl).1⟩
      · exact h.awaits_abort k hk l hl
  case locks =>
    refine h.locks.congr rfl (hfield Segment.modified_old_objects rfl) fun k hk => ?_
    rwa [htss] at hk
  case acyclic_done =>
    -- the thread that is waited for does not wait in this way itself
    have hnew : ∀ k l, Sync.awaits_done NB_SEGMENTS { s.set i f with mutex := mutex } k l →
        Sync.awaits_done NB_SEGMENTS s k l ∨ (k = i ∧ pc.awaits_done = some l) := by
      rintro k l ⟨hk, hkl⟩
      rw [hsegs] at hkl
      split_ifs at hkl with hki
      · exact .inr ⟨hki, hkl⟩
      · exact .inl ⟨hk, hkl⟩
    by_cases hpc : pc.awaits_done = none
    · refine h.acyclic_done.mono fun k l hkl => (hnew k l hkl).resolve_right ?_
      simp [hpc]
    · obtain ⟨j, hj⟩ := Option.ne_none_iff_exists'.mp hpc
      refine h.acyclic_done.insert_into_sink (x := i) (y := j) ?_ ?_
      · intro k l hkl
        refine (hnew k l hkl).imp id fun h => ⟨h.1, ?_⟩
        exact Option.some.inj (h.2.symm.trans hj)
      · rintro l ⟨-, hl⟩
        rw [hsegs, if_neg (hdone j hj).1, (hdone j hj).2.2.2] at hl
        cases hl
  case acyclic_abort =>
    -- nobody waits for an abort of this thread
    have hnew : ∀ k l, Sync.awaits_abort NB_SEGMENTS { s.set i f with mutex := mutex } k l →
        Sync.awaits_abort NB_SEGMENTS s k l ∨ (k = i ∧ pc.awaits_abort = some l) := by
      rintro k l ⟨hk, hkl⟩
      rw [hsegs] at hkl
      split_ifs at hkl with hki
      · exact .inr ⟨hki, hkl⟩
      · exact .inl ⟨hk, hkl⟩
    by_cases hpc : pc.awaits_abort = none
    · refine h.acyclic_abort.mono fun k l hkl => (hnew k l hkl).resolve_right ?_
      simp [hpc]
    · obtain ⟨j, hj⟩ := Option.ne_none_iff_exists'.mp hpc
      refine h.acyclic_abort.insert_from_source (x := i) (y := j) ?_ ?_
      · intro k l hkl
        refine (hnew k l hkl).imp id fun h => ⟨h.1, ?_⟩
        exact Option.some.inj (h.2.symm.trans hj)
      · rintro k ⟨hk, hki⟩
        rw [hsegs] at hki
        split_ifs at hki with hkeq
        · exact (habort _ hki).1 rfl
        · exact hpc (hfree k hk hki).2

end Update

/-! ## `cond_broadcast` -/

section Wake

variable {c : CondType} {seg : Segment}

/-- A wakeup changes nothing but the program counter. -/
theorem wake_field {α : Type} (g : Segment → α)
    (hg : ∀ pc, g { seg with pc := pc } = g seg) : g (seg.wake c) = g seg := by
  unfold Segment.wake
  split
  · split
    · exact hg _
    · rfl
  · rfl

theorem wake_pc {α : Type} (g : Pc → α) (hg : ∀ w, g (.woken w) = g (.blocked w)) :
    g (seg.wake c).pc = g seg.pc := by
  unfold Segment.wake
  split
  · rename_i w hw
    split
    · rw [hw]
      exact hg w
    · rfl
  · rfl

theorem awaits_done_of_wake (h : (seg.wake c).pc.awaits_done = some j) :
    c ≠ .c_transaction_done ∧ seg.pc.awaits_done = some j := by
  unfold Segment.wake at h
  split at h
  · rename_i w hw
    split at h
    · cases h
    · rename_i hc
      refine ⟨?_, h⟩
      rintro rfl
      rw [hw] at h
      unfold Pc.awaits_done at h
      split at h
      · rename_i heq
        cases heq
        exact hc rfl
      · cases h
  · rename_i hno
    unfold Pc.awaits_done at h
    split at h
    · rename_i heq
      exact absurd heq (hno _)
    · cases h

theorem awaits_abort_of_wake (h : (seg.wake c).pc.awaits_abort = some j) :
    c ≠ .c_aborted ∧ seg.pc.awaits_abort = some j := by
  unfold Segment.wake at h
  split at h
  · rename_i w hw
    split at h
    · cases h
    · rename_i hc
      refine ⟨?_, h⟩
      rintro rfl
      rw [hw] at h
      unfold Pc.awaits_abort at h
      split at h
      · rename_i heq
        cases heq
        exact hc rfl
      · cases h
  · rename_i hno
    unfold Pc.awaits_abort at h
    split at h
    · rename_i heq
      exact absurd heq (hno _)
    · cases h

theorem SegInv.wake {signalled unique in_use : Bool} {holds : Prop}
    (h : SegInv signalled unique in_use holds seg) :
    SegInv signalled unique in_use holds (seg.wake c) := by
  have hts : (seg.wake c).transaction_state = seg.transaction_state := wake_field _ fun _ => rfl
  have hne : (seg.wake c).nursery_end = seg.nursery_end := wake_field _ fun _ => rfl
  have hsp : (seg.wake c).safe_point = seg.safe_point := wake_field _ fun _ => rfl
  have hidle : (seg.wake c).pc = .no_transaction ↔ seg.pc = .no_transaction :=
    iff_of_eq (wake_pc (· = .no_transaction) (by simp))
  constructor
  case safe_point =>
    rw [hsp, wake_pc Pc.safe_point fun _ => rfl]
    exact h.safe_point
  case idle =>
    rw [hts, hidle]
    exact h.idle
  case thread =>
    rw [wake_field Segment.running_thread fun _ => rfl, ne_eq, hidle]
    exact h.thread
  case in_use =>
    rw [ne_eq, hidle]
    exact h.in_use
  case holder =>
    rw [wake_pc Pc.locked fun _ => rfl]
    exact h.holder
  case paused =>
    rw [hne, hts]
    exact h.paused
  case pause =>
    rw [hne]
    exact h.pause
  case aborting =>
    rw [hne, hts]
    exact h.aborting
  case alone =>
    rw [hsp, hts]
    exact h.alone
  case requester =>
    rw [wake_pc Pc.requester fun w => by cases w <;> rfl, hne]
    exact h.requester
  case wait_ok =>
    rw [wake_pc Pc.wait fun _ => rfl, hts]
    exact h.wait_ok
  case restart =>
    rw [wake_pc (· = .restart_inevitable) (by simp), hts, hne]
    exact h.restart
  case synchronized =>
    intro c'
    rw [wake_pc (· = .synchronized c') (by simp), hne]
    exact h.synchronized c'

theorem Inv.wake (h : Inv NB_SEGMENTS s) (c : CondType) :
    Inv NB_SEGMENTS { s with segs := fun k => (s.segs k).wake c } := by
  have hts : ∀ k, ((s.segs k).wake c).transaction_state = (s.segs k).transaction_state :=
    fun k => wake_field _ fun _ => rfl
  have hne : ∀ k, ((s.segs k).wake c).nursery_end = (s.segs k).nursery_end :=
    fun k => wake_field _ fun _ => rfl
  have hsp : ∀ k, ((s.segs k).wake c).safe_point = (s.segs k).safe_point :=
    fun k => wake_field _ fun _ => rfl
  constructor
  case seg => exact fun k hk => (h.seg k hk).wake
  case requested => exact h.requested
  case unique =>
    intro hu
    obtain ⟨hp, k, hk, hkts, hkne⟩ := h.unique hu
    exact ⟨hp, k, hk, by rw [hts, hkts], by rw [hne, hkne]⟩
  case one_inevitable =>
    intro k hk l hl hkts hlts
    rw [hts] at hkts hlts
    exact h.one_inevitable k hk l hl hkts hlts
  case one_requester =>
    intro k hk l hl hkr hlr
    rw [wake_pc Pc.requester fun w => by cases w <;> rfl] at hkr hlr
    exact h.one_requester k hk l hl hkr hlr
  case calm =>
    intro k hk l hl c' hc
    rw [wake_pc (· = .synchronized c') (by simp)] at hc
    rw [hsp]
    exact h.calm k hk l hl c' hc
  case other =>
    intro k hk l hl
    rw [wake_pc Pc.other fun w => by cases w <;> rfl] at hl
    exact h.other k hk l hl
  case awaits_done =>
    intro k hk l hl
    rw [hts, wake_field Segment.signal_when_done fun _ => rfl]
    exact h.awaits_done k hk l (awaits_done_of_wake hl).2
  case awaits_abort =>
    intro k hk l hl
    rw [hne, hsp]
    exact h.awaits_abort k hk l (awaits_abort_of_wake hl).2
  case locks =>
    exact h.locks.congr rfl (fun k => wake_field _ fun _ => rfl) fun k hk => (hts k) ▸ hk
  case acyclic_done =>
    exact h.acyclic_done.mono fun k l hkl => ⟨hkl.1, (awaits_done_of_wake hkl.2).2⟩
  case acyclic_abort =>
    exact h.acyclic_abort.mono fun k l hkl => ⟨hkl.1, (awaits_abort_of_wake hkl.2).2⟩

/-- All threads that wait on `c` are woken. -/
def State.broadcast (s : State) (c : CondType) : State :=
  { s with segs := fun k => (s.segs k).wake c }

@[simp] theorem wp_cond_broadcast {Q : Unit → State → Prop} {R : State → Prop} :
    wp (cond_broadcast c) Q R s ↔ Q () (s.broadcast c) := Iff.rfl

@[simp] theorem wp_set_segment {f : Segment → Segment} {Q : Unit → State → Prop}
    {R : State → Prop} : wp (set_segment i f) Q R s ↔ Q () (s.set i f) := Iff.rfl

/-- A wakeup commutes with an assignment to another field of a segment. -/
theorem broadcast_set {f : Segment → Segment}
    (hf : ∀ seg pc, f { seg with pc := pc } = { f seg with pc := pc })
    (hpc : ∀ seg, (f seg).pc = seg.pc) :
    (s.set i f).broadcast c = (s.broadcast c).set i f := by
  have hwake : ∀ seg : Segment, (f seg).wake c = f (seg.wake c) := by
    intro seg
    unfold Segment.wake
    rw [hpc]
    split
    · split
      · exact (hf seg _).symm
      · rfl
    · rfl
  refine State.ext (funext fun k => ?_) rfl rfl rfl rfl rfl rfl rfl
  show ((s.set i f).segs k).wake c = _
  rw [segs_set, segs_set]
  split_ifs with hki
  · exact hwake _
  · rfl

theorem set_set {f g : Segment → Segment} : (s.set i f).set i g = s.set i (fun seg => g (f seg)) := by
  refine State.ext (funext fun k => ?_) rfl rfl rfl rfl rfl rfl rfl
  simp only [segs_set, if_true]
  split_ifs <;> rfl

end Wake

/-! ## The end of a transaction -/

/-- Fields that no other part of the invariant mentions may change with the
locks. -/
theorem Inv.congr {t : State} (h : Inv NB_SEGMENTS s)
    (hsegs : ∀ k, ∃ modified version markers, t.segs k = { s.segs k with
      modified_old_objects := modified
      transaction_read_version := version
      read_markers := markers })
    (ht : t = { s with segs := t.segs, write_locks := t.write_locks })
    (hlocks : LockInv NB_SEGMENTS t) : Inv NB_SEGMENTS t := by
  have hfield : ∀ {α : Type} (g : Segment → α),
      (∀ seg modified version markers, g { seg with
        modified_old_objects := modified
        transaction_read_version := version
        read_markers := markers } = g seg) → ∀ k, g (t.segs k) = g (s.segs k) := by
    intro α g hg k
    obtain ⟨modified, version, markers, hk⟩ := hsegs k
    rw [hk, hg]
  have hpc := hfield Segment.pc fun _ _ _ _ => rfl
  have hts := hfield Segment.transaction_state fun _ _ _ _ => rfl
  have hne := hfield Segment.nursery_end fun _ _ _ _ => rfl
  have hsp := hfield Segment.safe_point fun _ _ _ _ => rfl
  have hthread := hfield Segment.running_thread fun _ _ _ _ => rfl
  have hunique : t.globally_unique_transaction = s.globally_unique_transaction := by rw [ht]
  have hpaused : t.pause_signalled = s.pause_signalled := by rw [ht]
  constructor
  case seg =>
    intro k hk
    have hold := h.seg k hk
    unfold State.seg_inv at hold ⊢
    rw [hunique, hpaused, show t.in_use1 = s.in_use1 by rw [ht], show t.mutex = s.mutex by rw [ht]]
    obtain ⟨modified, version, markers, hkseg⟩ := hsegs k
    rw [hkseg]
    exact ⟨hold.1, hold.2, hold.3, hold.4, hold.5, hold.6, hold.7, hold.8, hold.9, hold.10,
      hold.11, hold.12, hold.13⟩
  case requested =>
    rw [hpaused, show t.safe_points_requested = s.safe_points_requested by rw [ht]]
    exact h.requested
  case unique =>
    simp only [hunique, hpaused, hts, hne]
    exact h.unique
  case one_inevitable =>
    simp only [hts]
    exact h.one_inevitable
  case one_requester =>
    simp only [hpc]
    exact h.one_requester
  case calm =>
    simp only [hpc, hsp]
    exact h.calm
  case other =>
    simp only [hpc]
    exact h.other
  case awaits_done =>
    simp only [hpc, hts, hfield Segment.signal_when_done fun _ _ _ _ => rfl]
    exact h.awaits_done
  case awaits_abort =>
    simp only [hpc, hne, hsp]
    exact h.awaits_abort
  case locks => exact hlocks
  case acyclic_done =>
    refine h.acyclic_done.mono fun k l hkl => ?_
    unfold Sync.awaits_done at hkl
    rwa [hpc] at hkl
  case acyclic_abort =>
    refine h.acyclic_abort.mono fun k l hkl => ?_
    unfold Sync.awaits_abort at hkl
    rwa [hpc] at hkl

theorem wp_clear_write_locks {n : ℕ} {objs : List ℕ} {Q : Unit → State → Prop}
    {R : State → Prop} (hnodup : objs.Nodup) (howned : ∀ x ∈ objs, s.write_locks x = n)
    (h : Q () { s with write_locks := fun x => if x ∈ objs then 0 else s.write_locks x }) :
    wp (clear_write_locks n objs) Q R s := by
  unfold clear_write_locks
  induction objs generalizing s with
  | nil => simpa [forEach] using h
  | cons x objs ih =>
      rw [List.nodup_cons] at hnodup
      rw [forEach]
      simp only [wp_bind, wp_get, wp_assert, wp_modify]
      refine ⟨howned x List.mem_cons_self, ih hnodup.2 ?_ ?_⟩
      · intro y hy
        show Function.update s.write_locks x 0 y = n
        rw [Function.update_of_ne (ne_of_mem_of_not_mem hy hnodup.1)]
        exact howned y (List.mem_cons_of_mem x hy)
      · convert h using 2
        funext y
        show (if y ∈ objs then 0 else Function.update s.write_locks x 0 y) = _
        rw [Function.update_apply]
        by_cases hyx : y = x <;> simp [hyx]

/-- The modified objects of segment `n` are forgotten and their locks released. -/
def State.reset_modified (s : State) (n : ℕ) : State :=
  { s.set n ({ · with modified_old_objects := [] }) with
    write_locks := fun x =>
      if x ∈ (s.segs n).modified_old_objects then 0 else s.write_locks x }

theorem wp_reset_modified {Q : Unit → State → Prop} {R : State → Prop}
    (h : LockInv NB_SEGMENTS s) (hi : i ∈ segment_nums NB_SEGMENTS)
    (hQ : Q () (s.reset_modified i)) : wp (reset_modified_from_other_segments i) Q R s := by
  unfold reset_modified_from_other_segments
  simp only [wp_bind, wp_get]
  exact wp_clear_write_locks (h.nodup i hi) (h.owned i hi) hQ

theorem LockInv.reset_modified (h : LockInv NB_SEGMENTS s) (hi : i ∈ segment_nums NB_SEGMENTS) :
    LockInv NB_SEGMENTS (s.reset_modified i) := by
  have hmod : ∀ k, ((s.reset_modified i).segs k).modified_old_objects
      = if k = i then [] else (s.segs k).modified_old_objects := by
    intro k
    unfold State.reset_modified
    dsimp only
    rw [segs_set]
    split_ifs <;> rfl
  have hlock : ∀ x, (s.reset_modified i).write_locks x
      = if x ∈ (s.segs i).modified_old_objects then 0 else s.write_locks x := fun _ => rfl
  constructor
  case owner =>
    intro x hx
    rw [hlock] at hx ⊢
    by_cases hmem : x ∈ (s.segs i).modified_old_objects
    · rw [if_pos hmem] at hx
      exact absurd rfl hx
    · rw [if_neg hmem] at hx ⊢
      obtain ⟨hseg, hx'⟩ := h.owner x hx
      refine ⟨hseg, ?_⟩
      rw [hmod, if_neg]
      · exact hx'
      · intro hki
        rw [hki] at hx'
        exact hmem hx'
  case nodup =>
    intro k hk
    rw [hmod]
    split_ifs
    · exact List.nodup_nil
    · exact h.nodup k hk
  case owned =>
    intro k hk x hx
    rw [hmod] at hx
    by_cases hki : k = i
    · rw [if_pos hki] at hx
      cases hx
    · rw [if_neg hki] at hx
      -- no other segment owns the lock
      rw [hlock, if_neg fun hmem => hki ((h.owned k hk x hx).symm.trans (h.owned i hi x hmem))]
      exact h.owned k hk x hx
  case idle =>
    intro k hk hnone
    rw [hmod]
    split_ifs with hki
    · rfl
    · refine h.idle k hk ?_
      unfold State.reset_modified at hnone
      dsimp only at hnone
      rwa [segs_set, if_neg hki] at hnone

theorem Inv.reset_modified (h : Inv NB_SEGMENTS s) (hi : i ∈ segment_nums NB_SEGMENTS) :
    Inv NB_SEGMENTS (s.reset_modified i) := by
  refine h.congr (fun k => ?_) rfl (h.locks.reset_modified hi)
  unfold State.reset_modified
  dsimp only
  rw [segs_set]
  split_ifs with hki
  · exact ⟨[], _, _, by rw [hki]⟩
  · exact ⟨_, _, _, rfl⟩

/-- Segment `i` after the end of its transaction, with the mutex released. -/
def State.finish (s : State) (i : ℕ) (signal : NurseryEnd) : State :=
  { s.set i ({ · with
      pc := .no_transaction
      nursery_end := signal
      safe_point := .sp_no_transaction
      transaction_state := .ts_none
      running_thread := none
      signal_when_done := false }) with
    mutex := none
    in_use1 := Function.update s.in_use1 i false }

theorem SegInv.finish {signalled unique : Bool} {seg : Segment} {signal : NurseryEnd}
    (hsig : signal ≠ .nse_sigabort) (hend : signal = .nursery_end → signalled = false)
    (hpause : signal = .nse_sigpause → signalled = true) :
    SegInv signalled unique false False { seg with
      pc := .no_transaction
      nursery_end := signal
      safe_point := .sp_no_transaction
      transaction_state := .ts_none
      running_thread := none
      signal_when_done := false } := by
  constructor
  case paused =>
    intro hsignalled hne
    rw [hend hne] at hsignalled
    cases hsignalled
  case pause => exact hpause
  case aborting => exact fun hne => absurd hne hsig
  all_goals simp [Pc.safe_point, Pc.locked, Pc.requester, Pc.wait]

/-- A segment between two transactions, at the end of the one or at the start of
the other. -/
theorem Inv.replace (h : Inv NB_SEGMENTS s) (hi : i ∈ segment_nums NB_SEGMENTS) {t : State}
    (hrest : ∀ k, k ≠ i → t.segs k = s.segs k)
    (hmutex : ∀ k ∈ segment_nums NB_SEGMENTS, k ≠ i → (t.mutex = some k ↔ s.mutex = some k))
    (hin : ∀ k, k ≠ i → t.in_use1 k = s.in_use1 k)
    (hglobals : t.pause_signalled = s.pause_signalled
      ∧ t.globally_unique_transaction = s.globally_unique_transaction
      ∧ t.safe_points_requested = s.safe_points_requested ∧ t.write_locks = s.write_locks)
    (hseg : t.seg_inv i)
    (hmod : (s.segs i).modified_old_objects = [] ∧ (t.segs i).modified_old_objects = [])
    (hunique : s.globally_unique_transaction = true → (s.segs i).transaction_state ≠ .ts_inevitable)
    (hinev : (t.segs i).transaction_state ≠ .ts_inevitable)
    (hpc : (t.segs i).pc = .no_transaction ∨ (t.segs i).pc = .has_mutex)
    (hcalm : ∀ k ∈ segment_nums NB_SEGMENTS, k ≠ i → ∀ c, (s.segs k).pc ≠ .synchronized c)
    (hdone : ∀ k ∈ segment_nums NB_SEGMENTS, (s.segs k).pc.awaits_done ≠ some i)
    (habort : ∀ k ∈ segment_nums NB_SEGMENTS, (s.segs k).pc.awaits_abort ≠ some i) :
    Inv NB_SEGMENTS t := by
  obtain ⟨hpaused, hgu, hrequested, hlocks⟩ := hglobals
  have hfree : (t.segs i).pc.requester = false ∧ (t.segs i).pc.other = none
      ∧ (t.segs i).pc.awaits_done = none ∧ (t.segs i).pc.awaits_abort = none
      ∧ ∀ c, (t.segs i).pc ≠ .synchronized c := by
    rcases hpc with hpc | hpc
    · rw [hpc]
      exact ⟨rfl, rfl, rfl, rfl, nofun⟩
    · rw [hpc]
      exact ⟨rfl, rfl, rfl, rfl, nofun⟩
  obtain ⟨hreq, hoth, hdone', habort', hsync⟩ := hfree
  have hwait : ∀ k ∈ segment_nums NB_SEGMENTS, ∀ l, Sync.awaits_done NB_SEGMENTS t k l →
      Sync.awaits_done NB_SEGMENTS s k l := by
    rintro k hk l ⟨-, hkl⟩
    by_cases hki : k = i
    · rw [hki, hdone'] at hkl
      cases hkl
    · rw [hrest k hki] at hkl
      exact ⟨hk, hkl⟩
  have hwait' : ∀ k ∈ segment_nums NB_SEGMENTS, ∀ l, Sync.awaits_abort NB_SEGMENTS t k l →
      Sync.awaits_abort NB_SEGMENTS s k l := by
    rintro k hk l ⟨-, hkl⟩
    by_cases hki : k = i
    · rw [hki, habort'] at hkl
      cases hkl
    · rw [hrest k hki] at hkl
      exact ⟨hk, hkl⟩
  have hmods : ∀ k, (t.segs k).modified_old_objects = (s.segs k).modified_old_objects := by
    intro k
    by_cases hki : k = i
    · rw [hki, hmod.1, hmod.2]
    · rw [hrest k hki]
  constructor
  case seg =>
    intro k hk
    by_cases hki : k = i
    · subst hki
      exact hseg
    · have hold := h.seg k hk
      unfold State.seg_inv at hold ⊢
      rw [hrest k hki, hpaused, hgu, hin k hki]
      rwa [← hmutex k hk hki] at hold
  case requested => rw [hrequested, hpaused, h.requested]
  case unique =>
    intro hu
    rw [hgu] at hu
    obtain ⟨hp, k, hk, hts, hne⟩ := h.unique hu
    refine ⟨hpaused.trans hp, k, hk, ?_⟩
    rw [hrest]
    · exact ⟨hts, hne⟩
    · rintro rfl
      exact hunique hu hts
  case one_inevitable =>
    intro k hk l hl hkts hlts
    by_cases hki : k = i
    · exact absurd (hki ▸ hkts) hinev
    · by_cases hli : l = i
      · exact absurd (hli ▸ hlts) hinev
      · rw [hrest k hki] at hkts
        rw [hrest l hli] at hlts
        exact h.one_inevitable k hk l hl hkts hlts
  case one_requester =>
    intro k hk l hl hkr hlr
    by_cases hki : k = i
    · rw [hki, hreq] at hkr
      cases hkr
    · by_cases hli : l = i
      · rw [hli, hreq] at hlr
        cases hlr
      · rw [hrest k hki] at hkr
        rw [hrest l hli] at hlr
        exact h.one_requester k hk l hl hkr hlr
  case calm =>
    intro k hk l hl c hc
    by_cases hki : k = i
    · exact absurd (hki ▸ hc) (hsync c)
    · rw [hrest k hki] at hc
      exact absurd hc (hcalm k hk hki c)
  case other =>
    intro k hk l hl
    by_cases hki : k = i
    · rw [hki, hoth] at hl
      cases hl
    · rw [hrest k hki] at hl
      exact h.other k hk l hl
  case awaits_done =>
    intro k hk l hl
    have hold := hwait k hk l ⟨hk, hl⟩
    rw [hrest l fun hli => hdone k hk (hli ▸ hold.2)]
    exact h.awaits_done k hk l hold.2
  case awaits_abort =>
    intro k hk l hl
    have hold := hwait' k hk l ⟨hk, hl⟩
    rw [hrest l fun hli => habort k hk (hli ▸ hold.2)]
    exact h.awaits_abort k hk l hold.2
  case locks =>
    constructor
    · intro x hx
      rw [hlocks] at hx ⊢
      rw [hmods]
      exact h.locks.owner x hx
    · intro k hk
      rw [hmods]
      exact h.locks.nodup k hk
    · intro k hk x hx
      rw [hmods] at hx
      rw [hlocks]
      exact h.locks.owned k hk x hx
    · intro k hk hnone
      rw [hmods]
      by_cases hki : k = i
      · rw [hki, hmod.1]
      · rw [hrest k hki] at hnone
        exact h.locks.idle k hk hnone
  case acyclic_done =>
    exact h.acyclic_done.mono fun k l hkl => hwait k hkl.1 l hkl
  case acyclic_abort =>
    exact h.acyclic_abort.mono fun k l hkl => hwait' k hkl.1 l hkl

theorem Inv.finish (h : Inv NB_SEGMENTS s) (hi : i ∈ segment_nums NB_SEGMENTS)
    {signal : NurseryEnd} (hlocked : (s.segs i).pc.locked = true)
    (hmod : (s.segs i).modified_old_objects = [])
    (hdone : ∀ k ∈ segment_nums NB_SEGMENTS, (s.segs k).pc.awaits_done ≠ some i)
    (habort : ∀ k ∈ segment_nums NB_SEGMENTS, (s.segs k).pc.awaits_abort ≠ some i)
    (hunique : s.globally_unique_transaction = true → (s.segs i).transaction_state ≠ .ts_inevitable)
    (hsig : signal ≠ .nse_sigabort)
    (hend : signal = .nursery_end → s.pause_signalled = false)
    (hpause : signal = .nse_sigpause → s.pause_signalled = true) :
    Inv NB_SEGMENTS (s.finish i signal) := by
  have hmutex := (h.seg i hi).holder.mpr hlocked
  have hself : (s.finish i signal).segs i = { s.segs i with
      pc := .no_transaction
      nursery_end := signal
      safe_point := .sp_no_transaction
      transaction_state := .ts_none
      running_thread := none
      signal_when_done := false } := by
    unfold State.finish
    dsimp only
    rw [segs_set, if_pos rfl]
  refine h.replace hi (fun k hki => ?_) (fun k hk hki => ?_) (fun k hki => ?_)
    ⟨rfl, rfl, rfl, rfl⟩ ?_ ⟨hmod, by rw [hself, hmod]⟩ hunique (by rw [hself]; nofun)
    (.inl (by rw [hself])) (fun k hk hki c hc => ?_) hdone habort
  · unfold State.finish
    dsimp only
    rw [segs_set, if_neg hki]
  · rw [hmutex]
    exact iff_of_false nofun (by simpa using hki.symm)
  · exact Function.update_of_ne hki _ _
  · unfold State.seg_inv
    rw [hself]
    show SegInv s.pause_signalled s.globally_unique_transaction
      (Function.update s.in_use1 i false i) (none = some i) _
    rw [Function.update_self, eq_false (nofun : ¬ none = some i)]
    exact .finish hsig hend hpause
  · -- only the thread with the mutex can be synchronized
    have hk' := (h.seg k hk).holder.mpr (by rw [hc]; rfl)
    rw [hmutex, Option.some.injEq] at hk'
    exact hki hk'.symm

/-- `release_thread_segment` wakes who waits for the end of the transaction. -/
def State.wake_done (s : State) (i : ℕ) : State :=
  if (s.segs i).signal_when_done = true then s.broadcast .c_transaction_done else s

/-- The part of [`State.finish`] before the mutex is released. -/
def State.release (s : State) (i : ℕ) : State :=
  { s.set i ({ · with
      safe_point := .sp_no_transaction
      transaction_state := .ts_none
      signal_when_done := false
      running_thread := none }) with
    in_use1 := Function.update s.in_use1 i false }

theorem Inv.wake_done (h : Inv NB_SEGMENTS s) : Inv NB_SEGMENTS (s.wake_done i) := by
  unfold State.wake_done
  split_ifs
  · exact h.wake _
  · exact h

theorem wake_done_field {α : Type} (g : Segment → α)
    (hg : ∀ seg pc, g { seg with pc := pc } = g seg) :
    g ((s.wake_done i).segs k) = g (s.segs k) := by
  unfold State.wake_done
  split_ifs
  · exact wake_field g (hg _)
  · rfl

theorem Inv.no_awaits_done (h : Inv NB_SEGMENTS s) (hk : k ∈ segment_nums NB_SEGMENTS) :
    ((s.wake_done i).segs k).pc.awaits_done ≠ some i := by
  intro hki
  unfold State.wake_done at hki
  split_ifs at hki with hsignal
  · exact (awaits_done_of_wake hki).1 rfl
  · exact hsignal (h.awaits_done k hk i hki).1

theorem wp_finish_transaction {Q : Unit → State → Prop} {R : State → Prop}
    (hthread : (s.segs i).running_thread.isSome = true) (hin : s.in_use1 i = true)
    (hQ : Q () ((s.wake_done i).release i)) : wp (_finish_transaction i) Q R s := by
  unfold _finish_transaction release_thread_segment
  simp only [wp_bind, wp_get, wp_set_segment, wp_ifThen, wp_cond_broadcast, wp_assert, wp_modify,
    segs_set, if_true]
  unfold State.wake_done at hQ
  split_ifs with hsignal
  · rw [if_pos hsignal] at hQ
    refine ⟨hthread, hin, ?_⟩
    convert hQ using 1
    refine State.ext (funext fun k => ?_) rfl rfl rfl rfl rfl rfl rfl
    unfold State.release
    dsimp only
    rw [broadcast_set, set_set, set_set] <;> intros <;> rfl
  · rw [if_neg hsignal] at hQ
    refine ⟨hthread, hin, ?_⟩
    convert hQ using 1
    refine State.ext (funext fun k => ?_) rfl rfl rfl rfl rfl rfl rfl
    unfold State.release
    dsimp only
    rw [set_set, segs_set, segs_set]
    split_ifs
    · simp [hsignal]
    · rfl

/-- The rest of [`State.finish`]. -/
theorem release_finish :
    ({ (s.release i).set i ({ · with pc := .no_transaction }) with mutex := none } : State)
      = s.finish i (s.segs i).nursery_end := by
  refine State.ext (funext fun k => ?_) rfl rfl rfl rfl rfl rfl rfl
  simp only [State.release, State.finish, segs_set, if_true]
  split_ifs <;> rfl

theorem release_broadcast {c : CondType} :
    (s.release i).broadcast c = (s.broadcast c).release i := by
  refine State.ext (funext fun k => ?_) rfl rfl rfl rfl rfl rfl rfl
  unfold State.release
  dsimp only
  rw [← broadcast_set] <;> intros <;> rfl

/-- The signal that an abort leaves behind. -/
def signal_after_abort (s : State) (i : ℕ) : NurseryEnd :=
  if must_abort s i then (if s.pause_signalled then .nse_sigpause else .nursery_end)
  else (s.segs i).nursery_end

/-- `abort_with_mutex` after the data structures are reset. -/
theorem wp_finish_abort {α : Type} {Q : α → State → Prop} (h : Inv NB_SEGMENTS s)
    (hi : i ∈ segment_nums NB_SEGMENTS) (hlocked : (s.segs i).pc.locked = true)
    (hreg : (s.segs i).transaction_state = .ts_regular)
    (hmod : (s.segs i).modified_old_objects = []) {t : State}
    (ht : t = s.set i ({ · with nursery_end := signal_after_abort s i })) :
    wp (do
      _finish_transaction i
      cond_broadcast .c_aborted
      s_mutex_unlock i .no_transaction
      leave) Q (Inv NB_SEGMENTS) t := by
  have hseg := h.seg i hi
  unfold State.seg_inv at hseg
  have hpc : (s.segs i).pc ≠ .no_transaction := by
    intro hpc
    rw [hpc] at hlocked
    cases hlocked
  have hwake : (t.wake_done i).broadcast .c_aborted
      = ((s.wake_done i).broadcast .c_aborted).set i
        ({ · with nursery_end := signal_after_abort s i }) := by
    rw [ht]
    unfold State.wake_done
    simp only [segs_set, if_true]
    split_ifs
    · rw [broadcast_set, broadcast_set] <;> intros <;> rfl
    · rw [broadcast_set] <;> intros <;> rfl
  have hne : (((t.wake_done i).broadcast .c_aborted).segs i).nursery_end
      = signal_after_abort s i := by
    rw [hwake, segs_set, if_pos rfl]
  simp only [wp_bind]
  refine wp_finish_transaction ?_ ?_ ?_
  · rw [ht, segs_set, if_pos rfl]
    exact hseg.thread.mpr hpc
  · rw [ht]
    exact hseg.in_use.mpr hpc
  simp only [wp_bind, wp_cond_broadcast, s_mutex_unlock, wp_modify, wp_leave]
  rw [release_broadcast, release_finish, hne, hwake]
  have hfinish : ∀ u : State, (u.set i ({ · with nursery_end := signal_after_abort s i })).finish i
      (signal_after_abort s i) = u.finish i (signal_after_abort s i) := by
    intro u
    refine State.ext (funext fun k => ?_) rfl rfl rfl rfl rfl rfl rfl
    simp only [State.finish, segs_set, if_true]
    split_ifs <;> rfl
  rw [hfinish]
  have hfield : ∀ {α : Type} (g : Segment → α), (∀ seg pc, g { seg with pc := pc } = g seg) →
      g (((s.wake_done i).broadcast .c_aborted).segs i) = g (s.segs i) := by
    intro α g hg
    exact (wake_field g (hg _)).trans (wake_done_field g hg)
  have hpaused : (s.wake_done i).pause_signalled = s.pause_signalled := by
    unfold State.wake_done
    split_ifs <;> rfl
  refine (h.wake_done.wake .c_aborted).finish hi ?_ ?_ ?_ ?_ ?_ ?_ ?_ ?_
  · have hwoken : ((s.wake_done i).segs i).pc.locked = (s.segs i).pc.locked := by
      unfold State.wake_done
      split_ifs
      · exact wake_pc Pc.locked fun _ => rfl
      · rfl
    exact (wake_pc Pc.locked fun _ => rfl).trans (hwoken.trans hlocked)
  · exact (hfield Segment.modified_old_objects fun _ _ => rfl).trans hmod
  · intro k hk hki
    exact h.no_awaits_done hk (awaits_done_of_wake hki).2
  · intro k hk hki
    exact (awaits_abort_of_wake hki).1 rfl
  · intro _ hinev
    have := (hfield Segment.transaction_state fun _ _ => rfl).symm.trans hinev
    rw [hreg] at this
    cases this
  · unfold signal_after_abort must_abort
    cases hsig : (s.segs i).nursery_end <;> cases s.pause_signalled <;> simp [NurseryEnd.is_abort]
  · show _ → (s.wake_done i).pause_signalled = false
    rw [hpaused]
    unfold signal_after_abort must_abort
    intro hend
    cases hsignalled : s.pause_signalled
    · rfl
    · -- no regular transaction has NURSERY_END then
      have := hseg.paused hsignalled
      cases hsig : (s.segs i).nursery_end <;> simp_all [NurseryEnd.is_abort]
  · show _ → (s.wake_done i).pause_signalled = true
    rw [hpaused]
    unfold signal_after_abort must_abort
    have := hseg.pause
    intro hpause
    cases hsig : (s.segs i).nursery_end <;> simp_all [NurseryEnd.is_abort]

/-- **An abort.** The assertions of `abort_with_mutex` and of all it calls
hold, in particular none of the fatal errors of
`abort_data_structures_from_segment_num` occurs. -/
theorem wp_abort_with_mutex {α : Type} {Q : α → State → Prop} (h : Inv NB_SEGMENTS s)
    (hi : i ∈ segment_nums NB_SEGMENTS) (hlocked : (s.segs i).pc.locked = true)
    (hreg : (s.segs i).transaction_state = .ts_regular) :
    wp (abort_with_mutex i) Q (Inv NB_SEGMENTS) s := by
  have hself : (s.reset_modified i).segs i = { s.segs i with modified_old_objects := [] } := by
    unfold State.reset_modified
    dsimp only
    rw [segs_set, if_pos rfl]
  unfold abort_with_mutex abort_data_structures_from_segment_num
  simp only [wp_bind, wp_get, wp_assert]
  refine ⟨hreg, wp_reset_modified h.locks hi ?_⟩
  have hfinish : ∀ t, t = (s.reset_modified i).set i
      ({ · with nursery_end := signal_after_abort (s.reset_modified i) i }) → _ := fun t ht =>
    wp_finish_abort (Q := Q) (h.reset_modified hi) hi (by rw [hself]; exact hlocked)
      (by rw [hself]; exact hreg) (by rw [hself]) ht
  simp only [wp_bind, wp_get, wp_ifThen, wp_set_segment] at hfinish ⊢
  unfold signal_after_abort at hfinish
  by_cases habort : must_abort (s.reset_modified i) i = true
  · rw [if_pos habort]
    rw [if_pos habort] at hfinish
    exact hfinish _ rfl
  · rw [if_neg habort]
    rw [if_neg habort] at hfinish
    refine hfinish _ ?_
    refine State.ext (funext fun k => ?_) rfl rfl rfl rfl rfl rfl rfl
    rw [segs_set]
    split_ifs with hki
    · rw [hki]
    · rfl

end Stmgc.C7.Sync
