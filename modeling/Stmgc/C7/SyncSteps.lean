/-
Every step of the synchronization keeps the invariant, and fails no assertion.

There is one lemma for each C function of `Sync`, in the order in which they
call each other: from the invariant, and from what its callers have checked, no
assertion of the function fails, and the invariant holds again wherever the
thread releases the mutex. [`step_spec`] puts them together; the only fault
left is a program that calls `stm_abort_transaction` in an inevitable
transaction.
-/
import Stmgc.C7.SyncInv

namespace Stmgc.C7.Sync

open Stmgc.Lib Stmgc.Lib.Exec

variable {NB_SEGMENTS : ℕ} {s t : State} {i j k other : ℕ} {Q : Unit → State → Prop}
  {R : State → Prop}

/-! ## Signals -/

/-- What signals and wakeups leave as it is. -/
structure Kept (s t : State) : Prop where
  pause : t.pause_signalled = s.pause_signalled
  unique : t.globally_unique_transaction = s.globally_unique_transaction
  mutex : t.mutex = s.mutex
  transaction_state : ∀ k, (t.segs k).transaction_state = (s.segs k).transaction_state
  safe_point : ∀ k, (t.segs k).safe_point = (s.segs k).safe_point
  signal_when_done : ∀ k, (s.segs k).signal_when_done = true →
    (t.segs k).signal_when_done = true
  awaits_done : ∀ k, (s.segs k).pc.awaits_done = none → (t.segs k).pc.awaits_done = none
  pc : ∀ k, (s.segs k).pc.locked = true → (t.segs k).pc = (s.segs k).pc

theorem Kept.refl : Kept s s := ⟨rfl, rfl, rfl, fun _ => rfl, fun _ => rfl, fun _ h => h,
  fun _ h => h, fun _ _ => rfl⟩

theorem Kept.trans {u : State} (h : Kept s t) (h' : Kept t u) : Kept s u where
  pause := h'.pause.trans h.pause
  unique := h'.unique.trans h.unique
  mutex := h'.mutex.trans h.mutex
  transaction_state k := (h'.transaction_state k).trans (h.transaction_state k)
  safe_point k := (h'.safe_point k).trans (h.safe_point k)
  signal_when_done k hk := h'.signal_when_done k (h.signal_when_done k hk)
  awaits_done k hk := h'.awaits_done k (h.awaits_done k hk)
  pc k hk := by
    have hpc := h.pc k hk
    rw [h'.pc k (by rw [hpc]; exact hk), hpc]

theorem kept_set {f : Segment → Segment} (hts : ∀ seg, (f seg).transaction_state = seg.transaction_state)
    (hsp : ∀ seg, (f seg).safe_point = seg.safe_point)
    (hsignal : ∀ seg, seg.signal_when_done = true → (f seg).signal_when_done = true)
    (hpc : ∀ seg, (f seg).pc = seg.pc) : Kept s (s.set i f) where
  pause := rfl
  unique := rfl
  mutex := rfl
  transaction_state k := by
    rw [segs_set]
    split_ifs with hki
    · rw [hts, hki]
    · rfl
  safe_point k := by
    rw [segs_set]
    split_ifs with hki
    · rw [hsp, hki]
    · rfl
  signal_when_done k hk := by
    rw [segs_set]
    split_ifs with hki
    · exact hsignal _ (hki ▸ hk)
    · exact hk
  awaits_done k hk := by
    rw [segs_set]
    split_ifs with hki
    · rw [hpc, ← hki, hk]
    · exact hk
  pc k _ := by
    rw [segs_set]
    split_ifs with hki
    · rw [hpc, hki]
    · rfl

theorem kept_broadcast {c : CondType} : Kept s (s.broadcast c) where
  pause := rfl
  unique := rfl
  mutex := rfl
  transaction_state _ := wake_field Segment.transaction_state fun _ => rfl
  safe_point _ := wake_field Segment.safe_point fun _ => rfl
  signal_when_done k hk := (wake_field Segment.signal_when_done fun _ => rfl).trans hk
  awaits_done k hk := by
    by_contra hne
    obtain ⟨j, hj⟩ := Option.ne_none_iff_exists'.mp hne
    rw [(awaits_done_of_wake hj).2] at hk
    cases hk
  pc k hk := by
    show ((s.segs k).wake c).pc = _
    unfold Segment.wake
    split
    · rename_i w hw
      rw [hw] at hk
      cases hk
    · rfl

theorem Inv.broadcast (h : Inv NB_SEGMENTS s) (c : CondType) : Inv NB_SEGMENTS (s.broadcast c) :=
  h.wake c

/-- A signal of which the thread itself, or `contention_management` in another
one, has checked that it may be set. -/
theorem Inv.set_nursery_end (h : Inv NB_SEGMENTS s) (hi : i ∈ segment_nums NB_SEGMENTS)
    (soon : Bool) {f : Segment → Segment} {signal : NurseryEnd}
    (hf : f (s.segs i) = { s.segs i with
      nursery_end := signal, signalled_to_commit_soon := soon })
    (hend : signal = .nursery_end → s.pause_signalled = false)
    (hpause : signal = .nse_sigpause → s.pause_signalled = true)
    (hsig : signal = .nse_sigabort → (s.segs i).transaction_state = .ts_regular)
    (hsoon : signal = .nse_sigcommitsoon → s.pause_signalled = false)
    (hold : (s.segs i).nursery_end = .nse_sigabort → signal = .nse_sigabort)
    (hunique : s.globally_unique_transaction = true →
      (s.segs i).transaction_state = .ts_inevitable → (s.segs i).nursery_end ≠ .nursery_end)
    (hsync : (s.segs i).pc = .has_mutex ∨ (s.segs i).pc.locked = false) :
    Inv NB_SEGMENTS (s.set i f) := by
  have hseg := h.seg i hi
  unfold State.seg_inv at hseg
  refine h.update_fields hi (by rw [hf]) (by rw [hf]) (by rw [hf]) ?_ (.inl (by rw [hf]))
    (by rw [hf]; exact id) ?_ (by rw [hf]; exact hold)
  · rw [hf]
    refine ⟨hseg.safe_point, hseg.idle, hseg.thread, hseg.in_use, hseg.holder, ?_, hpause, hsig,
      hseg.alone, ?_, hseg.wait_ok, ?_, ?_⟩
    · intro hp hne
      rw [hend hne] at hp
      cases hp
    · intro hr
      obtain ⟨hp, hu, -⟩ := hseg.requester hr
      refine ⟨hp, hu, fun hne => ?_⟩
      rw [hsoon hne] at hp
      cases hp
    · intro hr
      rw [show (s.segs i).pc = _ from hr] at hsync
      rcases hsync with hsync | hsync <;> cases hsync
    · intro c hc
      rw [show (s.segs i).pc = _ from hc] at hsync
      rcases hsync with hsync | hsync <;> cases hsync
  · exact fun hu hts hne => absurd hne (hunique hu hts)

/-- The thread that has the mutex is the only one. -/
theorem Inv.not_locked (h : Inv NB_SEGMENTS s) (hi : i ∈ segment_nums NB_SEGMENTS)
    (hk : k ∈ segment_nums NB_SEGMENTS) (hlocked : (s.segs i).pc.locked = true) (hki : k ≠ i) :
    (s.segs k).pc.locked = false := by
  have hmutex := (h.seg i hi).holder.mpr hlocked
  by_contra hne
  have := (h.seg k hk).holder.mpr (by simpa using hne)
  rw [hmutex, Option.some.injEq] at this
  exact hki this.symm

theorem wp_signal_other_to_commit_soon (h : Inv NB_SEGMENTS s) (hi : i ∈ segment_nums NB_SEGMENTS)
    (hother : other ∈ segment_nums NB_SEGMENTS) (hlocked : (s.segs i).pc.locked = true)
    (hne : other ≠ i)
    (hQ : ∀ t, Inv NB_SEGMENTS t → Kept s t → t.segs i = s.segs i → Q () t) :
    wp (signal_other_to_commit_soon other) Q R s := by
  unfold signal_other_to_commit_soon
  simp only [wp_bind, wp_get, wp_ifThen, wp_set_segment]
  split_ifs with hsoon
  · obtain ⟨-, hsig, hpause⟩ := hsoon
    refine hQ _ ?_ (kept_set (fun _ => rfl) (fun _ => rfl) (fun _ h => h) fun _ => rfl) ?_
    · refine h.set_nursery_end hother (s.segs other).signalled_to_commit_soon rfl
        (by simp) (by simp) (by simp) (fun _ => hpause) ?_ ?_ (.inr (h.not_locked hi hother hlocked hne))
      · intro habort
        rw [habort] at hsig
        cases hsig
      · intro hu
        rw [(h.unique hu).1] at hpause
        cases hpause
    · rw [segs_set, if_neg hne.symm]
  · exact hQ s h .refl rfl

/-! ## Safe points -/

/-- The thread waits, with the mutex released. -/
theorem wp_cond_wait {α : Type} {Q : α → State → Prop} {R : State → Prop} {wait : CondWait} :
    wp (cond_wait i wait) Q R s
      ↔ R { s.set i ({ · with pc := .blocked wait }) with mutex := none } := Iff.rfl

/-- A thread of a transaction with the mutex. -/
structure Active (NB_SEGMENTS : ℕ) (s : State) (i : ℕ) : Prop where
  inv : Inv NB_SEGMENTS s
  mem : i ∈ segment_nums NB_SEGMENTS
  pc : (s.segs i).pc = .has_mutex

namespace Active

theorem seg (h : Active NB_SEGMENTS s i) : SegInv s.pause_signalled
    s.globally_unique_transaction (s.in_use1 i) (s.mutex = some i) (s.segs i) := h.inv.seg i h.mem

theorem locked (h : Active NB_SEGMENTS s i) : (s.segs i).pc.locked = true := by rw [h.pc]; rfl

theorem mutex (h : Active NB_SEGMENTS s i) : s.mutex = some i := h.seg.holder.mpr h.locked

theorem running (h : Active NB_SEGMENTS s i) : (s.segs i).safe_point = .sp_running := by
  rw [h.seg.safe_point, h.pc]
  rfl

theorem in_transaction (h : Active NB_SEGMENTS s i) :
    (s.segs i).transaction_state ≠ .ts_none := by
  rw [ne_eq, h.seg.idle, h.pc]
  nofun

theorem thread (h : Active NB_SEGMENTS s i) : (s.segs i).running_thread.isSome = true := by
  rw [h.seg.thread, h.pc]
  nofun

theorem regular_of_must_abort (h : Active NB_SEGMENTS s i) (habort : must_abort s i = true) :
    (s.segs i).transaction_state = .ts_regular := by
  refine h.seg.aborting ?_
  unfold must_abort NurseryEnd.is_abort at habort
  split at habort
  · assumption
  · cases habort

theorem abort {α : Type} {Q : α → State → Prop} (h : Active NB_SEGMENTS s i)
    (hreg : (s.segs i).transaction_state = .ts_regular) :
    wp (abort_with_mutex i) Q (Inv NB_SEGMENTS) s :=
  wp_abort_with_mutex h.inv h.mem h.locked hreg

/-- The thread starts to wait at a safe point. -/
theorem wait (h : Active NB_SEGMENTS s i) {wait : CondWait} {f : Segment → Segment}
    (hf : f (s.segs i) = { s.segs i with pc := .blocked wait, safe_point := wait.safe_point })
    (hok : wait.state_ok (s.segs i).transaction_state)
    (hsp : wait.safe_point ≠ .sp_running)
    (habort : must_abort s i = false)
    (hrequester : (Pc.blocked wait).requester = true → s.pause_signalled = true
      ∧ s.globally_unique_transaction = false ∧ (s.segs i).nursery_end ≠ .nse_sigcommitsoon
      ∧ ∀ k ∈ segment_nums NB_SEGMENTS, (s.segs k).pc.requester = false)
    (hother : ∀ j, (Pc.blocked wait).other = some j → j ∈ segment_nums NB_SEGMENTS)
    (hdone : ∀ j, (Pc.blocked wait).awaits_done = some j → j ≠ i
      ∧ (s.segs j).signal_when_done = true ∧ (s.segs j).transaction_state ≠ .ts_none ∧ (s.segs j).pc.awaits_done = none) :
    Inv NB_SEGMENTS { s.set i f with mutex := none } := by
  have hseg := h.seg
  have hpc := h.pc
  refine h.inv.update_pc h.mem (.blocked wait) hf ?_ ?_ ?_ nofun ?_ hother hdone ?_ ?_
  · intro k hk hki
    rw [h.mutex]
    simp [Ne.symm hki]
  · refine ⟨rfl, ?_, ?_, ?_, ?_, hseg.paused, hseg.pause, hseg.aborting, ?_, ?_, ?_, nofun, nofun⟩
    · exact iff_of_false h.in_transaction nofun
    · exact iff_of_true h.thread nofun
    · refine iff_of_true (hseg.in_use.mpr ?_) nofun
      rw [hpc]
      nofun
    · exact iff_of_false nofun nofun
    · exact fun _ hrun => absurd hrun hsp
    · exact fun hr => ⟨(hrequester hr).1, (hrequester hr).2.1, (hrequester hr).2.2.1⟩
    · rintro w hw
      cases hw
      exact hok
  · exact fun hr k hk _ => (hrequester hr).2.2.2 k hk
  · exact fun hrun => absurd hrun hsp
  · intro j hj
    cases wait <;> cases hj
    exact absurd rfl hsp
  · intro _ hsig
    unfold must_abort at habort
    rw [hsig] at habort
    cases habort

end Active

/-- Where `enter_safe_point_if_requested` returns, no signal is left. -/
structure Entered (NB_SEGMENTS : ℕ) (s t : State) (i : ℕ) : Prop where
  active : Active NB_SEGMENTS t i
  nursery_end : (t.segs i).nursery_end = .nursery_end
  state : (t.segs i).transaction_state = (s.segs i).transaction_state

/-- A globally unique transaction is inevitable. -/
theorem Entered.inevitable (h : Entered NB_SEGMENTS s t i)
    (hu : t.globally_unique_transaction = true) : (t.segs i).transaction_state = .ts_inevitable :=
  (h.active.seg.paused (h.active.inv.unique hu).1 h.nursery_end).2

theorem Active.broadcast (h : Active NB_SEGMENTS s i) (c : CondType) :
    Active NB_SEGMENTS (s.broadcast c) i where
  inv := h.inv.broadcast c
  mem := h.mem
  pc := (kept_broadcast.pc i h.locked).trans h.pc

theorem Active.set (h : Active NB_SEGMENTS s i) {f : Segment → Segment}
    (hinv : Inv NB_SEGMENTS (s.set i f)) (hpc : ∀ seg, (f seg).pc = seg.pc) :
    Active NB_SEGMENTS (s.set i f) i where
  inv := hinv
  mem := h.mem
  pc := by rw [segs_set, if_pos rfl, hpc, h.pc]

theorem must_abort_eq_false (h : (s.segs i).nursery_end ≠ .nse_sigabort) :
    must_abort s i = false := by
  unfold must_abort NurseryEnd.is_abort
  split
  · contradiction
  · rfl

/-- The end of a turn: the thread waits until the request is removed. -/
theorem Active.wait_request_removed (h : Active NB_SEGMENTS s i) {caller : SafePointCaller}
    (hok : (CondWait.request_removed caller).state_ok (s.segs i).transaction_state)
    (hpause : (s.segs i).nursery_end = .nse_sigpause) :
    wp (do
      Exec.assert ((s.segs i).nursery_end = .nse_sigpause)
      Exec.assert (s.pause_signalled = true)
      cond_broadcast .c_at_safe_point
      set_segment i ({ · with safe_point := .sp_wait_for_c_request_removed })
      cond_wait i (.request_removed caller) : Exec State Unit) Q (Inv NB_SEGMENTS) s := by
  have hkept : Kept s (s.broadcast .c_at_safe_point) := kept_broadcast
  have hne : ((s.broadcast .c_at_safe_point).segs i).nursery_end = .nse_sigpause :=
    (wake_field Segment.nursery_end fun _ => rfl).trans hpause
  simp only [wp_bind, wp_assert, wp_cond_broadcast, wp_set_segment, wp_cond_wait, set_set]
  refine ⟨hpause, h.seg.pause hpause, ?_⟩
  refine (h.broadcast _).wait rfl ?_ (by simp [CondWait.safe_point]) ?_ (by intros; contradiction)
    (by intros; contradiction) (by intros; contradiction)
  · rw [hkept.transaction_state]
    exact hok
  · exact must_abort_eq_false (by rw [hne]; simp)

theorem wp_enter_safe_point_turn {caller : SafePointCaller}
    (h : Active NB_SEGMENTS s i)
    (hok : (CondWait.request_removed caller).state_ok (s.segs i).transaction_state)
    (hQ : ∀ t, Entered NB_SEGMENTS s t i → Q () t) :
    wp (enter_safe_point_turn i caller) Q (Inv NB_SEGMENTS) s := by
  unfold enter_safe_point_turn
  rw [wp_bind, wp_get, wp_ite]
  by_cases habort : must_abort s i = true
  · rw [if_pos habort]
    exact h.abort (h.regular_of_must_abort habort)
  rw [if_neg habort, wp_ite]
  by_cases hend : (s.segs i).nursery_end = .nursery_end
  · rw [if_pos hend]
    exact hQ s ⟨h, hend, rfl⟩
  rw [if_neg hend, wp_bind, wp_ifThen]
  by_cases hsoon : (s.segs i).nursery_end = .nse_sigcommitsoon
  · have hset : ∀ signal, (signal = .nursery_end → s.pause_signalled = false) →
        (signal = .nse_sigpause → s.pause_signalled = true) →
        signal ≠ .nse_sigabort → signal ≠ .nse_sigcommitsoon →
        Active NB_SEGMENTS
          (s.set i ({ · with signalled_to_commit_soon := true, nursery_end := signal })) i := by
      intro signal hend' hpause hsig hsoon'
      refine h.set ?_ fun _ => rfl
      refine h.inv.set_nursery_end h.mem true rfl hend' hpause (fun h => absurd h hsig)
        (fun h => absurd h hsoon') ?_ ?_ (.inl h.pc)
      · intro hold
        rw [hsoon] at hold
        cases hold
      · intro _ _ hne
        exact hend hne
    rw [if_pos hsoon, wp_set_segment, wp_ite]
    cases hpause : s.pause_signalled
    · -- the signal to commit soon was all there was
      rw [if_pos ⟨hsoon, rfl⟩]
      refine hQ _ ⟨hset _ (fun _ => hpause) nofun nofun nofun, ?_, ?_⟩
      · rw [segs_set, if_pos rfl]
        rfl
      · rw [segs_set, if_pos rfl]
    · -- it has overwritten a request to pause
      rw [if_neg (by simp), wp_bind, wp_get]
      refine (hset .nse_sigpause nofun (fun _ => hpause) nofun nofun).wait_request_removed ?_ ?_
      · rw [segs_set, if_pos rfl]
        exact hok
      · rw [segs_set, if_pos rfl]
  · rw [if_neg hsoon, wp_ite, if_neg fun hs => hsoon hs.1, wp_bind, wp_get]
    refine h.wait_request_removed hok ?_
    unfold must_abort NurseryEnd.is_abort at habort
    cases hne : (s.segs i).nursery_end <;> simp_all

theorem wp_enter_safe_point_if_requested {caller : SafePointCaller}
    (h : Active NB_SEGMENTS s i)
    (hok : (CondWait.request_removed caller).state_ok (s.segs i).transaction_state)
    (hQ : ∀ t, Entered NB_SEGMENTS s t i → Q () t) :
    wp (enter_safe_point_if_requested i caller) Q (Inv NB_SEGMENTS) s := by
  unfold enter_safe_point_if_requested
  rw [wp_bind, wp_get, wp_ite]
  split_ifs with hend
  · exact hQ s ⟨h, hend, rfl⟩
  · simp only [wp_bind, wp_assert]
    exact ⟨h.thread, h.mutex, wp_enter_safe_point_turn h hok hQ⟩

/-! ## Requests to pause -/

theorem set_congr {f g : Segment → Segment} (h : f (s.segs i) = g (s.segs i)) :
    s.set i f = s.set i g := by
  refine State.ext (funext fun k => ?_) rfl rfl rfl rfl rfl rfl rfl
  rw [segs_set, segs_set, h]

theorem set_self {f : Segment → Segment} (h : f (s.segs i) = s.segs i) : s.set i f = s := by
  refine State.ext (funext fun k => ?_) rfl rfl rfl rfl rfl rfl rfl
  rw [segs_set, h]
  split_ifs with hki
  · rw [hki]
  · rfl

/-- A loop that makes the same change to every segment. -/
theorem wp_forEach_segments {f : ℕ → Exec State Unit} {p : Segment → Prop}
    {g : Segment → Segment} (hf : ∀ k s (Q : Unit → State → Prop), p (s.segs k) →
      Q () (s.set k g) → wp (f k) Q R s) {ks : List ℕ} (hks : ks.Nodup)
    (hp : ∀ k ∈ ks, p (s.segs k))
    (hQ : Q () { s with segs := fun k => if k ∈ ks then g (s.segs k) else s.segs k }) :
    wp (forEach ks f) Q R s := by
  induction ks generalizing s with
  | nil => simpa [forEach] using hQ
  | cons k ks ih =>
      rw [List.nodup_cons] at hks
      rw [forEach, wp_bind]
      refine hf k s _ (hp k List.mem_cons_self) (ih hks.2 ?_ ?_)
      · intro l hl
        rw [segs_set, if_neg (ne_of_mem_of_not_mem hl hks.1)]
        exact hp l (List.mem_cons_of_mem k hl)
      · convert hQ using 1
        refine State.ext (funext fun l => ?_) rfl rfl rfl rfl rfl rfl rfl
        simp only [segs_set, List.mem_cons]
        by_cases hlk : l = k
        · simp [hlk, hks.1]
        · simp [hlk]

/-- `pause_signalled` and the signals of all segments change. -/
def State.signals (s : State) (pause unique : Bool) (e : ℕ → NurseryEnd) : State :=
  { s with
    segs := fun k => { s.segs k with nursery_end := e k }
    pause_signalled := pause
    globally_unique_transaction := unique
    safe_points_requested := pause }

theorem Inv.signals (h : Inv NB_SEGMENTS s) {e : ℕ → NurseryEnd} {pause unique : Bool}
    (hseg : ∀ k ∈ segment_nums NB_SEGMENTS, SegInv pause unique (s.in_use1 k)
      (s.mutex = some k) { s.segs k with nursery_end := e k })
    (habort : ∀ k, (s.segs k).nursery_end = .nse_sigabort → e k = .nse_sigabort)
    (hunique : unique = true → pause = true ∧ ∃ k ∈ segment_nums NB_SEGMENTS,
      (s.segs k).transaction_state = .ts_inevitable ∧ e k = .nursery_end) :
    Inv NB_SEGMENTS (s.signals pause unique e) where
  seg := hseg
  requested := rfl
  unique := hunique
  one_inevitable := h.one_inevitable
  one_requester := h.one_requester
  calm := h.calm
  other := h.other
  awaits_done := h.awaits_done
  awaits_abort k hk l hl := (h.awaits_abort k hk l hl).imp (habort l) id
  locks := h.locks.congr rfl (fun _ => rfl) fun _ => id
  acyclic_done := h.acyclic_done
  acyclic_abort := h.acyclic_abort

/-- What a segment owes to a request to pause. -/
theorem SegInv.signal {signalled unique in_use pause unique' : Bool} {holds : Prop} {seg : Segment}
    (h : SegInv signalled unique in_use holds seg) {e : NurseryEnd}
    (hend : pause = true → e = .nursery_end →
      unique' = true ∧ seg.transaction_state = .ts_inevitable)
    (hpause : e = .nse_sigpause → pause = true)
    (hsig : e = .nse_sigabort → seg.nursery_end = .nse_sigabort)
    (halone : unique' = true → seg.safe_point = .sp_running → ¬ holds →
      seg.transaction_state = .ts_inevitable)
    (hrequester : seg.pc.requester = true → pause = true ∧ unique' = false
      ∧ e ≠ .nse_sigcommitsoon)
    (hsync : ∀ c, seg.pc = .synchronized c → e = .nursery_end) :
    SegInv pause unique' in_use holds { seg with nursery_end := e } :=
  ⟨h.safe_point, h.idle, h.thread, h.in_use, h.holder, hend, hpause,
    fun hs => h.aborting (hsig hs), halone, hrequester, h.wait_ok,
    fun hr => ⟨(h.restart hr).1, fun hs => (h.restart hr).2 (hsig hs)⟩, hsync⟩

theorem nodup_segment_nums : (segment_nums NB_SEGMENTS).Nodup := List.nodup_range'

/-- The signal that `signal_everybody_to_pause_running` leaves. -/
def NurseryEnd.to_pause : NurseryEnd → NurseryEnd
  | .nursery_end => .nse_sigpause
  | e => e

/-- The signal that `remove_requests_for_safe_point` leaves. -/
def NurseryEnd.without_pause : NurseryEnd → NurseryEnd
  | .nse_sigpause => .nursery_end
  | e => e

/-- The signals of the existing segments after a change. -/
def changed (NB_SEGMENTS : ℕ) (s : State) (f : NurseryEnd → NurseryEnd) (k : ℕ) : NurseryEnd :=
  if k ∈ segment_nums NB_SEGMENTS then f (s.segs k).nursery_end else (s.segs k).nursery_end

theorem wp_signal_everybody_to_pause_running (hmutex : s.mutex = some i)
    (hrequested : s.safe_points_requested = false) (hpause : s.pause_signalled = false)
    (hQ : Q () (s.signals true s.globally_unique_transaction
      (changed NB_SEGMENTS s NurseryEnd.to_pause))) :
    wp (signal_everybody_to_pause_running NB_SEGMENTS i) Q R s := by
  unfold signal_everybody_to_pause_running
  simp only [wp_bind, wp_get, wp_assert, wp_modify]
  refine ⟨hrequested, hmutex, ?_⟩
  refine wp_forEach_segments (p := fun _ => True)
    (g := fun seg => { seg with nursery_end := seg.nursery_end.to_pause }) ?_ nodup_segment_nums
    (fun _ _ => trivial) ?_
  · intro k u Q' _ hQ'
    simp only [wp_bind, wp_get, wp_ifThen, wp_set_segment]
    split_ifs with hend
    · rwa [set_congr (g := fun seg => { seg with nursery_end := seg.nursery_end.to_pause })]
      rw [hend]
      rfl
    · rwa [set_self] at hQ'
      cases hne : (u.segs k).nursery_end
      · exact absurd hne hend
      all_goals
        unfold NurseryEnd.to_pause
        simp [← hne]
  · simp only [wp_bind, wp_assert, wp_modify]
    refine ⟨hpause, ?_⟩
    convert hQ using 1
    refine State.ext (funext fun k => ?_) rfl rfl rfl rfl rfl rfl rfl
    unfold State.signals changed
    dsimp only
    split_ifs <;> rfl

theorem wp_remove_requests_for_safe_point (hpause : s.pause_signalled = true)
    (hrequested : s.safe_points_requested = true)
    (hend : ∀ k ∈ segment_nums NB_SEGMENTS, (s.segs k).nursery_end ≠ .nursery_end)
    (hQ : Q () ((s.signals false s.globally_unique_transaction
      (changed NB_SEGMENTS s NurseryEnd.without_pause)).broadcast .c_request_removed)) :
    wp (remove_requests_for_safe_point NB_SEGMENTS) Q R s := by
  unfold remove_requests_for_safe_point
  simp only [wp_bind, wp_get, wp_assert, wp_modify]
  refine ⟨hpause, hrequested, ?_⟩
  refine wp_forEach_segments (p := fun seg => seg.nursery_end ≠ .nursery_end)
    (g := fun seg => { seg with nursery_end := seg.nursery_end.without_pause }) ?_
    nodup_segment_nums hend ?_
  · intro k u Q' hne hQ'
    simp only [wp_bind, wp_get, wp_ifThen, wp_set_segment, wp_assert]
    refine ⟨hne, ?_⟩
    split_ifs with hsig
    · rwa [set_congr (g := fun seg => { seg with nursery_end := seg.nursery_end.without_pause })]
      rw [hsig]
      rfl
    · rwa [set_self] at hQ'
      cases hcase : (u.segs k).nursery_end
      case nse_sigpause => exact absurd hcase hsig
      all_goals
        unfold NurseryEnd.without_pause
        simp [← hcase]
  · rw [wp_cond_broadcast]
    convert hQ using 2
    refine State.ext (funext fun k => ?_) rfl rfl rfl rfl rfl rfl rfl
    unfold State.signals changed
    dsimp only
    split_ifs <;> rfl

theorem wp_count_other_threads_sp_running {Q : ℕ → State → Prop}
    (hend : ∀ k ∈ segment_nums NB_SEGMENTS, k ≠ i → (s.segs k).safe_point = .sp_running →
      (s.segs k).nursery_end ≠ .nursery_end)
    (hQ : Q ((segment_nums NB_SEGMENTS).countP
      fun k => decide (k ≠ i ∧ (s.segs k).safe_point = .sp_running)) s) :
    wp (count_other_threads_sp_running NB_SEGMENTS i) Q R s := by
  unfold count_other_threads_sp_running
  simp only [wp_bind, wp_get]
  have hloop : ∀ ks, (∀ k ∈ ks, k ∈ segment_nums NB_SEGMENTS) → wp (forEach ks fun k =>
      Exec.ifThen (k ≠ i ∧ (s.segs k).safe_point = .sp_running) <|
        Exec.assert ((s.segs k).nursery_end ≠ .nursery_end)) (fun _ => (· = s)) R s := by
    intro ks hks
    induction ks with
    | nil => rfl
    | cons k ks ih =>
        rw [forEach, wp_bind, wp_ifThen]
        have hrest := ih fun l hl => hks l (List.mem_cons_of_mem k hl)
        split_ifs with hrun
        · rw [wp_assert]
          exact ⟨hend k (hks k List.mem_cons_self) hrun.1 hrun.2, hrest⟩
        · exact hrest
  refine (hloop _ fun _ hk => hk).mono ?_ fun _ h => h
  rintro _ _ rfl
  exact hQ

/-! ## `synchronize_all_threads` -/

theorem wp_synchronized {caller : SyncCaller} (h : Active NB_SEGMENTS s i)
    (hend : (s.segs i).nursery_end = .nursery_end)
    (hcalm : ∀ k ∈ segment_nums NB_SEGMENTS, k ≠ i → (s.segs k).safe_point ≠ .sp_running) :
    wp (synchronized i caller) Q (Inv NB_SEGMENTS) s := by
  have hseg := h.seg
  unfold synchronized
  simp only [wp_bind, wp_set_segment, wp_leave]
  show Inv NB_SEGMENTS
    { s.set i ({ · with pc := .synchronized caller }) with mutex := s.mutex }
  refine h.inv.update_pc h.mem (.synchronized caller) ?_
    (fun _ _ _ => Iff.rfl) ?_ (by intros; contradiction) (fun _ _ => hcalm) (fun _ => .inl h.running) (by intros; contradiction) (by intros; contradiction) (by intros; contradiction)
    ?_
  · dsimp only
    rw [h.running]
    rfl
  · refine ⟨rfl, ?_, ?_, ?_, ?_, hseg.paused, hseg.pause, hseg.aborting, ?_, (by intros; contradiction), (by intros; contradiction), (by simp),
      fun _ _ => hend⟩
    · exact iff_of_false h.in_transaction (by simp)
    · exact iff_of_true h.thread (by simp)
    · refine iff_of_true (hseg.in_use.mpr ?_) (by simp)
      rw [h.pc]
      simp
    · exact iff_of_true h.mutex rfl
    · exact fun _ _ hmutex => absurd h.mutex hmutex
  · rintro (hsp | hab)
    · exact absurd rfl hsp.2
    · exact absurd rfl hab

theorem Active.signals (h : Active NB_SEGMENTS s i) {pause unique : Bool} {e : ℕ → NurseryEnd}
    (hinv : Inv NB_SEGMENTS (s.signals pause unique e)) :
    Active NB_SEGMENTS (s.signals pause unique e) i := ⟨hinv, h.mem, h.pc⟩

/-- While a request to pause is made, `NURSERY_END` is nowhere. -/
theorem Inv.signalled (h : Inv NB_SEGMENTS s) (hpause : s.pause_signalled = true)
    (hunique : s.globally_unique_transaction = false) (hk : k ∈ segment_nums NB_SEGMENTS) :
    (s.segs k).nursery_end ≠ .nursery_end := by
  intro hend
  have := ((h.seg k hk).paused hpause hend).1
  rw [hunique] at this
  cases this

/-- The requests to pause are removed, when nobody waits for the others to pause. -/
theorem Inv.remove_requests (h : Inv NB_SEGMENTS s)
    (hrequester : ∀ k ∈ segment_nums NB_SEGMENTS, (s.segs k).pc.requester = false) :
    Inv NB_SEGMENTS (s.signals false false (changed NB_SEGMENTS s NurseryEnd.without_pause)) := by
  refine h.signals (fun k hk => ?_) (fun k hk => ?_) (by simp)
  · have hseg := h.seg k hk
    unfold changed
    rw [if_pos hk]
    refine hseg.signal (by simp) ?_ ?_ (by simp) ?_ ?_
    · intro hpause
      unfold NurseryEnd.without_pause at hpause
      split at hpause
      · cases hpause
      · contradiction
    · intro hsig
      unfold NurseryEnd.without_pause at hsig
      split at hsig
      · cases hsig
      · exact hsig
    · intro hr
      rw [hrequester k hk] at hr
      cases hr
    · intro c hc
      rw [hseg.synchronized c hc]
      rfl
  · unfold changed
    rw [hk]
    split_ifs <;> rfl

theorem at_safe_point_state_ok {caller : SyncCaller} {ts : TransactionState}
    (h : (CondWait.request_removed (.synchronize_all_threads caller)).state_ok ts) :
    (CondWait.at_safe_point caller).state_ok ts := by
  cases caller
  case become_globally_unique_transaction => exact h
  all_goals trivial

theorem wp_synchronize_turn {caller : SyncCaller} (h : Active NB_SEGMENTS s i)
    (hok : (CondWait.at_safe_point caller).state_ok (s.segs i).transaction_state)
    (hpause : s.pause_signalled = true) (hunique : s.globally_unique_transaction = false)
    (hne : (s.segs i).nursery_end = .nse_sigpause)
    (hrequester : ∀ k ∈ segment_nums NB_SEGMENTS, (s.segs k).pc.requester = false) :
    wp (synchronize_turn NB_SEGMENTS i caller) Q (Inv NB_SEGMENTS) s := by
  unfold synchronize_turn
  rw [wp_bind]
  refine wp_count_other_threads_sp_running (fun k hk _ _ => h.inv.signalled hpause hunique hk) ?_
  rw [wp_ite]
  split
  · -- somebody is still running
    simp only [wp_bind, wp_set_segment, wp_cond_wait, set_set]
    refine h.wait rfl hok (by simp [CondWait.safe_point]) (must_abort_eq_false (by rw [hne]; simp)) ?_
      (by intros; contradiction) (by intros; contradiction)
    exact fun _ => ⟨hpause, hunique, by rw [hne]; simp, hrequester⟩
  rename_i hrunning
  have hcalm : ∀ k ∈ segment_nums NB_SEGMENTS, k ≠ i → (s.segs k).safe_point ≠ .sp_running := by
    intro k hk hki hrun
    have hzero := Nat.eq_zero_of_not_pos hrunning
    rw [List.countP_eq_zero] at hzero
    exact hzero k hk (by simp [hki, hrun])
  rw [wp_ite]
  split_ifs with hcaller
  · -- everybody is paused for the globally unique transaction
    subst hcaller
    have hinev : (s.segs i).transaction_state = .ts_inevitable := hok
    simp only [wp_bind, wp_modify, wp_get, wp_assert, wp_set_segment]
    refine ⟨hne, ?_⟩
    have hstate : ({ s with globally_unique_transaction := true } : State).set i
        ({ · with nursery_end := .nursery_end }) = s.signals true true
          (fun k => if k = i then .nursery_end else (s.segs k).nursery_end) := by
      refine State.ext (funext fun k => ?_) rfl rfl rfl hpause rfl (h.inv.requested.trans hpause) rfl
      rw [segs_set]
      unfold State.signals
      dsimp only
      split_ifs with hki
      · rw [hki]
      · rfl
    rw [hstate]
    refine wp_synchronized (h.signals (h.inv.signals (fun k hk => ?_) (fun k hk => ?_) fun _ =>
      ⟨rfl, i, h.mem, hinev, if_pos rfl⟩)) (if_pos rfl) hcalm
    · have hseg := h.inv.seg k hk
      by_cases hki : k = i
      · subst hki
        rw [if_pos rfl]
        refine hseg.signal (fun _ _ => ⟨rfl, hinev⟩) (by simp) (by simp) (fun _ _ _ => hinev) ?_
          fun _ _ => rfl
        intro hr
        rw [hrequester k hk] at hr
        cases hr
      · rw [if_neg hki]
        refine hseg.signal ?_ (fun _ => rfl) id ?_ ?_ hseg.synchronized
        · exact fun _ hend => absurd hend (h.inv.signalled hpause hunique hk)
        · exact fun _ hrun => absurd hrun (hcalm k hk hki)
        · intro hr
          rw [hrequester k hk] at hr
          cases hr
    · split_ifs with hki
      · rw [hki, hne] at hk
        cases hk
      · exact hk
  · -- the requests are removed again, with the mutex held
    rw [wp_bind]
    refine wp_remove_requests_for_safe_point hpause (h.inv.requested.trans hpause)
      (fun k hk => h.inv.signalled hpause hunique hk) ?_
    rw [hunique]
    refine wp_synchronized ((h.signals (h.inv.remove_requests hrequester)).broadcast _)
      ?_ ?_
    · refine (wake_field Segment.nursery_end fun _ => rfl).trans ?_
      show changed NB_SEGMENTS s NurseryEnd.without_pause i = _
      unfold changed
      rw [if_pos h.mem, hne]
      rfl
    · intro k hk hki hrun
      rw [kept_broadcast.safe_point k] at hrun
      exact hcalm k hk hki hrun

theorem wp_synchronize_after_safe_point {caller : SyncCaller} (h : Active NB_SEGMENTS s i)
    (hok : (CondWait.request_removed (.synchronize_all_threads caller)).state_ok
      (s.segs i).transaction_state)
    (hend : (s.segs i).nursery_end = .nursery_end) :
    wp (synchronize_after_safe_point NB_SEGMENTS i caller) Q (Inv NB_SEGMENTS) s := by
  have hseg := h.seg
  unfold synchronize_after_safe_point
  rw [wp_bind, wp_get, wp_ite]
  split_ifs with hunique
  · -- only the globally unique transaction can get here
    have hpause := (h.inv.unique hunique).1
    have hinev := (hseg.paused hpause hend).2
    have hcalm : ∀ k ∈ segment_nums NB_SEGMENTS, k ≠ i →
        (s.segs k).safe_point ≠ .sp_running := by
      intro k hk hki hrun
      have hk' := (h.inv.seg k hk).alone hunique hrun ?_
      · exact hki (h.inv.one_inevitable k hk i h.mem hk' hinev)
      · rw [h.mutex, Option.some.injEq]
        exact hki.symm
    rw [wp_bind]
    refine wp_count_other_threads_sp_running (fun k hk hki hrun => absurd hrun (hcalm k hk hki)) ?_
    rw [wp_bind, wp_assert]
    refine ⟨?_, wp_synchronized h hend hcalm⟩
    rw [List.countP_eq_zero]
    intro k hk hrun
    rw [decide_eq_true_eq] at hrun
    exact hcalm k hk hrun.1 hrun.2
  · -- no request is made yet
    have hpause : s.pause_signalled = false := by
      by_contra hpause
      rw [Bool.not_eq_false] at hpause
      exact hunique (hseg.paused hpause hend).1
    rw [Bool.not_eq_true] at hunique
    have hrequester : ∀ k ∈ segment_nums NB_SEGMENTS, (s.segs k).pc.requester = false := by
      intro k hk
      by_contra hr
      rw [Bool.not_eq_false] at hr
      have := ((h.inv.seg k hk).requester hr).1
      rw [hpause] at this
      cases this
    rw [wp_bind]
    refine wp_signal_everybody_to_pause_running h.mutex (h.inv.requested.trans hpause) hpause ?_
    rw [hunique]
    refine wp_synchronize_turn (h.signals (h.inv.signals (fun k hk => ?_) (fun k hk => ?_) (by simp)))
      (at_safe_point_state_ok hok) rfl rfl ?_ hrequester
    · have hk' := h.inv.seg k hk
      unfold changed
      rw [if_pos hk]
      refine hk'.signal ?_ (fun _ => rfl) ?_ (by simp) ?_ ?_
      · intro _ hend'
        unfold NurseryEnd.to_pause at hend'
        split at hend'
        · cases hend'
        · contradiction
      · intro hsig
        unfold NurseryEnd.to_pause at hsig
        split at hsig
        · cases hsig
        · exact hsig
      · intro hr
        rw [hrequester k hk] at hr
        cases hr
      · intro c hc
        have := (h.inv.seg k hk).holder.mpr (by rw [hc]; rfl)
        rw [h.mutex, Option.some.injEq] at this
        rw [← this, h.pc] at hc
        cases hc
    · unfold changed
      rw [hk]
      split_ifs <;> rfl
    · show changed NB_SEGMENTS s NurseryEnd.to_pause i = _
      unfold changed
      rw [if_pos h.mem, hend]
      rfl

theorem wp_synchronize_all_threads {caller : SyncCaller} (h : Active NB_SEGMENTS s i)
    (hok : (CondWait.request_removed (.synchronize_all_threads caller)).state_ok
      (s.segs i).transaction_state) :
    wp (synchronize_all_threads NB_SEGMENTS i caller) Q (Inv NB_SEGMENTS) s := by
  unfold synchronize_all_threads
  rw [wp_bind]
  refine wp_enter_safe_point_if_requested h hok fun t ht => ?_
  exact wp_synchronize_after_safe_point ht.active (by rw [ht.state]; exact hok) ht.nursery_end

/-! ## Contention -/

theorem kept_reset_modified : Kept s (s.reset_modified i) := by
  have hfield : ∀ {α : Type} (g : Segment → α),
      (∀ seg objs, g { seg with modified_old_objects := objs } = g seg) →
      ∀ k, g ((s.reset_modified i).segs k) = g (s.segs k) := by
    intro α g hg k
    unfold State.reset_modified
    dsimp only
    rw [segs_set]
    split_ifs with hki
    · rw [hg, hki]
    · rfl
  have hpc := hfield Segment.pc fun _ _ => rfl
  exact ⟨rfl, rfl, rfl, hfield Segment.transaction_state fun _ _ => rfl,
    hfield Segment.safe_point fun _ _ => rfl,
    fun k hk => (hfield Segment.signal_when_done (fun _ _ => rfl) k).trans hk,
    fun k hk => (congrArg Pc.awaits_done (hpc k)).trans hk, fun k _ => hpc k⟩

/-- A field that the invariant does not mention may change. -/
theorem Active.signalled_to_commit_soon (h : Active NB_SEGMENTS s i) :
    Active NB_SEGMENTS (s.set i ({ · with signalled_to_commit_soon := true })) i := by
  refine h.set ?_ fun _ => rfl
  obtain ⟨h1, h2, h3, h4, h5, h6, h7, h8, h9, h10, h11, h12, h13⟩ := h.seg
  exact h.inv.update_fields h.mem rfl rfl rfl
    ⟨h1, h2, h3, h4, h5, h6, h7, h8, h9, h10, h11, h12, h13⟩ (.inl rfl) id (fun _ _ h => h) id

theorem wp_kill_other_thread (h : Active NB_SEGMENTS s i)
    (hother : other ∈ segment_nums NB_SEGMENTS)
    (hQ : ∀ t, Active NB_SEGMENTS t i → Kept s t →
      (t.segs i).nursery_end = (s.segs i).nursery_end → Q () t) :
    wp (kill_other_thread i other) Q R s := by
  have hsoon : ∀ u : State, Active NB_SEGMENTS u i → Kept s u →
      (u.segs i).nursery_end = (s.segs i).nursery_end →
      wp (Exec.ifThen ((s.segs i).signalled_to_commit_soon = false) <|
        set_segment i ({ · with signalled_to_commit_soon := true })) Q R u := by
    intro u hu hkept hne
    rw [wp_ifThen]
    split_ifs
    · rw [wp_set_segment]
      refine hQ _ hu.signalled_to_commit_soon (hkept.trans (kept_set (fun _ => rfl)
        (fun _ => rfl) (fun _ h => h) fun _ => rfl)) ?_
      rw [segs_set, if_pos rfl]
      exact hne
    · exact hQ u hu hkept hne
  unfold kill_other_thread
  rw [wp_bind, wp_get, wp_bind, wp_ifThen]
  split_ifs with habort
  · have hreg : (s.segs other).transaction_state = .ts_regular := by
      refine (h.inv.seg other hother).aborting ?_
      unfold is_aborting_now NurseryEnd.is_abort at habort
      cases hne : (s.segs other).nursery_end <;> simp_all
    unfold abort_data_structures_from_segment_num
    simp only [wp_bind, wp_get, wp_assert]
    refine ⟨hreg, wp_reset_modified h.inv.locks hother (hsoon _ ?_ kept_reset_modified ?_)⟩
    · exact ⟨h.inv.reset_modified hother, h.mem, (kept_reset_modified.pc i h.locked).trans h.pc⟩
    · unfold State.reset_modified
      dsimp only
      rw [segs_set]
      split_ifs with hio
      · rw [hio]
      · rfl
  · exact hsoon s h .refl rfl

/-- The thread waits for an abort, which is not a safe point. -/
theorem Active.wait_aborted (h : Active NB_SEGMENTS s i) {kind : Contention}
    (hother : other ∈ segment_nums NB_SEGMENTS) (hne : other ≠ i)
    (hok : (CondWait.aborted other kind).state_ok (s.segs i).transaction_state)
    (habort : must_abort s i = false)
    (hunique : s.globally_unique_transaction = true →
      (s.segs i).transaction_state = .ts_inevitable)
    (hsig : (s.segs other).nursery_end = .nse_sigabort)
    (hrun : (s.segs other).safe_point = .sp_running) :
    Inv NB_SEGMENTS
      { s.set i ({ · with pc := .blocked (.aborted other kind) }) with mutex := none } := by
  have hseg := h.seg
  refine h.inv.update_pc h.mem (.blocked (.aborted other kind)) ?_ ?_ ?_ nofun nofun
    (fun _ => .inl h.running) ?_ nofun ?_ ?_
  · dsimp only
    rw [h.running]
    rfl
  · intro k hk hki
    rw [h.mutex]
    simp [Ne.symm hki]
  · refine ⟨rfl, ?_, ?_, ?_, ?_, hseg.paused, hseg.pause, hseg.aborting, ?_, nofun, ?_, nofun,
      nofun⟩
    · exact iff_of_false h.in_transaction nofun
    · exact iff_of_true h.thread nofun
    · refine iff_of_true (hseg.in_use.mpr ?_) nofun
      rw [h.pc]
      nofun
    · exact iff_of_false nofun nofun
    · exact fun hu _ _ => hunique hu
    · rintro w hw
      cases hw
      exact hok
  · rintro j hj
    cases hj
    exact hother
  · rintro j hj
    cases hj
    exact ⟨hne, hsig, hrun⟩
  · intro _ hsig'
    unfold must_abort at habort
    rw [hsig'] at habort
    cases habort

theorem no_transaction_of_safe_point {pc : Pc} (h : pc.safe_point = .sp_no_transaction) :
    pc = .no_transaction := by
  unfold Pc.safe_point CondWait.safe_point at h
  split at h
  · rfl
  · split at h <;> cases h
  · split at h <;> cases h
  · cases h

theorem fix_choices_abort_other {cm : contmgr_s}
    (h : (fix_choices s i other cm).abort_other = true) :
    (s.segs other).nursery_end.is_abort = true
      ∨ (s.segs i).transaction_state = .ts_inevitable
      ∨ (s.segs other).transaction_state ≠ .ts_inevitable := by
  unfold fix_choices at h
  split_ifs at h <;> simp_all

theorem fix_choices_abort_self {cm : contmgr_s}
    (h : (fix_choices s i other cm).abort_other = false) :
    (s.segs i).transaction_state ≠ .ts_inevitable := by
  unfold fix_choices at h
  split_ifs at h <;> simp_all

/-- The signal to abort goes to a regular transaction only. -/
theorem Active.regular_of_abort_other (h : Active NB_SEGMENTS s i) {cm : contmgr_s}
    (hother : other ∈ segment_nums NB_SEGMENTS) (hne : other ≠ i)
    (hnone : (s.segs other).transaction_state ≠ .ts_none)
    (habort : (fix_choices s i other cm).abort_other = true) :
    (s.segs other).transaction_state = .ts_regular := by
  have hinev : (s.segs other).nursery_end.is_abort = true
      ∨ (s.segs other).transaction_state ≠ .ts_inevitable := by
    rcases fix_choices_abort_other habort with h' | h' | h'
    · exact .inl h'
    · exact .inr fun ho => hne (h.inv.one_inevitable other hother i h.mem ho h')
    · exact .inr h'
  rcases hinev with hsig | hinev
  · refine (h.inv.seg other hother).aborting ?_
    unfold NurseryEnd.is_abort at hsig
    split at hsig
    · assumption
    · cases hsig
  · cases hts : (s.segs other).transaction_state <;> simp_all

/-- What the callers of `contention_management` have checked. -/
structure Contends (NB_SEGMENTS : ℕ) (s : State) (i other : ℕ) (kind : Contention) : Prop where
  active : Active NB_SEGMENTS s i
  mem : other ∈ segment_nums NB_SEGMENTS
  ne : other ≠ i
  in_transaction : (s.segs other).transaction_state ≠ .ts_none
  inevitable : kind = .inevitable → (s.segs i).transaction_state = .ts_regular
    ∧ (s.segs other).transaction_state = .ts_inevitable
  unique : kind ≠ .inevitable → s.globally_unique_transaction = true →
    (s.segs i).transaction_state = .ts_inevitable

/-- The branch of `contention_management` that sleeps. -/
theorem Contends.sleep {kind : Contention} (h : Contends NB_SEGMENTS s i other kind)
    (habort : must_abort s i = false) (hkind : kind ≠ .write_write)
    (hawake : (s.segs other).safe_point ≠ .sp_wait_for_c_transaction_done) :
    wp (do
      set_segment other ({ · with signal_when_done := true })
      signal_other_to_commit_soon other
      cond_broadcast .c_at_safe_point
      set_segment i ({ · with safe_point := .sp_wait_for_c_transaction_done })
      cond_wait i (.transaction_done other kind) : Exec State Unit) Q (Inv NB_SEGMENTS) s := by
  have hactive := h.active
  -- the other thread does not wait in this way itself
  have hdone : (s.segs other).pc.awaits_done = none := by
    by_contra hne
    obtain ⟨j, hj⟩ := Option.ne_none_iff_exists'.mp hne
    refine hawake ?_
    rw [(h.active.inv.seg other h.mem).safe_point]
    unfold Pc.awaits_done at hj
    split at hj
    · rename_i hpc
      rw [hpc]
      rfl
    · cases hj
  have hinv1 : Inv NB_SEGMENTS (s.set other ({ · with signal_when_done := true })) := by
    obtain ⟨h1, h2, h3, h4, h5, h6, h7, h8, h9, h10, h11, h12, h13⟩ := h.active.inv.seg other h.mem
    exact h.active.inv.update_fields h.mem rfl rfl rfl
      ⟨h1, h2, h3, h4, h5, h6, h7, h8, h9, h10, h11, h12, h13⟩ (.inl rfl) (fun _ => rfl)
      (fun _ _ h => h) id
  have hkept1 : Kept s (s.set other ({ · with signal_when_done := true })) :=
    kept_set (fun _ => rfl) (fun _ => rfl) (fun _ _ => rfl) fun _ => rfl
  have hseg1 : (s.set other ({ · with signal_when_done := true })).segs i = s.segs i := by
    rw [segs_set, if_neg h.ne.symm]
  rw [wp_bind, wp_set_segment, wp_bind]
  refine wp_signal_other_to_commit_soon hinv1 hactive.mem h.mem ?_ h.ne fun t ht hkept2 hseg2 => ?_
  · rw [hseg1]
    exact hactive.locked
  have hkept := (hkept1.trans hkept2).trans (kept_broadcast (c := .c_at_safe_point))
  have hne : ((t.broadcast .c_at_safe_point).segs i).nursery_end = (s.segs i).nursery_end := by
    refine (wake_field Segment.nursery_end fun _ => rfl).trans ?_
    rw [hseg2, hseg1]
  simp only [wp_bind, wp_cond_broadcast, wp_set_segment, wp_cond_wait, set_set]
  have hbroadcast : Active NB_SEGMENTS (t.broadcast .c_at_safe_point) i :=
    ⟨ht.broadcast _, hactive.mem, (hkept.pc i hactive.locked).trans hactive.pc⟩
  refine hbroadcast.wait rfl ?_ (by simp [CondWait.safe_point]) ?_ (by intros; contradiction) ?_ ?_
  · rw [hkept.transaction_state]
    cases kind
    case write_write => exact absurd rfl hkind
    case write_read => trivial
    case inevitable => exact (h.inevitable rfl).1
  · unfold must_abort at habort ⊢
    rwa [hne]
  · rintro j hj
    cases hj
    exact h.mem
  · rintro j hj
    cases hj
    refine ⟨h.ne, ?_, ?_, hkept.awaits_done other hdone⟩
    · refine (hkept2.trans kept_broadcast).signal_when_done other ?_
      rw [segs_set, if_pos rfl]
    · rw [hkept.transaction_state]
      exact h.in_transaction

theorem wp_contention_management {kind : Contention} (h : Contends NB_SEGMENTS s i other kind)
    (hQ : ∀ t, Active NB_SEGMENTS t i → Kept s t →
      (t.segs i).nursery_end = (s.segs i).nursery_end → Q () t) :
    wp (contention_management i other kind) Q (Inv NB_SEGMENTS) s := by
  have hactive := h.active
  unfold contention_management
  rw [wp_bind, wp_get, wp_bind, wp_assert]
  refine ⟨hactive.mutex, ?_⟩
  rw [wp_bind, wp_assert]
  refine ⟨h.ne, ?_⟩
  rw [wp_ite]
  by_cases habort : must_abort s i = true
  · rw [if_pos habort]
    exact hactive.abort (hactive.regular_of_must_abort habort)
  rw [if_neg habort]
  rw [Bool.not_eq_true] at habort
  have hassert : (s.segs other).nursery_end.is_abort = false
      ∧ (s.segs i).transaction_state = .ts_inevitable →
      (s.segs other).transaction_state ≠ .ts_inevitable :=
    fun hp ho => h.ne (hactive.inv.one_inevitable other h.mem i hactive.mem ho hp.2)
  rw [wp_bind, wp_ifThen_assert hassert]
  dsimp only
  rw [wp_ite]
  split
  · rename_i hsleep
    exact h.sleep habort hsleep.2.1 hsleep.2.2
  rw [wp_ite]
  split
  · -- the thread aborts itself
    rename_i hself
    rw [wp_bind]
    refine wp_signal_other_to_commit_soon hactive.inv hactive.mem h.mem hactive.locked h.ne
      fun t ht hkept _ => ?_
    have htactive : Active NB_SEGMENTS t i :=
      ⟨ht, hactive.mem, (hkept.pc i hactive.locked).trans hactive.pc⟩
    refine htactive.abort ?_
    rw [hkept.transaction_state]
    have hinev := fix_choices_abort_self hself
    have hnone := hactive.in_transaction
    cases hts : (s.segs i).transaction_state <;> simp_all
  rename_i hother
  rw [Bool.not_eq_false] at hother
  have hreg := hactive.regular_of_abort_other h.mem h.ne h.in_transaction hother
  -- the other thread gets its NSE_SIGABORT
  rw [wp_bind, wp_set_segment, wp_bind, wp_get]
  have hkept : Kept s (s.set other ({ · with nursery_end := .nse_sigabort })) :=
    kept_set (fun _ => rfl) (fun _ => rfl) (fun _ h => h) fun _ => rfl
  have hinv : Inv NB_SEGMENTS (s.set other ({ · with nursery_end := .nse_sigabort })) := by
    refine hactive.inv.set_nursery_end h.mem (s.segs other).signalled_to_commit_soon rfl (by simp)
      (by simp) (fun _ => hreg) (by simp) (fun _ => rfl) ?_
      (.inr (hactive.inv.not_locked hactive.mem h.mem hactive.locked h.ne))
    intro _ hinev
    rw [hreg] at hinev
    cases hinev
  generalize hu : s.set other ({ · with nursery_end := .nse_sigabort }) = u at hkept hinv ⊢
  have huactive : Active NB_SEGMENTS u i :=
    ⟨hinv, hactive.mem, (hkept.pc i hactive.locked).trans hactive.pc⟩
  have hself : (u.segs i).nursery_end = (s.segs i).nursery_end := by
    rw [← hu, segs_set, if_neg h.ne.symm]
  have hsig : (u.segs other).nursery_end = .nse_sigabort := by
    rw [← hu, segs_set, if_pos rfl]
  have hkill : ∀ c, wp (kill_other_thread i other) Q (Inv NB_SEGMENTS) (u.broadcast c) := by
    intro c
    refine wp_kill_other_thread (huactive.broadcast c) h.mem fun t ht hkept' hne => ?_
    refine hQ t ht ((hkept.trans kept_broadcast).trans hkept') ?_
    rw [hne, ← hself]
    exact wake_field Segment.nursery_end fun _ => rfl
  have hstay : must_abort u i = false := by
    unfold must_abort at habort ⊢
    rwa [hself]
  cases hsp : (u.segs other).safe_point with
  | sp_running =>
      dsimp only
      rw [hstay, wp_ite, if_neg (by simp), wp_bind, wp_cond_wait]
      refine huactive.wait_aborted h.mem h.ne ?_ hstay ?_ hsig hsp
      · rw [hkept.transaction_state]
        cases kind
        case inevitable => exact (h.inevitable rfl).1
        all_goals trivial
      · rw [hkept.unique, hkept.transaction_state]
        refine h.unique ?_
        rintro rfl
        rw [(h.inevitable rfl).2] at hreg
        cases hreg
  | sp_wait_for_c_request_removed => exact hkill _
  | sp_wait_for_c_at_safe_point => exact hkill _
  | sp_wait_for_c_transaction_done => exact hkill _
  | sp_no_transaction =>
      rw [hkept.safe_point, (hactive.inv.seg other h.mem).safe_point] at hsp
      exact absurd ((hactive.inv.seg other h.mem).idle.mpr
        (no_transaction_of_safe_point hsp)) h.in_transaction

/-! ## Unlocking -/

/-- The thread releases the mutex and goes on. -/
theorem Active.unlock (h : Active NB_SEGMENTS s i) {pc : Pc}
    (hpc : pc = .running ∨ pc = .starting)
    (hunique : s.globally_unique_transaction = true →
      (s.segs i).transaction_state = .ts_inevitable) :
    Inv NB_SEGMENTS { s.set i ({ · with pc := pc }) with mutex := none } := by
  have hseg := h.seg
  have hrun : pc.safe_point = .sp_running := by rcases hpc with rfl | rfl <;> rfl
  have hwait : pc.wait = none := by rcases hpc with rfl | rfl <;> rfl
  have hnone : pc ≠ .no_transaction := by rcases hpc with rfl | rfl <;> nofun
  have hlocked : pc.locked = false := by rcases hpc with rfl | rfl <;> rfl
  have hrequester : pc.requester = false := by rcases hpc with rfl | rfl <;> rfl
  have hother : pc.other = none := by rcases hpc with rfl | rfl <;> rfl
  have hdone : pc.awaits_done = none := by rcases hpc with rfl | rfl <;> rfl
  have habort : pc.awaits_abort = none := by rcases hpc with rfl | rfl <;> rfl
  refine h.inv.update_pc h.mem pc ?_ ?_ ?_ ?_ ?_ (fun _ => .inl h.running) ?_ ?_ ?_ ?_
  · rw [hrun, ← h.running]
  · intro k hk hki
    rw [h.mutex]
    simp [Ne.symm hki]
  · refine ⟨rfl, iff_of_false h.in_transaction hnone, iff_of_true h.thread hnone, ?_, ?_,
      hseg.paused, hseg.pause, hseg.aborting, fun hu _ _ => hunique hu, ?_, ?_, ?_, ?_⟩
    · refine iff_of_true (hseg.in_use.mpr ?_) hnone
      rw [h.pc]
      nofun
    · exact iff_of_false nofun (by simp [hlocked])
    · intro hr
      rw [show pc.requester = true from hr] at hrequester
      cases hrequester
    · intro w hw
      rw [show pc.wait = some w from hw] at hwait
      cases hwait
    · rintro rfl
      rcases hpc with hpc | hpc <;> cases hpc
    · rintro c rfl
      rcases hpc with hpc | hpc <;> cases hpc
  · intro hr
    rw [hrequester] at hr
    cases hr
  · rintro c rfl
    rcases hpc with hpc | hpc <;> cases hpc
  · intro j hj
    rw [hother] at hj
    cases hj
  · intro j hj
    rw [hdone] at hj
    cases hj
  · intro j hj
    rw [habort] at hj
    cases hj
  · rintro (hsp | hab)
    · exact absurd hrun hsp.2
    · exact absurd habort hab

/-! ## Transactions -/

/-- The mutex is acquired, at the start of a function or at the end of a
`cond_wait`. The thread is `SP_RUNNING` from then on. -/
theorem Inv.lock (h : Inv NB_SEGMENTS s) (hi : i ∈ segment_nums NB_SEGMENTS)
    (hmutex : s.mutex = none) {f : Segment → Segment}
    (hf : f (s.segs i) = { s.segs i with pc := .has_mutex, safe_point := .sp_running })
    (hpc : (s.segs i).pc ≠ .no_transaction) :
    Active NB_SEGMENTS { s.set i f with mutex := some i } i := by
  have hseg := h.seg i hi
  unfold State.seg_inv at hseg
  refine ⟨h.update_pc hi .has_mutex hf ?_ ?_ nofun nofun (fun _ => .inr ?_) nofun nofun nofun ?_,
    hi, ?_⟩
  · intro k _ hki
    rw [hmutex]
    exact iff_of_false (by simpa using hki.symm) nofun
  · refine ⟨rfl, ?_, ?_, ?_, iff_of_true rfl rfl, hseg.paused, hseg.pause, hseg.aborting, ?_,
      nofun, nofun, nofun, nofun⟩
    · exact iff_of_false (mt hseg.idle.mp hpc) nofun
    · exact iff_of_true (hseg.thread.mpr hpc) nofun
    · exact iff_of_true (hseg.in_use.mpr hpc) nofun
    · exact fun _ _ hne => absurd rfl hne
  · intro k hk c hc
    have := (h.seg k hk).holder.mpr (by rw [hc]; rfl)
    rw [hmutex] at this
    cases this
  · rintro (hsp | hab)
    · exact absurd rfl hsp.2
    · exact absurd rfl hab
  · dsimp only
    rw [segs_set, if_pos rfl, hf]

/-- A running thread acquires the mutex. -/
theorem Inv.lock_running (h : Inv NB_SEGMENTS s) (hi : i ∈ segment_nums NB_SEGMENTS)
    (hlock : can_lock s i) :
    Active NB_SEGMENTS { s.set i ({ · with pc := .has_mutex }) with mutex := some i } i := by
  obtain ⟨hpc, hmutex⟩ := hlock
  refine h.lock hi hmutex ?_ (by rw [hpc]; nofun)
  have := (h.seg i hi).safe_point
  rw [hpc] at this
  dsimp only
  rw [this]
  rfl

theorem wp_wait_for_end_of_inevitable_transaction (h : Active NB_SEGMENTS s i)
    (hreg : (s.segs i).transaction_state = .ts_regular)
    (hne : (s.segs i).nursery_end ≠ .nse_sigabort) :
    wp (wait_for_end_of_inevitable_transaction NB_SEGMENTS i) (fun _ => Inv NB_SEGMENTS)
      (Inv NB_SEGMENTS) s := by
  unfold wait_for_end_of_inevitable_transaction
  rw [wp_bind, wp_get]
  cases hfind : (segment_nums NB_SEGMENTS).find?
    fun k => decide ((s.segs k).transaction_state = .ts_inevitable) with
  | some other =>
      have hinev : (s.segs other).transaction_state = .ts_inevitable := by
        simpa using List.find?_some hfind
      have hmem := List.mem_of_find?_eq_some hfind
      have hother : other ≠ i := by
        rintro rfl
        rw [hreg] at hinev
        cases hinev
      dsimp only
      rw [wp_bind]
      refine wp_contention_management ⟨h, hmem, hother, by rw [hinev]; nofun,
        fun _ => ⟨hreg, hinev⟩, fun hk => absurd rfl hk⟩ fun t ht hkept hnet => ?_
      rw [wp_set_segment]
      show Inv NB_SEGMENTS
        { t.set i ({ · with pc := .restart_inevitable }) with mutex := t.mutex }
      have hseg := ht.seg
      refine ht.inv.update_pc ht.mem .restart_inevitable ?_ (fun _ _ _ => Iff.rfl) ?_ nofun nofun
        (fun _ => .inl ht.running) nofun nofun nofun ?_
      · dsimp only
        rw [ht.running]
        rfl
      · refine ⟨rfl, ?_, ?_, ?_, ?_, hseg.paused, hseg.pause, hseg.aborting, ?_, nofun, nofun, ?_,
          nofun⟩
        · exact iff_of_false ht.in_transaction nofun
        · exact iff_of_true ht.thread nofun
        · refine iff_of_true (hseg.in_use.mpr ?_) nofun
          rw [ht.pc]
          nofun
        · exact iff_of_true ht.mutex rfl
        · exact fun _ _ hmutex => absurd ht.mutex hmutex
        · exact fun _ => ⟨(hkept.transaction_state i).trans hreg, by rw [hnet]; exact hne⟩
      · rintro (hsp | hab)
        · exact absurd rfl hsp.2
        · exact absurd rfl hab
  | none =>
      rw [List.find?_eq_none] at hfind
      have hseg := h.seg
      dsimp only
      rw [wp_bind, wp_set_segment]
      have hinv : Inv NB_SEGMENTS (s.set i ({ · with transaction_state := .ts_inevitable })) := by
        refine h.inv.update_fields h.mem rfl rfl rfl ?_ (.inr ⟨rfl, ?_⟩) id (fun _ _ h => h) id
        · refine ⟨hseg.safe_point, ?_, hseg.thread, hseg.in_use, hseg.holder,
            fun hp hend => ⟨(hseg.paused hp hend).1, rfl⟩, hseg.pause, fun hs => absurd hs hne,
            fun _ _ _ => rfl, hseg.requester, ?_, ?_, hseg.synchronized⟩
          · refine iff_of_false nofun ?_
            rw [show (s.segs i).pc = _ from h.pc]
            nofun
          · intro w hw
            rw [show (s.segs i).pc = _ from h.pc] at hw
            cases hw
          · intro hr
            rw [show (s.segs i).pc = _ from h.pc] at hr
            cases hr
        · intro k hk
          simpa using hfind k hk
      unfold s_mutex_unlock
      rw [wp_modify]
      refine (h.set hinv fun _ => rfl).unlock (.inl rfl) fun _ => ?_
      rw [segs_set, if_pos rfl]

theorem wp_become_inevitable_after_safe_point (h : Entered NB_SEGMENTS s t i) :
    wp (become_inevitable_after_safe_point NB_SEGMENTS i) (fun _ => Inv NB_SEGMENTS)
      (Inv NB_SEGMENTS) t := by
  unfold become_inevitable_after_safe_point
  rw [wp_bind, wp_get, wp_ite]
  split
  · rename_i hreg
    exact wp_wait_for_end_of_inevitable_transaction h.active hreg (by rw [h.nursery_end]; simp)
  · rename_i hreg
    have hnone := h.active.in_transaction
    have hinev : (t.segs i).transaction_state = .ts_inevitable := by
      cases hts : (t.segs i).transaction_state <;> simp_all
    rw [wp_bind, wp_assert]
    exact ⟨hinev, h.active.unlock (.inl rfl) fun _ => hinev⟩

theorem wp_after_safe_point {caller : SafePointCaller} (h : Entered NB_SEGMENTS s t i)
    (hok : (CondWait.request_removed caller).state_ok (s.segs i).transaction_state) :
    wp (after_safe_point NB_SEGMENTS i caller) (fun _ => Inv NB_SEGMENTS) (Inv NB_SEGMENTS) t := by
  cases caller with
  | start_transaction => exact h.active.unlock (.inr rfl) h.inevitable
  | collectable_safe_point => exact h.active.unlock (.inl rfl) h.inevitable
  | become_inevitable => exact wp_become_inevitable_after_safe_point h
  | synchronize_all_threads caller =>
      refine wp_synchronize_after_safe_point h.active ?_ h.nursery_end
      rw [h.state]
      exact hok

theorem wp_lock_and_enter_safe_point {caller : SafePointCaller} (h : Inv NB_SEGMENTS s)
    (hi : i ∈ segment_nums NB_SEGMENTS) (hlock : can_lock s i)
    (hok : (CondWait.request_removed caller).state_ok (s.segs i).transaction_state) :
    wp (lock_and_enter_safe_point NB_SEGMENTS i caller) (fun _ => Inv NB_SEGMENTS)
      (Inv NB_SEGMENTS) s := by
  unfold lock_and_enter_safe_point s_mutex_lock
  rw [wp_bind, wp_modify, wp_bind]
  have hok' : (CondWait.request_removed caller).state_ok
      (({ s.set i ({ · with pc := .has_mutex }) with mutex := some i } : State).segs
        i).transaction_state := by
    dsimp only
    rwa [segs_set, if_pos rfl]
  exact wp_enter_safe_point_if_requested (h.lock_running hi hlock) hok' fun t ht =>
    wp_after_safe_point ht hok'

theorem wp_write_write_contention_management {x : ℕ} (h : Inv NB_SEGMENTS s)
    (hi : i ∈ segment_nums NB_SEGMENTS) (hlock : can_lock s i) :
    wp (write_write_contention_management i x) (fun _ => Inv NB_SEGMENTS) (Inv NB_SEGMENTS) s := by
  -- a thread that runs without the mutex is not stopped by another one
  have hunique : s.globally_unique_transaction = true →
      (s.segs i).transaction_state = .ts_inevitable := by
    have hseg := h.seg i hi
    intro hu
    refine hseg.alone hu ?_ (by rw [hlock.2]; nofun)
    rw [hseg.safe_point, hlock.1]
    rfl
  have hactive := h.lock_running hi hlock
  unfold write_write_contention_management s_mutex_lock s_mutex_unlock
  rw [wp_bind, wp_modify, wp_bind, wp_get]
  generalize hu : ({ s.set i ({ · with pc := .has_mutex }) with mutex := some i } : State) = u
    at hactive ⊢
  have hglobal : u.globally_unique_transaction = s.globally_unique_transaction := by rw [← hu]; rfl
  have hts : ∀ k, (u.segs k).transaction_state = (s.segs k).transaction_state := by
    intro k
    rw [← hu]
    dsimp only
    rw [segs_set]
    split_ifs with hki
    · rw [hki]
    · rfl
  have huunique : u.globally_unique_transaction = true →
      (u.segs i).transaction_state = .ts_inevitable := by
    rw [hglobal, hts]
    exact hunique
  dsimp only
  rw [wp_bind, wp_ifThen]
  split
  · rename_i howner
    obtain ⟨hmem, hmod⟩ := hactive.inv.locks.owner x howner.1
    refine wp_contention_management ⟨hactive, hmem, howner.2, ?_, nofun, fun _ => huunique⟩
      fun t ht hkept _ => ?_
    · intro hnone
      rw [hactive.inv.locks.idle _ hmem hnone] at hmod
      cases hmod
    · rw [wp_modify]
      refine ht.unlock (.inl rfl) ?_
      rw [hkept.unique, hkept.transaction_state]
      exact huunique
  · rw [wp_modify]
    exact hactive.unlock (.inl rfl) huunique

theorem wp_stm_start_transaction {tl : ℕ} (h : Inv NB_SEGMENTS s)
    (hi : i ∈ segment_nums NB_SEGMENTS) (hmutex : s.mutex = none) (hin : s.in_use1 i = false) :
    wp (_stm_start_transaction NB_SEGMENTS tl i) (fun _ => Inv NB_SEGMENTS) (Inv NB_SEGMENTS)
      s := by
  have hseg := h.seg i hi
  unfold State.seg_inv at hseg
  have hpc : (s.segs i).pc = .no_transaction := by
    by_contra hpc
    rw [hseg.in_use.mpr hpc] at hin
    cases hin
  have hts := hseg.idle.mpr hpc
  have hsp : (s.segs i).safe_point = .sp_no_transaction := by
    rw [hseg.safe_point, hpc]
    rfl
  have hthread : (s.segs i).running_thread = none := by
    rw [← Option.not_isSome_iff_eq_none]
    exact fun hsome => hseg.thread.mp hsome hpc
  unfold _stm_start_transaction
  simp only [wp_bind, wp_get, wp_assert, wp_modify]
  refine ⟨hthread, hsp, hts, ?_⟩
  generalize ht : ({ s.set i ({ · with
      pc := .has_mutex
      running_thread := some tl
      unique_start_time := s.global_start_time
      signalled_to_commit_soon := false
      safe_point := .sp_running
      transaction_state := .ts_regular }) with
    mutex := some i
    in_use1 := Function.update s.in_use1 i true
    global_start_time := s.global_start_time + 1 } : State) = t
  have hself : t.segs i = { s.segs i with
      pc := .has_mutex
      running_thread := some tl
      unique_start_time := s.global_start_time
      signalled_to_commit_soon := false
      safe_point := .sp_running
      transaction_state := .ts_regular } := by
    rw [← ht]
    dsimp only
    rw [segs_set, if_pos rfl]
  have hactive : Active NB_SEGMENTS t i := by
    refine ⟨?_, hi, by rw [hself]⟩
    refine h.replace hi (fun k hki => ?_) (fun k _ hki => ?_) (fun k hki => ?_) ?_ ?_ ?_ ?_ ?_
      (.inr (by rw [hself])) (fun k hk _ c hc => ?_) (fun k hk hki => ?_) (fun k hk hki => ?_)
    · rw [← ht]
      dsimp only
      rw [segs_set, if_neg hki]
    · rw [← ht, hmutex]
      exact iff_of_false (by simpa using hki.symm) (by simp)
    · rw [← ht]
      exact Function.update_of_ne hki _ _
    · rw [← ht]
      exact ⟨rfl, rfl, rfl, rfl⟩
    · unfold State.seg_inv
      rw [hself]
      subst ht
      refine ⟨rfl, iff_of_false (by simp) (by simp), iff_of_true rfl (by simp), ?_, iff_of_true rfl rfl, ?_,
        hseg.pause, fun _ => rfl, fun _ _ hne => absurd rfl hne, (by intros; contradiction), (by intros; contradiction), (by simp), (by simp)⟩
      · exact iff_of_true (Function.update_self _ _ _) (by simp)
      · -- a request to pause has reached the segment before the transaction
        intro hp hend
        have := (hseg.paused hp hend).2
        rw [hts] at this
        cases this
    · rw [hself, h.locks.idle i hi hts]
      exact ⟨rfl, rfl⟩
    · rw [hts]
      simp
    · rw [hself]
      simp
    · have := (h.seg k hk).holder.mpr (by rw [hc]; rfl)
      rw [hmutex] at this
      cases this
    · exact (h.awaits_done k hk i hki).2 hts
    · have := (h.awaits_abort k hk i hki).2
      rw [hsp] at this
      cases this
  exact wp_enter_safe_point_if_requested hactive trivial fun u hu => wp_after_safe_point hu trivial

/-- In a synchronized commit, as far as `push_modified_to_other_segments`. -/
structure Committing (NB_SEGMENTS : ℕ) (s : State) (i : ℕ) : Prop where
  active : Active NB_SEGMENTS s i
  nursery_end : (s.segs i).nursery_end = .nursery_end

theorem Committing.inevitable (h : Committing NB_SEGMENTS s i)
    (hu : s.globally_unique_transaction = true) : (s.segs i).transaction_state = .ts_inevitable :=
  (h.active.seg.paused (h.active.inv.unique hu).1 h.nursery_end).2

theorem wp_go_on (h : Inv NB_SEGMENTS s) (hi : i ∈ segment_nums NB_SEGMENTS)
    (hpc : (s.segs i).pc.locked = true)
    (hQ : ∀ t, Active NB_SEGMENTS t i → (t.segs i).nursery_end = (s.segs i).nursery_end →
      (t.segs i).transaction_state = (s.segs i).transaction_state → Q () t) :
    wp (go_on i) Q R s := by
  have hseg := h.seg i hi
  unfold State.seg_inv at hseg
  have hmutex := hseg.holder.mpr hpc
  have hnone : (s.segs i).pc ≠ .no_transaction := by
    intro hnone
    rw [hnone] at hpc
    cases hpc
  have hrun : (s.segs i).safe_point = .sp_running := by
    rw [hseg.safe_point]
    unfold Pc.locked at hpc
    split at hpc
    · rename_i heq
      rw [heq]
      rfl
    · rename_i heq
      rw [heq]
      rfl
    · rename_i heq
      rw [heq]
      rfl
    · cases hpc
  unfold go_on
  rw [wp_set_segment]
  refine hQ _ ⟨?_, hi, ?_⟩ ?_ ?_
  · show Inv NB_SEGMENTS { s.set i ({ · with pc := .has_mutex }) with mutex := s.mutex }
    refine h.update_pc hi .has_mutex ?_ (fun _ _ _ => Iff.rfl) ?_ nofun nofun
      (fun _ => .inl hrun) nofun nofun nofun ?_
    · dsimp only
      rw [hrun]
      rfl
    · refine ⟨rfl, ?_, ?_, ?_, iff_of_true hmutex rfl, hseg.paused, hseg.pause, hseg.aborting, ?_,
        nofun, nofun, nofun, nofun⟩
      · exact iff_of_false (mt hseg.idle.mp hnone) nofun
      · exact iff_of_true (hseg.thread.mpr hnone) nofun
      · exact iff_of_true (hseg.in_use.mpr hnone) nofun
      · exact fun _ _ hne => absurd hmutex hne
    · rintro (hsp | hab)
      · exact absurd rfl hsp.2
      · exact absurd rfl hab
  · rw [segs_set, if_pos rfl]
  · rw [segs_set, if_pos rfl]
  · rw [segs_set, if_pos rfl]

theorem wp_detect_write_read_conflicts (h : Committing NB_SEGMENTS s i)
    (hQ : ∀ t, Committing NB_SEGMENTS t i → Q () t) :
    wp (detect_write_read_conflicts i (segment_nums NB_SEGMENTS)) Q (Inv NB_SEGMENTS) s := by
  unfold detect_write_read_conflicts
  refine (wp_forEach (fun ks t => Committing NB_SEGMENTS t i
    ∧ ∀ k ∈ ks, k ∈ segment_nums NB_SEGMENTS) ?_ ⟨h, fun _ hk => hk⟩).mono
    (fun _ t ht => hQ t ht.1) fun _ ht => ht
  rintro k ks t ⟨ht, hks⟩
  have hrest : ∀ l ∈ ks, l ∈ segment_nums NB_SEGMENTS := fun l hl =>
    hks l (List.mem_cons_of_mem k hl)
  rw [wp_bind, wp_get, wp_ifThen]
  split
  · rename_i hconflict
    refine wp_contention_management ⟨ht.active, hks k List.mem_cons_self, hconflict.1,
      hconflict.2.1, nofun, fun _ => ht.inevitable⟩ fun u hu _ hne => ?_
    exact ⟨⟨hu, hne.trans ht.nursery_end⟩, hrest⟩
  · exact ⟨ht, hrest⟩

theorem wp_committed_globally_unique_transaction (h : Committing NB_SEGMENTS s i)
    (hunique : s.globally_unique_transaction = true)
    (hQ : ∀ t, Committing NB_SEGMENTS t i → t.globally_unique_transaction = false →
      (t.segs i).modified_old_objects = (s.segs i).modified_old_objects → Q () t) :
    wp (committed_globally_unique_transaction NB_SEGMENTS i) Q R s := by
  have hactive := h.active
  have hpause := (hactive.inv.unique hunique).1
  have hinev := h.inevitable hunique
  have hrequester : ∀ k ∈ segment_nums NB_SEGMENTS, (s.segs k).pc.requester = false := by
    intro k hk
    by_contra hr
    rw [Bool.not_eq_false] at hr
    rw [((hactive.inv.seg k hk).requester hr).2.1] at hunique
    cases hunique
  unfold committed_globally_unique_transaction
  simp only [wp_bind, wp_get, wp_assert, wp_set_segment, wp_modify]
  refine ⟨hunique, h.nursery_end, ?_⟩
  have hstate : ({ s.set i ({ · with nursery_end := .nse_sigpause }) with
      globally_unique_transaction := false } : State) = s.signals true false
        (fun k => if k = i then .nse_sigpause else (s.segs k).nursery_end) := by
    refine State.ext (funext fun k => ?_) rfl rfl rfl hpause rfl
      (hactive.inv.requested.trans hpause) rfl
    dsimp only
    rw [segs_set]
    unfold State.signals
    dsimp only
    split_ifs with hki
    · rw [hki]
    · rfl
  rw [hstate]
  have hinv : Inv NB_SEGMENTS (s.signals true false
      (fun k => if k = i then .nse_sigpause else (s.segs k).nursery_end)) := by
    refine hactive.inv.signals (fun k hk => ?_) (fun k hk => ?_) (by simp)
    · have hseg := hactive.inv.seg k hk
      refine hseg.signal (fun _ hend => ?_) (fun _ => rfl) ?_ (by simp) ?_ ?_
      · -- no other transaction is inevitable
        split_ifs at hend with hki
        exact absurd (hactive.inv.one_inevitable k hk i hactive.mem
          (hseg.paused hpause hend).2 hinev) hki
      · intro hsig
        split_ifs at hsig with hki
        exact hsig
      · intro hr
        rw [hrequester k hk] at hr
        cases hr
      · intro c hc
        have := hseg.holder.mpr (by rw [hc]; rfl)
        rw [hactive.mutex, Option.some.injEq] at this
        rw [← this, hactive.pc] at hc
        cases hc
    · split_ifs with hki
      · rw [hki, h.nursery_end] at hk
        cases hk
      · exact hk
  refine wp_remove_requests_for_safe_point rfl rfl
    (fun k hk => hinv.signalled rfl rfl hk) (hQ _ ⟨?_, ?_⟩ rfl ?_)
  · exact ((hactive.signals hinv).signals (hinv.remove_requests hrequester)).broadcast _
  · refine (wake_field Segment.nursery_end fun _ => rfl).trans ?_
    show changed NB_SEGMENTS _ NurseryEnd.without_pause i = _
    unfold changed State.signals
    dsimp only
    rw [if_pos hactive.mem, if_pos rfl]
    rfl
  · exact wake_field Segment.modified_old_objects fun _ => rfl

/-- The end of a commit, of a transaction that is not globally unique any more. -/
theorem wp_finish_commit (h : Committing NB_SEGMENTS s i)
    (hunique : s.globally_unique_transaction = false)
    (hmod : (s.segs i).modified_old_objects = []) :
    wp (do
      _finish_transaction i
      s_mutex_unlock i .no_transaction : Exec State Unit) (fun _ => Inv NB_SEGMENTS)
      (Inv NB_SEGMENTS) s := by
  have hactive := h.active
  have hseg := hactive.seg
  have hpc : (s.segs i).pc ≠ .no_transaction := by
    rw [hactive.pc]
    nofun
  have hne : ((s.wake_done i).segs i).nursery_end = .nursery_end :=
    (wake_done_field Segment.nursery_end fun _ _ => rfl).trans h.nursery_end
  have hglobals : (s.wake_done i).pause_signalled = s.pause_signalled
      ∧ (s.wake_done i).globally_unique_transaction = s.globally_unique_transaction := by
    unfold State.wake_done
    split_ifs <;> exact ⟨rfl, rfl⟩
  have hwoken : ((s.wake_done i).segs i).pc.locked = true := by
    unfold State.wake_done
    split_ifs
    · exact (wake_pc Pc.locked fun _ => rfl).trans hactive.locked
    · exact hactive.locked
  rw [wp_bind]
  refine wp_finish_transaction (hseg.thread.mpr hpc) (hseg.in_use.mpr hpc) ?_
  unfold s_mutex_unlock
  rw [wp_modify, release_finish, hne]
  refine hactive.inv.wake_done.finish hactive.mem hwoken ?_ ?_ ?_ ?_ nofun ?_ nofun
  · exact (wake_done_field Segment.modified_old_objects fun _ _ => rfl).trans hmod
  · exact fun k hk => hactive.inv.no_awaits_done hk
  · intro k hk hki
    rw [(hactive.inv.wake_done.awaits_abort k hk i hki).1] at hne
    cases hne
  · rw [hglobals.2, hunique]
    nofun
  · intro _
    rw [hglobals.1]
    by_contra hp
    rw [Bool.not_eq_false] at hp
    exact hactive.inv.signalled hp hunique hactive.mem h.nursery_end

theorem wp_commit_transaction_synchronized (h : Inv NB_SEGMENTS s)
    (hi : i ∈ segment_nums NB_SEGMENTS) {caller : SyncCaller}
    (hpc : (s.segs i).pc = .synchronized caller) :
    wp (commit_transaction_synchronized NB_SEGMENTS i) (fun _ => Inv NB_SEGMENTS)
      (Inv NB_SEGMENTS) s := by
  have hend := (h.seg i hi).synchronized caller hpc
  unfold commit_transaction_synchronized push_modified_to_other_segments
  rw [wp_bind]
  refine wp_go_on h hi (by rw [hpc]; rfl) fun t ht hne _ => ?_
  rw [wp_bind]
  refine wp_detect_write_read_conflicts ⟨ht, hne.trans hend⟩ fun u hu => ?_
  rw [wp_bind, wp_get, wp_bind, wp_assert]
  refine ⟨hu.nursery_end, ?_⟩
  simp only [wp_bind, wp_get]
  refine wp_clear_write_locks (hu.active.inv.locks.nodup i hi) (hu.active.inv.locks.owned i hi) ?_
  -- the objects are pushed and the locks released
  have hself : (u.reset_modified i).segs i = { u.segs i with modified_old_objects := [] } := by
    unfold State.reset_modified
    dsimp only
    rw [segs_set, if_pos rfl]
  have hreset : Committing NB_SEGMENTS (u.reset_modified i) i := by
    refine ⟨⟨hu.active.inv.reset_modified hi, hi, ?_⟩, ?_⟩
    · rw [hself]
      exact hu.active.pc
    · rw [hself]
      exact hu.nursery_end
  have hmod : ((u.reset_modified i).segs i).modified_old_objects = [] := by rw [hself]
  have hfinish : ∀ v, Committing NB_SEGMENTS v i → v.globally_unique_transaction = false →
      (v.segs i).modified_old_objects = [] → _ := fun v hv hunique hmod =>
    wp_finish_commit hv hunique hmod
  simp only [wp_bind, wp_set_segment, wp_ifThen] at hfinish ⊢
  split
  · rename_i hunique
    refine wp_committed_globally_unique_transaction hreset hunique.2 fun v hv hunique' hmod' => ?_
    rw [wp_bind]
    exact hfinish v hv hunique' (hmod'.trans hmod)
  · rename_i hnot
    refine hfinish _ hreset ?_ hmod
    by_contra hunique
    rw [Bool.not_eq_false] at hunique
    refine hnot ⟨?_, hunique⟩
    have := hreset.inevitable hunique
    rwa [hself] at this

/-! ## After a wait -/

theorem wp_after_contention {kind : Contention} (h : Active NB_SEGMENTS s i)
    (hne : (s.segs i).nursery_end ≠ .nse_sigabort)
    (hreg : kind = .inevitable → (s.segs i).transaction_state = .ts_regular)
    (hunique : kind = .write_write → s.globally_unique_transaction = true →
      (s.segs i).transaction_state = .ts_inevitable) :
    wp (after_contention NB_SEGMENTS i kind) (fun _ => Inv NB_SEGMENTS) (Inv NB_SEGMENTS) s := by
  cases kind with
  | write_write => exact h.unlock (.inl rfl) (hunique rfl)
  | write_read => exact wp_synchronize_all_threads h trivial
  | inevitable => exact wp_wait_for_end_of_inevitable_transaction h (hreg rfl) hne

theorem nursery_end_ne_of_must_abort (h : must_abort s i = false) :
    (s.segs i).nursery_end ≠ .nse_sigabort := by
  intro hne
  unfold must_abort at h
  rw [hne] at h
  cases h

theorem wp_return_from_cond_wait {wait : CondWait} (h : Inv NB_SEGMENTS s)
    (hi : i ∈ segment_nums NB_SEGMENTS) (hpc : (s.segs i).pc = .woken wait)
    (hmutex : s.mutex = none) :
    wp (return_from_cond_wait NB_SEGMENTS i wait) (fun _ => Inv NB_SEGMENTS) (Inv NB_SEGMENTS)
      s := by
  have hseg := h.seg i hi
  unfold State.seg_inv at hseg
  have hok : wait.state_ok (s.segs i).transaction_state := hseg.wait_ok wait (by rw [hpc]; rfl)
  unfold return_from_cond_wait s_mutex_lock
  rw [wp_bind, wp_set_segment, wp_bind, wp_modify, wp_bind, wp_get, set_set]
  have hactive : Active NB_SEGMENTS { s.set i (fun seg =>
      { { seg with safe_point := .sp_running } with pc := .has_mutex }) with mutex := some i } i :=
    h.lock hi hmutex rfl (by rw [hpc]; nofun)
  generalize hu : ({ s.set i (fun seg => { { seg with safe_point := .sp_running } with
    pc := .has_mutex }) with mutex := some i } : State) = u at hactive ⊢
  have hself : u.segs i = { s.segs i with pc := .has_mutex, safe_point := .sp_running } := by
    rw [← hu]
    dsimp only
    rw [segs_set, if_pos rfl]
  have hts : (u.segs i).transaction_state = (s.segs i).transaction_state := by rw [hself]
  have hne : (u.segs i).nursery_end = (s.segs i).nursery_end := by rw [hself]
  rw [← hts] at hok
  cases wait with
  | request_removed caller =>
      dsimp only
      rw [wp_bind]
      exact wp_enter_safe_point_turn hactive hok fun t ht => wp_after_safe_point ht hok
  | at_safe_point caller =>
      have hrequest : (s.segs i).pc.requester = true := by rw [hpc]; rfl
      obtain ⟨hpause, hunique, hsoon⟩ := hseg.requester hrequest
      have hupause : u.pause_signalled = true := by rw [← hu]; exact hpause
      have huunique : u.globally_unique_transaction = false := by rw [← hu]; exact hunique
      -- nobody else waits for the others to pause
      have hrequester : ∀ k ∈ segment_nums NB_SEGMENTS, (u.segs k).pc.requester = false := by
        intro k hk
        by_cases hki : k = i
        · rw [hki, hself]
          rfl
        · rw [← hu]
          dsimp only
          rw [segs_set, if_neg hki]
          by_contra hr
          rw [Bool.not_eq_false] at hr
          exact hki (h.one_requester k hk i hi hr hrequest)
      dsimp only
      rw [wp_ite]
      split
      · rename_i habort
        rw [wp_bind]
        refine wp_remove_requests_for_safe_point hupause
          (hactive.inv.requested.trans hupause)
          (fun k hk => hactive.inv.signalled hupause huunique hk) ?_
        rw [huunique]
        refine ((hactive.signals (hactive.inv.remove_requests hrequester)).broadcast _).abort ?_
        rw [kept_broadcast.transaction_state]
        exact hactive.regular_of_must_abort habort
      · rename_i habort
        refine wp_synchronize_turn hactive hok hupause huunique ?_ hrequester
        rw [Bool.not_eq_true] at habort
        have habort' := nursery_end_ne_of_must_abort habort
        have hend := hactive.inv.signalled hupause huunique hi
        rw [hne] at habort' hend ⊢
        cases hcase : (s.segs i).nursery_end <;> simp_all
  | transaction_done other kind =>
      dsimp only
      rw [wp_ite]
      split
      · rename_i habort
        exact hactive.abort (hactive.regular_of_must_abort habort)
      · rename_i habort
        rw [Bool.not_eq_true] at habort
        refine wp_after_contention hactive (nursery_end_ne_of_must_abort habort) ?_ ?_
        · rintro rfl
          exact hok
        · rintro rfl
          exact absurd hok fun h => h
  | aborted other kind =>
      have hother : other ∈ segment_nums NB_SEGMENTS := h.other i hi other (by rw [hpc]; rfl)
      dsimp only
      rw [wp_ite]
      split
      · rename_i habort
        exact hactive.abort (hactive.regular_of_must_abort habort)
      · rename_i habort
        rw [Bool.not_eq_true] at habort
        rw [wp_bind]
        refine wp_kill_other_thread hactive hother fun t ht hkept hnet => ?_
        refine wp_after_contention ht ?_ ?_ ?_
        · rw [hnet]
          exact nursery_end_ne_of_must_abort habort
        · rintro rfl
          rw [hkept.transaction_state]
          exact hok
        · -- it was SP_RUNNING all the time
          intro _
          rw [hkept.unique, hkept.transaction_state, hts, ← hu]
          intro hunique
          refine hseg.alone hunique ?_ (by rw [hmutex]; nofun)
          rw [hseg.safe_point, hpc]
          rfl

/-! ## The steps -/

/-- A program that calls `stm_abort_transaction` in an inevitable transaction. -/
def aborts_inevitable (s : State) : Act → Prop
  | .abort_transaction i => can_lock s i ∧ (s.segs i).transaction_state = .ts_inevitable
  | _ => False

/-- What a step from a state of the invariant may do. -/
def StepOk (NB_SEGMENTS : ℕ) (s : State) (a : Act) : Outcome State → Prop
  | .blocked => True
  | .fault => aborts_inevitable s a
  | .next t => Inv NB_SEGMENTS t

theorem stepOk_outcome {a : Act} {x : Exec State Unit}
    (h : wp x (fun _ => Inv NB_SEGMENTS) (Inv NB_SEGMENTS) s) :
    StepOk NB_SEGMENTS t a (x.outcome s) := by
  obtain ⟨u, hu, hinv⟩ := h.outcome
  rw [hu]
  exact hinv

theorem stepOk_guarded {a : Act} {p : Prop} [Decidable p] {r : Outcome State}
    (h : p → StepOk NB_SEGMENTS s a r) : StepOk NB_SEGMENTS s a (guarded p r) := by
  unfold guarded
  split
  · rename_i hp
    exact h hp
  · trivial

/-- The read markers and the read version are nobody else's business. -/
theorem Inv.set_read_markers (h : Inv NB_SEGMENTS s) {f : Segment → Segment}
    (hf : ∃ version markers, f (s.segs i) = { s.segs i with
      transaction_read_version := version, read_markers := markers }) :
    Inv NB_SEGMENTS (s.set i f) := by
  obtain ⟨version, markers, hf⟩ := hf
  have hsegs : ∀ k, ∃ modified version markers, (s.set i f).segs k = { s.segs k with
      modified_old_objects := modified
      transaction_read_version := version
      read_markers := markers } := by
    intro k
    rw [segs_set]
    split_ifs with hki
    · exact ⟨_, version, markers, by rw [hf, hki]⟩
    · exact ⟨_, _, _, rfl⟩
  refine h.congr hsegs rfl (h.locks.congr rfl (fun k => ?_) fun k hk => ?_)
  · rw [segs_set]
    split_ifs with hki
    · rw [hf, hki]
    · rfl
  · rw [segs_set] at hk
    split_ifs at hk with hki
    · rw [hf] at hk
      rwa [hki]
    · exact hk

/-- An old object that no other segment has locked is written. -/
theorem Inv.write_slowpath_common (h : Inv NB_SEGMENTS s) (hi : i ∈ segment_nums NB_SEGMENTS)
    (hpc : (s.segs i).pc = .running) (x : ℕ) : Inv NB_SEGMENTS (write_slowpath_common s i x) := by
  have hread : Inv NB_SEGMENTS (s.set i (stm_read · x)) := h.set_read_markers ⟨_, _, rfl⟩
  have hts : (s.segs i).transaction_state ≠ .ts_none := by
    have hseg := h.seg i hi
    unfold State.seg_inv at hseg
    rw [ne_eq, hseg.idle, hpc]
    nofun
  unfold Sync.write_slowpath_common
  dsimp only
  split_ifs with hfree
  · generalize hu : s.set i (stm_read · x) = u at hread hfree ⊢
    have huts : (u.segs i).transaction_state ≠ .ts_none := by
      rw [← hu, segs_set, if_pos rfl]
      exact hts
    have hfresh : ∀ k ∈ segment_nums NB_SEGMENTS, x ∉ (u.segs k).modified_old_objects := by
      intro k hk hx
      have := hread.locks.owned k hk x hx
      rw [hfree] at this
      rw [← this, mem_segment_nums] at hk
      omega
    have hmod : ∀ k, ((u.set i fun seg => { seg with
        modified_old_objects := seg.modified_old_objects ++ [x] }).segs k).modified_old_objects
        = (u.segs k).modified_old_objects ++ if k = i then [x] else [] := by
      intro k
      rw [segs_set]
      split_ifs with hki
      · rw [hki]
      · rw [List.append_nil]
    refine hread.congr (fun k => ?_) rfl ?_
    · dsimp only
      rw [segs_set]
      split_ifs with hki
      · exact ⟨_, _, _, by rw [hki]⟩
      · exact ⟨_, _, _, rfl⟩
    constructor
    · intro y hy
      dsimp only at hy ⊢
      rw [Function.update_apply] at hy ⊢
      rw [hmod]
      split_ifs at hy ⊢ with hyx hki
      · exact ⟨hi, by simp [hyx]⟩
      · exact absurd rfl hki
      · obtain ⟨hmem, hy'⟩ := hread.locks.owner y hy
        exact ⟨hmem, List.mem_append_left _ hy'⟩
      · obtain ⟨hmem, hy'⟩ := hread.locks.owner y hy
        exact ⟨hmem, List.mem_append_left _ hy'⟩
    · intro k hk
      dsimp only
      rw [hmod, List.nodup_append]
      refine ⟨hread.locks.nodup k hk, by split_ifs <;> simp, ?_⟩
      rintro y hy z hz rfl
      split_ifs at hz
      · rw [List.mem_singleton] at hz
        exact hfresh k hk (hz ▸ hy)
      · cases hz
    · intro k hk y hy
      dsimp only at hy ⊢
      rw [hmod, List.mem_append] at hy
      rcases hy with hy | hy
      · rw [Function.update_of_ne]
        · exact hread.locks.owned k hk y hy
        · rintro rfl
          exact hfresh k hk hy
      · split_ifs at hy with hki
        · rw [List.mem_singleton.mp hy, Function.update_self, hki]
        · cases hy
    · intro k hk hnone
      dsimp only at hnone ⊢
      rw [segs_set] at hnone
      rw [hmod]
      split_ifs at hnone ⊢ with hki
      · exact absurd hnone huts
      · rw [List.append_nil]
        exact hread.locks.idle k hk hnone
  · exact hread

/-- A spurious wakeup. -/
theorem Inv.spurious_wakeup (h : Inv NB_SEGMENTS s) (hi : i ∈ segment_nums NB_SEGMENTS)
    {wait : CondWait} (hpc : (s.segs i).pc = .blocked wait) :
    Inv NB_SEGMENTS (s.set i ({ · with pc := .woken wait })) := by
  have hseg := h.seg i hi
  unfold State.seg_inv at hseg
  have hsp := hseg.safe_point
  have hnone : (s.segs i).pc ≠ .no_transaction := by
    rw [hpc]
    nofun
  show Inv NB_SEGMENTS { s.set i ({ · with pc := .woken wait }) with mutex := s.mutex }
  refine h.update_pc hi (.woken wait) ?_ (fun _ _ _ => Iff.rfl) ?_ ?_ nofun ?_ ?_ ?_ ?_ ?_
  · dsimp only
    rw [hsp, hpc]
    rfl
  · refine ⟨rfl, ?_, ?_, ?_, ?_, hseg.paused, hseg.pause, hseg.aborting, ?_, ?_, ?_, nofun, nofun⟩
    · exact iff_of_false (mt hseg.idle.mp hnone) nofun
    · exact iff_of_true (hseg.thread.mpr hnone) nofun
    · exact iff_of_true (hseg.in_use.mpr hnone) nofun
    · rw [hseg.holder, hpc]
      rfl
    · intro hu hrun hmutex
      refine hseg.alone hu ?_ hmutex
      rw [hsp, hpc]
      exact hrun
    · intro hr
      refine hseg.requester ?_
      rw [hpc]
      cases wait <;> first | rfl | cases hr
    · intro w hw
      exact hseg.wait_ok w (by rw [hpc]; exact hw)
  · intro hr k hk hki
    by_contra hkr
    rw [Bool.not_eq_false] at hkr
    refine hki (h.one_requester k hk i hi hkr ?_)
    rw [hpc]
    cases wait <;> first | rfl | cases hr
  · intro hrun
    refine .inl ?_
    rw [hsp, hpc]
    exact hrun
  · intro j hj
    refine h.other i hi j ?_
    rw [hpc]
    cases wait <;> exact hj
  · intro j hj
    cases hj
  · intro j hj
    cases hj
  · rintro (⟨hrun, hwait⟩ | hab)
    · rw [hsp, hpc] at hrun
      exact absurd hrun hwait
    · exact absurd rfl hab

/-- The caller of `synchronize_all_threads` releases the mutex. -/
theorem wp_unlock {caller : SyncCaller} (h : Inv NB_SEGMENTS s)
    (hi : i ∈ segment_nums NB_SEGMENTS) (hpc : (s.segs i).pc = .synchronized caller) :
    wp (s_mutex_unlock i .running) (fun _ => Inv NB_SEGMENTS) (Inv NB_SEGMENTS) s := by
  have hend := (h.seg i hi).synchronized caller hpc
  have hgo : wp (go_on i) (fun _ t => Inv NB_SEGMENTS
      { t.set i ({ · with pc := .running }) with mutex := none }) (Inv NB_SEGMENTS) s := by
    refine wp_go_on h hi (by rw [hpc]; rfl) fun t ht hne _ => ?_
    refine ht.unlock (.inl rfl) fun hunique => ?_
    exact (ht.seg.paused (ht.inv.unique hunique).1 (hne.trans hend)).2
  unfold go_on at hgo
  rw [wp_set_segment, set_set] at hgo
  exact hgo

/-- The thread counts its transaction's reads from now on. -/
theorem Inv.next_read_version (h : Inv NB_SEGMENTS s) (hi : i ∈ segment_nums NB_SEGMENTS)
    (hpc : (s.segs i).pc = .starting) : Inv NB_SEGMENTS (s.set i next_read_version) := by
  have hseg := h.seg i hi
  unfold State.seg_inv at hseg
  have hrun : (s.segs i).safe_point = .sp_running := by
    rw [hseg.safe_point, hpc]
    rfl
  have hnone : (s.segs i).pc ≠ .no_transaction := by
    rw [hpc]
    nofun
  have hpcinv : Inv NB_SEGMENTS (s.set i ({ · with pc := .running })) := by
    show Inv NB_SEGMENTS { s.set i ({ · with pc := .running }) with mutex := s.mutex }
    refine h.update_pc hi .running ?_ (fun _ _ _ => Iff.rfl) ?_ nofun nofun (fun _ => .inl hrun)
      nofun nofun nofun ?_
    · dsimp only
      rw [hrun]
      rfl
    · refine ⟨rfl, ?_, ?_, ?_, ?_, hseg.paused, hseg.pause, hseg.aborting, ?_, nofun, nofun, nofun,
        nofun⟩
      · exact iff_of_false (mt hseg.idle.mp hnone) nofun
      · exact iff_of_true (hseg.thread.mpr hnone) nofun
      · exact iff_of_true (hseg.in_use.mpr hnone) nofun
      · rw [hseg.holder, hpc]
        rfl
      · exact fun hu _ => hseg.alone hu hrun
    · rintro (hsp | hab)
      · exact absurd rfl hsp.2
      · exact absurd rfl hab
  have hread : Inv NB_SEGMENTS ((s.set i ({ · with pc := .running })).set i
      Sync.next_read_version) := by
    refine hpcinv.set_read_markers ?_
    rw [segs_set, if_pos rfl]
    unfold Sync.next_read_version
    dsimp only
    split_ifs
    · exact ⟨_, _, rfl⟩
    · exact ⟨_, _, rfl⟩
  rwa [set_set] at hread

theorem step_spec (h : Inv NB_SEGMENTS s) (a : Act) :
    StepOk NB_SEGMENTS s a (step NB_SEGMENTS s a) := by
  unfold step
  refine stepOk_guarded fun hi => ?_
  cases a with
  | start_transaction tl i =>
      refine stepOk_guarded fun hg => stepOk_outcome ?_
      exact wp_stm_start_transaction h hi hg.1 hg.2.1
  | next_read_version i =>
      refine stepOk_guarded fun hpc => ?_
      exact h.next_read_version hi hpc
  | stm_read i x =>
      refine stepOk_guarded fun _ => ?_
      exact h.set_read_markers ⟨_, _, rfl⟩
  | stm_write i x =>
      refine stepOk_guarded fun hg => ?_
      exact h.write_slowpath_common hi hg.1 x
  | write_write_contention i x =>
      refine stepOk_guarded fun hlock => stepOk_outcome ?_
      refine wp_write_write_contention_management (h.set_read_markers ⟨_, _, rfl⟩) hi ?_
      unfold can_lock
      rw [segs_set, if_pos rfl]
      exact hlock
  | collectable_safe_point i =>
      refine stepOk_guarded fun hlock => stepOk_outcome ?_
      exact wp_lock_and_enter_safe_point h hi hlock trivial
  | become_inevitable i =>
      refine stepOk_guarded fun hlock => stepOk_outcome ?_
      exact wp_lock_and_enter_safe_point h hi hlock trivial
  | become_globally_unique i =>
      refine stepOk_guarded fun hg => stepOk_outcome ?_
      exact wp_lock_and_enter_safe_point h hi hg.1 hg.2
  | major_collection i =>
      refine stepOk_guarded fun hlock => stepOk_outcome ?_
      exact wp_lock_and_enter_safe_point h hi hlock trivial
  | commit_transaction i =>
      refine stepOk_guarded fun hlock => stepOk_outcome ?_
      exact wp_lock_and_enter_safe_point h hi hlock trivial
  | abort_transaction i =>
      refine stepOk_guarded fun hlock => ?_
      replace hi : i ∈ segment_nums NB_SEGMENTS := hi
      have hactive := h.lock_running hi hlock
      have hts : (({ s.set i ({ · with pc := .has_mutex }) with mutex := some i } : State).segs
          i).transaction_state = (s.segs i).transaction_state := by
        dsimp only
        rw [segs_set, if_pos rfl]
      by_cases hreg : (s.segs i).transaction_state = .ts_regular
      · refine stepOk_outcome ?_
        rw [wp_bind]
        exact hactive.abort (hts.trans hreg)
      · -- stm_fatalerror
        have hnone := hactive.in_transaction
        rw [hts] at hnone
        have hfault : (do s_mutex_lock i; abort_with_mutex i : Exec State Unit).outcome s
            = .fault := by
          rw [outcome_eq_fault, eq_fault]
          unfold abort_with_mutex abort_data_structures_from_segment_num s_mutex_lock
          simp only [wp_bind, wp_modify, wp_get, wp_assert]
          exact fun hwp => hreg (hts.symm.trans hwp.1)
        rw [hfault]
        refine ⟨hlock, ?_⟩
        cases hcase : (s.segs i).transaction_state with
        | ts_none => exact absurd hcase hnone
        | ts_regular => exact absurd hcase hreg
        | ts_inevitable => rfl
  | spurious_wakeup i =>
      dsimp only [step_segment]
      split
      · rename_i hpc
        exact h.spurious_wakeup hi hpc
      · trivial
  | return_from_cond_wait i =>
      dsimp only [step_segment]
      split
      · rename_i hpc
        exact stepOk_guarded fun hmutex =>
          stepOk_outcome (wp_return_from_cond_wait h hi hpc hmutex)
      · trivial
  | unlock i =>
      dsimp only [step_segment]
      split
      · rename_i hpc
        exact stepOk_outcome (wp_unlock h hi hpc)
      · trivial
  | commit_transaction_synchronized i =>
      refine stepOk_guarded fun hpc => stepOk_outcome ?_
      exact wp_commit_transaction_synchronized h hi hpc
  | goto_restart i =>
      refine stepOk_guarded fun hpc => stepOk_outcome ?_
      rw [wp_bind]
      refine wp_go_on h hi (by rw [hpc]; rfl) fun t ht hne hts => ?_
      have hrestart := (h.seg i hi).restart hpc
      refine wp_wait_for_end_of_inevitable_transaction ht (hts.trans hrestart.1) ?_
      rw [hne]
      exact hrestart.2

end Stmgc.C7.Sync
