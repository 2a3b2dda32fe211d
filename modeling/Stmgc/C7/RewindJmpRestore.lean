/-
`rewind_jmp_longjmp` and `rewind_jmp_restore_shadowstack` put back the stacks.

The invariant of `RewindJmpInv` is kept by every step of the library and of the
program. So everything that was live at the last `rewind_jmp_setjmp` comes back,
except what the program has written into frames that have not been the current
one since ([`rewind_jmp_restores`]); these are not saved
([`rewind_jmp_not_restores`]).
-/
import Stmgc.C7.RewindJmpInv

namespace Stmgc.C7.RewindJmp

open Stmgc.Lib Stmgc.Lib.Memory

section Slices

variable {Byte Entry : Type} {slices : List (rewind_jmp_moved_s Byte Entry)}
  {p : rewind_jmp_moved_s Byte Entry}

/-- A slice that is copied from where the others end changes nothing of what
they would put back. -/
theorem saved_stack_push {stack : ℕ → Byte} {a base stop : ℕ}
    (hlen : a + (saved_stack slices).length = base) (hle : base ≤ stop)
    (hp : p.stack = range stack base stop) :
    a + (saved_stack (p :: slices)).length = stop
      ∧ Memory.memcpy stack a (saved_stack (p :: slices))
        = Memory.memcpy stack a (saved_stack slices) := by
  rw [saved_stack_cons, hp]
  constructor
  · rw [List.length_append, length_range]
    omega
  · rw [memcpy_append, hlen, ← memcpy_comm hlen.symm, memcpy_range_self]

theorem saved_entries_push (slices : List (rewind_jmp_moved_s Byte Entry))
    {entries : ℕ → Entry} {ssbase ssstop : ℕ} (hle : ssstop ≤ ssbase)
    (hp : p.shadowstack = range entries ssstop ssbase) :
    ssstop + (saved_entries (p :: slices)).length = ssbase + (saved_entries slices).length
      ∧ Memory.memcpy entries ssstop (saved_entries (p :: slices))
        = Memory.memcpy entries ssbase (saved_entries slices) := by
  rw [saved_entries_cons, hp]
  constructor
  · rw [List.length_append, length_range]
    omega
  · rw [memcpy_append, memcpy_range_self, length_range, Nat.add_sub_cancel' hle]

end Slices

section Steps

variable {Byte Entry : Type} {t t' : Tracked Byte Entry} {s : Snapshot Byte Entry}
  {sp : ℕ} {buf : rewind_jmp_buf} {prev : List rewind_jmp_buf}

theorem Ordered.tail (h : Ordered sp (buf :: prev)) : Ordered sp prev :=
  ⟨fun b hb => h.above b (List.mem_cons_of_mem _ hb), (List.pairwise_cons.mp h.nested).2⟩

/-- Every frame is at or above the innermost one. -/
theorem Ordered.frame_base_le (h : Ordered sp (buf :: prev)) {b : rewind_jmp_buf}
    (hb : b ∈ buf :: prev) :
    buf.frame_base ≤ b.frame_base ∧ b.shadowstack_base ≤ buf.shadowstack_base := by
  rcases List.mem_cons.mp hb with rfl | hprev
  · exact ⟨le_rfl, le_rfl⟩
  · have hpair := (List.pairwise_cons.mp h.nested).1 b hprev
    have habove := (h.above b hb).2
    omega

/-! ## The program -/

theorem Inv.move_sp (h : Inv t) (hsp : ∀ b ∈ t.st.head, sp ≤ b.addr) :
    Inv { t with st := { t.st with sp := sp } } where
  ordered := ⟨fun b hb => ⟨hsp b hb, (h.ordered.above b hb).2⟩, h.ordered.nested⟩
  ss_ordered := h.ss_ordered
  heap := h.heap
  unarmed := h.unarmed
  saved s hs := { h.saved s hs with }

theorem Inv.write (h : Inv t) {a : ℕ} (x : Byte) {outside : List ℕ}
    (hsub : ∀ b ∈ t.outside, b ∈ outside) (hout : t.reached ≤ a → a ∈ outside) :
    Inv { t with
      st := { t.st with stack := Function.update t.st.stack a x }
      outside := outside } where
  ordered := h.ordered
  ss_ordered := h.ss_ordered
  heap := h.heap
  unarmed := h.unarmed
  saved s hs := { h.saved s hs with
    stack := by
      have hsaved := h.saved s hs
      intro b hb hnot
      rw [← hsaved.stack b hb fun hmem => hnot (hsub b hmem)]
      apply memcpy_congr
      intro hbeyond
      dsimp only at hbeyond
      have hne : b ≠ a := by
        rintro rfl
        apply hnot
        apply hout
        rw [hsaved.reached, ← hsaved.length]
        omega
      exact Function.update_of_ne hne _ _ }

theorem Inv.push (h : Inv t) (hrestored : t.restored = false) (x : Entry) :
    Inv { t with st := { t.st with
      entries := Function.update t.st.entries t.st.shadowstack x
      shadowstack := t.st.shadowstack + 1 } } where
  ordered := h.ordered
  ss_ordered hr b hb := Nat.le_succ_of_le (h.ss_ordered hr b hb)
  heap := h.heap
  unarmed := h.unarmed
  saved s hs := { h.saved s hs with
    entries := by
      have hsaved := h.saved s hs
      obtain ⟨buf, prev, hhead, hbase, -⟩ := hsaved.head_base h.ordered
      have hss := h.ss_ordered hrestored buf (by rw [hhead]; exact List.mem_cons_self)
      intro k hk hnot
      rw [← hsaved.entries k hk hnot]
      apply memcpy_congr
      intro hbeyond
      dsimp only at hbeyond
      have hlen := hsaved.ss_length
      have hne : k ≠ t.st.shadowstack := by omega
      exact Function.update_of_ne hne _ _
    restored := by
      intro hr
      rw [hrestored] at hr
      cases hr }

theorem Inv.pop (h : Inv t) (hrestored : t.restored = false)
    (hpop : ∀ b ∈ t.st.head.head?, b.shadowstack_base < t.st.shadowstack) :
    Inv { t with st := { t.st with shadowstack := t.st.shadowstack - 1 } } where
  ordered := h.ordered
  ss_ordered := by
    intro _ b hb
    dsimp only at hb ⊢
    cases hhead : t.st.head with
    | nil =>
        rw [hhead] at hb
        cases hb
    | cons buf prev =>
        have hord := h.ordered
        rw [hhead] at hb hord
        have hbuf := hpop buf (by rw [hhead]; rfl)
        have hle := (hord.frame_base_le hb).2
        omega
  heap := h.heap
  unarmed := h.unarmed
  saved s hs := { h.saved s hs with
    restored := by
      intro hr
      rw [hrestored] at hr
      cases hr }

theorem Inv.set_entry (h : Inv t) (hrestored : t.restored = false) {k : ℕ} (x : Entry)
    {ss_outside : List ℕ} (hsub : ∀ j ∈ t.ss_outside, j ∈ ss_outside)
    (hout : k < t.ss_reached → k ∈ ss_outside) :
    Inv { t with
      st := { t.st with entries := Function.update t.st.entries k x }
      ss_outside := ss_outside } where
  ordered := h.ordered
  ss_ordered := h.ss_ordered
  heap := h.heap
  unarmed := h.unarmed
  saved s hs := { h.saved s hs with
    entries := by
      have hsaved := h.saved s hs
      intro j hj hnot
      rw [← hsaved.entries j hj fun hmem => hnot (hsub j hmem)]
      apply memcpy_congr
      intro hbeyond
      dsimp only at hbeyond
      have hlen := hsaved.ss_length
      have hne : j ≠ k := by
        rintro rfl
        apply hnot
        apply hout
        rw [hsaved.ss_reached]
        omega
      exact Function.update_of_ne hne _ _
    restored := by
      intro hr
      rw [hrestored] at hr
      cases hr }

theorem Inv.enterframe (h : Inv t) (hrestored : t.restored = false) {addr frame_base : ℕ}
    (hsp : t.st.sp ≤ addr) (haddr : addr < frame_base)
    (hcalled : ∀ b ∈ t.st.head.head?, frame_base < b.addr) :
    Inv { t with st := rewind_jmp_enterframe t.st addr frame_base } where
  ordered := by
    refine ⟨?_, List.pairwise_cons.mpr ⟨fun b hb => ⟨?_, ?_⟩, h.ordered.nested⟩⟩
    · intro b hb
      rcases List.mem_cons.mp hb with rfl | hb
      · exact ⟨hsp, haddr⟩
      · exact h.ordered.above b hb
    · dsimp only
      cases hhead : t.st.head with
      | nil =>
          rw [hhead] at hb
          cases hb
      | cons buf prev =>
          have hord := h.ordered
          rw [hhead] at hb hord
          have hbuf := hcalled buf (by rw [hhead]; rfl)
          rcases List.mem_cons.mp hb with rfl | hprev
          · exact hbuf
          · have hpair := (List.pairwise_cons.mp hord.nested).1 b hprev
            have habove := (hord.above buf List.mem_cons_self).2
            omega
    · exact h.ss_ordered hrestored b hb
  ss_ordered := by
    intro hr b hb
    rcases List.mem_cons.mp hb with rfl | hb
    · exact le_rfl
    · exact h.ss_ordered hr b hb
  heap := h.heap
  unarmed := h.unarmed
  saved s hs := { h.saved s hs with
    frame := by
      obtain ⟨b, hb, hframe⟩ := (h.saved s hs).frame
      exact ⟨b, List.mem_cons_of_mem _ hb, hframe⟩ }

/-! ## Leaving frames -/

/-- The frame that is left is not the one up to which the stack is saved. -/
theorem Inv.leave_inner (h : Inv t) (hhead : t.st.head = buf :: prev)
    (hne : buf.frame_base ≠ t.st.moved_off_base) {snapshot : Option (Snapshot Byte Entry)}
    (reached ss_reached : ℕ) (hnone : snapshot = none → t.snapshot = none)
    (hsome : ∀ s, snapshot = some s → t.snapshot = some s ∧ ∃ outer rest, prev = outer :: rest
      ∧ reached = max t.reached outer.frame_base
      ∧ ss_reached = min t.ss_reached outer.shadowstack_base) :
    Inv { t with
      st := { t.st with head := prev }
      snapshot := snapshot
      reached := reached
      ss_reached := ss_reached } := by
  have hord := h.ordered
  rw [hhead] at hord
  refine ⟨hord.tail, fun hr b hb => ?_, h.heap, fun hn => h.unarmed (hnone hn), fun s hs => ?_⟩
  · exact h.ss_ordered hr b (by rw [hhead]; exact List.mem_cons_of_mem _ hb)
  · obtain ⟨hs, outer, rest, hprev, hreached, hssreached⟩ := hsome s hs
    have hsaved := h.saved s hs
    obtain ⟨b, hb, hbase, hssbase⟩ := hsaved.frame
    have hb' : b ∈ prev := by
      rw [hhead] at hb
      rcases List.mem_cons.mp hb with rfl | hb
      · exact absurd hbase hne
      · exact hb
    have hle : outer.frame_base ≤ b.frame_base ∧ b.shadowstack_base ≤ outer.shadowstack_base := by
      have htail := hord.tail
      rw [hprev] at htail hb'
      exact htail.frame_base_le hb'
    have hr := hsaved.reached
    have hssr := hsaved.ss_reached
    refine { hsaved with frame := ⟨b, hb', hbase, hssbase⟩, reached := ?_, ss_reached := ?_ }
    · dsimp only
      omega
    · dsimp only
      omega

theorem Inv.leaveframe (h : Inv t) (hrestored : t.restored = false) {st' : St Byte Entry}
    (hs : rewind_jmp_leaveframe t.st = some st') : Inv (t.record .leaveframe st') := by
  unfold rewind_jmp_leaveframe at hs
  cases hhead : t.st.head with
  | nil =>
      rw [hhead] at hs
      cases hs
  | cons buf prev =>
      rw [hhead] at hs
      obtain ⟨hss, hs⟩ := c_assert_eq_some.mp hs
      have hord := h.ordered
      rw [hhead] at hord
      split at hs
      · rename_i hbase
        obtain ⟨hssbase, hs⟩ := c_assert_eq_some.mp hs
        cases prev with
        | nil =>
            -- the outermost frame: the slices are not needed any more
            unfold copy_stack_slice at hs
            rw [Option.some.injEq] at hs
            rw [← hs]
            refine ⟨⟨nofun, List.Pairwise.nil⟩, fun _ => nofun, ?_,
              fun _ => ⟨rfl, rfl, hrestored⟩, nofun⟩
            have hheap := h.heap
            change ((t.st.freed ++ t.st.moved_off.map
              (fun p : rewind_jmp_moved_s Byte Entry => p.addr)) ++ []).Perm _
            rw [List.append_nil]
            exact hheap
        | cons outer rest =>
            unfold copy_stack_slice at hs
            obtain ⟨haddr, hs⟩ := c_assert_eq_some.mp hs
            obtain ⟨outer', rest', hcons, hstop, hssstop, hst⟩ := copy_stack_eq_some.mp hs
            dsimp only at hcons hstop hssstop haddr hst
            rw [List.cons.injEq] at hcons
            rw [← hcons.1] at hstop hssstop hst
            cases hsnap : t.snapshot with
            | none =>
                have hzero := (h.unarmed hsnap).1
                have habove := (hord.above buf List.mem_cons_self).2
                omega
            | some s =>
                have hsaved := h.saved s hsnap
                have hr := hsaved.reached
                have hssr := hsaved.ss_reached
                have habove := hord.above outer (List.mem_cons_of_mem _ List.mem_cons_self)
                have hnested := (List.pairwise_cons.mp hord.nested).1 outer List.mem_cons_self
                obtain ⟨hlen, hstack⟩ := saved_stack_push
                  (p := ⟨t.st.mallocs, range t.st.stack t.st.moved_off_base outer.frame_base,
                    range t.st.entries outer.shadowstack_base t.st.moved_off_ssbase⟩)
                  hsaved.length hstop rfl
                obtain ⟨hsslen, hentries⟩ := saved_entries_push t.st.moved_off
                  (p := ⟨t.st.mallocs, range t.st.stack t.st.moved_off_base outer.frame_base,
                    range t.st.entries outer.shadowstack_base t.st.moved_off_ssbase⟩)
                  hssstop rfl
                have hrecord : t.record .leaveframe st' = { t with
                    st := st'
                    reached := max t.reached outer.frame_base
                    ss_reached := min t.ss_reached outer.shadowstack_base } := by
                  rw [hst]
                  rfl
                rw [hrecord, hst]
                refine ⟨hord.tail, fun hr b hb => ?_, heap_malloc h.heap, ?_, fun s' hs' => ?_⟩
                · exact h.ss_ordered hr b (by rw [hhead]; exact List.mem_cons_of_mem _ hb)
                · dsimp only
                  rw [hsnap]
                  nofun
                · dsimp only at hs'
                  rw [hsnap, Option.some.injEq] at hs'
                  rw [← hs']
                  refine { hsaved with
                    frame := ⟨outer, List.mem_cons_self, rfl, rfl⟩
                    reached := ?_
                    ss_reached := ?_
                    length := hlen
                    stack := ?_
                    ss_length := hsslen.trans hsaved.ss_length
                    entries := ?_ }
                  · dsimp only
                    omega
                  · dsimp only
                    omega
                  · dsimp only
                    rw [hstack]
                    exact hsaved.stack
                  · dsimp only
                    rw [hentries]
                    exact hsaved.entries
      · rename_i hne
        rw [Option.pure_def, Option.some.injEq] at hs
        rw [← hs]
        cases prev with
        | nil =>
            refine h.leave_inner hhead hne t.reached t.ss_reached
              (fun _ => ?_) nofun
            cases hsnap : t.snapshot with
            | none => rfl
            | some s =>
                obtain ⟨b, hb, hbase, -⟩ := (h.saved s hsnap).frame
                rw [hhead] at hb
                exact absurd (List.mem_singleton.mp hb ▸ hbase) hne
        | cons outer rest =>
            exact h.leave_inner hhead hne _ _ id fun s hs => ⟨hs, outer, rest, rfl, rfl, rfl⟩

/-! ## Saving and going back -/

theorem Inv.setjmp (h : Inv t) (hrestored : t.restored = false) {saved : ℕ}
    (hsp : saved ≤ t.st.sp) {st' : St Byte Entry}
    (hs : rewind_jmp_setjmp t.st saved = some st') : Inv (t.record (.setjmp saved) st') := by
  obtain ⟨u, hu, huhead, husp, huentries, huss, hustack, humoved, huheap⟩ : ∃ u : St Byte Entry,
      copy_stack { u with
        jmpbuf := { saved := saved, ss1 := u.shadowstack, sp := u.sp }
        initial_head := u.head
        repeat_count := 0 } saved u.shadowstack = some st'
      ∧ u.head = t.st.head ∧ u.sp = t.st.sp ∧ u.entries = t.st.entries
      ∧ u.shadowstack = t.st.shadowstack ∧ u.stack = t.st.stack ∧ u.moved_off = []
      ∧ u.freed.Perm (List.range u.mallocs) := by
    have hheap := h.heap
    unfold rewind_jmp_setjmp at hs
    by_cases hmoved : t.st.moved_off = []
    · rw [if_pos hmoved] at hs
      rw [hmoved, List.map_nil, List.append_nil] at hheap
      exact ⟨t.st, hs, rfl, rfl, rfl, rfl, rfl, hmoved, hheap⟩
    · rw [if_neg hmoved] at hs
      exact ⟨free_stack_slices t.st, hs, rfl, rfl, rfl, rfl, rfl, rfl, hheap⟩
  obtain ⟨buf, prev, hhead, hstop, hss, hst⟩ := copy_stack_eq_some.mp hu
  dsimp only at hhead hstop hss hst
  rw [huhead] at hhead
  rw [huhead, husp, huentries, huss, hustack, humoved] at hst
  rw [huss] at hss
  rw [hst]
  have hord := h.ordered
  rw [hhead] at hord
  refine ⟨h.ordered, h.ss_ordered, ?_, nofun, fun s' hs' => ?_⟩
  · rw [← List.append_nil u.freed] at huheap
    exact heap_malloc huheap
  · rw [Tracked.record, Option.some.injEq] at hs'
    rw [← hs']
    have hne : t.st.head ≠ [] := by
      rw [hhead]
      nofun
    refine ⟨rfl, rfl, hne, h.ordered, h.ss_ordered hrestored, hsp, ⟨buf, ?_, rfl, rfl⟩, rfl, rfl,
      ?_, ?_, ?_, ?_, ?_⟩
    · change buf ∈ t.st.head
      rw [hhead]
      exact List.mem_cons_self
    · change saved + ([range t.st.stack saved buf.frame_base].flatten).length = buf.frame_base
      rw [List.flatten_singleton, length_range]
      omega
    · intro a _ _
      change Memory.memcpy t.st.stack saved ([range t.st.stack saved buf.frame_base].flatten) a = _
      rw [List.flatten_singleton, memcpy_range_self]
    · change buf.shadowstack_base
        + ([range t.st.entries buf.shadowstack_base t.st.shadowstack].flatten).length
          = t.st.shadowstack
      rw [List.flatten_singleton, length_range]
      omega
    · intro k _ _
      change Memory.memcpy t.st.entries buf.shadowstack_base
        ([range t.st.entries buf.shadowstack_base t.st.shadowstack].flatten) k = _
      rw [List.flatten_singleton, memcpy_range_self]
    · intro hr
      change t.restored = true at hr
      rw [hrestored] at hr
      cases hr

/-- The shadow stack is what it was, outside of what is not saved. -/
theorem Inv.restore (h : Inv t) (hs : t.snapshot = some s) :
    ∃ st', rewind_jmp_restore_shadowstack t.st = some st'
      ∧ st'.shadowstack = s.shadowstack
      ∧ (∀ k < s.shadowstack, k ∉ t.ss_outside → st'.entries k = s.entries k)
      ∧ Inv (t.record .restore_shadowstack st') := by
  have hsaved := h.saved s hs
  have hne := hsaved.base_ne h.ordered
  have henum := enum_shadowstack_eq t.st.moved_off t.st.entries t.st.moved_off_ssbase
  rw [hsaved.ss_length] at henum
  refine ⟨_, c_assert_eq_some.mpr ⟨hne, rfl⟩, ?_, ?_, ?_⟩
  · rw [henum]
  · rw [henum]
    exact hsaved.entries
  · rw [henum]
    refine ⟨h.ordered, nofun, h.heap, fun hn => ?_, fun s' hs' => ?_⟩
    · change t.snapshot = none at hn
      rw [hs] at hn
      cases hn
    · change t.snapshot = some s' at hs'
      rw [hs, Option.some.injEq] at hs'
      rw [← hs']
      refine { hsaved with entries := ?_, restored := fun _ => ⟨rfl, hsaved.entries⟩ }
      intro k hk hnot
      change Memory.memcpy
        (Memory.memcpy t.st.entries t.st.moved_off_ssbase (saved_entries t.st.moved_off))
        t.st.moved_off_ssbase (saved_entries t.st.moved_off) k = _
      rw [memcpy_idem]
      exact hsaved.entries k hk hnot

theorem allowed_longjmp (h : allowed t .longjmp = true) :
    t.restored = true ∨ saved_entries t.st.moved_off = [] := by
  rw [allowed, Bool.or_eq_true, List.all_eq_true] at h
  rcases h with h | h
  · exact .inl h
  · right
    apply List.flatten_eq_nil_iff.mpr
    intro l hl
    obtain ⟨p, hp, hpl⟩ := List.mem_map.mp hl
    rw [← hpl]
    exact List.isEmpty_iff.mp (h p hp)

/-- The C stack is what it was, outside of what is not saved. -/
theorem Inv.longjmp (h : Inv t) (hs : t.snapshot = some s)
    (hallowed : t.restored = true ∨ saved_entries t.st.moved_off = []) :
    ∃ st', rewind_jmp_longjmp t.st = some st'
      ∧ st'.head = s.head ∧ st'.sp = s.sp
      ∧ (∀ a, s.saved ≤ a → a ∉ t.outside → st'.stack a = s.stack a)
      ∧ Inv (t.record .longjmp st') := by
  have hsaved := h.saved s hs
  have hne := hsaved.base_ne h.ordered
  have hrestore := restore_stack_eq t.st.moved_off t.st.stack s.saved
  rw [hsaved.length] at hrestore
  obtain ⟨buf, prev, hhead⟩ := List.exists_cons_of_ne_nil hsaved.nonempty
  have hord := hsaved.ordered
  rw [hhead] at hord
  have habove := hord.above buf List.mem_cons_self
  have hsaved_le := hsaved.saved_le
  have hss := hsaved.ss_ordered buf (by rw [hhead]; exact List.mem_cons_self)
  -- the shadow stack as `copy_stack` finds it
  have hentries : ∀ k < s.shadowstack, k ∉ t.ss_outside → t.st.entries k = s.entries k := by
    intro k hk hnot
    rcases hallowed with hr | hnone
    · exact (hsaved.restored hr).2 k hk hnot
    · have hk' := hsaved.entries k hk hnot
      rwa [hnone, memcpy_nil] at hk'
  have htop : ∀ b ∈ s.head, b.shadowstack_base ≤ t.st.shadowstack := by
    intro b hb
    have hb' := hsaved.ss_ordered b hb
    rcases Bool.eq_false_or_eq_true t.restored with hr | hr
    · rw [(hsaved.restored hr).1]
      exact hb'
    · obtain ⟨inner, rest, hinner, hbase, -⟩ := hsaved.head_base h.ordered
      have hle := h.ss_ordered hr inner (by rw [hinner]; exact List.mem_cons_self)
      have hlen := hsaved.ss_length
      rcases hallowed with hr' | hnone
      · rw [hr] at hr'
        cases hr'
      · rw [hnone, List.length_nil] at hlen
        omega
  -- the one slice that the `rewind_jmp_setjmp` makes when it returns again
  have hst : rewind_jmp_longjmp t.st = some { t.st with
      stack := Memory.memcpy t.st.stack s.saved (saved_stack t.st.moved_off)
      freed := t.st.freed ++ t.st.moved_off.map (fun p => p.addr)
      sp := s.sp
      head := s.head
      initial_head := s.head
      jmpbuf := { saved := s.saved, ss1 := s.shadowstack, sp := s.sp }
      repeat_count := t.st.repeat_count + 1
      mallocs := t.st.mallocs + 1
      moved_off_base := buf.frame_base
      moved_off_ssbase := buf.shadowstack_base
      moved_off :=
        [{ addr := t.st.mallocs
           stack := range (Memory.memcpy t.st.stack s.saved (saved_stack t.st.moved_off)) s.saved
             buf.frame_base
           shadowstack := range t.st.entries buf.shadowstack_base s.shadowstack }] } := by
    apply c_assert_eq_some.mpr
    refine ⟨hne, ?_⟩
    rw [hrestore, hsaved.initial_head, hsaved.jmpbuf]
    apply copy_stack_eq_some.mpr
    exact ⟨buf, prev, hhead, by dsimp only; omega, hss, rfl⟩
  refine ⟨_, hst, rfl, rfl, hsaved.stack, ?_⟩
  refine ⟨hsaved.ordered, fun _ => htop, heap_malloc ?_, fun hn => ?_, fun s' hs' => ?_⟩
  · change ((t.st.freed ++ t.st.moved_off.map
      (fun p : rewind_jmp_moved_s Byte Entry => p.addr)) ++ []).Perm _
    rw [List.append_nil]
    exact h.heap
  · change t.snapshot = none at hn
    rw [hs] at hn
    cases hn
  · change t.snapshot = some s' at hs'
    rw [hs, Option.some.injEq] at hs'
    rw [← hs']
    refine { hsaved with
      jmpbuf := rfl
      initial_head := rfl
      frame := ⟨buf, by dsimp only [Tracked.record]; rw [hhead]; exact List.mem_cons_self, rfl, rfl⟩
      reached := rfl
      ss_reached := rfl
      length := ?_
      stack := ?_
      ss_length := ?_
      entries := ?_
      restored := nofun }
    · change s.saved + ([range _ s.saved buf.frame_base].flatten).length = buf.frame_base
      rw [List.flatten_singleton, length_range]
      omega
    · intro a ha hnot
      change Memory.memcpy (Memory.memcpy t.st.stack s.saved (saved_stack t.st.moved_off)) s.saved
        ([range (Memory.memcpy t.st.stack s.saved (saved_stack t.st.moved_off)) s.saved
          buf.frame_base].flatten) a = _
      rw [List.flatten_singleton, memcpy_range_self]
      exact hsaved.stack a ha hnot
    · change buf.shadowstack_base
        + ([range t.st.entries buf.shadowstack_base s.shadowstack].flatten).length = _
      rw [List.flatten_singleton, length_range]
      omega
    · intro k hk hnot
      change Memory.memcpy t.st.entries buf.shadowstack_base
        ([range t.st.entries buf.shadowstack_base s.shadowstack].flatten) k = _
      rw [List.flatten_singleton, memcpy_range_self]
      exact hentries k hk hnot

theorem Inv.forget (h : Inv t) (hrestored : t.restored = false) :
    Inv (t.record .forget (rewind_jmp_forget t.st)) := by
  have hheap := h.heap
  unfold rewind_jmp_forget
  by_cases hmoved : t.st.moved_off = []
  · rw [if_pos hmoved]
    exact ⟨h.ordered, h.ss_ordered, hheap, fun _ => ⟨rfl, hmoved, hrestored⟩, nofun⟩
  · rw [if_neg hmoved]
    refine ⟨h.ordered, h.ss_ordered, ?_, fun _ => ⟨rfl, rfl, hrestored⟩, nofun⟩
    change ((t.st.freed ++ t.st.moved_off.map
      (fun p : rewind_jmp_moved_s Byte Entry => p.addr)) ++ []).Perm _
    rw [List.append_nil]
    exact hheap

/-! ## Runs -/

theorem Inv.step (h : Inv t) (a : Act Byte Entry) (hs : t.step a = .next t') : Inv t' := by
  unfold Tracked.step at hs
  obtain ⟨hallowed, hs⟩ := guarded_eq_next.mp hs
  obtain ⟨st', hst, hs⟩ := Outcome.bind_eq_next.mp hs
  rw [Outcome.next.injEq] at hs
  rw [← hs]
  cases a with
  | call size =>
      obtain ⟨hsize, hst⟩ := guarded_eq_next.mp hst
      rw [Outcome.next.injEq] at hst
      rw [← hst]
      refine h.move_sp fun b hb => ?_
      have habove := (h.ordered.above b hb).1
      omega
  | ret sp =>
      obtain ⟨⟨hsp, hframe⟩, hst⟩ := guarded_eq_next.mp hst
      rw [Outcome.next.injEq] at hst
      rw [← hst]
      refine h.move_sp fun b hb => ?_
      cases hhead : t.st.head with
      | nil =>
          rw [hhead] at hb
          cases hb
      | cons buf prev =>
          have hord := h.ordered
          rw [hhead] at hb hord
          have hbuf := hframe buf (by rw [hhead]; rfl)
          rcases List.mem_cons.mp hb with rfl | hprev
          · exact hbuf
          · have hpair := (List.pairwise_cons.mp hord.nested).1 b hprev
            have habove := (hord.above buf List.mem_cons_self).2
            omega
  | write a x =>
      obtain ⟨-, hst⟩ := guarded_eq_next.mp hst
      rw [Outcome.next.injEq] at hst
      rw [← hst, Tracked.record]
      split
      · exact h.write x (fun b hb => List.mem_cons_of_mem _ hb) fun _ => List.mem_cons_self
      · rename_i hlt
        exact h.write x (fun b hb => hb) fun hle => absurd hle hlt
  | push x =>
      rw [RewindJmp.step, Outcome.next.injEq] at hst
      rw [← hst]
      exact h.push (Bool.not_eq_true' _ ▸ hallowed) x
  | pop =>
      obtain ⟨⟨-, hpop⟩, hst⟩ := guarded_eq_next.mp hst
      rw [Outcome.next.injEq] at hst
      rw [← hst]
      exact h.pop (Bool.not_eq_true' _ ▸ hallowed) hpop
  | set_entry k x =>
      obtain ⟨-, hst⟩ := guarded_eq_next.mp hst
      rw [Outcome.next.injEq] at hst
      rw [← hst, Tracked.record]
      split
      · exact h.set_entry (Bool.not_eq_true' _ ▸ hallowed) x
          (fun j hj => List.mem_cons_of_mem _ hj) fun _ => List.mem_cons_self
      · rename_i hge
        exact h.set_entry (Bool.not_eq_true' _ ▸ hallowed) x (fun j hj => hj)
          fun hlt => absurd hlt hge
  | enterframe addr frame_base =>
      obtain ⟨⟨hsp, haddr, hcalled⟩, hst⟩ := guarded_eq_next.mp hst
      rw [Outcome.next.injEq] at hst
      rw [← hst]
      exact h.enterframe (Bool.not_eq_true' _ ▸ hallowed) hsp haddr hcalled
  | leaveframe =>
      rw [RewindJmp.step, Outcome.ofOption_eq_next] at hst
      exact h.leaveframe (Bool.not_eq_true' _ ▸ hallowed) hst
  | setjmp saved =>
      obtain ⟨hsp, hst⟩ := guarded_eq_next.mp hst
      rw [Outcome.ofOption_eq_next] at hst
      exact h.setjmp (Bool.not_eq_true' _ ▸ hallowed) hsp hst
  | restore_shadowstack =>
      rw [RewindJmp.step, Outcome.ofOption_eq_next] at hst
      cases hsnap : t.snapshot with
      | none =>
          obtain ⟨hne, -⟩ := c_assert_eq_some.mp hst
          exact absurd (h.unarmed hsnap).1 hne
      | some s =>
          obtain ⟨st'', hst'', -, -, hinv⟩ := h.restore hsnap
          rw [hst'', Option.some.injEq] at hst
          rw [← hst]
          exact hinv
  | longjmp =>
      rw [RewindJmp.step, Outcome.ofOption_eq_next] at hst
      cases hsnap : t.snapshot with
      | none =>
          obtain ⟨hne, -⟩ := c_assert_eq_some.mp hst
          exact absurd (h.unarmed hsnap).1 hne
      | some s =>
          obtain ⟨st'', hst'', -, -, -, hinv⟩ := h.longjmp hsnap (allowed_longjmp hallowed)
          rw [hst'', Option.some.injEq] at hst
          rw [← hst]
          exact hinv
  | forget =>
      rw [RewindJmp.step, Outcome.next.injEq] at hst
      rw [← hst]
      exact h.forget (Bool.not_eq_true' _ ▸ hallowed)

theorem Inv.of_reachable (h : Reachable Tracked.Initial Tracked.step t) : Inv t :=
  h.invariant (fun _ hinit => Inv.init hinit) fun _ a _ hinv _ hs => hinv.step a hs

/-- Restoring the shadow stack again changes nothing. -/
theorem restore_shadowstack_idem {st st' : St Byte Entry}
    (hs : rewind_jmp_restore_shadowstack st = some st') :
    rewind_jmp_restore_shadowstack st' = some st' := by
  obtain ⟨hne, hs⟩ := c_assert_eq_some.mp hs
  rw [enum_shadowstack_eq, Option.pure_def, Option.some.injEq] at hs
  rw [← hs]
  apply c_assert_eq_some.mpr
  refine ⟨hne, ?_⟩
  dsimp only
  rw [enum_shadowstack_eq, memcpy_idem, Option.pure_def]

/-- `rewind_jmp_longjmp` goes back to the last `rewind_jmp_setjmp`. The C stack
above it and the shadow stack are what they were, outside of what has been
written while it was in frames that had not been the current one; restoring the
shadow stack twice is restoring it once; and of all slices, each has been freed
once or is still there. -/
theorem rewind_jmp_restores (h : Reachable Tracked.Initial Tracked.step t) :
    (∀ s, t.snapshot = some s → allowed t .longjmp = true →
      ∃ t', t.step .longjmp = .next t' ∧ t'.st.head = s.head ∧ t'.st.sp = s.sp
        ∧ ∀ a, s.saved ≤ a → a ∉ t.outside → t'.st.stack a = s.stack a)
    ∧ (∀ s, t.snapshot = some s →
      ∃ t', t.step .restore_shadowstack = .next t' ∧ t'.st.shadowstack = s.shadowstack
        ∧ (∀ k < s.shadowstack, k ∉ t.ss_outside → t'.st.entries k = s.entries k)
        ∧ t'.step .restore_shadowstack = .next t')
    ∧ (t.st.freed ++ t.st.moved_off.map (fun p => p.addr)).Perm (List.range t.st.mallocs)
    ∧ (t.snapshot = none → t.st.moved_off = []) := by
  have hinv := Inv.of_reachable h
  refine ⟨fun s hs hallowed => ?_, fun s hs => ?_, hinv.heap, fun hn => (hinv.unarmed hn).2.1⟩
  · obtain ⟨st', hst, hhead, hsp, hstack, -⟩ := hinv.longjmp hs (allowed_longjmp hallowed)
    refine ⟨t.record .longjmp st', ?_, hhead, hsp, hstack⟩
    unfold Tracked.step
    exact guarded_eq_next.mpr ⟨hallowed,
      Outcome.bind_eq_next.mpr ⟨st', Outcome.ofOption_eq_next.mpr hst, rfl⟩⟩
  · obtain ⟨st', hst, hss, hentries, -⟩ := hinv.restore hs
    refine ⟨t.record .restore_shadowstack st', ?_, hss, hentries, ?_⟩
    · unfold Tracked.step
      exact guarded_eq_next.mpr ⟨rfl,
        Outcome.bind_eq_next.mpr ⟨st', Outcome.ofOption_eq_next.mpr hst, rfl⟩⟩
    · unfold Tracked.step
      exact guarded_eq_next.mpr ⟨rfl,
        Outcome.bind_eq_next.mpr
          ⟨st', Outcome.ofOption_eq_next.mpr (restore_shadowstack_idem hst), rfl⟩⟩

end Steps

/-! ## What is not saved -/

/-- A thread with five entries on its shadow stack. -/
def fiveEntries : Tracked ℕ ℕ where
  st :=
    { head := []
      initial_head := []
      moved_off_base := 0
      moved_off_ssbase := 0
      moved_off := []
      jmpbuf := { saved := 0, ss1 := 0, sp := 0 }
      repeat_count := 0
      stack := id
      sp := 100
      entries := id
      shadowstack := 5
      mallocs := 0
      freed := [] }
  snapshot := none
  reached := 0
  ss_reached := 0
  outside := []
  ss_outside := []
  restored := false

theorem fiveEntries_initial : fiveEntries.Initial := ⟨rfl, rfl, rfl, rfl, rfl, rfl, rfl⟩

/-- A function that pushes one entry, saves, and clears the entry below its own
frame and its own one. -/
def clearsTwo : List (Act ℕ ℕ) :=
  [.call 20, .enterframe 85 90, .push 5, .setjmp 80, .set_entry 4 0, .set_entry 5 0]

/-- The entry of the caller does not come back. -/
theorem rewind_jmp_not_restores :
    ¬ ∀ (t : Tracked ℕ ℕ), Reachable Tracked.Initial Tracked.step t →
      ∀ s, t.snapshot = some s →
        ∃ t', t.step .restore_shadowstack = .next t'
          ∧ ∀ k < s.shadowstack, t'.st.entries k = s.entries k := by
  intro hall
  obtain ⟨t, s, hrun, hs, hlt, h4, hrestore⟩ : ∃ t s,
      run Tracked.step (fun _ _ => True) fiveEntries clearsTwo = .next t
        ∧ t.snapshot = some s ∧ 4 < s.shadowstack ∧ s.entries 4 = 4
        ∧ (t.step .restore_shadowstack).test (fun t' => t'.st.entries 4 == 0) = true :=
    ⟨_, _, rfl, rfl, by decide, rfl, rfl⟩
  have h0 : Reachable Tracked.Initial Tracked.step fiveEntries := .start fiveEntries_initial
  obtain ⟨t', ht', hentries⟩ := hall t (h0.run _ hrun) s hs
  rw [ht'] at hrestore
  have hzero : t'.st.entries 4 = 0 := beq_iff_eq.mp hrestore
  rw [hentries 4 hlt, h4] at hzero
  cases hzero

/-- The same function, and its caller after it has returned: both frames come
back, but not what has been written above them. -/
theorem rewind_jmp_restores_caller :
    ∃ (t : Tracked ℕ ℕ) (s : Snapshot ℕ ℕ), t.snapshot = some s ∧ t.outside = [95]
      ∧ ∃ t', t.step .longjmp = .next t' ∧ t'.st.head = s.head ∧ t'.st.sp = s.sp
        ∧ ∀ a, s.saved ≤ a → a ∉ t.outside → t'.st.stack a = s.stack a := by
  have h0 : Reachable Tracked.Initial Tracked.step fiveEntries := .start fiveEntries_initial
  obtain ⟨t, s, hrun, hs, hout, hallowed⟩ : ∃ t s,
      run Tracked.step (fun _ _ => True) fiveEntries
        [.call 10, .enterframe 92 94, .call 20, .enterframe 75 80, .push 5, .setjmp 65,
          .set_entry 5 0, .write 95 0, .pop, .leaveframe, .ret 90, .write 93 0,
          .restore_shadowstack] = .next t
        ∧ t.snapshot = some s ∧ t.outside = [95] ∧ allowed t .longjmp = true :=
    ⟨_, _, rfl, rfl, rfl, rfl⟩
  exact ⟨t, s, hs, hout, (rewind_jmp_restores (h0.run _ hrun)).1 s hs hallowed⟩

end Stmgc.C7.RewindJmp
