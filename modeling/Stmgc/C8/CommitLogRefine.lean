/-
The commit log in memory refines the list of `CommitLog`.

[`Refines`] relates the two: the entries of the log are those of the chain that
starts at `commit_log_root`, in order, and an address stands for its place in
it. Every step in memory is a step of the machine of `CommitLog`
([`Refines.step`]).
-/
import Stmgc.C8.CommitLogChain
import Stmgc.C8.CommitLogInv
import Stmgc.C8.Inevitable

namespace Stmgc.C8.Chain

open Stmgc.Lib

section

variable {Seg Obj Data : Type}

/-- The addresses of the entries, from `commit_log_root` on. -/
structure IsChain (next : ℕ → NextPtr) (nodes : List ℕ) : Prop where
  root : nodes[0]? = some commit_log_root
  nodup : nodes.Nodup
  next : ∀ i a, nodes[i]? = some a → ∀ b, next a = .entry b ↔ nodes[i + 1]? = some b

/-- The entries of the chain are those of the log. -/
structure Refines (m : PSt Seg Obj Data) (st : St Seg Obj Data) (nodes : List ℕ) : Prop where
  chain : IsChain m.next nodes
  length : nodes.length = st.log.length + 1
  entry : ∀ i a, nodes[i + 1]? = some a → m.entry a = st.log[i]?
  tail : ∀ a, nodes[st.log.length]? = some a →
    m.next a = if st.tail_inevitable then .inevitable else .null
  others : ∀ a, a ∉ nodes → m.next a = .null
  root : m.entry commit_log_root = none
  allocated : m.allocated = st.allocated
  segs : ∀ s, ∃ a, nodes[(st.segs s).last_commit_log_entry]? = some a
    ∧ m.segs s = { st.segs s with last_commit_log_entry := a }
  cl : ∀ s, (st.segs s).pc.applying = true →
    nodes[(st.segs s).last_commit_log_entry + 1]? = some (m.cl s)
  new : ∀ s written, (st.segs s).pc.written = some written → m.new s ∉ nodes
    ∧ ∃ e, m.entry (m.new s) = some e ∧ e.segment_num = s ∧ e.written = written
  new_apart : ∀ s t, s ≠ t → (st.segs s).pc.written.isSome = true →
    (st.segs t).pc.written.isSome = true → m.new s ≠ m.new t

variable {m m' : PSt Seg Obj Data} {st st' : St Seg Obj Data} {nodes : List ℕ} {s : Seg}
  {a : ℕ}

/-- Reading the `next` field of an entry. -/
theorem Refines.next_eq (h : Refines m st nodes) {k : ℕ} (ha : nodes[k]? = some a) :
    m.next a = match C8.next st k with
      | .null => .null
      | .inevitable => .inevitable
      | .entry _ => .entry (nodes[k + 1]?.getD 0) := by
  have hlen := h.length
  have hk : k < nodes.length := (List.getElem?_eq_some_iff.mp ha).1
  unfold C8.next
  cases he : st.log[k]? with
  | none =>
      have hk' : k = st.log.length := by
        have hle := List.getElem?_eq_none_iff.mp he
        omega
      subst hk'
      rw [h.tail a ha]
      cases st.tail_inevitable
      · rfl
      · rfl
  | some e =>
      have hlt := (List.getElem?_eq_some_iff.mp he).1
      have hb : nodes[k + 1]? = some nodes[k + 1] := List.getElem?_eq_getElem (by omega)
      dsimp only
      rw [hb]
      exact (h.chain.next k a ha _).mpr hb

theorem Refines.next_entry (h : Refines m st nodes) {k : ℕ} (ha : nodes[k]? = some a)
    {e : stm_commit_log_entry_s Seg Obj Data} (hn : C8.next st k = .entry e) :
    ∃ b, nodes[k + 1]? = some b ∧ m.next a = .entry b ∧ m.entry b = some e := by
  have hnext := h.next_eq ha
  rw [hn] at hnext
  have he : st.log[k]? = some e := by
    unfold C8.next at hn
    split at hn
    · rename_i he
      cases hn
      exact he
    · split at hn
      · cases hn
      · cases hn
  have hlt := (List.getElem?_eq_some_iff.mp he).1
  have hlen := h.length
  have hb : nodes[k + 1]? = some nodes[k + 1] := List.getElem?_eq_getElem (by omega)
  rw [hb] at hnext
  exact ⟨_, hb, hnext, (h.entry k _ hb).trans he⟩

/-- Memory that is not in the chain, and that no commit has allocated. -/
theorem Refines.free (h : Refines m st nodes)
    {entry : ℕ → Option (stm_commit_log_entry_s Seg Obj Data)}
    (hnodes : ∀ b ∈ nodes, entry b = m.entry b)
    (hnew : ∀ t written, (st.segs t).pc.written = some written →
      entry (m.new t) = m.entry (m.new t)) : Refines { m with entry := entry } st nodes := by
  have hroot : commit_log_root ∈ nodes := List.mem_of_getElem? h.chain.root
  exact { h with
    entry := fun i b hb => (hnodes b (List.mem_of_getElem? hb)).trans (h.entry i b hb)
    root := (hnodes _ hroot).trans h.root
    new := by
      intro t w hw
      obtain ⟨hnot, e, he, hrest⟩ := h.new t w hw
      exact ⟨hnot, e, (hnew t w hw).trans he, hrest⟩ }

/-- `malloc` returns memory that is not in the chain. -/
theorem Refines.notMem (h : Refines m st nodes) (hfree : m.entry a = none)
    (hroot : a ≠ commit_log_root) : a ∉ nodes := by
  intro hmem
  obtain ⟨i, hi⟩ := List.mem_iff_getElem?.mp hmem
  cases i with
  | zero =>
      rw [h.chain.root, Option.some_inj] at hi
      exact hroot hi.symm
  | succ i =>
      have hlt := (List.getElem?_eq_some_iff.mp hi).1
      have hlen := h.length
      rw [h.entry i a hi, List.getElem?_eq_none_iff] at hfree
      omega

variable [DecidableEq Seg]

/-- A step of one segment that leaves the chain alone. -/
theorem Refines.set (h : Refines m st nodes) (seg : Segment Obj Data) {seg' : Segment Obj Data}
    (ha : nodes[seg.last_commit_log_entry]? = some a)
    (hseg : seg' = { seg with last_commit_log_entry := a })
    (hcl : seg.pc.applying = true → nodes[seg.last_commit_log_entry + 1]? = some (m.cl s))
    (hnew : ∀ written, seg.pc.written = some written → (st.segs s).pc.written = some written) :
    Refines (m.set s seg') (st.set s seg) nodes := by
  have hupdate : ∀ t, ((st.set s seg).segs t) = if t = s then seg else st.segs t := by
    intro t
    unfold St.set
    dsimp only
    rw [Function.update_apply]
  have hwritten : ∀ t written, ((st.set s seg).segs t).pc.written = some written →
      (st.segs t).pc.written = some written := by
    intro t written
    rw [hupdate]
    split
    · rename_i hts
      rw [hts]
      exact hnew written
    · exact id
  have hsome : ∀ t, ((st.set s seg).segs t).pc.written.isSome = true →
      (st.segs t).pc.written.isSome = true := by
    intro t ht
    obtain ⟨w, hw⟩ := Option.isSome_iff_exists.mp ht
    rw [hwritten t w hw]
    rfl
  exact {
    chain := h.chain
    length := h.length
    entry := h.entry
    tail := h.tail
    others := h.others
    root := h.root
    allocated := h.allocated
    segs := by
      intro t
      rw [hupdate]
      unfold PSt.set
      dsimp only
      rw [Function.update_apply]
      split
      · exact ⟨a, ha, hseg⟩
      · exact h.segs t
    cl := by
      intro t
      rw [hupdate]
      split
      · rename_i hts
        rw [hts]
        exact hcl
      · exact h.cl t
    new := fun t w hw => h.new t w (hwritten t w hw)
    new_apart := fun t u htu ht hu => h.new_apart t u htu (hsome t ht) (hsome u hu) }

/-- A step of a function of one segment, which does not look at the log. -/
theorem Refines.set_local (h : Refines m st nodes) (f : Segment Obj Data → Segment Obj Data)
    (hlast : (f (st.segs s)).last_commit_log_entry = (st.segs s).last_commit_log_entry)
    (hf : ∀ a, f { st.segs s with last_commit_log_entry := a }
      = { f (st.segs s) with last_commit_log_entry := a })
    (happlying : (f (st.segs s)).pc.applying = true → (st.segs s).pc.applying = true)
    (hnew : ∀ written, (f (st.segs s)).pc.written = some written →
      (st.segs s).pc.written = some written) :
    Refines (m.set s (f (m.segs s))) (st.set s (f (st.segs s))) nodes := by
  obtain ⟨a, ha, hseg⟩ := h.segs s
  refine h.set _ (a := a) ?_ ?_ ?_ hnew
  · rw [hlast]
    exact ha
  · rw [hseg]
    exact hf a
  · rw [hlast]
    exact fun happ => h.cl s (happlying happ)

/-- The entry of a commit, with what it commits. -/
theorem Refines.attach (h : Refines m st nodes) {written : List Obj}
    (hpc : (st.segs s).pc = .attach_commit written)
    (hlast : (st.segs s).last_commit_log_entry = st.log.length) :
    Refines (attach_entry m s
        (Function.update m.next (m.segs s).last_commit_log_entry (.entry (m.new s))))
      (C8.attach_entry st s written) (nodes ++ [m.new s]) := by
  obtain ⟨a, ha, hseg⟩ := h.segs s
  obtain ⟨hnot, e, he, hsegment, hwritten⟩ := h.new s written (by rw [hpc]; rfl)
  have hlen := h.length
  have hroot : commit_log_root ∈ nodes := List.mem_of_getElem? h.chain.root
  have hsegs : ∀ t, (C8.attach_entry st s written).segs t
      = if t = s then { st.segs s with pc := .attached } else st.segs t := by
    intro t
    unfold C8.attach_entry
    dsimp only
    rw [Function.update_apply]
  have hkeep : ∀ (k : ℕ) b, nodes[k]? = some b → (nodes ++ [m.new s])[k]? = some b := by
    intro k b hb
    rw [List.getElem?_append_left (List.getElem?_eq_some_iff.mp hb).1]
    exact hb
  have hold : ∀ t w, ((C8.attach_entry st s written).segs t).pc.written = some w →
      t ≠ s ∧ (st.segs t).pc.written = some w := by
    intro t w hw
    rw [hsegs] at hw
    split at hw
    · cases hw
    · rename_i hts
      exact ⟨hts, hw⟩
  have haddr : (m.segs s).last_commit_log_entry = a := by rw [hseg]
  have hmem : a ∈ nodes := List.mem_of_getElem? ha
  have hne : m.new s ≠ a := by
    rintro heq
    exact hnot (heq ▸ hmem)
  rw [haddr]
  exact {
    chain := by
      refine ⟨hkeep _ _ h.chain.root, ?_, fun i b hb c => ?_⟩
      · rw [List.nodup_append]
        refine ⟨h.chain.nodup, List.nodup_singleton _, ?_⟩
        rintro b hb c hc rfl
        rw [List.mem_singleton] at hc
        exact hnot (hc ▸ hb)
      · show Function.update m.next a (.entry (m.new s)) b = .entry c ↔ _
        rw [Function.update_apply]
        by_cases hi : i < nodes.length
        · rw [List.getElem?_append_left hi] at hb
          by_cases hba : b = a
          · -- the last entry of before
            have hik : i = st.log.length := by
              subst hba
              rw [hlast] at ha
              rw [List.getElem?_eq_some_iff] at hb ha
              obtain ⟨hi, hb⟩ := hb
              obtain ⟨hj, ha⟩ := ha
              exact (List.Nodup.getElem_inj_iff h.chain.nodup).mp (hb.trans ha.symm)
            rw [if_pos hba, hik, List.getElem?_append_right (by omega), NextPtr.entry.injEq]
            rw [show st.log.length + 1 - nodes.length = 0 by omega]
            exact Option.some_inj.symm
          · rw [if_neg hba, h.chain.next i b hb c]
            have hlt : i + 1 < nodes.length := by
              by_contra hge
              have hik : i = st.log.length := by omega
              rw [hik, ← hlast, ha, Option.some_inj] at hb
              exact hba hb.symm
            rw [List.getElem?_append_left hlt]
        · have hb' := hb
          rw [List.getElem?_append_right (by omega)] at hb'
          have hlt := (List.getElem?_eq_some_iff.mp hb').1
          rw [List.length_singleton] at hlt
          have hik : i = nodes.length := by omega
          subst hik
          rw [Nat.sub_self] at hb'
          cases hb'
          rw [if_neg hne, h.others _ hnot, List.getElem?_append_right (by omega)]
          refine iff_of_false nofun ?_
          rw [Nat.add_sub_cancel_left]
          nofun
    length := by
      unfold C8.attach_entry
      dsimp only
      rw [List.length_append, List.length_append, hlen]
      rfl
    entry := by
      intro i b hb
      show Function.update m.entry (m.new s) _ b = (st.log ++ _)[i]?
      by_cases hi : i + 1 < nodes.length
      · rw [List.getElem?_append_left hi] at hb
        have hbn : b ≠ m.new s := by
          rintro rfl
          exact hnot (List.mem_of_getElem? hb)
        rw [Function.update_of_ne hbn, List.getElem?_append_left (by omega)]
        exact h.entry i b hb
      · rw [List.getElem?_append_right (by omega)] at hb
        have hlt := (List.getElem?_eq_some_iff.mp hb).1
        rw [List.length_singleton] at hlt
        have hik : i = st.log.length := by omega
        subst hik
        rw [show st.log.length + 1 - nodes.length = 0 by omega] at hb
        cases hb
        rw [Function.update_self, he, List.getElem?_append_right (le_refl _), Nat.sub_self, hseg,
          Option.map_some]
        cases hsegment
        cases hwritten
        rfl
    tail := by
      intro b hb
      show Function.update m.next a (.entry (m.new s)) b = .null
      have hlog : (C8.attach_entry st s written).log.length = nodes.length := by
        unfold C8.attach_entry
        dsimp only
        rw [List.length_append, hlen]
        rfl
      rw [hlog, List.getElem?_append_right (le_refl _), Nat.sub_self] at hb
      cases hb
      rw [Function.update_of_ne hne]
      exact h.others _ hnot
    others := by
      intro b hb
      rw [List.mem_append, List.mem_singleton, not_or] at hb
      have hba : b ≠ a := by
        rintro rfl
        exact hb.1 hmem
      show Function.update m.next a (.entry (m.new s)) b = .null
      rw [Function.update_of_ne hba]
      exact h.others b hb.1
    root := by
      have hne : commit_log_root ≠ m.new s := by
        rintro heq
        exact hnot (heq ▸ hroot)
      show Function.update m.entry (m.new s) _ commit_log_root = none
      rw [Function.update_of_ne hne]
      exact h.root
    allocated := h.allocated
    segs := by
      intro t
      rw [hsegs]
      unfold attach_entry PSt.set
      dsimp only
      rw [Function.update_apply]
      split
      · exact ⟨a, hkeep _ _ ha, by rw [hseg]⟩
      · obtain ⟨b, hb, ht⟩ := h.segs t
        exact ⟨b, hkeep _ _ hb, ht⟩
    cl := by
      intro t
      rw [hsegs]
      split
      · nofun
      · exact fun happ => hkeep _ _ (h.cl t happ)
    new := by
      intro t w hw
      obtain ⟨hts, hw⟩ := hold t w hw
      obtain ⟨hnt, e', he', hrest⟩ := h.new t w hw
      have hapart : m.new t ≠ m.new s := h.new_apart t s hts (by rw [hw]; rfl) (by rw [hpc]; rfl)
      refine ⟨?_, e', ?_, hrest⟩
      · show m.new t ∉ _
        rw [List.mem_append, List.mem_singleton, not_or]
        exact ⟨hnt, hapart⟩
      · show Function.update m.entry (m.new s) _ (m.new t) = some e'
        rw [Function.update_of_ne hapart]
        exact he'
    new_apart := by
      intro t u htu ht hu
      obtain ⟨w, hw⟩ := Option.isSome_iff_exists.mp ht
      obtain ⟨w', hw'⟩ := Option.isSome_iff_exists.mp hu
      refine h.new_apart t u htu ?_ ?_
      · rw [(hold t w hw).2]
        rfl
      · rw [(hold u w' hw').2]
        rfl }

theorem Refines.create (h : Refines m st nodes) {seg seg' : Segment Obj Data} {written : List Obj}
    (hlast : seg.last_commit_log_entry = (st.segs s).last_commit_log_entry)
    (hseg : seg' = { seg with last_commit_log_entry := (m.segs s).last_commit_log_entry })
    (happlying : seg.pc.applying = false) (hwritten : seg.pc.written = some written)
    (hfree : m.entry a = none) (hroot : a ≠ commit_log_root) :
    Refines (create_commit_log_entry (m.set s seg') s a written) (st.set s seg) nodes := by
  have hnot : a ∉ nodes := h.notMem hfree hroot
  have hmem : commit_log_root ∈ nodes := List.mem_of_getElem? h.chain.root
  have hne : ∀ b ∈ nodes, b ≠ a := by
    rintro b hb rfl
    exact hnot hb
  have hnext : ∀ b, Function.update m.next a .null b = m.next b := by
    intro b
    rw [Function.update_apply]
    split
    · rename_i hba
      rw [hba, h.others a hnot]
    · rfl
  have hsegs : ∀ t, (st.set s seg).segs t = if t = s then seg else st.segs t := by
    intro t
    unfold St.set
    dsimp only
    rw [Function.update_apply]
  have hothers : ∀ t w, (st.segs t).pc.written = some w → m.new t ≠ a := by
    rintro t w hw rfl
    obtain ⟨-, e, he, -⟩ := h.new t w hw
    rw [hfree] at he
    cases he
  exact {
    chain := ⟨h.chain.root, h.chain.nodup, fun i b hb c => by
      show Function.update m.next a .null b = .entry c ↔ _
      rw [hnext]
      exact h.chain.next i b hb c⟩
    length := h.length
    entry := by
      intro i b hb
      show Function.update m.entry a _ b = _
      rw [Function.update_of_ne (hne b (List.mem_of_getElem? hb))]
      exact h.entry i b hb
    tail := fun b hb => (hnext b).trans (h.tail b hb)
    others := fun b hb => (hnext b).trans (h.others b hb)
    root := by
      show Function.update m.entry a _ commit_log_root = none
      rw [Function.update_of_ne (Ne.symm hroot)]
      exact h.root
    allocated := h.allocated
    segs := by
      intro t
      rw [hsegs]
      unfold create_commit_log_entry PSt.set
      dsimp only
      rw [Function.update_apply]
      split
      · obtain ⟨b, hb, hm⟩ := h.segs s
        refine ⟨b, by rw [hlast]; exact hb, ?_⟩
        rw [hseg, hm]
      · exact h.segs t
    cl := by
      intro t
      rw [hsegs]
      split
      · rw [happlying]
        nofun
      · exact h.cl t
    new := by
      intro t w hw
      rw [hsegs] at hw
      show Function.update m.new s a t ∉ nodes
        ∧ ∃ e, Function.update m.entry a _ (Function.update m.new s a t) = some e ∧ _
      rw [Function.update_apply]
      by_cases hts : t = s
      · rw [if_pos hts] at hw ⊢
        rw [hwritten, Option.some_inj] at hw
        exact ⟨hnot, _, Function.update_self _ _ _, hts.symm, hw⟩
      · rw [if_neg hts] at hw ⊢
        rw [Function.update_of_ne (hothers t w hw)]
        exact h.new t w hw
    new_apart := by
      intro t u htu ht hu
      show Function.update m.new s a t ≠ Function.update m.new s a u
      rw [hsegs] at ht hu
      rw [Function.update_apply, Function.update_apply]
      split_ifs at ht hu ⊢ with hts hus
      · exact absurd (hts.trans hus.symm) htu
      · obtain ⟨w, hw⟩ := Option.isSome_iff_exists.mp hu
        exact (hothers u w hw).symm
      · obtain ⟨w, hw⟩ := Option.isSome_iff_exists.mp ht
        exact hothers t w hw
      · exact h.new_apart t u htu ht hu }

/-- The mark at the end of the chain. -/
theorem Refines.turn_inevitable (h : Refines m st nodes)
    (hlast : (st.segs s).last_commit_log_entry = st.log.length) (seg : Segment Obj Data)
    (hseg : seg.last_commit_log_entry = (st.segs s).last_commit_log_entry)
    (happlying : seg.pc.applying = false) (hwritten : seg.pc.written = none) :
    Refines { m.set s { seg with
          last_commit_log_entry := (m.segs s).last_commit_log_entry } with
        next := Function.update m.next (m.segs s).last_commit_log_entry .inevitable }
      (({ st with tail_inevitable := true }).set s seg) nodes := by
  obtain ⟨a, ha, hm⟩ := h.segs s
  have haddr : (m.segs s).last_commit_log_entry = a := by rw [hm]
  have hset : Refines (m.set s { seg with last_commit_log_entry := a }) (st.set s seg) nodes := by
    refine h.set _ (by rw [hseg]; exact ha) rfl ?_ ?_
    · rw [happlying]
      nofun
    · rw [hwritten]
      nofun
  have hend : nodes[st.log.length]? = some a := hlast ▸ ha
  rw [haddr]
  exact { hset with
    chain := by
      refine ⟨h.chain.root, h.chain.nodup, fun i b hb c => ?_⟩
      show Function.update m.next a .inevitable b = .entry c ↔ _
      rw [Function.update_apply]
      split
      · rename_i hba
        subst hba
        have hold := h.chain.next i b hb c
        have hnull := h.tail b hend
        rw [hnull] at hold
        refine (iff_of_false nofun ?_)
        rw [← hold]
        cases st.tail_inevitable
        · nofun
        · nofun
      · exact h.chain.next i b hb c
    tail := by
      intro b hb
      rw [show nodes[st.log.length]? = some b from hb, Option.some_inj] at hend
      subst hend
      exact Function.update_self _ _ _
    others := by
      intro b hb
      have hba : b ≠ a := by
        rintro rfl
        exact hb (List.mem_of_getElem? ha)
      show Function.update m.next a .inevitable b = .null
      rw [Function.update_of_ne hba]
      exact h.others b hb }

end

/-! ## Steps -/

section

variable {Seg Obj Data : Type} [DecidableEq Seg] [DecidableEq Obj] {m m' : PSt Seg Obj Data}
  {st : St Seg Obj Data} {nodes : List ℕ} {s : Seg}

/-- A step in memory, with the step of the log and the chain after it. -/
def Simulated (m' : PSt Seg Obj Data) (nodes : List ℕ) (r : Outcome (St Seg Obj Data)) : Prop :=
  ∃ st' nodes', r = .next st' ∧ Refines m' st' nodes' ∧ nodes <+: nodes'

omit [DecidableEq Seg] [DecidableEq Obj] in
theorem Simulated.of_refines {r : Outcome (St Seg Obj Data)} {st' : St Seg Obj Data}
    (hs : r = .next st') (h : Refines m' st' nodes) : Simulated m' nodes r :=
  ⟨st', nodes, hs, h, List.prefix_rfl⟩

theorem Refines.continue_step (h : Refines m st nodes) (hinv : TailInv st)
    (hs : Chain.continue_step m s = .next m') :
    Simulated m' nodes (C8.continue_step st s) := by
  obtain ⟨a, ha, hm⟩ := h.segs s
  have hpcm : (m.segs s).pc = (st.segs s).pc := by rw [hm]
  have hstate : (m.segs s).transaction_state = (st.segs s).transaction_state := by rw [hm]
  have haddr : (m.segs s).last_commit_log_entry = a := by rw [hm]
  have hnext := h.next_eq ha
  rw [← haddr] at hnext
  unfold Chain.continue_step at hs
  unfold C8.continue_step
  cases hpc : (st.segs s).pc with
  | no_transaction => simp [hpcm, hpc] at hs
  | running => simp [hpcm, hpc] at hs
  | write_slowpath obj bk =>
      simp only [hpcm, hpc, Outcome.next.injEq] at hs ⊢
      rw [← hs]
      exact .of_refines rfl (h.set_local (fun seg => register_backup seg obj bk) rfl
        (fun _ => rfl) nofun nofun)
  | validate caller needs_abort =>
      simp only [hpcm, hpc] at hs ⊢
      cases hn : C8.next st (st.segs s).last_commit_log_entry with
      | entry e =>
          obtain ⟨b, hb, hnb, heb⟩ := h.next_entry ha hn
          rw [← haddr] at hnb
          simp only [hnb, heb, Outcome.next.injEq] at hs
          rw [← hs]
          refine .of_refines rfl ?_
          have hcl : Refines { m with cl := Function.update m.cl s b } st nodes :=
            { h with
              cl := by
                intro t happ
                show _ = some (Function.update m.cl s b t)
                rw [Function.update_apply]
                split
                · rename_i hts
                  rw [hts]
                  exact hb
                · exact h.cl t happ }
          refine hcl.set { st.segs s with pc := .update caller needs_abort e.written } (a := a) ha
            ?_ (fun _ => ?_) ?_
          · rw [hm]
          · show _ = some (Function.update m.cl s b s)
            rw [Function.update_self]
            exact hb
          · rw [hpc]
            cases caller <;> exact fun _ => id
      | inevitable =>
          rw [hn] at hnext
          simp only [hnext, Outcome.next.injEq] at hs
          rw [← hs]
          exact .of_refines rfl h
      | null =>
          rw [hn] at hnext
          simp only [hnext] at hs
          cases needs_abort with
          | true =>
              simp only [if_true, Outcome.next.injEq] at hs ⊢
              rw [← hs]
              have hset := h.set_local (s := s) (fun seg => { seg with pc := .abort }) rfl
                (fun _ => rfl) nofun nofun
              refine .of_refines rfl (hset.free ?_ ?_)
              · -- the entry of the commit is not in the chain
                intro b hb
                cases caller with
                | commit written =>
                    obtain ⟨hnot, -⟩ := h.new s written (by rw [hpc]; rfl)
                    have hbn : b ≠ m.new s := by
                      rintro rfl
                      exact hnot hb
                    exact Function.update_of_ne hbn _ _
                | _ => rfl
              · intro t w hw
                have hts : t ≠ s := by
                  rintro rfl
                  unfold St.set at hw
                  dsimp only at hw
                  rw [Function.update_self] at hw
                  cases hw
                unfold St.set at hw
                dsimp only at hw
                rw [Function.update_of_ne hts] at hw
                cases caller with
                | commit written =>
                    have hapart := h.new_apart t s hts (by rw [hw]; rfl) (by rw [hpc]; rfl)
                    exact Function.update_of_ne hapart _ _
                | _ => rfl
          | false =>
              simp only [Bool.false_eq_true, if_false, Outcome.next.injEq] at hs ⊢
              rw [← hs]
              refine .of_refines rfl (h.set_local (fun seg => { seg with pc := caller.return_pc })
                rfl (fun _ => rfl) ?_ ?_)
              · cases caller <;> nofun
              · rw [hpc]
                cases caller <;> exact fun _ => id
  | update caller needs_abort written =>
      have hcl := h.cl s (by rw [hpc]; rfl)
      have hlt := (hinv.segs s).applying (by rw [hpc]; rfl)
      cases written with
      | nil =>
          simp only [hpcm, hpc, Outcome.next.injEq] at hs ⊢
          rw [← hs]
          refine .of_refines rfl (h.set _ (a := m.cl s) hcl ?_ nofun ?_)
          · rw [hm]
          · rw [hpc]
            cases caller <;> exact fun _ => id
      | cons obj written =>
          have he : st.log[(st.segs s).last_commit_log_entry]?
              = some st.log[(st.segs s).last_commit_log_entry] := List.getElem?_eq_getElem hlt
          have hn : C8.next st (st.segs s).last_commit_log_entry
              = .entry st.log[(st.segs s).last_commit_log_entry] := by
            unfold C8.next
            rw [he]
          have hentry := (h.entry _ _ hcl).trans he
          obtain ⟨b, hb, hother⟩ := h.segs (st.log[(st.segs s).last_commit_log_entry]).segment_num
          simp only [hpcm, hpc, hn, hentry] at hs ⊢
          rw [hother] at hs
          have hcopy : ∀ (seg : Segment Obj Data) (b : ℕ),
              update_obj_from { seg with last_commit_log_entry := b } obj
                = update_obj_from seg obj := fun _ _ => rfl
          rw [hcopy] at hs
          cases hobj : update_obj_from
              (st.segs (st.log[(st.segs s).last_commit_log_entry]).segment_num) obj with
          | none =>
              rw [hobj] at hs
              cases hs
          | some realobj =>
              simp only [hobj, Outcome.next.injEq] at hs ⊢
              rw [← hs]
              refine .of_refines rfl (h.set_local (fun seg => { seg with
                page := Function.update seg.page obj realobj
                pc := .was_read caller needs_abort obj written }) rfl (fun _ => rfl) ?_ ?_)
              · rw [hpc]
                exact fun _ => rfl
              · rw [hpc]
                cases caller <;> exact fun _ => id
  | was_read caller needs_abort obj written =>
      simp only [hpcm, hpc, Outcome.next.injEq] at hs ⊢
      rw [← hs]
      refine .of_refines rfl (h.set_local
        (fun seg => check_was_read seg caller needs_abort obj written) ?_ (fun b => ?_) ?_ ?_)
      · unfold check_was_read
        split <;> rfl
      · have hread : stm_was_read { st.segs s with last_commit_log_entry := b } obj
            = stm_was_read (st.segs s) obj := rfl
        unfold check_was_read
        rw [hread]
        split <;> rfl
      · rw [hpc]
        exact fun _ => rfl
      · rw [hpc]
        unfold check_was_read
        split <;> cases caller <;> exact fun _ => id
  | attach_commit written =>
      simp only [hpcm, hpc] at hs ⊢
      by_cases hts : (st.segs s).transaction_state = .TS_INEVITABLE
      · have htsm := hstate.trans hts
        have hholds : (st.segs s).holds_tail = true := by
          rw [holds_tail_iff, hpc]
          exact ⟨hts, rfl⟩
        obtain ⟨htail, hlast⟩ := (hinv.segs s).holds hholds
        have hn : C8.next st (st.segs s).last_commit_log_entry = .inevitable := by
          unfold C8.next
          rw [hlast, List.getElem?_eq_none (le_refl _), htail]
          rfl
        rw [hn] at hnext
        simp only [if_pos hts, if_pos htsm, hn, compare_and_swap, hnext, if_true,
          Outcome.next.injEq] at hs ⊢
        rw [← hs]
        exact ⟨_, _, rfl, h.attach hpc hlast, List.prefix_append _ _⟩
      · have htsm : (m.segs s).transaction_state ≠ .TS_INEVITABLE := by
          rw [hstate]
          exact hts
        simp only [if_neg hts, if_neg htsm] at hs ⊢
        have hretry : Refines (m.set s { m.segs s with pc := .validate (.commit written) false })
            (st.set s { st.segs s with pc := .validate (.commit written) false }) nodes := by
          refine h.set_local (fun seg => { seg with pc := .validate (.commit written) false })
            rfl (fun _ => rfl) nofun ?_
          rw [hpc]
          exact fun _ => id
        cases hn : C8.next st (st.segs s).last_commit_log_entry with
        | null =>
            rw [hn] at hnext
            have hlast : (st.segs s).last_commit_log_entry = st.log.length :=
              le_antisymm (hinv.segs s).last_le (length_le_of_next (by rw [hn]; nofun))
            simp only [compare_and_swap, hnext, if_true, Outcome.next.injEq] at hs ⊢
            rw [← hs]
            exact ⟨_, _, rfl, h.attach hpc hlast, List.prefix_append _ _⟩
        | entry e =>
            rw [hn] at hnext
            simp only [compare_and_swap, hnext, reduceCtorEq, if_false,
              Outcome.next.injEq] at hs ⊢
            rw [← hs]
            exact .of_refines rfl hretry
        | inevitable =>
            rw [hn] at hnext
            simp only [compare_and_swap, hnext, reduceCtorEq, if_false,
              Outcome.next.injEq] at hs ⊢
            rw [← hs]
            exact .of_refines rfl hretry
  | attach_inevitable =>
      simp only [hpcm, hpc] at hs ⊢
      have hretry : Refines (m.set s { m.segs s with pc := .validate .inevitable false })
          (st.set s { st.segs s with pc := .validate .inevitable false }) nodes :=
        h.set_local (fun seg => { seg with pc := .validate .inevitable false }) rfl
          (fun _ => rfl) nofun nofun
      cases hn : C8.next st (st.segs s).last_commit_log_entry with
      | null =>
          rw [hn] at hnext
          have hlast : (st.segs s).last_commit_log_entry = st.log.length :=
            le_antisymm (hinv.segs s).last_le (length_le_of_next (by rw [hn]; nofun))
          simp only [compare_and_swap, hnext, if_true, Outcome.next.injEq] at hs ⊢
          rw [← hs]
          have hturn := h.turn_inevitable hlast { st.segs s with
            transaction_state := .TS_INEVITABLE
            pc := .running } rfl rfl rfl
          rw [hm] at hturn ⊢
          exact .of_refines rfl hturn
      | entry e =>
          rw [hn] at hnext
          simp only [compare_and_swap, hnext, reduceCtorEq, if_false,
            Outcome.next.injEq] at hs ⊢
          rw [← hs]
          exact .of_refines rfl hretry
      | inevitable =>
          rw [hn] at hnext
          simp only [compare_and_swap, hnext, reduceCtorEq, if_false,
            Outcome.next.injEq] at hs ⊢
          rw [← hs]
          exact .of_refines rfl hretry
  | attached =>
      simp only [hpcm, hpc, Outcome.next.injEq] at hs ⊢
      rw [← hs]
      exact .of_refines rfl (h.set_local clear_modified rfl (fun _ => rfl) nofun nofun)
  | finish =>
      simp only [hpcm, hpc, Outcome.next.injEq] at hs ⊢
      rw [← hs]
      exact .of_refines rfl (h.set_local finish_transaction rfl (fun _ => rfl) nofun nofun)
  | abort =>
      simp only [hpcm, hpc] at hs ⊢
      split at hs
      · rename_i hreg
        rw [Outcome.next.injEq] at hs
        rw [← hs, if_pos (hstate.symm.trans hreg)]
        exact .of_refines rfl (h.set_local abort_transaction rfl (fun _ => rfl) nofun nofun)
      · cases hs

/-- Every step in memory is a step of the log. -/
theorem Refines.step (h : Refines m st nodes) (hinv : TailInv st) {a : Act Seg Obj Data}
    {addr : ℕ} (hs : Chain.step m (a, addr) = .next m') :
    Simulated m' nodes (C8.step st a) := by
  have hsegs : ∀ s, ∃ x, nodes[(st.segs s).last_commit_log_entry]? = some x
      ∧ m.segs s = { st.segs s with last_commit_log_entry := x } := h.segs
  have hpcm : ∀ s, (m.segs s).pc = (st.segs s).pc := by
    intro s
    obtain ⟨x, -, hm⟩ := hsegs s
    rw [hm]
  have hstate : ∀ s, (m.segs s).transaction_state = (st.segs s).transaction_state := by
    intro s
    obtain ⟨x, -, hm⟩ := hsegs s
    rw [hm]
  have hpage : ∀ s, (m.segs s).page = (st.segs s).page := by
    intro s
    obtain ⟨x, -, hm⟩ := hsegs s
    rw [hm]
  have hnext : ∀ s, m.next (m.segs s).last_commit_log_entry = .inevitable ↔
      C8.next st (st.segs s).last_commit_log_entry = .inevitable := by
    intro s
    obtain ⟨x, hx, hm⟩ := hsegs s
    have heq := h.next_eq hx
    rw [hm]
    dsimp only
    rw [heq]
    cases C8.next st (st.segs s).last_commit_log_entry
    · exact iff_of_false (by simp) (by simp)
    · exact iff_of_true rfl rfl
    · exact iff_of_false (by simp) (by simp)
  cases a with
  | start_transaction s =>
      cases hpc : (st.segs s).pc <;>
        simp only [Chain.step, C8.step, hpcm, hpc] at hs ⊢ <;> try cases hs
      obtain ⟨x, hx, hm⟩ := hsegs s
      split at hs
      · rename_i hclear
        rw [Outcome.next.injEq] at hs
        have hclear' : (st.segs s).modified_old_objects.keys = []
            ∧ (st.segs s).objects_pointing_to_nursery = [] := by
          rw [hm] at hclear
          exact hclear
        rw [← hs, if_pos hclear']
        refine .of_refines rfl (h.set_local start_transaction rfl (fun _ => rfl) (by intros; contradiction) (by intros; contradiction))
      · cases hs
  | read s obj =>
      cases hpc : (st.segs s).pc <;>
        simp only [Chain.step, C8.step, hpcm, hpc] at hs ⊢ <;> try cases hs
      refine .of_refines rfl (h.set_local (fun seg => stm_read seg obj) rfl (fun _ => rfl) ?_ ?_)
      · exact id
      · exact fun _ => id
  | write s obj =>
      cases hpc : (st.segs s).pc <;>
        simp only [Chain.step, C8.step, hpcm, hpc, hpage, h.allocated] at hs ⊢ <;> try cases hs
      split at hs
      · rename_i hobj
        rw [if_pos hobj]
        split at hs
        · rename_i hwb
          rw [Outcome.next.injEq] at hs
          rw [← hs, if_pos hwb]
          exact .of_refines rfl (h.set_local (fun seg => stm_write_slowpath seg obj) rfl
            (fun _ => rfl) (by intros; contradiction) (by intros; contradiction))
        · rename_i hwb
          rw [Outcome.next.injEq] at hs
          rw [← hs, if_neg hwb]
          exact .of_refines rfl h
      · cases hs
  | store s obj data =>
      cases hpc : (st.segs s).pc <;>
        simp only [Chain.step, C8.step, hpcm, hpc, hpage] at hs ⊢ <;> try cases hs
      split at hs
      · cases hs
      · rename_i hwb
        rw [Outcome.next.injEq] at hs
        rw [← hs, if_neg hwb]
        refine .of_refines rfl (h.set_local (fun seg => C8.store seg obj data) rfl (fun _ => rfl)
          ?_ ?_)
        · exact id
        · exact fun _ => id
  | allocate_old obj data =>
      simp only [Chain.step, C8.step, h.allocated] at hs ⊢
      split at hs
      · cases hs
      · rename_i hobj
        rw [Outcome.next.injEq] at hs
        rw [← hs, if_neg hobj]
        refine .of_refines rfl { h with
          allocated := rfl
          segs := fun s => ?_ }
        obtain ⟨x, hx, hm⟩ := hsegs s
        refine ⟨x, hx, ?_⟩
        dsimp only
        rw [hm]
  | minor_collection s trace =>
      cases hpc : (st.segs s).pc <;>
        simp only [Chain.step, C8.step, hpcm, hpc] at hs ⊢ <;> try cases hs
      refine .of_refines rfl (h.set_local (C8.minor_collection trace) rfl (fun _ => rfl) ?_ ?_)
      · exact id
      · exact fun _ => id
  | validate s =>
      cases hpc : (st.segs s).pc <;>
        simp only [Chain.step, C8.step, hpcm, hpc, hstate] at hs ⊢ <;> try cases hs
      split at hs
      · rename_i hts
        rw [if_pos hts]
        split at hs
        · rename_i hn
          rw [Outcome.next.injEq] at hs
          rw [(hnext s).mp hn, ← hs]
          exact .of_refines rfl h
        · cases hs
      · rename_i hts
        rw [Outcome.next.injEq] at hs
        rw [← hs, if_neg hts]
        refine .of_refines rfl ?_
        have hgo := h.set_local (s := s) (fun seg => { seg with pc := .validate .running false })
          rfl (fun _ => rfl) (by intros; contradiction) (by intros; contradiction)
        rw [hstate s] at hgo
        exact hgo
  | become_inevitable s =>
      cases hpc : (st.segs s).pc <;>
        simp only [Chain.step, C8.step, hpcm, hpc, hstate] at hs ⊢ <;> try cases hs
      split at hs
      · rename_i hts
        rw [Outcome.next.injEq] at hs
        rw [← hs, if_pos hts]
        refine .of_refines rfl ?_
        have hgo := h.set_local (s := s) (fun seg => { seg with pc := .validate .inevitable false })
          rfl (fun _ => rfl) (by intros; contradiction) (by intros; contradiction)
        rw [hstate s] at hgo
        exact hgo
      · rename_i hts
        rw [Outcome.next.injEq] at hs
        rw [← hs, if_neg hts]
        exact .of_refines rfl h
  | commit_transaction s trace =>
      cases hpc : (st.segs s).pc <;>
        simp only [Chain.step, C8.step, hpcm, hpc] at hs ⊢ <;> try cases hs
      obtain ⟨⟨hfree, hroot⟩, hs⟩ := guarded_eq_next.mp hs
      rw [Option.isNone_iff_eq_none] at hfree
      rw [Outcome.next.injEq] at hs
      obtain ⟨x, hx, hm⟩ := hsegs s
      have hcommit : C8.commit_transaction trace (m.segs s)
          = { C8.commit_transaction trace (st.segs s) with last_commit_log_entry := x } := by
        rw [hm]
        rfl
      have haddr : (m.segs s).last_commit_log_entry = x := by rw [hm]
      rw [← hs, hcommit]
      refine .of_refines rfl (h.create rfl (by rw [haddr]) ?_ ?_ hfree hroot)
      · unfold C8.commit_transaction
        dsimp only
        split <;> rfl
      · unfold C8.commit_transaction
        dsimp only
        split <;> rfl
  | abort_transaction s =>
      have hgo : Refines (m.set s { m.segs s with pc := .abort })
          (st.set s { st.segs s with pc := .abort }) nodes :=
        h.set_local (fun seg => { seg with pc := .abort }) rfl (fun _ => rfl) (by intros; contradiction) (by intros; contradiction)
      cases hpc : (st.segs s).pc with
      | running =>
          simp only [Chain.step, C8.step, hpcm, hpc, Outcome.next.injEq] at hs ⊢
          rw [← hs]
          exact .of_refines rfl hgo
      | validate caller needs_abort =>
          simp only [Chain.step, C8.step, hpcm, hpc] at hs ⊢
          split at hs
          · rename_i hn
            rw [Outcome.next.injEq] at hs
            rw [← hs, (hnext s).mp hn]
            exact .of_refines rfl hgo
          · cases hs
      | _ => simp [Chain.step, hpcm, hpc] at hs
  | «continue» s => exact h.continue_step hinv hs

omit [DecidableEq Seg] [DecidableEq Obj] in
/-- The state of the log that the memory has at the start. -/
theorem Refines.init (h : Chain.Initial m) : ∃ st : St Seg Obj Data, C8.Initial st
    ∧ Refines m st [commit_log_root] := by
  obtain ⟨hnext, hentry, data, hsegs⟩ := h
  refine ⟨{ log := [], tail_inevitable := false, allocated := m.allocated, segs := m.segs },
    ⟨rfl, rfl, data, hsegs⟩, ?_⟩
  have hpc : ∀ s, (m.segs s).pc = .no_transaction := by
    intro s
    rw [hsegs]
  exact {
    chain := by
      refine ⟨rfl, List.nodup_singleton _, fun i a ha b => ?_⟩
      rw [hnext]
      refine iff_of_false nofun ?_
      rw [List.getElem?_eq_none (by rw [List.length_singleton]; omega)]
      nofun
    length := rfl
    entry := by
      intro i a ha
      rw [List.getElem?_eq_none (by rw [List.length_singleton]; omega)] at ha
      cases ha
    tail := fun a _ => hnext a
    others := fun a _ => hnext a
    root := hentry _
    allocated := rfl
    segs := by
      intro s
      refine ⟨commit_log_root, ?_, ?_⟩
      · dsimp only
        rw [hsegs]
        rfl
      · dsimp only
        rw [hsegs]
    cl := by
      intro s
      dsimp only
      rw [hpc]
      nofun
    new := by
      intro s written
      dsimp only
      rw [hpc]
      nofun
    new_apart := by
      intro s t _
      dsimp only
      rw [hpc]
      nofun }

/-- Every run in memory is a run of the log. -/
theorem refines_of_reachable (h : Reachable Chain.Initial Chain.step m) :
    ∃ (st : St Seg Obj Data) (nodes : List ℕ), Reachable C8.Initial C8.step st
      ∧ Refines m st nodes := by
  induction h with
  | start h0 =>
      obtain ⟨st, hinit, hrefines⟩ := Refines.init h0
      exact ⟨st, _, .start hinit, hrefines⟩
  | @step m m' a _ _ hs ih =>
      obtain ⟨st, nodes, hreach, hrefines⟩ := ih
      obtain ⟨st', nodes', hstep, hrefines', -⟩ :=
        hrefines.step (tailInv_of_reachable hreach)
          (show Chain.step m (a.1, a.2) = .next m' from hs)
      exact ⟨st', nodes', hreach.step trivial hstep, hrefines'⟩

end

end Stmgc.C8.Chain
