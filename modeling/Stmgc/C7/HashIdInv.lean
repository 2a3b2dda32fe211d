/-
The invariant of the machine of `HashId`.

An object of the nursery has `GCFLAG_HAS_SHADOW` if and only if it is in
`nursery_objects_shadows`, and its shadow is a chunk where no object is, and
which nothing else is the shadow of. So the object can be moved there, and the
answers that were given before stay right ([`Inv.move`]).
-/
import Stmgc.C7.HashId

namespace Stmgc.C7.HashId

open Stmgc.Lib

/-! ## Flags -/

section Flags

variable {w : Long}

@[simp] theorem has_shadow_or (w : Long) : has_shadow (w ||| GCFLAG_HAS_SHADOW) = true := by
  unfold has_shadow
  rw [bne_iff_ne]
  intro h
  have hbit := congrArg (fun x : Long => x.getLsbD 2) h
  simp [GCFLAG_HAS_SHADOW] at hbit

@[simp] theorem has_shadow_clear (w : Long) :
    has_shadow (w &&& ~~~GCFLAG_HAS_SHADOW) = false := by
  unfold has_shadow
  rw [BitVec.and_assoc, BitVec.and_comm (~~~GCFLAG_HAS_SHADOW), BitVec.and_not_self]
  simp

theorem young_flags_or (h : young_flags w) : young_flags (w ||| GCFLAG_HAS_SHADOW) := by
  unfold young_flags at h ⊢
  rw [BitVec.and_or_distrib_right, h]
  decide

theorem has_shadow_moved : has_shadow GCWORD_MOVED = true := by decide

theorem has_shadow_zero : has_shadow 0 = false := by decide

theorem young_flags_zero : young_flags 0 := by decide

end Flags

/-! ## The invariant -/

/-- `n` is in `nursery_objects_shadows` of segment `i` for the object at `a`. -/
def is_shadow (s : St) (i a n : ℕ) : Prop := (a, n) ∈ (s.segs i).nursery_objects_shadows

/-- The right answer of `stm_id`, for an object at a place. -/
def id_of (s : St) (v : Long) : Place → Prop
  | .nursery i a => ∃ n, is_shadow s i a n ∧ v = BitVec.ofNat 64 n
  | .outside a => v = BitVec.ofNat 64 a

/-- The right answer of `stm_identityhash`. -/
def hash_of (s : St) (h : Long) : Place → Prop
  | .nursery i a => ∃ n, is_shadow s i a n ∧ h = mangle_hash (BitVec.ofNat 64 n)
  | .outside a => h = if has_shadow (s.mem a) then s.mem (a + s.size a)
      else mangle_hash (BitVec.ofNat 64 a)

/-- An object at `a` in the nursery of segment `i`. -/
structure NurseryInv (s : St) (i a : ℕ) : Prop where
  start : NURSERY_START ≤ a
  size : 16 ≤ (s.segs i).size a
  fits : a + (s.segs i).size a ≤ (s.segs i).nursery_current
  flags : young_flags ((s.segs i).nursery a)
  shadow : has_shadow ((s.segs i).nursery a) = true → ∃ n, is_shadow s i a n
  target : ∀ n, is_shadow s i a n → has_shadow ((s.segs i).nursery a) = true
    ∧ (∀ o, s.place o ≠ some (.outside n)) ∧ ∃ c, (n, c) ∈ s.chunks ∧ (s.segs i).size a ≤ c

/-- An object at `a` outside, with its hash behind it if it has the flag. -/
structure OutsideInv (s : St) (a : ℕ) : Prop where
  size : 16 ≤ s.size a
  chunk : ∃ c, (a, c) ∈ s.chunks ∧ s.size a + (if has_shadow (s.mem a) then 8 else 0) ≤ c

/-- The lists of a segment. -/
structure SegInv (s : St) (i : ℕ) : Prop where
  start : NURSERY_START ≤ (s.segs i).nursery_current
  fits : (s.segs i).nursery_current ≤ NURSERY_END
  zero : ∀ a, (s.segs i).nursery_current ≤ a → (s.segs i).nursery a = 0
  keys : ∀ a n n', is_shadow s i a n → is_shadow s i a n' → n = n'
  shadow : ∀ a n, is_shadow s i a n → (∃ c, (n, c) ∈ s.chunks) ∧ NURSERY_START ≤ a
    ∧ a < (s.segs i).nursery_current ∧ ∀ j, n ∉ (s.segs j).young_outside_nursery
  young : ∀ a ∈ (s.segs i).young_outside_nursery, ∃ c, (a, c) ∈ s.chunks

structure Inv (NB_SEGMENTS : ℕ) (s : St) : Prop where
  chunks : ∀ c ∈ s.chunks, NURSERY_END ≤ c.1 ∧ c.1 + c.2 ≤ NB_PAGES * 4096 ∧ 0 < c.2
  apart : ∀ c ∈ s.chunks, ∀ d ∈ s.chunks, c.1 ≠ d.1 → c.1 + c.2 ≤ d.1 ∨ d.1 + d.2 ≤ c.1
  created : ∀ o, s.created ≤ o → s.place o = none
  different : ∀ o o', s.place o = s.place o' → s.place o ≠ none → o = o'
  nursery : ∀ o i a, s.place o = some (.nursery i a) → NurseryInv s i a
  nursery_apart : ∀ o o' i a a', s.place o = some (.nursery i a) →
    s.place o' = some (.nursery i a') → a ≠ a' →
    a + (s.segs i).size a ≤ a' ∨ a' + (s.segs i).size a' ≤ a
  outside : ∀ o a, s.place o = some (.outside a) → OutsideInv s a
  segs : ∀ i, SegInv s i
  absent : ∀ i, i ∉ segment_nums NB_SEGMENTS → (s.segs i).nursery_current = NURSERY_START
    ∧ (s.segs i).young_outside_nursery = []
  values : ∀ i j a a' n, is_shadow s i a n → is_shadow s j a' n → i = j ∧ a = a'
  young_apart : ∀ i j a, a ∈ (s.segs i).young_outside_nursery →
    a ∈ (s.segs j).young_outside_nursery → i = j

/-- The answers that were given. -/
structure LogInv (s : St) (ids hashes : List (ℕ × Long)) : Prop where
  id : ∀ o v, (o, v) ∈ ids → ∀ p, s.place o = some p → id_of s v p
  same_id : ∀ o v v', (o, v) ∈ ids → (o, v') ∈ ids → v = v'
  hash : ∀ o h, (o, h) ∈ hashes → ∀ p, s.place o = some p → hash_of s h p
  same_hash : ∀ o h h', (o, h) ∈ hashes → (o, h') ∈ hashes → h = h'
  requests : ∀ o, (∃ v, (o, v) ∈ ids) ∨ (∃ h, (o, h) ∈ hashes) → o < s.created

section Inv

variable {NB_SEGMENTS i o n obj nobj : ℕ} {s t : St}

/-! ### Chunks -/

/-- Chunks at different addresses do not overlap. -/
theorem Inv.chunks_apart (h : Inv NB_SEGMENTS s) {a b c d : ℕ} (ha : (a, c) ∈ s.chunks)
    (hb : (b, d) ∈ s.chunks) (hne : a ≠ b) : a + c ≤ b ∨ b + d ≤ a :=
  h.apart _ ha _ hb hne

/-- An address that `_stm_large_malloc` returns is new. -/
theorem Inv.new_chunk (h : Inv NB_SEGMENTS s) {addr size : ℕ} (hm : may_malloc s addr size)
    (hsize : 0 < size) : ∀ c, (addr, c) ∉ s.chunks := by
  intro c hc
  have hpos := (h.chunks _ hc).2.2
  have happart := hm.2.2 _ hc
  dsimp only at hpos happart
  omega

/-- No object and no shadow is at a new address. -/
theorem Inv.new_address (h : Inv NB_SEGMENTS s) {addr : ℕ} (hnew : ∀ c, (addr, c) ∉ s.chunks) :
    (∀ o, s.place o ≠ some (.outside addr)) ∧ (∀ i a, ¬ is_shadow s i a addr)
      ∧ ∀ i, addr ∉ (s.segs i).young_outside_nursery := by
  refine ⟨fun o ho => ?_, fun i a hs => ?_, fun i hy => ?_⟩
  · obtain ⟨c, hc, -⟩ := (h.outside o addr ho).chunk
    exact hnew c hc
  · obtain ⟨⟨c, hc⟩, -⟩ := (h.segs i).shadow a addr hs
    exact hnew c hc
  · obtain ⟨c, hc⟩ := (h.segs i).young addr hy
    exact hnew c hc

/-! ### Requests -/

theorem Inv.id_of_unique (h : Inv NB_SEGMENTS s) {v v' : Long} {p : Place} (hv : id_of s v p)
    (hv' : id_of s v' p) : v = v' := by
  cases p with
  | nursery i a =>
      obtain ⟨n, hn, rfl⟩ := hv
      obtain ⟨n', hn', rfl⟩ := hv'
      rw [(h.segs i).keys a n n' hn hn']
  | outside a => exact hv.trans hv'.symm

theorem Inv.hash_of_unique (h : Inv NB_SEGMENTS s) {v v' : Long} {p : Place}
    (hv : hash_of s v p) (hv' : hash_of s v' p) : v = v' := by
  cases p with
  | nursery i a =>
      obtain ⟨n, hn, rfl⟩ := hv
      obtain ⟨n', hn', rfl⟩ := hv'
      rw [(h.segs i).keys a n n' hn hn']
  | outside a => exact hv.trans hv'.symm

/-- An answer is recorded, and it agrees with the earlier ones. -/
theorem mem_log (right : Long → Place → Prop) {log : List (ℕ × Long)} {p : Place} {v : Long}
    (hunique : ∀ v v' p, right v p → right v' p → v = v') (ho : s.place o = some p)
    (hv : right v p) (hright : ∀ o v, (o, v) ∈ log → ∀ p, s.place o = some p → right v p)
    (hsame : ∀ o v v', (o, v) ∈ log → (o, v') ∈ log → v = v') :
    (∀ o' v', (o', v') ∈ (o, v) :: log → ∀ p, s.place o' = some p → right v' p)
      ∧ ∀ o' v₁ v₂, (o', v₁) ∈ (o, v) :: log → (o', v₂) ∈ (o, v) :: log → v₁ = v₂ := by
  have hnew : ∀ o' v', (o', v') ∈ (o, v) :: log →
      ∀ p, s.place o' = some p → right v' p := by
    intro o' v' hmem p' hp'
    rcases List.mem_cons.mp hmem with heq | hmem
    · rw [Prod.mk.injEq] at heq
      rw [heq.1, ho, Option.some.injEq] at hp'
      rw [heq.2, ← hp']
      exact hv
    · exact hright o' v' hmem p' hp'
  refine ⟨hnew, fun o' v₁ v₂ h₁ h₂ => ?_⟩
  by_cases hoo : o' = o
  · rw [hoo] at h₁ h₂
    exact hunique v₁ v₂ p (hnew o v₁ h₁ p ho) (hnew o v₂ h₂ p ho)
  · have hold : ∀ v', (o', v') ∈ (o, v) :: log → (o', v') ∈ log := by
      intro v' hmem
      rcases List.mem_cons.mp hmem with heq | hmem
      · rw [Prod.mk.injEq] at heq
        exact absurd heq.1 hoo
      · exact hmem
    exact hsame o' v₁ v₂ (hold v₁ h₁) (hold v₂ h₂)

theorem Inv.created_of_place (h : Inv NB_SEGMENTS s) {p : Place} (ho : s.place o = some p) :
    o < s.created := by
  by_contra hlt
  rw [h.created o (Nat.le_of_not_lt hlt)] at ho
  cases ho

theorem LogInv.log_id {ids hashes : List (ℕ × Long)} (hl : LogInv s ids hashes)
    (h : Inv NB_SEGMENTS s) {p : Place} {v : Long} (ho : s.place o = some p)
    (hv : id_of s v p) : LogInv s ((o, v) :: ids) hashes := by
  obtain ⟨hids, hsame⟩ := mem_log (id_of s) (fun _ _ _ => h.id_of_unique) ho hv hl.id hl.same_id
  refine { hl with id := hids, same_id := hsame, requests := ?_ }
  rintro o' (⟨v', hmem⟩ | hmem)
  · rcases List.mem_cons.mp hmem with heq | hmem
    · rw [Prod.mk.injEq] at heq
      rw [heq.1]
      exact h.created_of_place ho
    · exact hl.requests o' (.inl ⟨v', hmem⟩)
  · exact hl.requests o' (.inr hmem)

theorem LogInv.log_hash {ids hashes : List (ℕ × Long)} (hl : LogInv s ids hashes)
    (h : Inv NB_SEGMENTS s) {p : Place} {v : Long} (ho : s.place o = some p)
    (hv : hash_of s v p) : LogInv s ids ((o, v) :: hashes) := by
  obtain ⟨hhashes, hsame⟩ :=
    mem_log (hash_of s) (fun _ _ _ => h.hash_of_unique) ho hv hl.hash hl.same_hash
  refine { hl with hash := hhashes, same_hash := hsame, requests := ?_ }
  rintro o' (hmem | ⟨v', hmem⟩)
  · exact hl.requests o' (.inl hmem)
  · rcases List.mem_cons.mp hmem with heq | hmem
    · rw [Prod.mk.injEq] at heq
      rw [heq.1]
      exact h.created_of_place ho
    · exact hl.requests o' (.inr ⟨v', hmem⟩)

/-! ### What a step leaves alone -/

theorem segs_set_self (s : St) (i : ℕ) (seg : Segment) : (s.set i seg).segs i = seg :=
  Function.update_self _ _ _

theorem segs_set_of_ne (s : St) {i j : ℕ} (seg : Segment) (h : j ≠ i) :
    (s.set i seg).segs j = s.segs j := Function.update_of_ne h _ _

/-- The shadow of an object stays, and no object goes there. -/
theorem NurseryInv.frame {a : ℕ} (h : NurseryInv s i a)
    (hsize : (t.segs i).size a = (s.segs i).size a)
    (hcurrent : (s.segs i).nursery_current ≤ (t.segs i).nursery_current)
    (hword : (t.segs i).nursery a = (s.segs i).nursery a)
    (hshadow : ∀ n, is_shadow t i a n ↔ is_shadow s i a n)
    (hplace : ∀ n o, is_shadow s i a n → t.place o = some (.outside n) →
      s.place o = some (.outside n))
    (hchunks : ∀ n c, is_shadow s i a n → (n, c) ∈ s.chunks → (n, c) ∈ t.chunks) :
    NurseryInv t i a := by
  refine ⟨h.start, ?_, ?_, ?_, fun hf => ?_, fun n hn => ?_⟩
  · rw [hsize]
    exact h.size
  · rw [hsize]
    exact h.fits.trans hcurrent
  · rw [hword]
    exact h.flags
  · rw [hword] at hf
    obtain ⟨n, hn⟩ := h.shadow hf
    exact ⟨n, (hshadow n).mpr hn⟩
  · rw [hshadow] at hn
    obtain ⟨hf, hfree, c, hc, hle⟩ := h.target n hn
    rw [hword, hsize]
    exact ⟨hf, fun o ho => hfree o (hplace n o hn ho), c, hchunks n c hn hc, hle⟩

theorem OutsideInv.frame {a : ℕ} (h : OutsideInv s a) (hsize : t.size a = s.size a)
    (hflag : has_shadow (t.mem a) = has_shadow (s.mem a))
    (hchunks : ∀ c, (a, c) ∈ s.chunks → (a, c) ∈ t.chunks) : OutsideInv t a := by
  obtain ⟨c, hc, hle⟩ := h.chunk
  refine ⟨?_, c, hchunks c hc, ?_⟩
  · rw [hsize]
    exact h.size
  · rw [hsize, hflag]
    exact hle

/-- The same lists. -/
theorem SegInv.frame (h : SegInv s i) (hseg : t.segs i = s.segs i)
    (hyoung : ∀ n j, (∃ a, is_shadow s i a n) → n ∈ (t.segs j).young_outside_nursery →
      n ∈ (s.segs j).young_outside_nursery)
    (hchunks : ∀ n c, (∃ a, is_shadow s i a n) ∨ n ∈ (s.segs i).young_outside_nursery →
      (n, c) ∈ s.chunks → (n, c) ∈ t.chunks) : SegInv t i := by
  have hshadow : ∀ a n, is_shadow t i a n ↔ is_shadow s i a n := by
    intro a n
    unfold is_shadow
    rw [hseg]
  refine ⟨?_, ?_, ?_, fun a n n' hn hn' => ?_, fun a n hn => ?_, fun a ha => ?_⟩
  · rw [hseg]
    exact h.start
  · rw [hseg]
    exact h.fits
  · rw [hseg]
    exact h.zero
  · exact h.keys a n n' ((hshadow a n).mp hn) ((hshadow a n').mp hn')
  · rw [hshadow] at hn
    obtain ⟨⟨c, hc⟩, hstart, hlt, hnot⟩ := h.shadow a n hn
    rw [hseg]
    exact ⟨⟨c, hchunks n c (.inl ⟨a, hn⟩) hc⟩, hstart, hlt,
      fun j hj => hnot j (hyoung n j ⟨a, hn⟩ hj)⟩
  · rw [hseg] at ha
    obtain ⟨c, hc⟩ := h.young a ha
    exact ⟨c, hchunks a c (.inr ha) hc⟩

/-- The answers are still right. -/
theorem LogInv.frame {ids hashes : List (ℕ × Long)} (hl : LogInv s ids hashes)
    (hcreated : s.created ≤ t.created)
    (hplace : ∀ o < s.created, ∀ p, t.place o = some p → s.place o = some p)
    (hid : ∀ o p v, t.place o = some p → s.place o = some p → id_of s v p → id_of t v p)
    (hhash : ∀ o p v, t.place o = some p → s.place o = some p → hash_of s v p → hash_of t v p) :
    LogInv t ids hashes where
  id o v hmem p hp := by
    have hs := hplace o (hl.requests o (.inl ⟨v, hmem⟩)) p hp
    exact hid o p v hp hs (hl.id o v hmem p hs)
  same_id := hl.same_id
  hash o v hmem p hp := by
    have hs := hplace o (hl.requests o (.inr ⟨v, hmem⟩)) p hp
    exact hhash o p v hp hs (hl.hash o v hmem p hs)
  same_hash := hl.same_hash
  requests o hmem := (hl.requests o hmem).trans_le hcreated

/-- A step that keeps the memory of the objects outside and the shadows. -/
theorem LogInv.frame_of_mem {ids hashes : List (ℕ × Long)} (hl : LogInv s ids hashes)
    (hcreated : s.created ≤ t.created)
    (hplace : ∀ o < s.created, ∀ p, t.place o = some p → s.place o = some p)
    (hshadow : ∀ o i a n, t.place o = some (.nursery i a) → is_shadow s i a n →
      is_shadow t i a n)
    (hmem : ∀ o a, t.place o = some (.outside a) → s.place o = some (.outside a) →
      t.size a = s.size a ∧ has_shadow (t.mem a) = has_shadow (s.mem a)
        ∧ (has_shadow (s.mem a) = true → t.mem (a + s.size a) = s.mem (a + s.size a))) :
    LogInv t ids hashes := by
  refine hl.frame hcreated hplace (fun o p v hp _ hv => ?_) (fun o p v hp hs hv => ?_)
  · cases p with
    | nursery i a =>
        obtain ⟨n, hn, heq⟩ := hv
        exact ⟨n, hshadow o i a n hp hn, heq⟩
    | outside a => exact hv
  · cases p with
    | nursery i a =>
        obtain ⟨n, hn, heq⟩ := hv
        exact ⟨n, hshadow o i a n hp hn, heq⟩
    | outside a =>
        obtain ⟨hsize, hflag, hword⟩ := hmem o a hp hs
        unfold hash_of at hv ⊢
        dsimp only at hv ⊢
        rw [hv, hflag, hsize]
        split
        · rename_i hf
          rw [hword hf]
        · rfl

/-! ### Chunks and their contents -/

theorem Inv.malloc (h : Inv NB_SEGMENTS s) {size : ℕ} (hm : may_malloc s n size)
    (hsize : 0 < size) : Inv NB_SEGMENTS (s.malloc n size) := by
  have hcons : ∀ c ∈ s.chunks, c ∈ (s.malloc n size).chunks := fun c hc => List.mem_cons_of_mem _ hc
  refine ⟨fun c hc => ?_, fun c hc d hd hne => ?_, h.created, h.different, fun o i a ho => ?_,
    h.nursery_apart, fun o a ho => ?_, fun i => ?_, h.absent, h.values, h.young_apart⟩
  · rcases List.mem_cons.mp hc with rfl | hc
    · exact ⟨hm.1, hm.2.1, hsize⟩
    · exact h.chunks c hc
  · rcases List.mem_cons.mp hc with rfl | hc
    · rcases List.mem_cons.mp hd with rfl | hd
      · exact absurd rfl hne
      · exact (hm.2.2 d hd).symm
    · rcases List.mem_cons.mp hd with rfl | hd
      · exact hm.2.2 c hc
      · exact h.apart c hc d hd hne
  · exact (h.nursery o i a ho).frame rfl le_rfl rfl (fun _ => Iff.rfl) (fun _ _ _ ho => ho)
      (fun n c _ hc => hcons _ hc)
  · exact (h.outside o a ho).frame rfl rfl (fun c hc => hcons _ hc)
  · exact (h.segs i).frame rfl (fun _ _ _ hj => hj) (fun n c _ hc => hcons _ hc)

/-- What is in the chunk of an object. -/
theorem Inv.ne_of_chunk (h : Inv NB_SEGMENTS s) {a b c k : ℕ} (ho : s.place o = some (.outside a))
    (hn : (n, c) ∈ s.chunks) (hfree : s.place o ≠ some (.outside n)) (hk : k ≤ c)
    (hb : n ≤ b ∧ b < n + k) :
    a ≠ b ∧ (has_shadow (s.mem a) = true → a + s.size a ≠ b) := by
  obtain ⟨d, hd, hle⟩ := (h.outside o a ho).chunk
  have hsize := (h.outside o a ho).size
  have hne : a ≠ n := by
    rintro rfl
    exact hfree ho
  have happart := h.chunks_apart hd hn hne
  refine ⟨by omega, fun hf => ?_⟩
  rw [hf, if_pos rfl] at hle
  omega

/-- Something is written into a chunk where no object is. -/
theorem Inv.fill (h : Inv NB_SEGMENTS s) {c k : ℕ} {mem : ℕ → Long} (hn : (n, c) ∈ s.chunks)
    (hfree : ∀ o, s.place o ≠ some (.outside n)) (hk : k ≤ c)
    (hmem : ∀ a, ¬ (n ≤ a ∧ a < n + k) → mem a = s.mem a) :
    Inv NB_SEGMENTS { s with mem := mem, size := Function.update s.size n k } := by
  refine ⟨h.chunks, h.apart, h.created, h.different, fun o i a ho => ?_, h.nursery_apart,
    fun o a ho => ?_, fun i => ?_, h.absent, h.values, h.young_apart⟩
  · exact (h.nursery o i a ho).frame rfl le_rfl rfl (fun _ => Iff.rfl) (fun _ _ _ ho => ho)
      (fun _ _ _ hc => hc)
  · have hne : a ≠ n := by
      rintro rfl
      exact hfree o ho
    refine (h.outside o a ho).frame (Function.update_of_ne hne _ _) ?_ (fun _ hc => hc)
    dsimp only
    rw [hmem a fun hb => (h.ne_of_chunk ho hn (hfree o) hk hb).1 rfl]
  · exact (h.segs i).frame rfl (fun _ _ _ hj => hj) (fun _ _ _ hc => hc)

theorem LogInv.fill {ids hashes : List (ℕ × Long)} (hl : LogInv s ids hashes)
    (h : Inv NB_SEGMENTS s) {c k : ℕ} {mem : ℕ → Long} (hn : (n, c) ∈ s.chunks)
    (hfree : ∀ o, s.place o ≠ some (.outside n)) (hk : k ≤ c)
    (hmem : ∀ a, ¬ (n ≤ a ∧ a < n + k) → mem a = s.mem a) :
    LogInv { s with mem := mem, size := Function.update s.size n k } ids hashes := by
  refine hl.frame_of_mem le_rfl (fun _ _ _ hp => hp) (fun _ _ _ _ _ hs => hs) fun o a ho _ => ?_
  have hne : a ≠ n := by
    rintro rfl
    exact hfree o ho
  dsimp only
  rw [hmem a fun hb => (h.ne_of_chunk ho hn (hfree o) hk hb).1 rfl]
  refine ⟨Function.update_of_ne hne _ _, rfl, fun hf => ?_⟩
  exact hmem _ fun hb => (h.ne_of_chunk ho hn (hfree o) hk hb).2 hf rfl

end Inv

end Stmgc.C7.HashId
