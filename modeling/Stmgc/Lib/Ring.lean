/-
Doubly linked lists in a memory of words.

The node at address `x` has its forward link in the word `x` and its backward
link in the word `x + 8`. A list of nodes hangs between the two sides of an
end, [`Ring`]: a header, which is a node itself, makes it circular; the null
pointer, which has no words, makes it a list with two ends. Every edit of such
a list is one [`Ring.splice`]: some nodes in a row are replaced by others.
-/
import Mathlib.Data.List.Chain

namespace Stmgc.Lib

/-- `x` and `y` are linked both ways. -/
def Link (m : ℕ → ℕ) (x y : ℕ) : Prop := (x ≠ 0 → m x = y) ∧ (y ≠ 0 → m (y + 8) = x)

/-- The nodes, in forward order, between the two sides of `e`. -/
def Ring (m : ℕ → ℕ) (e : ℕ) (nodes : List ℕ) : Prop := (e :: (nodes ++ [e])).IsChain (Link m)

/-- The words of two nodes are different ones. -/
def Apart (x y : ℕ) : Prop := x ≠ y ∧ x ≠ y + 8 ∧ y ≠ x + 8

theorem Apart.symm {x y : ℕ} (h : Apart x y) : Apart y x := ⟨h.1.symm, h.2.2, h.2.1⟩

instance : Std.Symm Apart := ⟨fun _ _ h => h.symm⟩

theorem nodup_of_apart {l : List ℕ} (h : l.Pairwise Apart) : l.Nodup := h.imp fun hxy => hxy.1

section Ring

variable {m m' : ℕ → ℕ} {e : ℕ} {xs ys old : List ℕ}

theorem ring_nil : Ring m e [] ↔ Link m e e := by
  simp [Ring]

/-- A ring seen from a place between two nodes. -/
theorem ring_append : Ring m e (xs ++ ys) ↔ (e :: xs).IsChain (Link m) ∧
    Link m (xs.getLastD e) (ys.headD e) ∧ (ys ++ [e]).IsChain (Link m) := by
  have hsplit : e :: (xs ++ ys ++ [e]) = (e :: xs) ++ (ys ++ [e]) := by simp
  have hlast : (e :: xs).getLast? = some (xs.getLastD e) := by
    rw [List.getLast?_cons, List.getLastD_eq_getLast?]
  have hhead : (ys ++ [e]).head? = some (ys.headD e) := by
    cases ys with
    | nil => rfl
    | cons y ys => rfl
  unfold Ring
  rw [hsplit, List.isChain_append, hlast, hhead]
  constructor
  · rintro ⟨hl, hr, hlink⟩
    exact ⟨hl, hlink _ rfl _ rfl, hr⟩
  · rintro ⟨hl, hlink, hr⟩
    refine ⟨hl, hr, ?_⟩
    rintro _ ⟨⟩ _ ⟨⟩
    exact hlink

theorem Ring.link (h : Ring m e (xs ++ ys)) : Link m (xs.getLastD e) (ys.headD e) :=
  (ring_append.mp h).2.1

/-- What the words of a node hold. -/
theorem Ring.words {x : ℕ} (h : Ring m e (xs ++ x :: ys)) (hx : x ≠ 0) :
    m x = ys.headD e ∧ m (x + 8) = xs.getLastD e := by
  refine ⟨?_, h.link.2 hx⟩
  have hafter : Ring m e ((xs ++ [x]) ++ ys) := by rwa [List.append_assoc]
  have hlink := hafter.link
  rw [List.getLastD_concat] at hlink
  exact hlink.1 hx

/-- What the words of the header hold. -/
theorem Ring.header (h : Ring m e xs) (he : e ≠ 0) : m e = xs.headD e ∧ m (e + 8) = xs.getLastD e := by
  have hfirst : Ring m e ([] ++ xs) := h
  have hlast : Ring m e (xs ++ []) := by rwa [List.append_nil]
  exact ⟨hfirst.link.1 he, hlast.link.2 he⟩

/-- A chain of different nodes reads the forward word of each but the last and
the backward word of each but the first. -/
theorem chain_congr : ∀ {l : List ℕ}, l.Nodup → l.IsChain (Link m) →
    (∀ x ∈ l, x ≠ l.getLastD 0 → x ≠ 0 → m' x = m x) →
    (∀ x ∈ l, x ≠ l.headD 0 → x ≠ 0 → m' (x + 8) = m (x + 8)) → l.IsChain (Link m')
  | [], _, _, _, _ => List.isChain_nil
  | [_], _, _, _, _ => List.isChain_singleton _
  | x :: y :: l, hnodup, hchain, hnext, hprev => by
      obtain ⟨hx, hnodup'⟩ := List.nodup_cons.mp hnodup
      obtain ⟨hlink, hrest⟩ := List.isChain_cons_cons.mp hchain
      have hlast : (x :: y :: l).getLastD 0 = (y :: l).getLastD 0 := by simp
      have hxlast : x ≠ (y :: l).getLastD 0 := by
        intro heq
        refine hx ?_
        rw [heq, List.getLastD_eq_getLast?, List.getLast?_eq_getLast_of_ne_nil (by simp)]
        exact List.getLast_mem _
      rw [hlast] at hnext
      refine List.isChain_cons_cons.mpr ⟨⟨fun h0 => ?_, fun h0 => ?_⟩, ?_⟩
      · rw [hnext x (by simp) hxlast h0]
        exact hlink.1 h0
      · have hyx : y ≠ (x :: y :: l).headD 0 := by
          rintro rfl
          exact hx List.mem_cons_self
        rw [hprev y (by simp) hyx h0]
        exact hlink.2 h0
      · refine chain_congr hnodup' hrest (fun z hz => hnext z (List.mem_cons_of_mem _ hz)) ?_
        intro z hz _
        refine hprev z (List.mem_cons_of_mem _ hz) ?_
        rintro rfl
        exact hx hz

theorem Ring.congr (h : Ring m e xs) (hends : e ≠ 0 → m' e = m e ∧ m' (e + 8) = m (e + 8))
    (hnodes : ∀ x ∈ xs, m' x = m x ∧ m' (x + 8) = m (x + 8)) : Ring m' e xs := by
  refine List.IsChain.imp_of_mem_imp ?_ h
  intro x y hx hy hlink
  have hall : ∀ z ∈ e :: (xs ++ [e]), z ≠ 0 → m' z = m z ∧ m' (z + 8) = m (z + 8) := by
    intro z hz h0
    simp only [List.mem_cons, List.mem_append, List.not_mem_nil, or_false] at hz
    rcases hz with rfl | hz | rfl
    · exact hends h0
    · exact hnodes z hz
    · exact hends h0
  exact ⟨fun h0 => (hall x hx h0).1.trans (hlink.1 h0), fun h0 => (hall y hy h0).2.trans (hlink.2 h0)⟩

/-- `w` is a word of one of the nodes. -/
def WordOf (nodes : List ℕ) (w : ℕ) : Prop := ∃ x ∈ nodes, x ≠ 0 ∧ (w = x ∨ w = x + 8)

/-- **The edit.** The nodes `old` are replaced by `new`: of the words of the
others only the forward word before it and the backward word after it change. -/
theorem Ring.splice (new : List ℕ) (h : Ring m e (xs ++ old ++ ys)) (hapart : (e :: (xs ++ ys)).Pairwise Apart)
    (hnewapart : ∀ x ∈ new, ∀ y ∈ e :: (xs ++ ys), Apart x y)
    (hnew : (xs.getLastD e :: (new ++ [ys.headD e])).IsChain (Link m'))
    (hframe : ∀ w, WordOf (e :: (xs ++ ys)) w → w ≠ xs.getLastD e → w ≠ ys.headD e + 8 →
      (∀ x ∈ new, w ≠ x ∧ w ≠ x + 8) → m' w = m w) :
    Ring m' e (xs ++ new ++ ys) := by
  rw [List.append_assoc, ring_append] at h
  obtain ⟨hleft, -, hright⟩ := h
  replace hright : (ys ++ [e]).IsChain (Link m) := by
    rw [List.append_assoc] at hright
    exact hright.right_of_append
  have hlast : xs.getLastD e ∈ e :: xs := List.getLastD_mem_cons
  have hfirst : ys.headD e ∈ ys ++ [e] := by
    cases ys with
    | nil => simp
    | cons y ys => simp
  have hlast' : xs.getLastD e ∈ e :: (xs ++ ys) := by
    rcases List.mem_cons.mp hlast with h | h
    · rw [h]
      exact List.mem_cons_self
    · exact List.mem_cons_of_mem e (List.mem_append_left ys h)
  have hfirst' : ys.headD e ∈ e :: (xs ++ ys) := by
    rcases List.mem_append.mp hfirst with h | h
    · exact List.mem_cons_of_mem e (List.mem_append_right xs h)
    · rw [List.mem_singleton.mp h]
      exact List.mem_cons_self
  -- no forward word is a backward word
  have hdiff : ∀ x ∈ e :: (xs ++ ys), ∀ y ∈ e :: (xs ++ ys), x ≠ y + 8 := by
    intro x hx y hy
    by_cases hxy : x = y
    · omega
    · exact (hapart.forall hx hy hxy).2.1
  have hnext : ∀ x ∈ e :: (xs ++ ys), x ≠ xs.getLastD e → x ≠ 0 → m' x = m x := by
    intro x hx hne h0
    refine hframe x ⟨x, hx, h0, Or.inl rfl⟩ hne (hdiff x hx _ hfirst') fun y hy => ?_
    have happ := hnewapart y hy x hx
    exact ⟨happ.1.symm, happ.2.2⟩
  have hprev : ∀ x ∈ e :: (xs ++ ys), x ≠ ys.headD e → x ≠ 0 → m' (x + 8) = m (x + 8) := by
    intro x hx hne h0
    refine hframe (x + 8) ⟨x, hx, h0, Or.inr rfl⟩ (hdiff _ hlast' x hx).symm (by omega) fun y hy => ?_
    have happ := hnewapart y hy x hx
    exact ⟨happ.2.1.symm, fun heq => happ.1 (by omega)⟩
  have hnodup := nodup_of_apart hapart
  rw [← List.cons_append] at hnodup
  obtain ⟨hnodupx, hnodupy, hdisj⟩ := List.nodup_append.mp hnodup
  have hleft' : (e :: xs).IsChain (Link m') := by
    refine chain_congr hnodupx hleft (fun x hx hne h0 => hnext x ?_ ?_ h0) fun x hx hne h0 => hprev x ?_ ?_ h0
    · simp only [List.mem_cons] at hx
      simp only [List.mem_cons, List.mem_append]
      tauto
    · rwa [List.getLastD_cons] at hne
    · simp only [List.mem_cons] at hx
      simp only [List.mem_cons, List.mem_append]
      tauto
    · rintro rfl
      rcases List.mem_append.mp hfirst with h | h
      · exact hdisj _ hx _ h rfl
      · exact hne (List.mem_singleton.mp h)
  have hright' : (ys ++ [e]).IsChain (Link m') := by
    have hnodup' : (ys ++ [e]).Nodup := by
      rw [List.nodup_append]
      refine ⟨hnodupy, by simp, fun y hy z hz heq => ?_⟩
      rw [List.mem_singleton.mp hz] at heq
      exact hdisj e List.mem_cons_self y hy heq.symm
    refine chain_congr hnodup' hright (fun x hx hne h0 => hnext x ?_ ?_ h0) fun x hx hne h0 => hprev x ?_ ?_ h0
    · simp only [List.mem_append, List.mem_singleton] at hx
      simp only [List.mem_cons, List.mem_append]
      tauto
    · rintro rfl
      rw [List.getLastD_concat] at hne
      rcases List.mem_cons.mp hlast with h | h
      · exact hne h
      · rcases List.mem_append.mp hx with hx | hx
        · exact hdisj _ hlast _ hx rfl
        · exact hne (List.mem_singleton.mp hx)
    · simp only [List.mem_append, List.mem_singleton] at hx
      simp only [List.mem_cons, List.mem_append]
      tauto
    · cases ys with
      | nil => exact hne
      | cons y ys => exact hne
  -- the three chains meet in the last node before and the first one after
  obtain ⟨p, hp⟩ : ∃ p, e :: xs = p ++ [xs.getLastD e] := by
    refine ⟨(e :: xs).dropLast, ?_⟩
    rw [← List.getLast_eq_getLastD (List.cons_ne_nil e xs), List.dropLast_append_getLast]
  obtain ⟨q, hq⟩ : ∃ q, ys ++ [e] = ys.headD e :: q := by
    cases ys with
    | nil => exact ⟨[], rfl⟩
    | cons y ys => exact ⟨ys ++ [e], rfl⟩
  have hpath : e :: (xs ++ new ++ ys ++ [e])
      = p ++ xs.getLastD e :: (new ++ ys.headD e :: q) := by
    rw [List.append_assoc, List.append_assoc, hq, ← List.cons_append, hp, List.append_assoc]
    rfl
  unfold Ring
  rw [hpath, List.isChain_split, ← hp, ← List.cons_append, List.isChain_split, ← hq]
  exact ⟨hleft', hnew, hright'⟩

/-- Taking a node out. -/
theorem Ring.remove {x : ℕ} (h : Ring m e (xs ++ x :: ys)) (hapart : (e :: (xs ++ ys)).Pairwise Apart)
    (hlink : Link m' (xs.getLastD e) (ys.headD e))
    (hframe : ∀ w, WordOf (e :: (xs ++ ys)) w → w ≠ xs.getLastD e → w ≠ ys.headD e + 8 →
      m' w = m w) : Ring m' e (xs ++ ys) := by
  have hsplit : Ring m e (xs ++ [x] ++ ys) := by rwa [List.append_assoc]
  have hring := hsplit.splice [] hapart (by simp) (by simpa using hlink)
    fun w hw hlast hfirst _ => hframe w hw hlast hfirst
  rwa [List.append_nil] at hring

/-- Putting a node in between two others. -/
theorem Ring.insert {x : ℕ} (h : Ring m e (xs ++ ys)) (hapart : (e :: (xs ++ x :: ys)).Pairwise Apart)
    (hbefore : Link m' (xs.getLastD e) x) (hafter : Link m' x (ys.headD e))
    (hframe : ∀ w, WordOf (e :: (xs ++ ys)) w → w ≠ xs.getLastD e → w ≠ ys.headD e + 8 →
      w ≠ x → w ≠ x + 8 → m' w = m w) :
    Ring m' e (xs ++ x :: ys) := by
  have hsplit : Ring m e (xs ++ [] ++ ys) := by rwa [List.append_nil]
  have hperm : (x :: e :: (xs ++ ys)).Perm (e :: (xs ++ x :: ys)) :=
    (List.Perm.swap e x _).trans (List.perm_middle.symm.cons e)
  obtain ⟨hx, hrest⟩ := List.pairwise_cons.mp (hapart.perm hperm.symm Apart.symm)
  have hring := hsplit.splice [x] hrest
    (by
      intro z hz
      rw [List.mem_singleton.mp hz]
      exact hx)
    (by
      rw [List.singleton_append, List.isChain_cons_cons, List.isChain_pair]
      exact ⟨hbefore, hafter⟩)
    fun w hword hlast hfirst hw => by
      obtain ⟨h1, h2⟩ := hw x (List.mem_singleton_self x)
      exact hframe w hword hlast hfirst h1 h2
  rwa [List.append_assoc, List.singleton_append] at hring

/-- Putting a node in the place of another. -/
theorem Ring.replace {x y : ℕ} (h : Ring m e (xs ++ x :: ys))
    (hapart : (e :: (xs ++ y :: ys)).Pairwise Apart)
    (hbefore : Link m' (xs.getLastD e) y) (hafter : Link m' y (ys.headD e))
    (hframe : ∀ w, WordOf (e :: (xs ++ ys)) w → w ≠ xs.getLastD e → w ≠ ys.headD e + 8 →
      w ≠ y → w ≠ y + 8 → m' w = m w) :
    Ring m' e (xs ++ y :: ys) := by
  have hsplit : Ring m e (xs ++ [x] ++ ys) := by rwa [List.append_assoc]
  have hperm : (y :: e :: (xs ++ ys)).Perm (e :: (xs ++ y :: ys)) :=
    (List.Perm.swap e y _).trans (List.perm_middle.symm.cons e)
  obtain ⟨hy, hrest⟩ := List.pairwise_cons.mp (hapart.perm hperm.symm Apart.symm)
  have hring := hsplit.splice [y] hrest
    (by
      intro z hz
      rw [List.mem_singleton.mp hz]
      exact hy)
    (by
      rw [List.singleton_append, List.isChain_cons_cons, List.isChain_pair]
      exact ⟨hbefore, hafter⟩)
    fun w hword hlast hfirst hw => by
      obtain ⟨h1, h2⟩ := hw y (List.mem_singleton_self y)
      exact hframe w hword hlast hfirst h1 h2
  rwa [List.append_assoc, List.singleton_append] at hring

/-- Cutting the end off. -/
theorem Ring.truncate (h : Ring m e (xs ++ old)) (hapart : (e :: xs).Pairwise Apart)
    (hlink : Link m' (xs.getLastD e) e)
    (hframe : ∀ w, WordOf (e :: xs) w → w ≠ xs.getLastD e → w ≠ e + 8 → m' w = m w) :
    Ring m' e xs := by
  have hsplit : Ring m e (xs ++ old ++ []) := by rwa [List.append_nil]
  have hring := hsplit.splice [] (by rwa [List.append_nil]) (by simp) (by simpa using hlink)
    fun w hw hlast hfirst _ => hframe w (by rwa [List.append_nil] at hw) hlast hfirst
  rwa [List.append_nil, List.append_nil] at hring

end Ring

end Stmgc.Lib
