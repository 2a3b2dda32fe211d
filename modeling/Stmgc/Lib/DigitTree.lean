/-
Trees whose nodes are indexed by the digits of a key.

A node at level `ℓ` has one slot for every value of the digit `ℓ` of a key, and
a slot holds nothing, one entry, or a node of the next level. An entry may be
marked as deleted. How deep the tree is at a key depends on the history of
insertions and deletions. The order in which a walk over the slots meets the
keys does not: it is the lexicographic order of their digits, [`Before`].
-/
import Mathlib.Algebra.BigOperators.Fin
import Mathlib.Algebra.Order.BigOperators.Group.Finset

namespace Stmgc.Lib

/-- What a slot holds. An entry without a key is a deleted one. -/
inductive DigitTree (n : ℕ) (κ α : Type) where
  | null
  | item (addr : Option κ) (val : α)
  | node (children : Fin n → DigitTree n κ α)

namespace DigitTree

variable {n : ℕ} {κ α : Type}

/-! ## The order of the keys -/

section Before

variable (digit : κ → ℕ → Fin n)

/-- Two keys differ first in a digit from `ℓ` on, where `a` has the smaller one. -/
def Before (ℓ : ℕ) (a b : κ) : Prop :=
  ∃ j, ℓ ≤ j ∧ digit a j < digit b j ∧ ∀ i, ℓ ≤ i → i < j → digit a i = digit b i

variable {digit} {ℓ : ℕ} {a b c : κ}

theorem Before.irrefl : ¬ Before digit ℓ a a := by
  rintro ⟨j, -, hlt, -⟩
  exact Nat.lt_irrefl _ hlt

theorem Before.trans (hab : Before digit ℓ a b) (hbc : Before digit ℓ b c) : Before digit ℓ a c := by
  obtain ⟨j, hj, hlt, heq⟩ := hab
  obtain ⟨k, hk, hlt', heq'⟩ := hbc
  -- the first of the two differences decides
  rcases Nat.lt_trichotomy j k with h | h | h
  · refine ⟨j, hj, ?_, fun i hi hij => (heq i hi hij).trans (heq' i hi (by omega))⟩
    rw [← heq' j hj h]
    exact hlt
  · subst h
    exact ⟨j, hj, lt_trans hlt hlt', fun i hi hij => (heq i hi hij).trans (heq' i hi hij)⟩
  · refine ⟨k, hk, ?_, fun i hi hik => (heq i hi (by omega)).trans (heq' i hi hik)⟩
    rw [heq k hk h]
    exact hlt'

theorem Before.asymm (hab : Before digit ℓ a b) : ¬ Before digit ℓ b a := fun hba =>
  Before.irrefl (hab.trans hba)

theorem Before.ne (hab : Before digit ℓ a b) : a ≠ b := by
  rintro rfl
  exact Before.irrefl hab

/-- A difference from the next level on, below one slot. -/
theorem Before.of_succ (heq : digit a ℓ = digit b ℓ) (h : Before digit (ℓ + 1) a b) :
    Before digit ℓ a b := by
  obtain ⟨j, hj, hlt, hdig⟩ := h
  refine ⟨j, by omega, hlt, fun i hi hij => ?_⟩
  rcases Nat.eq_or_lt_of_le hi with h | h
  · rw [← h]
    exact heq
  · exact hdig i h hij

/-- Two lists in this order that have the same keys are the same list. -/
theorem eq_of_pairwise_before {ks ls : List κ} (hk : ks.Pairwise (Before digit ℓ))
    (hl : ls.Pairwise (Before digit ℓ)) (hmem : ∀ a, a ∈ ks ↔ a ∈ ls) : ks = ls := by
  have hperm : ks.Perm ls :=
    (List.perm_ext_iff_of_nodup (hk.imp Before.ne) (hl.imp Before.ne)).mpr hmem
  exact hperm.eq_of_pairwise (fun a b _ _ hab hba => absurd hba hab.asymm) hk hl

end Before

/-! ## Walking over the slots -/

/-- The live entries, slot by slot. -/
def toList : DigitTree n κ α → List (κ × α)
  | null => []
  | item none _ => []
  | item (some k) a => [(k, a)]
  | node children => (List.ofFn fun i => (children i).toList).flatten

theorem mem_toList_node {children : Fin n → DigitTree n κ α} {x : κ × α} :
    x ∈ (node children).toList ↔ ∃ i, x ∈ (children i).toList := by
  rw [toList, List.mem_flatten]
  constructor
  · rintro ⟨l, hl, hx⟩
    obtain ⟨i, rfl⟩ := (List.mem_ofFn' _ _).mp hl
    exact ⟨i, hx⟩
  · rintro ⟨i, hx⟩
    exact ⟨_, (List.mem_ofFn' _ _).mpr ⟨i, rfl⟩, hx⟩

section Placed

variable (digit : κ → ℕ → Fin n)

/-- Every live entry of a tree at level `ℓ` is in the slots that the digits of
its key name. -/
def Placed : ℕ → DigitTree n κ α → Prop
  | _, null => True
  | _, item _ _ => True
  | ℓ, node children =>
      ∀ i, (∀ x ∈ (children i).toList, digit x.1 ℓ = i) ∧ Placed (ℓ + 1) (children i)

variable {digit} {ℓ : ℕ}

theorem Placed.child {children : Fin n → DigitTree n κ α}
    (h : Placed digit ℓ (node children)) (i : Fin n) : Placed digit (ℓ + 1) (children i) := (h i).2

/-- The walk meets the keys in the order of their digits. -/
theorem Placed.pairwise : ∀ {t : DigitTree n κ α} {ℓ : ℕ}, Placed digit ℓ t →
    (t.toList.map Prod.fst).Pairwise (Before digit ℓ)
  | null, _, _ => List.Pairwise.nil
  | item none _, _, _ => List.Pairwise.nil
  | item (some _) _, _, _ => List.pairwise_singleton _ _
  | node children, ℓ, h => by
      rw [toList, List.map_flatten, List.pairwise_flatten]
      constructor
      · -- below one slot: the keys agree on the digit `ℓ`
        intro l hl
        obtain ⟨l', hl', rfl⟩ := List.mem_map.mp hl
        obtain ⟨i, rfl⟩ := (List.mem_ofFn' _ _).mp hl'
        have hkey : ∀ a ∈ (children i).toList.map Prod.fst, digit a ℓ = i := by
          intro a ha
          obtain ⟨x, hx, rfl⟩ := List.mem_map.mp ha
          exact (h i).1 x hx
        exact (Placed.pairwise (h.child i)).imp_of_mem fun ha hb hab =>
          hab.of_succ ((hkey _ ha).trans (hkey _ hb).symm)
      · -- in different slots: the digit `ℓ` decides
        rw [List.pairwise_map]
        refine (List.pairwise_ofFn.mpr fun i j hij => ?_)
        intro a ha b hb
        obtain ⟨x, hx, rfl⟩ := List.mem_map.mp ha
        obtain ⟨y, hy, rfl⟩ := List.mem_map.mp hb
        refine ⟨ℓ, le_rfl, ?_, fun i hi hlt => absurd hi (by omega)⟩
        rw [(h i).1 x hx, (h j).1 y hy]
        exact hij

theorem Placed.nodup {t : DigitTree n κ α} (h : Placed digit ℓ t) : (t.toList.map Prod.fst).Nodup :=
  h.pairwise.imp Before.ne

/-- A slot is replaced by a tree that is placed as the slot asks. -/
theorem Placed.update {children : Fin n → DigitTree n κ α} (h : Placed digit ℓ (node children))
    {i : Fin n} {t : DigitTree n κ α} (hkeys : ∀ x ∈ t.toList, digit x.1 ℓ = i)
    (ht : Placed digit (ℓ + 1) t) :
    Placed digit ℓ (node (Function.update children i t)) := by
  intro j
  by_cases hj : j = i
  · subst hj
    rw [Function.update_self]
    exact ⟨hkeys, ht⟩
  · rw [Function.update_of_ne hj]
    exact h j

theorem mem_toList_update {children : Fin n → DigitTree n κ α} {i : Fin n}
    {t : DigitTree n κ α} {x : κ × α} :
    x ∈ (node (Function.update children i t)).toList
      ↔ x ∈ t.toList ∨ ∃ j, j ≠ i ∧ x ∈ (children j).toList := by
  rw [mem_toList_node]
  constructor
  · rintro ⟨j, hx⟩
    by_cases hj : j = i
    · subst hj
      rw [Function.update_self] at hx
      exact Or.inl hx
    · rw [Function.update_of_ne hj] at hx
      exact Or.inr ⟨j, hj, hx⟩
  · rintro (hx | ⟨j, hj, hx⟩)
    · exact ⟨i, by rwa [Function.update_self]⟩
    · exact ⟨j, by rwa [Function.update_of_ne hj]⟩

/-- A slot gets one entry more. -/
theorem mem_toList_update_of_add {children : Fin n → DigitTree n κ α} {i : Fin n}
    {t : DigitTree n κ α} {y x : κ × α}
    (ht : ∀ x, x ∈ t.toList ↔ x = y ∨ x ∈ (children i).toList) :
    x ∈ (node (Function.update children i t)).toList ↔ x = y ∨ x ∈ (node children).toList := by
  rw [mem_toList_update, ht, mem_toList_node, or_assoc]
  refine or_congr_right ⟨?_, ?_⟩
  · rintro (hx | ⟨j, -, hx⟩)
    · exact ⟨i, hx⟩
    · exact ⟨j, hx⟩
  · rintro ⟨j, hx⟩
    by_cases hj : j = i
    · exact Or.inl (hj ▸ hx)
    · exact Or.inr ⟨j, hj, hx⟩

end Placed

/-! ## The room that a tree takes -/

section Weight

variable (wItem wNode : ℕ)

/-- What the entries, deleted ones too, and the nodes of a tree take together. -/
def weight : DigitTree n κ α → ℕ
  | null => 0
  | item _ _ => wItem
  | node children => wNode + ∑ i, (children i).weight

variable {wItem wNode}

theorem weight_le_node {children : Fin n → DigitTree n κ α} (i : Fin n) :
    (children i).weight wItem wNode ≤ (node children).weight wItem wNode := by
  have hle := Finset.single_le_sum (f := fun i => (children i).weight wItem wNode)
    (fun j _ => Nat.zero_le _) (Finset.mem_univ i)
  have hsum : (children i).weight wItem wNode ≤ ∑ j, (children j).weight wItem wNode := hle
  rw [weight]
  omega

theorem le_weight_of_mem : ∀ {t : DigitTree n κ α} {x : κ × α}, x ∈ t.toList →
    wItem ≤ t.weight wItem wNode
  | null, _, hx => by simp [toList] at hx
  | item none _, _, hx => by simp [toList] at hx
  | item (some _) _, _, _ => le_rfl
  | node children, x, hx => by
      obtain ⟨i, hi⟩ := mem_toList_node.mp hx
      exact (le_weight_of_mem hi).trans (weight_le_node i)

/-- One slot changes: the rest takes what it took. -/
theorem weight_update {children : Fin n → DigitTree n κ α} {i : Fin n} {t : DigitTree n κ α} :
    (node (Function.update children i t)).weight wItem wNode + (children i).weight wItem wNode
      = (node children).weight wItem wNode + t.weight wItem wNode := by
  have hold := Finset.add_sum_erase Finset.univ (fun j => (children j).weight wItem wNode)
    (Finset.mem_univ i)
  have hnew := Finset.add_sum_erase Finset.univ
    (fun j => (Function.update children i t j).weight wItem wNode) (Finset.mem_univ i)
  have hrest : ∑ j ∈ Finset.univ.erase i, (Function.update children i t j).weight wItem wNode
      = ∑ j ∈ Finset.univ.erase i, (children j).weight wItem wNode := by
    refine Finset.sum_congr rfl fun j hj => ?_
    rw [Function.update_of_ne (Finset.ne_of_mem_erase hj)]
  simp only [Function.update_self] at hnew
  rw [weight, weight]
  omega

end Weight

/-! ## A tree without more nodes than it needs -/

section Within

/-- The live entries of the first tree are entries of the second one, no deeper
than there, and none is deleted. -/
def Within : DigitTree n κ α → DigitTree n κ α → Prop
  | null, _ => True
  | item none _, _ => False
  | item (some k) a, t => (k, a) ∈ t.toList
  | node children, node children' => ∀ i, Within (children i) (children' i)
  | node _, _ => False

variable {digit : κ → ℕ → Fin n} {ℓ : ℕ}

theorem Within.weight_le {wItem wNode : ℕ} : ∀ {s t : DigitTree n κ α}, Within s t →
    s.weight wItem wNode ≤ t.weight wItem wNode
  | null, _, _ => Nat.zero_le _
  | item none _, _, h => by simp [Within] at h
  | item (some _) _, _, h => le_weight_of_mem h
  | node _, null, h => by simp [Within] at h
  | node _, item _ _, h => by simp [Within] at h
  | node children, node children', h =>
      Nat.add_le_add_left (Finset.sum_le_sum fun i _ => Within.weight_le (h i)) _

theorem Within.update {children children' : Fin n → DigitTree n κ α} {i : Fin n}
    {t : DigitTree n κ α} (h : Within (node children) (node children')) (ht : Within t (children' i)) :
    Within (node (Function.update children i t)) (node children') := by
  intro j
  by_cases hj : j = i
  · subst hj
    rwa [Function.update_self]
  · rw [Function.update_of_ne hj]
    exact h j

/-- An entry below a node is in the slot that its key names. -/
theorem Placed.mem_child {children : Fin n → DigitTree n κ α} (h : Placed digit ℓ (node children))
    {x : κ × α} (hx : x ∈ (node children).toList) : x ∈ (children (digit x.1 ℓ)).toList := by
  obtain ⟨i, hi⟩ := mem_toList_node.mp hx
  rwa [(h i).1 x hi]

end Within

/-! ## The operations -/

section Operations

variable [DecidableEq κ] (digit : κ → ℕ → Fin n)

/-- The entry of `k` below a slot at level `ℓ`. -/
def lookup (k : κ) : ℕ → DigitTree n κ α → Option α
  | _, null => none
  | _, item none _ => none
  | _, item (some k') a => if k' = k then some a else none
  | ℓ, node children => lookup k (ℓ + 1) (children (digit k ℓ))

/-- The entry of `k` is marked as deleted, and stays where it is. -/
def erase (k : κ) : ℕ → DigitTree n κ α → DigitTree n κ α
  | _, null => null
  | _, item none a => item none a
  | _, item (some k') a => if k' = k then item none a else item (some k') a
  | ℓ, node children =>
      node (Function.update children (digit k ℓ) (erase k (ℓ + 1) (children (digit k ℓ))))

/-- The slots of the new node that a collision makes for the entry that was there. -/
def collision (ℓ : ℕ) (k : κ) (a : α) : Fin n → DigitTree n κ α :=
  Function.update (fun _ => null) (digit k ℓ) (item (some k) a)

/-- Insertion below a slot at level `ℓ`, at most `fuel` levels deep. A deleted
entry is used again, whatever its key was. On a collision nodes are made until
the two keys differ. It fails when the key is already there. -/
def insert (k : κ) (a : α) : ℕ → ℕ → DigitTree n κ α → Option (DigitTree n κ α)
  | _, _, null => some (item (some k) a)
  | _, _, item none _ => some (item (some k) a)
  | 0, _, item (some _) _ => none
  | 0, _, node _ => none
  | fuel + 1, ℓ, item (some k') a' =>
      if k' = k then none
      else
        (insert k a fuel (ℓ + 1) (collision digit ℓ k' a' (digit k ℓ))).map fun t =>
          node (Function.update (collision digit ℓ k' a') (digit k ℓ) t)
  | fuel + 1, ℓ, node children =>
      (insert k a fuel (ℓ + 1) (children (digit k ℓ))).map fun t =>
        node (Function.update children (digit k ℓ) t)

variable {digit} {ℓ fuel : ℕ} {k : κ} {a : α}

omit [DecidableEq κ] in
/-- The node that a collision makes holds the entry that was there. -/
theorem placed_collision {k' : κ} {a' : α} :
    Placed digit ℓ (node (collision digit ℓ k' a'))
      ∧ ∀ x, x ∈ (node (collision digit ℓ k' a')).toList ↔ x = (k', a') := by
  constructor
  · refine Placed.update (fun i => ⟨?_, by simp [Placed]⟩) ?_ (by simp [Placed])
    · intro x hx
      simp [toList] at hx
    · intro x hx
      rw [toList, List.mem_singleton] at hx
      rw [hx]
  · intro x
    rw [collision, mem_toList_update, or_iff_left]
    · rw [toList, List.mem_singleton]
    · rintro ⟨j, -, hx⟩
      simp [toList] at hx

omit [DecidableEq κ] in
/-- What insertion below a node does, from what it does below the slot. -/
private theorem insert_node_spec {children : Fin n → DigitTree n κ α} {t : DigitTree n κ α}
    (hp : Placed digit ℓ (node children))
    (ht : Placed digit (ℓ + 1) t ∧ (∀ x, x ∈ t.toList ↔ x = (k, a) ∨ x ∈ (children (digit k ℓ)).toList)
      ∧ ∀ x ∈ (children (digit k ℓ)).toList, x.1 ≠ k) :
    let t' := node (Function.update children (digit k ℓ) t)
    Placed digit ℓ t' ∧ (∀ x, x ∈ t'.toList ↔ x = (k, a) ∨ x ∈ (node children).toList)
      ∧ ∀ x ∈ (node children).toList, x.1 ≠ k := by
  obtain ⟨hpt, hmem, hne⟩ := ht
  refine ⟨hp.update ?_ hpt, fun x => mem_toList_update_of_add hmem, ?_⟩
  · intro x hx
    rcases (hmem x).mp hx with rfl | hx
    · rfl
    · exact (hp _).1 x hx
  · intro x hx heq
    obtain ⟨i, hi⟩ := mem_toList_node.mp hx
    -- the slot that holds `k` is the one of its digit
    have hslot : digit k ℓ = i := heq ▸ (hp i).1 x hi
    exact hne x (hslot ▸ hi) heq

/-- Insertion adds its entry, and the key was not there before. -/
theorem insert_spec : ∀ {fuel ℓ : ℕ} {t t' : DigitTree n κ α},
    insert digit k a fuel ℓ t = some t' → Placed digit ℓ t →
    Placed digit ℓ t' ∧ (∀ x, x ∈ t'.toList ↔ x = (k, a) ∨ x ∈ t.toList)
      ∧ ∀ x ∈ t.toList, x.1 ≠ k
  | fuel, ℓ, null, t', h, hp => by
      rw [insert, Option.some.injEq] at h
      subst h
      simp [Placed, toList]
  | fuel, ℓ, item none _, t', h, hp => by
      rw [insert, Option.some.injEq] at h
      subst h
      simp [Placed, toList]
  | 0, ℓ, item (some _) _, t', h, hp => by simp [insert] at h
  | 0, ℓ, node _, t', h, hp => by simp [insert] at h
  | fuel + 1, ℓ, item (some k') a', t', h, hp => by
      rw [insert] at h
      by_cases hk : k' = k
      · rw [if_pos hk] at h
        exact absurd h (by simp)
      rw [if_neg hk] at h
      obtain ⟨t, ht, rfl⟩ := Option.map_eq_some_iff.mp h
      obtain ⟨hpc, hmemc⟩ := @placed_collision n κ α digit ℓ k' a'
      obtain ⟨hpt, hmem, hne⟩ := insert_node_spec hpc (insert_spec ht (hpc.child _))
      refine ⟨hpt, fun x => ?_, fun x hx => ?_⟩
      · rw [hmem, hmemc, toList, List.mem_singleton]
      · rw [toList, List.mem_singleton] at hx
        rw [hx]
        exact hk
  | fuel + 1, ℓ, node children, t', h, hp => by
      rw [insert] at h
      obtain ⟨t, ht, rfl⟩ := Option.map_eq_some_iff.mp h
      exact insert_node_spec hp (insert_spec ht (hp.child _))

/-- Insertion of an entry of the second tree makes no node that is not there. -/
theorem Within.insert : ∀ {fuel ℓ : ℕ} {s s' t : DigitTree n κ α},
    DigitTree.insert digit k a fuel ℓ s = some s' → Within s t → Placed digit ℓ t →
    (k, a) ∈ t.toList → Within s' t
  | _, ℓ, null, s', t, h, _, _, hmem => by
      rw [DigitTree.insert, Option.some.injEq] at h
      rw [← h]
      exact hmem
  | _, ℓ, item none _, s', t, _, hw, _, _ => by simp [Within] at hw
  | 0, ℓ, item (some _) _, s', t, h, _, _, _ => by simp [DigitTree.insert] at h
  | 0, ℓ, node _, s', t, h, _, _, _ => by simp [DigitTree.insert] at h
  | fuel + 1, ℓ, item (some k') a', s', t, h, hw, hp, hmem => by
      rw [DigitTree.insert] at h
      by_cases hk : k' = k
      · rw [if_pos hk] at h
        exact absurd h (by simp)
      rw [if_neg hk] at h
      obtain ⟨u, hu, rfl⟩ := Option.map_eq_some_iff.mp h
      -- the second tree has both entries, so it is a node
      cases t with
      | null => simp [toList] at hmem
      | item k'' a'' =>
          cases k'' with
          | none => simp [toList] at hmem
          | some k'' =>
              simp only [Within, toList, List.mem_singleton, Prod.mk.injEq] at hw hmem
              exact absurd (hw.1.trans hmem.1.symm) hk
      | node children =>
          have hcoll : Within (node (collision digit ℓ k' a')) (node children) :=
            Within.update (fun i => by simp [Within]) (hp.mem_child hw)
          exact hcoll.update (Within.insert hu (hcoll _) (hp.child _) (hp.mem_child hmem))
  | fuel + 1, ℓ, node children, s', t, h, hw, hp, hmem => by
      rw [DigitTree.insert] at h
      obtain ⟨u, hu, rfl⟩ := Option.map_eq_some_iff.mp h
      cases t with
      | null => simp [Within] at hw
      | item k'' a'' => simp [Within] at hw
      | node children' =>
          exact hw.update (Within.insert hu (hw _) (hp.child _) (hp.mem_child hmem))

/-! ### Insertion does not run out of levels -/

/-- At most `d` nodes lie above an entry. -/
def DepthLe : ℕ → DigitTree n κ α → Prop
  | _, null => True
  | _, item _ _ => True
  | 0, node _ => False
  | d + 1, node children => ∀ i, DepthLe d (children i)

omit [DecidableEq κ] in
theorem DepthLe.update {d : ℕ} {children : Fin n → DigitTree n κ α} {i : Fin n}
    {t : DigitTree n κ α} (h : DepthLe (d + 1) (node children)) (ht : DepthLe d t) :
    DepthLe (d + 1) (node (Function.update children i t)) := by
  intro j
  by_cases hj : j = i
  · subst hj
    rwa [Function.update_self]
  · rw [Function.update_of_ne hj]
    exact h j

omit [DecidableEq κ] in
theorem depthLe_collision {d : ℕ} : DepthLe (d + 1) (node (collision digit ℓ k a)) :=
  DepthLe.update (fun _ => by simp [DepthLe]) (by simp [DepthLe])

theorem DepthLe.insert : ∀ {fuel ℓ : ℕ} {t t' : DigitTree n κ α},
    DigitTree.insert digit k a fuel ℓ t = some t' → DepthLe fuel t → DepthLe fuel t'
  | fuel, ℓ, null, t', h, _ => by
      rw [DigitTree.insert, Option.some.injEq] at h
      simp [← h, DepthLe]
  | fuel, ℓ, item none _, t', h, _ => by
      rw [DigitTree.insert, Option.some.injEq] at h
      simp [← h, DepthLe]
  | 0, ℓ, item (some _) _, t', h, _ => by simp [DigitTree.insert] at h
  | 0, ℓ, node _, t', h, _ => by simp [DigitTree.insert] at h
  | fuel + 1, ℓ, item (some k') a', t', h, _ => by
      rw [DigitTree.insert] at h
      by_cases hk : k' = k
      · rw [if_pos hk] at h
        exact absurd h (by simp)
      rw [if_neg hk] at h
      obtain ⟨t, ht, rfl⟩ := Option.map_eq_some_iff.mp h
      exact depthLe_collision.update (DepthLe.insert ht (depthLe_collision _))
  | fuel + 1, ℓ, node children, t', h, hd => by
      rw [DigitTree.insert] at h
      obtain ⟨t, ht, rfl⟩ := Option.map_eq_some_iff.mp h
      exact hd.update (DepthLe.insert ht (hd _))

/-- A key that differs from every other one in one of the `fuel` digits can be
inserted. -/
theorem exists_insert : ∀ {fuel ℓ : ℕ} {t : DigitTree n κ α}, Placed digit ℓ t → DepthLe fuel t →
    (∀ x ∈ t.toList, ∃ j, ℓ ≤ j ∧ j < ℓ + fuel ∧ digit k j ≠ digit x.1 j) →
    ∃ t', insert digit k a fuel ℓ t = some t'
  | fuel, ℓ, null, _, _, _ => ⟨_, by rw [insert]⟩
  | fuel, ℓ, item none _, _, _, _ => ⟨_, by rw [insert]⟩
  | 0, ℓ, item (some k') a', _, _, hdiff => by
      obtain ⟨j, hj, hlt, -⟩ := hdiff (k', a') (by simp [toList])
      omega
  | 0, ℓ, node _, _, hd, _ => by simp [DepthLe] at hd
  | fuel + 1, ℓ, item (some k') a', _, _, hdiff => by
      obtain ⟨hpc, hmemc⟩ := @placed_collision n κ α digit ℓ k' a'
      have hk : k' ≠ k := by
        rintro rfl
        obtain ⟨j, -, -, hne⟩ := hdiff (k', a') (by simp [toList])
        exact hne rfl
      obtain ⟨t, ht⟩ := exists_insert (hpc.child (digit k ℓ)) (depthLe_collision _)
        (differs_below hpc fun x hx => hdiff x (by simpa [toList] using (hmemc x).mp hx))
      exact ⟨_, by rw [insert, if_neg hk, ht]; rfl⟩
  | fuel + 1, ℓ, node children, hp, hd, hdiff => by
      obtain ⟨t, ht⟩ := exists_insert (hp.child (digit k ℓ)) (hd _) (differs_below hp hdiff)
      exact ⟨_, by rw [insert, ht]; rfl⟩
where
  /-- Below the slot of `k` the keys agree with it on the digit `ℓ`, so that they
  differ from it further down. -/
  differs_below {fuel ℓ : ℕ} {children : Fin n → DigitTree n κ α}
      (hp : Placed digit ℓ (node children))
      (hdiff : ∀ x ∈ (node children).toList,
        ∃ j, ℓ ≤ j ∧ j < ℓ + (fuel + 1) ∧ digit k j ≠ digit x.1 j) :
      ∀ x ∈ (children (digit k ℓ)).toList,
        ∃ j, ℓ + 1 ≤ j ∧ j < ℓ + 1 + fuel ∧ digit k j ≠ digit x.1 j := by
    intro x hx
    obtain ⟨j, hj, hlt, hne⟩ := hdiff x (mem_toList_node.mpr ⟨_, hx⟩)
    have hslot : digit x.1 ℓ = digit k ℓ := (hp _).1 x hx
    refine ⟨j, ?_, by omega, hne⟩
    rcases Nat.eq_or_lt_of_le hj with h | h
    · exact absurd (h ▸ hslot.symm) hne
    · exact h

/-! ### The room that an insertion takes -/

section Weight

variable {wItem wNode : ℕ}

omit [DecidableEq κ] in
theorem weight_collision :
    (node (collision digit ℓ k a)).weight wItem wNode = wNode + wItem := by
  have hupdate := @weight_update n κ α wItem wNode (fun _ => null) (digit k ℓ) (item (some k) a)
  have hnull : (node fun _ : Fin n => (null : DigitTree n κ α)).weight wItem wNode = wNode := by
    simp [weight]
  rw [hnull] at hupdate
  exact hupdate

/-- An insertion takes no room back. -/
theorem le_weight_insert : ∀ {fuel ℓ : ℕ} {t t' : DigitTree n κ α},
    insert digit k a fuel ℓ t = some t' → t.weight wItem wNode ≤ t'.weight wItem wNode
  | _, ℓ, null, t', h => Nat.zero_le _
  | _, ℓ, item none _, t', h => by
      rw [insert, Option.some.injEq] at h
      rw [← h, weight, weight]
  | 0, ℓ, item (some _) _, t', h => by simp [insert] at h
  | 0, ℓ, node _, t', h => by simp [insert] at h
  | fuel + 1, ℓ, item (some k') a', t', h => by
      rw [insert] at h
      by_cases hk : k' = k
      · rw [if_pos hk] at h
        exact absurd h (by simp)
      rw [if_neg hk] at h
      obtain ⟨u, hu, rfl⟩ := Option.map_eq_some_iff.mp h
      have hbelow := le_weight_insert hu
      have hupdate := @weight_update n κ α wItem wNode (collision digit ℓ k' a') (digit k ℓ) u
      rw [weight_collision] at hupdate
      rw [weight]
      omega
  | fuel + 1, ℓ, node children, t', h => by
      rw [insert] at h
      obtain ⟨u, hu, rfl⟩ := Option.map_eq_some_iff.mp h
      have hbelow := le_weight_insert hu
      have hupdate := @weight_update n κ α wItem wNode children (digit k ℓ) u
      omega

/-- An insertion adds its entry, and one node a level at most. -/
theorem weight_insert : ∀ {fuel ℓ : ℕ} {t t' : DigitTree n κ α},
    insert digit k a fuel ℓ t = some t' →
    t'.weight wItem wNode ≤ t.weight wItem wNode + fuel * wNode + wItem
  | _, ℓ, null, t', h => by
      rw [insert, Option.some.injEq] at h
      rw [← h, weight, weight]
      omega
  | _, ℓ, item none _, t', h => by
      rw [insert, Option.some.injEq] at h
      rw [← h, weight, weight]
      omega
  | 0, ℓ, item (some _) _, t', h => by simp [insert] at h
  | 0, ℓ, node _, t', h => by simp [insert] at h
  | fuel + 1, ℓ, item (some k') a', t', h => by
      rw [insert] at h
      by_cases hk : k' = k
      · rw [if_pos hk] at h
        exact absurd h (by simp)
      rw [if_neg hk] at h
      obtain ⟨u, hu, rfl⟩ := Option.map_eq_some_iff.mp h
      have hbelow := weight_insert hu
      have hupdate := @weight_update n κ α wItem wNode (collision digit ℓ k' a') (digit k ℓ) u
      rw [weight_collision] at hupdate
      have hslot := @weight_le_node n κ α wItem wNode (collision digit ℓ k' a') (digit k ℓ)
      rw [weight_collision] at hslot
      rw [weight, Nat.succ_mul]
      omega
  | fuel + 1, ℓ, node children, t', h => by
      rw [insert] at h
      obtain ⟨u, hu, rfl⟩ := Option.map_eq_some_iff.mp h
      have hbelow := weight_insert hu
      have hupdate := @weight_update n κ α wItem wNode children (digit k ℓ) u
      rw [Nat.succ_mul]
      omega

theorem weight_erase : ∀ {t : DigitTree n κ α} {ℓ : ℕ},
    (erase digit k ℓ t).weight wItem wNode = t.weight wItem wNode
  | null, _ => rfl
  | item none _, _ => rfl
  | item (some k') _, _ => by
      rw [erase]
      by_cases hk : k' = k
      · rw [if_pos hk, weight, weight]
      · rw [if_neg hk]
  | node children, ℓ => by
      have hbelow := @weight_erase (children (digit k ℓ)) (ℓ + 1)
      have hupdate := @weight_update n κ α wItem wNode children (digit k ℓ)
        (erase digit k (ℓ + 1) (children (digit k ℓ)))
      rw [erase]
      omega

end Weight

/-! ### Deletion and lookup -/

theorem erase_spec : ∀ {t : DigitTree n κ α} {ℓ : ℕ}, Placed digit ℓ t →
    Placed digit ℓ (erase digit k ℓ t)
      ∧ ∀ x, x ∈ (erase digit k ℓ t).toList ↔ x ∈ t.toList ∧ x.1 ≠ k
  | null, ℓ, hp => by simp [erase, toList, Placed]
  | item none _, ℓ, hp => by simp [erase, toList, Placed]
  | item (some k') a', ℓ, hp => by
      rw [erase]
      by_cases hk : k' = k
      · rw [if_pos hk]
        refine ⟨trivial, fun x => ?_⟩
        simp only [toList, List.mem_singleton, List.not_mem_nil, false_iff, not_and, not_not]
        rintro rfl
        exact hk
      · rw [if_neg hk]
        refine ⟨trivial, fun x => ?_⟩
        simp only [toList, List.mem_singleton, iff_self_and]
        rintro rfl
        exact hk
  | node children, ℓ, hp => by
      obtain ⟨hpt, hmem⟩ := erase_spec (hp.child (digit k ℓ))
      rw [erase]
      refine ⟨hp.update (fun x hx => (hp _).1 x ((hmem x).mp hx).1) hpt, fun x => ?_⟩
      rw [mem_toList_update, hmem, mem_toList_node]
      constructor
      · rintro (⟨hx, hne⟩ | ⟨j, hj, hx⟩)
        · exact ⟨⟨_, hx⟩, hne⟩
        · refine ⟨⟨j, hx⟩, ?_⟩
          rintro rfl
          exact hj ((hp j).1 x hx).symm
      · rintro ⟨⟨j, hx⟩, hne⟩
        by_cases hj : j = digit k ℓ
        · subst hj
          exact Or.inl ⟨hx, hne⟩
        · exact Or.inr ⟨j, hj, hx⟩

theorem DepthLe.erase : ∀ {t : DigitTree n κ α} {ℓ d : ℕ}, DepthLe d t →
    DepthLe d (erase digit k ℓ t)
  | null, _, _, _ => by simp [DigitTree.erase, DepthLe]
  | item none _, _, _, _ => by simp [DigitTree.erase, DepthLe]
  | item (some k') _, _, _, _ => by
      rw [DigitTree.erase]
      by_cases hk : k' = k
      · simp [hk, DepthLe]
      · simp [hk, DepthLe]
  | node _, _, 0, h => by simp [DepthLe] at h
  | node children, ℓ, d + 1, h => h.update (DepthLe.erase (h _))

/-- A lookup finds the entry of the key. -/
theorem lookup_eq_some : ∀ {t : DigitTree n κ α} {ℓ : ℕ}, Placed digit ℓ t →
    (lookup digit k ℓ t = some a ↔ (k, a) ∈ t.toList)
  | null, ℓ, hp => by simp [lookup, toList]
  | item none _, ℓ, hp => by simp [lookup, toList]
  | item (some k') a', ℓ, hp => by
      rw [lookup, toList, List.mem_singleton, Prod.mk.injEq]
      by_cases hk : k' = k
      · rw [if_pos hk, Option.some.injEq]
        exact ⟨fun h => ⟨hk.symm, h.symm⟩, fun h => h.2.symm⟩
      · rw [if_neg hk]
        exact ⟨fun h => absurd h (by simp), fun h => absurd h.1.symm hk⟩
  | node children, ℓ, hp => by
      rw [lookup, lookup_eq_some (hp.child _), mem_toList_node]
      constructor
      · exact fun h => ⟨_, h⟩
      · rintro ⟨i, hi⟩
        have hslot : digit k ℓ = i := (hp i).1 _ hi
        rwa [hslot]

end Operations

end DigitTree

end Stmgc.Lib
