/-
`deal_with_objects_with_finalizers` orders finalizers.

The first pass marks objects and leaves each one it marks in state 2 or 3;
[`Step1Inv`] says which: state 2 as long as no other marked object reaches it.
The second pass runs the marked objects that are still in state 2, and raises
everything behind them to 3 ([`Step2Inv`]). Since the objects left in state 2
do not reach one another, the second pass decides each of them as the first
one left it, whatever the order of the lists.
-/
import Stmgc.C7.FinalizerSearch

namespace Stmgc.C7

open Stmgc.Lib

section Order

variable {Obj : Type} {H : HeapGraph Obj}

/-! ## Bytes between two objects of a pass -/

/-- State 2 and state 3 are monotone along references. -/
theorem OrderInv.reach_le {wl : Obj → ℕ} (ho : OrderInv H wl) {a b : Obj} (ha : 254 ≤ wl a)
    (hab : Reach H.Edge a b) : wl a ≤ wl b := by
  induction hab with
  | refl => exact le_refl _
  | @tail b c _ hbc ih =>
      have hb := ho.colour b
      have ha' := ho.colour a
      by_cases h2 : wl b = 254
      · have := ho.closed2 b c h2 hbc
        omega
      · have := ho.closed3 b c (by omega) hbc
        omega

/-- Bumping an object of state 2 to 3 takes everything it reaches there. -/
theorem Bumped.reach {wl wl' : Obj → ℕ} {x : Obj} (ho : OrderInv H wl) (hx : wl x = 254)
    (hb : Bumped H 254 x wl wl') (o : Obj) :
    (Reach H.Edge x o → wl' o = 255) ∧ (¬ Reach H.Edge x o → wl' o = wl o) := by
  constructor
  · intro hxo
    have hle := ho.reach_le (by omega) hxo
    have hcol := ho.colour o
    by_cases h254 : wl o = 254
    · refine (hb o).1 (pathIn_of_reach (C := fun v => wl v = 255) hxo hx h254 ?_ ho.closed3 ?_)
      · intro v w hv hvw
        have := ho.closed2 v w hv hvw
        have := ho.colour w
        omega
      · intro v hv hv'
        omega
    · rw [(hb o).2 (fun hp => h254 hp.right)]
      omega
  · intro hxo
    exact (hb o).2 (fun hp => hxo hp.reach)

theorem OrderInv.bump {wl wl' : Obj → ℕ} {x : Obj} (ho : OrderInv H wl) (hx : wl x = 254)
    (hb : Bumped H 254 x wl wl') : OrderInv H wl' := by
  have hr := fun o => hb.reach ho hx o
  have hge : ∀ o, 254 ≤ wl o → 254 ≤ wl' o := by
    intro o h
    by_cases hxo : Reach H.Edge x o
    · rw [(hr o).1 hxo]
      omega
    · rw [(hr o).2 hxo]
      exact h
  refine ⟨?_, ?_, ?_⟩
  · intro o
    by_cases hxo : Reach H.Edge x o
    · exact .inr (.inr ((hr o).1 hxo))
    · rw [(hr o).2 hxo]
      exact ho.colour o
  · intro v w hv hvw
    by_cases hxv : Reach H.Edge x v
    · have := (hr v).1 hxv
      omega
    · rw [(hr v).2 hxv] at hv
      exact hge w (ho.closed2 v w hv hvw)
  · intro v w hv hvw
    by_cases hxv : Reach H.Edge x v
    · exact (hr w).1 (hxv.tail hvw)
    · rw [(hr v).2 hxv] at hv
      have hw := ho.closed3 v w hv hvw
      by_cases hxw : Reach H.Edge x w
      · exact (hr w).1 hxw
      · rw [(hr w).2 hxw]
        exact hw

theorem OrderInv.raise {wl wl' : Obj → ℕ} {x : Obj} (ho : OrderInv H wl)
    (hr : Raised H 254 x wl wl') : OrderInv H wl' := by
  have hcol : ∀ o, Reach H.Edge x o → wl' o = 254 ∨ wl' o = 255 := by
    intro o hxo
    have h := (hr o).1 hxo
    rcases ho.colour o with hc | hc | hc
    · exact .inl (h.1 hc)
    · exact .inr (h.2 (by omega))
    · exact .inr (h.2 (by omega))
  refine ⟨?_, ?_, ?_⟩
  · intro o
    by_cases hxo : Reach H.Edge x o
    · exact .inr (hcol o hxo)
    · rw [(hr o).2 hxo]
      exact ho.colour o
  · intro v w hv hvw
    by_cases hxw : Reach H.Edge x w
    · rcases hcol w hxw with hw | hw <;> omega
    · have hxv : ¬ Reach H.Edge x v := fun h => hxw (h.tail hvw)
      rw [(hr v).2 hxv] at hv
      rw [(hr w).2 hxw]
      exact ho.closed2 v w hv hvw
  · intro v w hv hvw
    by_cases hxv : Reach H.Edge x v
    · have hv2 : 254 ≤ wl v := by
        have h0 := ((hr v).1 hxv).1
        have := ho.colour v
        omega
      have hw2 : 254 ≤ wl w := le_trans hv2 (ho.reach_le hv2 (.single hvw))
      exact ((hr w).1 (hxv.tail hvw)).2 hw2
    · rw [(hr v).2 hxv] at hv
      have hw := ho.closed3 v w hv hvw
      by_cases hxw : Reach H.Edge x w
      · exact ((hr w).1 hxw).2 (by omega)
      · rw [(hr w).2 hxw]
        exact hw

/-! ## The first pass -/

/-- `seen` are the objects the first pass has taken so far, over all lists, and
`marked` those it has marked. -/
structure Step1Inv (H : HeapGraph Obj) (wl0 : Obj → ℕ) (seen marked : List Obj)
    (wl : Obj → ℕ) : Prop where
  order : OrderInv H wl
  visited : ∀ o, wl0 o = 255 → wl o = 255
  fresh : ∀ o, (∀ x ∈ marked, ¬ Reach H.Edge x o) → wl o = wl0 o
  seen_le : ∀ x ∈ seen, 254 ≤ wl x
  subset : ∀ x ∈ marked, x ∈ seen
  unvisited : ∀ x ∈ marked, wl0 x < 253
  nodup : marked.Nodup
  state2 : ∀ x ∈ marked, wl x = 254 → ∀ y ∈ marked, Reach H.Edge y x → y = x
  state3 : ∀ x ∈ marked, wl x = 255 → ∃ y ∈ marked, Reach H.Edge y x ∧ ¬ Reach H.Edge x y

theorem Step1Inv.init {wl0 : Obj → ℕ} (hcol : ∀ o, wl0 o < 253 ∨ wl0 o = 255)
    (hclosed : ∀ v w, wl0 v = 255 → H.Edge v w → wl0 w = 255) :
    Step1Inv H wl0 [] [] wl0 where
  order := {
    colour := fun o => by have := hcol o; omega
    closed2 := fun v w hv _ => by have := hcol v; omega
    closed3 := hclosed }
  visited _ h := h
  fresh _ _ := rfl
  seen_le := by simp
  subset := by simp
  unvisited := by simp
  nodup := List.nodup_nil
  state2 := by simp
  state3 := by simp

/-- An object in state 2 or 3 is not marked. -/
theorem Step1Inv.skip {wl0 wl : Obj → ℕ} {seen marked : List Obj} {x : Obj}
    (h : Step1Inv H wl0 seen marked wl) (hx : 254 ≤ wl x) :
    Step1Inv H wl0 (seen ++ [x]) marked wl := by
  refine { h with seen_le := ?_, subset := ?_ }
  · intro y hy
    rcases List.mem_append.mp hy with hy | hy
    · exact h.seen_le y hy
    · rw [List.mem_singleton.mp hy]
      exact hx
  · intro y hy
    exact List.mem_append_left _ (h.subset y hy)

/-- An object in state 0 is marked. Nothing marked before reaches it, so it is
in state 2; what it reaches and was in state 2 does not reach it back, so that
goes to state 3 with `x` as the reason. -/
theorem Step1Inv.mark {wl0 wl wl' : Obj → ℕ} {seen marked : List Obj} {x : Obj}
    (h : Step1Inv H wl0 seen marked wl) (hnew : x ∉ seen) (hx : wl x < 253)
    (hr : Raised H 254 x wl wl') : Step1Inv H wl0 (seen ++ [x]) (marked ++ [x]) wl' := by
  have hnot : ∀ y ∈ seen, ¬ Reach H.Edge y x := by
    intro y hy hyx
    have hle := h.seen_le y hy
    have := h.order.reach_le hle hyx
    omega
  have hge : ∀ o, 254 ≤ wl o → wl o ≤ wl' o := by
    intro o ho
    by_cases hxo : Reach H.Edge x o
    · rw [((hr o).1 hxo).2 ho]
      have := h.order.colour o
      omega
    · rw [(hr o).2 hxo]
  refine ⟨h.order.raise hr, ?_, ?_, ?_, ?_, ?_, ?_, ?_, ?_⟩
  · intro o ho
    have hv := h.visited o ho
    have := hge o (by omega)
    have := (h.order.raise hr).colour o
    omega
  · intro o ho
    have hxo : ¬ Reach H.Edge x o := ho x (by simp)
    rw [(hr o).2 hxo]
    exact h.fresh o (fun y hy => ho y (List.mem_append_left _ hy))
  · intro y hy
    rcases List.mem_append.mp hy with hy | hy
    · have hle := h.seen_le y hy
      exact le_trans hle (hge y hle)
    · rw [List.mem_singleton.mp hy, ((hr x).1 .refl).1 hx]
  · intro y hy
    rcases List.mem_append.mp hy with hy | hy
    · exact List.mem_append_left _ (h.subset y hy)
    · exact List.mem_append_right _ hy
  · intro y hy
    rcases List.mem_append.mp hy with hy | hy
    · exact h.unvisited y hy
    · rw [List.mem_singleton.mp hy, ← h.fresh x (fun z hz => hnot z (h.subset z hz))]
      exact hx
  · rw [List.nodup_append]
    refine ⟨h.nodup, List.nodup_singleton x, ?_⟩
    rintro a ha b hb rfl
    rw [List.mem_singleton.mp hb] at ha
    exact hnew (h.subset x ha)
  · intro a ha h254 b hb hba
    rcases List.mem_append.mp ha with ha | ha
    · have hxa : ¬ Reach H.Edge x a := by
        intro hxa
        have := ((hr a).1 hxa).2 (h.seen_le a (h.subset a ha))
        omega
      rcases List.mem_append.mp hb with hb | hb
      · exact h.state2 a ha ((hr a).2 hxa ▸ h254) b hb hba
      · rw [List.mem_singleton.mp hb] at hba
        exact absurd hba hxa
    · rw [List.mem_singleton.mp ha] at hba ⊢
      rcases List.mem_append.mp hb with hb | hb
      · exact absurd hba (hnot b (h.subset b hb))
      · exact List.mem_singleton.mp hb
  · intro a ha h255
    rcases List.mem_append.mp ha with ha | ha
    · by_cases hxa : Reach H.Edge x a
      · exact ⟨x, by simp, hxa, hnot a (h.subset a ha)⟩
      · obtain ⟨b, hb, hba, hab⟩ := h.state3 a ha ((hr a).2 hxa ▸ h255)
        exact ⟨b, List.mem_append_left _ hb, hba, hab⟩
    · rw [List.mem_singleton.mp ha, ((hr x).1 .refl).1 hx] at h255
      omega

variable [DecidableEq Obj]

/-- What the first pass needs to know of the objects of one list. -/
structure Listed (H : HeapGraph Obj) (trace : Obj → List (Option Obj)) (xs : List Obj) :
    Prop where
  mem : ∀ x ∈ xs, x ∈ H.objs
  view : ∀ x ∈ xs, ∀ o, Reach H.Edge x o → trace o = H.refs o

/-- The objects of one list of finalizers. -/
def listed_objects : Option (finalizers_s Obj) → List Obj
  | none => []
  | some f => f.objects_with_finalizers

omit [DecidableEq Obj] in
@[simp] theorem listed_objects_some (f : finalizers_s Obj) :
    listed_objects (some f) = f.objects_with_finalizers := rfl

/-- One list after the first pass: what is marked has been taken out. -/
def Marked : Option (finalizers_s Obj) → Option (finalizers_s Obj) → List Obj → Prop
  | none, none, marked => marked = []
  | some f, some f', marked =>
    f.objects_with_finalizers.Perm (marked ++ f'.objects_with_finalizers)
      ∧ f' = { f with objects_with_finalizers := f'.objects_with_finalizers }
  | _, _, _ => False

theorem mark_finalize_step1_spec {trace : Obj → List (Option Obj)} {wl0 : Obj → ℕ}
    {seen marked0 : List Obj} {st : FinalizerState Obj} (f : Option (finalizers_s Obj))
    (hl : Listed H trace (listed_objects f)) (hnodup : (seen ++ listed_objects f).Nodup)
    (hempty : st.emptystack = []) (hpending : st.pending = [])
    (hinv : Step1Inv H wl0 seen marked0 st.write_locks) :
    Returns (mark_finalize_step1 trace st f) (fun r =>
      Marked f r.1 r.2.1 ∧ r.2.2.emptystack = [] ∧ r.2.2.pending = []
        ∧ Step1Inv H wl0 (seen ++ listed_objects f) (marked0 ++ r.2.1) r.2.2.write_locks) := by
  cases f with
  | none =>
      refine returns_some ⟨rfl, hempty, hpending, ?_⟩
      simpa [listed_objects] using hinv
  | some f =>
      rw [listed_objects_some] at hl hnodup
      unfold mark_finalize_step1
      have hfold := foldlM_spec (f := mark_finalize_step1_body trace)
        (fun done todo s => done ++ todo = f.objects_with_finalizers
          ∧ done.Perm (s.2.1 ++ s.1) ∧ s.2.2.emptystack = [] ∧ s.2.2.pending = []
          ∧ Step1Inv H wl0 (seen ++ done) (marked0 ++ s.2.1) s.2.2.write_locks)
        (by
          rintro done x todo ⟨lst, marked, st'⟩ ⟨happ, hperm, hes, hpd, hs⟩
          dsimp only at hperm hes hpd hs
          have hxl : x ∈ f.objects_with_finalizers := by simp [← happ]
          have hnew : x ∉ seen ++ done := by
            rw [← happ, List.append_cons, ← List.append_assoc] at hnodup
            have h := (List.nodup_append.mp hnodup).1
            rw [← List.append_assoc] at h
            intro hx
            exact (List.nodup_append.mp h).2.2 x hx x (by simp) rfl
          refine (mark_finalize_step1_body_spec (H := H) (hl.mem x hxl) (hl.view x hxl) hes hpd
            hs.order).mono ?_
          rintro r (⟨hx, rfl⟩ | ⟨hx, hlst, hmk, hes', hpd', hr⟩)
          · refine ⟨by simpa using happ, ?_, hes, hpd, ?_⟩
            · rw [← List.append_assoc]
              exact hperm.append_right [x]
            · rw [← List.append_assoc]
              exact hs.skip hx
          · refine ⟨by simpa using happ, ?_, hes', hpd', ?_⟩
            · rw [hlst, hmk, List.append_assoc]
              exact (hperm.append_right [x]).trans
                (by rw [List.append_assoc]; exact List.perm_append_comm.append_left marked)
            · rw [hmk, ← List.append_assoc, ← List.append_assoc]
              exact hs.mark hnew hx hr)
        f.objects_with_finalizers [] ([], [], st)
        ⟨rfl, List.Perm.refl _, hempty, hpending, by simpa using hinv⟩
      refine Returns.bind hfold ?_
      rintro ⟨lst, marked, st'⟩ ⟨-, hperm, hes, hpd, hs⟩
      exact returns_some ⟨⟨by simpa using hperm, rfl⟩, hes, hpd, by simpa using hs⟩

/-- All objects of the lists of several owners, in order. -/
def all_listed (owners : List (ℕ × Option (finalizers_s Obj))) : List Obj :=
  owners.flatMap (fun p => listed_objects p.2)

/-- Every list holds objects of the heap, whose references its owner sees. -/
def OwnersListed (H : HeapGraph Obj) (view : ℕ → Obj → List (Option Obj))
    (owners : List (ℕ × Option (finalizers_s Obj))) : Prop :=
  ∀ p ∈ owners, Listed H (view p.1) (listed_objects p.2)

/-- All lists after the first pass. -/
def AllMarked (owners : List (ℕ × Option (finalizers_s Obj)))
    (out : List (ℕ × Option (finalizers_s Obj) × List Obj)) : Prop :=
  List.Forall₂ (fun p q => p.1 = q.1 ∧ Marked p.2 q.2.1 q.2.2) owners out

theorem mark_finalize_step1_all_spec {view : ℕ → Obj → List (Option Obj)} {wl0 : Obj → ℕ}
    (owners : List (ℕ × Option (finalizers_s Obj))) :
    ∀ {seen marked0 : List Obj} {st : FinalizerState Obj}, OwnersListed H view owners →
      (seen ++ all_listed owners).Nodup → st.emptystack = [] → st.pending = [] →
      Step1Inv H wl0 seen marked0 st.write_locks →
      Returns (mark_finalize_step1_all view st owners) (fun r =>
        AllMarked owners r.1 ∧ r.2.emptystack = [] ∧ r.2.pending = []
          ∧ Step1Inv H wl0 (seen ++ all_listed owners) (marked0 ++ r.1.flatMap (·.2.2))
            r.2.write_locks) := by
  induction owners with
  | nil =>
      intro seen marked0 st _ _ hes hpd hinv
      exact returns_some ⟨.nil, hes, hpd, by simpa [all_listed] using hinv⟩
  | cons p owners ih =>
      obtain ⟨j, f⟩ := p
      intro seen marked0 st hl hnodup hes hpd hinv
      have hall : all_listed ((j, f) :: owners) = listed_objects f ++ all_listed owners := rfl
      rw [hall, ← List.append_assoc] at hnodup ⊢
      refine Returns.bind (mark_finalize_step1_spec f (hl (j, f) (by simp))
        (List.nodup_append.mp hnodup).1 hes hpd hinv) ?_
      rintro ⟨f', marked, st'⟩ ⟨hm, hes', hpd', hinv'⟩
      refine Returns.bind (ih (fun p hp => hl p (List.mem_cons_of_mem _ hp)) hnodup hes' hpd'
        hinv') ?_
      rintro ⟨out, st''⟩ ⟨hms, hes'', hpd'', hinv''⟩
      refine returns_some ⟨.cons ⟨rfl, hm⟩ hms, hes'', hpd'', ?_⟩
      simpa [List.flatMap_cons, List.append_assoc] using hinv''

/-! ## The second pass -/

/-- `taken` are the marked objects the second pass has taken so far, over all
lists; `wl1` are the bytes as the first pass left them. -/
structure Step2Inv (H : HeapGraph Obj) (wl1 : Obj → ℕ) (taken : List Obj) (wl : Obj → ℕ) :
    Prop where
  order : OrderInv H wl
  changed : ∀ o, wl o = wl1 o
    ∨ (wl o = 255 ∧ ∃ x ∈ taken, wl1 x = 254 ∧ Reach H.Edge x o)
  raised : ∀ x ∈ taken, wl1 x = 254 → ∀ o, Reach H.Edge x o → wl o = 255

omit [DecidableEq Obj] in
theorem Step2Inv.init {wl1 : Obj → ℕ} (ho : OrderInv H wl1) : Step2Inv H wl1 [] wl1 where
  order := ho
  changed _ := .inl rfl
  raised := by simp

omit [DecidableEq Obj] in
/-- A marked object is met as the first pass left it. -/
theorem Step2Inv.untouched {wl0 wl1 wl : Obj → ℕ} {seen marked taken : List Obj} {x : Obj}
    (h1 : Step1Inv H wl0 seen marked wl1) (h : Step2Inv H wl1 taken wl)
    (hsub : ∀ y ∈ taken, y ∈ marked) (hx : x ∈ marked) (hnew : x ∉ taken) :
    wl x = wl1 x := by
  rcases h.changed x with heq | ⟨h255, y, hy, hy2, hyx⟩
  · exact heq
  · by_cases hx2 : wl1 x = 254
    · have := h1.state2 x hx hx2 y (hsub y hy) hyx
      exact absurd (this ▸ hy) hnew
    · have := h1.seen_le x (h1.subset x hx)
      have := h1.order.colour x
      omega

omit [DecidableEq Obj] in
theorem Step2Inv.keep {wl1 wl : Obj → ℕ} {taken : List Obj} {x : Obj}
    (h : Step2Inv H wl1 taken wl) (hx : wl1 x ≠ 254) : Step2Inv H wl1 (taken ++ [x]) wl := by
  refine ⟨h.order, ?_, ?_⟩
  · intro o
    rcases h.changed o with heq | ⟨h255, y, hy, hyo⟩
    · exact .inl heq
    · exact .inr ⟨h255, y, List.mem_append_left _ hy, hyo⟩
  · intro y hy hy2
    rcases List.mem_append.mp hy with hy | hy
    · exact h.raised y hy hy2
    · rw [List.mem_singleton.mp hy] at hy2
      exact absurd hy2 hx

omit [DecidableEq Obj] in
theorem Step2Inv.run {wl1 wl wl' : Obj → ℕ} {taken : List Obj} {x : Obj}
    (h : Step2Inv H wl1 taken wl) (hx1 : wl1 x = 254) (hx : wl x = 254)
    (hb : Bumped H 254 x wl wl') : Step2Inv H wl1 (taken ++ [x]) wl' := by
  have hr := fun o => hb.reach h.order hx o
  refine ⟨h.order.bump hx hb, ?_, ?_⟩
  · intro o
    by_cases hxo : Reach H.Edge x o
    · exact .inr ⟨(hr o).1 hxo, x, by simp, hx1, hxo⟩
    · rw [(hr o).2 hxo]
      rcases h.changed o with heq | ⟨h255, y, hy, hyo⟩
      · exact .inl heq
      · exact .inr ⟨h255, y, List.mem_append_left _ hy, hyo⟩
  · intro y hy hy2 o hyo
    by_cases hxo : Reach H.Edge x o
    · exact (hr o).1 hxo
    · rcases List.mem_append.mp hy with hy | hy
      · rw [(hr o).2 hxo]
        exact h.raised y hy hy2 o hyo
      · rw [List.mem_singleton.mp hy] at hyo
        exact absurd hyo hxo

/-- `run_finalizers` after some objects were appended to it: the list is
created with the first one. -/
def run_appended (run_finalizers : Option (List (Option Obj))) (run : List Obj) :
    Option (List (Option Obj)) :=
  if run = [] then run_finalizers else some (run_finalizers.getD [] ++ run.map some)

omit [DecidableEq Obj] in
theorem run_appended_append (rf : Option (List (Option Obj))) (run : List Obj) (x : Obj) :
    run_appended rf (run ++ [x]) = some (list_append ((run_appended rf run).getD []) (some x)) := by
  unfold run_appended list_append
  by_cases hrun : run = []
  · simp [hrun]
  · simp [hrun]

/-- The objects of `marked` that the second pass runs, and those it keeps. -/
def to_run (wl1 : Obj → ℕ) (marked : List Obj) : List Obj :=
  marked.filter (fun x => wl1 x = 254)

def to_keep (wl1 : Obj → ℕ) (marked : List Obj) : List Obj :=
  marked.filter (fun x => ¬ wl1 x = 254)

theorem mark_finalize_step2_body_spec {trace : Obj → List (Option Obj)}
    {wl0 wl1 : Obj → ℕ} {seen marked taken : List Obj} {f : finalizers_s Obj}
    {st : FinalizerState Obj} {x : Obj} (h1 : Step1Inv H wl0 seen marked wl1)
    (hsub : ∀ y ∈ taken, y ∈ marked) (hx : x ∈ marked) (hnew : x ∉ taken) (hmem : x ∈ H.objs)
    (htrace : ∀ o, Reach H.Edge x o → trace o = H.refs o) (hempty : st.emptystack = [])
    (hinv : Step2Inv H wl1 taken st.write_locks) :
    Returns (mark_finalize_step2_body trace (f, st) x) (fun r =>
      r.1 = (if wl1 x = 254 then
          { f with run_finalizers := some (list_append (f.run_finalizers.getD []) (some x)) }
        else { f with objects_with_finalizers := list_append f.objects_with_finalizers x })
        ∧ r.2.emptystack = [] ∧ Step2Inv H wl1 (taken ++ [x]) r.2.write_locks) := by
  have hsame := hinv.untouched h1 hsub hx hnew
  have hge := h1.seen_le x (h1.subset x hx)
  have hassert : finalization_state st.write_locks x ≥ 2 := by
    unfold finalization_state WL_FINALIZ_ORDER_1
    omega
  have h2 : finalization_state st.write_locks x = 2 ↔ wl1 x = 254 := by
    rw [finalization_state_eq_iff (L := 254) (by omega), hsame]
  unfold mark_finalize_step2_body
  refine returns_assert hassert ?_
  by_cases hx2 : wl1 x = 254
  · rw [if_pos (h2.mpr hx2)]
    refine Returns.bind (recursively_bump_spec (H := H) (L := 254) (by omega) hmem htrace
      hempty) ?_
    rintro st' ⟨hes, -, hb⟩
    exact returns_some ⟨(if_pos hx2).symm, hes, hinv.run hx2 (by omega) hb⟩
  · rw [if_neg (fun h => hx2 (h2.mp h))]
    exact returns_some ⟨(if_neg hx2).symm, hempty, hinv.keep hx2⟩

/-- A list after the second pass has taken the marked objects `marked` from it. -/
def run_and_keep (wl1 : Obj → ℕ) (marked : List Obj) (f : finalizers_s Obj) :
    finalizers_s Obj :=
  { f with
    objects_with_finalizers := f.objects_with_finalizers ++ to_keep wl1 marked
    run_finalizers := run_appended f.run_finalizers (to_run wl1 marked) }

omit [DecidableEq Obj] in
theorem run_and_keep_append (wl1 : Obj → ℕ) (marked : List Obj) (f : finalizers_s Obj)
    (x : Obj) :
    run_and_keep wl1 (marked ++ [x]) f =
      let f' := run_and_keep wl1 marked f
      if wl1 x = 254 then
        { f' with run_finalizers := some (list_append (f'.run_finalizers.getD []) (some x)) }
      else { f' with objects_with_finalizers := list_append f'.objects_with_finalizers x } := by
  by_cases hx : wl1 x = 254
  · have hrun : to_run wl1 (marked ++ [x]) = to_run wl1 marked ++ [x] := by
      simp [to_run, hx]
    have hkeep : to_keep wl1 (marked ++ [x]) = to_keep wl1 marked := by
      simp [to_keep, hx]
    simp only [run_and_keep, hrun, hkeep, run_appended_append, if_pos hx]
  · have hrun : to_run wl1 (marked ++ [x]) = to_run wl1 marked := by
      simp [to_run, hx]
    have hkeep : to_keep wl1 (marked ++ [x]) = to_keep wl1 marked ++ [x] := by
      simp [to_keep, hx]
    simp only [run_and_keep, hrun, hkeep, list_append, if_neg hx, List.append_assoc]

/-- One list after the second pass, given what the first pass marked. -/
def Ran (wl1 : Obj → ℕ) (marked : List Obj) (f f' : Option (finalizers_s Obj)) : Prop :=
  f' = f.map (run_and_keep wl1 marked)

theorem mark_finalize_step2_spec {trace : Obj → List (Option Obj)} {wl0 wl1 : Obj → ℕ}
    {seen marked taken : List Obj} {st : FinalizerState Obj} (f : Option (finalizers_s Obj))
    (own : List Obj) (h1 : Step1Inv H wl0 seen marked wl1) (hl : Listed H trace own)
    (hf : f = none → own = []) (hsub : ∀ y ∈ taken ++ own, y ∈ marked)
    (hnodup : (taken ++ own).Nodup) (hempty : st.emptystack = [])
    (hinv : Step2Inv H wl1 taken st.write_locks) :
    Returns (mark_finalize_step2 trace st own f) (fun r =>
      Ran wl1 own f r.1 ∧ r.2.emptystack = []
        ∧ Step2Inv H wl1 (taken ++ own) r.2.write_locks) := by
  cases f with
  | none =>
      refine returns_some ⟨rfl, hempty, ?_⟩
      rw [hf rfl, List.append_nil]
      exact hinv
  | some f =>
      unfold mark_finalize_step2
      have hfold := foldlM_spec (f := mark_finalize_step2_body trace)
        (fun done todo s => done ++ todo = own ∧ s.1 = run_and_keep wl1 done f
          ∧ s.2.emptystack = [] ∧ Step2Inv H wl1 (taken ++ done) s.2.write_locks)
        (by
          rintro done x todo ⟨f', st'⟩ ⟨happ, hran, hes, hs⟩
          dsimp only at hran hes hs
          have hxo : x ∈ own := by simp [← happ]
          have hnew : x ∉ taken ++ done := by
            rw [← happ, ← List.append_assoc] at hnodup
            intro hx
            exact (List.nodup_append.mp hnodup).2.2 x hx x (by simp) rfl
          have hsub' : ∀ y ∈ taken ++ done, y ∈ marked := by
            intro y hy
            refine hsub y ?_
            rw [← happ, ← List.append_assoc]
            exact List.mem_append_left _ hy
          refine (mark_finalize_step2_body_spec h1 hsub' (hsub x (by simp [hxo])) hnew
            (hl.mem x hxo) (hl.view x hxo) hes hs).mono ?_
          rintro ⟨f'', st''⟩ ⟨hf'', hes'', hs''⟩
          refine ⟨by simpa using happ, ?_, hes'', by simpa using hs''⟩
          dsimp only at hf'' ⊢
          rw [hf'', hran, run_and_keep_append])
        own [] (f, st)
        ⟨rfl, by simp [run_and_keep, to_run, to_keep, run_appended], hempty,
          by simpa using hinv⟩
      refine Returns.bind hfold ?_
      rintro ⟨f', st'⟩ ⟨-, hran, hes, hs⟩
      exact returns_some ⟨congrArg some hran, hes, hs⟩

/-- All lists after the second pass. -/
def AllRan (wl1 : Obj → ℕ) (marked : List (ℕ × Option (finalizers_s Obj) × List Obj))
    (out : List (ℕ × Option (finalizers_s Obj))) : Prop :=
  List.Forall₂ (fun q r => q.1 = r.1 ∧ Ran wl1 q.2.2 q.2.1 r.2) marked out

theorem mark_finalize_step2_all_spec {view : ℕ → Obj → List (Option Obj)}
    {wl0 wl1 : Obj → ℕ} {seen marked : List Obj} (h1 : Step1Inv H wl0 seen marked wl1)
    (owners : List (ℕ × Option (finalizers_s Obj) × List Obj)) :
    ∀ {taken : List Obj} {st : FinalizerState Obj},
      (∀ q ∈ owners, Listed H (view q.1) q.2.2 ∧ (q.2.1 = none → q.2.2 = [])) →
      (∀ y ∈ taken ++ owners.flatMap (·.2.2), y ∈ marked) →
      (taken ++ owners.flatMap (·.2.2)).Nodup → st.emptystack = [] →
      Step2Inv H wl1 taken st.write_locks →
      Returns (mark_finalize_step2_all view st owners) (fun r =>
        AllRan wl1 owners r.1
          ∧ Step2Inv H wl1 (taken ++ owners.flatMap (·.2.2)) r.2.write_locks) := by
  induction owners with
  | nil =>
      intro taken st _ _ _ _ hinv
      exact returns_some ⟨.nil, by simpa using hinv⟩
  | cons q owners ih =>
      obtain ⟨j, f, own⟩ := q
      intro taken st hl hsub hnodup hes hinv
      rw [List.flatMap_cons, ← List.append_assoc] at hsub hnodup ⊢
      obtain ⟨hl0, hf⟩ := hl (j, f, own) (by simp)
      refine Returns.bind (mark_finalize_step2_spec f own h1 hl0 hf
        (fun y hy => hsub y (List.mem_append_left _ hy)) (List.nodup_append.mp hnodup).1 hes
        hinv) ?_
      rintro ⟨f', st'⟩ ⟨hran, hes', hinv'⟩
      refine Returns.bind (ih (fun q hq => hl q (List.mem_cons_of_mem _ hq)) hsub hnodup hes'
        hinv') ?_
      rintro ⟨out, st''⟩ ⟨hrans, hinv''⟩
      exact returns_some ⟨.cons ⟨rfl, hran⟩ hrans, hinv''⟩

/-! ## Both passes -/

/-- One list before and after, where `run` is what has been appended to
`run_finalizers`. -/
structure ListDealt (f f' : finalizers_s Obj) (run : List Obj) : Prop where
  partition : f.objects_with_finalizers.Perm (run ++ f'.objects_with_finalizers)
  appended : f'.run_finalizers = run_appended f.run_finalizers run
  count_non_young : f'.count_non_young = f.count_non_young
  running_next : f'.running_next = f.running_next

/-- An owner without a list stays without one. -/
def OwnerDealt (p : ℕ × Option (finalizers_s Obj))
    (d : (ℕ × Option (finalizers_s Obj)) × List Obj) : Prop :=
  p.1 = d.1.1 ∧
    match p.2, d.1.2 with
    | none, none => d.2 = []
    | some f, some f' => ListDealt f f' d.2
    | _, _ => False

/-- The outcome over all lists: `dealt` are the lists afterwards, each with
what it appended to its `run_finalizers`. -/
structure FinalizersOrdered (H : HeapGraph Obj) (wl0 : Obj → ℕ)
    (owners : List (ℕ × Option (finalizers_s Obj)))
    (dealt : List ((ℕ × Option (finalizers_s Obj)) × List Obj)) (wl : Obj → ℕ) : Prop where
  lists : List.Forall₂ OwnerDealt owners dealt
  run_nodup : (dealt.flatMap (·.2)).Nodup
  run_listed : ∀ x ∈ dealt.flatMap (·.2), x ∈ all_listed owners ∧ wl0 x ≠ WL_VISITED
  run_first : ∀ x ∈ dealt.flatMap (·.2), ∀ y ∈ all_listed owners, Reach H.Edge y x →
    SameScc H.Edge x y
  run_exists : ∀ x ∈ all_listed owners, wl0 x ≠ WL_VISITED →
    (∀ y ∈ all_listed owners, Reach H.Edge y x → SameScc H.Edge x y) →
    ∃ z ∈ dealt.flatMap (·.2), SameScc H.Edge x z
  run_unique : ∀ x ∈ dealt.flatMap (·.2), ∀ y ∈ dealt.flatMap (·.2), SameScc H.Edge x y → x = y
  visited : ∀ x ∈ all_listed owners, ∀ o, Reach H.Edge x o → wl o = WL_VISITED
  no_order : ∀ o, wl o ≠ WL_FINALIZ_ORDER_1 ∧ wl o ≠ WL_FINALIZ_ORDER_2
  unchanged : ∀ o, (∀ x ∈ all_listed owners, ¬ Reach H.Edge x o) → wl o = wl0 o

omit [DecidableEq Obj] in
/-- Whatever the first pass leaves in state 2 is there because of a marked
object in state 2. -/
theorem Step1Inv.cause {wl0 wl : Obj → ℕ} {seen marked : List Obj}
    (h : Step1Inv H wl0 seen marked wl) (hcol : ∀ o, wl0 o < 253 ∨ wl0 o = 255) {o : Obj}
    (ho : wl o = 254) : ∃ x ∈ marked, wl x = 254 ∧ Reach H.Edge x o := by
  by_contra hn
  push Not at hn
  by_cases hr : ∀ x ∈ marked, ¬ Reach H.Edge x o
  · have := h.fresh o hr
    have := hcol o
    omega
  · push Not at hr
    obtain ⟨x, hx, hxo⟩ := hr
    have hge := h.seen_le x (h.subset x hx)
    have hle := h.order.reach_le hge hxo
    exact hn x hx (by omega) hxo

omit [DecidableEq Obj] in
theorem allMarked_listed {view : ℕ → Obj → List (Option Obj)}
    {owners : List (ℕ × Option (finalizers_s Obj))}
    {m : List (ℕ × Option (finalizers_s Obj) × List Obj)} (hm : AllMarked owners m)
    (hl : OwnersListed H view owners) :
    ∀ q ∈ m, Listed H (view q.1) q.2.2 ∧ (q.2.1 = none → q.2.2 = []) := by
  induction hm with
  | nil => simp
  | @cons p q owners m hpq hrest ih =>
      intro q' hq'
      rcases List.mem_cons.mp hq' with rfl | hq'
      · obtain ⟨hj, hmk⟩ := hpq
        have hlp := hl p (by simp)
        rw [hj] at hlp
        obtain ⟨j, f⟩ := p
        obtain ⟨j', f', own⟩ := q'
        cases f <;> cases f'
        · obtain rfl : own = [] := hmk
          exact ⟨⟨by simp, by simp⟩, fun _ => rfl⟩
        · exact absurd hmk (by simp [Marked])
        · exact absurd hmk (by simp [Marked])
        · have hsub : ∀ x ∈ own, x ∈ listed_objects (some _) :=
            fun x hx => hmk.1.mem_iff.mpr (List.mem_append_left _ hx)
          exact ⟨⟨fun x hx => hlp.mem x (hsub x hx), fun x hx => hlp.view x (hsub x hx)⟩,
            by simp⟩
      · exact ih (fun p hp => hl p (List.mem_cons_of_mem _ hp)) q' hq'

omit [DecidableEq Obj] in
/-- The two passes together, list by list. -/
theorem allMarked_ran {wl1 : Obj → ℕ} {owners : List (ℕ × Option (finalizers_s Obj))}
    {m : List (ℕ × Option (finalizers_s Obj) × List Obj)}
    {out : List (ℕ × Option (finalizers_s Obj))} (hm : AllMarked owners m)
    (hr : AllRan wl1 m out) :
    ∃ dealt : List ((ℕ × Option (finalizers_s Obj)) × List Obj),
      dealt.map Prod.fst = out ∧ List.Forall₂ OwnerDealt owners dealt
        ∧ dealt.flatMap (·.2) = to_run wl1 (m.flatMap (·.2.2)) := by
  induction hm generalizing out with
  | nil =>
      cases hr
      exact ⟨[], rfl, .nil, rfl⟩
  | @cons p q owners m hpq hrest ih =>
      obtain ⟨r, out, hqr, hrs, rfl⟩ := List.forall₂_cons_left_iff.mp hr
      obtain ⟨dealt, hout, hdealt, hrun⟩ := ih hrs
      refine ⟨(r, to_run wl1 q.2.2) :: dealt, by rw [List.map_cons, hout], .cons ?_ hdealt, ?_⟩
      · obtain ⟨j, f⟩ := p
        obtain ⟨j', f', own⟩ := q
        obtain ⟨j'', f''⟩ := r
        obtain ⟨rfl, hmk⟩ := hpq
        obtain ⟨rfl, hran⟩ := hqr
        refine ⟨rfl, ?_⟩
        dsimp only at hmk hran
        cases f <;> cases f'
        · obtain rfl : own = [] := hmk
          rw [hran]
          rfl
        · exact absurd hmk (by simp [Marked])
        · exact absurd hmk (by simp [Marked])
        · rename_i f f'
          obtain ⟨hperm, hf'⟩ := hmk
          rw [hran]
          refine ⟨?_, ?_, ?_, ?_⟩
          · have hsplit : own.Perm (to_run wl1 own ++ to_keep wl1 own) := by
              have := List.filter_append_perm (fun x => decide (wl1 x = 254)) own
              simpa [to_run, to_keep] using this.symm
            calc f.objects_with_finalizers.Perm (own ++ f'.objects_with_finalizers) := hperm
              _ |>.Perm ((to_run wl1 own ++ to_keep wl1 own) ++ f'.objects_with_finalizers) :=
                  hsplit.append_right _
              _ |>.Perm (to_run wl1 own ++ (f'.objects_with_finalizers ++ to_keep wl1 own)) := by
                  rw [List.append_assoc]
                  exact List.perm_append_comm.append_left _
          · rw [hf']
            rfl
          · rw [hf']
            rfl
          · rw [hf']
            rfl
      · rw [List.flatMap_cons, List.flatMap_cons, hrun, to_run, to_run, to_run,
          List.filter_append]

omit [DecidableEq Obj] in
/-- What both passes leave behind, from their invariants. -/
theorem finalizersOrdered_of_passes {wl0 wl1 wl : Obj → ℕ}
    {owners : List (ℕ × Option (finalizers_s Obj))}
    {dealt : List ((ℕ × Option (finalizers_s Obj)) × List Obj)} {marked : List Obj}
    (hcol : ∀ o, wl0 o < 253 ∨ wl0 o = 255)
    (h1 : Step1Inv H wl0 (all_listed owners) marked wl1) (h2 : Step2Inv H wl1 marked wl)
    (hlists : List.Forall₂ OwnerDealt owners dealt)
    (hrun : dealt.flatMap (·.2) = to_run wl1 marked) :
    FinalizersOrdered H wl0 owners dealt wl := by
  have hmem : ∀ x, x ∈ dealt.flatMap (·.2) ↔ x ∈ marked ∧ wl1 x = 254 := by
    intro x
    rw [hrun, to_run, List.mem_filter]
    simp
  have hvisited : ∀ o, wl1 o = 255 → wl o = 255 := by
    intro o ho
    rcases h2.changed o with heq | ⟨h255, -⟩
    · rw [heq, ho]
    · exact h255
  have hdone : ∀ o, 254 ≤ wl1 o → wl o = 255 := by
    intro o ho
    by_cases h254 : wl1 o = 254
    · obtain ⟨x, hx, hx2, hxo⟩ := h1.cause hcol h254
      exact h2.raised x hx hx2 o hxo
    · have := h1.order.colour o
      exact hvisited o (by omega)
  refine ⟨hlists, ?_, ?_, ?_, ?_, ?_, ?_, ?_, ?_⟩
  · rw [hrun]
    exact h1.nodup.filter _
  · intro x hx
    obtain ⟨hxm, -⟩ := (hmem x).mp hx
    have := h1.unvisited x hxm
    unfold WL_VISITED
    exact ⟨h1.subset x hxm, by omega⟩
  · intro x hx y hy hyx
    obtain ⟨hxm, hx2⟩ := (hmem x).mp hx
    -- `y` is no further than `x`, so it is in state 2 because of a marked object: `x` itself
    have hle := h1.order.reach_le (h1.seen_le y hy) hyx
    have hge := h1.seen_le y hy
    obtain ⟨z, hz, -, hzy⟩ := h1.cause hcol (o := y) (by omega)
    have hzx := h1.state2 x hxm hx2 z hz (hzy.trans hyx)
    exact ⟨hzx ▸ hzy, hyx⟩
  · intro x hx hx0 hfirst
    have hge := h1.seen_le x hx
    obtain ⟨y, hy, hyx⟩ : ∃ y ∈ marked, Reach H.Edge y x := by
      by_contra hn
      push Not at hn
      have := h1.fresh x hn
      have := hcol x
      unfold WL_VISITED at hx0
      omega
    have hscc := hfirst y (h1.subset y hy) hyx
    refine ⟨y, (hmem y).mpr ⟨hy, ?_⟩, hscc⟩
    by_contra hy2
    have := h1.seen_le y (h1.subset y hy)
    have := h1.order.colour y
    obtain ⟨z, hz, hzy, hyz⟩ := h1.state3 y hy (by omega)
    have hzscc := hfirst z (h1.subset z hz) (hzy.trans hyx)
    exact hyz (hyx.trans hzscc.1)
  · intro x hx y hy hxy
    obtain ⟨hxm, -⟩ := (hmem x).mp hx
    obtain ⟨hym, hy2⟩ := (hmem y).mp hy
    exact h1.state2 y hym hy2 x hxm hxy.1
  · intro x hx o hxo
    have hge := h1.seen_le x hx
    exact hdone o (le_trans hge (h1.order.reach_le hge hxo))
  · intro o
    have hne : wl o ≠ 253 ∧ wl o ≠ 254 := by
      by_cases hge : 254 ≤ wl1 o
      · rw [hdone o hge]
        omega
      · have := h2.order.colour o
        rcases h2.changed o with heq | ⟨h255, -⟩
        · omega
        · omega
    exact hne
  · intro o ho
    rcases h2.changed o with heq | ⟨-, x, hx, -, hxo⟩
    · rw [heq]
      exact h1.fresh o (fun x hx => ho x (h1.subset x hx))
    · exact absurd hxo (ho x (h1.subset x hx))

/-- **Finalizer ordering.** No assertion of the two passes fails, and
they order the finalizers: the heap may be any graph, the visited set any
closed one, and the lists may overlap in what they reach in any way. -/
theorem deal_with_objects_with_finalizers_spec (H : HeapGraph Obj)
    (view : ℕ → Obj → List (Option Obj)) (write_locks : Obj → ℕ)
    (segments : List (Option (finalizers_s Obj))) (g_finalizers : finalizers_s Obj)
    (hl : OwnersListed H view (finalizer_owners segments g_finalizers))
    (hnodup : (all_listed (finalizer_owners segments g_finalizers)).Nodup)
    (hcol : ∀ o, write_locks o < WL_FINALIZ_ORDER_1 ∨ write_locks o = WL_VISITED)
    (hclosed : ∀ v w, write_locks v = WL_VISITED → H.Edge v w → write_locks w = WL_VISITED) :
    ∃ dealt wl, deal_with_objects_with_finalizers view write_locks segments g_finalizers
        = some (dealt.map Prod.fst, wl)
      ∧ FinalizersOrdered H write_locks (finalizer_owners segments g_finalizers) dealt wl := by
  have hpasses : Returns
      (deal_with_objects_with_finalizers view write_locks segments g_finalizers)
      (fun r => ∃ dealt, dealt.map Prod.fst = r.1 ∧ FinalizersOrdered H write_locks
        (finalizer_owners segments g_finalizers) dealt r.2) := by
    unfold deal_with_objects_with_finalizers
    generalize finalizer_owners segments g_finalizers = owners at hl hnodup ⊢
    refine Returns.bind (mark_finalize_step1_all_spec owners hl
      (by simpa using hnodup) rfl rfl (Step1Inv.init hcol hclosed)) ?_
    rintro ⟨m, st1⟩ ⟨hm, hes1, -, h1⟩
    simp only [List.nil_append] at h1
    refine Returns.bind (mark_finalize_step2_all_spec h1 m (allMarked_listed hm hl)
      (by simp) (by simpa using h1.nodup) hes1 (Step2Inv.init h1.order)) ?_
    rintro ⟨out, st2⟩ ⟨hran, h2⟩
    simp only [List.nil_append] at h2
    obtain ⟨dealt, hout, hlists, hrun⟩ := allMarked_ran hm hran
    exact returns_some ⟨dealt, hout, finalizersOrdered_of_passes hcol h1 h2 hlists hrun⟩
  obtain ⟨⟨out, wl⟩, hsome, dealt, hout, hord⟩ := hpasses
  exact ⟨dealt, wl, hsome.trans (by rw [hout]), hord⟩

/-- The chain `3 → 1 → 2` of `test_finalizer_ordering`. -/
def chainHeap : HeapGraph ℕ where
  objs := {1, 2, 3}
  refs := fun o => if o = 3 then [some 1] else if o = 1 then [some 2] else [none]
  closed := by
    intro a _ b hb
    by_cases h3 : a = 3
    · simp_all
    · by_cases h1 : a = 1 <;> simp_all

def chainFinalizers : finalizers_s ℕ :=
  { objects_with_finalizers := [1, 2, 3], count_non_young := 0,
    run_finalizers := none, running_next := none }

def noFinalizers : finalizers_s ℕ :=
  { objects_with_finalizers := [], count_non_young := 0,
    run_finalizers := none, running_next := none }

theorem deal_with_objects_with_finalizers_chain :
    ∃ dealt wl, deal_with_objects_with_finalizers (fun _ => chainHeap.refs) (fun _ => 0)
        [none, some chainFinalizers] noFinalizers = some (dealt.map Prod.fst, wl)
      ∧ FinalizersOrdered chainHeap (fun _ => 0)
        (finalizer_owners [none, some chainFinalizers] noFinalizers) dealt wl :=
  deal_with_objects_with_finalizers_spec chainHeap (fun _ => chainHeap.refs) (fun _ => 0)
    [none, some chainFinalizers] noFinalizers
    (fun p hp => ⟨fun x hx => by
      simp [finalizer_owners, noFinalizers] at hp
      rcases hp with rfl | rfl | rfl
      · exact absurd hx (by simp [listed_objects])
      · revert x
        decide
      · exact absurd hx (by simp), fun _ _ _ _ => rfl⟩)
    (by decide) (fun _ => .inl (by decide)) (fun _ _ h => absurd h (by decide))

end Order

end Stmgc.C7
