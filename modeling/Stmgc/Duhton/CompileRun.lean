/-
What the reader of duhton does with any file.

The run of the reader follows the lexemes of the file, one list at a time: it
ends where [`Scanned`] says, and with the objects of the terms. The only writes
that are too far are those of tokens that are too long.
-/
import Stmgc.Duhton.Compile
import Stmgc.Lib.BinarySearch
import Mathlib.Data.List.TakeWhile

namespace Stmgc.Duhton

open Stmgc.Lib Stmgc.Lib.Sexp

namespace Compile

/-! ## Lists -/

section

variable {garbage : ℕ → DuObject} {list : DuList} {x : DuObject} {f : List UInt8}

def DuList.items (list : DuList) : List DuObject :=
  (List.range list.ob_tuple.ob_count).map list.ob_tuple.ob_items

/-- With room for the new item or without. -/
theorem _list_append_items : (_list_append garbage list x).items = list.items ++ [x] := by
  have hsame : ∀ items : ℕ → DuObject, (∀ i < list.ob_tuple.ob_count, items i = list.ob_tuple.ob_items i) →
      (List.range (list.ob_tuple.ob_count + 1)).map (Function.update items list.ob_tuple.ob_count x)
        = list.items ++ [x] := by
    intro items hitems
    rw [List.range_succ, List.map_append, List.map_singleton, Function.update_self]
    congr 1
    refine List.map_congr_left fun i hi => ?_
    rw [Function.update_of_ne (List.mem_range.mp hi).ne, hitems i (List.mem_range.mp hi)]
  unfold _list_append
  dsimp only
  by_cases hroom : list.ob_tuple.ob_count + 1 ≤ list.ob_tuple.ob_capacity
  · rw [if_pos hroom]
    exact hsame _ fun _ _ => rfl
  · rw [if_neg hroom]
    refine hsame _ fun i hi => ?_
    rw [Nat.add_sub_cancel, foldl_update_range', if_pos]
    omega

theorem make_cons_eq {i : ℕ} {cons : DuObject} (hi : i ≤ list.ob_tuple.ob_count) :
    make_cons list i cons = .ok (((List.range i).map list.ob_tuple.ob_items).foldr .cons cons) := by
  induction i generalizing cons with
  | zero => rfl
  | succ i ih =>
      unfold make_cons _list_getitem
      rw [if_neg (by omega)]
      rw [List.range_succ, List.map_append, List.foldr_append]
      exact ih (by omega)

theorem done_eq : done list f = .ok (list_object list.items, f) := by
  unfold done list_length
  rw [make_cons_eq le_rfl]
  rfl

end

/-! ## Bytes -/

section

variable {c : UInt8} {f token : List UInt8}

theorem skip_comment_eq : skip_comment f = fgetc (f.dropWhile (· ≠ byte '\n')) := by
  induction f with
  | nil => rfl
  | cons c f ih =>
      unfold skip_comment
      by_cases hc : c = byte '\n'
      · rw [if_pos hc, List.dropWhile_cons_of_neg (by simp [hc])]
        rfl
      · rw [if_neg hc, List.dropWhile_cons_of_pos (by simp [hc])]
        exact ih

theorem put_eq {c : UInt8} (h : token.length < TOKEN_SIZE) : put token c = .ok (token ++ [c]) := if_pos h

theorem put_overflow {c : UInt8} (h : ¬ token.length < TOKEN_SIZE) : put token c = .error .overflow :=
  if_neg h

/-- The last byte of a token, and the `'\0'`. -/
theorem put_put {r : Option UInt8 × List UInt8} :
    (do let token ← put token c
        let _ ← put token 0
        return (token, r) : Except Stop (List UInt8 × Option UInt8 × List UInt8))
      = if (token ++ [c]).length ≤ 200 then .ok (token ++ [c], r) else .error .overflow := by
  by_cases hput : token.length < TOKEN_SIZE
  · rw [put_eq hput]
    show (do let _ ← put (token ++ [c]) 0; return (token ++ [c], r)) = _
    by_cases hend : (token ++ [c]).length ≤ 200
    · rw [if_pos hend, put_eq (Nat.lt_succ_of_le hend)]
      rfl
    · rw [if_neg hend, put_overflow fun hlt => hend (Nat.le_of_lt_succ hlt)]
      rfl
  · rw [put_overflow hput, if_neg]
    · rfl
    · rw [List.length_append, List.length_singleton]
      unfold TOKEN_SIZE at hput
      omega

/-- The token is read whole, if the buffer has room for it. -/
theorem read_token_eq : read_token token c f =
    if (token ++ c :: f.takeWhile (! ends_token ·)).length ≤ 200 then
      .ok (token ++ c :: f.takeWhile (! ends_token ·), fgetc (f.dropWhile (! ends_token ·)))
    else .error .overflow := by
  induction f generalizing token c with
  | nil =>
      unfold read_token
      rw [List.takeWhile_nil, List.dropWhile_nil]
      exact put_put
  | cons c' f ih =>
      unfold read_token
      by_cases hends : ends_token c' = true
      · rw [List.takeWhile_cons_of_neg (by simp [hends]), List.dropWhile_cons_of_neg (by simp [hends])]
        simp only [if_pos hends]
        exact put_put
      · rw [List.takeWhile_cons_of_pos (by simp [hends]), List.dropWhile_cons_of_pos (by simp [hends])]
        simp only [if_neg hends]
        by_cases hput : token.length < TOKEN_SIZE
        · rw [put_eq hput]
          show read_token (token ++ [c]) c' f = _
          rw [ih, List.append_assoc]
          rfl
        · rw [put_overflow hput, if_neg]
          · rfl
          · rw [List.length_append, List.length_cons]
            unfold TOKEN_SIZE at hput
            omega

end

/-! ## Terms -/

section

variable {val val' : List UInt8 → DuObject} {ts ts' : List (Term (List UInt8))}
  {l : List (Lexeme (List UInt8))} {items items' : List DuObject}

@[simp] theorem term_objects_append :
    term_objects val (ts ++ ts') = term_objects val ts ++ term_objects val ts' := by
  induction ts with
  | nil => rfl
  | cons t ts ih => rw [List.cons_append, term_objects, term_objects, ih, List.cons_append]

theorem list_object_inj : list_object items = list_object items' ↔ items = items' := by
  refine ⟨fun h => ?_, fun h => h ▸ rfl⟩
  induction items generalizing items' with
  | nil =>
      cases items' with
      | nil => rfl
      | cons x items' => cases h
  | cons x items ih =>
      cases items' with
      | nil => cases h
      | cons x' items' =>
          obtain ⟨hx, hitems⟩ := DuObject.cons.inj h
          rw [hx, ih hitems]

/-- The objects are the same exactly if those of the tokens are. -/
theorem term_objects_eq_iff (h : Reads l ts) :
    term_objects val ts = term_objects val' ts ↔ Good (fun a => val a = val' a) l := by
  induction h with
  | nil => exact ⟨fun _ => good_nil, fun _ => rfl⟩
  | newline _ ih =>
      rw [ih]
      exact ⟨fun hg => hg.cons nofun, fun hg a ha => hg a (List.mem_cons_of_mem _ ha)⟩
  | @atom a l ts _ ih =>
      rw [term_objects, term_objects, List.cons.injEq, ih, term_object, term_object]
      constructor
      · rintro ⟨ha, hg⟩
        refine hg.cons fun b hb => ?_
        rw [← Lexeme.atom.inj hb]
        exact ha
      · exact fun hg => ⟨hg a List.mem_cons_self, fun b hb => hg b (List.mem_cons_of_mem _ hb)⟩
  | @list l₁ l₂ ts₁ ts₂ _ _ ih₁ ih₂ =>
      rw [term_objects, term_objects, List.cons.injEq, ih₂, term_object, term_object, list_object_inj, ih₁]
      constructor
      · rintro ⟨hg₁, hg₂⟩
        have hright := @Good.cons _ _ _ .right hg₂ nofun
        exact @Good.cons _ _ _ .left (hg₁.append hright) nofun
      · intro hg
        exact ⟨fun a ha => hg a (List.mem_cons_of_mem _ (List.mem_append_left _ ha)), fun a ha =>
          hg a (List.mem_cons_of_mem _ (List.mem_append_right _ (List.mem_cons_of_mem _ ha)))⟩

end

/-! ## Numbers -/

section

variable {base v : ℕ} {c : UInt8} {s token : List UInt8} {n : ℤ}

theorem of_digits_eq_some : of_digits base s = some v ↔
    s ≠ [] ∧ (∀ c ∈ s, is_digit base c = true) ∧ digits_value base s = v := by
  unfold of_digits
  rw [← List.all_eq_true, ← and_assoc]
  by_cases hs : s ≠ [] ∧ s.all (is_digit base) = true
  · rw [if_pos hs, Option.some.injEq, and_iff_right hs]
  · rw [if_neg hs]
    exact iff_of_false (by simp) fun hv => hs hv.1

theorem of_digits_eq_none (hc : c ∈ s) (hdigit : is_digit base c = false) : of_digits base s = none :=
  if_neg fun h => by
    have hc' := List.all_eq_true.mp h.2 c hc
    simp [hdigit] at hc'

theorem of_digits_nil : of_digits base [] = none := if_neg fun h => h.1 rfl

/-- The base does not matter for a lone zero. -/
theorem of_digits_zero_only (hzero : is_digit base (byte '0') = true) :
    of_digits base [byte '0'] = some 0 := by
  refine of_digits_eq_some.mpr ⟨List.cons_ne_nil _ _, fun c hc => ?_, ?_⟩
  · rw [List.mem_singleton.mp hc]
    exact hzero
  · exact Nat.zero_mul base ▸ rfl

/-- A zero in front of octal digits. -/
theorem of_digits_zero (hs : s ≠ []) : of_digits 8 (byte '0' :: s) = of_digits 8 s := by
  have hvalue : digits_value 8 (byte '0' :: s) = digits_value 8 s := rfl
  unfold of_digits
  rw [hvalue]
  refine if_congr ?_ rfl rfl
  rw [List.all_eq_true, List.all_eq_true]
  constructor
  · exact fun h => ⟨hs, fun c hc => h.2 c (List.mem_cons_of_mem _ hc)⟩
  · refine fun h => ⟨List.cons_ne_nil _ _, fun c hc => ?_⟩
    rcases List.mem_cons.mp hc with rfl | hc
    · decide
    · exact h.2 c hc

theorem not_octal_of_is_x (h : is_x c = true) : is_digit 8 c = false := by
  unfold is_x at h
  rcases of_decide_eq_true h with rfl | rfl
  · decide
  · decide

/-- `strtol` takes the digits of the numeral. -/
theorem magnitude_eq : magnitude s = of_digits (base_of s).1 (base_of s).2 := by
  match s with
  | [] => exact of_digits_nil.symm
  | [c] =>
      unfold magnitude base_of
      dsimp only
      by_cases hc : c = byte '0'
      · rw [hc, if_pos rfl, of_digits_zero_only (by decide), of_digits_zero_only (by decide)]
      · rw [if_neg hc]
  | [c, x] =>
      unfold magnitude base_of
      dsimp only
      by_cases hc : c = byte '0'
      · rw [if_pos hc, if_pos hc, hc]
        by_cases hx : is_x x = true
        · rw [if_pos hx, of_digits_nil]
          exact (of_digits_eq_none (List.mem_cons_of_mem _ List.mem_cons_self) (not_octal_of_is_x hx)).symm
        · rw [if_neg hx]
          exact (of_digits_zero (List.cons_ne_nil _ _)).symm
      · rw [if_neg hc, if_neg hc]
  | c :: x :: d :: s =>
      unfold magnitude base_of
      dsimp only
      by_cases hc : c = byte '0'
      · rw [if_pos hc, if_pos hc, hc]
        by_cases hx : is_x x = true
        · rw [if_pos hx]
          by_cases hd : is_digit 16 d = true
          · rw [if_pos ⟨hx, hd⟩]
          · -- then only the zero in front of the x is a number
            rw [if_neg fun h => hd h.2, of_digits_eq_none List.mem_cons_self (Bool.eq_false_iff.mpr hd)]
            exact (of_digits_eq_none (List.mem_cons_of_mem _ List.mem_cons_self)
              (not_octal_of_is_x hx)).symm
        · rw [if_neg hx, if_neg fun h => hx h.1]
          exact (of_digits_zero (List.cons_ne_nil _ _)).symm
      · rw [if_neg hc, if_neg hc]

theorem dropWhile_isspace (hc : isspace c = false) : (c :: s).dropWhile isspace = c :: s :=
  List.dropWhile_cons_of_neg (by simp [hc])

theorem strtol_numeral (hc : isspace c = false) (hn : numeral (c :: s) = some n) :
    strtol (c :: s) = (max LONG_MIN (min LONG_MAX n), []) := by
  unfold numeral at hn
  dsimp only at hn
  rw [magnitude_eq] at hn
  obtain ⟨v, hv, rfl⟩ := Option.map_eq_some_iff.mp hn
  obtain ⟨hne, hall, rfl⟩ := of_digits_eq_some.mp hv
  unfold strtol
  dsimp only
  rw [dropWhile_isspace hc, List.takeWhile_eq_self_iff.mpr hall, if_neg hne,
    List.dropWhile_eq_nil_iff.mpr hall]

theorem strtol_symbol (hc : isspace c = false) (hn : numeral (c :: s) = none) :
    (strtol (c :: s)).2 ≠ [] := by
  unfold numeral at hn
  dsimp only at hn
  rw [magnitude_eq, Option.map_eq_none_iff] at hn
  unfold strtol
  dsimp only
  rw [dropWhile_isspace hc]
  split_ifs with hdigits
  · exact List.cons_ne_nil c s
  · intro hend
    have hall := List.dropWhile_eq_nil_iff.mp hend
    have hne : (base_of (sign_of (c :: s)).2).2 ≠ [] := by
      intro heq
      rw [heq] at hdigits
      exact hdigits rfl
    rw [of_digits_eq_some.mpr ⟨hne, hall, rfl⟩] at hn
    cases hn

theorem not_digit_zero : is_digit base 0 = false := rfl

theorem of_digits_of_zero_mem (h : 0 ∈ s) : of_digits base s = none := of_digits_eq_none h not_digit_zero

/-- There is no `'\0'` in a numeral. -/
theorem numeral_of_zero_mem (h : 0 ∈ token) : numeral token = none := by
  have hsign : 0 ∈ (sign_of token).2 := by
    cases token with
    | nil => exact h
    | cons c s =>
        have hs : c ≠ 0 → 0 ∈ s := fun hc => (List.mem_cons.mp h).resolve_left (Ne.symm hc)
        unfold sign_of
        dsimp only
        by_cases hminus : c = byte '-'
        · rw [if_pos hminus]
          exact hs (hminus ▸ by decide)
        · rw [if_neg hminus]
          by_cases hplus : c = byte '+'
          · rw [if_pos hplus]
            exact hs (hplus ▸ by decide)
          · rw [if_neg hplus]
            exact h
  unfold numeral
  dsimp only
  generalize (sign_of token).2 = s at hsign
  rw [Option.map_eq_none_iff]
  match s with
  | [] => rfl
  | [c] => exact of_digits_of_zero_mem hsign
  | c :: x :: digits =>
      unfold magnitude
      dsimp only
      by_cases hc : c = byte '0'
      · rw [if_pos hc]
        have hrest : 0 ∈ x :: digits := (List.mem_cons.mp hsign).resolve_left (hc ▸ by decide)
        by_cases hx : is_x x = true
        · rw [if_pos hx]
          refine of_digits_of_zero_mem ((List.mem_cons.mp hrest).resolve_left ?_)
          rintro rfl
          exact absurd hx (by decide)
        · rw [if_neg hx]
          exact of_digits_of_zero_mem hrest
      · rw [if_neg hc]
        exact of_digits_of_zero_mem hsign

theorem c_string_eq_self : c_string token = token ↔ 0 ∉ token := by
  unfold c_string
  rw [List.takeWhile_eq_self_iff]
  constructor
  · exact fun h hz => absurd rfl (of_decide_eq_true (h 0 hz))
  · exact fun h c hc => decide_eq_true fun heq => h (heq ▸ hc)

theorem to_int_eq (h : -2 ^ 31 ≤ n ∧ n < 2 ^ 31) : to_int (max LONG_MIN (min LONG_MAX n)) = n := by
  unfold to_int LONG_MIN LONG_MAX
  have hn : max (-2 ^ 63) (min (2 ^ 63 - 1) n) = n := by omega
  rw [hn]
  exact Int.bmod_eq_of_le_mul_two (by omega) (by omega)

theorem to_int_range (k : ℤ) : -2 ^ 31 ≤ to_int k ∧ to_int k < 2 ^ 31 := by
  unfold to_int
  have hle := @Int.le_bmod k (2 ^ 32) (by decide)
  have hlt := @Int.bmod_lt k (2 ^ 32) (by decide)
  omega

/-- The object of a token is the right one exactly if the token is plain. -/
theorem token_object_eq_iff (hc : isspace c = false) :
    token_object (c :: s) = atom_object (c :: s) ↔ Plain (c :: s) := by
  by_cases hz : 0 ∈ c :: s
  · have hne : token_object (c :: s) ≠ atom_object (c :: s) := by
      have hcut : c_string (c :: s) ≠ c :: s := fun h => c_string_eq_self.mp h hz
      unfold token_object atom_object
      rw [numeral_of_zero_mem hz]
      dsimp only
      split_ifs
      · nofun
      · exact fun h => hcut (DuObject.symbol.inj h)
    exact ⟨fun h => absurd h hne, fun h => absurd hz h.1⟩
  · have hcut : c_string (c :: s) = c :: s := c_string_eq_self.mpr hz
    unfold token_object atom_object
    rw [hcut]
    cases hn : numeral (c :: s) with
    | none =>
        have hrest := strtol_symbol hc hn
        dsimp only
        rw [if_neg hrest]
        refine ⟨fun _ => ⟨hz, fun n h => ?_⟩, fun _ => rfl⟩
        rw [hn] at h
        cases h
    | some n =>
        rw [strtol_numeral hc hn]
        dsimp only
        rw [if_pos rfl]
        constructor
        · intro h
          refine ⟨hz, fun n' h' => ?_⟩
          rw [hn, Option.some.injEq] at h'
          rw [← h', ← DuObject.int.inj h]
          exact to_int_range _
        · intro h
          exact congrArg DuObject.int (to_int_eq (h.2 n hn))

end

/-! ## The loop -/

/-- What the loop returns, by where it ends. `f` is what it has to read, and
`items` are those that the list has already. -/
inductive Returns (level : ℕ) (stop : Bool) (f : List UInt8) (items : List DuObject) :
    End (List UInt8) → Except Stop (DuObject × List UInt8) → Prop where
  | null (ts : List (Term (List UInt8))) : level = 0 → stop = true → other_lines 0 (lexemes f) = none →
      Returns level stop f items (.eof ts) (.ok (.NULL, []))
  | eof (ts : List (Term (List UInt8))) (f' : List UInt8) : level = 0 → lexemes f' = to_leave stop f →
      (stop = true → other_lines 0 (lexemes f) ≠ none) →
      Returns level stop f items (.eof ts) (.ok (list_object (items ++ term_objects token_object ts), f'))
  | fatal_eof (ts : List (Term (List UInt8))) : 0 < level →
      Returns level stop f items (.eof ts) (.error (.fatal_error "more '(' than ')'"))
  | closed (ts : List (Term (List UInt8))) (f' : List UInt8) : 0 < level → f'.length < f.length →
      Returns level stop f items (.closed ts (lexemes f'))
        (.ok (list_object (items ++ term_objects token_object ts), f'))
  | fatal_closed (ts : List (Term (List UInt8))) (rest : List (Lexeme (List UInt8))) : level = 0 →
      Returns level stop f items (.closed ts rest) (.error (.fatal_error "more ')' than '('"))
  | unclosed : Returns level stop f items .unclosed (.error (.fatal_error "more '(' than ')'"))
  | refused : Returns level stop f items .refused (.error .overflow)

/-- What the loop does with the rest of the file. -/
def Reaches (level : ℕ) (stop : Bool) (f : List UInt8) (items : List DuObject)
    (r : Except Stop (DuObject × List UInt8)) : Prop :=
  ∃ e, Scanned Fits (to_read stop f) e ∧ Returns level stop f items e r

section

variable {garbage : ℕ → DuObject} {level : ℕ} {stop : Bool} {f f' : List UInt8} {items items' : List DuObject}
  {r : Except Stop (DuObject × List UInt8)} {l₀ : List (Lexeme (List UInt8))}
  {ts₀ : List (Term (List UInt8))} {c : UInt8}

/-- A turn of the loop reads the lexemes `l₀`, which are the terms `ts₀`. -/
theorem Reaches.front (hr : Reads l₀ ts₀) (hg : Good Fits l₀) (hread : to_read stop f = l₀ ++ to_read stop f')
    (hother : stop = true → other_lines 0 (lexemes f) = other_lines 0 (lexemes f'))
    (hlength : f'.length ≤ f.length) (hitems : items' = items ++ term_objects token_object ts₀)
    (h : Reaches level stop f' items' r) : Reaches level stop f items r := by
  obtain ⟨e, he, hreturns⟩ := h
  refine ⟨e.front ts₀, hread ▸ he.front hr hg, ?_⟩
  have hleave : to_leave stop f = to_leave stop f' := by
    unfold to_leave
    cases stop with
    | false => rfl
    | true => rw [hother rfl]
  subst hitems
  cases hreturns with
  | null ts hlevel hstop hnone => exact .null _ hlevel hstop ((hother hstop).trans hnone)
  | eof ts f'' hlevel hrest hline =>
      rw [List.append_assoc, ← term_objects_append]
      exact .eof _ f'' hlevel (hrest.trans hleave.symm) fun hstop => hother hstop ▸ hline hstop
  | fatal_eof ts hlevel => exact .fatal_eof _ hlevel
  | closed ts f'' hlevel hlt =>
      rw [List.append_assoc, ← term_objects_append]
      exact .closed _ f'' hlevel (hlt.trans_le hlength)
  | fatal_closed ts rest hlevel => exact .fatal_closed _ _ hlevel
  | unclosed => exact .unclosed
  | refused => exact .refused

/-- Bytes that are no lexeme. -/
theorem Reaches.skip (hlexemes : lexemes f = lexemes f') (hlength : f'.length ≤ f.length)
    (h : Reaches level stop f' items r) : Reaches level stop f items r := by
  refine h.front .nil good_nil ?_ (fun _ => by rw [hlexemes]) hlength (List.append_nil items).symm
  unfold to_read
  rw [hlexemes]
  rfl

theorem lexemes_nil : lexemes [] = [] := by
  rw [lexemes]

theorem to_read_of_atom {token : List UInt8} (h : lexemes f = .atom token :: lexemes f') :
    to_read stop f = [.atom token] ++ to_read stop f' := by
  unfold to_read
  cases stop with
  | false => exact h
  | true =>
      rw [if_pos rfl, if_pos rfl, h, first_line]
      rfl

theorem other_lines_of_atom {token : List UInt8} (h : lexemes f = .atom token :: lexemes f') :
    other_lines 0 (lexemes f) = other_lines 0 (lexemes f') := by
  rw [h, other_lines]

/-- A list has been read from `f`, and `f'` is behind it. -/
theorem Reaches.list {f₁ : List UInt8} {l₁ : List (Lexeme (List UInt8))} {ts₁ : List (Term (List UInt8))}
    (hf : lexemes f₁ = .left :: lexemes f) (hclosed : lexemes f = l₁ ++ .right :: lexemes f')
    (hr : Reads l₁ ts₁) (hg : Good Fits l₁) (hlength : f'.length ≤ f₁.length)
    (h : Reaches level stop f' (items ++ [list_object (term_objects token_object ts₁)]) r) :
    Reaches level stop f₁ items r := by
  have hl₀ : Reads (.left :: (l₁ ++ .right :: [])) [.list ts₁] := .list hr .nil
  have hg₀ : Good Fits (.left :: (l₁ ++ .right :: [])) := by
    have hright := @Good.cons _ [] Fits .right good_nil nofun
    exact @Good.cons _ _ _ .left (hg.append hright) nofun
  refine h.front hl₀ hg₀ ?_ (fun _ => ?_) hlength rfl
  · unfold to_read
    cases stop with
    | false =>
        show lexemes f₁ = _ ++ lexemes f'
        rw [hf, hclosed, List.cons_append, List.append_assoc]
        rfl
    | true =>
        rw [if_pos rfl, if_pos rfl, hf, hclosed, first_line, hr.first_line, first_line, List.cons_append,
          List.append_assoc]
        rfl
  · rw [hf, hclosed, other_lines, hr.other_lines, other_lines]

/-- The file ends inside of the list. -/
theorem scanned_left {e : End (List UInt8)} {f₁ : List UInt8} (hf : lexemes f₁ = .left :: lexemes f)
    (he : Scanned Fits (lexemes f) e) (heof : e = .unclosed ∨ ∃ ts, e = .eof ts) :
    Scanned Fits (to_read stop f₁) .unclosed := by
  have hleft : Scanned Fits ([] ++ .left :: lexemes f) .unclosed := by
    rcases heof with rfl | ⟨ts, rfl⟩
    · exact .unclosed .nil good_nil he
    · exact .unclosed_eof .nil good_nil he
  unfold to_read
  cases stop with
  | false => exact hf ▸ hleft
  | true =>
      rw [if_pos rfl, hf, first_line]
      rcases heof with rfl | ⟨ts, rfl⟩
      · rw [he.first_line_self rfl]
        exact hleft
      · have hself := he.eof_reads.1.first_line [] 0
        rw [List.append_nil, first_line, List.append_nil] at hself
        rw [hself]
        exact hleft

/-- A token inside of the list is too long. -/
theorem scanned_left_refused {f₁ : List UInt8} (hf : lexemes f₁ = .left :: lexemes f)
    (he : Scanned Fits (lexemes f) .refused) : Scanned Fits (to_read stop f₁) .refused := by
  unfold to_read
  cases stop with
  | false => exact hf ▸ .refused .nil good_nil he
  | true =>
      rw [if_pos rfl, hf, first_line]
      exact .refused .nil good_nil (he.first_line_refused rfl 0)

/-- One turn of the loop, at the end of the file. -/
theorem Reaches.end_of_file {list : DuList} : Reaches level stop [] list.items
    (if level > 0 then .error (.fatal_error "more '(' than ')'")
      else if stop = true then .ok (.NULL, []) else done list []) := by
  have hread : to_read stop [] = [] := by
    unfold to_read
    rw [lexemes_nil]
    cases stop with
    | false => rfl
    | true => rfl
  refine ⟨.eof [], hread ▸ .eof .nil good_nil, ?_⟩
  by_cases hlevel : level > 0
  · rw [if_pos hlevel]
    exact .fatal_eof [] hlevel
  · rw [if_neg hlevel]
    have hzero : level = 0 := by omega
    cases stop with
    | true => exact .null [] hzero rfl (by rw [lexemes_nil, other_lines])
    | false =>
        rw [if_neg Bool.false_ne_true, done_eq]
        have heof := @Returns.eof level false [] list.items [] [] hzero lexemes_nil (by simp)
        rw [term_objects, List.append_nil] at heof
        exact heof

/-- One turn of the loop, at `')'`. -/
theorem Reaches.right {list : DuList} {f₁ : List UInt8} (hf : lexemes f₁ = .right :: lexemes f)
    (hlength : f.length < f₁.length) (hstop : stop = true → level = 0) :
    Reaches level stop f₁ list.items
      (if level = 0 then .error (.fatal_error "more ')' than '('") else done list f) := by
  by_cases hlevel : level = 0
  · rw [if_pos hlevel]
    have hread : ∃ rest, to_read stop f₁ = [] ++ .right :: rest := by
      unfold to_read
      cases stop with
      | false => exact ⟨_, hf⟩
      | true => exact ⟨_, by rw [if_pos rfl, hf, first_line]; rfl⟩
    obtain ⟨rest, hread⟩ := hread
    exact ⟨.closed [] rest, hread ▸ .closed .nil good_nil, .fatal_closed [] rest hlevel⟩
  · rw [if_neg hlevel, done_eq]
    have hread : to_read stop f₁ = [] ++ .right :: lexemes f := by
      unfold to_read
      rw [if_neg fun h => hlevel (hstop h)]
      exact hf
    have hclosed := @Returns.closed level stop f₁ list.items [] f (Nat.pos_of_ne_zero hlevel) hlength
    rw [term_objects, List.append_nil] at hclosed
    exact ⟨_, hread ▸ .closed .nil good_nil, hclosed⟩

/-- One turn of the loop, at a newline. -/
theorem Reaches.line {list : DuList} {f₁ : List UInt8} (hf : lexemes f₁ = .newline :: lexemes f)
    (hlevel : level = 0) : Reaches level true f₁ list.items (done list f) := by
  have hread : to_read true f₁ = [] := by
    unfold to_read
    rw [if_pos rfl, hf, first_line]
  refine ⟨.eof [], hread ▸ .eof .nil good_nil, ?_⟩
  rw [done_eq]
  have heof := @Returns.eof level true f₁ list.items [] f hlevel (by
    unfold to_leave
    rw [if_pos rfl, hf, other_lines]
    rfl) (fun _ => by rw [hf, other_lines]; simp)
  rw [term_objects, List.append_nil] at heof
  exact heof

/-- One turn of the loop, at `'('`, when the call for the list has read it. -/
theorem Reaches.left {list : DuList} {f₁ : List UInt8}
    {next : DuObject × List UInt8 → Except Stop (DuObject × List UInt8)}
    (hf : lexemes f₁ = .left :: lexemes f) (hlength : f.length < f₁.length)
    (hlist : Reaches (level + 1) false f [] r)
    (hnext : ∀ item f', f'.length < f₁.length → Reaches level stop f' (list.items ++ [item]) (next (item, f'))) :
    Reaches level stop f₁ list.items (r >>= next) := by
  obtain ⟨e, he, hreturns⟩ := hlist
  have hread : to_read false f = lexemes f := rfl
  rw [hread] at he
  cases hreturns with
  | null ts hlevel => exact absurd hlevel (Nat.succ_ne_zero level)
  | eof ts f' hlevel => exact absurd hlevel (Nat.succ_ne_zero level)
  | fatal_closed ts rest hlevel => exact absurd hlevel (Nat.succ_ne_zero level)
  | fatal_eof ts hlevel => exact ⟨.unclosed, scanned_left hf he (.inr ⟨ts, rfl⟩), .unclosed⟩
  | unclosed => exact ⟨.unclosed, scanned_left hf he (.inl rfl), .unclosed⟩
  | refused => exact ⟨.refused, scanned_left_refused hf he, .refused⟩
  | closed ts f' hlevel hlt =>
      have hshorter := hlt.trans hlength
      have hreach := hnext (list_object ([] ++ term_objects token_object ts)) f' hshorter
      rw [List.nil_append] at hreach
      generalize hl : lexemes f = l at he
      generalize hrest : lexemes f' = rest at he
      cases he with
      | closed hr hg => exact hreach.list hf (hl.trans (by rw [hrest])) hr hg hshorter.le

/-- One turn of the loop, at a token. -/
theorem Reaches.token {token : List UInt8} {f₁ : List UInt8}
    {next : List UInt8 × Option UInt8 × List UInt8 → Except Stop (DuObject × List UInt8)}
    (hf : lexemes f₁ = .atom token :: lexemes f) (hlength : f.length ≤ f₁.length)
    (hnext : Reaches level stop f (items ++ [token_object token]) (next (token, fgetc f))) :
    Reaches level stop f₁ items
      ((if token.length ≤ 200 then .ok (token, fgetc f) else .error .overflow) >>= next) := by
  by_cases hfits : token.length ≤ 200
  · rw [if_pos hfits]
    refine hnext.front (.atom .nil) ?_ (to_read_of_atom hf) (fun _ => other_lines_of_atom hf) hlength rfl
    exact good_nil.cons fun a ha => Lexeme.atom.inj ha ▸ hfits
  · rw [if_neg hfits]
    refine ⟨.refused, ?_, .refused⟩
    rw [to_read_of_atom hf]
    exact .refused_atom .nil good_nil hfits

/-- The loop reads what it has to read, and with enough fuel it ends. -/
theorem parse_loop_reaches (garbage : ℕ → DuObject) (fuel : ℕ) (f : List UInt8) (level : ℕ) (stop : Bool)
    (list : DuList) (hstop : stop = true → level = 0) (hfuel : 2 * f.length + 1 ≤ fuel) :
    Reaches level stop f list.items (parse_loop garbage fuel (fgetc f).1 (fgetc f).2 level stop list) := by
  induction fuel using Nat.strongRecOn generalizing f level stop list with
  | ind fuel ih =>
    obtain ⟨n, rfl⟩ : ∃ n, fuel = n + 1 := ⟨fuel - 1, by omega⟩
    cases f with
    | nil =>
        unfold parse_loop
        exact Reaches.end_of_file
    | cons c f =>
        rw [List.length_cons] at hfuel
        have hnext : ∀ f' list', f'.length ≤ f.length → Reaches level stop f' list'.items
            (parse_loop garbage n (fgetc f').1 (fgetc f').2 level stop list') :=
          fun f' list' hle => ih n (Nat.lt_succ_self n) f' level stop list' hstop (by omega)
        have hlexemes := lexemes.eq_2 c f
        have hlt : f.length < (c :: f).length := Nat.lt_succ_self _
        unfold parse_loop
        simp only [fgetc.eq_2]
        by_cases hleft : c = byte '('
        · rw [if_pos hleft] at hlexemes ⊢
          obtain ⟨k, rfl⟩ : ∃ k, n = k + 1 := ⟨n - 1, by omega⟩
          have hlist := ih k (by omega) f (level + 1) false DuList_New (by simp) (by omega)
          refine Reaches.left hlexemes hlt hlist fun item f' hf' => ?_
          rw [← @_list_append_items garbage]
          exact hnext f' _ (Nat.le_of_lt_succ hf')
        rw [if_neg hleft] at hlexemes ⊢
        by_cases hright : c = byte ')'
        · rw [if_pos hright] at hlexemes ⊢
          exact Reaches.right hlexemes hlt hstop
        rw [if_neg hright] at hlexemes ⊢
        by_cases hnewline : c = byte '\n'
        · rw [if_pos hnewline] at hlexemes ⊢
          cases stop with
          | true => exact Reaches.line hlexemes (hstop rfl)
          | false =>
              refine (hnext f list le_rfl).front (.newline .nil) (good_nil.cons (by simp)) ?_ (by simp) hlt.le
                (List.append_nil _).symm
              exact hlexemes
        rw [if_neg hnewline] at hlexemes ⊢
        by_cases hcomment : c = byte ';'
        · rw [if_pos hcomment] at hlexemes ⊢
          rw [skip_comment_eq]
          have hle : (f.dropWhile (· ≠ byte '\n')).length ≤ f.length := (List.dropWhile_sublist _).length_le
          exact (hnext _ list hle).skip hlexemes (hle.trans hlt.le)
        rw [if_neg hcomment] at hlexemes ⊢
        by_cases hspace : isspace c = true
        · rw [if_pos hspace] at hlexemes ⊢
          exact (hnext f list le_rfl).skip hlexemes hlt.le
        rw [if_neg hspace] at hlexemes ⊢
        have hle : (f.dropWhile (! ends_token ·)).length ≤ f.length := (List.dropWhile_sublist _).length_le
        rw [read_token_eq, List.nil_append]
        refine Reaches.token hlexemes (hle.trans hlt.le) ?_
        rw [← @_list_append_items garbage]
        exact hnext _ _ hle

end

/-! ## A call for a whole file or a line -/

section

variable {stop : Bool} {f : List UInt8} {a : List UInt8}

/-- A token begins with a byte that is no white space. -/
theorem lexemes_atom (h : .atom a ∈ lexemes f) : ∃ c s, a = c :: s ∧ isspace c = false := by
  induction f using lexemes.induct with
  | case1 => rw [lexemes_nil] at h; exact absurd h List.not_mem_nil
  | case2 f ih =>
      rw [lexemes, if_pos rfl, List.mem_cons] at h
      exact ih (h.resolve_left nofun)
  | case3 f h1 ih =>
      rw [lexemes, if_neg h1, if_pos rfl, List.mem_cons] at h
      exact ih (h.resolve_left nofun)
  | case4 f h1 h2 ih =>
      rw [lexemes, if_neg h1, if_neg h2, if_pos rfl, List.mem_cons] at h
      exact ih (h.resolve_left nofun)
  | case5 f h1 h2 h3 ih =>
      rw [lexemes, if_neg h1, if_neg h2, if_neg h3, if_pos rfl] at h
      exact ih h
  | case6 c f h1 h2 h3 h4 h5 ih =>
      rw [lexemes, if_neg h1, if_neg h2, if_neg h3, if_neg h4, if_pos h5] at h
      exact ih h
  | case7 c f h1 h2 h3 h4 h5 ih =>
      rw [lexemes, if_neg h1, if_neg h2, if_neg h3, if_neg h4, if_neg h5, List.mem_cons] at h
      rcases h with h | h
      · exact ⟨c, _, Lexeme.atom.inj h, Bool.eq_false_iff.mpr h5⟩
      · exact ih h

theorem good_token_object_iff : Good (fun a => token_object a = atom_object a) (to_read stop f) ↔
    Good Plain (to_read stop f) := by
  refine forall_congr' fun a => ⟨fun h ha => ?_, fun h ha => ?_⟩
  all_goals
    have hmem : .atom a ∈ lexemes f := by
      unfold to_read at ha
      split_ifs at ha
      · exact (first_line_sublist _ _).subset ha
      · exact ha
    obtain ⟨c, s, rfl, hc⟩ := lexemes_atom hmem
  · exact (token_object_eq_iff hc).mp (h ha)
  · exact (token_object_eq_iff hc).mpr (h ha)

end

/-- What a call reads. -/
theorem parse_reaches (garbage : ℕ → DuObject) (stop : Bool) (f : List UInt8) :
    Reaches 0 stop f [.symbol progn] (_Du_Parse garbage f 0 stop) := by
  have hloop := parse_loop_reaches garbage (2 * f.length + 1) f 0 stop
    (_list_append garbage DuList_New (DuSymbol_FromString progn)) (fun _ => rfl) le_rfl
  rw [_list_append_items] at hloop
  exact hloop

theorem ParsesRight.of_fatal {garbage : ℕ → DuObject} {stop : Bool} {f : List UInt8} {msg : String}
    (h : _Du_Parse garbage f 0 stop = .error (.fatal_error msg)) (hb : ¬ Balanced (to_read stop f)) :
    ParsesRight garbage stop f where
  fatal_error := ⟨fun _ => hb, fun _ => ⟨msg, h⟩⟩
  returns := fun h => absurd h hb
  no_overflow := by
    rw [h]
    nofun

/-- The reader does what it is for exactly if the file is readable. -/
theorem parses_right_iff (garbage : ℕ → DuObject) (stop : Bool) (f : List UInt8) :
    ParsesRight garbage stop f ↔ Readable stop f := by
  obtain ⟨e, he, hreturns⟩ := parse_reaches garbage stop f
  generalize hparse : _Du_Parse garbage f 0 stop = r at hreturns
  cases hreturns with
  | fatal_eof ts hlevel => exact absurd hlevel (lt_irrefl 0)
  | closed ts f' hlevel => exact absurd hlevel (lt_irrefl 0)
  | fatal_closed ts rest =>
      have hb := he.not_balanced_closed
      refine ⟨fun _ => ⟨he.good_closed, fun h => absurd h hb, fun h => absurd h hb⟩, fun _ => ?_⟩
      exact .of_fatal hparse hb
  | unclosed =>
      have hb := he.not_balanced_unclosed
      have hself := he.before_excess_self rfl 0
      refine ⟨fun _ => ⟨?_, fun h => absurd h hb, fun h => absurd h hb⟩, fun _ => .of_fatal hparse hb⟩
      rw [hself.1]
      exact hself.2
  | refused =>
      constructor
      · exact fun h => absurd hparse h.no_overflow
      · exact fun h => absurd h.fits (he.refused_mem rfl 0)
  | null ts _ hstop hnone =>
      have hb := he.eof_reads.1.balanced
      constructor
      · intro h
        obtain ⟨ts', f', -, hret, -⟩ := h.returns hb
        rw [hparse] at hret
        cases hret
      · exact fun h => absurd hnone (h.newline hb hstop)
  | eof ts f' _ hrest hline =>
      obtain ⟨hr, hg⟩ := he.eof_reads
      have hb := hr.balanced
      have hplain := @good_token_object_iff stop f
      rw [← term_objects_eq_iff hr] at hplain
      constructor
      · intro h
        obtain ⟨ts', f'', hr', hret, -⟩ := h.returns hb
        rw [hparse, hr'.unique hr, Except.ok.injEq, Prod.mk.injEq, list_object_inj] at hret
        refine ⟨?_, fun _ => hplain.mp (List.cons.inj hret.1).2, fun _ => hline⟩
        rw [hr.before_excess_self]
        exact hg
      · intro h
        have hsame := hplain.mpr (h.plain hb)
        refine ⟨?_, fun _ => ⟨ts, f', hr, ?_, hrest⟩, ?_⟩
        · rw [hparse]
          exact ⟨nofun, fun hnot => absurd hb hnot⟩
        · rw [hparse, hsame]
          rfl
        · rw [hparse]
          nofun

/-- A symbol of 201 letters is written behind the end of the buffer. -/
theorem not_parses_right_long : ¬ ParsesRight (fun _ => .NULL) false (List.replicate 201 (byte 'a')) := by
  have hlong : (match _Du_Parse (fun _ => .NULL) (List.replicate 201 (byte 'a')) 0 false with
      | .error .overflow => true
      | _ => false) = true := by decide +kernel
  intro h
  split at hlong
  · rename_i heq
    exact h.no_overflow heq
  · cases hlong

end Compile

end Stmgc.Duhton
