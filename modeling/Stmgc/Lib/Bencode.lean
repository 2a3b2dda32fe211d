/-
The bittorrent format for integers, strings of bytes and lists: writing,
reading, and the streams of tokens that a writer without a stack produces.

A stream of tokens is [`Balanced`] when its list markers are. Such a stream is
the one of some list of values ([`Balanced.exists_values`]), and what a writer
puts out for it, one token after the other, is what [`encode`] gives for these
values ([`flatMap_text_tokensAll`]).
-/
import Mathlib.Data.Nat.Digits.Lemmas

namespace Stmgc.Lib

inductive Bencode where
  | int (n : ℤ)
  | bytes (s : List UInt8)
  | list (items : List Bencode)

namespace Bencode

/-! ## Writing -/

def char (c : Char) : UInt8 := c.toNat.toUInt8

def digit (d : ℕ) : UInt8 := (48 + d).toUInt8

def decimal (n : ℕ) : List UInt8 :=
  if n = 0 then [digit 0] else (Nat.digits 10 n).reverse.map digit

def integer (n : ℤ) : List UInt8 :=
  if n < 0 then char '-' :: decimal n.natAbs else decimal n.natAbs

mutual

def encode : Bencode → List UInt8
  | .int n => char 'i' :: (integer n ++ [char 'e'])
  | .bytes s => decimal s.length ++ char ':' :: s
  | .list items => char 'l' :: (encodeAll items ++ [char 'e'])

def encodeAll : List Bencode → List UInt8
  | [] => []
  | v :: vs => encode v ++ encodeAll vs

end

/-! ## Reading -/

def isDigit (c : UInt8) : Bool := 48 ≤ c.toNat && c.toNat ≤ 57

def value (digits : List UInt8) : ℕ :=
  Nat.ofDigits 10 (digits.reverse.map fun c => c.toNat - 48)

/-- A number without leading zeros. -/
def readNat (s : List UInt8) : Option (ℕ × List UInt8) :=
  let digits := s.takeWhile isDigit
  if decimal (value digits) = digits then some (value digits, s.dropWhile isDigit) else none

def readInteger : List UInt8 → Option (ℤ × List UInt8)
  | [] => none
  | c :: s =>
    if c = char '-' then do
      let (n, s) ← readNat s
      if n = 0 then none else return (-n, s)
    else do
      let (n, s) ← readNat (c :: s)
      return (n, s)

/-- The next byte has to be this one. -/
def readChar (c : Char) : List UInt8 → Option (List UInt8)
  | [] => none
  | c' :: s => if c' = char c then some s else none

mutual

def decode : ℕ → List UInt8 → Option (Bencode × List UInt8)
  | 0, _ => none
  | _ + 1, [] => none
  | fuel + 1, c :: s =>
    if c = char 'i' then do
      let (n, s) ← readInteger s
      let s ← readChar 'e' s
      return (.int n, s)
    else if c = char 'l' then do
      let (items, s) ← decodeAll fuel s
      return (.list items, s)
    else do
      let (n, s) ← readNat (c :: s)
      let s ← readChar ':' s
      if n ≤ s.length then some (.bytes (s.take n), s.drop n) else none

/-- The items of a list, and its end. -/
def decodeAll : ℕ → List UInt8 → Option (List Bencode × List UInt8)
  | 0, _ => none
  | _ + 1, [] => none
  | fuel + 1, c :: s =>
    if c = char 'e' then some ([], s)
    else do
      let (v, s) ← decode fuel (c :: s)
      let (vs, s) ← decodeAll fuel s
      return (v :: vs, s)

end

/-! ## Numbers -/

variable {n d : ℕ} {s rest : List UInt8} {v : Bencode} {vs : List Bencode}

theorem toNat_digit (hd : d < 10) : (digit d).toNat = 48 + d := by
  unfold digit
  rw [Nat.toUInt8, UInt8.toNat_ofNat']
  exact Nat.mod_eq_of_lt (by omega)

theorem isDigit_digit (hd : d < 10) : isDigit (digit d) = true := by
  unfold isDigit
  rw [toNat_digit hd, Bool.and_eq_true, decide_eq_true_eq, decide_eq_true_eq]
  omega

theorem digits_lt (hd : d ∈ Nat.digits 10 n) : d < 10 := Nat.digits_lt_base (by decide) hd

theorem isDigit_of_mem_decimal : ∀ c ∈ decimal n, isDigit c = true := by
  intro c hc
  unfold decimal at hc
  split_ifs at hc
  · rw [List.mem_singleton.mp hc]
    exact isDigit_digit (by decide)
  · obtain ⟨d, hd, rfl⟩ := List.mem_map.mp hc
    exact isDigit_digit (digits_lt (List.mem_reverse.mp hd))

theorem decimal_ne_nil : decimal n ≠ [] := by
  unfold decimal
  split_ifs with hzero
  · exact List.cons_ne_nil _ _
  · rw [ne_eq, List.map_eq_nil_iff, List.reverse_eq_nil_iff]
    exact Nat.digits_ne_nil_iff_ne_zero.mpr hzero

theorem value_decimal : value (decimal n) = n := by
  unfold value decimal
  split_ifs with hzero
  · rw [hzero]
    decide
  · have hmap : (Nat.digits 10 n).map ((fun c : UInt8 => c.toNat - 48) ∘ digit)
        = Nat.digits 10 n := by
      refine (List.map_congr_left fun d hd => ?_).trans (List.map_id _)
      rw [Function.comp_apply, toNat_digit (digits_lt hd), Nat.add_sub_cancel_left, id]
    rw [List.map_reverse, List.map_map, List.map_reverse, List.reverse_reverse, hmap,
      Nat.ofDigits_digits]

/-- A number is read up to the first byte that is not a digit. -/
theorem readNat_decimal (hrest : ∀ c ∈ rest.head?, isDigit c = false) :
    readNat (decimal n ++ rest) = some (n, rest) := by
  have htake : (decimal n ++ rest).takeWhile isDigit = decimal n := by
    rw [List.takeWhile_append_of_pos isDigit_of_mem_decimal]
    cases rest with
    | nil => exact List.append_nil _
    | cons c rest =>
        rw [List.takeWhile_cons_of_neg (by simp [hrest c rfl]), List.append_nil]
  have hdrop : (decimal n ++ rest).dropWhile isDigit = rest := by
    rw [List.dropWhile_append_of_pos isDigit_of_mem_decimal]
    cases rest with
    | nil => rfl
    | cons c rest => exact List.dropWhile_cons_of_neg (by simp [hrest c rfl])
  unfold readNat
  dsimp only
  rw [htake, hdrop, value_decimal, if_pos rfl]

theorem head_decimal : ∃ c digits, decimal n = c :: digits ∧ isDigit c = true := by
  cases h : decimal n with
  | nil => exact absurd h decimal_ne_nil
  | cons c digits =>
      exact ⟨c, digits, rfl, isDigit_of_mem_decimal c (h ▸ List.mem_cons_self)⟩

theorem readInteger_integer {n : ℤ} (hrest : ∀ c ∈ rest.head?, isDigit c = false) :
    readInteger (integer n ++ rest) = some (n, rest) := by
  unfold integer
  split_ifs with hneg
  · rw [List.cons_append, readInteger, if_pos rfl, readNat_decimal hrest]
    have hne : n.natAbs ≠ 0 := by omega
    dsimp only [bind, Option.bind]
    rw [if_neg hne]
    have habs : -(n.natAbs : ℤ) = n := by omega
    rw [habs]
    rfl
  · obtain ⟨c, digits, hdecimal, hc⟩ := @head_decimal n.natAbs
    have hminus : c ≠ char '-' := by
      rintro rfl
      revert hc
      decide
    have hread := @readNat_decimal n.natAbs rest hrest
    rw [hdecimal, List.cons_append] at hread ⊢
    rw [readInteger, if_neg hminus, hread]
    have habs : (n.natAbs : ℤ) = n := by omega
    dsimp only [bind, Option.bind]
    rw [habs]
    rfl

/-- How long a number gets. -/
theorem length_decimal_le {k : ℕ} (hk : 0 < k) (h : n < 10 ^ k) : (decimal n).length ≤ k := by
  unfold decimal
  split_ifs
  · exact hk
  · rw [List.length_map, List.length_reverse]
    exact (Nat.digits_length_le_iff (by decide) n).mpr h

theorem length_integer_le {n : ℤ} {k : ℕ} (hk : 0 < k) (h : n.natAbs < 10 ^ k) :
    (integer n).length ≤ k + 1 := by
  have hle := length_decimal_le hk h
  unfold integer
  split_ifs
  · exact Nat.succ_le_succ hle
  · exact Nat.le_succ_of_le hle

/-! ## Reading what was written -/

theorem readChar_char {c : Char} : readChar c (char c :: rest) = some rest := if_pos rfl

theorem not_digit_char {c : Char} (hc : isDigit (char c) = false) :
    ∀ c' ∈ (char c :: rest).head?, isDigit c' = false := by
  intro c' h
  rw [List.head?_cons, Option.mem_def, Option.some.injEq] at h
  rwa [← h]

theorem head_encode : ∀ v : Bencode, ∃ c s, encode v = c :: s ∧ c ≠ char 'e'
  | .int n => ⟨_, _, rfl, by decide⟩
  | .bytes s => by
      obtain ⟨c, digits, hdecimal, hc⟩ := @head_decimal s.length
      refine ⟨c, digits ++ char ':' :: s, ?_, ?_⟩
      · rw [encode, hdecimal]
        rfl
      · rintro rfl
        revert hc
        decide
  | .list items => ⟨_, _, rfl, by decide⟩

mutual

theorem decode_encode : ∀ (v : Bencode) {fuel : ℕ} {rest : List UInt8},
    (encode v).length ≤ fuel → decode fuel (encode v ++ rest) = some (v, rest)
  | .int n, 0, rest, h => nomatch h
  | .int n, fuel + 1, rest, _ => by
      rw [encode, List.cons_append, decode, if_pos rfl, List.append_assoc, List.singleton_append,
        readInteger_integer (not_digit_char (by decide))]
      dsimp only [bind, Option.bind]
      rw [readChar_char]
      rfl
  | .bytes s, fuel, rest, h => by
      obtain ⟨c, digits, hdecimal, hc⟩ := @head_decimal s.length
      have hread := @readNat_decimal s.length (char ':' :: (s ++ rest))
        (not_digit_char (by decide))
      obtain ⟨fuel, rfl⟩ : ∃ m, fuel = m + 1 := by
        refine ⟨fuel - 1, ?_⟩
        rw [encode, hdecimal, List.cons_append, List.length_cons] at h
        omega
      have hi : c ≠ char 'i' := by
        rintro rfl
        revert hc
        decide
      have hl : c ≠ char 'l' := by
        rintro rfl
        revert hc
        decide
      rw [encode, List.append_assoc, List.cons_append]
      rw [hdecimal, List.cons_append] at hread ⊢
      rw [decode, if_neg hi, if_neg hl, hread]
      dsimp only [bind, Option.bind]
      rw [readChar_char]
      dsimp only
      rw [if_pos (by rw [List.length_append]; omega), List.take_left, List.drop_left]
  | .list items, 0, rest, h => nomatch h
  | .list items, fuel + 1, rest, h => by
      rw [encode, List.length_cons, List.length_append, List.length_singleton] at h
      have hne : char 'l' ≠ char 'i' := by decide
      rw [encode, List.cons_append, decode, if_neg hne, if_pos rfl, List.append_assoc,
        List.singleton_append, decodeAll_encodeAll items (by omega)]
      rfl

theorem decodeAll_encodeAll : ∀ (vs : List Bencode) {fuel : ℕ} {rest : List UInt8},
    (encodeAll vs).length + 1 ≤ fuel →
    decodeAll fuel (encodeAll vs ++ char 'e' :: rest) = some (vs, rest)
  | _, 0, rest, h => nomatch h
  | [], fuel + 1, rest, _ => by
      rw [encodeAll, List.nil_append, decodeAll, if_pos rfl]
  | v :: vs, fuel + 1, rest, h => by
      obtain ⟨c, s, hv, hc⟩ := head_encode v
      rw [encodeAll, List.length_append] at h
      have hlen : 1 ≤ (encode v).length := by
        rw [hv]
        exact Nat.succ_pos _
      have hread := @decode_encode v fuel (encodeAll vs ++ char 'e' :: rest) (by omega)
      rw [encodeAll, List.append_assoc]
      rw [hv, List.cons_append] at hread ⊢
      rw [decodeAll, if_neg hc, hread]
      dsimp only [bind, Option.bind]
      rw [decodeAll_encodeAll vs (by omega)]
      rfl

end

/-! ## Streams of tokens -/

inductive Token where
  | start
  | stop
  | item (v : Bencode)

def Token.text : Token → List UInt8
  | .start => [char 'l']
  | .stop => [char 'e']
  | .item v => encode v

mutual

def tokens : Bencode → List Token
  | .int n => [.item (.int n)]
  | .bytes s => [.item (.bytes s)]
  | .list items => .start :: (tokensAll items ++ [.stop])

def tokensAll : List Bencode → List Token
  | [] => []
  | v :: vs => tokens v ++ tokensAll vs

end

mutual

theorem flatMap_text_tokens : ∀ v : Bencode, (tokens v).flatMap Token.text = encode v
  | .int n => List.append_nil _
  | .bytes s => List.append_nil _
  | .list items => by
      rw [tokens, List.flatMap_cons, List.flatMap_append, flatMap_text_tokensAll items, encode]
      rfl

theorem flatMap_text_tokensAll :
    ∀ vs : List Bencode, (tokensAll vs).flatMap Token.text = encodeAll vs
  | [] => rfl
  | v :: vs => by
      rw [tokensAll, List.flatMap_append, flatMap_text_tokens v, flatMap_text_tokensAll vs,
        encodeAll]

end

/-- How many lists are open behind the tokens, if never too many are closed. -/
def depth : ℕ → List Token → Option ℕ
  | d, [] => some d
  | d, .start :: ts => depth (d + 1) ts
  | 0, .stop :: _ => none
  | d + 1, .stop :: ts => depth d ts
  | d, .item _ :: ts => depth d ts

/-- Every list that is opened is closed. -/
def Balanced (ts : List Token) : Prop := depth 0 ts = some 0

/-- Values between the ends of the lists that are open. -/
def closing : List Bencode → List (List Bencode) → List Token
  | vs, [] => tokensAll vs
  | vs, more :: outer => tokensAll vs ++ .stop :: closing more outer

theorem closing_cons : ∀ {outer : List (List Bencode)},
    closing (v :: vs) outer = tokens v ++ closing vs outer
  | [] => rfl
  | more :: outer => by
      rw [closing, closing, tokensAll, List.append_assoc]

/-- Tokens that close the lists which are open. The induction is on the
tokens, from the back. -/
theorem exists_closing : ∀ {ts : List Token} {d : ℕ}, depth d ts = some 0 →
    (∀ v, .item v ∈ ts → tokens v = [.item v]) →
    ∃ vs outer, ts = closing vs outer ∧ outer.length = d
  | [], d, h, _ => ⟨[], [], rfl, (Option.some.inj h).symm⟩
  | .item v :: ts, d, h, hitems => by
      rw [depth] at h
      obtain ⟨vs, outer, hts, hlen⟩ := exists_closing h fun v hv =>
        hitems v (List.mem_cons_of_mem _ hv)
      refine ⟨v :: vs, outer, ?_, hlen⟩
      rw [closing_cons, hitems v List.mem_cons_self, hts]
      rfl
  | .start :: ts, d, h, hitems => by
      rw [depth] at h
      obtain ⟨vs, outer, hts, hlen⟩ := exists_closing h fun v hv =>
        hitems v (List.mem_cons_of_mem _ hv)
      cases outer with
      | nil => cases hlen
      | cons more outer =>
          -- the list that starts here is the first one that is closed
          refine ⟨.list vs :: more, outer, ?_, Nat.succ.inj hlen⟩
          rw [closing_cons, tokens, hts, closing, List.cons_append, List.append_assoc]
          rfl
  | .stop :: ts, 0, h, _ => nomatch h
  | .stop :: ts, d + 1, h, hitems => by
      rw [depth] at h
      obtain ⟨vs, outer, hts, hlen⟩ := exists_closing h fun v hv =>
        hitems v (List.mem_cons_of_mem _ hv)
      exact ⟨[], vs :: outer, by rw [hts]; rfl, congrArg (· + 1) hlen⟩

/-- A balanced stream is the one of a list of values. -/
theorem Balanced.exists_values {ts : List Token} (h : Balanced ts)
    (hitems : ∀ v, .item v ∈ ts → tokens v = [.item v]) : ∃ vs, tokensAll vs = ts := by
  obtain ⟨vs, outer, hts, hlen⟩ := exists_closing h hitems
  rw [List.length_eq_zero_iff.mp hlen] at hts
  exact ⟨vs, hts.symm⟩

end Bencode

end Stmgc.Lib
