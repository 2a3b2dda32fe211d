/-
The reader of duhton (`compile.c`), and the lists that it fills
(`listobject.c`).

A file is the list of its bytes that are left to read. Integers, symbols and
pairs do not change once they are there, so a pointer to one is its value here.
A symbol is its name, because `DuSymbol_FromString` gives one object for it.

Tokens go to a buffer of 201 bytes, and a write behind its end is an error
here, like `Du_FatalError`.
-/
import Stmgc.Lib.Sexp

namespace Stmgc.Duhton

open Stmgc.Lib Stmgc.Lib.Sexp

namespace Compile

/-! ## Objects -/

inductive DuObject where
  | NULL
  | Du_None
  | int (ob_intval : ℤ)
  | symbol (name : List UInt8)
  | cons (car cdr : DuObject)

structure DuTuple where
  ob_count : ℕ
  ob_capacity : ℕ
  ob_items : ℕ → DuObject

structure DuList where
  ob_tuple : DuTuple

/-- Why the reader does not return. -/
inductive Stop where
  | fatal_error (msg : String)
  /-- a write behind the end of `token` -/
  | overflow
  | out_of_fuel

def DuInt_FromInt (value : ℤ) : DuObject := .int value

def DuSymbol_FromString (name : List UInt8) : DuObject := .symbol name

def DuCons_New (car cdr : DuObject) : DuObject := .cons car cdr

/-! ## `listobject.c` -/

def du_empty_tuple : DuTuple where
  ob_count := 0
  ob_capacity := 0
  ob_items := fun _ => .NULL

def DuList_New : DuList := ⟨du_empty_tuple⟩

/-- New memory holds anything. -/
def DuTuple_New (garbage : ℕ → DuObject) (length : ℕ) : DuTuple where
  ob_count := length
  ob_capacity := length
  ob_items := garbage

def overallocated_size (size : ℕ) : ℕ := size + size / 2 ^ 3 + if size < 9 then 3 else 6

def _list_append (garbage : ℕ → DuObject) (ob : DuList) (x : DuObject) : DuList :=
  let olditems := ob.ob_tuple
  let newcount := olditems.ob_count + 1
  if newcount ≤ olditems.ob_capacity then
    ⟨{ olditems with
      ob_items := Function.update olditems.ob_items (newcount - 1) x
      ob_count := newcount }⟩
  else
    -- allocate new one
    let newitems := { DuTuple_New garbage (overallocated_size newcount) with ob_count := newcount }
    let ob_items := (List.range' 0 (newcount - 1)).foldl (fun ob_items i =>
      Function.update ob_items i (olditems.ob_items i)) newitems.ob_items
    ⟨{ newitems with ob_items := Function.update ob_items (newcount - 1) x }⟩

def list_length (ob : DuList) : ℕ := ob.ob_tuple.ob_count

def _list_getitem (ob : DuList) (index : ℕ) : Except Stop DuObject :=
  if index ≥ ob.ob_tuple.ob_count then .error (.fatal_error "list_get: index out of range")
  else .ok (ob.ob_tuple.ob_items index)

/-! ## `strtol` -/

def byte (c : Char) : UInt8 := c.toUInt8

def isspace (c : UInt8) : Bool := c = byte ' ' ∨ 9 ≤ c ∧ c ≤ 13

/-- What a digit stands for, in any base up to 36. -/
def digit_value (c : UInt8) : Option ℕ :=
  if byte '0' ≤ c ∧ c ≤ byte '9' then some (c.toNat - 48)
  else if byte 'a' ≤ c ∧ c ≤ byte 'z' then some (c.toNat - 97 + 10)
  else if byte 'A' ≤ c ∧ c ≤ byte 'Z' then some (c.toNat - 65 + 10)
  else none

def is_digit (base : ℕ) (c : UInt8) : Bool := (digit_value c).any (· < base)

def digits_value (base : ℕ) (digits : List UInt8) : ℕ :=
  digits.foldl (fun n c => n * base + (digit_value c).getD 0) 0

def is_x (c : UInt8) : Bool := c = byte 'x' ∨ c = byte 'X'

/-- The base that the first digits say, and the digits in it. -/
def base_of : List UInt8 → ℕ × List UInt8
  | [] => (10, [])
  | [c] => (if c = byte '0' then 8 else 10, [c])
  | [c, x] => (if c = byte '0' then 8 else 10, [c, x])
  | c :: x :: d :: s =>
    if c = byte '0' then
      if is_x x = true ∧ is_digit 16 d = true then (16, d :: s) else (8, c :: x :: d :: s)
    else (10, c :: x :: d :: s)

/-- A sign, and what follows. -/
def sign_of : List UInt8 → Bool × List UInt8
  | [] => (false, [])
  | c :: s => if c = byte '-' then (true, s) else if c = byte '+' then (false, s) else (false, c :: s)

def signed (negative : Bool) (n : ℕ) : ℤ := if negative = true then -n else n

def LONG_MIN : ℤ := -2 ^ 63
def LONG_MAX : ℤ := 2 ^ 63 - 1

/-- `strtol(nptr, &end, 0)`, with the bytes from `end` on. -/
def strtol (nptr : List UInt8) : ℤ × List UInt8 :=
  let (negative, s) := sign_of (nptr.dropWhile isspace)
  let (base, s) := base_of s
  let digits := s.takeWhile (is_digit base)
  if digits = [] then (0, nptr)
  else (max LONG_MIN (min LONG_MAX (signed negative (digits_value base digits))),
    s.dropWhile (is_digit base))

/-- A `long` as an `int`. -/
def to_int (n : ℤ) : ℤ := Int.bmod n (2 ^ 32)

/-! ## `compile.c` -/

/-- `EOF` is `none`. -/
def fgetc : List UInt8 → Option UInt8 × List UInt8
  | [] => (none, [])
  | c :: f => (some c, f)

def TOKEN_SIZE : ℕ := 201

/-- `*p = c`, where `p` is behind the bytes that the token has. -/
def put (token : List UInt8) (c : UInt8) : Except Stop (List UInt8) :=
  if token.length < TOKEN_SIZE then .ok (token ++ [c]) else .error .overflow

def ends_token (c : UInt8) : Bool := isspace c ∨ c = byte '(' ∨ c = byte ')'

/-- The loop that reads a token, with the `'\0'` behind it. It returns the token
and the byte after it. -/
def read_token (token : List UInt8) (c : UInt8) :
    List UInt8 → Except Stop (List UInt8 × Option UInt8 × List UInt8)
  | [] => do
    let token ← put token c
    let _ ← put token 0
    return (token, none, [])
  | c' :: f => do
    let token ← put token c
    if ends_token c' = true then
      let _ ← put token 0
      return (token, some c', f)
    else read_token token c' f

/-- A string ends at its first `'\0'`. -/
def c_string (token : List UInt8) : List UInt8 := token.takeWhile (· ≠ 0)

def token_object (token : List UInt8) : DuObject :=
  let (number, rest) := strtol (c_string token)
  if rest = [] then DuInt_FromInt (to_int number) else DuSymbol_FromString (c_string token)

/-- `while (c != '\n' && c != EOF)` -/
def skip_comment : List UInt8 → Option UInt8 × List UInt8
  | [] => (none, [])
  | c :: f => if c = byte '\n' then (some c, f) else skip_comment f

/-- The loop that follows `done`, from the last item to the first. -/
def make_cons (list : DuList) : ℕ → DuObject → Except Stop DuObject
  | 0, cons => .ok cons
  | i + 1, cons => do
    let item ← _list_getitem list i
    make_cons list i (DuCons_New item cons)

def done (list : DuList) (f : List UInt8) : Except Stop (DuObject × List UInt8) := do
  let cons ← make_cons list (list_length list) .Du_None
  return (cons, f)

def progn : List UInt8 := [byte 'p', byte 'r', byte 'o', byte 'g', byte 'n']

section

variable (garbage : ℕ → DuObject)

mutual

/-- The reader, from one parenthesis to the other or at level 0. It returns the
list that it has read and what is left of the file. -/
def parse : ℕ → List UInt8 → ℕ → Bool → Except Stop (DuObject × List UInt8)
  | 0, _, _, _ => .error .out_of_fuel
  | fuel + 1, f, level, stop_after_newline =>
    let list := DuList_New
    let list := if level = 0 then _list_append garbage list (DuSymbol_FromString progn) else list
    let (c, f) := fgetc f
    parse_loop fuel c f level stop_after_newline list

def parse_loop : ℕ → Option UInt8 → List UInt8 → ℕ → Bool → DuList →
    Except Stop (DuObject × List UInt8)
  | 0, _, _, _, _, _ => .error .out_of_fuel
  | fuel + 1, c, f, level, stop_after_newline, list =>
    match c with
    | none =>
      if level > 0 then .error (.fatal_error "more '(' than ')'")
      else if stop_after_newline = true then .ok (.NULL, f)
      else done list f
    | some c =>
      if c = byte '(' then do
        let (item, f) ← parse fuel f (level + 1) false
        let (c, f) := fgetc f
        parse_loop fuel c f level stop_after_newline (_list_append garbage list item)
      else if c = byte ')' then
        if level = 0 then .error (.fatal_error "more ')' than '('") else done list f
      else if c = byte '\n' then
        if stop_after_newline = true then done list f
        else
          let (c, f) := fgetc f
          parse_loop fuel c f level stop_after_newline list
      else if c = byte ';' then
        let (c, f) := skip_comment f
        parse_loop fuel c f level stop_after_newline list
      else if isspace c = true then
        let (c, f) := fgetc f
        parse_loop fuel c f level stop_after_newline list
      else do
        let (token, c, f) ← read_token [] c f
        parse_loop fuel c f level stop_after_newline (_list_append garbage list (token_object token))

end

def _Du_Parse (f : List UInt8) (level : ℕ) (stop_after_newline : Bool) :
    Except Stop (DuObject × List UInt8) :=
  parse garbage (2 * f.length + 2) f level stop_after_newline

end

/-! ## What the reader is for -/

/-- Parentheses, newlines and tokens. A comment begins where a token could. -/
def lexemes : List UInt8 → List (Lexeme (List UInt8))
  | [] => []
  | c :: f =>
    if c = byte '(' then .left :: lexemes f
    else if c = byte ')' then .right :: lexemes f
    else if c = byte '\n' then .newline :: lexemes f
    else if c = byte ';' then lexemes (f.dropWhile (· ≠ byte '\n'))
    else if isspace c = true then lexemes f
    else .atom (c :: f.takeWhile (! ends_token ·)) :: lexemes (f.dropWhile (! ends_token ·))
termination_by f => f.length
decreasing_by
  all_goals simp only [List.length_cons]
  all_goals have := (List.dropWhile_sublist (l := f) (· ≠ byte '\n')).length_le
  all_goals have := (List.dropWhile_sublist (l := f) (! ends_token ·)).length_le
  all_goals omega

/-- The number that one or more digits are. -/
def of_digits (base : ℕ) (digits : List UInt8) : Option ℕ :=
  if digits ≠ [] ∧ digits.all (is_digit base) = true then some (digits_value base digits) else none

/-- Hexadecimal digits after `0x`, octal digits after `0`, or decimal digits. -/
def magnitude : List UInt8 → Option ℕ
  | [] => none
  | [c] => of_digits 10 [c]
  | c :: x :: digits =>
    if c = byte '0' then
      if is_x x = true then of_digits 16 digits else of_digits 8 (x :: digits)
    else of_digits 10 (c :: x :: digits)

/-- The number that a token is, if it is one. -/
def numeral (token : List UInt8) : Option ℤ :=
  let (negative, s) := sign_of token
  (magnitude s).map (signed negative)

/-- What a token stands for, whatever its length. -/
def atom_object (token : List UInt8) : DuObject :=
  match numeral token with
  | some n => .int n
  | none => .symbol token

def list_object (items : List DuObject) : DuObject := items.foldr .cons .Du_None

mutual

/-- The object of a term, if `val` gives the objects of the tokens. -/
def term_object (val : List UInt8 → DuObject) : Term (List UInt8) → DuObject
  | .atom a => val a
  | .list l => list_object (term_objects val l)

def term_objects (val : List UInt8 → DuObject) : List (Term (List UInt8)) → List DuObject
  | [] => []
  | t :: ts => term_object val t :: term_objects val ts

end

/-- The lexemes that a call reads: the whole file, or a line. -/
def to_read (stop_after_newline : Bool) (f : List UInt8) : List (Lexeme (List UInt8)) :=
  if stop_after_newline = true then first_line 0 (lexemes f) else lexemes f

/-- What a call leaves: nothing, or the other lines. -/
def to_leave (stop_after_newline : Bool) (f : List UInt8) : List (Lexeme (List UInt8)) :=
  if stop_after_newline = true then (other_lines 0 (lexemes f)).getD [] else []

/-- The reader fails exactly if the parentheses are not balanced, and else returns
`progn` and the terms, in order and whole, and leaves the rest of the file. -/
structure ParsesRight (garbage : ℕ → DuObject) (stop_after_newline : Bool) (f : List UInt8) : Prop where
  fatal_error : (∃ msg, _Du_Parse garbage f 0 stop_after_newline = .error (.fatal_error msg)) ↔
    ¬ Balanced (to_read stop_after_newline f)
  returns : Balanced (to_read stop_after_newline f) → ∃ ts f', Reads (to_read stop_after_newline f) ts ∧
    _Du_Parse garbage f 0 stop_after_newline
      = .ok (list_object (.symbol progn :: term_objects atom_object ts), f') ∧
    lexemes f' = to_leave stop_after_newline f
  no_overflow : _Du_Parse garbage f 0 stop_after_newline ≠ .error .overflow

/-- The token has no `'\0'`, and no number that is not an `int`. -/
def Plain (token : List UInt8) : Prop :=
  0 ∉ token ∧ ∀ n, numeral token = some n → -2 ^ 31 ≤ n ∧ n < 2 ^ 31

/-- The token and its `'\0'` are not too long for the buffer. -/
def Fits (token : List UInt8) : Prop := token.length ≤ 200

/-- Tokens that are read are not too long. If the parentheses are balanced, each
token is plain, and a line ends with a newline. -/
structure Readable (stop_after_newline : Bool) (f : List UInt8) : Prop where
  fits : Good Fits (before_excess 0 (to_read stop_after_newline f))
  plain : Balanced (to_read stop_after_newline f) → Good Plain (to_read stop_after_newline f)
  newline : Balanced (to_read stop_after_newline f) → stop_after_newline = true →
    other_lines 0 (lexemes f) ≠ none

end Compile

end Stmgc.Duhton
