/-
The abort information of `extra.c`: what a transaction has pushed is packed
into words when it aborts, the collector visits these words, and they are
unpacked into a string in the bittorrent format.
-/
import Stmgc.Lib.Bencode
import Stmgc.Lib.Loop

namespace Stmgc.C4

open Stmgc.Lib Stmgc.Lib.Bencode

namespace AbortInfo

/-- A `long`, a `revision_t` or a pointer. -/
abbrev word : Type := BitVec 64

/-- What the functions read at one time, and the barriers. -/
structure Memory where
  long_at : word → word
  char_at : word → UInt8
  stm_read_barrier : word → word
  stm_repeat_read_barrier : word → word

structure tx_abort_info where
  signature_packed : ℕ
  elapsed_time : word
  abort_reason : BitVec 32
  active : BitVec 32
  atomic : word
  count_reads : word
  reads_size_limit_nonatomic : word
  words : List word

/-- What `longest_abort_info` points to. -/
inductive LongestAbortInfo where
  | null
  | packed (ai : tx_abort_info)
  | text (s : List UInt8)

structure tx_descriptor where
  /-- an object and what its `fieldoffsets` points to -/
  abortinfo : List (word × List word)
  active : BitVec 32
  atomic : word
  count_reads : word
  reads_size_limit_nonatomic : word
  public_descriptor_index : word
  longest_abort_info : LongestAbortInfo
  longest_abort_info_time : ℤ

def stm_abort_info_push (m : Memory) (d : tx_descriptor) (obj : word) (fieldoffsets : List word) :
    tx_descriptor :=
  let obj := m.stm_read_barrier obj
  { d with abortinfo := d.abortinfo ++ [(obj, fieldoffsets)] }

/-! ## Packing -/

/-- The words that are counted, and those that are written if there is an
output. -/
structure Words where
  num_words : ℕ
  output : Option (List word)

def WRITE_WORD (w : word) (o : Words) : Words where
  num_words := o.num_words + 1
  output := o.output.map (· ++ [w])

/-- The inner loop of `stm_decode_abort_info`. -/
def decode_fields (m : Memory) (object : word) : List word → Words → Option Words
  | [], _ => none
  | kind :: fieldoffsets, o =>
    if kind = 0 then some o
    else
      let o := WRITE_WORD kind o
      if kind.toInt < 0 then decode_fields m object fieldoffsets o
      else
        match fieldoffsets with
        | [] => none
        | offset :: fieldoffsets =>
          if kind = 1 ∨ kind = 2 then
            decode_fields m object fieldoffsets (WRITE_WORD (m.long_at (object + offset)) o)
          else if kind = 3 then
            let o := WRITE_WORD (m.long_at (object + offset)) o
            match fieldoffsets with
            | [] => none
            | offset :: fieldoffsets => decode_fields m object fieldoffsets (WRITE_WORD offset o)
          else none  -- corrupted abort log

def SIZEOF_TX_ABORT_INFO : ℕ := 56

def abort_info (d : tx_descriptor) (elapsed_time : word) (abort_reason : BitVec 32)
    (words : List word) : tx_abort_info where
  signature_packed := 127
  elapsed_time := elapsed_time
  abort_reason := abort_reason
  active := d.active
  atomic := d.atomic
  count_reads := d.count_reads
  reads_size_limit_nonatomic := d.reads_size_limit_nonatomic
  words := words

/-- `stm_decode_abort_info`, with or without an output. -/
def stm_decode_abort_info (m : Memory) (d : tx_descriptor) (elapsed_time : word)
    (abort_reason : BitVec 32) (output : Bool) : Option (ℕ × Option tx_abort_info) := do
  let o : Words := { num_words := 0, output := if output then some [] else none }
  let o ← d.abortinfo.foldlM (fun o (obj, fieldoffsets) =>
    decode_fields m (m.stm_repeat_read_barrier obj) fieldoffsets o) o
  let o := WRITE_WORD 0 o
  return (SIZEOF_TX_ABORT_INFO + (o.num_words - 1) * 8,
    o.output.map (abort_info d elapsed_time abort_reason))

/-! ## Unpacking -/

/-- The bytes that are counted, and those that are written if there is an
output. -/
structure Text where
  totalsize : ℕ
  output : Option (List UInt8)

def WRITE_BUF (p : List UInt8) (o : Text) : Text where
  totalsize := o.totalsize + p.length
  output := o.output.map (· ++ p)

def WRITE (c : Char) (o : Text) : Text := WRITE_BUF [char c] o

/-- A number between two letters, by way of the `buffer` of 32 bytes. -/
def sprintf (before : List UInt8) (number : List UInt8) (after : List UInt8) :
    Option (List UInt8) := do
  let s := before ++ number ++ after
  c_assert (s.length < 32)
  return s

def write_number (number : List UInt8) (o : Text) : Option Text := do
  let buffer ← sprintf [char 'i'] number [char 'e']
  return WRITE_BUF buffer o

/-- The bytes from an address on. -/
def chars (m : Memory) (p : word) (size : ℕ) : List UInt8 :=
  (List.range size).map fun k => m.char_at (p + BitVec.ofNat 64 k)

def write_string (m : Memory) (rps offset : word) (o : Text) : Option Text :=
  if rps ≠ 0 then do
    let rps := m.stm_read_barrier rps
    let rps_size := m.long_at (rps + offset)
    c_assert (0 ≤ rps_size.toInt)
    let buffer ← sprintf [] (integer rps_size.toInt) [char ':']
    return WRITE_BUF (chars m (rps + offset + 8) rps_size.toNat) (WRITE_BUF buffer o)
  else
    -- write NULL as an empty string, good enough for now
    some (WRITE_BUF [char '0', char ':'] o)

/-- The loop of `unpack_abort_info`. -/
def unpack_words (m : Memory) : List word → Text → Option Text
  | [], _ => none
  | kind :: src, o =>
    if kind = 0 then some o
    else if kind = -2 then unpack_words m src (WRITE 'l' o)
    else if kind = -1 then unpack_words m src (WRITE 'e' o)
    else
      match src with
      | [] => none
      | w :: src =>
        if kind = 1 then do
          let o ← write_number (integer w.toInt) o
          unpack_words m src o
        else if kind = 2 then do
          let o ← write_number (decimal w.toNat) o
          unpack_words m src o
        else if kind = 3 then
          match src with
          | [] => none
          | offset :: src => do
            let o ← write_string m w offset o
            unpack_words m src o
        else none  -- corrupted abort log

def unpack_abort_info (m : Memory) (d : tx_descriptor) (ai : tx_abort_info) (output : Bool) :
    Option Text := do
  let o : Text := { totalsize := 0, output := if output then some [] else none }
  let o := WRITE 'l' (WRITE 'l' o)
  let o ← write_number (integer ai.elapsed_time.toInt) o
  let o ← write_number (integer ai.abort_reason.toInt) o
  let o ← write_number (integer d.public_descriptor_index.toInt) o
  let o ← write_number (integer ai.atomic.toInt) o
  let o ← write_number (integer ai.active.toInt) o
  let o ← write_number (decimal ai.count_reads.toNat) o
  let o ← write_number (decimal ai.reads_size_limit_nonatomic.toNat) o
  let o := WRITE 'e' o
  let o ← unpack_words m ai.words o
  return WRITE_BUF [0] (WRITE 'e' o)

/-! ## Visiting -/

/-- The loop of `stm_visit_abort_info`: what the words become, and the
references that are visited. -/
def visit_words (visit : word → word) : List word → Option (List word × List word)
  | [] => none
  | kind :: src =>
    if kind = 0 then some ([kind], [])
    else if kind = 1 ∨ kind = 2 then
      match src with
      | [] => none
      | w :: src => do
        let (src, visited) ← visit_words visit src
        return (kind :: w :: src, visited)
    else if kind = 3 then
      match src with
      | [] => none
      | rps :: src =>
        match src with
        | [] => none
        | offset :: src => do
          let (src, visited) ← visit_words visit src
          return (kind :: visit rps :: offset :: src, rps :: visited)
    else do
      let (src, visited) ← visit_words visit src
      return (kind :: src, visited)

/-- `stm_visit_abort_info`, with the references that it has visited. -/
def stm_visit_abort_info (visit : word → word) (d : tx_descriptor) :
    Option (tx_descriptor × List word) := do
  let d' := { d with
    abortinfo := d.abortinfo.map fun (obj, fieldoffsets) => (visit obj, fieldoffsets) }
  let visited := d.abortinfo.map Prod.fst
  match d.longest_abort_info with
  | .packed ai =>
    if ai.signature_packed = 127 then do
      let (words, more) ← visit_words visit ai.words
      return ({ d' with longest_abort_info := .packed { ai with words := words } }, visited ++ more)
    else return (d', visited)
  | _ => return (d', visited)

/-! ## Fields and packed items -/

/-- What a descriptor may ask for. -/
inductive Field where
  | start
  | stop
  | signed (offset : word)
  | unsigned (offset : word)
  | string (offset len_offset : word)

def Field.layout : Field → List word
  | .start => [-2]
  | .stop => [-1]
  | .signed offset => [1, offset]
  | .unsigned offset => [2, offset]
  | .string offset len_offset => [3, offset, len_offset]

/-- The `long fieldoffsets[]` of a descriptor. -/
def fieldoffsets (fields : List Field) : List word := fields.flatMap Field.layout ++ [0]

/-- The items between two words 0. -/
inductive Packed where
  | start
  | stop
  | signed (w : word)
  | unsigned (w : word)
  | string (rps offset : word)

def Packed.layout : Packed → List word
  | .start => [-2]
  | .stop => [-1]
  | .signed w => [1, w]
  | .unsigned w => [2, w]
  | .string rps offset => [3, rps, offset]

/-- The words of a `struct tx_abort_info`. -/
def packedWords (items : List Packed) : List word := items.flatMap Packed.layout ++ [0]

/-- What is packed for a field of an object. -/
def Field.packed (m : Memory) (object : word) : Field → Packed
  | .start => .start
  | .stop => .stop
  | .signed offset => .signed (m.long_at (object + offset))
  | .unsigned offset => .unsigned (m.long_at (object + offset))
  | .string offset len_offset => .string (m.long_at (object + offset)) len_offset

def Packed.references : Packed → List word
  | .string rps _ => [rps]
  | _ => []

/-- The item after its reference is visited. -/
def Packed.visited (visit : word → word) : Packed → Packed
  | .string rps offset => .string (visit rps) offset
  | item => item

variable {m : Memory} {object : word} {fields : List Field} {items : List Packed}

def Words.write (o : Words) (words : List word) : Words where
  num_words := o.num_words + words.length
  output := o.output.map (· ++ words)

theorem write_word_eq {w : word} {o : Words} : WRITE_WORD w o = o.write [w] := rfl

theorem Words.write_write {o : Words} {ws ws' : List word} :
    (o.write ws).write ws' = o.write (ws ++ ws') := by
  unfold Words.write
  rw [List.length_append, Nat.add_assoc, Option.map_map]
  simp only [Function.comp_def, List.append_assoc]

theorem Words.write_nil {o : Words} : o.write [] = o := by
  unfold Words.write
  simp only [List.append_nil, Option.map_id_fun', id, List.length_nil, Nat.add_zero]

/-- The inner loop packs the fields one after the other. -/
theorem decode_fields_eq : ∀ {fields : List Field} {o : Words},
    decode_fields m object (fieldoffsets fields) o
      = some (o.write ((fields.map (Field.packed m object)).flatMap Packed.layout))
  | [], o => by
      unfold fieldoffsets
      rw [List.flatMap_nil, List.nil_append, decode_fields, if_pos rfl, List.map_nil,
        List.flatMap_nil, Words.write_nil]
  | field :: fields, o => by
      have ih := fun o : Words => @decode_fields_eq fields o
      have hcons : fieldoffsets (field :: fields) = field.layout ++ fieldoffsets fields := by
        unfold fieldoffsets
        rw [List.flatMap_cons, List.append_assoc]
      rw [hcons, List.map_cons, List.flatMap_cons]
      cases field with
      | start =>
          rw [Field.layout, List.singleton_append, decode_fields, if_neg (by decide)]
          dsimp only
          rw [if_pos (by decide), ih, write_word_eq, Words.write_write]
          rfl
      | stop =>
          rw [Field.layout, List.singleton_append, decode_fields, if_neg (by decide)]
          dsimp only
          rw [if_pos (by decide), ih, write_word_eq, Words.write_write]
          rfl
      | signed offset =>
          rw [Field.layout, List.cons_append, List.singleton_append, decode_fields,
            if_neg (by decide)]
          dsimp only
          rw [if_neg (by decide), if_pos (by decide), ih, write_word_eq, write_word_eq,
            Words.write_write, Words.write_write]
          rfl
      | unsigned offset =>
          rw [Field.layout, List.cons_append, List.singleton_append, decode_fields,
            if_neg (by decide)]
          dsimp only
          rw [if_neg (by decide), if_pos (by decide), ih, write_word_eq, write_word_eq,
            Words.write_write, Words.write_write]
          rfl
      | string offset len_offset =>
          rw [Field.layout, List.cons_append, List.cons_append, List.singleton_append,
            decode_fields, if_neg (by decide)]
          dsimp only
          rw [if_neg (by decide), if_neg (by decide), if_pos rfl, ih, write_word_eq,
            write_word_eq, write_word_eq, Words.write_write, Words.write_write,
            Words.write_write]
          rfl

/-- The loop of the visitor finds the references, whatever the words between
them are. -/
theorem visit_words_eq {visit : word → word} : ∀ {items : List Packed},
    visit_words visit (packedWords items)
      = some (packedWords (items.map (Packed.visited visit)), items.flatMap Packed.references)
  | [] => by
      unfold packedWords
      rw [List.flatMap_nil, List.nil_append, visit_words, if_pos rfl]
      rfl
  | item :: items => by
      have ih := @visit_words_eq visit items
      have hcons : ∀ (item : Packed) (items : List Packed),
          packedWords (item :: items) = item.layout ++ packedWords items := fun item items => by
        unfold packedWords
        rw [List.flatMap_cons, List.append_assoc]
      rw [hcons, List.map_cons, hcons, List.flatMap_cons]
      cases item with
      | start =>
          rw [Packed.layout, List.singleton_append, visit_words.eq_def]
          dsimp only
          rw [if_neg (by decide), if_neg (by decide), if_neg (by decide), ih]
          rfl
      | stop =>
          rw [Packed.layout, List.singleton_append, visit_words.eq_def]
          dsimp only
          rw [if_neg (by decide), if_neg (by decide), if_neg (by decide), ih]
          rfl
      | signed w =>
          rw [Packed.layout, List.cons_append, List.singleton_append, visit_words.eq_def]
          dsimp only
          rw [if_neg (by decide), if_pos (by decide), ih]
          rfl
      | unsigned w =>
          rw [Packed.layout, List.cons_append, List.singleton_append, visit_words.eq_def]
          dsimp only
          rw [if_neg (by decide), if_pos (by decide), ih]
          rfl
      | string rps offset =>
          rw [Packed.layout, List.cons_append, List.cons_append, List.singleton_append,
            visit_words.eq_def]
          dsimp only
          rw [if_neg (by decide), if_neg (by decide), if_pos rfl, ih]
          rfl

/-! ## What is written -/

def Text.write (o : Text) (s : List UInt8) : Text where
  totalsize := o.totalsize + s.length
  output := o.output.map (· ++ s)

theorem write_buf_eq {s : List UInt8} {o : Text} : WRITE_BUF s o = o.write s := rfl

theorem write_eq {c : Char} {o : Text} : WRITE c o = o.write [char c] := rfl

theorem Text.write_write {o : Text} {s s' : List UInt8} :
    (o.write s).write s' = o.write (s ++ s') := by
  unfold Text.write
  rw [List.length_append, Nat.add_assoc, Option.map_map]
  simp only [Function.comp_def, List.append_assoc]

theorem Text.write_nil {o : Text} : o.write [] = o := by
  unfold Text.write
  simp only [List.append_nil, Option.map_id_fun', id, List.length_nil, Nat.add_zero]

/-- The buffer is long enough for every number. -/
theorem write_number_eq {number : List UInt8} {o : Text} (h : number.length ≤ 20) :
    write_number number o = some (o.write (char 'i' :: (number ++ [char 'e']))) := by
  unfold write_number sprintf
  rw [Option.bind_eq_bind, Option.bind_eq_some_iff]
  refine ⟨_, c_assert_eq_some.mpr ⟨?_, rfl⟩, rfl⟩
  rw [List.length_append, List.length_append, List.length_singleton, List.length_singleton]
  omega

theorem length_integer_toInt {n : ℕ} (w : BitVec n) (hn : n ≤ 64) :
    (integer w.toInt).length ≤ 20 := by
  refine length_integer_le (by decide) ?_
  have hpow : 2 ^ n ≤ 2 ^ 64 := Nat.pow_le_pow_right (by decide) hn
  have hlt := @BitVec.two_mul_toInt_lt n w
  have hle := @BitVec.le_two_mul_toInt n w
  have hcast : (2 : ℤ) ^ n = ((2 ^ n : ℕ) : ℤ) := by
    push_cast
    rfl
  rw [hcast] at hlt hle
  omega

theorem length_decimal_toNat (w : word) : (decimal w.toNat).length ≤ 20 :=
  length_decimal_le (by decide) (Nat.lt_trans w.isLt (by decide))

/-- The bytes of the string that a reference leads to. NULL is the empty
string. -/
def Memory.string (m : Memory) (rps offset : word) : List UInt8 :=
  if rps ≠ 0 then
    chars m (m.stm_read_barrier rps + offset + 8)
      (m.long_at (m.stm_read_barrier rps + offset)).toNat
  else []

/-- The length that is stored in the string is not negative. -/
def Memory.IsString (m : Memory) (rps offset : word) : Prop :=
  rps ≠ 0 → 0 ≤ (m.long_at (m.stm_read_barrier rps + offset)).toInt

theorem write_string_eq {rps offset : word} {o : Text} (h : m.IsString rps offset) :
    write_string m rps offset o = some (o.write (encode (.bytes (m.string rps offset)))) := by
  unfold write_string Memory.string
  split_ifs with hnull
  · have hsize := h hnull
    have hinteger : integer (m.long_at (m.stm_read_barrier rps + offset)).toInt
        = decimal (m.long_at (m.stm_read_barrier rps + offset)).toNat := by
      rw [BitVec.toInt_eq_toNat_of_lt (BitVec.toInt_pos_iff.mp hsize)]
      exact if_neg (Int.not_lt.mpr (Int.natCast_nonneg _))
    have hlen := length_decimal_toNat (m.long_at (m.stm_read_barrier rps + offset))
    dsimp only
    rw [c_assert_eq_some]
    refine ⟨hsize, ?_⟩
    unfold sprintf
    rw [hinteger, Option.bind_eq_bind, Option.bind_eq_some_iff]
    refine ⟨_, c_assert_eq_some.mpr ⟨?_, rfl⟩, ?_⟩
    · rw [List.nil_append, List.length_append, List.length_singleton]
      omega
    · rw [write_buf_eq, write_buf_eq, Text.write_write, encode, chars, List.length_map,
        List.length_range, List.nil_append, List.append_assoc]
      rfl
  · rfl

def Packed.token (m : Memory) : Packed → Token
  | .start => .start
  | .stop => .stop
  | .signed w => .item (.int w.toInt)
  | .unsigned w => .item (.int w.toNat)
  | .string rps offset => .item (.bytes (m.string rps offset))

/-- The string that the item refers to can be read. -/
def Packed.Readable (m : Memory) : Packed → Prop
  | .string rps offset => m.IsString rps offset
  | _ => True

/-- The loop of `unpack_abort_info` writes one token after the other. -/
theorem unpack_words_eq : ∀ {items : List Packed} {o : Text}, (∀ item ∈ items, item.Readable m) →
    unpack_words m (packedWords items) o
      = some (o.write ((items.map (Packed.token m)).flatMap Token.text))
  | [], o, _ => by
      unfold packedWords
      rw [List.flatMap_nil, List.nil_append, unpack_words, if_pos rfl, List.map_nil,
        List.flatMap_nil, Text.write_nil]
  | item :: items, o, h => by
      rw [List.forall_mem_cons] at h
      have ih := fun o : Text => @unpack_words_eq items o h.2
      have hcons : packedWords (item :: items) = item.layout ++ packedWords items := by
        unfold packedWords
        rw [List.flatMap_cons, List.append_assoc]
      rw [hcons, List.map_cons, List.flatMap_cons, ← Text.write_write]
      cases item with
      | start =>
          rw [Packed.layout, List.singleton_append, unpack_words.eq_def]
          dsimp only
          rw [if_neg (by decide), if_pos rfl, ih]
          rfl
      | stop =>
          rw [Packed.layout, List.singleton_append, unpack_words.eq_def]
          dsimp only
          rw [if_neg (by decide), if_neg (by decide), if_pos rfl, ih]
          rfl
      | signed w =>
          rw [Packed.layout, List.cons_append, List.singleton_append, unpack_words.eq_def]
          dsimp only
          rw [if_neg (by decide), if_neg (by decide), if_neg (by decide), if_pos rfl,
            write_number_eq (length_integer_toInt w (Nat.le_refl _)), Option.bind_eq_bind,
            Option.bind_some, ih]
          rfl
      | unsigned w =>
          rw [Packed.layout, List.cons_append, List.singleton_append, unpack_words.eq_def]
          dsimp only
          rw [if_neg (by decide), if_neg (by decide), if_neg (by decide), if_neg (by decide),
            if_pos rfl, write_number_eq (length_decimal_toNat w), Option.bind_eq_bind,
            Option.bind_some, ih]
          have hinteger : integer (w.toNat : ℤ) = decimal w.toNat :=
            if_neg (Int.not_lt.mpr (Int.natCast_nonneg _))
          rw [Packed.token, Token.text, encode, hinteger]
      | string rps offset =>
          rw [Packed.layout, List.cons_append, List.cons_append, List.singleton_append,
            unpack_words.eq_def]
          dsimp only
          rw [if_neg (by decide), if_neg (by decide), if_neg (by decide), if_neg (by decide),
            if_neg (by decide), if_pos rfl, write_string_eq h.1, Option.bind_eq_bind,
            Option.bind_some, ih]
          rfl

/-- What `unpack_abort_info` writes in front of the values. -/
def header (d : tx_descriptor) (ai : tx_abort_info) : List Bencode :=
  [.int ai.elapsed_time.toInt, .int ai.abort_reason.toInt, .int d.public_descriptor_index.toInt,
    .int ai.atomic.toInt, .int ai.active.toInt, .int ai.count_reads.toNat,
    .int ai.reads_size_limit_nonatomic.toNat]

/-- The size-only pass and the writing pass. -/
theorem unpack_abort_info_eq {d : tx_descriptor} {ai : tx_abort_info} {values : List Bencode}
    {output : Bool} (hwords : ai.words = packedWords items)
    (hread : ∀ item ∈ items, item.Readable m)
    (hvalues : tokensAll values = items.map (Packed.token m)) :
    unpack_abort_info m d ai output = some (Text.write
      { totalsize := 0, output := if output then some [] else none }
      (encode (.list (.list (header d ai) :: values)) ++ [0])) := by
  have hsigned : ∀ {n : ℕ} (w : BitVec n) (o : Text), n ≤ 64 →
      write_number (integer w.toInt) o = some (o.write (encode (.int w.toInt))) :=
    fun w o hn => write_number_eq (length_integer_toInt w hn)
  have hunsigned : ∀ (w : word) (o : Text),
      write_number (decimal w.toNat) o = some (o.write (encode (.int w.toNat))) := by
    intro w o
    have hinteger : integer (w.toNat : ℤ) = decimal w.toNat :=
      if_neg (Int.not_lt.mpr (Int.natCast_nonneg _))
    rw [write_number_eq (length_decimal_toNat w), encode, hinteger]
  unfold unpack_abort_info
  dsimp only
  rw [hsigned _ _ (by decide), Option.bind_eq_bind, Option.bind_some, hsigned _ _ (by decide),
    Option.bind_some, hsigned _ _ (by decide), Option.bind_some, hsigned _ _ (by decide),
    Option.bind_some, hsigned _ _ (by decide), Option.bind_some, hunsigned, Option.bind_some,
    hunsigned, Option.bind_some, hwords, unpack_words_eq hread, Option.bind_some, ← hvalues,
    flatMap_text_tokensAll]
  simp only [write_eq, write_buf_eq, Text.write_write, header, encode, encodeAll,
    List.append_assoc, List.cons_append, List.nil_append, List.append_nil, pure]

/-! ## From the stack to the string -/

/-- What a transaction pushes at one time. -/
structure Entry where
  memory : Memory
  obj : word
  fields : List Field

def push_all (d : tx_descriptor) (entries : List Entry) : tx_descriptor :=
  entries.foldl (fun d e => stm_abort_info_push e.memory d e.obj (fieldoffsets e.fields)) d

/-- The items that are packed for an entry. -/
def Entry.packed (m : Memory) (e : Entry) : List Packed :=
  e.fields.map (Field.packed m (m.stm_repeat_read_barrier (e.memory.stm_read_barrier e.obj)))

theorem push_all_eq : ∀ {entries : List Entry} {d : tx_descriptor},
    push_all d entries = { d with
      abortinfo := d.abortinfo ++ entries.map fun e =>
        (e.memory.stm_read_barrier e.obj, fieldoffsets e.fields) }
  | [], d => by
      rw [List.map_nil, List.append_nil]
      rfl
  | e :: entries, d => by
      have ih := @push_all_eq entries
        (stm_abort_info_push e.memory d e.obj (fieldoffsets e.fields))
      rw [List.map_cons]
      refine ih.trans ?_
      unfold stm_abort_info_push
      dsimp only
      rw [List.append_assoc, List.singleton_append]

/-- The outer loop of `stm_decode_abort_info`. -/
theorem decode_entries_eq : ∀ {entries : List Entry} {o : Words},
    (entries.map fun e => (e.memory.stm_read_barrier e.obj, fieldoffsets e.fields)).foldlM
      (fun o (obj, fieldoffsets) =>
        decode_fields m (m.stm_repeat_read_barrier obj) fieldoffsets o) o
      = some (o.write ((entries.flatMap (Entry.packed m)).flatMap Packed.layout))
  | [], o => by
      rw [List.flatMap_nil, List.flatMap_nil, Words.write_nil]
      rfl
  | e :: entries, o => by
      rw [List.map_cons, List.foldlM_cons]
      dsimp only
      rw [decode_fields_eq, Option.bind_eq_bind, Option.bind_some, decode_entries_eq, Words.write_write,
        List.flatMap_cons, List.flatMap_append]
      rfl

/-- Both passes of `stm_decode_abort_info`. -/
theorem stm_decode_abort_info_eq {d : tx_descriptor} {entries : List Entry} {elapsed_time : word}
    {abort_reason : BitVec 32} {output : Bool} (hempty : d.abortinfo = []) :
    stm_decode_abort_info m (push_all d entries) elapsed_time abort_reason output
      = some (SIZEOF_TX_ABORT_INFO
            + ((packedWords (entries.flatMap (Entry.packed m))).length - 1) * 8,
          if output then some (abort_info d elapsed_time abort_reason
            (packedWords (entries.flatMap (Entry.packed m)))) else none) := by
  unfold stm_decode_abort_info
  rw [push_all_eq, hempty, List.nil_append]
  dsimp only
  rw [decode_entries_eq, Option.bind_eq_bind, Option.bind_some, write_word_eq, Words.write_write]
  unfold Words.write packedWords
  dsimp only
  rw [Nat.zero_add]
  cases output
  · rfl
  · rfl

/-- Several collections, and the references that each of them visits. -/
def visit_all : List (word → word) → tx_descriptor →
    Option (tx_descriptor × List (List word))
  | [], d => some (d, [])
  | visit :: visits, d => do
    let (d, visited) ← stm_visit_abort_info visit d
    let (d, more) ← visit_all visits d
    return (d, visited :: more)

/-- Where a reference leads to after the collections. -/
def moved (visits : List (word → word)) (w : word) : word := visits.foldl (fun w visit => visit w) w

/-- What each of the collections has to visit, given what the first one has. -/
def expected : List (word → word) → List word → List (List word)
  | [], _ => []
  | visit :: visits, refs => refs :: expected visits (refs.map visit)

theorem references_visited {visit : word → word} {item : Packed} :
    (item.visited visit).references = item.references.map visit := by
  cases item with
  | start => rfl
  | stop => rfl
  | signed w => rfl
  | unsigned w => rfl
  | string rps offset => rfl

theorem visited_moved_nil {item : Packed} : item.visited (moved []) = item := by
  cases item with
  | start => rfl
  | stop => rfl
  | signed w => rfl
  | unsigned w => rfl
  | string rps offset => rfl

theorem visited_visited {visit : word → word} {visits : List (word → word)} {item : Packed} :
    (item.visited visit).visited (moved visits) = item.visited (moved (visit :: visits)) := by
  cases item with
  | start => rfl
  | stop => rfl
  | signed w => rfl
  | unsigned w => rfl
  | string rps offset => rfl

/-- One collection. -/
theorem stm_visit_abort_info_eq {visit : word → word} {d : tx_descriptor} {ai : tx_abort_info}
    (hsig : ai.signature_packed = 127) (hwords : ai.words = packedWords items)
    (hd : d.longest_abort_info = .packed ai) :
    stm_visit_abort_info visit d = some
      ({ d with
          abortinfo := d.abortinfo.map fun (obj, fieldoffsets) => (visit obj, fieldoffsets)
          longest_abort_info := .packed { ai with
            words := packedWords (items.map (Packed.visited visit)) } },
        d.abortinfo.map Prod.fst ++ items.flatMap Packed.references) := by
  unfold stm_visit_abort_info
  rw [hd]
  dsimp only
  rw [if_pos hsig, hwords, visit_words_eq]
  rfl

/-- The descriptor after the collections. -/
def tx_descriptor.after (d : tx_descriptor) (ai : tx_abort_info) (items : List Packed)
    (visits : List (word → word)) : tx_descriptor :=
  { d with
    abortinfo := d.abortinfo.map fun (obj, fieldoffsets) => (moved visits obj, fieldoffsets)
    longest_abort_info := .packed { ai with
      words := packedWords (items.map (Packed.visited (moved visits))) } }

theorem visit_all_eq : ∀ {visits : List (word → word)} {d : tx_descriptor} {ai : tx_abort_info}
    {items : List Packed}, ai.signature_packed = 127 → ai.words = packedWords items →
    d.longest_abort_info = .packed ai →
    visit_all visits d = some (d.after ai items visits,
      expected visits (d.abortinfo.map Prod.fst ++ items.flatMap Packed.references))
  | [], d, ai, items, _, hwords, hd => by
      have hitems : items.map (Packed.visited (moved [])) = items :=
        (List.map_congr_left fun _ _ => visited_moved_nil).trans (List.map_id _)
      have habortinfo : d.abortinfo.map (fun (obj, fieldoffsets) => (moved [] obj, fieldoffsets))
          = d.abortinfo := List.map_id _
      unfold tx_descriptor.after
      rw [hitems, ← hwords, habortinfo, ← hd]
      rfl
  | visit :: visits, d, ai, items, hsig, hwords, hd => by
      rw [visit_all, stm_visit_abort_info_eq hsig hwords hd, Option.bind_eq_bind,
        Option.bind_some]
      have hnext := fun d : tx_descriptor => @visit_all_eq visits d
        { ai with words := packedWords (items.map (Packed.visited visit)) }
        (items.map (Packed.visited visit)) hsig rfl
      dsimp only
      rw [hnext _ rfl, Option.bind_eq_bind, Option.bind_some]
      have hitems : (items.map (Packed.visited visit)).map (Packed.visited (moved visits))
          = items.map (Packed.visited (moved (visit :: visits))) := by
        rw [List.map_map]
        exact List.map_congr_left fun _ _ => visited_visited
      have hrefs : (items.map (Packed.visited visit)).flatMap Packed.references
          = (items.flatMap Packed.references).map visit := by
        rw [List.flatMap_map, List.map_flatMap]
        exact congrArg (fun f => items.flatMap f) (funext fun _ => references_visited)
      unfold tx_descriptor.after
      dsimp only
      rw [hitems, hrefs, List.map_map, List.map_map, expected, List.map_append, List.map_map]
      rfl

/-! ## The round trip -/

/-- The list markers of a descriptor. -/
def Field.marker : Field → Token
  | .start => .start
  | .stop => .stop
  | _ => .item (.int 0)

/-- The tokens are of the same kinds. -/
def Token.Similar : Token → Token → Prop
  | .start, .start => True
  | .stop, .stop => True
  | .item _, .item _ => True
  | _, _ => False

theorem depth_of_similar {ts ts' : List Token} {n : ℕ} (h : List.Forall₂ Token.Similar ts ts') :
    depth n ts = depth n ts' := by
  induction h generalizing n with
  | nil => rfl
  | @cons token token' ts ts' hsimilar _ ih =>
      cases token <;> cases token' <;> try exact absurd hsimilar id
      · rw [depth, depth, ih]
      · cases n with
        | zero => rfl
        | succ n => rw [depth, depth, ih]
      · rw [depth, depth, ih]

/-- The values of an entry, with the strings that the memory `m'` holds after
the collections. -/
def Entry.tokens (m m' : Memory) (visits : List (word → word)) (e : Entry) : List Token :=
  (e.packed m).map fun item => (item.visited (moved visits)).token m'

theorem similar_tokens {m' : Memory} {visits : List (word → word)} : ∀ {entries : List Entry},
    List.Forall₂ Token.Similar ((entries.flatMap Entry.fields).map Field.marker)
      (entries.flatMap (Entry.tokens m m' visits)) := by
  intro entries
  induction entries with
  | nil => exact .nil
  | cons e entries ih =>
      rw [List.flatMap_cons, List.flatMap_cons, List.map_append]
      refine List.rel_append ?_ ih
      unfold Entry.tokens Entry.packed
      rw [List.map_map, List.forall₂_map_left_iff, List.forall₂_map_right_iff, List.forall₂_same]
      intro field _
      cases field with
      | start => trivial
      | stop => trivial
      | signed offset => trivial
      | unsigned offset => trivial
      | string offset len_offset => trivial

/-- What is pushed, packed, visited and unpacked. `m` is the memory at the
abort and `m'` the one after the collections. The two passes of each function
agree, each collection visits the references that are in the words and
nothing else, and reading the string gives the values with their nesting. -/
theorem abort_info_round_trip (m m' : Memory) (d : tx_descriptor) (entries : List Entry)
    (elapsed_time : word) (abort_reason : BitVec 32) (visits : List (word → word))
    (hempty : d.abortinfo = [])
    (hbalanced : Balanced ((entries.flatMap Entry.fields).map Field.marker))
    (hread : ∀ item ∈ entries.flatMap (Entry.packed m),
      (item.visited (moved visits)).Readable m') :
    ∃ size ai, stm_decode_abort_info m (push_all d entries) elapsed_time abort_reason false
        = some (size, none) ∧
      stm_decode_abort_info m (push_all d entries) elapsed_time abort_reason true
        = some (size, some ai) ∧
      size = SIZEOF_TX_ABORT_INFO + (ai.words.length - 1) * 8 ∧
    ∃ d' ai', visit_all visits { push_all d entries with longest_abort_info := .packed ai }
        = some (d', expected visits (entries.map (fun e => e.memory.stm_read_barrier e.obj)
          ++ (entries.flatMap (Entry.packed m)).flatMap Packed.references)) ∧
      d'.longest_abort_info = .packed ai' ∧
    ∃ s values, unpack_abort_info m' d' ai' false = some ⟨s.length, none⟩ ∧
      unpack_abort_info m' d' ai' true = some ⟨s.length, some s⟩ ∧
      s = encode (.list (.list (header d ai) :: values)) ++ [0] ∧
      decode s.length s = some (.list (.list (header d ai) :: values), [0]) ∧
      tokensAll values = entries.flatMap (Entry.tokens m m' visits) := by
  have hdecode := fun output => @stm_decode_abort_info_eq m d entries elapsed_time abort_reason
    output hempty
  -- the values are those of the balanced stream of tokens
  have hbalanced' : Balanced (entries.flatMap (Entry.tokens m m' visits)) :=
    (depth_of_similar similar_tokens).symm.trans hbalanced
  obtain ⟨values, hvalues⟩ := hbalanced'.exists_values fun v hv => by
    obtain ⟨e, -, hv⟩ := List.mem_flatMap.mp hv
    obtain ⟨item, -, hv⟩ := List.mem_map.mp hv
    cases item with
    | start => cases hv
    | stop => cases hv
    | signed w =>
        cases hv
        rfl
    | unsigned w =>
        cases hv
        rfl
    | string rps offset =>
        cases hv
        rfl
  refine ⟨_, _, hdecode false, hdecode true, rfl, ?_⟩
  set ai := abort_info d elapsed_time abort_reason
    (packedWords (entries.flatMap (Entry.packed m))) with hai
  set d1 := { push_all d entries with longest_abort_info := .packed ai } with hd1
  have hvisits := @visit_all_eq visits d1 ai (entries.flatMap (Entry.packed m)) rfl rfl rfl
  refine ⟨d1.after ai (entries.flatMap (Entry.packed m)) visits, _, hvisits.trans ?_, rfl, ?_⟩
  · rw [hd1]
    dsimp only
    rw [push_all_eq, hempty, List.nil_append, List.map_map]
    rfl
  · have hpublic : d1.public_descriptor_index = d.public_descriptor_index := by
      rw [hd1, push_all_eq]
    have hunpack := fun output => @unpack_abort_info_eq m'
      ((entries.flatMap (Entry.packed m)).map (Packed.visited (moved visits)))
      (d1.after ai (entries.flatMap (Entry.packed m)) visits)
      { ai with words := packedWords ((entries.flatMap (Entry.packed m)).map
        (Packed.visited (moved visits))) } values output rfl
      (fun item hitem => by
        obtain ⟨item, hmem, rfl⟩ := List.mem_map.mp hitem
        exact hread item hmem)
      (by
        rw [hvalues, List.map_map, List.map_flatMap]
        exact congrArg (fun f => entries.flatMap f) (funext fun e => rfl))
    have hheader : header (d1.after ai (entries.flatMap (Entry.packed m)) visits)
        { ai with words := packedWords ((entries.flatMap (Entry.packed m)).map
          (Packed.visited (moved visits))) } = header d ai := by
      unfold header tx_descriptor.after
      dsimp only
      rw [hpublic]
    rw [hheader] at hunpack
    refine ⟨_, values, (hunpack false).trans ?_, (hunpack true).trans ?_, rfl, ?_, hvalues⟩
    · unfold Text.write
      dsimp only
      rw [Nat.zero_add]
      rfl
    · unfold Text.write
      dsimp only
      rw [Nat.zero_add]
      rfl
    · exact decode_encode _ (by
        rw [List.length_append]
        exact Nat.le_add_right _ _)

/-- A memory with a negative number at 116, a reference to a string at 124 and
the string "AA" at 300, or behind it after a collection. -/
def two_fields (moved : word) : Memory where
  long_at a := if a = 116 then -5 else if a = 124 then 300 else if a = 308 + moved then 2 else 0
  char_at _ := 65
  stm_read_barrier w := w
  stm_repeat_read_barrier w := w

def idle_descriptor : tx_descriptor where
  abortinfo := []
  active := 1
  atomic := 0
  count_reads := 1
  reads_size_limit_nonatomic := -1
  public_descriptor_index := 0
  longest_abort_info := .null
  longest_abort_info_time := 0

/-- A list that is opened for one object and closed for another. -/
def two_entries : List Entry :=
  [⟨two_fields 0, 100, [.start, .signed 16, .string 24 8]⟩,
    ⟨two_fields 0, 100, [.unsigned 16, .string 32 0, .stop]⟩]

theorem abort_info_round_trip_two :
    ∃ ai s values, stm_decode_abort_info (two_fields 0) (push_all idle_descriptor two_entries) 7 3
        true = some (SIZEOF_TX_ABORT_INFO + (ai.words.length - 1) * 8, some ai) ∧
      decode s.length s = some (.list (.list (header idle_descriptor ai) :: values), [0]) ∧
      tokensAll values = [.start, .item (.int (-5)), .item (.bytes [65, 65]),
        .item (.int (2 ^ 64 - 5)), .item (.bytes []), .stop] := by
  have h := abort_info_round_trip (two_fields 0) (two_fields 1000) idle_descriptor two_entries 7 3
    [fun w => if w = 0 then 0 else w + 1000] rfl rfl (by
      intro item hitem
      change item ∈ [Packed.start, .signed (-5), .string 300 8, .unsigned (-5), .string 0 0,
        .stop] at hitem
      simp only [List.mem_cons, List.not_mem_nil, or_false] at hitem
      rcases hitem with rfl | rfl | rfl | rfl | rfl | rfl
      · trivial
      · trivial
      · intro _
        decide
      · trivial
      · exact fun h => absurd rfl h
      · trivial)
  obtain ⟨size, ai, -, hdecode, rfl, d', ai', -, -, s, values, -, -, -, hread, hvalues⟩ := h
  exact ⟨ai, s, values, hdecode, hread, hvalues⟩

end AbortInfo

end Stmgc.C4
