import ProcessorListing.Radix
import Mathlib.Algebra.Field.Rat

/-!
# Reading JSON

A reader of JSON as RFC 8259 has it, of every text of JSON and not only of those that are written
here: with all escapes, with numbers that have a sign, a fraction and an exponent, and with white
space wherever it may stand.  `tokens?` cuts a text into tokens; `step?` takes one token at a time
and keeps what is open around it; `read?` is the value of a text, or nothing if the text is not well
formed.

The members of an object are kept in their order, and all of them if a name stands twice, so nothing
of an object is lost.
-/

namespace ProcessorListing

namespace Json

/-- What a text of JSON stands for. -/
inductive Value
  | null
  | truth (b : Bool)
  | number (q : ℚ)
  | text (t : Text)
  | list (items : List Value)
  | object (members : List (Text × Value))

/-- The parts of a text of JSON. -/
inductive Token
  | openList | closeList | openObject | closeObject | comma | colon
  | null
  | truth (b : Bool)
  | number (q : ℚ)
  | text (t : Text)
deriving DecidableEq

/-! ## Texts between quotes -/

/-- A part of a text between quotes: a character, or a unit of UTF-16 that is given by its number. -/
inductive Piece
  | char (c : Char)
  | unit (u : Nat)

/-- The character that a backslash and this one stand for. -/
def unescape? (c : Char) : Option Char :=
  if c = '"' ∨ c = '\\' ∨ c = '/' then some c
  else if c = 'b' then some '\x08'
  else if c = 'f' then some '\x0C'
  else if c = 'n' then some '\n'
  else if c = 'r' then some '\r'
  else if c = 't' then some '\t'
  else none

/-- One more part before those that are found in what follows it. -/
def before? (piece : Option Piece) (found : Option (List Piece × Text)) :
    Option (List Piece × Text) := do
  let piece ← piece
  let (pieces, rest) ← found
  some (piece :: pieces, rest)

/-- The parts of a text up to the quote that ends it, and what follows that quote. -/
def pieces? : Text → Option (List Piece × Text)
  | [] => none
  | c :: rest =>
    if c = '"' then some ([], rest)
    else if c = '\\' then
      match rest with
      | [] => none
      | e :: rest =>
        if e = 'u' then
          match rest with
          | d₁ :: d₂ :: d₃ :: d₄ :: rest =>
            before? ((Radix.hexadecimal.natural? [d₁, d₂, d₃, d₄]).map .unit) (pieces? rest)
          | _ => none
        else before? ((unescape? e).map .char) (pieces? rest)
    else if c.toNat < 0x20 then none
    else before? (some (.char c)) (pieces? rest)

/-- The characters of the parts of a text.  Two units stand for one character when they are a high
and a low surrogate; a surrogate on its own stands for none. -/
def characters? : List Piece → Option Text
  | [] => some []
  | .char c :: more => (characters? more).map (c :: ·)
  | .unit u :: more =>
    if u < 0xD800 ∨ 0xDFFF < u then (characters? more).map (Char.ofNat u :: ·)
    else
      match more with
      | .unit v :: more =>
        if u < 0xDC00 ∧ 0xDC00 ≤ v ∧ v ≤ 0xDFFF then
          (characters? more).map (Char.ofNat (0x10000 + (u - 0xD800) * 0x400 + (v - 0xDC00)) :: ·)
        else none
      | _ => none

/-- The text that begins after a quote, and what follows the quote that ends it. -/
def text? (t : Text) : Option (Text × Text) := do
  let (pieces, rest) ← pieces? t
  let characters ← characters? pieces
  some (characters, rest)

/-! ## Numbers and words -/

/-- The number before a point; no digit follows a zero at its start. -/
def whole? (digits : Text) : Option Nat :=
  if digits.head? = some '0' ∧ digits ≠ ['0'] then none else Radix.decimal.natural? digits

/-- The value of a point and the digits after it, if they are there. -/
def fraction? : Text → Option ℚ
  | [] => some 0
  | _ :: digits => (Radix.decimal.natural? digits).map fun n => n / 10 ^ digits.length

/-- The number after an `e`, with or without a sign. -/
def exponent? : Text → Option ℤ
  | '-' :: digits => (Radix.decimal.natural? digits).map fun n => -n
  | '+' :: digits => (Radix.decimal.natural? digits).map fun n => n
  | digits => (Radix.decimal.natural? digits).map fun n => n

/-- The value of an `e` and the power after it, if they are there. -/
def scale? : Text → Option ℚ
  | [] => some 1
  | _ :: power => (exponent? power).map fun n => 10 ^ n

/-- The value of a number without a sign. -/
def magnitude? (t : Text) : Option ℚ := do
  let mantissa := t.takeWhile fun c => c != 'e' && c != 'E'
  let whole ← whole? (mantissa.takeWhile (· != '.'))
  let fraction ← fraction? (mantissa.dropWhile (· != '.'))
  let scale ← scale? (t.dropWhile fun c => c != 'e' && c != 'E')
  some ((whole + fraction) * scale)

/-- The value of a number. -/
def number? : Text → Option ℚ
  | '-' :: t => (magnitude? t).map fun q => -q
  | t => magnitude? t

/-- The token that is written without quotes and marks. -/
def word? (w : Text) : Option Token :=
  if w = "null".toList then some .null
  else if w = "true".toList then some (.truth true)
  else if w = "false".toList then some (.truth false)
  else (number? w).map .number

/-! ## Tokens -/

/-- The characters that may stand between tokens. -/
def isSpace (c : Char) : Bool := c = ' ' || c = '\t' || c = '\n' || c = '\r'

/-- The token that is one character. -/
def mark? (c : Char) : Option Token :=
  if c = '[' then some .openList
  else if c = ']' then some .closeList
  else if c = '\x7b' then some .openObject
  else if c = '\x7d' then some .closeObject
  else if c = ',' then some .comma
  else if c = ':' then some .colon
  else none

/-- A character of a token that is neither a mark nor a text. -/
def isWordChar (c : Char) : Bool := !isSpace c && c != '"' && (mark? c).isNone

/-- The token that begins with a character, and what follows it. -/
def token? (c : Char) (rest : Text) : Option (Token × Text) :=
  match mark? c with
  | some mark => some (mark, rest)
  | none =>
    if c = '"' then (text? rest).map fun (t, rest) => (.text t, rest)
    else (word? (c :: rest.takeWhile isWordChar)).map (·, rest.dropWhile isWordChar)

theorem before?_eq_some_iff {piece : Option Piece} {found : Option (List Piece × Text)}
    {pieces : List Piece} {rest : Text} :
    before? piece found = some (pieces, rest) ↔
      ∃ p more, piece = some p ∧ found = some (more, rest) ∧ pieces = p :: more := by
  cases piece <;> cases found <;> simp [before?, Prod.ext_iff, eq_comm, and_comm]

theorem pieces?_length_lt {t rest : Text} {pieces : List Piece}
    (h : pieces? t = some (pieces, rest)) : rest.length < t.length := by
  fun_induction pieces? t generalizing pieces with
  | case1 | case3 | case5 | case7 => contradiction
  | case2 => simp_all
  | case4 _ _ _ _ _ _ ih | case6 _ _ _ _ ih | case8 _ _ _ _ _ ih =>
    obtain ⟨p, more, -, hmore, -⟩ := before?_eq_some_iff.1 h
    have := ih hmore
    simp only [List.length_cons]
    omega

theorem token?_length_le {c : Char} {rest rest' : Text} {token : Token}
    (h : token? c rest = some (token, rest')) : rest'.length ≤ rest.length := by
  unfold token? at h
  split at h
  · simp_all
  · split at h
    · simp only [text?, Option.bind_eq_bind, Option.map_eq_some_iff, Option.bind_eq_some_iff,
        Prod.exists, Option.some.injEq, Prod.mk.injEq] at h
      obtain ⟨t, rest'', ⟨pieces, rest''', hp, _, _, _, rfl⟩, _, rfl⟩ := h
      exact (pieces?_length_lt hp).le
    · simp only [Option.map_eq_some_iff, Prod.mk.injEq] at h
      obtain ⟨_, _, _, rfl⟩ := h
      exact (List.dropWhile_sublist _).length_le

/-- The tokens of a text. -/
def tokens? (t : Text) : Option (List Token) :=
  match t with
  | [] => some []
  | c :: rest =>
    if isSpace c then tokens? rest
    else
      match _h : token? c rest with
      | none => none
      | some (token, rest') => (tokens? rest').map (token :: ·)
termination_by t.length
decreasing_by
  · simp
  · exact Nat.lt_succ_of_le (token?_length_le _h)

/-! ## Values -/

/-- A list or object that is open: what has been read of it, and the name whose value is next. -/
inductive Frame
  | list (items : List Value)
  | object (members : List (Text × Value)) (name : Text)

/-- What may come next. -/
inductive Place
  | value
  /-- A value, or the end of a list. -/
  | listOpened
  /-- A name, or the end of an object. -/
  | objectOpened
  | name (members : List (Text × Value))
  | colon (members : List (Text × Value)) (name : Text)
  /-- What may follow a value: the end of what is open, or a comma. -/
  | done (v : Value)

/-- A reading after some tokens: what may come next, and what is open, the innermost first. -/
structure Progress where
  place : Place
  outer : List Frame

/-- A token where a value is due. -/
def begin? (outer : List Frame) : Token → Option Progress
  | .null => some ⟨.done .null, outer⟩
  | .truth b => some ⟨.done (.truth b), outer⟩
  | .number q => some ⟨.done (.number q), outer⟩
  | .text t => some ⟨.done (.text t), outer⟩
  | .openList => some ⟨.listOpened, outer⟩
  | .openObject => some ⟨.objectOpened, outer⟩
  | _ => none

/-- Takes one token. -/
def step? : Progress → Token → Option Progress
  | ⟨.value, outer⟩, token => begin? outer token
  | ⟨.listOpened, outer⟩, .closeList => some ⟨.done (.list []), outer⟩
  | ⟨.listOpened, outer⟩, token => begin? (.list [] :: outer) token
  | ⟨.objectOpened, outer⟩, .closeObject => some ⟨.done (.object []), outer⟩
  | ⟨.objectOpened, outer⟩, .text name => some ⟨.colon [] name, outer⟩
  | ⟨.name members, outer⟩, .text name => some ⟨.colon members name, outer⟩
  | ⟨.colon members name, outer⟩, .colon => some ⟨.value, .object members name :: outer⟩
  | ⟨.done v, .list items :: outer⟩, .comma => some ⟨.value, .list (items ++ [v]) :: outer⟩
  | ⟨.done v, .list items :: outer⟩, .closeList => some ⟨.done (.list (items ++ [v])), outer⟩
  | ⟨.done v, .object members name :: outer⟩, .comma =>
    some ⟨.name (members ++ [(name, v)]), outer⟩
  | ⟨.done v, .object members name :: outer⟩, .closeObject =>
    some ⟨.done (.object (members ++ [(name, v)])), outer⟩
  | _, _ => none

/-- Goes on with a reading. -/
def resume? (r : Progress) (t : Text) : Option Progress := (tokens? t).bind (·.foldlM step? r)

/-- The value of a text of JSON. -/
def read? (t : Text) : Option Value :=
  match resume? ⟨.value, []⟩ t with
  | some ⟨.done v, []⟩ => some v
  | _ => none

end Json

end ProcessorListing
