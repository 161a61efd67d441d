import ProcessorListing.Text.Basic

/-!
# JSON values and how they are written

The values that occur in a document: texts, natural numbers, lists, and objects whose members keep
their order.  A text is written with the two-character escapes where JSON has one and with `\u00xx`
for the other control characters; every other character stands for itself.

`Spacing` is the white space between the parts of a value: none in a compact text, a line per item
and two blanks per level in a pretty one.
-/

namespace ProcessorListing

/-- A JSON value. -/
inductive Json
  | text (t : Text)
  | number (n : Nat)
  | list (items : List Json)
  | object (members : List (Text × Json))

namespace Json

/-- How a character is written between quotes. -/
def escape (c : Char) : Text :=
  if c = '"' then ['\\', '"']
  else if c = '\\' then ['\\', '\\']
  else if c = '\x08' then ['\\', 'b']
  else if c = '\x0C' then ['\\', 'f']
  else if c = '\n' then ['\\', 'n']
  else if c = '\r' then ['\\', 'r']
  else if c = '\t' then ['\\', 't']
  else if c.toNat < 0x20 then
    ['\\', 'u', '0', '0', Nat.digitChar (c.toNat / 16), Nat.digitChar (c.toNat % 16)]
  else [c]

/-- A text between quotes. -/
def quote (t : Text) : Text := '"' :: t.flatMap escape ++ ['"']

/-- The white space in a written value. -/
structure Spacing where
  /-- What stands before an item at a depth, and before the bracket that closes that depth's
  list. -/
  line : Nat → Text
  /-- What stands after a colon. -/
  afterColon : Text

/-- No white space. -/
def Spacing.compact : Spacing := ⟨fun _ => [], []⟩

/-- A line for every item, indented by two blanks a level. -/
def Spacing.pretty : Spacing := ⟨fun depth => '\n' :: List.replicate (2 * depth) ' ', [' ']⟩

variable (s : Spacing)

mutual

/-- A value written at a depth. -/
def write (depth : Nat) : Json → Text
  | text t => quote t
  | number n => Text.ofNat n
  | list [] => ['[', ']']
  | list (item :: items) =>
    '[' :: s.line (depth + 1) ++ write (depth + 1) item ++ writeItems (depth + 1) items ++
      s.line depth ++ [']']
  | object [] => ['\x7b', '\x7d']
  | object ((name, value) :: members) =>
    '\x7b' :: s.line (depth + 1) ++ quote name ++ ':' :: s.afterColon ++ write (depth + 1) value ++
      writeMembers (depth + 1) members ++ s.line depth ++ ['\x7d']

/-- The further items of a list, a comma before each. -/
def writeItems (depth : Nat) : List Json → Text
  | [] => []
  | item :: items => ',' :: s.line depth ++ write depth item ++ writeItems depth items

/-- The further members of an object, a comma before each. -/
def writeMembers (depth : Nat) : List (Text × Json) → Text
  | [] => []
  | (name, value) :: members =>
    ',' :: s.line depth ++ quote name ++ ':' :: s.afterColon ++ write depth value ++
      writeMembers depth members

end

/-- The text of a value without white space. -/
def compact (j : Json) : Text := write .compact 0 j

/-- The text of a value with a line per item. -/
def pretty (j : Json) : Text := write .pretty 0 j

end Json

end ProcessorListing
