import ProcessorListing.Text.Blank

/-!
# Identification numbers

Numbers in a listing are written without a sign, in decimal or in hexadecimal, the latter with or
without one `0x` in front.  `Radix.read?` takes the value of such a text if it fits in 64 bits and
nothing else: no sign, no second mark, no blank between digits, and only the ASCII digits.
-/

namespace ProcessorListing

/-- How a number is written. -/
inductive Radix
  | decimal
  /-- With or without a leading `0x`. -/
  | hexadecimal
deriving DecidableEq, Repr

namespace Radix

/-- The number of digits. -/
def base : Radix → Nat
  | decimal => 10
  | hexadecimal => 16

/-- The value of a hexadecimal digit, in capitals or small letters. -/
def hexDigit? (c : Char) : Option Nat :=
  if '0' ≤ c ∧ c ≤ '9' then some (c.toNat - '0'.toNat)
  else if 'a' ≤ c ∧ c ≤ 'f' then some (c.toNat - 'a'.toNat + 10)
  else if 'A' ≤ c ∧ c ≤ 'F' then some (c.toNat - 'A'.toNat + 10)
  else none

/-- The value of a digit of this radix. -/
def digit? (r : Radix) (c : Char) : Option Nat := (hexDigit? c).filter (· < r.base)

/-- The digits of a number without the mark of its radix: at most one `0x` is the mark. -/
def unmarked : Radix → Text → Text
  | hexadecimal, '0' :: 'x' :: digits => digits
  | hexadecimal, '0' :: 'X' :: digits => digits
  | _, digits => digits

/-- The number that digits denote, the most significant first. -/
def ofDigits (r : Radix) (digits : List Nat) : Nat := digits.foldl (fun n d => n * r.base + d) 0

/-- The number that a text of one digit or more denotes. -/
def natural? (r : Radix) (digits : Text) : Option Nat :=
  if digits = [] then none else (digits.mapM r.digit?).map r.ofDigits

/-- The number that a value denotes, white space at its ends aside, if it fits in 64 bits. -/
def read? (r : Radix) (value : Text) : Option UInt64 :=
  match r.natural? (r.unmarked (Text.trim value)) with
  | some n => if h : n < UInt64.size then some (UInt64.ofNatLT n h) else none
  | none => none

end Radix

end ProcessorListing
