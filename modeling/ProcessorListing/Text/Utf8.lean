import ProcessorListing.Interval
import ProcessorListing.Text.Basic

/-!
# UTF-8

A character is encoded in one to four bytes.  Its first byte tells how many follow and, together
with the rule that each character has one encoding only, in which interval each of them lies.
`decode` reads bytes character by character; where that fails it tells the place: the index of the
first byte that belongs to no whole character, and either how many bytes from there on could have
begun one, or that the bytes end before the character does.
-/

namespace ProcessorListing.Utf8

/-- The bytes of a text. -/
def encode (t : Text) : List UInt8 := t.flatMap String.utf8EncodeChar

theorem encode_cons (c : Char) (t : Text) : encode (c :: t) = String.utf8EncodeChar c ++ encode t :=
  List.flatMap_cons

/-- What the first byte of a character announces: the bits that it carries, and the intervals in
which the bytes after it lie. -/
structure Lead where
  bits : Nat
  owed : List Interval
deriving DecidableEq, Repr

/-- Where a byte lies that goes on with a character, unless its lead says otherwise. -/
def continuation : Interval := ⟨0x80, 0xBF⟩

/-- The announcement of a first byte; 0x80 to 0xC1 and those above 0xF4 begin no character. -/
def lead? (b : Nat) : Option Lead :=
  if b ≤ 0x7F then some ⟨b, []⟩
  else if b ≤ 0xC1 then none
  else if b ≤ 0xDF then some ⟨b - 0xC0, [continuation]⟩
  else if b = 0xE0 then some ⟨0x0, [⟨0xA0, 0xBF⟩, continuation]⟩
  else if b = 0xED then some ⟨0xD, [⟨0x80, 0x9F⟩, continuation]⟩
  else if b ≤ 0xEF then some ⟨b - 0xE0, [continuation, continuation]⟩
  else if b = 0xF0 then some ⟨0, [⟨0x90, 0xBF⟩, continuation, continuation]⟩
  else if b ≤ 0xF3 then some ⟨b - 0xF0, [continuation, continuation, continuation]⟩
  else if b = 0xF4 then some ⟨4, [⟨0x80, 0x8F⟩, continuation, continuation]⟩
  else none

/-- What stands at the start of bytes. -/
inductive Start
  /-- A character, the number of its bytes, and the bytes after it. -/
  | whole (c : Char) (width : Nat) (rest : List UInt8)
  /-- So many bytes that could begin a character, and then one that cannot go on with it. -/
  | broken (length : Nat)
  /-- A part of a character, and then the end. -/
  | short
deriving DecidableEq, Repr

/-- Goes on with a character of which `seen` bytes are read and have the value `value`. -/
def follow (value seen : Nat) : List Interval → List UInt8 → Start
  | [], bytes => .whole (Char.ofNat value) seen bytes
  | _ :: _, [] => .short
  | interval :: owed, b :: bytes =>
    if b.toNat ∈ interval then follow (value * 64 + (b.toNat - 0x80)) (seen + 1) owed bytes
    else .broken seen

/-- Reads the character that starts with the byte `b`. -/
def start (b : UInt8) (bytes : List UInt8) : Start :=
  match lead? b.toNat with
  | none => .broken 1
  | some lead => follow lead.bits 1 lead.owed bytes

theorem follow_length_le {value seen width : Nat} {owed : List Interval} {bytes rest : List UInt8}
    {c : Char} (h : follow value seen owed bytes = .whole c width rest) :
    rest.length ≤ bytes.length := by
  fun_induction follow value seen owed bytes with
  | case1 => simp_all
  | case2 => simp at h
  | case3 _ _ _ _ _ _ _ ih => exact Nat.le_succ_of_le (ih h)
  | case4 => simp at h

theorem start_length_le {b : UInt8} {bytes rest : List UInt8} {c : Char} {width : Nat}
    (h : start b bytes = .whole c width rest) : rest.length ≤ bytes.length := by
  unfold start at h
  split at h
  · simp at h
  · exact follow_length_le h

/-- Why bytes are not the encoding of a text. -/
inductive Flaw
  /-- `length` bytes from `index` on could begin a character, but the next one breaks it. -/
  | invalid (length index : Nat)
  /-- The bytes end inside the character that begins at `index`. -/
  | incomplete (index : Nat)
deriving DecidableEq, Repr

/-- The text that bytes encode, the first of them having the given index. -/
def decodeFrom (index : Nat) : List UInt8 → Except Flaw Text
  | [] => .ok []
  | b :: bytes =>
    match _h : start b bytes with
    | .whole c width rest => (decodeFrom (index + width) rest).map (c :: ·)
    | .broken length => .error (.invalid length index)
    | .short => .error (.incomplete index)
termination_by bytes => bytes.length
decreasing_by exact Nat.lt_succ_of_le (start_length_le _h)

/-- The text that bytes encode. -/
def decode (bytes : List UInt8) : Except Flaw Text := decodeFrom 0 bytes

/-- A flaw in words. -/
def Flaw.message : Flaw → Text
  | invalid length index =>
    "invalid utf-8 sequence of ".toList ++ Text.ofNat length ++ " bytes from index ".toList ++
      Text.ofNat index
  | incomplete index =>
    "incomplete utf-8 byte sequence from index ".toList ++ Text.ofNat index

end ProcessorListing.Utf8
