import ProcessorListing.Interval
import ProcessorListing.Text.Basic

/-!
# White space

`isBlank` is Unicode's `White_Space` property: controls U+0009 to U+000D, the space, and the
separators below.  U+001C to U+001F, U+180E, U+200B and U+FEFF do not have it.  `trim` drops white
space at both ends, and `words` are the pieces between runs of it.
-/

namespace ProcessorListing.Text

/-- The code points with the property `White_Space`. -/
def blanks : List Interval :=
  [⟨0x0009, 0x000D⟩, .single 0x0020, .single 0x0085, .single 0x00A0, .single 0x1680,
    ⟨0x2000, 0x200A⟩, ⟨0x2028, 0x2029⟩, .single 0x202F, .single 0x205F, .single 0x3000]

/-- White space is what Unicode gives the property `White_Space`. -/
def isBlank (c : Char) : Bool := inSome blanks c.toNat

/-- Drops white space at the start. -/
def trimStart (t : Text) : Text := t.dropWhile isBlank

/-- Drops white space at the end. -/
def trimEnd (t : Text) : Text := (t.reverse.dropWhile isBlank).reverse

/-- Drops white space at both ends. -/
def trim (t : Text) : Text := trimEnd (trimStart t)

/-- The words of a text: its longest stretches without white space. -/
def words (t : Text) : List Text := (cut isBlank t).filter (· ≠ [])

/-- White space between two texts separates their words. -/
theorem words_append_cons {c : Char} (hc : isBlank c = true) (a b : Text) :
    words (a ++ c :: b) = words a ++ words b := by
  simp [words, cut_append_cons hc]

/-- A text that is not empty and has no white space is one word. -/
theorem words_eq_singleton {t : Text} (ht : t ≠ []) (h : ∀ c ∈ t, isBlank c = false) :
    words t = [t] := by
  simp [words, cut_eq_singleton h, ht]

end ProcessorListing.Text
