import ProcessorListing.Text.Blank
import ProcessorListing.Text.Lowercase
import ProcessorListing.Binding

/-!
# Labels

Listings spell one field name in many ways: in capitals or not, padded or not, with one blank or
several between its words, with a point for a blank.  `Label.ofText` gives all of them the same
label: the words in small letters, joined by `_`, each point written `_`.

A `Label` may be made of any text, since a caller may look up any text; only those that `ofText`
makes can be found among the fields of a listing.
-/

namespace ProcessorListing

/-- The name of a field. -/
structure Label where
  text : Text
deriving DecidableEq, Repr

namespace Label

/-- How a label writes one character of a word. -/
def letter (c : Char) : Text := if c = '.' then ['_'] else Text.lower c

/-- The label that a spelling of a field name stands for. -/
def ofText (t : Text) : Label := ⟨['_'].intercalate ((Text.words t).map (·.flatMap letter))⟩

/-- A text is in canonical form when it is its own label. -/
def IsCanonical (t : Text) : Prop := ofText t = ⟨t⟩

instance (t : Text) : Decidable (IsCanonical t) := inferInstanceAs (Decidable (ofText t = ⟨t⟩))

end Label

/-- A field of a listing: its label and its value. -/
abbrev Field := Binding Label

end ProcessorListing
