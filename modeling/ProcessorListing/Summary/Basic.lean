import ProcessorListing.Architecture

/-!
# Summaries

The summary of a listing: the units, what they have in common, and the remarks that belong to no
unit, read by the rules of one architecture.
-/

namespace ProcessorListing

/-- The arrangement of a listing and the architecture by whose rules it was read. -/
structure Summary extends Arrangement where
  architecture : Architecture
deriving DecidableEq

namespace Summary

/-- The summary of a listing. -/
def ofText (a : Architecture) (t : Text) : Summary := ⟨a.dialect.arrange t, a⟩

/-- The number of units. -/
def count (s : Summary) : Nat := s.units.length

/-- The model, if it is common to the units: "45", or a part number. -/
def model (s : Summary) : Option Text := s.common.get? s.architecture.dialect.modelField

/-- The name of the model, if it is common to the units. -/
def modelName (s : Summary) : Option Text := s.common.get? s.architecture.dialect.nameField

/-- The number that a common field denotes. -/
def number? (s : Summary) (label : Label) : Option UInt64 :=
  (s.common.get? label).bind (s.architecture.dialect.radix label).read?

/-- Two summaries describe the same machine when their units and what is common to them are the
same; neither the architecture nor the remarks count. -/
def sameMachine (s t : Summary) : Bool := s.units = t.units && s.common = t.common

end Summary

/-- The number that the value of a label denotes. -/
def Record.number? (r : Record) (label : Label) (radix : Radix) : Option UInt64 :=
  (r.get? label).bind radix.read?

end ProcessorListing
