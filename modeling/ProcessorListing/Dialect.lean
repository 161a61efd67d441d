import ProcessorListing.Arrangement
import ProcessorListing.Entry.Basic
import ProcessorListing.Radix

/-!
# Dialects

A dialect holds what has to be known of an architecture to read its listings: the label that opens
a unit, names to be taken for others, the layout, where the model stands, and which fields hold
hexadecimal numbers.

Renaming looks at the name as written, before it becomes a label, and it happens once: the first
rename of exactly that name counts, and its result is not renamed again.
-/

namespace ProcessorListing

/-- The rules by which an architecture writes its listings. -/
structure Dialect where
  /-- The label that opens a unit. -/
  delimiter : Label
  /-- Names, each bound to the name to be read in its place. -/
  renames : List (Binding Text)
  layout : Layout
  /-- The common field that holds the processor model. -/
  modelField : Label
  /-- The common field that holds the name of the processor model. -/
  nameField : Label
  /-- The fields whose numbers are hexadecimal. -/
  hexFields : List Label
deriving DecidableEq, Repr

namespace Dialect

/-- The name to be read for a name as written. -/
def rename (d : Dialect) (name : Text) : Text := (Binding.firstValue? d.renames name).getD name

/-- The field that an entry stands for. -/
def field (d : Dialect) (e : Entry) : Field := ⟨Label.ofText (d.rename e.key), e.value⟩

/-- The fields of a listing, in order. -/
def fields (d : Dialect) (t : Text) : List Field := (Entry.all t).map d.field

/-- How the numbers of a field are written. -/
def radix (d : Dialect) (label : Label) : Radix :=
  if label ∈ d.hexFields then .hexadecimal else .decimal

/-- The arrangement of a listing. -/
def arrange (d : Dialect) (t : Text) : Arrangement := .ofFields d.delimiter d.layout (d.fields t)

end Dialect

end ProcessorListing
