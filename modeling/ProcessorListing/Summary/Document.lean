import ProcessorListing.Json.Basic
import ProcessorListing.Summary.Basic

/-!
# Documents

A summary as one JSON object: the architecture, the number of units, the common fields as an object,
the units as a list of objects, and the remarks as a list of pairs, since remarks may repeat
a label.
-/

namespace ProcessorListing

namespace Json

/-- Fields with distinct labels as an object. -/
def ofFields (fields : List Field) : Json :=
  object (fields.map fun f => (f.key.text, text f.value))

/-- A field as a list of its label and its value. -/
def ofPair (f : Field) : Json := list [text f.key.text, text f.value]

end Json

/-- The fields of a record as an object. -/
def Record.document (r : Record) : Json := .ofFields r.fields

/-- The whole summary as one object. -/
def Summary.document (s : Summary) : Json :=
  .object
    [("architecture".toList, .text s.architecture.name),
      ("count".toList, .number s.count),
      ("common".toList, .ofFields s.common.bindings),
      ("units".toList, .list (s.units.map Record.document)),
      ("other".toList, .list (s.other.map Json.ofPair))]

end ProcessorListing
