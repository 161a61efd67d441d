import ProcessorListing.Agreement
import ProcessorListing.Division

/-!
# Arranging the fields of a listing

Architectures lay their listings out in three ways.

* *Stanzas*: every unit has a stanza of its own; what all units agree on is common.
* *Shared*: the fields stand once and apply to every unit; a unit itself is one field with the
  delimiting label.  Fields with the label of remarks describe the machine and belong to no unit.
* *Bounded*: the stanzas end at the first field with the sentinel's label.  That field is left out,
  and those after it describe the machine and are common.

An `Arrangement` is what each of them comes to.
-/

namespace ProcessorListing

/-- How an architecture lays out its listing. -/
inductive Layout
  | stanzas
  | shared (remark : Label)
  | bounded (sentinel : Label)
deriving DecidableEq, Repr

/-- How far the fields of a shared layout have been sorted: the fields that are units of their own,
those that apply to every unit, and the remarks. -/
structure Sorting where
  own : List Field
  shared : Record
  remarks : List Field
deriving DecidableEq

namespace Sorting

/-- Sorts one more field. -/
def step (delimiter remark : Label) (s : Sorting) (f : Field) : Sorting :=
  if f.key = delimiter then { s with own := s.own ++ [f] }
  else if f.key = remark then { s with remarks := s.remarks ++ [f] }
  else { s with shared := s.shared.set f }

/-- Sorts fields, one after the other. -/
def ofFields (delimiter remark : Label) (fields : List Field) : Sorting :=
  fields.foldl (step delimiter remark) ⟨[], .empty, []⟩

end Sorting

/-- The units of a listing, what they have in common, and the fields that belong to no unit. -/
structure Arrangement where
  units : List Record
  common : Catalog Label
  other : List Field
deriving DecidableEq

namespace Arrangement

/-- Every unit has a stanza of its own. -/
def ofStanzas (delimiter : Label) (fields : List Field) : Arrangement :=
  let splitting := Splitting.ofFields delimiter fields
  ⟨splitting.units, agreement splitting.units, splitting.lead⟩

/-- The fields stand once and apply to every unit: a unit is its own field and, after it, the shared
ones. -/
def ofShared (delimiter remark : Label) (fields : List Field) : Arrangement :=
  let sorting := Sorting.ofFields delimiter remark fields
  ⟨sorting.own.map fun f => .ofFields (f :: sorting.shared.fields),
    .ofList sorting.shared.fields, sorting.remarks⟩

/-- The stanzas end at the first field with the sentinel's label. -/
def ofBounded (delimiter sentinel : Label) (fields : List Field) : Arrangement :=
  let splitting := Splitting.ofFields delimiter (fields.takeWhile (·.key ≠ sentinel))
  let after := (fields.dropWhile (·.key ≠ sentinel)).drop 1
  ⟨splitting.units, .ofList after, splitting.lead⟩

/-- Arranges fields by the rules of a layout. -/
def ofFields (delimiter : Label) : Layout → List Field → Arrangement
  | .stanzas => ofStanzas delimiter
  | .shared remark => ofShared delimiter remark
  | .bounded sentinel => ofBounded delimiter sentinel

end Arrangement

end ProcessorListing
