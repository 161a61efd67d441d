import ProcessorListing.Catalog
import ProcessorListing.Record

/-!
# What all units agree on

A field is common to some units when every one of them has it with the same value.  A unit without
the field disagrees with those that have it, even if their value is empty, and no units agree on
nothing.

The units are not compared with one another.  One pass over all their fields keeps a `Tally` for
each label: the different values that it has, and in how many fields it stands.  Units agree on a
label that has one value and stands in as many fields as there are units.
-/

namespace ProcessorListing

/-- What has been seen of a label: its different values, and the number of fields that have it. -/
structure Tally where
  label : Label
  values : List Text
  count : Nat
deriving DecidableEq, Repr

namespace Tally

/-- The tally of the first field with its label. -/
def first (f : Field) : Tally := ⟨f.key, [f.value], 1⟩

/-- Counts one more field with the label of the tally. -/
def add (t : Tally) (value : Text) : Tally := ⟨t.label, t.values.insert value, t.count + 1⟩

/-- Counts a field in the tally of its label, which is opened if there is none. -/
def record (tallies : List Tally) (f : Field) : List Tally :=
  match tallies with
  | [] => [first f]
  | t :: rest => if t.label = f.key then t.add f.value :: rest else t :: record rest f

/-- The tallies of the fields of some units. -/
def ofUnits (units : List Record) : List Tally :=
  units.foldl (fun tallies u => u.fields.foldl record tallies) []

/-- The field of a label that has one value and stands in `count` fields. -/
def agreed? (count : Nat) (t : Tally) : Option Field :=
  match t.values with
  | [value] => if t.count = count then some ⟨t.label, value⟩ else none
  | _ => none

end Tally

/-- The fields that all units share. -/
def agreement (units : List Record) : Catalog Label :=
  .ofList ((Tally.ofUnits units).filterMap (Tally.agreed? units.length))

end ProcessorListing
