import ProcessorListing.Summary.Basic

/-!
# Facts

A summary flattened into facts with dotted names under a common root: the count, what is common,
each unit's fields under its number, and the remarks.  Of remarks with the same label the
last one stays.
-/

namespace ProcessorListing

/-- A fact: its dotted name and its value. -/
abbrev Fact := Binding Text

namespace Fact

/-- The dotted name of the parts below a root. -/
def name (root : Text) (parts : List Text) : Text := root ++ parts.flatMap ('.' :: ·)

/-- The fact that a field states below a place. -/
def ofField (root : Text) (place : List Text) (f : Field) : Fact :=
  ⟨name root (place ++ [f.key.text]), f.value⟩

end Fact

namespace Summary

/-- The facts of one unit. -/
def unitFacts (root : Text) (number : Nat) (unit : Record) : List Fact :=
  unit.fields.map (Fact.ofField root ["unit".toList, Text.ofNat number])

/-- The facts of a summary, in the order in which they are stated. -/
def statements (root : Text) (s : Summary) : List Fact :=
  ⟨Fact.name root ["count".toList], Text.ofNat s.count⟩ ::
    (s.common.bindings.map (Fact.ofField root ["common".toList]) ++
      (s.units.zipIdx.flatMap fun (unit, number) => unitFacts root number unit) ++
      s.other.map (Fact.ofField root ["other".toList]))

/-- The facts of a summary, by name. -/
def facts (root : Text) (s : Summary) : Catalog Text := .ofList (s.statements root)

end Summary

end ProcessorListing
