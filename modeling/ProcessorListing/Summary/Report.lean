import ProcessorListing.Summary.Facts

/-!
# Reports

Two texts for a reader of a summary: the report, which gives the number of units, the name of the
model and the common fields and remarks, one `label: value` line each; and the list of facts,
one `name=value` line each.
-/

namespace ProcessorListing

/-- The line `name: value`. -/
def namedLine (name value : Text) : Text := name ++ ": ".toList ++ value ++ ['\n']

/-- The line of a field. -/
def fieldLine (f : Field) : Text := namedLine f.key.text f.value

/-- The line of a fact. -/
def factLine (f : Fact) : Text := f.key ++ '=' :: f.value ++ ['\n']

namespace Summary

/-- The report. -/
def report (s : Summary) : Text :=
  namedLine "Processor count".toList (Text.ofNat s.count) ++
    namedLine "model_name".toList (s.modelName.getD "None".toList) ++ ['\n'] ++
    s.common.bindings.flatMap fieldLine ++ ['\n'] ++
    s.other.flatMap fieldLine ++ ['\n']

/-- The list of facts. -/
def factList (root : Text) (s : Summary) : Text := (s.facts root).bindings.flatMap factLine

end Summary

end ProcessorListing
