import ProcessorListing.Dialect

/-!
# Architectures and their dialects

The architectures whose listings can be read.  Both byte orders of the POWER architecture share a
dialect.
-/

namespace ProcessorListing

/-- An architecture with a known dialect. -/
inductive Architecture
  | x86_64
  | aarch64
  | ppc64
  | ppc64le
deriving DecidableEq, Repr

namespace Architecture

/-- All architectures. -/
def all : List Architecture := [x86_64, aarch64, ppc64, ppc64le]

/-- The identifier by which a kernel reports the architecture. -/
def name : Architecture → Text
  | x86_64 => "x86_64".toList
  | aarch64 => "aarch64".toList
  | ppc64 => "ppc64".toList
  | ppc64le => "ppc64le".toList

/-- The architecture with exactly this identifier. -/
def ofName? (id : Text) : Option Architecture := all.find? (·.name = id)

/-- The label that opens a unit in every dialect. -/
def processor : Label := ⟨"processor".toList⟩

/-- The label of the remarks in an ARM listing. -/
def hardware : Label := ⟨"hardware".toList⟩

/-- The label that ends the stanzas of a POWER listing. -/
def timebase : Label := ⟨"timebase".toList⟩

/-- A full stanza per unit. -/
def x86Dialect : Dialect where
  delimiter := processor
  renames := []
  layout := .stanzas
  modelField := ⟨"model".toList⟩
  nameField := ⟨"model_name".toList⟩
  hexFields := [⟨"microcode".toList⟩]

/-- One bare line per unit and a block for all of them.  A capitalized `Processor` line carries the
name of the model and has the label of a unit otherwise, so it is renamed. -/
def armDialect : Dialect where
  delimiter := processor
  renames := [⟨"Processor".toList, "model name".toList⟩]
  layout := .shared hardware
  modelField := ⟨"cpu_part".toList⟩
  nameField := ⟨"model_name".toList⟩
  hexFields := [⟨"cpu_implementer".toList⟩, ⟨"cpu_variant".toList⟩, ⟨"cpu_part".toList⟩]

/-- A stanza per unit, then a block for the machine that begins at `timebase`. -/
def powerDialect : Dialect where
  delimiter := processor
  renames := []
  layout := .bounded timebase
  modelField := ⟨"model".toList⟩
  nameField := ⟨"machine".toList⟩
  hexFields := []

/-- The rules by which the architecture writes its listings. -/
def dialect : Architecture → Dialect
  | x86_64 => x86Dialect
  | aarch64 => armDialect
  | ppc64 => powerDialect
  | ppc64le => powerDialect

/-- An architecture is found under its identifier. -/
theorem ofName?_name (a : Architecture) : ofName? a.name = some a := by
  cases a <;> decide

theorem name_of_ofName? {id : Text} {a : Architecture} (h : ofName? id = some a) : a.name = id := by
  simpa using List.find?_some h

end Architecture

end ProcessorListing
