import ProcessorListing.Record

/-!
# Dividing fields into stanzas

A field with the delimiting label opens a stanza, which runs up to the next such field.  What stands
before the first one belongs to no stanza.

`Division` says what the result is: nothing is dropped and nothing changes place, so the lead and
the stanzas, put one after the other, are the fields (`lead_append_flatten`).  `Splitting` is how a
listing is read: field by field, with the unit of the last stanza still open.  Both come to the same
units and the same lead (`Splitting.units_ofFields`, `Splitting.lead_ofFields`).
-/

namespace ProcessorListing

/-- Fields divided at a label: those before its first occurrence, and the stanzas that its
occurrences open. -/
structure Division where
  lead : List Field
  stanzas : List (List Field)
deriving DecidableEq, Repr

namespace Division

/-- Divides `f` followed by fields that are divided already. -/
def cons (delimiter : Label) (f : Field) (d : Division) : Division :=
  if f.key = delimiter then ⟨[], (f :: d.lead) :: d.stanzas⟩ else ⟨f :: d.lead, d.stanzas⟩

/-- Divides fields at every occurrence of `delimiter`. -/
def ofFields (delimiter : Label) (fields : List Field) : Division :=
  fields.foldr (cons delimiter) ⟨[], []⟩

/-- One record per stanza; a label that a stanza repeats keeps its last value. -/
def units (d : Division) : List Record := d.stanzas.map Record.ofFields

variable (delimiter : Label)

@[simp] theorem ofFields_nil : ofFields delimiter [] = ⟨[], []⟩ := rfl

theorem ofFields_cons (f : Field) (fields : List Field) :
    ofFields delimiter (f :: fields) = cons delimiter f (ofFields delimiter fields) := rfl

/-- The lead and the stanzas hold all fields, in order. -/
theorem lead_append_flatten (fields : List Field) :
    (ofFields delimiter fields).lead ++ (ofFields delimiter fields).stanzas.flatten = fields := by
  induction fields with
  | nil => rfl
  | cons f rest ih =>
    rw [ofFields_cons, cons]
    split <;> simp [ih]

/-- No field of the lead has the delimiting label. -/
theorem key_ne_of_mem_lead {fields : List Field} {f : Field}
    (h : f ∈ (ofFields delimiter fields).lead) : f.key ≠ delimiter := by
  induction fields with
  | nil => simp at h
  | cons g rest ih =>
    rw [ofFields_cons, cons] at h
    split at h
    · simp at h
    · rcases List.mem_cons.1 h with rfl | h
      · assumption
      · exact ih h

end Division

/-- How far a listing has been split into units. -/
inductive Splitting
  /-- No unit has been opened yet. -/
  | before (lead : List Field)
  /-- The units that are complete, and the one that may still get fields. -/
  | inside (lead : List Field) (closed : List Record) (unit : Record)
deriving DecidableEq

namespace Splitting

/-- The fields before the first unit. -/
def lead : Splitting → List Field
  | before lead => lead
  | inside lead _ _ => lead

/-- The units so far, the open one last. -/
def units : Splitting → List Record
  | before _ => []
  | inside _ closed unit => closed ++ [unit]

/-- Reads one more field.  The delimiting label closes the open unit and opens the next; any other
field goes into the open unit or, as long as there is none, to the lead. -/
def step (delimiter : Label) (s : Splitting) (f : Field) : Splitting :=
  if f.key = delimiter then inside s.lead s.units (Record.empty.set f)
  else
    match s with
    | before lead => before (lead ++ [f])
    | inside lead closed unit => inside lead closed (unit.set f)

/-- Goes on with fields, one after the other. -/
def run (delimiter : Label) (s : Splitting) (fields : List Field) : Splitting :=
  fields.foldl (step delimiter) s

/-- Splits fields at every occurrence of `delimiter`. -/
def ofFields (delimiter : Label) (fields : List Field) : Splitting :=
  run delimiter (before []) fields

/-! ## The steps against the division

What a run adds to a state is what the division of the fields says: their lead goes to the lead, or
into the open unit if there is one, and their stanzas become units of their own. -/

variable (delimiter : Label)

theorem run_append (s : Splitting) (xs ys : List Field) :
    run delimiter s (xs ++ ys) = run delimiter (run delimiter s xs) ys :=
  List.foldl_append ..

theorem run_cons (s : Splitting) (f : Field) (fields : List Field) :
    run delimiter s (f :: fields) = run delimiter (step delimiter s f) fields := rfl

theorem lead_run (s : Splitting) (fields : List Field) :
    (run delimiter s fields).lead =
      match s with
      | before lead => lead ++ (Division.ofFields delimiter fields).lead
      | inside lead _ _ => lead := by
  induction fields generalizing s with
  | nil => cases s <;> simp [run, lead]
  | cons f rest ih =>
    rw [run_cons, ih, Division.ofFields_cons, Division.cons]
    by_cases hf : f.key = delimiter
    · cases s <;> simp [step, hf, lead]
    · cases s <;> simp [step, hf]

theorem units_run (s : Splitting) (fields : List Field) :
    (run delimiter s fields).units =
      match s with
      | before _ => (Division.ofFields delimiter fields).units
      | inside _ closed unit =>
        closed ++ (Division.ofFields delimiter fields).lead.foldl Record.set unit ::
          (Division.ofFields delimiter fields).units := by
  induction fields generalizing s with
  | nil => cases s <;> rfl
  | cons f rest ih =>
    rw [run_cons, ih, Division.ofFields_cons, Division.cons]
    by_cases hf : f.key = delimiter
    · cases s <;> simp [step, hf, units, Division.units, Record.ofFields]
    · cases s <;> simp [step, hf, Division.units]

theorem lead_ofFields (fields : List Field) :
    (ofFields delimiter fields).lead = (Division.ofFields delimiter fields).lead :=
  lead_run delimiter (before []) fields

theorem units_ofFields (fields : List Field) :
    (ofFields delimiter fields).units = (Division.ofFields delimiter fields).units :=
  units_run delimiter (before []) fields

end Splitting

end ProcessorListing
