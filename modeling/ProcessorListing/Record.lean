import ProcessorListing.Label

/-!
# Records

The fields of one unit, in the order in which their labels first appeared.  Setting a label that is
already there overwrites its value in place, so a stanza that repeats a field keeps the last value
at the first position.  No label stands twice; that is part of the type.
-/

namespace ProcessorListing

/-- Fields with distinct labels, in order of first appearance. -/
structure Record where
  fields : List Field
  distinct : (fields.map (·.key)).Nodup
deriving DecidableEq, Repr

namespace Record

@[ext] theorem ext {r s : Record} (h : r.fields = s.fields) : r = s := by
  cases r; cases s; exact (Record.mk.injEq ..).mpr h

/-- Overwrites the value of `label` where it stands, and gives the value that stood there. -/
def overwrite (label : Label) (value : Text) : List Field → Option (Text × List Field)
  | [] => none
  | f :: rest =>
    if f.key = label then some (f.value, ⟨label, value⟩ :: rest)
    else (overwrite label value rest).map fun (old, rest') => (old, f :: rest')

/-- Overwriting keeps the labels and their places. -/
theorem keys_overwrite {label : Label} {value old : Text} {fields fields' : List Field}
    (h : overwrite label value fields = some (old, fields')) :
    fields'.map (·.key) = fields.map (·.key) := by
  induction fields generalizing fields' with
  | nil => simp [overwrite] at h
  | cons f rest ih =>
    by_cases hf : f.key = label
    · simp only [overwrite, hf, if_true, Option.some.injEq, Prod.mk.injEq] at h
      obtain ⟨-, rfl⟩ := h
      simp [hf]
    · simp only [overwrite, hf, if_false, Option.map_eq_some_iff, Prod.exists, Prod.mk.injEq] at h
      obtain ⟨found, rest', hr, rfl, rfl⟩ := h
      simp [ih hr]

/-- Overwriting finds nothing exactly when the label is absent. -/
theorem overwrite_eq_none_iff {label : Label} {value : Text} {fields : List Field} :
    overwrite label value fields = none ↔ label ∉ fields.map (·.key) := by
  induction fields with
  | nil => simp [overwrite]
  | cons f rest ih =>
    by_cases hf : f.key = label
    · simp [overwrite, hf]
    · simp only [overwrite, hf, if_false, Option.map_eq_none_iff, ih, List.map_cons,
        List.mem_cons, not_or]
      exact ⟨fun h => ⟨fun e => hf e.symm, h⟩, fun h => h.2⟩

/-- The record without fields. -/
def empty : Record := ⟨[], List.nodup_nil⟩

/-- Sets the value of `label`: in place if the record has it, else at the end.  Also gives the value
that was replaced. -/
def insert (r : Record) (label : Label) (value : Text) : Option Text × Record :=
  match h : overwrite label value r.fields with
  | some (old, fields) => (some old, ⟨fields, keys_overwrite h ▸ r.distinct⟩)
  | none =>
    (none, ⟨r.fields ++ [⟨label, value⟩], by
      have := overwrite_eq_none_iff.1 h
      simp only [List.map_append, List.map_cons, List.map_nil]
      exact List.nodup_append.2 ⟨r.distinct, by simp, by
        intro a ha b hb
        simp only [List.mem_singleton] at hb
        exact fun e => this (hb ▸ e ▸ ha)⟩⟩)

/-- Sets the value of a field's label. -/
def set (r : Record) (f : Field) : Record := (r.insert f.key f.value).2

/-- The record that fields make when they are set one after the other. -/
def ofFields (fields : List Field) : Record := fields.foldl set empty

/-- The value of `label`. -/
def get? (r : Record) (label : Label) : Option Text := Binding.firstValue? r.fields label

/-- The record has a value for `label`. -/
def contains (r : Record) (label : Label) : Bool := (r.get? label).isSome

/-- The number of fields. -/
def size (r : Record) : Nat := r.fields.length

/-- The record has no fields. -/
def isEmpty (r : Record) : Bool := r.fields.isEmpty

/-- The labels, in order. -/
def labels (r : Record) : List Label := r.fields.map (·.key)

/-- How many fields a walk over `fields` has before it, at the start and after every step. -/
def countdown : List Field → List Nat
  | [] => [0]
  | f :: rest => (f :: rest).length :: countdown rest

/-- How many fields are left before and after every step of a walk over the record. -/
def leftAtEachStep (r : Record) : List Nat := countdown r.fields

/-! ## What a record holds

`insert_fst`, `get?_insert` and `labels_insert` say what setting a label gives, which value it
changes and where the label stands; `get?_ofFields` is the reading of a whole list of fields. -/

theorem firstValue?_of_overwrite {label : Label} {value old : Text} {fields fields' : List Field}
    (h : overwrite label value fields = some (old, fields')) (key : Label) :
    Binding.firstValue? fields label = some old ∧
      Binding.firstValue? fields' key =
        if label = key then some value else Binding.firstValue? fields key := by
  induction fields generalizing fields' with
  | nil => simp [overwrite] at h
  | cons f rest ih =>
    by_cases hf : f.key = label
    · simp only [overwrite, hf, if_true, Option.some.injEq, Prod.mk.injEq] at h
      obtain ⟨rfl, rfl⟩ := h
      by_cases hk : label = key <;> simp [Binding.firstValue?_cons, hf, hk]
    · simp only [overwrite, hf, if_false, Option.map_eq_some_iff, Prod.exists, Prod.mk.injEq] at h
      obtain ⟨found, rest', hr, rfl, rfl⟩ := h
      obtain ⟨hold, hnew⟩ := ih hr
      refine ⟨by simp [Binding.firstValue?_cons, hf, hold], ?_⟩
      by_cases hk : label = key
      · subst hk
        simp [Binding.firstValue?_cons, hf, hnew]
      · simp [Binding.firstValue?_cons, hk, hnew]

/-- Setting a label gives the value that it had. -/
theorem insert_fst (r : Record) (label : Label) (value : Text) :
    (r.insert label value).1 = r.get? label := by
  unfold insert
  split
  next h => exact (firstValue?_of_overwrite h label).1.symm
  next h => exact (Binding.firstValue?_eq_none_iff.2 (overwrite_eq_none_iff.1 h)).symm

/-- Setting a label changes its value and no other. -/
theorem get?_insert (r : Record) (label key : Label) (value : Text) :
    (r.insert label value).2.get? key = if label = key then some value else r.get? key := by
  unfold insert
  split
  next h => exact (firstValue?_of_overwrite h key).2
  next h =>
    have hn := Binding.firstValue?_eq_none_iff.2 (overwrite_eq_none_iff.1 h)
    by_cases hk : label = key
    · subst hk
      simp [get?, Binding.firstValue?_append, Binding.firstValue?_cons, hn]
    · simp [get?, Binding.firstValue?_append, Binding.firstValue?_cons, hk]

/-- A new label comes last, and the labels that are there keep their places. -/
theorem labels_insert (r : Record) (label : Label) (value : Text) :
    (r.insert label value).2.labels =
      if label ∈ r.labels then r.labels else r.labels ++ [label] := by
  unfold insert
  split
  next h =>
    have hm : label ∈ r.labels := Classical.byContradiction fun hm => by
      simp [overwrite_eq_none_iff.2 hm] at h
    rw [if_pos hm]
    exact keys_overwrite h
  next h =>
    have hm : label ∉ r.labels := overwrite_eq_none_iff.1 h
    rw [if_neg hm]
    simp [labels]

theorem get?_foldl_set (fields : List Field) (r : Record) (key : Label) :
    (fields.foldl set r).get? key = (Binding.lastValue? fields key).or (r.get? key) := by
  induction fields generalizing r with
  | nil => simp
  | cons f rest ih =>
    rw [List.foldl_cons, ih, set, get?_insert, ← List.singleton_append, Binding.lastValue?_append]
    by_cases hk : f.key = key <;> simp [Binding.lastValue?, Binding.firstValue?_cons, hk]

/-- A record of fields holds the last value of each label. -/
theorem get?_ofFields (fields : List Field) (key : Label) :
    (ofFields fields).get? key = Binding.lastValue? fields key := by
  rw [ofFields, get?_foldl_set]
  exact Option.or_none

end Record

end ProcessorListing
