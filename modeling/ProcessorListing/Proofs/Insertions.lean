import ProcessorListing.Proofs.Documents
import ProcessorListing.Proofs.Records

/-!
# Records after any insertions

A record is made by setting fields one after the other, and nothing of this history counts but the
order in which labels first came and the last value that each of them got.  `Record.Shows` lists what
can be asked of a record (its fields, labels and number of fields, what a walk over it has left, its
values, its document) and says that all of it tells of the same fields; `Record.ofFields_history` says
which fields these are after any history.
-/

namespace ProcessorListing

namespace Record

theorem countdown_eq_range (fields : List Field) :
    countdown fields = (List.range (fields.length + 1)).reverse := by
  induction fields with
  | nil => rfl
  | cons f rest ih =>
    rw [countdown, ih, List.length_cons, List.range_succ (n := rest.length + 1),
      List.reverse_append, List.reverse_singleton, List.singleton_append]

theorem contains_iff {r : Record} {label : Label} :
    r.contains label = true ↔ label ∈ r.labels := by
  rw [contains, ← Option.not_isNone, Bool.not_eq_true', Option.isNone_eq_false_iff,
    Option.isSome_iff_ne_none, ne_eq, get?, Binding.firstValue?_eq_none_iff, not_not, labels]

/-- The document of a record is read back as its fields. -/
theorem read?_compact_document (r : Record) :
    Json.read? r.document.compact = some (.ofFields r.fields) := by
  rw [Json.compact, Json.read?_written Json.Spacing.blank_compact, document,
    Json.Value.value_ofFields]

/-- Whatever is asked of the record, it tells of these fields. -/
structure Shows (r : Record) (fields : List Field) : Prop where
  walk : r.fields = fields
  labels : r.labels = fields.map (·.key)
  size : r.size = fields.length
  isEmpty : r.isEmpty = true ↔ fields = []
  get? : ∀ label value, r.get? label = some value ↔ ⟨label, value⟩ ∈ fields
  contains : ∀ label, r.contains label = true ↔ label ∈ fields.map (·.key)
  leftAtEachStep : r.leftAtEachStep = (List.range (fields.length + 1)).reverse
  document : Json.read? r.document.compact = some (.ofFields fields)

theorem shows_fields (r : Record) : r.Shows r.fields where
  walk := rfl
  labels := rfl
  size := rfl
  isEmpty := List.isEmpty_iff
  get? _ _ := get?_eq_some_iff
  contains _ := contains_iff
  leftAtEachStep := countdown_eq_range r.fields
  document := r.read?_compact_document

theorem labels_prefix_insert (r : Record) (label : Label) (value : Text) :
    r.labels <+: (r.insert label value).2.labels := by
  rw [labels_insert]
  split
  · exact List.prefix_rfl
  · exact List.prefix_append ..

/-- Of a history, only the order of first appearance and the last values count. -/
theorem ofFields_eq_iff {fields fields' : List Field} :
    ofFields fields = ofFields fields' ↔
      (fields.map (·.key)).eraseDups = (fields'.map (·.key)).eraseDups ∧
      ∀ label, Binding.lastValue? fields label = Binding.lastValue? fields' label := by
  simp only [← labels_ofFields, ← get?_ofFields]
  constructor
  · intro h
    rw [h]
    exact ⟨rfl, fun _ => rfl⟩
  · rintro ⟨hlabels, hvalues⟩
    exact ext_get? hlabels hvalues

/-- **A record is its labels in order of first appearance, each with its last value.**  After fields
have been set in any number, with labels that come again or not, the labels of the record are
distinct, they stand in the order in which they first came, and each has the last value that it got;
whatever is asked of the record tells of this list.  Setting one more label gives back the value that
it had until then, moves no label, and changes no other value.  So two histories make the same record
exactly if their labels first came in the same order and got the same last values, and a record that
is made of its own fields is the same record. -/
theorem ofFields_history (fields : List Field) :
    let r := ofFields fields
    r.labels.Nodup ∧
    r.labels = (fields.map (·.key)).eraseDups ∧
    (∀ label, r.get? label = Binding.lastValue? fields label) ∧
    r.Shows (Binding.latest fields) ∧
    (∀ label value,
      let inserted := r.insert label value
      inserted.1 = r.get? label ∧
      inserted.2 = ofFields (fields ++ [⟨label, value⟩]) ∧
      r.labels <+: inserted.2.labels ∧
      ∀ other, inserted.2.get? other = if label = other then some value else r.get? other) ∧
    (∀ fields', r = ofFields fields' ↔
      (fields.map (·.key)).eraseDups = (fields'.map (·.key)).eraseDups ∧
      ∀ label, Binding.lastValue? fields label = Binding.lastValue? fields' label) ∧
    ofFields r.fields = r := by
  intro r
  refine ⟨r.distinct, labels_ofFields fields, get?_ofFields fields, ?_, fun label value => ?_,
    fun fields' => ofFields_eq_iff, ofFields_fields r⟩
  · rw [← fields_ofFields]
    exact shows_fields r
  · exact ⟨insert_fst r label value, (ofFields_concat fields ⟨label, value⟩).symm,
      labels_prefix_insert r label value, fun other => get?_insert r label other value⟩

end Record

end ProcessorListing
