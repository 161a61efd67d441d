import ProcessorListing.CommandLine.Run
import ProcessorListing.Proofs.JsonRoundTrip

/-!
# Documents are read back

The document of a summary is a text of JSON, with white space and without, and stands for the whole
summary (`Summary.value`).  Nothing in it hides anything else: the labels of a unit and of the common
fields are distinct, so no object has two members of one name.  Since reading a document gives back
every label and value, the text determines the summary (`Summary.value_injective`).
-/

namespace ProcessorListing

namespace Json.Value

/-- Fields as the members of an object. -/
def ofFields (fields : List Field) : Value :=
  .object (fields.map fun f => (f.key.text, .text f.value))

/-- A field as a list of its label and its value. -/
def ofPair (f : Field) : Value := .list [.text f.key.text, .text f.value]

theorem value_ofFields (fields : List Field) : (Json.ofFields fields).value = ofFields fields := by
  simp [Json.ofFields, Json.value, ofFields, Function.comp_def]

/-- `v.Holds w` if `w` is `v` or stands anywhere inside it. -/
inductive Holds : Value → Value → Prop
  | self (v : Value) : Holds v v
  | item {items : List Value} {v w : Value} : v ∈ items → Holds v w → Holds (.list items) w
  | member {members : List (Text × Value)} {name : Text} {v w : Value} :
    (name, v) ∈ members → Holds v w → Holds (.object members) w

/-- No object in the value has two members of one name. -/
def NamesOnce (v : Value) : Prop :=
  ∀ members, v.Holds (.object members) → (members.map Prod.fst).Nodup

theorem namesOnce_text (t : Text) : (text t).NamesOnce := by
  intro members h
  cases h

theorem namesOnce_number (q : ℚ) : (number q).NamesOnce := by
  intro members h
  cases h

theorem namesOnce_list {items : List Value} (h : ∀ v ∈ items, v.NamesOnce) :
    (list items).NamesOnce := by
  intro members hm
  cases hm with
  | item hv hw => exact h _ hv _ hw

theorem namesOnce_object {members : List (Text × Value)} (hn : (members.map Prod.fst).Nodup)
    (h : ∀ m ∈ members, m.2.NamesOnce) : (object members).NamesOnce := by
  intro members' hm
  cases hm with
  | self => exact hn
  | member hv hw => exact h _ hv _ hw

theorem namesOnce_ofFields {fields : List Field} (hd : (fields.map (·.key)).Nodup) :
    (ofFields fields).NamesOnce := by
  refine namesOnce_object ?_ fun m hm => ?_
  · have htexts : ((fields.map (·.key)).map Label.text).Nodup :=
      List.Pairwise.map Label.text (fun _ _ hne h => hne (Spelled.spelling_injective h)) hd
    simpa [Function.comp_def] using htexts
  · obtain ⟨f, -, rfl⟩ := List.mem_map.1 hm
    exact namesOnce_text f.value

theorem namesOnce_ofPair (f : Field) : (ofPair f).NamesOnce :=
  namesOnce_list fun v hv => by
    simp only [List.mem_cons, List.not_mem_nil, or_false] at hv
    rcases hv with rfl | rfl <;> exact namesOnce_text _

theorem ofFields_injective : Function.Injective ofFields := by
  intro fields fields' h
  simp only [ofFields, object.injEq] at h
  refine (List.map_inj_right ?_).1 h
  rintro ⟨⟨key⟩, value⟩ ⟨⟨key'⟩, value'⟩ hf
  simpa using hf

theorem ofPair_injective : Function.Injective ofPair := by
  rintro ⟨⟨key⟩, value⟩ ⟨⟨key'⟩, value'⟩ h
  simpa [ofPair] using h

end Json.Value

namespace Summary

open Json

/-- What the document of a summary stands for. -/
def value (s : Summary) : Value :=
  .object
    [("architecture".toList, .text s.architecture.name),
      ("count".toList, .number s.units.length),
      ("common".toList, .ofFields s.common.bindings),
      ("units".toList, .list (s.units.map fun u => .ofFields u.fields)),
      ("other".toList, .list (s.other.map .ofPair))]

theorem value_document (s : Summary) : s.document.value = s.value := by
  simp [document, value, Json.value, Record.document, Value.value_ofFields, Json.ofPair,
    Value.ofPair, count, Function.comp_def]

theorem namesOnce_value (s : Summary) : s.value.NamesOnce := by
  have hnames : ["architecture".toList, "count".toList, "common".toList, "units".toList,
      "other".toList].Nodup := by decide
  refine Value.namesOnce_object hnames fun m hm => ?_
  simp only [List.mem_cons, List.not_mem_nil, or_false] at hm
  rcases hm with rfl | rfl | rfl | rfl | rfl
  · exact Value.namesOnce_text _
  · exact Value.namesOnce_number _
  · exact Value.namesOnce_ofFields s.common.keys_nodup
  · refine Value.namesOnce_list fun v hv => ?_
    obtain ⟨u, -, rfl⟩ := List.mem_map.1 hv
    exact Value.namesOnce_ofFields u.distinct
  · refine Value.namesOnce_list fun v hv => ?_
    obtain ⟨f, -, rfl⟩ := List.mem_map.1 hv
    exact Value.namesOnce_ofPair f

theorem eq_iff {s s' : Summary} : s = s' ↔ s.architecture = s'.architecture ∧
    s.units = s'.units ∧ s.common = s'.common ∧ s.other = s'.other := by
  obtain ⟨⟨units, common, other⟩, architecture⟩ := s
  obtain ⟨⟨units', common', other'⟩, architecture'⟩ := s'
  simp only [mk.injEq, Arrangement.mk.injEq]
  exact and_comm

/-- What a document stands for determines the summary. -/
theorem value_injective : Function.Injective value := by
  intro s s' h
  simp only [value, Value.object.injEq, List.cons.injEq, Prod.mk.injEq, Value.text.injEq,
    Value.list.injEq, true_and, and_true] at h
  obtain ⟨hname, -, hcommon, hunits, hother⟩ := h
  have harchitecture : s.architecture = s'.architecture :=
    Option.some.inj (by rw [← Architecture.ofName?_name, hname, Architecture.ofName?_name])
  exact eq_iff.2 ⟨harchitecture,
    (List.map_inj_right fun _ _ hu => Record.ext (Value.ofFields_injective hu)).1 hunits,
    Catalog.ext (Value.ofFields_injective hcommon),
    (List.map_inj_right fun _ _ hf => Value.ofPair_injective hf).1 hother⟩

variable {spacing : Spacing}

theorem read?_write (hs : spacing.Blank) (s : Summary) (rest : Text)
    (hrest : ∀ c ∈ rest, isSpace c = true) :
    read? (write spacing 0 s.document ++ rest) = some s.value := by
  rw [Json.read?_write hs s.document hrest, value_document]

/-- With any white space between its parts, a document determines the summary. -/
theorem write_inj (hs : spacing.Blank) {s s' : Summary} :
    write spacing 0 s.document = write spacing 0 s'.document ↔ s = s' := by
  refine ⟨fun h => value_injective (Option.some.inj ?_), fun h => by rw [h]⟩
  have hread (s : Summary) : read? (write spacing 0 s.document) = some s.value := by
    rw [read?_written hs, value_document]
  rw [← hread s, h, hread s']

/-- **A document is a faithful copy of its summary.**  Without white space, with a line per item, and
with the line end that a run prints after it, the document of a summary is a text of JSON, and a
reader finds there the architecture, the number of units, the common fields, the units with their
fields in order, and the remarks, every label and value character by character; no object has two
members of one name.  So two summaries have the same document, in one spacing or the other, exactly
if they agree in architecture, units, common fields and remarks, which is more than describing the
same machine. -/
theorem read?_document (s : Summary) :
    read? s.document.compact = some s.value ∧
    read? s.document.pretty = some s.value ∧
    read? (Format.json.render s) = some s.value ∧
    s.value.NamesOnce ∧
    ∀ s' : Summary,
      (s.document.compact = s'.document.compact ↔ s.architecture = s'.architecture ∧
        s.units = s'.units ∧ s.common = s'.common ∧ s.other = s'.other) ∧
      (s.document.pretty = s'.document.pretty ↔ s.architecture = s'.architecture ∧
        s.units = s'.units ∧ s.common = s'.common ∧ s.other = s'.other) ∧
      (s.sameMachine s' = true ↔ s.units = s'.units ∧ s.common = s'.common) := by
  have hcompact := read?_write Spacing.blank_compact s [] (by simp)
  have hpretty := read?_write Spacing.blank_pretty s [] (by simp)
  rw [List.append_nil] at hcompact hpretty
  have hprinted := read?_write Spacing.blank_pretty s ['\n'] (by decide)
  refine ⟨hcompact, hpretty, hprinted, namesOnce_value s, fun s' => ⟨?_, ?_, ?_⟩⟩
  · exact (write_inj Spacing.blank_compact).trans eq_iff
  · exact (write_inj Spacing.blank_pretty).trans eq_iff
  · simp [sameMachine]

end Summary

end ProcessorListing
