import ProcessorListing.Division
import ProcessorListing.Proofs.Records
import Mathlib.Data.List.Forall2

/-!
# Splitting loses nothing

Fields are made up of a lead and stanzas in one way only, once it is said which label opens a stanza
(`Division.Divides`): a lead in front of other fields goes to their lead (`ofFields_append`), and
stanzas put one after the other are divided into these stanzas again (`ofFields_flatten`), so
whatever divides some fields is their division (`Division.Divides.eq_ofFields`).

A splitting reads field by field and never looks back.  Still it comes to what the division says: its
lead is the lead, and each of its units is the record of one stanza
(`Splitting.ofFields_lossless`).
-/

namespace ProcessorListing

namespace Division

variable {delimiter : Label}

/-- A field with the delimiting label, and after it fields without it. -/
def IsStanza (delimiter : Label) (stanza : List Field) : Prop :=
  ∃ f rest, stanza = f :: rest ∧ f.key = delimiter ∧ ∀ g ∈ rest, g.key ≠ delimiter

/-- The lead and the stanzas make up the fields; the lead has no delimiter, and a stanza has one, at
its start. -/
structure Divides (delimiter : Label) (fields : List Field) (d : Division) : Prop where
  whole : d.lead ++ d.stanzas.flatten = fields
  lead : ∀ f ∈ d.lead, f.key ≠ delimiter
  stanzas : ∀ stanza ∈ d.stanzas, IsStanza delimiter stanza

theorem isStanza_of_mem_stanzas {fields stanza : List Field}
    (h : stanza ∈ (ofFields delimiter fields).stanzas) : IsStanza delimiter stanza := by
  induction fields with
  | nil => cases h
  | cons f rest ih =>
    rw [ofFields_cons, cons] at h
    split at h
    next hkey =>
      rcases List.mem_cons.1 h with rfl | h
      · exact ⟨f, _, rfl, hkey, fun _ => key_ne_of_mem_lead delimiter⟩
      · exact ih h
    next => exact ih h

/-- The division of fields divides them. -/
theorem divides_ofFields (delimiter : Label) (fields : List Field) :
    (ofFields delimiter fields).Divides delimiter fields where
  whole := lead_append_flatten delimiter fields
  lead _ := key_ne_of_mem_lead delimiter
  stanzas _ := isStanza_of_mem_stanzas

/-! ## There is no other way -/

theorem ofFields_append {lead : List Field} (h : ∀ f ∈ lead, f.key ≠ delimiter)
    (fields : List Field) :
    ofFields delimiter (lead ++ fields) =
      ⟨lead ++ (ofFields delimiter fields).lead, (ofFields delimiter fields).stanzas⟩ := by
  induction lead with
  | nil => rfl
  | cons f rest ih =>
    rw [List.cons_append, ofFields_cons, ih fun g hg => h g (by simp [hg]), cons,
      if_neg (h f (by simp)), List.cons_append]

theorem ofFields_flatten {stanzas : List (List Field)}
    (h : ∀ stanza ∈ stanzas, IsStanza delimiter stanza) :
    ofFields delimiter stanzas.flatten = ⟨[], stanzas⟩ := by
  induction stanzas with
  | nil => rfl
  | cons stanza more ih =>
    obtain ⟨f, rest, rfl, hkey, hrest⟩ := h stanza (by simp)
    rw [List.flatten_cons, List.cons_append, ofFields_cons, ofFields_append hrest,
      ih fun s hs => h s (by simp [hs]), List.append_nil, cons, if_pos hkey]

/-- What divides fields is their division. -/
theorem Divides.eq_ofFields {fields : List Field} {d : Division} (h : d.Divides delimiter fields) :
    d = ofFields delimiter fields := by
  rw [← h.whole, ofFields_append h.lead, ofFields_flatten h.stanzas, List.append_nil]

/-! ## The fields that open units -/

theorem head?_fields_of_isStanza {stanza : List Field} (h : IsStanza delimiter stanza) :
    (Record.ofFields stanza).fields.head? = stanza.head? := by
  obtain ⟨f, rest, rfl, hkey, hrest⟩ := h
  -- Only a later delimiter could overwrite the value of the first field.
  have hlast : Binding.lastValue? (f :: rest) f.key = some f.value := by
    have hnone : Binding.lastValue? rest f.key = none := by
      rw [Binding.lastValue?_eq_none_iff]
      intro hm
      obtain ⟨g, hg, e⟩ := List.mem_map.1 hm
      exact hrest g hg (e.trans hkey)
    rw [← List.singleton_append, Binding.lastValue?_append, hnone, Option.none_or]
    simp [Binding.lastValue?, Binding.firstValue?_cons]
  rw [Record.fields_ofFields, Binding.latest, List.map_cons, List.eraseDups_cons,
    List.filterMap_cons, hlast]
  rfl

theorem filter_of_isStanza {stanza : List Field} (h : IsStanza delimiter stanza) :
    (stanza.filter (·.key = delimiter)).map some = [stanza.head?] := by
  obtain ⟨f, rest, rfl, hkey, hrest⟩ := h
  have hnone : rest.filter (·.key = delimiter) = [] :=
    List.filter_eq_nil_iff.2 fun g hg => by simpa using hrest g hg
  rw [List.filter_cons_of_pos (by simpa using hkey), hnone]
  rfl

theorem filter_flatten {stanzas : List (List Field)}
    (h : ∀ stanza ∈ stanzas, IsStanza delimiter stanza) :
    (stanzas.flatten.filter (·.key = delimiter)).map some = stanzas.map List.head? := by
  induction stanzas with
  | nil => rfl
  | cons stanza more ih =>
    rw [List.flatten_cons, List.filter_append, List.map_append, filter_of_isStanza (h stanza (by simp)),
      ih fun s hs => h s (by simp [hs]), List.map_cons, List.singleton_append]

/-- The delimiting fields are the first fields of the stanzas. -/
theorem Divides.filter_eq {fields : List Field} {d : Division} (h : d.Divides delimiter fields) :
    (fields.filter (·.key = delimiter)).map some = d.stanzas.map List.head? := by
  have hlead : d.lead.filter (·.key = delimiter) = [] :=
    List.filter_eq_nil_iff.2 fun f hf => by simpa using h.lead f hf
  rw [← h.whole, List.filter_append, hlead, List.nil_append, filter_flatten h.stanzas]

end Division

namespace Splitting

open Division

/-- **Splitting loses nothing.**  There is exactly one way to take fields apart into a lead without
the delimiting label and stanzas that begin with a field of this label and have no other.  The lead
of the splitting is this lead, and its units are the records of these stanzas, one by one.  So there
are as many units as fields with the label, these fields come first in the units, in the same order,
and a unit holds for every label the last value that its own stanza has. -/
theorem ofFields_lossless (delimiter : Label) (fields : List Field) :
    (∃! d : Division, d.Divides delimiter fields) ∧
    ∀ d : Division, d.Divides delimiter fields →
      let splitting := ofFields delimiter fields
      splitting.lead = d.lead ∧ splitting.units = d.stanzas.map Record.ofFields ∧
      splitting.units.length = (fields.map (·.key)).count delimiter ∧
      splitting.units.map (·.fields.head?) = (fields.filter (·.key = delimiter)).map some ∧
      List.Forall₂ (fun unit stanza => ∀ label, unit.get? label = Binding.lastValue? stanza label)
        splitting.units d.stanzas := by
  refine ⟨⟨_, divides_ofFields delimiter fields, fun d h => h.eq_ofFields⟩, ?_⟩
  intro d hd splitting
  have hunits : splitting.units = d.stanzas.map Record.ofFields := by
    rw [units_ofFields, hd.eq_ofFields, Division.units]
  have hfirst : splitting.units.map (·.fields.head?) =
      (fields.filter (·.key = delimiter)).map some := by
    rw [hunits, List.map_map, hd.filter_eq]
    exact List.map_congr_left fun stanza hs => head?_fields_of_isStanza (hd.stanzas stanza hs)
  have hlength : splitting.units.length = (fields.map (·.key)).count delimiter := by
    calc splitting.units.length = (fields.filter (·.key = delimiter)).length := by
          simpa using congrArg List.length hfirst
      _ = (fields.map (·.key)).count delimiter := by
          rw [List.count_eq_countP, List.countP_map, List.countP_eq_length_filter]
          rfl
  refine ⟨?_, hunits, hlength, hfirst, ?_⟩
  · rw [lead_ofFields, hd.eq_ofFields]
  · rw [hunits, List.forall₂_map_left_iff, List.forall₂_same]
    exact fun stanza _ label => Record.get?_ofFields stanza label

/-- Two delimiters in a row, and a field that its stanza repeats. -/
theorem ofFields_lossless_repeated :
    Divides ⟨['p']⟩
      [⟨⟨['a']⟩, ['0']⟩, ⟨⟨['p']⟩, ['1']⟩, ⟨⟨['p']⟩, ['2']⟩, ⟨⟨['a']⟩, ['3']⟩, ⟨⟨['a']⟩, ['4']⟩]
      ⟨[⟨⟨['a']⟩, ['0']⟩],
        [[⟨⟨['p']⟩, ['1']⟩], [⟨⟨['p']⟩, ['2']⟩, ⟨⟨['a']⟩, ['3']⟩, ⟨⟨['a']⟩, ['4']⟩]]⟩ ∧
    (ofFields ⟨['p']⟩ [⟨⟨['a']⟩, ['0']⟩, ⟨⟨['p']⟩, ['1']⟩, ⟨⟨['p']⟩, ['2']⟩, ⟨⟨['a']⟩, ['3']⟩,
        ⟨⟨['a']⟩, ['4']⟩]).units.map (·.fields) =
      [[⟨⟨['p']⟩, ['1']⟩], [⟨⟨['p']⟩, ['2']⟩, ⟨⟨['a']⟩, ['4']⟩]] := by
  have hdivides := divides_ofFields ⟨['p']⟩ [⟨⟨['a']⟩, ['0']⟩, ⟨⟨['p']⟩, ['1']⟩, ⟨⟨['p']⟩, ['2']⟩,
    ⟨⟨['a']⟩, ['3']⟩, ⟨⟨['a']⟩, ['4']⟩]
  refine ⟨hdivides, ?_⟩
  rw [((ofFields_lossless _ _).2 _ hdivides).2.1]
  decide

end Splitting

end ProcessorListing
