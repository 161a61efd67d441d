import ProcessorListing.Architecture
import ProcessorListing.Summary.Report
import ProcessorListing.Proofs.CanonicalLabels
import ProcessorListing.Proofs.Statements
import Mathlib.Data.List.Basic

/-!
# The fields of a listing

The fields of a listing are `Stated`: a label in plain characters, not empty and without a colon,
and a trimmed value on one line (`stated_of_mem_fields`).  The lines `label: value` of stated fields
are read back as these fields (`fields_fieldLines`).  Together they say that a listing can be
written anew from its fields.

A rename must not come in between.  It cannot where the names that are renamed are no labels, and
each is renamed to a name that has a label without a colon; `KeepsLabels` asks for this, and the
dialect of every architecture has it.
-/

namespace ProcessorListing

open Text

/-- A field as a line can state it. -/
structure Stated (f : Field) : Prop where
  label_ne_nil : f.key.text ≠ []
  label_plain : ∀ c ∈ f.key.text, Label.IsPlain c
  colon_not_mem : ':' ∉ f.key.text
  value_trimmed : IsTrimmed f.value
  value_line : OneLine f.value

theorem isBlank_of_isBreak {c : Char} (h : isBreak c = true) : isBlank c = true := by
  rcases isBreak_iff.1 h with rfl | rfl <;> decide

/-- Where there is no white space, there is no line end. -/
theorem oneLine_of_forall {t : Text} (h : ∀ c ∈ t, isBlank c = false) : OneLine t := by
  intro c hc
  rw [Bool.eq_false_iff]
  intro hbreak
  exact Bool.false_ne_true ((h c hc).symm.trans (isBlank_of_isBreak hbreak))

/-- The entry that a field is written as. -/
def Entry.ofField (f : Field) : Entry := ⟨f.key.text, f.value⟩

/-- A stated field is what an entry can be, its label taken for its name. -/
theorem Stated.isStatement {f : Field} (h : Stated f) : (Entry.ofField f).IsStatement where
  name_ne_nil := h.label_ne_nil
  name_trimmed := isTrimmed_of_forall fun c hc => (h.label_plain c hc).not_blank
  colon_not_mem := h.colon_not_mem
  name_line := oneLine_of_forall fun c hc => (h.label_plain c hc).not_blank
  value_trimmed := h.value_trimmed
  value_line := h.value_line

theorem isStatement_of_mem_ofField {fields : List Field} (h : ∀ f ∈ fields, Stated f) {e : Entry}
    (he : e ∈ fields.map Entry.ofField) : e.IsStatement := by
  obtain ⟨f, hf, rfl⟩ := List.mem_map.1 he
  exact (h f hf).isStatement

namespace Dialect

variable {d : Dialect}

/-- No label is renamed, and every rename is to a name with a label. -/
def KeepsLabels (d : Dialect) : Prop :=
  ∀ b ∈ d.renames, (∃ c ∈ b.key, ¬ Label.IsPlain c) ∧
    (∃ c ∈ b.value, isBlank c = false) ∧ ':' ∉ b.value

instance (d : Dialect) : Decidable d.KeepsLabels := inferInstanceAs (Decidable (∀ b ∈ d.renames, _))

theorem fields_append {t : Text} (ht : LineEnds t) (a b : Text) :
    d.fields (a ++ t ++ b) = d.fields a ++ d.fields b := by
  rw [fields, Entry.all_append ht, List.map_append, ← fields, ← fields]

theorem rename_eq_or_mem (d : Dialect) (name : Text) :
    d.rename name = name ∨ ⟨name, d.rename name⟩ ∈ d.renames := by
  unfold rename
  cases h : Binding.firstValue? d.renames name with
  | none => exact .inl rfl
  | some value => exact .inr (Binding.mem_of_firstValue? h)

theorem rename_of_isPlain (hd : d.KeepsLabels) {name : Text} (h : ∀ c ∈ name, Label.IsPlain c) :
    d.rename name = name := by
  refine (d.rename_eq_or_mem name).resolve_right fun hm => ?_
  obtain ⟨c, hc, hplain⟩ := (hd _ hm).1
  exact hplain (h c hc)

theorem stated_field (hd : d.KeepsLabels) {e : Entry} (he : Entry.IsStatement e) :
    Stated (d.field e) := by
  have hname : (∃ c ∈ d.rename e.key, isBlank c = false) ∧ ':' ∉ d.rename e.key := by
    rcases d.rename_eq_or_mem e.key with h | h
    · rw [h]
      exact ⟨exists_not_isBlank_of_isTrimmed he.name_trimmed he.name_ne_nil, he.colon_not_mem⟩
    · exact (hd _ h).2
  exact {
    label_ne_nil := Label.ofText_ne_nil hname.1
    label_plain := fun _ => Label.isPlain_of_mem_ofText
    colon_not_mem := Label.colon_not_mem_ofText hname.2
    value_trimmed := he.value_trimmed
    value_line := he.value_line }

/-- Every field of a listing is stated. -/
theorem stated_of_mem_fields (hd : d.KeepsLabels) {t : Text} {f : Field} (h : f ∈ d.fields t) :
    Stated f := by
  obtain ⟨e, he, rfl⟩ := List.mem_map.1 h
  exact stated_field hd (Entry.isStatement_of_mem_all he)

theorem field_of_stated (hd : d.KeepsLabels) {f : Field} (h : Stated f) :
    d.field (.ofField f) = f := by
  rw [field, Entry.ofField, rename_of_isPlain hd h.label_plain, Label.ofText_of_isPlain h.label_plain]

theorem fieldLine_eq (f : Field) : fieldLine f = (Entry.ofField f).line ++ ['\n'] := by
  simp [fieldLine, namedLine, Entry.line, Entry.ofField]

/-- The lines of stated fields have these fields. -/
theorem fields_fieldLines (hd : d.KeepsLabels) {fs : List Field} (h : ∀ f ∈ fs, Stated f) :
    d.fields (fs.flatMap fieldLine) = fs := by
  have hlines : fs.flatMap fieldLine =
      ((fs.map Entry.ofField).map Entry.line).flatMap (· ++ ['\n']) := by
    rw [List.flatMap_map, List.flatMap_map, funext fieldLine_eq]
  have hs : ∀ e ∈ fs.map Entry.ofField, e.IsStatement := fun _ => isStatement_of_mem_ofField h
  rw [fields, hlines, Entry.all_of_writes (Entry.forall₂_map_writes Entry.writes_line hs) hs,
    List.map_map]
  calc fs.map (d.field ∘ Entry.ofField) = fs.map id :=
        List.map_congr_left fun f hf => field_of_stated hd (h f hf)
    _ = fs := List.map_id fs

end Dialect

namespace Architecture

theorem keepsLabels (a : Architecture) : a.dialect.KeepsLabels := by
  cases a <;> decide

end Architecture

end ProcessorListing
