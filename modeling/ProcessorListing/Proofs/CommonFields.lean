import ProcessorListing.Proofs.Agreement
import ProcessorListing.Proofs.SharedLayout

/-!
# The common fields against the units

A layout in stanzas compares the units and takes for common what they agree on.  A shared layout
compares nothing: what it takes for common is the record that it copies into every unit.  Where there
are units, the two come to the same.  A unit of a shared layout answers for every label but the
delimiter as the common fields do (`Arrangement.get?_of_mem_units_ofShared`), and units that give
the same answer agree on it, also where none of them has the label (`get?_agreement_of_forall`).

So a common field can be looked up in any unit, and its number can be read there too
(`Summary.ofText_common_honest`).
-/

namespace ProcessorListing

/-- What all units answer for a label, be it that they do not have it, is what they agree on. -/
theorem get?_agreement_of_forall {units : List Record} (hne : units ≠ []) {label : Label}
    {answer : Option Text} (h : ∀ u ∈ units, u.get? label = answer) :
    (agreement units).get? label = answer := by
  obtain ⟨first, hfirst⟩ := List.exists_mem_of_ne_nil units hne
  refine Option.ext fun value => ?_
  rw [get?_agreement_eq_some_iff]
  constructor
  · rintro ⟨-, hall⟩
    rw [← h first hfirst]
    exact hall first hfirst
  · intro hvalue
    exact ⟨hne, fun u hu => (h u hu).trans hvalue⟩

/-- The fields of a record, put in order, answer as the record does. -/
theorem Record.get?_ofList_fields (r : Record) (label : Label) :
    (Catalog.ofList r.fields).get? label = r.get? label := by
  rw [Catalog.get?_ofList, Binding.lastValue?_eq_firstValue? r.distinct, Record.get?]

namespace Arrangement

variable {delimiter remark : Label} {fields : List Field}

/-- A unit of a shared layout has the common fields besides its own. -/
theorem get?_of_mem_units_ofShared {u : Record}
    (hu : u ∈ (ofShared delimiter remark fields).units) {label : Label}
    (hlabel : label ≠ delimiter) :
    u.get? label = (ofShared delimiter remark fields).common.get? label := by
  have hsound : (Sorting.ofFields delimiter remark fields).Sound delimiter remark :=
    Sorting.sound_ofFields fields
  obtain ⟨f, hf, rfl⟩ := List.mem_map.1 hu
  have hkey : f.key = delimiter := hsound.own f hf
  have hfields := Record.fields_ofFields_cons_fields (hsound.own_not_mem_shared hf)
  rw [ofShared, Record.get?_ofList_fields, Record.get?, hfields, Binding.firstValue?_cons,
    if_neg (hkey ▸ hlabel.symm), Record.get?]

/-- The delimiter is no common field of a shared layout. -/
theorem get?_common_ofShared_delimiter :
    (ofShared delimiter remark fields).common.get? delimiter = none := by
  have hsound : (Sorting.ofFields delimiter remark fields).Sound delimiter remark :=
    Sorting.sound_ofFields fields
  rw [ofShared, Record.get?_ofList_fields, Record.get?, Binding.firstValue?_eq_none_iff]
  intro hm
  obtain ⟨f, hf, hkey⟩ := List.mem_map.1 hm
  exact (hsound.shared f hf).1 hkey

/-- With units, the common fields of a shared layout are those that its units agree on, the delimiter
aside. -/
theorem get?_common_ofShared (hne : (ofShared delimiter remark fields).units ≠ []) {label : Label}
    (hlabel : label ≠ delimiter) :
    (ofShared delimiter remark fields).common.get? label =
      (agreement (ofShared delimiter remark fields).units).get? label :=
  (get?_agreement_of_forall hne fun _ hu => get?_of_mem_units_ofShared hu hlabel).symm

end Arrangement

namespace Summary

open Architecture

/-- Where every unit has a common field, its number can be read in any of them. -/
theorem number?_eq_of_get?_eq {s : Summary} {u : Record} {label : Label}
    (h : u.get? label = s.common.get? label) :
    s.number? label = u.number? label (s.architecture.dialect.radix label) := by
  rw [number?, Record.number?, h]

/-- **Common fields are what the units have in common.**  In x86 and in ARM listings with units the
common fields are those on which the units agree, except that an ARM listing never counts the label
`processor` among them, even if the units agree on it.  Each of them stands in every unit, and
denotes the same number there. -/
theorem ofText_common_honest {a : Architecture} (ha : a = .x86_64 ∨ a = .aarch64) (t : Text) :
    let summary := ofText a t
    (summary.units ≠ [] → ∀ label, label ≠ processor ∨ a = .x86_64 →
      summary.common.get? label = (agreement summary.units).get? label) ∧
    (a = .aarch64 → summary.common.get? processor = none) ∧
    ∀ label value, summary.common.get? label = some value → ∀ u ∈ summary.units,
      u.get? label = some value ∧
        summary.number? label = u.number? label (a.dialect.radix label) := by
  intro summary
  have hunit : ∀ label value, summary.common.get? label = some value → ∀ u ∈ summary.units,
      u.get? label = summary.common.get? label := by
    intro label value hvalue u hu
    rcases ha with rfl | rfl
    · rw [hvalue]
      exact (get?_agreement_eq_some_iff.1 hvalue).2 u hu
    · refine Arrangement.get?_of_mem_units_ofShared hu ?_
      rintro rfl
      have hnone : summary.common.get? processor = none := Arrangement.get?_common_ofShared_delimiter
      cases hnone.symm.trans hvalue
  refine ⟨fun hne label hlabel => ?_, ?_, fun label value hvalue u hu => ?_⟩
  · rcases ha with rfl | rfl
    · rfl
    · exact Arrangement.get?_common_ofShared hne (hlabel.resolve_right (by decide))
  · rintro rfl
    exact Arrangement.get?_common_ofShared_delimiter
  · have hget := hunit label value hvalue u hu
    exact ⟨hget.trans hvalue, number?_eq_of_get?_eq hget⟩

/-- A part number of one ARM unit, which agrees with itself on `processor` too. -/
theorem ofText_common_honest_part :
    (ofText .aarch64 "processor: 0\nCPU part: 0xd0c".toList).units =
      [.ofFields [⟨processor, "0".toList⟩, ⟨⟨"cpu_part".toList⟩, "0xd0c".toList⟩]] ∧
    (ofText .aarch64 "processor: 0\nCPU part: 0xd0c".toList).common.get? ⟨"cpu_part".toList⟩ =
      (agreement (ofText .aarch64 "processor: 0\nCPU part: 0xd0c".toList).units).get?
        ⟨"cpu_part".toList⟩ ∧
    (ofText .aarch64 "processor: 0\nCPU part: 0xd0c".toList).common.get? processor = none ∧
    (ofText .aarch64 "processor: 0\nCPU part: 0xd0c".toList).number? ⟨"cpu_part".toList⟩ =
      Record.number? (.ofFields [⟨processor, "0".toList⟩, ⟨⟨"cpu_part".toList⟩, "0xd0c".toList⟩])
        ⟨"cpu_part".toList⟩ .hexadecimal := by
  have h := ofText_common_honest (.inr rfl) "processor: 0\nCPU part: 0xd0c".toList
  refine ⟨by decide +kernel, h.1 (by decide +kernel) _ (.inl (by decide)), h.2.1 rfl, ?_⟩
  exact (h.2.2 _ "0xd0c".toList (by decide +kernel) _ (by decide +kernel)).2

end Summary

end ProcessorListing
