import ProcessorListing.Proofs.NormalForm

/-!
# What every summary keeps

Two things hold of a summary whatever its listing was.  Its fields are fields of the listing, so each
of them is `Stated` (`Summary.only_stated`).  And each stands where the layout wants it: the units
open with the delimiter, which is found nowhere else, and a remark or a sentinel does not get into the
units (`Arrangement.placed_ofFields`).  The second is read off the invariants of the two machines,
`Splitting.Sound` and `Sorting.Sound`.

`Summary.ofText_wellFormed` puts both together for whole listings.
-/

namespace ProcessorListing

namespace Arrangement

variable {P Q : Field → Prop}

theorem Only.mono {a : Arrangement} (ha : a.Only P) (h : ∀ f, P f → Q f) : a.Only Q where
  units u hu f hf := h f (ha.units u hu f hf)
  common f hf := h f (ha.common f hf)
  other f hf := h f (ha.other f hf)

/-- The labels stand where a layout wants them. -/
structure Placed (delimiter : Label) (layout : Layout) (a : Arrangement) : Prop where
  opens : ∀ u ∈ a.units, u.OpensWith delimiter
  other_ne : ∀ f ∈ a.other, f.key ≠ delimiter
  remarks : ∀ remark, layout = .shared remark →
    (∀ f ∈ a.other, f.key = remark) ∧ (∀ u ∈ a.units, remark ∉ u.labels) ∧
      ∀ f ∈ a.common.bindings, f.key ≠ delimiter ∧ f.key ≠ remark
  sentinel : ∀ sentinel, layout = .bounded sentinel →
    (∀ f ∈ a.other, f.key ≠ sentinel) ∧ ∀ u ∈ a.units, sentinel ∉ u.labels

variable {delimiter : Label} (fields : List Field)

theorem placed_ofStanzas : (ofStanzas delimiter fields).Placed delimiter .stanzas := by
  have hsound : (Splitting.ofFields delimiter fields).Sound delimiter fun _ => True :=
    Splitting.sound_ofFields fun _ _ => trivial
  exact {
    opens := fun u hu => (hsound.units u hu).opens
    other_ne := fun f hf => (hsound.lead f hf).1
    remarks := nofun
    sentinel := nofun }

theorem placed_ofShared {remark : Label} (hne : remark ≠ delimiter) :
    (ofShared delimiter remark fields).Placed delimiter (.shared remark) := by
  have hsound : (Sorting.ofFields delimiter remark fields).Sound delimiter remark :=
    Sorting.sound_ofFields fields
  -- A unit has no labels but the delimiter and those of the shared fields.
  have hlabels : ∀ u ∈ (ofShared delimiter remark fields).units, remark ∉ u.labels := by
    intro u hu hm
    obtain ⟨f, hf, rfl⟩ := List.mem_map.1 hu
    obtain ⟨g, hg, hkey⟩ := List.mem_map.1 hm
    rcases List.mem_cons.1 (Record.mem_of_mem_ofFields hg) with rfl | hg
    · exact hne (hkey.symm.trans (hsound.own g hf))
    · exact (hsound.shared g hg).2 hkey
  constructor
  · intro u hu
    obtain ⟨f, hf, rfl⟩ := List.mem_map.1 hu
    exact hsound.own f hf ▸ Record.opensWith_ofFields_cons f _
  · exact fun f hf => (hsound.remarks f hf).1
  · rintro _ ⟨⟩
    exact ⟨fun f hf => (hsound.remarks f hf).2, hlabels,
      fun f hf => hsound.shared f (Catalog.mem_of_mem_ofList hf)⟩
  · exact nofun

theorem placed_ofBounded (sentinel : Label) :
    (ofBounded delimiter sentinel fields).Placed delimiter (.bounded sentinel) := by
  have hsound := Splitting.sound_takeWhile delimiter fields sentinel
  constructor
  · exact fun u hu => (hsound.units u hu).opens
  · exact fun f hf => (hsound.lead f hf).1
  · exact nofun
  · rintro _ ⟨⟩
    refine ⟨fun f hf => (hsound.lead f hf).2, fun u hu hm => ?_⟩
    obtain ⟨f, hf, hkey⟩ := List.mem_map.1 hm
    exact (hsound.units u hu).fields f hf hkey

/-- Whatever is arranged, the labels stand where the layout wants them. -/
theorem placed_ofFields {layout : Layout} (h : layout ≠ .shared delimiter) :
    (ofFields delimiter layout fields).Placed delimiter layout := by
  cases layout with
  | stanzas => exact placed_ofStanzas fields
  | shared remark => exact placed_ofShared fields fun e => h (congrArg Layout.shared e)
  | bounded sentinel => exact placed_ofBounded fields sentinel

end Arrangement

namespace Summary

open Text Architecture

/-- A summary has no fields but those that lines state. -/
theorem only_stated (a : Architecture) (t : Text) : (ofText a t).Only Stated :=
  Arrangement.only_ofFields _ _ fun _ hf => Dialect.stated_of_mem_fields a.keepsLabels hf

theorem placed_ofText (a : Architecture) (t : Text) :
    (ofText a t).Placed processor a.dialect.layout := by
  have hdelimiter : a.dialect.delimiter = processor := by cases a <;> rfl
  have hlayout : a.dialect.layout ≠ .shared processor := by cases a <;> decide
  rw [← hdelimiter] at hlayout ⊢
  exact Arrangement.placed_ofFields _ hlayout

/-- **Well-formed summaries.**  In every summary the labels are canonical, not empty and without a
colon, and the values are trimmed and stand on one line.  A unit has every label once and
`processor` first; no remark is labelled `processor`.  The remarks of an ARM listing are its
`hardware` fields, which stand nowhere else, and `processor` is not common there; in a POWER listing
`timebase` is neither in the units nor among the remarks. -/
theorem ofText_wellFormed (a : Architecture) (t : Text) :
    let summary := ofText a t
    summary.Only (fun f => f.key.text ≠ [] ∧ Label.IsCanonical f.key.text ∧ ':' ∉ f.key.text ∧
      OneLine f.value ∧ IsTrimmed f.value) ∧
    (∀ u ∈ summary.units, u.labels.Nodup ∧ u.labels.head? = some processor) ∧
    (∀ f ∈ summary.other, f.key ≠ processor) ∧
    (a = .aarch64 →
      (∀ f ∈ summary.other, f.key = hardware) ∧ (∀ u ∈ summary.units, hardware ∉ u.labels) ∧
        ∀ f ∈ summary.common.bindings, f.key ≠ processor ∧ f.key ≠ hardware) ∧
    (a = .ppc64 ∨ a = .ppc64le →
      (∀ f ∈ summary.other, f.key ≠ timebase) ∧ ∀ u ∈ summary.units, timebase ∉ u.labels) := by
  intro summary
  have hplaced : summary.Placed processor a.dialect.layout := placed_ofText a t
  refine ⟨(only_stated a t).mono fun f hf => ?_, fun u hu => ?_, hplaced.other_ne, ?_, ?_⟩
  · exact ⟨hf.label_ne_nil, Label.ofText_of_isPlain hf.label_plain, hf.colon_not_mem, hf.value_line,
      hf.value_trimmed⟩
  · exact ⟨u.distinct, hplaced.opens u hu⟩
  · rintro rfl
    exact hplaced.remarks hardware rfl
  · rintro (rfl | rfl)
    · exact hplaced.sentinel timebase rfl
    · exact hplaced.sentinel timebase rfl

/-- The unit of an ARM listing that names its model with a colon, and its remark. -/
theorem ofText_wellFormed_named :
    Record.ofFields [⟨processor, "0".toList⟩, ⟨⟨"model_name".toList⟩, "v8: 1".toList⟩] ∈
      (ofText .aarch64 "Hardware: B\nPROCESSOR : 0\nProcessor: v8: 1 ".toList).units ∧
    (Label.IsCanonical "model_name".toList ∧ IsTrimmed "v8: 1".toList) ∧
    hardware ∉
      (Record.ofFields [⟨processor, "0".toList⟩, ⟨⟨"model_name".toList⟩, "v8: 1".toList⟩]).labels ∧
    (ofText .aarch64 "Hardware: B\nPROCESSOR : 0\nProcessor: v8: 1 ".toList).other =
      [⟨hardware, "B".toList⟩] ∧ hardware ≠ processor := by
  have h := ofText_wellFormed .aarch64 "Hardware: B\nPROCESSOR : 0\nProcessor: v8: 1 ".toList
  have hunit : Record.ofFields [⟨processor, "0".toList⟩, ⟨⟨"model_name".toList⟩, "v8: 1".toList⟩] ∈
      (ofText .aarch64 "Hardware: B\nPROCESSOR : 0\nProcessor: v8: 1 ".toList).units := by
    decide +kernel
  have hname := h.1.units _ hunit ⟨⟨"model_name".toList⟩, "v8: 1".toList⟩ (by decide)
  refine ⟨hunit, ⟨hname.2.1, hname.2.2.2.2⟩, (h.2.2.2.1 rfl).2.1 _ hunit, by decide +kernel, ?_⟩
  exact h.2.2.1 ⟨hardware, "B".toList⟩ (by decide +kernel)

end Summary

end ProcessorListing
