import ProcessorListing.Proofs.Agreement
import ProcessorListing.Proofs.Listings
import ProcessorListing.Proofs.Sentinel
import ProcessorListing.Proofs.SharedLayout
import ProcessorListing.Proofs.Units

/-!
# The normal form of a listing

An arrangement is written out as fields again: the remarks, the fields of every unit, and, where the
common fields do not follow from the units, these as well, behind a sentinel if the layout has one.
Arranging them anew gives the arrangement they came from (`Arrangement.ofFields_normalFields`), one
layout at a time.

The fields are those of the listing, so their lines state them, and the normal form of a summary is a
listing with this summary (`Summary.ofText_normalForm`).
-/

namespace ProcessorListing

namespace Arrangement

/-- The fields from which an arrangement can be made again. -/
def normalFields (layout : Layout) (a : Arrangement) : List Field :=
  a.other ++ a.units.flatMap (·.fields) ++
    match layout with
    | .stanzas => []
    | .shared _ => a.common.bindings
    | .bounded sentinel => ⟨sentinel, "0".toList⟩ :: a.common.bindings

variable (delimiter : Label) (fields : List Field)

theorem ofStanzas_normalFields :
    ofStanzas delimiter ((ofStanzas delimiter fields).normalFields .stanzas) =
      ofStanzas delimiter fields := by
  have hsound : (Splitting.ofFields delimiter fields).Sound delimiter fun _ => True :=
    Splitting.sound_ofFields fun _ _ => trivial
  obtain ⟨hlead, hunits⟩ := Splitting.ofFields_of_sound hsound
  simp only [normalFields, ofStanzas, List.append_nil, hlead, hunits]

theorem ofBounded_normalFields (sentinel : Label) :
    ofBounded delimiter sentinel
        ((ofBounded delimiter sentinel fields).normalFields (.bounded sentinel)) =
      ofBounded delimiter sentinel fields := by
  have hsound := Splitting.sound_takeWhile delimiter fields sentinel
  obtain ⟨hlead, hunits⟩ := Splitting.ofFields_of_sound hsound
  have hbefore : ∀ f ∈ (ofBounded delimiter sentinel fields).other ++
      (ofBounded delimiter sentinel fields).units.flatMap (·.fields), f.key ≠ sentinel := by
    intro f hf
    rcases List.mem_append.1 hf with hf | hf
    · exact (hsound.lead f hf).2
    · obtain ⟨u, hu, hf⟩ := List.mem_flatMap.1 hf
      exact (hsound.units u hu).fields f hf
  rw [normalFields, ofBounded_append_cons hbefore rfl, Catalog.ofList_bindings]
  simp only [ofBounded, hlead, hunits]

theorem ofShared_of_sound {remark : Label} {s : Sorting} (hs : s.Sound delimiter remark) :
    ofShared delimiter remark (s.remarks ++ (s.own.flatMap fun f => f :: s.shared.fields) ++
        (Catalog.ofList s.shared.fields).bindings) =
      ⟨s.own.map fun f => .ofFields (f :: s.shared.fields), .ofList s.shared.fields, s.remarks⟩ := by
  rw [ofShared, Sorting.ofFields_of_sound hs fun f hf => Catalog.mem_of_mem_ofList hf]
  by_cases hown : s.own = []
  · have hfields := Record.fields_ofFields_of_nodup (Catalog.ofList s.shared.fields).keys_nodup
    simp only [hown, if_true, List.map_nil, hfields, Catalog.ofList_bindings]
  · simp only [hown, if_false]

theorem ofShared_normalFields (remark : Label) :
    ofShared delimiter remark ((ofShared delimiter remark fields).normalFields (.shared remark)) =
      ofShared delimiter remark fields := by
  have hs : (Sorting.ofFields delimiter remark fields).Sound delimiter remark :=
    Sorting.sound_ofFields fields
  have hunits : (ofShared delimiter remark fields).units.flatMap (·.fields) =
      (Sorting.ofFields delimiter remark fields).own.flatMap fun f =>
        f :: (Sorting.ofFields delimiter remark fields).shared.fields := by
    rw [ofShared, List.flatMap_map]
    apply List.flatMap_congr
    intro f hf
    exact Record.fields_ofFields_cons_fields (hs.own_not_mem_shared hf)
  rw [normalFields, hunits]
  exact ofShared_of_sound delimiter hs

/-- Arranging the normal form of an arrangement gives the arrangement. -/
theorem ofFields_normalFields (layout : Layout) :
    ofFields delimiter layout ((ofFields delimiter layout fields).normalFields layout) =
      ofFields delimiter layout fields := by
  cases layout with
  | stanzas => exact ofStanzas_normalFields delimiter fields
  | shared remark => exact ofShared_normalFields delimiter fields remark
  | bounded sentinel => exact ofBounded_normalFields delimiter fields sentinel

/-! ## Where the fields come from -/

/-- An arrangement of nothing but fields with `P`. -/
structure Only (P : Field → Prop) (a : Arrangement) : Prop where
  units : ∀ u ∈ a.units, ∀ f ∈ u.fields, P f
  common : ∀ f ∈ a.common.bindings, P f
  other : ∀ f ∈ a.other, P f

variable {P : Field → Prop} {fields}

theorem only_ofStanzas (h : ∀ f ∈ fields, P f) : (ofStanzas delimiter fields).Only P := by
  have hsound : (Splitting.ofFields delimiter fields).Sound delimiter P := Splitting.sound_ofFields h
  refine ⟨fun u hu => (hsound.units u hu).fields, ?_, fun f hf => (hsound.lead f hf).2⟩
  intro f hf
  obtain ⟨hne, hall⟩ := mem_agreement.1 hf
  obtain ⟨u, hu⟩ := List.exists_mem_of_ne_nil _ hne
  exact (hsound.units u hu).fields f (hall u hu)

theorem only_ofShared (remark : Label) (h : ∀ f ∈ fields, P f) :
    (ofShared delimiter remark fields).Only P := by
  have hfilter : ∀ (p : Field → Bool), ∀ f ∈ fields.filter p, P f := fun _ f hf =>
    h f (List.mem_of_mem_filter hf)
  rw [ofShared, Sorting.ofFields_eq]
  refine ⟨?_, ?_, hfilter _⟩
  · intro u hu f hf
    obtain ⟨g, hg, rfl⟩ := List.mem_map.1 hu
    rcases List.mem_cons.1 (Record.mem_of_mem_ofFields hf) with rfl | hf
    · exact hfilter _ f hg
    · exact hfilter _ f (Record.mem_of_mem_ofFields hf)
  · intro f hf
    exact hfilter _ f (Record.mem_of_mem_ofFields (Catalog.mem_of_mem_ofList hf))

theorem only_ofBounded (sentinel : Label) (h : ∀ f ∈ fields, P f) :
    (ofBounded delimiter sentinel fields).Only P := by
  have hsound : (Splitting.ofFields delimiter
      (fields.takeWhile (·.key ≠ sentinel))).Sound delimiter P :=
    Splitting.sound_ofFields fun f hf => h f (List.takeWhile_subset _ hf)
  refine ⟨fun u hu => (hsound.units u hu).fields, ?_, fun f hf => (hsound.lead f hf).2⟩
  intro f hf
  have hafter : f ∈ fields.dropWhile (·.key ≠ sentinel) :=
    List.mem_of_mem_drop (Catalog.mem_of_mem_ofList hf)
  exact h f (List.dropWhile_subset _ hafter)

/-- An arrangement has no fields but those that were arranged. -/
theorem only_ofFields (layout : Layout) (h : ∀ f ∈ fields, P f) :
    (ofFields delimiter layout fields).Only P := by
  cases layout with
  | stanzas => exact only_ofStanzas delimiter h
  | shared remark => exact only_ofShared delimiter remark h
  | bounded sentinel => exact only_ofBounded delimiter sentinel h

theorem Only.normalFields {a : Arrangement} (ha : a.Only P) {layout : Layout}
    (hmark : ∀ sentinel, layout = .bounded sentinel → P ⟨sentinel, "0".toList⟩) :
    ∀ f ∈ a.normalFields layout, P f := by
  intro f hf
  rcases List.mem_append.1 hf with hf | hf
  · rcases List.mem_append.1 hf with hf | hf
    · exact ha.other f hf
    · obtain ⟨u, hu, hf⟩ := List.mem_flatMap.1 hf
      exact ha.units u hu f hf
  · cases layout with
    | stanzas => cases hf
    | shared remark => exact ha.common f hf
    | bounded sentinel =>
      rcases List.mem_cons.1 hf with rfl | hf
      · exact hmark sentinel rfl
      · exact ha.common f hf

end Arrangement

namespace Summary

open Text Architecture

/-- The listing that a summary is written out as. -/
def normalForm (s : Summary) : Text :=
  (s.normalFields s.architecture.dialect.layout).flatMap fieldLine

/-- The line that stands for the sentinel in the normal form can be read. -/
theorem stated_sentinel {a : Architecture} {sentinel : Label}
    (h : a.dialect.layout = .bounded sentinel) : Stated ⟨sentinel, "0".toList⟩ := by
  have hsentinel : sentinel = timebase := by
    cases a <;> cases h <;> rfl
  rw [hsentinel]
  exact ⟨by decide, by decide, by decide, isTrimmed_of_forall (by decide), by decide⟩

/-- **Normal form.**  The summary of a listing is the summary of its normal form. -/
theorem ofText_normalForm (a : Architecture) (t : Text) :
    ofText a (ofText a t).normalForm = ofText a t := by
  have hstated : ∀ f ∈ (a.dialect.arrange t).normalFields a.dialect.layout, Stated f := by
    have honly : (a.dialect.arrange t).Only Stated :=
      Arrangement.only_ofFields _ _ fun f hf => Dialect.stated_of_mem_fields a.keepsLabels hf
    exact honly.normalFields fun _ h => stated_sentinel h
  have hfields : a.dialect.fields (ofText a t).normalForm =
      (a.dialect.arrange t).normalFields a.dialect.layout :=
    Dialect.fields_fieldLines a.keepsLabels hstated
  have harrange : a.dialect.arrange (ofText a t).normalForm = a.dialect.arrange t := by
    rw [Dialect.arrange, hfields]
    exact Arrangement.ofFields_normalFields ..
  rw [ofText, harrange, ofText]

end Summary

end ProcessorListing
