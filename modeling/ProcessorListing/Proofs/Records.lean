import ProcessorListing.Record
import Mathlib.Data.List.Basic
import Mathlib.Data.List.Induction

/-!
# What a record is

A record is what its labels and their values say (`fields_eq_filterMap`), so two records with the
same labels, in the same order, and the same values are one (`ext_get?`).  Setting fields one after
the other leaves their labels in order of first appearance, each with its last value; `latest` is
this list, and `fields_ofFields` says that the record is it.

Two consequences carry the readings of a listing.  A record that is read back from its own fields is
the same record (`ofFields_fields`), and setting a field that a record has already changes nothing
(`set_eq_self`).
-/

namespace ProcessorListing

namespace Binding

variable {κ : Type} [DecidableEq κ]

/-- Every key that is bound, in order of first appearance, with the last value bound to it. -/
def latest (bindings : List (Binding κ)) : List (Binding κ) :=
  (bindings.map (·.key)).eraseDups.filterMap fun key =>
    (lastValue? bindings key).map fun value => ⟨key, value⟩

end Binding

namespace Record

theorem get?_eq_some_iff {r : Record} {key : Label} {value : Text} :
    r.get? key = some value ↔ ⟨key, value⟩ ∈ r.fields :=
  ⟨Binding.mem_of_firstValue?, fun h => Binding.firstValue?_of_mem r.distinct h⟩

theorem fields_eq_filterMap_of_nodup {fields : List Field} (hd : (fields.map (·.key)).Nodup) :
    fields = (fields.map (·.key)).filterMap fun key =>
      (Binding.firstValue? fields key).map fun value => ⟨key, value⟩ := by
  have hvalue : ∀ f ∈ fields, Binding.firstValue? fields f.key = some f.value :=
    fun f hf => Binding.firstValue?_of_mem hd hf
  rw [List.filterMap_map]
  conv => lhs; rw [← List.filterMap_some (l := fields)]
  refine List.filterMap_congr fun f hf => ?_
  simp [hvalue f hf]

/-- A record is its labels with their values. -/
theorem fields_eq_filterMap (r : Record) :
    r.fields = r.labels.filterMap fun key => (r.get? key).map fun value => ⟨key, value⟩ :=
  fields_eq_filterMap_of_nodup r.distinct

theorem ext_get? {r s : Record} (hl : r.labels = s.labels) (hg : ∀ key, r.get? key = s.get? key) :
    r = s := by
  apply ext
  rw [fields_eq_filterMap r, fields_eq_filterMap s, hl]
  simp only [hg]

theorem labels_set (r : Record) (f : Field) :
    (r.set f).labels = if f.key ∈ r.labels then r.labels else r.labels ++ [f.key] :=
  labels_insert ..

theorem get?_set (r : Record) (f : Field) (key : Label) :
    (r.set f).get? key = if f.key = key then some f.value else r.get? key :=
  get?_insert ..

/-- Setting a field that is there already changes nothing. -/
theorem set_eq_self {r : Record} {f : Field} (h : f ∈ r.fields) : r.set f = r := by
  have hlabel : f.key ∈ r.labels := List.mem_map_of_mem h
  refine ext_get? (by rw [labels_set, if_pos hlabel]) fun key => ?_
  rw [get?_set]
  split
  next e => exact (get?_eq_some_iff.2 (e ▸ h)).symm
  next => rfl

theorem foldl_set_eq_self {r : Record} {fields : List Field} (h : ∀ f ∈ fields, f ∈ r.fields) :
    fields.foldl set r = r := by
  induction fields with
  | nil => rfl
  | cons f rest ih =>
    rw [List.foldl_cons, set_eq_self (h f (by simp))]
    exact ih fun g hg => h g (by simp [hg])

theorem fields_set_of_not_mem {r : Record} {f : Field} (h : f.key ∉ r.labels) :
    (r.set f).fields = r.fields ++ [f] := by
  have hnone : overwrite f.key f.value r.fields = none := overwrite_eq_none_iff.2 h
  unfold set insert
  split
  next hsome => simp [hnone] at hsome
  next => rfl

/-- Fields with labels that are new, and distinct, are set at the end in their order. -/
theorem fields_foldl_set {r : Record} {fields : List Field}
    (hd : ((r.fields ++ fields).map (·.key)).Nodup) :
    (fields.foldl set r).fields = r.fields ++ fields := by
  induction fields generalizing r with
  | nil => simp
  | cons f rest ih =>
    have hnew : f.key ∉ r.labels := by
      rw [List.map_append, List.nodup_append] at hd
      exact fun hm => hd.2.2 _ hm f.key (by simp) rfl
    have hset : (r.set f).fields = r.fields ++ [f] := fields_set_of_not_mem hnew
    rw [List.foldl_cons, ih (by simpa [hset] using hd), hset]
    simp

theorem fields_ofFields_of_nodup {fields : List Field} (hd : (fields.map (·.key)).Nodup) :
    (ofFields fields).fields = fields :=
  fields_foldl_set (by simpa [empty] using hd)

/-- A field with a label that is new to a record goes before the fields of the record. -/
theorem fields_ofFields_cons_fields {f : Field} {r : Record} (h : f.key ∉ r.labels) :
    (ofFields (f :: r.fields)).fields = f :: r.fields := by
  apply fields_ofFields_of_nodup
  rw [List.map_cons, List.nodup_cons]
  exact ⟨h, r.distinct⟩

/-- A record is made of its own fields. -/
theorem ofFields_fields (r : Record) : ofFields r.fields = r :=
  ext (fields_ofFields_of_nodup r.distinct)

/-! ## Records of arbitrary fields -/

theorem ofFields_concat (fields : List Field) (f : Field) :
    ofFields (fields ++ [f]) = (ofFields fields).set f :=
  List.foldl_append ..

/-- Labels stand in order of first appearance. -/
theorem labels_ofFields (fields : List Field) :
    (ofFields fields).labels = (fields.map (·.key)).eraseDups := by
  induction fields using List.reverseRecOn with
  | nil => rfl
  | append_singleton fields f ih =>
    rw [ofFields_concat, labels_set, ih, List.map_append, List.eraseDups_append]
    by_cases hm : f.key ∈ fields.map (·.key)
    · have hrest : [f.key].removeAll (fields.map (·.key)) = [] := by
        rw [List.removeAll, List.filter_cons_of_neg (by simpa using hm), List.filter_nil]
      rw [if_pos (List.mem_eraseDups.2 hm), List.map_singleton, hrest]
      simp
    · have hrest : [f.key].removeAll (fields.map (·.key)) = [f.key] := by
        rw [List.removeAll, List.filter_cons_of_pos (by simpa using hm), List.filter_nil]
      rw [if_neg (fun h => hm (List.mem_eraseDups.1 h)), List.map_singleton, hrest]
      rfl

theorem fields_ofFields (fields : List Field) :
    (ofFields fields).fields = Binding.latest fields := by
  rw [fields_eq_filterMap, labels_ofFields]
  simp only [get?_ofFields, Binding.latest]

/-- A record has no fields but those that were set. -/
theorem mem_of_mem_ofFields {fields : List Field} {f : Field} (h : f ∈ (ofFields fields).fields) :
    f ∈ fields := by
  have hget : (ofFields fields).get? f.key = some f.value := get?_eq_some_iff.2 h
  rw [get?_ofFields] at hget
  exact Binding.mem_of_lastValue? hget

end Record

end ProcessorListing
