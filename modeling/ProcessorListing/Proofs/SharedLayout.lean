import ProcessorListing.Summary.Basic
import ProcessorListing.Proofs.Records

/-!
# Fields that apply to every unit

Sorting the fields of a shared layout keeps three of their subsequences apart: the fields that are
units of their own, the remarks, and the rest, which become one record.  A step looks at the label
alone, so how the three are interleaved does not show (`Sorting.foldl_step`).  Written out again,
with the shared fields after every unit, they are sorted into the same parts
(`Sorting.ofFields_of_sound`).

A unit is its own field and, after it, the record of the shared ones.  `Summary.ofText_aarch64` says
what this comes to for whole ARM listings, in terms of the entries on their lines.
-/

namespace ProcessorListing

namespace Sorting

variable {delimiter remark : Label}

/-- Whatever has been sorted before, each of the three parts goes on with its own subsequence. -/
theorem foldl_step (fields : List Field) (s : Sorting) :
    fields.foldl (step delimiter remark) s =
      ⟨s.own ++ fields.filter (·.key = delimiter),
        (fields.filter fun f => f.key ≠ delimiter ∧ f.key ≠ remark).foldl Record.set s.shared,
        s.remarks ++ fields.filter fun f => f.key ≠ delimiter ∧ f.key = remark⟩ := by
  induction fields generalizing s with
  | nil => simp
  | cons f rest ih =>
    rw [List.foldl_cons, ih]
    by_cases hown : f.key = delimiter
    · simp [step, hown]
    · by_cases hremark : f.key = remark
      · subst hremark
        simp [step, hown]
      · simp [step, hown, hremark]

theorem ofFields_eq (fields : List Field) :
    ofFields delimiter remark fields =
      ⟨fields.filter (·.key = delimiter),
        .ofFields (fields.filter fun f => f.key ≠ delimiter ∧ f.key ≠ remark),
        fields.filter fun f => f.key ≠ delimiter ∧ f.key = remark⟩ :=
  foldl_step fields _

/-- Every field stands in the part that its label calls for. -/
structure Sound (delimiter remark : Label) (s : Sorting) : Prop where
  own : ∀ f ∈ s.own, f.key = delimiter
  shared : ∀ f ∈ s.shared.fields, f.key ≠ delimiter ∧ f.key ≠ remark
  remarks : ∀ f ∈ s.remarks, f.key ≠ delimiter ∧ f.key = remark

theorem sound_ofFields (fields : List Field) :
    (ofFields delimiter remark fields).Sound delimiter remark := by
  rw [ofFields_eq]
  constructor
  · intro f hf
    exact of_decide_eq_true (List.mem_filter.1 hf).2
  · intro f hf
    exact of_decide_eq_true (List.mem_filter.1 (Record.mem_of_mem_ofFields hf)).2
  · intro f hf
    exact of_decide_eq_true (List.mem_filter.1 hf).2

theorem Sound.own_not_mem_shared {s : Sorting} (hs : s.Sound delimiter remark) {f : Field}
    (hf : f ∈ s.own) : f.key ∉ s.shared.labels := by
  intro hm
  obtain ⟨g, hg, hkey⟩ := List.mem_map.1 hm
  exact (hs.shared g hg).1 (hkey.trans (hs.own f hf))

/-! ## Sorting anew -/

theorem foldl_step_remarks {fields : List Field}
    (h : ∀ f ∈ fields, f.key ≠ delimiter ∧ f.key = remark) (s : Sorting) :
    fields.foldl (step delimiter remark) s = { s with remarks := s.remarks ++ fields } := by
  have hown : fields.filter (·.key = delimiter) = [] :=
    List.filter_eq_nil_iff.2 fun f hf => by simp [(h f hf).1]
  have hshared : (fields.filter fun f => f.key ≠ delimiter ∧ f.key ≠ remark) = [] :=
    List.filter_eq_nil_iff.2 fun f hf => by simp [(h f hf).2]
  have hremarks : (fields.filter fun f => f.key ≠ delimiter ∧ f.key = remark) = fields :=
    List.filter_eq_self.2 fun f hf => decide_eq_true (h f hf)
  rw [foldl_step, hown, hshared, hremarks, List.append_nil, List.foldl_nil]

theorem foldl_step_shared {fields : List Field}
    (h : ∀ f ∈ fields, f.key ≠ delimiter ∧ f.key ≠ remark) (s : Sorting) :
    fields.foldl (step delimiter remark) s =
      { s with shared := fields.foldl Record.set s.shared } := by
  have hown : fields.filter (·.key = delimiter) = [] :=
    List.filter_eq_nil_iff.2 fun f hf => by simp [(h f hf).1]
  have hshared : (fields.filter fun f => f.key ≠ delimiter ∧ f.key ≠ remark) = fields :=
    List.filter_eq_self.2 fun f hf => decide_eq_true (h f hf)
  have hremarks : (fields.filter fun f => f.key ≠ delimiter ∧ f.key = remark) = [] :=
    List.filter_eq_nil_iff.2 fun f hf => by simp [(h f hf).2]
  rw [foldl_step, hown, hshared, hremarks, List.append_nil, List.append_nil]

/-- Units that are followed by the same fields: the first of them sets these fields, and the others
find them set. -/
theorem foldl_step_units {own : List Field} (hown : ∀ f ∈ own, f.key = delimiter) {r : Record}
    (hr : ∀ f ∈ r.fields, f.key ≠ delimiter ∧ f.key ≠ remark) {s : Sorting}
    (hs : r.fields.foldl Record.set s.shared = r) :
    (own.flatMap fun f => f :: r.fields).foldl (step delimiter remark) s =
      ⟨s.own ++ own, if own = [] then s.shared else r, s.remarks⟩ := by
  induction own generalizing s with
  | nil => simp
  | cons f rest ih =>
    have hfirst : (f :: r.fields).foldl (step delimiter remark) s =
        ⟨s.own ++ [f], r, s.remarks⟩ := by
      rw [List.foldl_cons, foldl_step_shared hr, step, if_pos (hown f (by simp)), hs]
    have hself : r.fields.foldl Record.set r = r := Record.foldl_set_eq_self fun _ hf => hf
    rw [List.flatMap_cons, List.foldl_append, hfirst,
      ih (fun g hg => hown g (by simp [hg])) hself, if_neg (List.cons_ne_nil f rest)]
    simp

/-- Reading the parts of a sorting again, with shared fields `common` at the end.  Unless there are
units, which bring the shared fields with them, the shared fields are only these. -/
theorem ofFields_of_sound {s : Sorting} (hs : s.Sound delimiter remark) {common : List Field}
    (hcommon : ∀ f ∈ common, f ∈ s.shared.fields) :
    ofFields delimiter remark
        (s.remarks ++ (s.own.flatMap fun f => f :: s.shared.fields) ++ common) =
      ⟨s.own, if s.own = [] then .ofFields common else s.shared, s.remarks⟩ := by
  have hunits : (s.own.flatMap fun f => f :: s.shared.fields).foldl (step delimiter remark)
      ⟨[], .empty, s.remarks⟩ = ⟨s.own, if s.own = [] then .empty else s.shared, s.remarks⟩ :=
    foldl_step_units hs.own hs.shared (Record.ofFields_fields s.shared)
  rw [ofFields, List.foldl_append, List.foldl_append, foldl_step_remarks hs.remarks, List.nil_append,
    hunits, foldl_step_shared fun f hf => hs.shared f (hcommon f hf)]
  -- With a unit the shared fields are there already, and `common` adds nothing to them.
  by_cases hown : s.own = []
  · simp only [hown, if_true]
    rfl
  · simp only [hown, if_false, Record.foldl_set_eq_self hcommon]

end Sorting

namespace Architecture

/-- The fields of an ARM listing.  `Processor`, spelled just so, is taken for `model name`. -/
def armFields (t : Text) : List Field :=
  (Entry.all t).map fun e =>
    ⟨Label.ofText (if e.key = "Processor".toList then "model name".toList else e.key), e.value⟩

theorem rename_armDialect (name : Text) :
    armDialect.rename name = if name = "Processor".toList then "model name".toList else name := by
  have h : armDialect.rename name =
      (if "Processor".toList = name then some "model name".toList else none).getD name :=
    congrArg (Option.getD · name) (Binding.firstValue?_cons ..)
  rw [h]
  by_cases hname : "Processor".toList = name
  · rw [if_pos hname, if_pos hname.symm, Option.getD_some]
  · rw [if_neg hname, if_neg (Ne.symm hname), Option.getD_none]

theorem fields_armDialect (t : Text) : armDialect.fields t = armFields t := by
  apply List.map_congr_left
  intro e _
  rw [Dialect.field, rename_armDialect]

/-- The fields with one label. -/
def armLabelled (t : Text) (label : Label) : List Field := (armFields t).filter (·.key = label)

/-- The fields that apply to every unit. -/
def armShared (t : Text) : List Field :=
  (armFields t).filter fun f => f.key ≠ processor ∧ f.key ≠ hardware

theorem labels_armShared {t : Text} {label : Label}
    (h : label ∈ (Record.ofFields (armShared t)).labels) : label ≠ processor ∧ label ≠ hardware := by
  obtain ⟨f, hf, rfl⟩ := List.mem_map.1 h
  exact of_decide_eq_true (List.mem_filter.1 (Record.mem_of_mem_ofFields hf)).2

theorem arrange_armDialect (t : Text) :
    armDialect.arrange t =
      ⟨(armLabelled t processor).map fun f => .ofFields (f :: (Record.ofFields (armShared t)).fields),
        .ofList (Record.ofFields (armShared t)).fields, armLabelled t hardware⟩ := by
  have hremarks : ((armFields t).filter fun f => f.key ≠ processor ∧ f.key = hardware) =
      armLabelled t hardware := by
    have hne : hardware ≠ processor := by decide
    apply List.filter_congr
    intro f _
    rw [decide_eq_decide]
    exact ⟨And.right, fun h => ⟨h ▸ hne, h⟩⟩
  show Arrangement.ofShared processor hardware (armDialect.fields t) = _
  rw [fields_armDialect, Arrangement.ofShared, Sorting.ofFields_eq, hremarks]
  rfl

end Architecture

namespace Summary

open Architecture

/-- **ARM listings.**  A unit is its `processor` field and, after it, all shared fields, each with the
last value that the listing has for it; the shared fields are common, and the `hardware` fields are
remarks.  Listings that agree in these three parts agree in all of this. -/
theorem ofText_aarch64 (t : Text) :
    let summary := ofText .aarch64 t
    summary.other = armLabelled t hardware ∧
    (∀ label, summary.common.get? label =
      if label ≠ processor ∧ label ≠ hardware then Binding.lastValue? (armFields t) label else none) ∧
    summary.units.map (·.fields) =
      (armLabelled t processor).map (fun f => f :: Binding.latest (armShared t)) ∧
    ∀ u, armLabelled u processor = armLabelled t processor →
      armLabelled u hardware = armLabelled t hardware → armShared u = armShared t →
      (ofText .aarch64 u).units = summary.units ∧ (ofText .aarch64 u).common = summary.common ∧
        (ofText .aarch64 u).other = summary.other := by
  intro summary
  have harrange : summary.toArrangement = _ := arrange_armDialect t
  refine ⟨by rw [harrange], ?_, ?_, ?_⟩
  · intro label
    have hrecord : summary.common.get? label = (Record.ofFields (armShared t)).get? label := by
      rw [harrange, Catalog.get?_ofList,
        Binding.lastValue?_eq_firstValue? (Record.ofFields (armShared t)).distinct, Record.get?]
    rw [hrecord, Record.get?_ofFields]
    exact Binding.lastValue?_filter (fun label => label ≠ processor ∧ label ≠ hardware) ..
  · rw [harrange, List.map_map]
    apply List.map_congr_left
    intro f hf
    have hkey : f.key = processor := of_decide_eq_true (List.mem_filter.1 hf).2
    have hnew : f.key ∉ (Record.ofFields (armShared t)).labels := fun h =>
      (labels_armShared h).1 hkey
    rw [Function.comp_apply, Record.fields_ofFields_cons_fields hnew, Record.fields_ofFields]
  · intro u hown hremarks hshared
    have hu : (ofText .aarch64 u).toArrangement = summary.toArrangement := by
      rw [harrange, ← hown, ← hremarks, ← hshared]
      exact arrange_armDialect u
    exact ⟨by rw [hu], by rw [hu], by rw [hu]⟩

/-- The line `Processor` is shared, the line `PROCESSOR` is a unit, and either may come first. -/
theorem ofText_aarch64_reordered :
    (ofText .aarch64 "Processor: A\nPROCESSOR: 0".toList).units =
      (ofText .aarch64 "PROCESSOR: 0\nProcessor: A".toList).units :=
  ((ofText_aarch64 _).2.2.2 _ (by decide +kernel) (by decide +kernel) (by decide +kernel)).1

end Summary

end ProcessorListing
