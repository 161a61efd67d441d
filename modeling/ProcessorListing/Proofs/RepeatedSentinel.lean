import ProcessorListing.Proofs.WellFormed

/-!
# Sentinels that are repeated

In a bounded layout only the first field with the sentinel's label is a boundary.  It is left out,
and every field after it is common, those with the sentinel's label not excepted.  So a listing that
repeats its sentinel binds the label in common, to the value of the last repetition
(`Arrangement.get?_common_ofBounded`); the units and the remarks stand before the boundary and never
have it.  The label is therefore absent from the whole arrangement exactly when it is not repeated
(`Arrangement.only_ofBounded_iff`).

`Summary.ofText_power_timebase` says this of whole POWER listings.
-/

namespace ProcessorListing

namespace Arrangement

variable {delimiter sentinel : Label} (fields : List Field)

/-- Of the fields with the sentinel's label the first is left out, and the last of the others is
common. -/
theorem get?_common_ofBounded :
    (ofBounded delimiter sentinel fields).common.get? sentinel =
      (fields.filter (·.key = sentinel)).tail.getLast?.map (·.value) := by
  -- The first field with the label, if there is one, is where `ofBounded` parts the fields.
  cases hmarks : fields.filter (·.key = sentinel) with
  | nil =>
    have hne : ∀ f ∈ fields, f.key ≠ sentinel := by
      simpa using List.filter_eq_nil_iff.1 hmarks
    rw [ofBounded_of_forall_ne hne]
    rfl
  | cons g later =>
    obtain ⟨before, after, rfl, hbefore, hg, rfl⟩ := List.filter_eq_cons_iff.1 hmarks
    rw [ofBounded_append_cons (by simpa using hbefore) (by simpa using hg), Catalog.get?_ofList,
      Binding.lastValue?_eq_getLast?, List.tail_cons]

/-- Where the units and the remarks do not have the sentinel's label, it is nowhere unless it is
common. -/
theorem Placed.only_iff {a : Arrangement} (ha : a.Placed delimiter (.bounded sentinel)) :
    a.Only (·.key ≠ sentinel) ↔ a.common.get? sentinel = none := by
  obtain ⟨hother, hunits⟩ := ha.sentinel sentinel rfl
  rw [Catalog.get?_eq_none_iff]
  constructor
  · exact Only.common
  · intro hcommon
    exact ⟨fun u hu f hf hkey => hunits u hu (List.mem_map.2 ⟨f, hf, hkey⟩), hcommon, hother⟩

/-- The sentinel's label is nowhere in an arrangement exactly when no field repeats it. -/
theorem only_ofBounded_iff :
    (ofBounded delimiter sentinel fields).Only (·.key ≠ sentinel) ↔
      (fields.filter (·.key = sentinel)).length ≤ 1 := by
  calc (ofBounded delimiter sentinel fields).Only (·.key ≠ sentinel)
      ↔ (ofBounded delimiter sentinel fields).common.get? sentinel = none :=
        (placed_ofBounded fields sentinel).only_iff
    _ ↔ (fields.filter (·.key = sentinel)).tail = [] := by
        rw [get?_common_ofBounded, Option.map_eq_none_iff, List.getLast?_eq_none_iff]
    _ ↔ (fields.filter (·.key = sentinel)).length ≤ 1 := by
        rw [← List.length_eq_zero_iff, List.length_tail, Nat.sub_eq_zero_iff_le]

end Arrangement

namespace Summary

open Text Architecture

/-- **Repeated sentinels in POWER listings.**  However many `timebase` lines a listing has, and
wherever they stand, no unit and no remark is labelled `timebase`.  Of these lines the first is left
out, and the last of the others is common.  So the label is nowhere in the summary exactly when at
most one line has it. -/
theorem ofText_power_timebase {arch : Architecture} (harch : arch = .ppc64 ∨ arch = .ppc64le)
    (t : Text) :
    let summary := ofText arch t
    let marks := (Entry.all t).filter fun e => Label.ofText e.key = timebase
    (∀ u ∈ summary.units, timebase ∉ u.labels) ∧ (∀ f ∈ summary.other, f.key ≠ timebase) ∧
    summary.common.get? timebase = marks.tail.getLast?.map (·.value) ∧
    (summary.Only (·.key ≠ timebase) ↔ marks.length ≤ 1) := by
  intro summary marks
  have harrange : summary.toArrangement = .ofBounded processor timebase (x86Dialect.fields t) :=
    arrange_power harch t
  have hmarks : (x86Dialect.fields t).filter (·.key = timebase) = marks.map x86Dialect.field := by
    rw [Dialect.fields, List.filter_map]
    rfl
  have hlayout : arch.dialect.layout = .bounded timebase := by
    rcases harch with rfl | rfl <;> rfl
  obtain ⟨hother, hunits⟩ := (placed_ofText arch t).sentinel timebase hlayout
  refine ⟨hunits, hother, ?_, ?_⟩
  · rw [harrange, Arrangement.get?_common_ofBounded, hmarks, ← List.map_tail, List.getLast?_map,
      Option.map_map]
    rfl
  · rw [harrange, Arrangement.only_ofBounded_iff, hmarks, List.length_map]

/-- Three sentinels in three spellings: the first ends the stanzas, the others are common. -/
theorem ofText_power_timebase_thrice :
    (∀ u ∈ (ofText .ppc64le
        "board: B\nprocessor: 0\nTIMEBASE : 1\ntimebase: 2\n Timebase\t: 3\n".toList).units,
      timebase ∉ u.labels) ∧
    (ofText .ppc64le
        "board: B\nprocessor: 0\nTIMEBASE : 1\ntimebase: 2\n Timebase\t: 3\n".toList).common.get?
      timebase = some "3".toList := by
  have h := @ofText_power_timebase .ppc64le (.inr rfl)
    "board: B\nprocessor: 0\nTIMEBASE : 1\ntimebase: 2\n Timebase\t: 3\n".toList
  refine ⟨h.1, ?_⟩
  rw [h.2.2.1]
  decide +kernel

/-- A summary of a POWER listing may have the label after all: the second sentinel of this one is
common. -/
theorem not_forall_power_only_ne_timebase :
    ¬ ∀ arch, arch = .ppc64 ∨ arch = .ppc64le →
      ∀ t, (ofText arch t).Only fun f => f.key ≠ timebase := by
  intro h
  have honly := h .ppc64 (.inl rfl) "processor: 0\ntimebase: 1\ntimebase: 2\n".toList
  exact honly.common ⟨timebase, "2".toList⟩ (by decide +kernel) rfl

end Summary

end ProcessorListing
