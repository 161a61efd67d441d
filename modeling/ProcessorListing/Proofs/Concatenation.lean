import ProcessorListing.Proofs.Agreement
import ProcessorListing.Proofs.Listings

/-!
# Listings put one after the other

A listing in stanzas may be cut at any line end.  The second part goes on where the first one
stopped: if a unit is open there, the lead of the second part goes into it, and if none is, it goes
on with the lead (`Splitting.units_append`, `Splitting.lead_append`).  What all units of both parts
share is what those of each part share (`mem_agreement_append`), as long as the open unit gets
nothing new from the second part.

`Summary.ofText_x86_append` says so of whole texts.
-/

namespace ProcessorListing

namespace Splitting

variable {delimiter : Label}

theorem lead_append_of_no_unit {xs : List Field} (h : (ofFields delimiter xs).units = [])
    (ys : List Field) :
    (ofFields delimiter (xs ++ ys)).lead =
      (ofFields delimiter xs).lead ++ (ofFields delimiter ys).lead := by
  rw [ofFields, run_append, ← ofFields, lead_run, lead_ofFields delimiter ys]
  cases hs : ofFields delimiter xs with
  | before lead => rfl
  | inside lead closed unit => simp [hs, units] at h

theorem units_append_of_no_unit {xs : List Field} (h : (ofFields delimiter xs).units = [])
    (ys : List Field) :
    (ofFields delimiter (xs ++ ys)).units = (ofFields delimiter ys).units := by
  rw [ofFields, run_append, ← ofFields, units_run, units_ofFields delimiter ys]
  cases hs : ofFields delimiter xs with
  | before lead => rfl
  | inside lead closed unit => simp [hs, units] at h

theorem lead_append {xs : List Field} (h : (ofFields delimiter xs).units ≠ []) (ys : List Field) :
    (ofFields delimiter (xs ++ ys)).lead = (ofFields delimiter xs).lead := by
  rw [ofFields, run_append, ← ofFields, lead_run]
  cases hs : ofFields delimiter xs with
  | before lead => simp [hs, units] at h
  | inside lead closed unit => rfl

/-- The unit that is open at the cut gets the lead of what follows. -/
theorem units_append {xs : List Field} (h : (ofFields delimiter xs).units ≠ []) (ys : List Field) :
    (ofFields delimiter (xs ++ ys)).units =
      (ofFields delimiter xs).units.dropLast ++
        (ofFields delimiter ys).lead.foldl Record.set ((ofFields delimiter xs).units.getLast h) ::
          (ofFields delimiter ys).units := by
  rw [ofFields, run_append, ← ofFields, units_run, lead_ofFields delimiter ys,
    units_ofFields delimiter ys]
  revert h
  cases ofFields delimiter xs with
  | before lead => intro h; simp [units] at h
  | inside lead closed unit => intro h; simp [units]

end Splitting

namespace Summary

open Text Architecture

/-- **Listings in stanzas, one after the other.**  The second listing goes on where the first one
stopped: with the remarks, if no unit has been opened, and else inside the last unit. -/
theorem ofText_x86_append {t : Text} (ht : LineEnds t) (a b : Text) :
    let first := ofText .x86_64 a
    let second := ofText .x86_64 b
    let whole := ofText .x86_64 (a ++ t ++ b)
    (first.units = [] →
      whole.units = second.units ∧ whole.other = first.other ++ second.other ∧
        whole.common = second.common) ∧
    ∀ h : first.units ≠ [],
      whole.other = first.other ∧
      whole.units = first.units.dropLast ++
        second.other.foldl Record.set (first.units.getLast h) :: second.units ∧
      (second.other = [] →
        (second.units = [] → whole.common = first.common) ∧
        (second.units ≠ [] → ∀ f, f ∈ whole.common.bindings ↔
          f ∈ first.common.bindings ∧ f ∈ second.common.bindings)) := by
  intro first second whole
  have hfields := x86Dialect.fields_append ht a b
  have hunits : whole.units =
      (Splitting.ofFields processor (x86Dialect.fields a ++ x86Dialect.fields b)).units :=
    congrArg (fun fields => (Splitting.ofFields processor fields).units) hfields
  have hother : whole.other =
      (Splitting.ofFields processor (x86Dialect.fields a ++ x86Dialect.fields b)).lead :=
    congrArg (fun fields => (Splitting.ofFields processor fields).lead) hfields
  constructor
  · intro h
    have hu : whole.units = second.units := hunits.trans (Splitting.units_append_of_no_unit h _)
    have ho : whole.other = first.other ++ second.other :=
      hother.trans (Splitting.lead_append_of_no_unit h _)
    exact ⟨hu, ho, congrArg agreement hu⟩
  · intro h
    have hu := hunits.trans (Splitting.units_append h _)
    have ho : whole.other = first.other := hother.trans (Splitting.lead_append h _)
    refine ⟨ho, hu, fun hlead => ?_⟩
    -- Without a lead to take in, the open unit stays as it is.
    have happend : whole.units = first.units ++ second.units := by
      have hlast : second.other.foldl Record.set (first.units.getLast h) = first.units.getLast h := by
        rw [hlead, List.foldl_nil]
      calc whole.units = first.units.dropLast ++
            second.other.foldl Record.set (first.units.getLast h) :: second.units := hu
        _ = first.units.dropLast ++ [first.units.getLast h] ++ second.units := by
            rw [hlast, List.append_assoc, List.singleton_append]
        _ = first.units ++ second.units := by rw [List.dropLast_append_getLast h]
    have hcommon : whole.common = agreement (first.units ++ second.units) :=
      congrArg agreement happend
    constructor
    · intro hnone
      rw [hcommon, hnone, List.append_nil]
      rfl
    · intro hsome f
      rw [hcommon]
      exact mem_agreement_append h hsome

/-- The second part goes on inside the last unit of the first, over the value that it had. -/
theorem ofText_x86_append_inside :
    LineEnds "\r\n\n".toList ∧
    (ofText .x86_64 "board: B\nprocessor: 0\nmodel: 1".toList).units ≠ [] ∧
    (ofText .x86_64 ("board: B\nprocessor: 0\nmodel: 1".toList ++ "\r\n\n".toList ++
        "cpu MHz: 9\nmodel: 2\nprocessor: 1\nmodel: 2".toList)).units.map (·.fields) =
      [[⟨⟨"processor".toList⟩, "0".toList⟩, ⟨⟨"model".toList⟩, "2".toList⟩,
          ⟨⟨"cpu_mhz".toList⟩, "9".toList⟩],
        [⟨⟨"processor".toList⟩, "1".toList⟩, ⟨⟨"model".toList⟩, "2".toList⟩]] := by
  refine ⟨by decide, by decide +kernel, ?_⟩
  rw [((ofText_x86_append (by decide) _ _).2 (by decide +kernel)).2.1]
  decide +kernel

end Summary

end ProcessorListing
