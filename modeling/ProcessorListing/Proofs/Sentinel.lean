import ProcessorListing.Summary.Basic
import ProcessorListing.Proofs.Listings
import Mathlib.Data.List.TakeWhile

/-!
# Stanzas up to a sentinel

In a bounded layout the first field with the sentinel's label parts the listing: the fields before
it are split into units, it is left out, and those after it are common, whatever their labels are
(`ofBounded_append_cons`).  Without it, nothing is common (`ofBounded_of_forall_ne`).

The POWER dialect renames nothing and has the delimiter of the x86 dialect, so up to the sentinel the
two read the same units and the same remarks; `Summary.ofText_power_sentinel` says so of whole texts.
-/

namespace ProcessorListing

namespace Arrangement

variable {delimiter sentinel : Label}

theorem ofBounded_append_cons {before after : List Field} {g : Field}
    (hbefore : ∀ f ∈ before, f.key ≠ sentinel) (hg : g.key = sentinel) :
    ofBounded delimiter sentinel (before ++ g :: after) =
      ⟨(Splitting.ofFields delimiter before).units, .ofList after,
        (Splitting.ofFields delimiter before).lead⟩ := by
  have hkeep : ∀ f ∈ before, decide (f.key ≠ sentinel) = true := fun f hf =>
    decide_eq_true (hbefore f hf)
  have htake : (before ++ g :: after).takeWhile (·.key ≠ sentinel) = before := by
    rw [List.takeWhile_append_of_pos hkeep, List.takeWhile_cons_of_neg (by simp [hg]),
      List.append_nil]
  have hdrop : (before ++ g :: after).dropWhile (·.key ≠ sentinel) = g :: after := by
    rw [List.dropWhile_append_of_pos hkeep, List.dropWhile_cons_of_neg (by simp [hg])]
  simp only [ofBounded, htake, hdrop, List.drop_one, List.tail_cons]

theorem ofBounded_of_forall_ne {fields : List Field} (h : ∀ f ∈ fields, f.key ≠ sentinel) :
    ofBounded delimiter sentinel fields =
      ⟨(Splitting.ofFields delimiter fields).units, .empty,
        (Splitting.ofFields delimiter fields).lead⟩ := by
  have hkeep : ∀ f ∈ fields, decide (f.key ≠ sentinel) = true := fun f hf =>
    decide_eq_true (h f hf)
  have htake : fields.takeWhile (·.key ≠ sentinel) = fields :=
    List.takeWhile_eq_self_iff.2 hkeep
  have hdrop : fields.dropWhile (·.key ≠ sentinel) = [] :=
    List.dropWhile_eq_nil_iff.2 hkeep
  simp only [ofBounded, htake, hdrop, List.drop_nil]
  rfl

end Arrangement

namespace Summary

open Text Architecture

/-- The POWER dialects read the fields that the x86 dialect reads. -/
theorem arrange_power {arch : Architecture} (h : arch = .ppc64 ∨ arch = .ppc64le) (t : Text) :
    arch.dialect.arrange t =
      .ofBounded processor timebase (x86Dialect.fields t) := by
  rcases h with rfl | rfl <;> rfl

/-- **POWER listings against x86 listings.**  Up to the first `timebase` line a POWER listing has the
units and the remarks of an x86 listing; after it every field is common, with its last value, also
where the label is `processor`. -/
theorem ofText_power_sentinel {arch : Architecture} (harch : arch = .ppc64 ∨ arch = .ppc64le)
    {a s t₁ t₂ : Text} (ha : ∀ e ∈ Entry.all a, Label.ofText e.key ≠ timebase)
    {mark : Entry} (hmark : Entry.all s = [mark])
    (hlabel : Label.ofText mark.key = timebase) (h₁ : LineEnds t₁) (h₂ : LineEnds t₂)
    (b : Text) :
    let bounded := ofText arch (a ++ t₁ ++ s ++ t₂ ++ b)
    let alone := ofText arch a
    let reference := ofText .x86_64 a
    (bounded.units = reference.units ∧ bounded.other = reference.other ∧
      ∀ label, bounded.common.get? label =
        Binding.lastValue? ((Entry.all b).map fun e => ⟨Label.ofText e.key, e.value⟩) label) ∧
    alone.units = reference.units ∧ alone.other = reference.other ∧ alone.common = .empty := by
  intro bounded alone reference
  have hbefore : ∀ f ∈ x86Dialect.fields a, f.key ≠ timebase := by
    intro f hf
    obtain ⟨e, he, rfl⟩ := List.mem_map.1 hf
    exact ha e he
  have hfields : x86Dialect.fields (a ++ t₁ ++ s ++ t₂ ++ b) =
      x86Dialect.fields a ++ x86Dialect.field mark :: x86Dialect.fields b := by
    have hline : x86Dialect.fields s = [x86Dialect.field mark] := by
      rw [Dialect.fields, hmark, List.map_singleton]
    rw [Dialect.fields_append h₂, Dialect.fields_append h₁, hline, List.append_assoc,
      List.singleton_append]
  have hbounded : bounded.toArrangement =
      ⟨reference.units, .ofList (x86Dialect.fields b), reference.other⟩ := by
    have h := arrange_power harch (a ++ t₁ ++ s ++ t₂ ++ b)
    rw [hfields, Arrangement.ofBounded_append_cons hbefore hlabel] at h
    exact h
  have halone : alone.toArrangement = ⟨reference.units, .empty, reference.other⟩ := by
    have h := arrange_power harch a
    rw [Arrangement.ofBounded_of_forall_ne hbefore] at h
    exact h
  refine ⟨⟨by rw [hbounded], by rw [hbounded], fun label => ?_⟩, by rw [halone], by rw [halone],
    by rw [halone]⟩
  rw [hbounded, Catalog.get?_ofList]
  rfl

/-- The sentinel in capitals, with a blank, and a `processor` line after it that opens no unit. -/
theorem ofText_power_sentinel_capitals :
    (ofText .ppc64le ("board: B\nprocessor: 0\ncpu: POWER9".toList ++ "\r\n".toList ++
        "TIMEBASE  : 512".toList ++ "\n".toList ++ "model: 1\nprocessor: 7\nmodel: 2".toList)).units =
      (ofText .x86_64 "board: B\nprocessor: 0\ncpu: POWER9".toList).units ∧
    (ofText .ppc64le ("board: B\nprocessor: 0\ncpu: POWER9".toList ++ "\r\n".toList ++
        "TIMEBASE  : 512".toList ++ "\n".toList ++ "model: 1\nprocessor: 7\nmodel: 2".toList)).common.get?
      ⟨"model".toList⟩ = some "2".toList := by
  have h := (@ofText_power_sentinel .ppc64le (.inr rfl)
    "board: B\nprocessor: 0\ncpu: POWER9".toList "TIMEBASE  : 512".toList "\r\n".toList "\n".toList
    (by decide +kernel) ⟨"TIMEBASE".toList, "512".toList⟩ (by decide +kernel) (by decide) (by decide)
    (by decide) "model: 1\nprocessor: 7\nmodel: 2".toList).1
  refine ⟨h.1, ?_⟩
  rw [h.2.2]
  decide +kernel

end Summary

end ProcessorListing
