import ProcessorListing.Division
import ProcessorListing.Proofs.Records
import Mathlib.Data.List.TakeWhile

/-!
# Units and the fields that open them

In every state of a splitting, each unit opens with the delimiting label, and the lead does not have
it (`Splitting.Sound`): a step keeps this, and so does a run.

It is all that is needed to split anew.  From a unit that opens with the delimiter, its own fields
make it again (`Splitting.run_unit`), so the lead and the units of a sound state, written out one
after the other, are split into this lead and these units (`Splitting.ofFields_of_sound`).
-/

namespace ProcessorListing

namespace Record

/-- The first label of the record is `label`. -/
def OpensWith (r : Record) (label : Label) : Prop := r.labels.head? = some label

theorem opensWith_empty_set (f : Field) : (empty.set f).OpensWith f.key := rfl

theorem opensWith_ofFields_cons (f : Field) (fields : List Field) :
    (ofFields (f :: fields)).OpensWith f.key := by
  rw [OpensWith, labels_ofFields, List.map_cons, List.eraseDups_cons, List.head?_cons]

theorem OpensWith.set {r : Record} {label : Label} (h : r.OpensWith label) (f : Field) :
    (r.set f).OpensWith label := by
  rw [OpensWith, labels_set]
  split
  · exact h
  · rw [List.head?_append, h, Option.some_or]

theorem eq_or_mem_of_mem_set {r : Record} {f g : Field} (h : g ∈ (r.set f).fields) :
    g = f ∨ g ∈ r.fields := by
  have hget : (r.set f).get? g.key = some g.value := get?_eq_some_iff.2 h
  rw [get?_set] at hget
  split at hget
  next hkey =>
    have hvalue : f.value = g.value := Option.some.inj hget
    exact .inl (Binding.ext hkey.symm hvalue.symm)
  next => exact .inr (get?_eq_some_iff.1 hget)

/-- A unit that fields with `P` make, the first of them with the delimiting label. -/
structure IsUnit (delimiter : Label) (P : Field → Prop) (u : Record) : Prop where
  opens : u.OpensWith delimiter
  fields : ∀ f ∈ u.fields, P f

variable {delimiter : Label} {P : Field → Prop}

theorem isUnit_empty_set {f : Field} (hkey : f.key = delimiter) (hf : P f) :
    (empty.set f).IsUnit delimiter P := by
  constructor
  · rw [← hkey]
    exact opensWith_empty_set f
  · intro g hg
    rcases eq_or_mem_of_mem_set hg with rfl | hg
    · exact hf
    · cases hg

theorem IsUnit.set {u : Record} (hu : u.IsUnit delimiter P) {f : Field} (hf : P f) :
    (u.set f).IsUnit delimiter P := by
  constructor
  · exact hu.opens.set f
  · intro g hg
    rcases eq_or_mem_of_mem_set hg with rfl | hg
    · exact hf
    · exact hu.fields g hg

end Record

namespace Splitting

variable {delimiter : Label} {P : Field → Prop}

theorem step_of_eq {f : Field} (h : f.key = delimiter) (s : Splitting) :
    step delimiter s f = inside s.lead s.units (Record.empty.set f) :=
  if_pos h

theorem step_before_of_ne {f : Field} (h : f.key ≠ delimiter) (lead : List Field) :
    step delimiter (before lead) f = before (lead ++ [f]) :=
  if_neg h

theorem step_inside_of_ne {f : Field} (h : f.key ≠ delimiter) (lead : List Field)
    (closed : List Record) (unit : Record) :
    step delimiter (inside lead closed unit) f = inside lead closed (unit.set f) :=
  if_neg h

/-- What holds in every state that is reached through fields with `P`. -/
structure Sound (delimiter : Label) (P : Field → Prop) (s : Splitting) : Prop where
  lead : ∀ f ∈ s.lead, f.key ≠ delimiter ∧ P f
  units : ∀ u ∈ s.units, u.IsUnit delimiter P

theorem sound_step {s : Splitting} (hs : s.Sound delimiter P) {f : Field} (hf : P f) :
    (step delimiter s f).Sound delimiter P := by
  by_cases hkey : f.key = delimiter
  · rw [step_of_eq hkey]
    have hnew := Record.isUnit_empty_set hkey hf
    exact ⟨hs.lead, List.forall_mem_append.2 ⟨hs.units, List.forall_mem_singleton.2 hnew⟩⟩
  · cases s with
    | before lead =>
      rw [step_before_of_ne hkey]
      exact ⟨List.forall_mem_append.2 ⟨hs.lead, List.forall_mem_singleton.2 ⟨hkey, hf⟩⟩, hs.units⟩
    | inside lead closed unit =>
      rw [step_inside_of_ne hkey]
      obtain ⟨hclosed, hunit⟩ := List.forall_mem_append.1 hs.units
      have hset := (List.forall_mem_singleton.1 hunit).set hf
      exact ⟨hs.lead, List.forall_mem_append.2 ⟨hclosed, List.forall_mem_singleton.2 hset⟩⟩

theorem sound_run {s : Splitting} (hs : s.Sound delimiter P) {fields : List Field}
    (h : ∀ f ∈ fields, P f) : (run delimiter s fields).Sound delimiter P := by
  induction fields generalizing s with
  | nil => exact hs
  | cons f rest ih =>
    rw [run_cons]
    exact ih (sound_step hs (h f (by simp))) fun g hg => h g (by simp [hg])

theorem sound_ofFields {fields : List Field} (h : ∀ f ∈ fields, P f) :
    (ofFields delimiter fields).Sound delimiter P := by
  refine sound_run ?_ h
  constructor <;> intro _ hmem <;> cases hmem

/-- Fields up to a sentinel are split without it. -/
theorem sound_takeWhile (delimiter : Label) (fields : List Field) (sentinel : Label) :
    (ofFields delimiter (fields.takeWhile (·.key ≠ sentinel))).Sound delimiter
      fun f => f.key ≠ sentinel :=
  sound_ofFields fun f hf => by simpa using List.mem_takeWhile_imp hf

/-! ## Splitting anew -/

theorem run_before {lead fields : List Field} (h : ∀ f ∈ fields, f.key ≠ delimiter) :
    run delimiter (before lead) fields = before (lead ++ fields) := by
  induction fields generalizing lead with
  | nil => rw [List.append_nil]; rfl
  | cons f rest ih =>
    rw [run_cons, step_before_of_ne (h f (by simp)), ih fun g hg => h g (by simp [hg]),
      List.append_assoc, List.singleton_append]

theorem run_inside {lead fields : List Field} {closed : List Record} {unit : Record}
    (h : ∀ f ∈ fields, f.key ≠ delimiter) :
    run delimiter (inside lead closed unit) fields =
      inside lead closed (fields.foldl Record.set unit) := by
  induction fields generalizing unit with
  | nil => rfl
  | cons f rest ih =>
    rw [run_cons, step_inside_of_ne (h f (by simp)), ih fun g hg => h g (by simp [hg]),
      List.foldl_cons]

/-- The fields of a unit make this unit, whatever was read before. -/
theorem run_unit {u : Record} (hu : u.OpensWith delimiter) (s : Splitting) :
    run delimiter s u.fields = inside s.lead s.units u := by
  cases hfields : u.fields with
  | nil => simp [Record.OpensWith, Record.labels, hfields] at hu
  | cons f rest =>
    have hkey : f.key = delimiter := by
      simpa [Record.OpensWith, Record.labels, hfields] using hu
    -- The labels of a record are distinct, so none of its other fields closes the unit.
    have hrest : ∀ g ∈ rest, g.key ≠ delimiter := by
      have hd := u.distinct
      rw [hfields, List.map_cons, List.nodup_cons, hkey] at hd
      exact fun g hg e => hd.1 (e ▸ List.mem_map_of_mem hg)
    have hrecord : rest.foldl Record.set (Record.empty.set f) = u := by
      rw [← List.foldl_cons, ← hfields]
      exact Record.ofFields_fields u
    rw [run_cons, step_of_eq hkey, run_inside hrest, hrecord]

theorem run_units {us : List Record} (h : ∀ u ∈ us, u.OpensWith delimiter) (s : Splitting) :
    (run delimiter s (us.flatMap (·.fields))).lead = s.lead ∧
      (run delimiter s (us.flatMap (·.fields))).units = s.units ++ us := by
  induction us generalizing s with
  | nil => exact ⟨rfl, (List.append_nil _).symm⟩
  | cons u rest ih =>
    rw [List.flatMap_cons, run_append, run_unit (h u (by simp))]
    obtain ⟨hlead, hunits⟩ := ih (fun v hv => h v (by simp [hv])) (inside s.lead s.units u)
    exact ⟨hlead, by rw [hunits, units, List.append_assoc, List.singleton_append]⟩

/-- A sound state is reached again through its own lead and the fields of its units. -/
theorem ofFields_of_sound {s : Splitting} (hs : s.Sound delimiter P) :
    (ofFields delimiter (s.lead ++ s.units.flatMap (·.fields))).lead = s.lead ∧
      (ofFields delimiter (s.lead ++ s.units.flatMap (·.fields))).units = s.units := by
  rw [ofFields, run_append, run_before fun f hf => (hs.lead f hf).1, List.nil_append]
  exact run_units (fun u hu => (hs.units u hu).opens) (before s.lead)

end Splitting

end ProcessorListing
