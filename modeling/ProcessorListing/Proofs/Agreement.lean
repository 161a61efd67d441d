import ProcessorListing.Agreement
import ProcessorListing.Proofs.ByteOrder
import ProcessorListing.Proofs.Records
import Mathlib.Data.List.Nodup

/-!
# Counting finds what units agree on

`agreement` compares no unit with another: it counts fields and collects values.  This is enough
because a record has no label twice.  Then a label stands in as many fields as there are units
exactly when every unit has it (`count_eq_length_iff`), and the units that have it agree exactly when
one value was collected.

`Tally.Counted` is what the tallies say of the fields counted so far.  It holds of no tallies and no
fields, one more field keeps it (`counted_record`), and so it holds of the tallies of any units
(`counted_ofUnits`).  `mem_agreement` reads the agreement off it.

Nothing of the counting shows in the result: `agreement_everyUnit` says what units agree on without
it, and in which order.
-/

namespace ProcessorListing

namespace Tally

/-- What a tally says of its label, some fields say. -/
structure Counts (t : Tally) (fields : List Field) : Prop where
  distinct : t.values.Nodup
  mem_values : ∀ value, value ∈ t.values ↔ ⟨t.label, value⟩ ∈ fields
  count_eq : t.count = (fields.map (·.key)).count t.label

/-- There is one tally for each label of some fields, and it counts them. -/
structure Counted (tallies : List Tally) (fields : List Field) : Prop where
  distinct : (tallies.map (·.label)).Nodup
  complete : ∀ f ∈ fields, f.key ∈ tallies.map (·.label)
  counts : ∀ t ∈ tallies, t.Counts fields

/-! ## One more field -/

theorem labels_record (tallies : List Tally) (f : Field) :
    (record tallies f).map (·.label) =
      if f.key ∈ tallies.map (·.label) then tallies.map (·.label)
      else tallies.map (·.label) ++ [f.key] := by
  induction tallies with
  | nil => rfl
  | cons t rest ih =>
    by_cases ht : t.label = f.key
    · simp [record, ht, add]
    · have hne : ¬ f.key = t.label := fun e => ht e.symm
      by_cases hm : f.key ∈ rest.map (·.label)
      · rw [if_pos hm] at ih
        rw [record, if_neg ht, List.map_cons, ih, List.map_cons, if_pos (List.mem_cons_of_mem _ hm)]
      · rw [if_neg hm] at ih
        have hm' : f.key ∉ (t :: rest).map (·.label) := by
          rw [List.map_cons, List.mem_cons, not_or]
          exact ⟨hne, hm⟩
        rw [record, if_neg ht, List.map_cons, ih, if_neg hm']
        rfl

/-- Counting a field leaves the tallies of other labels, and adds to that of its own or opens it. -/
theorem mem_record {tallies : List Tally} (hd : (tallies.map (·.label)).Nodup) {f : Field} {t : Tally}
    (h : t ∈ record tallies f) :
    t ∈ tallies ∧ t.label ≠ f.key ∨
      (∃ old ∈ tallies, old.label = f.key ∧ t = old.add f.value) ∨
        f.key ∉ tallies.map (·.label) ∧ t = first f := by
  induction tallies with
  | nil => exact .inr (.inr ⟨by simp, List.mem_singleton.1 h⟩)
  | cons s rest ih =>
    rw [List.map_cons, List.nodup_cons] at hd
    by_cases hs : s.label = f.key
    · rw [record, if_pos hs, List.mem_cons] at h
      rcases h with rfl | h
      · exact .inr (.inl ⟨s, by simp, hs, rfl⟩)
      · have hne : t.label ≠ f.key := fun e => hd.1 (hs ▸ e ▸ List.mem_map_of_mem h)
        exact .inl ⟨by simp [h], hne⟩
    · rw [record, if_neg hs, List.mem_cons] at h
      rcases h with rfl | h
      · exact .inl ⟨by simp, hs⟩
      · rcases ih hd.2 h with ⟨hm, hne⟩ | ⟨old, hm, hold, e⟩ | ⟨hnew, e⟩
        · exact .inl ⟨by simp [hm], hne⟩
        · exact .inr (.inl ⟨old, by simp [hm], hold, e⟩)
        · refine .inr (.inr ⟨?_, e⟩)
          rw [List.map_cons, List.mem_cons, not_or]
          exact ⟨fun e => hs e.symm, hnew⟩

theorem counts_first {fields : List Field} {f : Field} (h : f.key ∉ fields.map (·.key)) :
    (first f).Counts (fields ++ [f]) where
  distinct := by simp [first]
  mem_values value := by
    have hnone : ⟨f.key, value⟩ ∉ fields := fun hm => h (List.mem_map.2 ⟨_, hm, rfl⟩)
    simp [first, hnone, Binding.ext_iff]
  count_eq := by
    rw [List.map_append, List.count_append, first, List.count_eq_zero.2 h]
    simp

theorem Counts.add {t : Tally} {fields : List Field} (h : t.Counts fields) {f : Field}
    (hf : t.label = f.key) : (t.add f.value).Counts (fields ++ [f]) where
  distinct := h.distinct.insert
  mem_values value := by
    rw [Tally.add, List.mem_insert_iff, h.mem_values, List.mem_append, List.mem_singleton, hf]
    simp [Binding.ext_iff, or_comm]
  count_eq := by
    rw [Tally.add, List.map_append, List.count_append, h.count_eq, hf]
    simp

theorem Counts.skip {t : Tally} {fields : List Field} (h : t.Counts fields) {f : Field}
    (hf : t.label ≠ f.key) : t.Counts (fields ++ [f]) where
  distinct := h.distinct
  mem_values value := by simp [h.mem_values, Binding.ext_iff, hf]
  count_eq := by
    rw [List.map_append, List.count_append, h.count_eq]
    simp [hf.symm]

theorem counted_record {tallies : List Tally} {fields : List Field} (h : Counted tallies fields)
    (f : Field) : Counted (record tallies f) (fields ++ [f]) := by
  have hlabels := labels_record tallies f
  constructor
  · rw [hlabels]
    split
    next => exact h.distinct
    next hn =>
      refine List.nodup_append.2 ⟨h.distinct, by simp, ?_⟩
      intro a ha b hb e
      rw [List.mem_singleton.1 hb] at e
      exact hn (e ▸ ha)
  · intro g hg
    rw [hlabels]
    rcases List.mem_append.1 hg with hg | hg
    · have hm := h.complete g hg
      split
      · exact hm
      · exact List.mem_append_left _ hm
    · rw [List.mem_singleton.1 hg]
      split
      · assumption
      · simp
  · intro t ht
    rcases mem_record h.distinct ht with ⟨hm, hne⟩ | ⟨old, hm, hold, rfl⟩ | ⟨hn, rfl⟩
    · exact (h.counts t hm).skip hne
    · exact (h.counts old hm).add hold
    · refine counts_first fun hk => hn ?_
      obtain ⟨g, hg, e⟩ := List.mem_map.1 hk
      exact e ▸ h.complete g hg

/-! ## All fields of some units -/

theorem counted_foldl_record {tallies : List Tally} {done : List Field} (h : Counted tallies done)
    (fields : List Field) : Counted (fields.foldl record tallies) (done ++ fields) := by
  induction fields generalizing tallies done with
  | nil => simpa using h
  | cons f rest ih =>
    have hstep := ih (counted_record h f)
    rwa [List.append_assoc, List.singleton_append] at hstep

theorem counted_foldl_units {tallies : List Tally} {done : List Field} (h : Counted tallies done)
    (units : List Record) :
    Counted (units.foldl (fun tallies u => u.fields.foldl record tallies) tallies)
      (done ++ units.flatMap (·.fields)) := by
  induction units generalizing tallies done with
  | nil => simpa using h
  | cons u rest ih =>
    have hstep := ih (counted_foldl_record h u.fields)
    rwa [List.append_assoc] at hstep

theorem counted_ofUnits (units : List Record) :
    Counted (ofUnits units) (units.flatMap (·.fields)) := by
  have hstart : Counted [] [] := ⟨by simp, by simp, by simp⟩
  exact counted_foldl_units hstart units

theorem agreed?_eq_some_iff {n : Nat} {t : Tally} {f : Field} :
    agreed? n t = some f ↔ t.label = f.key ∧ t.values = [f.value] ∧ t.count = n := by
  unfold agreed?
  split
  next value h =>
    rw [h, Option.ite_none_right_eq_some, Option.some.injEq, Binding.ext_iff, List.singleton_inj]
    exact ⟨fun ⟨hn, hk, hv⟩ => ⟨hk, hv, hn⟩, fun ⟨hk, hv, hn⟩ => ⟨hn, hk, hv⟩⟩
  next h =>
    exact ⟨by simp, fun ⟨_, hv, _⟩ => absurd hv (h f.value)⟩

end Tally

/-! ## Counting labels

The one place where it matters that a record has no label twice. -/

theorem count_labels (r : Record) (label : Label) :
    r.labels.count label = if label ∈ r.labels then 1 else 0 := by
  split
  next h => exact List.count_eq_one_of_mem r.distinct h
  next h => exact List.count_eq_zero.2 h

theorem count_le_length (units : List Record) (label : Label) :
    ((units.flatMap (·.fields)).map (·.key)).count label ≤ units.length := by
  induction units with
  | nil => simp
  | cons u rest ih =>
    have hone := count_labels u label
    rw [List.flatMap_cons, List.map_append, List.count_append, ← Record.labels, hone,
      List.length_cons]
    split <;> omega

/-- A label stands in as many fields as there are units exactly when every unit has it. -/
theorem count_eq_length_iff (units : List Record) (label : Label) :
    ((units.flatMap (·.fields)).map (·.key)).count label = units.length ↔
      ∀ u ∈ units, label ∈ u.labels := by
  induction units with
  | nil => simp
  | cons u rest ih =>
    have hone := count_labels u label
    have hle := count_le_length rest label
    rw [List.flatMap_cons, List.map_append, List.count_append, ← Record.labels, hone,
      List.length_cons, List.forall_mem_cons, ← ih]
    by_cases hm : label ∈ u.labels
    · rw [if_pos hm]
      exact ⟨fun h => ⟨hm, by omega⟩, fun h => by omega⟩
    · rw [if_neg hm]
      exact ⟨fun h => by omega, fun h => absurd h.1 hm⟩

/-! ## The agreement -/

namespace Tally

/-- One value was collected exactly when the fields have that value and no other. -/
theorem Counts.values_eq_singleton_iff {t : Tally} {fields : List Field} (h : t.Counts fields)
    {value : Text} :
    t.values = [value] ↔
      ⟨t.label, value⟩ ∈ fields ∧ ∀ other, ⟨t.label, other⟩ ∈ fields → other = value := by
  constructor
  · intro hvalues
    refine ⟨(h.mem_values value).1 (by simp [hvalues]), fun other hother => ?_⟩
    have hmem := (h.mem_values other).2 hother
    rwa [hvalues, List.mem_singleton] at hmem
  · rintro ⟨hmem, honly⟩
    have hiff : ∀ v, v ∈ t.values ↔ v ∈ [value] := by
      intro v
      rw [h.mem_values, List.mem_singleton]
      exact ⟨honly v, fun e => e ▸ hmem⟩
    have hperm : t.values.Perm [value] :=
      (List.perm_ext_iff_of_nodup h.distinct (List.nodup_singleton value)).2 hiff
    exact List.perm_singleton.1 hperm

/-- A label has one value and is counted once for each unit exactly when all units, and there are
some, have this value for it. -/
theorem Counts.agreed_iff {t : Tally} {units : List Record}
    (h : t.Counts (units.flatMap (·.fields))) {value : Text} :
    t.values = [value] ∧ t.count = units.length ↔
      units ≠ [] ∧ ∀ u ∈ units, ⟨t.label, value⟩ ∈ u.fields := by
  rw [h.values_eq_singleton_iff, h.count_eq, count_eq_length_iff]
  constructor
  · rintro ⟨⟨hmem, honly⟩, hall⟩
    refine ⟨fun e => by simp [e] at hmem, fun u hu => ?_⟩
    obtain ⟨f, hf, hkey⟩ := List.mem_map.1 (hall u hu)
    have hfield : f = ⟨t.label, f.value⟩ := Binding.ext hkey rfl
    have hvalue : f.value = value := honly f.value (hfield ▸ List.mem_flatMap_of_mem hu hf)
    rwa [hfield, hvalue] at hf
  · rintro ⟨hne, hall⟩
    obtain ⟨first, hfirst⟩ := List.exists_mem_of_ne_nil units hne
    refine ⟨⟨List.mem_flatMap_of_mem hfirst (hall first hfirst), fun other hother => ?_⟩, fun u hu => ?_⟩
    · obtain ⟨u, hu, hmem⟩ := List.mem_flatMap.1 hother
      have hget := Record.get?_eq_some_iff.2 (hall u hu)
      rw [Record.get?_eq_some_iff.2 hmem] at hget
      exact Option.some.inj hget
    · exact List.mem_map.2 ⟨_, hall u hu, rfl⟩

theorem keys_filterMap_agreed {tallies : List Tally} (hd : (tallies.map (·.label)).Nodup) (n : Nat) :
    ((tallies.filterMap (agreed? n)).map (·.key)).Nodup := by
  refine hd.sublist ?_
  induction tallies with
  | nil => simp
  | cons t rest ih =>
    have hrest := ih (List.nodup_cons.1 hd).2
    cases ht : agreed? n t with
    | none =>
      rw [List.filterMap_cons_none ht]
      exact hrest.cons _
    | some f =>
      have hkey : t.label = f.key := (agreed?_eq_some_iff.1 ht).1
      rw [List.filterMap_cons_some ht, List.map_cons, List.map_cons, hkey]
      exact hrest.cons_cons _

end Tally

/-- Units agree on a field exactly when there are units and each of them has it. -/
theorem mem_agreement {units : List Record} {f : Field} :
    f ∈ (agreement units).bindings ↔ units ≠ [] ∧ ∀ u ∈ units, f ∈ u.fields := by
  have hcounted := Tally.counted_ofUnits units
  rw [agreement, Catalog.mem_ofList_of_nodup (Tally.keys_filterMap_agreed hcounted.distinct _),
    List.mem_filterMap]
  constructor
  · rintro ⟨t, ht, hagreed⟩
    obtain ⟨hlabel, hvalues, hcount⟩ := Tally.agreed?_eq_some_iff.1 hagreed
    have hall := (hcounted.counts t ht).agreed_iff.1 ⟨hvalues, hcount⟩
    rwa [hlabel] at hall
  · rintro ⟨hne, hall⟩
    obtain ⟨first, hfirst⟩ := List.exists_mem_of_ne_nil units hne
    have hmem : f ∈ units.flatMap (·.fields) := List.mem_flatMap_of_mem hfirst (hall first hfirst)
    obtain ⟨t, ht, hlabel⟩ := List.mem_map.1 (hcounted.complete f hmem)
    have hfield : f = ⟨t.label, f.value⟩ := Binding.ext hlabel.symm rfl
    have hagreed := (hcounted.counts t ht).agreed_iff.2 ⟨hne, hfield ▸ hall⟩
    exact ⟨t, ht, Tally.agreed?_eq_some_iff.2 ⟨hlabel, hagreed⟩⟩

/-- Units agree on a value exactly when there are units and each of them has it. -/
theorem get?_agreement_eq_some_iff {units : List Record} {label : Label} {value : Text} :
    (agreement units).get? label = some value ↔
      units ≠ [] ∧ ∀ u ∈ units, u.get? label = some value := by
  rw [Catalog.get?_eq_some_iff, mem_agreement]
  simp only [Record.get?_eq_some_iff]

/-- What two groups of units share is what each of them shares. -/
theorem mem_agreement_append {us vs : List Record} (hu : us ≠ []) (hv : vs ≠ []) {f : Field} :
    f ∈ (agreement (us ++ vs)).bindings ↔
      f ∈ (agreement us).bindings ∧ f ∈ (agreement vs).bindings := by
  simp only [mem_agreement, List.mem_append, or_imp, forall_and]
  simp [hu, hv]

/-- Only which units there are counts, not their order nor how often each of them stands there. -/
theorem agreement_congr {units others : List Record} (h : ∀ u, u ∈ others ↔ u ∈ units) :
    agreement others = agreement units := by
  have hempty : others = [] ↔ units = [] := by
    simp only [List.eq_nil_iff_forall_not_mem, h]
  refine Catalog.ext_get? fun label => Option.ext fun value => ?_
  rw [get?_agreement_eq_some_iff, get?_agreement_eq_some_iff, ne_eq, hempty]
  simp only [h]

/-- **The agreement is what every unit has.**  Units agree on a value for a label exactly when there
are units and each of them has this value, be it empty, for the label; the labels are listed in
strictly ascending order of their bytes.  So neither the order of the units counts nor how often one
of them is repeated, and two groups of units agree together on what each of them agrees on. -/
theorem agreement_everyUnit (units : List Record) :
    (∀ label value, (agreement units).get? label = some value ↔
      units ≠ [] ∧ ∀ u ∈ units, u.get? label = some value) ∧
    ((agreement units).bindings.Pairwise fun f g =>
      Utf8.encode f.key.text < Utf8.encode g.key.text) ∧
    (∀ others : List Record, (∀ u, u ∈ others ↔ u ∈ units) → agreement others = agreement units) ∧
    ∀ others, units ≠ [] → others ≠ [] → ∀ f, f ∈ (agreement (units ++ others)).bindings ↔
      f ∈ (agreement units).bindings ∧ f ∈ (agreement others).bindings := by
  refine ⟨fun label value => get?_agreement_eq_some_iff, (agreement units).ascending_bytes,
    fun others h => agreement_congr h, fun others hunits hothers f => ?_⟩
  exact mem_agreement_append hunits hothers

/-- Repeating a unit changes nothing, and the empty value that two units agree on stays when a third
one has it too. -/
theorem agreement_everyUnit_repeated :
    agreement [.ofFields [⟨⟨['a']⟩, []⟩], .ofFields [⟨⟨['b']⟩, ['1']⟩, ⟨⟨['a']⟩, []⟩],
        .ofFields [⟨⟨['a']⟩, []⟩]] =
      agreement [.ofFields [⟨⟨['b']⟩, ['1']⟩, ⟨⟨['a']⟩, []⟩], .ofFields [⟨⟨['a']⟩, []⟩]] ∧
    (agreement [.ofFields [⟨⟨['b']⟩, ['1']⟩, ⟨⟨['a']⟩, []⟩], .ofFields [⟨⟨['a']⟩, []⟩]]).get?
      ⟨['a']⟩ = some [] ∧
    ⟨⟨['a']⟩, []⟩ ∈ (agreement ([.ofFields [⟨⟨['b']⟩, ['1']⟩, ⟨⟨['a']⟩, []⟩],
        .ofFields [⟨⟨['a']⟩, []⟩]] ++ [.ofFields [⟨⟨['c']⟩, []⟩, ⟨⟨['a']⟩, []⟩]])).bindings := by
  have h := agreement_everyUnit [.ofFields [⟨⟨['b']⟩, ['1']⟩, ⟨⟨['a']⟩, []⟩],
    .ofFields [⟨⟨['a']⟩, []⟩]]
  refine ⟨h.2.2.1 _ fun u => ?_, (h.1 ⟨['a']⟩ []).2 (by decide), ?_⟩
  · simp only [List.mem_cons, List.not_mem_nil, or_false]
    tauto
  · exact (h.2.2.2 _ (by simp) (by simp) ⟨⟨['a']⟩, []⟩).2 (by decide)

end ProcessorListing
