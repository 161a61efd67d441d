import ProcessorListing.Proofs.FactNames
import ProcessorListing.Proofs.WellFormed
import Mathlib.Algebra.Ring.Nat
import Mathlib.Data.List.Forall2
import Mathlib.Data.List.Sigma

/-!
# What the facts of a summary say

The facts of a summary state its `details`: what it says of each subject, once
(`Summary.facts_eq_ofList`).  Subjects share no name, so there are as many facts as details
(`Summary.size_facts`), and the facts determine what the summary says of every subject and nothing
else (`Summary.facts_eq_iff`).

What the facts do not show is the order of the fields in a unit, the remarks before the last one
with their label, and the architecture.  `Summary.ofText_facts` says so of whole listings.
-/

namespace ProcessorListing

namespace Binding

variable {κ μ : Type}

/-- A binding under another key. -/
def mapKey (g : κ → μ) (b : Binding κ) : Binding μ := ⟨g b.key, b.value⟩

theorem keys_map_mapKey (g : κ → μ) (bindings : List (Binding κ)) :
    (bindings.map (mapKey g)).map (·.key) = (bindings.map (·.key)).map g := by
  rw [List.map_map, List.map_map]
  rfl

theorem mem_map_mapKey {g : κ → μ} {bindings : List (Binding κ)} {key : μ} {value : Text} :
    ⟨key, value⟩ ∈ bindings.map (mapKey g) ↔ ∃ k, g k = key ∧ ⟨k, value⟩ ∈ bindings := by
  rw [List.mem_map]
  constructor
  · rintro ⟨⟨k, _⟩, hb, ⟨⟩⟩
    exact ⟨k, rfl, hb⟩
  · rintro ⟨k, rfl, hb⟩
    exact ⟨_, hb, rfl⟩

variable [DecidableEq μ] {g : κ → μ}

theorem lastValue?_mapKey_of_ne {name : μ} (h : ∀ key, g key ≠ name) (bindings : List (Binding κ)) :
    lastValue? (bindings.map (mapKey g)) name = none := by
  induction bindings using List.reverseRecOn with
  | nil => rfl
  | append_singleton rest b ih =>
    rw [List.map_append, List.map_singleton, lastValue?_concat, ih, mapKey, if_neg (h b.key)]

variable [DecidableEq κ]

theorem lastValue?_mapKey (hg : Function.Injective g) (bindings : List (Binding κ)) (key : κ) :
    lastValue? (bindings.map (mapKey g)) (g key) = lastValue? bindings key := by
  induction bindings using List.reverseRecOn with
  | nil => rfl
  | append_singleton rest b ih =>
    rw [List.map_append, List.map_singleton, lastValue?_concat, lastValue?_concat, ih, mapKey]
    simp only [hg.eq_iff]

end Binding

/-- A catalog of bindings with distinct keys has room for all of them. -/
theorem Catalog.size_ofList {κ : Type} [Spelled κ] [DecidableEq κ] {bindings : List (Binding κ)}
    (hd : (bindings.map (·.key)).Nodup) : (ofList bindings).size = bindings.length := by
  have hperm : (ofList bindings).bindings.Perm bindings :=
    (List.perm_ext_iff_of_nodup (ofList bindings).keys_nodup.of_map hd.of_map).2 fun _ =>
      mem_ofList_of_nodup hd
  exact hperm.length_eq

open Binding

/-- Under other keys, too, the last value of each label is all that counts. -/
theorem Record.lastValue?_fields_mapKey {g : Label → Text} (hg : Function.Injective g)
    (fields : List Field) (name : Text) :
    lastValue? ((ofFields fields).fields.map (mapKey g)) name =
      lastValue? (fields.map (mapKey g)) name := by
  by_cases h : ∃ key, g key = name
  · obtain ⟨key, rfl⟩ := h
    rw [lastValue?_mapKey hg, lastValue?_mapKey hg,
      lastValue?_eq_firstValue? (ofFields fields).distinct]
    exact get?_ofFields fields key
  · rw [not_exists] at h
    rw [lastValue?_mapKey_of_ne h, lastValue?_mapKey_of_ne h]

namespace Summary

/-- What a summary says of a subject. -/
def value? (s : Summary) : Subject → Option Text
  | .count => some (Text.ofNat s.count)
  | .common label => s.common.get? label
  | .unit number label => s.units[number]?.bind (·.get? label)
  | .other label => lastValue? s.other label

/-- The fields of all units, under their subjects. -/
def unitDetails (units : List Record) : List (Binding Subject) :=
  units.zipIdx.flatMap fun (unit, number) => unit.fields.map (mapKey (.unit number))

/-- All that the facts of a summary state, each subject once. -/
def details (s : Summary) : List (Binding Subject) :=
  ⟨.count, Text.ofNat s.count⟩ :: (s.common.bindings.map (mapKey .common) ++ unitDetails s.units) ++
    (Record.ofFields s.other).fields.map (mapKey .other)

theorem mem_unitDetails {units : List Record} {x : Subject} {value : Text} :
    ⟨x, value⟩ ∈ unitDetails units ↔ ∃ number label u,
      .unit number label = x ∧ units[number]? = some u ∧ u.get? label = some value := by
  simp only [unitDetails, List.mem_flatMap, mem_map_mapKey, Prod.exists,
    List.mem_zipIdx_iff_getElem?, Record.get?_eq_some_iff]
  constructor
  · rintro ⟨u, number, hu, label, hx, hf⟩
    exact ⟨number, label, u, hx, hu, hf⟩
  · rintro ⟨number, label, u, hx, hu, hf⟩
    exact ⟨u, number, hu, label, hx, hf⟩

/-- The details of a summary are what it says of its subjects. -/
theorem mem_details {s : Summary} {x : Subject} {value : Text} :
    ⟨x, value⟩ ∈ s.details ↔ s.value? x = some value := by
  rw [details, List.mem_append, List.mem_cons, List.mem_append, mem_map_mapKey, mem_unitDetails,
    mem_map_mapKey]
  cases x with
  | count => simp [value?, eq_comm]
  | common label => simp [value?, Catalog.get?_eq_some_iff]
  | unit number label => simp [value?, Option.bind_eq_some_iff]
  | other label => simp [value?, ← Record.get?_eq_some_iff, Record.get?_ofFields]

/-! ## Each subject once -/

theorem keys_unitDetails (units : List Record) :
    (unitDetails units).map (·.key) =
      units.zipIdx.flatMap fun (unit, number) => unit.labels.map (.unit number) := by
  rw [unitDetails, List.map_flatMap]
  simp only [keys_map_mapKey, Record.labels]

theorem keys_unitDetails_nodup (units : List Record) :
    ((unitDetails units).map (·.key)).Nodup := by
  rw [keys_unitDetails, List.nodup_flatMap]
  constructor
  · rintro ⟨u, number⟩ -
    exact u.distinct.map fun _ _ h => (Subject.unit.inj h).2
  · have hnumbers : units.zipIdx.Pairwise fun a b => a.2 ≠ b.2 :=
      List.pairwise_map.1 (List.nodup_zipIdx_map_snd units)
    refine hnumbers.imp fun {a b} hne x ha hb => ?_
    obtain ⟨label, -, rfl⟩ := List.mem_map.1 ha
    obtain ⟨label', -, hx⟩ := List.mem_map.1 hb
    exact hne (Subject.unit.inj hx).1.symm

theorem keys_details (s : Summary) :
    s.details.map (·.key) =
      .count :: ((s.common.bindings.map (·.key)).map .common ++ (unitDetails s.units).map (·.key)) ++
        (Record.ofFields s.other).labels.map .other := by
  rw [details, List.map_append, List.map_cons, List.map_append, keys_map_mapKey, keys_map_mapKey]
  rfl

theorem keys_details_nodup (s : Summary) : (s.details.map (·.key)).Nodup := by
  have hcommon : ((s.common.bindings.map (·.key)).map Subject.common).Nodup :=
    s.common.keys_nodup.map fun _ _ => Subject.common.inj
  have hother : ((Record.ofFields s.other).labels.map Subject.other).Nodup :=
    (Record.ofFields s.other).distinct.map fun _ _ => Subject.other.inj
  -- The constructors keep the four kinds of subject apart.
  rw [keys_details]
  refine (List.nodup_cons.2 ⟨?_, hcommon.append (keys_unitDetails_nodup _) ?_⟩).append hother ?_
  · simp [keys_unitDetails]
  · intro x hx hunit
    obtain ⟨label, -, rfl⟩ := List.mem_map.1 hx
    simp [keys_unitDetails] at hunit
  · intro x hrest hx
    obtain ⟨label, -, rfl⟩ := List.mem_map.1 hx
    simp [keys_unitDetails] at hrest

theorem length_unitDetails (units : List Record) :
    (unitDetails units).length = (units.map (·.size)).sum := by
  conv => rhs; rw [← List.zipIdx_map_fst 0 units, List.map_map]
  rw [unitDetails, List.length_flatMap]
  simp only [List.length_map]
  rfl

theorem length_details (s : Summary) :
    s.details.length =
      1 + s.common.size + (s.units.map (·.size)).sum + (s.other.map (·.key)).eraseDups.length := by
  have hother : (Record.ofFields s.other).fields.length =
      (s.other.map (·.key)).eraseDups.length := by
    rw [← Record.labels_ofFields, Record.labels, List.length_map]
  rw [details, List.length_append, List.length_cons, List.length_append, List.length_map,
    List.length_map, length_unitDetails, hother, Catalog.size]
  omega

/-! ## The facts -/

theorem statements_eq (root : Text) (s : Summary) :
    s.statements root =
      List.map (mapKey (Subject.name root))
        (⟨.count, Text.ofNat s.count⟩ ::
            (s.common.bindings.map (mapKey .common) ++ unitDetails s.units) ++
          s.other.map (mapKey .other)) := by
  have hcommon : Fact.ofField root ["common".toList] =
      mapKey (Subject.name root) ∘ mapKey .common := rfl
  have hother : Fact.ofField root ["other".toList] =
      mapKey (Subject.name root) ∘ mapKey .other := rfl
  have hunit : ∀ number, Fact.ofField root ["unit".toList, Text.ofNat number] =
      mapKey (Subject.name root) ∘ mapKey (.unit number) := fun _ => rfl
  rw [statements, List.map_append, List.map_cons, List.map_append, List.map_map, List.map_map,
    ← hcommon, ← hother, unitDetails, List.map_flatMap]
  simp only [List.map_map, ← hunit, unitFacts]
  rfl

/-- The facts are the details under their names. -/
theorem facts_eq_ofList (root : Text) (s : Summary) :
    s.facts root = .ofList (s.details.map (mapKey (Subject.name root))) := by
  -- Only remarks repeat a label, and among themselves they are told apart by their labels alone.
  have hname : Function.Injective fun label => (Subject.other label).name root := by
    rintro ⟨label⟩ ⟨label'⟩ h
    simpa [Subject.name, Subject.parts, Fact.name] using h
  have hcompose : mapKey (Subject.name root) ∘ mapKey .other =
      mapKey fun label => (Subject.other label).name root := rfl
  refine Catalog.ext_get? fun name => ?_
  rw [facts, Catalog.get?_ofList, Catalog.get?_ofList, statements_eq, details, List.map_append,
    List.map_append, lastValue?_append, lastValue?_append, List.map_map, List.map_map, hcompose,
    Record.lastValue?_fields_mapKey hname]

variable {s s' : Summary}

/-- A detail with a label is a field of the summary, with the value that it has there. -/
theorem of_mem_details {P : Field → Prop} (hs : s.Only P) {b : Binding Subject} (hb : b ∈ s.details)
    {label : Label} (hlabel : label ∈ b.key.label?) : P ⟨label, b.value⟩ := by
  obtain ⟨x, value⟩ := b
  have hvalue : s.value? x = some value := mem_details.1 hb
  cases x with
  | count => cases hlabel
  | common label =>
    cases hlabel
    exact hs.common _ (Catalog.get?_eq_some_iff.1 hvalue)
  | unit number label =>
    cases hlabel
    obtain ⟨u, hu, hget⟩ := Option.bind_eq_some_iff.1 hvalue
    exact hs.units u (List.mem_of_getElem? hu) _ (Record.get?_eq_some_iff.1 hget)
  | other label =>
    cases hlabel
    exact hs.other _ (mem_of_lastValue? hvalue)

theorem pointFree_of_mem_details (hs : s.Only Stated) {b : Binding Subject} (hb : b ∈ s.details) :
    b.key.PointFree :=
  Subject.pointFree_iff.2 fun _ hlabel hpoint =>
    ((of_mem_details hs hb hlabel).label_plain '.' hpoint).not_point rfl

theorem names_nodup (root : Text) (hs : s.Only Stated) :
    ((s.details.map (mapKey (Subject.name root))).map (·.key)).Nodup := by
  rw [keys_map_mapKey]
  refine s.keys_details_nodup.map_on fun x hx y hy hname => ?_
  obtain ⟨b, hb, rfl⟩ := List.mem_map.1 hx
  obtain ⟨c, hc, rfl⟩ := List.mem_map.1 hy
  exact Subject.name_inj (pointFree_of_mem_details hs hb) (pointFree_of_mem_details hs hc) hname

theorem mem_facts (root : Text) (hs : s.Only Stated) {f : Fact} :
    f ∈ (s.facts root).bindings ↔ f ∈ s.details.map (mapKey (Subject.name root)) := by
  rw [facts_eq_ofList, Catalog.mem_ofList_of_nodup (names_nodup root hs)]

/-- Each detail is found under the name of its subject. -/
theorem get?_facts (root : Text) (hs : s.Only Stated) {x : Subject} {value : Text}
    (h : s.value? x = some value) : (s.facts root).get? (x.name root) = some value :=
  Catalog.get?_eq_some_iff.2 ((mem_facts root hs).2 (List.mem_map_of_mem (mem_details.2 h)))

/-- There is a fact for each detail. -/
theorem size_facts (root : Text) (hs : s.Only Stated) :
    (s.facts root).size = s.details.length := by
  rw [facts_eq_ofList, Catalog.size_ofList (names_nodup root hs), List.length_map]

theorem mem_details_of_facts_eq {root : Text} (hs : s.Only Stated) (hs' : s'.Only Stated)
    (h : s.facts root = s'.facts root) {b : Binding Subject} (hb : b ∈ s.details) :
    b ∈ s'.details := by
  have hfact := (mem_facts root hs).2 (List.mem_map_of_mem hb)
  rw [h, mem_facts root hs', List.mem_map] at hfact
  obtain ⟨c, hc, hfact⟩ := hfact
  obtain ⟨hname, hvalue⟩ := Binding.mk.inj hfact
  have hkey : c.key = b.key :=
    Subject.name_inj (pointFree_of_mem_details hs' hc) (pointFree_of_mem_details hs hb) hname
  rwa [Binding.ext hkey hvalue] at hc

/-- Facts determine what a summary says of its subjects, and nothing else. -/
theorem facts_eq_iff {root : Text} (hs : s.Only Stated) (hs' : s'.Only Stated) :
    s.facts root = s'.facts root ↔ ∀ x, s.value? x = s'.value? x := by
  constructor
  · intro h x
    refine Option.ext fun value => ?_
    rw [← mem_details, ← mem_details]
    exact ⟨mem_details_of_facts_eq hs hs' h, mem_details_of_facts_eq hs' hs h.symm⟩
  · intro h
    have hdetails : ∀ b, b ∈ s.details ↔ b ∈ s'.details := by
      rintro ⟨x, value⟩
      rw [mem_details, mem_details, h x]
    refine Catalog.ext_get? fun name => Option.ext fun value => ?_
    rw [Catalog.get?_eq_some_iff, Catalog.get?_eq_some_iff, mem_facts root hs, mem_facts root hs',
      List.mem_map, List.mem_map]
    simp only [hdetails]

/-- Units are the same maps one by one when they are as many and answer alike under each number. -/
theorem forall₂_get?_iff {units units' : List Record} :
    List.Forall₂ (fun u v => u.get? = v.get?) units units' ↔
      units.length = units'.length ∧ ∀ (number : Nat) (label : Label),
        units[number]?.bind (·.get? label) = units'[number]?.bind (·.get? label) := by
  rw [List.forall₂_iff_get]
  refine and_congr_right fun hlength => ⟨fun h number label => ?_, fun h number hu hv => ?_⟩
  · by_cases hu : number < units.length
    · have hv : number < units'.length := hlength ▸ hu
      rw [List.getElem?_eq_getElem hu, List.getElem?_eq_getElem hv]
      exact congrFun (h number hu hv) label
    · have hv : ¬ number < units'.length := hlength ▸ hu
      rw [List.getElem?_eq_none (not_lt.1 hu), List.getElem?_eq_none (not_lt.1 hv)]
  · funext label
    have hget := h number label
    rwa [List.getElem?_eq_getElem hu, List.getElem?_eq_getElem hv] at hget

/-- Subject by subject, summaries say the same when they have the same count and the same common
fields, their units answer alike one by one, and so do their remarks. -/
theorem value?_eq_iff :
    (∀ x, s.value? x = s'.value? x) ↔
      s.count = s'.count ∧ s.common = s'.common ∧
      List.Forall₂ (fun u v => u.get? = v.get?) s.units s'.units ∧
      lastValue? s.other = lastValue? s'.other := by
  rw [forall₂_get?_iff]
  constructor
  · intro h
    have hcount : s.count = s'.count := Text.ofNat_injective (Option.some.inj (h .count))
    exact ⟨hcount, Catalog.ext_get? fun label => h (.common label),
      ⟨hcount, fun number label => h (.unit number label)⟩, funext fun label => h (.other label)⟩
  · rintro ⟨hcount, hcommon, ⟨-, hunits⟩, hother⟩ (_ | label | ⟨number, label⟩ | label)
    · exact congrArg (fun n => some (Text.ofNat n)) hcount
    · exact congrArg (·.get? label) hcommon
    · exact hunits number label
    · exact congrFun hother label

/-- Subjects of which a summary says something share no name. -/
theorem name_inj {root : Text} (hs : s.Only Stated) {x y : Subject} (hx : (s.value? x).isSome)
    (hy : (s.value? y).isSome) (hname : x.name root = y.name root) : x = y := by
  obtain ⟨v, hv⟩ := Option.isSome_iff_exists.1 hx
  obtain ⟨w, hw⟩ := Option.isSome_iff_exists.1 hy
  exact Subject.name_inj (pointFree_of_mem_details hs (mem_details.2 hv))
    (pointFree_of_mem_details hs (mem_details.2 hw)) hname

/-- **Facts leave out nothing but repeated remarks.**  Whatever the root, two summaries have the
same facts just when they have the same number of units, the same common fields, units that are the
same maps one by one, and the same last value for each label of their remarks.  There is one fact
for the count, one for each common field, for each field of each unit and for each label of the
remarks: what the summary says of a subject is found under the name of that subject, which no other
subject has. -/
theorem ofText_facts (root : Text) (a : Architecture) (t : Text) :
    let summary := ofText a t
    (∀ b u, summary.facts root = (ofText b u).facts root ↔
      summary.count = (ofText b u).count ∧ summary.common = (ofText b u).common ∧
      List.Forall₂ (fun v w => v.get? = w.get?) summary.units (ofText b u).units ∧
      lastValue? summary.other = lastValue? (ofText b u).other) ∧
    (summary.facts root).size =
      1 + summary.common.size + (summary.units.map (·.size)).sum +
        (summary.other.map (·.key)).eraseDups.length ∧
    ∀ x value, summary.value? x = some value →
      (summary.facts root).get? (x.name root) = some value ∧
        ∀ y, (summary.value? y).isSome → x.name root = y.name root → x = y := by
  intro summary
  have hstated : summary.Only Stated := only_stated a t
  refine ⟨fun b u => ?_, ?_, fun x value hx => ⟨get?_facts root hstated hx, fun y => ?_⟩⟩
  · rw [facts_eq_iff hstated (only_stated b u), value?_eq_iff]
  · rw [size_facts root hstated, length_details]
  · exact name_inj hstated (Option.isSome_of_eq_some hx)

/-- The facts of a stanza after a repeated remark: neither the order of its fields nor the value
that the remark had first can be told from them. -/
theorem ofText_facts_reordered :
    List.Forall₂ (fun v w => v.get? = w.get?)
      (ofText .x86_64 "a: 1\na: 2\nprocessor: 0\nb: 3\nc:".toList).units
      (ofText .x86_64 "a: 2\nprocessor: 0\nc:\nb: 3".toList).units ∧
    ((ofText .x86_64 "a: 1\na: 2\nprocessor: 0\nb: 3\nc:".toList).facts "cpu".toList).size = 8 ∧
    ((ofText .x86_64 "a: 1\na: 2\nprocessor: 0\nb: 3\nc:".toList).facts "cpu".toList).get?
      "cpu.unit.0.b".toList = some "3".toList := by
  have h := ofText_facts "cpu".toList .x86_64 "a: 1\na: 2\nprocessor: 0\nb: 3\nc:".toList
  refine ⟨((h.1 .x86_64 "a: 2\nprocessor: 0\nc:\nb: 3".toList).1 (by decide +kernel)).2.2.1,
    h.2.1.trans (by decide +kernel), ?_⟩
  exact (h.2.2 (.unit 0 ⟨"b".toList⟩) "3".toList (by decide +kernel)).1

end Summary

end ProcessorListing
