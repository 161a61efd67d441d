import ProcessorListing.Architecture
import ProcessorListing.Proofs.Entries
import Mathlib.Data.List.Forall2

/-!
# Renames

A dialect may have any table of renames.  Each entry of a listing is looked up in it once, by its name
as written: the first rename of exactly this name gives the name to be read, and where there is none
the name is read as it stands (`Renamed`).  What is looked up is always what a line can state, so a
rename of anything else has no effect, nor has one that comes after another of the same name; and where
no two are of the same name their order has no effect either (`Dialect.fields_renames`).
-/

namespace ProcessorListing

open Text

namespace Binding

variable {κ : Type} [DecidableEq κ]

theorem exists_of_firstValue? {bindings : List (Binding κ)} {key : κ} {value : Text}
    (h : firstValue? bindings key = some value) :
    ∃ before after, bindings = before ++ ⟨key, value⟩ :: after ∧ key ∉ before.map (·.key) := by
  obtain ⟨b, hb, rfl⟩ := Option.map_eq_some_iff.1 h
  obtain ⟨hkey, before, after, rfl, hbefore⟩ := List.find?_eq_some_iff_append.1 hb
  obtain rfl : b.key = key := by simpa using hkey
  refine ⟨before, after, rfl, fun hm => ?_⟩
  obtain ⟨b', hb', hkey'⟩ := List.mem_map.1 hm
  simpa [hkey'] using hbefore b' hb'

/-- A binding of another key, or one behind a binding of its own key, can be left out. -/
theorem firstValue?_append_cons {before after : List (Binding κ)} {b : Binding κ} {key : κ}
    (h : b.key ≠ key ∨ b.key ∈ before.map (·.key)) :
    firstValue? (before ++ b :: after) key = firstValue? (before ++ after) key := by
  rw [firstValue?_append, firstValue?_append, firstValue?_cons]
  split
  next hkey =>
    have hm : key ∈ before.map (·.key) := hkey ▸ h.resolve_left (fun hne => hne hkey)
    obtain ⟨value, hvalue⟩ := Option.ne_none_iff_exists'.1 (mt firstValue?_eq_none_iff.1 (· hm))
    rw [hvalue, Option.some_or, Option.some_or]
  next => rfl

/-- Where keys are distinct, the order of bindings does not count. -/
theorem firstValue?_perm {xs ys : List (Binding κ)} (hd : (xs.map (·.key)).Nodup)
    (hp : ys.Perm xs) (key : κ) : firstValue? ys key = firstValue? xs key := by
  have hd' : (ys.map (·.key)).Nodup := (hp.map (·.key)).nodup_iff.2 hd
  refine Option.ext fun value => ⟨fun h => ?_, fun h => ?_⟩
  · exact firstValue?_of_mem hd (hp.subset (mem_of_firstValue? h))
  · exact firstValue?_of_mem hd' (hp.symm.subset (mem_of_firstValue? h))

end Binding

/-- The label of a name as written, by a table of renames. -/
inductive Renamed (renames : List (Binding Text)) (name : Text) : Label → Prop
  /-- The first rename of this name gives the name to be read. -/
  | first {before after : List (Binding Text)} {name' : Text} :
      renames = before ++ ⟨name, name'⟩ :: after → name ∉ before.map (·.key) →
      Renamed renames name (Label.ofText name')
  /-- A name of which there is no rename is read as it stands. -/
  | kept : name ∉ renames.map (·.key) → Renamed renames name (Label.ofText name)

/-- A rename, with those before it, that no line can make use of: one of a name that no line can state,
or of a name that is renamed before. -/
inductive Unused (before : List (Binding Text)) (b : Binding Text) : Prop
  | empty : b.key = [] → Unused before b
  | parted {c : Char} : c ∈ b.key → c = ':' ∨ c = '\n' ∨ c = '\r' → Unused before b
  | blankStart {c : Char} : c ∈ b.key.head? → isBlank c = true → Unused before b
  | blankEnd {c : Char} : c ∈ b.key.getLast? → isBlank c = true → Unused before b
  | repeated : b.key ∈ before.map (·.key) → Unused before b

/-- What a line can state is no name that is renamed in vain, unless it is renamed before. -/
theorem Unused.ne_or {before : List (Binding Text)} {b : Binding Text} (h : Unused before b)
    {e : Entry} (he : e.IsStatement) : b.key ≠ e.key ∨ b.key ∈ before.map (·.key) := by
  by_cases hkey : b.key = e.key
  · refine .inr ?_
    cases h with
    | empty hnil => exact absurd (hkey.symm.trans hnil) he.name_ne_nil
    | parted hc hbreak =>
      rw [hkey] at hc
      rcases hbreak with rfl | hbreak
      · exact absurd hc he.colon_not_mem
      · exact absurd ((he.name_line _ hc).symm.trans (isBreak_iff.2 hbreak)) (by decide)
    | blankStart hc hblank =>
      rw [hkey] at hc
      exact absurd ((he.name_trimmed.1 _ hc).symm.trans hblank) (by decide)
    | blankEnd hc hblank =>
      rw [hkey] at hc
      exact absurd ((he.name_trimmed.2 _ hc).symm.trans hblank) (by decide)
    | repeated hm => exact hm
  · exact .inl hkey

namespace Dialect

variable {d d' : Dialect} {t : Text}

theorem renamed_field (d : Dialect) (e : Entry) : Renamed d.renames e.key (d.field e).key := by
  cases hvalue : Binding.firstValue? d.renames e.key with
  | none =>
    rw [field, rename, hvalue]
    exact .kept (Binding.firstValue?_eq_none_iff.1 hvalue)
  | some name' =>
    rw [field, rename, hvalue]
    obtain ⟨before, after, hrenames, hbefore⟩ := Binding.exists_of_firstValue? hvalue
    exact .first hrenames hbefore

/-- Dialects that rename what a line can state alike have the same fields. -/
theorem fields_congr (h : ∀ e : Entry, e.IsStatement →
    Binding.firstValue? d.renames e.key = Binding.firstValue? d'.renames e.key) :
    d.fields t = d'.fields t := by
  refine List.map_congr_left fun e he => ?_
  simp only [field, rename, h e (Entry.isStatement_of_mem_all he)]

/-- **Names are renamed once, exactly, by the first rename.**  A listing has a field for each of its
entries, in order, with the value of the entry and the label that the renames give its name.  A rename
that no line can make use of can be left out of the table, and where no two renames are of the same
name they can stand in any order. -/
theorem fields_renames (d : Dialect) (t : Text) :
    List.Forall₂ (fun e f => f.value = e.value ∧ Renamed d.renames e.key f.key)
      (Entry.all t) (d.fields t) ∧
    (∀ before b after, d.renames = before ++ b :: after → Unused before b →
      { d with renames := before ++ after }.fields t = d.fields t) ∧
    ∀ renames, (d.renames.map (·.key)).Nodup → renames.Perm d.renames →
      { d with renames := renames }.fields t = d.fields t := by
  refine ⟨?_, fun before b after hrenames hunused => ?_, fun renames hd hp => ?_⟩
  · rw [fields, List.forall₂_map_right_iff, List.forall₂_same]
    exact fun e _ => ⟨rfl, d.renamed_field e⟩
  · refine fields_congr fun e he => ?_
    rw [hrenames]
    exact (Binding.firstValue?_append_cons (hunused.ne_or he)).symm
  · exact fields_congr fun e _ => Binding.firstValue?_perm hd hp e.key

/-- A chain of two renames, one behind another of the same name, and one of a name with white space at
its end: the last two can go, and the first two can change places. -/
theorem fields_renames_chained :
    let table (renames : List (Binding Text)) : Dialect :=
      { Architecture.armDialect with renames := renames }
    let ab : Binding Text := ⟨"a".toList, "b".toList⟩
    let bc : Binding Text := ⟨"b".toList, "c".toList⟩
    let ad : Binding Text := ⟨"a".toList, "d".toList⟩
    let blank : Binding Text := ⟨"A ".toList, "e".toList⟩
    let t := "a: 1\nb: 2\nA : 3\n".toList
    Unused [ab, bc] ad ∧ Unused [ab, bc] blank ∧
    (table [ab, bc, blank]).fields t = (table [ab, bc, ad, blank]).fields t ∧
    (table [ab, bc]).fields t = (table [ab, bc, blank]).fields t ∧
    (table [bc, ab]).fields t = (table [ab, bc]).fields t ∧
    (table [bc, ab]).fields t =
      [⟨⟨"b".toList⟩, "1".toList⟩, ⟨⟨"c".toList⟩, "2".toList⟩, ⟨⟨"a".toList⟩, "3".toList⟩] := by
  intro table ab bc ad blank t
  have had : Unused [ab, bc] ad := .repeated (by decide)
  have hblank : Unused [ab, bc] blank := @Unused.blankEnd _ _ ' ' (by decide) (by decide)
  have hperm : [bc, ab].Perm [ab, bc] := .swap ab bc []
  exact ⟨had, hblank, (fields_renames (table [ab, bc, ad, blank]) t).2.1 [ab, bc] ad [blank] rfl had,
    (fields_renames (table [ab, bc, blank]) t).2.1 [ab, bc] blank [] rfl hblank,
    (fields_renames (table [ab, bc]) t).2.2 [bc, ab] (by decide) hperm, by decide +kernel⟩

end Dialect

end ProcessorListing
