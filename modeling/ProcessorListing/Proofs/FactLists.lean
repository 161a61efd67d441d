import ProcessorListing.CommandLine.Run
import ProcessorListing.Proofs.ByteOrder
import ProcessorListing.Proofs.Facts
import ProcessorListing.Proofs.Reports

/-!
# Reading a list of facts

A list of facts has one line `name=value` for each fact, and nothing in it is escaped.  No label and
no value holds a line feed, so the lines are found again (`Summary.splitOn_factList`).  A line that is
parted at its first `=` is read as its fact exactly when the name holds none
(`Fact.ofLine?_eq_some_iff`); how many stand in the value does not matter.  A `=` in a name comes from
the label (`Summary.not_mem_facts_iff`), so the labels of a summary decide whether its list can be
read back; `Summary.ofText_factList` says so of whole listings.
-/

namespace ProcessorListing

open Text

namespace Fact

/-- The line of a fact, without its end. -/
def line (f : Fact) : Text := f.key ++ '=' :: f.value

/-- The fact that a line is read as, its name being what stands before the first `=`. -/
def ofLine? (line : Text) : Option Fact :=
  match line.dropWhile (· != '=') with
  | [] => none
  | _ :: value => some ⟨line.takeWhile (· != '='), value⟩

theorem line_ne_nil (f : Fact) : f.line ≠ [] := by simp [line]

/-- A line is read as a fact exactly when it is the line of this fact and the name has no `=`. -/
theorem ofLine?_eq_some_iff {l : Text} {f : Fact} : ofLine? l = some f ↔ l = f.line ∧ '=' ∉ f.key := by
  constructor
  · intro h
    unfold ofLine? at h
    split at h
    next => cases h
    next value hrest =>
      obtain rfl := Option.some.inj h
      exact append_cons_of_dropWhile hrest
  · rintro ⟨rfl, hkey⟩
    obtain ⟨htake, hdrop⟩ := parted_append_cons hkey f.value
    rw [ofLine?, line, hdrop]
    simp only [htake]

/-- The name of a fact is parted inside its label. -/
example : ofLine? (line ⟨"cpu.other.a=b".toList, "c".toList⟩) =
    some ⟨"cpu.other.a".toList, "b=c".toList⟩ := by
  decide

end Fact

namespace Summary

variable {s : Summary} {root : Text}

/-! ## Characters of names and values -/

/-- Where the details of a summary have only labels with `p`, so have its fields. -/
theorem only_of_details {p : Label → Prop} (h : ∀ b ∈ s.details, ∀ label ∈ b.key.label?, p label) :
    s.Only fun f => p f.key := by
  constructor
  · intro u hu f hf
    obtain ⟨number, hnumber⟩ := List.mem_iff_getElem?.1 hu
    have hvalue : s.value? (.unit number f.key) = some f.value :=
      Option.bind_eq_some_iff.2 ⟨u, hnumber, Record.get?_eq_some_iff.2 hf⟩
    exact h _ (mem_details.2 hvalue) f.key rfl
  · intro f hf
    have hvalue : s.value? (.common f.key) = some f.value := Catalog.get?_eq_some_iff.2 hf
    exact h _ (mem_details.2 hvalue) f.key rfl
  · intro f hf
    -- Another remark may have the last value of this label.
    have hvalue : s.value? (.other f.key) ≠ none := fun hnone =>
      Binding.lastValue?_eq_none_iff.1 hnone (List.mem_map_of_mem hf)
    obtain ⟨value, hvalue⟩ := Option.ne_none_iff_exists'.1 hvalue
    exact h _ (mem_details.2 hvalue) f.key rfl

/-- A character that is no letter, digit or point and does not stand in the root stands in the name
of a fact exactly when it stands in a label. -/
theorem not_mem_facts_iff (hs : s.Only Stated) {c : Char} (hpoint : c ≠ '.')
    (hc : c.isAlphanum = false) (hroot : c ∉ root) :
    (∀ f ∈ (s.facts root).bindings, c ∉ f.key) ↔ s.Only fun f => c ∉ f.key.text := by
  have hname : ∀ x : Subject, c ∉ x.name root ↔ ∀ label ∈ x.label?, c ∉ label.text := by
    intro x
    rw [Subject.mem_name_iff hpoint hc]
    simp [hroot]
  constructor
  · intro h
    refine only_of_details (p := fun label => c ∉ label.text) fun b hb => (hname b.key).1 ?_
    exact h _ ((mem_facts root hs).2 (List.mem_map_of_mem hb))
  · intro h f hf
    obtain ⟨b, hb, rfl⟩ := List.mem_map.1 ((mem_facts root hs).1 hf)
    exact (hname b.key).2 fun label hlabel => of_mem_details h hb hlabel

theorem oneLine_value_of_mem_facts (hs : s.Only Stated) {f : Fact} (hf : f ∈ (s.facts root).bindings) :
    OneLine f.value := by
  obtain ⟨⟨x, value⟩, hb, rfl⟩ := List.mem_map.1 ((mem_facts root hs).1 hf)
  cases hlabel : x.label? with
  | some label => exact (of_mem_details hs hb hlabel).value_line
  | none =>
    cases x with
    | count =>
      obtain rfl : Text.ofNat s.count = value := Option.some.inj (mem_details.1 hb)
      exact oneLine_of_forall fun _ => not_isBlank_of_mem_ofNat
    | common | unit | other => cases hlabel

/-! ## Lines -/

theorem lineFeed_not_mem_line (hs : s.Only Stated) (hroot : '\n' ∉ root) {f : Fact}
    (hf : f ∈ (s.facts root).bindings) : '\n' ∉ f.line := by
  have hlabels : s.Only fun f => '\n' ∉ f.key.text :=
    hs.mono fun _ hg => (oneLine_iff.1 hg.isStatement.name_line).1
  have hkey : '\n' ∉ f.key :=
    (not_mem_facts_iff hs (by decide) (by decide) hroot).2 hlabels f hf
  have hvalue : '\n' ∉ f.value := (oneLine_iff.1 (oneLine_value_of_mem_facts hs hf)).1
  simp [Fact.line, hkey, hvalue]

/-- Between its line feeds a list of facts has the lines of the facts, and after the last one
nothing. -/
theorem splitOn_factList (hs : s.Only Stated) (hroot : '\n' ∉ root) :
    (s.factList root).splitOn '\n' = (s.facts root).bindings.map Fact.line ++ [[]] := by
  have hlines : s.factList root = ((s.facts root).bindings.map Fact.line).flatMap (· ++ ['\n']) := by
    rw [List.flatMap_map]
    rfl
  rw [List.splitOn, ← cut_eq_splitOnP, hlines]
  refine cut_lines (by decide) fun l hl c hc => ?_
  obtain ⟨f, hf, rfl⟩ := List.mem_map.1 hl
  rw [beq_eq_false_iff_ne]
  rintro rfl
  exact lineFeed_not_mem_line hs hroot hf hc

theorem lines_factList (hs : s.Only Stated) (hroot : '\n' ∉ root) :
    ((s.factList root).splitOn '\n').filter (· ≠ []) = (s.facts root).bindings.map Fact.line := by
  have hlines : ((s.facts root).bindings.map Fact.line).filter (· ≠ []) =
      (s.facts root).bindings.map Fact.line := by
    refine List.filter_eq_self.2 fun l hl => ?_
    obtain ⟨f, -, rfl⟩ := List.mem_map.1 hl
    simpa using f.line_ne_nil
  rw [splitOn_factList hs hroot, List.filter_append, hlines]
  simp

/-- **A list of facts can be read back exactly when no label holds a `=`.**  Between its line feeds it
has one line for each fact, in ascending order of the bytes of their names, and no other line that is
not empty.  Parted at their first `=`, the lines give the facts again, one by one, exactly when no
label of the summary holds a `=`; otherwise they do not even bind the same names to the same
values. -/
theorem ofText_factList (a : Architecture) (t : Text) :
    let summary := ofText a t
    let facts := summary.facts "cpu".toList
    let lines := ((Format.facts.render summary).splitOn '\n').filter (· ≠ [])
    (lines.length = facts.size ∧ lines = facts.bindings.map Fact.line ∧
      facts.bindings.Pairwise fun f g => Utf8.encode f.key < Utf8.encode g.key) ∧
    (lines.map Fact.ofLine? = facts.bindings.map some ↔ summary.Only fun f => '=' ∉ f.key.text) ∧
    (Catalog.ofList (lines.filterMap Fact.ofLine?) = facts ↔
      summary.Only fun f => '=' ∉ f.key.text) := by
  intro summary facts lines
  have hs : summary.Only Stated := only_stated a t
  have hlines : lines = facts.bindings.map Fact.line := lines_factList hs (by decide)
  have hnames : (∀ f ∈ facts.bindings, '=' ∉ f.key) ↔ summary.Only fun f => '=' ∉ f.key.text :=
    not_mem_facts_iff hs (by decide) (by decide) (by decide)
  have hread : (∀ f ∈ facts.bindings, '=' ∉ f.key) →
      ∀ f ∈ facts.bindings, Fact.ofLine? (Fact.line f) = some f := fun h f hf =>
    Fact.ofLine?_eq_some_iff.2 ⟨rfl, h f hf⟩
  refine ⟨⟨?_, hlines, facts.ascending_bytes⟩, ?_, ?_⟩
  · rw [hlines, List.length_map, Catalog.size]
  · rw [← hnames, hlines, List.map_map]
    refine ⟨fun h f hf => ?_, fun h => List.map_congr_left (hread h)⟩
    have hmem : some f ∈ facts.bindings.map (Fact.ofLine? ∘ Fact.line) := h ▸ List.mem_map_of_mem hf
    obtain ⟨g, -, hg⟩ := List.mem_map.1 hmem
    exact (Fact.ofLine?_eq_some_iff.1 hg).2
  · rw [← hnames, hlines, List.filterMap_map]
    refine ⟨fun h f hf => ?_, fun h => ?_⟩
    · rw [← h] at hf
      obtain ⟨g, -, hg⟩ := List.mem_filterMap.1 (Catalog.mem_of_mem_ofList hf)
      exact (Fact.ofLine?_eq_some_iff.1 hg).2
    · have hall : facts.bindings.filterMap (Fact.ofLine? ∘ Fact.line) = facts.bindings :=
        (List.filterMap_congr (hread h)).trans List.filterMap_some
      rw [hall, Catalog.ofList_bindings]

end Summary

end ProcessorListing
