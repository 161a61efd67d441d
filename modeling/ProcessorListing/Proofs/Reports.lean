import ProcessorListing.Proofs.Decimals
import ProcessorListing.Proofs.WellFormed

/-!
# Reading a report

A report is written in lines: entries, in three parts, each of them closed by a blank line
(`Summary.report_eq_lines`).  Blank lines hold no entry, so reading a report gives the entries of its
parts, one part after the other (`Summary.all_report`).

The entries alone do not show where the common fields end and the remarks begin; the blank lines
do.  A text determines the lines that it was written in (`Text.lines_inj`), no line of an entry is
blank, and so a report determines each of its parts (`Summary.report_inj`).
-/

namespace ProcessorListing

namespace Text

/-- Lines are found again between the characters that end them. -/
theorem cut_lines {sep : Char → Bool} {c : Char} (hc : sep c = true) {lines : List Text}
    (h : ∀ s ∈ lines, ∀ d ∈ s, sep d = false) :
    cut sep (lines.flatMap (· ++ [c])) = lines ++ [[]] := by
  induction lines with
  | nil => rfl
  | cons s rest ih =>
    rw [List.flatMap_cons, List.append_assoc, List.singleton_append, cut_append_cons hc,
      cut_eq_singleton (h s (by simp)), ih fun u hu => h u (by simp [hu])]
    rfl

/-- A text determines the lines in which it was written. -/
theorem lines_inj {lines lines' : List Text} (hl : ∀ s ∈ lines, OneLine s)
    (hl' : ∀ s ∈ lines', OneLine s)
    (h : lines.flatMap (· ++ ['\n']) = lines'.flatMap (· ++ ['\n'])) : lines = lines' := by
  have hcut := congrArg (cut isBreak) h
  rw [cut_lines (by decide) hl, cut_lines (by decide) hl'] at hcut
  exact List.append_cancel_right hcut

end Text

namespace Entry

open Text

theorem ofField_injective : Function.Injective ofField := by
  rintro ⟨⟨key⟩, value⟩ ⟨⟨key'⟩, value'⟩ h
  simpa [ofField] using h

theorem line_ne_nil (e : Entry) : e.line ≠ [] := by simp [line]

theorem isStatement_mk {name value : Text}
    (hname : name ≠ [] ∧ IsTrimmed name ∧ ':' ∉ name ∧ OneLine name)
    (hvalue : IsTrimmed value ∧ OneLine value) : IsStatement ⟨name, value⟩ :=
  ⟨hname.1, hname.2.1, hname.2.2.1, hname.2.2.2, hvalue.1, hvalue.2⟩

/-- The lines of statements are read back as them. -/
theorem filterMap_line {es : List Entry} (h : ∀ e ∈ es, IsStatement e) :
    (es.map line).filterMap ofLine? = es :=
  filterMap_of_writes (forall₂_map_writes writes_line h) h

/-- The lines of statements determine them. -/
theorem map_line_inj {es es' : List Entry} (hes : ∀ e ∈ es, IsStatement e)
    (hes' : ∀ e ∈ es', IsStatement e) (h : es.map line = es'.map line) : es = es' := by
  rw [← filterMap_line hes, h, filterMap_line hes']

end Entry

namespace Summary

open Text

/-- The two entries that a report begins with. -/
def headings (s : Summary) : List Entry :=
  [⟨"Processor count".toList, Text.ofNat s.count⟩,
    ⟨"model_name".toList, s.modelName.getD "None".toList⟩]

/-- The lines of a report: the headings, the common fields and the remarks, with a blank line after
each of the three. -/
def reportLines (s : Summary) : List Text :=
  s.headings.map Entry.line ++ [] :: ((s.common.bindings.map Entry.ofField).map Entry.line ++
    [] :: (s.other.map Entry.ofField).map Entry.line) ++ [[]]

theorem report_eq_lines (s : Summary) : s.report = s.reportLines.flatMap (· ++ ['\n']) := by
  simp [report, reportLines, headings, namedLine, funext Dialect.fieldLine_eq, Entry.line,
    Entry.ofField, List.flatMap_map]

variable {s s' : Summary}

theorem isStatement_of_mem_headings (hs : s.Only Stated) {e : Entry} (he : e ∈ s.headings) :
    Entry.IsStatement e := by
  have hmodel : IsTrimmed (s.modelName.getD "None".toList) ∧
      OneLine (s.modelName.getD "None".toList) := by
    cases hmodel : s.modelName with
    | none => decide
    | some value =>
      have hstated := hs.common _ (Catalog.get?_eq_some_iff.1 hmodel)
      exact ⟨hstated.value_trimmed, hstated.value_line⟩
  simp only [headings, List.mem_cons, List.not_mem_nil, or_false] at he
  rcases he with rfl | rfl
  · exact Entry.isStatement_mk (by decide)
      ⟨isTrimmed_of_forall fun _ => not_isBlank_of_mem_ofNat,
        oneLine_of_forall fun _ => not_isBlank_of_mem_ofNat⟩
  · exact Entry.isStatement_mk (by decide) hmodel

theorem oneLine_of_mem_reportLines (hs : s.Only Stated) {l : Text} (hl : l ∈ s.reportLines) :
    OneLine l := by
  have hline : ∀ es : List Entry, (∀ e ∈ es, e.IsStatement) → l ∈ es.map Entry.line → OneLine l := by
    intro es hes hmem
    obtain ⟨e, he, rfl⟩ := List.mem_map.1 hmem
    exact (Entry.writes_line (hes e he)).oneLine
  have hblank : OneLine [] := by decide
  simp only [reportLines, List.mem_append, List.mem_cons, List.not_mem_nil, or_false] at hl
  rcases hl with (hl | rfl | hl | rfl | hl) | rfl
  · exact hline _ (fun _ => isStatement_of_mem_headings hs) hl
  · exact hblank
  · exact hline _ (fun _ => isStatement_of_mem_ofField hs.common) hl
  · exact hblank
  · exact hline _ (fun _ => isStatement_of_mem_ofField hs.other) hl
  · exact hblank

/-- The entries of a report are those of its parts. -/
theorem all_report (hs : s.Only Stated) :
    Entry.all s.report =
      s.headings ++ (s.common.bindings.map Entry.ofField ++ s.other.map Entry.ofField) := by
  rw [report_eq_lines, Entry.all_lines fun _ => oneLine_of_mem_reportLines hs, reportLines]
  simp only [List.filterMap_append, List.filterMap_cons_none Entry.ofLine?_nil, List.filterMap_nil,
    List.append_nil, Entry.filterMap_line fun _ => isStatement_of_mem_headings hs,
    Entry.filterMap_line fun _ => isStatement_of_mem_ofField hs.common,
    Entry.filterMap_line fun _ => isStatement_of_mem_ofField hs.other]

theorem fields_eq_of_lines_eq {fs fs' : List Field} (hfs : ∀ f ∈ fs, Stated f)
    (hfs' : ∀ f ∈ fs', Stated f)
    (h : (fs.map Entry.ofField).map Entry.line = (fs'.map Entry.ofField).map Entry.line) :
    fs = fs' := by
  have hentries := Entry.map_line_inj (fun _ => isStatement_of_mem_ofField hfs)
    (fun _ => isStatement_of_mem_ofField hfs') h
  exact List.map_injective_iff.2 Entry.ofField_injective hentries

theorem nil_not_mem_map_line (es : List Entry) : [] ∉ es.map Entry.line := by
  intro h
  obtain ⟨e, -, he⟩ := List.mem_map.1 h
  exact e.line_ne_nil he

/-- A report determines the count, the common fields and the remarks. -/
theorem report_inj (hs : s.Only Stated) (hs' : s'.Only Stated) (h : s.report = s'.report) :
    s.count = s'.count ∧ s.common = s'.common ∧ s.other = s'.other := by
  rw [report_eq_lines, report_eq_lines] at h
  have hlines : s.reportLines = s'.reportLines :=
    lines_inj (fun _ => oneLine_of_mem_reportLines hs) (fun _ => oneLine_of_mem_reportLines hs') h
  -- The last blank line is common to both; the headings are two lines in both.
  have hparts := List.append_cancel_right hlines
  rw [headings, headings] at hparts
  simp only [List.map_cons, List.map_nil, List.cons_append, List.nil_append, List.cons.injEq,
    true_and] at hparts
  obtain ⟨hcount, -, hfields⟩ := hparts
  rw [List.append_cons_inj_of_notMem (nil_not_mem_map_line _) (nil_not_mem_map_line _)] at hfields
  obtain ⟨hcommon, -, hother⟩ := hfields
  refine ⟨?_, Catalog.ext (fields_eq_of_lines_eq hs.common hs'.common hcommon),
    fields_eq_of_lines_eq hs.other hs'.other hother⟩
  simp only [Entry.line] at hcount
  have hdigits := List.append_cancel_left hcount
  simp only [List.cons.injEq, true_and] at hdigits
  exact ofNat_injective hdigits

/-- **A report is read as what it says.**  The entries of a report are the number of units, the name
of the model, the common fields in their order, and the remarks in theirs; and summaries with the
same report have the same number of units, the same common fields and the same remarks. -/
theorem ofText_report (a : Architecture) (t : Text) :
    let summary := ofText a t
    Entry.all summary.report =
      [⟨"Processor count".toList, Text.ofNat summary.count⟩,
        ⟨"model_name".toList, summary.modelName.getD "None".toList⟩] ++
      (summary.common.bindings.map Entry.ofField ++ summary.other.map Entry.ofField) ∧
    ∀ b u, (ofText b u).report = summary.report →
      (ofText b u).count = summary.count ∧ (ofText b u).common = summary.common ∧
        (ofText b u).other = summary.other :=
  ⟨all_report (only_stated a t), fun b u h => report_inj (only_stated b u) (only_stated a t) h⟩

/-- The report of an ARM listing does not show the numbers of its units. -/
theorem ofText_report_renumbered :
    Entry.all (ofText .aarch64 "hardware: a:b\nprocessor: 0\nm:".toList).report =
      [⟨"Processor count".toList, "1".toList⟩, ⟨"model_name".toList, "None".toList⟩,
        ⟨"m".toList, []⟩, ⟨"hardware".toList, "a:b".toList⟩] ∧
    (ofText .aarch64 "hardware: a:b\nprocessor: 7\nm:".toList).report =
      (ofText .aarch64 "hardware: a:b\nprocessor: 0\nm:".toList).report ∧
    (ofText .aarch64 "hardware: a:b\nprocessor: 7\nm:".toList).common =
      (ofText .aarch64 "hardware: a:b\nprocessor: 0\nm:".toList).common := by
  have h := ofText_report .aarch64 "hardware: a:b\nprocessor: 0\nm:".toList
  have hsame : (ofText .aarch64 "hardware: a:b\nprocessor: 7\nm:".toList).report =
      (ofText .aarch64 "hardware: a:b\nprocessor: 0\nm:".toList).report := by
    decide +kernel
  exact ⟨h.1.trans (by decide +kernel), hsame, (h.2 _ _ hsame).2.1⟩

end Summary

end ProcessorListing
