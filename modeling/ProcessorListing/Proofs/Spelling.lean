import ProcessorListing.Proofs.CanonicalLabels
import ProcessorListing.Proofs.SharedLayout
import ProcessorListing.Proofs.Statements
import Mathlib.Logic.Relation

/-!
# Spelling

A listing can be spelled in many ways: with other line ends, with other white space around its names
and values, with lines between that hold no entry, and with names in another spelling of the same
label.  `LineEdit` has the edits of single lines, and `Text.Joined` says which texts some lines make,
whatever stands between them.

An edit keeps the fields that the lines state (`filterMap_field?_of_edit`), and so does any number of
edits; joining lines adds no entry (`Entry.all_of_joined`).  Hence texts that are spelled differently
have the same summary (`Summary.ofText_of_edits`).
-/

namespace ProcessorListing

namespace Text

/-- A text that is made of lines, with line ends between them and perhaps after the last. -/
inductive Joined : List Text → Text → Prop
  | nil : Joined [] []
  | single {line : Text} : OneLine line → Joined [line] line
  | cons {line ends t : Text} {lines : List Text} :
      OneLine line → LineEnds ends → Joined lines t → Joined (line :: lines) (line ++ ends ++ t)

end Text

open Text

namespace Entry

theorem all_of_joined {lines : List Text} {t : Text} (h : Joined lines t) :
    all t = lines.filterMap ofLine? := by
  induction h with
  | nil => exact all_nil
  | single hline =>
    rw [all_of_line hline]
    cases hentry : ofLine? _ <;> simp [hentry]
  | cons hline hends _ ih =>
    rw [all_append hends, all_of_line hline, ih]
    cases hentry : ofLine? _ <;> simp [hentry]

/-- A line with no colon, or with nothing but white space before the first one. -/
def Idle (line : Text) : Prop := ':' ∉ line ∨ ∀ c ∈ line.takeWhile (· != ':'), isBlank c = true

theorem ofLine?_of_idle {line : Text} (h : Idle line) : ofLine? line = none := by
  unfold ofLine?
  cases hrest : line.dropWhile (· != ':') with
  | nil => rfl
  | cons c value =>
    rcases h with hcolon | hblank
    · rw [(append_cons_of_dropWhile hrest).1] at hcolon
      exact absurd (List.mem_append_right _ List.mem_cons_self) hcolon
    · have htrim : trim (line.takeWhile (· != ':')) = [] := by
        simpa using @trim_pad _ [] [] hblank (by decide) (by simp)
      simp only [htrim, if_true]

end Entry

/-- Two spellings of a name that a listing of the architecture may use for each other: they have the
same label, and an ARM listing does not have the capitalized `Processor` for one of them only. -/
structure SameName (a : Architecture) (name name' : Text) : Prop where
  trimmed : IsTrimmed name
  trimmed' : IsTrimmed name'
  colon_not_mem : ':' ∉ name
  colon_not_mem' : ':' ∉ name'
  label : Label.ofText name = Label.ofText name'
  capitalized : a = .aarch64 → (name = "Processor".toList ↔ name' = "Processor".toList)

/-- One change to the lines of a listing that changes nothing of what it states. -/
inductive LineEdit (a : Architecture) : List Text → List Text → Prop
  /-- A line without an entry is put in. -/
  | insert {before after : List Text} {line : Text} : Entry.Idle line →
      LineEdit a (before ++ after) (before ++ line :: after)
  /-- A line without an entry is left out. -/
  | delete {before after : List Text} {line : Text} : Entry.Idle line →
      LineEdit a (before ++ line :: after) (before ++ after)
  /-- A line has other white space around its name and its value, or another spelling of its name. -/
  | respell {before after : List Text} {name name' value line line' : Text} :
      SameName a name name' → IsTrimmed value →
      Entry.Padded name value line → Entry.Padded name' value line' →
      LineEdit a (before ++ line :: after) (before ++ line' :: after)

namespace SameName

variable {a : Architecture} {name name' : Text}

theorem nil_of_nil (h : SameName a name name') (hnil : name = []) : name' = [] := by
  refine Classical.byContradiction fun hne => ?_
  have hlabel : (Label.ofText name').text ≠ [] :=
    Label.ofText_ne_nil (exists_not_isBlank_of_isTrimmed h.trimmed' hne)
  rw [← h.label, hnil] at hlabel
  exact hlabel rfl

theorem symm (h : SameName a name name') : SameName a name' name where
  trimmed := h.trimmed'
  trimmed' := h.trimmed
  colon_not_mem := h.colon_not_mem'
  colon_not_mem' := h.colon_not_mem
  label := h.label.symm
  capitalized := fun ha => (h.capitalized ha).symm

/-- Names that may be used for each other are read as the same label, also where one is renamed. -/
theorem label_rename (h : SameName a name name') :
    Label.ofText (a.dialect.rename name) = Label.ofText (a.dialect.rename name') := by
  by_cases ha : a = .aarch64
  · subst ha
    rw [Architecture.dialect, Architecture.rename_armDialect, Architecture.rename_armDialect]
    by_cases hname : name = "Processor".toList
    · rw [if_pos hname, if_pos ((h.capitalized rfl).1 hname)]
    · rw [if_neg hname, if_neg fun hname' => hname ((h.capitalized rfl).2 hname'), h.label]
  · have hrename : ∀ n, a.dialect.rename n = n := fun n => by
      cases a with
      | aarch64 => exact absurd rfl ha
      | _ => rfl
    rw [hrename, hrename, h.label]

end SameName

/-- The field that a line states, if it has an entry. -/
def Dialect.field? (d : Dialect) (line : Text) : Option Field := (Entry.ofLine? line).map d.field

theorem Dialect.fields_eq_filterMap (d : Dialect) (t : Text) :
    d.fields t = (pieces t).filterMap d.field? := by
  rw [fields, Entry.all_eq_filterMap, List.map_filterMap]
  rfl

variable {a : Architecture}

theorem field?_of_idle {line : Text} (h : Entry.Idle line) : a.dialect.field? line = none := by
  rw [Dialect.field?, Entry.ofLine?_of_idle h, Option.map_none]

theorem field?_eq_of_sameName {name name' value line line' : Text} (h : SameName a name name')
    (hvalue : IsTrimmed value) (hline : Entry.Padded name value line)
    (hline' : Entry.Padded name' value line') :
    a.dialect.field? line = a.dialect.field? line' := by
  rw [Dialect.field?, Dialect.field?,
    Entry.ofLine?_of_padded hline h.trimmed h.colon_not_mem hvalue,
    Entry.ofLine?_of_padded hline' h.trimmed' h.colon_not_mem' hvalue]
  by_cases hnil : name = []
  · rw [if_pos hnil, if_pos (h.nil_of_nil hnil)]
  · rw [if_neg hnil, if_neg fun hnil' => hnil (h.symm.nil_of_nil hnil')]
    simp only [Option.map_some, Dialect.field, h.label_rename]

/-- An edit keeps the fields that the lines state. -/
theorem filterMap_field?_of_edit {lines lines' : List Text} (h : LineEdit a lines lines') :
    lines.filterMap a.dialect.field? = lines'.filterMap a.dialect.field? := by
  cases h with
  | insert hidle =>
    rw [List.filterMap_append, List.filterMap_append,
      List.filterMap_cons_none (field?_of_idle hidle)]
  | delete hidle =>
    rw [List.filterMap_append, List.filterMap_append,
      List.filterMap_cons_none (field?_of_idle hidle)]
  | respell hname hvalue hline hline' =>
    have hfield := field?_eq_of_sameName hname hvalue hline hline'
    rw [List.filterMap_append, List.filterMap_append, List.filterMap_cons, List.filterMap_cons,
      hfield]

namespace Summary

/-- **The spelling of a listing does not count.**  Take the lines of a listing, between its CR and LF
characters, and put lines without an entry in or leave them out, pad names and values in another way,
or spell a name in another way with the same label (in an ARM listing, not `Processor` for anything
else, nor anything else for it), all of this as often as you like.  Whatever line ends are then put
between the lines, the text has the summary of the listing. -/
theorem ofText_of_edits (a : Architecture) {t t' : Text} {lines : List Text}
    (hedits : Relation.ReflTransGen (LineEdit a) (pieces t) lines) (ht' : Joined lines t') :
    ofText a t' = ofText a t := by
  have hkept : lines.filterMap a.dialect.field? = (pieces t).filterMap a.dialect.field? := by
    clear ht'
    induction hedits with
    | refl => rfl
    | tail _ hedit ih => rw [← filterMap_field?_of_edit hedit, ih]
  have hfields : a.dialect.fields t' = a.dialect.fields t := by
    rw [Dialect.fields_eq_filterMap a.dialect t, ← hkept, Dialect.fields, Entry.all_of_joined ht',
      List.map_filterMap]
    rfl
  rw [ofText, ofText, Dialect.arrange, Dialect.arrange, hfields]

/-- A blank line left out, a name in capitals and with a point, and a line without a name put in. -/
theorem ofText_of_edits_pointed :
    Relation.ReflTransGen (LineEdit .aarch64)
      (pieces "cpu part : 1\n\nProcessor: v8".toList)
      ["\tCPU.part:1 ".toList, "Processor: v8".toList, " : odd".toList] ∧
    Joined ["\tCPU.part:1 ".toList, "Processor: v8".toList, " : odd".toList]
      "\tCPU.part:1 \r\nProcessor: v8\r : odd".toList ∧
    ofText .aarch64 "\tCPU.part:1 \r\nProcessor: v8\r : odd".toList =
      ofText .aarch64 "cpu part : 1\n\nProcessor: v8".toList := by
  have hpieces : pieces "cpu part : 1\n\nProcessor: v8".toList =
      ["cpu part : 1".toList, [], "Processor: v8".toList] := by decide
  have hdelete : LineEdit .aarch64 ["cpu part : 1".toList, [], "Processor: v8".toList]
      ["cpu part : 1".toList, "Processor: v8".toList] :=
    @LineEdit.delete _ ["cpu part : 1".toList] ["Processor: v8".toList] [] (.inl (by decide))
  have hname : SameName .aarch64 "cpu part".toList "CPU.part".toList :=
    ⟨by decide, by decide, by decide, by decide, by decide +kernel, by decide⟩
  have hrespell : LineEdit .aarch64 ["cpu part : 1".toList, "Processor: v8".toList]
      ["\tCPU.part:1 ".toList, "Processor: v8".toList] :=
    @LineEdit.respell _ [] ["Processor: v8".toList] _ _ "1".toList _ _ hname (by decide)
      (@Entry.Padded.mk _ _ [] [' '] [' '] [] (by decide))
      (@Entry.Padded.mk _ _ ['\t'] [] [] [' '] (by decide))
  have hinsert : LineEdit .aarch64 ["\tCPU.part:1 ".toList, "Processor: v8".toList]
      ["\tCPU.part:1 ".toList, "Processor: v8".toList, " : odd".toList] :=
    @LineEdit.insert _ ["\tCPU.part:1 ".toList, "Processor: v8".toList] [] " : odd".toList
      (.inr (by decide))
  have hedits : Relation.ReflTransGen (LineEdit .aarch64)
      (pieces "cpu part : 1\n\nProcessor: v8".toList)
      ["\tCPU.part:1 ".toList, "Processor: v8".toList, " : odd".toList] := by
    rw [hpieces]
    exact .tail (.tail (.single hdelete) hrespell) hinsert
  have htext : "\tCPU.part:1 \r\nProcessor: v8\r : odd".toList =
      "\tCPU.part:1 ".toList ++ "\r\n".toList ++
        ("Processor: v8".toList ++ "\r".toList ++ " : odd".toList) := by decide
  have hjoined : Joined ["\tCPU.part:1 ".toList, "Processor: v8".toList, " : odd".toList]
      "\tCPU.part:1 \r\nProcessor: v8\r : odd".toList :=
    htext ▸ .cons (by decide) (by decide) (.cons (by decide) (by decide) (.single (by decide)))
  exact ⟨hedits, hjoined, ofText_of_edits .aarch64 hedits hjoined⟩

end Summary

end ProcessorListing
