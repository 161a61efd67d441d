import ProcessorListing.Proofs.Entries
import Mathlib.Data.List.Forall2
import Mathlib.Tactic.TFAE

/-!
# Texts and the statements they hold

What a text holds are statements, and any list of statements is held by some text: the one that
writes them out, a line each (`Entry.all_statements`).  Writing and reading are inverse to each other
because a line gives back the statement that it writes, whatever white space is put around the name
and the value (`Entry.Writes.ofLine?_eq`): the colon after the name is the first one of the line, since
neither the name nor white space has any, and all later ones belong to the value.
-/

namespace ProcessorListing

namespace Entry

open Text

/-- A line that states a name and a value, with any white space before and after each of them. -/
inductive Padded (name value : Text) : Text → Prop
  | mk {a b c d : Text} : (∀ x ∈ a ++ b ++ c ++ d, isBlank x = true) →
      Padded name value (a ++ name ++ b ++ ':' :: (c ++ value ++ d))

/-- White space around its name and its value does not show in the entry of a line. -/
theorem ofLine?_of_padded {name value line : Text} (hline : Padded name value line)
    (hname : IsTrimmed name) (hcolon : ':' ∉ name) (hvalue : IsTrimmed value) :
    ofLine? line = if name = [] then none else some ⟨name, value⟩ := by
  obtain @⟨a, b, c, d, hblank⟩ := hline
  simp only [List.mem_append, or_imp, forall_and] at hblank
  obtain ⟨⟨⟨ha, hb⟩, hc⟩, hd⟩ := hblank
  have hfirst : ':' ∉ a ++ name ++ b := by
    simp only [List.mem_append, not_or]
    exact ⟨⟨fun h => absurd (ha _ h) (by decide), hcolon⟩, fun h => absurd (hb _ h) (by decide)⟩
  rw [ofLine?_append_colon hfirst, trim_pad ha hname hb, trim_pad hc hvalue hd]

/-- A line that writes an entry as `name:value`, with any white space around the name and around the
value that does not end the line. -/
structure Writes (line : Text) (e : Entry) : Prop where
  padded : Padded e.key e.value line
  oneLine : OneLine line

/-- A statement is read back from any line that writes it. -/
theorem Writes.ofLine?_eq {line : Text} {e : Entry} (h : Writes line e) (he : IsStatement e) :
    ofLine? line = some e := by
  rw [ofLine?_of_padded h.padded he.name_trimmed he.colon_not_mem he.value_trimmed,
    if_neg he.name_ne_nil]

theorem IsStatement.writes {e : Entry} (he : IsStatement e) (a b c d : Text)
    (hblank : ∀ x ∈ a ++ b ++ c ++ d, isBlank x = true) (hline : OneLine (a ++ b ++ c ++ d)) :
    Writes (a ++ e.key ++ b ++ ':' :: (c ++ e.value ++ d)) e where
  padded := .mk hblank
  oneLine := by
    simp only [OneLine, List.mem_append, List.mem_cons, or_imp, forall_and] at hline ⊢
    obtain ⟨⟨⟨ha, hb⟩, hc⟩, hd⟩ := hline
    exact ⟨⟨⟨ha, he.name_line⟩, hb⟩, by rintro x rfl; decide, ⟨hc, he.value_line⟩, hd⟩

/-- The line of an entry without white space around its name and its value. -/
def bareLine (e : Entry) : Text := e.key ++ ':' :: e.value

/-- The line in which an entry is written. -/
def line (e : Entry) : Text := e.key ++ ':' :: ' ' :: e.value

theorem writes_bareLine {e : Entry} (h : IsStatement e) : Writes e.bareLine e := by
  have hwrites := h.writes [] [] [] [] (by simp) (by decide)
  simpa [bareLine] using hwrites

theorem writes_line {e : Entry} (h : IsStatement e) : Writes e.line e := by
  have hwrites := h.writes [] [] [' '] [] (by decide) (by decide)
  simpa [line] using hwrites

/-! ## Lists of statements -/

variable {lines : List Text} {entries : List Entry}

theorem forall₂_map_writes {write : Entry → Text} (hwrite : ∀ {e}, IsStatement e → Writes (write e) e)
    (hs : ∀ e ∈ entries, IsStatement e) : List.Forall₂ Writes (entries.map write) entries := by
  rw [List.forall₂_map_left_iff, List.forall₂_same]
  exact fun e he => hwrite (hs e he)

/-- Lines that write statements are read back as these statements. -/
theorem filterMap_of_writes (h : List.Forall₂ Writes lines entries)
    (hs : ∀ e ∈ entries, IsStatement e) : lines.filterMap ofLine? = entries := by
  induction h with
  | nil => rfl
  | cons hline _ ih =>
    rw [List.filterMap_cons_some (hline.ofLine?_eq (hs _ (by simp))),
      ih fun e he => hs e (by simp [he])]

theorem oneLine_of_writes (h : List.Forall₂ Writes lines entries) :
    ∀ line ∈ lines, OneLine line := by
  induction h with
  | nil => simp
  | cons hline _ ih => exact List.forall_mem_cons.2 ⟨hline.oneLine, ih⟩

/-- A text of lines that write statements has these statements as its entries. -/
theorem all_of_writes (h : List.Forall₂ Writes lines entries)
    (hs : ∀ e ∈ entries, IsStatement e) : all (lines.flatMap (· ++ ['\n'])) = entries := by
  rw [all_lines (oneLine_of_writes h), filterMap_of_writes h hs]

/-- **Texts hold statements, and all of them.**  Some text has these entries exactly if each of them is
a statement: a name that is not empty, and a value, neither of which has white space at an end or a
line end inside, and no colon in the name.  Written out, a line `name:value` each, statements are read
back as they are, with the colons that a value has, and so they are with any white space around names
and values that does not end a line. -/
theorem all_statements (entries : List Entry) :
    [∃ t, all t = entries,
      ∀ e ∈ entries, IsStatement e,
      all (entries.flatMap fun e => e.bareLine ++ ['\n']) = entries].TFAE ∧
    ∀ lines, List.Forall₂ Writes lines entries → (∀ e ∈ entries, IsStatement e) →
      all (lines.flatMap (· ++ ['\n'])) = entries := by
  refine ⟨?_, fun lines => all_of_writes⟩
  tfae_have 1 → 2 := by
    rintro ⟨t, rfl⟩ e he
    exact isStatement_of_mem_all he
  tfae_have 2 → 3 := by
    intro hs
    have hall := all_of_writes (forall₂_map_writes writes_bareLine hs) hs
    rwa [List.flatMap_map] at hall
  tfae_have 3 → 1 := fun h => ⟨_, h⟩
  tfae_finish

/-- Colons in a value, a value that is empty, and white space of other kinds than the blank. -/
theorem all_statements_colons :
    (∀ e ∈ [⟨"cpu MHz".toList, ":8:00".toList⟩, ⟨"flags".toList, []⟩], IsStatement e) ∧
    all "\u00a0cpu MHz\t:\x0b :8:00 \nflags:\u2029\n".toList =
      [⟨"cpu MHz".toList, ":8:00".toList⟩, ⟨"flags".toList, []⟩] := by
  have hclock : IsStatement ⟨"cpu MHz".toList, ":8:00".toList⟩ := by constructor <;> decide
  have hflags : IsStatement ⟨"flags".toList, []⟩ := by constructor <;> decide
  have hs : ∀ e ∈ [⟨"cpu MHz".toList, ":8:00".toList⟩, ⟨"flags".toList, []⟩], IsStatement e := by
    simpa using ⟨hclock, hflags⟩
  have hfirst := hclock.writes ['\u00a0'] ['\t'] ['\x0b', ' '] [' '] (by decide) (by decide)
  have hsecond := hflags.writes [] [] ['\u2029'] [] (by decide) (by decide)
  exact ⟨hs, (all_statements _).2 _ (.cons hfirst (.cons hsecond .nil)) hs⟩

end Entry

end ProcessorListing
