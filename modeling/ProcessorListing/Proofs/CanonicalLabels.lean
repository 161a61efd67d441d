import ProcessorListing.Label
import ProcessorListing.Proofs.Trimming
import Mathlib.Tactic.TFAE

/-!
# Canonical labels

A label is written in *plain* characters: no white space, no point, and only small letters
(`isPlain_of_mem_ofText`).  A text of plain characters is its own label (`ofText_of_isPlain`), so
taking the label of a label changes nothing, and the texts of labels are those of plain characters
(`canonical_iff_plain`).

Both rest on what small letters are: a character that `lower` changes is written as a letter beyond
the capitals, so lowering makes neither white space nor a point nor a colon.
-/

namespace ProcessorListing

namespace Text

/-- The small letters of a run lie beyond the capital letters and apart from all white space. -/
def CapitalRun.isClear (r : CapitalRun) : Bool :=
  0x61 ≤ r.image && blanks.all fun i => r.small r.range.last < i.first || i.last < r.image

theorem capitals_isClear : ∀ r ∈ capitals, r.isClear = true := by
  have h : capitals.all CapitalRun.isClear = true := by decide +kernel
  exact List.all_eq_true.1 h

theorem CapitalRun.clear_small {r : CapitalRun} (h : r.isClear = true) {n : Nat}
    (hn : r.covers n = true) : 0x61 ≤ r.small n ∧ inSome blanks (r.small n) = false := by
  simp only [isClear, covers, Bool.and_eq_true, decide_eq_true_eq, List.all_eq_true,
    Bool.or_eq_true, Interval.mem_iff] at h hn
  obtain ⟨himage, hblanks⟩ := h
  refine ⟨by simp only [small]; omega, ?_⟩
  rw [Bool.eq_false_iff, Ne, inSome_iff]
  rintro ⟨i, hi, hmem⟩
  have hclear := hblanks i hi
  simp only [small, Interval.mem_iff] at hclear hmem
  omega

/-- What `lower` writes for a character is the character or a small letter, and no white space. -/
theorem eq_or_of_mem_lower {c d : Char} (h : d ∈ lower c) :
    d = c ∨ 0x61 ≤ d.toNat ∧ isBlank d = false := by
  unfold lower at h
  split at h
  · simp only [List.mem_cons, List.not_mem_nil, or_false] at h
    rcases h with rfl | rfl <;> exact .inr (by decide)
  · split at h
    next r hr =>
      have hmem := List.mem_of_find?_eq_some hr
      have hcovers := List.find?_some hr
      have htoNat : (Char.ofNat (r.small c.toNat)).toNat = r.small c.toNat := by
        rw [Char.ofNat, dif_pos (isValidChar_small r hmem _ hcovers)]
        rfl
      rw [List.mem_singleton] at h
      subst h
      rw [isBlank, htoNat]
      exact .inr (CapitalRun.clear_small (capitals_isClear r hmem) hcovers)
    next => exact .inl (List.mem_singleton.1 h)

/-- Cutting drops the separators and nothing else. -/
theorem cut_flatten (sep : Char → Bool) (t : Text) :
    (cut sep t).flatten = t.filter (!sep ·) := by
  induction t with
  | nil => rfl
  | cons c rest ih =>
    by_cases hc : sep c = true
    · rw [cut_cons_sep hc, List.flatten_cons, ih, List.filter_cons_of_neg (by simp [hc])]
      rfl
    · rw [Bool.not_eq_true] at hc
      obtain ⟨piece, more, hcut⟩ := List.exists_cons_of_ne_nil (cut_ne_nil sep rest)
      rw [cut_cons_of_not_sep hc hcut, List.filter_cons_of_pos (by simp [hc]), ← ih, hcut]
      rfl

/-- The words of a text hold all of it but the white space. -/
theorem words_flatten (t : Text) : (words t).flatten = t.filter (!isBlank ·) := by
  rw [words, List.flatten_filter_ne_nil, cut_flatten]

/-- White space at the start of a text is in none of its words. -/
theorem words_blanks_append {front : Text} (h : ∀ c ∈ front, isBlank c = true) (t : Text) :
    words (front ++ t) = words t := by
  induction front with
  | nil => rfl
  | cons c rest ih =>
    have hsplit : words ([] ++ c :: (rest ++ t)) = words [] ++ words (rest ++ t) :=
      words_append_cons (h c (by simp)) [] (rest ++ t)
    exact hsplit.trans (ih fun d hd => h d (by simp [hd]))

/-- White space has no words. -/
theorem words_of_forall_isBlank {t : Text} (h : ∀ c ∈ t, isBlank c = true) : words t = [] := by
  rw [← List.append_nil t, words_blanks_append h]
  rfl

theorem lower_ne_nil (c : Char) : lower c ≠ [] := by
  unfold lower
  split
  · simp
  · split <;> simp

end Text

namespace Label

open Text

/-- A character that a label keeps as it is. -/
structure IsPlain (c : Char) : Prop where
  not_blank : isBlank c = false
  not_point : c ≠ '.'
  small : IsSmall c

instance (c : Char) : Decidable (IsPlain c) :=
  decidable_of_iff (isBlank c = false ∧ c ≠ '.' ∧ IsSmall c)
    ⟨fun ⟨h₁, h₂, h₃⟩ => ⟨h₁, h₂, h₃⟩, fun ⟨h₁, h₂, h₃⟩ => ⟨h₁, h₂, h₃⟩⟩

theorem letter_ne_nil (c : Char) : letter c ≠ [] := by
  unfold letter
  split
  · simp
  · exact lower_ne_nil c

theorem letter_of_isPlain {c : Char} (h : IsPlain c) : letter c = [c] := by
  rw [letter, if_neg h.not_point]
  exact h.small

theorem isPlain_of_mem_letter {c d : Char} (hc : isBlank c = false) (hd : d ∈ letter c) :
    IsPlain d := by
  unfold letter at hd
  split at hd
  next =>
    rw [List.mem_singleton.1 hd]
    decide
  next hpoint =>
    have hcases := eq_or_of_mem_lower hd
    refine ⟨?_, ?_, isSmall_of_mem_lower hd⟩
    · rcases hcases with rfl | ⟨-, h⟩
      · exact hc
      · exact h
    · rintro rfl
      rcases hcases with h | ⟨h, -⟩
      · exact hpoint h.symm
      · exact absurd h (by decide)

theorem colon_not_mem_letter {c : Char} (hc : c ≠ ':') : ':' ∉ letter c := by
  intro hd
  unfold letter at hd
  split at hd
  · simp at hd
  · rcases eq_or_of_mem_lower hd with h | ⟨h, -⟩
    · exact hc h.symm
    · exact absurd h (by decide)

/-! ## Characters of a label -/

theorem mem_intercalate {sep d : Char} {pieces : List Text} (h : d ∈ [sep].intercalate pieces) :
    d = sep ∨ d ∈ pieces.flatten := by
  induction pieces with
  | nil => simp at h
  | cons piece rest ih =>
    cases rest with
    | nil => exact .inr (by simpa using h)
    | cons next more =>
      rw [List.intercalate_cons_cons, List.mem_append, List.mem_append] at h
      rcases h with (h | h) | h
      · exact .inr (by simp [h])
      · exact .inl (List.mem_singleton.1 h)
      · rcases ih h with h | h
        · exact .inl h
        · exact .inr (by rw [List.flatten_cons]; exact List.mem_append_right _ h)

theorem mem_intercalate_of_mem {sep d : Char} {pieces : List Text} (h : d ∈ pieces.flatten) :
    d ∈ [sep].intercalate pieces := by
  induction pieces with
  | nil => simp at h
  | cons piece rest ih =>
    cases rest with
    | nil => simpa using h
    | cons next more =>
      rw [List.flatten_cons, List.mem_append] at h
      rw [List.intercalate_cons_cons, List.mem_append, List.mem_append]
      rcases h with h | h
      · exact .inl (.inl h)
      · exact .inr (ih h)

theorem flatten_letters (t : Text) :
    ((words t).map (·.flatMap letter)).flatten = (t.filter (!isBlank ·)).flatMap letter := by
  rw [← words_flatten]
  induction words t with
  | nil => rfl
  | cons w rest ih =>
    rw [List.map_cons, List.flatten_cons, List.flatten_cons, List.flatMap_append, ih]

/-- A label's characters are underscores and what the characters of its spelling are written as. -/
theorem mem_ofText {t : Text} {d : Char} (h : d ∈ (ofText t).text) :
    d = '_' ∨ ∃ c ∈ t, isBlank c = false ∧ d ∈ letter c := by
  rcases mem_intercalate h with h | h
  · exact .inl h
  · rw [flatten_letters, List.mem_flatMap] at h
    obtain ⟨c, hc, hd⟩ := h
    rw [List.mem_filter, Bool.not_eq_true'] at hc
    exact .inr ⟨c, hc.1, hc.2, hd⟩

theorem mem_ofText_of_mem_letter {t : Text} {c d : Char} (hc : c ∈ t) (hb : isBlank c = false)
    (hd : d ∈ letter c) : d ∈ (ofText t).text := by
  refine mem_intercalate_of_mem ?_
  rw [flatten_letters, List.mem_flatMap]
  exact ⟨c, List.mem_filter.2 ⟨hc, by simp [hb]⟩, hd⟩

theorem isPlain_of_mem_ofText {t : Text} {d : Char} (h : d ∈ (ofText t).text) : IsPlain d := by
  rcases mem_ofText h with rfl | ⟨c, -, hb, hd⟩
  · decide
  · exact isPlain_of_mem_letter hb hd

theorem colon_not_mem_ofText {t : Text} (ht : ':' ∉ t) : ':' ∉ (ofText t).text := by
  intro h
  rcases mem_ofText h with h | ⟨c, hc, -, hd⟩
  · exact absurd h (by decide)
  · exact colon_not_mem_letter (fun e => ht (e ▸ hc)) hd

/-- Only white space has the empty label. -/
theorem ofText_ne_nil {t : Text} (h : ∃ c ∈ t, isBlank c = false) : (ofText t).text ≠ [] := by
  obtain ⟨c, hc, hb⟩ := h
  obtain ⟨d, hd⟩ := List.exists_mem_of_ne_nil _ (letter_ne_nil c)
  exact List.ne_nil_of_mem (mem_ofText_of_mem_letter hc hb hd)

/-! ## Labels of labels -/

theorem flatMap_letter_of_isPlain {t : Text} (h : ∀ c ∈ t, IsPlain c) : t.flatMap letter = t := by
  induction t with
  | nil => rfl
  | cons c rest ih =>
    rw [List.flatMap_cons, letter_of_isPlain (h c (by simp)), ih fun d hd => h d (by simp [hd])]
    rfl

/-- Plain characters are their own label. -/
theorem ofText_of_isPlain {t : Text} (h : ∀ c ∈ t, IsPlain c) : ofText t = ⟨t⟩ := by
  by_cases ht : t = []
  · subst ht
    rfl
  · have hwords : words t = [t] := words_eq_singleton ht fun c hc => (h c hc).not_blank
    rw [ofText, hwords, List.map_singleton, List.intercalate_singleton, flatMap_letter_of_isPlain h]

theorem ofText_ofText (t : Text) : ofText (ofText t).text = ofText t :=
  ofText_of_isPlain fun _ => isPlain_of_mem_ofText

theorem isCanonical_ofText (t : Text) : IsCanonical (ofText t).text := ofText_ofText t

/-- A label is empty exactly if its spelling is nothing but white space. -/
theorem ofText_eq_nil_iff {t : Text} : (ofText t).text = [] ↔ ∀ c ∈ t, isBlank c = true := by
  constructor
  · intro h c hc
    refine Classical.byContradiction fun hb => ?_
    exact ofText_ne_nil ⟨c, hc, Bool.eq_false_iff.2 hb⟩ h
  · intro h
    rw [ofText, words_of_forall_isBlank h]
    rfl

/-- **Labels are the texts in plain characters.**  A text is the label of some spelling exactly if it
is its own label, and exactly if it has no white space, no point, and only characters that are their
own small form.  So the label of a label is that label, and the label of a text is empty exactly if
the text is nothing but white space. -/
theorem canonical_iff_plain :
    (∀ s : Text,
      [∃ t, (ofText t).text = s,
        IsCanonical s,
        ∀ c ∈ s, isBlank c = false ∧ c ≠ '.' ∧ lower c = [c]].TFAE) ∧
    (∀ t, IsCanonical (ofText t).text) ∧
    (∀ t, ofText (ofText t).text = ofText t) ∧
    ∀ t, (ofText t).text = [] ↔ ∀ c ∈ t, isBlank c = true := by
  refine ⟨fun s => ?_, isCanonical_ofText, ofText_ofText, fun t => ofText_eq_nil_iff⟩
  tfae_have 1 → 3 := by
    rintro ⟨t, rfl⟩ c hc
    obtain ⟨hblank, hpoint, hsmall⟩ := isPlain_of_mem_ofText hc
    exact ⟨hblank, hpoint, hsmall⟩
  tfae_have 3 → 2 := by
    intro h
    refine ofText_of_isPlain fun c hc => ?_
    obtain ⟨hblank, hpoint, hsmall⟩ := h c hc
    exact ⟨hblank, hpoint, hsmall⟩
  tfae_have 2 → 1 := fun h => ⟨s, congrArg Label.text h⟩
  tfae_finish

end Label

end ProcessorListing
