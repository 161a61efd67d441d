import ProcessorListing.Text.Basic

/-!
# Lines

A line ends at LF, at CR LF or at a lone CR; no other character ends one.  `firstLine` and
`afterLine` take a text apart at its first line end, and `afterLine_length_lt` says that doing so
makes progress, which is why reading line by line comes to an end.  `pieces_eq_firstLine_cons`
compares the lines with the pieces between single CR and LF characters.
-/

namespace ProcessorListing.Text

/-- The characters that end a line. -/
def isBreak (c : Char) : Bool := c = '\n' || c = '\r'

theorem isBreak_iff {c : Char} : isBreak c = true ↔ c = '\n' ∨ c = '\r' := by
  simp [isBreak]

/-- The first line, without the characters that end it. -/
def firstLine (t : Text) : Text := t.takeWhile (!isBreak ·)

/-- Drops one line end from a text that starts with one. -/
def dropBreak : Text → Text
  | '\r' :: '\n' :: rest => rest
  | _ :: rest => rest
  | [] => []

/-- The text after the first line and its end. -/
def afterLine (t : Text) : Text := dropBreak (t.dropWhile (!isBreak ·))

theorem dropBreak_length_lt {t : Text} (h : t ≠ []) : (dropBreak t).length < t.length := by
  unfold dropBreak
  split
  · simp only [List.length_cons]; omega
  · simp
  · contradiction

theorem dropBreak_length_le (t : Text) : (dropBreak t).length ≤ t.length := by
  by_cases h : t = []
  · simp [h, dropBreak]
  · exact Nat.le_of_lt (dropBreak_length_lt h)

/-- Taking a line off a text that is not empty leaves a shorter text. -/
theorem afterLine_length_lt {t : Text} (h : t ≠ []) : (afterLine t).length < t.length := by
  obtain ⟨c, rest, rfl⟩ := List.exists_cons_of_ne_nil h
  unfold afterLine
  by_cases hc : isBreak c = true
  · have hd : (c :: rest).dropWhile (!isBreak ·) = c :: rest := by simp [hc]
    rw [hd]
    exact dropBreak_length_lt (by simp)
  · have hd : (c :: rest).dropWhile (!isBreak ·) = rest.dropWhile (!isBreak ·) := by
      simp [hc]
    rw [hd, List.length_cons]
    exact Nat.lt_succ_of_le
      (Nat.le_trans (dropBreak_length_le _) (List.dropWhile_suffix _).length_le)

/-! ## Lines and pieces

The pieces of a text between single CR and LF characters are its lines with some empty pieces added:
where a line ends in CR LF, an empty piece stands between the two.  Whatever passes over empty lines
may therefore cut a text at every CR and LF. -/

/-- The pieces of a text between single CR and LF characters. -/
def pieces (t : Text) : List Text := cut isBreak t

theorem not_isBreak_of_mem_firstLine {t : Text} {c : Char} (h : c ∈ firstLine t) :
    isBreak c = false := by
  have := List.all_eq_true.1 List.all_takeWhile c h
  simpa using this

/-- The first line is the first piece, and after it come the pieces of the text after the line, with
at most one empty piece before them. -/
theorem pieces_eq_firstLine_cons (t : Text) :
    pieces t = [firstLine t] ∧ afterLine t = [] ∨
      pieces t = firstLine t :: pieces (afterLine t) ∨
      pieces t = firstLine t :: [] :: pieces (afterLine t) := by
  have hline : cut isBreak (firstLine t) = [firstLine t] :=
    cut_eq_singleton fun c hc => not_isBreak_of_mem_firstLine hc
  have ht : firstLine t ++ t.dropWhile (!isBreak ·) = t := List.takeWhile_append_dropWhile
  cases hrest : t.dropWhile (!isBreak ·) with
  | nil =>
    rw [hrest, List.append_nil] at ht
    refine .inl ⟨?_, by simp [afterLine, hrest, dropBreak]⟩
    rw [ht] at hline
    rw [pieces, hline, ht]
  | cons c rest =>
    have hc : isBreak c = true := by
      have := List.head?_dropWhile_not (!isBreak ·) t
      simpa [hrest] using this
    have hp : pieces t = firstLine t :: pieces rest := by
      rw [hrest] at ht
      conv => lhs; rw [← ht, pieces, cut_append_cons hc, hline]
      rfl
    by_cases hcr : ∃ more, c = '\r' ∧ rest = '\n' :: more
    · obtain ⟨more, rfl, rfl⟩ := hcr
      refine .inr (.inr ?_)
      rw [hp, afterLine, hrest, dropBreak, pieces, cut_cons_sep (by decide)]
      rfl
    · refine .inr (.inl ?_)
      have : dropBreak (c :: rest) = rest := by
        unfold dropBreak
        split <;> simp_all
      rw [hp, afterLine, hrest, this]

end ProcessorListing.Text
