import ProcessorListing.Text.Blank

/-!
# Trimmed texts

A text is trimmed when no white space stands at either end.  `trim` makes a text trimmed
(`isTrimmed_trim`) and leaves a trimmed one as it is (`trim_of_isTrimmed`), so what has been read
off a line once reads the same when it is read again, with or without white space around it.
-/

namespace ProcessorListing.Text

/-- No white space at either end. -/
def IsTrimmed (t : Text) : Prop :=
  (∀ c ∈ t.head?, isBlank c = false) ∧ ∀ c ∈ t.getLast?, isBlank c = false

/-- Looking at the two ends decides it. -/
instance (t : Text) : Decidable (IsTrimmed t) :=
  @instDecidableAnd _ _ (Option.decidableForallMem t.head?) (Option.decidableForallMem t.getLast?)

theorem isTrimmed_of_forall {t : Text} (h : ∀ c ∈ t, isBlank c = false) : IsTrimmed t :=
  ⟨fun c hc => h c (List.mem_of_mem_head? hc), fun c hc => h c (List.mem_of_mem_getLast? hc)⟩

/-- What is left starts where white space ended. -/
theorem not_isBlank_of_mem_head?_dropWhile {t : Text} {c : Char}
    (h : c ∈ (t.dropWhile isBlank).head?) : isBlank c = false := by
  have hhead := List.head?_dropWhile_not isBlank t
  rw [Option.mem_def.1 h] at hhead
  simpa using hhead

theorem dropWhile_eq_self {t : Text} (h : ∀ c ∈ t.head?, isBlank c = false) :
    t.dropWhile isBlank = t := by
  cases t with
  | nil => rfl
  | cons c rest => rw [List.dropWhile_cons_of_neg (by simp [h c rfl])]

theorem trimEnd_isPrefix (t : Text) : trimEnd t <+: t := by
  rw [← List.reverse_suffix, trimEnd, List.reverse_reverse]
  exact List.dropWhile_suffix _

theorem isTrimmed_trim (t : Text) : IsTrimmed (trim t) := by
  constructor
  · intro c hc
    obtain ⟨rest, hrest⟩ := trimEnd_isPrefix (trimStart t)
    have hstart : c ∈ (trimStart t).head? := by
      rw [← hrest, List.head?_append]
      exact Option.or_eq_some_iff.2 (.inl hc)
    exact not_isBlank_of_mem_head?_dropWhile hstart
  · intro c hc
    rw [trim, trimEnd, List.getLast?_reverse] at hc
    exact not_isBlank_of_mem_head?_dropWhile hc

theorem trim_of_isTrimmed {t : Text} (h : IsTrimmed t) : trim t = t := by
  have hstart : trimStart t = t := dropWhile_eq_self h.1
  have hend : t.reverse.dropWhile isBlank = t.reverse :=
    dropWhile_eq_self (by simpa [List.head?_reverse] using h.2)
  rw [trim, hstart, trimEnd, hend, List.reverse_reverse]

/-- White space around a trimmed text is dropped. -/
theorem trim_pad {before t after : Text} (hbefore : ∀ c ∈ before, isBlank c = true)
    (ht : IsTrimmed t) (hafter : ∀ c ∈ after, isBlank c = true) :
    trim (before ++ t ++ after) = t := by
  have hend : trimEnd (t ++ after) = t := by
    rw [trimEnd, List.reverse_append, List.dropWhile_append_of_pos (by simpa using hafter),
      dropWhile_eq_self (by simpa using ht.2), List.reverse_reverse]
  rw [trim, trimStart, List.append_assoc, List.dropWhile_append_of_pos hbefore]
  by_cases hnil : t = []
  · subst hnil
    rw [List.nil_append, ← List.append_nil after, List.dropWhile_append_of_pos hafter]
    rfl
  · obtain ⟨c, rest, rfl⟩ := List.exists_cons_of_ne_nil hnil
    have hc : isBlank c = false := ht.1 c rfl
    rw [List.cons_append, List.dropWhile_cons_of_neg (by simp [hc]), ← List.cons_append, hend]

/-- Trimming only drops characters. -/
theorem mem_of_mem_trim {t : Text} {c : Char} (h : c ∈ trim t) : c ∈ t :=
  (List.dropWhile_suffix _).subset ((trimEnd_isPrefix _).subset h)

/-- What is left of a text, if anything, holds a character that is no white space. -/
theorem exists_not_isBlank_of_isTrimmed {t : Text} (h : IsTrimmed t) (hne : t ≠ []) :
    ∃ c ∈ t, isBlank c = false := by
  obtain ⟨c, rest, rfl⟩ := List.exists_cons_of_ne_nil hne
  exact ⟨c, by simp, h.1 c rfl⟩

end ProcessorListing.Text
