/-!
# Texts and how they are cut

A text is the list of its characters.  `Text.cut` cuts a text at every character of a class; the
pieces of a listing between line breaks, the words of a field name and the steps of a path are all
cut this way.  Its main facts are that a text without such a character is one piece
(`cut_eq_singleton`) and that cutting distributes over a separator (`cut_append_cons`).
-/

namespace ProcessorListing

/-- A text is the list of its characters, first to last. -/
abbrev Text := List Char

namespace Text

/-- What is said of the characters of a text is decided by looking at these, not at all there are. -/
instance (p : Char → Prop) [DecidablePred p] (t : Text) : Decidable (∀ c ∈ t, p c) :=
  List.decidableBAll p t

instance (p : Char → Prop) [DecidablePred p] (t : Text) : Decidable (∃ c ∈ t, p c) :=
  List.decidableBEx p t

/-- The pieces of a text between the characters of the class `sep`, empty pieces included: one more
piece than there are separators. -/
def cut (sep : Char → Bool) : Text → List Text
  | [] => [[]]
  | c :: rest =>
    match cut sep rest with
    | [] => []
    | piece :: more => if sep c then [] :: piece :: more else (c :: piece) :: more

variable {sep : Char → Bool}

theorem cut_ne_nil (sep : Char → Bool) (t : Text) : cut sep t ≠ [] := by
  induction t with
  | nil => simp [cut]
  | cons c rest ih =>
    unfold cut
    split
    · contradiction
    · split <;> simp

/-- A separator closes an empty piece. -/
theorem cut_cons_sep {c : Char} (hc : sep c = true) (rest : Text) :
    cut sep (c :: rest) = [] :: cut sep rest := by
  rw [cut]
  split
  · exact absurd ‹_› (cut_ne_nil sep rest)
  · simp [*]

/-- Any other character extends the first piece of what follows it. -/
theorem cut_cons_of_not_sep {c : Char} (hc : sep c = false) {rest piece : Text} {more : List Text}
    (h : cut sep rest = piece :: more) : cut sep (c :: rest) = (c :: piece) :: more := by
  simp [cut, h, hc]

/-- A text without separators is one piece. -/
theorem cut_eq_singleton {t : Text} (h : ∀ c ∈ t, sep c = false) : cut sep t = [t] := by
  induction t with
  | nil => rfl
  | cons c rest ih =>
    exact cut_cons_of_not_sep (h c (by simp)) (ih fun d hd => h d (by simp [hd]))

/-- Cutting distributes over a separator. -/
theorem cut_append_cons {c : Char} (hc : sep c = true) (a b : Text) :
    cut sep (a ++ c :: b) = cut sep a ++ cut sep b := by
  induction a with
  | nil => simp [cut_cons_sep hc, cut]
  | cons d rest ih =>
    by_cases hd : sep d = true
    · rw [List.cons_append, cut_cons_sep hd, ih, cut_cons_sep hd]; rfl
    · rw [Bool.not_eq_true] at hd
      obtain ⟨piece, more, h⟩ := List.exists_cons_of_ne_nil (cut_ne_nil sep rest)
      rw [h, List.cons_append] at ih
      rw [List.cons_append, cut_cons_of_not_sep hd ih, cut_cons_of_not_sep hd h, List.cons_append]

/-- Cutting a text is splitting the list of its characters. -/
theorem cut_eq_splitOnP (sep : Char → Bool) (t : Text) : cut sep t = t.splitOnP sep := by
  induction t with
  | nil => rfl
  | cons c rest ih =>
    rw [List.splitOnP_cons_eq_if_modifyHead, ← ih]
    by_cases hc : sep c = true
    · rw [if_pos hc, cut_cons_sep hc]
    · rw [Bool.not_eq_true] at hc
      obtain ⟨piece, more, hcut⟩ := List.exists_cons_of_ne_nil (cut_ne_nil sep rest)
      rw [if_neg (by simp [hc]), cut_cons_of_not_sep hc hcut, hcut, List.modifyHead_cons]

/-- No piece holds a separator. -/
theorem not_sep_of_mem_cut {t piece : Text} (h : piece ∈ cut sep t) :
    ∀ c ∈ piece, sep c = false := by
  induction t generalizing piece with
  | nil => simp_all [cut]
  | cons d rest ih =>
    by_cases hd : sep d = true
    · rw [cut_cons_sep hd, List.mem_cons] at h
      rcases h with rfl | h
      · simp
      · exact ih h
    · rw [Bool.not_eq_true] at hd
      obtain ⟨first, more, hr⟩ := List.exists_cons_of_ne_nil (cut_ne_nil sep rest)
      rw [cut_cons_of_not_sep hd hr, List.mem_cons] at h
      rw [hr] at ih
      rcases h with rfl | h
      · intro c hc
        rcases List.mem_cons.1 hc with rfl | hc
        · exact hd
        · exact ih (by simp) c hc
      · exact ih (by simp [h])

/-- The decimal digits of a number, without leading zeros. -/
def ofNat (n : Nat) : Text := Nat.toDigits 10 n

/-- The hexadecimal digits of a number in small letters, without leading zeros. -/
def hexOfNat (n : Nat) : Text := Nat.toDigits 16 n

end Text

end ProcessorListing
