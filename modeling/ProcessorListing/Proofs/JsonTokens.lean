import ProcessorListing.Json.Basic
import ProcessorListing.Proofs.Decimals
import ProcessorListing.Proofs.JsonReader
import ProcessorListing.Proofs.Numerals

/-!
# Tokens are read back

A quoted text is read back as it was, one written character after the other (`text?_escape`), and so
are the digits of a number (`number?_ofNat`).  A reading that goes on after some tokens then has one
equation for each thing that may come next: white space, a mark, a quoted text and a number.
-/

namespace ProcessorListing

namespace Json

/-! ## Texts are read back -/

theorem pieces?_cons_of_plain {c : Char} (hquote : c ≠ '"') (hback : c ≠ '\\')
    (hcontrol : ¬ c.toNat < 0x20) (rest : Text) :
    pieces? (c :: rest) = before? (some (.char c)) (pieces? rest) := by
  rw [pieces?.eq_def]
  simp [hquote, hback, hcontrol]

theorem pieces?_escape_short {e c : Char} (hu : e ≠ 'u') (he : unescape? e = some c) (rest : Text) :
    pieces? ('\\' :: e :: rest) = before? (some (.char c)) (pieces? rest) := by
  rw [pieces?.eq_def]
  simp [hu, he]

theorem natural?_control : ∀ n < 0x20, Radix.hexadecimal.natural?
    ['0', '0', Nat.digitChar (n / 16), Nat.digitChar (n % 16)] = some n := by
  decide

theorem pieces?_escape_control {n : Nat} (hn : n < 0x20) (rest : Text) :
    pieces? ('\\' :: 'u' :: '0' :: '0' :: Nat.digitChar (n / 16) :: Nat.digitChar (n % 16) :: rest) =
      before? (some (.unit n)) (pieces? rest) := by
  rw [pieces?.eq_def]
  simp [natural?_control n hn]

/-- A character is written with a two-character escape, with its number, or as itself. -/
theorem escape_cases (c : Char) :
    (∃ e, e ≠ 'u' ∧ unescape? e = some c ∧ escape c = ['\\', e]) ∨
    (c.toNat < 0x20 ∧ escape c =
      ['\\', 'u', '0', '0', Nat.digitChar (c.toNat / 16), Nat.digitChar (c.toNat % 16)]) ∨
    (c ≠ '"' ∧ c ≠ '\\' ∧ ¬ c.toNat < 0x20 ∧ escape c = [c]) := by
  by_cases hshort : c ∈ ['"', '\\', '\x08', '\x0C', '\n', '\r', '\t']
  · left
    simp only [List.mem_cons, List.not_mem_nil, or_false] at hshort
    rcases hshort with rfl | rfl | rfl | rfl | rfl | rfl | rfl <;>
      exact ⟨_, by decide, by decide, rfl⟩
  · right
    simp only [List.mem_cons, List.not_mem_nil, or_false, not_or] at hshort
    by_cases hcontrol : c.toNat < 0x20
    · exact .inl ⟨hcontrol, by simp [escape, hshort, hcontrol]⟩
    · exact .inr ⟨hshort.1, hshort.2.1, hcontrol, by simp [escape, hshort, hcontrol]⟩

/-- A character between quotes is one part, and that part stands for the character. -/
theorem exists_piece (c : Char) : ∃ p,
    (∀ rest, pieces? (escape c ++ rest) = before? (some p) (pieces? rest)) ∧
      ∀ more, characters? (p :: more) = (characters? more).map (c :: ·) := by
  rcases escape_cases c with ⟨e, hu, he, hc⟩ | ⟨hcontrol, hc⟩ | ⟨hquote, hback, hcontrol, hc⟩
  · refine ⟨.char c, fun rest => ?_, fun more => by rw [characters?]⟩
    rw [hc]
    exact pieces?_escape_short hu he rest
  · refine ⟨.unit c.toNat, fun rest => ?_, fun more => ?_⟩
    · rw [hc]
      exact pieces?_escape_control hcontrol rest
    · rw [characters?.eq_def]
      simp only [Char.ofNat_toNat]
      exact if_pos (.inl (by omega))
  · refine ⟨.char c, fun rest => ?_, fun more => by rw [characters?]⟩
    rw [hc]
    exact pieces?_cons_of_plain hquote hback hcontrol rest

/-- Reading takes one written character after the other. -/
theorem text?_escape (c : Char) (rest : Text) :
    text? (escape c ++ rest) = (text? rest).map fun (t, rest) => (c :: t, rest) := by
  obtain ⟨p, hp, hc⟩ := exists_piece c
  rw [text?, text?, hp]
  cases pieces? rest with
  | none => rfl
  | some found => simp [before?, hc, Option.map_bind, Option.bind_map]

/-- A quoted text is read back as it was, whatever its characters and whatever follows it. -/
theorem text?_flatMap_escape (t rest : Text) :
    text? (t.flatMap escape ++ '"' :: rest) = some (t, rest) := by
  induction t with
  | nil =>
    have hend : pieces? ('"' :: rest) = some ([], rest) := by
      rw [pieces?.eq_def]
      rfl
    simp [text?, hend, characters?]
  | cons c t ih =>
    rw [List.flatMap_cons, List.append_assoc, text?_escape, ih]
    rfl

-- Escapes that are never written are read too; half of a pair of surrogates is no character.
example : text? "\\ud83d\\ude00\\/\"rest".toList = some ("😀/".toList, "rest".toList) := by
  decide +kernel
example : text? "\\ud83d\"".toList = none := by decide +kernel

/-! ## Numbers are read back -/

theorem ofNat_ne_nil (n : Nat) : Text.ofNat n ≠ [] := Nat.toDigits_ne_nil

/-- The digits of a number denote it. -/
theorem natural?_ofNat (n : Nat) : Radix.decimal.natural? (Text.ofNat n) = some n := by
  have hwritten : List.Forall₂ (fun c d => c = d ∨ c = d.toUpper) (Text.ofNat n) (Text.ofNat n) :=
    List.forall₂_same.2 fun _ _ => .inl rfl
  exact Radix.natural?_eq_some_iff.2 ⟨ofNat_ne_nil n, Radix.decimal.exists_values n hwritten⟩

/-- A number other than zero does not begin with a zero. -/
theorem head?_ofNat {n : Nat} (hn : n ≠ 0) : (Text.ofNat n).head? ≠ some '0' := by
  induction n using Nat.strongRecOn with
  | ind n ih =>
    by_cases hlt : n < 10
    · rw [Text.ofNat, Nat.toDigits_of_lt_base hlt]
      revert hn
      revert hlt
      exact (by decide : ∀ n < 10, n ≠ 0 → [Nat.digitChar n].head? ≠ some '0') n
    · have hprev : n / 10 ≠ 0 := by omega
      have hhead := ih (n / 10) (by omega) hprev
      rw [Text.ofNat, Nat.toDigits_of_base_le (by decide) (by omega),
        List.head?_append, Option.or_of_isSome (by simp [Nat.toDigits_ne_nil])]
      exact hhead

theorem whole?_ofNat (n : Nat) : whole? (Text.ofNat n) = some n := by
  by_cases hn : n = 0
  · subst hn
    decide
  · rw [whole?, if_neg fun h => head?_ofNat hn h.1, natural?_ofNat]

theorem takeWhile_of_forall {p : Char → Bool} {t : Text} (h : ∀ c ∈ t, p c = true) :
    t.takeWhile p = t ∧ t.dropWhile p = [] := by
  have htake := @List.takeWhile_append_of_pos _ p t [] h
  have hdrop := @List.dropWhile_append_of_pos _ p t [] h
  simpa using And.intro htake hdrop

theorem ne_of_mem_ofNat {n : Nat} {c d : Char} (hc : c ∈ Text.ofNat n) (hd : d.isDigit = false) :
    c ≠ d := by
  rintro rfl
  rw [Text.isDigit_of_mem_ofNat hc] at hd
  contradiction

/-- The digits of a number are read back as that number. -/
theorem number?_ofNat (n : Nat) : number? (Text.ofNat n) = some (n : ℚ) := by
  obtain ⟨hmantissa, hscale⟩ := takeWhile_of_forall (p := fun c => c != 'e' && c != 'E')
    (t := Text.ofNat n) fun c hc => by simp [ne_of_mem_ofNat hc]
  obtain ⟨hwhole, hfraction⟩ := takeWhile_of_forall (p := (· != '.'))
    (t := Text.ofNat n) fun c hc => by simp [ne_of_mem_ofNat hc]
  have hmagnitude : magnitude? (Text.ofNat n) = some (n : ℚ) := by
    simp [magnitude?, hmantissa, hscale, hwhole, hfraction, whole?_ofNat, fraction?, scale?]
  rw [number?.eq_def]
  split
  next t ht => exact absurd rfl (ne_of_mem_ofNat (n := n) (c := '-') (by simp [ht]) (by decide))
  next => exact hmagnitude

example : number? "-12.50e+1".toList = some (-125) := by decide +kernel

/-- A number stands outside quotes as a word. -/
theorem word?_ofNat (n : Nat) : word? (Text.ofNat n) = some (.number n) := by
  have hword : ∀ w : Text, (∃ c ∈ w, c.isDigit = false) → Text.ofNat n ≠ w := by
    rintro w ⟨c, hc, hd⟩ rfl
    exact ne_of_mem_ofNat hc hd rfl
  rw [word?, if_neg (hword _ (by decide)), if_neg (hword _ (by decide)),
    if_neg (hword _ (by decide)), number?_ofNat, Option.map_some]

/-! ## Going on with a reading -/

/-- What follows a word ends it. -/
def Ends (rest : Text) : Prop := ∀ c ∈ rest.head?, isWordChar c = false

variable (r : Progress)

@[simp] theorem resume?_nil : resume? r [] = some r := by
  rw [resume?, tokens?]
  rfl

theorem resume?_space {c : Char} (hc : isSpace c = true) (t : Text) :
    resume? r (c :: t) = resume? r t := by
  rw [resume?, tokens?, if_pos hc, ← resume?]

/-- White space between tokens makes no difference. -/
theorem resume?_spaces {w : Text} (hw : ∀ c ∈ w, isSpace c = true) (t : Text) :
    resume? r (w ++ t) = resume? r t := by
  induction w with
  | nil => rfl
  | cons c w ih =>
    rw [List.cons_append, resume?_space r (hw c (by simp)), ih fun d hd => hw d (by simp [hd])]

theorem resume?_token {c : Char} {t t' : Text} {token : Token} (hc : isSpace c = false)
    (h : token? c t = some (token, t')) :
    resume? r (c :: t) = (step? r token).bind (resume? · t') := by
  have htokens : tokens? (c :: t) = (tokens? t').map (token :: ·) := by
    rw [tokens?]
    simp only [hc, Bool.false_eq_true, if_false]
    split <;> simp_all
  rw [resume?, htokens]
  cases htail : tokens? t' with
  | none => cases step? r token <;> simp [resume?, htail]
  | some tokens => cases hstep : step? r token <;> simp [resume?, htail, hstep]

theorem resume?_mark {r r' : Progress} {c : Char} {token : Token} (hc : isSpace c = false)
    (h : mark? c = some token) (hstep : step? r token = some r') (t : Text) :
    resume? r (c :: t) = resume? r' t := by
  have htoken : token? c t = some (token, t) := by rw [token?, h]
  rw [resume?_token r hc htoken, hstep, Option.bind_some]

theorem resume?_quote (t rest : Text) :
    resume? r (quote t ++ rest) = (step? r (.text t)).bind (resume? · rest) := by
  have htoken : token? '"' (t.flatMap escape ++ '"' :: rest) = some (.text t, rest) := by
    have hmark : mark? '"' = none := by decide
    rw [token?, hmark]
    simp [text?_flatMap_escape]
  have := resume?_token r (by decide) htoken
  simpa [quote] using this

theorem takeWhile_append_of_ends {w rest : Text} (hw : ∀ c ∈ w, isWordChar c = true)
    (hrest : Ends rest) :
    (w ++ rest).takeWhile isWordChar = w ∧ (w ++ rest).dropWhile isWordChar = rest := by
  rw [List.takeWhile_append_of_pos hw, List.dropWhile_append_of_pos hw]
  cases rest with
  | nil => simp
  | cons c rest =>
    have hc : isWordChar c = false := hrest c rfl
    simp [hc]

theorem resume?_ofNat (n : Nat) {rest : Text} (hrest : Ends rest) :
    resume? r (Text.ofNat n ++ rest) = (step? r (.number n)).bind (resume? · rest) := by
  have hplain : ∀ c ∈ Text.ofNat n, isSpace c = false ∧ mark? c = none ∧ c ≠ '"' := fun c hc => by
    simp [isSpace, mark?, ne_of_mem_ofNat hc]
  have hword : ∀ c ∈ Text.ofNat n, isWordChar c = true := fun c hc => by
    simp [isWordChar, hplain c hc]
  obtain ⟨c, digits, hn⟩ := List.exists_cons_of_ne_nil (ofNat_ne_nil n)
  rw [hn] at hplain hword ⊢
  obtain ⟨hspace, hmark, hquote⟩ := hplain c (by simp)
  obtain ⟨htake, hdrop⟩ :=
    takeWhile_append_of_ends (fun d hd => hword d (List.mem_cons_of_mem _ hd)) hrest
  have htoken : token? c (digits ++ rest) = some (.number n, rest) := by
    rw [token?, hmark]
    simp only [hquote, if_false, htake, hdrop]
    rw [← hn, word?_ofNat, Option.map_some]
  rw [List.cons_append]
  exact resume?_token r hspace htoken

end Json

end ProcessorListing
