import ProcessorListing.Radix
import ProcessorListing.Proofs.Trimming
import Mathlib.Data.List.Forall2
import Mathlib.Data.Nat.Digits.Defs

/-!
# Numerals

A numeral of a radix is a mark of the radix, which may be empty, and one digit or more after it; what
it denotes is the number of its digits, the most significant first (`Numeral`).  Reading takes exactly
the numerals, with white space around them, whose number fits in 64 bits, and gives this number
(`read?_numeral`).

A text has one reading only: no digit is an `x`, so a mark cannot be taken for digits, and digits
cannot be taken for a mark (`natural?_unmarked_iff`).
-/

namespace ProcessorListing

namespace Radix

open Text

/-- The character is the digit of this value, a letter in either case. -/
def IsDigit (r : Radix) (c : Char) (value : Nat) : Prop :=
  value < r.base ∧ (c = value.digitChar ∨ c = value.digitChar.toUpper)

/-- What may stand before the digits. -/
def marks : Radix → List Text
  | decimal => [[]]
  | hexadecimal => [[], "0x".toList, "0X".toList]

/-- The numerals of a radix and the numbers that they denote. -/
inductive Numeral (r : Radix) : Text → Nat → Prop
  | mk {mark digits : Text} {values : List Nat} : mark ∈ r.marks → digits ≠ [] →
      List.Forall₂ r.IsDigit digits values →
      Numeral r (mark ++ digits) (Nat.ofDigits r.base values.reverse)

/-! ## Digits -/

variable {r : Radix} {c : Char} {value : Nat}

theorem base_le (r : Radix) : r.base ≤ 16 := by
  cases r <;> decide

theorem hexDigit?_digitChar : ∀ d < 16,
    hexDigit? d.digitChar = some d ∧ hexDigit? d.digitChar.toUpper = some d := by
  decide

theorem lt_of_hexDigit? (h : hexDigit? c = some value) : c.toNat < 128 := by
  simp only [hexDigit?, Char.le_def, UInt32.le_iff_toNat_le] at h
  split at h
  next hdecimal => exact Nat.lt_of_le_of_lt hdecimal.2 (by decide)
  next =>
    split at h
    next hsmall => exact Nat.lt_of_le_of_lt hsmall.2 (by decide)
    next =>
      split at h
      next hcapital => exact Nat.lt_of_le_of_lt hcapital.2 (by decide)
      next => cases h

theorem hexDigit?_eq_some_iff :
    hexDigit? c = some value ↔ hexadecimal.IsDigit c value := by
  constructor
  · intro h
    have hascii : ∀ i < 128, ∀ d ∈ hexDigit? (Char.ofNat i),
        d < 16 ∧ (Char.ofNat i = d.digitChar ∨ Char.ofNat i = d.digitChar.toUpper) := by
      decide +kernel
    have hchar := hascii c.toNat (lt_of_hexDigit? h)
    rw [Char.ofNat_toNat] at hchar
    exact hchar value h
  · rintro ⟨hvalue, rfl | rfl⟩
    · exact (hexDigit?_digitChar value hvalue).1
    · exact (hexDigit?_digitChar value hvalue).2

theorem digit?_eq_some_iff : r.digit? c = some value ↔ r.IsDigit c value := by
  rw [digit?, Option.filter_eq_some_iff, hexDigit?_eq_some_iff, decide_eq_true_eq]
  constructor
  · rintro ⟨⟨-, hchar⟩, hvalue⟩
    exact ⟨hvalue, hchar⟩
  · rintro ⟨hvalue, hchar⟩
    exact ⟨⟨Nat.lt_of_lt_of_le hvalue (base_le r), hchar⟩, hvalue⟩

/-- A digit is neither white space nor the second character of a mark. -/
theorem IsDigit.clear (h : r.IsDigit c value) : isBlank c = false ∧ c ≠ 'x' ∧ c ≠ 'X' := by
  have hclear : ∀ d < 16, ∀ c ∈ [d.digitChar, d.digitChar.toUpper],
      isBlank c = false ∧ c ≠ 'x' ∧ c ≠ 'X' := by
    decide +kernel
  exact hclear value (Nat.lt_of_lt_of_le h.1 (base_le r)) c (by simpa using h.2)

theorem mapM_digit?_eq_some_iff {digits : Text} {values : List Nat} :
    digits.mapM r.digit? = some values ↔ List.Forall₂ r.IsDigit digits values := by
  induction digits generalizing values with
  | nil => simp [eq_comm]
  | cons c rest ih =>
    rw [List.mapM_cons, List.forall₂_cons_left_iff]
    simp only [Option.bind_eq_bind, Option.bind_eq_some_iff, Option.pure_def, Option.some.injEq,
      digit?_eq_some_iff, ih]
    constructor
    · rintro ⟨d, hd, more, hmore, rfl⟩
      exact ⟨d, more, hd, hmore, rfl⟩
    · rintro ⟨d, more, hd, hmore, rfl⟩
      exact ⟨d, hd, more, hmore, rfl⟩

theorem ofDigits_eq (r : Radix) (values : List Nat) :
    r.ofDigits values = Nat.ofDigits r.base values.reverse := by
  rw [ofDigits, Nat.ofDigits_eq_foldr, List.foldr_reverse]
  congr 1
  funext n d
  rw [Nat.mul_comm, Nat.add_comm]
  rfl

theorem natural?_eq_some_iff {digits : Text} {n : Nat} :
    r.natural? digits = some n ↔
      digits ≠ [] ∧ ∃ values, List.Forall₂ r.IsDigit digits values ∧
        Nat.ofDigits r.base values.reverse = n := by
  unfold natural?
  split
  next hnil => simp [hnil]
  next hne =>
    simp only [Option.map_eq_some_iff, mapM_digit?_eq_some_iff, ofDigits_eq, ne_eq, hne,
      not_false_eq_true, true_and]

/-! ## Marks -/

theorem exists_mark (r : Radix) (t : Text) : ∃ mark ∈ r.marks, t = mark ++ r.unmarked t := by
  unfold unmarked
  split
  next digits => exact ⟨"0x".toList, by decide, rfl⟩
  next digits => exact ⟨"0X".toList, by decide, rfl⟩
  next => exact ⟨[], by cases r <;> decide, rfl⟩

/-- A mark is taken off in front of anything in which no mark can be seen. -/
theorem unmarked_append {mark digits : Text} (hmark : mark ∈ r.marks)
    (hclear : ∀ c ∈ digits, c ≠ 'x' ∧ c ≠ 'X') : r.unmarked (mark ++ digits) = digits := by
  have hbare : r.unmarked digits = digits := by
    unfold unmarked
    split
    next => exact absurd rfl (hclear 'x' (by simp)).1
    next => exact absurd rfl (hclear 'X' (by simp)).2
    next => rfl
  cases r with
  | decimal =>
    obtain rfl : mark = [] := by simpa [marks] using hmark
    exact hbare
  | hexadecimal =>
    have hcases : mark = [] ∨ mark = "0x".toList ∨ mark = "0X".toList := by
      simpa [marks] using hmark
    rcases hcases with rfl | rfl | rfl
    · exact hbare
    · rfl
    · rfl

theorem clear_of_forall₂ {digits : Text} {values : List Nat}
    (h : List.Forall₂ r.IsDigit digits values) :
    ∀ c ∈ digits, isBlank c = false ∧ c ≠ 'x' ∧ c ≠ 'X' := by
  induction h with
  | nil => simp
  | cons hdigit _ ih => exact List.forall_mem_cons.2 ⟨hdigit.clear, ih⟩

theorem natural?_unmarked_iff {t : Text} {n : Nat} :
    r.natural? (r.unmarked t) = some n ↔ r.Numeral t n := by
  rw [natural?_eq_some_iff]
  constructor
  · rintro ⟨hne, values, hdigits, rfl⟩
    obtain ⟨mark, hmark, ht⟩ := r.exists_mark t
    rw [ht]
    exact .mk hmark hne hdigits
  · rintro @⟨mark, digits, values, hmark, hne, hdigits⟩
    rw [unmarked_append hmark fun c hc => (clear_of_forall₂ hdigits c hc).2]
    exact ⟨hne, values, hdigits, rfl⟩

theorem read?_eq_some_iff {v : Text} {n : UInt64} :
    r.read? v = some n ↔ r.Numeral (trim v) n.toNat := by
  rw [← natural?_unmarked_iff, read?]
  cases hnumber : r.natural? (r.unmarked (trim v)) with
  | none => simp
  | some m =>
    dsimp only
    split
    next hlt =>
      rw [Option.some.injEq, Option.some.injEq, ← UInt64.toNat_inj]
      rfl
    next hge =>
      refine ⟨(by rintro ⟨⟩), fun h => absurd ?_ hge⟩
      rw [Option.some.inj h]
      exact n.toNat_lt_size

theorem read?_eq_none_iff {v : Text} :
    r.read? v = none ↔ ∀ n, r.Numeral (trim v) n → 2 ^ 64 ≤ n := by
  constructor
  · intro hnone n hnumeral
    refine Nat.le_of_not_lt fun hlt => ?_
    have hsome : r.read? v = some (UInt64.ofNatLT n hlt) := read?_eq_some_iff.2 hnumeral
    rw [hnone] at hsome
    cases hsome
  · intro hlarge
    cases hread : r.read? v with
    | none => rfl
    | some n => exact absurd (hlarge _ (read?_eq_some_iff.1 hread)) (Nat.not_le.2 n.toNat_lt_size)

/-! ## Numbers written out -/

theorem one_lt_base (r : Radix) : 1 < r.base := by
  cases r <;> decide

/-- The digits of a number, each as it is or capitalized, have values that give the number back. -/
theorem exists_values (r : Radix) (n : Nat) {digits : Text}
    (h : List.Forall₂ (fun c d => c = d ∨ c = d.toUpper) digits (Nat.toDigits r.base n)) :
    ∃ values, List.Forall₂ r.IsDigit digits values ∧ Nat.ofDigits r.base values.reverse = n := by
  have hpos : 0 < r.base := Nat.lt_of_succ_lt (one_lt_base r)
  induction n using Nat.strongRecOn generalizing digits with
  | ind n ih =>
    rw [Nat.toDigits_eq_if (one_lt_base r)] at h
    split at h
    next hlt =>
      obtain ⟨c, _, hc, hrest, rfl⟩ := List.forall₂_cons_right_iff.1 h
      obtain rfl := List.forall₂_nil_right_iff.1 hrest
      exact ⟨[n], .cons ⟨hlt, hc⟩ .nil, by simp⟩
    next hge =>
      have hfront := List.forall₂_take_append _ _ _ h
      obtain ⟨c, _, hc, hrest, hlast⟩ :=
        List.forall₂_cons_right_iff.1 (List.forall₂_drop_append _ _ _ h)
      obtain rfl := List.forall₂_nil_right_iff.1 hrest
      obtain ⟨values, hvalues, hnumber⟩ :=
        ih (n / r.base) (Nat.div_lt_self (by omega) (one_lt_base r)) hfront
      have hdigit : r.IsDigit c (n % r.base) := ⟨Nat.mod_lt n hpos, hc⟩
      refine ⟨values ++ [n % r.base], ?_, ?_⟩
      · rw [← List.take_append_drop (Nat.toDigits r.base (n / r.base)).length digits, hlast]
        exact List.rel_append hvalues (.cons hdigit .nil)
      · rw [List.reverse_append, List.reverse_singleton, List.singleton_append, Nat.ofDigits_cons,
          hnumber, Nat.mod_add_div]

/-- A number is written by its digits after a mark and any number of zeros. -/
theorem numeral_toDigits {n : Nat} {mark digits : Text} (hmark : mark ∈ r.marks)
    (h : List.Forall₂ (fun c d => c = d ∨ c = d.toUpper) digits (Nat.toDigits r.base n))
    (zeros : Nat) : r.Numeral (mark ++ (List.replicate zeros '0' ++ digits)) n := by
  obtain ⟨values, hvalues, hnumber⟩ := r.exists_values n h
  have hzero : r.IsDigit '0' 0 := ⟨Nat.lt_of_succ_lt (one_lt_base r), .inl rfl⟩
  have hzeros : List.Forall₂ r.IsDigit (List.replicate zeros '0') (List.replicate zeros 0) := by
    induction zeros with
    | zero => exact .nil
    | succ zeros ih => exact .cons hzero ih
  have hne : digits ≠ [] := by
    rintro rfl
    exact Nat.toDigits_ne_nil (List.forall₂_nil_left_iff.1 h)
  have hnumeral := Numeral.mk hmark (by simp [hne]) (List.rel_append hzeros hvalues)
  rwa [List.reverse_append, List.reverse_replicate, Nat.ofDigits_append_replicate_zero,
    hnumber] at hnumeral

theorem Numeral.not_isBlank {t : Text} {n : Nat} (h : r.Numeral t n) :
    ∀ c ∈ t, isBlank c = false := by
  obtain @⟨mark, digits, values, hmark, -, hdigits⟩ := h
  have hmarks : ∀ mark ∈ r.marks, ∀ c ∈ mark, isBlank c = false := by cases r <;> decide
  intro c hc
  rcases List.mem_append.1 hc with hc | hc
  · exact hmarks mark hmark c hc
  · exact (clear_of_forall₂ hdigits c hc).1

/-- **Exactly the numerals are read.**  Reading a value gives a number exactly if the value, without
the white space at its ends, is a numeral of this number: for decimal, one ASCII digit or more, and
for hexadecimal, at most one `0x` or `0X` and then one ASCII digit or letter up to `f` or more, the
letters in either case.  It fails exactly if the value is no numeral, or one of a number that does not
fit in 64 bits.  So a number that fits is read back from its digits after a mark and any number of
zeros, with its letters capitalized or not. -/
theorem read?_numeral (r : Radix) :
    (∀ (v : Text) (n : UInt64), r.read? v = some n ↔ r.Numeral (trim v) n.toNat) ∧
    (∀ v : Text, r.read? v = none ↔ ∀ n, r.Numeral (trim v) n → 2 ^ 64 ≤ n) ∧
    ∀ (n : UInt64) (zeros : Nat) (mark digits : Text), mark ∈ r.marks →
      List.Forall₂ (fun c d => c = d ∨ c = d.toUpper) digits (Nat.toDigits r.base n.toNat) →
      r.read? (mark ++ (List.replicate zeros '0' ++ digits)) = some n := by
  refine ⟨fun v n => read?_eq_some_iff, fun v => read?_eq_none_iff,
    fun n zeros mark digits hmark hdigits => ?_⟩
  have hnumeral := numeral_toDigits hmark hdigits zeros
  rw [read?_eq_some_iff, trim_of_isTrimmed (isTrimmed_of_forall hnumeral.not_isBlank)]
  exact hnumeral

/-- The greatest number, after a mark and eleven zeros, in letters of both cases; the next one, which
is too great; and a second mark and a sign, after which no digits stand. -/
theorem read?_numeral_greatest :
    "0X".toList ∈ hexadecimal.marks ∧
    List.Forall₂ (fun c d => c = d ∨ c = d.toUpper) "FFFFFFFFffffffff".toList
      (Nat.toDigits 16 (2 ^ 64 - 1)) ∧
    hexadecimal.read? ("0X".toList ++ (List.replicate 11 '0' ++ "FFFFFFFFffffffff".toList)) =
      some (UInt64.ofNat (2 ^ 64 - 1)) ∧
    decimal.Numeral "18446744073709551616".toList (2 ^ 64) ∧
    decimal.read? "18446744073709551616".toList = none ∧
    (∀ n, hexadecimal.Numeral "0x0x1".toList n → 2 ^ 64 ≤ n) ∧
    ∀ n, decimal.Numeral "+45".toList n → 2 ^ 64 ≤ n := by
  have hmark : "0X".toList ∈ hexadecimal.marks := by decide
  have hdigits : List.Forall₂ (fun c d => c = d ∨ c = d.toUpper) "FFFFFFFFffffffff".toList
      (Nat.toDigits 16 (2 ^ 64 - 1)) := by decide +kernel
  have hgreat : decimal.Numeral "18446744073709551616".toList (2 ^ 64) :=
    @numeral_toDigits decimal (2 ^ 64) [] _ (by decide) (by decide +kernel) 0
  refine ⟨hmark, hdigits, (read?_numeral hexadecimal).2.2 (UInt64.ofNat (2 ^ 64 - 1)) 11 _ _ hmark
    hdigits, hgreat, by decide +kernel, ?_, ?_⟩
  · exact ((read?_numeral hexadecimal).2.1 "0x0x1".toList).1 (by decide +kernel)
  · exact ((read?_numeral decimal).2.1 " +45\t".toList).1 (by decide +kernel)

end Radix

end ProcessorListing
