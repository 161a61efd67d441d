import ProcessorListing.Proofs.CanonicalLabels
import Mathlib.Data.List.Basic

/-!
# Names with the same label

A name is put together from parts, and its label is put together from theirs (`ofText_append`,
`ofText_append_blanks`): where two parts meet without white space so do their labels, and where white
space parts them there is one underscore, whatever white space it is and however much of it.  A point
or an underscore between the parts is a part of its own, whose label is an underscore.  White space
around a name and the case of its ASCII letters do not show in its label.

The label is made of the words of a name, so all of this is about words: those of two texts put
together are the words of each, but for the word in the middle, to which both contribute if neither
has white space there (`words_append`).
-/

namespace ProcessorListing

namespace Text

variable {sep : Char → Bool}

/-! ## Words of texts put together -/

/-- Where two texts meet, the last piece of the one and the first piece of the other are one. -/
theorem cut_append {a b x y : Text} {xs ys : List Text} (ha : cut sep a = xs ++ [x])
    (hb : cut sep b = y :: ys) : cut sep (a ++ b) = xs ++ (x ++ y) :: ys := by
  induction a generalizing xs x with
  | nil =>
    cases xs with
    | nil =>
      obtain rfl : [] = x := by simpa [cut] using ha
      exact hb
    | cons x' xs => simp [cut] at ha
  | cons c rest ih =>
    by_cases hc : sep c = true
    · rw [cut_cons_sep hc] at ha
      cases xs with
      | nil => exact absurd (List.cons.inj ha).2 (cut_ne_nil sep rest)
      | cons x' xs =>
        obtain ⟨rfl, hrest⟩ := List.cons.inj ha
        rw [List.cons_append, cut_cons_sep hc, ih hrest, List.cons_append]
    · rw [Bool.not_eq_true] at hc
      obtain ⟨piece, more, hrest⟩ := List.exists_cons_of_ne_nil (cut_ne_nil sep rest)
      rw [cut_cons_of_not_sep hc hrest] at ha
      cases xs with
      | nil =>
        obtain ⟨rfl, rfl⟩ := List.cons.inj ha
        exact cut_cons_of_not_sep hc (@ih piece [] hrest)
      | cons x' xs =>
        obtain ⟨rfl, rfl⟩ := List.cons.inj ha
        exact cut_cons_of_not_sep hc (@ih x (piece :: xs) hrest)

/-- The last piece of a text that ends in no separator is not empty. -/
theorem cut_concat_of_not_sep {c : Char} (hc : sep c = false) (t : Text) :
    ∃ xs x, cut sep (t ++ [c]) = xs ++ [x ++ [c]] := by
  obtain ⟨xs, x, hx⟩ := (List.eq_nil_or_concat' (cut sep t)).resolve_left (cut_ne_nil sep t)
  have hlast : cut sep [c] = [[c]] := cut_eq_singleton (by simpa using hc)
  exact ⟨xs, x, cut_append hx hlast⟩

/-- The words of two texts, neither of which has white space where they meet: the last word of the one
and the first word of the other are one word. -/
theorem words_append {a b : Text} (ha : a ≠ []) (hb : b ≠ [])
    (hend : ∀ c ∈ a.getLast?, isBlank c = false) (hstart : ∀ c ∈ b.head?, isBlank c = false) :
    ∃ us u v vs, words a = us ++ [u] ∧ words b = v :: vs ∧
      words (a ++ b) = us ++ (u ++ v) :: vs := by
  obtain ⟨front, c, rfl⟩ := (List.eq_nil_or_concat' a).resolve_left ha
  obtain ⟨d, rest, rfl⟩ := List.exists_cons_of_ne_nil hb
  obtain ⟨xs, x, hx⟩ := cut_concat_of_not_sep (hend c (by simp)) front
  obtain ⟨y, ys, hy⟩ := List.exists_cons_of_ne_nil (cut_ne_nil isBlank rest)
  have hd := cut_cons_of_not_sep (hstart d rfl) hy
  refine ⟨xs.filter (· ≠ []), x ++ [c], d :: y, ys.filter (· ≠ []), ?_, ?_, ?_⟩
  · simp [words, hx]
  · simp [words, hd]
  · simp only [words, cut_append hx hd, List.filter_append]
    simp

/-- White space between two texts, and at least one character of it, separates their words. -/
theorem words_append_blanks {w : Text} (hne : w ≠ []) (hw : ∀ c ∈ w, isBlank c = true)
    (a b : Text) : words (a ++ w ++ b) = words a ++ words b := by
  obtain ⟨c, rest, rfl⟩ := List.exists_cons_of_ne_nil hne
  rw [List.append_assoc, List.cons_append, words_append_cons (hw c (by simp)),
    words_blanks_append fun d hd => hw d (by simp [hd])]

/-- White space around a text is in none of its words. -/
theorem words_pad {before after : Text} (hbefore : ∀ c ∈ before, isBlank c = true)
    (hafter : ∀ c ∈ after, isBlank c = true) (t : Text) : words (before ++ t ++ after) = words t := by
  rw [List.append_assoc, words_blanks_append hbefore]
  by_cases hne : after = []
  · rw [hne, List.append_nil]
  · rw [← List.append_nil after, ← List.append_assoc, words_append_blanks hne hafter]
    exact List.append_nil _

/-- Where a change of characters makes no separator and removes none, it commutes with cutting. -/
theorem cut_map {f : Char → Char} (hf : ∀ c, sep (f c) = sep c) (t : Text) :
    cut sep (t.map f) = (cut sep t).map (·.map f) := by
  induction t with
  | nil => rfl
  | cons c rest ih =>
    by_cases hc : sep c = true
    · rw [List.map_cons, cut_cons_sep ((hf c).trans hc), cut_cons_sep hc, ih]
      rfl
    · rw [Bool.not_eq_true] at hc
      obtain ⟨piece, more, hrest⟩ := List.exists_cons_of_ne_nil (cut_ne_nil sep rest)
      rw [hrest] at ih
      rw [List.map_cons, cut_cons_of_not_sep ((hf c).trans hc) ih, cut_cons_of_not_sep hc hrest]
      rfl

theorem words_map {f : Char → Char} (hf : ∀ c, isBlank (f c) = isBlank c) (t : Text) :
    words (t.map f) = (words t).map (·.map f) := by
  rw [words, cut_map hf, words, List.filter_map]
  congr 2
  funext w
  simp

/-! ## The case of ASCII letters -/

/-- What holds of the ASCII capitals, and of all characters that `Char.toLower` leaves alone, holds of
every character. -/
theorem toLower_cases {p : Char → Prop} (hsame : ∀ c, c.toLower = c → p c)
    (hcapital : ∀ i : Fin 26, p (Char.ofNat (65 + i))) (c : Char) : p c := by
  by_cases hc : c.toLower = c
  · exact hsame c hc
  · have hrange : 65 ≤ c.toNat ∧ c.toNat ≤ 90 := by
      refine Classical.byContradiction fun hout => hc (dif_neg fun hin => hout ?_)
      exact ⟨UInt32.le_iff_toNat_le.1 hin.1, UInt32.le_iff_toNat_le.1 hin.2⟩
    have hindex := hcapital ⟨c.toNat - 65, by omega⟩
    rwa [Nat.add_sub_cancel' hrange.1, Char.ofNat_toNat] at hindex

theorem isBlank_toLower (c : Char) : isBlank c.toLower = isBlank c := by
  induction c using toLower_cases with
  | hsame c hc => rw [hc]
  | hcapital i => revert i; decide

end Text

namespace Label

open Text

theorem letter_toLower (c : Char) : letter c.toLower = letter c := by
  induction c using toLower_cases with
  | hsame c hc => rw [hc]
  | hcapital i => revert i; decide +kernel

theorem ofText_congr {t t' : Text} (h : words t = words t') : ofText t = ofText t' := by
  rw [ofText, ofText, h]

theorem ofText_toLower (t : Text) : ofText (t.map Char.toLower) = ofText t := by
  simp only [ofText, words_map isBlank_toLower, List.map_map, Function.comp_def, List.flatMap_map,
    letter_toLower]

/-! ## Labels of names put together -/

variable {sep : Char}

/-- Pieces on both sides of a separator are joined apart. -/
theorem intercalate_append {xs ys : List Text} (hxs : xs ≠ []) (hys : ys ≠ []) :
    [sep].intercalate (xs ++ ys) = [sep].intercalate xs ++ sep :: [sep].intercalate ys := by
  induction xs with
  | nil => exact absurd rfl hxs
  | cons x rest ih =>
    by_cases hrest : rest = []
    · subst hrest
      rw [List.singleton_append, List.intercalate_cons_of_ne_nil hys, List.intercalate_singleton]
      simp
    · rw [List.cons_append, List.intercalate_cons_of_ne_nil (by simp [hrest]), ih hrest,
        List.intercalate_cons_of_ne_nil hrest]
      simp

/-- A piece of two parts can be taken apart between them. -/
theorem intercalate_append_append (xs ys : List Text) (x y : Text) :
    [sep].intercalate (xs ++ (x ++ y) :: ys) =
      [sep].intercalate (xs ++ [x]) ++ [sep].intercalate (y :: ys) := by
  induction xs with
  | nil => cases ys <;> simp [List.intercalate_cons_cons]
  | cons z rest ih =>
    have hfirst : ∀ {zs : List Text}, zs ≠ [] →
        [sep].intercalate (z :: zs) = z ++ [sep] ++ [sep].intercalate zs :=
      List.intercalate_cons_of_ne_nil
    rw [List.cons_append, List.cons_append, hfirst (by simp), hfirst (by simp), ih,
      List.append_assoc _ _ ([sep].intercalate (y :: ys))]

variable {a b : Text}

/-- Where two parts of a name meet without white space, so do their labels. -/
theorem ofText_append (ha : a ≠ []) (hb : b ≠ []) (hend : ∀ c ∈ a.getLast?, isBlank c = false)
    (hstart : ∀ c ∈ b.head?, isBlank c = false) :
    ofText (a ++ b) = ⟨(ofText a).text ++ (ofText b).text⟩ := by
  obtain ⟨us, u, v, vs, hus, hvs, hjoin⟩ := words_append ha hb hend hstart
  simp only [ofText, hus, hvs, hjoin, List.map_append, List.map_cons, List.map_nil,
    List.flatMap_append, intercalate_append_append]

/-- Where white space parts a name, an underscore parts its label. -/
theorem ofText_append_blanks (ha : words a ≠ []) (hb : words b ≠ []) {w : Text} (hne : w ≠ [])
    (hw : ∀ c ∈ w, isBlank c = true) :
    ofText (a ++ w ++ b) = ⟨(ofText a).text ++ '_' :: (ofText b).text⟩ := by
  simp only [ofText, words_append_blanks hne hw, List.map_append]
  rw [intercalate_append (by simpa using ha) (by simpa using hb)]

/-- A point or an underscore inside a name is an underscore in its label. -/
theorem ofText_append_mark {mark : Char} (hmark : mark = '.' ∨ mark = '_') (ha : a ≠ []) (hb : b ≠ [])
    (hend : ∀ c ∈ a.getLast?, isBlank c = false) (hstart : ∀ c ∈ b.head?, isBlank c = false) :
    ofText (a ++ [mark] ++ b) = ⟨(ofText a).text ++ '_' :: (ofText b).text⟩ := by
  have hlabel : ofText [mark] = ⟨['_']⟩ := by rcases hmark with rfl | rfl <;> decide
  have hblank : isBlank mark = false := by rcases hmark with rfl | rfl <;> decide
  rw [ofText_append (by simp) hb (by simpa using hblank) hstart,
    ofText_append ha (by simp) hend (by simpa using hblank), hlabel, List.append_assoc]
  rfl

/-- **Which spellings of a name have the same label.**  Take two parts of a name, not empty, without
white space where they meet.  With any white space put between them, or a point, or an underscore, the
name has the labels of the parts as its label, joined by an underscore; with nothing put between them,
it has these labels, the one after the other.  White space around a name, and the case of any of its
ASCII letters, does not change its label. -/
theorem ofText_alike :
    (∀ a b : Text, a ≠ [] → b ≠ [] → (∀ c ∈ a.getLast?, isBlank c = false) →
      (∀ c ∈ b.head?, isBlank c = false) →
      let joined : Label := ⟨(ofText a).text ++ '_' :: (ofText b).text⟩
      (∀ w : Text, w ≠ [] → (∀ c ∈ w, isBlank c = true) → ofText (a ++ w ++ b) = joined) ∧
      ofText (a ++ ".".toList ++ b) = joined ∧
      ofText (a ++ "_".toList ++ b) = joined ∧
      ofText (a ++ b) = ⟨(ofText a).text ++ (ofText b).text⟩) ∧
    (∀ before k after : Text, (∀ c ∈ before, isBlank c = true) → (∀ c ∈ after, isBlank c = true) →
      ofText (before ++ k ++ after) = ofText k) ∧
    ∀ k k' : Text, k.map Char.toLower = k'.map Char.toLower → ofText k = ofText k' := by
  refine ⟨fun a b ha hb hend hstart => ⟨fun w hne hw => ?_, ?_, ?_, ?_⟩,
    fun before k after hbefore hafter => ofText_congr (words_pad hbefore hafter k),
    fun k k' hcase => ?_⟩
  · obtain ⟨us, u, v, vs, hus, hvs, -⟩ := words_append ha hb hend hstart
    exact ofText_append_blanks (by simp [hus]) (by simp [hvs]) hne hw
  · exact ofText_append_mark (.inl rfl) ha hb hend hstart
  · exact ofText_append_mark (.inr rfl) ha hb hend hstart
  · exact ofText_append ha hb hend hstart
  · rw [← ofText_toLower k, hcase, ofText_toLower k']

/-- The parts ` İ.` and `MHz `, with white space of two kinds, a point, an underscore and nothing
between them; padding; capitals. -/
theorem ofText_alike_dotted :
    ofText (" İ.".toList ++ "\u00a0\t".toList ++ "MHz ".toList) = ⟨"i\u0307__mhz".toList⟩ ∧
    ofText (" İ.".toList ++ ".".toList ++ "MHz ".toList) = ⟨"i\u0307__mhz".toList⟩ ∧
    ofText (" İ.".toList ++ "_".toList ++ "MHz ".toList) = ⟨"i\u0307__mhz".toList⟩ ∧
    ofText (" İ.".toList ++ "MHz ".toList) = ⟨"i\u0307_mhz".toList⟩ ∧
    ofText ("\u3000".toList ++ "cpu MHz".toList ++ "\u2029".toList) = ofText "cpu MHz".toList ∧
    ofText "CPU mhZ".toList = ofText "cpu MHz".toList := by
  have hend : ∀ c ∈ " İ.".toList.getLast?, isBlank c = false := by
    rintro c ⟨⟩
    decide
  have hstart : ∀ c ∈ "MHz ".toList.head?, isBlank c = false := by
    rintro c ⟨⟩
    decide
  obtain ⟨hblanks, hpoint, hunderscore, hnothing⟩ := ofText_alike.1 " İ.".toList "MHz ".toList
    (by decide) (by decide) hend hstart
  have hapart : (⟨(ofText " İ.".toList).text ++ '_' :: (ofText "MHz ".toList).text⟩ : Label) =
      ⟨"i\u0307__mhz".toList⟩ := by decide +kernel
  have htogether : (⟨(ofText " İ.".toList).text ++ (ofText "MHz ".toList).text⟩ : Label) =
      ⟨"i\u0307_mhz".toList⟩ := by decide +kernel
  exact ⟨(hblanks _ (by decide) (by decide)).trans hapart, hpoint.trans hapart,
    hunderscore.trans hapart, hnothing.trans htogether,
    ofText_alike.2.1 _ _ _ (by decide) (by decide), ofText_alike.2.2 _ _ (by decide)⟩

end Label

end ProcessorListing
