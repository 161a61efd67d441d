import ProcessorListing.Entry.Basic
import ProcessorListing.Proofs.Trimming

/-!
# The entries of a text, line by line

Reading entries distributes over line ends (`all_append`), whatever mixture of CR and LF they are
and also where one of them is cut in two, and a text of one line has the entry of that line, if
there is one (`all_of_line`).  Listings can therefore be taken apart at any line end, and read off
the lines that they are written in (`all_lines`).  `all_lineByLine` puts this together for all texts.

What an entry can be is a *statement* (`IsStatement`): a name that is trimmed, not empty, and without a
colon, and a trimmed value, both on one line.  Every entry is one (`isStatement_of_mem_all`).
-/

namespace ProcessorListing

namespace Text

/-- Line ends, at least one of them and in any mixture. -/
def LineEnds (t : Text) : Prop := t ≠ [] ∧ ∀ c ∈ t, isBreak c = true

instance (t : Text) : Decidable (LineEnds t) := inferInstanceAs (Decidable (_ ∧ _))

/-- A text that stands on one line. -/
def OneLine (t : Text) : Prop := ∀ c ∈ t, isBreak c = false

instance (t : Text) : Decidable (OneLine t) := inferInstanceAs (Decidable (∀ c ∈ t, _))

theorem oneLine_iff {t : Text} : OneLine t ↔ '\n' ∉ t ∧ '\r' ∉ t := by
  constructor
  · intro h
    exact ⟨fun hlf => absurd (h _ hlf) (by decide), fun hcr => absurd (h _ hcr) (by decide)⟩
  · rintro ⟨hlf, hcr⟩ c hc
    rw [Bool.eq_false_iff, ne_eq, isBreak_iff]
    rintro (rfl | rfl)
    · exact hlf hc
    · exact hcr hc

/-- A text is parted at the first place where a character stands. -/
theorem parted_append_cons {c : Char} {front : Text} (h : c ∉ front) (rest : Text) :
    (front ++ c :: rest).takeWhile (· != c) = front ∧
      (front ++ c :: rest).dropWhile (· != c) = c :: rest := by
  have hfront : ∀ d ∈ front, (d != c) = true := fun d hd => by
    rw [bne_iff_ne]
    exact fun e => h (e ▸ hd)
  constructor
  · rw [List.takeWhile_append_of_pos hfront, List.takeWhile_cons_of_neg (by simp), List.append_nil]
  · rw [List.dropWhile_append_of_pos hfront, List.dropWhile_cons_of_neg (by simp)]

theorem append_cons_of_dropWhile {c d : Char} {t rest : Text}
    (h : t.dropWhile (· != c) = d :: rest) :
    t = t.takeWhile (· != c) ++ c :: rest ∧ c ∉ t.takeWhile (· != c) := by
  have hd : d = c := by
    have hhead := List.head?_dropWhile_not (· != c) t
    simpa [h] using hhead
  subst hd
  constructor
  · rw [← h, List.takeWhile_append_dropWhile]
  · intro hm
    have hne := List.all_eq_true.1 List.all_takeWhile _ hm
    simp at hne

end Text

namespace Entry

open Text

/-! ## Line ends -/

theorem all_breaks_append {t : Text} (ht : ∀ c ∈ t, isBreak c = true) (b : Text) :
    all (t ++ b) = all b := by
  induction t with
  | nil => rfl
  | cons c rest ih =>
    have hpieces : pieces (c :: rest ++ b) = [] :: pieces (rest ++ b) :=
      cut_cons_sep (ht c (by simp)) _
    rw [all_eq_filterMap, hpieces, List.filterMap_cons_none ofLine?_nil, ← all_eq_filterMap]
    exact ih fun d hd => ht d (by simp [hd])

/-- Entries are read on both sides of a line end as if there were no other side. -/
theorem all_append {t : Text} (ht : LineEnds t) (a b : Text) :
    all (a ++ t ++ b) = all a ++ all b := by
  obtain ⟨c, rest, rfl⟩ := List.exists_cons_of_ne_nil ht.1
  have hc : isBreak c = true := ht.2 c (by simp)
  have hrest : ∀ d ∈ rest, isBreak d = true := fun d hd => ht.2 d (by simp [hd])
  have hpieces : pieces (a ++ c :: rest ++ b) = pieces a ++ pieces (rest ++ b) := by
    rw [List.append_assoc, List.cons_append]
    exact cut_append_cons hc a (rest ++ b)
  rw [all_eq_filterMap, hpieces, List.filterMap_append, ← all_eq_filterMap, ← all_eq_filterMap,
    all_breaks_append hrest]

theorem all_of_line {s : Text} (hs : OneLine s) : all s = (ofLine? s).toList := by
  have hpieces : pieces s = [s] := cut_eq_singleton hs
  rw [all_eq_filterMap, hpieces]
  cases h : ofLine? s <;> simp [h]

theorem all_nil : all [] = [] := all_of_line (s := []) (by simp [OneLine])

/-- The entries of lines that each end in LF are those of the lines. -/
theorem all_lines {lines : List Text} (hl : ∀ s ∈ lines, OneLine s) :
    all (lines.flatMap (· ++ ['\n'])) = lines.filterMap ofLine? := by
  induction lines with
  | nil => exact all_nil
  | cons s rest ih =>
    have hend : LineEnds ['\n'] := by decide
    rw [List.flatMap_cons, all_append hend, all_of_line (hl s (by simp)),
      ih fun u hu => hl u (by simp [hu])]
    cases h : ofLine? s <;> simp [h]

/-- **Entries are read line by line.**  CR and LF characters, in any number and mixture, separate the
entries of what stands before them from those of what stands after them, whatever these end and begin
with.  A text without CR and LF is one line, also where it has other characters that might be taken
for line ends.  So the entries of a text are those of the stretches between its CR and LF
characters. -/
theorem all_lineByLine :
    (∀ a t b : Text, t ≠ [] → (∀ c ∈ t, c = '\n' ∨ c = '\r') → all (a ++ t ++ b) = all a ++ all b) ∧
    (∀ s : Text, '\n' ∉ s → '\r' ∉ s → all s = (ofLine? s).toList) ∧
    ∀ t : Text, all t = (t.splitOnP fun c => c = '\n' ∨ c = '\r').filterMap ofLine? := by
  refine ⟨fun a t b hne ht => ?_, fun s hlf hcr => ?_, fun t => ?_⟩
  · exact all_append ⟨hne, fun c hc => isBreak_iff.2 (ht c hc)⟩ a b
  · exact all_of_line (oneLine_iff.2 ⟨hlf, hcr⟩)
  · have hbreak : (fun c => decide (c = '\n' ∨ c = '\r')) = isBreak :=
      funext fun c => by simp [isBreak]
    rw [hbreak, ← cut_eq_splitOnP, ← pieces, all_eq_filterMap]

/-- A line end that is cut in two, and a line with a vertical tab and a line separator. -/
theorem all_lineByLine_cut :
    all ("a: 1\r".toList ++ "\n\r".toList ++ "\nb: 2\x0bc: 3\u2028".toList) =
      [⟨"a".toList, "1".toList⟩, ⟨"b".toList, "2\x0bc: 3".toList⟩] ∧
    all "\u0085b: 2\x0bc: 3\u2029d: 4".toList =
      [⟨"b".toList, "2\x0bc: 3\u2029d: 4".toList⟩] := by
  constructor
  · rw [all_lineByLine.1 _ _ _ (by decide) (by decide)]
    decide +kernel
  · rw [all_lineByLine.2.1 _ (by decide) (by decide)]
    decide +kernel

/-! ## What a line can state -/

/-- What an entry can be. -/
structure IsStatement (e : Entry) : Prop where
  name_ne_nil : e.key ≠ []
  name_trimmed : IsTrimmed e.key
  colon_not_mem : ':' ∉ e.key
  name_line : OneLine e.key
  value_trimmed : IsTrimmed e.value
  value_line : OneLine e.value

theorem ofLine?_append_colon {name value : Text} (h : ':' ∉ name) :
    ofLine? (name ++ ':' :: value) =
      if trim name = [] then none else some ⟨trim name, trim value⟩ := by
  obtain ⟨htake, hdrop⟩ := parted_append_cons h value
  rw [ofLine?, hdrop]
  simp only [htake]

theorem isStatement_of_ofLine? {s : Text} {e : Entry} (hs : OneLine s) (h : ofLine? s = some e) :
    IsStatement e := by
  cases hrest : s.dropWhile (· != ':') with
  | nil => simp [ofLine?, hrest] at h
  | cons c value =>
    obtain ⟨hparts, hcolon⟩ := append_cons_of_dropWhile hrest
    generalize s.takeWhile (· != ':') = name at hparts hcolon
    subst hparts
    rw [ofLine?_append_colon hcolon] at h
    split at h
    next => simp at h
    next hne =>
      obtain rfl := Option.some.inj h
      exact {
        name_ne_nil := hne
        name_trimmed := isTrimmed_trim name
        colon_not_mem := fun hm => hcolon (mem_of_mem_trim hm)
        name_line := fun d hd => hs d (by simp [mem_of_mem_trim hd])
        value_trimmed := isTrimmed_trim value
        value_line := fun d hd => hs d (by simp [mem_of_mem_trim hd]) }

theorem isStatement_of_mem_all {t : Text} {e : Entry} (h : e ∈ all t) : IsStatement e := by
  rw [all_eq_filterMap, List.mem_filterMap] at h
  obtain ⟨piece, hp, he⟩ := h
  exact isStatement_of_ofLine? (not_sep_of_mem_cut hp) he

end Entry

end ProcessorListing
