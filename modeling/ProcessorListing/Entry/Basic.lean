import ProcessorListing.Binding
import ProcessorListing.Text.Blank
import ProcessorListing.Text.Line

/-!
# Entries

An entry is a line of the form `name : value`.  The first colon separates the two, so a value keeps
its own colons; white space around the name and around the value does not count.  A line without a
colon, or with nothing but white space before it, is no entry and is passed over: listings are full
of blank separator lines and odd fragments.

`Entry.next?` takes the first entry off a text and `Entry.all` takes all of them.
-/

namespace ProcessorListing

/-- A line `name : value` of a listing, its name as written there. -/
abbrev Entry := Binding Text

namespace Entry

/-- The entry that a line holds. -/
def ofLine? (line : Text) : Option Entry :=
  match line.dropWhile (· != ':') with
  | [] => none
  | _ :: value =>
    let name := Text.trim (line.takeWhile (· != ':'))
    if name = [] then none else some ⟨name, Text.trim value⟩

/-- The first entry of a text, and the text after its line. -/
def next? (t : Text) : Option (Entry × Text) :=
  if t = [] then none
  else
    match ofLine? (Text.firstLine t) with
    | some entry => some (entry, Text.afterLine t)
    | none => next? (Text.afterLine t)
termination_by t.length
decreasing_by exact Text.afterLine_length_lt ‹_›

theorem next?_length_lt {t rest : Text} {entry : Entry} (h : next? t = some (entry, rest)) :
    rest.length < t.length := by
  fun_induction next? t with
  | case1 => simp at h
  | case2 t ht _ _ =>
    simp only [Option.some.injEq, Prod.mk.injEq] at h
    exact h.2 ▸ Text.afterLine_length_lt ht
  | case3 t ht _ ih => exact Nat.lt_trans (ih h) (Text.afterLine_length_lt ht)

/-- The entries of a text, in order. -/
def all (t : Text) : List Entry :=
  match _h : next? t with
  | none => []
  | some (entry, rest) => entry :: all rest
termination_by t.length
decreasing_by exact next?_length_lt _h

/-! ## Entries and pieces

Empty lines hold no entry, so the entries of a text can be read off the pieces between its CR and LF
characters (`all_eq_filterMap`), however its lines end. -/

theorem all_eq_nil {t : Text} (h : next? t = none) : all t = [] := by
  rw [all]
  split <;> simp_all

theorem all_eq_cons {t rest : Text} {entry : Entry} (h : next? t = some (entry, rest)) :
    all t = entry :: all rest := by
  rw [all]
  split <;> simp_all

@[simp] theorem ofLine?_nil : ofLine? [] = none := rfl

theorem filterMap_pieces (t : Text) :
    (Text.pieces t).filterMap ofLine? =
      (ofLine? (Text.firstLine t)).toList ++ (Text.pieces (Text.afterLine t)).filterMap ofLine? := by
  rcases Text.pieces_eq_firstLine_cons t with ⟨h, h'⟩ | h | h
  · rw [h, h']
    cases hf : ofLine? (Text.firstLine t) <;> simp [hf, Text.pieces, Text.cut]
  · rw [h]
    cases hf : ofLine? (Text.firstLine t) <;> simp [hf]
  · rw [h]
    cases hf : ofLine? (Text.firstLine t) <;> simp [hf, List.filterMap_cons_none ofLine?_nil]

theorem filterMap_pieces_eq_next? (t : Text) :
    (Text.pieces t).filterMap ofLine? =
      match next? t with
      | none => []
      | some (entry, rest) => entry :: (Text.pieces rest).filterMap ofLine? := by
  fun_induction next? t with
  | case1 => simp [Text.pieces, Text.cut]
  | case2 t _ _ h => simp [filterMap_pieces t, h]
  | case3 t _ h ih =>
    rw [filterMap_pieces t, h]
    simpa using ih

/-- The entries of a text are those of the pieces between its CR and LF characters, in order. -/
theorem all_eq_filterMap (t : Text) : all t = (Text.pieces t).filterMap ofLine? := by
  rw [filterMap_pieces_eq_next?]
  fun_induction all t with
  | case1 t h => simp [h]
  | case2 t entry rest h ih =>
    rw [ih, h]
    simp [filterMap_pieces_eq_next? rest]

end Entry

end ProcessorListing
