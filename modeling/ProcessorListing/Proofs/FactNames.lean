import ProcessorListing.Summary.Facts
import ProcessorListing.Proofs.Decimals

/-!
# The names of facts

A fact is about a `Subject`: the number of units, a common field, a field of one unit, or a remark.
It is named by the parts of its subject, each behind a point, below a root.

Names are not escaped.  They need not be where no part holds a point of its own: then a name can be
cut into its parts again (`Fact.name_inj`), and as the number of a unit can be read off its digits,
the parts determine the subject.  So subjects whose labels have no point share no name
(`Subject.name_inj`), whatever else the labels and the root hold.
-/

namespace ProcessorListing

namespace Fact

theorem cut_parts {first : Text} {parts : List Text} (hfirst : '.' ∉ first)
    (h : ∀ p ∈ parts, '.' ∉ p) :
    Text.cut (· = '.') (first ++ parts.flatMap ('.' :: ·)) = first :: parts := by
  have hclear : ∀ p : Text, '.' ∉ p → Text.cut (· = '.') p = [p] := fun p hp =>
    Text.cut_eq_singleton fun c hc => decide_eq_false fun e => hp (e ▸ hc)
  induction parts generalizing first with
  | nil =>
    rw [List.flatMap_nil, List.append_nil]
    exact hclear first hfirst
  | cons next rest ih =>
    rw [List.flatMap_cons, List.cons_append, Text.cut_append_cons (by decide), hclear first hfirst,
      ih (h next (by simp)) fun p hp => h p (by simp [hp])]
    rfl

/-- A name determines its parts, if none of them holds a point. -/
theorem name_inj {root : Text} {parts parts' : List Text} (h : ∀ p ∈ parts, '.' ∉ p)
    (h' : ∀ p ∈ parts', '.' ∉ p) (hname : name root parts = name root parts') : parts = parts' := by
  have hbelow : parts.flatMap ('.' :: ·) = parts'.flatMap ('.' :: ·) :=
    List.append_cancel_left hname
  have hcut : ([] : Text) :: parts = [] :: parts' := by
    rw [← cut_parts (by simp) h, ← cut_parts (by simp) h', hbelow]
  exact (List.cons.inj hcut).2

end Fact

/-- What a fact is about. -/
inductive Subject
  /-- The number of units. -/
  | count
  | common (label : Label)
  /-- A field of the unit with a number. -/
  | unit (number : Nat) (label : Label)
  | other (label : Label)
deriving DecidableEq, Repr

namespace Subject

/-- The parts of the name of a fact, below the root. -/
def parts : Subject → List Text
  | count => ["count".toList]
  | common label => ["common".toList, label.text]
  | unit number label => ["unit".toList, Text.ofNat number, label.text]
  | other label => ["other".toList, label.text]

/-- The name of a fact about the subject. -/
def name (root : Text) (x : Subject) : Text := Fact.name root x.parts

/-- The label of the field that the subject is about. -/
def label? : Subject → Option Label
  | count => none
  | common label | unit _ label | other label => some label

/-- The label of a subject, if it has one, holds no point. -/
def PointFree : Subject → Prop
  | count => True
  | common label => '.' ∉ label.text
  | unit _ label => '.' ∉ label.text
  | other label => '.' ∉ label.text

theorem pointFree_iff {x : Subject} : x.PointFree ↔ ∀ label ∈ x.label?, '.' ∉ label.text := by
  cases x <;> simp [PointFree, label?]

theorem parts_injective : Function.Injective parts := by
  intro x y h
  cases x <;> cases y
  case count.count => rfl
  case common.common label label' =>
    have htext : label.text = label'.text := by simpa [parts] using h
    exact congrArg (fun text => common ⟨text⟩) htext
  case unit.unit number label number' label' =>
    obtain ⟨hdigits, htext⟩ : Text.ofNat number = Text.ofNat number' ∧ label.text = label'.text := by
      simpa [parts] using h
    rw [Text.ofNat_injective hdigits]
    exact congrArg (fun text => unit number' ⟨text⟩) htext
  case other.other label label' =>
    have htext : label.text = label'.text := by simpa [parts] using h
    exact congrArg (fun text => other ⟨text⟩) htext
  -- The first part says which kind of subject it is.
  all_goals simp [parts] at h

theorem point_not_mem_parts {x : Subject} (hx : x.PointFree) : ∀ p ∈ x.parts, '.' ∉ p := by
  have hwords : ∀ p ∈ ["count".toList, "common".toList, "unit".toList, "other".toList], '.' ∉ p := by
    decide
  cases x with
  | count => exact fun p hp => hwords p (by simp_all [parts])
  | common label => simpa [parts, PointFree] using hx
  | unit number label => simpa [parts, PointFree, Text.point_not_mem_ofNat] using hx
  | other label => simpa [parts, PointFree] using hx

/-- Subjects whose labels have no point share no name. -/
theorem name_inj {root : Text} {x y : Subject} (hx : x.PointFree) (hy : y.PointFree)
    (h : x.name root = y.name root) : x = y :=
  parts_injective (Fact.name_inj (point_not_mem_parts hx) (point_not_mem_parts hy) h)

/-! ## Characters of a name

The words and numbers in a name are made of letters and digits.  Any other character, the points
aside, has come into it with the root or with the label. -/

theorem isAlphanum_or_label {x : Subject} {p : Text} (h : p ∈ x.parts) :
    (∀ c ∈ p, c.isAlphanum = true) ∨ ∃ label ∈ x.label?, p = label.text := by
  have hwords : ∀ w ∈ ["count".toList, "common".toList, "unit".toList, "other".toList],
      ∀ c ∈ w, c.isAlphanum = true := by
    decide
  cases x with
  | count =>
    obtain rfl : p = "count".toList := by simpa [parts] using h
    exact .inl (hwords _ (by simp))
  | common label =>
    obtain rfl | rfl : p = "common".toList ∨ p = label.text := by simpa [parts] using h
    · exact .inl (hwords _ (by simp))
    · exact .inr ⟨label, rfl, rfl⟩
  | unit number label =>
    obtain rfl | rfl | rfl : p = "unit".toList ∨ p = Text.ofNat number ∨ p = label.text := by
      simpa [parts] using h
    · exact .inl (hwords _ (by simp))
    · exact .inl fun c hc => by simp [Char.isAlphanum, Text.isDigit_of_mem_ofNat hc]
    · exact .inr ⟨label, rfl, rfl⟩
  | other label =>
    obtain rfl | rfl : p = "other".toList ∨ p = label.text := by simpa [parts] using h
    · exact .inl (hwords _ (by simp))
    · exact .inr ⟨label, rfl, rfl⟩

theorem text_mem_parts {x : Subject} {label : Label} (h : label ∈ x.label?) :
    label.text ∈ x.parts := by
  cases x with
  | count => cases h
  | common | unit | other =>
    cases h
    simp [parts]

theorem mem_name_iff {c : Char} (hpoint : c ≠ '.') (hc : c.isAlphanum = false) {root : Text}
    {x : Subject} :
    c ∈ x.name root ↔ c ∈ root ∨ ∃ label ∈ x.label?, c ∈ label.text := by
  have hparts : c ∈ x.name root ↔ c ∈ root ∨ ∃ p ∈ x.parts, c ∈ p := by
    simp [name, Fact.name, hpoint]
  rw [hparts]
  refine or_congr_right ⟨?_, ?_⟩
  · rintro ⟨p, hp, hmem⟩
    rcases isAlphanum_or_label hp with hword | ⟨label, hlabel, rfl⟩
    · exact absurd (hword c hmem) (by simp [hc])
    · exact ⟨label, hlabel, hmem⟩
  · rintro ⟨label, hlabel, hmem⟩
    exact ⟨label.text, text_mem_parts hlabel, hmem⟩

end Subject

end ProcessorListing
