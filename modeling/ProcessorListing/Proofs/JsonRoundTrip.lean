import ProcessorListing.Proofs.JsonTokens

/-!
# What is written is read

Whatever white space is put between its parts, a written value is read back as that value
(`read?_write`).  A reading goes over a written value in one go, wherever the value stands and
whatever follows it (`resume?_write`); all that is asked of the rest is that it does not go on with the
last word, since a number has no mark at its end.
-/

namespace ProcessorListing

namespace Json

mutual

/-- What a value stands for. -/
def value : Json → Value
  | text t => .text t
  | number n => .number n
  | list items => .list (values items)
  | object members => .object (memberValues members)

/-- What the items of a list stand for. -/
def values : List Json → List Value
  | [] => []
  | item :: items => value item :: values items

/-- What the members of an object stand for, under their names. -/
def memberValues : List (Text × Json) → List (Text × Value)
  | [] => []
  | (name, item) :: members => (name, value item) :: memberValues members

end

@[simp] theorem values_eq_map (items : List Json) : values items = items.map value := by
  induction items with
  | nil => rfl
  | cons item items ih => rw [values, ih, List.map_cons]

@[simp] theorem memberValues_eq_map (members : List (Text × Json)) :
    memberValues members = members.map fun m => (m.1, m.2.value) := by
  induction members with
  | nil => rfl
  | cons member members ih => rw [memberValues, ih, List.map_cons]

/-- Nothing but white space stands between the parts of a value. -/
structure Spacing.Blank (s : Spacing) : Prop where
  line : ∀ depth, ∀ c ∈ s.line depth, isSpace c = true
  afterColon : ∀ c ∈ s.afterColon, isSpace c = true

theorem Spacing.blank_compact : Spacing.compact.Blank where
  line := by simp [Spacing.compact]
  afterColon := by simp [Spacing.compact]

theorem Spacing.blank_pretty : Spacing.pretty.Blank where
  line := by
    intro depth c hc
    simp only [Spacing.pretty, List.mem_cons, List.mem_replicate] at hc
    rcases hc with rfl | ⟨-, rfl⟩ <;> rfl
  afterColon := by simp [Spacing.pretty, isSpace]

/-- A value is due, and it will stand in `outer`. -/
def Progress.Awaits (r : Progress) (outer : List Frame) : Prop :=
  ∀ token, token ≠ .closeList → step? r token = begin? outer token

theorem awaits_value (outer : List Frame) : Progress.Awaits ⟨.value, outer⟩ outer :=
  fun _ _ => rfl

theorem awaits_listOpened (outer : List Frame) :
    Progress.Awaits ⟨.listOpened, outer⟩ (.list [] :: outer) := by
  intro token htoken
  cases token <;> first | rfl | contradiction

theorem ends_cons {c : Char} (hc : isWordChar c = false) (rest : Text) : Ends (c :: rest) := by
  simpa [Ends] using hc

theorem ends_append {w rest : Text} (hw : ∀ c ∈ w, isSpace c = true) (hrest : Ends rest) :
    Ends (w ++ rest) := by
  cases w with
  | nil => exact hrest
  | cons c w => exact ends_cons (by simp [isWordChar, hw c]) (w ++ rest)

variable {s : Spacing}

theorem ends_writeItems (depth : Nat) (items : List Json) {rest : Text} (hrest : Ends rest) :
    Ends (writeItems s depth items ++ rest) := by
  cases items with
  | nil => exact hrest
  | cons item items => exact ends_cons (by decide) _

theorem ends_writeMembers (depth : Nat) (members : List (Text × Json)) {rest : Text}
    (hrest : Ends rest) : Ends (writeMembers s depth members ++ rest) := by
  cases members with
  | nil => exact hrest
  | cons member members => exact ends_cons (by decide) _

theorem resume?_openList {r : Progress} {outer : List Frame} (hr : r.Awaits outer) (t : Text) :
    resume? r ('[' :: t) = resume? ⟨.listOpened, outer⟩ t :=
  resume?_mark (by decide) rfl (hr .openList (by simp)) t

theorem resume?_openObject {r : Progress} {outer : List Frame} (hr : r.Awaits outer) (t : Text) :
    resume? r ('\x7b' :: t) = resume? ⟨.objectOpened, outer⟩ t :=
  resume?_mark (by decide) rfl (hr .openObject (by simp)) t

/-- Where a name is due, the name of a member and its colon are read, up to where its value is due. -/
theorem resume?_name (hs : s.Blank) (depth : Nat) {r : Progress} {members : List (Text × Value)}
    {outer : List Frame} (hr : ∀ name, step? r (.text name) = some ⟨.colon members name, outer⟩)
    (name t : Text) :
    resume? r (s.line depth ++ (quote name ++ ':' :: (s.afterColon ++ t))) =
      resume? ⟨.value, .object members name :: outer⟩ t := by
  have hcolon (t : Text) : resume? ⟨.colon members name, outer⟩ (':' :: t) =
      resume? ⟨.value, .object members name :: outer⟩ t := resume?_mark (by decide) rfl rfl t
  rw [resume?_spaces _ (hs.line depth), resume?_quote, hr, Option.bind_some, hcolon,
    resume?_spaces _ hs.afterColon]

-- By recursion on the value.  The two companions take the closing bracket with them, because the last
-- item of a list enters its frame only when the bracket comes.
mutual

/-- A value that is due is read back as it was written. -/
theorem resume?_write (hs : s.Blank) (depth : Nat) (j : Json) {r : Progress} {outer : List Frame}
    (hr : r.Awaits outer) {rest : Text} (hrest : Ends rest) :
    resume? r (write s depth j ++ rest) = resume? ⟨.done j.value, outer⟩ rest := by
  match j with
  | .text t =>
    rw [write, resume?_quote, hr _ (by simp), value]
    rfl
  | .number n =>
    rw [write, resume?_ofNat r n hrest, hr _ (by simp), value]
    rfl
  | .list [] =>
    rw [write, value, values, List.cons_append, List.singleton_append, resume?_openList hr]
    exact resume?_mark (by decide) rfl rfl rest
  | .list (item :: items) =>
    have hends := ends_writeItems (s := s) (depth + 1) items
      (ends_append (hs.line depth) (ends_cons (c := ']') (by decide) rest))
    rw [write, List.cons_append]
    simp only [List.append_assoc, List.cons_append, List.nil_append]
    rw [resume?_openList hr, resume?_spaces _ (hs.line _),
      resume?_write hs _ item (awaits_listOpened outer) hends,
      resume?_writeItems hs _ items [] _ outer (hs.line depth) rest]
    rfl
  | .object [] =>
    rw [write, value, memberValues, List.cons_append, List.singleton_append,
      resume?_openObject hr]
    exact resume?_mark (by decide) rfl rfl rest
  | .object ((name, item) :: members) =>
    have hends := ends_writeMembers (s := s) (depth + 1) members
      (ends_append (hs.line depth) (ends_cons (c := '\x7d') (by decide) rest))
    rw [write, List.cons_append]
    simp only [List.append_assoc, List.cons_append, List.nil_append]
    rw [resume?_openObject hr, resume?_name hs _ (fun _ => rfl),
      resume?_write hs _ item (awaits_value _) hends,
      resume?_writeMembers hs _ members [] name _ outer (hs.line depth) rest]
    rfl

/-- The further items of a list are read up to its end. -/
theorem resume?_writeItems (hs : s.Blank) (depth : Nat) (items : List Json) (done : List Value)
    (v : Value) (outer : List Frame) {w : Text} (hw : ∀ c ∈ w, isSpace c = true) (rest : Text) :
    resume? ⟨.done v, .list done :: outer⟩ (writeItems s depth items ++ (w ++ ']' :: rest)) =
      resume? ⟨.done (.list (done ++ v :: values items)), outer⟩ rest := by
  match items with
  | [] =>
    rw [writeItems, values, List.nil_append, resume?_spaces _ hw]
    exact resume?_mark (by decide) rfl rfl rest
  | item :: items =>
    have hends := ends_writeItems (s := s) depth items
      (ends_append hw (ends_cons (c := ']') (by decide) rest))
    have hcomma (t : Text) : resume? ⟨.done v, .list done :: outer⟩ (',' :: t) =
        resume? ⟨.value, .list (done ++ [v]) :: outer⟩ t := resume?_mark (by decide) rfl rfl t
    rw [writeItems]
    simp only [List.append_assoc, List.cons_append]
    rw [hcomma, resume?_spaces _ (hs.line _), resume?_write hs _ item (awaits_value _) hends,
      resume?_writeItems hs _ items _ _ outer hw rest, values]
    simp only [List.append_assoc, List.singleton_append]

/-- The further members of an object are read up to its end. -/
theorem resume?_writeMembers (hs : s.Blank) (depth : Nat) (members : List (Text × Json))
    (done : List (Text × Value)) (name : Text) (v : Value) (outer : List Frame) {w : Text}
    (hw : ∀ c ∈ w, isSpace c = true) (rest : Text) :
    resume? ⟨.done v, .object done name :: outer⟩
        (writeMembers s depth members ++ (w ++ '\x7d' :: rest)) =
      resume? ⟨.done (.object (done ++ (name, v) :: memberValues members)), outer⟩ rest := by
  match members with
  | [] =>
    rw [writeMembers, memberValues, List.nil_append, resume?_spaces _ hw]
    exact resume?_mark (by decide) rfl rfl rest
  | (next, item) :: members =>
    have hends := ends_writeMembers (s := s) depth members
      (ends_append hw (ends_cons (c := '\x7d') (by decide) rest))
    have hcomma (t : Text) : resume? ⟨.done v, .object done name :: outer⟩ (',' :: t) =
        resume? ⟨.name (done ++ [(name, v)]), outer⟩ t := resume?_mark (by decide) rfl rfl t
    rw [writeMembers]
    simp only [List.append_assoc, List.cons_append]
    rw [hcomma, resume?_name hs _ (fun _ => rfl), resume?_write hs _ item (awaits_value _) hends,
      resume?_writeMembers hs _ members _ _ _ outer hw rest, memberValues]
    simp only [List.append_assoc, List.singleton_append]

end

/-- A written value, and white space after it, is a text of JSON that stands for the value. -/
theorem read?_write (hs : s.Blank) (j : Json) {rest : Text} (hrest : ∀ c ∈ rest, isSpace c = true) :
    read? (write s 0 j ++ rest) = some j.value := by
  have hends : Ends rest := by
    rw [← List.append_nil rest]
    exact ends_append hrest (by simp [Ends])
  have hspaces := resume?_spaces ⟨.done j.value, []⟩ hrest []
  rw [List.append_nil] at hspaces
  rw [read?, resume?_write hs 0 j (awaits_value []) hends, hspaces, resume?_nil]

theorem read?_written (hs : s.Blank) (j : Json) : read? (write s 0 j) = some j.value := by
  have hread : read? (write s 0 j ++ []) = some j.value := read?_write hs j (by simp)
  rwa [List.append_nil] at hread

end Json

end ProcessorListing
