import ProcessorListing.Text.Basic

/-!
# Keys bound to values

Three kinds of key are bound to a text in this library: the name on a line of a listing, the label
of a field, and the name of a fact.  `Binding` is the pair in all three cases.  A list of bindings
may hold a key more than once; `lastValue?` is the reading in which a later binding replaces an
earlier one.
-/

namespace ProcessorListing

/-- A key and the text bound to it. -/
@[ext]
structure Binding (κ : Type) where
  key : κ
  value : Text
deriving DecidableEq, Repr

namespace Binding

variable {κ : Type} [DecidableEq κ]

/-- The value of the first binding of `key`. -/
def firstValue? (bindings : List (Binding κ)) (key : κ) : Option Text :=
  (bindings.find? (·.key = key)).map (·.value)

/-- The value of the last binding of `key`. -/
def lastValue? (bindings : List (Binding κ)) (key : κ) : Option Text :=
  firstValue? bindings.reverse key

@[simp] theorem firstValue?_nil (key : κ) : firstValue? [] key = none := rfl

theorem firstValue?_cons (b : Binding κ) (bindings : List (Binding κ)) (key : κ) :
    firstValue? (b :: bindings) key =
      if b.key = key then some b.value else firstValue? bindings key := by
  by_cases h : b.key = key <;> simp [firstValue?, h]

theorem firstValue?_append (xs ys : List (Binding κ)) (key : κ) :
    firstValue? (xs ++ ys) key = (firstValue? xs key).or (firstValue? ys key) := by
  induction xs with
  | nil => simp
  | cons b xs ih => by_cases h : b.key = key <;> simp [firstValue?_cons, h, ih]

/-- A key has no value exactly when it is not bound. -/
theorem firstValue?_eq_none_iff {bindings : List (Binding κ)} {key : κ} :
    firstValue? bindings key = none ↔ key ∉ bindings.map (·.key) := by
  simp [firstValue?]

@[simp] theorem lastValue?_nil (key : κ) : lastValue? [] key = none := rfl

/-- A later binding replaces an earlier one. -/
theorem lastValue?_append (xs ys : List (Binding κ)) (key : κ) :
    lastValue? (xs ++ ys) key = (lastValue? ys key).or (lastValue? xs key) := by
  simp [lastValue?, firstValue?_append]

theorem lastValue?_concat (xs : List (Binding κ)) (b : Binding κ) (key : κ) :
    lastValue? (xs ++ [b]) key = if b.key = key then some b.value else lastValue? xs key := by
  by_cases h : b.key = key <;> simp [lastValue?, firstValue?_cons, h]

/-- A key has no last value exactly when it is not bound. -/
theorem lastValue?_eq_none_iff {bindings : List (Binding κ)} {key : κ} :
    lastValue? bindings key = none ↔ key ∉ bindings.map (·.key) := by
  rw [lastValue?, firstValue?_eq_none_iff, List.map_reverse, List.mem_reverse]

theorem mem_of_firstValue? {bindings : List (Binding κ)} {key : κ} {value : Text}
    (h : firstValue? bindings key = some value) : ⟨key, value⟩ ∈ bindings := by
  obtain ⟨b, hb, rfl⟩ := Option.map_eq_some_iff.1 h
  have hkey : b.key = key := by simpa using List.find?_some hb
  subst hkey
  exact List.mem_of_find?_eq_some hb

theorem mem_of_lastValue? {bindings : List (Binding κ)} {key : κ} {value : Text}
    (h : lastValue? bindings key = some value) : ⟨key, value⟩ ∈ bindings :=
  List.mem_reverse.1 (mem_of_firstValue? h)

/-- Leaving keys out leaves out their values and no others. -/
theorem firstValue?_filter (p : κ → Prop) [DecidablePred p] (bindings : List (Binding κ)) (key : κ) :
    firstValue? (bindings.filter fun b => p b.key) key =
      if p key then firstValue? bindings key else none := by
  induction bindings with
  | nil => simp
  | cons b rest ih =>
    by_cases hb : b.key = key
    · subst hb
      by_cases hp : p b.key <;> simp [firstValue?_cons, hp, ih]
    · by_cases hp : p b.key <;> simp [firstValue?_cons, hp, hb, ih]

theorem lastValue?_filter (p : κ → Prop) [DecidablePred p] (bindings : List (Binding κ)) (key : κ) :
    lastValue? (bindings.filter fun b => p b.key) key =
      if p key then lastValue? bindings key else none := by
  rw [lastValue?, ← List.filter_reverse, firstValue?_filter, lastValue?]

/-- The last value of a key is that of the last of its bindings. -/
theorem lastValue?_eq_getLast? (bindings : List (Binding κ)) (key : κ) :
    lastValue? bindings key = (bindings.filter (·.key = key)).getLast?.map (·.value) := by
  rw [lastValue?, firstValue?, ← List.head?_filter, List.filter_reverse, List.head?_reverse]

/-- Where keys are distinct, a binding is found under its key. -/
theorem firstValue?_of_mem {bindings : List (Binding κ)} (hd : (bindings.map (·.key)).Nodup)
    {b : Binding κ} (hb : b ∈ bindings) : firstValue? bindings b.key = some b.value := by
  induction bindings with
  | nil => simp at hb
  | cons c rest ih =>
    rw [List.map_cons, List.nodup_cons] at hd
    rcases List.mem_cons.1 hb with rfl | hb
    · simp [firstValue?_cons]
    · have hne : c.key ≠ b.key := fun e => hd.1 (e ▸ List.mem_map_of_mem hb)
      rw [firstValue?_cons, if_neg hne]
      exact ih hd.2 hb

/-- Where keys are distinct, the first binding of a key is the last one. -/
theorem lastValue?_eq_firstValue? {bindings : List (Binding κ)}
    (hd : (bindings.map (·.key)).Nodup) (key : κ) :
    lastValue? bindings key = firstValue? bindings key := by
  have hr : (bindings.reverse.map (·.key)).Nodup := by
    rw [List.map_reverse, List.Nodup, List.pairwise_reverse]
    exact hd.imp Ne.symm
  refine Option.ext fun value => ⟨fun h => ?_, fun h => ?_⟩
  · exact firstValue?_of_mem hd (mem_of_lastValue? h)
  · exact firstValue?_of_mem hr (List.mem_reverse.2 (mem_of_firstValue? h))

end Binding

end ProcessorListing
