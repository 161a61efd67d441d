import ProcessorListing.Label

/-!
# Catalogs

A catalog binds keys to texts, each key once, and lists them in ascending order of their spelling,
character by character and by code point.  The order is part of the type, so two catalogs that bind
the same keys to the same texts are equal.
-/

namespace ProcessorListing

/-- Keys that are told apart, and ordered, by their spelling. -/
class Spelled (κ : Type) where
  spelling : κ → Text
  spelling_injective : ∀ {a b : κ}, spelling a = spelling b → a = b

export Spelled (spelling)

instance : Spelled Text := ⟨id, id⟩

instance : Spelled Label := ⟨Label.text, fun {a b} h => by cases a; cases b; exact congrArg _ h⟩

/-- Bindings in strictly ascending order of their keys. -/
structure Catalog (κ : Type) [Spelled κ] where
  bindings : List (Binding κ)
  ascending : bindings.Pairwise fun a b => spelling a.key < spelling b.key

namespace Catalog

variable {κ : Type} [Spelled κ]

@[ext] theorem ext {c d : Catalog κ} (h : c.bindings = d.bindings) : c = d := by
  cases c; cases d; exact (Catalog.mk.injEq ..).mpr h

instance [DecidableEq κ] : DecidableEq (Catalog κ) := fun c d =>
  decidable_of_iff (c.bindings = d.bindings) ⟨ext, fun h => h ▸ rfl⟩

/-- Puts a binding at its place in ascending bindings, over the one that has its key. -/
def place (key : κ) (value : Text) : List (Binding κ) → List (Binding κ)
  | [] => [⟨key, value⟩]
  | b :: rest =>
    if spelling key < spelling b.key then ⟨key, value⟩ :: b :: rest
    else if spelling b.key < spelling key then b :: place key value rest
    else ⟨b.key, value⟩ :: rest

theorem key_of_mem_place {key : κ} {value : Text} {bindings : List (Binding κ)} {x : Binding κ}
    (h : x ∈ place key value bindings) : x.key = key ∨ ∃ b ∈ bindings, x.key = b.key := by
  induction bindings with
  | nil => simp_all [place]
  | cons b rest ih =>
    unfold place at h
    split at h
    · rcases List.mem_cons.1 h with rfl | h
      · exact .inl rfl
      · exact .inr ⟨x, h, rfl⟩
    · split at h
      · rcases List.mem_cons.1 h with rfl | h
        · exact .inr ⟨x, by simp, rfl⟩
        · rcases ih h with h | ⟨y, hy, e⟩
          · exact .inl h
          · exact .inr ⟨y, by simp [hy], e⟩
      · rcases List.mem_cons.1 h with rfl | h
        · exact .inr ⟨b, by simp, rfl⟩
        · exact .inr ⟨x, by simp [h], rfl⟩

theorem ascending_place {key : κ} {value : Text} {bindings : List (Binding κ)}
    (h : bindings.Pairwise fun a b => spelling a.key < spelling b.key) :
    (place key value bindings).Pairwise fun a b => spelling a.key < spelling b.key := by
  induction bindings with
  | nil => simp [place]
  | cons b rest ih =>
    obtain ⟨hb, hrest⟩ := List.pairwise_cons.1 h
    unfold place
    split
    · refine List.pairwise_cons.2 ⟨fun x hx => ?_, h⟩
      rcases List.mem_cons.1 hx with rfl | hx
      · assumption
      · exact List.lt_trans ‹_› (hb x hx)
    · split
      · refine List.pairwise_cons.2 ⟨fun x hx => ?_, ih hrest⟩
        rcases key_of_mem_place hx with e | ⟨y, hy, e⟩
        · exact e ▸ ‹_›
        · exact e ▸ hb y hy
      · exact List.pairwise_cons.2 ⟨fun x hx => hb x hx, hrest⟩

theorem keys_nodup (c : Catalog κ) : (c.bindings.map (·.key)).Nodup := by
  rw [List.Nodup, List.pairwise_map]
  refine c.ascending.imp fun {a b} hlt => ?_
  intro (e : a.key = b.key)
  rw [e] at hlt
  exact List.lt_irrefl _ hlt

/-- The catalog that binds nothing. -/
def empty : Catalog κ := ⟨[], .nil⟩

/-- Binds a key, over the text it was bound to. -/
def insert (c : Catalog κ) (b : Binding κ) : Catalog κ :=
  ⟨place b.key b.value c.bindings, ascending_place c.ascending⟩

/-- The catalog that bindings make when they are inserted one after the other. -/
def ofList (bindings : List (Binding κ)) : Catalog κ := bindings.foldl insert empty

/-- The text bound to a key. -/
def get? [DecidableEq κ] (c : Catalog κ) (key : κ) : Option Text :=
  Binding.firstValue? c.bindings key

/-- The number of keys bound. -/
def size (c : Catalog κ) : Nat := c.bindings.length

/-! ## What a catalog holds

A catalog of bindings holds the last text of each key (`get?_ofList`), and it is determined by what
it holds (`ext_get?`), so the order in which it was made does not show. -/

variable [DecidableEq κ]

theorem firstValue?_place (key k : κ) (value : Text) (bindings : List (Binding κ)) :
    Binding.firstValue? (place key value bindings) k =
      if key = k then some value else Binding.firstValue? bindings k := by
  induction bindings with
  | nil => simp [place, Binding.firstValue?_cons]
  | cons b rest ih =>
    unfold place
    split
    · rw [Binding.firstValue?_cons]
    · split
      next hlt =>
        rw [Binding.firstValue?_cons, ih, Binding.firstValue?_cons]
        by_cases hb : b.key = k
        · subst hb
          have : key ≠ b.key := fun e => List.lt_irrefl _ (e ▸ hlt)
          simp [this]
        · simp [hb]
      next hnlt hngt =>
        have : b.key = key :=
          Spelled.spelling_injective (List.le_antisymm (List.not_lt.1 hnlt) (List.not_lt.1 hngt))
        subst this
        by_cases hb : b.key = k <;> simp [Binding.firstValue?_cons, hb]

/-- Binding a key changes its text and no other. -/
theorem get?_insert (c : Catalog κ) (b : Binding κ) (key : κ) :
    (c.insert b).get? key = if b.key = key then some b.value else c.get? key :=
  firstValue?_place ..

theorem get?_foldl_insert (bindings : List (Binding κ)) (c : Catalog κ) (key : κ) :
    (bindings.foldl insert c).get? key = (Binding.lastValue? bindings key).or (c.get? key) := by
  induction bindings generalizing c with
  | nil => simp
  | cons b rest ih =>
    rw [List.foldl_cons, ih, get?_insert, ← List.singleton_append, Binding.lastValue?_append]
    by_cases hk : b.key = key <;> simp [Binding.lastValue?, Binding.firstValue?_cons, hk]

/-- A catalog of bindings holds the last text of each key. -/
theorem get?_ofList (bindings : List (Binding κ)) (key : κ) :
    (ofList bindings).get? key = Binding.lastValue? bindings key := by
  rw [ofList, get?_foldl_insert]
  exact Option.or_none

/-- Keys before the first one are not bound. -/
theorem firstValue?_eq_none_of_lt {bindings : List (Binding κ)} {key : κ}
    (h : ∀ b ∈ bindings, spelling key < spelling b.key) :
    Binding.firstValue? bindings key = none := by
  rw [Binding.firstValue?_eq_none_iff]
  intro hm
  obtain ⟨b, hb, rfl⟩ := List.mem_map.1 hm
  exact List.lt_irrefl _ (h b hb)

theorem eq_of_firstValue?_eq {xs ys : List (Binding κ)}
    (hx : xs.Pairwise fun a b => spelling a.key < spelling b.key)
    (hy : ys.Pairwise fun a b => spelling a.key < spelling b.key)
    (h : ∀ key, Binding.firstValue? xs key = Binding.firstValue? ys key) : xs = ys := by
  induction xs generalizing ys with
  | nil =>
    cases ys with
    | nil => rfl
    | cons y ys => simpa [Binding.firstValue?_cons] using h y.key
  | cons x xs ih =>
    cases ys with
    | nil => simpa [Binding.firstValue?_cons] using h x.key
    | cons y ys =>
      obtain ⟨hxs, hx'⟩ := List.pairwise_cons.1 hx
      obtain ⟨hys, hy'⟩ := List.pairwise_cons.1 hy
      have hnlt : ¬ spelling x.key < spelling y.key := fun hlt => by
        have hnone := @firstValue?_eq_none_of_lt κ _ _ (y :: ys) x.key (by
          intro b hb
          rcases List.mem_cons.1 hb with rfl | hb
          · exact hlt
          · exact List.lt_trans hlt (hys b hb))
        simpa [Binding.firstValue?_cons, hnone] using h x.key
      have hngt : ¬ spelling y.key < spelling x.key := fun hlt => by
        have hnone := @firstValue?_eq_none_of_lt κ _ _ (x :: xs) y.key (by
          intro b hb
          rcases List.mem_cons.1 hb with rfl | hb
          · exact hlt
          · exact List.lt_trans hlt (hxs b hb))
        simpa [Binding.firstValue?_cons, hnone] using (h y.key).symm
      have hkey : x.key = y.key :=
        Spelled.spelling_injective (List.le_antisymm (List.not_lt.1 hngt) (List.not_lt.1 hnlt))
      have hvalue : x.value = y.value := by
        simpa [Binding.firstValue?_cons, hkey] using h y.key
      have hxy : x = y := by
        cases x; cases y; simp_all
      subst hxy
      congr 1
      refine ih hx' hy' fun key => ?_
      by_cases hk : x.key = key
      · subst hk
        rw [firstValue?_eq_none_of_lt hxs, firstValue?_eq_none_of_lt hys]
      · simpa [Binding.firstValue?_cons, hk] using h key

/-- A catalog is determined by what it holds. -/
theorem ext_get? {c d : Catalog κ} (h : ∀ key, c.get? key = d.get? key) : c = d :=
  ext (eq_of_firstValue?_eq c.ascending d.ascending h)

theorem get?_eq_some_iff {c : Catalog κ} {key : κ} {value : Text} :
    c.get? key = some value ↔ ⟨key, value⟩ ∈ c.bindings :=
  ⟨Binding.mem_of_firstValue?, fun h => Binding.firstValue?_of_mem c.keys_nodup h⟩

/-- A key that no binding has is not bound. -/
theorem get?_eq_none_iff {c : Catalog κ} {key : κ} :
    c.get? key = none ↔ ∀ b ∈ c.bindings, b.key ≠ key := by
  rw [get?, Binding.firstValue?_eq_none_iff, List.mem_map, not_exists]
  exact forall_congr' fun _ => not_and

/-- A catalog is made of its own bindings. -/
theorem ofList_bindings (c : Catalog κ) : ofList c.bindings = c := by
  refine ext_get? fun key => ?_
  rw [get?_ofList, Binding.lastValue?_eq_firstValue? c.keys_nodup, get?]

/-- A catalog binds nothing but what it was made of. -/
theorem mem_of_mem_ofList {bindings : List (Binding κ)} {b : Binding κ}
    (h : b ∈ (ofList bindings).bindings) : b ∈ bindings := by
  have hget : (ofList bindings).get? b.key = some b.value := get?_eq_some_iff.2 h
  rw [get?_ofList] at hget
  exact Binding.mem_of_lastValue? hget

/-- Bindings of distinct keys are all kept. -/
theorem mem_ofList_of_nodup {bindings : List (Binding κ)} (hd : (bindings.map (·.key)).Nodup)
    {b : Binding κ} : b ∈ (ofList bindings).bindings ↔ b ∈ bindings := by
  refine ⟨mem_of_mem_ofList, fun h => ?_⟩
  have hget : (ofList bindings).get? b.key = some b.value := by
    rw [get?_ofList, Binding.lastValue?_eq_firstValue? hd, Binding.firstValue?_of_mem hd h]
  exact get?_eq_some_iff.1 hget

end Catalog

end ProcessorListing
