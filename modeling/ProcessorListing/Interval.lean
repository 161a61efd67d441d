/-!
# Closed intervals of natural numbers

Character properties are published as lists of code point ranges, and so are the bytes that may
stand at each place of an encoded character.  Both are lists of `Interval`s here, and membership
in one is decidable by two comparisons.
-/

namespace ProcessorListing

/-- The numbers from `first` to `last`, both included. -/
structure Interval where
  first : Nat
  last : Nat
deriving DecidableEq, Repr

namespace Interval

instance : Membership Nat Interval := ⟨fun i n => i.first ≤ n ∧ n ≤ i.last⟩

theorem mem_iff {n : Nat} {i : Interval} : n ∈ i ↔ i.first ≤ n ∧ n ≤ i.last := Iff.rfl

instance (n : Nat) (i : Interval) : Decidable (n ∈ i) :=
  inferInstanceAs (Decidable (i.first ≤ n ∧ n ≤ i.last))

/-- The interval that holds `n` alone. -/
def single (n : Nat) : Interval := ⟨n, n⟩

end Interval

/-- A code point set written as a list of intervals holds what one of the intervals holds. -/
def inSome (intervals : List Interval) (n : Nat) : Bool := intervals.any fun i => n ∈ i

theorem inSome_iff {intervals : List Interval} {n : Nat} :
    inSome intervals n = true ↔ ∃ i ∈ intervals, n ∈ i := by
  simp [inSome]

end ProcessorListing
