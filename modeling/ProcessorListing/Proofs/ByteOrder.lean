import ProcessorListing.Catalog
import ProcessorListing.Proofs.Utf8

/-!
# The order of encodings

Catalogs are kept in the order of code points, character by character.  It is also the order of the
bytes: the encoding of a lower character is lower at the first byte in which the two differ, and
there is one, since no encoding is the start of another (`parts_encodeChar`).  So comparing texts and
comparing their bytes give the same answer (`encode_lt_encode`).

A higher first byte announces a higher character, whatever follows (`extend_lt_of_lead_lt`).  Behind
the same first byte the same number of bytes follow, and the highest of these counts most
(`extend_lt_of_lt`).
-/

namespace ProcessorListing.Utf8

/-- Bytes that are alike up to a place, where the first have a lower byte than the second. -/
def Parts (xs ys : List UInt8) : Prop :=
  ∃ front x y xs' ys', xs = front ++ x :: xs' ∧ ys = front ++ y :: ys' ∧ x < y

theorem Parts.cons {xs ys : List UInt8} (h : Parts xs ys) (b : UInt8) :
    Parts (b :: xs) (b :: ys) := by
  obtain ⟨front, x, y, xs', ys', rfl, rfl, hlt⟩ := h
  exact ⟨b :: front, x, y, xs', ys', rfl, rfl, hlt⟩

theorem Parts.append_lt {xs ys : List UInt8} (h : Parts xs ys) (s t : List UInt8) :
    xs ++ s < ys ++ t := by
  obtain ⟨front, x, y, xs', ys', rfl, rfl, hlt⟩ := h
  rw [List.append_assoc, List.append_assoc]
  exact List.append_left_lt (List.Lex.rel hlt)

/-! ## The bytes of one character -/

/-- The value read so far counts more than all the bytes that follow. -/
theorem extend_lt_of_lt {value value' : Nat} (hlt : value < value') {owed : List Interval}
    (howed : ∀ i ∈ owed, i.last ≤ 0xBF) {tail tail' : List UInt8}
    (h : Fits owed tail) (h' : Fits owed tail') : extend value tail < extend value' tail' := by
  induction owed generalizing value value' tail tail' with
  | nil =>
    cases h
    cases h'
    exact hlt
  | cons interval owed ih =>
    obtain ⟨b, rest, hb, hrest, rfl⟩ := List.forall₂_cons_left_iff.1 h
    obtain ⟨b', rest', hb', hrest', rfl⟩ := List.forall₂_cons_left_iff.1 h'
    have hlast := howed interval (by simp)
    rw [Interval.mem_iff] at hb hb'
    rw [extend_cons, extend_cons]
    exact ih (by omega) (fun i hi => howed i (by simp [hi])) hrest hrest'

/-- Behind the same value, the lower of two values shows in the first byte that differs. -/
theorem parts_of_extend_lt {value : Nat} {owed : List Interval}
    (howed : ∀ i ∈ owed, 0x80 ≤ i.first ∧ i.last ≤ 0xBF) {tail tail' : List UInt8}
    (h : Fits owed tail) (h' : Fits owed tail')
    (hlt : extend value tail < extend value tail') : Parts tail tail' := by
  induction owed generalizing value tail tail' with
  | nil =>
    cases h
    cases h'
    exact absurd hlt (Nat.lt_irrefl _)
  | cons interval owed ih =>
    obtain ⟨b, rest, hb, hrest, rfl⟩ := List.forall₂_cons_left_iff.1 h
    obtain ⟨b', rest', hb', hrest', rfl⟩ := List.forall₂_cons_left_iff.1 h'
    have hinterval := howed interval (by simp)
    have howed' : ∀ i ∈ owed, 0x80 ≤ i.first ∧ i.last ≤ 0xBF := fun i hi => howed i (by simp [hi])
    rw [Interval.mem_iff] at hb hb'
    rw [extend_cons, extend_cons] at hlt
    rcases Nat.lt_trichotomy b.toNat b'.toNat with hlow | heq | hhigh
    · exact ⟨[], b, b', rest, rest', rfl, rfl, UInt8.lt_iff_toNat_lt.2 hlow⟩
    · obtain rfl := UInt8.toNat_inj.1 heq
      exact (ih howed' hrest hrest' hlt).cons b
    · have hcontrary := @extend_lt_of_lt (value * 64 + (b'.toNat - 0x80))
        (value * 64 + (b.toNat - 0x80)) (by omega) owed (fun i hi => (howed' i hi).2) rest' rest
        hrest' hrest
      exact absurd hlt (Nat.lt_asymm hcontrary)

/-- The first byte tells the block of values in which the character lies. -/
theorem lead_bounds {b : UInt8} {lead : Lead} {tail : List UInt8}
    (hlead : lead? b.toNat = some lead) (hfits : Fits lead.owed tail) :
    (b.toNat ≤ 0x7F ∧ extend lead.bits tail = b.toNat) ∨
      ((0xC2 ≤ b.toNat ∧ b.toNat ≤ 0xDF) ∧ (b.toNat - 0xC0) * 64 ≤ extend lead.bits tail ∧
        extend lead.bits tail < (b.toNat - 0xC0 + 1) * 64) ∨
      ((0xE0 ≤ b.toNat ∧ b.toNat ≤ 0xEF) ∧ 0x800 ≤ extend lead.bits tail ∧
        (b.toNat - 0xE0) * 4096 ≤ extend lead.bits tail ∧
        extend lead.bits tail < (b.toNat - 0xE0 + 1) * 4096) ∨
      ((0xF0 ≤ b.toNat ∧ b.toNat ≤ 0xF4) ∧ 0x10000 ≤ extend lead.bits tail ∧
        (b.toNat - 0xF0) * 262144 ≤ extend lead.bits tail ∧
        extend lead.bits tail < (b.toNat - 0xF0 + 1) * 262144) := by
  rcases lead_cases hlead hfits with ⟨-, hb, hvalue⟩ | ⟨x, -, hb, hx, hvalue⟩ |
    ⟨x, y, -, hb, hx, hy, hvalue⟩ | ⟨x, y, z, -, hb, hx, hy, hz, hvalue⟩
  · exact .inl ⟨hb, hvalue⟩
  · rw [mem_continuation] at hx
    exact .inr (.inl (by omega))
  · rw [mem_second] at hx
    rw [mem_continuation] at hy
    exact .inr (.inr (.inl (by omega)))
  · rw [mem_second] at hx
    rw [mem_continuation] at hy hz
    exact .inr (.inr (.inr (by omega)))

/-- A higher first byte announces a higher character. -/
theorem extend_lt_of_lead_lt {b b' : UInt8} {lead lead' : Lead} {tail tail' : List UInt8}
    (hlead : lead? b.toNat = some lead) (hfits : Fits lead.owed tail)
    (hlead' : lead? b'.toNat = some lead') (hfits' : Fits lead'.owed tail')
    (hlt : b.toNat < b'.toNat) : extend lead.bits tail < extend lead'.bits tail' := by
  have hblock := lead_bounds hlead hfits
  have hblock' := lead_bounds hlead' hfits'
  omega

theorem owed_of_lead {b : Nat} {lead : Lead} (h : lead? b = some lead) :
    ∀ i ∈ lead.owed, 0x80 ≤ i.first ∧ i.last ≤ 0xBF := by
  have hsecond : 0x80 ≤ (second b).first ∧ (second b).last ≤ 0xBF := by
    grind [second, continuation]
  rcases lead?_cases h with ⟨-, rfl⟩ | ⟨-, rfl⟩ | ⟨-, rfl⟩ | ⟨-, rfl⟩ <;>
    simp [continuation, hsecond]

/-- The encodings of two characters part, and the lower character has the lower byte there. -/
theorem parts_encodeChar {c d : Char} (h : c < d) :
    Parts (String.utf8EncodeChar c) (String.utf8EncodeChar d) := by
  obtain ⟨b, tail, hc⟩ := List.exists_cons_of_ne_nil (@String.utf8EncodeChar_ne_nil c)
  obtain ⟨b', tail', hd⟩ := List.exists_cons_of_ne_nil (@String.utf8EncodeChar_ne_nil d)
  obtain ⟨lead, hlead, hfits, hvalue⟩ := encodeChar_lead hc
  obtain ⟨lead', hlead', hfits', hvalue'⟩ := encodeChar_lead hd
  have hlt : extend lead.bits tail < extend lead'.bits tail' := by
    rw [← hvalue, ← hvalue']
    exact UInt32.lt_iff_toNat_lt.1 h
  rw [hc, hd]
  rcases Nat.lt_trichotomy b.toNat b'.toNat with hlow | heq | hhigh
  · exact ⟨[], b, b', tail, tail', rfl, rfl, UInt8.lt_iff_toNat_lt.2 hlow⟩
  · obtain rfl := UInt8.toNat_inj.1 heq
    obtain rfl := Option.some.inj (hlead.symm.trans hlead')
    exact (parts_of_extend_lt (owed_of_lead hlead) hfits hfits' hlt).cons b
  · exact absurd hlt (Nat.lt_asymm (extend_lt_of_lead_lt hlead' hfits' hlead hfits hhigh))

/-! ## Texts -/

/-- The bytes of texts are in the order of the texts. -/
theorem encode_lt_encode {s t : Text} (h : s < t) : encode s < encode t := by
  induction h with
  | nil =>
    rw [encode_cons]
    obtain ⟨b, tail, hc⟩ := List.exists_cons_of_ne_nil (@String.utf8EncodeChar_ne_nil _)
    rw [hc]
    exact List.Lex.nil
  | rel hlt =>
    rw [encode_cons, encode_cons]
    exact (parts_encodeChar hlt).append_lt _ _
  | cons _ ih =>
    rw [encode_cons, encode_cons]
    exact List.append_left_lt ih

end ProcessorListing.Utf8

namespace ProcessorListing.Catalog

/-- A catalog lists its keys in strictly ascending order of their bytes. -/
theorem ascending_bytes {κ : Type} [Spelled κ] (c : Catalog κ) :
    c.bindings.Pairwise fun a b => Utf8.encode (spelling a.key) < Utf8.encode (spelling b.key) :=
  c.ascending.imp Utf8.encode_lt_encode

end ProcessorListing.Catalog
