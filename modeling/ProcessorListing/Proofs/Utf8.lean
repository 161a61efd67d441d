import ProcessorListing.Text.Utf8
import Mathlib.Data.List.Forall2

/-!
# Bytes that encode a text

What a first byte announces is either borne out by the bytes after it or not.  Where it is, they are
the encoding of one character (`encodeChar_of_lead`), and every character is encoded in such bytes
(`encodeChar_lead`); so the character that `start` finds is the one whose encoding stands there
(`start_eq_whole_iff`).  Character by character, decoding is the inverse of encoding
(`decode_eq_ok_iff`): bytes are read as a text exactly when they are its encoding.

The intervals for the second byte leave out what would be a second encoding of a character, the
surrogates, and what lies beyond the last code point.  `mem_second` says so in inequalities.
-/

namespace ProcessorListing.Utf8

/-- The bytes after a first byte lie, one by one, in the intervals that it announces. -/
def Fits (owed : List Interval) (tail : List UInt8) : Prop :=
  List.Forall₂ (fun interval b => b.toNat ∈ interval) owed tail

/-- The value that a character has when the bytes after its first one are read. -/
def extend (value : Nat) (tail : List UInt8) : Nat :=
  tail.foldl (fun v b => v * 64 + (b.toNat - 0x80)) value

theorem extend_cons (value : Nat) (b : UInt8) (tail : List UInt8) :
    extend value (b :: tail) = extend (value * 64 + (b.toNat - 0x80)) tail := by
  rw [extend, List.foldl_cons, ← extend]

theorem follow_eq_whole_iff {value seen width : Nat} {owed : List Interval}
    {bytes rest : List UInt8} {c : Char} :
    follow value seen owed bytes = .whole c width rest ↔
      ∃ tail, bytes = tail ++ rest ∧ Fits owed tail ∧ c = Char.ofNat (extend value tail) ∧
        width = seen + tail.length := by
  fun_induction follow value seen owed bytes with
  | case1 value seen bytes =>
    constructor
    · rintro ⟨⟩
      exact ⟨[], rfl, .nil, rfl, rfl⟩
    · rintro ⟨tail, rfl, hfits, rfl, rfl⟩
      cases hfits
      rfl
  | case2 value seen interval owed =>
    refine ⟨(by rintro ⟨⟩), ?_⟩
    rintro ⟨tail, hbytes, hfits, -⟩
    cases hfits
    cases hbytes
  | case3 value seen interval owed b bytes hb ih =>
    rw [ih]
    constructor
    · rintro ⟨tail, rfl, hfits, rfl, rfl⟩
      exact ⟨b :: tail, rfl, .cons hb hfits, by rw [extend_cons], by rw [List.length_cons]; omega⟩
    · rintro ⟨tail, hbytes, hfits, rfl, rfl⟩
      obtain ⟨_, rest', hhead, htail, rfl⟩ := List.forall₂_cons_left_iff.1 hfits
      obtain ⟨rfl, rfl⟩ := List.cons.inj hbytes
      exact ⟨rest', rfl, htail, by rw [extend_cons], by rw [List.length_cons]; omega⟩
  | case4 value seen interval owed b bytes hb =>
    refine ⟨(by rintro ⟨⟩), ?_⟩
    rintro ⟨tail, hbytes, hfits, -⟩
    obtain ⟨_, rest', hhead, htail, rfl⟩ := List.forall₂_cons_left_iff.1 hfits
    obtain ⟨rfl, rfl⟩ := List.cons.inj hbytes
    exact absurd hhead hb

/-- The interval in which the byte after a first byte lies. -/
def second (b : Nat) : Interval :=
  if b = 0xE0 then ⟨0xA0, 0xBF⟩
  else if b = 0xED then ⟨0x80, 0x9F⟩
  else if b = 0xF0 then ⟨0x90, 0xBF⟩
  else if b = 0xF4 then ⟨0x80, 0x8F⟩
  else continuation

theorem lead?_one {b : Nat} (h : b ≤ 0x7F) : lead? b = some ⟨b, []⟩ := by
  simp [lead?, h]

theorem lead?_two {b : Nat} (h : 0xC2 ≤ b ∧ b ≤ 0xDF) :
    lead? b = some ⟨b - 0xC0, [continuation]⟩ := by
  grind [lead?]

theorem lead?_three {b : Nat} (h : 0xE0 ≤ b ∧ b ≤ 0xEF) :
    lead? b = some ⟨b - 0xE0, [second b, continuation]⟩ := by
  grind [lead?, second]

theorem lead?_four {b : Nat} (h : 0xF0 ≤ b ∧ b ≤ 0xF4) :
    lead? b = some ⟨b - 0xF0, [second b, continuation, continuation]⟩ := by
  grind [lead?, second]

/-- These are all the bytes that begin a character. -/
theorem lead?_cases {b : Nat} {lead : Lead} (h : lead? b = some lead) :
    (b ≤ 0x7F ∧ lead = ⟨b, []⟩) ∨
      ((0xC2 ≤ b ∧ b ≤ 0xDF) ∧ lead = ⟨b - 0xC0, [continuation]⟩) ∨
      ((0xE0 ≤ b ∧ b ≤ 0xEF) ∧ lead = ⟨b - 0xE0, [second b, continuation]⟩) ∨
      ((0xF0 ≤ b ∧ b ≤ 0xF4) ∧ lead = ⟨b - 0xF0, [second b, continuation, continuation]⟩) := by
  grind [lead?, second]

theorem mem_continuation {n : Nat} : n ∈ continuation ↔ 0x80 ≤ n ∧ n ≤ 0xBF := Iff.rfl

theorem mem_second {b n : Nat} :
    n ∈ second b ↔ 0x80 ≤ n ∧ n ≤ 0xBF ∧ (b = 0xE0 → 0xA0 ≤ n) ∧ (b = 0xED → n ≤ 0x9F) ∧
      (b = 0xF0 → 0x90 ≤ n) ∧ (b = 0xF4 → n ≤ 0x8F) := by
  grind [second, continuation, Interval.mem_iff]

theorem toNat_ofNat {n : Nat} (h : n.isValidChar) : (Char.ofNat n).toNat = n := by
  rw [Char.ofNat, dif_pos h]
  rfl

theorem byte_eq {n : Nat} {b : UInt8} (h : n = b.toNat) : UInt8.ofNat n = b := by
  rw [h, UInt8.ofNat_toNat]

theorem toNat_byte {n : Nat} (h : n < 256) : (UInt8.ofNat n).toNat = n := by
  rw [UInt8.toNat_ofNat', Nat.mod_eq_of_lt h]

theorem encodeChar_eq (c : Char) :
    String.utf8EncodeChar c =
      if c.toNat ≤ 0x7F then [UInt8.ofNat c.toNat]
      else if c.toNat ≤ 0x7FF then
        [UInt8.ofNat (c.toNat / 64 % 32 + 192), UInt8.ofNat (c.toNat % 64 + 128)]
      else if c.toNat ≤ 0xFFFF then
        [UInt8.ofNat (c.toNat / 4096 % 16 + 224), UInt8.ofNat (c.toNat / 64 % 64 + 128),
          UInt8.ofNat (c.toNat % 64 + 128)]
      else
        [UInt8.ofNat (c.toNat / 262144 % 8 + 240), UInt8.ofNat (c.toNat / 4096 % 64 + 128),
          UInt8.ofNat (c.toNat / 64 % 64 + 128), UInt8.ofNat (c.toNat % 64 + 128)] := rfl

theorem encodeChar_lead {c : Char} {b : UInt8} {tail : List UInt8}
    (h : String.utf8EncodeChar c = b :: tail) :
    ∃ lead, lead? b.toNat = some lead ∧ Fits lead.owed tail ∧ c.toNat = extend lead.bits tail := by
  have hc : c.toNat < 0xD800 ∨ 0xDFFF < c.toNat ∧ c.toNat < 0x110000 := c.valid
  rw [encodeChar_eq] at h
  split at h
  · obtain ⟨rfl, rfl⟩ := List.cons.inj h
    have hb := @toNat_byte c.toNat (by omega)
    exact ⟨_, lead?_one (by omega), .nil, hb.symm⟩
  split at h
  · obtain ⟨rfl, rfl⟩ := List.cons.inj h
    have hb := @toNat_byte (c.toNat / 64 % 32 + 192) (by omega)
    have hx := @toNat_byte (c.toNat % 64 + 128) (by omega)
    refine ⟨_, lead?_two (by omega), .cons (mem_continuation.2 (by omega)) .nil, ?_⟩
    simp only [extend, List.foldl_cons, List.foldl_nil]
    omega
  split at h
  · obtain ⟨rfl, rfl⟩ := List.cons.inj h
    have hb := @toNat_byte (c.toNat / 4096 % 16 + 224) (by omega)
    have hx := @toNat_byte (c.toNat / 64 % 64 + 128) (by omega)
    have hy := @toNat_byte (c.toNat % 64 + 128) (by omega)
    refine ⟨_, lead?_three (by omega), .cons (mem_second.2 (by omega))
      (.cons (mem_continuation.2 (by omega)) .nil), ?_⟩
    simp only [extend, List.foldl_cons, List.foldl_nil]
    omega
  · obtain ⟨rfl, rfl⟩ := List.cons.inj h
    have hb := @toNat_byte (c.toNat / 262144 % 8 + 240) (by omega)
    have hx := @toNat_byte (c.toNat / 4096 % 64 + 128) (by omega)
    have hy := @toNat_byte (c.toNat / 64 % 64 + 128) (by omega)
    have hz := @toNat_byte (c.toNat % 64 + 128) (by omega)
    refine ⟨_, lead?_four (by omega), .cons (mem_second.2 (by omega))
      (.cons (mem_continuation.2 (by omega)) (.cons (mem_continuation.2 (by omega)) .nil)), ?_⟩
    simp only [extend, List.foldl_cons, List.foldl_nil]
    omega

/-- A first byte with the bytes that it announces, and their value, by the number of bytes. -/
theorem lead_cases {b : UInt8} {lead : Lead} {tail : List UInt8} (hlead : lead? b.toNat = some lead)
    (hfits : Fits lead.owed tail) :
    (tail = [] ∧ b.toNat ≤ 0x7F ∧ extend lead.bits tail = b.toNat) ∨
      (∃ x, tail = [x] ∧ (0xC2 ≤ b.toNat ∧ b.toNat ≤ 0xDF) ∧ x.toNat ∈ continuation ∧
        extend lead.bits tail = (b.toNat - 0xC0) * 64 + (x.toNat - 0x80)) ∨
      (∃ x y, tail = [x, y] ∧ (0xE0 ≤ b.toNat ∧ b.toNat ≤ 0xEF) ∧ x.toNat ∈ second b.toNat ∧
        y.toNat ∈ continuation ∧
        extend lead.bits tail =
          (b.toNat - 0xE0) * 4096 + (x.toNat - 0x80) * 64 + (y.toNat - 0x80)) ∨
      ∃ x y z, tail = [x, y, z] ∧ (0xF0 ≤ b.toNat ∧ b.toNat ≤ 0xF4) ∧ x.toNat ∈ second b.toNat ∧
        y.toNat ∈ continuation ∧ z.toNat ∈ continuation ∧
        extend lead.bits tail =
          (b.toNat - 0xF0) * 262144 + (x.toNat - 0x80) * 4096 + (y.toNat - 0x80) * 64 +
            (z.toNat - 0x80) := by
  rcases lead?_cases hlead with ⟨hb, rfl⟩ | ⟨hb, rfl⟩ | ⟨hb, rfl⟩ | ⟨hb, rfl⟩ <;>
    simp only [Fits, List.forall₂_cons_left_iff, List.forall₂_nil_left_iff] at hfits
  · subst hfits
    exact .inl ⟨rfl, hb, rfl⟩
  · obtain ⟨x, _, hx, rfl, rfl⟩ := hfits
    exact .inr (.inl ⟨x, rfl, hb, hx, rfl⟩)
  · obtain ⟨x, _, hx, ⟨y, _, hy, rfl, rfl⟩, rfl⟩ := hfits
    refine .inr (.inr (.inl ⟨x, y, rfl, hb, hx, hy, ?_⟩))
    simp only [extend, List.foldl_cons, List.foldl_nil]
    omega
  · obtain ⟨x, _, hx, ⟨y, _, hy, ⟨z, _, hz, rfl, rfl⟩, rfl⟩, rfl⟩ := hfits
    refine .inr (.inr (.inr ⟨x, y, z, rfl, hb, hx, hy, hz, ?_⟩))
    simp only [extend, List.foldl_cons, List.foldl_nil]
    omega

/-- Bytes that keep to what their first one announces have the value of a character. -/
theorem isValidChar_extend {b : UInt8} {lead : Lead} {tail : List UInt8}
    (hlead : lead? b.toNat = some lead) (hfits : Fits lead.owed tail) :
    (extend lead.bits tail).isValidChar := by
  rcases lead_cases hlead hfits with ⟨-, hb, hvalue⟩ | ⟨x, -, hb, hx, hvalue⟩ |
    ⟨x, y, -, hb, hx, hy, hvalue⟩ | ⟨x, y, z, -, hb, hx, hy, hz, hvalue⟩
  · rw [hvalue, Nat.isValidChar]
    omega
  · rw [mem_continuation] at hx
    rw [hvalue, Nat.isValidChar]
    omega
  · rw [mem_second] at hx
    rw [mem_continuation] at hy
    rw [hvalue, Nat.isValidChar]
    omega
  · rw [mem_second] at hx
    rw [mem_continuation] at hy hz
    rw [hvalue, Nat.isValidChar]
    omega

/-- Bytes that keep to what their first one announces are the encoding of their value. -/
theorem encodeChar_of_lead {c : Char} {b : UInt8} {lead : Lead} {tail : List UInt8}
    (hlead : lead? b.toNat = some lead) (hfits : Fits lead.owed tail)
    (hc : c.toNat = extend lead.bits tail) : String.utf8EncodeChar c = b :: tail := by
  rcases lead_cases hlead hfits with ⟨rfl, hb, hvalue⟩ | ⟨x, rfl, hb, hx, hvalue⟩ |
    ⟨x, y, rfl, hb, hx, hy, hvalue⟩ | ⟨x, y, z, rfl, hb, hx, hy, hz, hvalue⟩ <;>
    rw [hvalue] at hc <;> rw [encodeChar_eq]
  · rw [if_pos (by omega), byte_eq hc]
  · rw [mem_continuation] at hx
    rw [if_neg (by omega), if_pos (by omega), @byte_eq _ b (by omega), @byte_eq _ x (by omega)]
  · rw [mem_second] at hx
    rw [mem_continuation] at hy
    rw [if_neg (by omega), if_neg (by omega), if_pos (by omega), @byte_eq _ b (by omega),
      @byte_eq _ x (by omega), @byte_eq _ y (by omega)]
  · rw [mem_second] at hx
    rw [mem_continuation] at hy hz
    rw [if_neg (by omega), if_neg (by omega), if_neg (by omega), @byte_eq _ b (by omega),
      @byte_eq _ x (by omega), @byte_eq _ y (by omega), @byte_eq _ z (by omega)]

/-- A whole character at the start of bytes is its encoding, and what is left follows it. -/
theorem start_eq_whole_iff {b : UInt8} {bytes rest : List UInt8} {c : Char} {width : Nat} :
    start b bytes = .whole c width rest ↔
      b :: bytes = String.utf8EncodeChar c ++ rest ∧ width = (String.utf8EncodeChar c).length := by
  constructor
  · intro h
    unfold start at h
    split at h
    next => cases h
    next lead hlead =>
      obtain ⟨tail, rfl, hfits, rfl, rfl⟩ := follow_eq_whole_iff.1 h
      have hc := toNat_ofNat (isValidChar_extend hlead hfits)
      rw [encodeChar_of_lead hlead hfits hc, List.cons_append, List.length_cons, Nat.add_comm]
      exact ⟨rfl, rfl⟩
  · rintro ⟨hbytes, rfl⟩
    obtain ⟨b', tail, hchar⟩ := List.exists_cons_of_ne_nil (@String.utf8EncodeChar_ne_nil c)
    obtain ⟨lead, hlead, hfits, hc⟩ := encodeChar_lead hchar
    rw [hchar, List.cons_append] at hbytes
    obtain ⟨rfl, rfl⟩ := List.cons.inj hbytes
    rw [start, hlead]
    refine follow_eq_whole_iff.2 ⟨tail, rfl, hfits, ?_, ?_⟩
    · rw [← hc, Char.ofNat_toNat]
    · rw [hchar, List.length_cons, Nat.add_comm]

theorem decodeFrom_cons {index width : Nat} {b : UInt8} {bytes rest : List UInt8} {c : Char}
    (h : start b bytes = .whole c width rest) :
    decodeFrom index (b :: bytes) = (decodeFrom (index + width) rest).map (c :: ·) := by
  rw [decodeFrom]
  split <;> simp_all

theorem decodeFrom_encode (index : Nat) (t : Text) : decodeFrom index (encode t) = .ok t := by
  induction t generalizing index with
  | nil => rw [encode, List.flatMap_nil, decodeFrom]
  | cons c rest ih =>
    obtain ⟨b, tail, hchar⟩ := List.exists_cons_of_ne_nil (@String.utf8EncodeChar_ne_nil c)
    have hstart : start b (tail ++ encode rest) =
        .whole c (String.utf8EncodeChar c).length (encode rest) :=
      start_eq_whole_iff.2 ⟨by rw [hchar, List.cons_append], rfl⟩
    rw [encode_cons, hchar, List.cons_append, decodeFrom_cons hstart, ih]
    rfl

theorem encode_of_decodeFrom {index : Nat} {bytes : List UInt8} {t : Text}
    (h : decodeFrom index bytes = .ok t) : encode t = bytes := by
  fun_induction decodeFrom index bytes generalizing t with
  | case1 =>
    obtain rfl := Except.ok.inj h
    rfl
  | case2 index b bytes c width rest hstart ih =>
    cases hrest : decodeFrom (index + width) rest with
    | error flaw => simp [hrest, Except.map] at h
    | ok more =>
      rw [hrest] at h
      obtain rfl := Except.ok.inj h
      rw [encode_cons, ih hrest, ← (start_eq_whole_iff.1 hstart).1]
  | case3 => cases h
  | case4 => cases h

/-- Bytes are read as a text exactly when they are its encoding. -/
theorem decode_eq_ok_iff {bytes : List UInt8} {t : Text} : decode bytes = .ok t ↔ bytes = encode t :=
  ⟨fun h => (encode_of_decodeFrom h).symm, fun h => h ▸ decodeFrom_encode 0 t⟩

end ProcessorListing.Utf8
