import ProcessorListing.Proofs.Readings

/-!
# Where bytes cease to be a text

Bytes that are no text have a longest front that is one.  What follows it is either a part of a
character and then the end (`IsPart`), or begins with some bytes that could have begun a character,
perhaps none, and then one that cannot go on with it.  A flaw tells which, and where
(`decode_eq_error`, `Reading.outcome_flaw`).

This rests on what a first byte announces.  While the bytes after it keep to that, some character's
encoding begins so, since the intervals still owed all hold a byte (`follow_eq_short_iff`); the first
byte outside its interval rules out every character, whatever comes later (`follow_eq_broken`).
-/

namespace ProcessorListing

namespace Utf8

/-- Bytes that encode a text. -/
def IsText (bytes : List UInt8) : Prop := ∃ t, bytes = encode t

/-- Bytes with which the encoding of some character begins. -/
def Begins (bytes : List UInt8) : Prop := ∃ c, bytes <+: String.utf8EncodeChar c

/-- Bytes with which the encoding of some character begins, but does not end. -/
def IsPart (bytes : List UInt8) : Prop :=
  ∃ c, bytes <+: String.utf8EncodeChar c ∧ bytes ≠ String.utf8EncodeChar c

/-- The longest front of some bytes that has a property. -/
structure IsLongest (p : List UInt8 → Prop) (bytes front : List UInt8) : Prop where
  isPrefix : front <+: bytes
  holds : p front
  length_le : ∀ other, other <+: bytes → p other → other.length ≤ front.length

/-! ## The start of a character -/

/-- Every interval that a first byte announces holds a byte. -/
theorem exists_byte_of_lead? {b : Nat} {lead : Lead} (h : lead? b = some lead) :
    ∀ i ∈ lead.owed, ∃ x : UInt8, x.toNat ∈ i := by
  have hcontinuation : ∃ x : UInt8, x.toNat ∈ continuation := ⟨0x80, by decide⟩
  have hsecond : ∃ x : UInt8, x.toNat ∈ second b := by
    unfold second
    split
    · exact ⟨0xA0, by decide⟩
    split
    · exact ⟨0x80, by decide⟩
    split
    · exact ⟨0x90, by decide⟩
    split
    · exact ⟨0x80, by decide⟩
    · exact hcontinuation
  rcases lead?_cases h with ⟨-, rfl⟩ | ⟨-, rfl⟩ | ⟨-, rfl⟩ | ⟨-, rfl⟩ <;>
    simp [hcontinuation, hsecond]

theorem exists_fits {owed : List Interval} (h : ∀ i ∈ owed, ∃ x : UInt8, x.toNat ∈ i) :
    ∃ tail, Fits owed tail := by
  induction owed with
  | nil => exact ⟨[], .nil⟩
  | cons i rest ih =>
    obtain ⟨x, hx⟩ := h i (by simp)
    obtain ⟨tail, htail⟩ := ih fun j hj => h j (by simp [hj])
    exact ⟨x :: tail, .cons hx htail⟩

/-- The bytes end early exactly if more of them could have gone on with the character to its end. -/
theorem follow_eq_short_iff {value seen : Nat} {owed : List Interval} {bytes : List UInt8}
    (h : ∀ i ∈ owed, ∃ x : UInt8, x.toNat ∈ i) :
    follow value seen owed bytes = .short ↔ ∃ more, more ≠ [] ∧ Fits owed (bytes ++ more) := by
  fun_induction follow value seen owed bytes with
  | case1 value seen bytes =>
    refine ⟨(by rintro ⟨⟩), ?_⟩
    rintro ⟨more, hne, hfits⟩
    have hnil := (List.append_eq_nil_iff.1 (List.forall₂_nil_left_iff.1 hfits)).2
    exact absurd hnil hne
  | case2 value seen interval owed =>
    refine ⟨fun _ => ?_, fun _ => rfl⟩
    obtain ⟨tail, htail⟩ := exists_fits h
    refine ⟨tail, ?_, htail⟩
    rintro rfl
    cases htail
  | case3 value seen interval owed b bytes hb ih =>
    rw [ih fun i hi => h i (by simp [hi])]
    simp only [List.cons_append, Fits, List.forall₂_cons, hb, true_and]
  | case4 value seen interval owed b bytes hb =>
    refine ⟨(by rintro ⟨⟩), ?_⟩
    rintro ⟨more, -, hfits⟩
    exact absurd (List.forall₂_cons.1 hfits).1 hb

/-- The first byte outside its interval decides: before it the bytes could have gone on, and with it
they cannot, whatever comes later. -/
theorem follow_eq_broken {value seen length : Nat} {owed : List Interval} {bytes : List UInt8}
    (h : follow value seen owed bytes = .broken length) :
    ∃ begun x rest, bytes = begun ++ x :: rest ∧ length = seen + begun.length ∧
      follow value seen owed begun = .short ∧
      ∀ later, follow value seen owed (begun ++ x :: later) = .broken length := by
  fun_induction follow value seen owed bytes with
  | case1 => cases h
  | case2 => cases h
  | case3 value seen interval owed b bytes hb ih =>
    obtain ⟨begun, x, rest, rfl, rfl, hshort, hbroken⟩ := ih h
    refine ⟨b :: begun, x, rest, rfl, by rw [List.length_cons]; omega, ?_, fun later => ?_⟩
    · rw [follow, if_pos hb, hshort]
    · rw [List.cons_append, follow, if_pos hb, hbroken]
  | case4 value seen interval owed b bytes hb =>
    obtain rfl := Start.broken.inj h
    exact ⟨[], b, bytes, rfl, rfl, rfl, fun later => by rw [List.nil_append, follow, if_neg hb]⟩

variable {b : UInt8} {bytes : List UInt8}

/-- Bytes end inside a character exactly if they are a part of one. -/
theorem start_eq_short_iff : start b bytes = .short ↔ IsPart (b :: bytes) := by
  constructor
  · intro h
    unfold start at h
    split at h
    next => cases h
    next lead hlead =>
      obtain ⟨more, hne, hfits⟩ := (follow_eq_short_iff (exists_byte_of_lead? hlead)).1 h
      have hchar := encodeChar_of_lead hlead hfits (toNat_ofNat (isValidChar_extend hlead hfits))
      refine ⟨Char.ofNat (extend lead.bits (bytes ++ more)), ⟨more, hchar.symm⟩, fun heq => hne ?_⟩
      simpa [hchar] using heq
  · rintro ⟨c, ⟨more, hmore⟩, hne⟩
    obtain ⟨lead, hlead, hfits, -⟩ := encodeChar_lead hmore.symm
    rw [start, hlead]
    refine (follow_eq_short_iff (exists_byte_of_lead? hlead)).2 ⟨more, ?_, hfits⟩
    rintro rfl
    exact hne (by rw [← hmore, List.append_nil])

/-- Bytes with which a character begins do not break off. -/
theorem start_ne_broken (h : Begins (b :: bytes)) (length : Nat) :
    start b bytes ≠ .broken length := by
  obtain ⟨c, hc⟩ := h
  by_cases heq : b :: bytes = String.utf8EncodeChar c
  · have hwhole := start_eq_whole_iff.2 ⟨heq.trans (List.append_nil _).symm, rfl⟩
    rw [hwhole]
    rintro ⟨⟩
  · rw [start_eq_short_iff.2 ⟨c, hc, heq⟩]
    rintro ⟨⟩

/-- A front with which a character begins is empty, or begins as the bytes do and does not break off. -/
theorem Begins.eq_nil_or {front : List UInt8} (h : Begins front) (hfront : front <+: b :: bytes) :
    front = [] ∨ ∃ tail, front = b :: tail ∧ tail <+: bytes ∧ ∀ n, start b tail ≠ .broken n := by
  cases front with
  | nil => exact .inl rfl
  | cons x tail =>
    obtain ⟨rfl, htail⟩ := List.cons_prefix_cons.1 hfront
    exact .inr ⟨tail, rfl, htail, start_ne_broken h⟩

/-- Where bytes break off, the number counts all that could have begun a character, and at least one. -/
theorem isLongest_of_broken {length : Nat} (h : start b bytes = .broken length) :
    ∃ begun, IsLongest Begins (b :: bytes) begun ∧ length = max 1 begun.length := by
  cases hlead : lead? b.toNat with
  | none =>
    have hbroken : ∀ tail, start b tail = .broken 1 := fun tail => by rw [start, hlead]
    obtain rfl := Start.broken.inj ((hbroken bytes).symm.trans h)
    refine ⟨[], ⟨List.nil_prefix, ⟨'a', List.nil_prefix⟩, fun other hfront hbegins => ?_⟩, rfl⟩
    rcases hbegins.eq_nil_or hfront with rfl | ⟨tail, -, -, hne⟩
    · exact Nat.le_refl _
    · exact absurd (hbroken tail) (hne 1)
  | some lead =>
    have hstart : ∀ tail, start b tail = follow lead.bits 1 lead.owed tail := fun tail => by
      rw [start, hlead]
    obtain ⟨begun, x, rest, rfl, rfl, hshort, hbroken⟩ :=
      follow_eq_broken ((hstart bytes).symm.trans h)
    obtain ⟨c, hc, -⟩ := start_eq_short_iff.1 ((hstart begun).trans hshort)
    refine ⟨b :: begun, ⟨?_, ⟨c, hc⟩, fun other hfront hbegins => ?_⟩, ?_⟩
    · exact List.cons_prefix_cons.2 ⟨rfl, List.prefix_append _ _⟩
    · rcases hbegins.eq_nil_or hfront with rfl | ⟨tail, rfl, htail, hne⟩
      · exact Nat.zero_le _
      · refine Nat.le_of_not_lt fun hlonger => ?_
        have hnext : begun ++ [x] <+: begun ++ x :: rest := ⟨rest, by simp⟩
        have hlength : (begun ++ [x]).length ≤ tail.length := by
          simp only [List.length_append, List.length_cons, List.length_nil] at hlonger ⊢
          omega
        obtain ⟨later, rfl⟩ := List.prefix_of_prefix_length_le hnext htail hlength
        refine hne (1 + begun.length) ((hstart _).trans ?_)
        rw [List.append_assoc, List.singleton_append, hbroken later]
    · rw [List.length_cons]
      omega

/-! ## The end of the text -/

/-- Bytes that begin no whole character begin no text but the empty one. -/
theorem isLongest_nil (h : ∀ c width rest, start b bytes ≠ .whole c width rest) :
    IsLongest IsText (b :: bytes) [] := by
  refine ⟨List.nil_prefix, ⟨[], rfl⟩, ?_⟩
  rintro other ⟨more, hmore⟩ ⟨t, rfl⟩
  cases t with
  | nil => exact Nat.le_refl _
  | cons c rest =>
    rw [encode_cons, List.append_assoc] at hmore
    exact absurd (start_eq_whole_iff.2 ⟨hmore.symm, rfl⟩) (h c _ _)

/-- A character put in front of bytes is put in front of their longest text. -/
theorem IsLongest.cons_char {front : List UInt8} (h : IsLongest IsText bytes front) (c : Char) :
    IsLongest IsText (String.utf8EncodeChar c ++ bytes) (String.utf8EncodeChar c ++ front) := by
  obtain ⟨hfront, ⟨t, rfl⟩, hle⟩ := h
  refine ⟨(List.prefix_append_right_inj _).2 hfront, ⟨c :: t, (encode_cons c t).symm⟩, ?_⟩
  rintro other ⟨more, hmore⟩ ⟨u, rfl⟩
  cases u with
  | nil => exact Nat.zero_le _
  | cons d rest =>
    rw [encode_cons, List.append_assoc] at hmore
    obtain ⟨b, tail, hchar⟩ := List.exists_cons_of_ne_nil (@String.utf8EncodeChar_ne_nil c)
    -- The same bytes start with both characters, so the characters and what follows are the same.
    have hc : start b (tail ++ bytes) = .whole c _ bytes :=
      start_eq_whole_iff.2 ⟨by rw [hchar, List.cons_append], rfl⟩
    have hd : start b (tail ++ bytes) = .whole d _ (encode rest ++ more) :=
      start_eq_whole_iff.2 ⟨by rw [hmore, hchar, List.cons_append], rfl⟩
    obtain ⟨rfl, -, hrest⟩ := Start.whole.inj (hc.symm.trans hd)
    have hlength := hle (encode rest) ⟨more, hrest.symm⟩ ⟨rest, rfl⟩
    rw [encode_cons, List.length_append, List.length_append]
    omega

/-- A flaw that is found in front of `rest`, at this index. -/
inductive Flaw.Describes (rest : List UInt8) (index : Nat) : Flaw → Prop
  | incomplete : IsPart rest → Describes rest index (.incomplete index)
  | invalid {begun : List UInt8} : ¬ IsPart rest → IsLongest Begins rest begun →
      Describes rest index (.invalid (max 1 begun.length) index)

/-- What decoding complains of stands right after the longest front that is a text. -/
theorem decodeFrom_eq_error {index : Nat} {flaw : Flaw} (h : decodeFrom index bytes = .error flaw) :
    ∃ front rest, front ++ rest = bytes ∧ IsLongest IsText bytes front ∧
      flaw.Describes rest (index + front.length) := by
  fun_induction decodeFrom index bytes with
  | case1 => cases h
  | case2 index b bytes c width rest hstart ih =>
    cases hrest : decodeFrom (index + width) rest with
    | ok more => simp [hrest, Except.map] at h
    | error flaw' =>
      rw [hrest] at h
      obtain rfl := Except.error.inj h
      obtain ⟨front, rest', rfl, hlongest, hflaw⟩ := ih hrest
      obtain ⟨hbytes, rfl⟩ := start_eq_whole_iff.1 hstart
      rw [hbytes]
      refine ⟨_, rest', List.append_assoc _ _ _, hlongest.cons_char c, ?_⟩
      rwa [List.length_append, ← Nat.add_assoc]
  | case3 index b bytes length hstart =>
    obtain rfl := Except.error.inj h
    obtain ⟨begun, hbegun, rfl⟩ := isLongest_of_broken hstart
    have hpart : ¬ IsPart (b :: bytes) := fun hpart => by
      rw [start_eq_short_iff.2 hpart] at hstart
      cases hstart
    exact ⟨[], b :: bytes, rfl, isLongest_nil (by simp [hstart]), .invalid hpart hbegun⟩
  | case4 index b bytes hstart =>
    obtain rfl := Except.error.inj h
    exact ⟨[], b :: bytes, rfl, isLongest_nil (by simp [hstart]),
      .incomplete (start_eq_short_iff.1 hstart)⟩

theorem decode_eq_error {flaw : Flaw} (h : decode bytes = .error flaw) :
    ∃ front rest, front ++ rest = bytes ∧ IsLongest IsText bytes front ∧
      flaw.Describes rest front.length := by
  obtain ⟨front, rest, hbytes, hlongest, hflaw⟩ := decodeFrom_eq_error h
  rw [Nat.zero_add] at hflaw
  exact ⟨front, rest, hbytes, hlongest, hflaw⟩

end Utf8

namespace Reading

open Utf8

/-- **A flaw in the bytes is told where it is.**  Bytes of a listing that are read to the end are
summarized exactly if they encode a text.  If they do not, the notice names as index the length of
their longest front that encodes a text.  It calls the bytes incomplete exactly if what follows this
front is a part of a character, and the end; otherwise it gives as their number the length of the
longest front of what follows with which some character begins, and one if that is empty. -/
theorem outcome_flaw (a : Architecture) (deliveries : List Delivery)
    (hread : deliveries.findSome? Delivery.reason? = none) :
    let bytes := deliveries.flatMap Delivery.content
    let outcome := (ofDeliveries a.name deliveries).outcome
    ((∃ summary, outcome = .ok summary) ↔ IsText bytes) ∧
    (¬ IsText bytes → ∃ front rest fault details,
      front ++ rest = bytes ∧ IsLongest IsText bytes front ∧
      outcome = .error fault ∧ fault.notice = ⟨.source, .invalidUtf8, some details⟩ ∧
      (IsPart rest → details =
        "incomplete utf-8 byte sequence from index ".toList ++ Text.ofNat front.length) ∧
      (¬ IsPart rest → ∃ begun, IsLongest Begins rest begun ∧ details =
        "invalid utf-8 sequence of ".toList ++ Text.ofNat (max 1 begun.length) ++
          " bytes from index ".toList ++ Text.ofNat front.length)) := by
  intro bytes outcome
  have houtcome : outcome = Summary.ofBytes a bytes := by
    have hname := outcome_ofDeliveries_name a deliveries
    rwa [hread] at hname
  rw [houtcome]
  have hinvalid : ¬ IsText bytes → ∃ flaw, decode bytes = .error flaw ∧
      Summary.ofBytes a bytes = .error (.invalidUtf8 flaw) :=
    fun hne => Summary.ofBytes_of_forall_ne fun t ht => hne ⟨t, ht⟩
  refine ⟨⟨fun ⟨summary, hok⟩ => ?_, ?_⟩, fun hne => ?_⟩
  · refine Classical.byContradiction fun hne => ?_
    obtain ⟨flaw, -, herror⟩ := hinvalid hne
    rw [hok] at herror
    cases herror
  · rintro ⟨t, ht⟩
    exact ⟨_, ht ▸ Summary.ofBytes_encode a t⟩
  · obtain ⟨flaw, hdecode, herror⟩ := hinvalid hne
    obtain ⟨front, rest, hbytes, hlongest, hflaw⟩ := decode_eq_error hdecode
    refine ⟨front, rest, _, flaw.message, hbytes, hlongest, herror, rfl, fun hpart => ?_,
      fun hpart => ?_⟩
    · cases hflaw with
      | incomplete => rfl
      | invalid hnot => exact absurd hpart hnot
    · cases hflaw with
      | incomplete h => exact absurd h hpart
      | invalid _ hbegun => exact ⟨_, hbegun, rfl⟩

/-- A character that breaks off after two of its four bytes, in two deliveries. -/
theorem outcome_flaw_broken :
    [Delivery.bytes [0x61, 0xF0], .bytes [0x90, 0x41]].findSome? Delivery.reason? = none ∧
    ¬ IsText [0x61, 0xF0, 0x90, 0x41] ∧
    ∃ front rest begun,
      front ++ rest = [0x61, 0xF0, 0x90, 0x41] ∧ IsLongest IsText [0x61, 0xF0, 0x90, 0x41] front ∧
      ¬ IsPart rest ∧ IsLongest Begins rest begun ∧
      "invalid utf-8 sequence of 2 bytes from index 1".toList =
        "invalid utf-8 sequence of ".toList ++ Text.ofNat (max 1 begun.length) ++
          " bytes from index ".toList ++ Text.ofNat front.length := by
  have hread : [Delivery.bytes [0x61, 0xF0], .bytes [0x90, 0x41]].findSome? Delivery.reason? =
      none := by decide
  have hdecode : decode [0x61, 0xF0, 0x90, 0x41] = .error (.invalid 2 1) := by decide +kernel
  have hne : ¬ IsText [0x61, 0xF0, 0x90, 0x41] := by
    rintro ⟨t, ht⟩
    rw [decode_eq_ok_iff.2 ht] at hdecode
    cases hdecode
  obtain ⟨front, rest, fault, details, hbytes, hlongest, hfault, hnotice, hpart, hbroken⟩ :=
    (outcome_flaw .ppc64 _ hread).2 hne
  have houtcome : (ofDeliveries Architecture.ppc64.name
      [.bytes [0x61, 0xF0], .bytes [0x90, 0x41]]).outcome =
        .error (.invalidUtf8 (.invalid 2 1)) := by decide +kernel
  obtain rfl := Except.error.inj (houtcome.symm.trans hfault)
  have hmessage : (Fault.invalidUtf8 (.invalid 2 1)).notice = ⟨.source, .invalidUtf8,
      some "invalid utf-8 sequence of 2 bytes from index 1".toList⟩ := by decide +kernel
  obtain ⟨-, -, hdetails⟩ := Notice.mk.inj (hmessage.symm.trans hnotice)
  obtain rfl := Option.some.inj hdetails
  have hnot : ¬ IsPart rest := fun h => by simpa using hpart h
  obtain ⟨begun, hbegun, htext⟩ := hbroken hnot
  exact ⟨hread, hne, front, rest, begun, hbytes, hlongest, hnot, hbegun, htext⟩

end Reading

end ProcessorListing
