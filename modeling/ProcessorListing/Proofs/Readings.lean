import ProcessorListing.Reading
import ProcessorListing.Proofs.Utf8

/-!
# Reading to the end

What a reading comes to depends on two things only: the first failure that is not an interruption,
and the bytes that are delivered, put one after the other.  `content_drain` says so of the bytes, by
a step for each delivery, and `Reading.outcome_ofDeliveries` of the whole reading: the architecture
is looked up before anything is read, a failure comes before a flaw in the bytes, and where neither
is found the summary is that of the text which the bytes encode.
-/

namespace ProcessorListing

/-- The reason for which a delivery ends the reading, if it does. -/
def Delivery.reason? : Delivery → Option Text
  | .bytes _ => none
  | .failure .interrupted _ => none
  | .failure kind message => some (message.getD kind.message)

/-- The bytes that a delivery brings. -/
def Delivery.content : Delivery → List UInt8
  | .bytes piece => piece
  | .failure _ _ => []

theorem content_drain_cons (d : Delivery) (more : List Delivery) :
    (drain (d :: more)).content =
      match d.reason? with
      | some reason => .error reason
      | none => (drain more).content.map (d.content ++ ·) := by
  cases d with
  | bytes piece => rfl
  | failure kind message =>
    cases kind with
    | interrupted =>
      simp only [drain, Delivery.reason?, Delivery.content]
      cases (drain more).content <;> rfl
    | _ => rfl

/-- The first delivery that ends the reading decides; if there is none, all bytes are read. -/
theorem content_drain (deliveries : List Delivery) :
    (drain deliveries).content =
      match deliveries.findSome? Delivery.reason? with
      | some reason => .error reason
      | none => .ok (deliveries.flatMap Delivery.content) := by
  induction deliveries with
  | nil => rfl
  | cons d more ih =>
    rw [content_drain_cons, List.findSome?_cons]
    cases d.reason? with
    | some reason => rfl
    | none =>
      rw [ih]
      cases more.findSome? Delivery.reason? <;> rfl

theorem reads_drain_ne_zero (deliveries : List Delivery) : (drain deliveries).reads ≠ 0 := by
  unfold drain
  split <;> simp

namespace Architecture

theorem ofName?_eq_none_iff {id : Text} : ofName? id = none ↔ ∀ a : Architecture, a.name ≠ id := by
  constructor
  · rintro h a rfl
    simp [ofName?_name] at h
  · intro h
    cases hfound : ofName? id with
    | none => rfl
    | some a => exact absurd (name_of_ofName? hfound) (h a)

end Architecture

namespace Summary

theorem ofListing_name (a : Architecture) (t : Text) : ofListing a.name t = .ok (.ofText a t) := by
  rw [ofListing, Architecture.ofName?_name]

theorem ofBytes_encode (a : Architecture) (t : Text) :
    ofBytes a (Utf8.encode t) = .ok (.ofText a t) := by
  rw [ofBytes, Utf8.decode_eq_ok_iff.2 rfl]

theorem ofBytes_of_forall_ne {a : Architecture} {bytes : List UInt8}
    (h : ∀ t, bytes ≠ Utf8.encode t) :
    ∃ flaw, Utf8.decode bytes = .error flaw ∧ ofBytes a bytes = .error (.invalidUtf8 flaw) := by
  cases hdecode : Utf8.decode bytes with
  | ok t => exact absurd (Utf8.decode_eq_ok_iff.1 hdecode) (h t)
  | error flaw => exact ⟨flaw, rfl, by rw [ofBytes, hdecode]⟩

end Summary

namespace Reading

theorem ofDeliveries_of_ne {id : Text} (h : ∀ a : Architecture, a.name ≠ id)
    (deliveries : List Delivery) :
    ofDeliveries id deliveries = ⟨.error (.unsupportedArchitecture id), 0⟩ := by
  rw [ofDeliveries, Architecture.ofName?_eq_none_iff.2 h]

theorem reads_ofDeliveries_name (a : Architecture) (deliveries : List Delivery) :
    (ofDeliveries a.name deliveries).reads = (drain deliveries).reads := by
  rw [ofDeliveries, Architecture.ofName?_name]
  dsimp only
  cases (drain deliveries).content <;> rfl

theorem outcome_ofDeliveries_name (a : Architecture) (deliveries : List Delivery) :
    (ofDeliveries a.name deliveries).outcome =
      match deliveries.findSome? Delivery.reason? with
      | some reason => .error (.sourceUnavailable reason)
      | none => Summary.ofBytes a (deliveries.flatMap Delivery.content) := by
  rw [ofDeliveries, Architecture.ofName?_name]
  dsimp only
  rw [content_drain]
  cases deliveries.findSome? Delivery.reason? <;> rfl

/-- Deliveries with the same reason to stop, or with none and the same bytes, are read alike. -/
theorem outcome_congr (id : Text) {deliveries deliveries' : List Delivery}
    (hreason : deliveries'.findSome? Delivery.reason? = deliveries.findSome? Delivery.reason?)
    (hcontent : deliveries.findSome? Delivery.reason? = none →
      deliveries'.flatMap Delivery.content = deliveries.flatMap Delivery.content) :
    (ofDeliveries id deliveries').outcome = (ofDeliveries id deliveries).outcome := by
  by_cases hid : ∃ a : Architecture, a.name = id
  · obtain ⟨a, rfl⟩ := hid
    rw [outcome_ofDeliveries_name, outcome_ofDeliveries_name, hreason]
    cases hfound : deliveries.findSome? Delivery.reason? with
    | some reason => rfl
    | none => rw [hcontent hfound]
  · rw [not_exists] at hid
    rw [ofDeliveries_of_ne hid, ofDeliveries_of_ne hid]

/-- **Reading is summarizing what is read.**  For an identifier without a dialect nothing is read
and the reading fails for that reason.  For any other one, the first failure that is not an
interruption is the outcome, whatever else is delivered before and after it; without such a failure,
bytes that encode no text are refused, and bytes that encode a text give the summary of this text.
So neither the places where the bytes are cut nor the interruptions show in the outcome. -/
theorem outcome_ofDeliveries (id : Text) (deliveries : List Delivery) :
    let reading := ofDeliveries id deliveries
    let content := deliveries.flatMap Delivery.content
    ((∀ a : Architecture, a.name ≠ id) →
      reading.outcome = .error (.unsupportedArchitecture id) ∧ reading.reads = 0) ∧
    (∀ a : Architecture, a.name = id →
      reading.reads ≠ 0 ∧
      (∀ reason, deliveries.findSome? Delivery.reason? = some reason →
        reading.outcome = .error (.sourceUnavailable reason)) ∧
      (deliveries.findSome? Delivery.reason? = none →
        ((∀ t, content ≠ Utf8.encode t) → ∃ flaw, Utf8.decode content = .error flaw ∧
          reading.outcome = .error (.invalidUtf8 flaw)) ∧
        ∀ t, content = Utf8.encode t →
          reading.outcome = .ok (.ofText a t) ∧ Summary.ofListing id t = .ok (.ofText a t))) ∧
    ∀ deliveries' : List Delivery,
      deliveries'.findSome? Delivery.reason? = deliveries.findSome? Delivery.reason? →
      (deliveries.findSome? Delivery.reason? = none →
        deliveries'.flatMap Delivery.content = content) →
      (ofDeliveries id deliveries').outcome = reading.outcome := by
  intro reading content
  refine ⟨fun hid => ?_, ?_, fun deliveries' => outcome_congr id⟩
  · have hreading : reading = ⟨.error (.unsupportedArchitecture id), 0⟩ :=
      ofDeliveries_of_ne hid deliveries
    rw [hreading]
    exact ⟨rfl, rfl⟩
  · rintro a rfl
    have hreads : reading.reads = (drain deliveries).reads := reads_ofDeliveries_name a deliveries
    have houtcome := outcome_ofDeliveries_name a deliveries
    refine ⟨hreads ▸ reads_drain_ne_zero deliveries, fun reason hreason => ?_, fun hnone => ?_⟩
    · rw [hreason] at houtcome
      exact houtcome
    · rw [hnone] at houtcome
      have hbytes : reading.outcome = Summary.ofBytes a content := houtcome
      refine ⟨fun hinvalid => ?_, fun t ht => ?_⟩
      · rw [hbytes]
        exact Summary.ofBytes_of_forall_ne hinvalid
      · rw [hbytes, ht]
        exact ⟨Summary.ofBytes_encode a t, Summary.ofListing_name a t⟩

/-- A listing that is cut inside a character and inside a line end, with an interruption between the
two; bytes that end inside a character; a failure after bytes of no text and before another failure;
and an identifier without a dialect. -/
theorem outcome_ofDeliveries_cut :
    (ofDeliveries "x86_64".toList
        [.bytes [0x61, 0x3A, 0xC3], .failure .interrupted none, .bytes [0xA9, 0x0D],
          .bytes [0x0A, 0x62, 0x3A]]).outcome = .ok (.ofText .x86_64 "a:é\r\nb:".toList) ∧
    (ofDeliveries "x86_64".toList [.bytes [0x61, 0x3A, 0xC3, 0xA9, 0x0D, 0x0A, 0x62, 0x3A]]).outcome =
      (ofDeliveries "x86_64".toList
        [.bytes [0x61, 0x3A, 0xC3], .failure .interrupted none, .bytes [0xA9, 0x0D],
          .bytes [0x0A, 0x62, 0x3A]]).outcome ∧
    (∃ flaw, (ofDeliveries "ppc64".toList [.bytes [0x61], .bytes [0xC3]]).outcome =
      .error (.invalidUtf8 flaw)) ∧
    (ofDeliveries "aarch64".toList
        [.bytes [0xFF], .failure .interrupted none, .failure .timedOut none,
          .failure .other (some "lost".toList)]).outcome =
      .error (.sourceUnavailable "timed out".toList) ∧
    (ofDeliveries "s390x".toList [.failure .other none]).reads = 0 := by
  have hcut := outcome_ofDeliveries "x86_64".toList
    [.bytes [0x61, 0x3A, 0xC3], .failure .interrupted none, .bytes [0xA9, 0x0D],
      .bytes [0x0A, 0x62, 0x3A]]
  have hshort := outcome_ofDeliveries "ppc64".toList [.bytes [0x61], .bytes [0xC3]]
  have hfailed := outcome_ofDeliveries "aarch64".toList
    [.bytes [0xFF], .failure .interrupted none, .failure .timedOut none,
      .failure .other (some "lost".toList)]
  have hunknown := outcome_ofDeliveries "s390x".toList [.failure .other none]
  refine ⟨?_, hcut.2.2 _ (by decide) (by decide), ?_, ?_, ?_⟩
  · exact (((hcut.2.1 .x86_64 (by decide)).2.2 (by decide)).2 _ (by decide +kernel)).1
  · have hdecode : Utf8.decode [0x61, 0xC3] = .error (.incomplete 1) := by decide +kernel
    have hnone : ∀ t, [0x61, 0xC3] ≠ Utf8.encode t := fun t ht => by
      simp [Utf8.decode_eq_ok_iff.2 ht] at hdecode
    obtain ⟨flaw, -, hflaw⟩ := ((hshort.2.1 .ppc64 (by decide)).2.2 (by decide)).1 hnone
    exact ⟨flaw, hflaw⟩
  · exact (hfailed.2.1 .aarch64 (by decide)).2.1 _ (by decide)
  · exact (hunknown.1 fun a => by cases a <;> decide).2

end Reading

end ProcessorListing
