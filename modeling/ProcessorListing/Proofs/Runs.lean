import ProcessorListing.CommandLine.Run
import ProcessorListing.Proofs.Arguments
import ProcessorListing.Proofs.Readings

/-!
# How a run ends

A run opens its source, asks for the architecture, reads, and makes out the text.  The first of
these that fails decides how the run ends, whatever would have come of the later ones.  Nothing is
assumed of what surrounds the run: every path may be opened or refused with any error, and every
reading may deliver whatever it likes.  After opening, a run sees nothing of its source but what the
reading delivers (`Surroundings.run_of_opened`), so the same bytes come to the same wherever they
stood.
-/

namespace ProcessorListing

/-- The run succeeds and prints `text`. -/
structure Outcome.Prints (o : Outcome) (text : Text) : Prop where
  code : o.code = 0
  output : o.output = text
  complaint : o.complaint = []

/-- The run fails with a message of what was being done and what went wrong, and prints nothing. -/
structure Outcome.Fails (o : Outcome) (context cause : Text) : Prop where
  code : o.code = 1
  output : o.output = []
  complaint : o.complaint =
    "Error: ".toList ++ context ++ "\n\nCaused by:\n".toList ++ Failure.indented cause ++ ['\n']

theorem Outcome.prints_printed (text : Text) : (Outcome.printed text).Prints text :=
  ⟨rfl, rfl, rfl⟩

theorem Outcome.fails_failed (f : Failure) : (Outcome.failed f).Fails f.context f.cause :=
  ⟨rfl, rfl, rfl⟩

namespace Request

variable {r : Request} {deliveries : List Delivery}

/-- What was being done when a run fails after opening. -/
def context (r : Request) : Text :=
  "parsing ".toList ++ r.source.shown ++ " as ".toList ++ r.architecture

theorem finish_prints {s : Summary}
    (h : (Reading.ofDeliveries r.architecture deliveries).outcome = .ok s) :
    (r.finish deliveries).Prints (r.format.render s) := by
  rw [finish, h]
  exact Outcome.prints_printed _

theorem finish_fails {fault : Fault}
    (h : (Reading.ofDeliveries r.architecture deliveries).outcome = .error fault) :
    (r.finish deliveries).Fails r.context fault.message := by
  rw [finish, h]
  exact Outcome.fails_failed _

/-- For an architecture without a dialect it makes no difference what could be read. -/
theorem finish_of_forall_ne (h : ∀ a : Architecture, a.name ≠ r.architecture)
    (deliveries deliveries' : List Delivery) : r.finish deliveries = r.finish deliveries' := by
  rw [finish, finish, Reading.ofDeliveries_of_ne h, Reading.ofDeliveries_of_ne h]

/-- For one architecture and one format, deliveries that are read alike come to the same text or
cause. -/
theorem finish_alike {r' : Request} (harchitecture : r'.architecture = r.architecture)
    (hformat : r'.format = r.format) {deliveries' : List Delivery}
    (hreason : deliveries'.findSome? Delivery.reason? = deliveries.findSome? Delivery.reason?)
    (hcontent : deliveries.findSome? Delivery.reason? = none →
      deliveries'.flatMap Delivery.content = deliveries.flatMap Delivery.content) :
    (∃ text, (r.finish deliveries).Prints text ∧ (r'.finish deliveries').Prints text) ∨
      ∃ cause, (r.finish deliveries).Fails r.context cause ∧
        (r'.finish deliveries').Fails r'.context cause := by
  have halike : (Reading.ofDeliveries r'.architecture deliveries').outcome =
      (Reading.ofDeliveries r.architecture deliveries).outcome := by
    rw [harchitecture]
    exact Reading.outcome_congr _ hreason hcontent
  cases hreading : (Reading.ofDeliveries r.architecture deliveries).outcome with
  | ok s =>
    have hprints := finish_prints (halike.trans hreading)
    rw [hformat] at hprints
    exact .inl ⟨_, finish_prints hreading, hprints⟩
  | error fault =>
    exact .inr ⟨_, finish_fails hreading, finish_fails (halike.trans hreading)⟩

end Request

namespace World

theorem opened_of_ok {w : World} {path : Text} {node : Node}
    (h : w.tree.resolve w.here path = .ok node) :
    (w.surroundings.opened (.file path)).run = .ok node.deliveries := by
  show ((w.tree.resolve w.here path).map Node.deliveries).mapError _ = _
  rw [h]
  rfl

theorem opened_of_error {w : World} {path : Text} {e : SystemError}
    (h : w.tree.resolve w.here path = .error e) :
    (w.surroundings.opened (.file path)).run = .error (.opening path e) := by
  show ((w.tree.resolve w.here path).map Node.deliveries).mapError _ = _
  rw [h]
  rfl

end World

namespace Surroundings

variable {s : Surroundings Id} {arguments : List Text} {r : Request}

theorem exists_of_opened_eq_error {source : Source} {failure : Failure}
    (h : (s.opened source).run = .error failure) :
    ∃ path e, source = .file path ∧ (s.openFile path).run = .error e ∧
      failure = .opening path e := by
  cases source with
  | standardInput => contradiction
  | file path =>
    have hmap : ((s.openFile path).run.mapError (Failure.opening path)) = .error failure := h
    cases hfile : (s.openFile path).run with
    | ok reading =>
      rw [hfile] at hmap
      contradiction
    | error e =>
      rw [hfile] at hmap
      cases hmap
      exact ⟨path, e, rfl, hfile, rfl⟩

/-- A run whose source cannot be opened ends there. -/
theorem run_of_error (h : Request.ofArguments? s.environment.run arguments = some r)
    {failure : Failure} (hopened : (s.opened r.source).run = .error failure) :
    (s.run arguments).run = .failed failure := by
  simp only [run, Id.run_bind, h, hopened, Id.run_pure]

/-- After opening, a run sees nothing of its source but what reading it delivers. -/
theorem run_of_opened (h : Request.ofArguments? s.environment.run arguments = some r)
    {reading : Id (List Delivery)} (hopened : (s.opened r.source).run = .ok reading) :
    (s.run arguments).run = r.finish reading.run := by
  have hrun : (s.run arguments).run =
      r.finish (if (Architecture.ofName? r.architecture).isSome then reading.run else []) := by
    simp only [run, Id.run_bind, h, hopened]
    split <;> rfl
  rw [hrun]
  cases hname : Architecture.ofName? r.architecture with
  | some a => rfl
  | none =>
    apply Request.finish_of_forall_ne
    exact Architecture.ofName?_eq_none_iff.1 hname

/-- **The first stage that fails decides how a run ends**, whatever surrounds it.  The request is
what the arguments spell, and the environment where they are silent.  A source that cannot be opened
ends the run even if there is no dialect for the architecture; no dialect ends it even if the source
cannot be read or holds bytes that encode no text; and these two end it in that order.  Each time the
run exits with 1, says what it was doing and what went wrong, and prints nothing.  In all other cases
it exits with 0 and prints the summary in the format that was asked for.

Two runs with one architecture and one format that are delivered the same bytes, be it by the
standard input, a path or the kernel's listing below a root, print the same text or fail from the
same cause; and so do two that fail to read for the same reason. -/
theorem run_outcome (s : Surroundings Id) (arguments : List Text) (r : Request)
    (h : Request.ofArguments? s.environment.run arguments = some r) :
    let outcome := (s.run arguments).run
    ((∃ parts, Part.Spells parts arguments) ∧
      ∀ parts, Part.Spells parts arguments → r.AskedBy s.environment.run parts) ∧
    (∀ failure, (s.opened r.source).run = .error failure →
      ∃ path e, r.source = .file path ∧ (s.openFile path).run = .error e ∧
        failure = .opening path e ∧ outcome.Fails ("opening ".toList ++ path) e.message) ∧
    (∀ reading, (s.opened r.source).run = .ok reading →
      ((∀ a : Architecture, a.name ≠ r.architecture) →
        outcome.Fails r.context (Fault.unsupportedArchitecture r.architecture).message) ∧
      ∀ a : Architecture, a.name = r.architecture →
        (∀ reason, reading.run.findSome? Delivery.reason? = some reason →
          outcome.Fails r.context (Fault.sourceUnavailable reason).message) ∧
        (reading.run.findSome? Delivery.reason? = none →
          let content := reading.run.flatMap Delivery.content
          ((∀ t, content ≠ Utf8.encode t) → ∃ flaw, Utf8.decode content = .error flaw ∧
            outcome.Fails r.context (Fault.invalidUtf8 flaw).message) ∧
          ∀ t, content = Utf8.encode t →
            let summary := Summary.ofText a t
            outcome.Prints
              (match r.format with
              | .text => summary.report
              | .json => summary.document.pretty ++ ['\n']
              | .facts => (summary.facts "cpu".toList).bindings.flatMap fun f =>
                f.key ++ '=' :: f.value ++ ['\n']))) ∧
    ∀ (s' : Surroundings Id) (arguments' : List Text) (r' : Request),
      Request.ofArguments? s'.environment.run arguments' = some r' →
      r'.architecture = r.architecture → r'.format = r.format →
      ∀ reading reading', (s.opened r.source).run = .ok reading →
        (s'.opened r'.source).run = .ok reading' →
        reading'.run.findSome? Delivery.reason? = reading.run.findSome? Delivery.reason? →
        (reading.run.findSome? Delivery.reason? = none →
          reading'.run.flatMap Delivery.content = reading.run.flatMap Delivery.content) →
        let outcome' := (s'.run arguments').run
        (∃ text, outcome.Prints text ∧ outcome'.Prints text) ∨
        ∃ cause, outcome.Fails r.context cause ∧ outcome'.Fails r'.context cause := by
  intro outcome
  refine ⟨⟨Request.exists_spells h, fun parts => Request.askedBy_of_spells h⟩, ?_, ?_, ?_⟩
  · intro failure hopened
    obtain ⟨path, e, hsource, hfile, rfl⟩ := exists_of_opened_eq_error hopened
    have hrun : outcome = .failed (.opening path e) := run_of_error h hopened
    rw [hrun]
    exact ⟨path, e, hsource, hfile, rfl, Outcome.fails_failed (.opening path e)⟩
  · intro reading hopened
    have hrun : outcome = r.finish reading.run := run_of_opened h hopened
    rw [hrun]
    refine ⟨fun hne => Request.finish_fails (by rw [Reading.ofDeliveries_of_ne hne]), ?_⟩
    intro a ha
    have hreading := Reading.outcome_ofDeliveries_name a reading.run
    rw [ha] at hreading
    refine ⟨fun reason hreason => ?_, fun hnone => ?_⟩
    · rw [hreason] at hreading
      exact Request.finish_fails hreading
    · rw [hnone] at hreading
      intro content
      have hbytes : (Reading.ofDeliveries r.architecture reading.run).outcome =
          Summary.ofBytes a content := hreading
      refine ⟨fun hne => ?_, fun t ht => ?_⟩
      · obtain ⟨flaw, hflaw, hfault⟩ := Summary.ofBytes_of_forall_ne (a := a) hne
        exact ⟨flaw, hflaw, Request.finish_fails (hbytes.trans hfault)⟩
      · rw [ht, Summary.ofBytes_encode] at hbytes
        have hprints := Request.finish_prints hbytes
        cases hformat : r.format <;> rw [hformat] at hprints <;> exact hprints
  · intro s' arguments' r' h' harchitecture hformat reading reading' hopened hopened' hreason
      hcontent
    have hrun : outcome = r.finish reading.run := run_of_opened h hopened
    rw [hrun, run_of_opened h' hopened']
    exact Request.finish_alike harchitecture hformat hreason hcontent

/-- One listing at the kernel's place, below another root and as a copy, found there by the default
path, by paths from the working directory and by a root from a flag or the environment, and on the
standard input; a missing file and a directory with an architecture without a dialect; a directory
with one that has a dialect; and surroundings that refuse every path. -/
theorem run_outcome_alike :
    let listing := "processor : 0\n".toList
    let report := (Summary.ofText .aarch64 listing).report
    let bytes := Utf8.encode listing
    let world (root : Option Text) : World :=
      { environment := ⟨"x86_64".toList, some "aarch64".toList, root⟩
        input := bytes
        tree := ⟨[(["proc".toList, "cpuinfo".toList], bytes),
          (["sysroot".toList, "proc".toList, "cpuinfo".toList], bytes),
          (["home".toList, "copy".toList], bytes)]⟩
        here := ["home".toList] }
    let refusing : Surroundings Id :=
      { (world none).surroundings with openFile _ := .error ⟨"Permission denied".toList, 13⟩ }
    ((world none).run []).Prints report ∧
    ((world none).run ["--".toList, "-/.".toList]).Prints report ∧
    ((world none).run ["copy".toList]).Prints report ∧
    ((world none).run ["../sysroot//proc/cpuinfo".toList]).Prints report ∧
    ((world none).run ["--prefix".toList, "/sysroot".toList]).Prints report ∧
    ((world (some "/sysroot/".toList)).run []).Prints report ∧
    ((world none).run ["--arch".toList, "s390x".toList, "absent".toList]).Fails
      "opening absent".toList "No such file or directory (os error 2)".toList ∧
    ((world none).run ["--arch=s390x".toList, "/proc".toList]).Fails
      "parsing File(\"/proc\") as s390x".toList
      (Fault.unsupportedArchitecture "s390x".toList).message ∧
    ((world none).run ["/proc".toList]).Fails
      "parsing File(\"/proc\") as aarch64".toList
      (Fault.sourceUnavailable "Is a directory (os error 21)".toList).message ∧
    (refusing.run []).run.Fails
      "opening /proc/cpuinfo".toList "Permission denied (os error 13)".toList := by
  intro listing report bytes world refusing
  obtain ⟨-, -, hopened, halike⟩ := run_outcome (world none).surroundings
    ["--".toList, "-/.".toList] ⟨"aarch64".toList, .standardInput, .text⟩ (by decide)
  have hread : ((world none).surroundings.opened .standardInput).run = .ok [.bytes bytes] := rfl
  have hprints : ((world none).run ["--".toList, "-/.".toList]).Prints report :=
    (((hopened _ hread).2 .aarch64 (by decide)).2 (by decide)).2 listing (by decide)
  have hsame (root : Option Text) (arguments : List Text) (path : Text)
      (h : Request.ofArguments? (world root).environment arguments =
        some ⟨"aarch64".toList, .file path, .text⟩)
      (hresolve : (world root).tree.resolve (world root).here path = .ok (.file bytes)) :
      ((world root).run arguments).Prints report := by
    rcases halike (world root).surroundings arguments _ h rfl rfl _ _ hread
      (World.opened_of_ok hresolve) rfl (fun _ => rfl) with
      ⟨text, htext, htext'⟩ | ⟨cause, hfails, -⟩
    · have heq : text = report := htext.output.symm.trans hprints.output
      rw [heq] at htext'
      exact htext'
    · exact absurd (hprints.code.symm.trans hfails.code) (by decide)
  have habsent : Request.ofArguments? (world none).environment
      ["--arch".toList, "s390x".toList, "absent".toList] =
        some ⟨"s390x".toList, .file "absent".toList, .text⟩ := by decide +kernel
  have hunknown : Request.ofArguments? (world none).environment
      ["--arch=s390x".toList, "/proc".toList] =
        some ⟨"s390x".toList, .file "/proc".toList, .text⟩ := by decide +kernel
  have hknown : Request.ofArguments? (world none).environment ["/proc".toList] =
      some ⟨"aarch64".toList, .file "/proc".toList, .text⟩ := by decide +kernel
  have hdefault : Request.ofArguments? (world none).environment [] =
      some ⟨"aarch64".toList, .file "/proc/cpuinfo".toList, .text⟩ := by decide +kernel
  have hmissing : (world none).tree.resolve (world none).here "absent".toList =
      .error .notFound := by decide +kernel
  have hdirectory : (world none).tree.resolve (world none).here "/proc".toList =
      .ok .directory := by decide +kernel
  refine ⟨hsame none _ "/proc/cpuinfo".toList (by decide +kernel) (by decide +kernel), hprints,
    hsame none _ "copy".toList (by decide +kernel) (by decide +kernel),
    hsame none _ "../sysroot//proc/cpuinfo".toList (by decide +kernel) (by decide +kernel),
    hsame none _ "/sysroot/proc/cpuinfo".toList (by decide +kernel) (by decide +kernel),
    hsame _ _ "/sysroot/proc/cpuinfo".toList (by decide +kernel) (by decide +kernel), ?_, ?_, ?_, ?_⟩
  · obtain ⟨path, e, -, -, hopening, hfails⟩ :=
      (run_outcome (world none).surroundings _ _ habsent).2.1 _ (World.opened_of_error hmissing)
    cases hopening
    exact hfails
  · have hcontext : Request.context ⟨"s390x".toList, .file "/proc".toList, .text⟩ =
        "parsing File(\"/proc\") as s390x".toList := by decide +kernel
    rw [← hcontext]
    apply ((run_outcome (world none).surroundings _ _ hunknown).2.2.1 _
      (World.opened_of_ok hdirectory)).1
    intro a
    cases a <;> decide
  · have hcontext : Request.context ⟨"aarch64".toList, .file "/proc".toList, .text⟩ =
        "parsing File(\"/proc\") as aarch64".toList := by decide +kernel
    rw [← hcontext]
    apply (((run_outcome (world none).surroundings _ _ hknown).2.2.1 _
      (World.opened_of_ok hdirectory)).2 .aarch64 (by decide)).1
    decide +kernel
  · obtain ⟨path, e, -, -, hopening, hfails⟩ := (run_outcome refusing [] _ hdefault).2.1
      (.opening "/proc/cpuinfo".toList ⟨"Permission denied".toList, 13⟩) rfl
    cases hopening
    exact hfails

end Surroundings

end ProcessorListing
