import ProcessorListing.CommandLine.Arguments
import ProcessorListing.Summary.Document
import ProcessorListing.Summary.Report
import ProcessorListing.Text.Escaped

/-!
# Runs

A run opens its source, reads and summarizes the listing there, and prints the summary.  The first
of these that fails decides how the run ends.  `Request.finish` is the part of a run after reading.

All that a run gets from outside are answers: the variables that are set, what the standard input
delivers, and what comes of opening a path.  `Surroundings` are these answers, given in any monad,
and `Surroundings.run` is the run that asks for them.  A `World` answers from files in a tree and
without effects.
-/

namespace ProcessorListing

/-- The text of a summary in a format. -/
def Format.render : Format → Summary → Text
  | text, s => s.report
  | json, s => s.document.pretty ++ ['\n']
  | facts, s => s.factList "cpu".toList

/-- Why a run printed nothing. -/
inductive Failure
  | opening (path : Text) (error : SystemError)
  | summarizing (source : Source) (architecture : Text) (fault : Fault)
deriving DecidableEq, Repr

/-- The name of a source in a message. -/
def Source.shown : Source → Text
  | standardInput => "Stdin".toList
  | file path => "File(".toList ++ Text.quoted path ++ [')']

namespace Failure

/-- What was being done. -/
def context : Failure → Text
  | opening path _ => "opening ".toList ++ path
  | summarizing source architecture _ =>
    "parsing ".toList ++ source.shown ++ " as ".toList ++ architecture

/-- What went wrong. -/
def cause : Failure → Text
  | opening _ error => error.message
  | summarizing _ _ fault => fault.message

/-- Indents every line of a text. -/
def indented (t : Text) : Text :=
  ['\n'].intercalate ((Text.cut (· = '\n') t).map ("    ".toList ++ ·))

/-- The message of a failure: what was being done, and below it what went wrong. -/
def message (f : Failure) : Text :=
  "Error: ".toList ++ f.context ++ "\n\nCaused by:\n".toList ++ indented f.cause ++ ['\n']

end Failure

/-- How a run ends. -/
inductive Outcome
  | printed (text : Text)
  | failed (failure : Failure)
  /-- The arguments do not keep to the rules.  Calls for help or for the version, which
  `Request.ofArguments?` leaves out, come out here as well. -/
  | misused
deriving DecidableEq, Repr

namespace Outcome

/-- The code with which the program exits. -/
def code : Outcome → UInt32
  | printed _ => 0
  | failed _ => 1
  | misused => 2

/-- What stands on the standard output. -/
def output : Outcome → Text
  | printed text => text
  | failed _ | misused => []

/-- What stands on the standard error after a run that is asked neither for a log nor for a trace of
its errors. -/
def complaint : Outcome → Text
  | printed _ => []
  | failed failure => failure.message
  | misused => usage ++ ['\n']

end Outcome

/-- The rest of a run, given what reading the opened source delivers. -/
def Request.finish (r : Request) (deliveries : List Delivery) : Outcome :=
  match (Reading.ofDeliveries r.architecture deliveries).outcome with
  | .ok s => .printed (r.format.render s)
  | .error fault => .failed (.summarizing r.source r.architecture fault)

/-- What surrounds a run: the answers to all that it asks, each given in `m`. -/
structure Surroundings (m : Type → Type) where
  environment : m Environment
  /-- Reads the standard input to its end. -/
  input : m (List Delivery)
  /-- Opens a path, and gives the reading of what stands there to its end, or the error of the
  system. -/
  openFile : Text → m (Except SystemError (m (List Delivery)))

namespace Surroundings

variable {m : Type → Type} [Monad m]

/-- Opens a source.  The standard input is open. -/
def opened (s : Surroundings m) : Source → m (Except Failure (m (List Delivery)))
  | .standardInput => return .ok s.input
  | .file path => return (← s.openFile path).mapError (.opening path)

/-- A run with the given arguments.  Nothing is read for an architecture without a dialect. -/
def run (s : Surroundings m) (arguments : List Text) : m Outcome := do
  match Request.ofArguments? (← s.environment) arguments with
  | none => return .misused
  | some r =>
    match ← s.opened r.source with
    | .error failure => return .failed failure
    | .ok reading =>
      let known := (Architecture.ofName? r.architecture).isSome
      return r.finish (← if known then reading else pure [])

end Surroundings

/-- Surroundings in which nothing happens: variables that are set, the bytes of the standard input,
and the files of a system, with the place of the working directory. -/
structure World where
  environment : Environment
  input : List UInt8
  tree : FileTree
  here : List Text := []
deriving DecidableEq, Repr

namespace World

/-- The answers that a world gives. -/
def surroundings (w : World) : Surroundings Id where
  environment := w.environment
  input := [.bytes w.input]
  openFile path := (w.tree.resolve w.here path).map Node.deliveries

/-- A run with the given arguments. -/
def run (w : World) (arguments : List Text) : Outcome := (w.surroundings.run arguments).run

end World

end ProcessorListing
