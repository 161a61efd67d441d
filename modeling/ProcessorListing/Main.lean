import ProcessorListing.CommandLine.Run

/-!
# The program

The system's answers to what a run asks of its surroundings, and the printing of what the run comes
to.  All decisions are those of `Surroundings.run` and `Outcome`; this module only carries them to the
system.
-/

namespace ProcessorListing.Main

/-- The number and the words of an error that the system reports. -/
def systemError : IO.Error → SystemError
  | .alreadyExists _ n text | .otherError n text | .resourceBusy n text
  | .resourceVanished n text | .unsupportedOperation n text | .hardwareFault n text
  | .unsatisfiedConstraints n text | .illegalOperation n text | .protocolError n text
  | .timeExpired n text | .interrupted _ n text | .noFileOrDirectory _ n text
  | .invalidArgument _ n text | .permissionDenied _ n text | .resourceExhausted _ n text
  | .inappropriateType _ n text | .noSuchThing _ n text => ⟨text.toList, n.toNat⟩
  | .unexpectedEof => ⟨ReadFailure.unexpectedEof.message, 0⟩
  | .userError text => ⟨text.toList, 0⟩

/-- The outcome of an action, with the error that the system reports if it fails. -/
def attempt {α : Type} (action : IO α) : IO (Except SystemError α) := do
  try return .ok (← action)
  catch e => return .error (systemError e)

/-- What reading to the end of an open file delivers. -/
def deliveries (read : IO ByteArray) : IO (List Delivery) := do
  match ← attempt read with
  | .ok bytes => return [.bytes bytes.toList]
  | .error e => return [.failure .other (some e.message)]

/-- All bytes of the standard input. -/
partial def standardInput (input : IO.FS.Stream) (sofar : ByteArray) : IO ByteArray := do
  let chunk ← input.read 65536
  if chunk.isEmpty then return sofar else standardInput input (sofar ++ chunk)

/-- The value of a variable. -/
def setting (name : String) : IO (Option Text) := return (← IO.getEnv name).map String.toList

/-- The identifier by which the kernel reports the host's architecture. -/
def hostArchitecture : IO Text := do
  match ← attempt (IO.FS.readFile "/proc/sys/kernel/arch") with
  | .ok text => return Text.trim text.toList
  | .error _ => return []

/-- The variables that are set, and the architecture of the host. -/
def environment : IO Environment :=
  return {
    host := ← hostArchitecture
    architecture := ← setting "CPUINFO_ARCH"
    root := ← setting "CPUINFO_PREFIX" }

/-- The answers of the system. -/
def surroundings : Surroundings IO where
  environment := environment
  input := do deliveries (standardInput (← IO.getStdin) .empty)
  openFile path := do
    match ← attempt (IO.FS.Handle.mk (String.ofList path) .read) with
    | .error e => return .error e
    | .ok file => return .ok (deliveries file.readBinToEnd)

end ProcessorListing.Main

open ProcessorListing in
/-- Prints the summary of a processor listing. -/
def main (arguments : List String) : IO UInt32 := do
  let outcome ← Main.surroundings.run (arguments.map String.toList)
  (← IO.getStdout).putStr (String.ofList outcome.output)
  (← IO.getStderr).putStr (String.ofList outcome.complaint)
  return outcome.code
