import ProcessorListing.Fault
import ProcessorListing.Summary.Basic

/-!
# Summaries of what a reader delivers

A reader answers with one delivery after another: some bytes, or a failure.  The listing ends where
the deliveries do, and a delivery without bytes adds nothing to it.  An interrupted read is tried
again; any other failure ends the reading.  `Reading.ofDeliveries` asks for the architecture first,
so that nothing is read for one without a dialect, and counts the reads.
-/

namespace ProcessorListing

/-- The kinds of failure of a read. -/
inductive ReadFailure
  | notFound
  | permissionDenied
  | unexpectedEof
  | timedOut
  | brokenPipe
  | invalidData
  | wouldBlock
  | interrupted
  | other
deriving DecidableEq, Repr

/-- The words for a failure that brings none of its own. -/
def ReadFailure.message : ReadFailure → Text
  | notFound => "entity not found".toList
  | permissionDenied => "permission denied".toList
  | unexpectedEof => "unexpected end of file".toList
  | timedOut => "timed out".toList
  | brokenPipe => "broken pipe".toList
  | invalidData => "invalid data".toList
  | wouldBlock => "operation would block".toList
  | interrupted => "operation interrupted".toList
  | other => "other error".toList

/-- The answer to one read. -/
inductive Delivery
  /-- The next bytes of the listing; if there are none, more may still follow. -/
  | bytes (bytes : List UInt8)
  | failure (kind : ReadFailure) (message : Option Text)
deriving DecidableEq, Repr

/-- What reading to the end comes to: the bytes or the reason of the failure, and the number of
reads. -/
structure Drained where
  content : Except Text (List UInt8)
  reads : Nat

/-- Reads to the end, which the read after the last delivery finds. -/
def drain : List Delivery → Drained
  | [] => ⟨.ok [], 1⟩
  | .bytes bytes :: more =>
    let rest := drain more
    ⟨rest.content.map (bytes ++ ·), rest.reads + 1⟩
  | .failure .interrupted _ :: more =>
    let rest := drain more
    ⟨rest.content, rest.reads + 1⟩
  | .failure kind message :: _ => ⟨.error (message.getD kind.message), 1⟩

/-- The summary of a listing by the rules of an identified architecture. -/
def Summary.ofListing (id : Text) (t : Text) : Except Fault Summary :=
  match Architecture.ofName? id with
  | some a => .ok (.ofText a t)
  | none => .error (.unsupportedArchitecture id)

/-- The summary of a listing given by its bytes. -/
def Summary.ofBytes (a : Architecture) (bytes : List UInt8) : Except Fault Summary :=
  match Utf8.decode bytes with
  | .ok t => .ok (.ofText a t)
  | .error flaw => .error (.invalidUtf8 flaw)

/-- The summary of a listing that is read, or why there is none, and the number of reads. -/
structure Reading where
  outcome : Except Fault Summary
  reads : Nat

/-- Reads a listing and summarizes it by the rules of an identified architecture. -/
def Reading.ofDeliveries (id : Text) (deliveries : List Delivery) : Reading :=
  match Architecture.ofName? id with
  | none => ⟨.error (.unsupportedArchitecture id), 0⟩
  | some a =>
    let drained := drain deliveries
    match drained.content with
    | .error reason => ⟨.error (.sourceUnavailable reason), drained.reads⟩
    | .ok bytes => ⟨Summary.ofBytes a bytes, drained.reads⟩

end ProcessorListing
