import ProcessorListing.Text.Utf8

/-!
# Faults

What can keep a listing from being read, and the notice that is given of it.  A notice names the part
that failed, a code, and details if there are any.
-/

namespace ProcessorListing

/-- Why a listing could not be read. -/
inductive Fault
  /-- No dialect is known for this identifier. -/
  | unsupportedArchitecture (id : Text)
  /-- The bytes of the listing could not be had. -/
  | sourceUnavailable (reason : Text)
  /-- The bytes of the listing are not a text. -/
  | invalidUtf8 (flaw : Utf8.Flaw)
deriving DecidableEq, Repr

/-- The part that failed. -/
inductive Origin
  | dialect
  | source
deriving DecidableEq, Repr

/-- The kind of a fault. -/
inductive FaultCode
  | unsupportedArchitecture
  | sourceUnavailable
  | invalidUtf8
deriving DecidableEq, Repr

/-- The name of a code. -/
def FaultCode.name : FaultCode → Text
  | unsupportedArchitecture => "unsupported_architecture".toList
  | sourceUnavailable => "source_unavailable".toList
  | invalidUtf8 => "invalid_utf8".toList

/-- The notice of a fault. -/
structure Notice where
  origin : Origin
  code : FaultCode
  details : Option Text
deriving DecidableEq, Repr

namespace Notice

/-- The heading of a part's notices. -/
def heading : Origin → Text
  | .dialect => "DialectError".toList
  | .source => "SourceError".toList

/-- A notice in words. -/
def message (n : Notice) : Text :=
  let details :=
    match n.details with
    | some details => ": ".toList ++ details
    | none => []
  heading n.origin ++ '\x7b' :: n.code.name ++ details ++ ['\x7d']

end Notice

/-- The notice of a fault. -/
def Fault.notice : Fault → Notice
  | unsupportedArchitecture id => ⟨.dialect, .unsupportedArchitecture, some id⟩
  | sourceUnavailable reason => ⟨.source, .sourceUnavailable, some reason⟩
  | invalidUtf8 flaw => ⟨.source, .invalidUtf8, some flaw.message⟩

/-- A fault in words. -/
def Fault.message (f : Fault) : Text := f.notice.message

end ProcessorListing
