import ProcessorListing.FileTree

/-!
# Command line arguments

The program takes `--arch`, `--prefix` and `--format`, each with a value and at most once, and at
most one path.  A value follows its flag as the next argument or after `=`.  An argument that begins
with `-` and goes on is never a value or a path, except after `--`, from where on all arguments are
paths.  The architecture and the root may also come from the environment; a flag wins over it.

`Request.ofArguments?` is what a call asks for, or nothing where the arguments do not keep to these
rules.  Calls for help and for the version (`--help`, `-h`, `--version`, `-V`), which are answered on
the standard output without a run and with the code 0, are left out: they count as unknown flags
here.
-/

namespace ProcessorListing

/-- How a summary is printed. -/
inductive Format
  | text
  | json
  | facts
deriving DecidableEq, Repr

/-- The format with this name. -/
def Format.ofName? (name : Text) : Option Format :=
  if name = "text".toList then some .text
  else if name = "json".toList then some .json
  else if name = "facts".toList then some .facts
  else none

/-- How the program is called. -/
def usage : Text :=
  "Usage: cpuinfo [--arch ID] [--prefix DIR] [--format text|json|facts] [PATH]".toList

/-- The flags. -/
inductive Flag
  | architecture
  | root
  | format
deriving DecidableEq, Repr

/-- The flag with this name. -/
def Flag.ofName? (name : Text) : Option Flag :=
  if name = "arch".toList then some .architecture
  else if name = "prefix".toList then some .root
  else if name = "format".toList then some .format
  else none

/-- What the arguments give. -/
structure Options where
  architecture : Option Text := none
  root : Option Text := none
  format : Option Format := none
  path : Option Text := none
deriving DecidableEq, Repr

namespace Options

/-- Takes the value of a flag, unless it has one already or cannot have this one. -/
def give (o : Options) (flag : Flag) (value : Text) : Option Options :=
  match flag with
  | .architecture => if o.architecture.isSome then none else some { o with architecture := value }
  | .root => if o.root.isSome ∨ value = [] then none else some { o with root := value }
  | .format =>
    if o.format.isSome then none
    else (Format.ofName? value).map fun format => { o with format := format }

/-- Takes the path, unless there is one already or this one is empty. -/
def givePath (o : Options) (path : Text) : Option Options :=
  if o.path.isSome ∨ path = [] then none else some { o with path := path }

/-- Takes arguments that are all paths. -/
def readPaths (o : Options) : List Text → Option Options
  | [] => some o
  | path :: more => (o.givePath path).bind (readPaths · more)

/-- The argument begins with `-` and goes on. -/
def isFlagLike : Text → Bool
  | '-' :: _ :: _ => true
  | _ => false

/-- Takes arguments one after the other. -/
def read (o : Options) : List Text → Option Options
  | [] => some o
  | ['-', '-'] :: paths => readPaths o paths
  | ('-' :: '-' :: flag) :: more =>
    let name := flag.takeWhile (· ≠ '=')
    match Flag.ofName? name, flag.drop name.length, more with
    | none, _, _ => none
    | some f, _ :: value, more => (o.give f value).bind (read · more)
    | some _, [], [] => none
    | some f, [], value :: more =>
      if isFlagLike value then none else (o.give f value).bind (read · more)
  | path :: more => if isFlagLike path then none else (o.givePath path).bind (read · more)

end Options

/-- What a call finds set: the architecture of the host, and the values of the variables that stand
in for flags.  The variables that make a run log what it does, or trace its errors, are left out. -/
structure Environment where
  host : Text
  architecture : Option Text
  root : Option Text
deriving DecidableEq, Repr

/-- Where the listing is. -/
inductive Source
  | standardInput
  | file (path : Text)
deriving DecidableEq, Repr

namespace Source

/-- Where the kernel keeps its listing, below the root of the file system. -/
def kernelPath : Text := "proc/cpuinfo".toList

/-- The listing that a path names, or else the kernel's, below another root if one is given. -/
def locate (path root : Option Text) : Source :=
  match path, root with
  | some path, _ => if Path.isOnly ['-'] path then .standardInput else .file path
  | none, some root => .file (Path.join root kernelPath)
  | none, none => .file ('/' :: kernelPath)

end Source

/-- What a call asks for. -/
structure Request where
  architecture : Text
  source : Source
  format : Format
deriving DecidableEq, Repr

/-- What the arguments of a call ask for.  A root from the environment is held to the same rule as
one from a flag, but only looked at where the flag is absent. -/
def Request.ofArguments? (env : Environment) (arguments : List Text) : Option Request :=
  match Options.read {} arguments with
  | none => none
  | some o =>
    let root := o.root.or env.root
    if root = some [] then none
    else
      some
        { architecture := (o.architecture.or env.architecture).getD env.host
          source := .locate o.path root
          format := o.format.getD .text }

end ProcessorListing
