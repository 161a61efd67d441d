import ProcessorListing.Reading
import ProcessorListing.Text.Utf8

/-!
# Paths and file trees

A path is a text of steps separated by slashes.  A `FileTree` holds the files below the root, each at
the names that lead to it; the directories are those that the files are in, and the one in which a
program works.  `FileTree.resolve` follows a path step by step, from the root if it begins with a
slash and from the working directory if not: an empty step and `.` stay, `..` goes up, and any other
step enters what has that name.

A tree has no links, and whatever stands in it may be opened.  It is one of the many things that a run
may find around it; what holds of every run is stated for any answer to the opening of a path
(`Surroundings`).
-/

namespace ProcessorListing

namespace Path

/-- The steps of a path. -/
def steps (path : Text) : List Text := Text.cut (· = '/') path

/-- Two paths can be the same although they are spelled differently: empty steps and `.` count only
where a path begins.  This says that a path is the same as the one step `name`. -/
def isOnly (name path : Text) : Bool :=
  match steps path with
  | [] => false
  | first :: more => first = name && more.all fun step => step = [] || step = ['.']

/-- The path `path` below the directory `root`. -/
def join (root path : Text) : Text :=
  if root = [] ∨ root.getLast? = some '/' then root ++ path else root ++ '/' :: path

end Path

/-- An error that the system reports, with its number. -/
structure SystemError where
  text : Text
  number : Nat
deriving DecidableEq, Repr

namespace SystemError

/-- A system error in words. -/
def message (e : SystemError) : Text :=
  e.text ++ " (os error ".toList ++ Text.ofNat e.number ++ [')']

/-- Nothing has this name. -/
def notFound : SystemError := ⟨"No such file or directory".toList, 2⟩

/-- A path goes on below a file. -/
def notDirectory : SystemError := ⟨"Not a directory".toList, 20⟩

/-- A directory was read like a file. -/
def isDirectory : SystemError := ⟨"Is a directory".toList, 21⟩

/-- A name or a path has too many bytes. -/
def nameTooLong : SystemError := ⟨"File name too long".toList, 36⟩

end SystemError

/-- What can be opened. -/
inductive Node
  | file (content : List UInt8)
  | directory
deriving DecidableEq, Repr

/-- What a reader of a node delivers: its bytes, or for a directory the failure to read it. -/
def Node.deliveries : Node → List Delivery
  | file content => [.bytes content]
  | directory => [.failure .other (some SystemError.isDirectory.message)]

/-- The files of a system, each at the names that lead to it from the root. -/
structure FileTree where
  files : List (List Text × List UInt8)
deriving DecidableEq, Repr

namespace FileTree

/-- The longest name, in bytes. -/
def longestName : Nat := 255

/-- The longest path, in bytes. -/
def longestPath : Nat := 4095

/-- What stands at a place, given by the names that lead to it, for a program that works `here`. -/
def node? (tree : FileTree) (here place : List Text) : Option Node :=
  match tree.files.find? (·.1 = place) with
  | some (_, content) => some (.file content)
  | none =>
    if place.isPrefixOf here ∨ tree.files.any (place.isPrefixOf ·.1) then some .directory else none

/-- Follows steps from the directory at a place.  The root is its own parent. -/
def follow (tree : FileTree) (here : List Text) :
    List Text → List Text → Except SystemError Node
  | _, [] => .ok .directory
  | place, step :: more =>
    if step = [] ∨ step = ['.'] then follow tree here place more
    else if step = ['.', '.'] then follow tree here place.dropLast more
    else if (Utf8.encode step).length > longestName then .error .nameTooLong
    else
      match tree.node? here (place ++ [step]) with
      | none => .error .notFound
      | some .directory => follow tree here (place ++ [step]) more
      | some (.file content) => if more = [] then .ok (.file content) else .error .notDirectory

/-- What a path leads to, for a program that works `here`. -/
def resolve (tree : FileTree) (here : List Text) (path : Text) : Except SystemError Node :=
  if (Utf8.encode path).length > longestPath then .error .nameTooLong
  else if path = [] then .error .notFound
  else follow tree here (if path.head? = some '/' then [] else here) (Path.steps path)

end FileTree

end ProcessorListing
