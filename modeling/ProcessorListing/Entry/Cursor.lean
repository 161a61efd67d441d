import ProcessorListing.Entry.Basic

/-!
# Cursors over the entries of a text

A cursor stands in a text and hands out the entries from there on, one at a time.  A `Session` keeps
several cursors over one text; each command moves at most one of them, and its reply says how many
entries that cursor has left.
-/

namespace ProcessorListing

/-- A place in a text, given by the text from there on. -/
structure Cursor where
  rest : Text
deriving DecidableEq, Repr

namespace Cursor

/-- The entries still to come. -/
def entries (c : Cursor) : List Entry := Entry.all c.rest

/-- Hands out the next entry and moves past it; at the end, stays there. -/
def next (c : Cursor) : Option Entry × Cursor :=
  match Entry.next? c.rest with
  | some (entry, rest) => (some entry, ⟨rest⟩)
  | none => (none, ⟨[]⟩)

/-- Hands out all entries still to come and moves to the end. -/
def drain (c : Cursor) : List Entry × Cursor := (c.entries, ⟨[]⟩)

end Cursor

/-- A text and the cursors opened over it, oldest first. -/
structure Session where
  text : Text
  cursors : List Cursor
deriving DecidableEq, Repr

namespace Session

/-- What a session can be asked; cursors are named by their place in the list. -/
inductive Command
  /-- The next entry of a cursor. -/
  | next (cursor : Nat)
  /-- All entries that a cursor has left. -/
  | drain (cursor : Nat)
  /-- A new cursor at the place of another. -/
  | clone (cursor : Nat)
  /-- A new cursor at the start of the text. -/
  | restart
deriving DecidableEq, Repr

/-- What a session answers. -/
inductive Answer
  | entry (entry : Option Entry)
  | entries (entries : List Entry)
  /-- The place of a new cursor in the list. -/
  | opened (cursor : Nat)
deriving DecidableEq, Repr

/-- The outcome of a command: the answer, the number of entries that the cursor concerned has left,
and the session afterwards. -/
structure Reply where
  answer : Answer
  left : Nat
  session : Session
deriving DecidableEq, Repr

/-- A session with one cursor, at the start of the text. -/
def start (text : Text) : Session := ⟨text, [⟨text⟩]⟩

/-- Carries out a command; a cursor that does not exist cannot be asked anything. -/
def perform (s : Session) : Command → Option Reply
  | .next i =>
    s.cursors[i]?.map fun c =>
      let (entry, moved) := c.next
      ⟨.entry entry, moved.entries.length, { s with cursors := s.cursors.set i moved }⟩
  | .drain i =>
    s.cursors[i]?.map fun c =>
      let (entries, moved) := c.drain
      ⟨.entries entries, moved.entries.length, { s with cursors := s.cursors.set i moved }⟩
  | .clone i =>
    s.cursors[i]?.map fun c =>
      ⟨.opened s.cursors.length, c.entries.length, { s with cursors := s.cursors ++ [c] }⟩
  | .restart =>
    let c : Cursor := ⟨s.text⟩
    some ⟨.opened s.cursors.length, c.entries.length, { s with cursors := s.cursors ++ [c] }⟩

/-- Carries out commands one after the other. -/
def run (s : Session) : List Command → Option (List Reply)
  | [] => some []
  | command :: more =>
    match s.perform command with
    | none => none
    | some reply => (reply.session.run more).map (reply :: ·)

end Session

end ProcessorListing
