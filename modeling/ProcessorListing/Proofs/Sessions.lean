import ProcessorListing.Entry.Cursor

/-!
# What a session shows

A cursor is a place in a text, and a place says little about what comes: it may stand before blank
lines, or before lines without an entry.  All that a session ever shows of it are the entries that it
has left (`Session.remaining`), and `Session.Effect` says in these terms alone what a command answers
and which cursor it moves.  Commands have these effects and no others (`Session.effect_perform`), so a
run is a `Session.Course`, and what holds of every run is read off the effects: entries that are left
are the last ones of the text (`Session.Effect.suffix`), and a cursor at the end stays there
(`Session.Effect.stays_empty`).
-/

namespace ProcessorListing

namespace Cursor

/-- A cursor hands out the first entry that it has left, and nothing if there is none. -/
theorem fst_next (c : Cursor) : c.next.1 = c.entries.head? := by
  unfold next entries
  split
  next h => rw [Entry.all_eq_cons h, List.head?_cons]
  next h => rw [Entry.all_eq_nil h, List.head?_nil]

theorem entries_next (c : Cursor) : c.next.2.entries = c.entries.tail := by
  unfold next entries
  split
  next h => rw [Entry.all_eq_cons h, List.tail_cons]
  next h =>
    rw [Entry.all_eq_nil h, List.tail_nil]
    exact Entry.all_eq_nil (by rw [Entry.next?, if_pos rfl])

theorem entries_drain (c : Cursor) : c.drain.2.entries = [] :=
  Entry.all_eq_nil (by rw [drain, Entry.next?, if_pos rfl])

end Cursor

namespace Session

open Entry (all)

/-- The entries that the cursors have left, cursor by cursor. -/
def remaining (s : Session) : List (List Entry) := s.cursors.map Cursor.entries

/-- What a command does to the entries `before` that the cursors have left, where a new cursor has
`whole`: the answer, how many entries the cursor concerned has left, and what all have left then. -/
inductive Effect (whole : List Entry) (before : List (List Entry)) :
    Command → Answer → Nat → List (List Entry) → Prop
  /-- The first entry is handed out, or none if there is none, and the others are left. -/
  | next {i : Nat} {left : List Entry} : before[i]? = some left →
      Effect whole before (.next i) (.entry left.head?) left.tail.length (before.set i left.tail)
  /-- All entries are handed out, and none is left. -/
  | drain {i : Nat} {left : List Entry} : before[i]? = some left →
      Effect whole before (.drain i) (.entries left) 0 (before.set i [])
  /-- A new cursor has what another one has left. -/
  | clone {i : Nat} {left : List Entry} : before[i]? = some left →
      Effect whole before (.clone i) (.opened before.length) left.length (before ++ [left])
  /-- A new cursor has everything. -/
  | restart : Effect whole before .restart (.opened before.length) whole.length (before ++ [whole])

/-- Replies to commands, each of which has its effect on what the one before it has left. -/
inductive Course (whole : List Entry) : List (List Entry) → List Command → List Reply → Prop
  | nil {before : List (List Entry)} : Course whole before [] []
  | cons {before : List (List Entry)} {command : Command} {commands : List Command} {reply : Reply}
      {replies : List Reply} :
      Effect whole before command reply.answer reply.left reply.session.remaining →
      Course whole reply.session.remaining commands replies →
      Course whole before (command :: commands) (reply :: replies)

/-- The cursor that a command needs to find. -/
def Command.cursor? : Command → Option Nat
  | .next i | .drain i | .clone i => some i
  | .restart => none

/-- How many cursors a command opens. -/
def Command.opens : Command → Nat
  | .next _ | .drain _ => 0
  | .clone _ | .restart => 1

/-- With `n` cursors open at the start, commands find every cursor that they need. -/
def FindsCursors (n : Nat) : List Command → Prop
  | [] => True
  | command :: more => (∀ i ∈ command.cursor?, i < n) ∧ FindsCursors (n + command.opens) more

/-! ## One command -/

theorem getElem?_remaining (s : Session) (i : Nat) :
    s.remaining[i]? = s.cursors[i]?.map Cursor.entries := List.getElem?_map

theorem length_remaining (s : Session) : s.remaining.length = s.cursors.length := List.length_map _

theorem remaining_set (s : Session) (i : Nat) (c : Cursor) :
    { s with cursors := s.cursors.set i c : Session }.remaining =
      s.remaining.set i c.entries := List.map_set

theorem remaining_concat (s : Session) (c : Cursor) :
    { s with cursors := s.cursors ++ [c] : Session }.remaining = s.remaining ++ [c.entries] :=
  List.map_append

/-- A command has its effect, and leaves the text as it is. -/
theorem effect_perform {s : Session} {command : Command} {reply : Reply}
    (h : s.perform command = some reply) :
    Effect (all s.text) s.remaining command reply.answer reply.left reply.session.remaining ∧
      reply.session.text = s.text := by
  have hleft {i : Nat} {c : Cursor} (hc : s.cursors[i]? = some c) :
      s.remaining[i]? = some c.entries := by
    rw [getElem?_remaining, hc, Option.map_some]
  cases command with
  | next i =>
    obtain ⟨c, hc, rfl⟩ := Option.map_eq_some_iff.1 h
    refine ⟨?_, rfl⟩
    change Effect _ _ _ (.entry c.next.1) c.next.2.entries.length
      { s with cursors := s.cursors.set i c.next.2 : Session }.remaining
    rw [remaining_set, c.fst_next, c.entries_next]
    exact .next (hleft hc)
  | drain i =>
    obtain ⟨c, hc, rfl⟩ := Option.map_eq_some_iff.1 h
    refine ⟨?_, rfl⟩
    change Effect _ _ _ (.entries c.entries) c.drain.2.entries.length
      { s with cursors := s.cursors.set i c.drain.2 : Session }.remaining
    rw [remaining_set, c.entries_drain]
    exact .drain (hleft hc)
  | clone i =>
    obtain ⟨c, hc, rfl⟩ := Option.map_eq_some_iff.1 h
    rw [remaining_concat, ← length_remaining]
    exact ⟨.clone (hleft hc), rfl⟩
  | restart =>
    obtain rfl := Option.some.inj h
    rw [remaining_concat, ← length_remaining]
    exact ⟨.restart, rfl⟩

/-- A command is carried out exactly if it finds its cursor. -/
theorem isSome_perform (s : Session) (command : Command) :
    (s.perform command).isSome ↔ ∀ i ∈ command.cursor?, i < s.remaining.length := by
  rw [length_remaining]
  cases command <;> simp [perform, Command.cursor?]

namespace Effect

variable {whole : List Entry} {before after : List (List Entry)} {command : Command}
  {answer : Answer} {left : Nat}

theorem length_after (h : Effect whole before command answer left after) :
    after.length = before.length + command.opens := by
  cases h <;> simp [Command.opens]

/-- Where all have the last entries of a whole left, they have so after a command. -/
theorem suffix (h : Effect whole before command answer left after)
    (hbefore : ∀ entries ∈ before, entries <:+ whole) : ∀ entries ∈ after, entries <:+ whole := by
  intro entries hm
  cases h with
  | next hleft =>
    rcases List.mem_or_eq_of_mem_set hm with hm | rfl
    · exact hbefore _ hm
    · exact (List.tail_suffix _).trans (hbefore _ (List.mem_of_getElem? hleft))
  | drain hleft =>
    rcases List.mem_or_eq_of_mem_set hm with hm | rfl
    · exact hbefore _ hm
    · exact List.nil_suffix
  | clone hleft =>
    rcases List.mem_append.1 hm with hm | hm
    · exact hbefore _ hm
    · rw [List.mem_singleton.1 hm]
      exact hbefore _ (List.mem_of_getElem? hleft)
  | restart =>
    rcases List.mem_append.1 hm with hm | hm
    · exact hbefore _ hm
    · obtain rfl := List.mem_singleton.1 hm
      exact List.suffix_rfl

/-- A cursor that has nothing left hands out nothing and has nothing left after any command. -/
theorem stays_empty (h : Effect whole before command answer left after) {i : Nat}
    (hi : before[i]? = some []) :
    after[i]? = some [] ∧ (command = .next i → answer = .entry none) := by
  obtain ⟨hlt, -⟩ := List.getElem?_eq_some_iff.1 hi
  cases h with
  | @next j left hleft =>
    by_cases hji : j = i
    · subst hji
      obtain rfl : left = [] := Option.some.inj (hleft.symm.trans hi)
      simp [hlt]
    · simp [List.getElem?_set_ne hji, hi, hji]
  | @drain j left hleft =>
    by_cases hji : j = i
    · subst hji
      simp [hlt]
    · simp [List.getElem?_set_ne hji, hi]
  | clone => simp [List.getElem?_append_left hlt, hi]
  | restart => simp [List.getElem?_append_left hlt, hi]

end Effect

/-! ## Many commands -/

theorem run_cons {s : Session} {command : Command} {commands : List Command}
    {replies : List Reply} (h : s.run (command :: commands) = some replies) :
    ∃ reply rest, s.perform command = some reply ∧ reply.session.run commands = some rest ∧
      replies = reply :: rest := by
  rw [run] at h
  cases hreply : s.perform command with
  | none => simp [hreply] at h
  | some reply =>
    simp only [hreply, Option.map_eq_some_iff] at h
    obtain ⟨rest, hrest, rfl⟩ := h
    exact ⟨reply, rest, rfl, hrest, rfl⟩

/-- A run is carried out exactly if its commands find their cursors. -/
theorem isSome_run (s : Session) (commands : List Command) :
    (s.run commands).isSome ↔ FindsCursors s.remaining.length commands := by
  induction commands generalizing s with
  | nil => simp [run, FindsCursors]
  | cons command commands ih =>
    rw [FindsCursors, ← isSome_perform, run]
    cases hreply : s.perform command with
    | none => simp
    | some reply =>
      rw [← (effect_perform hreply).1.length_after, ← ih]
      simp

/-- A run is a course of effects. -/
theorem course_run {s : Session} {commands : List Command} {replies : List Reply}
    (h : s.run commands = some replies) : Course (all s.text) s.remaining commands replies := by
  induction commands generalizing s replies with
  | nil =>
    obtain rfl := Option.some.inj h
    exact .nil
  | cons command commands ih =>
    obtain ⟨reply, rest, hreply, hrest, rfl⟩ := run_cons h
    obtain ⟨heffect, htext⟩ := effect_perform hreply
    exact .cons heffect (htext ▸ ih hrest)

namespace Course

variable {whole : List Entry} {before : List (List Entry)} {commands : List Command}
  {replies : List Reply}

theorem suffix (h : Course whole before commands replies)
    (hbefore : ∀ entries ∈ before, entries <:+ whole) :
    ∀ reply ∈ replies, ∀ entries ∈ reply.session.remaining, entries <:+ whole := by
  induction h with
  | nil => simp
  | cons heffect _ ih =>
    have hafter := heffect.suffix hbefore
    intro reply hm
    rcases List.mem_cons.1 hm with rfl | hm
    · exact hafter
    · exact ih hafter reply hm

theorem stays_empty (h : Course whole before commands replies) {i : Nat}
    (hi : before[i]? = some []) :
    ∀ step ∈ commands.zip replies, step.2.session.remaining[i]? = some [] ∧
      (step.1 = .next i → step.2.answer = .entry none) := by
  induction h with
  | nil => simp
  | cons heffect _ ih =>
    have hstep := heffect.stays_empty hi
    intro step hm
    rw [List.zip_cons_cons] at hm
    rcases List.mem_cons.1 hm with rfl | hm
    · exact hstep
    · exact ih hstep.1 step hm

/-- Once a cursor has nothing left, this is so for good. -/
theorem pairwise_stays_empty (h : Course whole before commands replies) :
    (commands.zip replies).Pairwise fun step later =>
      ∀ i, step.2.session.remaining[i]? = some [] →
        later.2.session.remaining[i]? = some [] ∧
          (later.1 = .next i → later.2.answer = .entry none) := by
  induction h with
  | nil => simp
  | cons heffect hcourse ih =>
    rw [List.zip_cons_cons]
    exact List.pairwise_cons.2 ⟨fun later hm i hi => hcourse.stays_empty hi later hm, ih⟩

end Course

/-- **A session shows every cursor as an end of one list.**  A run is carried out exactly if its
commands find the cursors that they name.  It answers as if each cursor were the list of the entries
that it has left: `next` hands out the first of them and keeps the others, or hands out nothing if
there are none, `drain` hands out all of them, a clone has those of another cursor and a restart
those of the whole text; no other cursor changes, and the number of entries left is reported.  After
each command every cursor has an end of the entries of the text left, and one that has nothing left
hands out nothing ever after. -/
theorem run_start (t : Text) (commands : List Command) :
    (((start t).run commands).isSome ↔ FindsCursors 1 commands) ∧
    ∀ replies, (start t).run commands = some replies →
      Course (all t) [all t] commands replies ∧
      (∀ reply ∈ replies, ∀ entries ∈ reply.session.remaining, entries <:+ all t) ∧
      (commands.zip replies).Pairwise fun step later =>
        ∀ i, step.2.session.remaining[i]? = some [] →
          later.2.session.remaining[i]? = some [] ∧
            (later.1 = .next i → later.2.answer = .entry none) := by
  refine ⟨isSome_run (start t) commands, fun replies h => ?_⟩
  have hcourse : Course (all t) [all t] commands replies := course_run h
  exact ⟨hcourse, hcourse.suffix (by simp), hcourse.pairwise_stays_empty⟩

/-- A clone that is drained, and asked again, while the cursor it comes from goes on. -/
theorem run_start_clone :
    ∃ replies,
      (start "a:1\n\nb:2".toList).run
        [.next 0, .clone 0, .drain 1, .next 1, .next 0, .restart] = some replies ∧
      replies.map (fun reply => (reply.answer, reply.left)) =
        [(.entry (some ⟨['a'], ['1']⟩), 1), (.opened 1, 1), (.entries [⟨['b'], ['2']⟩], 0),
          (.entry none, 0), (.entry (some ⟨['b'], ['2']⟩), 0), (.opened 2, 2)] ∧
      Course (all "a:1\n\nb:2".toList) [all "a:1\n\nb:2".toList]
        [.next 0, .clone 0, .drain 1, .next 1, .next 0, .restart] replies := by
  have hanswers : ((start "a:1\n\nb:2".toList).run
      [.next 0, .clone 0, .drain 1, .next 1, .next 0, .restart]).map
        (·.map fun reply => (reply.answer, reply.left)) =
      some [(.entry (some ⟨['a'], ['1']⟩), 1), (.opened 1, 1), (.entries [⟨['b'], ['2']⟩], 0),
        (.entry none, 0), (.entry (some ⟨['b'], ['2']⟩), 0), (.opened 2, 2)] := by decide +kernel
  obtain ⟨replies, hrun, hreplies⟩ := Option.map_eq_some_iff.1 hanswers
  exact ⟨replies, hrun, hreplies, ((run_start _ _).2 replies hrun).1⟩

end Session

end ProcessorListing
