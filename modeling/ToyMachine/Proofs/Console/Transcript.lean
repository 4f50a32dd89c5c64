import ToyMachine.Proofs.Console.Asking
import ToyMachine.Proofs.Respects

/-! What a console adds to its transcript. A sink without limit takes every text, and what is
done at a console does not depend on what was printed or reported there before. So of two such
consoles with the same input one may be said to follow some bytes and notices that the other
has not seen, and it goes on following them. -/

namespace ToyMachine.Console

theorem journal_emit (c : Console) (e : Emission) :
    (c.emit e).journal = c.journal ++ e.notice?.toList := by
  rw [journal, journal, emit, Array.toList_push, List.filterMap_append]
  cases e <;> rfl

theorem output_cleared (c : Console) : c.cleared.output = .empty := rfl

theorem journal_cleared (c : Console) : c.cleared.journal = [] := rfl

theorem print_roomy {c : Console} (roomy : c.room = none) (text : String) :
    print text c = .ok () (c.emit (.printed text.toUTF8)) := by
  obtain ⟨input, pending, room, transcript⟩ := c
  subst roomy
  rfl

section Taken

/-- The consoles have the same to take, over the sinks and transcripts that these two have. -/
structure Taken (base base' c c' : Console) : Prop where
  input : c'.input = c.input
  pending : c'.pending = c.pending
  room : c.room = base.room
  room' : c'.room = base'.room
  transcript : c.transcript = base.transcript
  transcript' : c'.transcript = base'.transcript

theorem journal_congr {c c' : Console} (same : c'.transcript = c.transcript) :
    c'.journal = c.journal := by
  rw [journal, journal, same]

theorem taken_takeToken (c c' : Console) (input : List (List UInt8)) :
    Matches (Taken c c') (takeToken c.room c.transcript input)
      (takeToken c'.room c'.transcript input) := by
  induction input with
  | nil => exact .ok none ⟨rfl, rfl, rfl, rfl, rfl, rfl⟩
  | cons line lines ih =>
    rw [takeToken, takeToken]
    split
    · exact .error _ ⟨rfl, rfl, rfl, rfl, rfl, rfl⟩
    · split
      · exact ih
      · exact .ok _ ⟨rfl, rfl, rfl, rfl, rfl, rfl⟩

variable {c c' : Console} (input : c'.input = c.input) (pending : c'.pending = c.pending)

include input pending

theorem taken_nextToken : Matches (Taken c c') (nextToken c) (nextToken c') := by
  obtain ⟨_, _, room, transcript⟩ := c
  obtain ⟨lines, tokens, room', transcript'⟩ := c'
  obtain rfl : lines = _ := input
  obtain rfl : tokens = _ := pending
  cases tokens with
  | nil =>
    exact taken_takeToken ⟨lines, [], room, transcript⟩ ⟨lines, [], room', transcript'⟩ lines
  | cons token tokens => exact .ok _ ⟨rfl, rfl, rfl, rfl, rfl, rfl⟩

theorem taken_wait : Matches (Taken c c') (wait c) (wait c') := by
  obtain ⟨_, _, room, transcript⟩ := c
  obtain ⟨lines, tokens, room', transcript'⟩ := c'
  obtain rfl : lines = _ := input
  obtain rfl : tokens = _ := pending
  cases lines with
  | nil => exact .ok () ⟨rfl, rfl, rfl, rfl, rfl, rfl⟩
  | cons line lines =>
    rw [wait, wait]
    split
    · exact .error _ ⟨rfl, rfl, rfl, rfl, rfl, rfl⟩
    · exact .ok _ ⟨rfl, rfl, rfl, rfl, rfl, rfl⟩

end Taken

/-- The second console has shown the bytes and the notices, and then what the first has. -/
structure Follows (bytes : ByteArray) (notices : List Notice) (c c' : Console) : Prop where
  input : c'.input = c.input
  pending : c'.pending = c.pending
  roomy : c.room = none
  roomy' : c'.room = none
  output : c'.output = bytes ++ c.output
  journal : c'.journal = notices ++ c.journal

theorem follows_cleared {c : Console} (roomy : c.room = none) :
    Follows c.output c.journal c.cleared c where
  input := rfl
  pending := rfl
  roomy := roomy
  roomy' := roomy
  output := by rw [output_cleared, ByteArray.append_empty]
  journal := by rw [journal_cleared, List.append_nil]

section Follows

variable {bytes : ByteArray} {notices : List Notice} {c c' : Console}

theorem Follows.emit (h : Follows bytes notices c c') (e : Emission) :
    Follows bytes notices (c.emit e) (c'.emit e) where
  input := h.input
  pending := h.pending
  roomy := h.roomy
  roomy' := h.roomy'
  output := by rw [output_emit, output_emit, h.output, ByteArray.append_assoc]
  journal := by rw [journal_emit, journal_emit, h.journal, List.append_assoc]

theorem Follows.taken {d d' : Console} (h : Follows bytes notices c c') (taken : Taken c c' d d') :
    Follows bytes notices d d' where
  input := taken.input
  pending := taken.pending
  roomy := taken.room.trans h.roomy
  roomy' := taken.room'.trans h.roomy'
  output := by rw [output_congr taken.transcript, output_congr taken.transcript', h.output]
  journal := by rw [journal_congr taken.transcript, journal_congr taken.transcript', h.journal]

variable (bytes notices) in
theorem Follows.link : Link (Follows bytes notices) where
  note n c c' h := .ok () (h.emit _)
  print text c c' h := by
    rw [print_roomy h.roomy, print_roomy h.roomy']
    exact .ok () (h.emit _)
  nextToken c c' h := (taken_nextToken h.input h.pending).mono fun _ _ => h.taken

theorem Follows.wait : Respects (Follows bytes notices) Console.wait :=
  fun _ _ h => (taken_wait h.input h.pending).mono fun _ _ => h.taken

end Follows

section Abreast

/-- Neither console has taken more than the other. What they have shown may be different. -/
structure Abreast (c c' : Console) : Prop where
  cleared : c'.cleared = c.cleared
  roomy : c.room = none

variable {α : Type} {c c' : Console}

theorem Abreast.roomy' (h : Abreast c c') : c'.room = none := by
  have same := congrArg Console.room h.cleared
  exact same.trans h.roomy

theorem Follows.abreast {bytes : ByteArray} {notices : List Notice}
    (h : Follows bytes notices c c') : Abreast c c' := by
  refine ⟨?_, h.roomy⟩
  change Console.mk _ _ _ _ = Console.mk _ _ _ _
  rw [h.input, h.pending, h.roomy, h.roomy']

theorem Abreast.of_follows {bytes bytes' : ByteArray} {notices notices' : List Notice}
    {base : Console} (first : Follows bytes notices base c)
    (second : Follows bytes' notices' base c') : Abreast c c' :=
  ⟨second.abreast.cleared.trans first.abreast.cleared.symm, first.roomy'⟩

theorem Abreast.respects {act : Action α}
    (follows : ∀ bytes notices, Respects (Follows bytes notices) act) : Respects Abreast act := by
  intro c c' abreast
  have first := follows _ _ _ _ (follows_cleared abreast.roomy)
  have second := follows _ _ _ _ (follows_cleared abreast.roomy')
  rw [abreast.cleared] at second
  generalize act c.cleared = base at first second
  generalize act c = r at first
  generalize act c' = r' at second
  cases first with
  | ok a related =>
    cases second with
    | ok _ related' => exact .ok a (.of_follows related related')
  | error e related =>
    cases second with
    | error _ related' => exact .error e (.of_follows related related')

theorem Abreast.link : Link Abreast where
  note n := Abreast.respects fun bytes notices => (Follows.link bytes notices).note n
  print text := Abreast.respects fun bytes notices => (Follows.link bytes notices).print text
  nextToken := Abreast.respects fun bytes notices => (Follows.link bytes notices).nextToken

theorem Abreast.wait : Respects Abreast Console.wait :=
  Abreast.respects fun _ _ => Follows.wait

end Abreast

end ToyMachine.Console
