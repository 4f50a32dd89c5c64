import ToyMachine.Proofs.Rounds

/-! Texts that are printed in pieces. Over any sink the pieces of a text, one after another until
one of them fails, leave the bytes there that the text itself leaves, and fail where it fails. So
a run may print its display in one piece or in many. -/

namespace ToyMachine

theorem Matches.trans {σ ε α : Type} {S T U : σ → σ → Prop} {r r' r'' : EStateM.Result ε σ α}
    (first : Matches S r r') (second : Matches T r' r'')
    (composed : ∀ s s' s'', S s s' → T s' s'' → U s s'') : Matches U r r'' := by
  cases first with
  | ok a related =>
    cases second with
    | ok _ related' => exact .ok a (composed _ _ _ related related')
  | error e related =>
    cases second with
    | error _ related' => exact .error e (composed _ _ _ related related')

namespace Console

def printAll : List String → Action Unit
  | [] => pure ()
  | text :: texts => do
    print text
    printAll texts

/-- The consoles are the same but for the pieces that their output has been printed in. -/
structure Agrees (c c' : Console) : Prop where
  input : c'.input = c.input
  pending : c'.pending = c.pending
  room : c'.room = c.room
  output : c'.output = c.output
  journal : c'.journal = c.journal

section Agrees

variable {c c' : Console}

theorem Agrees.refl (c : Console) : Agrees c c :=
  ⟨rfl, rfl, rfl, rfl, rfl⟩

theorem Agrees.trans {c'' : Console} (first : Agrees c c') (second : Agrees c' c'') :
    Agrees c c'' where
  input := second.input.trans first.input
  pending := second.pending.trans first.pending
  room := second.room.trans first.room
  output := second.output.trans first.output
  journal := second.journal.trans first.journal

theorem Agrees.emit (agrees : Agrees c c') (e : Emission) : Agrees (c.emit e) (c'.emit e) where
  input := agrees.input
  pending := agrees.pending
  room := agrees.room
  output := by rw [output_emit, output_emit, agrees.output]
  journal := by rw [journal_emit, journal_emit, agrees.journal]

theorem Agrees.taken {d d' : Console} (agrees : Agrees c c') (taken : Taken c c' d d') :
    Agrees d d' where
  input := taken.input
  pending := taken.pending
  room := by rw [taken.room, taken.room', agrees.room]
  output := by rw [output_congr taken.transcript, output_congr taken.transcript', agrees.output]
  journal := by
    rw [journal_congr taken.transcript, journal_congr taken.transcript', agrees.journal]

theorem Agrees.printBytes (agrees : Agrees c c') (bytes : ByteArray) :
    Matches Agrees (printBytes bytes c) (printBytes bytes c') := by
  obtain ⟨input, pending, _, transcript⟩ := c
  obtain ⟨input', pending', room, transcript'⟩ := c'
  obtain rfl : room = _ := agrees.room
  cases room with
  | none => exact .ok () (agrees.emit _)
  | some room =>
    rw [Console.printBytes, Console.printBytes]
    split
    · exact .ok () { agrees.emit (.printed bytes) with room := rfl }
    · refine .error _ ?_
      exact { agrees.emit (.printed (bytes.extract 0 room)) with room := rfl }

theorem agrees_silent (c : Console) : Agrees (c.emit (.printed .empty)) c where
  input := rfl
  pending := rfl
  room := rfl
  output := by rw [output_emit, Emission.bytes, ByteArray.append_empty]
  journal := by rw [journal_emit, Emission.notice?, Option.toList_none, List.append_nil]

theorem agrees_append (c : Console) (first second : ByteArray) :
    Agrees (c.emit (.printed (first ++ second)))
      ((c.emit (.printed first)).emit (.printed second)) where
  input := rfl
  pending := rfl
  room := rfl
  output := by
    rw [output_emit, output_emit, output_emit]
    exact ByteArray.append_assoc
  journal := by
    rw [journal_emit, journal_emit, journal_emit]
    exact List.append_assoc _ _ _

theorem printBytes_append (first second : ByteArray) (c : Console) :
    Matches Agrees (Console.printBytes (first ++ second) c)
      ((Console.printBytes first >>= fun _ => Console.printBytes second : Action Unit) c) := by
  obtain ⟨input, pending, room, transcript⟩ := c
  cases room with
  | none => exact .ok () (agrees_append ⟨input, pending, none, transcript⟩ first second)
  | some room =>
    let c : Console := ⟨input, pending, some room, transcript⟩
    change Matches _ _ (EStateM.bind _ _ _)
    rw [EStateM.bind, Console.printBytes, Console.printBytes, ByteArray.size_append]
    by_cases begun : first.size ≤ room
    · rw [if_pos begun]
      dsimp only
      rw [Console.printBytes]
      by_cases fits : first.size + second.size ≤ room
      · rw [if_pos fits, if_pos (Nat.le_sub_of_add_le' fits), Nat.sub_sub]
        exact .ok () { agrees_append c first second with room := rfl }
      · -- The room ends in the second piece.
        have whole : first.extract 0 room = first := by
          rw [← Nat.max_eq_left begun, ByteArray.extract_zero_max_size]
        rw [if_neg fits, if_neg (by omega), ByteArray.extract_append, whole, Nat.zero_sub]
        refine .error _ ?_
        exact { agrees_append c first (second.extract 0 (room - first.size)) with room := rfl }
    · -- It ends in the first one, and the second is not printed at all.
      have cut : room - first.size = 0 := Nat.sub_eq_zero_of_le (Nat.le_of_not_le begun)
      rw [if_neg begun, if_neg (by omega), ByteArray.extract_append, Nat.zero_sub, cut,
        ByteArray.extract_same, ByteArray.append_empty]
      refine .error _ ?_
      exact { Agrees.refl (c.emit (.printed (first.extract 0 room))) with room := rfl }

theorem print_nothing (c : Console) : print "" c = .ok () (c.emit (.printed .empty)) := by
  obtain ⟨input, pending, room, transcript⟩ := c
  cases room with
  | none => rfl
  | some room =>
    change Console.printBytes .empty _ = _
    rw [Console.printBytes, ByteArray.size_empty, if_pos (Nat.zero_le room)]
    rfl

/-- A text and its pieces, over the same room for them. -/
theorem Agrees.printAll (agrees : Agrees c c') (texts : List String) :
    Matches Agrees (print (String.join texts) c) (printAll texts c') := by
  induction texts generalizing c c' with
  | nil =>
    rw [String.join_nil, print_nothing]
    exact .ok () ((agrees_silent c).trans agrees)
  | cons text texts ih =>
    have cut : (String.join (text :: texts)).toUTF8 =
        text.toUTF8 ++ (String.join texts).toUTF8 := by
      rw [String.join_cons]
      exact String.toByteArray_append
    rw [print, cut]
    refine (printBytes_append _ _ c).trans ((agrees.printBytes _).bind fun _ _ _ => ih) ?_
    exact fun _ _ _ => Agrees.trans

theorem Agrees.link : Link Agrees where
  note _ _ _ agrees := .ok () (agrees.emit _)
  print text _ _ agrees := agrees.printBytes text.toUTF8
  nextToken _ _ agrees := (taken_nextToken agrees.input agrees.pending).mono fun _ _ => agrees.taken

theorem Agrees.wait : Respects Agrees Console.wait :=
  fun _ _ agrees => (taken_wait agrees.input agrees.pending).mono fun _ _ => agrees.taken

end Agrees

end Console

namespace Display

/-- Texts that are the display when they are printed one after another. -/
structure Pieces (half : Nat) where
  texts : Processor → Memory → List String
  joined : ∀ cpu memory, String.join (texts cpu memory) = cycle cpu memory half

def Row.texts (row : Row) : List String :=
  row.map Entry.tinted ++ ["\n"]

theorem Row.join_texts (row : Row) : String.join row.texts = row.line := by
  rw [texts, String.join_append, String.join_cons, String.join_nil, String.append_empty, line]

def windowTexts (name : String) (cpu : Processor) (memory : Memory) (half : Nat)
    (centre : Address) : List String :=
  let shown := Window.around cpu.width centre half
  ("\n  Memory near " ++ name ++ ":\n") ::
    ((windowLabels cpu shown).texts ++ (windowValues cpu memory shown).texts)

theorem join_windowTexts (name : String) (cpu : Processor) (memory : Memory) (half : Nat)
    (centre : Address) :
    String.join (windowTexts name cpu memory half centre) =
      namedWindow name cpu memory half centre := by
  rw [windowTexts, String.join_cons, String.join_append, Row.join_texts, Row.join_texts]
  rfl

def stateTexts (cpu : Processor) (memory : Memory) (half : Nat) : List String :=
  "Cpu state:\n  Registers:\n" ::
    ((registerLabels cpu).texts ++ (registerValues cpu).texts ++
      windowTexts "PC" cpu memory half cpu.pc ++
      cpu.access.memoryRead.toList.flatMap (windowTexts "last read" cpu memory half) ++
      cpu.access.memoryWritten.toList.flatMap (windowTexts "last write" cpu memory half) ++
      ["\n"])

theorem join_stateTexts (cpu : Processor) (memory : Memory) (half : Nat) :
    String.join (stateTexts cpu memory half) = state cpu memory half := by
  unfold stateTexts state registers
  cases cpu.access.memoryRead <;> cases cpu.access.memoryWritten <;>
    simp only [Option.toList_none, Option.toList_some, List.flatMap_nil, List.flatMap_singleton,
      List.append_nil, String.join_append, String.join_cons, String.join_nil, String.append_empty,
      Row.join_texts, join_windowTexts, String.append_assoc]

def bannerTexts : List String :=
  [Colour.red.code, "Cpu has halted", Colour.white.code, "\n"]

theorem join_bannerTexts : String.join bannerTexts = haltBanner := by
  rw [bannerTexts, haltBanner]
  simp only [String.join_cons, String.join_nil, String.append_empty, String.append_assoc]

/-- Every heading and every entry of a table by itself. -/
def entries (half : Nat) : Pieces half where
  texts cpu memory := if cpu.halted then bannerTexts else stateTexts cpu memory half
  joined cpu memory := by
    rw [cycle, apply_ite String.join, join_bannerTexts, join_stateTexts]

end Display

namespace Machine

/-- A cycle that displays the machine in this way. -/
def cycleVia (prints : Action Console.Failure Unit) (o : RunOptions) : Action RunFailure Unit := do
  mapFailure .stopped step
  mapFailure .display (if o.trace then prints else pure ())
  pause o.singleStep

def runVia (prints : Action Console.Failure Unit) (o : RunOptions) : Nat → Action RunFailure Bool
  | 0 => cpuHas (·.halted)
  | cycles + 1 => do
    if ← cpuHas (·.halted) then pure true
    else
      cycleVia prints o
      runVia prints o cycles

def runToHaltVia (prints : Action Console.Failure Unit) (o : RunOptions) (cycles : Nat) :
    Action RunFailure Bool := do
  let halted ← runVia prints o cycles
  if halted then
    let pc ← cpuHas (·.pc)
    note (.terminated pc)
  pure halted

def displayAll {half : Nat} (pieces : Display.Pieces half) : Action Console.Failure Unit :=
  fun m => onConsole (Console.printAll (pieces.texts m.cpu m.memory)) m

theorem runVia_displayCycle (o : RunOptions) (k : Nat) :
    runVia (displayCycle o.window) o k = run o k := by
  induction k with
  | zero => rfl
  | succ k ih => rw [runVia, run, ih, cycle_eq_displaying, cycleVia, displaying]

theorem runToHaltVia_displayCycle (o : RunOptions) (k : Nat) :
    runToHaltVia (displayCycle o.window) o k = runToHalt o k := by
  rw [runToHaltVia, runVia_displayCycle, runToHalt]

section Displays

variable {R : Console → Console → Prop} (link : Console.Link R) (wait : Respects R Console.wait)
  {prints prints' : Action Console.Failure Unit}
  (same : ∀ m m', Across R m m' → Matches (Across R) (prints m) (prints' m'))

include link wait same

theorem matches_cycleVia (o : RunOptions) {m m' : Machine} (related : Across R m m') :
    Matches (Across R) (cycleVia prints o m) (cycleVia prints' o m') := by
  have displays (m m' : Machine) (related : Across R m m') :
      Matches (Across R) ((if o.trace then prints else pure ()) m)
        ((if o.trace then prints' else pure ()) m') := by
    split
    · exact same m m' related
    · exact .ok () related
  refine (matches_mapFailure _ (step_respects link m m' related)).bind fun _ m m' related => ?_
  exact (matches_mapFailure _ (displays m m' related)).bind fun _ => pause_respects wait _

theorem matches_runVia (o : RunOptions) (k : Nat) {m m' : Machine} (related : Across R m m') :
    Matches (Across R) (runVia prints o k m) (runVia prints' o k m') := by
  have asked : Respects (Across R) (cpuHas (·.halted) : Action RunFailure Bool) :=
    respects_cpuHas (fun _ _ => Across.cpu) _
  induction k generalizing m m' with
  | zero => exact asked m m' related
  | succ k ih =>
    refine (asked m m' related).bind fun halted m m' related => ?_
    cases halted with
    | true => exact .ok true related
    | false =>
      exact (matches_cycleVia link wait same o related).bind fun _ _ _ => ih

theorem matches_runToHaltVia (o : RunOptions) (k : Nat) {m m' : Machine}
    (related : Across R m m') :
    Matches (Across R) (runToHaltVia prints o k m) (runToHaltVia prints' o k m') := by
  refine (matches_runVia link wait same o k related).bind fun halted m m' related => ?_
  cases halted with
  | true => exact .ok true ⟨related.cpu, related.memory, related.cpu ▸ link.emit _ related.console⟩
  | false => exact .ok false related

end Displays

theorem matches_displayAll {half : Nat} (pieces : Display.Pieces half) {m m' : Machine}
    (agrees : Across Console.Agrees m m') :
    Matches (Across Console.Agrees) (displayCycle half m) (displayAll pieces m') := by
  have shown := agrees.console.printAll (pieces.texts m.cpu m.memory)
  rw [pieces.joined] at shown
  refine matches_onConsole agrees.cpu agrees.memory ?_
  rw [agrees.cpu, agrees.memory]
  exact shown

/-- A run that prints its display in pieces is the run that prints it as one text. -/
theorem runToHalt_pieces (o : RunOptions) (pieces : Display.Pieces o.window) (k : Nat)
    (m : Machine) :
    Matches (Across Console.Agrees) (runToHalt o k m) (runToHaltVia (displayAll pieces) o k m) := by
  rw [← runToHaltVia_displayCycle]
  exact matches_runToHaltVia Console.Agrees.link Console.Agrees.wait
    (fun _ _ => matches_displayAll pieces) o k ⟨rfl, rfl, .refl _⟩

end Machine

end ToyMachine
