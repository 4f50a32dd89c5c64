import ToyMachine.Proofs.Image.CellLine
import ToyMachine.Proofs.Overlay

/-! Loading runs the automaton of the grammar. Each line that the loader is fed takes one step
of the automaton, from the state that the loader is in to the state it comes to, and there is
only one such step; so a whole image ends as the automaton does. -/

namespace ToyMachine.Image

open Text Grammar

section Reading

theorem opens_iff (line : List Char) : Opens line ↔ ∃ rest, line = '/' :: '*' :: rest := by
  constructor
  · rintro ⟨rest, rfl⟩
    exact ⟨rest, rfl⟩
  · rintro ⟨rest, rfl⟩
    exact ⟨rest, rfl⟩

/-- In `/*/` the star and the slash are those of the opening. -/
theorem closesAtOnce_iff (rest : List Char) :
    ClosesAtOnce ('/' :: '*' :: rest) ↔ ['*', '/'] <:+ rest := by
  rw [ClosesAtOnce, ← utf8Length_eq]
  constructor
  · rintro ⟨size, front, parts⟩
    match front with
    | [] => simp at parts
    | [_] =>
      obtain ⟨-, rfl⟩ : _ ∧ rest = ['/'] := by simpa using parts.symm
      exact absurd size (by decide)
    | _ :: _ :: front =>
      simp only [List.cons_append, List.cons.injEq] at parts
      exact ⟨front, parts.2.2⟩
  · rintro ⟨front, rfl⟩
    refine ⟨le_trans ?_ (length_le_utf8Length _), '/' :: '*' :: front, rfl⟩
    simp only [List.length_cons, List.length_append, List.length_nil]
    omega

theorem isSkipped_iff (line : List Char) : isSkipped line = true ↔ IsSkipped line := by
  simp only [isSkipped, Bool.or_eq_true, List.isEmpty_iff, startsWith_iff, IsSkipped, or_assoc]
  rfl

theorem readOutside_of_plain {line : List Char} (plain : ¬ Opens line) :
    readOutside line =
      if isSkipped line then ⟨false, none⟩ else ⟨false, some (readAssignment line)⟩ := by
  unfold readOutside
  split
  · next rest => exact absurd ⟨rest, rfl⟩ plain
  · rfl

def Reading.outcome (r : Reading) : Bool × Option (Except Flaw.Kind Assignment) :=
  (r.inComment, r.effect.map (Except.mapError Flaw.kind))

theorem readLine_of_line {inComment next : Bool} {line : List Char}
    {effect : Option (Except Flaw.Kind Assignment)} (solid : EndsSolid line)
    (h : Line inComment line next effect) :
    (readLine inComment line).outcome = (next, effect) := by
  have star := startsWith_iff "*" line
  have slash := startsWith_iff "/*" line
  have ending := endsWith_iff "*/" line
  cases h with
  | opening opens unclosed =>
    obtain ⟨rest, rfl⟩ := (opens_iff line).mp opens
    have ends : endsWith "*/" rest = false := by
      rw [Bool.eq_false_iff, ne_eq, endsWith_iff]
      exact fun h => unclosed ((closesAtOnce_iff rest).mpr h)
    simp [readLine, readOutside, Reading.outcome, ends]
  | comment opens closed =>
    obtain ⟨rest, rfl⟩ := (opens_iff line).mp opens
    have ends : endsWith "*/" rest = true :=
      (endsWith_iff "*/" rest).mpr ((closesAtOnce_iff rest).mp closed)
    simp [readLine, readOutside, Reading.outcome, ends]
  | skipped plain skip =>
    have skip' := (isSkipped_iff line).mpr skip
    simp [readLine, readOutside_of_plain plain, Reading.outcome, skip']
  | cell plain kept reads =>
    have kept' : isSkipped line = false := by
      rw [Bool.eq_false_iff, ne_eq, isSkipped_iff]
      exact kept
    have reads' := readAssignment_of_cellLine solid reads
    simp [readLine, readOutside_of_plain plain, Reading.outcome, kept', reads']
  | closing starred closes =>
    simp [readLine, readInside, Reading.outcome, star.mpr starred, ending.mpr closes]
  | body inside fits =>
    have inside' : (startsWith "*" line && endsWith "*/" line) = false := by
      rw [Bool.eq_false_iff, ne_eq, Bool.and_eq_true, star, ending]
      exact inside
    have fits' : (line.isEmpty || startsWith "*" line || startsWith "/*" line) = true := by
      rw [Bool.or_eq_true, Bool.or_eq_true, List.isEmpty_iff, star, slash, or_assoc]
      exact fits
    simp only [readLine, readInside, Reading.outcome, inside', fits', if_true, if_false,
      Bool.false_eq_true, Option.map_none]
  | stray unfit =>
    have unfit' : (line.isEmpty || startsWith "*" line || startsWith "/*" line) = false := by
      rw [Bool.eq_false_iff, ne_eq, Bool.or_eq_true, Bool.or_eq_true, List.isEmpty_iff, star, slash,
        or_assoc]
      exact unfit
    have inside : (startsWith "*" line && endsWith "*/" line) = false := by
      rw [Bool.eq_false_iff, ne_eq, Bool.and_eq_true, star]
      exact fun starred => unfit (.inr (.inl starred.1))
    simp only [readLine, readInside, Reading.outcome, inside, unfit', if_true, if_false,
      Bool.false_eq_true, Option.map_some]
    rfl

theorem exists_line (inComment : Bool) (line : List Char) :
    ∃ next effect, Line inComment line next effect := by
  cases inComment with
  | false =>
    by_cases opens : Opens line
    · by_cases closed : ClosesAtOnce line
      · exact ⟨_, _, .comment opens closed⟩
      · exact ⟨_, _, .opening opens closed⟩
    · by_cases skip : IsSkipped line
      · exact ⟨_, _, .skipped opens skip⟩
      · obtain ⟨result, reads⟩ := exists_cellLine line
        exact ⟨_, _, .cell opens skip reads⟩
  | true =>
    by_cases closes : ['*'] <+: line ∧ ['*', '/'] <:+ line
    · exact ⟨_, _, .closing closes.1 closes.2⟩
    · by_cases fits : line = [] ∨ ['*'] <+: line ∨ Opens line
      · exact ⟨_, _, .body closes fits⟩
      · exact ⟨_, _, .stray fits⟩

theorem line_readLine (inComment : Bool) {line : List Char} (solid : EndsSolid line) :
    Line inComment line (readLine inComment line).outcome.1
      (readLine inComment line).outcome.2 := by
  obtain ⟨next, effect, reads⟩ := exists_line inComment line
  rw [readLine_of_line solid reads]
  exact reads

end Reading

section Storing

theorem Assignment.bytes_apply_of_covers {a : Assignment} {m : Memory} {k : Nat}
    (h : k < 0x40000) (covers : a.Covers k) : (a.apply m).bytes[k] = a.byte k := by
  obtain ⟨w, c, v⟩ := a
  have positive : 0 < w.cellBytes := by cases w <;> decide
  have place : w.cellBytes * c.val + k % w.cellBytes = k := by
    rw [← show k / w.cellBytes = c.val from covers]
    exact Nat.div_add_mod k w.cellBytes
  obtain ⟨inside, word⟩ := (m.set w c v).byte_get w c (Nat.mod_lt k positive)
  simp only [place, Memory.get_set_self] at word
  rw [Assignment.apply, word, Assignment.byte]
  cases w with
  | narrow =>
    have low := Nat.mod_lt k positive
    simp only [Width.cellBytes] at low ⊢
    have inside : 8 * (k % 2) + 8 ≤ 16 := by omega
    rw [Width.fit, Memory.extractLsb'_signExtend _ inside, BitVec.extractLsb'_setWidth_of_le inside]
  | wide => rfl

theorem Assignment.bytes_apply_of_not_covers {a : Assignment} {m : Memory} {k : Nat}
    (h : k < 0x40000) (apart : ¬ a.Covers k) : (a.apply m).bytes[k] = m.bytes[k] :=
  m.set_sameOutside a.width a.cell a.value k h apart

theorem Assignment.apply_eq_overlay (a : Assignment) (m : Memory) : a.apply m = a.overlay m := by
  apply Memory.eq_of_bytes
  intro k h
  rw [bytes_overlay a m h]
  split
  · next covers => exact bytes_apply_of_covers h covers
  · next apart => exact bytes_apply_of_not_covers h apart

theorem Assignment.bytes_of_two {a b : Assignment} {front : List (BitVec 8)}
    (agree : ∀ k < front.length, (if b.Covers k then b.byte k
      else if a.Covers k then a.byte k else 0) = front.getD k 0)
    (inside : ∀ k, a.Covers k ∨ b.Covers k → k < front.length) (k : Nat) (h : k < 0x40000) :
    (b.overlay (a.overlay .zeroed)).bytes[k] = front.getD k 0 := by
  rw [bytes_overlay _ _ h, bytes_overlay _ _ h, Memory.zeroed, Vector.getElem_replicate]
  by_cases small : k < front.length
  · exact agree k small
  · have apart : ¬ (a.Covers k ∨ b.Covers k) := fun covers => small (inside k covers)
    obtain ⟨apart, apart'⟩ := not_or.mp apart
    rw [if_neg apart', if_neg apart, List.getD_eq_getElem?_getD,
      List.getElem?_eq_none (Nat.le_of_not_lt small), Option.getD_none]

end Storing

section Feeding

def Defect.located (d : Defect) : Nat × Flaw.Kind := (d.line, d.flaw.kind)

def Loader.progress (l : Loader) : Progress :=
  ⟨l.memory, l.line, l.inComment, l.defects.map Defect.located⟩

theorem Loader.progress_push (memory : Memory) (line : Nat) (inComment : Bool)
    (events : Array Event) (e : Event) :
    (Loader.mk memory line inComment (events.push e)).progress =
      ⟨memory, line, inComment, (events.toList.filterMap Event.defect?).map Defect.located ++
        e.defect?.toList.map Defect.located⟩ := by
  rw [Loader.progress, Loader.defects, Array.toList_push, List.filterMap_append, List.map_append]
  cases e <;> rfl

theorem Loader.step_feed (l : Loader) {line : List Char} (solid : EndsSolid line) :
    Step l.progress line (l.feed line).progress := by
  obtain ⟨memory, number, inComment, events⟩ := l
  have reads := line_readLine inComment solid
  rw [Loader.feed]
  generalize readLine inComment line = reading at reads
  obtain ⟨next, effect⟩ := reading
  have before : Line (Loader.progress ⟨memory, number, inComment, events⟩).inComment line next
      (effect.map (Except.mapError Flaw.kind)) := reads
  match effect with
  | none => exact .quiet before
  | some (.ok a) =>
    change Step _ line
      (Loader.mk (a.apply memory) (number + 1) next (events.push (.stored (number + 1) a))).progress
    rw [Loader.progress_push, Event.defect?, Option.toList_none, List.map_nil, List.append_nil,
      a.apply_eq_overlay]
    exact .store before
  | some (.error flaw) =>
    change Step _ line (Loader.mk memory (number + 1) next
      (events.push (.refused ⟨number + 1, flaw⟩))).progress
    rw [Loader.progress_push]
    exact .refuse before

theorem Grammar.Line.unique {inComment next next' : Bool} {line : List Char}
    {effect effect' : Option (Except Flaw.Kind Assignment)} (solid : EndsSolid line)
    (h : Line inComment line next effect) (h' : Line inComment line next' effect') :
    next = next' ∧ effect = effect' := by
  have same := (readLine_of_line solid h).symm.trans (readLine_of_line solid h')
  simpa using same

theorem Grammar.Step.unique {p q q' : Progress} {line : List Char} (solid : EndsSolid line)
    (h : Step p line q) (h' : Step p line q') : q = q' := by
  cases h with
  | quiet reads =>
    cases h' <;> rename_i reads' <;> obtain ⟨rfl, same⟩ := reads.unique solid reads' <;> cases same
    rfl
  | store reads =>
    cases h' <;> rename_i reads' <;> obtain ⟨rfl, same⟩ := reads.unique solid reads' <;> cases same
    rfl
  | refuse reads =>
    cases h' <;> rename_i reads' <;> obtain ⟨rfl, same⟩ := reads.unique solid reads' <;> cases same
    rfl

theorem Loader.run_feed (l : Loader) {lines : List (List Char)}
    (solid : ∀ line ∈ lines, EndsSolid line) :
    Run l.progress lines (lines.foldl Loader.feed l).progress := by
  induction lines generalizing l with
  | nil => exact .done _
  | cons line lines ih =>
    rw [List.forall_mem_cons] at solid
    exact .line (l.step_feed solid.1) (ih (l.feed line) solid.2)

theorem Grammar.Run.unique {p q q' : Progress} {lines : List (List Char)}
    (solid : ∀ line ∈ lines, EndsSolid line) (h : Run p lines q) (h' : Run p lines q') :
    q = q' := by
  induction h with
  | done p =>
    cases h'
    rfl
  | line first rest ih =>
    rw [List.forall_mem_cons] at solid
    cases h' with
    | line first' rest' =>
      obtain rfl := first.unique solid.1 first'
      exact ih solid.2 rest'

theorem Loader.finish_eq (l : Loader) :
    l.finish.memory = l.progress.memory ∧
      l.finish.defects.map Defect.located = l.progress.allErrors := by
  obtain ⟨memory, number, inComment, events⟩ := l
  cases inComment with
  | false => exact ⟨rfl, rfl⟩
  | true =>
    have pushed := Loader.progress_push memory number true events
      (.refused ⟨number, .unterminatedComment⟩)
    exact ⟨rfl, congrArg Progress.errors pushed⟩

theorem Loader.accepted_of_nil {l : Loader} (none : l.defects = []) :
    l.accepted = .ok l.memory := by
  rw [Loader.accepted, none]

theorem Loader.accepted_of_ne_nil {l : Loader} (present : l.defects ≠ []) :
    l.accepted = .error (.defective l.defects) := by
  obtain ⟨d, ds, found⟩ := List.exists_cons_of_ne_nil present
  rw [Loader.accepted, found]

end Feeding

theorem load_of_run {memory : Memory} {text : String} {p : Progress}
    (run : Run (.start memory) (lines text.toList) p) :
    (load memory text).memory = p.memory ∧
      (load memory text).defects.map Defect.located = p.allErrors := by
  have solid : ∀ line ∈ lines text.toList, EndsSolid line :=
    fun line member => (trimmed_of_mem_lines member).2
  obtain rfl := run.unique solid (Loader.run_feed ⟨memory, 0, false, #[]⟩ solid)
  exact Loader.finish_eq _

theorem exists_run (memory : Memory) (text : String) :
    ∃ p, Run (.start memory) (lines text.toList) p :=
  ⟨_, Loader.run_feed ⟨memory, 0, false, #[]⟩ fun _ member => (trimmed_of_mem_lines member).2⟩

/-- An image is loaded as the grammar says: what is in memory and the errors with their line
numbers are those with which the automaton ends on the lines of the text. -/
theorem load_iff_run (memory memory' : Memory) (text : String) (errors : List (Nat × Flaw.Kind)) :
    (load memory text).memory = memory' ∧
        (load memory text).defects.map Defect.located = errors ↔
      ∃ ls p, LinesOf text.toList ls ∧ Run (.start memory) ls p ∧ p.memory = memory' ∧
        p.allErrors = errors := by
  constructor
  · rintro ⟨rfl, rfl⟩
    obtain ⟨p, run⟩ := exists_run memory text
    obtain ⟨memory_eq, errors_eq⟩ := load_of_run run
    exact ⟨_, p, linesOf_iff.mpr rfl, run, memory_eq.symm, errors_eq.symm⟩
  · rintro ⟨ls, p, cut, run, rfl, rfl⟩
    obtain rfl := linesOf_iff.mp cut
    exact load_of_run run

/-- A comment, a narrow cell, a wide one, a short address and a comment that stays open. -/
theorem load_iff_run_mixed :
    let text := "/* head\r\n * body\n */\n01:12aB  // low\n0001:89ABCDEF\n1:0\n/*"
    ∃ ls p, LinesOf text.toList ls ∧ Run (.start .zeroed) ls p ∧
      p.memory = (load .zeroed text).memory ∧
      (∀ (k : Nat) (h : k < 0x40000), (load .zeroed text).memory.bytes[k] =
        [0, 0, 0xAB, 0x12, 0xEF, 0xCD, 0xAB, 0x89].getD k 0) ∧
      p.allErrors = [(6, .malformedAddress), (7, .unterminatedComment)] := by
  intro text
  have stored (m : Memory) : (load m text).memory =
      Assignment.apply ⟨.wide, ⟨1, by decide⟩, 0x89ABCDEF⟩
        (Assignment.apply ⟨.narrow, ⟨1, by decide⟩, 0x12AB⟩ m) := by
    unfold text
    rfl
  have errors : (load .zeroed text).defects.map Defect.located =
      [(6, .malformedAddress), (7, .unterminatedComment)] := by decide +kernel
  obtain ⟨ls, p, cut, run, memory, all⟩ := (load_iff_run .zeroed _ text _).mp ⟨rfl, errors⟩
  refine ⟨ls, p, cut, run, memory, ?_, all⟩
  rw [stored, Assignment.apply_eq_overlay, Assignment.apply_eq_overlay]
  refine Assignment.bytes_of_two (by decide) fun k covers => ?_
  simp only [Assignment.Covers, Width.cellBytes] at covers
  change k < 8
  omega

end ToyMachine.Image
