import Mathlib.Data.List.Induction
import ToyMachine.Proofs.Image.Append
import ToyMachine.Proofs.Image.Loading

/-! Faulty lines have no effect on the rest of an image. A line that is refused stores nothing
and leaves the loader in or out of a comment as it was, so the image without its refused lines
takes the loader through the same memories, and only a comment that is never closed is still
reported. Each line is refused at most once and under its own number, so the numbers of the
refused lines rise. -/

namespace ToyMachine

namespace Text

variable {α β : Type}

/-- The list without the places that have these numbers, counted from one. -/
def without (numbers : List Nat) (as : List α) : List α :=
  ((as.zipIdx 1).filter (·.2 ∉ numbers)).map Prod.fst

def withoutLines (numbers : List Nat) (text : List Char) : List Char :=
  (without numbers (cutAfter (· == '\n') text)).flatten

theorem without_sublist (numbers : List Nat) (as : List α) : (without numbers as).Sublist as := by
  have all := (List.filter_sublist (p := fun p => p.2 ∉ numbers) (l := as.zipIdx 1)).map Prod.fst
  rwa [List.zipIdx_map_fst] at all

theorem without_map (numbers : List Nat) (f : α → β) (as : List α) :
    without numbers (as.map f) = (without numbers as).map f := by
  rw [without, without, List.zipIdx_map, List.filter_map, List.map_map, List.map_map]
  rfl

theorem without_append_singleton (numbers : List Nat) (as : List α) (a : α) :
    without numbers (as ++ [a]) =
      without numbers as ++ if as.length + 1 ∈ numbers then [] else [a] := by
  rw [without, List.zipIdx_append, List.filter_append, List.map_append, Nat.add_comm 1]
  congr 1
  by_cases missing : as.length + 1 ∈ numbers <;> simp [missing]

theorem without_congr {numbers numbers' : List Nat} {as : List α}
    (same : ∀ n ≤ as.length, n ∈ numbers ↔ n ∈ numbers') :
    without numbers as = without numbers' as := by
  rw [without, without]
  congr 1
  apply List.filter_congr
  intro p member
  have bound := List.snd_lt_add_of_mem_zipIdx member
  rw [decide_eq_decide, same p.2 (by omega)]

theorem lines_withoutLines (numbers : List Nat) (text : List Char) :
    lines (withoutLines numbers text) = without numbers (lines text) := by
  rw [lines, withoutLines, cutAfter_of_sublist (without_sublist _ _), lines, without_map]

theorem append_intercalate (start : String) {ls : List String} (present : ls ≠ []) :
    start ++ "\n" ++ "\n".intercalate ls = start ++ String.join (ls.map ("\n" ++ ·)) := by
  induction ls generalizing start with
  | nil => exact absurd rfl present
  | cons l ls ih =>
    rw [List.map_cons, String.join_cons, ← String.append_assoc, ← String.append_assoc]
    cases ls with
    | nil => simp
    | cons l' ls =>
      rw [← ih _ (List.cons_ne_nil l' ls), String.intercalate_cons_cons]
      simp only [String.append_assoc]

end Text

namespace Image

open Text Grammar

theorem Grammar.Line.refused {inComment next : Bool} {line : List Char} {kind : Flaw.Kind}
    (h : Line inComment line next (some (.error kind))) :
    next = inComment ∧ kind ≠ .unterminatedComment := by
  cases h with
  | cell _ _ reads => cases reads <;> exact ⟨rfl, nofun⟩
  | stray => exact ⟨rfl, nofun⟩

namespace Loader

variable {l l' : Loader} {line : List Char}

def refusal? (l : Loader) (line : List Char) : Option Flaw :=
  match (readLine l.inComment line).effect with
  | some (.error flaw) => some flaw
  | _ => none

theorem defects_feed (l : Loader) (line : List Char) :
    (l.feed line).defects =
      l.defects ++ ((l.refusal? line).map (Defect.mk (l.line + 1))).toList := by
  obtain ⟨memory, number, inComment, events⟩ := l
  rw [feed, refusal?]
  split <;> simp_all [defects, Event.defect?]

theorem line_feed (l : Loader) (line : List Char) : (l.feed line).line = l.line + 1 :=
  line_foldl_feed l [line]

theorem feed_congr (memory : l'.memory = l.memory) (inComment : l'.inComment = l.inComment)
    (line : List Char) : (l'.feed line).memory = (l.feed line).memory ∧
      (l'.feed line).inComment = (l.feed line).inComment := by
  obtain ⟨_, number, _, events⟩ := l
  obtain ⟨_, number', _, events'⟩ := l'
  dsimp only at memory inComment
  subst memory inComment
  rw [feed, feed]
  split <;> exact ⟨rfl, rfl⟩

theorem line_of_refusal {flaw : Flaw} (solid : EndsSolid line)
    (refused : l.refusal? line = some flaw) :
    Line l.inComment line (readLine l.inComment line).inComment (some (.error flaw.kind)) := by
  have reads := line_readLine l.inComment solid
  rw [refusal?] at refused
  split at refused
  · next effect =>
    cases refused
    rwa [Reading.outcome, effect] at reads
  · simp at refused

theorem feed_of_refusal {flaw : Flaw} (solid : EndsSolid line)
    (refused : l.refusal? line = some flaw) :
    (l.feed line).memory = l.memory ∧ (l.feed line).inComment = l.inComment := by
  have kept := (line_of_refusal solid refused).refused.1
  obtain ⟨memory, number, inComment, events⟩ := l
  rw [refusal?] at refused
  rw [feed]
  split <;> simp_all

/-- The defects so far are those of different lines, in the order of the lines. -/
structure Orderly (l : Loader) : Prop where
  within : ∀ d ∈ l.defects, 1 ≤ d.line ∧ d.line ≤ l.line
  rising : (l.defects.map Defect.line).Pairwise (· < ·)
  own : ∀ d ∈ l.defects, d.flaw ≠ .unterminatedComment

theorem Orderly.pass (h : Orderly l) (same : l'.defects = l.defects) (counted : l.line ≤ l'.line) :
    Orderly l' := by
  refine ⟨?_, same ▸ h.rising, same ▸ h.own⟩
  intro d member
  obtain ⟨low, high⟩ := h.within d (same ▸ member)
  exact ⟨low, high.trans counted⟩

theorem Orderly.refuse (h : Orderly l) {flaw : Flaw} (ordinary : flaw ≠ .unterminatedComment)
    (added : l'.defects = l.defects ++ [⟨l.line + 1, flaw⟩]) (counted : l'.line = l.line + 1) :
    Orderly l' := by
  refine ⟨?_, ?_, ?_⟩
  · intro d member
    rw [added, List.mem_append, List.mem_singleton] at member
    rw [counted]
    rcases member with earlier | rfl
    · obtain ⟨low, high⟩ := h.within d earlier
      exact ⟨low, Nat.le_succ_of_le high⟩
    · exact ⟨Nat.succ_pos _, Nat.le_refl _⟩
  · rw [added, List.map_append, List.pairwise_append]
    refine ⟨h.rising, List.pairwise_singleton _ _, ?_⟩
    intro n before m this
    obtain ⟨d, earlier, rfl⟩ := List.mem_map.mp before
    obtain rfl : m = l.line + 1 := by simpa using this
    exact Nat.lt_succ_of_le (h.within d earlier).2
  · intro d member
    rw [added, List.mem_append, List.mem_singleton] at member
    rcases member with earlier | rfl
    · exact h.own d earlier
    · exact ordinary

theorem defects_feed_of_none (accepted : l.refusal? line = none) :
    (l.feed line).defects = l.defects := by
  rw [defects_feed, accepted]
  exact List.append_nil _

theorem defects_feed_of_some {flaw : Flaw} (refused : l.refusal? line = some flaw) :
    (l.feed line).defects = l.defects ++ [⟨l.line + 1, flaw⟩] := by
  rw [defects_feed, refused]
  rfl

theorem Orderly.feed (h : Orderly l) (solid : EndsSolid line) : Orderly (l.feed line) := by
  cases refused : l.refusal? line with
  | none =>
    refine h.pass (defects_feed_of_none refused) ?_
    rw [line_feed]
    exact Nat.le_succ _
  | some flaw =>
    refine h.refuse ?_ (defects_feed_of_some refused) (line_feed l line)
    rintro rfl
    exact (line_of_refusal solid refused).refused.2 rfl

theorem Orderly.feedAll (h : Orderly l) {lines : List (List Char)}
    (solid : ∀ line ∈ lines, EndsSolid line) : Orderly (lines.foldl Loader.feed l) := by
  induction lines generalizing l with
  | nil => exact h
  | cons line lines ih =>
    rw [List.forall_mem_cons] at solid
    exact ih (h.feed solid.1) solid.2

abbrev reading (memory : Memory) (lines : List (List Char)) : Loader :=
  lines.foldl feed ⟨memory, 0, false, #[]⟩

theorem orderly_reading (memory : Memory) {lines : List (List Char)}
    (solid : ∀ line ∈ lines, EndsSolid line) : Orderly (reading memory lines) := by
  have fresh : Orderly ⟨memory, 0, false, #[]⟩ := ⟨nofun, List.Pairwise.nil, nofun⟩
  exact fresh.feedAll solid

theorem line_reading (memory : Memory) (lines : List (List Char)) :
    (reading memory lines).line = lines.length := by
  rw [reading, line_foldl_feed]
  exact Nat.zero_add _

theorem reading_append_singleton (memory : Memory) (lines : List (List Char)) (line : List Char) :
    reading memory (lines ++ [line]) = (reading memory lines).feed line :=
  List.foldl_append

structure Unblemished (l l' : Loader) : Prop where
  memory : l'.memory = l.memory
  inComment : l'.inComment = l.inComment
  defects : l'.defects = []

theorem Unblemished.feed_both (h : Unblemished l l') (accepted : l.refusal? line = none) :
    Unblemished (l.feed line) (l'.feed line) := by
  obtain ⟨memory, inComment⟩ := feed_congr h.memory h.inComment line
  have accepted' : l'.refusal? line = none := by
    rw [refusal?, h.inComment]
    exact accepted
  exact ⟨memory, inComment, (defects_feed_of_none accepted').trans h.defects⟩

theorem Unblemished.feed_one (h : Unblemished l l') {flaw : Flaw} (solid : EndsSolid line)
    (refused : l.refusal? line = some flaw) : Unblemished (l.feed line) l' := by
  obtain ⟨memory, inComment⟩ := feed_of_refusal solid refused
  exact ⟨h.memory.trans memory.symm, h.inComment.trans inComment.symm, h.defects⟩

/-- The induction goes from the end, so that the numbers of the lines stay. -/
theorem unblemished_without (memory : Memory) {lines : List (List Char)}
    (solid : ∀ line ∈ lines, EndsSolid line) :
    Unblemished (reading memory lines)
      (reading memory (without ((reading memory lines).defects.map Defect.line) lines)) := by
  induction lines using List.reverseRecOn with
  | nil => exact ⟨rfl, rfl, rfl⟩
  | append_singleton lines line ih =>
    rw [List.forall_mem_append, List.forall_mem_singleton] at solid
    have read := ih solid.1
    have counted := line_reading memory lines
    have low : ∀ n ∈ (reading memory lines).defects.map Defect.line, n ≤ lines.length := by
      intro n member
      obtain ⟨d, among, rfl⟩ := List.mem_map.mp member
      exact counted ▸ ((orderly_reading memory solid.1).within d among).2
    rw [reading_append_singleton, without_append_singleton]
    cases refused : (reading memory lines).refusal? line with
    | none =>
      have kept : lines.length + 1 ∉ (reading memory lines).defects.map Defect.line :=
        fun member => absurd (low _ member) (by omega)
      rw [defects_feed_of_none refused, if_neg kept, reading_append_singleton]
      exact read.feed_both refused
    | some flaw =>
      rw [defects_feed_of_some refused, List.map_append, counted]
      have gone : lines.length + 1 ∈ (reading memory lines).defects.map Defect.line ++
          [⟨lines.length + 1, flaw⟩].map Defect.line := by simp
      have others : without ((reading memory lines).defects.map Defect.line ++
          [⟨lines.length + 1, flaw⟩].map Defect.line) lines =
            without ((reading memory lines).defects.map Defect.line) lines := by
        apply without_congr
        intro n bound
        simp only [List.map_cons, List.map_nil, List.mem_append, List.mem_singleton]
        exact ⟨fun member => member.resolve_right (by omega), .inl⟩
      rw [if_pos gone, List.append_nil, others]
      exact read.feed_one solid.2 refused

theorem defects_finish (l : Loader) : l.finish.defects =
    l.defects ++ if l.inComment then [⟨l.line, .unterminatedComment⟩] else [] := by
  obtain ⟨memory, number, inComment, events⟩ := l
  cases inComment <;> simp [finish, defects, Event.defect?]

theorem memory_finish (l : Loader) : l.finish.memory = l.memory := by
  cases l
  rfl

def ownDefects (l : Loader) : List Defect :=
  l.defects.filter (·.flaw ≠ .unterminatedComment)

theorem Orderly.ownDefects_finish (h : Orderly l) : l.finish.ownDefects = l.defects := by
  have kept : l.defects.filter (·.flaw ≠ .unterminatedComment) = l.defects :=
    List.filter_eq_self.mpr fun d member => decide_eq_true (h.own d member)
  rw [ownDefects, defects_finish, List.filter_append, kept]
  cases l.inComment <;> simp

theorem Orderly.unclosed_iff (h : Orderly l) :
    (∃ d ∈ l.finish.defects, d.flaw = .unterminatedComment) ↔ l.inComment = true := by
  rw [defects_finish]
  cases l.inComment with
  | false => simpa using h.own
  | true => simp

/-- Two defects of one line would have to be in order. -/
theorem Orderly.countP_le_one (h : Orderly l) (n : Nat) : l.defects.countP (·.line = n) ≤ 1 := by
  have distinct : (l.defects.map Defect.line).Nodup := h.rising.imp Nat.ne_of_lt
  have counted := List.nodup_iff_count_le_one.mp distinct n
  rw [List.count, List.countP_map] at counted
  exact counted

theorem line_pos_of_inComment (memory : Memory) {lines : List (List Char)}
    (unclosed : (reading memory lines).inComment = true) : 1 ≤ lines.length := by
  cases lines with
  | nil => simp at unclosed
  | cons => exact Nat.succ_pos _

end Loader

theorem report_eq {defects : List Defect} (present : defects ≠ []) :
    report defects = "memory image has " ++ toString defects.length ++ " error(s):" ++
      String.join (defects.map fun d => "\n" ++ d.message) := by
  have lines : defects.map Defect.message ≠ [] := by simpa using present
  have cut : " error(s):\n" = " error(s):" ++ "\n" := by rfl
  calc report defects
    _ = "memory image has " ++ toString defects.length ++ (" error(s):" ++ "\n") ++
          "\n".intercalate (defects.map Defect.message) :=
      congrArg (fun count => "memory image has " ++ toString defects.length ++ count ++
        "\n".intercalate (defects.map Defect.message)) cut
    _ = "memory image has " ++ toString defects.length ++ " error(s):" ++
          String.join ((defects.map Defect.message).map ("\n" ++ ·)) := by
      rw [← String.append_assoc, append_intercalate _ lines]
    _ = _ := by
      rw [List.map_map]
      rfl

/-- Without its faulty lines an image loads to the same memory, and nothing is left to report but
a comment that was never closed, if there was one. The defects of an image are those of
different lines in their order, and behind them the open comment under the number of the last
line. The image is refused if there are any, with all of them in the message. -/
theorem load_withoutLines (memory : Memory) (text : String) :
    let l := load memory text
    let count := (lines text.toList).length
    let cleaned := load memory
      (String.ofList (withoutLines (l.ownDefects.map Defect.line) text.toList))
    let unclosed (l : Loader) := ∃ d ∈ l.defects, d.flaw = .unterminatedComment
    cleaned.memory = l.memory ∧
    (∀ d ∈ cleaned.defects, d.flaw = .unterminatedComment) ∧
    (unclosed cleaned ↔ unclosed l) ∧
    (∀ d ∈ l.defects, 1 ≤ d.line ∧ d.line ≤ count) ∧
    (l.ownDefects.map Defect.line).Pairwise (· < ·) ∧
    (∀ n, l.ownDefects.countP (·.line = n) ≤ 1) ∧
    (l.defects = l.ownDefects ∨ l.defects = l.ownDefects ++ [⟨count, .unterminatedComment⟩]) ∧
    (l.defects = [] → l.accepted = .ok l.memory) ∧
    (l.defects ≠ [] → l.accepted = .error (.defective l.defects) ∧
      report l.defects = "memory image has " ++ toString l.defects.length ++ " error(s):" ++
        String.join (l.defects.map fun d => "\n" ++ d.message)) := by
  intro l count cleaned unclosed
  have solid : ∀ line ∈ lines text.toList, EndsSolid line :=
    fun line member => (trimmed_of_mem_lines member).2
  let read := Loader.reading memory (lines text.toList)
  have orderly : read.Orderly := Loader.orderly_reading memory solid
  have counted : read.line = count := Loader.line_reading memory _
  have own : l.ownDefects = read.defects := orderly.ownDefects_finish
  have all : l.defects = read.defects ++
      if read.inComment then [⟨read.line, .unterminatedComment⟩] else [] := read.defects_finish
  -- The lines that are left are read as the whole image is.
  let left := Loader.reading memory (without (read.defects.map Defect.line) (lines text.toList))
  have kept : cleaned = left.finish := by
    change (Loader.reading memory (lines (String.ofList _).toList)).finish = left.finish
    rw [String.toList_ofList, lines_withoutLines, own]
  have same : read.Unblemished left := Loader.unblemished_without memory solid
  have unblemished : left.Orderly := Loader.orderly_reading memory fun line member =>
    solid line ((without_sublist _ _).subset member)
  refine ⟨?_, ?_, ?_, ?_, ?_, ?_, ?_, ?_, ?_⟩
  · rw [kept, Loader.memory_finish, same.memory]
    exact read.memory_finish.symm
  · rw [kept, Loader.defects_finish, same.defects]
    cases left.inComment <;> simp
  · rw [kept]
    exact unblemished.unclosed_iff.trans (same.inComment ▸ orderly.unclosed_iff.symm)
  · intro d member
    rw [all, List.mem_append] at member
    rcases member with earlier | last
    · exact counted ▸ orderly.within d earlier
    · split at last
      · next unclosed =>
        rw [List.mem_singleton] at last
        rw [last, counted]
        exact ⟨Loader.line_pos_of_inComment memory unclosed, Nat.le_refl _⟩
      · simp at last
  · rw [own]
    exact orderly.rising
  · rw [own]
    exact orderly.countP_le_one
  · rw [all, own, counted]
    split
    · exact .inr rfl
    · exact .inl (List.append_nil _)
  · exact Loader.accepted_of_nil
  · exact fun present => ⟨Loader.accepted_of_ne_nil present, report_eq present⟩

end Image

end ToyMachine
