import Mathlib.Data.List.TakeWhile
import ToyMachine.Text.Pieces

/-! Lines and the blanks at their ends. Trimming takes blanks away until the first and the
last character are solid, and takes nothing else; the lines of a text are its pieces up to
each line feed, trimmed. `LinesOf` says so without cutting or trimming. -/

namespace ToyMachine.Text

def EndsSolid (cs : List Char) : Prop := ∀ c ∈ cs.getLast?, isBlank c = false

def BeginsSolid (cs : List Char) : Prop := ∀ c ∈ cs.head?, isBlank c = false

def Trimmed (cs : List Char) : Prop := BeginsSolid cs ∧ EndsSolid cs

theorem beginsSolid_trimStart (cs : List Char) : BeginsSolid (trimStart cs) := by
  intro c first
  have head := List.head?_dropWhile_not isBlank cs
  rw [trimStart, Option.mem_def] at first
  rw [first] at head
  exact head

theorem trimStart_eq_self {cs : List Char} (h : BeginsSolid cs) : trimStart cs = cs := by
  cases cs with
  | nil => rfl
  | cons c cs => exact List.dropWhile_cons_of_neg (by simp [h c rfl])

theorem trimStart_append_of_blank {blanks : List Char} (blank : ∀ c ∈ blanks, isBlank c = true)
    (cs : List Char) : trimStart (blanks ++ cs) = trimStart cs :=
  List.dropWhile_append_of_pos blank

theorem exists_trimStart (cs : List Char) :
    ∃ blanks, (∀ c ∈ blanks, isBlank c = true) ∧ cs = blanks ++ trimStart cs :=
  ⟨cs.takeWhile isBlank, fun _ member => List.mem_takeWhile_imp member,
    List.takeWhile_append_dropWhile.symm⟩

theorem EndsSolid.of_append {xs ys : List Char} (h : EndsSolid (xs ++ ys)) : EndsSolid ys := by
  intro c last
  apply h c
  rw [List.getLast?_append, Option.mem_def.mp last]
  rfl

theorem EndsSolid.append {ys : List Char} (h : EndsSolid ys) (present : ys ≠ [])
    (xs : List Char) : EndsSolid (xs ++ ys) := by
  intro c last
  obtain ⟨d, last'⟩ := Option.ne_none_iff_exists'.mp (mt List.getLast?_eq_none_iff.mp present)
  rw [List.getLast?_append, last', Option.some_or, ← last'] at last
  exact h c last

theorem EndsSolid.eq_nil {cs : List Char} (h : EndsSolid cs)
    (blank : ∀ c ∈ cs, isBlank c = true) : cs = [] := by
  cases last : cs.getLast? with
  | none => exact List.getLast?_eq_none_iff.mp last
  | some c =>
    have isBlank' := blank c (List.mem_of_getLast? last)
    exact absurd (h c last) (by simp [isBlank'])

theorem EndsSolid.trimStart {cs : List Char} (h : EndsSolid cs) :
    EndsSolid (Text.trimStart cs) := by
  obtain ⟨blanks, -, parts⟩ := exists_trimStart cs
  rw [parts] at h
  exact h.of_append

theorem beginsSolid_reverse {cs : List Char} : BeginsSolid cs.reverse ↔ EndsSolid cs := by
  rw [BeginsSolid, List.head?_reverse, EndsSolid]

theorem trimEnd_eq (cs : List Char) : trimEnd cs = (trimStart cs.reverse).reverse := rfl

theorem endsSolid_trimEnd (cs : List Char) : EndsSolid (trimEnd cs) := by
  rw [← beginsSolid_reverse, trimEnd_eq, List.reverse_reverse]
  exact beginsSolid_trimStart _

theorem trimEnd_eq_self {cs : List Char} (h : EndsSolid cs) : trimEnd cs = cs := by
  rw [trimEnd_eq, trimStart_eq_self (beginsSolid_reverse.mpr h), List.reverse_reverse]

theorem trimEnd_append_of_blank {blanks : List Char} (blank : ∀ c ∈ blanks, isBlank c = true)
    (cs : List Char) : trimEnd (cs ++ blanks) = trimEnd cs := by
  have backwards : ∀ c ∈ blanks.reverse, isBlank c = true := by simpa using blank
  rw [trimEnd_eq, List.reverse_append, trimStart_append_of_blank backwards, ← trimEnd_eq]

theorem trimEnd_append {xs : List Char} (solid : EndsSolid xs) (ys : List Char) :
    trimEnd (xs ++ ys) = xs ++ trimEnd ys := by
  have kept := trimStart_eq_self (beginsSolid_reverse.mpr solid)
  rw [trimEnd_eq, List.reverse_append, trimStart, List.dropWhile_append, ← trimStart]
  split
  · next all =>
    have none : trimStart ys.reverse = [] := by simpa using all
    rw [← trimStart, kept, List.reverse_reverse, trimEnd_eq, none, List.reverse_nil,
      List.append_nil]
  · rw [List.reverse_append, List.reverse_reverse, trimEnd_eq]

theorem exists_trimEnd (cs : List Char) :
    ∃ blanks, (∀ c ∈ blanks, isBlank c = true) ∧ cs = trimEnd cs ++ blanks := by
  refine ⟨(cs.reverse.takeWhile isBlank).reverse, ?_, ?_⟩
  · intro c member
    exact List.mem_takeWhile_imp (List.mem_reverse.mp member)
  · rw [trimEnd, ← List.reverse_append, List.takeWhile_append_dropWhile, List.reverse_reverse]

theorem beginsSolid_trimEnd {cs : List Char} (h : BeginsSolid cs) : BeginsSolid (trimEnd cs) := by
  obtain ⟨blanks, -, parts⟩ := exists_trimEnd cs
  intro c first
  cases trimmed : trimEnd cs with
  | nil => simp [trimmed] at first
  | cons d ds =>
    rw [trimmed] at first parts
    apply h c
    rw [parts]
    exact first

theorem trimmed_trim (cs : List Char) : Trimmed (trim cs) :=
  ⟨beginsSolid_trimEnd (beginsSolid_trimStart cs), endsSolid_trimEnd _⟩

theorem trim_eq_trimStart {cs : List Char} (h : EndsSolid (trimStart cs)) :
    trim cs = trimStart cs :=
  trimEnd_eq_self h

theorem trim_eq_trimEnd {cs : List Char} (h : BeginsSolid cs) : trim cs = trimEnd cs := by
  rw [trim, trimStart_eq_self h]

theorem trim_append_of_blank (cs : List Char) {blanks : List Char}
    (blank : ∀ c ∈ blanks, isBlank c = true) : trim (cs ++ blanks) = trim cs := by
  have none : trimStart blanks = [] := by
    have all := trimStart_append_of_blank blank []
    rwa [List.append_nil] at all
  rw [trim, trimStart, List.dropWhile_append, ← trimStart, ← trimStart]
  split
  · next empty =>
    rw [none, trim, List.isEmpty_iff.mp empty]
  · exact trimEnd_append_of_blank blank _

theorem trimmed_of_mem_lines {text line : List Char} (h : line ∈ lines text) : Trimmed line := by
  obtain ⟨piece, -, rfl⟩ := List.mem_map.mp h
  exact trimmed_trim piece

theorem length_le_utf8Length (cs : List Char) : cs.length ≤ utf8Length cs := by
  induction cs with
  | nil => rfl
  | cons c cs ih =>
    have positive := c.utf8Size_pos
    rw [utf8Length, List.length_cons]
    omega

theorem utf8Length_eq (cs : List Char) : utf8Length cs = (String.ofList cs).utf8ByteSize := by
  induction cs with
  | nil => rfl
  | cons c cs ih =>
    rw [String.ofList_cons, String.utf8ByteSize_append, String.utf8ByteSize_singleton, ← ih,
      utf8Length]

theorem cutAfter_append_cons {α : Type} {terminates : α → Bool} {piece : List α}
    (plain : ∀ a ∈ piece, terminates a = false) {a : α} (last : terminates a = true)
    (rest : List α) :
    cutAfter terminates (piece ++ a :: rest) = (piece ++ [a]) :: cutAfter terminates rest := by
  induction piece with
  | nil => rw [List.nil_append, cutAfter_cons, if_pos last, List.nil_append]
  | cons b piece ih =>
    rw [List.forall_mem_cons] at plain
    rw [List.cons_append, cutAfter_cons, ih plain.2, if_neg (by simp [plain.1])]
    rfl

theorem cutAfter_of_plain {α : Type} {terminates : α → Bool} {piece : List α}
    (plain : ∀ a ∈ piece, terminates a = false) (present : piece ≠ []) :
    cutAfter terminates piece = [piece] := by
  induction piece with
  | nil => exact absurd rfl present
  | cons b piece ih =>
    rw [List.forall_mem_cons] at plain
    rw [cutAfter_cons, if_neg (by simp [plain.1])]
    cases piece with
    | nil => rfl
    | cons c piece => rw [ih plain.2 (by simp), extendFirst]

theorem cutAfter_ne_nil {α : Type} (terminates : α → Bool) {as : List α} (present : as ≠ []) :
    cutAfter terminates as ≠ [] := by
  intro none
  have parts := cutAfter_flatten terminates as
  rw [none] at parts
  exact present parts.symm

theorem cutAfter_append {α : Type} {terminates : α → Bool} {as : List α}
    (ended : ∀ a ∈ as.getLast?, terminates a = true) (bs : List α) :
    cutAfter terminates (as ++ bs) = cutAfter terminates as ++ cutAfter terminates bs := by
  induction as with
  | nil => rfl
  | cons a as ih =>
    rw [List.cons_append, cutAfter_cons, cutAfter_cons]
    cases as with
    | nil =>
      have last : terminates a = true := ended a rfl
      rw [if_pos last, if_pos last]
      rfl
    | cons b as =>
      rw [ih ended]
      split
      · rfl
      · -- `a` goes in front of the first piece, which is there.
        obtain ⟨piece, pieces, first⟩ :=
          List.exists_cons_of_ne_nil (cutAfter_ne_nil terminates (List.cons_ne_nil b as))
        rw [first]
        rfl

theorem cutAfter_of_sublist {α : Type} {terminates : α → Bool} {as : List α}
    {picked : List (List α)} (sublist : picked.Sublist (cutAfter terminates as)) :
    cutAfter terminates picked.flatten = picked := by
  induction as generalizing picked with
  | nil =>
    obtain rfl := List.sublist_nil.mp sublist
    rfl
  | cons a as ih =>
    rw [cutAfter_cons] at sublist
    split at sublist
    · next ends =>
      rcases List.sublist_cons_iff.mp sublist with later | ⟨others, rfl, later⟩
      · exact ih later
      · rw [List.flatten_cons, List.singleton_append, cutAfter_cons, if_pos ends, ih later]
    · next continues =>
      cases pieces : cutAfter terminates as with
      | nil =>
        rw [pieces, extendFirst] at sublist
        rcases List.sublist_cons_iff.mp sublist with none | ⟨others, rfl, none⟩
        · obtain rfl := List.sublist_nil.mp none
          rfl
        · obtain rfl := List.sublist_nil.mp none
          rw [List.flatten_singleton, cutAfter_cons, if_neg continues]
          rfl
      | cons piece pieces' =>
        rw [pieces, extendFirst] at sublist
        rw [pieces] at ih
        rcases List.sublist_cons_iff.mp sublist with later | ⟨others, rfl, later⟩
        · exact ih (later.cons piece)
        · -- The piece that goes on in front has its own end.
          have rest := ih (later.cons_cons piece)
          rw [List.flatten_cons] at rest
          rw [List.flatten_cons, List.cons_append, cutAfter_cons, if_neg continues, rest,
            extendFirst]

theorem length_cutAfter {α : Type} {terminates : α → Bool} {as : List α}
    (ended : ∀ a ∈ as.getLast?, terminates a = true) :
    (cutAfter terminates as).length = as.countP terminates := by
  induction as with
  | nil => rfl
  | cons a as ih =>
    rw [cutAfter_cons]
    cases as with
    | nil =>
      have last : terminates a = true := ended a rfl
      rw [if_pos last, List.countP_cons_of_pos last]
      rfl
    | cons b as =>
      split
      · next ends => rw [List.length_cons, ih ended, List.countP_cons_of_pos ends]
      · next continues =>
        obtain ⟨piece, pieces, first⟩ :=
          List.exists_cons_of_ne_nil (cutAfter_ne_nil terminates (List.cons_ne_nil b as))
        rw [List.countP_cons_of_neg continues, ← ih ended, first]
        rfl

/-- The text is empty or its last line has its line feed. -/
def EndsLine (cs : List Char) : Prop := ∀ c ∈ cs.getLast?, c = '\n'

instance (cs : List Char) : Decidable (EndsLine cs) :=
  Option.decidableForallMem cs.getLast?

theorem lines_append {cs : List Char} (ended : EndsLine cs) (ds : List Char) :
    lines (cs ++ ds) = lines cs ++ lines ds := by
  have ended' : ∀ c ∈ cs.getLast?, (c == '\n') = true := fun c last => beq_of_eq (ended c last)
  rw [lines, cutAfter_append ended', List.map_append]
  rfl

theorem length_lines {cs : List Char} (ended : EndsLine cs) :
    (lines cs).length = cs.count '\n' := by
  have ended' : ∀ c ∈ cs.getLast?, (c == '\n') = true := fun c last => beq_of_eq (ended c last)
  rw [lines, List.length_map, length_cutAfter ended']
  rfl

def joined (ls : List (List Char)) : List Char :=
  ls.flatMap (· ++ ['\n'])

/-- The text has these lines; the line feed of the last one may be missing. -/
def HasLines (ls : List (List Char)) (text : List Char) : Prop :=
  text = joined ls ∨ text ++ ['\n'] = joined ls

theorem newline_ne_of_notMem {l : List Char} (plain : '\n' ∉ l) :
    ∀ c ∈ l, (c == '\n') = false :=
  fun _ member => beq_false_of_ne fun newline => plain (newline ▸ member)

theorem newline_blank : ∀ c ∈ ['\n'], isBlank c = true := by
  intro c member
  obtain rfl := List.mem_singleton.mp member
  rfl

theorem lines_joined_append {ls : List (List Char)} (plain : ∀ l ∈ ls, '\n' ∉ l)
    (last : List Char) : lines (joined ls ++ last) = ls.map trim ++ lines last := by
  induction ls with
  | nil => rfl
  | cons l ls ih =>
    rw [List.forall_mem_cons] at plain
    have piece := newline_ne_of_notMem plain.1
    have first : trim (l ++ ['\n']) = trim l := trim_append_of_blank l newline_blank
    rw [joined, List.flatMap_cons, ← joined, List.append_assoc, List.append_assoc,
      List.singleton_append, lines, cutAfter_append_cons piece rfl, List.map_cons, first, ← lines,
      ih plain.2]
    rfl

theorem lines_of_hasLines {ls : List (List Char)} {text : List Char} (h : HasLines ls text)
    (plain : ∀ l ∈ ls, l ≠ [] ∧ '\n' ∉ l) : lines text = ls.map trim := by
  rcases h with rfl | missing
  · have all := lines_joined_append (fun l member => (plain l member).2) []
    rw [List.append_nil] at all
    rw [all]
    exact List.append_nil _
  · rcases List.eq_nil_or_concat ls with rfl | ⟨front, last, rfl⟩
    · exact absurd missing (by simp [joined])
    · -- The last line is what follows the last line feed.
      rw [List.concat_eq_append] at missing plain ⊢
      rw [joined, List.flatMap_append, List.flatMap_singleton, ← List.append_assoc] at missing
      obtain rfl := List.append_cancel_right missing
      obtain ⟨present, alone⟩ := plain last (by simp)
      have front_plain : ∀ l ∈ front, '\n' ∉ l := fun l member => (plain l (by simp [member])).2
      rw [← joined, lines_joined_append front_plain, lines,
        cutAfter_of_plain (newline_ne_of_notMem alone) present, List.map_append]

section Specification

/-- A line as it stands in a text, between blanks, and the line without them. -/
inductive Trims : List Char → List Char → Prop where
  | intro {front line behind : List Char} (before : ∀ c ∈ front, isBlank c = true)
      (trimmed : Trimmed line) (after : ∀ c ∈ behind, isBlank c = true) :
      Trims (front ++ (line ++ behind)) line

/-- The lines of a text. Each goes up to a line feed, but for the last one, which may go up to
the end. -/
inductive LinesOf : List Char → List (List Char) → Prop where
  | none : LinesOf [] []
  | last {raw line : List Char} (present : raw ≠ []) (plain : '\n' ∉ raw)
      (trims : Trims raw line) : LinesOf raw [line]
  | line {raw line rest : List Char} {ls : List (List Char)} (plain : '\n' ∉ raw)
      (trims : Trims raw line) (more : LinesOf rest ls) :
      LinesOf (raw ++ '\n' :: rest) (line :: ls)

theorem trims_trim (raw : List Char) : Trims raw (trim raw) := by
  obtain ⟨front, before, parts⟩ := exists_trimStart raw
  obtain ⟨behind, after, parts'⟩ := exists_trimEnd (trimStart raw)
  have whole : raw = front ++ (trim raw ++ behind) := parts.trans (congrArg _ parts')
  have trims := Trims.intro before (trimmed_trim raw) after
  rwa [← whole] at trims

theorem Trims.trim_eq {raw line : List Char} (h : Trims raw line) : trim raw = line := by
  obtain ⟨before, ⟨begins, ends⟩, after⟩ := h
  rw [← List.append_assoc, trim_append_of_blank _ after, trim,
    trimStart_append_of_blank before, trimStart_eq_self begins, trimEnd_eq_self ends]

theorem lines_append_cons {raw : List Char} (plain : '\n' ∉ raw) (rest : List Char) :
    lines (raw ++ '\n' :: rest) = trim raw :: lines rest := by
  have only : ∀ l ∈ [raw], '\n' ∉ l := by simpa using plain
  simpa [joined] using lines_joined_append only rest

theorem LinesOf.lines_eq {text : List Char} {ls : List (List Char)} (h : LinesOf text ls) :
    lines text = ls := by
  induction h with
  | none => rfl
  | last present plain trims =>
    rw [lines, cutAfter_of_plain (newline_ne_of_notMem plain) present, List.map_singleton,
      trims.trim_eq]
  | line plain trims more ih => rw [lines_append_cons plain, trims.trim_eq, ih]

theorem exists_linesOf (text : List Char) : ∃ ls, LinesOf text ls := by
  -- One more character in front is an empty line or becomes part of the first line.
  induction text with
  | nil => exact ⟨[], .none⟩
  | cons c text ih =>
    obtain ⟨ls, known⟩ := ih
    by_cases newline : c = '\n'
    · subst newline
      exact ⟨_, @LinesOf.line [] _ _ _ (by simp) (trims_trim []) known⟩
    · cases known with
      | none => exact ⟨_, .last (by simp) (by simpa using Ne.symm newline) (trims_trim [c])⟩
      | last present plain trims =>
        exact ⟨_, .last (by simp) (by simp [Ne.symm newline, plain]) (trims_trim (c :: text))⟩
      | @line raw _ _ _ plain trims more =>
        have plain' : '\n' ∉ c :: raw := by simp [Ne.symm newline, plain]
        exact ⟨_, .line plain' (trims_trim _) more⟩

theorem linesOf_iff {text : List Char} {ls : List (List Char)} :
    LinesOf text ls ↔ lines text = ls := by
  constructor
  · exact LinesOf.lines_eq
  · rintro rfl
    obtain ⟨ls, known⟩ := exists_linesOf text
    rwa [known.lines_eq]

end Specification

end ToyMachine.Text
