import ToyMachine.Journal
import ToyMachine.Proofs.Display.Table
import ToyMachine.Proofs.Image.Dump

/-! The log of a load, which is its journal as text. It has one entry for each line that stores and
for each error, in the order of the lines, and none for a line that is skipped. The digits of an
entry tell the cell and the word, and the number of the word's digits the width; so the log can be
read back, and storing what it says gives the memory that the load gave. -/

namespace ToyMachine

def Notice.entry (n : Notice) : String :=
  n.level.name ++ " " ++ n.located

namespace Image

open Text Grammar

def Loader.entries (v : Verbosity) (l : Loader) : List String :=
  ((l.events.toList.map Notice.loading).filter fun n => v.shows n.level).map Notice.entry

section Entries

/-- The entry for an event. A narrow cell has two digits and its word four; a wide cell has four
and its word eight. -/
def Event.entry : Event → String
  | stored line a => "INFO [xtoy::memory::parse] [" ++ toString line ++ "] M[" ++
      String.ofList (Hex.fixed a.width.addressDigits a.cell.val) ++ "] <- " ++
      String.ofList (Hex.fixed a.width.wordDigits (a.width.pattern a.value).toNat)
  | refused d => "ERROR [xtoy::memory::parse] " ++ d.message

theorem entry_loading (e : Event) : (Notice.loading e).entry = e.entry := by
  cases e with
  | stored line a =>
    have address : Hex.padded a.width.addressDigits a.cell.val =
        Hex.fixed a.width.addressDigits a.cell.val := by
      apply Hex.padded_eq a.width.addressDigits_pos
      rw [a.width.reach_addressDigits]
      exact a.cell.isLt
    unfold Notice.entry Event.entry Notice.located Notice.text Width.hex
    dsimp only [Notice.level, Notice.origin, Level.name]
    rw [address]
    simp only [← String.append_assoc, String.reduceAppend]
  | refused d =>
    unfold Notice.entry Event.entry Notice.located Notice.text
    dsimp only [Notice.level, Notice.origin, Level.name]
    simp only [← String.append_assoc, String.reduceAppend]

theorem entries_eq {v : Verbosity} (verbose : v.shows .info = true) (l : Loader) :
    l.entries v = l.events.toList.map Event.entry := by
  have shown (e : Event) : v.shows (Notice.loading e).level = true := by
    cases v with
    | none => simp [Verbosity.shows] at verbose
    | some least => cases e <;> cases least <;> simp_all [Verbosity.shows, Notice.level, Level.rank]
  rw [Loader.entries, List.filter_eq_self.mpr, List.map_map]
  · exact List.map_congr_left fun e _ => entry_loading e
  · simp [shown]

end Entries

section Reading

/-- What an entry says was stored. The width is that of a value with so many digits. -/
def readEntry? (entry : String) : Option Assignment := do
  let located ← "INFO ".toList.isPrefixOf? entry.toList
  let named ← "M[".toList.isPrefixOf? (located.dropWhile (· ≠ 'M'))
  let (address, behind) := named.span (· ≠ ']')
  let value ← "] <- ".toList.isPrefixOf? behind
  let w ← widthOfLength value.length
  let number ← Hex.read? address
  let cell ← (w.cell? number).toOption
  let v ← Hex.read? value
  pure ⟨w, cell, BitVec.ofNat 32 v⟩

theorem isPrefixOf?_append (front behind : List Char) :
    front.isPrefixOf? (front ++ behind) = some behind :=
  List.isPrefixOf?_eq_some_iff_append_eq.mpr rfl

theorem isDigit_of_mem_toString {n : Nat} {c : Char} (member : c ∈ (toString n).toList) :
    c.isDigit = true := by
  rw [Nat.toString_eq_ofList_toDigits, String.toList_ofList] at member
  exact Nat.isDigit_of_mem_toDigits (by decide) (by decide) member

def origin (line : Nat) : List Char :=
  "[xtoy::memory::parse] [".toList ++ ((toString line).toList ++ "] ".toList)

theorem notMem_origin (line : Nat) : 'M' ∉ origin line := by
  intro member
  rcases List.mem_append.mp member with first | member
  · exact absurd first (by decide)
  · rcases List.mem_append.mp member with digit | last
    · exact absurd (isDigit_of_mem_toString digit) (by decide)
    · exact absurd last (by decide)

theorem toList_entry_stored (line : Nat) (a : Assignment) :
    (Event.stored line a).entry.toList = "INFO ".toList ++ (origin line ++ ("M[".toList ++
      (Hex.fixed a.width.addressDigits a.cell.val ++ ("] <- ".toList ++
        Hex.fixed a.width.wordDigits (a.width.pattern a.value).toNat)))) := by
  have opening : "INFO [xtoy::memory::parse] [".toList =
      "INFO ".toList ++ "[xtoy::memory::parse] [".toList := by decide
  have named : "] M[".toList = "] ".toList ++ "M[".toList := by decide
  unfold Event.entry origin
  simp only [String.toList_append, String.toList_ofList, List.append_assoc, opening, named]

theorem dropWhile_origin (line : Nat) (rest : List Char) :
    (origin line ++ ("M[".toList ++ rest)).dropWhile (· ≠ 'M') = "M[".toList ++ rest := by
  have plain : ∀ c ∈ origin line, c ≠ 'M' := fun c member same => notMem_origin line (same ▸ member)
  rw [List.dropWhile_append_of_pos (by simpa using plain)]
  rfl

theorem span_fixed (k n : Nat) (rest : List Char) :
    (Hex.fixed k n ++ ("] <- ".toList ++ rest)).span (· ≠ ']') =
      (Hex.fixed k n, "] <- ".toList ++ rest) := by
  have plain : ∀ c ∈ Hex.fixed k n, c ≠ ']' := by
    rintro c member rfl
    exact absurd (isDigit_of_mem_fixed member) (by decide)
  apply span_eq (by simpa using plain)
  rintro c ⟨⟩
  rfl

theorem readEntry?_stored (line : Nat) (a : Assignment) : readEntry? (Event.stored line a).entry =
    some ⟨a.width, a.cell, a.width.pattern a.value⟩ := by
  have width : widthOfLength a.width.wordDigits = some a.width :=
    (widthOfLength_eq_some_iff _ _).mpr rfl
  have address := Width.read?_addressDigits a.cell.isLt
  have word := a.width.read?_digits a.value
  unfold readEntry?
  simp only [toList_entry_stored, isPrefixOf?_append, dropWhile_origin, span_fixed,
    Hex.fixed_length, width, address, word, Option.bind_eq_bind,
    Option.bind_some, Width.cell?_eq a.cell.isLt, Except.toOption, BitVec.ofNat_toNat,
    BitVec.setWidth_eq]
  rfl

theorem readEntry?_refused (d : Defect) : readEntry? (Event.refused d).entry = none := by
  have absent : "INFO ".toList.isPrefixOf? (Event.refused d).entry.toList = none := by
    unfold Event.entry
    rw [String.toList_append]
    rfl
  unfold readEntry?
  rw [absent]
  rfl

end Reading

section Replaying

/-- Writes the bytes of what the entries say was stored, one after the other. -/
def replay (memory : Memory) (log : List String) : Memory :=
  (log.filterMap readEntry?).foldl (fun m a => a.overlay m) memory

theorem replay_stored (memory : Memory) (line : Nat) (a : Assignment) (log : List String) :
    replay memory ((Event.stored line a).entry :: log) = replay (a.apply memory) log := by
  have same : Assignment.overlay ⟨a.width, a.cell, a.width.pattern a.value⟩ memory =
      a.apply memory := by
    rw [← Assignment.apply_eq_overlay]
    exact set_pattern memory a.width a.cell a.value
  rw [replay, List.filterMap_cons_some (readEntry?_stored line a), List.foldl_cons, replay, same]

theorem replay_refused (memory : Memory) (d : Defect) (log : List String) :
    replay memory ((Event.refused d).entry :: log) = replay memory log := by
  rw [replay, List.filterMap_cons_none (readEntry?_refused d), replay]

end Replaying

section Journal

/-- The errors and the log of these lines, from the number of the line before them on: a line that
stores or is refused has one entry, any other has none, and a comment that is open at the end has
the last one. -/
inductive Journal : Nat → Bool → List (List Char) → List Defect → List String → Prop where
  | closed (n : Nat) : Journal n false [] [] []
  | unclosed (n : Nat) : Journal n true [] [⟨n, .unterminatedComment⟩]
      [(Event.refused ⟨n, .unterminatedComment⟩).entry]
  | quiet {n : Nat} {inComment next : Bool} {line : List Char} {lines : List (List Char)}
      {defects : List Defect} {log : List String} (reads : Line inComment line next none)
      (rest : Journal (n + 1) next lines defects log) :
      Journal n inComment (line :: lines) defects log
  | stored {n : Nat} {inComment next : Bool} {line : List Char} {lines : List (List Char)}
      {defects : List Defect} {log : List String} {a : Assignment}
      (reads : Line inComment line next (some (.ok a)))
      (rest : Journal (n + 1) next lines defects log) :
      Journal n inComment (line :: lines) defects ((Event.stored (n + 1) a).entry :: log)
  | refused {n : Nat} {inComment next : Bool} {line : List Char} {lines : List (List Char)}
      {defects : List Defect} {log : List String} {flaw : Flaw}
      (reads : Line inComment line next (some (.error flaw.kind)))
      (rest : Journal (n + 1) next lines defects log) :
      Journal n inComment (line :: lines) (⟨n + 1, flaw⟩ :: defects)
        ((Event.refused ⟨n + 1, flaw⟩).entry :: log)

structure Loader.Adds (l : Loader) (lines : List (List Char)) (more : List Event)
    (final : Loader) : Prop where
  events : final.events.toList = l.events.toList ++ more
  memory : final.memory = replay l.memory (more.map Event.entry)
  journal : Journal l.line l.inComment lines (more.filterMap Event.defect?) (more.map Event.entry)

theorem Loader.adds_finish (l : Loader) : ∃ events, l.Adds [] events l.finish := by
  obtain ⟨memory, number, inComment, events⟩ := l
  cases inComment with
  | false => exact ⟨[], (List.append_nil _).symm, rfl, .closed number⟩
  | true =>
    refine ⟨[.refused ⟨number, .unterminatedComment⟩], Array.toList_push .., ?_, .unclosed number⟩
    exact (replay_refused memory _ []).symm

theorem Loader.adds_feed (l : Loader) {lines : List (List Char)}
    (solid : ∀ line ∈ lines, EndsSolid line) :
    ∃ events, l.Adds lines events (lines.foldl Loader.feed l).finish := by
  -- What has been read is in the loader, so the events to come are found from any loader.
  induction lines generalizing l with
  | nil => exact l.adds_finish
  | cons line lines ih =>
    rw [List.forall_mem_cons] at solid
    obtain ⟨memory, number, inComment, before⟩ := l
    have reads := line_readLine inComment solid.1
    rw [List.foldl_cons, Loader.feed]
    generalize readLine inComment line = reading at reads
    obtain ⟨next, effect⟩ := reading
    cases effect with
    | none =>
      obtain ⟨events, added⟩ := ih ⟨memory, number + 1, next, before⟩ solid.2
      exact ⟨events, added.events, added.memory, .quiet reads added.journal⟩
    | some result =>
      cases result with
      | ok a =>
        obtain ⟨events, added⟩ := ih ⟨a.apply memory, number + 1, next,
          before.push (.stored (number + 1) a)⟩ solid.2
        refine ⟨.stored (number + 1) a :: events, ?_, ?_, .stored reads added.journal⟩
        · rw [added.events, Array.toList_push, List.append_assoc]
          rfl
        · exact added.memory.trans (replay_stored memory (number + 1) a _).symm
      | error flaw =>
        obtain ⟨events, added⟩ := ih ⟨memory, number + 1, next,
          before.push (.refused ⟨number + 1, flaw⟩)⟩ solid.2
        refine ⟨.refused ⟨number + 1, flaw⟩ :: events, ?_, ?_, .refused reads added.journal⟩
        · rw [added.events, Array.toList_push, List.append_assoc]
          rfl
        · exact added.memory.trans (replay_refused memory _ _).symm

/-- From the level of information on, the log of a load is complete: it has the entries of the lines
and errors in their order, and storing again what it says gives the same memory. -/
theorem load_journal {v : Verbosity} (verbose : v.shows .info = true) (memory : Memory)
    (text : String) :
    (∃ ls, LinesOf text.toList ls ∧
      Journal 0 false ls (load memory text).defects ((load memory text).entries v)) ∧
      replay memory ((load memory text).entries v) = (load memory text).memory := by
  have solid : ∀ line ∈ lines text.toList, EndsSolid line :=
    fun line member => (trimmed_of_mem_lines member).2
  obtain ⟨events, added⟩ := Loader.adds_feed ⟨memory, 0, false, #[]⟩ solid
  have all : (load memory text).events.toList = events := added.events
  rw [entries_eq verbose, Loader.defects, all]
  exact ⟨⟨_, linesOf_iff.mpr rfl, added.journal⟩, added.memory.symm⟩

/-- A wide cell, a narrow one over half of it, an error and a comment that is never closed. -/
theorem load_journal_mixed :
    let text := "0001:0FFF1234 // wide\n03:7a05\nzz\n/* open"
    let log := ["INFO [xtoy::memory::parse] [1] M[0001] <- 0FFF1234",
      "INFO [xtoy::memory::parse] [2] M[03] <- 7A05",
      "ERROR [xtoy::memory::parse] error [ln: 3]: missing `:` separator - " ++
        "expected `ADDRESS:VALUE`, found `zz`",
      "ERROR [xtoy::memory::parse] error [ln: 4]: unterminated multi line comment - " ++
        "image ended inside `/*`"]
    (∃ ls, LinesOf text.toList ls ∧ Journal 0 false ls (load .zeroed text).defects log) ∧
      replay .zeroed log = (load .zeroed text).memory ∧
      ∀ (k : Nat) (h : k < 0x40000), (load .zeroed text).memory.bytes[k] =
        [0, 0, 0, 0, 0x34, 0x12, 0x05, 0x7A].getD k 0 := by
  intro text log
  have written : (load .zeroed text).entries (some .info) = log := by decide +kernel
  have complete := load_journal (v := some .info) rfl .zeroed text
  rw [written] at complete
  refine ⟨complete.1, complete.2, ?_⟩
  have read : log.filterMap readEntry? =
      [⟨.wide, ⟨1, by decide⟩, 0x0FFF1234⟩, ⟨.narrow, ⟨3, by decide⟩, 0x7A05⟩] := by rfl
  rw [← complete.2, replay, read, List.foldl_cons, List.foldl_cons, List.foldl_nil]
  refine Assignment.bytes_of_two (by decide) fun k covers => ?_
  simp only [Assignment.Covers, Width.cellBytes] at covers
  change k < 8
  omega

end Journal

end Image

end ToyMachine
