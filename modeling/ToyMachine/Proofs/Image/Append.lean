import ToyMachine.Journal
import ToyMachine.Proofs.Image.Loading

/-! Images one behind the other. A text that ends its last line and closes its comments leaves
the loader as a fresh one over the memory so far, but for the number of the line; so the next
text does what it would do by itself, and is reported under later numbers. A byte has the value
of the last line that stores over it, whichever width that line and the earlier ones are in. -/

namespace ToyMachine.Image

def Defect.moved (lines : Nat) (d : Defect) : Defect := ⟨d.line + lines, d.flaw⟩

def Event.moved (lines : Nat) : Event → Event
  | stored line a => stored (line + lines) a
  | refused d => refused (d.moved lines)

theorem Event.defect?_moved (lines : Nat) (e : Event) :
    (e.moved lines).defect? = e.defect?.map (Defect.moved lines) := by
  cases e <;> rfl

/-- The second load as a continuation of the first, which it knows nothing of. -/
def Loader.behind (first : Loader) : Loader → Loader
  | ⟨memory, line, inComment, events⟩ =>
    ⟨memory, line + first.line, inComment,
      first.events ++ events.map (Event.moved first.line)⟩

namespace Loader

section Behind

variable (first l : Loader)

theorem feed_behind (line : List Char) :
    (first.behind l).feed line = first.behind (l.feed line) := by
  obtain ⟨memory, number, inComment, events⟩ := l
  have next : number + first.line + 1 = number + 1 + first.line := Nat.add_right_comm ..
  rw [behind, feed, feed]
  obtain ⟨after, effect⟩ := readLine inComment line
  rcases effect with _ | flaw | a
  · simp only [behind, next]
  · simp only [behind, next, Array.map_push, Array.append_push, Event.moved, Defect.moved]
  · simp only [behind, next, Array.map_push, Array.append_push, Event.moved]

theorem foldl_feed_behind (lines : List (List Char)) :
    lines.foldl feed (first.behind l) = first.behind (lines.foldl feed l) := by
  induction lines generalizing l with
  | nil => rfl
  | cons line lines ih => rw [List.foldl_cons, List.foldl_cons, feed_behind, ih]

theorem finish_behind : (first.behind l).finish = first.behind l.finish := by
  obtain ⟨memory, number, inComment, events⟩ := l
  cases inComment with
  | false => rfl
  | true => simp only [behind, finish, if_true, Array.map_push, Array.append_push, Event.moved,
      Defect.moved]

theorem defects_behind :
    (first.behind l).defects = first.defects ++ l.defects.map (Defect.moved first.line) := by
  simp only [defects, behind, Array.toList_append, Array.toList_map, List.filterMap_append,
    List.filterMap_map, List.map_filterMap]
  congr 2
  funext e
  exact e.defect?_moved first.line

theorem behind_fresh (closed : l.inComment = false) :
    l.behind ⟨l.memory, 0, false, #[]⟩ = l := by
  obtain ⟨memory, number, inComment, events⟩ := l
  cases closed
  simp [behind]

theorem line_foldl_feed (lines : List (List Char)) :
    (lines.foldl feed l).line = l.line + lines.length := by
  induction lines generalizing l with
  | nil => rfl
  | cons line lines ih =>
    have next : (l.feed line).line = l.line + 1 := by
      rw [feed]
      split <;> rfl
    rw [List.foldl_cons, ih, next, List.length_cons]
    omega

end Behind

theorem line_finish (l : Loader) : l.finish.line = l.line := by
  cases l
  rfl

theorem inComment_of_closed {l : Loader}
    (closed : ∀ d ∈ l.finish.defects, d.flaw ≠ .unterminatedComment) : l.inComment = false := by
  obtain ⟨memory, number, inComment, events⟩ := l
  cases inComment with
  | false => rfl
  | true =>
    have reported : (⟨number, .unterminatedComment⟩ : Defect) ∈
        (Loader.mk memory number true events).finish.defects := by
      simp [finish, defects, Event.defect?]
    exact absurd rfl (closed _ reported)

theorem finish_of_closed {l : Loader} (closed : l.inComment = false) : l.finish = l := by
  obtain ⟨memory, number, inComment, events⟩ := l
  cases closed
  rfl

end Loader

open Text

theorem line_load (memory : Memory) (text : String) :
    (load memory text).line = (lines text.toList).length := by
  rw [load, Loader.line_finish, Loader.line_foldl_feed]
  exact Nat.zero_add _

theorem load_eq_behind {memory : Memory} {a b text : String}
    (parts : lines text.toList = lines a.toList ++ lines b.toList)
    (closed : ∀ d ∈ (load memory a).defects, d.flaw ≠ .unterminatedComment) :
    load memory text = (load memory a).behind (load (load memory a).memory b) := by
  have outside := Loader.inComment_of_closed closed
  have first : load memory a = (lines a.toList).foldl Loader.feed ⟨memory, 0, false, #[]⟩ :=
    Loader.finish_of_closed outside
  have fresh := Loader.behind_fresh (load memory a) (first ▸ outside)
  rw [load, parts, List.foldl_append, ← first, ← fresh, Loader.foldl_feed_behind,
    Loader.finish_behind, fresh]
  rfl

section Overriding

/-- The last line that stores over a byte gives it its value; a byte that no line stores over is
as it was at the start. -/
structure Loader.Settled (start : Memory) (l : Loader) : Prop where
  numbered : ∀ line a, .stored line a ∈ l.events → line ≤ l.line
  last : ∀ k (h : k < 0x40000) line a, .stored line a ∈ l.events → a.Covers k →
    (∀ line' b, .stored line' b ∈ l.events → line < line' → ¬ b.Covers k) →
    l.memory.bytes[k] = a.byte k
  kept : ∀ k (h : k < 0x40000), (∀ line a, .stored line a ∈ l.events → ¬ a.Covers k) →
    l.memory.bytes[k] = start.bytes[k]

namespace Loader

variable {start memory : Memory} {number : Nat} {events : Array Event}

theorem Settled.store {inComment : Bool}
    (settled : Settled start ⟨memory, number, inComment, events⟩) (a : Assignment) (next : Bool) :
    Settled start ⟨a.apply memory, number + 1, next, events.push (.stored (number + 1) a)⟩ := by
  have old {line : Nat} {b : Assignment} (member : .stored line b ∈ events) :
      Event.stored line b ∈ events.push (.stored (number + 1) a) :=
    Array.mem_push_of_mem _ member
  have new : Event.stored (number + 1) a ∈ events.push (.stored (number + 1) a) :=
    Array.mem_push_self
  refine ⟨?_, ?_, ?_⟩
  · intro line b member
    rcases Array.mem_push.mp member with earlier | this
    · exact Nat.le_succ_of_le (settled.numbered line b earlier)
    · cases this
      exact Nat.le_refl _
  · intro k h line b member covers later
    rcases Array.mem_push.mp member with earlier | this
    · have before := Nat.lt_succ_of_le (settled.numbered line b earlier)
      rw [Assignment.bytes_apply_of_not_covers h (later _ a new before)]
      exact settled.last k h line b earlier covers fun line' c among => later line' c (old among)
    · cases this
      exact Assignment.bytes_apply_of_covers h covers
  · intro k h apart
    rw [Assignment.bytes_apply_of_not_covers h (apart _ a new)]
    exact settled.kept k h fun line b member => apart line b (old member)

theorem Settled.pass {inComment : Bool}
    (settled : Settled start ⟨memory, number, inComment, events⟩) {number' : Nat}
    (counted : number ≤ number') (next : Bool) {events' : Array Event}
    (same : ∀ line a, Event.stored line a ∈ events' ↔ .stored line a ∈ events) :
    Settled start ⟨memory, number', next, events'⟩ := by
  refine ⟨?_, ?_, ?_⟩
  · intro line a member
    exact (settled.numbered line a ((same line a).mp member)).trans counted
  · intro k h line a member covers later
    exact settled.last k h line a ((same line a).mp member) covers fun line' b member' =>
      later line' b ((same line' b).mpr member')
  · intro k h apart
    exact settled.kept k h fun line a member => apart line a ((same line a).mpr member)

theorem stored_mem_push_refused (d : Defect) (line : Nat) (a : Assignment) :
    Event.stored line a ∈ events.push (.refused d) ↔ .stored line a ∈ events := by
  simp

theorem Settled.feed {l : Loader} (settled : Settled start l) (text : List Char) :
    Settled start (l.feed text) := by
  obtain ⟨memory, number, inComment, events⟩ := l
  have counted := Nat.le_succ number
  rw [Loader.feed]
  split
  · exact settled.pass counted _ fun _ _ => Iff.rfl
  · exact settled.store _ _
  · exact settled.pass counted _ (stored_mem_push_refused _)

theorem Settled.finish {l : Loader} (settled : Settled start l) : Settled start l.finish := by
  obtain ⟨memory, number, inComment, events⟩ := l
  cases inComment with
  | false => exact settled
  | true => exact settled.pass (Nat.le_refl number) _ (stored_mem_push_refused _)

theorem Settled.feedAll {l : Loader} (settled : Settled start l) (lines : List (List Char)) :
    Settled start (lines.foldl Loader.feed l) := by
  induction lines generalizing l with
  | nil => exact settled
  | cons line lines ih => exact ih (settled.feed line)

end Loader

theorem settled_load (memory : Memory) (text : String) :
    (load memory text).Settled memory := by
  have fresh : Loader.Settled memory ⟨memory, 0, false, #[]⟩ :=
    ⟨by simp, by simp, fun _ _ _ => rfl⟩
  exact (fresh.feedAll _).finish

end Overriding

def Loader.log (l : Loader) : List String :=
  l.events.toList.map fun e => (Notice.loading e).line

/-- Two images in one text are loaded as one after the other, and the second is reported under
the numbers that its lines have in the whole. Only the lines of the text count, and of those
that store over one byte, in whichever view, only the last. -/
theorem load_append (memory : Memory) {a : String} (b : String) (ended : EndsLine a.toList)
    (closed : ∀ d ∈ (load memory a).defects, d.flaw ≠ .unterminatedComment) :
    let first := load memory a
    let second := load first.memory b
    let both := load memory (a ++ b)
    let shift := (lines a.toList).length
    shift = a.toList.count '\n' ∧
    both.memory = second.memory ∧
    both.defects = first.defects ++ second.defects.map (Defect.moved shift) ∧
    both.defects.map Defect.message = first.defects.map Defect.message ++
      second.defects.map (fun d => "error [ln: " ++ toString (d.line + shift) ++ "]: " ++
        d.flaw.kindText ++ " - " ++ d.flaw.detail) ∧
    both.events = first.events ++ second.events.map (Event.moved shift) ∧
    both.log = first.log ++
      second.events.toList.map (fun e => (Notice.loading (e.moved shift)).line) ∧
    (∀ text : String, lines text.toList = lines a.toList ++ lines b.toList →
      load memory text = both) ∧
    both.Settled memory := by
  intro first second both shift
  have parts : lines (a ++ b).toList = lines a.toList ++ lines b.toList := by
    rw [String.toList_append, lines_append ended]
  have counted : first.line = shift := line_load memory a
  have continued : both = first.behind second := load_eq_behind parts closed
  have defects : both.defects = first.defects ++ second.defects.map (Defect.moved shift) := by
    rw [continued, Loader.defects_behind, counted]
  have events : both.events = first.events ++ second.events.map (Event.moved shift) := by
    rw [continued, ← counted]
    rfl
  refine ⟨length_lines ended, ?_, defects, ?_, events, ?_, ?_, settled_load memory (a ++ b)⟩
  · rw [continued]
    rfl
  · rw [defects, List.map_append, List.map_map]
    rfl
  · rw [Loader.log, events, Array.toList_append, List.map_append, Array.toList_map, List.map_map]
    rfl
  · intro text same
    rw [continued]
    exact load_eq_behind same closed

/-- A comment, a refused line and a narrow value, which the wide one of the second image covers. -/
theorem load_append_overridden :
    let both := load .zeroed ("/*\r\n*/\n0:12\n01:1234\n" ++ "00:56789ABC\n?")
    both.defects = [⟨3, .malformedAddress "0"⟩, ⟨6, .missingSeparator "?"⟩] ∧
      both.memory.bytes[2] = 0x78 := by
  have ended : EndsLine "/*\r\n*/\n0:12\n01:1234\n".toList := by decide
  have first : (load .zeroed "/*\r\n*/\n0:12\n01:1234\n").defects =
      [⟨3, .malformedAddress "0"⟩] := by decide +kernel
  obtain ⟨-, -, defects, -, -, -, -, settled⟩ :=
    load_append .zeroed "00:56789ABC\n?" ended (by simp [first])
  have events : (load .zeroed ("/*\r\n*/\n0:12\n01:1234\n" ++ "00:56789ABC\n?")).events =
      #[.refused ⟨3, .malformedAddress "0"⟩, .stored 4 ⟨.narrow, ⟨1, by decide⟩, 0x1234⟩,
        .stored 5 ⟨.wide, ⟨0, by decide⟩, 0x56789ABC⟩, .refused ⟨6, .missingSeparator "?"⟩] := by
    rfl
  refine ⟨defects, ?_⟩
  refine settled.last 2 (by decide) 5 ⟨.wide, ⟨0, by decide⟩, 0x56789ABC⟩ ?_ (by decide) ?_
  · simp only [events]
    simp
  · intro line b member later
    simp only [events] at member
    simp at member
    omega

end ToyMachine.Image
