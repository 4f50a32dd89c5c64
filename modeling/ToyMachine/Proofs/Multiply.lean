import ToyMachine.Image.Load
import ToyMachine.Proofs.Listing

/-! The product of two words that are typed. The machine has no multiplication; the program adds
the first word to an accumulator and counts the second one down to zero. The accumulator wraps
around and the counter is compared with zero only, so that the product is right modulo 2^16
whatever the signs; a negative counter takes as many rounds as it says without a sign. -/

namespace ToyMachine

namespace Multiply

open Reference (Event Listing Ready Runs load_console put_comm put_of_eq put_pair put_put)

def image : String :=
"program Multiply
/*
 * Reads two values and writes their product.
 */
10: 8AFF   // lod R[A], FF
11: 8BFF   // lod R[B], FF
12: FF20   // jsr R[F], 20
13: 9CFF   // str R[C], FF
14: 0000   // hlt

function multiply
// R[C] <- R[A] * R[B], counts R[B] down to zero
20: 7C00   // lda R[C], 00
21: 7101   // lda R[1], 01
22: CB26   // brz R[B], 26
23: 1CCA   // add R[C], R[C], R[A]
24: 2BB1   // sub R[B], R[B], R[1]
25: C022   // brz R[0], 22
26: EF00   // jmp R[F]
"

def listing : Listing :=
  [(0x10, 0x8AFF), (0x11, 0x8BFF), (0x12, 0xFF20), (0x13, 0x9CFF), (0x14, 0x0000),
    (0x20, 0x7C00), (0x21, 0x7101), (0x22, 0xCB26), (0x23, 0x1CCA), (0x24, 0x2BB1),
    (0x25, 0xC022), (0x26, 0xEF00)]

section Loading

theorem load_ofList (memory : Memory) (text : List Char) :
    Image.load memory (String.ofList text) =
      ((Text.lines text).foldl Image.Loader.feed ⟨memory, 0, false, #[]⟩).finish := by
  rw [Image.load, String.toList_ofList]

set_option maxRecDepth 20000 in
theorem load_image (memory : Memory) :
    (Image.load memory image).memory = memory.setAll .narrow listing.cells ∧
      (Image.load memory image).defects = [] := by
  -- The characters are those of the literal; they need not be decoded from its bytes.
  have spelled : image = String.ofList _ := rfl
  rw [spelled, load_ofList]
  exact ⟨rfl, rfl⟩

end Loading

section Runs

variable {r : Reference}

/-- The loop, from any accumulator and any counter. The invariant is the accumulator and what is
still to be added to it. -/
theorem loop_runs (n : Nat) (ready : r.Ready listing) (one : r.registers 1 = 1)
    (count : (r.registers 0xB).toNat = n) :
    Runs (4 * n + 1) (r.goTo 0x22) []
      (((r.put 0xC (r.registers 0xC + r.registers 0xA * r.registers 0xB)).put 0xB 0).goTo
        0x26) := by
  induction n generalizing r with
  | zero =>
    have done : r.registers 0xB = 0 := BitVec.eq_of_toNat_eq count
    have sum : r.registers 0xC = r.registers 0xC + r.registers 0xA * r.registers 0xB := by
      rw [done]
      grind
    have taken : (r.goTo 0x22).carry 0 0xCB26 = r.goTo 0x26 := if_pos done
    rw [put_of_eq r sum, put_of_eq r done]
    exact ready.quietly (by decide) taken rfl ready.zero (.done _)
  | succ n ih =>
    let added := r.put 0xC (r.registers 0xC + r.registers 0xA)
    let counted := added.put 0xB (r.registers 0xB - 1)
    have more : r.registers 0xB ≠ 0 := by
      intro done
      rw [done] at count
      exact absurd count (by simp)
    have untaken : (r.goTo 0x22).carry 0 0xCB26 = r.goTo 0x23 := if_neg more
    have adds : (r.goTo 0x23).carry 0 0x1CCA = added.goTo 0x24 := rfl
    have counts : (added.goTo 0x24).carry 0 0x2BB1 = counted.goTo 0x25 := by
      change (added.put 0xB (r.registers 0xB - r.registers 1)).goTo 0x25 = _
      rw [one]
    -- Register 0 is zero, so this branch is a jump.
    have back : (counted.goTo 0x25).carry 0 0xC022 = counted.goTo 0x22 := if_pos ready.zero
    have ready₁ : added.Ready listing := ready.put (by decide) _
    have ready₂ : counted.Ready listing := ready₁.put (by decide) _
    -- What is still to be added has gone down by what was added.
    have sum : counted.registers 0xC + counted.registers 0xA * counted.registers 0xB =
        r.registers 0xC + r.registers 0xA * r.registers 0xB := by
      change r.registers 0xC + r.registers 0xA + r.registers 0xA * (r.registers 0xB - 1) = _
      grind
    have less : (counted.registers 0xB).toNat = n := by
      change (r.registers 0xB - 1).toNat = n
      have some : (1 : BitVec 16) ≤ r.registers 0xB := by
        rw [BitVec.le_def, count]
        simp
      rw [BitVec.toNat_sub_of_le some, count]
      rfl
    have rest := ih ready₂ one less
    rw [sum, put_pair r (by decide)] at rest
    refine ready.quietly (by decide) untaken rfl ready.zero ?_
    refine ready.quietly (by decide) adds rfl ready.zero ?_
    refine ready₁.quietly (by decide) counts rfl ready.zero ?_
    exact ready₂.quietly (by decide) back rfl ready.zero rest

theorem ready_multiplied (ready : r.Ready listing) (product : BitVec 16) :
    (((r.put 1 1).put 0xC product).put 0xB 0).Ready listing :=
  ((ready.put (by decide) _).put (by decide) _).put (by decide) _

theorem routine_runs (ready : r.Ready listing) :
    Runs (4 * (r.registers 0xB).toNat + 4) (r.goTo 0x20) []
      ((((r.put 1 1).put 0xC (r.registers 0xA * r.registers 0xB)).put 0xB 0).goTo
        ((r.registers 0xF).setWidth 8)) := by
  let cleared := r.put 0xC 0
  let prepared := cleared.put 1 1
  let ended := ((r.put 1 1).put 0xC (r.registers 0xA * r.registers 0xB)).put 0xB 0
  have clears : (r.goTo 0x20).carry 0 0x7C00 = cleared.goTo 0x21 := rfl
  have prepares : (cleared.goTo 0x21).carry 0 0x7101 = prepared.goTo 0x22 := rfl
  have returns : (ended.goTo 0x26).carry 0 0xEF00 =
      ended.goTo ((r.registers 0xF).setWidth 8) := rfl
  have ready₁ : cleared.Ready listing := ready.put (by decide) _
  have ready₂ : prepared.Ready listing := ready₁.put (by decide) _
  have ready₃ : ended.Ready listing := ready_multiplied ready _
  have sum : prepared.registers 0xC + prepared.registers 0xA * prepared.registers 0xB =
      r.registers 0xA * r.registers 0xB :=
    BitVec.zero_add _
  have written (product : BitVec 16) : prepared.put 0xC product = (r.put 1 1).put 0xC product := by
    change ((r.put 0xC 0).put 1 1).put 0xC product = _
    rw [put_comm r (by decide), put_put]
  have loop := loop_runs _ ready₂ rfl rfl
  rw [sum, written] at loop
  have back := ready₃.quietly (by decide) returns rfl ready.zero (.done _)
  refine ready.quietly (by decide) clears rfl ready.zero ?_
  refine ready₁.quietly (by decide) prepares rfl ready.zero ?_
  exact loop.trans back

theorem program_runs (ready : r.Ready listing) (a b : BitVec 16) :
    ∃ r', Runs (4 * b.toNat + 9) (r.goTo 0x10) [.typed a, .typed b, .shown (a * b)] r' ∧
      r'.halted = true ∧ r'.pc = 0x14 ∧ r'.registers 0xB = 0 ∧ r'.registers 0xC = a * b ∧
      r'.registers 0xF = 0x13 := by
  let first := (r.store 0xFF a).put 0xA a
  let second := (first.store 0xFF b).put 0xB b
  let called := second.put 0xF 0x13
  let returned := ((called.put 1 1).put 0xC (a * b)).put 0xB 0
  let shown := returned.store 0xFF (a * b)
  let halted : Reference := { shown.goTo 0x14 with halted := true }
  have ready₁ : first.Ready listing := (ready.store (by decide) _).put (by decide) _
  have ready₂ : second.Ready listing := (ready₁.store (by decide) _).put (by decide) _
  have ready₃ : called.Ready listing := ready₂.put (by decide) _
  have ready₄ : returned.Ready listing := ready_multiplied ready₃ _
  have ready₅ : shown.Ready listing := ready₄.store (by decide) _
  have loadsFirst : (r.goTo 0x10).carry a 0x8AFF = first.goTo 0x11 :=
    load_console (r.goTo 0x11) 0xA a
  have loadsSecond : (first.goTo 0x11).carry b 0x8BFF = second.goTo 0x12 :=
    load_console (first.goTo 0x12) 0xB b
  have calls : (second.goTo 0x12).carry 0 0xFF20 = called.goTo 0x20 := rfl
  have shows : (returned.goTo 0x13).carry 0 0x9CFF = shown.goTo 0x14 := rfl
  have halts : (shown.goTo 0x14).carry 0 0x0000 = halted := rfl
  have routine : Runs (4 * b.toNat + 4) (called.goTo 0x20) [] (returned.goTo 0x13) :=
    routine_runs ready₃
  have ending := ready₅.quietly (by decide) halts rfl ready.zero (.done _)
  have showing := ready₄.cycle (by decide) shows ready.zero ending
  have calling := ready₂.quietly (by decide) calls rfl ready.zero (routine.trans showing)
  have asking := ready₁.cycle (by decide) loadsSecond ready.zero calling
  exact ⟨halted, ready.cycle (by decide) loadsFirst ready.zero asking, rfl, rfl, rfl, rfl, rfl⟩

end Runs

theorem text_shown (v : BitVec 16) :
    (Event.shown v).text =
      "output: " ++ String.ofList (Text.Hex.fixed 4 v.toNat) ++ "(" ++ toString v.toInt ++
        ")\n\n" := by
  have low : (v.signExtend 32).toNat % 0x10000 = v.toNat := by
    rw [← BitVec.toNat_setWidth 16, Width.setWidth_signExtend]
  rw [Event.text, Machine.echoText_narrow, Exchange.text, Exchange.digits_eq, low,
    BitVec.toInt_signExtend_of_le (by omega)]

/-- What the operator sees of a run: two prompts and the product, in both notations. -/
def dialogue (product : BitVec 16) : String :=
  "input: \n\ninput: \n\noutput: " ++ String.ofList (Text.Hex.fixed 4 product.toNat) ++ "(" ++
    toString product.toInt ++ ")\n\n"

theorem text_dialogue (a b product : BitVec 16) :
    String.join (List.map Event.text [.typed a, .typed b, .shown product]) = dialogue product := by
  simp only [List.map_cons, List.map_nil, String.join_cons, String.join_nil, text_shown,
    String.append_empty, ← String.append_assoc]
  rfl

end Multiply

namespace Machine

open Multiply

section Product

variable {a b : BitVec 16} {stdin : ByteArray} {first second : String}
  {rest : List (Option String)}
  (tokens : (Console.ofInput stdin none).offered = some first :: some second :: rest)
  (readsFirst : Width.narrow.readToken first = some (a.signExtend 32))
  (readsSecond : Width.narrow.readToken second = some (b.signExtend 32)) {o : RunOptions}
  (untraced : o.trace = false) (unpaused : o.singleStep = false)

include tokens readsFirst readsSecond untraced unpaused

theorem runToHalt_of_listing {memory : Memory}
    (holds : ∀ p ∈ listing, Reference.view memory p.1 = p.2) :
    ∃ r, runToHalt o (4 * b.toNat + 9) (.starting memory (.ofInput stdin none)) = .ok true r ∧
      r.cpu.register 0xC = (a * b).signExtend 32 ∧ r.cpu.register 0xB = 0 ∧
      r.cpu.register 0xF = 0x13 ∧ r.cpu.pc = 0x14 ∧
      r.console.output = (dialogue (a * b)).toUTF8 := by
  let m : Machine := .starting memory (.ofInput stdin none)
  have ready : (Reference.of m.cpu m.memory).Ready listing := ⟨rfl, rfl, rfl, holds⟩
  obtain ⟨r', runs, ended, pc, count, product, back⟩ := program_runs ready a b
  have offers : Console.Offers m.console.offered [.typed a, .typed b, .shown (a * b)] rest := by
    change Console.Offers (Console.ofInput stdin none).offered _ _
    rw [tokens]
    exact .typed readsFirst (.typed readsSecond (.shown (.done rest)))
  have sound : m.cpu.Sound := Processor.startingAt_sound (by decide)
  obtain ⟨m', halts, sound', shows, attended⟩ :=
    haltsAfter_of_runs runs ended sound rfl rfl offers
  obtain ⟨r, ran, alike, -⟩ := run_of_haltsAfter unpaused (.refl o rfl) halts
  have register {d : Fin 16} {v : BitVec 16} (same : r'.registers d = v) :
      r.withEnd.cpu.register d = v.signExtend 32 := by
    change r.cpu.register d = _
    rw [alike.cpu, ← sound'.fits d, ← same, ← shows]
    rfl
  refine ⟨r.withEnd, runToHalt_ok ran, register product, register count, register back, ?_, ?_⟩
  · change r.cpu.pc = 0x14
    rw [alike.cpu, ← pc, ← shows]
    rfl
  · rw [output_withEnd, alike.quiet untraced, attended.output, text_dialogue]
    exact ByteArray.empty_append

/-- The image is accepted, and what it stores asks for two words and shows their product. -/
theorem runToHalt_multiplies :
    (Image.load .zeroed image).defects = [] ∧
      ∃ r, (∀ cycles, 4 * b.toNat + 9 ≤ cycles →
          runToHalt o cycles
            (.starting (Image.load .zeroed image).memory (.ofInput stdin none)) = .ok true r) ∧
        r.cpu.register 0xC = (a * b).signExtend 32 ∧ r.cpu.register 0xB = 0 ∧
        r.cpu.register 0xF = 0x13 ∧ r.cpu.pc = 0x14 ∧
        r.console.output = (dialogue (a * b)).toUTF8 := by
  obtain ⟨stored, accepted⟩ := load_image .zeroed
  have holds : ∀ p ∈ listing, Reference.view (Image.load .zeroed image).memory p.1 = p.2 := by
    rw [stored]
    exact Reference.view_setAll _ (by decide)
  obtain ⟨r, ran, ended⟩ :=
    runToHalt_of_listing tokens readsFirst readsSecond untraced unpaused holds
  refine ⟨accepted, r, fun cycles enough => ?_, ended⟩
  obtain ⟨more, rfl⟩ := Nat.exists_eq_add_of_le enough
  rw [runToHalt_mono (by simp [ran]) more, ran]

end Product

/-- The product of -3 and -2, by 65534 rounds of the loop. -/
theorem runToHalt_multiplies_negative :
    ∃ r, runToHalt { trace := false } 262145 (.starting (Image.load .zeroed image).memory
        (.ofInput "0xFFFD\n fffe zz\n".toUTF8 none)) = .ok true r ∧
      r.cpu.register 0xC = 6 ∧
      r.console.output = "input: \n\ninput: \n\noutput: 0006(6)\n\n".toUTF8 := by
  have tokens : (Console.ofInput "0xFFFD\n fffe zz\n".toUTF8 none).offered =
      [some "0xFFFD", some "fffe", some "zz"] := by
    rw [Console.offered_ofInput]
    decide +kernel
  have readsFirst : Width.narrow.readToken "0xFFFD" = some ((-3 : BitVec 16).signExtend 32) := by
    decide +kernel
  have readsSecond : Width.narrow.readToken "fffe" = some ((-2 : BitVec 16).signExtend 32) := by
    decide +kernel
  obtain ⟨-, r, ran, product, -, -, -, output⟩ :=
    runToHalt_multiplies (o := { trace := false }) tokens readsFirst readsSecond rfl rfl
  have written : dialogue (-3 * -2) = "input: \n\ninput: \n\noutput: 0006(6)\n\n" := by
    decide +kernel
  exact ⟨r, ran _ (by decide), product, written ▸ output⟩

end Machine

end ToyMachine
