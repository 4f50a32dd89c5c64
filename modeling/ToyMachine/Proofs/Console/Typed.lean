import ToyMachine.Console.Basic
import ToyMachine.Proofs.Text.Lines
import ToyMachine.Proofs.Text.Words

/-! Input that is text. A line feed is the only character whose encoding has the byte of a
line feed, so that the lines of the bytes are the lines of the text, each of them text again;
and because a line feed is a blank, no word goes on over the end of a line. So the words on all
lines are the words of the text. -/

namespace ToyMachine.Console

def encode (cs : List Char) : List UInt8 :=
  cs.flatMap String.utf8EncodeChar

theorem toList_loop (bytes : ByteArray) (i : Nat) (front : List UInt8) :
    ByteArray.toList.loop bytes i front = front.reverse ++ bytes.data.toList.drop i := by
  fun_induction ByteArray.toList.loop bytes i front with
  | case1 i front within ih =>
    have within' : i < bytes.data.toList.length := by simpa using within
    have byte : bytes.get! i = bytes.data.toList[i] := by
      rw [ByteArray.get!, Array.getElem_toList]
      exact getElem!_pos bytes.data i within
    rw [ih, List.drop_eq_getElem_cons within', byte, List.reverse_cons, List.append_assoc]
    rfl
  | case2 i front beyond =>
    have beyond' : bytes.data.toList.length ≤ i := by simpa using beyond
    rw [List.drop_eq_nil_of_le beyond', List.append_nil]

theorem toList_toByteArray (bytes : List UInt8) : bytes.toByteArray.toList = bytes := by
  rw [ByteArray.toList, toList_loop, List.toList_data_toByteArray]
  rfl

theorem toList_toUTF8 (text : String) : text.toUTF8.toList = encode text.toList := by
  obtain ⟨cs, rfl⟩ : ∃ cs, text = String.ofList cs := ⟨text.toList, String.ofList_toList.symm⟩
  rw [String.toUTF8, String.toByteArray_ofList, String.toList_ofList]
  exact toList_toByteArray (encode cs)

theorem decode?_encode (cs : List Char) : decode? (encode cs) = some (String.ofList cs) := by
  have valid : (encode cs).toByteArray.IsValidUTF8 := ⟨cs, rfl⟩
  rw [decode?, String.fromUTF8?, dif_pos valid]
  rfl

theorem tokensOf_encode (cs : List Char) :
    tokensOf (encode cs) = (Text.words cs).map String.ofList := by
  rw [tokensOf, decode?_encode]
  change wordsOf (String.ofList cs) = _
  rw [wordsOf, String.toList_ofList]

theorem ofNat_ne_lineFeed {n : Nat} (byte : n < 256) (other : n ≠ 0x0A) :
    (UInt8.ofNat n == 0x0A) = false := by
  apply beq_false_of_ne
  intro feed
  have size := congrArg UInt8.toNat feed
  rw [UInt8.toNat_ofNat_of_lt' byte] at size
  exact other size

theorem plain_encodeChar {c : Char} (h : c ≠ '\n') :
    ∀ b ∈ String.utf8EncodeChar c, (b == 0x0A) = false := by
  intro b member
  unfold String.utf8EncodeChar at member
  extract_lets v at member
  -- One byte is the character itself, and the bytes of a longer encoding have their high bit.
  have number : ∃ n, b = UInt8.ofNat n ∧ n < 256 ∧ n ≠ 0x0A := by
    have other : v ≠ 0x0A := fun feed => h (Char.ext (UInt32.toNat_inj.mp feed))
    split_ifs at member <;>
      simp only [List.mem_cons, List.not_mem_nil, or_false] at member
    · exact ⟨v, member, by omega, other⟩
    · rcases member with rfl | rfl <;> exact ⟨_, rfl, by omega, by omega⟩
    · rcases member with rfl | rfl | rfl <;> exact ⟨_, rfl, by omega, by omega⟩
    · rcases member with rfl | rfl | rfl | rfl <;> exact ⟨_, rfl, by omega, by omega⟩
  obtain ⟨n, rfl, byte, other⟩ := number
  exact ofNat_ne_lineFeed byte other

theorem plain_encode {cs : List Char} (plain : '\n' ∉ cs) :
    ∀ b ∈ encode cs, (b == 0x0A) = false := by
  intro b member
  obtain ⟨c, among, byte⟩ := List.mem_flatMap.mp member
  exact plain_encodeChar (fun feed => plain (feed ▸ among)) b byte

theorem encode_line (body rest : List Char) :
    encode (body ++ '\n' :: rest) = encode body ++ 0x0A :: encode rest := by
  rw [encode, List.flatMap_append, List.flatMap_cons]
  rfl

theorem encode_ne_nil {cs : List Char} (present : cs ≠ []) : encode cs ≠ [] := by
  cases cs with
  | nil => exact absurd rfl present
  | cons c cs =>
    rw [encode, List.flatMap_cons]
    exact List.append_ne_nil_of_left_ne_nil String.utf8EncodeChar_ne_nil _

/-- No word is lost or put together at the end of a line. The induction goes from line to
line, so it is on the length of what is left of the text. -/
theorem tokensOf_linesOf_encode (cs : List Char) :
    (linesOf (encode cs)).flatMap tokensOf = (Text.words cs).map String.ofList := by
  by_cases feed : '\n' ∈ cs
  · obtain ⟨body, rest, parts, plain⟩ := List.eq_append_cons_of_mem feed
    have shorter : rest.length < cs.length := by
      rw [parts, List.length_append, List.length_cons]
      omega
    have blank : Text.isBlank '\n' = true := rfl
    have line : encode body ++ [0x0A] = encode (body ++ ['\n']) := (encode_line body []).symm
    have front : Text.words (body ++ ['\n']) = Text.words body := by
      rw [Text.words_append_cons blank, Text.words_nil, List.append_nil]
    rw [parts, encode_line, linesOf, Text.cutAfter_append_cons (plain_encode plain) rfl, ← linesOf,
      List.flatMap_cons, line, tokensOf_encode, front, tokensOf_linesOf_encode rest,
      Text.words_append_cons blank, List.map_append]
  · by_cases empty : cs = []
    · rw [empty]
      rfl
    · rw [linesOf, Text.cutAfter_of_plain (plain_encode feed) (encode_ne_nil empty),
        List.flatMap_singleton, tokensOf_encode]
termination_by cs.length
decreasing_by exact shorter

theorem decodes_of_mem_linesOf_encode (cs : List Char) :
    ∀ line ∈ linesOf (encode cs), (decode? line).isSome := by
  by_cases feed : '\n' ∈ cs
  · obtain ⟨body, rest, parts, plain⟩ := List.eq_append_cons_of_mem feed
    have shorter : rest.length < cs.length := by
      rw [parts, List.length_append, List.length_cons]
      omega
    have line : encode body ++ [0x0A] = encode (body ++ ['\n']) := (encode_line body []).symm
    rw [parts, encode_line, linesOf, Text.cutAfter_append_cons (plain_encode plain) rfl, ← linesOf,
      List.forall_mem_cons, line, decode?_encode]
    exact ⟨rfl, decodes_of_mem_linesOf_encode rest⟩
  · by_cases empty : cs = []
    · rw [empty]
      exact nofun
    · rw [linesOf, Text.cutAfter_of_plain (plain_encode feed) (encode_ne_nil empty),
        List.forall_mem_singleton, decode?_encode]
      rfl
termination_by cs.length
decreasing_by exact shorter

theorem remaining_ofInput (text : String) (room : Option Nat) :
    (ofInput text.toUTF8 room).remaining = wordsOf text := by
  rw [remaining, ofInput, toList_toUTF8]
  exact tokensOf_linesOf_encode text.toList

end ToyMachine.Console
