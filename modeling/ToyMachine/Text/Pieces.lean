/-!
Cutting a list into pieces. A cut after each terminator keeps the terminator with
the piece it ends, so that the pieces put together are the list again; a split at
each separator drops the separators. Both are right folds and need no measure.

A line is trimmed of the blanks at its ends or taken apart into words. The table of
blanks is Unicode's White_Space property, which has twenty-five characters and so
is wider than the class of core's `Char`.
-/

namespace ToyMachine.Text

variable {α : Type}

def extendFirst (a : α) : List (List α) → List (List α)
  | [] => [[a]]
  | piece :: pieces => (a :: piece) :: pieces

/-- Pieces that each end in a terminator, except perhaps the last. No piece is empty. -/
def cutAfter (terminates : α → Bool) (as : List α) : List (List α) :=
  as.foldr (fun a pieces => if terminates a then [a] :: pieces else extendFirst a pieces) []

/-- The stretches between separators, empty ones included. -/
def splitAt (separates : α → Bool) (as : List α) : List (List α) :=
  as.foldr (fun a pieces => if separates a then [] :: pieces else extendFirst a pieces) [[]]

@[simp] theorem extendFirst_flatten (a : α) (pieces : List (List α)) :
    (extendFirst a pieces).flatten = a :: pieces.flatten := by
  cases pieces <;> simp [extendFirst]

theorem cutAfter_cons (terminates : α → Bool) (a : α) (as : List α) :
    cutAfter terminates (a :: as) =
      if terminates a then [a] :: cutAfter terminates as
      else extendFirst a (cutAfter terminates as) := rfl

theorem splitAt_cons (separates : α → Bool) (a : α) (as : List α) :
    splitAt separates (a :: as) =
      if separates a then [] :: splitAt separates as
      else extendFirst a (splitAt separates as) := rfl

theorem cutAfter_flatten (terminates : α → Bool) (as : List α) :
    (cutAfter terminates as).flatten = as := by
  induction as with
  | nil => rfl
  | cons a as ih =>
    rw [cutAfter_cons]
    split <;> simp [ih]

def isBlank (c : Char) : Bool :=
  let n := c.toNat
  (0x09 ≤ n && n ≤ 0x0D) || n == 0x20 || n == 0x85 || n == 0xA0 || n == 0x1680 ||
  (0x2000 ≤ n && n ≤ 0x200A) || n == 0x2028 || n == 0x2029 || n == 0x202F ||
  n == 0x205F || n == 0x3000

def trimStart (cs : List Char) : List Char :=
  cs.dropWhile isBlank

def trimEnd (cs : List Char) : List Char :=
  (cs.reverse.dropWhile isBlank).reverse

def trim (cs : List Char) : List Char :=
  trimEnd (trimStart cs)

def words (cs : List Char) : List (List Char) :=
  (splitAt isBlank cs).filter (fun word => !word.isEmpty)

/-- The lines of a text without the blanks at their ends. A text that ends in a
line feed has no further, empty line; a carriage return is a blank like another. -/
def lines (text : List Char) : List (List Char) :=
  (cutAfter (· == '\n') text).map trim

def utf8Length : List Char → Nat
  | [] => 0
  | c :: cs => c.utf8Size + utf8Length cs

theorem words_nil : words [] = [] := rfl

end ToyMachine.Text
