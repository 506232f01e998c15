import Planar.Text.Blank
import Planar.Text.Digit
import Planar.Text.Lines

/-!
# Messages that show their place

A message that names a line and a column is followed by that line and a caret below the column. The
place is read off the message: the first `[line L, col C]` in it counts.
-/

namespace Planar.Diagnostic

open Text (isDigit digitsValue)

/-- What follows `word` at the front of a text. -/
def after? : (word cs : List Char) → Option (List Char)
  | [], cs => some cs
  | w :: word, c :: cs => if w = c then after? word cs else none
  | _ :: _, [] => none

/-- The digits at the front of a text, of which there must be some, and what follows them. -/
def digits? (cs : List Char) : Option (List Char × List Char) :=
  if (cs.takeWhile isDigit).isEmpty then none
  else some (cs.takeWhile isDigit, cs.dropWhile isDigit)

/-- The digits of the line and of the column named at the very front of a text. -/
def placeHere? (cs : List Char) : Option (List Char × List Char) := do
  let cs ← after? "[line ".toList cs
  let (line, cs) ← digits? cs
  let cs ← after? ", col ".toList cs
  let (col, cs) ← digits? cs
  let _ ← after? [']'] cs
  return (line, col)

/-- The digits of the first line and column named in a text. -/
def place? : List Char → Option (List Char × List Char)
  | [] => none
  | c :: cs => (placeHere? (c :: cs)).orElse fun _ => place? cs

/-- Why a place that a message names cannot be shown. -/
inductive PlaceFault where
  /-- A number has more digits than are read. -/
  | tooManyDigits (count : Nat)
  /-- The column is too great to be a position in a text. -/
  | noPosition
  /-- The line with the caret would not fit into memory. -/
  | tooLong
deriving DecidableEq

/-- The most digits of a number that is read. -/
def digitLimit : Nat := 4300

/-- What a fault of a place says. -/
def PlaceFault.message : PlaceFault → String
  | tooManyDigits count =>
    "Exceeds the limit (" ++ toString digitLimit ++ " digits) for integer string conversion: " ++
      "value has " ++ toString count ++
      " digits; use sys.set_int_max_str_digits() to increase the limit"
  | noPosition => "cannot fit 'int' into an index-sized integer"
  | tooLong => ""

/-- The number that some digits write, unless they are too many. -/
def readNumber (digits : List Char) : Except PlaceFault Nat :=
  if digitLimit < digits.length then .error (.tooManyDigits digits.length)
  else .ok (digitsValue digits)

/-- A caret after some blanks. -/
def caret (blanks : Nat) : List Char := List.replicate blanks ' ' ++ ['^']

/-- A caret after some blanks, unless they are too many. -/
def caretAfter (blanks : Nat) : Except PlaceFault (List Char) :=
  if Nat.pow 2 63 ≤ blanks then .error .noPosition
  else if Nat.pow 2 40 ≤ blanks then .error .tooLong
  else .ok (caret blanks)

/-- The digits of the line and of the column that a message names; a message of several lines names
none. -/
def named? (message : String) : Option (List Char × List Char) :=
  if message.toList.contains '\n' then none else place? message.toList

/-- The line with the given number, where lines count from one. -/
def numbered? {α : Type} (lines : List α) (number : Nat) : Option α :=
  if number = 0 then none else lines[number - 1]?

/-- A message with a line and a caret below it. -/
def shown (message : String) (line caret : List Char) : String :=
  message ++ "\n    " ++ String.ofList (Text.trimEnd line) ++ "\n    " ++ String.ofList caret

/-- A message with the line it names and a caret below the column. There is none if the message has
several lines, names no place, or names a line that does not exist. -/
def annotate (message : String) (lines : List String) : Except PlaceFault (Option String) := do
  let some (line, col) := named? message | return none
  let some text := numbered? lines (← readNumber line) | return none
  let caret ← caretAfter ((← readNumber col) - 1)
  return some (shown message text.toList caret)

/-- A message about `text`, with its place shown where it has one. The numbers of a place in a text
are never too great to be read and shown. -/
def located (text message : String) : String :=
  match named? message with
  | some (line, col) =>
    match numbered? (Text.lines text.toList) (digitsValue line) with
    | some cs => shown message cs (caret (digitsValue col - 1))
    | none => message
  | none => message

theorem numbered?_map {α β : Type} (f : α → β) (lines : List α) (number : Nat) :
    numbered? (lines.map f) number = (numbered? lines number).map f := by
  unfold numbered?
  split
  · rfl
  · exact List.getElem?_map

theorem eq_of_readNumber {digits : List Char} {n : Nat} (h : readNumber digits = .ok n) :
    digitsValue digits = n := by
  unfold readNumber at h
  split at h
  · cases h
  · exact Except.ok.inj h

theorem eq_of_caretAfter {blanks : Nat} {cs : List Char} (h : caretAfter blanks = .ok cs) :
    caret blanks = cs := by
  unfold caretAfter at h
  split at h
  · cases h
  · split at h
    · cases h
    · exact Except.ok.inj h

/-- Where the numbers can be read and shown, `located` shows what `annotate` does. -/
theorem located_of_annotate {text message : String} {result : Option String}
    (h : annotate message ((Text.lines text.toList).map String.ofList) = .ok result) :
    located text message = result.getD message := by
  unfold annotate at h
  unfold located
  cases hnamed : named? message with
  | none =>
    rw [hnamed] at h
    cases h
    rfl
  | some place =>
    obtain ⟨line, col⟩ := place
    rw [hnamed] at h
    dsimp only at h ⊢
    cases hline : readNumber line with
    | error fault =>
      rw [hline] at h
      cases h
    | ok n =>
    rw [hline] at h
    rw [eq_of_readNumber hline]
    dsimp only [bind, Except.bind] at h
    rw [numbered?_map] at h
    cases hrow : numbered? (Text.lines text.toList) n with
    | none =>
      rw [hrow] at h
      cases h
      rfl
    | some cs =>
    rw [hrow] at h
    dsimp only [Option.map_some] at h
    cases hcol : readNumber col with
    | error fault =>
      rw [hcol] at h
      cases h
    | ok m =>
    rw [hcol] at h
    rw [eq_of_readNumber hcol]
    dsimp only at h
    cases hcaret : caretAfter (m - 1) with
    | error fault =>
      rw [hcaret] at h
      cases h
    | ok blanks =>
      rw [hcaret] at h
      cases h
      rw [eq_of_caretAfter hcaret, String.toList_ofList]
      rfl

end Planar.Diagnostic
