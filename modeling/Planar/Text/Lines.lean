/-!
# Lines of a text

A line ends at a line feed, a carriage return, the two together, a vertical tab, a form feed, one
of the three ASCII separators, the next-line control or one of the two Unicode separators. A break
at the very end of a text starts no further line.
-/

namespace Planar.Text

/-- Whether `c` ends a line. -/
def isBreak (c : Char) : Bool :=
  let n := c.toNat
  (0xa ≤ n && n ≤ 0xd) || (0x1c ≤ n && n ≤ 0x1e) || n == 0x85 || n == 0x2028 || n == 0x2029

/-- The lines of a text, without their breaks. -/
def lines : List Char → List (List Char)
  | [] => []
  | '\r' :: '\n' :: rest => [] :: lines rest
  | c :: rest =>
    if isBreak c then [] :: lines rest
    else
      match lines rest with
      -- Nothing follows, not even a break: this is the last line.
      | [] => [[c]]
      | line :: more => (c :: line) :: more

/-- The text as it is read from a file: a carriage return, alone or before a line feed, becomes
one line feed. -/
def unifyBreaks : List Char → List Char
  | [] => []
  | '\r' :: '\n' :: rest => '\n' :: unifyBreaks rest
  | c :: rest => (if c = '\r' then '\n' else c) :: unifyBreaks rest

end Planar.Text
