import Planar.Expr.Term
import Planar.Trace.Datum

/-!
# Array terms

The term that builds an array lists its cells between brackets, one pair for every axis. Cells are
padded so that they stand in columns. Numbers are written with a limited number of places, and
either all of them with exponents or none. A row that would pass the margin goes on in a new line.
-/

namespace Planar

/-- The choices in writing an array. -/
structure GridStyle where
  /-- The most digits after a point. -/
  places : Nat
  /-- From this size on numbers have exponents. -/
  large : Float
  /-- Below this size numbers have exponents. -/
  small : Float
  /-- Numbers whose sizes differ by more than this factor have exponents. -/
  spread : Float
  /-- The length of a line. -/
  margin : Nat

/-- Eight places, exponents for what is unwieldy, and lines of 75 characters. -/
def GridStyle.standard : GridStyle where
  places := 8
  large := 100000000
  small := 0.0001
  spread := 1000
  margin := 75

/-! ## Numbers in columns -/

/-- A finite number in parts: what stands before the point, sign included, what stands after it,
and the exponent. -/
structure NumberParts where
  whole : List Char
  fraction : List Char
  exponent : Int

namespace NumberParts

/-- A number written positionally: the fewest digits that read back, but at most `places` after the
point. -/
def positional (places : Nat) (negative : Bool) (mantissa : Nat) (exponent : Int) : NumberParts :=
  let short := Decimal.ofFinite mantissa exponent
  let d := if short.exponent < -places then
      Decimal.nearest (-places) (mantissa * Nat.pow 2 exponent.toNat)
        (Nat.pow 2 (-exponent).toNat)
    else short
  let ds := Nat.toDigits 10 d.coefficient
  let cs := Layout.positional ['.'] ds (d.exponent + (ds.length - 1))
  ⟨signed negative (cs.takeWhile (· ≠ '.')), (cs.dropWhile (· ≠ '.')).drop 1, 0⟩

/-- A number written with an exponent, one digit before the point and at most `places` after it. -/
def scientific (places : Nat) (negative : Bool) (mantissa : Nat) (exponent : Int) : NumberParts :=
  let short := Decimal.ofFinite mantissa exponent
  let d := if places + 1 < digitCount short.coefficient then
      Decimal.rounded (places + 1) (mantissa * Nat.pow 2 exponent.toNat)
        (Nat.pow 2 (-exponent).toNat)
    else short
  let ds := Nat.toDigits 10 d.coefficient
  ⟨signed negative (ds.take 1), ds.drop 1, d.exponent + (ds.length - 1)⟩

/-- The parts of a double, unless it is an infinity or no number. -/
def ofDouble? (exponential : Bool) (places : Nat) : Double → Option NumberParts
  | .finite negative mantissa exponent =>
    some ((if exponential then scientific else positional) places negative mantissa exponent)
  | _ => none

/-- The number of digits of the exponent. -/
def power (parts : NumberParts) : Nat :=
  max Layout.exponentDigits (digitCount parts.exponent.natAbs)

end NumberParts

/-- The greatest of some numbers, or zero. -/
def greatestOf (ns : List Nat) : Nat := ns.foldl max 0

/-- The columns that some numbers share: how many characters stand before the point, how many
digits after it, and how many digits exponents have. -/
structure Columns where
  exponential : Bool
  before : Nat
  places : Nat
  power : Nat

namespace Columns

/-- The number of characters after the point, the exponent included. -/
def after (columns : Columns) : Nat :=
  if columns.exponential then columns.power + 2 + columns.places else columns.places

/-- Whether numbers of these sizes are written with exponents; zeros and what is not finite do not
count. -/
def needsExponents (style : GridStyle) (cells : List Float) : Bool :=
  match (cells.filter fun x => x.isFinite && x != 0).map Float.abs with
  | [] => false
  | first :: more =>
    let largest := more.foldl Scalar.greatest first
    let smallest := more.foldl Scalar.least first
    style.large ≤ largest || smallest < style.small || style.spread < largest / smallest

/-- The columns of some numbers. -/
def ofCells (style : GridStyle) (cells : List Float) : Columns :=
  let exponential := needsExponents style cells
  let parts := cells.filterMap fun x =>
    NumberParts.ofDouble? exponential style.places (.ofFloat x)
  let columns : Columns :=
    { exponential
      before := greatestOf (parts.map (·.whole.length))
      places := greatestOf (parts.map (·.fraction.length))
      power := greatestOf (parts.map (·.power)) }
  -- What is not finite is a word that may reach into the places after the point.
  let words := cells.filterMap fun x =>
    if x.isFinite then none else some (Double.ofFloat x).chars.length
  { columns with before := max columns.before (greatestOf words - (columns.after + 1)) }

/-- `cs` after blanks that fill up `width`. -/
def padLeft (width : Nat) (cs : List Char) : List Char :=
  List.replicate (width - cs.length) ' ' ++ cs

/-- `cs` before characters that fill up `width`. -/
def padRight (width : Nat) (c : Char) (cs : List Char) : List Char :=
  cs ++ List.replicate (width - cs.length) c

/-- A number in its columns. -/
def write (style : GridStyle) (columns : Columns) (x : Float) : List Char :=
  let number := Double.ofFloat x
  match NumberParts.ofDouble? columns.exponential style.places number with
  | none => padLeft (columns.before + 1 + columns.after) number.chars
  | some parts =>
    padLeft columns.before parts.whole ++ '.' ::
      if columns.exponential then
        padRight columns.places '0' parts.fraction ++
          'e' :: Layout.exponent columns.power parts.exponent
      else padRight columns.places ' ' parts.fraction

end Columns

/-! ## Cells in rows -/

namespace Grid

/-- The cells as words of one width; a flag that stands alone is not padded. -/
def words (style : GridStyle) (g : Grid Float) : List (List Char) :=
  match g.cells with
  | .numbers cells => cells.map (Columns.ofCells style cells |>.write style)
  | .integers cells =>
    let texts := cells.map fun n => (toString n).toList
    texts.map (Columns.padLeft (greatestOf (texts.map List.length)))
  | .flags cells =>
    let width := if g.shape.isEmpty then 0 else "False".length
    cells.map fun b => Columns.padLeft width (if b then "True" else "False").toList

/-- Words with commas between them, the first at column `here`. A word that would pass `width`
starts a new line at column `indent`, unless it is the first of its line. -/
def row (indent width : Nat) : (here : Nat) → List (List Char) → List Char
  | _, [] => []
  | here, word :: more =>
    let wraps := indent < here && width < here + word.length
    let gap := if wraps then '\n' :: List.replicate indent ' '
      else if indent < here then [' '] else []
    let next := (if wraps then indent else here) + word.length + 2
    gap ++ word ++ (if more.isEmpty then [] else [',']) ++ row indent width next more

/-- The words of an array of the given shape between brackets. Rows are set off by a line break,
and larger blocks by as many as they have further axes. -/
def block (indent width : Nat) : (shape : List Nat) → List (List Char) → List Char
  | [], words => words.head?.getD []
  | [_], words => '[' :: row indent (width - 1) indent words ++ [']']
  | n :: shape, words =>
    let size := shape.foldl (· * ·) 1
    let blocks := (List.range n).map fun i =>
      block (indent + 1) (width - 1) shape ((words.drop (i * size)).take size)
    let gap := ',' :: List.replicate shape.length '\n' ++ List.replicate indent ' '
    '[' :: gap.intercalate blocks ++ [']']

/-- The start of the term that builds an array. -/
def head : String := "array("

/-- The term that builds an array. One without cells shows its shape, unless it is a plain row, and
the sort of its cells. -/
def term (g : Grid Float) : String :=
  let style := GridStyle.standard
  if g.size = 0 then
    let shape := if g.shape = [0] then "" else ", shape=" ++ tupleTerm (g.shape.map toString)
    head ++ "[]" ++ shape ++ ", dtype=" ++ g.cellKind ++ ")"
  else
    -- The closing parenthesis stands within the margin.
    let body := block (head.length + 1) (style.margin - 1) g.shape (g.words style)
    head ++ String.ofList body ++ ")"

end Grid

end Planar
