import Planar.Association
import Planar.Decimal.Layout
import Planar.Drawing.Clipping
import Planar.Drawing.Markup
import Planar.Text.Blank

/-!
# Pictures

A picture draws labelled values inside their viewport. Each value gets a shape: a point is a dot, a
segment a stroke, and a line the chord that the window shows of it. Shapes are written as TikZ
commands, and a document wraps a picture in a page of its own.
-/

namespace Planar

open Scalar Traced

variable {α : Type} [Scalar α]

/-! ## Numbers and coordinates -/

/-- `cs` without the points at its end. -/
def dropPoints (cs : List Char) : List Char := (cs.reverse.dropWhile (· == '.')).reverse

/-- The number of places that a request for some means. There can be neither fewer than none nor
more than the greatest signed number of 32 bits; from 64 bits on a request is not even read. -/
def placesOf (decimals : Int) : Except Fault Nat :=
  if decimals < 0 then .error .negativePlaces
  else if Nat.pow 2 63 ≤ decimals.toNat then .error .endlessPlaces
  else if Nat.pow 2 31 ≤ decimals.toNat then .error .tooManyPlaces
  else .ok decimals.toNat

/-- The places of `num / den` that are worth writing. If the denominator is a power of two, all
places beyond its exponent are zeros. -/
def usefulPlaces (places den : Nat) : Nat :=
  if den = Nat.pow 2 den.log2 then min places (den.log2 + 1) else places

/-- A number with at most so many places; the zeros at the end of its text are dropped, and then a
point. -/
def drawnNumber (x : α) (decimals : Int) : Except Fault String :=
  match ratio? x with
  | none => .error .undrawable
  | some r => do
    let places := usefulPlaces (← placesOf decimals) r.den
    -- Without places there is no point, and the zeros that are dropped are those of the number.
    let cs := dropPoints (dropZeros (signed r.negative (fixedChars places r.num r.den)))
    return if cs = [] ∨ cs = ['-', '0'] then "0" else String.ofList cs

/-- The run that writes a number. -/
def drawNumber (x : α) (decimals : Int) : Traced α String :=
  call (.task .formatNumber) [.number x, .of (.integer decimals)] .text
    (ofExcept (drawnNumber x decimals))

/-- The run that writes the coordinates of a point. -/
def drawPoint (p : Point α) (decimals : Int) : Traced α String :=
  call (.task .coordinate) [.of (.pair p), .of (.integer decimals)] .text do
    let x ← drawNumber p.x decimals
    let y ← drawNumber p.y decimals
    return "(" ++ x ++ "," ++ y ++ ")"

/-! ## Shapes -/

/-- What is drawn of a value. -/
inductive Shape (α : Type) where
  /-- The empty set shows nothing. -/
  | nothing
  /-- A point. -/
  | dot (p : Point α)
  /-- A segment. -/
  | stroke (a b : Point α)
  /-- The visible part of a line. -/
  | chord (a b : Point α)
  /-- A line that does not cross the window. -/
  | outside

/-- The points that a shape draws. -/
def Shape.points : Shape α → List (Point α)
  | dot p => [p]
  | stroke a b | chord a b => [a, b]
  | nothing | outside => []

/-- The run that finds the shape of a value in a window. -/
def Value.shape (v : Value α) (w : Window α) : Traced α (Shape α) :=
  match v with
  | empty => pure .nothing
  | point p => do
    let _ ← v.anchors
    return .dot p
  | segment s => do
    let _ ← v.anchors
    return .stroke ⟨s.x₁, s.y₁⟩ ⟨s.x₂, s.y₂⟩
  | _ => do
    match ← clipToWindow v w with
    | some (a, b) => return .chord a b
    | none => return .outside

/-- How a value is drawn: as an auxiliary one or as a result. -/
inductive Style where
  | auxiliary | result
deriving DecidableEq

/-- The name of a style. -/
def Style.name : Style → String
  | auxiliary => "aux"
  | result => "result"

/-- The style of a label: that of a result if it is highlighted. -/
def Style.ofLabel (highlight : List String) (label : String) : Style :=
  if label ∈ highlight then result else auxiliary

/-- The command that draws from one point to another. -/
def strokeCommand (style : Style) (a b : String) : String :=
  "\\draw[" ++ style.name ++ "] " ++ a ++ " -- " ++ b ++ ";"

/-- The command that puts a label at a point. -/
def labelCommand (side : String) (place label : String) : String :=
  "\\node[ptlabel," ++ side ++ "] at " ++ place ++ " \x7b" ++ Markup.escape label ++ "\x7d;"

/-- The run that writes the commands of a shape. -/
def Shape.commands (shape : Shape α) (label : String) (style : Style) (decimals : Int) :
    Traced α (List String) :=
  match shape with
  | nothing => return ["% " ++ label ++ ": empty"]
  | outside => do
    report (.skipped label)
    return ["% " ++ label ++ ": outside viewport"]
  | dot p => do
    let center ← drawPoint p decimals
    let place ← drawPoint p decimals
    return ["\\fill[" ++ style.name ++ "] " ++ center ++ " circle (\\gsDotR);",
      labelCommand "above right" place label]
  | stroke a b => do
    let start ← drawPoint a decimals
    let stop ← drawPoint b decimals
    let place ← drawPoint b decimals
    return [strokeCommand style start stop, labelCommand "above" place label]
  | chord a b => do
    let start ← drawPoint a decimals
    let stop ← drawPoint b decimals
    let place ← drawPoint b decimals
    return [strokeCommand style start stop, labelCommand "above left" place label]

/-- The run that draws a labelled value. -/
def drawValue (label : String) (v : Value α) (style : Style) (w : Window α) (decimals : Int) :
    Traced α (List String) :=
  call (.task .emit)
    [.of (.text label), .value v, .of (.text style.name), .of (.window w),
      .of (.integer decimals)] .texts do
    let shape ← v.shape w
    shape.commands label style decimals

/-! ## Pictures and documents -/

/-- Labelled values in the order in which they are drawn. A label that comes again keeps its place
and takes the new value. -/
def relabel (entries : List (String × Value α)) : List (String × Value α) :=
  Association.ofEntries (· == ·) entries

/-- The run that draws labelled values one after another. -/
def drawValues (highlight : List String) (w : Window α) (decimals : Int) :
    List (String × Value α) → Traced α (List String)
  | [] => pure []
  | (label, v) :: more => do
    let commands ← drawValue label v (.ofLabel highlight label) w decimals
    let others ← drawValues highlight w decimals more
    return commands ++ others

/-- The text of a picture: its commands between lines that set the scale and cut off what lies
outside the window, given by two corners. -/
def pictureText (scale low high : String) (commands : List String) : String :=
  "\n".intercalate <|
    ["\\begin\x7btikzpicture\x7d[scale=" ++ scale ++ "]",
      "\\clip " ++ low ++ " rectangle " ++ high ++ ";"] ++
    commands.map ("  " ++ ·) ++ ["\\end\x7btikzpicture\x7d"]

/-- The run that draws a picture of labelled values, under settings of its own or else under those
in force. The labels in `highlight` are drawn as results. -/
def picture (current : Settings α) (entries : List (String × Value α)) (highlight : List String)
    (settings? : Option (Settings α)) : Traced α String :=
  call (.task .picture)
    [.of (.labelled entries), .keyed "highlight" (.texts highlight),
      .keyed "config" (.optional .settings settings?)] .text do
    let settings := settings?.getD current
    let w ← viewport (entries.map (·.2)) settings
    let scale ← drawNumber settings.scale settings.decimals
    let low ← drawPoint ⟨w.xmin, w.ymin⟩ settings.decimals
    let high ← drawPoint ⟨w.xmax, w.ymax⟩ settings.decimals
    let commands ← drawValues highlight w settings.decimals entries
    return pictureText scale low high commands

/-- The first lines of a document. -/
def preamble : String :=
  "\\documentclass[border=2pt]\x7bstandalone\x7d\n" ++
  "\\usepackage\x7btikz\x7d\n" ++
  "\\tikzset\x7b\n" ++
  "  gs/dot radius/.store in=\\gsDotR,  gs/dot radius=1.4pt,\n" ++
  "  ptlabel/.style=\x7bfont=\\footnotesize, inner sep=1pt\x7d,\n" ++
  "  aux/.style=\x7bline width=0.6pt, gray, dash pattern=on 3pt off 2pt\x7d,\n" ++
  "  result/.style=\x7bline width=1.2pt, blue\x7d,\n" ++
  "\x7d\n" ++
  "\\begin\x7bdocument\x7d\n"

/-- The line that shows a title; without one it is empty. -/
def heading : Option String → String
  | none | some "" => ""
  | some title =>
    "\\textbf\x7b" ++ Markup.escape (String.ofList (Text.trim title.toList)) ++ "\x7d\\par"

/-- The run that draws a picture on a page of its own. -/
def document (current : Settings α) (entries : List (String × Value α)) (highlight : List String)
    (title : Option String) (settings? : Option (Settings α)) : Traced α String :=
  call (.task .document)
    [.of (.labelled entries), .keyed "highlight" (.texts highlight),
      .keyed "title" (.optional .text title),
      .keyed "config" (.optional .settings settings?)] .text do
    let code ← picture current entries highlight settings?
    return preamble ++ heading title ++ "\n" ++ code ++ "\n\\end\x7bdocument\x7d\n"

end Planar
