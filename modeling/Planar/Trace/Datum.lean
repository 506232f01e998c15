import Planar.Drawing.Settings
import Planar.Env

/-!
# Data in traces

What a trace can show: numbers, texts and collections of them, arrays, and the values, trees,
environments and settings of this library.
-/

namespace Planar

/-- The cells of an array, row after row. -/
inductive Cells (α : Type) where
  | numbers (cells : List α)
  | integers (cells : List Int)
  | flags (cells : List Bool)

/-- A rectangular array; the shape lists its lengths along each axis. -/
structure Grid (α : Type) where
  shape : List Nat
  cells : Cells α

/-- The number of cells. -/
def Grid.size {α : Type} (g : Grid α) : Nat := g.shape.foldl (· * ·) 1

/-- The name of the sort of cells. -/
def Grid.cellKind {α : Type} (g : Grid α) : String :=
  match g.cells with
  | .numbers _ => "float64"
  | .integers _ => "int64"
  | .flags _ => "bool"

/-- Something that a trace can show. A label stands for itself, and what is omitted is left out. -/
inductive Datum (α : Type) where
  | nothing
  | flag (b : Bool)
  | integer (n : Int)
  | number (x : α)
  | text (s : String)
  | bytes (bytes : List UInt8)
  | list (items : List (Datum α))
  | tuple (items : List (Datum α))
  | set (items : List (Datum α))
  | frozenSet (items : List (Datum α))
  | dict (entries : List (Datum α × Datum α))
  | grid (grid : Grid α)
  | value (v : Value α)
  | expr (e : Expr α)
  | env (env : Env α)
  | settings (settings : Settings α)
  | valuesOf (values : List (Value α))
  | label (s : String)
  | omitted

/-- How many items of a collection a trace shows unless told otherwise. -/
def Datum.itemLimit : Nat := 5

namespace Datum

variable {α : Type}

mutual

/-- Whether a datum can be shown when at most `limit` of its items are. The placeholder cannot, nor
can a list or tuple that would show it among its first items. -/
def isShowableWith (limit : Nat) : Datum α → Bool
  | value .placeholder => false
  | list items | tuple items => areShowable limit items
  | _ => true

/-- Whether the first `limit` of a row of data can be shown. -/
def areShowable : (limit : Nat) → List (Datum α) → Bool
  | 0, _ => true
  | _, [] => true
  | limit + 1, item :: items => isShowableWith itemLimit item && areShowable limit items

end

/-- Whether a datum can be shown. -/
def isShowable (d : Datum α) : Bool := d.isShowableWith itemLimit

/-- The cells of an array as data. -/
def ofCells : Cells α → List (Datum α)
  | .numbers cs => cs.map number
  | .integers cs => cs.map integer
  | .flags cs => cs.map flag

/-- The four bounds of a window. -/
def window (w : Window α) : Datum α :=
  tuple [number w.xmin, number w.xmax, number w.ymin, number w.ymax]

/-- The two coordinates of a point. -/
def pair (p : Point α) : Datum α := tuple [number p.x, number p.y]

/-- A row of points. -/
def pairs (ps : List (Point α)) : Datum α := list (ps.map pair)

/-- A row of values. -/
def values (vs : List (Value α)) : Datum α := list (vs.map value)

/-- A row of texts. -/
def texts (ss : List String) : Datum α := list (ss.map text)

/-- Values under their labels. -/
def labelled (entries : List (String × Value α)) : Datum α :=
  dict (entries.map fun (name, v) => (text name, value v))

/-- A datum that may be missing. -/
def optional {β : Type} (view : β → Datum α) : Option β → Datum α
  | some b => view b
  | none => nothing

end Datum

end Planar
