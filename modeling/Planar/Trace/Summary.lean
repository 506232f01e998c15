import Planar.Trace
import Planar.Trace.GridTerm
import Planar.Trace.Order

/-!
# Trace text

How a trace shows data in one short line. Values are written as source text with six significant
digits, arrays by their shape, and collections by their first items. Everything else is abridged:
texts and integers in the middle, collections after some items and below some depth. What is still
too long is cut off.
-/

namespace Planar

/-- The limits of abridged data: depth, items of each sort of collection, and lengths of text. -/
structure Limits where
  depth : Nat
  items : Nat
  members : Nat
  entries : Nat
  text : Nat
  integer : Nat
  other : Nat

/-- The limits in use. -/
def Limits.standard : Limits where
  depth := 6
  items := 10
  members := 6
  entries := 4
  text := 30
  integer := 40
  other := 160

/-- The mark of what is left out. -/
def ellipsis : List Char := ['.', '.', '.']

/-- `cs` with its middle left out if it has more than `limit` characters. -/
def abridge (limit : Nat) (cs : List Char) : List Char :=
  if cs.length ≤ limit then cs
  else
    let front := (limit - 3) / 2
    let back := limit - 3 - front
    cs.take front ++ ellipsis ++ cs.drop (cs.length - back)

/-- The last `n` characters of a text. A text that is shorter by `k` gives its last `k` characters
instead, or all of it if `k` exceeds its length. -/
def lastChars (n : Nat) (cs : List Char) : List Char :=
  if n ≤ cs.length then cs.drop (cs.length - n) else cs.drop (cs.length - (n - cs.length))

/-- A text between quotes, its middle left out if that makes more than `limit` characters. -/
def abridgeQuoted (limit : Nat) (cs : List Char) : List Char :=
  let whole := Text.quoteChars (cs.take limit)
  if whole.length ≤ limit then whole
  else
    let front := (limit - 3) / 2
    let back := limit - 3 - front
    let ends := Text.quoteChars (cs.take front ++ lastChars back cs)
    ends.take front ++ ellipsis ++ ends.drop (ends.length - back)

/-- One byte between quotes of the given kind. -/
def quoteByte (quote : Char) (byte : UInt8) : List Char :=
  let c := Char.ofNat byte.toNat
  if c = quote || c = '\\' then ['\\', c]
  else if c = '\n' then ['\\', 'n']
  else if c = '\r' then ['\\', 'r']
  else if c = '\t' then ['\\', 't']
  else if byte < 0x20 || 0x7f ≤ byte then '\\' :: 'x' :: Text.hex 2 byte.toNat
  else [c]

/-- Bytes between quotes. -/
def quoteBytes (bytes : List UInt8) : List Char :=
  let quote := Text.quoteFor (bytes.map fun b => Char.ofNat b.toNat)
  'b' :: quote :: bytes.flatMap (quoteByte quote) ++ [quote]

/-- The term that builds a binding. -/
def bindingTerm : String × Value Float → String
  | (name, v) => "(" ++ Text.quoted name ++ ", " ++ v.term ++ ")"

/-- The term that builds an environment. -/
def Env.term (env : Env Float) : String :=
  termText "Environment" [("bindings", tupleTerm (env.bindings.map bindingTerm))]

/-- The term that builds settings. -/
def Settings.term (s : Settings Float) : String :=
  let w := s.fallback
  termText "RenderConfig"
    [("padding", floatText s.padding),
      ("fallback_window", tupleTerm ([w.xmin, w.xmax, w.ymin, w.ymax].map floatText)),
      ("min_extent", floatText s.minExtent), ("scale", floatText s.scale),
      ("decimals", toString s.decimals)]

/-- A value as source text, its coordinates to six significant digits. -/
def Value.summary (v : Value Float) : String :=
  match v.coordinates? with
  | some cs@(_ :: _) => v.kind ++ "(" ++ commaList (cs.map significantText) ++ ")"
  | _ => v.kind

/-- A flag as a word. -/
def flagText (b : Bool) : String := if b then "True" else "False"

/-- Nested lists with the cells of an array, whose shape is given. -/
def nest {α : Type} : List Nat → List (Datum α) → Datum α
  | [], cells => cells.head?.getD .nothing
  | n :: shape, cells =>
    let size := shape.foldl (· * ·) 1
    .list ((List.range n).map fun i => nest shape ((cells.drop (i * size)).take size))

/-- The cells of an array as doubles. -/
def Grid.doubles (g : Grid Float) : List Float :=
  match g.cells with
  | .numbers cs => cs
  | .integers cs => cs.map Float.ofInt
  | .flags cs => cs.map fun b => if b then 1.0 else 0.0

namespace Datum

/-- A datum that is no collection, in full. -/
def plain : Datum Float → String
  | nothing => "None"
  | flag b => flagText b
  | integer n => toString n
  | number x => floatText x
  | text s => Text.quoted s
  | bytes bs => String.ofList (quoteBytes bs)
  | value v => v.term
  | expr e => e.term
  | env e => e.term
  | settings s => s.term
  | grid g => g.term
  | valuesOf vs => "dict_values([" ++ commaList (vs.map Value.term) ++ "])"
  | label s => s
  | _ => ""

/-- The first `limit` of some texts between brackets, with the mark of what is left out. -/
def bracketed (opening closing : String) (limit : Nat) (texts : List String) : String :=
  let shown := texts.take limit ++ if limit < texts.length then ["..."] else []
  opening ++ commaList shown ++ closing

/-- A collection so deep that its items are left out. -/
def collapsed (opening closing : String) {β : Type} (items : List β) : String :=
  opening ++ (if items.isEmpty then "" else "...") ++ closing

/-- An abridged datum; `depth` is how many levels of collections may still be opened. -/
def brief (limits : Limits) : (depth : Nat) → Datum Float → String
  | _, text s => String.ofList (abridgeQuoted limits.text s.toList)
  | _, integer n => String.ofList (abridge limits.integer (toString n).toList)
  | _, set [] => "set()"
  | _, frozenSet [] => "frozenset()"
  | 0, list items => collapsed "[" "]" items
  | 0, tuple items => collapsed "(" ")" items
  | 0, set items => collapsed "\x7b" "\x7d" items
  | 0, frozenSet items => collapsed "frozenset(\x7b" "\x7d)" items
  | 0, dict entries => collapsed "\x7b" "\x7d" entries
  | depth + 1, list items => bracketed "[" "]" limits.items (items.map (brief limits depth))
  | depth + 1, tuple items =>
    let closing := if items.length = 1 then ",)" else ")"
    bracketed "(" closing limits.items (items.map (brief limits depth))
  | depth + 1, set items =>
    bracketed "\x7b" "\x7d" limits.members ((sorted id items).map (brief limits depth))
  | depth + 1, frozenSet items =>
    bracketed "frozenset(\x7b" "\x7d)" limits.members ((sorted id items).map (brief limits depth))
  | depth + 1, dict entries =>
    bracketed "\x7b" "\x7d" limits.entries <|
      (sorted Prod.fst entries).map fun (key, v) =>
        brief limits depth key ++ ": " ++ brief limits depth v
  | _, other => String.ofList (abridge limits.other other.plain.toList)

/-- An abridged datum within the limits in use. -/
def briefly (d : Datum Float) : String := d.brief .standard Limits.standard.depth

/-- An array by its shape, the sort and number of its cells, and the cells themselves or, if there
are more than `maxItems`, the least and the greatest. -/
def gridText (maxItems : Int) (g : Grid Float) : String :=
  let head := "ndarray(shape=" ++ tupleTerm (g.shape.map toString) ++ ", dtype=" ++ g.cellKind ++
    ", size=" ++ toString g.size
  match g.doubles with
  | [] => head ++ ")"
  | first :: more =>
    if g.size ≤ maxItems then head ++ ", values=" ++ (nest g.shape (ofCells g.cells)).briefly ++ ")"
    else
      head ++ ", min=" ++ significantText (more.foldl Scalar.least first) ++
        ", max=" ++ significantText (more.foldl Scalar.greatest first) ++ ")"

/-- The first `n` characters of a text, or all but the last `-n`. -/
def cut (n : Int) (cs : List Char) : List Char := cs.take (if n < 0 then cs.length + n else n).toNat

/-- A text cut off after `maxLength` characters, with a note that it was. -/
def truncate (maxLength : Int) (s : String) : String :=
  if s.length ≤ maxLength then s
  else String.ofList (cut maxLength s.toList) ++ "... (truncated)"

/-- How many characters of a datum a trace shows unless told otherwise. -/
def lengthLimit : Int := 400

mutual

/-- A datum as a trace shows it, with limits on items and characters. -/
def summaryWith (maxItems maxLength : Int) : Datum Float → String
  | grid g => gridText maxItems g
  | value v => v.summary
  | list items => "[" ++ commaList (summaries maxItems.toNat items) ++ "]"
  | tuple items => "(" ++ commaList (summaries maxItems.toNat items) ++ ")"
  | other => truncate maxLength other.briefly

/-- The first `limit` of some data as a trace shows them, with the mark of what is left out. -/
def summaries : (limit : Nat) → List (Datum Float) → List String
  | _, [] => []
  | 0, _ :: _ => ["..."]
  | limit + 1, item :: items => summaryWith itemLimit lengthLimit item :: summaries limit items

end

/-- A datum as a trace shows it. -/
def summary (d : Datum Float) : String := d.summaryWith itemLimit lengthLimit

end Datum

/-- An argument as a trace shows it. -/
def Argument.summary (a : Argument Float) : String :=
  match a.key with
  | some key => key ++ "=" ++ a.datum.summary
  | none => a.datum.summary

/-- What an event says. -/
def Event.message : Event Float → String
  | enter routine [] => "Entering " ++ routine.name ++ " (no-args)"
  | enter routine arguments =>
    "Entering " ++ routine.name ++ " (" ++ commaList (arguments.map Argument.summary) ++ ")"
  | leave routine .omitted => "Exiting " ++ routine.name
  | leave routine result => "Exiting " ++ routine.name ++ " -> " ++ result.summary
  | failed routine => "Exception in " ++ routine.name
  | skipped label => label ++ " does not cross the viewport; skipped"

end Planar
