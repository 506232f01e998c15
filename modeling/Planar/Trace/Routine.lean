/-!
# Routines

The steps of a run that a trace reports: the steps on a kind of value, those on a kind of node, and
the tasks that use them. Each has a name and belongs to a channel.
-/

namespace Planar

/-- Who a step on values belongs to; `shared` has the steps that kinds have in common. -/
inductive ValueOwner where
  | shared | empty | point | line | vertical | segment
deriving DecidableEq

/-- A step on values. -/
inductive ValueStep where
  | canonical | shift | intersect | meetEmpty | meetPoint | meetLine | meetVertical | meetSegment
  | clip | isVertical
deriving DecidableEq

/-- The kinds of node; `missing` is the one that has not been filled in. -/
inductive NodeOwner where
  | missing | literal | intersect | bind | var | shift
deriving DecidableEq

/-- A step on nodes. -/
inductive NodeStep where
  | canonical | evaluate
deriving DecidableEq

/-- A task made of steps. -/
inductive Task where
  | lineThrough | intersect | clip | normalize | evalExpr | evaluate
  | anchors | formatNumber | viewport | border | clipToWindow | coordinate | emit
  | picture | document | literals
deriving DecidableEq

/-- What a trace reports the beginning and end of: a step, a task, or anything else by its name. -/
inductive Routine where
  | ofValue (owner : ValueOwner) (step : ValueStep)
  | ofNode (owner : NodeOwner) (step : NodeStep)
  | task (task : Task)
  | named (name : String)
deriving DecidableEq

/-- The part of the program that a report comes from. -/
inductive Channel where
  | values | intersection | tree | normalization | evaluation | drawing | command | outside
deriving DecidableEq

/-- The name of a channel. -/
def Channel.name : Channel → String
  | values => "geoexpr.values"
  | intersection => "geoexpr.intersection"
  | tree => "geoexpr.ast"
  | normalization => "geoexpr.normalize"
  | evaluation => "geoexpr.evaluator"
  | drawing => "geoexpr.tikz_codegen.generator"
  | command => "geoexpr.__main__"
  | outside => "geoexpr"

/-- The name of an owner of steps on values. -/
def ValueOwner.name : ValueOwner → String
  | shared => "GeometryValue"
  | empty => "Empty"
  | point => "Point"
  | line => "Line"
  | vertical => "VerticalLine"
  | segment => "Segment"

/-- The name of a step on values. -/
def ValueStep.name : ValueStep → String
  | canonical => "preprocess"
  | shift => "shift"
  | intersect => "intersect"
  | meetEmpty => "intersect_with_empty"
  | meetPoint => "intersect_with_point"
  | meetLine => "intersect_with_line"
  | meetVertical => "intersect_with_vertical_line"
  | meetSegment => "intersect_with_segment"
  | clip => "clip_to_segment"
  | isVertical => "is_vertical"

/-- The name of a kind of node. -/
def NodeOwner.name : NodeOwner → String
  | missing => "Expression"
  | literal => "Literal"
  | intersect => "Intersect"
  | bind => "Let"
  | var => "Var"
  | shift => "Shift"

/-- The name of a step on nodes. -/
def NodeStep.name : NodeStep → String
  | canonical => "preprocess"
  | evaluate => "evaluate"

/-- The name of a task. -/
def Task.name : Task → String
  | lineThrough => "line_through"
  | intersect => "intersect"
  | clip => "clip_to_segment"
  | normalize => "normalize"
  | evalExpr => "eval_expr"
  | evaluate => "evaluate"
  | anchors => "_anchors"
  | formatNumber => "_format_float"
  | viewport => "compute_viewport"
  | border => "_window_border"
  | clipToWindow => "clip_to_window"
  | coordinate => "_coord"
  | emit => "_emit_value"
  | picture => "generate_tikz_code"
  | document => "generate_tikz_document"
  | literals => "collect_literals"

/-- The channel of a task. -/
def Task.channel : Task → Channel
  | lineThrough => .values
  | intersect | clip => .intersection
  | normalize => .normalization
  | evalExpr | evaluate => .evaluation
  | _ => .drawing

namespace Routine

/-- The name of a routine: a step bears its owner's name. -/
def name : Routine → String
  | ofValue owner step => owner.name ++ "." ++ step.name
  | ofNode owner step => owner.name ++ "." ++ step.name
  | task t => t.name
  | named name => name

/-- The channel of a routine. -/
def channel : Routine → Channel
  | ofValue .. => .values
  | ofNode .. => .tree
  | task t => t.channel
  | named _ => .outside

end Routine

end Planar
