import NamedRoutes.Placeholder
import NamedRoutes.Regex.Expression

/-!
Patterns: route paths with placeholders, seen from both sides. For matching, a pattern is one
expression, in which an optional parameter takes a neighbouring slash along. For building paths it
is a list of segments, in which every slash stands on its own, so that it can be left out together
with an omitted parameter.
-/

namespace NamedRoutes

structure Parameter where
  name : String
  optional : Bool
  /-- What the whole of a value has to match. -/
  value : Expression
  deriving Repr

namespace Parameter

def accepts [Regex.Release] (p : Parameter) (value : String) : Except Error Bool :=
  (p.value.accepts value).mapError .badMatch

def ofSource (name source : String) (optional : Bool) : Except Error Parameter :=
  match Expression.compile source with
  | .ok value => .ok { name, optional, value }
  | .error cause => .error (.badExpression source cause)

end Parameter

/-- A piece of a path: literal text, where every slash is a piece of its own, or a parameter. -/
inductive Segment where
  | literal (text : String)
  | parameter (parameter : Parameter)
  deriving Repr

def Segment.parameter? : Segment → Option Parameter
  | .literal _ => none
  | .parameter p => some p

/-- A route path with placeholders. -/
structure RoutePattern where
  /-- The whole path with its namespace, shortcuts written out. -/
  path : String
  /-- The text of the expression that request paths match. -/
  regex : String
  segments : List Segment
  /-- The names of the parameters in order. -/
  names : List String
  /-- The expression for the whole of a request path. -/
  expression : Expression
  deriving Repr

namespace RoutePattern

def parameters (p : RoutePattern) : List Parameter := p.segments.filterMap Segment.parameter?

/-- A pattern in the making. Pieces are kept with the latest first. -/
structure Draft where
  fragments : List (List Char) := []
  segments : List Segment := []
  /-- The latest parameter has taken the next slash along. -/
  slashTaken : Bool := false
  deriving Repr

namespace Draft

def addPiece (d : Draft) (piece : List Char) : Draft :=
  let segments := .literal (.ofList piece) :: d.segments
  if d.slashTaken && piece == ['/'] then { d with segments, slashTaken := false }
  else { fragments := Regex.quote piece :: d.fragments, segments, slashTaken := false }

def addText (d : Draft) (text : List Char) : Draft := (Path.pieces text).foldl addPiece d

/-- The draft with a further fragment for a parameter. An optional one takes the slash before it
along, or else the slash after it. -/
def addGroup (d : Draft) (group : List Char) (optional slashFollows : Bool) : Draft :=
  if !optional then { d with fragments := group :: d.fragments }
  else match d.fragments, slashFollows with
    | ['/'] :: fragments, _ =>
        { d with fragments := ("(?:/".toList ++ group ++ ")?".toList) :: fragments }
    | fragments, true =>
        { d with
          fragments := ("(?:".toList ++ group ++ "/)?".toList) :: fragments, slashTaken := true }
    | fragments, false => { d with fragments := (group ++ ['?']) :: fragments }

end Draft

/-- The group around the expression of a placeholder. On its own it has to be an expression with
this one group. Flags that contradict each other are an error of their own kind. -/
def placeholderGroup (path : String) (p : Placeholder) : Except Error String :=
  let group := "(" ++ p.expression ++ ")"
  match Expression.compile group with
  | .error .contradictoryFlags => .error (.badExpression group .contradictoryFlags)
  | .error _ => .error (.badPattern (.badExpression p.expression p.name path))
  | .ok e => if e.groups = 1 then .ok group else .error (.badPattern (.innerGroup p.name path))

def Draft.addPlaceholder (path : String) (d : Draft) (next : Placeholder × List Char) :
    Except Error Draft := do
  let (p, after) := next
  let group ← placeholderGroup path p
  let parameter ← Parameter.ofSource p.name ("^" ++ group ++ "$") p.optional
  let d := { d with segments := .parameter parameter :: d.segments }
  return (d.addGroup group.toList p.optional (after.head? == some '/')).addText after

def draft (space path : String) (t : Template) : Except Error Draft :=
  let start : Draft := if space == "" then {} else ({} : Draft).addText (space.toList ++ ['/'])
  t.placeholders.foldlM (Draft.addPlaceholder path) (start.addText t.before)

def Draft.regex (d : Draft) : String := .ofList d.fragments.reverse.flatten

def Draft.source (d : Draft) : String := "^" ++ d.regex ++ "$"

def assemble (space path : String) (t : Template) : Except Error RoutePattern := do
  let draft ← draft space path t
  match Expression.compile draft.source with
  | .error cause => throw (.badExpression draft.source cause)
  | .ok expression =>
      return {
        path := if space == "" then path else space ++ "/" ++ path
        regex := draft.regex, segments := draft.segments.reverse, names := t.names, expression }

/-- Reads a path with placeholders. The path is trimmed; the namespace in front of it is taken as
it is. -/
def compile (path : String) (space : String) : Except Error RoutePattern := do
  let path := Shortcut.expand path
  assemble space path (← (Template.parse path).mapError .badPattern)

end RoutePattern

end NamedRoutes
