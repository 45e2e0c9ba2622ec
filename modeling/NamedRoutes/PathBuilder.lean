import NamedRoutes.RouteStore

/-!
Building paths: the way back from the name of a route and values for its parameters to a path.
-/

namespace NamedRoutes

/-- A path in the making. Pieces are kept with the latest first. -/
structure PathDraft where
  pieces : List String := []
  /-- The latest parameter was left out, and the next slash goes with it. -/
  slashDropped : Bool := false
  deriving DecidableEq, Repr

namespace PathDraft

def addLiteral (d : PathDraft) (text : String) : PathDraft :=
  if d.slashDropped && text == "/" then { d with slashDropped := false }
  else ⟨text :: d.pieces, false⟩

/-- Leaves a parameter out, and with it the slash before it or else the one after it. -/
def leaveOut (d : PathDraft) : PathDraft :=
  match d.pieces with
  | "/" :: pieces => { d with pieces }
  | _ => { d with slashDropped := true }

/-- Adds the value of a parameter. -/
def addValue (d : PathDraft) (value : String) : PathDraft := { d with pieces := value :: d.pieces }

def path (d : PathDraft) : String := .join d.pieces.reverse

end PathDraft

namespace Route

/-- Adds the segments of a route to a draft, taking values for its parameters in order. A value that
is not given leaves its parameter out. The values that no parameter takes come back too. -/
def fill [Regex.Release] (name : String) : List Segment → PathDraft → List (Option Value) →
    Except Error (PathDraft × List (Option Value))
  | [], d, values => .ok (d, values)
  | .literal text :: rest, d, values => fill name rest (d.addLiteral text) values
  | .parameter p :: rest, d, values =>
      match values.head?.join with
      | none =>
          if p.optional then fill name rest d.leaveOut values.tail
          else .error (.missingParameter p.name name)
      | some value => do
          let text := value.display
          if ← p.accepts text then fill name rest (d.addValue text) values.tail
          else throw (.invalidParameter p.name name)

/-- The path of a route with values for its parameters. -/
def build [Regex.Release] (r : Route) (values : List (Option Value)) : Except Error String :=
  match r.target with
  | .fixed path =>
      if values.isEmpty then .ok (Path.wrap path)
      else .error (.tooManyParameters r.name 0 values.length)
  | .pattern p => do
      let (draft, unused) ← fill r.name p.segments {} values
      if unused.isEmpty then return Path.wrap draft.path
      else throw (.tooManyParameters r.name p.parameters.length values.length)

end Route

def RouteStore.buildPath [Regex.Release] (s : RouteStore) (name : String)
    (values : List (Option Value)) :
    Except Error String :=
  match s.find? name with
  | none => .error (.missingRoute name)
  | some route => route.build values

end NamedRoutes
