import NamedRoutes.Method

/-!
Events: what a router reports while it works.
-/

namespace NamedRoutes

inductive Event where
  | registered (method : Method) (path name : String)
  /-- The patterns were merged anew. -/
  | rebuilt (patterns chunks : Nat)
  /-- No route answers a request. -/
  | unanswered (method path : Value)

namespace Event

def log : Event → String
  | registered .. | rebuilt .. => "spur.routing"
  | unanswered .. => "spur.dispatch"

def message : Event → String
  | registered method path name => s!"Route registered: {method.name} {path} ({name})"
  | rebuilt patterns chunks => s!"Dynamic matcher rebuilt: {patterns} patterns in {chunks} chunks"
  | unanswered method path => s!"No route for {method.display} {path.display}"

end Event

end NamedRoutes
