import NamedRoutes.Error

/-!
The formats between which an output with two branches is decided.
-/

namespace NamedRoutes

inductive OutputFormat where
  /-- The one that the request asks for. -/
  | auto
  | html
  | json
  deriving DecidableEq, Repr

namespace OutputFormat

def name : OutputFormat → String
  | auto => "auto"
  | html => "html"
  | json => "json"

def parse (value : Value) : Except Error OutputFormat :=
  match value with
  | .text "auto" => .ok auto
  | .text "html" => .ok html
  | .text "json" => .ok json
  | value => .error (.badOutputFormat value)

/-- Whether the result for programs is served, given whether the request asks for it. -/
def wantsJson : OutputFormat → Bool → Bool
  | auto, requested => requested
  | html, _ => false
  | json, _ => true

end OutputFormat

end NamedRoutes
