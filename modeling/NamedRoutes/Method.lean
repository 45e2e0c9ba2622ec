import NamedRoutes.Value

/-!
The request methods that a route can answer.
-/

namespace NamedRoutes

inductive Method where
  | get | post | put | patch | delete | head | options
  deriving DecidableEq, Repr

namespace Method

def all : List Method := [.get, .post, .put, .patch, .delete, .head, .options]

def name : Method → String
  | .get => "GET"
  | .post => "POST"
  | .put => "PUT"
  | .patch => "PATCH"
  | .delete => "DELETE"
  | .head => "HEAD"
  | .options => "OPTIONS"

/-- The method with a name. Capitals and small letters differ. -/
def ofName? (text : String) : Option Method := all.find? (·.name == text)

/-- The method that a value stands for. -/
def ofValue? : Value → Option Method
  | .text s => ofName? s
  | _ => none

end Method

end NamedRoutes
