import NamedRoutes.CommandLine.Registry
import NamedRoutes.CommandLine.Table
import NamedRoutes.ErrorClass
import NamedRoutes.PathBuilder

/-!
Running a command: what it prints, what it reports as an error, and how it ends.
-/

namespace NamedRoutes.CommandLine

structure Ending where
  /-- Zero for success, one for a failure, two for a command line that makes no sense. -/
  status : Nat
  output : String
  errors : String
  deriving DecidableEq, Repr

namespace Ending

def success (output : String) : Ending := ⟨0, output, ""⟩

def failure (message : String) : Ending := ⟨1, "", message ++ "\n"⟩

def usage : Ending := ⟨2, "", ""⟩

end Ending

def listRoutes (router : Router) : Ending :=
  match router.store.routes with
  | [] => .success (lines ["No routes registered."])
  | routes => .success (table routes)

def showMatch [Regex.Release] (router : Router) (method path : Value) : Except Error Ending := do
  let outcome ← router.store.match? method path
  match ← outcome.value with
  | none => return .failure ("No route matches " ++ method.display ++ " " ++ path.quoted)
  | some found =>
      let route := found.route
      let first := route.method.name ++ " /" ++ route.path ++ " (" ++ route.name ++ ")"
      return .success <| lines <|
        first :: found.parameters.map fun (name, value) => "  " ++ name ++ " = " ++ value

/-- Builds the path of a route. An empty value leaves a parameter out. -/
def showPath [Regex.Release] (router : Router) (name : Value) (values : List String) :
    Except Error Ending :=
  match name with
  | .text name =>
      let given := values.map fun value => if value == "" then none else some (.text value)
      match router.store.buildPath name given with
      | .ok built => .ok (.success (lines [built]))
      | .error cause =>
          if cause.isA .reverseRouting then .ok (.failure ("Error: " ++ cause.message))
          else .error cause
  | _ => .error .badArgument

def withRouter (registry : Registry) (app : Value) (run : Router → Except Error Ending) :
    Except Error Ending := do
  match ← registry.resolve app.display with
  | .ok router => run router
  | .error message => return .failure ("Error: " ++ message)

def Command.run [Regex.Release] (registry : Registry) : Command → Except Error Ending
  | .help topic => .ok (.success (helpText topic))
  | .routes app => withRouter registry app fun router => .ok (listRoutes router)
  | .matching app method request => withRouter registry app fun router =>
      showMatch router method request
  | .path app name values => withRouter registry app fun router => showPath router name values

def run [Regex.Release] (registry : Registry) (words : List String) : Except Error Ending :=
  match read words with
  | some command => command.run registry
  | none => .ok .usage

end NamedRoutes.CommandLine
