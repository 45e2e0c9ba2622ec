import NamedRoutes.ErrorClass
import NamedRoutes.Text.Quoted

/-!
The names that the package offers to its users.
-/

namespace NamedRoutes

/-- What a name of the package stands for. -/
inductive PublicName where
  | errorClass (c : ErrorClass)
  /-- Something else; `listed` says whether it is meant for users. -/
  | item (listed : Bool)
  deriving DecidableEq, Repr

namespace PublicName

def errorClasses : List ErrorClass :=
  [.any, .configuration, .badNamespace, .badOutputFormat, .registration, .badPattern, .badMethod,
    .badName, .badHandler, .duplicateName, .duplicatePath, .reverseRouting, .missingRoute,
    .missingParameter, .invalidParameter, .tooManyParameters]

def items : List String :=
  ["NOT_DISPATCHED", "Dispatcher", "Method", "OutputFormat", "RespondTo", "ReverseRouter", "Route",
    "RouteMatch", "RouteStore", "Router", "RouterConfig"]

/-- Names that exist and are not meant for users: the parts of the package, facts about it, and what
every package can be asked. -/
def internals : List String :=
  ["_ERRORS", "_Py_mod_gil", "_internal", "cli", "config", "dispatch", "errors",
    "router", "routing", "__all__", "__annotations__", "__builtins__", "__cached__", "__class__",
    "__delattr__", "__dict__", "__dir__", "__doc__", "__eq__", "__file__", "__format__", "__ge__",
    "__getattr__", "__getattribute__", "__getstate__", "__gt__", "__hash__", "__init__",
    "__init_subclass__", "__le__", "__loader__", "__lt__", "__name__", "__ne__", "__new__",
    "__package__", "__path__", "__reduce__", "__reduce_ex__", "__repr__", "__setattr__",
    "__sizeof__", "__spec__", "__str__", "__subclasshook__", "__version__"]

def find? (name : String) : Option PublicName :=
  match errorClasses.find? (·.name == name) with
  | some c => some (.errorClass c)
  | none =>
      if items.contains name then some (.item true)
      else if internals.contains name then some (.item false)
      else none

def missing (name : String) : String :=
  "module 'spur' has no attribute " ++ (Value.text name).quoted

end PublicName

end NamedRoutes
