import NamedRoutes.Router

/-!
The modules that a command can look into for a router. A router is named by its module and, after a
colon, an attribute of it; the attribute may also be a factory that makes the router.
-/

namespace NamedRoutes.CommandLine

inductive Attribute where
  | router (router : Router)
  /-- Something that can be called: it makes something else, or fails with a message. -/
  | factory (made : Except String Attribute)
  | value (value : Value)
  /-- Something of another type. -/
  | other (typeName : String)

abbrev Registry := List (String × List (String × Attribute))

def Attribute.typeName : Attribute → String
  | router _ => "Router"
  | factory _ => "function"
  | value v => v.typeName
  | other typeName => typeName

namespace Registry

/-- The attributes that every module has and that are plain values. -/
def commonValues (name : String) : List (String × Value) :=
  [("__name__", .text name), ("__doc__", .null), ("__package__", .null), ("__loader__", .null),
    ("__spec__", .null), ("__dict__", .record []), ("__annotations__", .record [])]

/-- The attributes that every module has and that can be called, with the name of the type of what
they make. -/
def commonMakers : List (String × String) :=
  [("__dir__", "list"), ("__hash__", "int"), ("__sizeof__", "int"), ("__repr__", "str"),
    ("__str__", "str"), ("__getstate__", "dict"), ("__init_subclass__", "NoneType"),
    ("__subclasshook__", "NotImplementedType")]

/-- The attributes that every module has and that ask for more when they are called, with what they
say then. -/
def commonFailures : List (String × String) :=
  let creation := "module() missing required argument 'name' (pos 1)"
  let operand := "expected 1 argument, got 0"
  [("__class__", creation), ("__init__", creation),
    ("__new__", "module.__new__(): not enough arguments"),
    ("__reduce__", "cannot pickle 'module' object"),
    ("__reduce_ex__", "__reduce_ex__() takes exactly one argument (0 given)"),
    ("__format__", "__format__() takes exactly one argument (0 given)"),
    ("__setattr__", " expected 2 arguments, got 0"), ("__delattr__", operand),
    ("__getattribute__", operand), ("__eq__", operand), ("__ne__", operand), ("__lt__", operand),
    ("__le__", operand), ("__gt__", operand), ("__ge__", operand)]

def commonAttributes (name : String) : List (String × Attribute) :=
  (commonValues name).map (fun (name, value) => (name, .value value)) ++
    commonMakers.map (fun (name, typeName) => (name, .factory (.ok (.other typeName)))) ++
    commonFailures.map fun (name, message) => (name, .factory (.error message))

/-- The module name that a dotted name lies in, empty for a name without dots. -/
def parent (name : List Char) : List Char :=
  ((name.reverse.dropWhile (· != '.')).drop 1).reverse

/-- Searches a module. A module in another one is searched after that one, which can only tell that
it holds no modules. The first argument bounds the number of dots. -/
def findModule (registry : Registry) : Nat → List Char → Except String (List (String × Attribute))
  | 0, name => .error ("No module named " ++ (Value.text (.ofList name)).quoted)
  | bound + 1, name =>
      let quoted := (Value.text (.ofList name)).quoted
      match registry.lookup (.ofList name) with
      | some attributes => .ok (attributes ++ commonAttributes (.ofList name))
      | none =>
          if (parent name).isEmpty then .error ("No module named " ++ quoted)
          else do
            let _ ← findModule registry bound (parent name)
            throw ("No module named " ++ quoted ++ "; " ++
              (Value.text (.ofList (parent name))).quoted ++ " is not a package")

def importModule (registry : Registry) (name : List Char) :
    Except String (List (String × Attribute)) :=
  if name.head? == some '.' then
    .error ("the 'package' argument is required to perform a relative import for " ++
      (Value.text (.ofList name)).quoted)
  else findModule registry (name.length + 1) name

/-- The router that an attribute is or makes. `source` is how it was asked for. -/
def toRouter (source : String) (found : Attribute) : Except String Router := do
  let quoted := (Value.text source).quoted
  let made ← match found with
    | .factory (.ok made) => pure made
    | .factory (.error message) =>
        throw ("Router factory " ++ quoted ++ " raised an error: " ++ message)
    | found => pure found
  match made with
  | .router router => return router
  | made => throw (quoted ++ " resolved to " ++ made.typeName ++ ", not a spur.Router instance")

/-- The router that a text names. The attribute is `router` unless another one follows the first
colon. The inner result is a message for the user; asking for no module at all is an error of the
caller. -/
def resolve (registry : Registry) (source : String) : Except Error (Except String Router) :=
  let text := source.toList
  let name := text.takeWhile (· != ':')
  let given := String.ofList ((text.dropWhile (· != ':')).drop 1)
  let wanted := if given == "" then "router" else given
  if name.isEmpty then .error .emptyModuleName
  else .ok do
    let attributes ← importModule registry name
    match attributes.lookup wanted with
    | some found => toRouter source found
    | none =>
        throw ("module '" ++ .ofList name ++ "' has no attribute '" ++ wanted ++ "'")

end Registry

end NamedRoutes.CommandLine
