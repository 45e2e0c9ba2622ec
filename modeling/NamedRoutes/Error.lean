import NamedRoutes.Method
import NamedRoutes.Regex.Expression

/-!
What can go wrong when a router is set up, routes are registered, requests are dispatched and paths
are built. An error is a cause; its message is written from it. A request that no route answers is
no error.
-/

namespace NamedRoutes

/-- Why a route path is malformed. `path` is the path with its shortcuts expanded. -/
inductive PatternError where
  /-- Braces are nested or without a partner. -/
  | unbalancedBraces (path : String)
  /-- The text outside placeholders has a forbidden character or an empty component. -/
  | badText (text : String)
  /-- Some placeholders are not a name or a name with an expression. -/
  | badPlaceholders (count : Nat) (path : String)
  | repeatedName (name path : String)
  /-- The expression of a placeholder is none. -/
  | badExpression (expression name path : String)
  /-- The expression of a placeholder has a group of its own. -/
  | innerGroup (name path : String)
  deriving DecidableEq, Repr

inductive Error where
  | badNamespace (text : String)
  | badOutputFormat (value : Value)
  /-- A chunk size below one. -/
  | badChunkSize (size : Value)
  | badPattern (cause : PatternError)
  | badMethod (value : Value)
  | badName (value : Value)
  | badHandler (route : String)
  /-- A response with two branches whose page branch cannot be called. -/
  | badBranch
  | duplicateName (name : String)
  | duplicatePath (key : String) (method : Method)
  | missingRoute (name : String)
  | missingParameter (parameter route : String)
  | invalidParameter (parameter route : String)
  | tooManyParameters (route : String) (expected got : Nat)
  /-- Expressions that are sound one by one make no sound expression together. -/
  | badExpression (source : String) (cause : RegexError)
  /-- A text was matched, but the match cannot be reported. -/
  | badMatch (cause : MatchError)
  /-- Items were to be cut into no pieces. -/
  | noPieces
  /-- Items were to be cut into pieces of a size that is not a number. -/
  | unknownPieces
  /-- A handler gave up with a message of its own. -/
  | handlerFailed (message : String)
  /-- A function was called with arguments that it does not take. -/
  | badArgument
  | unknownSetting (name : String)
  /-- A chunk size that cannot be compared with a number. -/
  | unorderedSize (value : Value)
  /-- A value that is no text was to be matched. -/
  | unmatchable (value : Value)
  /-- A value that is no text was to be trimmed. -/
  | untrimmable (value : Value)
  /-- A function without a name was to lend its name. -/
  | unnamedFunction
  /-- A module was asked for by the empty name. -/
  | emptyModuleName

namespace PatternError

def message : PatternError → String
  | unbalancedBraces path => s!"Mismatching curly braces in '{path}' route."
  | badText text => s!"'{text}' is not a valid route path."
  | badPlaceholders count path =>
      let noun := if count = 1 then "parameter" else "parameters"
      s!"{count} invalid {noun} found in '{path}' route."
  | repeatedName name path => s!"Parameter '{name}' found more than once in '{path}' route."
  | badExpression expression name path =>
      s!"'{expression}' is not a valid regex for parameter '{name}' in '{path}' route."
  | innerGroup name path =>
      s!"The regex for parameter '{name}' in '{path}' route contains a capturing group. " ++
        "Use (?:...) instead."

end PatternError

namespace Error

/-- The message of an error. Errors that only their cause describes have none. -/
def message : Error → String
  | badNamespace text => s!"'{text}' is not a valid namespace."
  | badOutputFormat value => value.quoted ++ " is not a valid output format."
  | badChunkSize size => "chunk_size must be at least 1, got " ++ size.display ++ "."
  | badPattern cause => cause.message
  | badMethod value => value.quoted ++ " is not a valid HTTP method."
  | badName value => value.quoted ++ " is not a valid route name."
  | badHandler route => s!"Invalid handler for '{route}' route."
  | badBranch => "The html branch of RespondTo must be callable."
  | duplicateName name => s!"A route named '{name}' already exists."
  | duplicatePath key method =>
      s!"Cannot register two routes matching '{key}' for method '{method.name}'."
  | missingRoute name => s!"There is no route named '{name}'."
  | missingParameter parameter route =>
      s!"Missing required parameter '{parameter}' for '{route}' route."
  | invalidParameter parameter route => s!"Invalid parameter '{parameter}' for '{route}' route."
  | tooManyParameters route expected got =>
      s!"Too many parameters for '{route}' route: expected at most {expected}, got {got}."
  | badExpression source cause => cause.message source.toList
  | unknownPieces => "cannot convert float NaN to integer"
  | badMatch _ | noPieces | badArgument | unnamedFunction => ""
  | handlerFailed message => message
  | unknownSetting name =>
      "RouterConfig.__init__() got an unexpected keyword argument " ++ (Value.text name).quoted
  | unorderedSize value =>
      s!"'<' not supported between instances of '{value.typeName}' and 'int'"
  | unmatchable value => s!"expected string or bytes-like object, got '{value.typeName}'"
  | untrimmable value => s!"'{value.typeName}' object has no attribute 'strip'"
  | emptyModuleName => "Empty module name"

end Error

end NamedRoutes
