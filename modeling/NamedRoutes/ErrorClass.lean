import NamedRoutes.Error

/-!
The classes that errors are sorted into, from the narrow ones that each name a fault to the one that
holds them all.
-/

namespace NamedRoutes

inductive ErrorClass where
  | any
  | configuration | badNamespace | badOutputFormat
  | registration | badPattern | badMethod | badName | badHandler | duplicateName | duplicatePath
  | reverseRouting | missingRoute | missingParameter | invalidParameter | tooManyParameters
  /-- Errors about one parameter of a route. -/
  | parameter
  deriving DecidableEq, Repr

namespace ErrorClass

def name : ErrorClass → String
  | any => "SpurError"
  | configuration => "ConfigurationError"
  | badNamespace => "InvalidNamespaceError"
  | badOutputFormat => "InvalidOutputFormatError"
  | registration => "RegistrationError"
  | badPattern => "InvalidPatternError"
  | badMethod => "InvalidMethodError"
  | badName => "InvalidNameError"
  | badHandler => "InvalidHandlerError"
  | duplicateName => "DuplicateNameError"
  | duplicatePath => "DuplicatePathError"
  | reverseRouting => "ReverseRoutingError"
  | missingRoute => "MissingRouteError"
  | missingParameter => "MissingParameterError"
  | invalidParameter => "InvalidParameterError"
  | tooManyParameters => "TooManyParametersError"
  | parameter => "_ParameterError"

/-- The wider classes of a class, the nearest first. -/
def wider : ErrorClass → List ErrorClass
  | any => []
  | configuration | registration | reverseRouting => [any]
  | badNamespace | badOutputFormat => [configuration, any]
  | badPattern | badMethod | badName | badHandler | duplicateName | duplicatePath =>
      [registration, any]
  | missingRoute | tooManyParameters | parameter => [reverseRouting, any]
  | missingParameter | invalidParameter => [parameter, reverseRouting, any]

def isA (a b : ErrorClass) : Bool := a == b || a.wider.contains b

end ErrorClass

/-- The class of an error. Faults that are not sorted have none. -/
def Error.class? : Error → Option ErrorClass
  | .badNamespace _ => some .badNamespace
  | .badOutputFormat _ => some .badOutputFormat
  | .badPattern _ => some .badPattern
  | .badMethod _ => some .badMethod
  | .badName _ => some .badName
  | .badHandler _ | .badBranch => some .badHandler
  | .duplicateName _ => some .duplicateName
  | .duplicatePath .. => some .duplicatePath
  | .missingRoute _ => some .missingRoute
  | .missingParameter .. => some .missingParameter
  | .invalidParameter .. => some .invalidParameter
  | .tooManyParameters .. => some .tooManyParameters
  | .badChunkSize _ | .badExpression .. | .badMatch _ | .noPieces | .unknownPieces
  | .handlerFailed _ | .badArgument | .unknownSetting _ | .unorderedSize _ | .unmatchable _
  | .untrimmable _ | .unnamedFunction | .emptyModuleName => none

def Error.isA (e : Error) (c : ErrorClass) : Bool := e.class?.any (·.isA c)

end NamedRoutes
