import NamedRoutes.Handler
import NamedRoutes.OrderedMap
import NamedRoutes.RoutePattern

/-!
Routes: a method and a path, with the name and the handler that they lead to. A path without
placeholders is compared as it is, any other path as a pattern.
-/

namespace NamedRoutes

inductive RoutePath where
  /-- Exactly this path. -/
  | fixed (path : String)
  | pattern (pattern : RoutePattern)
  deriving Repr

/-- A registered route. -/
structure Route where
  method : Method
  name : String
  handler : Handler
  target : RoutePath

namespace Route

def pattern? (r : Route) : Option RoutePattern :=
  match r.target with
  | .fixed _ => none
  | .pattern p => some p

def isFixed (r : Route) : Bool := r.pattern?.isNone

def path (r : Route) : String :=
  match r.target with
  | .fixed path => path
  | .pattern p => p.path

/-- What two routes of one method must not share: the fixed path, or the expression of the
pattern. -/
def key (r : Route) : String :=
  match r.target with
  | .fixed path => path
  | .pattern p => p.regex

def parameterNames (r : Route) : List String := (r.pattern?.map (·.names)).getD []

def segments (r : Route) : List Segment := (r.pattern?.map (·.segments)).getD []

end Route

/-- The routes for each path or expression, by method. -/
abbrev RouteTable := OrderedMap String (OrderedMap Method Route)

namespace RouteTable

def find? (table : RouteTable) (key : String) (method : Method) : Option Route :=
  (table.get? key).bind (·.get? method)

def add (table : RouteTable) (route : Route) : RouteTable :=
  table.alter route.key fun routes => (routes.getD .empty).insert route.method route

def routes (table : RouteTable) : List Route := table.values.flatMap (·.values)

end RouteTable

structure RouteMatch where
  route : Route
  /-- Parameters with their values, in the order of the route. One without a value is absent. -/
  parameters : List (String × String)

end NamedRoutes
