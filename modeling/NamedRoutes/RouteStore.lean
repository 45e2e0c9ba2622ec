import NamedRoutes.Chunk
import NamedRoutes.Event

/-!
The store of routes: registration, the rules against clashes, and the search for the route that
answers a request. Fixed paths are looked up; patterns go through a matcher that is prepared when it
is first needed after a change. An operation either fails and changes nothing, or gives its result,
the new store and the events it reports.
-/

namespace NamedRoutes

/-- Every registered route. -/
structure RouteStore where
  /-- The path that all routes start with, empty for none. -/
  space : String
  chunkSize : Chunk.Size
  /-- The routes with a fixed path, by path and method. -/
  fixed : RouteTable := .empty
  /-- The routes with a pattern, by expression and method. -/
  patterns : RouteTable := .empty
  names : OrderedMap String Route := .empty
  /-- The matcher that was prepared last. -/
  matcher : Option ChunkedMatcher := none
  /-- Patterns were added since. -/
  stale : Bool := false

structure Outcome (α : Type) where
  value : α
  store : RouteStore
  events : List Event

/-- A route that someone asks to be registered. Nothing is known about its parts yet. -/
structure Candidate where
  method : Value
  path : Value
  name : Value
  handler : Output

namespace Candidate

def checkMethod (value : Value) : Except Error Method :=
  match Method.ofValue? value with
  | some method => .ok method
  | none => .error (.badMethod value)

def checkName : Value → Except Error String
  | .text s => if Path.isName s.toList then .ok s else .error (.badName (.text s))
  | value => .error (.badName value)

def checkHandler (name : String) (output : Output) : Except Error Handler :=
  match output.function? with
  | some handler => .ok handler
  | none => .error (.badHandler name)

def checkPath : Value → Except Error String
  | .text s => .ok (Path.trim s)
  | value => .error (.untrimmable value)

end Candidate

namespace RouteStore

def create (space : String) (chunkSize : Chunk.Size) : Except Error RouteStore := do
  if chunkSize.isBelowOne then throw (.badChunkSize chunkSize.value)
  return { space := ← Path.parseNamespace space, chunkSize }

def size (s : RouteStore) : Nat := s.names.size

def contains (s : RouteStore) (name : String) : Bool := s.names.contains name

def find? (s : RouteStore) (name : String) : Option Route := s.names.get? name

def findFixed? (s : RouteStore) (name : String) : Option Route := (s.find? name).filter (·.isFixed)

def findPattern? (s : RouteStore) (name : String) : Option Route :=
  (s.find? name).filter (!·.isFixed)

/-- Every route: those with fixed paths first, path by path, then the others, expression by
expression. -/
def routes (s : RouteStore) : List Route := s.fixed.routes ++ s.patterns.routes

def target (s : RouteStore) (path : String) : Except Error RoutePath :=
  if Path.isStatic path then do
    let path ← Path.checkStatic path
    return .fixed (Path.join s.space path)
  else do return .pattern (← RoutePattern.compile path s.space)

def tableFor (s : RouteStore) (route : Route) : RouteTable :=
  if route.isFixed then s.fixed else s.patterns

/-- Whether a route of the store has the key and the method of another one. -/
def clashes (s : RouteStore) (route : Route) : Bool :=
  ((s.tableFor route).find? route.key route.method).isSome

/-- The route for a candidate, checked against the store and against routes that are about to be
added. -/
def prepare (s : RouteStore) (pending : List Route) (c : Candidate) : Except Error Route := do
  let method ← Candidate.checkMethod c.method
  let name ← Candidate.checkName c.name
  let handler ← Candidate.checkHandler name c.handler
  if s.contains name || pending.any (·.name == name) then throw (.duplicateName name)
  let path ← Candidate.checkPath c.path
  let route : Route := { method, name, handler, target := ← s.target path }
  if s.clashes route || pending.any (fun r => r.method == method && r.key == route.key) then
    throw (.duplicatePath route.key method)
  return route

def insert (s : RouteStore) (route : Route) : RouteStore :=
  if route.isFixed then
    { s with fixed := s.fixed.add route, names := s.names.insert route.name route }
  else
    { s with
      patterns := s.patterns.add route, names := s.names.insert route.name route, stale := true }

def registration (route : Route) : Event := .registered route.method route.path route.name

def add (s : RouteStore) (c : Candidate) : Except Error (Outcome Route) := do
  let route ← s.prepare [] c
  return ⟨route, s.insert route, [registration route]⟩

/-- The routes for some candidates, after routes that are about to be added. -/
def prepareAll (s : RouteStore) (pending : List Route) :
    List Candidate → Except Error (List Route)
  | [] => .ok pending
  | c :: rest => do
      let route ← s.prepare pending c
      prepareAll s (pending ++ [route]) rest

/-- Registers several routes, or none if one of them cannot be. -/
def addAll (s : RouteStore) (candidates : List Candidate) :
    Except Error (Outcome (List Route)) := do
  let routes ← s.prepareAll [] candidates
  return ⟨routes, routes.foldl insert s, routes.map registration⟩

/-- The matcher for the patterns of the store, prepared anew if there is none or if it is stale. -/
def prepared (s : RouteStore) : Except Error (Outcome ChunkedMatcher) :=
  let rebuild : Except Error (Outcome ChunkedMatcher) := do
    let matcher ← ChunkedMatcher.build s.patterns s.chunkSize
    return ⟨matcher, { s with matcher := some matcher, stale := false },
      [.rebuilt s.patterns.size matcher.size]⟩
  match s.matcher, s.stale with
  | some matcher, false => .ok ⟨matcher, s, []⟩
  | _, _ => rebuild

/-- The route that answers a request for a trimmed path. A fixed path wins over patterns. A match
that cannot be reported is part of the outcome, since the search may already have prepared the
matcher. -/
def matchTrimmed [Regex.Release] (s : RouteStore) (method : Method) (path : String) :
    Except Error (Outcome (Except Error (Option RouteMatch))) :=
  if !s.space.toList.isPrefixOf path.toList then .ok ⟨.ok none, s, []⟩
  else match s.fixed.find? path method with
    | some route => .ok ⟨.ok (some ⟨route, []⟩), s, []⟩
    | none => do
        let ⟨matcher, store, events⟩ ← s.prepared
        return ⟨matcher.match? method path, store, events⟩

/-- The route that answers a request. An unknown method has none, whatever the path. -/
def match? [Regex.Release] (s : RouteStore) (method path : Value) :
    Except Error (Outcome (Except Error (Option RouteMatch))) :=
  match Method.ofValue? method with
  | none => .ok ⟨.ok none, s, []⟩
  | some method => do s.matchTrimmed method (← Candidate.checkPath path)

end RouteStore

end NamedRoutes
