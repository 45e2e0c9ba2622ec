import NamedRoutes.Dispatch

/-!
Routers: a store of routes together with its settings. A function can be registered for several
methods at once, and may lend its name to its routes.
-/

namespace NamedRoutes

structure RouterConfig where
  /-- The namespace as it was given. -/
  space : String := ""
  format : OutputFormat := .auto
  chunkSize : Chunk.Size := Chunk.defaultSize

structure Router where
  config : RouterConfig
  store : RouteStore

namespace RouterConfig

def settingNames : List String := ["namespace", "output_format", "chunk_size"]

/-- The namespace that a value stands for. What is not given has no text to be trimmed. -/
def spaceOf : Value → Except Error String
  | .text s => .ok s
  | value => .error (if value.isGiven then .unmatchable value else .untrimmable value)

end RouterConfig

namespace Router

def ofConfig (config : RouterConfig) : Except Error Router := do
  return { config, store := ← RouteStore.create config.space config.chunkSize }

/-- A router with settings by name. All names are checked first, then the output format, the chunk
size and the namespace. -/
def create (settings : List (String × Value)) : Except Error Router := do
  if let some (name, _) := settings.find? fun (name, _) => !RouterConfig.settingNames.contains name
    then throw (.unknownSetting name)
  let format ← match settings.lookup "output_format" with
    | some value => OutputFormat.parse value
    | none => pure .auto
  let chunkSize ← match settings.lookup "chunk_size" with
    | some value => Chunk.Size.ofValue value
    | none => pure Chunk.defaultSize
  if chunkSize.isBelowOne then throw (.badChunkSize chunkSize.value)
  let space ← match settings.lookup "namespace" with
    | some value => RouterConfig.spaceOf value
    | none => pure ""
  ofConfig { space, format, chunkSize }

def withStore (r : Router) (store : RouteStore) : Router := { r with store }

/-- The methods that a value lists: a list as it is, a text character by character and a record by
its names. -/
def methodsOf : Value → Except Error (List Value)
  | .list items => .ok items
  | .text s => .ok (s.toList.map fun c => .text (.ofList [c]))
  | .record fields => .ok (fields.map fun (name, _) => .text name)
  | _ => .error .badArgument

/-- The name that the routes of a function are built from: the one that was given, or else the name
of the function itself. -/
def baseName (name : Value) (handler : Output) : Except Error Value :=
  if name.isGiven then .ok name
  else match handler.function?.bind Handler.name? with
    | some own => .ok (.text own)
    | none => .error .unnamedFunction

def smallLetters (text : String) : String := .ofList (text.toList.map Char.toLower)

/-- The names of routes for some methods. One route has the base name itself, several ones have it
with their method behind. -/
def routeNames (base : Value) : List Value → List Value
  | [_] => [base]
  | methods =>
      methods.map fun method => .text (base.display ++ "_" ++ smallLetters method.display)

def register (r : Router) (path name methods : Value) (handler : Output) :
    Except Error (Outcome (List Route)) := do
  let methods ← methodsOf methods
  let base ← baseName name handler
  r.store.addAll <| (methods.zip (routeNames base methods)).map fun (method, name) =>
    { method, path, name, handler }

/-- The methods of a function that is registered without naming any. -/
def defaultMethods : Value := .list [.text Method.get.name]

def dispatch [Regex.Release] (r : Router) (request : RouteStore.Request) :
    Except Error (Outcome (Except Error Dispatched)) :=
  r.store.dispatch r.config.format request

def dispatchAndWait [Regex.Release] (r : Router) (request : RouteStore.Request) :
    Except Error (Outcome (Except Error Dispatched)) :=
  r.store.dispatchAndWait r.config.format request

end Router

end NamedRoutes
