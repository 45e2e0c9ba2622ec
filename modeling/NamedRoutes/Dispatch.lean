import NamedRoutes.OutputFormat
import NamedRoutes.RouteStore

/-!
Dispatching: running the handler of the route that answers a request, and selecting what is served
of its output. A function that comes out is called once more. The waiting dispatcher runs deferred
handlers to their end; the plain one hands on a call that has not run.
-/

namespace NamedRoutes

inductive Dispatched where
  /-- No route answers. -/
  | unanswered
  | output (output : Output)

/-- Calls a function and waits for its output. The function itself goes by the name `handler` among
the arguments, so that no argument of its own may have this name. -/
def Handler.invoke (h : Handler) (passed : Arguments) : Except Error Output :=
  if passed.any (·.1 == "handler") then .error .badArgument
  else do (← h.call passed).await

/-- What is served of an output: one of its two branches, or what comes of calling it if it is a
function. -/
def Output.select (call : Handler → Arguments → Except Error Output) (wantsJson : Bool) :
    Output → Except Error Output
  | .branches json html => if wantsJson then .ok json else call html []
  | .function h => call h []
  | output => .ok output

def RouteMatch.arguments (m : RouteMatch) : Arguments :=
  m.parameters.map fun (name, value) => (name, .text value)

/-- Runs the handler of a match, given how functions are called. -/
def RouteMatch.serve (call : Handler → Arguments → Except Error Output) (wantsJson : Bool)
    (m : RouteMatch) : Except Error Output := do
  (← call m.route.handler m.arguments).select call wantsJson

namespace RouteStore

structure Request where
  method : Value
  path : Value
  /-- Whether the request asks for the result for programs. -/
  wantsJson : Bool := false

/-- Searches the route that answers a request. If there is none, that is reported. -/
def lookUp [Regex.Release] (s : RouteStore) (request : Request) :
    Except Error (Outcome (Except Error (Option RouteMatch))) := do
  let outcome ← s.match? request.method request.path
  match outcome.value with
  | .ok none =>
      return { outcome with
        events := outcome.events ++ [.unanswered request.method request.path] }
  | _ => return outcome

/-- What a search leads to when functions are called in a given way. -/
def answer (call : Handler → Arguments → Except Error Output) (wantsJson : Bool) :
    Except Error (Option RouteMatch) → Except Error Dispatched
  | .error cause => .error cause
  | .ok none => .ok .unanswered
  | .ok (some m) => (m.serve call wantsJson).map .output

/-- Dispatches a request. The matcher is prepared first, or cannot be; the answer of the handler is
part of the outcome, since the search may already have changed the store. -/
def dispatch [Regex.Release] (s : RouteStore) (format : OutputFormat) (request : Request) :
    Except Error (Outcome (Except Error Dispatched)) := do
  let outcome ← s.lookUp request
  return { outcome with
    value := answer Handler.call (format.wantsJson request.wantsJson) outcome.value }

def dispatchAndWait [Regex.Release] (s : RouteStore) (format : OutputFormat) (request : Request) :
    Except Error (Outcome (Except Error Dispatched)) := do
  let outcome ← s.lookUp request
  return { outcome with
    value := answer Handler.invoke (format.wantsJson request.wantsJson) outcome.value }

end RouteStore

end NamedRoutes
