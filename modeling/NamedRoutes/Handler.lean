import NamedRoutes.Error

/-!
Handlers: the functions that answer requests. A handler may refuse its arguments when it is called,
and when it runs it fails or gives an output. A deferred handler does not run when it is called: the
call is its output until someone waits for it. Handlers can be described by the arguments they take
and by what they build.
-/

namespace NamedRoutes

/-- Arguments by name, in the order in which they are passed. -/
abbrev Arguments := List (String × Value)

mutual

inductive Handler where
  /-- `label` is what the function is called by, `named` whether it is its own name. For the
  arguments that it is called with, `refusal` is the error of the call itself, if there is one,
  `failure` the error of running, and `result` what a run without an error gives. -/
  | ofBody (label : String) (named deferred : Bool) (refusal failure : Arguments → Option Error)
      (result : Arguments → Output)

inductive Output where
  | data (value : Value)
  | function (handler : Handler)
  /-- One result for programs and a function that makes one for people. -/
  | branches (json : Output) (html : Handler)
  /-- A call of a deferred function that has not run. -/
  | call (handler : Handler) (passed : Arguments)

end

namespace Handler

def label : Handler → String
  | ofBody label .. => label

def named : Handler → Bool
  | ofBody _ named .. => named

def deferred : Handler → Bool
  | ofBody _ _ deferred .. => deferred

/-- The name of a function, if it has one of its own. -/
def name? (h : Handler) : Option String := if h.named then some h.label else none

/-- Why a function cannot be called with some arguments, if it cannot. -/
def refusal? (passed : Arguments) : Handler → Option Error
  | ofBody _ _ _ refusal .. => refusal passed

def run (passed : Arguments) : Handler → Except Error Output
  | ofBody _ _ _ _ failure result =>
      match failure passed with
      | some e => .error e
      | none => .ok (result passed)

/-- Calls a function: a deferred one does not run yet. -/
def call (h : Handler) (passed : Arguments) : Except Error Output :=
  match h.refusal? passed with
  | some e => .error e
  | none => if h.deferred then .ok (.call h passed) else h.run passed

end Handler

namespace Output

def function? : Output → Option Handler
  | .function h => some h
  | _ => none

/-- An output with two branches. The one for people has to be a function. -/
def ofBranches (json html : Output) : Except Error Output :=
  match html.function? with
  | some h => .ok (.branches json h)
  | none => .error .badBranch

/-- Waits for an output: a call that has not run runs. -/
def await : Output → Except Error Output
  | .call h passed => h.run passed
  | output => .ok output

end Output

/-- An argument that a described function takes; without a default it is required. -/
structure Formal where
  name : String
  default : Option Value

inductive Recipe where
  | data (value : Value)
  /-- The arguments of the function. -/
  | arguments
  | function (handler : Handler)
  | branches (json html : Recipe)

def Arguments.toValue (arguments : Arguments) : Value :=
  .list (arguments.map fun (name, value) => .list [.text name, value])

def Recipe.build (bound : Arguments) : Recipe → Except Error Output
  | .data value => .ok (.data value)
  | .arguments => .ok (.data bound.toValue)
  | .function h => .ok (.function h)
  | .branches json html => do Output.ofBranches (← json.build bound) (← html.build bound)

/-- The arguments in the order in which a function takes them, with defaults for those that were not
passed, or `none` if they are not what it takes. -/
def Formal.bind? (formals : Option (List Formal)) (passed : Arguments) : Option Arguments :=
  match formals with
  | none => some passed
  | some formals =>
      if passed.all fun (name, _) => formals.any (·.name == name) then
        formals.mapM fun formal =>
          match passed.lookup formal.name, formal.default with
          | some value, _ => some (formal.name, value)
          | none, some value => some (formal.name, value)
          | none, none => none
      else none

/-- What a described function does when it runs: `formals` are the arguments it takes, `none` if it
takes any. It fails with the message `failure` if there is one, and otherwise builds its result. -/
def Recipe.run (formals : Option (List Formal)) (failure : Option String) (result : Recipe)
    (passed : Arguments) : Except Error Output :=
  match Formal.bind? formals passed with
  | none => .error .badArgument
  | some bound =>
      match failure with
      | some message => .error (.handlerFailed message)
      | none => result.build bound

namespace Handler

/-- A function by its description. Its arguments are only looked at when it runs. -/
def mk (label : String) (named deferred : Bool) (formals : Option (List Formal))
    (failure : Option String) (result : Recipe) : Handler :=
  ofBody label named deferred (fun _ => none)
    (fun passed =>
      match result.run formals failure passed with
      | .error e => some e
      | .ok _ => none)
    (fun passed =>
      match result.run formals failure passed with
      | .error _ => .data .null
      | .ok output => output)

end Handler

end NamedRoutes
