import NamedRoutes.RouteStore

/-!
Runs of a store. A program registers routes, sends requests and reads the merged expressions in any
order; every operation leaves a record of its answer and of the events it reported. The records tell
which routes were registered and whether the matcher is out of date, without a look at the store.
-/

namespace NamedRoutes

/-- What can be asked of a store. -/
inductive Operation where
  | add (candidate : Candidate)
  | addAll (candidates : List Candidate)
  | request (method path : Value)
  /-- Reads the merged expressions of the matcher. -/
  | sources

def Operation.isRequest : Operation → Bool
  | .request .. => true
  | _ => false

def Operation.candidates : Operation → List Candidate
  | .add c => [c]
  | .addAll cs => cs
  | .request .. => []
  | .sources => []

/-- What an operation answers: its result or its error. -/
inductive Answer where
  | added (result : Except Error Route)
  | addedAll (result : Except Error (List Route))
  | found (result : Except Error (Option RouteMatch))
  | sources (result : Except Error (List String))

structure Record where
  answer : Answer
  events : List Event

namespace Record

def registered (r : Record) : List Route :=
  match r.answer with
  | .added (.ok route) => [route]
  | .addedAll (.ok routes) => routes
  | _ => []

/-- Whether an operation has prepared the matcher anew. -/
def rebuilds (r : Record) : Bool :=
  r.events.any fun
    | .rebuilt .. => true
    | _ => false

end Record

/-- The record of an operation with its outcome, and the store after it. An operation that fails as
a whole reports nothing and leaves the store as it is. -/
def RouteStore.close {α : Type} (s : RouteStore) (answer : Except Error α → Answer) :
    Except Error (Outcome α) → Record × RouteStore
  | .ok outcome => (⟨answer (.ok outcome.value), outcome.events⟩, outcome.store)
  | .error e => (⟨answer (.error e), []⟩, s)

namespace RouteStore

def perform (s : RouteStore) : Operation → Record × RouteStore
  | .add c => s.close .added (s.add c)
  | .addAll cs => s.close .addedAll (s.addAll cs)
  | .request method path => s.close (fun r => .found (r >>= id)) (s.match? method path)
  | .sources => s.close (fun r => .sources (r.map ChunkedMatcher.sources)) s.prepared

def records (s : RouteStore) : List Operation → List Record
  | [] => []
  | op :: ops => (s.perform op).1 :: records (s.perform op).2 ops

def run (s : RouteStore) : List Operation → RouteStore
  | [] => s
  | op :: ops => run (s.perform op).2 ops

end RouteStore

/-- The routes that were registered in some operations, in their order. -/
def history (records : List Record) : List Route := records.flatMap Record.registered

/-- Whether the matcher has to be prepared after an operation, given whether it had to be before. -/
def Record.outdates (old : Bool) (r : Record) : Bool :=
  !r.rebuilds && (old || r.registered.any (!·.isFixed))

/-- Whether the matcher has to be prepared after some operations: it never was, or a route with a
pattern was registered since it last was. -/
def outdated (records : List Record) : Bool := records.foldl Record.outdates true

namespace RouteStore

theorem run_append (s : RouteStore) (first second : List Operation) :
    s.run (first ++ second) = (s.run first).run second := by
  induction first generalizing s with
  | nil => rfl
  | cons op ops ih => exact ih (s.perform op).2

theorem records_append (s : RouteStore) (first second : List Operation) :
    s.records (first ++ second) = s.records first ++ (s.run first).records second := by
  induction first generalizing s with
  | nil => rfl
  | cons op ops ih => exact congrArg _ (ih (s.perform op).2)

/-- What every run keeps from its start: a property of the store that holds at first and that no
operation destroys. -/
theorem run_induction {motive : RouteStore → Prop} (s : RouteStore) (hstart : motive s)
    (hstep : ∀ t op, motive t → motive (t.perform op).2) (ops : List Operation) :
    motive (s.run ops) := by
  induction ops generalizing s with
  | nil => exact hstart
  | cons op ops ih => exact ih _ (hstep s op hstart)

end RouteStore

end NamedRoutes
