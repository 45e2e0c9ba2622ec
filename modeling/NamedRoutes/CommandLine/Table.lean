import NamedRoutes.CommandLine.Help
import NamedRoutes.Route

/-!
The table of routes: a row for each route under a row of headers, in columns as wide as their widest
entry.
-/

namespace NamedRoutes.CommandLine

/-- A row: method, path, name and handler. The last column is not padded. -/
structure Row where
  method : String
  path : String
  name : String
  handler : String
  deriving DecidableEq, Repr

namespace Row

def headers : Row := ⟨"METHOD", "PATH", "NAME", "HANDLER"⟩

def ofRoute (r : Route) : Row := ⟨r.method.name, "/" ++ r.path, r.name, r.handler.label⟩

end Row

def padTo (width : Nat) (text : String) : String :=
  text ++ .ofList (List.replicate (width - text.length) ' ')

def longest (texts : List String) : Nat := (texts.map String.length).foldl max 0

/-- The longest line of dashes. -/
def longestRule : Nat := 80

def table (routes : List Route) : String :=
  let rows := routes.map Row.ofRoute
  let width (column : Row → String) : Nat := longest ((Row.headers :: rows).map column)
  let write (row : Row) : String :=
    padTo (width Row.method) row.method ++ "  " ++ padTo (width Row.path) row.path ++ "  " ++
      padTo (width Row.name) row.name ++ "  " ++ row.handler
  let total := width Row.method + width Row.path + width Row.name + 6 +
    longest (rows.map Row.handler)
  let rule := String.ofList (List.replicate (min total longestRule) '-')
  lines (write .headers :: rule :: rows.map write)

end NamedRoutes.CommandLine
