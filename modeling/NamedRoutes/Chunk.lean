import NamedRoutes.Route

/-!
Matching many patterns at once. The expressions of the patterns are merged into a few large
alternations. Each alternative ends with an empty group of its own, its marker, which is the last
group to be closed when the alternative matches. So the group that was closed last leads to the
alternative, and the groups before the marker hold the parameters.
-/

namespace NamedRoutes

namespace Chunk

/-- The quotient of two numbers rounded up, for a positive divisor. -/
def ceilDiv (n d : Nat) : Nat := (n + (d - 1)) / d

/-- A positive quotient below this power of two is too small for double precision and counts as
zero, and so does the power itself. -/
def smallestQuotientPower : Nat := 1075

inductive Size where
  | whole (n : Int)
  | real (x : Float)
  /-- True counts as one and false as zero. -/
  | truth (b : Bool)

namespace Size

def value : Size → Value
  | whole n => .int n
  | real x => .float x
  | truth b => .bool b

def ofValue : Value → Except Error Size
  | .int n => .ok (whole n)
  | .float x => .ok (real x)
  | .bool b => .ok (truth b)
  | value => .error (.unorderedSize value)

def isBelowOne : Size → Bool
  | whole n => n < 1
  | real x => x < 1
  | truth b => !b

/-- The number of pieces for `count` items. A negative size asks for a negative number of pieces, so
that none is made; it is an error to ask for zero pieces, by a size of zero or by one so large or so
far below zero that the quotient rounds to zero. -/
def pieces (count : Nat) : Size → Except Error Nat
  | whole n =>
      if n = 0 || count < -n || count * Int.pow 2 smallestQuotientPower ≤ n then .error .noPieces
      else if n < 0 then .ok 0
      else .ok (ceilDiv count n.toNat)
  | real x =>
      let quotient := (count.toFloat / x).ceil
      if quotient.isNaN then .error .unknownPieces
      else if quotient == 0 then .error .noPieces
      else .ok quotient.toUInt64.toNat
  | truth b => if b then .ok count else .error .noPieces

end Size

/-- Cuts a list into pieces of a given length, the last one perhaps shorter. The first argument
bounds the number of pieces. -/
def cut {α : Type} : Nat → Nat → List α → List (List α)
  | 0, _, _ => []
  | _ + 1, _, [] => []
  | bound + 1, length, items => items.take length :: cut bound length (items.drop length)

/-- Splits items into the fewest pieces of at most `size` items, spread evenly: twelve items in
pieces of at most ten become six and six. No items need no piece. -/
def split {α : Type} (items : List α) (size : Size) : Except Error (List (List α)) :=
  let count := items.length
  if count = 0 then .ok []
  else do
    match ← size.pieces count with
    | 0 => return []
    | pieces => return cut count (ceilDiv count pieces) items

def defaultSize : Size := .whole 10

end Chunk

structure Alternative where
  /-- The number of groups in the alternatives before. -/
  base : Nat
  /-- The group that ends the alternative. -/
  marker : Nat
  /-- The routes whose expression the alternative is. -/
  routes : OrderedMap Method Route

/-- Some patterns merged into one expression. -/
structure Chunk where
  expression : Expression
  alternatives : List Alternative

namespace Chunk

/-- The number of parameters that routes with one expression have. -/
def parameterCount (routes : OrderedMap Method Route) : Nat :=
  match routes.values with
  | [] => 0
  | route :: _ => route.parameterNames.length

def layOut : Nat → List (String × OrderedMap Method Route) → List Alternative
  | _, [] => []
  | base, (_, routes) :: rest =>
      let marker := base + parameterCount routes + 1
      ⟨base, marker, routes⟩ :: layOut marker rest

def source (entries : List (String × OrderedMap Method Route)) : String :=
  "^(?:" ++ "|".intercalate (entries.map fun (regex, _) => regex ++ "()") ++ ")$"

def build (entries : List (String × OrderedMap Method Route)) : Except Error Chunk :=
  match Expression.compile (source entries) with
  | .ok expression => .ok { expression, alternatives := layOut 0 entries }
  | .error cause => .error (.badExpression (source entries) cause)

/-- The alternative that a group belongs to: the first one whose marker does not come before it. -/
def find? (c : Chunk) (group : Nat) : Option Alternative :=
  c.alternatives.find? fun a => decide (group ≤ a.marker)

end Chunk

/-- The parameters of a route found in a match, from the group after `base` on. A parameter with an
empty text or none is left out. -/
def Matched.parameters (m : Matched) : Nat → List String → List (String × String)
  | _, [] => []
  | base, name :: rest =>
      match m.group? (base + 1) with
      | some value =>
          if value == "" then m.parameters (base + 1) rest
          else (name, value) :: m.parameters (base + 1) rest
      | none => m.parameters (base + 1) rest

/-- A table of patterns that is ready to be matched. -/
structure ChunkedMatcher where
  chunks : List Chunk

namespace ChunkedMatcher

/-- Prepares a table for matching in chunks of at most `size` patterns. -/
def build (table : RouteTable) (size : Chunk.Size) : Except Error ChunkedMatcher := do
  let pieces ← Chunk.split table.entries size
  return ⟨← pieces.mapM Chunk.build⟩

def size (m : ChunkedMatcher) : Nat := m.chunks.length

def sources (m : ChunkedMatcher) : List String := m.chunks.map (·.expression.source)

/-- What a match of a chunk leads to: the route of the alternative for the method, if it has one. -/
def resolve (method : Method) (chunk : Chunk) (found : Matched) : Option RouteMatch := do
  let alternative ← chunk.find? found.lastGroup
  let route ← alternative.routes.get? method
  return ⟨route, found.parameters alternative.base route.parameterNames⟩

/-- The route that answers a request, searched in some chunks. The first chunk that matches the path
decides alone: if its route does not answer the method, no other one does. -/
def search [Regex.Release] (method : Method) (path : String) :
    List Chunk → Except Error (Option RouteMatch)
  | [] => .ok none
  | chunk :: rest =>
      match chunk.expression.fullMatch? path with
      | .error cause => .error (.badMatch cause)
      | .ok (some found) => .ok (resolve method chunk found)
      | .ok none => search method path rest

def match? [Regex.Release] (m : ChunkedMatcher) (method : Method) (path : String) :
    Except Error (Option RouteMatch) :=
  search method path m.chunks

end ChunkedMatcher

end NamedRoutes
