/-!
What a match records of its groups: where they start and end. The record only grows while a way of
matching is followed, and its length tells how much of it is still in force once that way is given
up.
-/

namespace NamedRoutes

structure Marks where
  /-- The start and the end of the first group, of the second one and so on, as far as groups have
  been entered; `none` for a group that was passed over. -/
  edges : List (Option Nat) := []
  /-- The group that was closed last, zero if there is none. -/
  lastClosed : Nat := 0
  deriving DecidableEq, Repr

namespace Marks

/-- The edge at which a group starts, and after it the one at which it ends. -/
def startEdge (group : Nat) : Nat := 2 * (group - 1)

/-- The edges with one of them set. Edges that are passed over are empty. -/
def setEdge (edge index : Nat) (edges : List (Option Nat)) : List (Option Nat) :=
  if edge < edges.length then edges.set edge (some index)
  else edges ++ List.replicate (edge - edges.length) none ++ [some index]

def opening (group index : Nat) (m : Marks) : Marks :=
  { m with edges := setEdge (startEdge group) index m.edges }

def closing (group index : Nat) (m : Marks) : Marks :=
  ⟨setEdge (startEdge group + 1) index m.edges, group⟩

/-- Where a group starts and where it ends, if both are known. -/
def edges? (group : Nat) (m : Marks) : Option (Nat × Nat) :=
  match m.edges[startEdge group]?.join, m.edges[startEdge group + 1]?.join with
  | some first, some last => some (first, last)
  | _, _ => none

/-- The start and the end of a group's text. A group that was opened again beyond its last end has
no text until it is closed. -/
def span? (group : Nat) (m : Marks) : Option (Nat × Nat) :=
  match m.edges? group with
  | some (first, last) => if first ≤ last then some (first, last) else none
  | none => none

/-- Whether a group ends before it starts. -/
def isReversed (group : Nat) (m : Marks) : Bool :=
  match m.edges? group with
  | some (first, last) => last < first
  | none => false

def text? (group : Nat) (text : List Char) (m : Marks) : Option (List Char) :=
  (m.span? group).map fun (first, last) => (text.drop first).take (last - first)

/-- The record after giving up a way of matching that began with `m` and left `left` behind: groups
entered on the way are forgotten, but a group that was known before keeps the edges it was given on
the way. -/
def afterGivingUp (m left : Marks) : Marks :=
  ⟨left.edges.take m.edges.length, m.lastClosed⟩

end Marks

end NamedRoutes
