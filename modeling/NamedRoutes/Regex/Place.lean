import NamedRoutes.Regex.Basic

/-!
Places in a text, and the conditions on a place that consume nothing.
-/

namespace NamedRoutes

/-- A place in a text: the characters before it, nearest first, and the characters after it. -/
structure Place where
  before : List Char
  after : List Char
  deriving DecidableEq, Repr

namespace Place

def start (text : List Char) : Place := ⟨[], text⟩

def index (p : Place) : Nat := p.before.length

def text (p : Place) : List Char := p.before.reverse ++ p.after

def next? (accepts : Char → Bool) : Place → Option Place
  | ⟨_, []⟩ => none
  | ⟨before, c :: rest⟩ => if accepts c then some ⟨c :: before, rest⟩ else none

def back? : Nat → Place → Option Place
  | 0, p => some p
  | count + 1, ⟨c :: before, after⟩ => back? count ⟨before, c :: after⟩
  | _ + 1, ⟨[], _⟩ => none

/-- The places that up to `bound` characters in a row lead to if they pass a test, beginning with
this place. -/
def through (accepts : Char → Bool) : Nat → Place → List Place
  | 0, p => [p]
  | bound + 1, p =>
      match p.next? accepts with
      | some q => p :: through accepts bound q
      | none => [p]

def wordAt (asciiOnly : Bool) : List Char → Bool
  | [] => false
  | c :: _ => CharKind.word.holds asciiOnly c.toNat

end Place

/-- Whether a condition holds at a place. The empty text has no word edges, and no places that are
not word edges either. -/
def Anchor.holds : Anchor → Place → Bool
  | .textStart, p => p.before.isEmpty
  | .lineStart everyLine, p =>
      p.before.isEmpty || (everyLine && p.before.head? == some '\n')
  | .textEnd, p => p.after.isEmpty
  | .lineEnd everyLine, p =>
      p.after.isEmpty || p.after == ['\n'] || (everyLine && p.after.head? == some '\n')
  | .wordEdge negated asciiOnly, p =>
      !(p.before.isEmpty && p.after.isEmpty) &&
        ((Place.wordAt asciiOnly p.before != Place.wordAt asciiOnly p.after) != negated)

end NamedRoutes
