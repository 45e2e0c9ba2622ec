import NamedRoutes.Regex.CharTest

/-!
Regular expressions as trees. Every node carries what it needs to be matched: letters know how
they compare, groups know their number, and a test of the text before knows how far to step back.
-/

namespace NamedRoutes

/-- Conditions on a place in the text that consume nothing. -/
inductive Anchor where
  /-- The start of the text. -/
  | textStart
  /-- The start of the text, or with `everyLine` of any line. -/
  | lineStart (everyLine : Bool)
  /-- The end of the text. -/
  | textEnd
  /-- The end of the text or of its last line, or with `everyLine` of any line. -/
  | lineEnd (everyLine : Bool)
  /-- The edge of a word, or with `negated` any place of a nonempty text that is none. -/
  | wordEdge (negated asciiOnly : Bool)
  deriving DecidableEq, Repr

/-- The order in which a repetition tries its numbers of rounds. -/
inductive Greed where
  /-- As many rounds as possible first. -/
  | greedy
  /-- As few rounds as possible first. -/
  | lazy
  /-- As many rounds as possible, never given back. -/
  | possessive
  deriving DecidableEq, Repr

/-- A regular expression. A choice is a chain of alternatives that `never` ends. -/
inductive Regex where
  | empty
  /-- Matches nothing. -/
  | never
  | one (test : CharTest)
  | anchor (anchor : Anchor)
  | seq (first second : Regex)
  | alt (first second : Regex)
  /-- Parentheses that have flags of their own and record nothing. -/
  | group (body : Regex)
  /-- Parentheses that record where their text starts and ends. -/
  | capture (number : Nat) (body : Regex)
  /-- Parentheses that keep the first way in which their body matches. -/
  | atomic (body : Regex)
  /-- A test of the text ahead. -/
  | ahead (negated : Bool) (body : Regex)
  /-- A test of the `width` characters before. -/
  | behind (negated : Bool) (width : Nat) (body : Regex)
  /-- The text of an earlier group once more. -/
  | backref (number : Nat) (folding : Folding)
  /-- One expression if a group has taken part, another one if not. -/
  | conditional (number : Nat) (yes no : Regex)
  /-- At least `least` and at most `most` rounds of the body; `none` sets no limit. -/
  | repeated (greed : Greed) (least : Nat) (most : Option Nat) (body : Regex)
  deriving DecidableEq, Repr

namespace Regex

def sequence (items : List Regex) : Regex := items.foldr .seq .empty

def choice (alternatives : List Regex) : Regex := alternatives.foldr .alt .never

/-- The test of an expression that consumes exactly one character. -/
def test? : Regex → Option CharTest
  | .one test => some test
  | .seq item .empty => item.test?
  | .group body => body.test?
  | _ => none

end Regex

/-- How many characters an expression can consume. -/
structure Width where
  least : Nat
  /-- `none` if there is no limit. -/
  most : Option Nat
  deriving DecidableEq, Repr

namespace Width

def zero : Width := ⟨0, some 0⟩

def one : Width := ⟨1, some 1⟩

def add (a b : Width) : Width :=
  ⟨a.least + b.least, match a.most, b.most with
    | some x, some y => some (x + y)
    | _, _ => none⟩

def union (a b : Width) : Width :=
  ⟨min a.least b.least, match a.most, b.most with
    | some x, some y => some (max x y)
    | _, _ => none⟩

/-- The width of a repetition. A body that consumes nothing consumes nothing however often it is
repeated. -/
def times (a : Width) (least : Nat) (most : Option Nat) : Width :=
  ⟨a.least * least, match a.most, most with
    | some 0, _ => some 0
    | _, some 0 => some 0
    | some x, some n => some (x * n)
    | _, _ => none⟩

/-- The number of characters that counts as no limit. -/
def limit : Nat := 4294967295

def fixed? (w : Width) : Option Nat :=
  if w.most = some w.least && w.least < limit then some w.least else none

end Width

/-- How many characters an expression can consume, given the widths of the groups that are
complete, the first group first. -/
def Regex.width (groups : List (Option Width)) : Regex → Width
  | .empty | .never | .anchor _ | .ahead .. | .behind .. => .zero
  | .one _ => .one
  | .seq a b => (a.width groups).add (b.width groups)
  | .alt a .never => a.width groups
  | .alt a b => (a.width groups).union (b.width groups)
  | .group body | .capture _ body | .atomic body => body.width groups
  | .backref number _ => ((groups[number - 1]?).join).getD .zero
  | .conditional _ yes no => (yes.width groups).union (no.width groups)
  | .repeated _ least most body => (body.width groups).times least most

end NamedRoutes
