import NamedRoutes.Regex.Match
import NamedRoutes.Regex.Reader

/-!
Expressions that are ready to be matched, together with the text they were read from, and literal
text as an expression, in which every character that could mean something else is escaped.
-/

namespace NamedRoutes

namespace Regex

/-- The printable characters that mean something in an expression or in a set. -/
def specialChars : List Char :=
  ['(', ')', '[', ']', '{', '}', '?', '*', '+', '-', '|', '^', '$', '\\', '.', '&', '~', '#']

/-- Whether a character is escaped in literal text. Blanks are, since verbose expressions skip
them. -/
def isSpecial (c : Char) : Bool := specialChars.contains c || Text.isAsciiBlank c.toNat

def quoteChar (c : Char) : List Char := if isSpecial c then ['\\', c] else [c]

def quote (text : List Char) : List Char := text.flatMap quoteChar

end Regex

structure Expression where
  source : String
  regex : Regex
  /-- The number of groups. -/
  groups : Nat
  deriving Repr

structure Matched where
  text : List Char
  marks : Marks
  deriving DecidableEq, Repr

inductive MatchError where
  /-- A group ends before it starts. It was opened again behind its end, in a way that was given up
  and left the new start behind. -/
  | reversedGroup
  deriving DecidableEq, Repr

namespace Matched

def group? (m : Matched) (number : Nat) : Option String :=
  (m.marks.text? number m.text).map .ofList

def lastGroup (m : Matched) : Nat := m.marks.lastClosed

end Matched

namespace Expression

def compile (source : String) : Except RegexError Expression := do
  let (regex, groups) ← Regex.parse source.toList
  return { source, regex, groups }

def groupNumbers (e : Expression) : List Nat := (List.range e.groups).map (· + 1)

def fullMatch? [Regex.Release] (e : Expression) (text : String) :
    Except MatchError (Option Matched) :=
  match e.regex.fullMatch? text.toList with
  | none => .ok none
  | some marks =>
      if e.groupNumbers.any marks.isReversed then .error .reversedGroup
      else .ok (some ⟨text.toList, marks⟩)

def accepts [Regex.Release] (e : Expression) (text : String) : Except MatchError Bool :=
  (e.fullMatch? text).map Option.isSome

def groupTexts (e : Expression) (m : Matched) : List (Option String) := e.groupNumbers.map m.group?

end Expression

end NamedRoutes
