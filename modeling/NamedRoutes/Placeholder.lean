import NamedRoutes.Path

/-!
Placeholders: the parts of a path in braces, which stand for a parameter. A placeholder has a name,
perhaps an expression after a colon, and a question mark behind it if the parameter is optional. One
letter in place of an expression stands for a common one.
-/

namespace NamedRoutes

/-- A letter that stands for an expression when nothing else follows the colon. -/
inductive Shortcut where
  | digits | alphanumerics | slug
  deriving DecidableEq, Repr

namespace Shortcut

def all : List Shortcut := [.digits, .alphanumerics, .slug]

def letter : Shortcut → Char
  | digits => 'i'
  | alphanumerics => 'a'
  | slug => 's'

def expression : Shortcut → String
  | digits => "[0-9]+"
  | alphanumerics => "[a-zA-Z0-9]+"
  | slug => "[a-zA-Z0-9_\\-.]+"

/-- Writes out a shortcut wherever its letter stands between a colon and a closing brace. -/
def expandIn (shortcut : Shortcut) : List Char → List Char
  | ':' :: c :: '}' :: rest =>
      if c = shortcut.letter then
        ':' :: shortcut.expression.toList ++ '}' :: expandIn shortcut rest
      else ':' :: expandIn shortcut (c :: '}' :: rest)
  | c :: rest => c :: expandIn shortcut rest
  | [] => []

def expand (path : String) : String :=
  .ofList (all.foldl (fun text shortcut => shortcut.expandIn text) path.toList)

end Shortcut

structure Placeholder where
  name : String
  expression : String
  optional : Bool
  deriving DecidableEq, Repr

namespace Placeholder

/-- What a parameter without an expression accepts: all up to the next slash. -/
def defaultExpression : String := "[^/]+"

/-- The name and the expression between braces, if they have that form. -/
def read? (content : List Char) (optional : Bool) : Option Placeholder :=
  let name := content.takeWhile Path.isNameChar
  if name.isEmpty then none
  else match content.dropWhile Path.isNameChar with
    | [] => some ⟨.ofList name, defaultExpression, optional⟩
    | ':' :: c :: rest => some ⟨.ofList name, .ofList (c :: rest), optional⟩
    | _ => none

end Placeholder

/-- What stands between a pair of braces, whether a question mark follows, and the text up to the
next pair. -/
structure Slot where
  content : List Char
  optional : Bool
  after : List Char
  deriving DecidableEq, Repr

structure CutPath where
  before : List Char
  slots : List Slot
  deriving DecidableEq, Repr

namespace CutPath

def splitOptional : List Char → Bool × List Char
  | '?' :: rest => (true, rest)
  | text => (false, text)

mutual

/-- Cuts a path at its braces, unless they are nested or without a partner. -/
def ofText? : List Char → Option CutPath
  | [] => some ⟨[], []⟩
  | c :: rest =>
      if c = '{' then
        (ofBraces? rest).map fun (content, cut) =>
          let (optional, after) := splitOptional cut.before
          ⟨[], ⟨content, optional, after⟩ :: cut.slots⟩
      else if c = '}' then none
      else (ofText? rest).map fun cut => { cut with before := c :: cut.before }

/-- The text up to the closing brace, and the cut of what follows. -/
def ofBraces? : List Char → Option (List Char × CutPath)
  | [] => none
  | c :: rest =>
      if c = '}' then (ofText? rest).map fun cut => ([], cut)
      else if c = '{' then none
      else (ofBraces? rest).map fun (content, cut) => (c :: content, cut)

end

/-- The path with a word in place of every placeholder. -/
def outline (cut : CutPath) : List Char :=
  cut.before ++ cut.slots.flatMap fun slot => "param".toList ++ slot.after

/-- The placeholders with the texts after them, without the slots that are none. -/
def placeholders (cut : CutPath) : List (Placeholder × List Char) :=
  cut.slots.filterMap fun slot =>
    (Placeholder.read? slot.content slot.optional).map fun placeholder => (placeholder, slot.after)

end CutPath

structure Template where
  before : List Char
  placeholders : List (Placeholder × List Char)
  deriving DecidableEq, Repr

namespace Template

def names (t : Template) : List String := t.placeholders.map (·.1.name)

/-- The first text that stands before itself. -/
def firstRepeated? : List String → List String → Option String
  | _, [] => none
  | seen, name :: rest =>
      if seen.contains name then some name else firstRepeated? (name :: seen) rest

def parse (path : String) : Except PatternError Template := do
  let some cut := CutPath.ofText? path.toList | throw (.unbalancedBraces path)
  if !Path.isStaticText cut.outline then throw (.badText (.ofList cut.outline))
  let template : Template := ⟨cut.before, cut.placeholders⟩
  let malformed := cut.slots.length - template.placeholders.length
  if malformed != 0 then throw (.badPlaceholders malformed path)
  if let some name := firstRepeated? [] template.names then throw (.repeatedName name path)
  return template

end Template

end NamedRoutes
