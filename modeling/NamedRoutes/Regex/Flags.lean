import NamedRoutes.Regex.CharTest

/-!
Flags change how the text of an expression is read and how its letters are compared. They are
switched on at the start of an expression, or on and off for one group.
-/

namespace NamedRoutes

/-- The flags in force at some place of an expression. -/
structure Flags where
  /-- Letters are compared without regard to case. -/
  ignoreCase : Bool := false
  /-- Each line has a start and an end. -/
  multiline : Bool := false
  /-- The dot accepts a line feed. -/
  dotAll : Bool := false
  /-- Blanks and remarks in the expression are skipped. -/
  verbose : Bool := false
  /-- Classes of characters and letter case are those of ASCII. -/
  asciiOnly : Bool := false
  /-- The classes of every script were asked for by name. -/
  everyScript : Bool := false
  /-- The expression is a template, which repeats nothing. -/
  template : Bool := false
  deriving DecidableEq, Repr

namespace Flags

/-- The letters that stand for flags. The last one is known but never allowed. -/
def letters : List Char := ['i', 'm', 's', 'x', 'a', 'u', 't', 'L']

/-- The letters that choose between ASCII and every script. -/
def scriptLetters : List Char := ['a', 'u', 'L']

def switch (on : Bool) (flags : Flags) : Char → Flags
  | 'i' => { flags with ignoreCase := on }
  | 'm' => { flags with multiline := on }
  | 's' => { flags with dotAll := on }
  | 'x' => { flags with verbose := on }
  | 'a' => { flags with asciiOnly := on }
  | 'u' => { flags with everyScript := on }
  | 't' => { flags with template := on }
  | _ => flags

/-- The flags inside a group that switches some on and others off. Choosing a script class there
overrules the one outside. -/
def within (flags : Flags) (added removed : List Char) : Flags :=
  let base :=
    if added.any scriptLetters.contains then { flags with asciiOnly := false, everyScript := false }
    else flags
  removed.foldl (switch false) (added.foldl (switch true) base)

def folding (flags : Flags) : Folding :=
  if flags.ignoreCase then (if flags.asciiOnly then .ascii else .full) else .exact

/-- Whether both ASCII and every script were asked for. Flags that are switched on for one group
alone never are, but one switch after the other may be. -/
def contradictory (flags : Flags) : Bool := flags.asciiOnly && flags.everyScript

/-- Whether a letter may join the flags that a group switches on: never the forbidden one, and not
both script classes. -/
def mayAdd (added : List Char) (letter : Char) : Bool :=
  letters.contains letter && letter != 'L' &&
    !(scriptLetters.contains letter && added.any fun c => scriptLetters.contains c && c != letter)

/-- Whether a letter may join the flags that a group switches off. -/
def mayRemove (letter : Char) : Bool :=
  letters.contains letter && !scriptLetters.contains letter

/-- Whether a group may switch these flags on and off: none both ways, and the template flag not
for one group alone. -/
def mayScope (added removed : List Char) : Bool :=
  !added.contains 't' && !removed.contains 't' && !added.any removed.contains

end Flags

end NamedRoutes
