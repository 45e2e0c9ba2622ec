import NamedRoutes.Regex.Basic
import NamedRoutes.Regex.Flags
import NamedRoutes.Text.CodePoint
import NamedRoutes.Text.Identifier
import NamedRoutes.Text.Quoted

/-!
Reading the text of an expression. The reader takes one character at a time: its mode says what has
been read of an unfinished sign, and a stack of frames holds the parentheses that are still open.
So reading one text after another is reading their concatenation, which is what happens when
expressions are pasted together.
-/

namespace NamedRoutes

open Text

inductive RegexError where
  | badEscape
  | unclosedSet
  | badRange
  | nothingToRepeat
  | repeatedRepetition
  | badBounds
  | hugeBound
  | unclosedGroup
  | unopenedGroup
  | unclosedRemark
  | badExtension
  | badName
  /-- A name, the group that asks for it, the group that has it, and the index of the name. -/
  | takenName (name : List Char) (group holder index : Nat)
  | unknownGroup
  | openGroup
  | badFlags
  /-- Flags for the whole expression come after its start, at an index. -/
  | lateFlags (index : Nat)
  /-- Both ASCII and every script were asked for. -/
  | contradictoryFlags
  | thirdBranch
  | unboundedLookbehind
  | repetitionInTemplate
  deriving DecidableEq, Repr

namespace RegexError

/-- An index of an expression as a message tells it, with line and column if the expression has
several lines. -/
def location (source : List Char) (index : Nat) : String :=
  let before := source.take index
  let line := before.count '\n' + 1
  let column := (before.reverse.takeWhile (· != '\n')).length + 1
  let position := s!"at position {index}"
  if source.contains '\n' then position ++ s!" (line {line}, column {column})" else position

/-- The message of a fault that can turn up when sound expressions are pasted together. The other
faults have none. -/
def message (source : List Char) : RegexError → String
  | contradictoryFlags => "ASCII and UNICODE flags are incompatible"
  | unboundedLookbehind => "look-behind requires fixed-width pattern"
  | lateFlags index => "global flags not at the start of the expression " ++ location source index
  | takenName name group holder index =>
      "redefinition of group name " ++ .ofList (quoted name) ++
        s!" as group {group}; was group {holder} " ++ location source index
  | _ => ""

end RegexError

namespace Regex

/-- What the closing parenthesis makes of the text since the opening one. -/
inductive Role where
  /-- The whole expression, which no parenthesis closes. -/
  | whole
  | plain
  /-- The group has flags of its own. -/
  | flagged
  | capture (number : Nat)
  | atomic
  | ahead (negated : Bool)
  | behind (negated : Bool)
  | condition (number : Nat)
  deriving DecidableEq, Repr

/-- An item of an alternative that is still being read. -/
inductive Item where
  | single (item : Regex)
  /-- Parentheses that record nothing and set no flags. Unless they are repeated as a whole, their
  items take their place when the alternative ends. -/
  | plain (items : List Regex)
  deriving DecidableEq, Repr

namespace Item

/-- The items of a finished alternative that an item amounts to. -/
def contents : Item → List Regex
  | single item => [item]
  | plain items => items

def repeatable : Item → Regex
  | single item => item
  | plain items => .sequence items

end Item

/-- An open parenthesis and what has been read since. -/
structure Frame where
  role : Role
  flags : Flags
  /-- The finished alternatives, the latest first. -/
  branches : List (List Regex) := []
  /-- The items of the current alternative, the latest first. -/
  items : List Item := []
  /-- Inside a test of the text before: how many groups there were when the outermost such test
  began. Only those may be referred to. -/
  lookbehind : Option Nat := none
  deriving DecidableEq, Repr

/-- Whether two alternatives that begin with this item can share it. -/
def isShareable : Regex → Bool
  | .one _ | .anchor _ | .backref .. => true
  | _ => false

/-- The items that all alternatives begin with, and what remains of the alternatives. The first
alternative comes apart from the others. -/
def sharePrefix : List Regex → List (List Regex) → List Regex × List (List Regex)
  | [], others => ([], [] :: others)
  | item :: rest, others =>
      if isShareable item && others.all fun branch => branch.head? == some item then
        let (shared, branches) := sharePrefix rest (others.map List.tail)
        (item :: shared, branches)
      else ([], (item :: rest) :: others)

/-- The members of a set that accepts what an alternative does, if that is a single character or a
set that is no complement. -/
def setItems? : List Regex → Option (List SetItem)
  | [.one (.literal code false _)] => some [.single code]
  | [.one (.set set)] => if set.negated then none else some set.items
  | _ => none

/-- The items that some alternatives amount to. What all begin with is read once, and a choice
between characters becomes a set, which compares letters by the rule for sets. -/
def unite (flags : Flags) : List (List Regex) → List Regex
  | [] => []
  | [branch] => branch
  | first :: others =>
      let (shared, branches) := sharePrefix first others
      let choice := match branches.mapM setItems? with
        | some items => .one (.set ⟨false, items.flatten.eraseDups, flags.folding, flags.asciiOnly⟩)
        | none => .choice (branches.map .sequence)
      shared ++ [choice]

namespace Frame

def branch (f : Frame) : List Regex := f.items.reverse.flatMap Item.contents

/-- The items that all alternatives amount to. -/
def contents (f : Frame) : List Regex := unite f.flags (f.branch :: f.branches).reverse

def body (f : Frame) : Regex := .sequence f.contents

/-- The width of a test of the text before, if the frame is one and its width is fixed. -/
def fixedWidth? (groups : List (Option Width)) (f : Frame) : Option Nat :=
  (f.body.width groups).fixed?

def item (groups : List (Option Width)) (f : Frame) : Item :=
  match f.role with
  | .whole | .plain => .plain f.contents
  | .flagged => .single (.group f.body)
  | .capture number => .single (.capture number f.body)
  | .atomic => .single (.atomic f.body)
  | .ahead negated => .single (.ahead negated f.body)
  | .behind negated => .single (.behind negated ((f.fixedWidth? groups).getD 0) f.body)
  | .condition number =>
      match f.branches with
      | [] => .single (.conditional number (.sequence f.branch) .empty)
      | yes :: _ => .single (.conditional number (.sequence yes) (.sequence f.branch))

/-- The fault of a closed frame: a test of the text before has a fixed width. -/
def fault? (groups : List (Option Width)) (f : Frame) : Option RegexError :=
  match f.role with
  | .behind _ =>
      match f.fixedWidth? groups with
      | some _ => none
      | none => some .unboundedLookbehind
  | _ => none

end Frame

/-- What is expected next inside the brackets of a set. -/
inductive SetPhase where
  /-- The sign of a complement, or an item. -/
  | start
  /-- An item, or the closing bracket. -/
  | item
  /-- The hyphen of a range that the item may start, or another item. -/
  | after (left : SetItem)
  /-- The end of a range. -/
  | hyphen (left : SetItem)
  /-- The rest of an escape, which may be the end of a range. -/
  | escape (left : Option SetItem)
  | hex (left : Option SetItem) (digits value : Nat)
  | octal (left : Option SetItem) (digits value : Nat)
  deriving DecidableEq, Repr

inductive NameUse where
  /-- It names the group that it opens. -/
  | group
  /-- It asks for the text of a group once more. -/
  | reference
  /-- It asks whether a group has taken part. -/
  | condition
  deriving DecidableEq, Repr

/-- What has been read of a sign that is not complete. -/
inductive Mode where
  | plain
  /-- A remark to the end of the line. -/
  | lineRemark (escaped : Bool)
  /-- A remark in parentheses. -/
  | remark (escaped : Bool)
  | escape
  /-- `digits` more hexadecimal digits. -/
  | hex (digits value : Nat)
  /-- Up to `digits` more octal digits. -/
  | octal (digits value : Nat)
  /-- One digit of a group number. -/
  | reference (first : Nat)
  /-- Two octal digits, which may still be the start of a character code. -/
  | longReference (first second : Nat)
  /-- The bounds of a repetition, whose greed may follow. -/
  | greed (least : Nat) (most : Option Nat)
  /-- A brace and the characters after it, the latest first. -/
  | bounds (read : List Char)
  | set (negated : Bool) (items : List SetItem) (phase : SetPhase)
  /-- An opening parenthesis. -/
  | opened
  /-- An opening parenthesis and a question mark. -/
  | question
  /-- An opening parenthesis, a question mark and the letter of named groups. -/
  | named
  /-- An opening parenthesis, a question mark and a less-than sign. -/
  | lessThan
  /-- Flags switched on and, after a hyphen, off. -/
  | flags (added : List Char) (removed : Option (List Char))
  /-- A name, the latest character first. -/
  | name (use : NameUse) (read : List Char)
  deriving DecidableEq, Repr

/-- The state of reading an expression. -/
structure Reader where
  /-- The number of characters read. -/
  position : Nat := 0
  mode : Mode := .plain
  /-- The innermost open parenthesis. -/
  top : Frame := { role := .whole, flags := {} }
  /-- The parentheses around it, the nearest first. -/
  outer : List Frame := []
  /-- The groups so far with the widths of the complete ones, the first group first. -/
  groups : List (Option Width) := []
  /-- The names of groups. -/
  names : List (List Char × Nat) := []
  /-- The highest group number that a condition asks for. -/
  tested : Nat := 0
  /-- The first fault that counts only once the whole text has been read. -/
  pending : Option RegexError := none
  deriving DecidableEq, Repr

namespace Reader

def pushItem (r : Reader) (item : Item) : Reader :=
  { r with mode := .plain, top := { r.top with items := item :: r.top.items } }

def push (r : Reader) (item : Regex) : Reader := r.pushItem (.single item)

/-- Notes a fault that counts only once the whole text has been read. -/
def postpone (r : Reader) (fault : Option RegexError) : Reader :=
  { r with pending := r.pending.or fault }

def pushCode (r : Reader) (code : Nat) : Except RegexError Reader :=
  if code ≤ 0x10FFFF then .ok (r.push (.one (.literal code false r.top.flags.folding)))
  else .error .badEscape

def pushChar (r : Reader) (c : Char) : Reader :=
  r.push (.one (.literal c.toNat false r.top.flags.folding))

/-- Adds a set. A set of one character is that character. -/
def pushSet (r : Reader) (negated : Bool) (items : List SetItem) : Reader :=
  match items.eraseDups with
  | [.single code] => r.push (.one (.literal code negated r.top.flags.folding))
  | distinct =>
      r.push (.one (.set ⟨negated, distinct, r.top.flags.folding, r.top.flags.asciiOnly⟩))

def pushKind (r : Reader) (kind : CharKind) (negated : Bool) : Reader :=
  r.pushSet false [.kind kind negated]

def isComplete (r : Reader) (group : Nat) : Bool :=
  match group with
  | 0 => false
  | index + 1 => ((r.groups[index]?).join).isSome

/-- Whether a group may be named at this place. In a test of the text before it has to be complete
and older than the test. -/
def mayTest (r : Reader) (group : Nat) : Bool :=
  match r.top.lookbehind with
  | none => true
  | some limit => r.isComplete group && group ≤ limit

def pushReference (r : Reader) (group : Nat) : Except RegexError Reader :=
  if r.groups.length < group then .error .unknownGroup
  else if r.isComplete group && r.mayTest group then
    .ok (r.push (.backref group r.top.flags.folding))
  else .error .openGroup

def descend (r : Reader) (role : Role) (flags : Flags) : Reader :=
  let lookbehind := match role, r.top.lookbehind with
    | .behind _, none => some r.groups.length
    | _, limit => limit
  { r with
    mode := .plain, top := { role, flags, lookbehind }, outer := r.top :: r.outer }

def enter (r : Reader) (role : Role) : Reader := r.descend role r.top.flags

def enterCapture (r : Reader) : Reader :=
  { r.enter (.capture (r.groups.length + 1)) with groups := r.groups ++ [none] }

/-- Ends the current alternative. A condition has at most two. -/
def nextBranch (r : Reader) : Except RegexError Reader :=
  match r.top.role, r.top.branches with
  | .condition _, _ :: _ => .error .thirdBranch
  | _, branches =>
      .ok { r with
        mode := .plain, top := { r.top with branches := r.top.branch :: branches, items := [] } }

/-- Closes the innermost parenthesis. A numbered group becomes complete. A parenthesis too many ends
the expression, and contradictory flags of an expression count before anything behind it. -/
def leave (r : Reader) : Except RegexError Reader :=
  match r.outer with
  | [] => .error (if r.top.flags.contradictory then .contradictoryFlags else .unopenedGroup)
  | parent :: outer =>
      let groups := match r.top.role with
        | .capture number => r.groups.set (number - 1) (some (r.top.body.width r.groups))
        | _ => r.groups
      let closed := { r with top := parent, outer, groups }
      .ok ((closed.postpone (r.top.fault? r.groups)).pushItem (r.top.item r.groups))

def checkRepeatable (r : Reader) : Except RegexError Unit :=
  match r.top.items with
  | [] | .single (.anchor _) :: _ => .error .nothingToRepeat
  | .single (.repeated ..) :: _ => .error .repeatedRepetition
  | _ => .ok ()

/-- Starts a repetition of the latest item, whose greed may follow. -/
def startRepeat (r : Reader) (least : Nat) (most : Option Nat) : Except RegexError Reader := do
  r.checkRepeatable
  let fault := if r.top.flags.template then some .repetitionInTemplate else none
  return { r.postpone fault with mode := .greed least most }

def repeatLast (r : Reader) (greed : Greed) (least : Nat) (most : Option Nat) : Reader :=
  match r.top.items with
  | [] => { r with mode := .plain }
  | item :: items =>
      { r with
        mode := .plain,
        top := { r.top with
          items := .single (.repeated greed least most item.repeatable) :: items } }

/-- The anchors that a circumflex and a dollar sign stand for. -/
def startAnchor (flags : Flags) : Anchor := .lineStart flags.multiline

def endAnchor (flags : Flags) : Anchor := .lineEnd flags.multiline

def plain (r : Reader) (c : Char) : Except RegexError Reader :=
  let flags := r.top.flags
  if flags.verbose && isAsciiBlank c.toNat then .ok { r with mode := .plain }
  else if flags.verbose && c == '#' then .ok { r with mode := .lineRemark false }
  else match c with
    | '\\' => .ok { r with mode := .escape }
    | '[' => .ok { r with mode := .set false [] .start }
    | '(' => .ok { r with mode := .opened }
    | ')' => r.leave
    | '|' => r.nextBranch
    | '.' => .ok (r.push (.one (.any flags.dotAll)))
    | '^' => .ok (r.push (.anchor (startAnchor flags)))
    | '$' => .ok (r.push (.anchor (endAnchor flags)))
    | '*' => r.startRepeat 0 none
    | '+' => r.startRepeat 1 none
    | '?' => r.startRepeat 0 (some 1)
    | '{' => .ok { r with mode := .bounds [] }
    | c => .ok (r.pushChar c)

def hexValue? (c : Char) : Option Nat :=
  if '0' ≤ c && c ≤ '9' then some (c.toNat - '0'.toNat)
  else if 'a' ≤ c && c ≤ 'f' then some (c.toNat - 'a'.toNat + 10)
  else if 'A' ≤ c && c ≤ 'F' then some (c.toNat - 'A'.toNat + 10)
  else none

def octalValue? (c : Char) : Option Nat :=
  if '0' ≤ c && c ≤ '7' then some (c.toNat - '0'.toNat) else none

def decimalValue? (c : Char) : Option Nat :=
  if '0' ≤ c && c ≤ '9' then some (c.toNat - '0'.toNat) else none

/-- The control characters that have a letter of their own. -/
def controlCode? : Char → Option Nat
  | 'a' => some 0x07
  | 'f' => some 0x0C
  | 'n' => some 0x0A
  | 'r' => some 0x0D
  | 't' => some 0x09
  | 'v' => some 0x0B
  | _ => none

/-- The classes that have a letter of their own, and whether the letter stands for the
complement. -/
def kind? : Char → Option (CharKind × Bool)
  | 'd' => some (.digit, false)
  | 'D' => some (.digit, true)
  | 's' => some (.blank, false)
  | 'S' => some (.blank, true)
  | 'w' => some (.word, false)
  | 'W' => some (.word, true)
  | _ => none

def hexDigits? : Char → Option Nat
  | 'x' => some 2
  | 'u' => some 4
  | 'U' => some 8
  | _ => none

/-- Reads the character after a backslash. A letter without a meaning is an error, any other
character stands for itself. -/
def escape (r : Reader) (c : Char) : Except RegexError Reader :=
  match kind? c, controlCode? c, hexDigits? c, decimalValue? c with
  | some (kind, negated), _, _, _ => .ok (r.pushKind kind negated)
  | _, some code, _, _ => r.pushCode code
  | _, _, some digits, _ => .ok { r with mode := .hex digits 0 }
  | _, _, _, some 0 => .ok { r with mode := .octal 2 0 }
  | _, _, _, some digit => .ok { r with mode := .reference digit }
  | _, _, _, _ =>
      match c with
      | 'A' => .ok (r.push (.anchor .textStart))
      | 'Z' => .ok (r.push (.anchor .textEnd))
      | 'b' => .ok (r.push (.anchor (.wordEdge false r.top.flags.asciiOnly)))
      | 'B' => .ok (r.push (.anchor (.wordEdge true r.top.flags.asciiOnly)))
      | c => if isAsciiLetter c.toNat then .error .badEscape else .ok (r.pushChar c)

/-- Adds an item to a set, as the end of the range that `left` starts if there is one. -/
def setItem (r : Reader) (negated : Bool) (items : List SetItem) (left : Option SetItem)
    (item : SetItem) : Except RegexError Reader :=
  match left, item with
  | none, item => .ok { r with mode := .set negated items (.after item) }
  | some (.single low), .single high =>
      if low ≤ high then .ok { r with mode := .set negated (.range low high :: items) .item }
      else .error .badRange
  | some _, _ => .error .badRange

def setCode (r : Reader) (negated : Bool) (items : List SetItem) (left : Option SetItem)
    (code : Nat) : Except RegexError Reader :=
  if code ≤ 0x10FFFF then r.setItem negated items left (.single code) else .error .badEscape

def setStart (r : Reader) (negated : Bool) (items : List SetItem) (c : Char) :
    Except RegexError Reader :=
  if c == ']' && !items.isEmpty then .ok (r.pushSet negated items.reverse)
  else if c == '\\' then .ok { r with mode := .set negated items (.escape none) }
  else r.setItem negated items none (.single c.toNat)

def setAfter (r : Reader) (negated : Bool) (items : List SetItem) (left : SetItem) (c : Char) :
    Except RegexError Reader :=
  if c == '-' then .ok { r with mode := .set negated items (.hyphen left) }
  else r.setStart negated (left :: items) c

/-- Reads the character after an item and a hyphen in a set. Before the closing bracket the hyphen
stands for itself. -/
def setHyphen (r : Reader) (negated : Bool) (items : List SetItem) (left : SetItem) (c : Char) :
    Except RegexError Reader :=
  if c == ']' then .ok (r.pushSet negated (items.reverse ++ [left, .single '-'.toNat]))
  else if c == '\\' then .ok { r with mode := .set negated items (.escape (some left)) }
  else r.setItem negated items (some left) (.single c.toNat)

def setEscape (r : Reader) (negated : Bool) (items : List SetItem) (left : Option SetItem)
    (c : Char) : Except RegexError Reader :=
  match kind? c, controlCode? c, hexDigits? c, octalValue? c with
  | some (kind, complement), _, _, _ => r.setItem negated items left (.kind kind complement)
  | _, some code, _, _ => r.setItem negated items left (.single code)
  | _, _, some digits, _ => .ok { r with mode := .set negated items (.hex left digits 0) }
  | _, _, _, some digit => .ok { r with mode := .set negated items (.octal left 2 digit) }
  | _, _, _, _ =>
      if c == 'b' then r.setItem negated items left (.single 0x08)
      else if isAsciiLetter c.toNat || (decimalValue? c).isSome then .error .badEscape
      else r.setItem negated items left (.single c.toNat)

/-- Reads a character inside a set. An octal number ends before the first character that is no octal
digit, which is then read on its own. -/
def set (r : Reader) (negated : Bool) (items : List SetItem) (c : Char) :
    SetPhase → Except RegexError Reader
  | .start =>
      if c == '^' then .ok { r with mode := .set true items .item } else r.setStart negated items c
  | .item => r.setStart negated items c
  | .after left => r.setAfter negated items left c
  | .hyphen left => r.setHyphen negated items left c
  | .escape left => r.setEscape negated items left c
  | .hex left digits value =>
      match hexValue? c with
      | none => .error .badEscape
      | some digit =>
          let value := value * 16 + digit
          if digits ≤ 1 then r.setCode negated items left value
          else .ok { r with mode := .set negated items (.hex left (digits - 1) value) }
  | .octal left digits value =>
      match octalValue? c with
      | some digit =>
          let value := value * 8 + digit
          if 0o377 < value then .error .badEscape
          else if digits ≤ 1 then r.setCode negated items left value
          else .ok { r with mode := .set negated items (.octal left (digits - 1) value) }
      | none =>
          match left with
          | none => r.setAfter negated items (.single value) c
          | some (.single low) =>
              if low ≤ value then r.setStart negated (.range low value :: items) c
              else .error .badRange
          | some _ => .error .badRange

/-- The group number that a text stands for: decimal digits of any script, which single underscores
may separate, with blanks around them and a plus sign in front. -/
def groupNumber? (text : List Char) : Option Nat :=
  let isMargin (c : Char) : Bool :=
    if c.toNat < 0x80 then isAsciiBlank c.toNat else isBlank c.toNat
  let digits := match trim isMargin text with
    | '+' :: rest => rest
    | rest => rest
  digitsValue? digits 0 false
where
  /-- The value of digits after others of value `value`; `ready` says whether an underscore may come
  next, and whether the number may end. -/
  digitsValue? : List Char → Nat → Bool → Option Nat
    | [], value, ready => if ready then some value else none
    | '_' :: rest, value, ready => if ready then digitsValue? rest value false else none
    | c :: rest, value, _ =>
        match digitValue? c.toNat with
        | some digit => digitsValue? rest (value * 10 + digit) true
        | none => none

/-- The group that a condition asks for, by name or by number. A number may belong to a group that
comes later. -/
def condition (r : Reader) (text : List Char) : Except RegexError Reader :=
  let open? (group : Nat) (tested : Nat) : Except RegexError Reader :=
    if r.mayTest group then .ok { r.enter (.condition group) with tested := max r.tested tested }
    else .error .openGroup
  if isIdentifier text then
    match r.names.lookup text with
    | some number => open? number 0
    | none => .error .unknownGroup
  else
    match groupNumber? text with
    | none | some 0 => .error .badName
    | some number => open? number number

def name (r : Reader) (use : NameUse) (read : List Char) (c : Char) : Except RegexError Reader :=
  let terminator := match use with
    | .group => '>'
    | .reference | .condition => ')'
  if c == '\\' then .error .badName
  else if c != terminator then .ok { r with mode := .name use (c :: read) }
  else
    let text := read.reverse
    match use with
    | .condition => if text.isEmpty then .error .badName else r.condition text
    | .reference =>
        if !isIdentifier text then .error .badName
        else match r.names.lookup text with
          | some number => r.pushReference number
          | none => .error .unknownGroup
    | .group =>
        if !isIdentifier text then .error .badName
        else
          let group := r.groups.length + 1
          match r.names.lookup text with
          | some holder =>
              .error (.takenName text group holder (r.position - (text.length + 1)))
          | none => .ok { r.enterCapture with names := (text, group) :: r.names }

def readFlags (r : Reader) (added : List Char) (removed : Option (List Char)) (c : Char) :
    Except RegexError Reader :=
  let scope (removed : List Char) : Except RegexError Reader :=
    if Flags.mayScope added removed then
      .ok (r.descend .flagged (r.top.flags.within added removed))
    else .error .badFlags
  match removed, c with
  | none, ')' =>
      if r.outer.isEmpty && r.top.branches.isEmpty && r.top.items.isEmpty then
        .ok { r with
          mode := .plain,
          top := { r.top with flags := added.foldl (Flags.switch true) r.top.flags } }
      else .error (.lateFlags (r.position - (added.length + 3)))
  | none, ':' => scope []
  | none, '-' => .ok { r with mode := .flags added (some []) }
  | none, letter =>
      if Flags.mayAdd added letter then .ok { r with mode := .flags (letter :: added) none }
      else .error .badFlags
  | some (letter :: rest), ':' => scope (letter :: rest)
  | some removed, letter =>
      if Flags.mayRemove letter then .ok { r with mode := .flags added (some (letter :: removed)) }
      else .error .badFlags

def question (r : Reader) (c : Char) : Except RegexError Reader :=
  match c with
  | ':' => .ok (r.enter .plain)
  | '>' => .ok (r.enter .atomic)
  | '=' => .ok (r.enter (.ahead false))
  | '!' => .ok (r.enter (.ahead true))
  | '<' => .ok { r with mode := .lessThan }
  | 'P' => .ok { r with mode := .named }
  | '#' => .ok { r with mode := .remark false }
  | '(' => .ok { r with mode := .name .condition [] }
  | '-' => .ok { r with mode := .flags [] (some []) }
  | c => if Flags.mayAdd [] c then .ok { r with mode := .flags [c] none } else .error .badExtension

/-- The largest bound of a repetition is below this number. -/
def boundLimit : Nat := 4294967295

def decimal (digits : List Char) : Nat :=
  digits.foldl (fun value c => value * 10 + (decimalValue? c).getD 0) 0

/-- Reads the closing brace of the bounds of a repetition: one number for both, or a number or
nothing on either side of a comma. -/
def closeBounds (r : Reader) (text : List Char) : Except RegexError Reader :=
  let first := text.takeWhile (· != ',')
  let second := match text.dropWhile (· != ',') with
    | [] => first
    | _ :: rest => rest
  let least := decimal first
  let most := if second.isEmpty then none else some (decimal second)
  if boundLimit ≤ least || boundLimit ≤ most.getD 0 then .error .hugeBound
  else if (most.getD least) < least then .error .badBounds
  else r.startRepeat least most

/-- Takes a brace and the characters after it for what they are. -/
def abandonBounds (r : Reader) (read : List Char) : Reader :=
  read.reverse.foldl pushChar (r.pushChar '{')

/-- Reads one character, which the position already counts. -/
def take (r : Reader) (c : Char) : Except RegexError Reader :=
  match r.mode with
  | .plain => r.plain c
  | .lineRemark escaped =>
      .ok { r with mode :=
        if escaped then .lineRemark false
        else if c == '\n' then .plain
        else .lineRemark (c == '\\') }
  | .remark escaped =>
      .ok { r with mode :=
        if escaped then .remark false
        else if c == ')' then .plain
        else .remark (c == '\\') }
  | .escape => r.escape c
  | .hex digits value =>
      match hexValue? c with
      | none => .error .badEscape
      | some digit =>
          let value := value * 16 + digit
          if digits ≤ 1 then r.pushCode value
          else .ok { r with mode := .hex (digits - 1) value }
  | .octal digits value =>
      match octalValue? c with
      | none => do (← r.pushCode value).plain c
      | some digit =>
          let value := value * 8 + digit
          if digits ≤ 1 then r.pushCode value
          else .ok { r with mode := .octal (digits - 1) value }
  | .reference first =>
      match decimalValue? c with
      | none => do (← r.pushReference first).plain c
      | some second =>
          if first < 8 && second < 8 then .ok { r with mode := .longReference first second }
          else r.pushReference (first * 10 + second)
  | .longReference first second =>
      match octalValue? c with
      | none => do (← r.pushReference (first * 10 + second)).plain c
      | some third =>
          let value := first * 64 + second * 8 + third
          if 0o377 < value then .error .badEscape else r.pushCode value
  | .greed least most =>
      match c with
      | '?' => .ok (r.repeatLast .lazy least most)
      | '+' => .ok (r.repeatLast .possessive least most)
      | c => (r.repeatLast .greedy least most).plain c
  | .bounds read =>
      if (decimalValue? c).isSome || (c == ',' && !read.contains ',') then
        .ok { r with mode := .bounds (c :: read) }
      else if c == '}' && !read.isEmpty then r.closeBounds read.reverse
      else (r.abandonBounds read).plain c
  | .set negated items phase => r.set negated items c phase
  | .opened => if c == '?' then .ok { r with mode := .question } else r.enterCapture.plain c
  | .question => r.question c
  | .named =>
      match c with
      | '<' => .ok { r with mode := .name .group [] }
      | '=' => .ok { r with mode := .name .reference [] }
      | _ => .error .badExtension
  | .lessThan =>
      match c with
      | '=' => .ok (r.enter (.behind false))
      | '!' => .ok (r.enter (.behind true))
      | _ => .error .badExtension
  | .flags added removed => r.readFlags added removed c
  | .name use read => r.name use read c

def step (r : Reader) (c : Char) : Except RegexError Reader :=
  take { r with position := r.position + 1 } c

/-- Completes what was being read when the text ended. -/
def settle (r : Reader) : Except RegexError Reader :=
  match r.mode with
  | .plain | .lineRemark false => .ok r
  | .octal _ value => r.pushCode value
  | .reference first => r.pushReference first
  | .longReference first second => r.pushReference (first * 10 + second)
  | .greed least most => .ok (r.repeatLast .greedy least most)
  | .bounds read => .ok (r.abandonBounds read)
  | .lineRemark true | .escape | .hex .. => .error .badEscape
  | .set .. => .error .unclosedSet
  | .remark _ => .error .unclosedRemark
  | .opened | .question | .named | .lessThan => .error .unclosedGroup
  | .flags .. => .error .badFlags
  | .name .. => .error .badName

/-- The expression that was read: all parentheses are closed, every group that a condition asks
for exists, and no fault is pending. -/
def finish (r : Reader) : Except RegexError (Regex × Nat) := do
  let r ← r.settle
  if !r.outer.isEmpty then throw .unclosedGroup
  if r.top.flags.contradictory then throw .contradictoryFlags
  if r.groups.length < r.tested then throw .unknownGroup
  if let some fault := r.pending then throw fault
  return (r.top.body, r.groups.length)

def readAll (r : Reader) (text : List Char) : Except RegexError Reader := text.foldlM step r

end Reader

def parse (text : List Char) : Except RegexError (Regex × Nat) := do
  (← ({} : Reader).readAll text).finish

end Regex

end NamedRoutes
