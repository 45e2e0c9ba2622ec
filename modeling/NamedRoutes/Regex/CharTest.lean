import NamedRoutes.Text.Case
import NamedRoutes.Text.CodePoint
import NamedRoutes.Text.Word

/-!
What an expression may ask of one character: to be a given character, to belong to a set, or
merely to be there. A test carries the rule by which it compares letters, so that it can be
answered without the flags it was read under.
-/

namespace NamedRoutes

open Text

/-- How a test compares letters. -/
inductive Folding where
  /-- A letter is only itself. -/
  | exact
  /-- ASCII letters are compared by their small form. -/
  | ascii
  /-- Letters of every script are compared by their small form, and small forms with a common
  capital are one letter. -/
  | full
  deriving DecidableEq, Repr

namespace Folding

def small : Folding → Nat → Nat
  | .exact, code => code
  | .ascii, code => asciiSmall code
  | .full, code => Text.small code

def sameLetter : Folding → Nat → List Nat
  | .full, code => Text.sameLetter code
  | _, code => [code]

/-- Every code point that is the same letter as a small form. -/
def variants : Folding → Nat → List Nat
  | .exact, code => [code]
  | .ascii, code =>
      if isAsciiLetter code then [asciiSmall code, asciiCapital code] else [code]
  | .full, code => caseVariants code

/-- Whether a code point has another case that this rule sees. -/
def isCased : Folding → Nat → Bool
  | .exact, _ => false
  | .ascii, code => isAsciiLetter code
  | .full, code => Text.isCased code

def anyCased : Folding → Nat → Nat → Bool
  | .exact, _, _ => false
  | .ascii, low, high => (low ≤ 0x5A && 0x41 ≤ high) || (low ≤ 0x7A && 0x61 ≤ high)
  | .full, low, high => Text.anyCased low high

end Folding

inductive CharKind where
  | digit | blank | word
  deriving DecidableEq, Repr

def CharKind.holds (asciiOnly : Bool) : CharKind → Nat → Bool
  | .digit, code => if asciiOnly then isAsciiDigit code else isDigit code
  | .blank, code => if asciiOnly then isAsciiBlank code else isBlank code
  | .word, code => if asciiOnly then isAsciiWord code else isWord code

inductive SetItem where
  | single (code : Nat)
  | range (low high : Nat)
  | kind (kind : CharKind) (negated : Bool)
  deriving DecidableEq, Repr

/-- The last code point of the basic plane. Beyond it a set compares letters by rules of its own:
a single member stands for itself alone, and a range also accepts a letter whose capital lies in
it. -/
def basicPlaneEnd : Nat := 0xFFFF

/-- Whether a member makes its set compare letters without regard to case. -/
def SetItem.isCased (folding : Folding) : SetItem → Bool
  | .single code => folding != .exact &&
    (folding.isCased code || folding.small code > basicPlaneEnd)
  | .range low high => folding != .exact && (folding.anyCased low high || high > basicPlaneEnd)
  | .kind .. => false

def SetItem.accepts (asciiOnly : Bool) : SetItem → Nat → Bool
  | .single code, x => x == code
  | .range low high, x => low ≤ x && x ≤ high
  | .kind k negated, x => k.holds asciiOnly x != negated

/-- Whether a member accepts a letter, given by its small form, without regard to case. -/
def SetItem.acceptsSmall (folding : Folding) (asciiOnly : Bool) : SetItem → Nat → Bool
  | .single code, x =>
      if folding.small code > basicPlaneEnd then x == code
      else (folding.sameLetter (folding.small code)).contains x
  | .range low high, x =>
      (folding.variants x).any (fun y => low ≤ y && y ≤ min high basicPlaneEnd) ||
        (high > basicPlaneEnd &&
          ((low ≤ x && x ≤ high) || (low ≤ capital x && capital x ≤ high)))
  | .kind k negated, x => k.holds asciiOnly x != negated

structure CharSet where
  negated : Bool
  items : List SetItem
  folding : Folding
  asciiOnly : Bool
  deriving DecidableEq, Repr

/-- Whether a set disregards case, which it does only if some member has case. -/
def CharSet.isCased (set : CharSet) : Bool := set.items.any (·.isCased set.folding)

def CharSet.holds (set : CharSet) (code : Nat) : Bool :=
  let found :=
    if set.isCased then
      set.items.any (·.acceptsSmall set.folding set.asciiOnly (set.folding.small code))
    else set.items.any (·.accepts set.asciiOnly code)
  found != set.negated

inductive CharTest where
  /-- The character with this code point, or with `negated` any other character. -/
  | literal (code : Nat) (negated : Bool) (folding : Folding)
  | set (set : CharSet)
  /-- Any character, a line feed only with `lineFeed`. -/
  | any (lineFeed : Bool)
  deriving DecidableEq, Repr

def CharTest.accepts : CharTest → Char → Bool
  | .literal code negated folding, c =>
      let found :=
        if folding.isCased code then
          (folding.sameLetter (folding.small code)).contains (folding.small c.toNat)
        else c.toNat == code
      found != negated
  | .set s, c => s.holds c.toNat
  | .any lineFeed, c => lineFeed || c != '\n'

end NamedRoutes
