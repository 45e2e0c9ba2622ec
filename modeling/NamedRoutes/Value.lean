import NamedRoutes.Decimal.Shortest
import NamedRoutes.Text.Quoted

/-!
Plain data as hosts pass it in and handlers give it back: what a document of values can hold.
-/

namespace NamedRoutes

inductive Value where
  | null
  | bool (b : Bool)
  | int (n : Int)
  | float (x : Float)
  | text (s : String)
  | list (items : List Value)
  /-- Named values in their order. -/
  | record (fields : List (String × Value))
  deriving Inhabited

namespace Value

/-- Numbers with a fraction keep their digits around the point from `0.0001` up to sixteen places,
and have at least two digits in their power of ten beyond. -/
def floatLayout : Decimal.Layout := { leastPoint := -4, mostPoint := 16, powerDigits := 2 }

mutual

/-- A value as it is written in messages: texts in quotes, whatever else as its literal. -/
def print : Value → List Char
  | .null => "None".toList
  | .bool true => "True".toList
  | .bool false => "False".toList
  | .int n => (toString n).toList
  | .float x => (Decimal.Double.ofBits x.toBits).write floatLayout
  | .text s => Text.quoted s.toList
  | .list items => '[' :: printItems items ++ [']']
  | .record fields => '{' :: printFields fields ++ ['}']

def printItems : List Value → List Char
  | [] => []
  | [item] => item.print
  | item :: rest => item.print ++ ',' :: ' ' :: printItems rest

def printFields : List (String × Value) → List Char
  | [] => []
  | [(name, value)] => Text.quoted name.toList ++ ':' :: ' ' :: value.print
  | (name, value) :: rest =>
      Text.quoted name.toList ++ ':' :: ' ' :: value.print ++ ',' :: ' ' :: printFields rest

end

def quoted (v : Value) : String := .ofList v.print

/-- A value as the text that stands for it: a text is itself. -/
def display : Value → String
  | .text s => s
  | v => v.quoted

def typeName : Value → String
  | .null => "NoneType"
  | .bool _ => "bool"
  | .int _ => "int"
  | .float _ => "float"
  | .text _ => "str"
  | .list _ => "list"
  | .record _ => "dict"

/-- Whether a value counts as given: not null, false, zero or empty. -/
def isGiven : Value → Bool
  | .null => false
  | .bool b => b
  | .int n => n != 0
  | .float x => x != 0
  | .text s => s != ""
  | .list items => !items.isEmpty
  | .record fields => !fields.isEmpty

end Value

end NamedRoutes
