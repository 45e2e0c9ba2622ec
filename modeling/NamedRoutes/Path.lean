import NamedRoutes.Error
import NamedRoutes.Text.CodePoint

/-!
The text of paths: what may stand outside placeholders, and where a path starts and ends. A path is
compared without the blanks and slashes around it.
-/

namespace NamedRoutes.Path

def isAlphanumeric (c : Char) : Bool := c.isAlpha || c.isDigit

def isNameChar (c : Char) : Bool := isAlphanumeric c || c == '_'

def isPathChar (c : Char) : Bool := isNameChar c || c == '-' || c == '/'

def isNamespaceChar (c : Char) : Bool := isPathChar c || c == '.'

def hasDoubleSlash : List Char → Bool
  | '/' :: '/' :: _ => true
  | _ :: rest => hasDoubleSlash rest
  | [] => false

def isStaticText (text : List Char) : Bool := text.all isPathChar && !hasDoubleSlash text

def isNamespaceText (text : List Char) : Bool := text.all isNamespaceChar && !hasDoubleSlash text

def isName (text : List Char) : Bool := !text.isEmpty && text.all isNameChar

/-- Whether a character around a path does not count. -/
def isMargin (c : Char) : Bool := c == ' ' || c == '/'

def trim (path : String) : String := .ofList (Text.trim isMargin path.toList)

def isStatic (path : String) : Bool := !path.toList.contains '{' && !path.toList.contains '}'

/-- Checks a path without placeholders. The empty path is the root. -/
def checkStatic (path : String) : Except Error String :=
  if isStaticText path.toList then .ok path else .error (.badPattern (.badText path))

/-- Checks a namespace, and removes the blanks and slashes around it. -/
def parseNamespace (text : String) : Except Error String :=
  if isNamespaceText text.toList then .ok (trim text) else .error (.badNamespace text)

/-- A path inside a namespace. The root of a namespace is the namespace itself. -/
def join (space path : String) : String :=
  if space == "" then path else if path == "" then space else space ++ "/" ++ path

/-- A path between slashes, as it is given to callers. The root is one slash. -/
def wrap (path : String) : String := if path == "" then "/" else "/" ++ path ++ "/"

/-- A text cut before and after each slash. No piece is empty, and the pieces together are the
text. -/
def pieces : List Char → List (List Char)
  | [] => []
  | '/' :: rest => ['/'] :: pieces rest
  | c :: rest =>
      match pieces rest with
      | [] => [[c]]
      | ['/'] :: more => [c] :: ['/'] :: more
      | piece :: more => (c :: piece) :: more

end NamedRoutes.Path
