import NamedRoutes.Text.CodePoint
import NamedRoutes.Value

/-!
The grammar of the command line: one of three commands, each with positional arguments, and the
option that asks for help. After two hyphens on their own everything is positional.
-/

namespace NamedRoutes.CommandLine

inductive Topic where
  | program | routes | matching | path
  deriving DecidableEq, Repr

/-- What the program is asked to do. Positional arguments are texts, or an empty list where a second
pair of hyphens stood in their place. -/
inductive Command where
  | help (topic : Topic)
  | routes (app : Value)
  | matching (app method path : Value)
  | path (app name : Value) (values : List String)

inductive Kind where
  | positional
  | help
  /-- The help option with something attached that it does not take. -/
  | badHelp
  | unknownOption
  deriving DecidableEq, Repr

/-- The kind of a word that starts with the short help option, by the characters after it. Repeating
the option is allowed, also behind an equals sign, and nothing else is. -/
def kindAfterShortHelp : List Char → Kind
  | '=' :: rest => if !rest.isEmpty && rest.all (· == 'h') then .help else .badHelp
  | rest => if rest.all (· == 'h') then .help else .badHelp

/-- Whether a text is a number after its minus sign: digits, perhaps with a point before the last
ones, and perhaps a line feed at the end. -/
def isUnsignedNumber (text : List Char) : Bool :=
  let text := if text.getLast? == some '\n' then text.dropLast else text
  let isDigit (c : Char) : Bool := Text.isDigit c.toNat
  match text.dropWhile isDigit with
  | [] => !text.isEmpty
  | '.' :: fraction => !fraction.isEmpty && fraction.all isDigit
  | _ => false

def longHelp : List Char := "--help".toList

/-- The kind of a word. The long help option may be cut short. -/
def kindOf (word : String) : Kind :=
  let text := word.toList
  let name := text.takeWhile (· != '=')
  let attached := text.contains '='
  match text with
  | '-' :: c :: rest =>
      if c == '-' then
        if name.isPrefixOf longHelp then (if attached then .badHelp else .help)
        else if text.contains ' ' then .positional
        else .unknownOption
      else if c == 'h' then kindAfterShortHelp rest
      else if isUnsignedNumber (c :: rest) || text.contains ' ' then .positional
      else .unknownOption
  | _ => .positional

inductive Token where
  /-- The first two hyphens on their own. -/
  | separator
  | word (text : String)
  deriving DecidableEq, Repr

def tokens : List String → List Token
  | [] => []
  | "--" :: rest => .separator :: rest.map .word
  | text :: rest => .word text :: tokens rest

/-- Takes one positional argument. The separator next to it goes with it; where it has gone already,
two hyphens in place of an argument leave nothing. -/
def takeOne : List Token → Option (Value × List Token)
  | .separator :: .word text :: rest => some (.text text, rest)
  | .word text :: .separator :: rest => some (.text text, rest)
  | .word text :: rest => some (if text == "--" then .list [] else .text text, rest)
  | _ => none

def takeAll (rest : List Token) : List String :=
  (rest.map fun | .separator => "--" | .word text => text).erase "--"

/-- The command with a name, given the words after it, or `none` for a usage error. -/
def readPositionals (topic : Topic) (rest : List Token) : Option Command := do
  let (app, rest) ← takeOne rest
  match topic with
  | .program => none
  | .routes => if rest.isEmpty then some (.routes app) else none
  | .matching =>
      let (method, rest) ← takeOne rest
      let (path, rest) ← takeOne rest
      if rest.isEmpty then some (.matching app method path) else none
  | .path =>
      let (name, rest) ← takeOne rest
      some (.path app name (takeAll rest))

/-- The words up to two hyphens on their own. -/
def beforeSeparator (words : List String) : List String := words.takeWhile (· != "--")

/-- Reads the words after the name of a command. A request for help counts before anything else. -/
def readCommand (topic : Topic) (words : List String) : Option Command :=
  let kinds := (beforeSeparator words).map kindOf
  match kinds.find? fun kind => kind == .help || kind == .badHelp with
  | some .help => some (.help topic)
  | some _ => none
  | none =>
      if kinds.contains .unknownOption then none else readPositionals topic (tokens words)

def topicOf? : String → Option Topic
  | "routes" => some .routes
  | "match" => some .matching
  | "path" => some .path
  | _ => none

def Command.isHelp : Command → Bool
  | help _ => true
  | _ => false

/-- Reads a command line, given whether an unknown option was seen before. Such an option is a usage
error, unless help is asked for. -/
def readFrom (unknownSeen : Bool) : List String → Option Command
  | [] => if unknownSeen then none else some (.help .program)
  | word :: rest =>
      if word == "--" then none
      else match kindOf word with
        | .help => some (.help .program)
        | .badHelp => none
        | .unknownOption => readFrom true rest
        | .positional => do
            let command ← readCommand (← topicOf? word) rest
            if unknownSeen && !command.isHelp then none else some command

/-- Reads a command line, or gives `none` for a usage error. Without a command help is given. -/
def read (words : List String) : Option Command := readFrom false words

end NamedRoutes.CommandLine
