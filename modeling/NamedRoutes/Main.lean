import NamedRoutes.CommandLine.Run

/-!
The program for the command line.
-/

namespace NamedRoutes

def builtInModules : CommandLine.Registry := []

end NamedRoutes

open NamedRoutes in
def main (words : List String) : IO UInt32 := do
  match CommandLine.run builtInModules words with
  | .ok ending =>
      IO.print ending.output
      IO.eprint ending.errors
      return ending.status.toUInt32
  | .error cause =>
      IO.eprintln cause.message
      return 1
