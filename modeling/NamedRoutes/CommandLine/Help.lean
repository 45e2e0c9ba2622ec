import NamedRoutes.CommandLine.Command

/-!
The help texts, laid out for a terminal of eighty columns.
-/

namespace NamedRoutes.CommandLine

def lines (texts : List String) : String := .join (texts.map (· ++ "\n"))

def helpText : Topic → String
  | .program => lines
      [ "usage: spur [-h] \x7broutes,match,path\x7d ...",
        "",
        "Spur — named URL routes with regex matching and reverse routing.",
        "",
        "positional arguments:",
        "  \x7broutes,match,path\x7d",
        "    routes             List registered routes",
        "    match              Show the route matching a request",
        "    path               Build the path of a named route",
        "",
        "options:",
        "  -h, --help           show this help message and exit" ]
  | .routes => lines
      [ "usage: spur routes [-h] app",
        "",
        "positional arguments:",
        "  app         Import string (e.g. myapp:router)",
        "",
        "options:",
        "  -h, --help  show this help message and exit" ]
  | .matching => lines
      [ "usage: spur match [-h] app method path",
        "",
        "positional arguments:",
        "  app         Import string (e.g. myapp:router)",
        "  method      HTTP method (e.g. GET)",
        "  path        Request path (e.g. /posts/25)",
        "",
        "options:",
        "  -h, --help  show this help message and exit" ]
  | .path => lines
      [ "usage: spur path [-h] app name [args ...]",
        "",
        "positional arguments:",
        "  app         Import string (e.g. myapp:router)",
        "  name        Route name",
        "  args        Parameter values, in order",
        "",
        "options:",
        "  -h, --help  show this help message and exit" ]

end NamedRoutes.CommandLine
