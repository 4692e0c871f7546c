/-!
# Help texts
-/

namespace ExprCheck.CommandLine

/-- The name of the command and its version. -/
def versionText : String := "fcheck 0.1.0\n"

/-- The short help. -/
def summary : String :=
  String.join ([
    "Semantic checker for the F expression language",
    "",
    "Usage: fcheck [OPTIONS] <INPUT>",
    "",
    "Arguments:",
    "  <INPUT>  Input source file (.f)",
    "",
    "Options:",
    "  -v, --verbose        Verbose output",
    "      --dump-tokens    Dump tokens (for debugging)",
    "      --dump-ast       Dump AST (for debugging)",
    "      --dump-symbols   Dump the symbol table after validation",
    "      --color <COLOR>  Diagnostic coloring [default: auto] "
      ++ "[possible values: auto, always, never]",
    "  -h, --help           Print help (see more with '--help')",
    "  -V, --version        Print version"].map (· ++ "\n"))

/-- The long help. -/
def manual : String :=
  String.join ([
    "Semantic checker for the F expression language",
    "",
    "Usage: fcheck [OPTIONS] <INPUT>",
    "",
    "Arguments:",
    "  <INPUT>",
    "          Input source file (.f)",
    "",
    "Options:",
    "  -v, --verbose",
    "          Verbose output",
    "",
    "      --dump-tokens",
    "          Dump tokens (for debugging)",
    "",
    "      --dump-ast",
    "          Dump AST (for debugging)",
    "",
    "      --dump-symbols",
    "          Dump the symbol table after validation",
    "",
    "      --color <COLOR>",
    "          Diagnostic coloring",
    "",
    "          Possible values:",
    "          - auto:   Colorize when writing to a terminal",
    "          - always: Always colorize",
    "          - never:  Never colorize",
    "          ",
    "          [default: auto]",
    "",
    "  -h, --help",
    "          Print help (see a summary with '-h')",
    "",
    "  -V, --version",
    "          Print version"].map (· ++ "\n"))

end ExprCheck.CommandLine
