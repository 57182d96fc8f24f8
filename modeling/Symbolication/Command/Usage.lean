import Symbolication.Table
import Symbolication.Text.Quoted

namespace Symbolication.Command

inductive Switch where
  | help
  | symbolizer
  | suffix
  | workers
  | summary
  | verbose
  | quiet
  deriving DecidableEq, Repr

namespace Switch

def all : List Switch := [help, symbolizer, suffix, workers, summary, verbose, quiet]

def names : Switch → List Text
  | help => [spell "-h", spell "--help"]
  | symbolizer => [spell "--symbolizer"]
  | suffix => [spell "--suffix"]
  | workers => [spell "--workers"]
  | summary => [spell "--summary"]
  | verbose => [spell "--verbose", spell "-v"]
  | quiet => [spell "--quiet", spell "-q"]

def takesValue : Switch → Bool
  | symbolizer | suffix | workers => true
  | _ => false

def title (s : Switch) : Text := Text.join (spell "/") s.names

def table : Table Text Switch := all.flatMap fun s => s.names.map (·, s)

def named? (name : Text) : Option Switch := table.get? name

end Switch

def isLong (t : Text) : Bool := (spell "--").isPrefixOf t

def ofLines (lines : List String) : Text := lines.flatMap fun l => spell l ++ spell "\n"

def usage : Text := ofLines [
  "usage: resymbolize [-h] [--symbolizer CMD] [--suffix SUFFIX]",
  "                   [--workers WORKERS] [--summary] [--verbose] [--quiet]",
  "                   [DEBUG_DIR]"]

def help (shown : List Text) : Text := usage ++ ofLines [
  "",
  "Replace [+0xOFFSET](module) markers read from stdin with symbol names resolved",
  "by llvm-symbolizer.",
  "",
  "positional arguments:",
  "  DEBUG_DIR          Directory holding the debug artifacts. The default",
  "                     assumes the package is run from a source checkout next to"] ++
  (shown.flatMap fun l => spell "                     " ++ l ++ spell "\n") ++ ofLines [
  "",
  "options:",
  "  -h, --help         show this help message and exit",
  "  --symbolizer CMD   Symbolizer command to try before the built-in llvm-",
  "                     symbolizer candidates. May be given more than once.",
  "  --suffix SUFFIX    Debug artifact suffix (e.g. .debug, .pdb, .dSYM). If not",
  "                     set, it is guessed from the input text.",
  "  --workers WORKERS  Number of modules to symbolize in parallel (default: 1).",
  "  --summary          Print the modules and offsets found in the input (no",
  "                     symbolization).",
  "  --verbose, -v      Enable debug logging.",
  "  --quiet, -q        Only log warnings and errors."]

inductive UsageError where
  | ambiguous (given : Text) (names : List Text)
  | missingValue (s : Switch)
  | ignoredValue (s : Switch) (value : Text)
  | invalidInteger (s : Switch) (value : Text)
  | unrecognized (words : List Text)
  deriving DecidableEq, Repr

namespace UsageError

def about (s : Switch) (t : Text) : Text := spell "argument " ++ s.title ++ spell ": " ++ t

def message : UsageError → Text
  | ambiguous given names =>
      spell "ambiguous option: " ++ given ++ spell " could match " ++ Text.join (spell ", ") names
  | missingValue s => about s (spell "expected one argument")
  | ignoredValue s value => about s (spell "ignored explicit argument " ++ quoted value)
  | invalidInteger s value => about s (spell "invalid int value: " ++ quoted value)
  | unrecognized words => spell "unrecognized arguments: " ++ Text.join (spell " ") words

def report (e : UsageError) : Text :=
  usage ++ spell "resymbolize: error: " ++ e.message ++ spell "\n"

end UsageError

end Symbolication.Command
