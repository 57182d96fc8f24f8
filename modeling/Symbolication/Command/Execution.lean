import Symbolication.Command.Options
import Symbolication.Report

namespace Symbolication.Command

inductive Fault where
  | incomparable
  | refused (reason : Text)
  | unsearchable (e : SystemError)
  deriving DecidableEq, Repr

def Fault.message : Fault → Text
  | .incomparable => spell "'<' not supported between instances of 'list' and 'int'"
  | .refused reason => reason
  | .unsearchable e => e.text

inductive Ending where
  | exit (status : Nat)
  | fault (f : Fault)
  deriving DecidableEq, Repr

structure Result where
  ending : Ending
  output : List UInt8 := []
  deriving DecidableEq, Repr

def tableRow (directory : Path) (suffix : Text) (t : Tally) : Text :=
  Text.join (spell "\t") [t.module, Text.decimal t.occurrences, Text.decimal t.distinct,
    (Artifact.path directory t.module suffix).toText] ++ spell "\n"

def summarize (directory : Path) (suffix : Option Text) (report : Text) : Traced Text := do
  let groups := Groups.ofText report
  Traced.log .info (spell "Modules with offset markers: " ++ Text.decimal groups.length)
  if groups = [] then return []
  let suffix ← Artifact.chooseSuffix suffix report
  return groups.tallies.flatMap (tableRow directory suffix)

def resolve (host : Host) (o : Options) (directory : Path) (workers : Int) (report : Text) :
    Attempt Text := do
  let command ← findSymbolizer host o.symbolizers
  Report.symbolicate host command directory o.suffix workers report

def Options.path (o : Options) (host : Host) : Path :=
  Path.ofText (o.directory.getD host.installation.directory)

def conclude : Except Halt Text → Traced Result
  | .ok text => return ⟨.exit 0, Utf8.encode text⟩
  | .error (.failure failure) => do
      Traced.log .error failure.describe
      return ⟨.exit 1, []⟩
  | .error (.refused reason) => return ⟨.fault (.refused reason), []⟩

def perform (host : Host) (o : Options) (input : List UInt8) : Traced Result := do
  match o.workers with
  | none => return ⟨.fault .incomparable, []⟩
  | some workers =>
      if workers < 1 then
        Traced.log .error (spell "--workers must be at least 1, got " ++ Text.integer workers)
        return ⟨.exit 1, []⟩
      match host.isDirectory (o.path host) with
      | .error e => return ⟨.fault (.unsearchable e), []⟩
      | .ok present =>
          if ¬present then
            Traced.log .warning
              (spell "Debug directory does not exist: " ++ (o.path host).toText)
          if o.summary then
            return ⟨.exit 0,
              Utf8.encode (← summarize (o.path host) o.suffix (Utf8.decode input))⟩
          conclude (← (resolve host o (o.path host) workers (Utf8.decode input)).run)

def severity : Level → Nat
  | .debug => 0
  | .info => 1
  | .warning => 2
  | .error => 3

def Options.threshold (o : Options) : Level :=
  if o.verbose then .debug else if o.quiet then .warning else .info

def Options.shows (o : Options) (r : Record) : Bool := severity o.threshold ≤ severity r.level

def levelName : Level → Text
  | .debug => spell "DEBUG"
  | .info => spell "INFO"
  | .warning => spell "WARNING"
  | .error => spell "ERROR"

def line (r : Record) : Text := spell "[" ++ levelName r.level ++ spell "] " ++ r.message ++ spell "\n"

structure Session where
  ending : Ending
  output : List UInt8
  diagnostics : Text
  events : List Event

def Session.calls (s : Session) : List (List Text) := s.events.filterMap Event.call?

def run (host : Host) (arguments : List Text) (input : List UInt8) : Session :=
  match Options.ofArguments arguments with
  | .error .help => ⟨.exit 0, Utf8.encode (help host.installation.shown), [], []⟩
  | .error (.misuse e) => ⟨.exit 2, [], showStrays e.report, []⟩
  | .ok o =>
      let done := perform host o input
      ⟨done.value.ending, done.value.output,
        (done.records.filter o.shows).flatMap (fun r => showStrays (line r)), done.events⟩

end Symbolication.Command
