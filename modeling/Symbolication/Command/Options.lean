import Symbolication.Command.Usage
import Symbolication.Marker

namespace Symbolication.Command

inductive Word where
  | plain (t : Text)
  | separator
  | switch (s : Switch) (name : Text) (value : Option Text)
  | unknown (t : Text)
  deriving DecidableEq, Repr

namespace Word

def dash : Glyph := .char '-'

def cutValue (t : Text) : Text × Option Text :=
  match cutWhile (· ≠ .char '=') t with
  | (name, []) => (name, none)
  | (name, _ :: value) => (name, some value)

def isDigits (t : Text) : Bool := t ≠ [] && t.all fun g => (digit? g).isSome

def isNegativeNumber : Text → Bool
  | .char '-' :: t =>
      let number := if t.getLast? = some (.char '\n') then t.dropLast else t
      match cutWhile (· ≠ .char '.') number with
      | (whole, []) => isDigits whole
      | (whole, _ :: fraction) => (whole = [] || isDigits whole) && isDigits fraction
  | _ => false

def abbreviated (t : Text) : List (Text × Switch) × Option Text :=
  if isLong t then
    (Switch.table.filter fun e => (cutValue t).1.isPrefixOf e.1, (cutValue t).2)
  else (Switch.table.filter fun e => e.1 = t.take 2, some (t.drop 2))

def readAbbreviated (t : Text) : Except UsageError Word :=
  match abbreviated t with
  | ([], _) =>
      if isNegativeNumber t || t.contains (.char ' ') then .ok (.plain t) else .ok (.unknown t)
  | ([(name, s)], value) => .ok (.switch s name value)
  | (names, _) => .error (.ambiguous t (names.map Prod.fst))

def readDashed (t : Text) : Except UsageError Word :=
  match Switch.named? t, cutValue t with
  | some s, _ => .ok (.switch s t none)
  | none, (name, some value) =>
      match Switch.named? name with
      | some s => .ok (.switch s name (some value))
      | none => readAbbreviated t
  | none, _ => readAbbreviated t

def read (t : Text) : Except UsageError Word :=
  if t.head? = some dash ∧ t ≠ [dash] then readDashed t else .ok (.plain t)

def readAll : List Text → Except UsageError (List Word)
  | [] => .ok []
  | t :: ts =>
      if t = spell "--" then .ok (.separator :: ts.map .plain)
      else do return (← read t) :: (← readAll ts)

end Word

structure Options where
  directory : Option Text := none
  symbolizers : List Text := []
  suffix : Option Text := none
  workers : Option Int := some 1
  summary : Bool := false
  verbose : Bool := false
  quiet : Bool := false
  deriving DecidableEq, Repr

inductive Stop where
  | help
  | misuse (e : UsageError)
  deriving DecidableEq, Repr

namespace Options

def setFlag (o : Options) : Switch → Except Stop Options
  | .help => .error .help
  | .summary => .ok { o with summary := true }
  | .verbose => .ok { o with verbose := true }
  | .quiet => .ok { o with quiet := true }
  | s => .error (.misuse (.missingValue s))

def setFlags (o : Options) : List Switch → Except Stop Options
  | [] => .ok o
  | s :: ss => do setFlags (← o.setFlag s) ss

def setValue (o : Options) (s : Switch) (value : Text) : Except Stop Options :=
  let missing := value = spell "--"
  match s with
  | .symbolizer => .ok { o with symbolizers := o.symbolizers ++ [if missing then [] else value] }
  | .suffix => .ok { o with suffix := some (if missing then spell "[]" else value) }
  | .workers =>
      if missing then .ok { o with workers := none }
      else match value.integer? with
        | some n => .ok { o with workers := some n }
        | none => .error (.misuse (.invalidInteger s value))
  | _ => .error (.misuse (.ignoredValue s value))

end Options

def joinedFlags (s : Switch) : Text → Except Stop (List Switch)
  | [] => .error (.misuse (.ignoredValue s []))
  | g :: joined =>
      match Switch.named? [Word.dash, g], joined with
      | none, _ => .error (.misuse (.ignoredValue s (g :: joined)))
      | some next, [] => .ok [s, next]
      | some next, _ :: _ => (joinedFlags next joined).map (s :: ·)

def flags (s : Switch) (name : Text) : Option Text → Except Stop (List Switch)
  | none => .ok [s]
  | some value =>
      if isLong name then .error (.misuse (.ignoredValue s value)) else joinedFlags s value

structure Reading where
  options : Options := {}
  adjacent : Bool := false
  leftovers : List Text := []
  deriving DecidableEq, Repr

namespace Reading

def leave (r : Reading) (t : Text) : Reading :=
  { r with adjacent := false, leftovers := r.leftovers ++ [t] }

def place (r : Reading) (t : Text) : Reading :=
  match r.options.directory with
  | none => { r with options := { r.options with directory := some t }, adjacent := true }
  | some _ => r.leave t

def separate (r : Reading) : Reading :=
  if r.options.directory = none ∨ r.adjacent then r else r.leave (spell "--")

def take (r : Reading) (options : Options) : Reading :=
  { r with options, adjacent := false }

def consume (r : Reading) : List Word → Except Stop Reading
  | [] => .ok r
  | .plain t :: ws => consume (r.place t) ws
  | .separator :: ws => consume r.separate ws
  | .unknown t :: ws => consume (r.leave t) ws
  | .switch s name value :: ws =>
      if s.takesValue then
        match value, ws with
        | some v, ws => do consume (r.take (← r.options.setValue s v)) ws
        | none, .plain v :: ws => do consume (r.take (← r.options.setValue s v)) ws
        | none, _ => .error (.misuse (.missingValue s))
      else do consume (r.take (← r.options.setFlags (← flags s name value))) ws

end Reading

namespace Options

def ofArguments (arguments : List Text) : Except Stop Options := do
  let words ← (Word.readAll arguments).mapError .misuse
  let r ← Reading.consume {} words
  if r.leftovers = [] then return r.options
  throw (.misuse (.unrecognized r.leftovers))

end Options

end Symbolication.Command
