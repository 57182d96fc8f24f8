import Symbolication.Block
import Symbolication.Host
import Symbolication.Marker.Scan
import Symbolication.Table

namespace Symbolication

namespace Pool

variable {α : Type}

def oneByOne : List (Attempt α) → Attempt (List α)
  | [] => return []
  | task :: tasks => do
      let a ← task
      let rest ← oneByOne tasks
      return a :: rest

def finished (tasks : List (Attempt α)) (order : List (Fin tasks.length)) :
    Traced (Table (Fin tasks.length) (Except Halt α)) :=
  order.mapM fun i => do return (i, ← tasks[i].run)

def collect {n : Nat} (done : Table (Fin n) (Except Halt α)) : Except Halt (List α) :=
  ((List.finRange n).filterMap done.get?).mapM id

def sideBySide (tasks : List (Attempt α)) (order : List (Fin tasks.length)) : Attempt (List α) :=
  ExceptT.mk do return collect (← finished tasks order)

end Pool

structure Job where
  module : Text
  offsets : List Text
  artifact : Path
  deriving DecidableEq, Repr

abbrev Replacements := Table Text Text

namespace Job

def flags : List Text := [spell "-C", spell "-f", spell "-a", spell "-p", spell "-e"]

def arguments (artifact : Path) (offsets : List Text) : List Text :=
  flags ++ artifact.toText :: offsets

def announcement (job : Job) : Text :=
  spell "Symbolizing module " ++ job.module ++ spell ": artifact=" ++ job.artifact.toText ++
    spell ", " ++ Text.decimal job.offsets.length ++ spell " offsets"

def blame (job : Job) : Halt → Halt
  | .failure (.invoke _ invocation) => .failure (.invoke (some job.module) invocation)
  | h => h

def blocks (host : Host) (command : Text) (job : Job) : Attempt (List Text) := do
  Traced.log .info job.announcement
  let output ← (host.run command (arguments job.artifact job.offsets)).adapt job.blame
  let blocks := Block.split output
  if blocks.length ≠ job.offsets.length then
    throw (.failure (.malformed job.module job.offsets.length blocks.length))
  return blocks

def replacement (module block : Text) : Text := module ++ spell "+" ++ block

def replacements (job : Job) (blocks : List Text) : Replacements :=
  Table.ofFirst <| (job.offsets.zip blocks).map fun (offset, block) =>
    (Marker.spelling ⟨offset, job.module⟩, replacement job.module block)

def resolve (host : Host) (command : Text) (job : Job) : Attempt Replacements := do
  return job.replacements (← job.blocks host command)

def ofGroup (directory : Path) (suffix : Text) (group : Text × List Text) : Job :=
  ⟨group.1, group.2, Artifact.path directory group.1 suffix⟩

end Job

def resolveAll (host : Host) (command : Text) (workers : Int) (jobs : List Job) :
    Attempt Replacements := do
  let tasks := jobs.map (Job.resolve host command)
  let tables ←
    if workers ≤ 1 ∨ tasks.length ≤ 1 then Pool.oneByOne tasks
    else Pool.sideBySide tasks (host.finish tasks.length)
  return tables.foldl Table.merge []

abbrev Groups := Table Text (List Text)

namespace Groups

def add (groups : Groups) (m : Marker Glyph) : Groups :=
  groups.update m.module fun offsets => offsets.getD [] ++ [m.offset]

def ofMarkers (ms : List (Marker Glyph)) : Groups := ms.foldl add []

def ofText (t : Text) : Groups := ofMarkers (markers t)

theorem ofMarkers_append (ms ns : List (Marker Glyph)) :
    ofMarkers (ms ++ ns) = ns.foldl add (ofMarkers ms) :=
  List.foldl_append

end Groups

structure Tally where
  module : Text
  occurrences : Nat
  distinct : Nat
  deriving DecidableEq, Repr

def Tally.ofGroup (group : Text × List Text) : Tally :=
  ⟨group.1, group.2.length, group.2.eraseDups.length⟩

def Groups.tallies (groups : Groups) : List Tally := groups.map Tally.ofGroup

namespace Report

def substitute (replacements : Replacements) (report : Text) : Text :=
  splice (fun m => (replacements.get? m.spelling).getD m.spelling) report

def jobs (directory : Path) (suffix : Text) (groups : Groups) : List Job :=
  groups.map (Job.ofGroup directory suffix)

def symbolicate (host : Host) (command : Text) (directory : Path) (suffix : Option Text)
    (workers : Int) (report : Text) : Attempt Text := do
  let groups := Groups.ofText report
  Traced.log .info (spell "Found " ++ Text.decimal (markers report).length ++
    spell " markers in " ++ Text.decimal groups.length ++ spell " modules")
  if groups = [] then return report
  let suffix ← Artifact.chooseSuffix suffix report
  let replacements ← resolveAll host command workers (jobs directory suffix groups)
  return substitute replacements report

end Report

end Symbolication
