import Symbolication.Attempt
import Symbolication.Path
import Symbolication.Text.Utf8

namespace Symbolication

-- `refused` is for arguments that no process can be given, such as one with a NUL in it.
inductive Outcome where
  | unavailable (e : SystemError)
  | refused (reason : Text)
  | exited (code : Int) (stdout stderr : List UInt8)
  deriving DecidableEq, Repr

-- The help text names the directory too: `shown` are the lines it does so in.
structure Installation where
  directory : Text
  shown : List Text

-- A process is settled by its arguments alone and not by its place among the calls, which workers
-- leave open. No command is probed twice, and two calls of a report are alike only for modules that
-- differ in what a path drops, such as `m` and `./m`.
structure Host where
  spawn : List Text → Outcome
  isDirectory : Path → Except SystemError Bool
  installation : Installation
  probeArguments : List Text := [spell "--version"]
  finish (n : Nat) : List (Fin n) := List.finRange n
  finish_perm (n : Nat) : (finish n).Perm (List.finRange n) := by exact fun _ => .refl _

namespace Host

def spaced (argv : List Text) : Text := Text.join (spell " ") argv

def probe (host : Host) (command : Text) : Attempt Bool := do
  let argv := command :: host.probeArguments
  Traced.log .debug (spell "Probing: " ++ spaced argv)
  Traced.event (.call argv)
  match host.spawn argv with
  | .unavailable e =>
      Traced.log .debug (spell "Candidate " ++ command ++ spell " not runnable: " ++ e.text)
      return false
  | .refused reason => throw (.refused reason)
  | .exited code _ _ =>
      if code = 0 then return true
      Traced.log .debug (spell "Candidate " ++ command ++ spell " exited with code " ++
        Text.integer code)
      return false

def complaint (stderr : List UInt8) : Text := trim isBlank (Utf8.decodeLossy stderr)

def run (host : Host) (command : Text) (arguments : List Text) : Attempt Text := do
  let argv := command :: arguments
  Traced.log .debug (spell "Running: " ++ spaced argv)
  Traced.event (.call argv)
  match host.spawn argv with
  | .unavailable e =>
      throw (.failure (.invoke none
        { message := spell "cannot run " ++ command ++ spell ": " ++ e.text }))
  | .refused reason => throw (.refused reason)
  | .exited code stdout stderr =>
      if code ≠ 0 then
        throw (.failure (.invoke none
          { message := command ++ spell " exited with code " ++ Text.integer code ++ spell ": " ++
              complaint stderr
            status := some code
            stderr := complaint stderr }))
      if complaint stderr ≠ [] then
        Traced.log .warning (command ++ spell ": " ++ complaint stderr)
      return Utf8.decodeLossy stdout

end Host

def usualSymbolizers : List Text :=
  [spell "llvm-symbolizer-14", spell "llvm-symbolizer-15", spell "llvm-symbolizer-16"]

def candidates (extra : List Text) : List Text :=
  ((extra ++ usualSymbolizers).filter (· ≠ [])).eraseDups

def locate (host : Host) : List Text → Attempt (Option Text)
  | [] => return none
  | c :: cs => do
      if ← host.probe c then
        Traced.log .info (spell "Using symbolizer: " ++ c)
        return some c
      Traced.log .debug (spell "Symbolizer candidate not usable: " ++ c)
      locate host cs

def findSymbolizer (host : Host) (extra : List Text) : Attempt Text := do
  match ← locate host (candidates extra) with
  | some command => return command
  | none => throw (.failure (.locate (candidates extra)))

end Symbolication
