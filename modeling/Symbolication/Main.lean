import Symbolication.Command.Execution

namespace Symbolication

-- A path with a dot behind it resolves exactly if it leads to a directory.
def isDirectory (path : Path) : IO Bool := do
  match String.fromUTF8? (ByteArray.mk (Utf8.encode path.toText).toArray) with
  | none => return false
  | some name =>
      try
        let _ ← IO.FS.realPath (name ++ "/.")
        return true
      catch _ => return false

partial def readInput (input : IO.FS.Stream) (done : ByteArray) : IO ByteArray := do
  let chunk ← input.read 65536
  if chunk.isEmpty then return done
  readInput input (done ++ chunk)

-- It starts no processes, so every symbolizer is reported as missing.
def bareHost (present : Bool) : Host where
  spawn argv := .unavailable ⟨2, spell "No such file or directory", argv.head?⟩
  isDirectory _ := .ok present
  installation := ⟨spell "/host/libreoffice-core/workdir/debug",
    [spell "libreoffice-core (default: /host/libreoffice-", spell "core/workdir/debug)."]⟩

end Symbolication

open Symbolication in
def main (arguments : List String) : IO UInt32 := do
  let words := arguments.map Text.ofString
  let (present, input) ← match Command.Options.ofArguments words with
    | .ok o => do
        let present ← isDirectory (o.path (bareHost false))
        pure (present, ← readInput (← IO.getStdin) .empty)
    | .error _ => pure (false, .empty)
  let session := Command.run (bareHost present) words input.toList
  let output ← IO.getStdout
  output.write (ByteArray.mk session.output.toArray)
  output.flush
  let diagnostics ← IO.getStderr
  diagnostics.write (ByteArray.mk (Utf8.encode session.diagnostics).toArray)
  match session.ending with
  | .exit status => return UInt32.ofNat status
  | .fault f =>
      diagnostics.write (ByteArray.mk (Utf8.encode (f.message ++ spell "\n")).toArray)
      return 1
