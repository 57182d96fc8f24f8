import Symbolication.Attempt

namespace Symbolication

inductive Root where
  | relative
  | single
  | double
  deriving DecidableEq, Repr

structure Path where
  root : Root
  components : List Text
  deriving DecidableEq, Repr

namespace Path

def slash : Glyph := .char '/'

def readRoot : Text → Root
  | .char '/' :: .char '/' :: .char '/' :: _ => .single
  | .char '/' :: .char '/' :: _ => .double
  | .char '/' :: _ => .single
  | _ => .relative

def pieces : Text → List Text
  | [] => [[]]
  | g :: t =>
      if g = slash then [] :: pieces t
      else match pieces t with
        | [] => [[g]]
        | p :: ps => (g :: p) :: ps

def isComponent (piece : Text) : Bool := piece ≠ [] && piece ≠ [.char '.']

def ofText (t : Text) : Path := ⟨readRoot t, (pieces t).filter isComponent⟩

def join (base p : Path) : Path :=
  match p.root with
  | .relative => ⟨base.root, base.components ++ p.components⟩
  | _ => p

def rootText : Root → Text
  | .relative => []
  | .single => [slash]
  | .double => [slash, slash]

def toText (p : Path) : Text :=
  match p.root, p.components with
  | .relative, [] => [.char '.']
  | root, components => rootText root ++ Text.join [slash] components

end Path

def occursIn (pattern : Text) : Text → Bool
  | [] => pattern.isPrefixOf []
  | g :: t => pattern.isPrefixOf (g :: t) || occursIn pattern t

inductive Platform where
  | windows
  | apple
  | other
  deriving DecidableEq, Repr

namespace Platform

def windowsHints : List Text := [spell ".exe", spell ".dll"]

def appleHints : List Text := [spell ".dylib", spell " Framework"]

def ofText (t : Text) : Platform :=
  if windowsHints.any (occursIn · t) then .windows
  else if appleHints.any (occursIn · t) then .apple
  else .other

def suffix : Platform → Text
  | .windows => spell ".pdb"
  | .apple => spell ".dSYM"
  | .other => spell ".debug"

end Platform

namespace Artifact

def path (directory : Path) (module suffix : Text) : Path :=
  directory.join (Path.ofText (module ++ suffix))

def suffix (override : Option Text) (report : Text) : Text :=
  override.getD (Platform.ofText report).suffix

def chooseSuffix (override : Option Text) (report : Text) : Traced Text := do
  match override with
  | some s => Traced.log .debug (spell "Using artifact suffix from command line: " ++ s)
  | none =>
      Traced.log .debug (spell "Selected artifact suffix: " ++ (Platform.ofText report).suffix)
  return suffix override report

end Artifact

end Symbolication
