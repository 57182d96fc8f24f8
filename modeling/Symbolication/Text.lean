namespace Symbolication

class Alphabet (σ : Type) where
  letter : Char → σ
  letter_inj : ∀ {a b : Char}, a.toNat < 128 → b.toNat < 128 → letter a = letter b → a = b

def spell {σ : Type} [Alphabet σ] (s : String) : List σ :=
  s.toList.map Alphabet.letter

inductive Glyph where
  | char (c : Char)
  | stray (low : Fin 128)
  deriving DecidableEq, Repr

abbrev Text := List Glyph

instance : Alphabet Glyph where
  letter := .char
  letter_inj := fun _ _ h => Glyph.char.inj h

instance : Alphabet UInt8 where
  letter c := UInt8.ofNat c.toNat
  letter_inj := by
    intro a b ha hb h
    have h := congrArg UInt8.toNat h
    simp only [UInt8.toNat_ofNat'] at h
    exact Char.toNat_inj.mp (by omega)

def Glyph.code : Glyph → Nat
  | .char c => c.toNat
  | .stray low => 0xDC80 + low.val

namespace Text

def ofString (s : String) : Text := s.toList.map .char

def decimal (n : Nat) : Text := (Nat.toDigits 10 n).map .char

def integer : Int → Text
  | .ofNat n => decimal n
  | .negSucc n => .char '-' :: decimal (n + 1)

def join (separator : Text) (texts : List Text) : Text :=
  List.intercalate separator texts

end Text

section Trimming

variable {α : Type}

def trimEnd (p : α → Bool) (l : List α) : List α :=
  (l.reverse.dropWhile p).reverse

theorem trimEnd_nil (p : α → Bool) : trimEnd p [] = [] := rfl

theorem trimEnd_concat (p : α → Bool) (l : List α) (a : α) :
    trimEnd p (l ++ [a]) = if p a then trimEnd p l else l ++ [a] := by
  cases h : p a <;> simp [trimEnd, h]

def trim (p : α → Bool) (l : List α) : List α :=
  trimEnd p (l.dropWhile p)

end Trimming

def within (ranges : List (Nat × Nat)) (n : Nat) : Bool :=
  ranges.any fun r => r.1 ≤ n && n ≤ r.2

def blanks : List (Nat × Nat) := [
  (0x9, 0xD), (0x1C, 0x20), (0x85, 0x85), (0xA0, 0xA0), (0x1680, 0x1680), (0x2000, 0x200A),
  (0x2028, 0x2029), (0x202F, 0x202F), (0x205F, 0x205F), (0x3000, 0x3000)]

def isBlank (g : Glyph) : Bool := within blanks g.code

def zeros : List Nat := [
  0x30, 0x660, 0x6F0, 0x7C0, 0x966, 0x9E6, 0xA66, 0xAE6, 0xB66, 0xBE6, 0xC66, 0xCE6, 0xD66, 0xDE6,
  0xE50, 0xED0, 0xF20, 0x1040, 0x1090, 0x17E0, 0x1810, 0x1946, 0x19D0, 0x1A80, 0x1A90, 0x1B50,
  0x1BB0, 0x1C40, 0x1C50, 0xA620, 0xA8D0, 0xA900, 0xA9D0, 0xA9F0, 0xAA50, 0xABF0, 0xFF10, 0x104A0,
  0x10D30, 0x11066, 0x110F0, 0x11136, 0x111D0, 0x112F0, 0x11450, 0x114D0, 0x11650, 0x116C0,
  0x11730, 0x118E0, 0x11950, 0x11C50, 0x11D50, 0x11DA0, 0x16A60, 0x16AC0, 0x16B50, 0x1D7CE,
  0x1D7D8, 0x1D7E2, 0x1D7EC, 0x1D7F6, 0x1E140, 0x1E2F0, 0x1E950, 0x1FBF0]

def digit? (g : Glyph) : Option Nat :=
  zeros.findSome? fun z => if z ≤ g.code ∧ g.code < z + 10 then some (g.code - z) else none

def numeral? (g : Glyph) : Option Char :=
  if g.code < 127 then some (Char.ofNat g.code)
  else if isBlank g then some ' '
  else (digit? g).map Nat.digitChar

def isAsciiBlank (c : Char) : Bool :=
  c = ' ' || (9 ≤ c.toNat && c.toNat ≤ 13)

def longestNumber : Nat := 4300

def digits? : List Char → Option (List Char)
  | [] => none
  | [c] => if c.isDigit then some [c] else none
  | c :: '_' :: r => if c.isDigit then (digits? r).map (c :: ·) else none
  | c :: r => if c.isDigit then (digits? r).map (c :: ·) else none

def natural? (cs : List Char) : Option Nat :=
  match digits? cs with
  | none => none
  | some ds =>
      if ds.length ≤ longestNumber then some (ds.foldl (fun n d => 10 * n + (d.toNat - 48)) 0)
      else none

def signed? : List Char → Option Int
  | '-' :: cs => (natural? cs).map fun n => -(n : Int)
  | '+' :: cs => (natural? cs).map Int.ofNat
  | cs => (natural? cs).map Int.ofNat

def Text.integer? (t : Text) : Option Int :=
  match t.mapM numeral? with
  | none => none
  | some cs => signed? (trim isAsciiBlank cs)

end Symbolication
