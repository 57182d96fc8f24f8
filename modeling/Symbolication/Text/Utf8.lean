import Symbolication.Text

namespace Symbolication.Utf8

def width (lead : UInt8) : Nat :=
  if lead.toNat < 0x80 then 1
  else if lead.toNat < 0xC2 then 0
  else if lead.toNat < 0xE0 then 2
  else if lead.toNat < 0xF0 then 3
  else if lead.toNat < 0xF5 then 4
  else 0

def isTail (b : UInt8) : Bool := 0x80 ≤ b.toNat ∧ b.toNat ≤ 0xBF

def leastSecond (lead : UInt8) : Nat :=
  if lead.toNat = 0xE0 then 0xA0 else if lead.toNat = 0xF0 then 0x90 else 0x80

def greatestSecond (lead : UInt8) : Nat :=
  if lead.toNat = 0xED then 0x9F else if lead.toNat = 0xF4 then 0x8F else 0xBF

def isSecond (lead b : UInt8) : Bool :=
  leastSecond lead ≤ b.toNat ∧ b.toNat ≤ greatestSecond lead

inductive Reading where
  | whole (c : Char)
  | begun
  | broken
  deriving DecidableEq, Repr

def reading : List UInt8 → Reading
  | [a] =>
      match width a with
      | 0 => .broken
      | 1 => .whole (Char.ofNat a.toNat)
      | _ => .begun
  | [a, b] =>
      if isSecond a b then
        match width a with
        | 2 => .whole (Char.ofNat (a.toNat % 32 * 64 + b.toNat % 64))
        | 3 | 4 => .begun
        | _ => .broken
      else .broken
  | [a, b, c] =>
      if isSecond a b && isTail c then
        match width a with
        | 3 => .whole (Char.ofNat (a.toNat % 16 * 4096 + b.toNat % 64 * 64 + c.toNat % 64))
        | 4 => .begun
        | _ => .broken
      else .broken
  | [a, b, c, d] =>
      if width a = 4 && isSecond a b && isTail c && isTail d then
        .whole (Char.ofNat
          (a.toNat % 8 * 262144 + b.toNat % 64 * 4096 + c.toNat % 64 * 64 + d.toNat % 64))
      else .broken
  | _ => .broken

inductive Segment where
  | whole (c : Char)
  | broken (bytes : List UInt8)
  deriving DecidableEq, Repr

def start (b : UInt8) : List Segment × List UInt8 :=
  match reading [b] with
  | .whole c => ([.whole c], [])
  | .begun => ([], [b])
  | .broken => ([.broken [b]], [])

def step (pending : List UInt8) (b : UInt8) : List Segment × List UInt8 :=
  if pending = [] then start b
  else
    match reading (pending ++ [b]) with
    | .whole c => ([.whole c], [])
    | .begun => ([], pending ++ [b])
    | .broken => (.broken pending :: (start b).1, (start b).2)

def flush (pending : List UInt8) : List Segment :=
  if pending = [] then [] else [.broken pending]

def collect (done : List Segment) (pending : List UInt8) : List UInt8 → List Segment
  | [] => done.reverse ++ flush pending
  | b :: bs =>
      match step pending b with
      | (ended, waiting) => collect (ended.reverse ++ done) waiting bs

def resume (pending bytes : List UInt8) : List Segment := collect [] pending bytes

theorem collect_eq (done : List Segment) (pending bytes : List UInt8) :
    collect done pending bytes = done.reverse ++ resume pending bytes := by
  unfold resume
  induction bytes generalizing done pending with
  | nil => rfl
  | cons b bs ih =>
      simp only [collect]
      rw [ih, ih ((step pending b).1.reverse ++ [])]
      simp

theorem resume_nil (pending : List UInt8) : resume pending [] = flush pending := rfl

theorem resume_cons (pending : List UInt8) (b : UInt8) (bs : List UInt8) :
    resume pending (b :: bs) = (step pending b).1 ++ resume (step pending b).2 bs := by
  change collect ((step pending b).1.reverse ++ []) (step pending b).2 bs = _
  rw [collect_eq]
  simp

def segments (bytes : List UInt8) : List Segment := resume [] bytes

def stray (b : UInt8) : Glyph := .stray ⟨b.toNat % 128, Nat.mod_lt _ (by decide)⟩

def Segment.escaped : Segment → Text
  | .whole c => [.char c]
  | .broken bytes => bytes.map stray

def Segment.replaced : Segment → Text
  | .whole c => [.char c]
  | .broken _ => [.char '\uFFFD']

def decode (bytes : List UInt8) : Text := (segments bytes).flatMap Segment.escaped

def decodeLossy (bytes : List UInt8) : Text := (segments bytes).flatMap Segment.replaced

def encodeGlyph : Glyph → List UInt8
  | .char c => String.utf8EncodeChar c
  | .stray low => [UInt8.ofNat (128 + low.val)]

def encode (t : Text) : List UInt8 := t.flatMap encodeGlyph

theorem encode_append (s t : Text) : encode (s ++ t) = encode s ++ encode t :=
  List.flatMap_append

end Symbolication.Utf8
