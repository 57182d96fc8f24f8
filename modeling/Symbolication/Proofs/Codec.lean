import Mathlib.Data.List.Forall2
import Symbolication.Proofs.Ascii

namespace Symbolication.Utf8

theorem decode_encode (cs : List Char) : decode (encode (cs.map Glyph.char)) = cs.map Glyph.char := by
  rw [decode, segments_encode, List.flatMap_map, List.map_eq_flatMap]
  rfl

theorem encode_map_char (cs : List Char) :
    encode (cs.map Glyph.char) = cs.flatMap String.utf8EncodeChar := by
  rw [encode, List.flatMap_map]
  rfl

theorem isValidUTF8_iff {bs : List UInt8} :
    bs.toByteArray.IsValidUTF8 ↔ ∃ cs : List Char, bs = encode (cs.map Glyph.char) := by
  constructor
  · rintro ⟨cs, hcs⟩
    exact ⟨cs, (List.toByteArray_inj.mp hcs).trans (encode_map_char cs).symm⟩
  · rintro ⟨cs, rfl⟩
    exact ⟨cs, congrArg List.toByteArray (encode_map_char cs)⟩

theorem exists_char_of_mem_decodeLossy {bs : List UInt8} {g : Glyph} (h : g ∈ decodeLossy bs) :
    ∃ c, g = .char c := by
  obtain ⟨s, -, hg⟩ := List.mem_flatMap.mp h
  cases s with
  | whole c => exact ⟨c, List.mem_singleton.mp hg⟩
  | broken _ => exact ⟨_, List.mem_singleton.mp hg⟩

theorem exists_map_char {t : Text} (h : ∀ g ∈ t, ∃ c, g = .char c) :
    ∃ cs : List Char, t = cs.map Glyph.char := by
  induction t with
  | nil => exact ⟨[], rfl⟩
  | cons g t ih =>
      obtain ⟨⟨c, rfl⟩, ht⟩ := List.forall_mem_cons.mp h
      obtain ⟨cs, rfl⟩ := ih ht
      exact ⟨c :: cs, rfl⟩

theorem decode_eq_decodeLossy_iff {bs : List UInt8} :
    decode bs = decodeLossy bs ↔ bs.toByteArray.IsValidUTF8 := by
  rw [isValidUTF8_iff]
  constructor
  · intro h
    have hchars : ∀ g ∈ decodeLossy bs, ∃ c, g = .char c := fun _ => exists_char_of_mem_decodeLossy
    obtain ⟨cs, hcs⟩ := exists_map_char hchars
    exact ⟨cs, by rw [← hcs, ← h, encode_decode]⟩
  · rintro ⟨cs, rfl⟩
    rw [decode_encode, decodeLossy_encode]

inductive StandsFor : Glyph → List UInt8 → Prop where
  | scalar (c : Char) : StandsFor (.char c) (String.utf8EncodeChar c)
  | escape {g : Glyph} {b : UInt8} (high : 0x80 ≤ b.toNat) (code : g.code = 0xDC00 + b.toNat) :
      StandsFor g [b]

theorem standsFor_encodeGlyph (g : Glyph) : StandsFor g (encodeGlyph g) := by
  cases g with
  | char c => exact .scalar c
  | stray low =>
      have hlow := low.isLt
      have hbyte : (UInt8.ofNat (128 + low.val)).toNat = 128 + low.val := toNat_byte (by omega)
      refine .escape ?_ ?_
      · omega
      · rw [hbyte, Glyph.code]
        omega

theorem isValidChar_or_escape (g : Glyph) :
    g.code.isValidChar ∨ 0xDC80 ≤ g.code ∧ g.code ≤ 0xDCFF := by
  cases g with
  | char c => exact .inl c.valid
  | stray low =>
      have hlow := low.isLt
      exact .inr (by rw [Glyph.code]; omega)

structure Faithful (bs : List UInt8) : Prop where
  written : encode (decode bs) = bs
  written_codes : encodeCodes? ((decode bs).map Glyph.code) = some bs
  scalar_or_escape : ∀ g ∈ decode bs, g.code.isValidChar ∨ 0xDC80 ≤ g.code ∧ g.code ≤ 0xDCFF
  standsFor : ∃ pieces, pieces.flatten = bs ∧ List.Forall₂ StandsFor (decode bs) pieces
  scalar : ∀ g ∈ decodeLossy bs, g.code.isValidChar
  of_valid : ∀ cs : List Char, bs = cs.flatMap String.utf8EncodeChar →
    decode bs = cs.map Glyph.char ∧ decodeLossy bs = cs.map Glyph.char
  agree_iff : decode bs = decodeLossy bs ↔ bs.toByteArray.IsValidUTF8
  decode_append : ∀ b : UInt8, b.toNat < 0x80 → ∀ vs,
    decode (bs ++ [b] ++ vs) = decode bs ++ [.char (Char.ofNat b.toNat)] ++ decode vs
  decodeLossy_append : ∀ b : UInt8, b.toNat < 0x80 → ∀ vs,
    decodeLossy (bs ++ [b] ++ vs) = decodeLossy bs ++ [.char (Char.ofNat b.toNat)] ++ decodeLossy vs

theorem decode_faithful (bs : List UInt8) : Faithful bs := by
  constructor
  case written => exact encode_decode bs
  case written_codes => rw [encodeCodes?_code, encode_decode]
  case scalar_or_escape => exact fun g _ => isValidChar_or_escape g
  case standsFor =>
    refine ⟨(decode bs).map encodeGlyph, ?_, ?_⟩
    · rw [← List.flatMap_def]
      exact encode_decode bs
    · rw [List.forall₂_map_right_iff, List.forall₂_same]
      exact fun g _ => standsFor_encodeGlyph g
  case scalar =>
    intro g hg
    obtain ⟨c, rfl⟩ := exists_char_of_mem_decodeLossy hg
    exact c.valid
  case of_valid =>
    rintro cs rfl
    rw [← encode_map_char]
    exact ⟨decode_encode cs, decodeLossy_encode cs⟩
  case agree_iff => exact decode_eq_decodeLossy_iff
  case decode_append =>
    intro b hb vs
    rw [List.append_assoc, List.append_assoc]
    exact decode_append_ascii hb bs vs
  case decodeLossy_append =>
    intro b hb vs
    rw [List.append_assoc, List.append_assoc]
    exact decodeLossy_append_ascii hb bs vs

end Symbolication.Utf8
