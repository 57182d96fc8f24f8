import Symbolication.Text.Utf8

namespace Symbolication.Utf8

theorem width_eq_one_iff {a : UInt8} : width a = 1 ↔ a.toNat < 0x80 := by
  grind [width]

theorem width_eq_two_iff {a : UInt8} : width a = 2 ↔ 0xC2 ≤ a.toNat ∧ a.toNat < 0xE0 := by
  grind [width]

theorem width_eq_three_iff {a : UInt8} : width a = 3 ↔ 0xE0 ≤ a.toNat ∧ a.toNat < 0xF0 := by
  grind [width]

theorem width_eq_four_iff {a : UInt8} : width a = 4 ↔ 0xF0 ≤ a.toNat ∧ a.toNat < 0xF5 := by
  grind [width]

theorem isSecond_iff {a b : UInt8} :
    isSecond a b ↔ (0x80 ≤ b.toNat ∧ b.toNat ≤ 0xBF) ∧
      (a.toNat = 0xE0 → 0xA0 ≤ b.toNat) ∧ (a.toNat = 0xED → b.toNat ≤ 0x9F) ∧
      (a.toNat = 0xF0 → 0x90 ≤ b.toNat) ∧ (a.toNat = 0xF4 → b.toNat ≤ 0x8F) := by
  grind [isSecond, leastSecond, greatestSecond]

theorem isTail_iff {b : UInt8} : isTail b ↔ 0x80 ≤ b.toNat ∧ b.toNat ≤ 0xBF := by
  simp [isTail]

theorem resume_one {a : UInt8} (ha : width a = 1) (bs : List UInt8) :
    resume [] (a :: bs) = .whole (Char.ofNat a.toNat) :: resume [] bs := by
  simp [resume_cons, step, start, reading, ha]

theorem resume_two {a b : UInt8} (ha : width a = 2) (hb : isSecond a b) (bs : List UInt8) :
    resume [] (a :: b :: bs) =
      .whole (Char.ofNat (a.toNat % 32 * 64 + b.toNat % 64)) :: resume [] bs := by
  simp [resume_cons, step, start, reading, ha, hb]

theorem resume_three {a b c : UInt8} (ha : width a = 3) (hb : isSecond a b) (hc : isTail c)
    (bs : List UInt8) :
    resume [] (a :: b :: c :: bs) =
      .whole (Char.ofNat (a.toNat % 16 * 4096 + b.toNat % 64 * 64 + c.toNat % 64)) ::
        resume [] bs := by
  simp [resume_cons, step, start, reading, ha, hb, hc]

theorem resume_four {a b c d : UInt8} (ha : width a = 4) (hb : isSecond a b) (hc : isTail c)
    (hd : isTail d) (bs : List UInt8) :
    resume [] (a :: b :: c :: d :: bs) =
      .whole (Char.ofNat (a.toNat % 8 * 262144 + b.toNat % 64 * 4096 + c.toNat % 64 * 64 +
        d.toNat % 64)) :: resume [] bs := by
  simp [resume_cons, step, start, reading, ha, hb, hc, hd]

theorem toNat_byte {k : Nat} (h : k < 256) : (UInt8.ofNat k).toNat = k :=
  UInt8.toNat_ofNat_of_lt' h

theorem resume_utf8EncodeChar (c : Char) (bs : List UInt8) :
    resume [] (String.utf8EncodeChar c ++ bs) = .whole c :: resume [] bs := by
  obtain ⟨n, hn⟩ : ∃ n, c.val.toNat = n := ⟨_, rfl⟩
  have hvalid : n < 0xD800 ∨ 0xDFFF < n ∧ n < 0x110000 := hn ▸ c.valid
  have hread {k : Nat} (h : k = n) : Char.ofNat k = c := by
    rw [h, ← hn]
    exact Char.ofNat_toNat c
  simp only [String.utf8EncodeChar, hn]
  split
  · have h0 := toNat_byte (k := n) (by omega)
    rw [List.cons_append, List.nil_append, resume_one (width_eq_one_iff.mpr (by omega)), h0, hread rfl]
  · split
    · have h0 := toNat_byte (k := n / 64 % 0x20 + 0xc0) (by omega)
      have h1 := toNat_byte (k := n % 0x40 + 0x80) (by omega)
      rw [List.cons_append, List.cons_append, List.nil_append,
        resume_two (width_eq_two_iff.mpr (by omega))
          (isSecond_iff.mpr (by omega)),
        h0, h1, hread (by omega)]
    · split
      · have h0 := toNat_byte (k := n / 4096 % 0x10 + 0xe0) (by omega)
        have h1 := toNat_byte (k := n / 64 % 0x40 + 0x80) (by omega)
        have h2 := toNat_byte (k := n % 0x40 + 0x80) (by omega)
        rw [List.cons_append, List.cons_append, List.cons_append, List.nil_append,
          resume_three (width_eq_three_iff.mpr (by omega))
            (isSecond_iff.mpr (by omega))
            (isTail_iff.mpr (by omega)),
          h0, h1, h2, hread (by omega)]
      · have h0 := toNat_byte (k := n / 262144 % 0x08 + 0xf0) (by omega)
        have h1 := toNat_byte (k := n / 4096 % 0x40 + 0x80) (by omega)
        have h2 := toNat_byte (k := n / 64 % 0x40 + 0x80) (by omega)
        have h3 := toNat_byte (k := n % 0x40 + 0x80) (by omega)
        rw [List.cons_append, List.cons_append, List.cons_append, List.cons_append, List.nil_append,
          resume_four (width_eq_four_iff.mpr (by omega))
            (isSecond_iff.mpr (by omega))
            (isTail_iff.mpr (by omega)) (isTail_iff.mpr (by omega)),
          h0, h1, h2, h3, hread (by omega)]

theorem segments_encode (cs : List Char) :
    segments (encode (cs.map Glyph.char)) = cs.map Segment.whole := by
  induction cs with
  | nil => rfl
  | cons c cs ih =>
      have hstep : encode ((c :: cs).map Glyph.char) =
          String.utf8EncodeChar c ++ encode (cs.map Glyph.char) := rfl
      rw [hstep, segments, resume_utf8EncodeChar]
      exact congrArg (List.cons _) ih

theorem decodeLossy_encode (cs : List Char) :
    decodeLossy (encode (cs.map Glyph.char)) = cs.map Glyph.char := by
  rw [decodeLossy, segments_encode, List.flatMap_map, List.map_eq_flatMap]
  rfl

end Symbolication.Utf8
