import Symbolication.Proofs.Escape

namespace Symbolication.Utf8

def ascii (b : UInt8) : Glyph := .char (Char.ofNat b.toNat)

theorem resume_ascii {b : UInt8} (h : b.toNat < 0x80) (pending bs : List UInt8) :
    resume pending (b :: bs) = flush pending ++ .whole (Char.ofNat b.toNat) :: resume [] bs := by
  have hstart : start b = ([.whole (Char.ofNat b.toNat)], []) := by
    rw [start, reading_singleton h]
  rw [resume_cons]
  by_cases hp : pending = []
  · rw [step, if_pos hp, hstart, flush, if_pos hp]
    rfl
  · rw [step, if_neg hp, reading_append_singleton hp h, hstart, flush, if_neg hp]
    rfl

theorem segments_append_ascii {b : UInt8} (h : b.toNat < 0x80) (u v : List UInt8) :
    segments (u ++ b :: v) = segments u ++ .whole (Char.ofNat b.toNat) :: segments v := by
  suffices hresume : ∀ pending, resume pending (u ++ b :: v) =
      resume pending u ++ .whole (Char.ofNat b.toNat) :: resume [] v from hresume []
  induction u with
  | nil => exact fun pending => resume_ascii h pending v
  | cons a u ih =>
      intro pending
      rw [List.cons_append, resume_cons, resume_cons, ih, List.append_assoc]

theorem decode_append_ascii {b : UInt8} (h : b.toNat < 0x80) (u v : List UInt8) :
    decode (u ++ b :: v) = decode u ++ ascii b :: decode v := by
  rw [decode, segments_append_ascii h, List.flatMap_append, List.flatMap_cons]
  rfl

theorem decodeLossy_append_ascii {b : UInt8} (h : b.toNat < 0x80) (u v : List UInt8) :
    decodeLossy (u ++ b :: v) = decodeLossy u ++ ascii b :: decodeLossy v := by
  rw [decodeLossy, segments_append_ascii h, List.flatMap_append, List.flatMap_cons]
  rfl

theorem encodeGlyph_cases (g : Glyph) :
    (∃ b : UInt8, b.toNat < 0x80 ∧ g = ascii b ∧ encodeGlyph g = [b]) ∨
      encodeGlyph g ≠ [] ∧ High (encodeGlyph g) := by
  cases g with
  | char c =>
      by_cases hc : c.toNat < 0x80
      · have hb : (UInt8.ofNat c.toNat).toNat = c.toNat := toNat_byte (by omega)
        have hle : c.val.toNat ≤ 0x7F := Nat.le_of_lt_succ hc
        refine .inl ⟨UInt8.ofNat c.toNat, by omega, ?_, ?_⟩
        · rw [ascii, hb, Char.ofNat_toNat]
        · rw [encodeGlyph, String.utf8EncodeChar, if_pos hle]
          rfl
      · refine .inr ⟨String.utf8EncodeChar_ne_nil, ?_⟩
        have hlt : ¬c.val.toNat ≤ 0x7F := fun h => hc (Nat.lt_succ_of_le h)
        rw [High, encodeGlyph, String.utf8EncodeChar, if_neg hlt]
        split
        · simp only [List.mem_cons, List.not_mem_nil, or_false, forall_eq_or_imp, forall_eq,
            UInt8.toNat_ofNat']
          omega
        · split
          · simp only [List.mem_cons, List.not_mem_nil, or_false, forall_eq_or_imp, forall_eq,
            UInt8.toNat_ofNat']
            omega
          · simp only [List.mem_cons, List.not_mem_nil, or_false, forall_eq_or_imp, forall_eq,
            UInt8.toNat_ofNat']
            omega
  | stray low =>
      have hlow := low.isLt
      have hb : (UInt8.ofNat (128 + low.val)).toNat = 128 + low.val := toNat_byte (by omega)
      refine .inr ⟨List.cons_ne_nil _ _, List.forall_mem_singleton.mpr ?_⟩
      omega

@[simp] theorem encode_nil : encode [] = [] := rfl

@[simp] theorem encode_cons (g : Glyph) (t : Text) : encode (g :: t) = encodeGlyph g ++ encode t := rfl

theorem encodeGlyph_ne_nil (g : Glyph) : encodeGlyph g ≠ [] := by
  rcases encodeGlyph_cases g with ⟨b, -, -, h⟩ | ⟨h, -⟩
  · rw [h]
    exact List.cons_ne_nil _ _
  · exact h

@[simp] theorem encode_eq_nil_iff {t : Text} : encode t = [] ↔ t = [] := by
  cases t with
  | nil => simp
  | cons g t => simp [encodeGlyph_ne_nil]

theorem encode_eq_append_cons {t : Text} {u v : List UInt8} {b : UInt8} (hb : b.toNat < 0x80)
    (h : encode t = u ++ b :: v) :
    ∃ s r, t = s ++ ascii b :: r ∧ encode s = u ∧ encode r = v := by
  induction t generalizing u with
  | nil => simp at h
  | cons g t ih =>
      rw [encode_cons] at h
      rcases encodeGlyph_cases g with ⟨a, -, hg, hbytes⟩ | ⟨-, hhigh⟩
      · rw [hbytes] at h
        cases u with
        | nil =>
            obtain ⟨rfl, hv⟩ := List.cons.inj h
            exact ⟨[], t, by rw [hg]; rfl, rfl, hv⟩
        | cons a' u =>
            obtain ⟨rfl, htail⟩ := List.cons.inj h
            obtain ⟨s, r, rfl, rfl, hv⟩ := ih htail
            exact ⟨g :: s, r, rfl, by rw [encode_cons, hbytes]; rfl, hv⟩
      · rcases List.append_eq_append_iff.mp h with ⟨w, rfl, hw⟩ | ⟨w, hw, hv⟩
        · obtain ⟨s, r, rfl, rfl, hv⟩ := ih hw
          exact ⟨g :: s, r, rfl, rfl, hv⟩
        · cases w with
          | nil =>
              rw [List.append_nil] at hw
              obtain ⟨s, r, rfl, hs, hv⟩ := ih (u := []) hv.symm
              exact ⟨g :: s, r, rfl, by rw [encode_cons, hs, hw, List.append_nil], hv⟩
          | cons b' w =>
              obtain ⟨rfl, -⟩ := List.cons.inj hv
              have hb' := hhigh b (by simp [hw])
              omega

theorem encode_eq_append_ascii {t : Text} {u v : List UInt8} (hu : ∀ b ∈ u, b.toNat < 0x80)
    (h : encode t = u ++ v) : ∃ r, t = u.map ascii ++ r ∧ encode r = v := by
  induction u generalizing t with
  | nil => exact ⟨t, rfl, h⟩
  | cons b u ih =>
      obtain ⟨hb, hu⟩ := List.forall_mem_cons.mp hu
      obtain ⟨s, r, rfl, hs, hr⟩ := encode_eq_append_cons (u := []) hb h
      obtain rfl := encode_eq_nil_iff.mp hs
      obtain ⟨r', rfl, hr'⟩ := ih hu hr
      exact ⟨r', rfl, hr'⟩

theorem toNat_letter {c : Char} (h : c.toNat < 0x80) :
    (Alphabet.letter c : UInt8).toNat = c.toNat :=
  toNat_byte (by omega)

theorem ascii_letter {c : Char} (h : c.toNat < 0x80) :
    ascii (Alphabet.letter c) = Alphabet.letter c := by
  rw [ascii, toNat_letter h, Char.ofNat_toNat]
  rfl

theorem encodeGlyph_ascii {b : UInt8} (h : b.toNat < 0x80) : encodeGlyph (ascii b) = [b] :=
  utf8EncodeChar_one (width_eq_one_iff.mpr h)

theorem encode_map_ascii {u : List UInt8} (hu : ∀ b ∈ u, b.toNat < 0x80) :
    encode (u.map ascii) = u := by
  induction u with
  | nil => rfl
  | cons b u ih =>
      obtain ⟨hb, hu⟩ := List.forall_mem_cons.mp hu
      rw [List.map_cons, encode_cons, encodeGlyph_ascii hb, ih hu]
      rfl

theorem encodeGlyph_letter {c : Char} (h : c.toNat < 0x80) :
    encodeGlyph (Alphabet.letter c) = [Alphabet.letter c] := by
  have hb : (Alphabet.letter c : UInt8).toNat < 0x80 := by rwa [toNat_letter h]
  rw [← ascii_letter h, encodeGlyph_ascii hb]

theorem letter_mem_encode_iff {c : Char} (hc : c.toNat < 0x80) {t : Text} :
    Alphabet.letter c ∈ encode t ↔ Alphabet.letter c ∈ t := by
  constructor
  · intro h
    obtain ⟨u, v, huv⟩ := List.append_of_mem h
    obtain ⟨s, r, rfl, -, -⟩ := encode_eq_append_cons (by rwa [toNat_letter hc]) huv
    rw [ascii_letter hc]
    simp
  · intro h
    refine List.mem_flatMap.mpr ⟨_, h, ?_⟩
    rw [encodeGlyph_letter hc]
    exact List.mem_singleton_self _

theorem decode_encode_split {bs : List UInt8} {s r : Text} {c : Char} (hc : c.toNat < 0x80)
    (h : decode bs = s ++ Alphabet.letter c :: r) :
    decode (encode s) = s ∧ decode (encode r) = r := by
  have hb : (Alphabet.letter c : UInt8).toNat < 0x80 := by rwa [toNat_letter hc]
  have hbytes : bs = encode s ++ Alphabet.letter c :: encode r := by
    rw [← encode_decode bs, h, encode_append, encode_cons, encodeGlyph_letter hc]
    rfl
  have hsplit : decode (encode s) ++ Alphabet.letter c :: decode (encode r) =
      s ++ Alphabet.letter c :: r := by
    rw [← h, hbytes, decode_append_ascii hb, ascii_letter hc]
  rcases List.append_eq_append_iff.mp hsplit with ⟨w, hs, hr⟩ | ⟨w, hs, hr⟩
  · have hw : encode w = [] := by simpa [encode_append, encode_decode] using congrArg encode hs
    obtain rfl := encode_eq_nil_iff.mp hw
    exact ⟨by simpa using hs.symm, (List.cons.inj hr).2⟩
  · have hw : encode w = [] := by simpa [encode_append, encode_decode] using congrArg encode hs
    obtain rfl := encode_eq_nil_iff.mp hw
    exact ⟨by simpa using hs, (List.cons.inj hr).2.symm⟩

theorem spell_ascii {s : String} (hs : s.toList.all (·.toNat < 0x80)) :
    ∀ b ∈ (spell s : List UInt8), b.toNat < 0x80 := by
  intro b hb
  obtain ⟨c, hc, rfl⟩ := List.mem_map.mp hb
  have hascii : c.toNat < 0x80 := by simpa using List.all_eq_true.mp hs c hc
  rwa [toNat_letter hascii]

theorem map_ascii_spell {s : String} (hs : s.toList.all (·.toNat < 0x80)) :
    (spell s).map ascii = spell s := by
  rw [spell, List.map_map]
  apply List.map_congr_left
  intro c hc
  exact ascii_letter (by simpa using List.all_eq_true.mp hs c hc)

theorem encode_spell {s : String} (hs : s.toList.all (·.toNat < 0x80)) :
    encode (spell s) = spell s := by
  rw [← map_ascii_spell hs, encode_map_ascii (spell_ascii hs)]

end Symbolication.Utf8
