import Symbolication.Proofs.Ascii
import Symbolication.Proofs.Gaps
import Symbolication.Proofs.Occurrence

namespace Symbolication

open Utf8

theorem exists_letter_of_isHexDigit {σ : Type} [DecidableEq σ] [Alphabet σ] {d : σ}
    (h : isHexDigit d) : ∃ c : Char, c.toNat < 0x80 ∧ d = Alphabet.letter c ∧
      ∀ {τ : Type} [DecidableEq τ] [Alphabet τ], isHexDigit (Alphabet.letter c : τ) := by
  obtain ⟨c, hc, rfl⟩ := List.mem_map.mp (of_decide_eq_true h)
  have hascii : "0123456789abcdefABCDEF".toList.all (·.toNat < 0x80) := by decide
  refine ⟨c, by simpa using List.all_eq_true.mp hascii c hc, rfl, ?_⟩
  exact decide_eq_true (List.mem_map_of_mem hc)

theorem isHexDigit_ascii {b : UInt8} (h : isHexDigit b) : b.toNat < 0x80 ∧ isHexDigit (ascii b) := by
  obtain ⟨c, hc, rfl, hd⟩ := exists_letter_of_isHexDigit h
  rw [ascii_letter hc, toNat_letter hc]
  exact ⟨hc, hd⟩

theorem isHexDigit_of_mem_encode {digits : Text} (h : ∀ d ∈ digits, isHexDigit d) :
    ∀ b ∈ encode digits, isHexDigit b := by
  intro b hb
  obtain ⟨d, hd, hb⟩ := List.mem_flatMap.mp hb
  obtain ⟨c, hc, rfl, hhex⟩ := exists_letter_of_isHexDigit (h d hd)
  rw [encodeGlyph_letter hc, List.mem_singleton] at hb
  rw [hb]
  exact hhex

namespace Marker

def bytes (m : Marker Glyph) : Marker UInt8 := ⟨encode m.offset, encode m.module⟩

def decoded (n : Marker UInt8) : Marker Glyph := ⟨decode n.offset, decode n.module⟩

theorem encode_spelling (m : Marker Glyph) : encode m.spelling = m.bytes.spelling := by
  simp only [spelling, bytes, encode_append]
  rw [encode_spell (by decide), encode_spell (by decide), encode_spell (by decide)]

theorem Valid.bytes {m : Marker Glyph} (h : m.Valid) : m.bytes.Valid := by
  obtain ⟨⟨digits, hne, hd, ho⟩, hname, hopen⟩ := h
  constructor
  case offset =>
    refine ⟨encode digits, fun h => hne (encode_eq_nil_iff.mp h), isHexDigit_of_mem_encode hd, ?_⟩
    change encode m.offset = _
    rw [ho, encode_append, encode_spell (by decide)]
  case module_ne_nil => exact fun h => hname (encode_eq_nil_iff.mp h)
  case module_open => exact fun h => hopen ((letter_mem_encode_iff (by decide)).mp h)

theorem exists_of_encode_eq_spelling {t : Text} {n : Marker UInt8} {r : List UInt8} (hn : n.Valid)
    (h : encode t = n.spelling ++ r) :
    ∃ (m : Marker Glyph) (s : Text), m.Valid ∧ t = m.spelling ++ s ∧ m.bytes = n ∧ encode s = r := by
  obtain ⟨⟨digits, hne, hd, ho⟩, hname, hopen⟩ := hn
  have hoffset : ∀ b ∈ n.offset, b.toNat < 0x80 := by
    rw [ho]
    exact List.forall_mem_append.mpr
      ⟨spell_ascii (by decide), fun b hb => (isHexDigit_ascii (hd b hb)).1⟩
  have hhead : ∀ b ∈ spell "[+" ++ n.offset ++ spell "](", b.toNat < 0x80 :=
    List.forall_mem_append.mpr ⟨List.forall_mem_append.mpr
      ⟨spell_ascii (by decide), hoffset⟩, spell_ascii (by decide)⟩
  have hcut : encode t = (spell "[+" ++ n.offset ++ spell "](") ++
      (n.module ++ Alphabet.letter ')' :: r) := by
    simpa [spelling, spell] using h
  -- All up to the name is ASCII and stands in the text as it is; the name ends at an ASCII byte.
  obtain ⟨t', rfl, ht'⟩ := encode_eq_append_ascii hhead hcut
  obtain ⟨name, s, rfl, hmodule, hs⟩ := encode_eq_append_cons (by decide) ht'
  refine ⟨⟨n.offset.map ascii, name⟩, s, ?_, ?_, ?_, hs⟩
  · constructor
    case offset =>
      refine ⟨digits.map ascii, by simpa using hne, ?_, ?_⟩
      · exact List.forall_mem_map.mpr fun b hb => (isHexDigit_ascii (hd b hb)).2
      · change n.offset.map ascii = _
        rw [ho, List.map_append, map_ascii_spell (by decide)]
    case module_ne_nil =>
      rintro rfl
      exact hname hmodule.symm
    case module_open =>
      intro hmem
      rw [← hmodule] at hopen
      exact hopen ((letter_mem_encode_iff (by decide)).mpr hmem)
  · rw [List.map_append, List.map_append, map_ascii_spell (by decide), map_ascii_spell (by decide),
      ascii_letter (by decide)]
    simp [spelling, spell]
  · simp only [bytes, encode_map_ascii hoffset, hmodule]

theorem read?_encode (t : Text) :
    read? (encode t) = (read? t).map fun p => (p.1.bytes, encode p.2) := by
  cases hr : read? t with
  | some p =>
      obtain ⟨hv, rfl⟩ := read?_eq_some_iff.mp hr
      rw [encode_append, encode_spelling, read?_spelling hv.bytes]
      rfl
  | none =>
      cases hraw : read? (encode t) with
      | none => rfl
      | some q =>
          obtain ⟨hq, hs⟩ := read?_eq_some_iff.mp hraw
          obtain ⟨m, s, hm, rfl, -, -⟩ := exists_of_encode_eq_spelling hq hs
          rw [read?_spelling hm] at hr
          cases hr

end Marker

def Piece.bytes : Piece Glyph → List (Piece UInt8)
  | .plain g => (encodeGlyph g).map .plain
  | .marker m => [.marker m.bytes]

theorem scan_append_of_high {u : List UInt8} (hu : High u) (s : List UInt8) :
    scan (u ++ s) = u.map .plain ++ scan s := by
  induction u with
  | nil => rfl
  | cons b u ih =>
      obtain ⟨hb, hu⟩ := List.forall_mem_cons.mp hu
      have hne : b ≠ Alphabet.letter '[' := by
        rintro rfl
        revert hb
        decide
      rw [List.cons_append, scan_cons (Marker.read?_eq_none_of_ne hne _), ih hu]
      rfl

theorem scan_encode (t : Text) : scan (encode t) = (scan t).flatMap Piece.bytes := by
  induction t using scan_induction with
  | nil => rfl
  | marker m r hm ih =>
      rw [encode_append, Marker.encode_spelling, scan_spelling hm.bytes, scan_spelling hm, ih]
      rfl
  | plain g t hr ih =>
      rw [scan_cons hr, List.flatMap_cons, ← ih, encode_cons, Piece.bytes]
      -- The bytes of a glyph that is not ASCII can begin no marker, whatever follows them.
      rcases encodeGlyph_cases g with ⟨b, hb, rfl, hbytes⟩ | ⟨-, hhigh⟩
      · have hread : Marker.read? (encode (ascii b :: t)) = none := by
          rw [Marker.read?_encode, hr]
          rfl
        rw [encode_cons, hbytes] at hread
        rw [hbytes]
        exact scan_cons hread
      · exact scan_append_of_high hhigh _

theorem markers_encode (t : Text) : markers (encode t) = (markers t).map Marker.bytes := by
  have hpiece (p : Piece Glyph) :
      p.bytes.filterMap Piece.marker? = (p.marker?.map Marker.bytes).toList := by
    cases p with
    | plain g => simp [Piece.bytes, Piece.marker?]
    | marker m => rfl
  rw [markers, scan_encode, List.filterMap_flatMap, markers, List.map_filterMap,
    List.filterMap_eq_flatMap_toList]
  simp only [hpiece]

theorem splice_encode (f : Marker UInt8 → List UInt8) (f' : Marker Glyph → Text) (t : Text)
    (h : ∀ m ∈ markers t, f m.bytes = encode (f' m)) :
    splice f (encode t) = encode (splice f' t) := by
  rw [splice, scan_encode, List.flatMap_assoc, splice, encode, List.flatMap_assoc]
  apply List.flatMap_congr
  intro p hp
  cases p with
  | plain g => simp [Piece.bytes, Piece.render, List.flatMap_map]
  | marker m =>
      have hm := h m (List.mem_filterMap.mpr ⟨_, hp, rfl⟩)
      simpa [Piece.bytes, Piece.render, encode] using hm

theorem spans_encode_cons {g : Glyph} {t : Text} (h : Marker.read? (g :: t) = none) :
    spans (encode (g :: t)) = (spans (encode t)).map (Span.shift (encodeGlyph g).length) := by
  rw [spans, scan_encode, scan_cons h, List.flatMap_cons, ← scan_encode, Piece.bytes,
    spansFrom_append_plain, spansFrom_add]
  rfl

theorem gaps_encode (t : Text) :
    gaps (encode t) (spans (encode t)) = (gaps t (spans t)).map encode := by
  induction t using scan_induction with
  | nil => rfl
  | marker m r hm ih =>
      rw [encode_append, Marker.encode_spelling, spans_spelling hm.bytes, gaps_append, ih,
        spans_spelling hm, gaps_append]
      rfl
  | plain g t hr ih =>
      rw [spans_encode_cons hr, encode_cons, gaps_shift, ih, spans_cons hr, gaps_cons]
      cases gaps t (spans t) <;> rfl

theorem decoded_bytes {bs : List UInt8} {m : Marker Glyph} (h : m ∈ markers (decode bs)) :
    m.bytes.decoded = m := by
  rw [← map_marker_spans] at h
  obtain ⟨p, hp, rfl⟩ := List.mem_map.mp h
  obtain ⟨-, u, v, hs, -, -⟩ := spells_of_mem_spans p hp
  have hsign : decode bs = (u ++ [Alphabet.letter '[']) ++ Alphabet.letter '+' ::
      (p.marker.offset ++ Alphabet.letter ']' :: ([] ++ Alphabet.letter '(' ::
        (p.marker.module ++ Alphabet.letter ')' :: v))) := by
    simpa [Marker.spelling, spell] using hs
  have hoffset := decode_encode_split (by decide) (decode_encode_split (by decide) hsign).2
  have hmodule := decode_encode_split (by decide) (decode_encode_split (by decide) hoffset.2).2
  rw [Marker.decoded, Marker.bytes, hoffset.1, hmodule.1]

theorem markers_decode (bs : List UInt8) :
    markers (decode bs) = (markers bs).map Marker.decoded := by
  have hself : ∀ m ∈ markers (decode bs), (Marker.decoded ∘ Marker.bytes) m = m :=
    fun m hm => decoded_bytes hm
  conv_rhs => rw [← encode_decode bs, markers_encode, List.map_map]
  rw [List.map_congr_left hself, List.map_id']

end Symbolication
