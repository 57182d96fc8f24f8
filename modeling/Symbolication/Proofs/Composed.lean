import Mathlib.Data.List.Chain
import Symbolication.Proofs.Gaps

namespace Symbolication

variable {σ : Type} [Alphabet σ]

def placed (position : Nat) : List (List σ) → List (Marker σ) → List (Span σ)
  | g :: gs, m :: ms =>
      ⟨m, position + g.length, position + g.length + m.spelling.length⟩ ::
        placed (position + g.length + m.spelling.length) gs ms
  | _, _ => []

variable [DecidableEq σ]

def Sealed (g : List σ) : Prop :=
  ∀ u digits v, digits ≠ [] → (∀ d ∈ digits, isHexDigit d) →
    g = u ++ (spell "[+0x" ++ digits ++ spell "](") ++ v → v.head? = some (Alphabet.letter ')')

theorem Sealed.tail {a : σ} {g : List σ} (h : Sealed (a :: g)) : Sealed g := by
  rintro u digits v hne hd rfl
  exact h (a :: u) digits v hne hd (by simp)

theorem sealed_of_parentheses {g : List σ}
    (h : g.IsChain fun a b => a = Alphabet.letter '(' → b = Alphabet.letter ')')
    (hend : g.getLast? ≠ some (Alphabet.letter '(')) : Sealed g := by
  rintro u digits v - - rfl
  have hcut : u ++ (spell "[+0x" ++ digits ++ spell "](") ++ v =
      (u ++ spell "[+0x" ++ digits ++ spell "]") ++ Alphabet.letter '(' :: v := by
    simp [spell]
  rw [hcut] at h hend
  cases v with
  | nil => exact absurd (by simp) hend
  | cons b v =>
      have hb := (List.isChain_append_cons_cons.mp h).2.1 rfl
      rw [hb]
      rfl

theorem bracket_notMem_digits {digits : List σ} (hd : ∀ d ∈ digits, isHexDigit d) :
    Alphabet.letter '[' ∉ spell "+0x" ++ digits ++ spell "](" := by
  have hsign : (Alphabet.letter '[' : σ) ∉ spell "+0x" := letter_notMem_spell (by decide) (by decide)
  have hdigits := letter_notMem_of_hexDigits (c := '[') (by decide) (by decide) hd
  have hturn : (Alphabet.letter '[' : σ) ∉ spell "](" := letter_notMem_spell (by decide) (by decide)
  simp [hsign, hdigits, hturn]

theorem Sealed.read?_append {a : σ} {g s : List σ} (h : Sealed (a :: g))
    (hs : ∀ b ∈ s.head?, b = Alphabet.letter '[') : Marker.read? (a :: (g ++ s)) = none := by
  cases hr : Marker.read? (a :: (g ++ s)) with
  | none => rfl
  | some p =>
      obtain ⟨⟨⟨digits, hne, hd, ho⟩, hname, hopen⟩, hp⟩ := Marker.read?_eq_some_iff.mp hr
      have hcut : a :: g ++ s = (spell "[+0x" ++ digits ++ spell "](") ++
          (p.1.module ++ Alphabet.letter ')' :: p.2) := by
        rw [List.cons_append, hp, Marker.spelling, ho]
        simp [spell]
      rcases List.append_eq_append_iff.mp hcut with ⟨w, hw, hrest⟩ | ⟨w, hw, hrest⟩
      · cases w with
        | nil =>
            have hend := h [] digits [] hne hd (by simpa using hw.symm)
            cases hend
        | cons b w =>
            -- The beginning of a marker cannot go on with the bracket that opens the next.
            obtain rfl : b = Alphabet.letter '[' := hs b (by rw [hrest]; rfl)
            have hhead : Alphabet.letter '[' :: (spell "+0x" ++ digits ++ spell "](") =
                a :: (g ++ Alphabet.letter '[' :: w) := hw
            have htail := (List.cons.inj hhead).2
            exact absurd (by rw [htail]; simp) (bracket_notMem_digits hd)
      · -- The module would begin with the parenthesis that follows in the gap.
        have hclose := h [] digits w hne hd (by simpa using hw)
        obtain ⟨w, rfl⟩ := List.head?_eq_some_iff.mp hclose
        obtain ⟨b, name, hm⟩ := List.exists_cons_of_ne_nil hname
        rw [hm, List.cons_append, List.cons_append] at hrest
        exact absurd (by rw [hm, (List.cons.inj hrest).1]; simp) hopen

theorem Sealed.scan_append {g s : List σ} (h : Sealed g)
    (hs : ∀ b ∈ s.head?, b = Alphabet.letter '[') : scan (g ++ s) = g.map .plain ++ scan s := by
  induction g with
  | nil => rfl
  | cons a g ih =>
      rw [List.cons_append, scan_cons (h.read?_append hs), ih h.tail]
      rfl

theorem spansFrom_weave {gs : List (List σ)} {ms : List (Marker σ)}
    (hgaps : gs.length = ms.length + 1) (hsealed : ∀ g ∈ gs, Sealed g) (hvalid : ∀ m ∈ ms, m.Valid)
    (position : Nat) :
    spansFrom position (scan (weave gs (ms.map Marker.spelling))) = placed position gs ms := by
  induction ms generalizing gs position with
  | nil =>
      obtain ⟨g, rfl⟩ := List.length_eq_one_iff.mp hgaps
      have hscan := (List.forall_mem_singleton.mp hsealed).scan_append (s := []) (by simp)
      rw [List.append_nil] at hscan
      rw [List.map_nil, weave, List.flatten_singleton, hscan, spansFrom_append_plain]
      rfl
  | cons m ms ih =>
      obtain ⟨g, gs, rfl⟩ := List.exists_cons_of_length_eq_add_one hgaps
      obtain ⟨hg, hsealed⟩ := List.forall_mem_cons.mp hsealed
      obtain ⟨hm, hvalid⟩ := List.forall_mem_cons.mp hvalid
      have hhead : ∀ b ∈ (m.spelling ++ weave gs (ms.map Marker.spelling)).head?,
          b = Alphabet.letter '[' := by
        simp [Marker.spelling, spell]
      rw [List.map_cons, weave, List.append_assoc, hg.scan_append hhead, spansFrom_append_plain,
        scan_spelling hm, spansFrom, ih (by simpa using hgaps) hsealed hvalid]
      rfl

theorem spans_composed (gs : List (List σ)) (ms : List (Marker σ)) (s : List σ) :
    (gs.length = ms.length + 1 → (∀ g ∈ gs, Sealed g) → (∀ m ∈ ms, m.Valid) →
      spans (weave gs (ms.map Marker.spelling)) = placed 0 gs ms) ∧
    ((gaps s (spans s)).length = (markers s).length + 1 ∧ (∀ m ∈ markers s, m.Valid) ∧
      (spans s).map Span.marker = markers s ∧
      weave (gaps s (spans s)) ((markers s).map Marker.spelling) = s) ∧
    ∀ m n : Marker σ, m.Valid → n.Valid → m.spelling = n.spelling → m = n := by
  refine ⟨fun hgaps hsealed hvalid => spansFrom_weave hgaps hsealed hvalid 0, ⟨?_, ?_, ?_, ?_⟩, ?_⟩
  · rw [length_gaps, ← map_marker_spans, List.length_map]
  · exact fun m hm => valid_of_mem_markers hm
  · exact map_marker_spans s
  · rw [← map_marker_spans, List.map_map]
    exact (splice_eq_weave Marker.spelling s).symm.trans (splice_spelling_self s)
  · exact fun m n hm hn h => hm.spelling_inj hn h

def roughGaps : List Text := [spell "[+0x1]()[+0x", spell "[+0x3]", spell "()x["]

def roughMarkers : List (Marker Glyph) :=
  [⟨spell "0x1", spell "a[+0x2](b"⟩, ⟨spell "0xF", spell "n"⟩]

theorem spans_composed_rough :
    (∀ g ∈ roughGaps, Sealed g) ∧ (∀ m ∈ roughMarkers, m.Valid) ∧
    weave roughGaps (roughMarkers.map Marker.spelling) =
      spell "[+0x1]()[+0x[+0x1](a[+0x2](b)[+0x3][+0xF](n)()x[" ∧
    spans (weave roughGaps (roughMarkers.map Marker.spelling)) =
      [⟨⟨spell "0x1", spell "a[+0x2](b"⟩, 12, 29⟩, ⟨⟨spell "0xF", spell "n"⟩, 35, 44⟩] := by
  have hsealed : ∀ g ∈ roughGaps, Sealed g := by
    rw [roughGaps, List.forall_mem_cons, List.forall_mem_cons, List.forall_mem_singleton]
    exact ⟨sealed_of_parentheses (by decide) (by decide),
      sealed_of_parentheses (by decide) (by decide), sealed_of_parentheses (by decide) (by decide)⟩
  have hvalid : ∀ m ∈ roughMarkers, m.Valid := by
    rw [roughMarkers, List.forall_mem_cons, List.forall_mem_singleton]
    exact ⟨⟨⟨spell "1", by decide, by decide, rfl⟩, by decide, by decide⟩,
      ⟨⟨spell "F", by decide, by decide, rfl⟩, by decide, by decide⟩⟩
  refine ⟨hsealed, hvalid, rfl, ?_⟩
  rw [(spans_composed roughGaps roughMarkers []).1 rfl hsealed hvalid]
  decide

end Symbolication
