import Symbolication.Marker.Scan

namespace Symbolication

theorem append_cons_inj {α : Type} {a : α} {x y u v : List α} (hx : a ∉ x) (hy : a ∉ y) :
    x ++ a :: u = y ++ a :: v ↔ x = y ∧ u = v := by
  constructor
  · intro h
    induction x generalizing y with
    | nil =>
        cases y with
        | nil => simpa using h
        | cons b y =>
            obtain ⟨rfl, -⟩ : a = b ∧ _ := by simpa using h
            exact absurd (List.mem_cons_self ..) hy
    | cons b x ih =>
        cases y with
        | nil =>
            obtain ⟨rfl, -⟩ : b = a ∧ _ := by simpa using h
            exact absurd (List.mem_cons_self ..) hx
        | cons c y =>
            obtain ⟨rfl, ht⟩ : b = c ∧ x ++ a :: u = y ++ a :: v := by simpa using h
            obtain ⟨rfl, huv⟩ := ih (fun hm => hx (by simp [hm])) (fun hm => hy (by simp [hm])) ht
            exact ⟨rfl, huv⟩
  · rintro ⟨rfl, rfl⟩
    rfl

variable {σ : Type} [Alphabet σ]

theorem letter_ne {a b : Char} (ha : a.toNat < 128) (hb : b.toNat < 128) (h : a ≠ b) :
    (Alphabet.letter a : σ) ≠ Alphabet.letter b :=
  fun he => h (Alphabet.letter_inj ha hb he)

theorem letter_notMem_spell {c : Char} {s : String} (hc : c.toNat < 128)
    (hs : s.toList.all fun d => d.toNat < 128 && d ≠ c) : (Alphabet.letter c : σ) ∉ spell s := by
  intro h
  obtain ⟨d, hd, he⟩ := List.mem_map.mp h
  obtain ⟨hascii, hne⟩ : d.toNat < 128 ∧ d ≠ c := by simpa using List.all_eq_true.mp hs d hd
  exact letter_ne hascii hc hne he

namespace Marker

theorem spelling_ne_nil (m : Marker σ) : m.spelling ≠ [] := by
  simp [spelling, spell]

theorem length_spelling_pos (m : Marker σ) : 0 < m.spelling.length :=
  List.length_pos_iff.mpr m.spelling_ne_nil

def opening (m : Marker σ) : List σ := spell "[+" ++ m.offset ++ spell "](" ++ m.module

theorem spelling_append (m : Marker σ) (r : List σ) :
    m.spelling ++ r = m.opening ++ Alphabet.letter ')' :: r := by
  simp [spelling, opening, spell]

theorem length_spelling (m : Marker σ) : m.spelling.length = m.opening.length + 1 := by
  simpa using congrArg List.length (m.spelling_append [])

theorem opening_ne_nil (m : Marker σ) : m.opening ≠ [] := by
  simp [opening, spell]

theorem spelling_inj {m n : Marker σ} (hm : Alphabet.letter ']' ∉ m.offset)
    (hn : Alphabet.letter ']' ∉ n.offset) (h : m.spelling = n.spelling) : m = n := by
  have hcut : m.offset ++ Alphabet.letter ']' :: (spell "(" ++ m.module ++ spell ")") =
      n.offset ++ Alphabet.letter ']' :: (spell "(" ++ n.module ++ spell ")") := by
    simpa [spelling, spell] using h
  obtain ⟨ho, hr⟩ := (append_cons_inj hm hn).mp hcut
  have hmod : m.module = n.module := by simpa [spell] using hr
  cases m
  cases n
  cases ho
  cases hmod
  rfl

end Marker

namespace Span

def shift (k : Nat) (p : Span σ) : Span σ := ⟨p.marker, p.start + k, p.stop + k⟩

end Span

theorem spansFrom_add (n k : Nat) (ps : List (Piece σ)) :
    spansFrom (n + k) ps = (spansFrom n ps).map (Span.shift k) := by
  induction ps generalizing n with
  | nil => rfl
  | cons p ps ih =>
      cases p with
      | plain a =>
          simp only [spansFrom]
          rw [← ih (n + 1), Nat.add_right_comm]
      | marker m =>
          simp only [spansFrom, List.map_cons]
          rw [← ih (n + m.spelling.length), Nat.add_right_comm n k]
          rfl

theorem spansFrom_append_plain (position : Nat) (u : List σ) (ps : List (Piece σ)) :
    spansFrom position (u.map .plain ++ ps) = spansFrom (position + u.length) ps := by
  induction u generalizing position with
  | nil => rfl
  | cons b u ih =>
      rw [List.map_cons, List.cons_append, spansFrom, ih, List.length_cons, Nat.add_right_comm]
      rfl

theorem spansFrom_append (position : Nat) (ps qs : List (Piece σ)) :
    spansFrom position (ps ++ qs) = spansFrom position ps ++
      spansFrom (position + (ps.flatMap (Piece.render Marker.spelling)).length) qs := by
  induction ps generalizing position with
  | nil => rfl
  | cons p ps ih =>
      cases p with
      | plain a => simp [spansFrom, ih, Piece.render, Nat.add_assoc, Nat.add_comm 1]
      | marker m => simp [spansFrom, ih, Piece.render, Nat.add_assoc]

variable [DecidableEq σ]

theorem letter_notMem_of_hexDigits {c : Char} (hc : c.toNat < 128)
    (hn : c ∉ "0123456789abcdefABCDEF".toList) {digits : List σ}
    (h : ∀ d ∈ digits, isHexDigit d) : Alphabet.letter c ∉ digits := by
  intro hm
  have hd := h _ hm
  rw [isHexDigit_letter hc] at hd
  exact hn (of_decide_eq_true hd)

namespace Marker

theorem Valid.close_notMem_opening {m : Marker σ} (h : m.Valid) :
    Alphabet.letter ')' ∉ m.opening := by
  obtain ⟨⟨digits, -, hd, ho⟩, -, hm⟩ := h
  have hdigits := letter_notMem_of_hexDigits (c := ')') (by decide) (by decide) hd
  have hopen : (Alphabet.letter ')' : σ) ∉ spell "[+" := letter_notMem_spell (by decide) (by decide)
  have hzero : (Alphabet.letter ')' : σ) ∉ spell "0x" := letter_notMem_spell (by decide) (by decide)
  have hturn : (Alphabet.letter ')' : σ) ∉ spell "](" := letter_notMem_spell (by decide) (by decide)
  simp [opening, ho, hdigits, hopen, hzero, hturn, hm]

theorem Valid.bracket_notMem_offset {m : Marker σ} (h : m.Valid) :
    Alphabet.letter ']' ∉ m.offset := by
  obtain ⟨⟨digits, -, hd, ho⟩, -, -⟩ := h
  have hdigits := letter_notMem_of_hexDigits (c := ']') (by decide) (by decide) hd
  have hzero : (Alphabet.letter ']' : σ) ∉ spell "0x" := letter_notMem_spell (by decide) (by decide)
  simp [ho, hdigits, hzero]

theorem Valid.spelling_inj {m n : Marker σ} (hm : m.Valid) (hn : n.Valid)
    (h : m.spelling = n.spelling) : m = n :=
  Marker.spelling_inj hm.bracket_notMem_offset hn.bracket_notMem_offset h

theorem read?_spelling {m : Marker σ} (h : m.Valid) (r : List σ) :
    read? (m.spelling ++ r) = some (m, r) :=
  read?_eq_some_iff.mpr ⟨h, rfl⟩

theorem read?_eq_none_of_ne {a : σ} (h : a ≠ Alphabet.letter '[') (s : List σ) :
    read? (a :: s) = none := by
  cases hr : read? (a :: s) with
  | none => rfl
  | some p =>
      obtain ⟨-, hs⟩ := read?_eq_some_iff.mp hr
      exact absurd (List.cons.inj hs).1 h

end Marker

@[elab_as_elim]
theorem scan_induction {motive : List σ → Prop} (nil : motive [])
    (marker : ∀ (m : Marker σ) (r : List σ), m.Valid → motive r → motive (m.spelling ++ r))
    (plain : ∀ (a : σ) (s : List σ), Marker.read? (a :: s) = none → motive s → motive (a :: s))
    (s : List σ) : motive s := by
  induction hn : s.length using Nat.strongRecOn generalizing s with
  | ind n ih =>
      cases s with
      | nil => exact nil
      | cons a s =>
          cases hr : Marker.read? (a :: s) with
          | none => exact plain a s hr (ih s.length (by simp [← hn]) s rfl)
          | some p =>
              obtain ⟨hv, hs⟩ := Marker.read?_eq_some_iff.mp hr
              have hlt : p.2.length < n := by
                have hlen := congrArg List.length hs
                have hpos := p.1.length_spelling_pos
                rw [List.length_append] at hlen
                omega
              rw [hs]
              exact marker p.1 p.2 hv (ih p.2.length hlt p.2 rfl)

theorem scan_spelling {m : Marker σ} (h : m.Valid) (r : List σ) :
    scan (m.spelling ++ r) = .marker m :: scan r :=
  scan_of_read? (Marker.read?_spelling h r)

theorem spans_nil : spans ([] : List σ) = [] := rfl

theorem spans_spelling {m : Marker σ} (h : m.Valid) (r : List σ) :
    spans (m.spelling ++ r) =
      ⟨m, 0, m.spelling.length⟩ :: (spans r).map (Span.shift m.spelling.length) := by
  simp only [spans, scan_spelling h, spansFrom]
  rw [spansFrom_add 0]
  simp

theorem spans_cons {a : σ} {s : List σ} (h : Marker.read? (a :: s) = none) :
    spans (a :: s) = (spans s).map (Span.shift 1) := by
  simp only [spans, scan_cons h, spansFrom]
  exact spansFrom_add 0 1 (scan s)

theorem markers_spelling {m : Marker σ} (h : m.Valid) (r : List σ) :
    markers (m.spelling ++ r) = m :: markers r := by
  simp only [markers, scan_spelling h]
  rfl

theorem markers_cons {a : σ} {s : List σ} (h : Marker.read? (a :: s) = none) :
    markers (a :: s) = markers s := by
  simp only [markers, scan_cons h]
  rfl

theorem valid_of_mem_markers {s : List σ} {m : Marker σ} (h : m ∈ markers s) : m.Valid := by
  induction s using scan_induction with
  | nil => cases h
  | marker n r hn ih =>
      rw [markers_spelling hn] at h
      rcases List.mem_cons.mp h with rfl | hr
      · exact hn
      · exact ih hr
  | plain a s hr ih =>
      rw [markers_cons hr] at h
      exact ih h

theorem markers_eq_nil_of_notMem {s : List σ} (h : Alphabet.letter ')' ∉ s) : markers s = [] := by
  induction s using scan_induction with
  | nil => rfl
  | marker m r hm ih =>
      rw [Marker.spelling_append] at h
      exact absurd (by simp) h
  | plain a s hr ih =>
      rw [markers_cons hr]
      exact ih fun hs => h (List.mem_cons_of_mem _ hs)

end Symbolication
