import Mathlib.Data.List.Sort
import Symbolication.Proofs.Scan

namespace Symbolication

variable {σ : Type}

def slice (s : List σ) (i j : Nat) : List σ := (s.take j).drop i

theorem slice_append (u t v : List σ) : slice (u ++ t ++ v) u.length (u.length + t.length) = t := by
  rw [slice, List.take_left' (by simp), List.drop_left]

theorem eq_append_slice (s : List σ) {i j : Nat} (hij : i ≤ j) :
    s = s.take i ++ slice s i j ++ s.drop j := by
  have hcut : s.take j = s.take i ++ slice s i j := by
    have h := List.take_append_drop i (s.take j)
    rw [List.take_take, min_eq_left hij] at h
    exact h.symm
  rw [← hcut, List.take_append_drop]

variable [Alphabet σ] [DecidableEq σ]

structure OccursAt (s : List σ) (i j : Nat) (digits name : List σ) : Prop where
  start_le : i ≤ j
  stop_le : j ≤ s.length
  digits_ne_nil : digits ≠ []
  digits_hex : ∀ d ∈ digits, isHexDigit d
  name_ne_nil : name ≠ []
  name_open : Alphabet.letter ')' ∉ name
  slice_eq : slice s i j = spell "[+0x" ++ digits ++ spell "](" ++ name ++ spell ")"

structure MarkersOf (s : List σ) (ps : List (Span σ)) : Prop where
  ordered : ps.Pairwise fun p q => p.start < q.start ∧ p.stop ≤ q.start
  sound : ∀ p ∈ ps, ∃ digits name, OccursAt s p.start p.stop digits name ∧
    p.marker = ⟨spell "0x" ++ digits, name⟩ ∧ slice s p.start p.stop = p.marker.spelling
  complete : ∀ i j digits name, OccursAt s i j digits name → ∃ p ∈ ps, p.start ≤ i ∧ p.stop = j

def Spells (s : List σ) (p : Span σ) : Prop :=
  p.marker.Valid ∧ ∃ u v, s = u ++ p.marker.spelling ++ v ∧ p.start = u.length ∧
    p.stop = u.length + p.marker.spelling.length

theorem Spells.start_lt_stop {s : List σ} {p : Span σ} (h : Spells s p) : p.start < p.stop := by
  obtain ⟨-, u, v, -, hstart, hstop⟩ := h
  have hpos := p.marker.length_spelling_pos
  omega

theorem Spells.slice_eq {s : List σ} {p : Span σ} (h : Spells s p) :
    slice s p.start p.stop = p.marker.spelling := by
  obtain ⟨-, u, v, rfl, hstart, hstop⟩ := h
  rw [hstart, hstop, slice_append]

theorem Spells.shift {s : List σ} {p : Span σ} (h : Spells s p) (w : List σ) :
    Spells (w ++ s) (p.shift w.length) := by
  obtain ⟨hv, u, v, rfl, hstart, hstop⟩ := h
  refine ⟨hv, w ++ u, v, by simp [Span.shift], ?_, ?_⟩ <;>
    simp only [Span.shift, List.length_append] <;> omega

theorem Spells.eq {s : List σ} {p q : Span σ} (hp : Spells s p) (hq : Spells s q)
    (hstart : p.start = q.start) (hstop : p.stop = q.stop) : p = q := by
  have hm : p.marker = q.marker :=
    hp.1.spelling_inj hq.1 (by rw [← hp.slice_eq, ← hq.slice_eq, hstart, hstop])
  cases p
  cases q
  simp_all

theorem OccursAt.spells {s digits name : List σ} {i j : Nat} (h : OccursAt s i j digits name) :
    Spells s ⟨⟨spell "0x" ++ digits, name⟩, i, j⟩ := by
  have hspelling : (⟨spell "0x" ++ digits, name⟩ : Marker σ).spelling = slice s i j := by
    rw [h.slice_eq]
    simp [Marker.spelling, spell]
  have hlength : (slice s i j).length = j - i := by
    have hj := h.stop_le
    simp only [slice, List.length_drop, List.length_take]
    omega
  refine ⟨⟨⟨digits, h.digits_ne_nil, h.digits_hex, rfl⟩, h.name_ne_nil, h.name_open⟩,
    s.take i, s.drop j, ?_, ?_, ?_⟩
  · rw [hspelling]
    exact eq_append_slice s h.start_le
  · have hi := h.start_le
    have hj := h.stop_le
    simp only [List.length_take]
    omega
  · have hi := h.start_le
    have hj := h.stop_le
    simp only [hspelling, hlength, List.length_take]
    omega

theorem Spells.occursAt {s : List σ} {p : Span σ} (h : Spells s p) :
    ∃ digits name, OccursAt s p.start p.stop digits name ∧
      p.marker = ⟨spell "0x" ++ digits, name⟩ := by
  have hslice := h.slice_eq
  have hlt := h.start_lt_stop
  obtain ⟨⟨⟨digits, hne, hd, ho⟩, hm, hopen⟩, u, v, hs, hstart, hstop⟩ := h
  refine ⟨digits, p.marker.module, ⟨hlt.le, ?_, hne, hd, hm, hopen, ?_⟩, ?_⟩
  · rw [hs, hstop]
    simp
  · rw [hslice, Marker.spelling, ho]
    simp [spell]
  · rw [← ho]

theorem spells_of_mem_spans {s : List σ} : ∀ p ∈ spans s, Spells s p := by
  induction s using scan_induction with
  | nil => simp [spans_nil]
  | marker m r hm ih =>
      intro p hp
      rw [spans_spelling hm] at hp
      rcases List.mem_cons.mp hp with rfl | hp
      · exact ⟨hm, [], r, rfl, rfl, by simp⟩
      · obtain ⟨q, hq, rfl⟩ := List.mem_map.mp hp
        exact (ih q hq).shift m.spelling
  | plain a s hr ih =>
      intro p hp
      rw [spans_cons hr] at hp
      obtain ⟨q, hq, rfl⟩ := List.mem_map.mp hp
      exact (ih q hq).shift [a]

theorem ordered_spans (s : List σ) :
    (spans s).Pairwise fun p q => p.start < q.start ∧ p.stop ≤ q.start := by
  have hshift (k : Nat) (p q : Span σ) (h : p.start < q.start ∧ p.stop ≤ q.start) :
      (p.shift k).start < (q.shift k).start ∧ (p.shift k).stop ≤ (q.shift k).start := by
    simp only [Span.shift]
    omega
  induction s using scan_induction with
  | nil => exact .nil
  | marker m r hm ih =>
      rw [spans_spelling hm]
      refine .cons ?_ (ih.map _ (hshift _))
      intro q hq
      obtain ⟨q, -, rfl⟩ := List.mem_map.mp hq
      have hpos := m.length_spelling_pos
      simp only [Span.shift]
      omega
  | plain a s hr ih =>
      rw [spans_cons hr]
      exact ih.map _ (hshift 1)

theorem exists_span_of_append {m : Marker σ} (hm : m.Valid) {s u v : List σ}
    (hs : s = u ++ m.spelling ++ v) :
    ∃ p ∈ spans s, p.start ≤ u.length ∧ p.stop = u.length + m.spelling.length := by
  induction s using scan_induction generalizing u with
  | nil =>
      have hnil : m.spelling = [] := by simp_all
      exact absurd hnil m.spelling_ne_nil
  | marker n r hn ih =>
      rw [spans_spelling hn]
      rw [List.append_assoc, Marker.spelling_append, Marker.spelling_append] at hs
      rcases List.append_eq_append_iff.mp hs with ⟨w, rfl, hw⟩ | ⟨w, hw, hr⟩
      · cases w with
        | nil =>
            -- The second marker would start with the parenthesis that closes the first.
            obtain ⟨a, t, ht⟩ := List.exists_cons_of_ne_nil m.opening_ne_nil
            have ha : Alphabet.letter ')' = a := by simpa [ht] using congrArg List.head? hw
            exact absurd (by simp [ht, ha]) hm.close_notMem_opening
        | cons b w =>
            obtain ⟨rfl, hr⟩ := List.cons.inj hw
            have hr' : r = w ++ m.spelling ++ v := by
              rw [List.append_assoc, Marker.spelling_append]
              exact hr
            obtain ⟨p, hp, hstart, hstop⟩ := ih hr'
            refine ⟨p.shift n.spelling.length,
              List.mem_cons_of_mem _ (List.mem_map.mpr ⟨p, hp, rfl⟩), ?_, ?_⟩ <;>
              simp only [Span.shift, Marker.length_spelling, List.length_append,
                List.length_cons] at * <;> omega
      · -- It starts within the first, so the first parenthesis that can close either closes both.
        have hopen := hn.close_notMem_opening
        rw [hw] at hopen
        obtain ⟨hmw, -⟩ := (append_cons_inj hm.close_notMem_opening
          (fun h => hopen (List.mem_append_right u h))).mp hr
        refine ⟨_, List.mem_cons_self .., Nat.zero_le _, ?_⟩
        simp only [Marker.length_spelling, hw, hmw, List.length_append]
        omega
  | plain a s hr ih =>
      cases u with
      | nil =>
          rw [hs, List.nil_append, Marker.read?_spelling hm] at hr
          cases hr
      | cons b u =>
          obtain ⟨rfl, hs'⟩ := List.cons.inj hs
          obtain ⟨p, hp, hstart, hstop⟩ := ih hs'
          rw [spans_cons hr]
          refine ⟨p.shift 1, List.mem_map.mpr ⟨p, hp, rfl⟩, ?_, ?_⟩ <;>
            simp only [Span.shift, List.length_cons] <;> omega

theorem markersOf_spans (s : List σ) : MarkersOf s (spans s) where
  ordered := ordered_spans s
  sound := by
    intro p hp
    have h := spells_of_mem_spans p hp
    obtain ⟨digits, name, hat, hm⟩ := h.occursAt
    exact ⟨digits, name, hat, hm, h.slice_eq⟩
  complete := by
    intro i j digits name h
    obtain ⟨hm, u, v, hs, hstart, hstop⟩ := h.spells
    obtain ⟨p, hp, hle, heq⟩ := exists_span_of_append hm hs
    exact ⟨p, hp, hle.trans hstart.ge, heq.trans hstop.symm⟩

namespace MarkersOf

variable {s : List σ} {ps qs : List (Span σ)}

theorem spells (h : MarkersOf s ps) {p : Span σ} (hp : p ∈ ps) : Spells s p := by
  obtain ⟨digits, name, hat, hm, -⟩ := h.sound p hp
  have hs := hat.spells
  rw [← hm] at hs
  exact hs

theorem eq_of_stop_eq (h : MarkersOf s ps) {p q : Span σ} (hp : p ∈ ps) (hq : q ∈ ps)
    (hstop : p.stop = q.stop) : p = q := by
  have hne : ps.Pairwise fun p q => p.stop ≠ q.stop := by
    refine h.ordered.imp_of_mem fun {p q} _ hq hpq => ?_
    have hlt := (h.spells hq).start_lt_stop
    omega
  refine List.Pairwise.forall_of_forall_of_flip (R := fun p q => p.stop = q.stop → p = q)
    (fun _ _ _ => rfl) (hne.imp fun hn he => absurd he hn) ?_ hp hq hstop
  exact hne.imp fun hn he => absurd he.symm hn

theorem subset (hps : MarkersOf s ps) (hqs : MarkersOf s qs) : ps ⊆ qs := by
  intro p hp
  obtain ⟨digits, name, hat, -⟩ := hps.sound p hp
  obtain ⟨q, hq, hqp, hstop⟩ := hqs.complete _ _ _ _ hat
  obtain ⟨digits', name', hat', -⟩ := hqs.sound q hq
  obtain ⟨p', hp', hpq, hstop'⟩ := hps.complete _ _ _ _ hat'
  obtain rfl := hps.eq_of_stop_eq hp' hp (hstop'.trans hstop)
  obtain rfl := (hps.spells hp).eq (hqs.spells hq) (by omega) hstop.symm
  exact hq

theorem unique (hps : MarkersOf s ps) (hqs : MarkersOf s qs) : ps = qs := by
  let before (p q : Span σ) : Prop := p.start < q.start ∧ p.stop ≤ q.start
  have : Std.Irrefl before := ⟨fun p h => absurd h.1 (lt_irrefl _)⟩
  have : Std.Antisymm before := ⟨fun p q h h' => absurd (h.1.trans h'.1) (lt_irrefl _)⟩
  exact List.Subset.antisymm_of_pairwise (r := before) hps.ordered hqs.ordered
    (hps.subset hqs) (hqs.subset hps)

end MarkersOf

theorem spans_exact (s : List σ) :
    MarkersOf s (spans s) ∧ (∀ ps, MarkersOf s ps → ps = spans s) ∧
      ∀ i j digits name, OccursAt s i j digits name → ∃ p ∈ spans s, p.start ≤ i ∧ i < p.stop := by
  refine ⟨markersOf_spans s, fun ps h => h.unique (markersOf_spans s), ?_⟩
  intro i j digits name h
  obtain ⟨p, hp, hstart, hstop⟩ := (markersOf_spans s).complete i j digits name h
  have hlt : i < j := h.spells.start_lt_stop
  exact ⟨p, hp, hstart, hstop ▸ hlt⟩

example : spans (spell "[+0x[+0x1](a[+0x2](b)" : Text) =
    [⟨⟨spell "0x1", spell "a[+0x2](b"⟩, 4, 21⟩] := by decide

end Symbolication
