import Symbolication.Proofs.Gaps
import Symbolication.Proofs.Occurrence
import Symbolication.Report

namespace Symbolication

variable {σ : Type} [Alphabet σ] [DecidableEq σ]

theorem Marker.read?_eq_none_of_append {s r : List σ} (h : read? (s ++ r) = none) :
    read? s = none := by
  cases hs : read? s with
  | none => rfl
  | some p =>
      obtain ⟨hp, rfl⟩ := read?_eq_some_iff.mp hs
      rw [List.append_assoc, read?_spelling hp] at h
      cases h

theorem Marker.read?_take {a : σ} {s : List σ} (h : read? (a :: s) = none) (p : Nat) :
    read? (a :: s.take p) = none := by
  apply read?_eq_none_of_append (r := s.drop p)
  rwa [List.cons_append, List.take_append_drop]

theorem spans_eq_nil {s : List σ} (h : markers s = []) : spans s = [] :=
  List.map_eq_nil_iff.mp ((map_marker_spans s).trans h)

theorem spans_take_spelling {m : Marker σ} (h : m.Valid) {p : Nat} (hp : p < m.spelling.length) :
    spans (m.spelling.take p) = [] := by
  apply spans_eq_nil
  apply markers_eq_nil_of_notMem
  have hspelling := m.spelling_append []
  rw [List.append_nil] at hspelling
  rw [m.length_spelling] at hp
  -- What is left ends before the only closing parenthesis of the marker.
  rw [hspelling, List.take_append_of_le_length (by omega)]
  exact fun hm => h.close_notMem_opening (List.mem_of_mem_take hm)

omit [Alphabet σ] [DecidableEq σ] in
theorem filter_map_shift {k p : Nat} (h : k ≤ p) (ps : List (Span σ)) :
    (ps.map (Span.shift k)).filter (fun q => q.stop ≤ p) =
      (ps.filter fun q => q.stop ≤ p - k).map (Span.shift k) := by
  rw [List.filter_map]
  congr 1
  apply List.filter_congr
  intro q _
  change decide (q.stop + k ≤ p) = decide (q.stop ≤ p - k)
  rw [decide_eq_decide]
  omega

theorem filter_spans_eq_nil {s : List σ} {k p : Nat} (h : p ≤ k) :
    ((spans s).map (Span.shift k)).filter (fun q => q.stop ≤ p) = [] := by
  rw [List.filter_eq_nil_iff, List.forall_mem_map]
  intro q hq
  have hlt := (spells_of_mem_spans q hq).start_lt_stop
  change ¬decide (q.stop + k ≤ p) = true
  rw [decide_eq_true_eq]
  omega

theorem spans_take (s : List σ) (p : Nat) :
    spans (s.take p) = (spans s).filter fun q => q.stop ≤ p := by
  induction s using scan_induction generalizing p with
  | nil => rw [List.take_nil, spans_nil, List.filter_nil]
  | marker m r hm ih =>
      rw [spans_spelling hm]
      by_cases hp : m.spelling.length ≤ p
      · rw [List.take_append, List.take_of_length_le hp, spans_spelling hm, ih,
          List.filter_cons_of_pos (by simpa using hp), filter_map_shift hp]
      · have hlt : p < m.spelling.length := Nat.lt_of_not_le hp
        rw [List.take_append_of_le_length hlt.le, spans_take_spelling hm hlt,
          List.filter_cons_of_neg (by simpa using hlt), filter_spans_eq_nil hlt.le]
  | plain a s hr ih =>
      rw [spans_cons hr]
      cases p with
      | zero => rw [List.take_zero, spans_nil, filter_spans_eq_nil (Nat.zero_le _)]
      | succ p =>
          rw [List.take_succ_cons, spans_cons (Marker.read?_take hr p), ih,
            filter_map_shift (Nat.le_add_left 1 p), Nat.add_sub_cancel]

def Between (s : List σ) (p : Nat) : Prop := ∀ q ∈ spans s, ¬(q.start < p ∧ p < q.stop)

instance (s : List σ) (p : Nat) : Decidable (Between s p) :=
  inferInstanceAs (Decidable (∀ q ∈ spans s, ¬(q.start < p ∧ p < q.stop)))

theorem scan_take_append_drop {s : List σ} {p : Nat} (h : Between s p) :
    scan (s.take p) ++ scan (s.drop p) = scan s := by
  induction s using scan_induction generalizing p with
  | nil => rw [List.take_nil, List.drop_nil]; rfl
  | marker m r hm ih =>
      rw [Between, spans_spelling hm, List.forall_mem_cons, List.forall_mem_map] at h
      obtain ⟨hfirst, hrest⟩ := h
      rcases Nat.eq_zero_or_pos p with rfl | hpos
      · rfl
      · have hp : m.spelling.length ≤ p := Nat.le_of_not_lt fun hlt => hfirst ⟨hpos, hlt⟩
        have hr : Between r (p - m.spelling.length) := by
          intro q hq hin
          apply hrest q hq
          simp only [Span.shift]
          omega
        rw [List.take_append, List.drop_append, List.take_of_length_le hp,
          List.drop_of_length_le hp, List.nil_append, scan_spelling hm, scan_spelling hm,
          List.cons_append, ih hr]
  | plain a s hr ih =>
      rw [Between, spans_cons hr, List.forall_mem_map] at h
      cases p with
      | zero => rfl
      | succ p =>
          have hs : Between s p := by
            intro q hq hin
            apply h q hq
            simp only [Span.shift]
            omega
          rw [List.take_succ_cons, List.drop_succ_cons, scan_cons (Marker.read?_take hr p),
            scan_cons hr, List.cons_append, ih hs]

theorem spans_take_append_drop {s : List σ} {p : Nat} (h : Between s p) :
    spans (s.take p) ++ (spans (s.drop p)).map (Span.shift p) = spans s := by
  have hwidth : ((scan (s.take p)).flatMap (Piece.render Marker.spelling)).length = min p s.length := by
    rw [← splice, splice_spelling_self, List.length_take]
  have hshift : spansFrom (0 + min p s.length) (scan (s.drop p)) =
      (spans (s.drop p)).map (Span.shift p) := by
    rcases Nat.le_total p s.length with hp | hp
    · rw [Nat.min_eq_left hp, spansFrom_add]
      rfl
    · rw [List.drop_of_length_le hp]
      rfl
  rw [← hshift, ← hwidth, spans, ← spansFrom_append, scan_take_append_drop h]
  rfl

theorem splice_take_append_drop (f : Marker σ → List σ) {s : List σ} {p : Nat} (h : Between s p) :
    splice f (s.take p) ++ splice f (s.drop p) = splice f s := by
  rw [splice, splice, ← List.flatMap_append, scan_take_append_drop h]
  rfl

theorem spans_cut (report : Text) (p : Nat) :
    spans (report.take p) = ((spans report).filter fun q => q.stop ≤ p) ∧
    (Between report p →
      spans report = spans (report.take p) ++ (spans (report.drop p)).map (Span.shift p) ∧
      ∀ table : Replacements, Report.substitute table report =
        Report.substitute table (report.take p) ++ Report.substitute table (report.drop p)) := by
  refine ⟨spans_take report p, fun h => ⟨(spans_take_append_drop h).symm, fun table => ?_⟩⟩
  exact (splice_take_append_drop _ h).symm

theorem spans_cut_rough :
    Between (spell "[+0x1](a)[+0x2[+0x3](b[+0x4](c)" : Text) 14 ∧
    spans (spell "[+0x1](a)[+0x2[+0x3](b[+0x4](c)" : Text) =
      spans (spell "[+0x1](a)[+0x2") ++ (spans (spell "[+0x3](b[+0x4](c)")).map (Span.shift 14) ∧
    Report.substitute [(spell "[+0x3](b[+0x4](c)", spell "[+0x1](a)")]
        (spell "[+0x1](a)[+0x2[+0x3](b[+0x4](c)") =
      spell "[+0x1](a)[+0x2" ++ spell "[+0x1](a)" := by
  have h : Between (spell "[+0x1](a)[+0x2[+0x3](b[+0x4](c)" : Text) 14 := by decide
  obtain ⟨hspans, hsubstitute⟩ := (spans_cut _ 14).2 h
  exact ⟨h, hspans, (hsubstitute _).trans (by decide)⟩

end Symbolication
