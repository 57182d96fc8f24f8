import Symbolication.Proofs.Scan

namespace Symbolication

variable {σ : Type}

def gapsFrom (position : Nat) (s : List σ) : List (Span σ) → List (List σ)
  | [] => [s]
  | p :: ps => s.take (p.start - position) :: gapsFrom p.stop (s.drop (p.stop - position)) ps

def gaps (s : List σ) (ps : List (Span σ)) : List (List σ) := gapsFrom 0 s ps

def weave : List (List σ) → List (List σ) → List σ
  | g :: gs, t :: ts => g ++ t ++ weave gs ts
  | gs, [] => gs.flatten
  | [], ts => ts.flatten

theorem gapsFrom_shift (position k : Nat) (s : List σ) (ps : List (Span σ)) :
    gapsFrom (position + k) s (ps.map (Span.shift k)) = gapsFrom position s ps := by
  induction ps generalizing position s with
  | nil => rfl
  | cons p ps ih =>
      simp only [List.map_cons, gapsFrom, Span.shift, Nat.add_sub_add_right]
      rw [← ih]

theorem gaps_ne_nil (s : List σ) (ps : List (Span σ)) : gaps s ps ≠ [] := by
  cases ps <;> simp [gaps, gapsFrom]

theorem length_gaps (s : List σ) (ps : List (Span σ)) : (gaps s ps).length = ps.length + 1 := by
  suffices h : ∀ position, (gapsFrom position s ps).length = ps.length + 1 from h 0
  induction ps generalizing s with
  | nil => exact fun _ => rfl
  | cons p ps ih => exact fun position => congrArg (· + 1) (ih _ _)

theorem gaps_shift (u s : List σ) (ps : List (Span σ)) :
    gaps (u ++ s) (ps.map (Span.shift u.length)) = (gaps s ps).modifyHead (u ++ ·) := by
  cases ps with
  | nil => rfl
  | cons p ps =>
      have htake : (u ++ s).take (p.start + u.length) = u ++ s.take p.start := by
        rw [Nat.add_comm, List.take_length_add_append]
      have hdrop : (u ++ s).drop (p.stop + u.length) = s.drop p.stop := by
        rw [Nat.add_comm, List.drop_length_add_append]
      simp only [gaps, List.map_cons, gapsFrom, Span.shift, Nat.sub_zero, List.modifyHead_cons, htake,
        hdrop]
      rw [← gapsFrom_shift p.stop u.length]

theorem gaps_cons (a : σ) (s : List σ) (ps : List (Span σ)) :
    gaps (a :: s) (ps.map (Span.shift 1)) = (gaps s ps).modifyHead (a :: ·) :=
  gaps_shift [a] s ps

theorem gaps_append (m : Marker σ) (t s : List σ) (ps : List (Span σ)) :
    gaps (t ++ s) (⟨m, 0, t.length⟩ :: ps.map (Span.shift t.length)) = [] :: gaps s ps := by
  have h := gapsFrom_shift 0 t.length s ps
  rw [Nat.zero_add] at h
  simp [gaps, gapsFrom, h]

theorem weave_modifyHead (a : σ) {gs : List (List σ)} (h : gs ≠ []) (ts : List (List σ)) :
    weave (gs.modifyHead (a :: ·)) ts = a :: weave gs ts := by
  cases gs with
  | nil => exact absurd rfl h
  | cons g gs => cases ts <;> simp [weave]

variable [Alphabet σ] [DecidableEq σ]

theorem splice_spelling (f : Marker σ → List σ) {m : Marker σ} (h : m.Valid) (r : List σ) :
    splice f (m.spelling ++ r) = f m ++ splice f r :=
  splice_of_read? f (Marker.read?_spelling h r)

theorem splice_eq_weave (f : Marker σ → List σ) (s : List σ) :
    splice f s = weave (gaps s (spans s)) ((spans s).map fun p => f p.marker) := by
  induction s using scan_induction with
  | nil => rfl
  | marker m r hm ih =>
      rw [splice_spelling f hm, spans_spelling hm, gaps_append, ih, List.map_cons, List.map_map]
      rfl
  | plain a s hr ih =>
      rw [splice_cons f hr, spans_cons hr, gaps_cons, weave_modifyHead a (gaps_ne_nil _ _), ih,
        List.map_map]
      rfl

theorem splice_spelling_self (s : List σ) : splice Marker.spelling s = s := by
  induction s using scan_induction with
  | nil => rfl
  | marker m r hm ih => rw [splice_spelling _ hm, ih]
  | plain a s hr ih => rw [splice_cons _ hr, ih]

theorem splice_congr {f g : Marker σ → List σ} {s : List σ} (h : ∀ m ∈ markers s, f m = g m) :
    splice f s = splice g s := by
  induction s using scan_induction with
  | nil => rfl
  | marker m r hm ih =>
      rw [markers_spelling hm] at h
      rw [splice_spelling f hm, splice_spelling g hm, h m (List.mem_cons_self ..),
        ih fun n hn => h n (List.mem_cons_of_mem _ hn)]
  | plain a s hr ih =>
      rw [markers_cons hr] at h
      rw [splice_cons f hr, splice_cons g hr, ih h]

end Symbolication
