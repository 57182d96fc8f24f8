import Symbolication.Marker

namespace Symbolication

variable {σ : Type} [DecidableEq σ] [Alphabet σ]

inductive Piece (σ : Type) where
  | plain (s : σ)
  | marker (m : Marker σ)
  deriving DecidableEq, Repr

namespace Piece

def marker? : Piece σ → Option (Marker σ)
  | .plain _ => none
  | .marker m => some m

def render (f : Marker σ → List σ) : Piece σ → List σ
  | .plain s => [s]
  | .marker m => f m

end Piece

def scanFrom (done : List (Piece σ)) : Nat → List σ → List (Piece σ)
  | _, [] => done.reverse
  | skip + 1, _ :: s => scanFrom done skip s
  | 0, a :: s =>
      match Marker.read? (a :: s) with
      | some (m, _) => scanFrom (.marker m :: done) (m.spelling.length - 1) s
      | none => scanFrom (.plain a :: done) 0 s

def scan (s : List σ) : List (Piece σ) := scanFrom [] 0 s

theorem scanFrom_eq (done : List (Piece σ)) (skip : Nat) (s : List σ) :
    scanFrom done skip s = done.reverse ++ scan (s.drop skip) := by
  suffices h : ∀ done skip, scanFrom done skip s = done.reverse ++ scanFrom [] 0 (s.drop skip) from
    h done skip
  induction s with
  | nil => intro done skip; cases skip <;> simp [scanFrom]
  | cons a s ih =>
      intro done skip
      cases skip with
      | succ skip => exact ih done skip
      | zero =>
          simp only [scanFrom, List.drop_zero]
          split
          · rw [ih, ih [_]]; simp
          · rw [ih, ih [_]]; simp

theorem scan_of_read? {s r : List σ} {m : Marker σ} (h : Marker.read? s = some (m, r)) :
    scan s = .marker m :: scan r := by
  obtain ⟨-, rfl⟩ := Marker.read?_eq_some_iff.mp h
  cases hs : m.spelling with
  | nil => exact absurd hs (by simp [Marker.spelling, spell])
  | cons a t =>
      rw [hs, List.cons_append] at h
      rw [scan, List.cons_append, scanFrom, h]
      simp only [hs, List.length_cons, Nat.add_one_sub_one]
      rw [scanFrom_eq, List.drop_left]
      rfl

theorem scan_cons {a : σ} {s : List σ} (h : Marker.read? (a :: s) = none) :
    scan (a :: s) = .plain a :: scan s := by
  rw [scan, scanFrom, h, scanFrom_eq]
  rfl

def splice (f : Marker σ → List σ) (s : List σ) : List σ :=
  (scan s).flatMap (Piece.render f)

theorem splice_nil (f : Marker σ → List σ) : splice f [] = [] := rfl

theorem splice_of_read? (f : Marker σ → List σ) {s r : List σ} {m : Marker σ}
    (h : Marker.read? s = some (m, r)) : splice f s = f m ++ splice f r := by
  simp [splice, scan_of_read? h, Piece.render]

theorem splice_cons (f : Marker σ → List σ) {a : σ} {s : List σ}
    (h : Marker.read? (a :: s) = none) : splice f (a :: s) = a :: splice f s := by
  simp [splice, scan_cons h, Piece.render]

def markers (s : List σ) : List (Marker σ) := (scan s).filterMap Piece.marker?

structure Span (σ : Type) where
  marker : Marker σ
  start : Nat
  stop : Nat
  deriving DecidableEq, Repr

def spansFrom (position : Nat) : List (Piece σ) → List (Span σ)
  | [] => []
  | .plain _ :: ps => spansFrom (position + 1) ps
  | .marker m :: ps =>
      ⟨m, position, position + m.spelling.length⟩ :: spansFrom (position + m.spelling.length) ps

def spans (s : List σ) : List (Span σ) := spansFrom 0 (scan s)

omit [DecidableEq σ] in
theorem map_marker_spansFrom (position : Nat) (ps : List (Piece σ)) :
    (spansFrom position ps).map Span.marker = ps.filterMap Piece.marker? := by
  induction ps generalizing position with
  | nil => rfl
  | cons p ps ih => cases p <;> simp [spansFrom, Piece.marker?, List.filterMap_cons, ih]

theorem map_marker_spans (s : List σ) : (spans s).map Span.marker = markers s :=
  map_marker_spansFrom 0 (scan s)

end Symbolication
