import Symbolication.Text

namespace Symbolication

variable {σ : Type} [DecidableEq σ] [Alphabet σ]

namespace Block

def newline : σ := Alphabet.letter '\n'

def carriageReturn : σ := Alphabet.letter '\r'

def foldFrom (done : List σ) : List σ → List σ
  | a :: b :: s =>
      if a = carriageReturn ∧ b = newline then foldFrom (newline :: done) s
      else foldFrom (a :: done) (b :: s)
  | s => done.reverse ++ s

def foldLineEnds (s : List σ) : List σ := foldFrom [] s

theorem foldFrom_eq : ∀ done s : List σ, foldFrom done s = done.reverse ++ foldLineEnds s
  | _, [] => rfl
  | _, [_] => rfl
  | done, a :: b :: s => by
      simp only [foldLineEnds, foldFrom]
      split
      · rw [foldFrom_eq _ s, foldFrom_eq [_] s]; simp
      · rw [foldFrom_eq _ (b :: s), foldFrom_eq [_] (b :: s)]; simp

theorem foldLineEnds_nil : foldLineEnds ([] : List σ) = [] := rfl

theorem foldLineEnds_lineEnd (s : List σ) :
    foldLineEnds (carriageReturn :: newline :: s) = newline :: foldLineEnds s := by
  simp [foldLineEnds, foldFrom, foldFrom_eq [newline]]

theorem foldLineEnds_cons {a : σ} {s : List σ} (h : ¬(a = carriageReturn ∧ s.head? = some newline)) :
    foldLineEnds (a :: s) = a :: foldLineEnds s := by
  cases s with
  | nil => rfl
  | cons b s =>
      have h : ¬(a = carriageReturn ∧ b = newline) := by simpa using h
      rw [foldLineEnds, foldFrom, if_neg h, foldFrom_eq]
      rfl

def cutFrom (done : List (List σ)) (block : List σ) : List σ → List (List σ)
  | a :: b :: s =>
      if a = newline ∧ b = newline then cutFrom (block.reverse :: done) [] s
      else cutFrom done (a :: block) (b :: s)
  | s => done.reverse ++ [block.reverse ++ s]

def cut (s : List σ) : List (List σ) := cutFrom [] [] s

theorem cutFrom_eq : ∀ (done : List (List σ)) (block s : List σ),
    cutFrom done block s = done.reverse ++ (cut s).modifyHead (block.reverse ++ ·)
  | _, _, [] => by simp [cut, cutFrom]
  | _, _, [_] => by simp [cut, cutFrom]
  | done, block, a :: b :: s => by
      simp only [cut, cutFrom]
      split
      · rw [cutFrom_eq _ [] s, cutFrom_eq [_] [] s]; simp
      · rw [cutFrom_eq _ _ (b :: s), cutFrom_eq [] _ (b :: s)]; simp [Function.comp_def]

theorem cut_blankLine (s : List σ) : cut (newline :: newline :: s) = [] :: cut s := by
  rw [cut, cutFrom, if_pos ⟨rfl, rfl⟩, cutFrom_eq]
  cases cut s <;> rfl

theorem cut_cons {a : σ} {s : List σ} (h : ¬(a = newline ∧ s.head? = some newline)) :
    cut (a :: s) = (cut s).modifyHead (a :: ·) := by
  cases s with
  | nil => rfl
  | cons b s =>
      have h : ¬(a = newline ∧ b = newline) := by simpa using h
      rw [cut, cutFrom, if_neg h, cutFrom_eq]
      rfl

def body (output : List σ) : List σ :=
  trimEnd (fun a => decide (a = newline)) (foldLineEnds output)

def split (output : List σ) : List (List σ) :=
  if body output = [] then [] else cut (body output)

end Block

end Symbolication
