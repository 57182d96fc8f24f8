namespace Symbolication

abbrev Table (κ ν : Type) := List (κ × ν)

namespace Table

variable {κ ν : Type} [DecidableEq κ]

def keys (t : Table κ ν) : List κ := t.map Prod.fst

def get? : Table κ ν → κ → Option ν
  | [], _ => none
  | (k, v) :: t, j => if k = j then some v else get? t j

def update (j : κ) (f : Option ν → ν) : Table κ ν → Table κ ν
  | [] => [(j, f none)]
  | (k, v) :: t => if k = j then (k, f (some v)) :: t else (k, v) :: update j f t

theorem get?_update (j : κ) (f : Option ν → ν) (t : Table κ ν) (i : κ) :
    get? (update j f t) i = if j = i then some (f (get? t j)) else get? t i := by
  induction t with
  | nil => rfl
  | cons e t ih =>
      obtain ⟨k, v⟩ := e
      by_cases hj : k = j
      · subst hj
        by_cases hi : k = i <;> simp [update, get?, hi]
      · by_cases hi : k = i
        · subst hi
          simp [update, get?, hj, Ne.symm hj]
        · simp [update, get?, hj, hi, ih]

theorem keys_update (j : κ) (f : Option ν → ν) (t : Table κ ν) :
    keys (update j f t) = if j ∈ keys t then keys t else keys t ++ [j] := by
  induction t with
  | nil => rfl
  | cons e t ih =>
      obtain ⟨k, v⟩ := e
      by_cases hj : k = j
      · subst hj
        simp [update, keys]
      · have ih' : (update j f t).map Prod.fst =
            if j ∈ t.map Prod.fst then t.map Prod.fst else t.map Prod.fst ++ [j] := ih
        by_cases hm : j ∈ t.map Prod.fst
        · simp only [update, keys, hj, if_false, List.map_cons, List.mem_cons, Ne.symm hj, false_or,
            hm, if_true] at ih' ⊢
          rw [ih']
        · simp only [update, keys, hj, if_false, List.map_cons, List.mem_cons, Ne.symm hj, false_or,
            hm] at ih' ⊢
          rw [ih']
          rfl

def put (t : Table κ ν) (j : κ) (v : ν) : Table κ ν := update j (fun _ => v) t

def putNew (t : Table κ ν) (j : κ) (v : ν) : Table κ ν := update j (·.getD v) t

def merge (t u : Table κ ν) : Table κ ν := u.foldl (fun t e => put t e.1 e.2) t

def ofFirst (entries : List (κ × ν)) : Table κ ν :=
  entries.foldl (fun t e => putNew t e.1 e.2) []

end Table

end Symbolication
